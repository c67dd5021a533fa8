import Mathlib.Algebra.BigOperators.Group.List.Basic
import Mathlib.Algebra.GroupWithZero.Nat
import Mathlib.Tactic.Common

namespace Counter

variable {σ α : Type*} {width : ℕ} {read : σ → ℕ} {step : σ → α → σ}

/-- Every turn of the loop raises the counter by what it finds in its element. -/
def Raises (width : ℕ) (read : σ → ℕ) (step : σ → α → σ) (found : α → ℕ) : Prop :=
  ∀ s a, read s < width → read (step s a) = (read s + found a) % width

/-- The loop raises the counter by the sum. -/
theorem Raises.foldl {found : α → ℕ} (h : Raises width read step found) (l : List α) {s : σ}
    (hs : read s < width) : read (l.foldl step s) = (read s + (l.map found).sum) % width := by
  induction l generalizing s with
  | nil => exact (Nat.mod_eq_of_lt hs).symm
  | cons a l ih =>
    have hlt : read (step s a) < width := by
      rw [h s a hs]
      exact Nat.mod_lt _ (Nat.zero_lt_of_lt hs)
    calc read (l.foldl step (step s a))
        = ((read s + found a) % width + (l.map found).sum) % width := by rw [ih hlt, h s a hs]
      _ = (read s + ((a :: l).map found).sum) % width := by
          rw [Nat.mod_add_mod, List.map_cons, List.sum_cons, add_assoc]

/-- A loop that counts the elements with a property. -/
theorem Raises.countP {P : α → Bool} (h : Raises width read step fun a => if P a then 1 else 0)
    (l : List α) {s : σ} (hs : read s < width) :
    read (l.foldl step s) = (read s + l.countP P) % width := by
  have hsum : (l.map fun a => if P a then 1 else 0).sum = l.countP P := by
    induction l with
    | nil => rfl
    | cons a l ih => rw [List.map_cons, List.sum_cons, ih, List.countP_cons, add_comm]
  rw [h.foldl l hs, hsum]

end Counter
