import Mathlib.Data.List.Basic
import Mathlib.Tactic.Common

/-! Texts with a terminator behind them. They are read through an index, which may stand on the
terminator; there is nothing to read behind it. -/

/-- The characters before the terminator. -/
structure Terminated (α : Type*) (nul : α) where
  chars : List α
  noNul : nul ∉ chars

namespace Terminated

variable {α β : Type*} {nul : α} {text : Terminated α nul} {i : ℕ} {c : α} {t : List α}

/-- `text[i]` -/
def get? (text : Terminated α nul) (i : ℕ) : Option α := (text.chars ++ [nul])[i]?

theorem get?_eq_none : text.get? i = none ↔ text.chars.length < i := by
  rw [get?, List.getElem?_eq_none_iff, List.length_append, List.length_singleton]
  omega

theorem le_length_of_get? (h : text.get? i = some c) : i ≤ text.chars.length := by
  by_contra hlt
  rw [get?_eq_none.mpr (by omega)] at h
  contradiction

/-- The index stands in front of the characters `t`, the last ones before the terminator. -/
def At (text : Terminated α nul) (i : ℕ) (t : List α) : Prop :=
  ∃ front, text.chars = front ++ t ∧ front.length = i

namespace At

theorem start (text : Terminated α nul) : text.At 0 text.chars := ⟨[], rfl, rfl⟩

theorem of_le (h : i ≤ text.chars.length) : text.At i (text.chars.drop i) :=
  ⟨text.chars.take i, (List.take_append_drop i text.chars).symm, List.length_take_of_le h⟩

theorem length_eq (h : text.At i t) : i + t.length = text.chars.length := by
  obtain ⟨front, hchars, rfl⟩ := h
  rw [hchars, List.length_append]

theorem get?_eq (h : text.At i t) : text.get? i = some (t.headD nul) := by
  obtain ⟨front, hchars, rfl⟩ := h
  rw [get?, hchars, List.append_assoc, List.getElem?_append_right (Nat.le_refl _), Nat.sub_self]
  cases t with
  | nil => rfl
  | cons c t => rfl

theorem ne_nul (h : text.At i t) (hc : c ∈ t) : c ≠ nul := by
  obtain ⟨front, hchars, rfl⟩ := h
  rintro rfl
  exact text.noNul (hchars ▸ List.mem_append_right front hc)

theorem append {u : List α} (h : text.At i (t ++ u)) : text.At (i + t.length) u := by
  obtain ⟨front, hchars, rfl⟩ := h
  exact ⟨front ++ t, by rw [hchars, List.append_assoc], List.length_append⟩

theorem tail (h : text.At i (c :: t)) : text.At (i + 1) t := h.append (t := [c])

end At

/-! ### Scanning -/

/-- `while (p(*s)) acc = f(acc, *s++)` -/
def foldWhile (text : Terminated α nul) (p : α → Bool) (f : β → α → β) (acc : β) (i : ℕ) :
    Option (β × ℕ) :=
  match h : text.get? i with
  | none => none
  | some c => if p c then text.foldWhile p f (f acc c) (i + 1) else some (acc, i)
termination_by text.chars.length + 1 - i
decreasing_by
  have hle := le_length_of_get? h
  omega

theorem foldWhile_of_get? (h : text.get? i = some c) (p : α → Bool) (f : β → α → β) (acc : β) :
    text.foldWhile p f acc i =
      if p c then text.foldWhile p f (f acc c) (i + 1) else some (acc, i) := by
  rw [foldWhile]
  split
  · rename_i hnone
    rw [h] at hnone
    contradiction
  · rename_i d hsome
    rw [Option.some.inj (h.symm.trans hsome)]

/-- A scan that does not take the terminator stops inside the text. -/
theorem At.foldWhile_eq {p : α → Bool} (hp : p nul = false) (f : β → α → β) (h : text.At i t)
    (acc : β) : ∃ j, text.foldWhile p f acc i = some ((t.takeWhile p).foldl f acc, j) ∧
      text.At j (t.dropWhile p) := by
  induction t generalizing i acc with
  | nil =>
    refine ⟨i, ?_, h⟩
    rw [foldWhile_of_get? h.get?_eq, List.headD_nil, hp]
    rfl
  | cons c t ih =>
    rw [foldWhile_of_get? h.get?_eq, List.headD_cons]
    by_cases hc : p c = true
    · obtain ⟨j, hj, hat⟩ := ih h.tail (f acc c)
      refine ⟨j, ?_, ?_⟩
      · rw [if_pos hc, hj, List.takeWhile_cons_of_pos hc, List.foldl_cons]
      · rwa [List.dropWhile_cons_of_pos hc]
    · refine ⟨i, ?_, ?_⟩
      · rw [if_neg hc, List.takeWhile_cons_of_neg hc, List.foldl_nil]
      · rwa [List.dropWhile_cons_of_neg hc]

end Terminated
