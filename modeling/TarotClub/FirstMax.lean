import Mathlib.Data.List.Basic
import Mathlib.Order.Lattice

/-- `x` stands in the list at a place where everything before it is strictly less and nothing
behind it is greater. -/
def IsFirstMax {α β : Type*} [LinearOrder β] (f : α → β) (l : List α) (x : α) : Prop :=
  ∃ pre post, l = pre ++ x :: post ∧ (∀ y ∈ pre, f y < f x) ∧ ∀ y ∈ post, f y ≤ f x

namespace IsFirstMax

variable {α β : Type*} [LinearOrder β] {f : α → β} {l : List α} {x y : α}

theorem singleton (f : α → β) (x : α) : IsFirstMax f [x] x := ⟨[], [], rfl, by simp, by simp⟩

theorem mem (h : IsFirstMax f l x) : x ∈ l := by
  obtain ⟨pre, post, rfl, -, -⟩ := h
  exact List.mem_append_right pre List.mem_cons_self

theorem le (h : IsFirstMax f l x) (hy : y ∈ l) : f y ≤ f x := by
  obtain ⟨pre, post, rfl, hpre, hpost⟩ := h
  rcases List.mem_append.mp hy with hy | hy
  · exact (hpre y hy).le
  rcases List.mem_cons.mp hy with rfl | hy
  exacts [le_rfl, hpost y hy]

/-- An element that is not greater does not count. -/
theorem append_le (h : IsFirstMax f l x) (hy : f y ≤ f x) : IsFirstMax f (l ++ [y]) x := by
  obtain ⟨pre, post, rfl, hpre, hpost⟩ := h
  refine ⟨pre, post ++ [y], by simp, hpre, fun z hz => ?_⟩
  rcases List.mem_append.mp hz with hz | hz
  · exact hpost z hz
  · rwa [List.mem_singleton.mp hz]

/-- A greater element takes the place. -/
theorem append_lt (h : IsFirstMax f l x) (hy : f x < f y) : IsFirstMax f (l ++ [y]) y :=
  ⟨l, [], rfl, fun _ hz => lt_of_le_of_lt (h.le hz) hy, by simp⟩

end IsFirstMax
