import Mathlib.Data.List.Basic
import Mathlib.Logic.Function.Basic
import Mathlib.Tactic.Common

/-! A memory that is written cell by cell: what stands in it after some writes, and what is read
from a span of it. -/
namespace Memory

variable {α : Type*}

/-- The memory after some writes, of which a later one takes the place of an earlier one. -/
def write {ι : Type*} [DecidableEq ι] (memory : ι → α) (writes : List (ι × α)) : ι → α :=
  writes.foldl (fun memory w => Function.update memory w.1 w.2) memory

section Write

variable {ι : Type*} [DecidableEq ι] {writes : List (ι × α)} {k : ι} {v : α}

@[simp] theorem write_nil (memory : ι → α) : write memory [] = memory := rfl

@[simp] theorem write_cons (memory : ι → α) (w : ι × α) (writes : List (ι × α)) :
    write memory (w :: writes) = write (Function.update memory w.1 w.2) writes := rfl

theorem write_of_notMem (h : k ∉ writes.map Prod.fst) (memory : ι → α) :
    write memory writes k = memory k := by
  induction writes generalizing memory with
  | nil => rfl
  | cons w writes ih =>
    rw [List.map_cons, List.mem_cons, not_or] at h
    calc write memory (w :: writes) k = Function.update memory w.1 w.2 k := ih h.2 _
      _ = memory k := Function.update_of_ne h.1 _ _

/-- What has been written to a cell once is what stands there. -/
theorem write_of_mem (hnodup : (writes.map Prod.fst).Nodup) (h : (k, v) ∈ writes)
    (memory : ι → α) : write memory writes k = v := by
  induction writes generalizing memory with
  | nil => cases h
  | cons w writes ih =>
    obtain ⟨hnew, hnodup⟩ := List.nodup_cons.mp hnodup
    rcases List.mem_cons.mp h with rfl | h
    · calc write memory ((k, v) :: writes) k = Function.update memory k v k :=
            write_of_notMem hnew _
        _ = v := Function.update_self _ _ _
    · exact ih hnodup h _

/-- One value that is written to several cells. -/
theorem write_const (keys : List ι) (v : α) (memory : ι → α) :
    write memory (keys.map fun i => (i, v)) k = if k ∈ keys then v else memory k := by
  induction keys generalizing memory with
  | nil => rfl
  | cons i keys ih =>
    rw [List.map_cons, write_cons, ih]
    by_cases hk : k = i
    · simp [hk]
    · simp [hk]

end Write

/-- Cells that stand next to one another. -/
structure Span where
  start : ℕ
  length : ℕ

namespace Span

/-- The span does not leave a buffer of this size. -/
def Within (s : Span) (size : ℕ) : Prop := s.start + s.length ≤ size

instance (s : Span) (size : ℕ) : Decidable (s.Within size) :=
  inferInstanceAs (Decidable (_ ≤ _))

def read (s : Span) (memory : ℕ → α) : List α :=
  (List.range s.length).map fun i => memory (s.start + i)

@[simp] theorem length_read (s : Span) (memory : ℕ → α) : (s.read memory).length = s.length := by
  rw [read, List.length_map, List.length_range]

/-- A span of a buffer that has been written from its start is a piece of what was written. -/
theorem read_write {s : Span} {l : List α} (h : s.Within l.length) (memory : ℕ → α) :
    s.read (write memory (l.zipIdx.map Prod.swap)) = (l.drop s.start).take s.length := by
  have hnodup : ((l.zipIdx.map Prod.swap).map Prod.fst).Nodup := by
    have hkeys : (l.zipIdx.map Prod.swap).map Prod.fst = List.range' 0 l.length := by
      calc (l.zipIdx.map Prod.swap).map Prod.fst = l.zipIdx.map Prod.snd := by
            rw [List.map_map]
            rfl
        _ = List.range' 0 l.length := List.zipIdx_map_snd 0 l
    rw [hkeys]
    exact List.nodup_range'
  have hcell : ∀ (k : ℕ) (hk : k < l.length), write memory (l.zipIdx.map Prod.swap) k = l[k] := by
    intro k hk
    apply write_of_mem hnodup
    exact List.mem_map.mpr ⟨(l[k], k), List.mk_mem_zipIdx_iff_getElem?.mpr
      (List.getElem?_eq_getElem hk), rfl⟩
  rw [Within] at h
  apply List.ext_getElem
  · rw [length_read, List.length_take, List.length_drop]
    omega
  · intro i hi hi'
    rw [length_read] at hi
    simp only [read, List.getElem_map, List.getElem_range, List.getElem_take, List.getElem_drop]
    exact hcell _ _

end Span

end Memory
