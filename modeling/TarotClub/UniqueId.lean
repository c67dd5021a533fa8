import Mathlib.Data.List.Basic

namespace TarotClub

structure UniqueId where
  mMin : ℕ
  mMax : ℕ
  mUsedIds : List ℕ := []

namespace UniqueId

def cInvalidId : ℕ := 0

/-- The constructor: it corrects a range that begins at zero or is empty. -/
def create (min max : ℕ) : UniqueId :=
  let mMin := if min = 0 then 1 else min
  { mMin := mMin, mMax := if max ≤ mMin then mMin + 1 else max }

def isTaken (ids : UniqueId) (id : ℕ) : Bool := ids.mUsedIds.contains id

/-- The lowest free identifier, or the invalid one when the range is used up. -/
def takeId (ids : UniqueId) : ℕ × UniqueId :=
  match (List.range' ids.mMin (ids.mMax + 1 - ids.mMin)).find? fun i => !ids.isTaken i with
  | some i => (i, { ids with mUsedIds := ids.mUsedIds ++ [i] })
  | none => (cInvalidId, ids)

def releaseId (ids : UniqueId) (id : ℕ) : UniqueId :=
  { ids with mUsedIds := ids.mUsedIds.erase id }

@[simp] theorem isTaken_iff (ids : UniqueId) (id : ℕ) :
    ids.isTaken id = true ↔ id ∈ ids.mUsedIds := by
  simp [isTaken]

@[simp] theorem takeId_mMin (ids : UniqueId) : ids.takeId.2.mMin = ids.mMin := by
  unfold takeId
  split <;> rfl

@[simp] theorem takeId_mMax (ids : UniqueId) : ids.takeId.2.mMax = ids.mMax := by
  unfold takeId
  split <;> rfl

/-- Either the range is used up, or a free identifier is taken. -/
theorem takeId_cases (ids : UniqueId) :
    ids.takeId.1 = cInvalidId ∧ ids.takeId.2 = ids ∨
      (ids.mMin ≤ ids.takeId.1 ∧ ids.takeId.1 ≤ ids.mMax) ∧ ids.takeId.1 ∉ ids.mUsedIds ∧
        ids.takeId.2.mUsedIds = ids.mUsedIds ++ [ids.takeId.1] := by
  unfold takeId
  split
  next i hi =>
    have hmem := List.mem_of_find?_eq_some hi
    have hfree := List.find?_some hi
    rw [List.mem_range'_1] at hmem
    refine .inr ⟨⟨hmem.1, by omega⟩, ?_, rfl⟩
    rw [← isTaken_iff, Bool.not_eq_true]
    simpa using hfree
  · exact .inl ⟨rfl, rfl⟩

end UniqueId

end TarotClub
