import Mathlib.Data.Finset.Prod
import Mathlib.Data.Nat.Find
import Mathlib.Tactic.Common

namespace Runs

open Finset (range)

variable {p : ℕ → Bool} {m n : ℕ}

/-- Below `n`, the predicate holds from `i` on until before `j`, and on neither side any further. -/
def IsMaximal (p : ℕ → Bool) (n i j : ℕ) : Prop :=
  j ≤ n ∧ (∀ k < j, i ≤ k → p k = true) ∧ (i = 0 ∨ p (i - 1) = false) ∧ (j = n ∨ p j = false)

instance (p : ℕ → Bool) (n i j : ℕ) : Decidable (IsMaximal p n i j) :=
  inferInstanceAs (Decidable (_ ∧ (∀ k < j, _) ∧ _ ∧ _))

/-- The maximal runs of at least `m` numbers, each with its begin and its end. -/
def long (p : ℕ → Bool) (n m : ℕ) : Finset (ℕ × ℕ) :=
  (range n ×ˢ range (n + 1)).filter fun r => IsMaximal p n r.1 r.2 ∧ r.1 + m ≤ r.2

/-- Where a run of at least `m` numbers begins. -/
def starts (p : ℕ → Bool) (n m : ℕ) : Finset ℕ :=
  (range n).filter fun i =>
    i + m ≤ n ∧ (∀ k < i + m, i ≤ k → p k = true) ∧ (i = 0 ∨ p (i - 1) = false)

theorem mem_long (hm : 0 < m) {i j : ℕ} :
    (i, j) ∈ long p n m ↔ IsMaximal p n i j ∧ i + m ≤ j := by
  rw [long, Finset.mem_filter, Finset.mem_product, Finset.mem_range, Finset.mem_range]
  constructor
  · exact And.right
  · intro h
    have hle := h.1.1
    exact ⟨⟨by omega, by omega⟩, h⟩

theorem mem_starts (hm : 0 < m) {i : ℕ} : i ∈ starts p n m ↔
    i + m ≤ n ∧ (∀ k < i + m, i ≤ k → p k = true) ∧ (i = 0 ∨ p (i - 1) = false) := by
  rw [starts, Finset.mem_filter, Finset.mem_range]
  constructor
  · exact And.right
  · intro h
    exact ⟨by omega, h⟩

/-- A long run is known by where it begins. -/
theorem card_long (hm : 0 < m) : (long p n m).card = (starts p n m).card := by
  apply Finset.card_bij fun r _ => r.1
  · rintro ⟨i, j⟩ h
    obtain ⟨⟨hle, hholds, hleft, -⟩, hlong⟩ := (mem_long hm).mp h
    rw [mem_starts hm]
    exact ⟨hlong.trans hle, fun k hk hik => hholds k (hk.trans_le hlong) hik, hleft⟩
  · rintro ⟨i, j⟩ h ⟨i', j'⟩ h' rfl
    obtain ⟨⟨hle, hholds, -, hright⟩, hlong⟩ := (mem_long hm).mp h
    obtain ⟨⟨hle', hholds', -, hright'⟩, hlong'⟩ := (mem_long hm).mp h'
    dsimp only at *
    rcases Nat.lt_trichotomy j j' with hlt | rfl | hlt
    · have hgap := hright.resolve_left (by omega)
      rw [hholds' j hlt (by omega)] at hgap
      cases hgap
    · rfl
    · have hgap := hright'.resolve_left (by omega)
      rw [hholds j' hlt (by omega)] at hgap
      cases hgap
  · intro i hi
    obtain ⟨hle, hholds, hleft⟩ := (mem_starts hm).mp hi
    have hend : ∃ j, i ≤ j ∧ (j = n ∨ p j = false) := ⟨n, by omega, .inl rfl⟩
    have hspec := Nat.find_spec hend
    have hmin : Nat.find hend ≤ n := Nat.find_min' hend ⟨by omega, .inl rfl⟩
    have hbefore : ∀ k < Nat.find hend, i ≤ k → p k = true := by
      intro k hk hik
      have hnot := Nat.find_min hend hk
      rw [not_and, not_or, Bool.not_eq_false] at hnot
      exact (hnot hik).2
    refine ⟨(i, Nat.find hend), ?_, rfl⟩
    rw [mem_long hm]
    refine ⟨⟨hmin, hbefore, hleft, hspec.2⟩, ?_⟩
    by_contra hshort
    rw [not_le] at hshort
    rcases hspec.2 with hall | hgap
    · omega
    · rw [hholds _ hshort hspec.1] at hgap
      cases hgap

theorem card_long_le (hm : 0 < m) : (long p n m).card ≤ n := by
  rw [card_long hm]
  calc (starts p n m).card ≤ (range n).card := Finset.card_filter_le _ _
    _ = n := Finset.card_range n

/-! ### The loop -/

/-- The last `len` numbers below `n` are the run that has not ended yet. -/
structure Trailing (p : ℕ → Bool) (n len : ℕ) : Prop where
  le : len ≤ n
  holds : ∀ k < n, n - len ≤ k → p k = true
  left : len = n ∨ p (n - len - 1) = false

namespace Trailing

variable {len : ℕ}

theorem zero : Trailing p 0 0 := ⟨le_rfl, by omega, .inl rfl⟩

theorem succ (h : Trailing p n len) (hp : p n = true) : Trailing p (n + 1) (len + 1) where
  le := Nat.succ_le_succ h.le
  holds := by
    intro k hk hlen
    rcases Nat.lt_succ_iff_lt_or_eq.mp hk with hlt | rfl
    · exact h.holds k hlt (by omega)
    · exact hp
  left := by
    have hplace : n + 1 - (len + 1) - 1 = n - len - 1 := by omega
    rw [hplace]
    exact h.left.imp_left fun hall => by omega

theorem gap (hp : p n = false) : Trailing p (n + 1) 0 where
  le := Nat.zero_le _
  holds := by omega
  left := .inr hp

/-- A start is new as soon as the run is long enough. -/
theorem new_start (h : Trailing p n len) (hp : p n = true) (hm : 0 < m) :
    n + 1 - m ∈ starts p (n + 1) m ∧ m ≤ n + 1 ↔ len + 1 = m := by
  have hle := h.le
  rw [mem_starts hm]
  constructor
  · intro hstart
    obtain ⟨⟨-, hholds, hleft⟩, hroom⟩ := hstart
    rcases Nat.lt_trichotomy (len + 1) m with hlt | heq | hlt
    · have hgap := h.left.resolve_left (by omega)
      rw [hholds _ (by omega) (by omega)] at hgap
      cases hgap
    · exact heq
    · have hgap := hleft.resolve_left (by omega)
      rw [h.holds _ (by omega) (by omega)] at hgap
      cases hgap
  · rintro rfl
    have hplace : n + 1 - (len + 1) = n - len := by omega
    rw [hplace]
    refine ⟨⟨by omega, ?_, ?_⟩, by omega⟩
    · intro k hk hlen
      rcases Nat.lt_or_ge k n with hlt | hge
      · exact h.holds k hlt hlen
      · obtain rfl : k = n := by omega
        exact hp
    · exact h.left.imp_left fun hall => by omega

theorem card_starts_succ (h : Trailing p n len) (hm : 0 < m) :
    (starts p (n + 1) m).card =
      (starts p n m).card + if p n = true ∧ len + 1 = m then 1 else 0 := by
  have hold : ∀ i, i + m ≠ n + 1 → (i ∈ starts p (n + 1) m ↔ i ∈ starts p n m) := by
    intro i hne
    rw [mem_starts hm, mem_starts hm]
    constructor
    · exact fun hi => ⟨by omega, hi.2⟩
    · exact fun hi => ⟨by omega, hi.2⟩
  have hfresh : n + 1 - m ∉ starts p n m ∨ ¬ m ≤ n + 1 := by
    rw [mem_starts hm]
    omega
  split_ifs with hnew
  · obtain ⟨hp, hlen⟩ := hnew
    obtain ⟨hstart, hroom⟩ := (h.new_start hp hm).mpr hlen
    have hinsert : starts p (n + 1) m = insert (n + 1 - m) (starts p n m) := by
      ext i
      rw [Finset.mem_insert]
      by_cases hi : i + m = n + 1
      · obtain rfl : i = n + 1 - m := by omega
        exact iff_of_true hstart (.inl rfl)
      · rw [hold i hi]
        exact ⟨.inr, fun h => h.resolve_left (by omega)⟩
    rw [hinsert, Finset.card_insert_of_notMem (hfresh.resolve_right (not_not.mpr hroom))]
  · rw [add_zero]
    congr 1
    ext i
    by_cases hi : i + m = n + 1
    · obtain rfl : i = n + 1 - m := by omega
      have hroom : m ≤ n + 1 := by omega
      apply iff_of_false _ (hfresh.resolve_right (not_not.mpr hroom))
      intro hstart
      have hp : p n = true := ((mem_starts hm).mp hstart).2.1 n (by omega) (by omega)
      exact hnew ⟨hp, (h.new_start hp hm).mp ⟨hstart, hroom⟩⟩
    · exact hold i hi

end Trailing

/-- One turn of the loop: the length of the run, whether it has been counted, and the number of
long runs so far. -/
def step (p : ℕ → Bool) (m : ℕ) (acc : ℕ × Bool × ℕ) (k : ℕ) : ℕ × Bool × ℕ :=
  if p k then
    if !acc.2.1 && acc.1 + 1 ≥ m then (acc.1 + 1, true, acc.2.2 + 1)
    else (acc.1 + 1, acc.2.1, acc.2.2)
  else (0, false, acc.2.2)

/-- The loop counts each long run once, when it has become long. -/
theorem foldl_step (p : ℕ → Bool) (hm : 0 < m) (n count : ℕ) :
    ∃ len, Trailing p n len ∧
      (List.range n).foldl (step p m) (0, false, count) =
        (len, decide (m ≤ len), count + (long p n m).card) := by
  rw [card_long hm]
  induction n with
  | zero =>
    refine ⟨0, Trailing.zero, ?_⟩
    have hnot : ¬ m ≤ 0 := by omega
    rw [decide_eq_false hnot]
    rfl
  | succ n ih =>
    obtain ⟨len, htrailing, hfold⟩ := ih
    rw [List.range_succ, List.foldl_append, hfold, htrailing.card_starts_succ hm]
    cases hp : p n with
    | false =>
      refine ⟨0, Trailing.gap hp, ?_⟩
      have hnot : ¬ m ≤ 0 := by omega
      simp [step, hp, hnot]
    | true =>
      refine ⟨len + 1, htrailing.succ hp, ?_⟩
      rcases Nat.lt_trichotomy (len + 1) m with hlt | heq | hlt
      · have hshort : ¬ m ≤ len := by omega
        have hshort' : ¬ m ≤ len + 1 := by omega
        simp [step, hp, hshort, hshort', hlt.ne]
      · have hshort : ¬ m ≤ len := by omega
        simp [step, hp, hshort, heq, add_assoc]
      · have hlong : m ≤ len := by omega
        have hlong' : m ≤ len + 1 := by omega
        simp [step, hp, hlong, hlong', hlt.ne']

end Runs
