import TarotClub.Text

namespace TarotClub

/-- The first place where `d` stands in a string. -/
def search (d : Str) : Str → Option ℕ
  | [] => if d.isPrefixOf [] then some 0 else none
  | c :: s => if d.isPrefixOf (c :: s) then some 0 else (search d s).map (· + 1)

/-- `std::string::find`. -/
def findFrom (s d : Str) (pos : ℕ) : Option ℕ :=
  if pos ≤ s.length then (search d (s.drop pos)).map (· + pos) else none

/-- `std::string::substr` from a position inside of the string. -/
def substr (s : Str) (pos size : ℕ) : Str := (s.drop pos).take size

section
variable {d s : Str}

theorem search_eq_some {i : ℕ} (h : search d s = some i) :
    i + d.length ≤ s.length ∧ s = s.take i ++ d ++ s.drop (i + d.length) := by
  induction s generalizing i with
  | nil =>
    rw [search] at h
    split_ifs at h with hd
    obtain rfl := Option.some.inj h
    obtain rfl : d = [] := by simpa using hd
    exact ⟨le_rfl, rfl⟩
  | cons c s ih =>
    rw [search] at h
    split_ifs at h with hd
    · obtain rfl := Option.some.inj h
      obtain ⟨t, ht⟩ := List.isPrefixOf_iff_prefix.mp hd
      rw [← ht]
      simp
    · obtain ⟨j, hj, rfl⟩ := Option.map_eq_some_iff.mp h
      obtain ⟨hle, heq⟩ := ih hj
      refine ⟨by rw [List.length_cons]; omega, ?_⟩
      rw [show j + 1 + d.length = j + d.length + 1 by omega, List.take_succ_cons,
        List.drop_succ_cons, List.cons_append, List.cons_append, ← heq]

/-- Nothing is found where the string is not. -/
theorem search_eq_none : search d s = none ↔ ¬ d <:+: s := by
  induction s with
  | nil =>
    rw [search, List.infix_nil]
    cases d <;> simp
  | cons c s ih =>
    rw [search, List.infix_cons_iff, not_or, ← ih, ← List.isPrefixOf_iff_prefix]
    split_ifs with hd
    · simp [hd]
    · simp [hd]

/-! ### Splitting at what is found -/

theorem splitFrom_skip (cur : Str) (k : ℕ) (s : Str) :
    splitFrom d cur k s = splitFrom d cur 0 (s.drop k) := by
  induction k generalizing s with
  | zero => rw [List.drop_zero]
  | succ k ih =>
    cases s with
    | nil => rw [List.drop_nil, splitFrom, splitFrom]
    | cons c s => rw [splitFrom, ih, List.drop_succ_cons]

theorem splitFrom_search (hd : d ≠ []) (cur s : Str) :
    splitFrom d cur 0 s = match search d s with
      | none => [cur ++ s]
      | some i => (cur ++ s.take i) :: splitFrom d [] 0 (s.drop (i + d.length)) := by
  induction s generalizing cur with
  | nil =>
    have hnone : d.isPrefixOf [] = false := by
      cases d with
      | nil => exact absurd rfl hd
      | cons => rfl
    rw [splitFrom, search, hnone, if_neg Bool.false_ne_true, List.append_nil]
  | cons c s ih =>
    rw [splitFrom, search]
    have hpos : 0 < d.length := List.length_pos_iff.mpr hd
    split_ifs with hpre
    · obtain ⟨n, hn⟩ : ∃ n, d.length = n + 1 := ⟨d.length - 1, by omega⟩
      rw [splitFrom_skip, hn, Nat.add_sub_cancel]
      dsimp only
      rw [List.take_zero, List.append_nil, Nat.zero_add, List.drop_succ_cons]
    · rw [ih]
      cases search d s with
      | none => simp
      | some i =>
        rw [Option.map_some]
        dsimp only
        rw [show i + 1 + d.length = i + d.length + 1 by omega, List.drop_succ_cons,
          List.take_succ_cons, List.append_assoc, List.singleton_append]

/-- The first piece ends where the delimiter is found, and the rest is split behind it. -/
theorem split_search (hd : d ≠ []) (s : Str) :
    split s d = match search d s with
      | none => [s]
      | some i => s.take i :: split (s.drop (i + d.length)) d := by
  rw [split, splitFrom_search hd]
  cases search d s with
  | none => rfl
  | some i => rfl

theorem split_ne_nil (hd : d ≠ []) (s : Str) : split s d ≠ [] := by
  rw [split_search hd]
  cases search d s with
  | none => exact List.cons_ne_nil _ _
  | some i => exact List.cons_ne_nil _ _

/-- A string has no more pieces than characters, and one more. -/
theorem split_length_le (hd : d ≠ []) (s : Str) : (split s d).length ≤ s.length + 1 := by
  have hpos : 0 < d.length := List.length_pos_iff.mpr hd
  induction hn : s.length using Nat.strong_induction_on generalizing s with
  | _ n ih =>
    rw [split_search hd]
    cases hfound : search d s with
    | none => simp
    | some i =>
      have hle := (search_eq_some hfound).1
      have hrest := ih (s.drop (i + d.length)).length (by rw [List.length_drop]; omega) _ rfl
      rw [List.length_drop] at hrest
      rw [List.length_cons]
      omega

end

/-! ### Joining -/

section
variable {d : UInt8}

theorem splitFrom_last {t : Str} (ht : d ∉ t) (cur : Str) :
    splitFrom [d] cur 0 t = [cur ++ t] := by
  induction t generalizing cur with
  | nil => rw [splitFrom, List.append_nil]
  | cons c t ih =>
    obtain ⟨hc, ht⟩ := not_or.mp (List.mem_cons.not.mp ht)
    have hskip : List.isPrefixOf [d] (c :: t) = false := by simp [List.isPrefixOf, hc]
    rw [splitFrom, hskip, if_neg Bool.false_ne_true, ih ht, List.append_assoc]
    rfl

/-- The piece in front of a delimiter. -/
theorem splitFrom_piece {t : Str} (ht : d ∉ t) (cur rest : Str) :
    splitFrom [d] cur 0 (t ++ d :: rest) = (cur ++ t) :: splitFrom [d] [] 0 rest := by
  induction t generalizing cur with
  | nil =>
    have hfound : List.isPrefixOf [d] (d :: rest) = true := by simp [List.isPrefixOf]
    rw [List.nil_append, splitFrom, hfound, if_pos rfl, List.append_nil]
    rfl
  | cons c t ih =>
    obtain ⟨hc, ht⟩ := not_or.mp (List.mem_cons.not.mp ht)
    have hskip : List.isPrefixOf [d] (c :: t ++ d :: rest) = false := by
      simp [List.isPrefixOf, hc]
    rw [List.cons_append] at hskip ⊢
    rw [splitFrom, hskip, if_neg Bool.false_ne_true, ih ht, List.append_assoc]
    rfl

/-- Splitting takes a joined text apart again. -/
theorem split_join {tokens : List Str} (hne : tokens ≠ []) (h : ∀ t ∈ tokens, d ∉ t) :
    split (join tokens [d]) [d] = tokens := by
  induction tokens with
  | nil => exact absurd rfl hne
  | cons t tokens ih =>
    have ht := h t List.mem_cons_self
    cases tokens with
    | nil =>
      rw [split, join, List.intercalate_singleton, splitFrom_last ht, List.nil_append]
    | cons u tokens =>
      have hrest := ih (List.cons_ne_nil u tokens) fun x hx => h x (List.mem_cons_of_mem t hx)
      have hjoin : join (t :: u :: tokens) [d] = t ++ d :: join (u :: tokens) [d] := by
        simp [join, List.intercalate]
      rw [split] at hrest
      rw [split, hjoin, splitFrom_piece ht, hrest, List.nil_append]

/-- The delimiter is in no piece. -/
theorem not_mem_of_mem_splitFrom {cur s t : Str} (hcur : d ∉ cur)
    (ht : t ∈ splitFrom [d] cur 0 s) : d ∉ t := by
  induction s generalizing cur with
  | nil => rwa [List.mem_singleton.mp ht]
  | cons c s ih =>
    rw [splitFrom] at ht
    split_ifs at ht with hpre
    · rcases List.mem_cons.mp ht with rfl | ht
      · exact hcur
      · exact ih List.not_mem_nil ht
    · have hc : d ≠ c := by simpa [List.isPrefixOf] using hpre
      exact ih (by simp [hcur, hc]) ht

theorem not_mem_of_mem_split {s t : Str} (ht : t ∈ split s [d]) : d ∉ t :=
  not_mem_of_mem_splitFrom List.not_mem_nil ht

end

end TarotClub
