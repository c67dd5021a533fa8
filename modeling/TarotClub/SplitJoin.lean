import TarotClub.TextSearch

namespace TarotClub.Util

/-- `std::string::npos`, the largest `std::size_t`. -/
def npos : ℕ := 2 ^ 64 - 1

/-- `std::string::find`, with `npos` for nothing found. -/
def find (s lookfor : Str) (pos : ℕ) : ℕ := (findFrom s lookfor pos).getD npos

/-- The loop of `Split` behind at most so many turns; nothing where it is not over by then, or
where `substr` throws because it is asked for a piece behind the end. -/
def splitLoop (theString delimiter : Str) (turns start end' : ℕ) (theStringVector : List Str) :
    Option (List Str) :=
  if end' = npos then some theStringVector
  else
    match turns with
    | 0 => none
    | turns + 1 =>
      let end' := find theString delimiter start
      if start ≤ theString.length then
        let piece := substr theString start (if end' = npos then npos else end' - start)
        let start := if end' > npos - delimiter.length then npos else end' + delimiter.length
        splitLoop theString delimiter turns start end' (theStringVector ++ [piece])
      else none

/-- `Util::Split`, stopped behind so many turns. -/
def splitWithin (turns : ℕ) (theString delimiter : Str) : Option (List Str) :=
  splitLoop theString delimiter turns 0 0 []

/-- One turn of the loop of `Join`: the delimiter stands between tokens only. -/
def joinStep (tokens : List Str) (delimiter ss : Str) (i : ℕ) : Str :=
  (if i ≠ 0 then ss ++ delimiter else ss) ++ tokens.getD i []

/-- `Util::Join`. -/
def joinAll (tokens : List Str) (delimiter : Str) : Str :=
  (List.range tokens.length).foldl (joinStep tokens delimiter) []

/-! ### The pieces -/

section
variable {d s : Str}

/-- In front of the first occurrence there is none. -/
theorem not_infix_take (hd : d ≠ []) {i : ℕ} (h : search d s = some i) : ¬ d <:+: s.take i := by
  induction s generalizing i with
  | nil =>
    rw [List.take_nil, List.infix_nil]
    exact hd
  | cons c s ih =>
    rw [search] at h
    split_ifs at h with hpre
    · obtain rfl := Option.some.inj h
      rw [List.take_zero, List.infix_nil]
      exact hd
    · obtain ⟨j, hj, rfl⟩ := Option.map_eq_some_iff.mp h
      rw [List.take_succ_cons, List.infix_cons_iff, not_or]
      refine ⟨?_, ih hj⟩
      intro hstart
      apply hpre
      rw [List.isPrefixOf_iff_prefix]
      exact hstart.trans (List.cons_prefix_cons.mpr ⟨rfl, List.take_prefix j s⟩)

/-- No piece holds the delimiter: the first ends in front of its first occurrence. -/
theorem not_infix_of_mem_split (hd : d ≠ []) (s : Str) : ∀ piece ∈ split s d, ¬ d <:+: piece := by
  have hpos : 0 < d.length := List.length_pos_iff.mpr hd
  induction hn : s.length using Nat.strong_induction_on generalizing s with
  | _ n ih =>
    intro piece hpiece
    rw [split_search hd] at hpiece
    cases hfound : search d s with
    | none =>
      rw [hfound] at hpiece
      rw [List.mem_singleton.mp hpiece]
      exact search_eq_none.mp hfound
    | some i =>
      rw [hfound] at hpiece
      have hle := (search_eq_some hfound).1
      have hshort : (s.drop (i + d.length)).length < n := by
        rw [List.length_drop]
        omega
      rcases List.mem_cons.mp hpiece with rfl | hpiece
      · exact not_infix_take hd hfound
      · exact ih _ hshort _ rfl piece hpiece

theorem join_cons {pieces : List Str} (hne : pieces ≠ []) (t delimiter : Str) :
    join (t :: pieces) delimiter = t ++ delimiter ++ join pieces delimiter := by
  cases pieces with
  | nil => exact absurd rfl hne
  | cons u pieces => simp [join, List.intercalate]

/-- What `Join` makes of the pieces, cut at the first occurrence. -/
theorem join_split_search (hd : d ≠ []) (r s : Str) :
    join (split s d) r = match search d s with
      | none => s
      | some i => s.take i ++ r ++ join (split (s.drop (i + d.length)) d) r := by
  rw [split_search hd]
  cases search d s with
  | none => exact List.intercalate_singleton
  | some i => exact join_cons (split_ne_nil hd _) _ _

theorem join_split (hd : d ≠ []) (s : Str) : join (split s d) d = s := by
  have hpos : 0 < d.length := List.length_pos_iff.mpr hd
  induction hn : s.length using Nat.strong_induction_on generalizing s with
  | _ n ih =>
    rw [join_split_search hd]
    cases hfound : search d s with
    | none => rfl
    | some i =>
      obtain ⟨hle, heq⟩ := search_eq_some hfound
      have hrest := ih (s.drop (i + d.length)).length (by rw [List.length_drop]; omega) _ rfl
      calc s.take i ++ d ++ join (split (s.drop (i + d.length)) d) d
          = s.take i ++ d ++ s.drop (i + d.length) := by rw [hrest]
        _ = s := heq.symm

end

theorem join_concat {pieces : List Str} (hne : pieces ≠ []) (t delimiter : Str) :
    join (pieces ++ [t]) delimiter = join pieces delimiter ++ delimiter ++ t := by
  induction pieces with
  | nil => exact absurd rfl hne
  | cons u pieces ih =>
    rw [List.cons_append, join_cons (by simp)]
    cases pieces with
    | nil => simp [join]
    | cons v pieces =>
      rw [ih (List.cons_ne_nil v pieces), join_cons (List.cons_ne_nil v pieces)]
      simp only [List.append_assoc]

/-! ### The loops -/

theorem joinAll_eq (tokens : List Str) (delimiter : Str) :
    joinAll tokens delimiter = join tokens delimiter := by
  have hloop : ∀ n ≤ tokens.length, (List.range n).foldl (joinStep tokens delimiter) [] =
      join (tokens.take n) delimiter := by
    intro n
    induction n with
    | zero => exact fun _ => rfl
    | succ n ih =>
      intro hn
      have hlt : n < tokens.length := hn
      have htoken : tokens.getD n [] = tokens[n] := by simp [hlt]
      rw [List.range_succ, List.foldl_append, ih hlt.le, List.foldl_cons, List.foldl_nil,
        joinStep, htoken, List.take_succ_eq_append_getElem hlt]
      by_cases hzero : n = 0
      · subst hzero
        simp [join]
      · have hne : tokens.take n ≠ [] := by
          rw [Ne, List.take_eq_nil_iff, not_or]
          exact ⟨hzero, List.ne_nil_of_length_pos (by omega)⟩
        rw [if_pos hzero, join_concat hne]
  rw [joinAll, hloop _ le_rfl, List.take_length]

/-- As long as the size of the text is a `std::size_t`, the loop splits what is behind `start`. -/
theorem splitLoop_eq {theString delimiter : Str} (hsize : theString.length < 2 ^ 64)
    (hd : delimiter ≠ []) {turns start end' : ℕ} (hstart : start ≤ theString.length)
    (hend : end' ≠ npos) (hturns : (split (theString.drop start) delimiter).length ≤ turns)
    (theStringVector : List Str) :
    splitLoop theString delimiter turns start end' theStringVector =
      some (theStringVector ++ split (theString.drop start) delimiter) := by
  have hpos : 0 < delimiter.length := List.length_pos_iff.mpr hd
  have hnpos : npos + 1 = 2 ^ 64 := rfl
  induction turns generalizing start end' theStringVector with
  | zero =>
    exact absurd (List.length_eq_zero_iff.mp (Nat.le_zero.mp hturns)) (split_ne_nil hd _)
  | succ turns ih =>
    rw [split_search hd] at hturns ⊢
    rw [splitLoop, if_neg hend]
    dsimp only
    rw [if_pos hstart, find, findFrom, if_pos hstart]
    cases hfound : search delimiter (theString.drop start) with
    | none =>
      -- the rest is the last piece: `end` is `npos`, and the guard makes `start` the same
      have hrest : substr theString start npos = theString.drop start := by
        rw [substr, List.take_of_length_le]
        rw [List.length_drop]
        omega
      dsimp only [Option.map_none, Option.getD_none]
      rw [if_pos rfl, hrest, splitLoop.eq_def, if_pos rfl]
    | some i =>
      -- a delimiter ends inside of the text, so neither `end` nor the sum behind it is too large
      obtain ⟨hle, -⟩ := search_eq_some hfound
      rw [List.length_drop] at hle
      have hinside : i + start ≠ npos := by omega
      have hguard : ¬ i + start > npos - delimiter.length := by omega
      have hpiece : substr theString start (i + start - start) = (theString.drop start).take i := by
        rw [substr, Nat.add_sub_cancel]
      have hnext : (theString.drop start).drop (i + delimiter.length) =
          theString.drop (i + start + delimiter.length) := by
        rw [List.drop_drop]
        congr 1
        omega
      rw [hfound] at hturns
      dsimp only [Option.map_some, Option.getD_some] at hturns ⊢
      rw [List.length_cons, hnext] at hturns
      rw [if_neg hinside, if_neg hguard, hpiece, hnext,
        ih (by omega) hinside (by omega), List.append_assoc, List.singleton_append]

theorem splitWithin_eq {theString delimiter : Str} (hsize : theString.length < 2 ^ 64)
    (hd : delimiter ≠ []) {turns : ℕ} (hturns : theString.length < turns) :
    splitWithin turns theString delimiter = some (split theString delimiter) := by
  have hle := split_length_le hd theString
  have hpieces : (split (theString.drop 0) delimiter).length ≤ turns := by
    rw [List.drop_zero]
    omega
  have hloop := splitLoop_eq hsize hd (Nat.zero_le _) (by decide : 0 ≠ npos) hpieces []
  rwa [List.drop_zero, List.nil_append] at hloop

/-- Splitting a text comes to an end and takes out exactly the delimiters, so that joining the
pieces gives the text; and splitting takes joined tokens apart again that do not hold the
delimiter, a single character. The sizes of the texts are those of a `std::string`. -/
theorem split_join_inverse (delimiter : Str) (hd : delimiter ≠ []) (c : UInt8) :
    (∀ theString : Str, theString.length < 2 ^ 64 → ∃ pieces,
      (∀ turns > theString.length, splitWithin turns theString delimiter = some pieces) ∧
        (∀ piece ∈ pieces, ¬ delimiter <:+: piece) ∧
          joinAll pieces delimiter = theString) ∧
      ∀ tokens : List Str, tokens ≠ [] → (∀ t ∈ tokens, c ∉ t) →
        (joinAll tokens [c]).length < 2 ^ 64 →
          ∀ turns > (joinAll tokens [c]).length,
            splitWithin turns (joinAll tokens [c]) [c] = some tokens := by
  constructor
  · intro theString hsize
    refine ⟨split theString delimiter, ?_, not_infix_of_mem_split hd theString, ?_⟩
    · intro turns hturns
      exact splitWithin_eq hsize hd hturns
    · rw [joinAll_eq]
      exact join_split hd theString
  · intro tokens hne hfree hsize turns hturns
    rw [splitWithin_eq hsize (List.cons_ne_nil c []) hturns, joinAll_eq, split_join hne hfree]

/-- Overlapping places of a long delimiter, and empty pieces. -/
theorem split_join_inverse_dashes :
    (∃ pieces,
      (∀ turns > 9, splitWithin turns (str "---a----b") (str "--") = some pieces) ∧
        (∀ piece ∈ pieces, ¬ str "--" <:+: piece) ∧
          joinAll pieces (str "--") = str "---a----b") ∧
      ∀ turns > 4, splitWithin turns (str ";a;;") (str ";") = some [[], str "a", [], []] := by
  have h := split_join_inverse (str "--") (by decide) (chr ';')
  refine ⟨h.1 (str "---a----b") (by decide), ?_⟩
  exact h.2 [[], str "a", [], []] (by decide) (by decide) (by decide)

end TarotClub.Util
