import Mathlib.Data.List.Infix
import TarotClub.SplitJoin

namespace TarotClub.Util

/-- The loop of `ReplaceCharacter` behind at most so many turns, or nothing if it is not over by
then. The call of `replace` takes out one character. -/
def replaceLoop (toFind toReplace : Str) : ℕ → Str → Option Str
  | 0, _ => none
  | turns + 1, theString =>
    match search toFind theString with
    | none => some theString
    | some found =>
      replaceLoop toFind toReplace turns
        (theString.take found ++ toReplace ++ theString.drop (found + 1))

/-- `Util::EscapeChar`, each of its loops stopped behind so many turns. -/
def escapeChar (turns : ℕ) (s : Str) : Option Str := do
  let escaped ← replaceLoop (str "\\") (str "/") turns s
  let escaped ← replaceLoop (str "\r\n") (str "\\n") turns escaped
  let escaped ← replaceLoop (str "\n") (str "\\n") turns escaped
  replaceLoop (str "\t") (str "\\t") turns escaped

/-- What `ReplaceCharacter` is for: the whole of every occurrence of `f` is replaced. The
occurrences are those at which the text is split, from the left and without overlap. -/
def replaceAll (f r s : Str) : Str := join (split s f) r

/-- What stands for a character in the escaped text. -/
def escapedChar (c : UInt8) : Str :=
  if c = chr '\\' then str "/"
  else if c = chr '\n' then str "\\n"
  else if c = chr '\t' then str "\\t"
  else [c]

/-- What `EscapeChar` is for: a line break, be it CR LF or LF, becomes one escape sequence. -/
def escaped : Str → Str
  | [] => []
  | c :: s =>
    (if c = chr '\r' ∧ s.head? = some (chr '\n') then [] else escapedChar c) ++ escaped s

/-- `r` does not hold `f`, and no text next to `r` makes an occurrence of `f` with it: an
occurrence in `a ++ r ++ b` is one in `a` or one in `b`. -/
def Inert (f r : Str) : Prop :=
  ∀ a b u v : Str, a ++ r ++ b = u ++ f ++ v →
    u.length + f.length ≤ a.length ∨ a.length + r.length ≤ u.length

/-! ### What the loop does -/

/-- Every character at which an occurrence of `f` starts is replaced. -/
def edited (f r : Str) : Str → Str
  | [] => []
  | c :: s => if f.isPrefixOf (c :: s) then r ++ edited f r s else c :: edited f r s

/-- No occurrence of `f` starts in `a`, whatever stands behind `a`. -/
def Settled (f a : Str) : Prop := ∀ t u v : Str, a ++ t = u ++ f ++ v → a.length ≤ u.length

section
variable {f r : Str}

theorem edited_search (hf : f ≠ []) (s : Str) :
    edited f r s = match search f s with
      | none => s
      | some i => s.take i ++ r ++ edited f r (s.drop (i + 1)) := by
  induction s with
  | nil =>
    have hnone : f.isPrefixOf [] = false := by
      cases f with
      | nil => exact absurd rfl hf
      | cons => rfl
    rw [edited, search, hnone, if_neg Bool.false_ne_true]
  | cons c s ih =>
    rw [edited, search]
    split_ifs with hpre
    · simp
    · rw [ih]
      cases search f s with
      | none => rfl
      | some i => simp

theorem settled_nil : Settled f [] := fun _ _ _ _ => Nat.zero_le _

/-- Behind what is settled the search begins. -/
theorem Settled.search_append {a : Str} (ha : Settled f a) (s : Str) :
    search f (a ++ s) = (search f s).map (· + a.length) := by
  induction a with
  | nil => simp
  | cons c a ih =>
    have hpre : f.isPrefixOf (c :: (a ++ s)) = false := by
      rw [← Bool.not_eq_true, List.isPrefixOf_iff_prefix]
      rintro ⟨v, hv⟩
      have hle := ha s [] v hv.symm
      simp at hle
    have htail : Settled f a := by
      intro t u v h
      have hle := ha t (c :: u) v (by simp [h])
      rw [List.length_cons, List.length_cons] at hle
      omega
    rw [List.cons_append, search, hpre, if_neg Bool.false_ne_true, ih htail, Option.map_map]
    congr 1

/-- One turn settles what is in front of the occurrence that it has found, and the replacement. -/
theorem Settled.turn (hf : f ≠ []) (hr : Inert f r) {a s : Str} (ha : Settled f a) {i : ℕ}
    (h : search f s = some i) : Settled f (a ++ s.take i ++ r) := by
  intro t u v hoccurs
  rw [List.length_append]
  refine (hr (a ++ s.take i) t u v hoccurs).resolve_left ?_
  intro hle
  -- an occurrence in front of `r` would be one in `a ++ s.take i`, and then one in `s.take i`
  have hfront : u ++ f <+: a ++ s.take i := by
    have hwhole : u ++ f <+: a ++ s.take i ++ r ++ t := ⟨v, hoccurs.symm⟩
    have hpart : a ++ s.take i <+: a ++ s.take i ++ r ++ t :=
      ⟨r ++ t, (List.append_assoc _ _ _).symm⟩
    apply List.prefix_of_prefix_length_le hwhole hpart
    rwa [List.length_append]
  obtain ⟨w, hw⟩ := hfront
  have hbehind : a <+: u := by
    have hpart : u <+: a ++ s.take i := ⟨f ++ w, by rw [← hw, List.append_assoc]⟩
    exact List.prefix_of_prefix_length_le (List.prefix_append a _) hpart (ha (s.take i) u w hw.symm)
  obtain ⟨u', rfl⟩ := hbehind
  apply not_infix_take hf h
  have hfront : a ++ (u' ++ f ++ w) = a ++ s.take i := by
    rw [← hw, List.append_assoc, List.append_assoc, List.append_assoc]
  exact ⟨u', w, List.append_cancel_left hfront⟩

/-- A run of the loop on a text whose front is settled. -/
theorem replaceLoop_append (hf : f ≠ []) (hr : Inert f r) (turns : ℕ) {a s : Str}
    (ha : Settled f a) :
    (∀ t, replaceLoop f r turns (a ++ s) = some t → t = a ++ edited f r s) ∧
      (s.length < turns → (replaceLoop f r turns (a ++ s)).isSome) := by
  induction turns generalizing a s with
  | zero =>
    constructor
    · intro t ht
      cases ht
    · intro hlt
      omega
  | succ turns ih =>
    rw [replaceLoop, ha.search_append, edited_search hf]
    cases hfound : search f s with
    | none =>
      constructor
      · intro t ht
        exact (Option.some.inj ht).symm
      · exact fun _ => rfl
    | some i =>
      have hle := (search_eq_some hfound).1
      have hpos : 0 < f.length := List.length_pos_iff.mpr hf
      have hnext : (a ++ s).take (i + a.length) ++ r ++ (a ++ s).drop (i + a.length + 1) =
          a ++ s.take i ++ r ++ s.drop (i + 1) := by
        have hcut : i + a.length + 1 = a.length + (i + 1) := by omega
        rw [Nat.add_comm i, List.take_length_add_append, Nat.add_comm a.length, hcut,
          List.drop_length_add_append]
      obtain ⟨hsound, hends⟩ := ih (s := s.drop (i + 1)) (ha.turn hf hr hfound)
      dsimp only [Option.map_some]
      rw [hnext]
      constructor
      · intro t ht
        rw [hsound t ht]
        simp only [List.append_assoc]
      · intro hlt
        apply hends
        rw [List.length_drop]
        omega

/-- The loop ends, and what it leaves is the edited text. -/
theorem replaceLoop_eq (hf : f ≠ []) (hr : Inert f r) {s : Str} {turns : ℕ}
    (hturns : s.length < turns) : replaceLoop f r turns s = some (edited f r s) := by
  obtain ⟨hsound, hends⟩ := replaceLoop_append hf hr turns (s := s) settled_nil
  obtain ⟨t, ht⟩ := Option.isSome_iff_exists.mp (hends hturns)
  have hedited := hsound t ht
  rw [List.nil_append] at ht hedited
  rw [ht, hedited]

theorem replaceLoop_iff (hf : f ≠ []) (hr : Inert f r) {s t : Str} :
    (∃ turns, replaceLoop f r turns s = some t) ↔ t = edited f r s := by
  constructor
  · rintro ⟨turns, h⟩
    exact (replaceLoop_append hf hr turns (s := s) settled_nil).1 t h
  · rintro rfl
    exact ⟨s.length + 1, replaceLoop_eq hf hr (Nat.lt_succ_self _)⟩

/-! ### Against what it is for -/

theorem replaceAll_search (hf : f ≠ []) (s : Str) :
    replaceAll f r s = match search f s with
      | none => s
      | some i => s.take i ++ r ++ replaceAll f r (s.drop (i + f.length)) :=
  join_split_search hf r s

/-- A character is replaced as a whole. -/
theorem edited_eq_replaceAll (hf : f.length = 1) (s : Str) :
    edited f r s = replaceAll f r s := by
  have hne : f ≠ [] := List.ne_nil_of_length_pos (by omega)
  induction hn : s.length using Nat.strong_induction_on generalizing s with
  | _ n ih =>
    rw [edited_search hne, replaceAll_search hne, hf]
    cases hfound : search f s with
    | none => rfl
    | some i =>
      have hle := (search_eq_some hfound).1
      have hrest := ih (s.drop (i + 1)).length (by rw [List.length_drop]; omega) _ rfl
      dsimp only
      rw [hrest]

theorem replaceAll_of_not_infix (hf : f ≠ []) {s : Str} (h : ¬ f <:+: s) :
    edited f r s = s ∧ replaceAll f r s = s := by
  rw [edited_search hf, replaceAll_search hf, search_eq_none.mpr h]
  exact ⟨rfl, rfl⟩

/-- The edited text is no shorter, character by character. -/
theorem length_edited_append (hr : r ≠ []) (t s : Str) :
    t.length + (edited f r s).length ≤ (edited f r (t ++ s)).length := by
  have hpos : 0 < r.length := List.length_pos_iff.mpr hr
  induction t with
  | nil => simp
  | cons c t ih =>
    rw [List.cons_append, edited, List.length_cons]
    split_ifs
    · rw [List.length_append]
      omega
    · rw [List.length_cons]
      omega

/-- The rest of an occurrence stays in the text, so the edited text is too long by it. -/
theorem length_edited (hf : f ≠ []) (hr : r ≠ []) (s : Str) :
    (replaceAll f r s).length + (if f <:+: s then f.length - 1 else 0) ≤
      (edited f r s).length := by
  have hpos : 0 < f.length := List.length_pos_iff.mpr hf
  induction hn : s.length using Nat.strong_induction_on generalizing s with
  | _ n ih =>
    by_cases hinfix : f <:+: s
    · obtain ⟨i, hfound⟩ : ∃ i, search f s = some i := by
        rw [← Option.ne_none_iff_exists', Ne, search_eq_none, not_not]
        exact hinfix
      obtain ⟨hle, heq⟩ := search_eq_some hfound
      have hrest := ih (s.drop (i + f.length)).length (by rw [List.length_drop]; omega) _ rfl
      have htail : s.drop (i + 1) = f.tail ++ s.drop (i + f.length) := by
        have hi : (s.take i).length = i := by
          rw [List.length_take]
          omega
        calc s.drop (i + 1) = (s.take i ++ (f ++ s.drop (i + f.length))).drop (i + 1) := by
              rw [← List.append_assoc, ← heq]
          _ = (f ++ s.drop (i + f.length)).drop 1 := by
              rw [List.drop_append, List.drop_of_length_le (by omega), hi,
                Nat.add_sub_cancel_left, List.nil_append]
          _ = f.tail ++ s.drop (i + f.length) := by
              rw [List.drop_one, List.tail_append_of_ne_nil hf]
      have hkept := length_edited_append (f := f) hr f.tail (s.drop (i + f.length))
      rw [if_pos hinfix, edited_search hf, replaceAll_search hf, hfound]
      dsimp only
      rw [htail]
      simp only [List.length_append, List.length_tail] at hkept ⊢
      omega
    · obtain ⟨hedited, hall⟩ := replaceAll_of_not_infix (r := r) hf hinfix
      rw [if_neg hinfix, hedited, hall, Nat.add_zero]

/-- Only an empty text that replaces more than a character lets its neighbours meet. -/
theorem Inert.ne_nil (hr : Inert f r) (hf : 1 < f.length) : r ≠ [] := by
  rintro rfl
  match f, hf with
  | c :: d :: f, _ =>
    have h := hr [c] (d :: f) [] [] (by simp)
    simp at h

/-- The loop replaces the occurrences exactly when the pattern is a character or does not occur. -/
theorem edited_eq_replaceAll_iff (hf : f ≠ []) (hr : Inert f r) (s : Str) :
    edited f r s = replaceAll f r s ↔ f.length = 1 ∨ ¬ f <:+: s := by
  have hpos : 0 < f.length := List.length_pos_iff.mpr hf
  constructor
  · intro heq
    by_contra hnot
    obtain ⟨hlong, hinfix⟩ := not_or.mp hnot
    rw [not_not] at hinfix
    have hlength := length_edited hf (hr.ne_nil (by omega)) s
    rw [if_pos hinfix, heq] at hlength
    omega
  · rintro (hone | hnot)
    · exact edited_eq_replaceAll hone s
    · obtain ⟨hedited, hall⟩ := replaceAll_of_not_infix (r := r) hf hnot
      rw [hedited, hall]

end

/-! ### Escaping -/

/-- A text without the characters of `f` takes no part in an occurrence of `f`. -/
theorem inert_of_disjoint {f r : Str} (hf : f ≠ []) (hr : r ≠ [] ∨ f.length = 1)
    (h : ∀ c ∈ f, c ∉ r) : Inert f r := by
  intro a b u v hoccurs
  have hpos : 0 < f.length := List.length_pos_iff.mpr hf
  by_contra hnot
  obtain ⟨hleft, hright⟩ := not_or.mp hnot
  have hrpos : 0 < r.length ∨ f.length = 1 := hr.imp_left List.length_pos_iff.mpr
  obtain ⟨p, hp⟩ : ∃ p, p = max a.length u.length := ⟨_, rfl⟩
  have hr' : (a ++ r ++ b)[p]? = r[p - a.length]? := by
    rw [List.getElem?_append_left (by rw [List.length_append]; omega),
      List.getElem?_append_right (by omega)]
  have hf' : (u ++ f ++ v)[p]? = f[p - u.length]? := by
    rw [List.getElem?_append_left (by rw [List.length_append]; omega),
      List.getElem?_append_right (by omega)]
  have hlt : p - u.length < f.length := by omega
  have hmem : f[p - u.length] ∈ r := by
    apply List.mem_of_getElem? (i := p - a.length)
    rw [← hr', hoccurs, hf', List.getElem?_eq_getElem hlt]
  exact h _ (List.getElem_mem hlt) hmem

theorem edited_char (c : UInt8) (r : Str) (x : UInt8) (s : Str) :
    edited [c] r (x :: s) = (if x = c then r else [x]) ++ edited [c] r s := by
  have hpre : List.isPrefixOf [c] (x :: s) = true ↔ x = c := by
    rw [List.isPrefixOf_iff_prefix, List.cons_prefix_cons]
    simp [eq_comm]
  rw [edited]
  by_cases hx : x = c
  · rw [if_pos (hpre.mpr hx), if_pos hx]
  · rw [if_neg (hpre.not.mpr hx), if_neg hx]
    rfl

theorem edited_pair (c d : UInt8) (r : Str) (x : UInt8) (s : Str) :
    edited [c, d] r (x :: s) =
      (if x = c ∧ s.head? = some d then r else [x]) ++ edited [c, d] r s := by
  have hpre : List.isPrefixOf [c, d] (x :: s) = true ↔ x = c ∧ s.head? = some d := by
    rw [List.isPrefixOf_iff_prefix, List.cons_prefix_cons]
    cases s with
    | nil => simp
    | cons y s => simp [eq_comm]
  rw [edited]
  by_cases hx : x = c ∧ s.head? = some d
  · rw [if_pos (hpre.mpr hx), if_pos hx]
  · rw [if_neg (hpre.not.mpr hx), if_neg hx]
    rfl

/-- What the four loops of `EscapeChar` leave. -/
def escapedBy (s : Str) : Str :=
  edited (str "\t") (str "\\t") (edited (str "\n") (str "\\n")
    (edited (str "\r\n") (str "\\n") (edited (str "\\") (str "/") s)))

/-- The patterns of `EscapeChar` do not come back with their replacements. -/
theorem escapeChar_iff {s t : Str} :
    (∃ turns, escapeChar turns s = some t) ↔ t = escapedBy s := by
  have hslash : Inert (str "\\") (str "/") :=
    inert_of_disjoint (by decide) (.inl (by decide)) (by decide +kernel)
  have hbreak : Inert (str "\r\n") (str "\\n") :=
    inert_of_disjoint (by decide) (.inl (by decide)) (by decide +kernel)
  have hline : Inert (str "\n") (str "\\n") :=
    inert_of_disjoint (by decide) (.inl (by decide)) (by decide +kernel)
  have htab : Inert (str "\t") (str "\\t") :=
    inert_of_disjoint (by decide) (.inl (by decide)) (by decide +kernel)
  constructor
  · rintro ⟨turns, h⟩
    simp only [escapeChar, Option.bind_eq_bind, Option.bind_eq_some_iff] at h
    obtain ⟨s₁, h₁, s₂, h₂, s₃, h₃, h₄⟩ := h
    obtain rfl := (replaceLoop_iff (by decide) hslash).mp ⟨turns, h₁⟩
    obtain rfl := (replaceLoop_iff (by decide) hbreak).mp ⟨turns, h₂⟩
    obtain rfl := (replaceLoop_iff (by decide) hline).mp ⟨turns, h₃⟩
    exact (replaceLoop_iff (by decide) htab).mp ⟨turns, h₄⟩
  · rintro rfl
    obtain ⟨s₁, hs₁⟩ : ∃ s₁, s₁ = edited (str "\\") (str "/") s := ⟨_, rfl⟩
    obtain ⟨s₂, hs₂⟩ : ∃ s₂, s₂ = edited (str "\r\n") (str "\\n") s₁ := ⟨_, rfl⟩
    obtain ⟨s₃, hs₃⟩ : ∃ s₃, s₃ = edited (str "\n") (str "\\n") s₂ := ⟨_, rfl⟩
    refine ⟨s.length + s₁.length + s₂.length + s₃.length + 1, ?_⟩
    rw [escapeChar, replaceLoop_eq (by decide) hslash (by omega), ← hs₁]
    simp only [Option.bind_eq_bind, Option.bind_some]
    rw [replaceLoop_eq (by decide) hbreak (by omega), ← hs₂, Option.bind_some,
      replaceLoop_eq (by decide) hline (by omega), ← hs₃, Option.bind_some,
      replaceLoop_eq (by decide) htab (by omega), hs₃, hs₂, hs₁, escapedBy]

theorem edited_char_append (c : UInt8) (r s t : Str) :
    edited [c] r (s ++ t) = edited [c] r s ++ edited [c] r t := by
  induction s with
  | nil => rfl
  | cons x s ih => rw [List.cons_append, edited_char, edited_char, ih, List.append_assoc]

/-- The CR of a line break is escaped as well. -/
theorem escapedBy_cons (c : UInt8) (s : Str) :
    escapedBy (c :: s) =
      (if c = chr '\r' ∧ s.head? = some (chr '\n') then str "\\n" else escapedChar c) ++
        escapedBy s := by
  have hslash : str "\\" = [chr '\\'] := rfl
  have hbreak : str "\r\n" = [chr '\r', chr '\n'] := rfl
  have hline : str "\n" = [chr '\n'] := rfl
  have htab : str "\t" = [chr '\t'] := rfl
  have hhead : (edited [chr '\\'] (str "/") s).head? = some (chr '\n') ↔
      s.head? = some (chr '\n') := by
    cases s with
    | nil => rfl
    | cons x s =>
      rw [edited_char]
      by_cases hx : x = chr '\\'
      · subst hx
        simp [str, chr]
      · simp [if_neg hx]
  obtain ⟨x, hx⟩ : ∃ x, x = if c = chr '\\' then chr '/' else c := ⟨_, rfl⟩
  have hone : (if c = chr '\\' then str "/" else [c]) = [x] := by
    rw [hx]
    split_ifs <;> rfl
  have hreturn : x = chr '\r' ↔ c = chr '\r' := by
    rw [hx]
    split_ifs with hback
    · rw [hback]
      decide
    · rfl
  have hchar : edited [chr '\t'] (str "\\t") (edited [chr '\n'] (str "\\n") [x]) =
      escapedChar c := by
    rw [hx, escapedChar]
    split_ifs with hback hn ht
    · decide
    · rw [hn]
      decide
    · rw [ht]
      decide
    · rw [edited_char, if_neg hn, edited, List.append_nil, edited_char, if_neg ht]
      rfl
  rw [escapedBy, escapedBy, hslash, hbreak, hline, htab, edited_char, hone,
    List.singleton_append, edited_pair, edited_char_append, edited_char_append]
  by_cases hboth : c = chr '\r' ∧ s.head? = some (chr '\n')
  · rw [if_pos hboth, if_pos ⟨hreturn.mpr hboth.1, hhead.mpr hboth.2⟩]
    rfl
  · rw [if_neg hboth, if_neg, hchar]
    rwa [hreturn, hhead]

theorem escapedBy_eq_iff (s : Str) : escapedBy s = escaped s ↔ ¬ str "\r\n" <:+: s := by
  have hpair : ∀ c : UInt8, ∀ s : Str,
      str "\r\n" <+: c :: s ↔ c = chr '\r' ∧ s.head? = some (chr '\n') := by
    intro c s
    rw [show str "\r\n" = [chr '\r', chr '\n'] from rfl, List.cons_prefix_cons]
    cases s with
    | nil => simp
    | cons y s => simp [eq_comm]
  have hlength : ∀ s : Str, (escaped s).length ≤ (escapedBy s).length := by
    intro s
    induction s with
    | nil => exact le_rfl
    | cons c s ih =>
      rw [escapedBy_cons, escaped, List.length_append, List.length_append]
      split_ifs
      · rw [List.length_nil]
        omega
      · omega
  induction s with
  | nil => exact iff_of_true rfl (by decide)
  | cons c s ih =>
    rw [escapedBy_cons, escaped, List.infix_cons_iff, hpair]
    split_ifs with hbreak
    · refine iff_of_false ?_ (not_not.mpr (.inl hbreak))
      intro heq
      have hle := hlength s
      have heq' := congrArg List.length heq
      rw [List.length_append, List.nil_append, show (str "\\n").length = 2 from rfl] at heq'
      omega
    · rw [List.append_right_inj]
      exact ih.trans (by simp [hbreak])

/-- For a replacement that does not bring the pattern back, the loop ends with every occurrence
replaced exactly when the pattern is one character or does not occur; so in the text that
`EscapeChar` gives each line break is one escape sequence exactly when none is written CR LF. -/
theorem replaceCharacter_iff {f r : Str} (hf : f ≠ []) (hr : Inert f r) (s : Str) :
    ((∃ turns, replaceLoop f r turns s = some (replaceAll f r s)) ↔
        f.length = 1 ∨ ¬ f <:+: s) ∧
      ((∃ turns, escapeChar turns s = some (escaped s)) ↔ ¬ str "\r\n" <:+: s) := by
  constructor
  · rw [replaceLoop_iff hf hr, eq_comm, edited_eq_replaceAll_iff hf hr]
  · rw [escapeChar_iff, eq_comm, escapedBy_eq_iff]

/-- Slashes for backslashes. -/
theorem replaceCharacter_iff_slash :
    (∃ turns, replaceLoop (str "\\") (str "/") turns (str "a\\b") =
      some (replaceAll (str "\\") (str "/") (str "a\\b"))) ∧
        ∃ turns, escapeChar turns (str "a\\b") = some (escaped (str "a\\b")) := by
  have hiff := replaceCharacter_iff (by decide)
    (inert_of_disjoint (f := str "\\") (r := str "/") (by decide) (.inl (by decide))
      (by decide +kernel)) (str "a\\b")
  exact ⟨hiff.1.mpr (.inl rfl), hiff.2.mpr (by decide)⟩

/-- The LF of a line break is left, and escaped again. -/
theorem lineBreak_escaped_twice :
    let s := str "a\r\nb"
    replaceLoop (str "\r\n") (str "\\n") 5 s = some (str "a\\n\nb") ∧
      replaceAll (str "\r\n") (str "\\n") s = str "a\\nb" ∧
        escapeChar 9 s = some (str "a\\n\\nb") ∧
          ¬ ∃ turns, escapeChar turns s = some (str "a\\nb") := by
  intro s
  refine ⟨by decide, by decide, by decide, ?_⟩
  rw [escapeChar_iff]
  decide

end TarotClub.Util
