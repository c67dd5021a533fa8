import TarotClub.JsonGrammar
import TarotClub.Terminated

/-! The JSON reader on the characters in memory: every `*s` is a read at an index of the copy
that `ParseString` makes, and a read behind its terminating NUL is an outcome of its own. -/
namespace TarotClub.JsonReader

open JsonText (Digits Fraction numeral)
open Rounding (Double)

/-- The NUL-terminated copy of the text. -/
abbrev Source := Terminated UInt8 0

namespace Source

/-- `strdup(data.c_str())` -/
def ofData (data : Str) : Source where
  chars := data.takeWhile (· ≠ 0)
  noNul h := by simpa using List.mem_takeWhile_imp h

/-- The value of a read, if it is one of the copy. -/
def inside {α : Type} (read : Option α) : Except ParseOutcome α :=
  match read with
  | some v => .ok v
  | none => .error .overRead

/-- `*s` -/
def charAt (source : Source) (s : ℕ) : Except ParseOutcome UInt8 := inside (source.get? s)

/-- The digits from an index on, folded into a value. -/
def scanDigits {β : Type} (source : Source) (f : β → ℕ → β) (v : β) (s : ℕ) :
    Except ParseOutcome (β × ℕ) :=
  inside (source.foldWhile isDigit (fun v c => f v (digitValue c)) v s)

def readFraction (source : Source) (result : Double) (s : ℕ) :
    Except ParseOutcome ((Double × Bool) × ℕ) := do
  if (← source.charAt s) = chr '.' then
    let (p, s) ← source.scanDigits accumulateFraction (.ofNat 1, result) (s + 1)
    .ok ((p.2, true), s)
  else .ok ((result, false), s)

def readExponent (source : Source) (result : Double) (doubleValue : Bool) (s : ℕ) :
    Except ParseOutcome ((Double × Bool) × ℕ) := do
  let mark ← source.charAt s
  if mark = chr 'e' ∨ mark = chr 'E' then
    let sign ← source.charAt (s + 1)
    let base : Double := if sign = chr '-' then .ofRat (1 / 10) else .ofNat 10
    let s := if sign = chr '+' ∨ sign = chr '-' then s + 1 + 1 else s + 1
    let (exponent, s) ← source.scanDigits (fun v d => 10 * v + d) 0 s
    -- `exponent` is an `int`: past its range the behaviour is undefined
    if exponent < 2 ^ 31 then
      .ok ((result.mul (powerLoop 32 exponent base (.ofNat 1)), true), s)
    else .error .overflow
  else .ok ((result, doubleValue), s)

/-- `StringToNumber`: the number and the index behind it. -/
def stringToNumber (source : Source) (s : ℕ) : Except ParseOutcome (JsonValue × ℕ) := do
  let ch ← source.charAt s
  let s := if ch = chr '+' ∨ ch = chr '-' then s + 1 else s
  let (result, s) ← source.scanDigits accumulate (.ofNat 0) s
  let ((result, doubleValue), s) ← source.readFraction result s
  let ((result, doubleValue), s) ← source.readExponent result doubleValue s
  let result := if ch = chr '-' then result.neg else result
  .ok (if doubleValue then .double result else .integer (toInt64 result), s)

/-- The loop over the digits behind `\u`: each turn moves to the next character first. -/
def readCode (source : Source) : ℕ → ℕ → ℕ → Except ParseOutcome ℕ
  | 0, _, c => .ok c
  | n + 1, s, c => do
    let d ← source.charAt (s + 1)
    if isXDigit d then source.readCode n (s + 1) (c * 16 + charToInt d)
    else .error (.error .badString)

/-- The characters of a string up to its closing quote, or up to the NUL. -/
def readString (source : Source) (s : ℕ) (temp : Str) : Except ParseOutcome (Str × ℕ) :=
  match _h : source.get? s with
  | none => .error .overRead
  | some c =>
    -- the text may end inside the string: what has been read so far is its value
    if c = 0 then .ok (temp, s)
    else if c = chr '\\' then do
      let e ← source.charAt (s + 1)
      match simpleEscape e with
      | some b => source.readString (s + 2) (temp ++ [b])
      | none =>
        if e = chr 'u' then
          let code ← source.readCode 4 (s + 1) 0
          source.readString (s + 6) (temp ++ encode code)
        else .error (.error .badString)
    else if isCntrl c then .error (.error .badString)
    else if c = chr '"' then .ok (temp, s + 1)
    else source.readString (s + 1) (temp ++ [c])
termination_by source.chars.length + 1 - s
decreasing_by
  all_goals
    have hle := Terminated.le_length_of_get? _h
    omega

/-- `if (!IsDelim(*s)) return status;` -/
def delimited {β : Type} (source : Source) (status : ParseStatus) (v : β) (s : ℕ) :
    Except ParseOutcome (β × ℕ) := do
  if isDelim (← source.charAt s) then .ok (v, s) else .error (.error status)

/-- `true`, `false` and `null`, whose first character has been read. -/
def readWord (source : Source) : Str → ℕ → JsonValue → Except ParseOutcome (JsonValue × ℕ)
  | [], s, o => source.delimited .badIdentifier o s
  | w :: word, s, o => do
    if w = (← source.charAt s) then source.readWord word (s + 1) o
    else .error (.error .badIdentifier)

/-- The scalar cases of the `switch` on the character at `s`. -/
def readScalar (source : Source) (c : UInt8) (s : ℕ) :
    Option (Except ParseOutcome (JsonValue × ℕ)) :=
  if c = chr '-' ∨ isDigit c then
    some do
      let next ← if c = chr '-' then source.charAt (s + 1) else .ok c
      if isDigit next ∨ next = chr '.' then
        let (o, s) ← source.stringToNumber s
        source.delimited .badNumber o s
      else .error (.error .badNumber)
  else if c = chr '"' then
    some do
      let (temp, s) ← source.readString (s + 1) []
      source.delimited .badString (.string temp) s
  else if c = chr 't' then some (source.readWord (str "rue") (s + 1) (.boolean true))
  else if c = chr 'f' then some (source.readWord (str "alse") (s + 1) (.boolean false))
  else if c = chr 'n' then some (source.readWord (str "ull") (s + 1) .null)
  else none

/-- One turn of `while (*s)`. At the NUL, too, the index moves on before the `switch`. -/
def parseTurn (source : Source) (separator : Bool) (levels : List Level) (s : ℕ) :
    Except ParseOutcome ((Bool × List Level) × ℕ) := do
  let (_, s) ← inside (source.foldWhile isSpace (fun _ _ => ()) () s)
  let c ← source.charAt s
  -- only white space was left: `*endptr = s++` steps over the NUL, and the loop goes on
  if c = 0 then .ok ((separator, levels), s + 1)
  else
    match source.readScalar c s with
    | some scalar =>
      let (o, s) ← scalar
      match addScalar levels o with
      | .error e => .error (.error e)
      | .ok levels => .ok ((false, levels), s)
    | none =>
      match readPunctuation c separator levels [] with
      | .stop outcome => .error outcome
      | .go separator levels _ => .ok ((separator, levels), s + 1)

/-! ### The reader of texts, on the copy -/

variable {source : Source} {s : ℕ} {t : Str}

theorem inside_some {α : Type} (v : α) : inside (some v) = .ok v := rfl

theorem charAt_eq (h : source.At s t) : source.charAt s = .ok (peek t) := by
  rw [charAt, h.get?_eq]
  rfl

theorem peek_ne_zero (h : source.At s t) (ht : t ≠ []) : peek t ≠ 0 := by
  cases t with
  | nil => exact absurd rfl ht
  | cons c t => exact h.ne_nul List.mem_cons_self

/-- The index moves over a character that is not the NUL. -/
theorem at_tail (h : source.At s t) (ht : peek t ≠ 0) : source.At (s + 1) t.tail := by
  cases t with
  | nil => exact absurd rfl ht
  | cons c t => exact h.tail

theorem at_tail_of_or (h : source.At s t) {a b : UInt8} (ha : a ≠ 0) (hb : b ≠ 0)
    (ht : peek t = a ∨ peek t = b) : source.At (s + 1) t.tail := by
  apply at_tail h
  rcases ht with ht | ht
  · rwa [ht]
  · rwa [ht]

/-- The index moves over a sign, where there is one. -/
theorem at_unsigned (h : source.At s t) :
    source.At (if peek t = chr '+' ∨ peek t = chr '-' then s + 1 else s)
      (if peek t = chr '+' ∨ peek t = chr '-' then t.tail else t) := by
  split_ifs with hsign
  · exact at_tail_of_or h (by decide) (by decide) hsign
  · exact h

/-- Both readers end alike, or with one value at the same place. -/
inductive Agree {β : Type} (source : Source) :
    Except ParseOutcome (β × ℕ) → Except ParseOutcome (β × Str) → Prop
  | error (o : ParseOutcome) : Agree source (.error o) (.error o)
  | ok {v : β} {s : ℕ} {t : Str} : source.At s t → Agree source (.ok (v, s)) (.ok (v, t))

theorem scanDigits_eq {β : Type} (f : β → ℕ → β) (v : β) (h : source.At s t) :
    ∃ j, source.scanDigits f v s = .ok ((digits t).foldl f v, j) ∧
      source.At j (t.dropWhile isDigit) := by
  obtain ⟨j, hj, hat⟩ := h.foldWhile_eq (p := isDigit) (by decide)
    (fun v c => f v (digitValue c)) v
  refine ⟨j, ?_, hat⟩
  rw [scanDigits, hj, digits, List.foldl_map]
  rfl

theorem readFraction_eq (result : Double) (h : source.At s t) :
    ∃ j, source.readFraction result s =
        .ok (((JsonReader.readFraction result t).1, (JsonReader.readFraction result t).2.1), j) ∧
      source.At j (JsonReader.readFraction result t).2.2 := by
  unfold readFraction JsonReader.readFraction
  rw [charAt_eq h]
  by_cases hpoint : peek t = chr '.'
  · have htail := at_tail h (by rw [hpoint]; decide)
    obtain ⟨j, hj, hat⟩ := scanDigits_eq accumulateFraction (.ofNat 1, result) htail
    refine ⟨j, ?_, ?_⟩
    · simp only [hpoint, if_true, hj, bind, Except.bind]
    · simpa only [hpoint, if_true] using hat
  · refine ⟨s, ?_, ?_⟩
    · simp only [hpoint, if_false, bind, Except.bind]
    · simpa only [hpoint, if_false] using h

theorem readExponent_agree (result : Double) (b : Bool) (h : source.At s t) :
    Agree source (source.readExponent result b s)
      ((JsonReader.readExponent result b t).elim (.error .overflow)
        fun p => .ok ((p.1, p.2.1), p.2.2)) := by
  unfold readExponent JsonReader.readExponent
  rw [charAt_eq h]
  by_cases hmark : peek t = chr 'e' ∨ peek t = chr 'E'
  · have htail : source.At (s + 1) t.tail := at_tail_of_or h (by decide) (by decide) hmark
    have hsign := at_unsigned htail
    obtain ⟨j, hj, hat⟩ := scanDigits_eq (fun v d => 10 * v + d) 0 hsign
    simp only [hmark, if_true, charAt_eq htail, hj, bind, Except.bind]
    generalize (if peek t.tail = chr '+' ∨ peek t.tail = chr '-' then t.tail.tail
      else t.tail) = u at hat ⊢
    by_cases hlt : (digits u).foldl (fun v d => 10 * v + d) 0 < 2 ^ 31
    · rw [if_pos hlt, if_pos hlt]
      exact .ok hat
    · rw [if_neg hlt, if_neg hlt]
      exact .error _
  · simp only [hmark, if_false, bind, Except.bind]
    exact .ok h

theorem stringToNumber_agree (h : source.At s t) :
    Agree source (source.stringToNumber s)
      ((JsonReader.stringToNumber t).elim (.error .overflow) .ok) := by
  obtain ⟨i, hi, hint⟩ := scanDigits_eq accumulate (.ofNat 0) (at_unsigned h)
  unfold stringToNumber JsonReader.stringToNumber
  rw [charAt_eq h]
  simp only [hi, bind, Except.bind]
  generalize (if peek t = chr '+' ∨ peek t = chr '-' then t.tail else t) = u at hint ⊢
  obtain ⟨j, hj, hfraction⟩ :=
    readFraction_eq ((digits u).foldl accumulate (.ofNat 0)) hint
  simp only [hj]
  generalize JsonReader.readFraction ((digits u).foldl accumulate (.ofNat 0))
    (u.dropWhile isDigit) = r at hfraction ⊢
  have hexponent := readExponent_agree r.1 r.2.1 hfraction
  cases hr : JsonReader.readExponent r.1 r.2.1 r.2.2 with
  | none =>
    rw [hr] at hexponent
    generalize source.readExponent r.1 r.2.1 j = x at hexponent
    cases hexponent
    exact .error _
  | some p =>
    rw [hr] at hexponent
    generalize source.readExponent r.1 r.2.1 j = x at hexponent
    cases hexponent with
    | ok hat => exact .ok hat

theorem readCode_succ (h : source.At (s + 1) t) (n c : ℕ) :
    source.readCode (n + 1) s c =
      if isXDigit (peek t) then source.readCode n (s + 1) (c * 16 + charToInt (peek t))
      else .error (.error .badString) := by
  rw [readCode, charAt_eq h]
  rfl

theorem readCode_four {a b c d : UInt8}
    (hx : (isXDigit a && isXDigit b && isXDigit c && isXDigit d) = true)
    (h : source.At (s + 1) (a :: b :: c :: d :: t)) :
    source.readCode 4 s 0 =
      .ok (((charToInt a * 16 + charToInt b) * 16 + charToInt c) * 16 + charToInt d) := by
  simp only [Bool.and_eq_true] at hx
  obtain ⟨⟨⟨ha, hb⟩, hc⟩, hd⟩ := hx
  rw [readCode_succ h, peek, List.headD_cons, if_pos ha, readCode_succ h.tail, peek,
    List.headD_cons, if_pos hb, readCode_succ h.tail.tail, peek, List.headD_cons, if_pos hc,
    readCode_succ h.tail.tail.tail, peek, List.headD_cons, if_pos hd, readCode]
  simp

/-- The four digits are not there: the loop stops at the first character that is none. -/
theorem readCode_error (n : ℕ) {c : ℕ} (h : source.At (s + 1) t)
    (hx : ¬ ∃ x u, t = x ++ u ∧ x.length = n ∧ ∀ d ∈ x, isXDigit d = true) :
    source.readCode n s c = .error (.error .badString) := by
  induction n generalizing s t c with
  | zero => exact absurd ⟨[], t, rfl, rfl, by simp⟩ hx
  | succ n ih =>
    rw [readCode_succ h]
    split_ifs with hdigit
    · cases t with
      | nil => exact absurd hdigit (by decide)
      | cons d t =>
        apply ih h.tail
        rintro ⟨x, u, rfl, hn, hall⟩
        refine hx ⟨d :: x, u, rfl, by rw [List.length_cons, hn], ?_⟩
        rw [List.forall_mem_cons]
        exact ⟨hdigit, hall⟩
    · rfl

theorem readString_of_at (h : source.At s t) (temp : Str) :
    source.readString s temp =
      if peek t = 0 then .ok (temp, s)
      else if peek t = chr '\\' then do
        let e ← source.charAt (s + 1)
        match simpleEscape e with
        | some b => source.readString (s + 2) (temp ++ [b])
        | none =>
          if e = chr 'u' then
            let code ← source.readCode 4 (s + 1) 0
            source.readString (s + 6) (temp ++ encode code)
          else .error (.error .badString)
      else if isCntrl (peek t) then .error (.error .badString)
      else if peek t = chr '"' then .ok (temp, s + 1)
      else source.readString (s + 1) (temp ++ [peek t]) := by
  rw [readString]
  split
  · rename_i hnone
    rw [h.get?_eq] at hnone
    contradiction
  · rename_i c hsome
    obtain rfl := Option.some.inj (h.get?_eq.symm.trans hsome)
    rfl

theorem readString_escape {e : UInt8} {temp : Str} (h : source.At s (chr '\\' :: t))
    (he : peek t = e) :
    source.readString s temp =
      match simpleEscape e with
      | some b => source.readString (s + 2) (temp ++ [b])
      | none =>
        if e = chr 'u' then do
          let code ← source.readCode 4 (s + 1) 0
          source.readString (s + 6) (temp ++ encode code)
        else .error (.error .badString) := by
  have hslash : peek (chr '\\' :: t) = chr '\\' := rfl
  have hzero : chr '\\' ≠ 0 := by decide
  rw [readString_of_at h, hslash, if_neg hzero, if_pos rfl, charAt_eq h.tail, he]
  rfl

/-- The copy holds what the reader of texts takes for a string. -/
theorem readString_agree (h : source.At s t) (temp : Str) :
    Agree source (source.readString s temp)
      ((JsonReader.readString t temp).mapError .error) := by
  fun_induction JsonReader.readString t temp generalizing s with
  | case1 temp =>
    rw [readString_of_at h]
    exact .ok h
  | case2 temp =>
    rw [readString_escape h (e := 0) rfl]
    exact .error _
  | case3 temp e t b he ih =>
    rw [readString_escape h (e := e) rfl, he]
    exact ih h.tail.tail
  | case4 temp a b c d t hx hu ih =>
    rw [readString_escape h (e := chr 'u') rfl, hu]
    simp only [if_true, readCode_four hx h.tail.tail]
    exact ih h.tail.tail.tail.tail.tail.tail
  | case5 temp a b c d t hx hu =>
    have hnot : ¬ ∃ x u, a :: b :: c :: d :: t = x ++ u ∧ x.length = 4 ∧
        ∀ e ∈ x, isXDigit e = true := by
      rintro ⟨x, u, hxu, hlength, hall⟩
      obtain ⟨a', b', c', d', rfl⟩ := List.length_eq_four.mp hlength
      simp only [List.cons_append, List.nil_append, List.cons.injEq] at hxu
      obtain ⟨rfl, rfl, rfl, rfl, -⟩ := hxu
      exact hx (by simp [hall])
    have hcode := readCode_error 4 (c := 0) h.tail.tail hnot
    rw [readString_escape h (e := chr 'u') rfl, hu]
    simp only [if_true, hcode]
    exact .error _
  | case6 temp t hshort hu =>
    have hnot : ¬ ∃ x u, t = x ++ u ∧ x.length = 4 ∧ ∀ e ∈ x, isXDigit e = true := by
      rintro ⟨x, u, rfl, hlength, -⟩
      obtain ⟨a, b, c, d, rfl⟩ := List.length_eq_four.mp hlength
      exact hshort a b c d u rfl
    have hcode := readCode_error 4 (c := 0) h.tail.tail hnot
    rw [readString_escape h (e := chr 'u') rfl, hu]
    simp only [if_true, hcode]
    exact .error _
  | case7 temp e t he hu =>
    rw [readString_escape h (e := e) rfl, he]
    simp only [hu, if_false]
    exact .error _
  | case8 c t temp hslash hcntrl =>
    have hc : c ≠ 0 := h.ne_nul List.mem_cons_self
    rw [readString_of_at h, peek, List.headD_cons, if_neg hc, if_neg hslash, if_pos hcntrl]
    exact .error _
  | case9 t temp hslash hcntrl =>
    have hc : chr '"' ≠ 0 := by decide
    rw [readString_of_at h, peek, List.headD_cons, if_neg hc, if_neg hslash, if_neg hcntrl,
      if_pos rfl]
    exact .ok h.tail
  | case10 c t temp hslash hcntrl hquote ih =>
    have hc : c ≠ 0 := h.ne_nul List.mem_cons_self
    rw [readString_of_at h, peek, List.headD_cons, if_neg hc, if_neg hslash, if_neg hcntrl,
      if_neg hquote]
    exact ih h.tail

theorem delimited_agree {β : Type} (status : ParseStatus) (v : β) (h : source.At s t) :
    Agree source (source.delimited status v s)
      (if isDelim (peek t) then .ok (v, t) else .error (.error status)) := by
  rw [delimited, charAt_eq h]
  by_cases ht : isDelim (peek t) = true
  · rw [if_pos ht]
    simp only [ht, if_true, bind, Except.bind]
    exact .ok h
  · rw [if_neg ht]
    simp only [ht, bind, Except.bind]
    exact .error _

theorem readWord_agree {word : Str} (hword : 0 ∉ word) (h : source.At s t) (o : JsonValue) :
    Agree source (source.readWord word s o)
      ((JsonReader.readWord word t o).mapError .error) := by
  induction word generalizing s t with
  | nil =>
    have hdelim := delimited_agree .badIdentifier o h
    rw [readWord, JsonReader.readWord, stripWord]
    dsimp only
    split_ifs at hdelim ⊢
    · exact hdelim
    · exact hdelim
  | cons w word ih =>
    rw [List.mem_cons, not_or] at hword
    rw [readWord, charAt_eq h, JsonReader.readWord]
    cases t with
    | nil =>
      have hw : ¬ w = peek [] := fun hw => hword.1 hw.symm
      simp only [hw, if_false, stripWord, bind, Except.bind]
      exact .error _
    | cons c t =>
      by_cases hw : w = c
      · subst hw
        have hagree := ih hword.2 h.tail
        rw [JsonReader.readWord] at hagree
        simpa only [stripWord, peek, List.headD_cons, if_true, bind, Except.bind] using hagree
      · simp only [peek, List.headD_cons, hw, if_false, stripWord, bind, Except.bind]
        exact .error _

/-- A scalar and the test of the character behind it, on the copy and on the text. -/
theorem Agree.delimited {β : Type} {x : Except ParseOutcome (β × ℕ)}
    {y : Except ParseOutcome (β × Str)} (hxy : Agree source x y) (status : ParseStatus)
    (f : β → JsonValue) :
    Agree source (do let (v, s) ← x; source.delimited status (f v) s)
      (do let (v, t) ← y
          if isDelim (peek t) then .ok (f v, t) else .error (.error status)) := by
  cases hxy with
  | error o => exact .error o
  | ok h => exact delimited_agree status (f _) h

theorem readNumber_agree {c : UInt8} (hc : c = chr '-' ∨ isDigit c = true)
    (h : source.At s (c :: t)) :
    Agree source
      (do let next ← if c = chr '-' then source.charAt (s + 1) else .ok c
          if isDigit next ∨ next = chr '.' then
            let (o, s) ← source.stringToNumber s
            source.delimited .badNumber o s
          else .error (.error .badNumber))
      (if c = chr '-' ∧ ¬ (isDigit (peek t) ∨ peek t = chr '.') then .error (.error .badNumber)
        else
          match JsonReader.stringToNumber (c :: t) with
          | none => .error .overflow
          | some (o, s) =>
            if isDelim (peek s) then .ok (o, s) else .error (.error .badNumber)) := by
  have hnumber : Agree source
      (do let (o, s) ← source.stringToNumber s
          source.delimited .badNumber o s)
      (match JsonReader.stringToNumber (c :: t) with
      | none => .error .overflow
      | some (o, s) =>
        if isDelim (peek s) then .ok (o, s) else .error (.error .badNumber)) := by
    have hagree := (stringToNumber_agree h).delimited .badNumber id
    cases hread : JsonReader.stringToNumber (c :: t) with
    | none =>
      rw [hread] at hagree
      exact hagree
    | some p =>
      rw [hread] at hagree
      exact hagree
  by_cases hminus : c = chr '-'
  · rw [if_pos hminus, charAt_eq h.tail]
    by_cases hnext : isDigit (peek t) = true ∨ peek t = chr '.'
    · rw [if_neg (by simp [hnext])]
      simp only [hnext, if_true, bind, Except.bind] at hnumber ⊢
      exact hnumber
    · rw [if_pos ⟨hminus, hnext⟩]
      simp only [hnext, if_false, bind, Except.bind]
      exact .error _
  · have hdigit : isDigit c = true := hc.resolve_left hminus
    rw [if_neg hminus, if_neg (by simp [hminus])]
    simp only [hdigit, true_or, if_true, bind, Except.bind] at hnumber ⊢
    exact hnumber

theorem readScalar_agree {c : UInt8} (h : source.At s (c :: t)) :
    match source.readScalar c s, JsonReader.readScalar c t with
    | some x, some y => Agree source x y
    | none, none => True
    | _, _ => False := by
  have hwords : 0 ∉ str "rue" ∧ 0 ∉ str "alse" ∧ 0 ∉ str "ull" := by decide
  unfold readScalar JsonReader.readScalar
  by_cases hnumber : c = chr '-' ∨ isDigit c = true
  · rw [if_pos hnumber, if_pos hnumber]
    exact readNumber_agree hnumber h
  rw [if_neg hnumber, if_neg hnumber]
  by_cases hquote : c = chr '"'
  · rw [if_pos hquote, if_pos hquote]
    have hstring := (readString_agree h.tail []).delimited .badString .string
    cases hread : JsonReader.readString t [] with
    | error e =>
      rw [hread] at hstring
      exact hstring
    | ok p =>
      rw [hread] at hstring
      exact hstring
  rw [if_neg hquote, if_neg hquote]
  by_cases ht : c = chr 't'
  · rw [if_pos ht, if_pos ht]
    exact readWord_agree hwords.1 h.tail _
  rw [if_neg ht, if_neg ht]
  by_cases hf : c = chr 'f'
  · rw [if_pos hf, if_pos hf]
    exact readWord_agree hwords.2.1 h.tail _
  rw [if_neg hf, if_neg hf]
  by_cases hn : c = chr 'n'
  · rw [if_pos hn, if_pos hn]
    exact readWord_agree hwords.2.2 h.tail _
  rw [if_neg hn, if_neg hn]
  trivial

theorem readPunctuation_rest (c : UInt8) (b : Bool) (levels : List Level) (t : Str) :
    readPunctuation c b levels t =
      match readPunctuation c b levels [] with
      | .stop o => .stop o
      | .go b levels _ => .go b levels t := by
  by_cases hc : c ∈ [chr ']', chr '}', chr '[', chr '{', chr ':', chr ',']
  swap
  · rw [readPunctuation_other hc, readPunctuation_other hc]
  simp only [List.mem_cons, List.not_mem_nil, or_false] at hc
  rcases hc with rfl | rfl | rfl | rfl | rfl | rfl
  · match levels with
    | [] | .object _ _ :: _ | [.array _] | .array _ :: _ :: _ => rfl
  · match levels with
    | [] | .array _ :: _ | .object _ (_ :: _) :: _ | [.object _ []] | .object _ [] :: _ :: _ => rfl
  · rfl
  · rfl
  · cases levels with
    | nil => rfl
    | cons l ls =>
      rw [readPunctuation_colon, readPunctuation_colon]
      split_ifs <;> rfl
  · cases levels with
    | nil => cases b <;> rfl
    | cons l ls =>
      rw [readPunctuation_comma, readPunctuation_comma]
      split_ifs <;> rfl

/-- A turn of the loop. Where only white space is left the index ends behind the NUL. -/
theorem parseTurn_agree (b : Bool) (levels : List Level) (h : source.At s t) :
    match JsonReader.parseTurn b levels t with
    | .stop o => source.parseTurn b levels s = .error o ∨
        o = .overRead ∧
          source.parseTurn b levels s = .ok ((b, levels), source.chars.length + 1)
    | .go b' levels' u => ∃ j, source.parseTurn b levels s = .ok ((b', levels'), j) ∧
        source.At j u := by
  obtain ⟨j, hj, hat⟩ := h.foldWhile_eq (p := isSpace) (by decide) (fun _ _ => ()) ()
  unfold parseTurn JsonReader.parseTurn
  rw [hj, inside_some]
  generalize t.dropWhile isSpace = u at hat
  simp only [bind, Except.bind, charAt_eq hat]
  cases u with
  | nil =>
    have hlength := hat.length_eq
    rw [List.length_nil, Nat.add_zero] at hlength
    have hzero : peek [] = 0 := rfl
    refine .inr ⟨rfl, ?_⟩
    rw [if_pos hzero, hlength]
  | cons c u =>
    have hc : ¬ peek (c :: u) = 0 := hat.ne_nul List.mem_cons_self
    have hscalar := readScalar_agree hat
    rw [if_neg hc, peek, List.headD_cons]
    dsimp only
    cases hx : source.readScalar c j with
    | none =>
      cases hy : JsonReader.readScalar c u with
      | none =>
        dsimp only
        rw [readPunctuation_rest]
        cases readPunctuation c b levels [] with
        | stop o => exact .inl rfl
        | go b' levels' v => exact ⟨j + 1, rfl, hat.tail⟩
      | some y =>
        rw [hx, hy] at hscalar
        exact hscalar.elim
    | some x =>
      cases hy : JsonReader.readScalar c u with
      | none =>
        rw [hx, hy] at hscalar
        exact hscalar.elim
      | some y =>
        rw [hx, hy] at hscalar
        cases hscalar with
        | error o => exact .inl rfl
        | @ok v k t' hk =>
          dsimp only
          cases addScalar levels v with
          | error e => exact .inl rfl
          | ok levels' => exact ⟨k, rfl, hk⟩

theorem parseTurn_lt {b b' : Bool} {levels levels' : List Level} {j : ℕ}
    (h : source.parseTurn b levels s = .ok ((b', levels'), j)) (hs : s ≤ source.chars.length) :
    s < j := by
  have hat := Terminated.At.of_le hs
  have hagree := parseTurn_agree b levels hat
  cases hturn : JsonReader.parseTurn b levels (source.chars.drop s) with
  | stop o =>
    rw [hturn] at hagree
    rcases hagree with herror | ⟨-, hover⟩
    · rw [h] at herror
      contradiction
    · rw [h] at hover
      obtain ⟨-, rfl⟩ := Prod.mk.inj (Except.ok.inj hover)
      omega
  | go b'' levels'' u =>
    rw [hturn] at hagree
    obtain ⟨k, hk, hu⟩ := hagree
    rw [h] at hk
    obtain ⟨-, rfl⟩ := Prod.mk.inj (Except.ok.inj hk)
    -- the text of the next turn is shorter, so its index is larger
    have hlength := parseTurn_length hturn
    have h1 := hat.length_eq
    have h2 := hu.length_eq
    omega

/-- `while (*s)` -/
def parseFrom (source : Source) (separator : Bool) (levels : List Level) (s : ℕ) :
    ParseOutcome :=
  match _h : source.get? s with
  | none => .overRead
  | some c =>
    if c = 0 then .error .breakingBad
    else
      match _hturn : source.parseTurn separator levels s with
      | .error outcome => outcome
      | .ok ((separator, levels), s) => source.parseFrom separator levels s
termination_by source.chars.length + 1 - s
decreasing_by
  have hle := Terminated.le_length_of_get? _h
  have hlt := parseTurn_lt _hturn hle
  omega

/-- `Parse` -/
def parse (source : Source) : ParseOutcome := source.parseFrom true [] 0

theorem parseFrom_behind (b : Bool) (levels : List Level) (hs : source.chars.length < s) :
    source.parseFrom b levels s = .overRead := by
  rw [parseFrom]
  split
  · rfl
  · rename_i hsome
    rw [Terminated.get?_eq_none.mpr hs] at hsome
    contradiction

theorem parseFrom_nul (b : Bool) (levels : List Level) (h : source.At s []) :
    source.parseFrom b levels s = .error .breakingBad := by
  rw [parseFrom]
  split
  · rename_i hnone
    rw [h.get?_eq] at hnone
    contradiction
  · rename_i c hsome
    have hc : c = 0 := (Option.some.inj (h.get?_eq.symm.trans hsome)).symm
    rw [if_pos hc]

theorem parseFrom_of_at (b : Bool) (levels : List Level) (h : source.At s t) (ht : t ≠ []) :
    source.parseFrom b levels s =
      match source.parseTurn b levels s with
      | .error outcome => outcome
      | .ok ((b', levels'), j) => source.parseFrom b' levels' j := by
  rw [parseFrom]
  split
  · rename_i hnone
    rw [h.get?_eq] at hnone
    contradiction
  rename_i c hsome
  have hc : ¬ c = 0 := by
    rw [← Option.some.inj (h.get?_eq.symm.trans hsome)]
    exact peek_ne_zero h ht
  rw [if_neg hc]
  split
  · rename_i hturn
    rw [hturn]
  · rename_i hturn
    rw [hturn]

/-- From any place the loop ends as the reader of texts ends on the rest of the text. -/
theorem parseFrom_eq (b : Bool) (levels : List Level) (h : source.At s t) :
    source.parseFrom b levels s = readFrom b levels t := by
  induction hn : t.length using Nat.strong_induction_on generalizing b levels s t with
  | _ n ih =>
    by_cases ht : t = []
    · subst ht
      rw [parseFrom_nul b levels h, readFrom_nil]
    have hagree := parseTurn_agree b levels h
    rw [parseFrom_of_at b levels h ht]
    cases hturn : JsonReader.parseTurn b levels t with
    | stop o =>
      rw [readFrom_stop ht hturn]
      rw [hturn] at hagree
      rcases hagree with herror | ⟨rfl, hover⟩
      · rw [herror]
      · -- the next test of `while (*s)` reads behind the NUL
        rw [hover]
        exact parseFrom_behind b levels (Nat.lt_succ_self _)
    | go b' levels' u =>
      rw [readFrom_go hturn]
      rw [hturn] at hagree
      obtain ⟨j, hj, hu⟩ := hagree
      rw [hj]
      exact ih u.length (hn ▸ parseTurn_length hturn) b' levels' hu rfl

/-- The reader of the copy and the reader of the text end alike. -/
theorem parse_eq (source : Source) : source.parse = JsonReader.parse source.chars :=
  parseFrom_eq true [] (.start source)

theorem parseString_eq (data : Str) :
    parseString data =
      match (ofData data).parse with
      | .ok json => some json
      | _ => none := by
  rw [parse_eq]
  rfl

end Source

end TarotClub.JsonReader
