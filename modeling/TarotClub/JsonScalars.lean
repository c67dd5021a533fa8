import TarotClub.Hex
import TarotClub.JsonReader
import TarotClub.JsonText

namespace TarotClub.JsonReader

open JsonText (Digits Exponent Fraction Number numeral)
open Rounding (Double)

/-- A scalar ends where one of these characters stands, or where the text ends. -/
def Delimited (t : Str) : Prop := isDelim (peek t) = true

theorem delimited_cons {c : UInt8} (hc : isDelim c = true) (t : Str) : Delimited (c :: t) := hc

/-! ### Strings -/

/-- One character between the quotes, as written and as read. -/
inductive Character : Str → Str → Prop
  | plain {c : UInt8} : c ≠ chr '\\' → isCntrl c = false → c ≠ chr '"' → Character [c] [c]
  | escape {e b : UInt8} : simpleEscape e = some b → Character [chr '\\', e] [b]
  | unicode {a b c d : UInt8} :
      (isXDigit a && isXDigit b && isXDigit c && isXDigit d) = true →
      Character [chr '\\', chr 'u', a, b, c, d]
        (encode (((charToInt a * 16 + charToInt b) * 16 + charToInt c) * 16 + charToInt d))

/-- What stands between the quotes, as written and as read. -/
inductive Body : Str → Str → Prop
  | nil : Body [] []
  | cons {x d y e : Str} : Character x d → Body y e → Body (x ++ y) (d ++ e)

theorem encode_ne_nil (c : ℕ) : encode c ≠ [] := by
  unfold encode
  split_ifs <;> simp

theorem Character.read_ne_nil {x d : Str} (h : Character x d) : d ≠ [] := by
  cases h with
  | plain => simp
  | escape => simp
  | unicode => exact encode_ne_nil _

theorem Body.read_eq_nil {x d : Str} (h : Body x d) : d = [] ↔ x = [] := by
  cases h with
  | nil => simp
  | cons hc hb =>
    have hx := hc.read_ne_nil
    cases hc <;> simp_all

/-- A character is read and appended. -/
theorem readString_character {x d : Str} (h : Character x d) (s temp : Str) :
    readString (x ++ s) temp = readString s (temp ++ d) := by
  have hslash : simpleEscape (chr 'u') = none := by decide
  cases h with
  | plain h1 h2 h3 =>
    rw [List.singleton_append, readString.eq_def]
    simp only [h1, h2, h3, if_false, Bool.false_eq_true]
  | escape he =>
    rw [List.cons_append, List.singleton_append, readString.eq_def]
    simp only [he, if_true]
  | unicode hx =>
    simp only [List.cons_append, List.nil_append]
    rw [readString.eq_def]
    simp only [hslash, hx, if_true]

theorem readString_body {x d : Str} (h : Body x d) (s temp : Str) :
    readString (x ++ s) temp = readString s (temp ++ d) := by
  induction h generalizing temp with
  | nil => rw [List.nil_append, List.append_nil]
  | cons hc _ ih => rw [List.append_assoc, readString_character hc, ih, List.append_assoc]

theorem readString_quote (t temp : Str) : readString (chr '"' :: t) temp = .ok (temp, t) := by
  have hslash : chr '"' ≠ chr '\\' := by decide
  have hcntrl : isCntrl (chr '"') = false := by decide
  rw [readString.eq_def]
  simp only [hslash, hcntrl, if_true, if_false, Bool.false_eq_true]

/-- The text `s` is a body up to its quote or up to the end of the text, `t` is what stands
behind it, and `r` is `temp` with the body read into it. -/
def BodyRead (s temp r t : Str) : Prop :=
  ∃ x d, Body x d ∧ r = temp ++ d ∧ (s = x ++ chr '"' :: t ∨ s = x ∧ t = [])

theorem BodyRead.cons {x d s temp r t : Str} (hc : Character x d)
    (h : BodyRead s (temp ++ d) r t) : BodyRead (x ++ s) temp r t := by
  obtain ⟨y, e, hb, rfl, hs⟩ := h
  refine ⟨x ++ y, d ++ e, .cons hc hb, List.append_assoc _ _ _, ?_⟩
  rcases hs with rfl | ⟨rfl, ht⟩
  · exact .inl (List.append_assoc _ _ _).symm
  · exact .inr ⟨rfl, ht⟩

theorem bodyRead_of_ok {s temp r t : Str} (h : readString s temp = .ok (r, t)) :
    BodyRead s temp r t := by
  fun_induction readString s temp with
  | case1 temp =>
    obtain ⟨rfl, rfl⟩ := by simpa only [Except.ok.injEq, Prod.mk.injEq] using h
    exact ⟨[], [], .nil, (List.append_nil _).symm, .inr ⟨rfl, rfl⟩⟩
  | case3 temp e s b he ih => exact .cons (.escape he) (ih h)
  | case4 temp a b c d s hx _ ih => exact .cons (.unicode hx) (ih h)
  | case9 s temp =>
    obtain ⟨rfl, rfl⟩ := by simpa only [Except.ok.injEq, Prod.mk.injEq] using h
    exact ⟨[], [], .nil, (List.append_nil _).symm, .inl rfl⟩
  | case10 c s temp h1 h2 h3 ih => exact .cons (.plain h1 (by simpa using h2) h3) (ih h)
  | case2 | case5 | case6 | case7 | case8 => contradiction

/-! ### Numbers -/

/-- Digits whose number an `int` holds. -/
def IntDigits (ds : Str) : Prop := Digits ds ∧ numeral ds < 2 ^ 31

/-- How a number starts: with a digit, or with a minus and a digit or a point. -/
def StartsNumber (x : Str) : Prop :=
  isDigit (peek x) = true ∨ ∃ c t, x = chr '-' :: c :: t ∧ (isDigit c = true ∨ c = chr '.')

/-- The text of a number as the reader takes it: there need not be digits before or behind the
point, nor behind the mark of the exponent. -/
def Numeral (x : Str) : Prop := Number Digits Digits IntDigits x ∧ StartsNumber x

theorem eq_cons_of_peek {s : Str} {c : UInt8} (hc : c ≠ 0) (h : peek s = c) :
    s = c :: s.tail := by
  cases s with
  | nil => exact absurd h.symm hc
  | cons d s =>
    rw [← h]
    rfl

theorem isDelim_spec {c : UInt8} (hc : isDelim c = true) :
    isDigit c = false ∧ c ≠ chr '.' ∧ c ≠ chr 'e' ∧ c ≠ chr 'E' ∧ c ≠ chr '+' ∧ c ≠ chr '-' := by
  have h : ∀ c : UInt8, isDelim c = true → isDigit c = false ∧ c ≠ chr '.' ∧ c ≠ chr 'e' ∧
      c ≠ chr 'E' ∧ c ≠ chr '+' ∧ c ≠ chr '-' := forall_byte (by decide +kernel)
  exact h c hc

theorem isDigit_spec {c : UInt8} (hc : isDigit c = true) :
    c ≠ chr '.' ∧ c ≠ chr 'e' ∧ c ≠ chr 'E' ∧ c ≠ chr '+' ∧ c ≠ chr '-' := by
  have h : ∀ c : UInt8, isDigit c = true → c ≠ chr '.' ∧ c ≠ chr 'e' ∧ c ≠ chr 'E' ∧
      c ≠ chr '+' ∧ c ≠ chr '-' := forall_byte (by decide +kernel)
  exact h c hc

/-- Digits are taken up to the first character that is none. -/
theorem digits_append {ds u : Str} (hd : Digits ds) (hu : isDigit (peek u) = false) :
    digits (ds ++ u) = ds.map digitValue ∧ (ds ++ u).dropWhile isDigit = u := by
  have hd' : ∀ c ∈ ds, isDigit c = true := hd
  have htake : u.takeWhile isDigit = [] ∧ u.dropWhile isDigit = u := by
    cases u with
    | nil => exact ⟨rfl, rfl⟩
    | cons c u =>
      have hc : ¬ isDigit c = true := by
        rw [Bool.not_eq_true]
        exact hu
      exact ⟨List.takeWhile_cons_of_neg hc, List.dropWhile_cons_of_neg hc⟩
  constructor
  · rw [digits, List.takeWhile_append_of_pos hd', htake.1, List.append_nil]
  · rw [List.dropWhile_append_of_pos hd', htake.2]

theorem foldl_digitValue (ds : Str) :
    (ds.map digitValue).foldl (fun v d => 10 * v + d) 0 = numeral ds := by
  rw [List.foldl_map]
  rfl

theorem readFraction_text {frac u : Str} (hf : Fraction Digits frac)
    (hu : isDigit (peek u) = false) (hpoint : peek u ≠ chr '.') (result : Double) :
    (readFraction result (frac ++ u)).2.2 = u := by
  cases hf with
  | none => rw [List.nil_append, readFraction, if_neg hpoint]
  | @point ds hd =>
    have hpeek : peek (0x2E :: (ds ++ u)) = chr '.' := rfl
    rw [List.cons_append, readFraction, if_pos hpeek, List.tail_cons, (digits_append hd hu).2]

theorem readFraction_eq (result : Double) (s : Str) :
    ∃ frac, Fraction Digits frac ∧ s = frac ++ (readFraction result s).2.2 := by
  unfold readFraction
  split_ifs with h
  · refine ⟨_, @Fraction.point _ (s.tail.takeWhile isDigit) ?_, ?_⟩
    · exact fun c hc => List.mem_takeWhile_imp hc
    · rw [List.cons_append, List.takeWhile_append_dropWhile]
      exact eq_cons_of_peek (by decide) h
  · exact ⟨[], .none, rfl⟩

/-- Digits behind the sign of an exponent are not taken for a sign. -/
theorem peek_digits_append {ds t : Str} (hd : Digits ds) (ht : Delimited t) :
    peek (ds ++ t) ≠ chr '+' ∧ peek (ds ++ t) ≠ chr '-' := by
  cases ds with
  | nil => exact ⟨(isDelim_spec ht).2.2.2.2.1, (isDelim_spec ht).2.2.2.2.2⟩
  | cons c ds =>
    have hc := isDigit_spec (hd c List.mem_cons_self)
    exact ⟨hc.2.2.2.1, hc.2.2.2.2⟩

theorem readExponent_mark {e : UInt8} {sign ds t : Str} (he : e = chr 'e' ∨ e = chr 'E')
    (hs : sign = [] ∨ sign = [chr '+'] ∨ sign = [chr '-']) (hd : Digits ds)
    (ht : isDigit (peek t) = false)
    (hsign : peek (ds ++ t) ≠ chr '+' ∧ peek (ds ++ t) ≠ chr '-') (result : Double) (b : Bool) :
    ∃ base, readExponent result b (e :: (sign ++ (ds ++ t))) =
      if numeral ds < 2 ^ 31 then
        some (result.mul (powerLoop 32 (numeral ds) base (.ofNat 1)), true, t)
      else none := by
  have hmark : peek (e :: (sign ++ (ds ++ t))) = chr 'e' ∨
      peek (e :: (sign ++ (ds ++ t))) = chr 'E' := he
  obtain ⟨hvalue, hrest⟩ := digits_append hd ht
  obtain ⟨hplus, hminus⟩ := hsign
  rw [readExponent, if_pos hmark]
  rcases hs with rfl | rfl | rfl
  · refine ⟨.ofNat 10, ?_⟩
    simp [hplus, hminus, hvalue, foldl_digitValue, hrest]
  · refine ⟨.ofNat 10, ?_⟩
    have hpeek : peek (chr '+' :: (ds ++ t)) = chr '+' := rfl
    have hne : chr '+' ≠ chr '-' := by decide
    simp [hpeek, hne, hvalue, foldl_digitValue, hrest]
  · refine ⟨.ofRat (1 / 10), ?_⟩
    have hpeek : peek (chr '-' :: (ds ++ t)) = chr '-' := rfl
    simp [hpeek, hvalue, foldl_digitValue, hrest]

theorem readExponent_text {e : UInt8} {sign ds t : Str} (he : e = chr 'e' ∨ e = chr 'E')
    (hs : sign = [] ∨ sign = [chr '+'] ∨ sign = [chr '-']) (hd : Digits ds)
    (ht : Delimited t) (result : Double) (b : Bool) :
    ∃ base, readExponent result b (e :: (sign ++ (ds ++ t))) =
      if numeral ds < 2 ^ 31 then
        some (result.mul (powerLoop 32 (numeral ds) base (.ofNat 1)), true, t)
      else none :=
  readExponent_mark he hs hd (isDelim_spec ht).1 (peek_digits_append hd ht) result b

theorem readExponent_delimited {t : Str} (ht : Delimited t) (result : Double) (b : Bool) :
    readExponent result b t = some (result, b, t) := by
  obtain ⟨-, -, he, hE, -⟩ := isDelim_spec ht
  rw [readExponent, if_neg (by simp [he, hE])]

theorem isDigit_peek_dropWhile (s : Str) : isDigit (peek (s.dropWhile isDigit)) = false := by
  have hhead := List.head?_dropWhile_not isDigit s
  generalize s.dropWhile isDigit = u at hhead
  cases u with
  | nil => decide
  | cons c u => exact hhead

/-- The mark, then perhaps a sign, then digits. -/
theorem exponent_split {s : Str} (he : peek s = chr 'e' ∨ peek s = chr 'E') :
    ∃ e sign v, s = e :: (sign ++ (v.takeWhile isDigit ++ v.dropWhile isDigit)) ∧
      (e = chr 'e' ∨ e = chr 'E') ∧ (sign = [] ∨ sign = [chr '+'] ∨ sign = [chr '-']) ∧
      v = if peek s.tail = chr '+' ∨ peek s.tail = chr '-' then s.tail.tail else s.tail := by
  obtain ⟨e, u, rfl⟩ : ∃ e u, s = e :: u := by
    rcases he with he | he
    exacts [⟨_, _, eq_cons_of_peek (by decide) he⟩, ⟨_, _, eq_cons_of_peek (by decide) he⟩]
  rw [List.tail_cons]
  simp only [List.takeWhile_append_dropWhile]
  split_ifs with hsign
  · rcases hsign with hsign | hsign
    · have hu := eq_cons_of_peek (by decide) hsign
      exact ⟨e, [chr '+'], u.tail, congrArg _ hu, he, .inr (.inl rfl), rfl⟩
    · have hu := eq_cons_of_peek (by decide) hsign
      exact ⟨e, [chr '-'], u.tail, congrArg _ hu, he, .inr (.inr rfl), rfl⟩
  · exact ⟨e, [], u, rfl, he, .inl rfl, rfl⟩

theorem readExponent_eq_some {s t : Str} {result r : Double} {b b' : Bool}
    (h : readExponent result b s = some (r, b', t)) :
    ∃ exp, Exponent IntDigits exp ∧ s = exp ++ t := by
  unfold readExponent at h
  dsimp only at h
  by_cases he : peek s = chr 'e' ∨ peek s = chr 'E'
  · obtain ⟨e, sign, v, hs, he', hsign, hv⟩ := exponent_split he
    rw [if_pos he, ← hv] at h
    by_cases hlt : (digits v).foldl (fun v d => 10 * v + d) 0 < 2 ^ 31
    · rw [if_pos hlt] at h
      obtain ⟨-, -, rfl⟩ := by simpa only [Option.some.injEq, Prod.mk.injEq] using h
      have hd : Digits (v.takeWhile isDigit) := fun c hc => List.mem_takeWhile_imp hc
      rw [digits, foldl_digitValue] at hlt
      refine ⟨e :: (sign ++ v.takeWhile isDigit), .mark he' hsign ⟨hd, hlt⟩, hs.trans ?_⟩
      rw [List.cons_append, List.append_assoc]
    · rw [if_neg hlt] at h
      contradiction
  · rw [if_neg he] at h
    obtain ⟨-, -, rfl⟩ := by simpa only [Option.some.injEq, Prod.mk.injEq] using h
    exact ⟨[], .none, rfl⟩

/-- Only an exponent that no `int` holds stops the reading of a number. -/
theorem readExponent_eq_none {s : Str} {result : Double} {b : Bool}
    (h : readExponent result b s = none) :
    ∃ e sign ds t, s = e :: (sign ++ (ds ++ t)) ∧ (e = chr 'e' ∨ e = chr 'E') ∧
      (sign = [] ∨ sign = [chr '+'] ∨ sign = [chr '-']) ∧ Digits ds ∧ 2 ^ 31 ≤ numeral ds ∧
      isDigit (peek t) = false := by
  unfold readExponent at h
  dsimp only at h
  by_cases he : peek s = chr 'e' ∨ peek s = chr 'E'
  · obtain ⟨e, sign, v, hs, he', hsign, hv⟩ := exponent_split he
    rw [if_pos he, ← hv] at h
    by_cases hlt : (digits v).foldl (fun v d => 10 * v + d) 0 < 2 ^ 31
    · rw [if_pos hlt] at h
      contradiction
    · rw [digits, foldl_digitValue, not_lt] at hlt
      exact ⟨e, sign, _, _, hs, he', hsign, fun c hc => List.mem_takeWhile_imp hc, hlt,
        isDigit_peek_dropWhile v⟩
  · rw [if_neg he] at h
    contradiction

/-- What may follow the sign, the digits and the fraction of a number. -/
def EndsFraction (u : Str) : Prop :=
  isDigit (peek u) = false ∧ peek u ≠ chr '.' ∧ peek u ≠ chr '+' ∧ peek u ≠ chr '-'

theorem Delimited.endsFraction {t : Str} (ht : Delimited t) : EndsFraction t := by
  obtain ⟨h1, h2, -, -, h5, h6⟩ := isDelim_spec ht
  exact ⟨h1, h2, h5, h6⟩

theorem endsFraction_mark {e : UInt8} (he : e = chr 'e' ∨ e = chr 'E') (u : Str) :
    EndsFraction (e :: u) := by
  change isDigit e = false ∧ e ≠ chr '.' ∧ e ≠ chr '+' ∧ e ≠ chr '-'
  rcases he with rfl | rfl
  all_goals decide

/-- Up to the exponent a number is read as it is written. -/
theorem stringToNumber_parts {minus int frac u : Str} (hm : minus = [] ∨ minus = [chr '-'])
    (hi : Digits int) (hf : Fraction Digits frac) (hu : EndsFraction u)
    {r : Double × Bool × Str}
    (hr : readFraction ((int.map digitValue).foldl accumulate (.ofNat 0)) (frac ++ u) = r) :
    stringToNumber (minus ++ (int ++ (frac ++ u))) =
      (readExponent r.1 r.2.1 u).map fun p =>
        (if p.2.1 then .double (if minus = [] then p.1 else p.1.neg)
          else .integer (toInt64 (if minus = [] then p.1 else p.1.neg)), p.2.2) := by
  obtain ⟨hdigit, hpoint, hplus, hminus⟩ := hu
  have hfrac : isDigit (peek (frac ++ u)) = false := by
    cases hf with
    | none => exact hdigit
    | point => rfl
  obtain ⟨hvalue, hrest⟩ := digits_append hi hfrac
  have hu : r.2.2 = u := by
    rw [← hr]
    exact readFraction_text hf hdigit hpoint _
  unfold stringToNumber
  rcases hm with rfl | rfl
  · have hsign : peek (int ++ (frac ++ u)) ≠ chr '+' ∧ peek (int ++ (frac ++ u)) ≠ chr '-' := by
      cases int with
      | nil =>
        cases hf with
        | none => exact ⟨hplus, hminus⟩
        | point =>
          have hpoint : chr '.' ≠ chr '+' ∧ chr '.' ≠ chr '-' := by decide
          exact hpoint
      | cons c int =>
        have hc := isDigit_spec (hi c List.mem_cons_self)
        exact ⟨hc.2.2.2.1, hc.2.2.2.2⟩
    simp only [List.nil_append, hsign.1, hsign.2, or_self, if_false, hvalue, hrest, hr, hu,
      if_true]
    cases readExponent r.1 r.2.1 u with
    | none => rfl
    | some p => rfl
  · have hpeek : peek ([chr '-'] ++ (int ++ (frac ++ u))) = chr '-' := rfl
    have htail : ([chr '-'] ++ (int ++ (frac ++ u))).tail = int ++ (frac ++ u) := rfl
    have hne : ([chr '-'] : Str) ≠ [] := by simp
    simp only [hpeek, htail, or_true, if_true, hvalue, hrest, hr, hu, hne, if_false]
    cases readExponent r.1 r.2.1 u with
    | none => rfl
    | some p => rfl

theorem stringToNumber_number {x t : Str} (hx : Number Digits Digits IntDigits x)
    (ht : Delimited t) :
    ∃ v, stringToNumber (x ++ t) = some (v, t) := by
  obtain ⟨hm, hi, hf, he⟩ := hx
  cases he with
  | none =>
    have h := stringToNumber_parts hm hi hf ht.endsFraction rfl
    rw [readExponent_delimited ht, Option.map_some] at h
    simp only [List.append_assoc, List.nil_append]
    exact ⟨_, h⟩
  | @mark e sign ds he hs hd =>
    have h := stringToNumber_parts hm hi hf (endsFraction_mark he (sign ++ (ds ++ t))) rfl
    obtain ⟨base, hread⟩ := readExponent_text he hs hd.1 ht _ _
    rw [hread, if_pos hd.2, Option.map_some] at h
    simp only [List.append_assoc, List.cons_append]
    exact ⟨_, h⟩

/-- An exponent that no `int` holds overflows. -/
theorem stringToNumber_overflow {minus int frac sign ds t : Str} {e : UInt8}
    (hm : minus = [] ∨ minus = [chr '-']) (hi : Digits int) (hf : Fraction Digits frac)
    (he : e = chr 'e' ∨ e = chr 'E') (hs : sign = [] ∨ sign = [chr '+'] ∨ sign = [chr '-'])
    (hd : Digits ds) (hlarge : ¬ numeral ds < 2 ^ 31) (ht : Delimited t) :
    stringToNumber (minus ++ (int ++ (frac ++ e :: (sign ++ (ds ++ t))))) = none := by
  have h := stringToNumber_parts hm hi hf (endsFraction_mark he (sign ++ (ds ++ t))) rfl
  obtain ⟨base, hread⟩ := readExponent_text he hs hd ht _ _
  rwa [hread, if_neg hlarge, Option.map_none] at h

/-- What a number is read from: a sign, digits and a fraction, and then the exponent. -/
theorem stringToNumber_split {c : UInt8} (hc : c = chr '-' ∨ isDigit c = true) (s : Str) :
    ∃ minus int frac w r b, ∃ value : Double → Bool → JsonValue,
      c :: s = minus ++ (int ++ (frac ++ w)) ∧ (minus = [] ∨ minus = [chr '-']) ∧
      minus ++ int ≠ [] ∧ Digits int ∧ Fraction Digits frac ∧
      stringToNumber (c :: s) =
        (readExponent r b w).map fun p => (value p.1 p.2.1, p.2.2) := by
  obtain ⟨minus, u, hs, hm, hne, hu⟩ : ∃ minus u, c :: s = minus ++ u ∧
      (minus = [] ∨ minus = [chr '-']) ∧ minus ++ u.takeWhile isDigit ≠ [] ∧
      u = if peek (c :: s) = chr '+' ∨ peek (c :: s) = chr '-'
        then (c :: s).tail else c :: s := by
    split_ifs with hsign
    · refine ⟨[chr '-'], s, ?_, .inr rfl, by simp, rfl⟩
      rcases hc with rfl | hc
      · rfl
      · have hd := isDigit_spec hc
        rcases hsign with hsign | hsign
        exacts [absurd hsign hd.2.2.2.1, absurd hsign hd.2.2.2.2]
    · refine ⟨[], c :: s, rfl, .inl rfl, ?_, rfl⟩
      rcases hc with rfl | hc
      · exact absurd (.inr rfl) hsign
      · rw [List.takeWhile_cons_of_pos hc]
        simp
  obtain ⟨frac, hf, hfrac⟩ := readFraction_eq
    ((digits u).foldl accumulate (.ofNat 0)) (u.dropWhile isDigit)
  have hd : Digits (u.takeWhile isDigit) := fun c hc => List.mem_takeWhile_imp hc
  generalize hp : readFraction ((digits u).foldl accumulate (.ofNat 0)) (u.dropWhile isDigit) = p
    at hfrac
  refine ⟨minus, _, frac, p.2.2, p.1, p.2.1, fun r b =>
    if b then .double (if peek (c :: s) = chr '-' then r.neg else r)
    else .integer (toInt64 (if peek (c :: s) = chr '-' then r.neg else r)),
    ?_, hm, hne, hd, hf, ?_⟩
  · rw [← hfrac, List.takeWhile_append_dropWhile, hs]
  · unfold stringToNumber
    dsimp only
    rw [← hu, hp]
    cases readExponent p.1 p.2.1 p.2.2 with
    | none => rfl
    | some q => rfl

theorem stringToNumber_eq_some {c : UInt8} {s t : Str} {v : JsonValue}
    (hc : c = chr '-' ∨ isDigit c = true) (h : stringToNumber (c :: s) = some (v, t)) :
    ∃ x, Number Digits Digits IntDigits (c :: x) ∧ s = x ++ t := by
  obtain ⟨minus, int, frac, w, r, b, value, hs, hm, hne, hd, hf, hread⟩ :=
    stringToNumber_split hc s
  rw [hread, Option.map_eq_some_iff] at h
  obtain ⟨⟨r', b', t'⟩, hw, hvt⟩ := h
  obtain ⟨-, rfl⟩ := Prod.mk.inj hvt
  obtain ⟨exp, he, rfl⟩ := readExponent_eq_some hw
  have hn : Number Digits Digits IntDigits (minus ++ (int ++ (frac ++ exp))) :=
    .parts hm hd hf he
  obtain ⟨d, x, hx⟩ : ∃ d x, minus ++ (int ++ (frac ++ exp)) = d :: x := by
    rw [← List.append_assoc]
    exact List.exists_cons_of_ne_nil (List.append_ne_nil_of_left_ne_nil hne _)
  have hall : c :: s = (minus ++ (int ++ (frac ++ exp))) ++ t' := by
    rw [hs]
    simp only [List.append_assoc]
  rw [hx] at hall hn
  rw [List.cons_append, List.cons.injEq] at hall
  obtain ⟨rfl, rfl⟩ := hall
  exact ⟨x, hn, rfl⟩

/-- A number is an integer or a double. -/
theorem stringToNumber_value {s t : Str} {v : JsonValue}
    (h : stringToNumber s = some (v, t)) : (∃ n, v = .integer n) ∨ ∃ d, v = .double d := by
  unfold stringToNumber at h
  dsimp only at h
  split at h
  · contradiction
  · obtain ⟨rfl, -⟩ := by simpa only [Option.some.injEq, Prod.mk.injEq] using h
    split_ifs
    exacts [.inr ⟨_, rfl⟩, .inr ⟨_, rfl⟩, .inl ⟨_, rfl⟩, .inl ⟨_, rfl⟩]

/-- A number whose exponent no `int` holds, and what follows it. -/
inductive Oversized : Str → Prop
  | parts {minus int frac sign ds t : Str} {e : UInt8} : minus = [] ∨ minus = [chr '-'] →
      Digits int → Fraction Digits frac → e = chr 'e' ∨ e = chr 'E' →
      sign = [] ∨ sign = [chr '+'] ∨ sign = [chr '-'] → Digits ds → 2 ^ 31 ≤ numeral ds →
      isDigit (peek t) = false →
      StartsNumber (minus ++ (int ++ (frac ++ e :: (sign ++ (ds ++ t))))) →
      Oversized (minus ++ (int ++ (frac ++ e :: (sign ++ (ds ++ t)))))

/-- An exponent that no `int` holds overflows, whatever follows it. -/
theorem Oversized.stringToNumber_eq {s : Str} (h : Oversized s) : stringToNumber s = none := by
  obtain ⟨hm, hi, hf, he, hs, hd, hlarge, ht, -⟩ := h
  rename_i minus int frac sign ds t e
  have hnumber := stringToNumber_parts hm hi hf (endsFraction_mark he (sign ++ (ds ++ t))) rfl
  have hsign : peek (ds ++ t) ≠ chr '+' ∧ peek (ds ++ t) ≠ chr '-' := by
    cases ds with
    | nil => exact absurd hlarge (by decide)
    | cons d ds =>
      have hspec := isDigit_spec (hd d List.mem_cons_self)
      exact ⟨hspec.2.2.2.1, hspec.2.2.2.2⟩
  obtain ⟨base, hread⟩ := readExponent_mark he hs hd ht hsign _ _
  rwa [hread, if_neg (by omega), Option.map_none] at hnumber

theorem Oversized.of_stringToNumber {c : UInt8} {s : Str} (hs : StartsNumber (c :: s))
    (h : stringToNumber (c :: s) = none) : Oversized (c :: s) := by
  have hc : c = chr '-' ∨ isDigit c = true := by
    rcases hs with hd | ⟨d, y, hy, -⟩
    · exact .inr hd
    · exact .inl (List.cons.inj hy).1
  obtain ⟨minus, int, frac, w, r, b, value, hcs, hm, -, hd, hf, hread⟩ := stringToNumber_split hc s
  rw [hread, Option.map_eq_none_iff] at h
  obtain ⟨e, sign, ds, t, rfl, he, hsign, hds, hlarge, ht⟩ := readExponent_eq_none h
  rw [hcs] at hs ⊢
  exact .parts hm hd hf he hsign hds hlarge ht hs

/-! ### Scalars -/

theorem stripWord_eq_some {word s t : Str} : stripWord word s = some t ↔ s = word ++ t := by
  induction word generalizing s with
  | nil => simp [stripWord]
  | cons c word ih =>
    cases s with
    | nil => simp [stripWord]
    | cons d s =>
      by_cases hc : c = d
      · simp [stripWord, hc, ih]
      · simp [stripWord, hc, Ne.symm hc]

theorem readWord_eq_ok {word s t : Str} {o v : JsonValue} :
    (readWord word s o).mapError ParseOutcome.error = .ok (v, t) ↔
      s = word ++ t ∧ v = o ∧ Delimited t := by
  unfold readWord
  cases h : stripWord word s with
  | none =>
    have hs : s ≠ word ++ t := by
      intro hs
      rw [stripWord_eq_some.mpr hs] at h
      contradiction
    simp [Except.mapError, hs]
  | some u =>
    obtain rfl := stripWord_eq_some.mp h
    by_cases hu : isDelim (peek u) = true
    · simp only [hu, if_true, Except.mapError, Except.ok.injEq, Prod.mk.injEq,
        List.append_cancel_left_eq]
      constructor
      · rintro ⟨rfl, rfl⟩
        exact ⟨rfl, rfl, hu⟩
      · rintro ⟨rfl, rfl, -⟩
        exact ⟨rfl, rfl⟩
    · simp only [hu, if_false, Except.mapError, List.append_cancel_left_eq, reduceCtorEq,
        false_iff]
      rintro ⟨rfl, -, ht⟩
      exact hu ht

/-- A scalar and the text it is read from: its first character and what follows, its value
and what is left. The end of the text closes a string as well. -/
inductive ScalarRead : UInt8 → Str → JsonValue → Str → Prop
  | number {c : UInt8} {x t : Str} {v : JsonValue} : Numeral (c :: x) →
      stringToNumber (c :: (x ++ t)) = some (v, t) → ScalarRead c (x ++ t) v t
  | string {b d t : Str} : Body b d → ScalarRead (chr '"') (b ++ chr '"' :: t) (.string d) t
  | unclosed {b d : Str} : Body b d → ScalarRead (chr '"') b (.string d) []
  | isTrue {t : Str} : ScalarRead (chr 't') (str "rue" ++ t) (.boolean true) t
  | isFalse {t : Str} : ScalarRead (chr 'f') (str "alse" ++ t) (.boolean false) t
  | isNull {t : Str} : ScalarRead (chr 'n') (str "ull" ++ t) .null t

theorem ScalarRead.of_readScalar {c : UInt8} {s t : Str} {v : JsonValue}
    (h : readScalar c s = some (.ok (v, t))) : ScalarRead c s v t ∧ Delimited t := by
  unfold readScalar at h
  split_ifs at h with hnumber hbad hquote ht hf hn
  · simp at h
  · split at h
    · simp at h
    next o u hu =>
      by_cases hdelim : isDelim (peek u) = true
      swap
      · simp [hdelim] at h
      rw [if_pos hdelim] at h
      obtain ⟨rfl, rfl⟩ := by
        simpa only [Option.some.injEq, Except.ok.injEq, Prod.mk.injEq] using h
      obtain ⟨x, hx, rfl⟩ := stringToNumber_eq_some hnumber hu
      refine ⟨.number ⟨hx, ?_⟩ hu, hdelim⟩
      rcases hnumber with rfl | hdigit
      · have hnext : isDigit (peek (x ++ u)) = true ∨ peek (x ++ u) = chr '.' := by
          by_contra hnot
          exact hbad ⟨rfl, hnot⟩
        cases x with
        | nil =>
          obtain ⟨hd, hp, -⟩ := isDelim_spec hdelim
          rcases hnext with hnext | hnext
          exacts [absurd hnext (by simp [hd]), absurd hnext hp]
        | cons d x => exact .inr ⟨d, x, rfl, hnext⟩
      · exact .inl hdigit
  · subst hquote
    split at h
    · simp at h
    next temp u hu =>
      by_cases hdelim : isDelim (peek u) = true
      swap
      · simp [hdelim] at h
      rw [if_pos hdelim] at h
      obtain ⟨rfl, rfl⟩ := by
        simpa only [Option.some.injEq, Except.ok.injEq, Prod.mk.injEq] using h
      obtain ⟨x, d, hb, rfl, rfl | ⟨rfl, rfl⟩⟩ := bodyRead_of_ok hu
      · exact ⟨.string hb, hdelim⟩
      · exact ⟨.unclosed hb, hdelim⟩
  · obtain ⟨rfl, rfl, hdelim⟩ := readWord_eq_ok.mp (Option.some.inj h)
    subst ht
    exact ⟨.isTrue, hdelim⟩
  · obtain ⟨rfl, rfl, hdelim⟩ := readWord_eq_ok.mp (Option.some.inj h)
    subst hf
    exact ⟨.isFalse, hdelim⟩
  · obtain ⟨rfl, rfl, hdelim⟩ := readWord_eq_ok.mp (Option.some.inj h)
    subst hn
    exact ⟨.isNull, hdelim⟩

theorem readWord_stop {word s : Str} {o : JsonValue} {e : ParseOutcome}
    (h : (readWord word s o).mapError ParseOutcome.error = .error e) :
    ∃ status, e = .error status := by
  cases hw : readWord word s o with
  | ok p =>
    rw [hw] at h
    contradiction
  | error status =>
    rw [hw] at h
    exact ⟨status, (Except.error.inj h).symm⟩

/-- A scalar that is not read ends the call with a status, or overflows. -/
theorem readScalar_stop {c : UInt8} {s : Str} {o : ParseOutcome}
    (h : readScalar c s = some (.error o)) :
    (∃ e, o = .error e) ∨ o = .overflow ∧ Oversized (c :: s) := by
  unfold readScalar at h
  split_ifs at h with h1 h2 h3 h4 h5 h6
  · exact .inl ⟨_, (Except.error.inj (Option.some.inj h)).symm⟩
  · have h := Option.some.inj h
    split at h
    · rename_i hnone
      refine .inr ⟨(Except.error.inj h).symm, .of_stringToNumber ?_ hnone⟩
      rcases h1 with rfl | hdigit
      · have hnext : isDigit (peek s) = true ∨ peek s = chr '.' := by
          by_contra hnot
          exact h2 ⟨rfl, hnot⟩
        cases s with
        | nil => exact absurd hnext (by decide)
        | cons d s => exact .inr ⟨d, s, rfl, hnext⟩
      · exact .inl hdigit
    · split at h
      · contradiction
      · exact .inl ⟨_, (Except.error.inj h).symm⟩
  · have h := Option.some.inj h
    split at h
    · exact .inl ⟨_, (Except.error.inj h).symm⟩
    · split at h
      · contradiction
      · exact .inl ⟨_, (Except.error.inj h).symm⟩
  all_goals exact .inl (readWord_stop (Option.some.inj h))

theorem Oversized.startsNumber {s : Str} (h : Oversized s) : StartsNumber s := by
  cases h with
  | parts _ _ _ _ _ _ _ _ hstart => exact hstart

theorem StartsNumber.ne_nil {s : Str} (h : StartsNumber s) : s ≠ [] := by
  rintro rfl
  rcases h with hd | ⟨c, t, hct, -⟩
  · exact absurd hd (by decide)
  · contradiction

/-- What starts as a number is read as a number. -/
theorem readScalar_number {c : UInt8} {x : Str} (hx : StartsNumber (c :: x)) (t : Str) :
    readScalar c (x ++ t) = some
      (match stringToNumber (c :: (x ++ t)) with
      | none => .error .overflow
      | some (o, s) => if isDelim (peek s) then .ok (o, s) else .error (.error .badNumber)) := by
  have hc : c = chr '-' ∨ isDigit c = true := by
    rcases hx with hd | ⟨d, y, hy, -⟩
    · exact .inr hd
    · exact .inl (List.cons.inj hy).1
  have hnext : ¬ (c = chr '-' ∧
      ¬ (isDigit (peek (x ++ t)) = true ∨ peek (x ++ t) = chr '.')) := by
    rintro ⟨rfl, hnot⟩
    rcases hx with hd | ⟨d, y, hy, hstart⟩
    · have hminus : isDigit (chr '-') = false := by decide
      exact Bool.false_ne_true (hminus.symm.trans hd)
    · rw [(List.cons.inj hy).2] at hnot
      exact hnot hstart
  unfold readScalar
  exact (if_pos hc).trans (congrArg some (if_neg hnext))

theorem ScalarRead.readScalar_eq {c : UInt8} {s t : Str} {v : JsonValue}
    (h : ScalarRead c s v t) (ht : Delimited t) : readScalar c s = some (.ok (v, t)) := by
  have hfirst : ∀ c ∈ [chr '"', chr 't', chr 'f', chr 'n'],
      ¬ (c = chr '-' ∨ isDigit c = true) := by decide +kernel
  have hdelim : isDelim (peek t) = true := ht
  cases h with
  | @number c x t v hx hv =>
    rw [readScalar_number hx.2, hv]
    simp only [hdelim, if_true]
  | @string b d t hb =>
    rw [readScalar, if_neg (hfirst _ (by decide)), if_pos rfl, readString_body hb, readString_quote]
    simp only [List.nil_append, hdelim, if_true]
  | @unclosed _ d hb =>
    have hread : readString s [] = .ok (d, []) := by
      have h := readString_body hb [] []
      rwa [List.append_nil, List.nil_append, readString] at h
    rw [readScalar, if_neg (hfirst _ (by decide)), if_pos rfl, hread]
    simp only [hdelim, if_true]
  | isTrue =>
    rw [readScalar, if_neg (hfirst _ (by decide)), if_neg (by decide), if_pos rfl,
      readWord_eq_ok.mpr ⟨rfl, rfl, ht⟩]
  | isFalse =>
    rw [readScalar, if_neg (hfirst _ (by decide)), if_neg (by decide), if_neg (by decide),
      if_pos rfl, readWord_eq_ok.mpr ⟨rfl, rfl, ht⟩]
  | isNull =>
    rw [readScalar, if_neg (hfirst _ (by decide)), if_neg (by decide), if_neg (by decide),
      if_neg (by decide), if_pos rfl, readWord_eq_ok.mpr ⟨rfl, rfl, ht⟩]

/-- A scalar takes its first character and more. -/
theorem ScalarRead.eq_append {c : UInt8} {s t : Str} {v : JsonValue} (h : ScalarRead c s v t) :
    ∃ x, s = x ++ t := by
  cases h with
  | @number c x t v => exact ⟨x, rfl⟩
  | @string b d t => exact ⟨b ++ [chr '"'], by rw [List.append_assoc, List.singleton_append]⟩
  | unclosed => exact ⟨s, (List.append_nil s).symm⟩
  | isTrue => exact ⟨_, rfl⟩
  | isFalse => exact ⟨_, rfl⟩
  | isNull => exact ⟨_, rfl⟩

end TarotClub.JsonReader
