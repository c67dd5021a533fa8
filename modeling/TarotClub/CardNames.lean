import TarotClub.DeckTokens
import TarotClub.Hex

namespace TarotClub

namespace Card

/-- Two digits, a hyphen and a fourth character. -/
def Written (name : Str) : Prop :=
  ∃ a b letter, isDigit a = true ∧ isDigit b = true ∧ name = [a, b, chr '-', letter]

/-- What two characters are read as: two digits, one digit, or zero where the extraction fails. -/
def readPair (uninitialized : ℕ) (a b : UInt8) : ℕ :=
  if isDigit a then if isDigit b then 10 * digitValue a + digitValue b else digitValue a
  else if isSpace a && isSpace b then uninitialized % 256
  else if (isSpace a || a = chr '+') && isDigit b then digitValue b
  else if a = chr '-' && isDigit b then (256 - digitValue b) % 256
  else 0

/-- A letter of a suit, and a value that its cards have. -/
def InSuit (letter : UInt8) (value : ℕ) : Prop :=
  letter = chr 'T' ∧ value ≤ 21 ∨ letter ∈ str "SHDC" ∧ 1 ≤ value ∧ value ≤ 14

/-- A text that is accepted although no card prints it: its fourth character is the letter of a
suit, the first two are read as a value of that suit, and they are no two digits with a hyphen
behind. -/
def Misspelt (uninitialized : ℕ) (name : Str) : Prop :=
  ∃ a b c letter, name = [a, b, c, letter] ∧ InSuit letter (readPair uninitialized a b) ∧
    ¬ (isDigit a = true ∧ isDigit b = true ∧ c = chr '-')

/-! ### What is read -/

theorem suit_of_letter (letter : UInt8) :
    (suitFromName [letter] = trumps ↔ letter = chr 'T') ∧
      (suitFromName [letter] < trumps ↔ letter ∈ str "SHDC") := by
  have hall : ∀ letter : UInt8, (suitFromName [letter] = trumps ↔ letter = chr 'T') ∧
      (suitFromName [letter] < trumps ↔ letter ∈ str "SHDC") := forall_byte (by decide +kernel)
  exact hall letter

theorem isValid_mk_iff (v : ℕ) (letter : UInt8) :
    isValid ⟨v, suitFromName [letter]⟩ = true ↔ InSuit letter v := by
  obtain ⟨htrump, hplain⟩ := suit_of_letter letter
  rw [isValid, InSuit, ← htrump, ← hplain]
  dsimp only
  by_cases h4 : suitFromName [letter] = trumps
  · simp [h4]
  · by_cases hlt : suitFromName [letter] < trumps
    · simp only [h4, hlt, if_true, if_false, Bool.and_eq_true, decide_eq_true_eq, false_and,
        true_and, false_or]
      omega
    · simp [h4, hlt]

theorem digit_facts {a : UInt8} (h : isDigit a = true) :
    isSpace a = false ∧ a ≠ chr '-' ∧ a ≠ chr '+' ∧ digitValue a ≤ 9 := by
  have hall : ∀ a : UInt8, isDigit a = true →
      isSpace a = false ∧ a ≠ chr '-' ∧ a ≠ chr '+' ∧ digitValue a ≤ 9 :=
    forall_byte (by decide +kernel)
  exact hall a h

/-- The digits behind a sign, or behind none, when there is one character. -/
theorem streamToUInt32_single {b : UInt8} (hb : isSpace b = false) :
    streamToUInt32 [b] = if isDigit b then digitValue b else 0 := by
  cases hdigit : isDigit b with
  | true =>
    obtain ⟨-, hminus, hplus, hle⟩ := digit_facts hdigit
    simp only [streamToUInt32, hb, hdigit, hminus, hplus, List.dropWhile_cons, List.takeWhile_cons,
      List.takeWhile_nil, List.foldl_cons, List.foldl_nil, if_true, if_false, Bool.false_eq_true]
    omega
  | false => simp [streamToUInt32, hb, hdigit]

/-- A first character that is no white space is a digit or a sign, or nothing is read. -/
theorem streamToUInt32_pair {a : UInt8} (ha : isSpace a = false) (b : UInt8) :
    streamToUInt32 [a, b] =
      if isDigit a then if isDigit b then 10 * digitValue a + digitValue b else digitValue a
      else if a = chr '-' then if isDigit b then (2 ^ 32 - digitValue b) % 2 ^ 32 else 0
      else if a = chr '+' then if isDigit b then digitValue b else 0
      else 0 := by
  have hsmall : ∀ v ≤ 99, min v 4294967295 = v := fun v hv => min_eq_left (by omega)
  cases hdigit : isDigit a with
  | true =>
    obtain ⟨-, hminus, hplus, hle⟩ := digit_facts hdigit
    cases hdigit' : isDigit b with
    | true =>
      have hle' := (digit_facts hdigit').2.2.2
      have hmin := hsmall (10 * digitValue a + digitValue b) (by omega)
      simpa [streamToUInt32, ha, hdigit, hdigit', hminus, hplus] using hmin
    | false =>
      have hmin := hsmall (digitValue a) (by omega)
      simpa [streamToUInt32, ha, hdigit, hdigit', hminus, hplus] using hmin
  | false =>
    cases hdigit' : isDigit b with
    | true =>
      have hmin := hsmall (digitValue b) ((digit_facts hdigit').2.2.2.trans (by norm_num))
      simp [streamToUInt32, ha, hdigit, hdigit', hmin]
    | false => simp [streamToUInt32, ha, hdigit, hdigit']

theorem extractUInt32_pair (uninitialized : ℕ) (a b : UInt8) :
    extractUInt32 uninitialized [a, b] % 256 = readPair uninitialized a b := by
  have hsigns : chr '-' ≠ chr '+' := by decide
  rw [extractUInt32, readPair]
  cases hspace : isSpace a with
  | true =>
    have hdigit : isDigit a = false := by
      rw [Bool.eq_false_iff]
      intro hdigit
      exact Bool.false_ne_true ((digit_facts hdigit).1.symm.trans hspace)
    have hskip : streamToUInt32 [a, b] = streamToUInt32 [b] := by
      rw [streamToUInt32, List.dropWhile_cons_of_pos hspace, streamToUInt32]
    cases hspace' : isSpace b with
    | true => simp [hspace, hspace', hdigit]
    | false =>
      cases hdigit' : isDigit b with
      | true =>
        have hle := (digit_facts hdigit').2.2.2
        have hmod : digitValue b % 256 = digitValue b := Nat.mod_eq_of_lt (by omega)
        simp [hspace, hspace', hdigit, hdigit', hskip, streamToUInt32_single hspace', hmod]
      | false => simp [hspace, hspace', hdigit, hdigit', hskip, streamToUInt32_single hspace']
  | false =>
    have hsome : [a, b].all isSpace = false := by simp [hspace]
    rw [hsome, if_neg Bool.false_ne_true, streamToUInt32_pair hspace]
    cases hdigit : isDigit a with
    | true =>
      have hle := (digit_facts hdigit).2.2.2
      cases hdigit' : isDigit b with
      | true =>
        have hle' := (digit_facts hdigit').2.2.2
        simp only [if_true]
        exact Nat.mod_eq_of_lt (by omega)
      | false =>
        simp only [if_true, Bool.false_eq_true, if_false]
        exact Nat.mod_eq_of_lt (by omega)
    | false =>
      cases hdigit' : isDigit b with
      | true =>
        have hle' := (digit_facts hdigit').2.2.2
        by_cases hminus : a = chr '-'
        · have hmod : (2 ^ 32 - digitValue b) % 2 ^ 32 % 256 = (256 - digitValue b) % 256 := by
            omega
          simpa [hminus, hsigns] using hmod
        · by_cases hplus : a = chr '+'
          · simpa [hplus, hsigns.symm] using (by omega : digitValue b < 256)
          · simp [hminus, hplus]
      | false => simp

/-! ### What is printed -/

theorem exists_digit {a : UInt8} (h : isDigit a = true) :
    ∃ x < 10, a = digitChar x ∧ digitValue a = x := by
  have hall : ∀ a : UInt8, isDigit a = true → ∃ x < 10, a = digitChar x ∧ digitValue a = x :=
    forall_byte (by decide +kernel)
  exact hall a h

theorem digits_table : ∀ x < 10, ∀ y < 10,
    padLeft 2 (decimal (10 * x + y)) = [digitChar x, digitChar y] := by
  decide +kernel

/-- The number of a card is printed with two digits. -/
theorem printed_table : ∀ v ≤ 21, ∃ x < 10, ∃ y < 10,
    isDigit (digitChar x) = true ∧ isDigit (digitChar y) = true ∧
      padLeft 2 (decimal v) = [digitChar x, digitChar y] := by
  decide +kernel

theorem suitName_suitFromName (letter : UInt8) (h : suitFromName [letter] ≤ 4) :
    suitName (suitFromName [letter]) = [letter] := by
  have hall : ∀ letter : UInt8, suitFromName [letter] ≤ 4 →
      suitName (suitFromName [letter]) = [letter] := forall_byte (by decide +kernel)
  exact hall letter h

theorem length_of_isValid {value : ℕ} {name : Str} (h : (ofName value name).isValid = true) :
    name.length = 4 := by
  by_contra hne
  rw [ofName, if_neg hne] at h
  contradiction

/-- An accepted name is the one that its card prints exactly when it is written with two digits and
a hyphen, whatever the memory holds. -/
theorem toString_ofName_iff {value : ℕ} {name : Str} (h : (ofName value name).isValid = true) :
    (ofName value name).toString = name ↔ Written name := by
  have hlength := length_of_isValid h
  obtain ⟨hsuit, hvalue⟩ := valid_bounds h
  have hmSuit : (ofName value name).mSuit = suitFromName [name.getD 3 0] := by
    rw [ofName, if_pos hlength]
  rw [hmSuit] at hsuit
  have hprint : (ofName value name).toString =
      padLeft 2 (decimal (ofName value name).mValue) ++ str "-" ++ [name.getD 3 0] := by
    rw [toString, hmSuit, suitName_suitFromName _ hsuit]
  constructor
  · intro heq
    obtain ⟨x, -, y, -, hx, hy, hdigits⟩ := printed_table _ hvalue
    rw [hprint, hdigits] at heq
    exact ⟨digitChar x, digitChar y, _, hx, hy, heq.symm⟩
  · rintro ⟨a, b, letter, ha, hb, rfl⟩
    obtain ⟨x, hx, hax, hvx⟩ := exists_digit ha
    obtain ⟨y, hy, hby, hvy⟩ := exists_digit hb
    have hmValue : (ofName value [a, b, chr '-', letter]).mValue = 10 * x + y := by
      have hread := extractUInt32_pair value a b
      rw [readPair, if_pos ha, if_pos hb, hvx, hvy] at hread
      exact hread
    rw [hprint, hmValue, digits_table x hx y hy, hax, hby]
    rfl

/-! ### Which names are accepted -/

theorem ofName_isValid_iff {value : ℕ} {name : Str} :
    (ofName value name).isValid = true ↔
      ∃ a b c letter, name = [a, b, c, letter] ∧ InSuit letter (readPair value a b) := by
  have hpair : ∀ a b c letter, (ofName value [a, b, c, letter]).isValid = true ↔
      InSuit letter (readPair value a b) := by
    intro a b c letter
    rw [← isValid_mk_iff, ← extractUInt32_pair]
    rfl
  constructor
  · intro h
    obtain ⟨a, b, c, letter, rfl⟩ := List.length_eq_four.mp (length_of_isValid h)
    exact ⟨a, b, c, letter, rfl, (hpair a b c letter).mp h⟩
  · rintro ⟨a, b, c, letter, rfl, hin⟩
    exact (hpair a b c letter).mpr hin

theorem accepted_name_iff (value : ℕ) (name : Str) :
    ((ofName value name).isValid = true → (ofName value name).toString = name) ↔
      ¬ Misspelt value name := by
  constructor
  · rintro hprint ⟨a, b, c, letter, rfl, hin, hnot⟩
    have hvalid := ofName_isValid_iff.mpr ⟨a, b, c, letter, rfl, hin⟩
    obtain ⟨a', b', letter', ha, hb, hname⟩ := (toString_ofName_iff hvalid).mp (hprint hvalid)
    simp only [List.cons.injEq, and_true] at hname
    obtain ⟨rfl, rfl, hc, -⟩ := hname
    exact hnot ⟨ha, hb, hc⟩
  · intro hnot hvalid
    obtain ⟨a, b, c, letter, rfl, hin⟩ := ofName_isValid_iff.mp hvalid
    rw [toString_ofName_iff hvalid]
    by_contra hwritten
    refine hnot ⟨a, b, c, letter, rfl, hin, ?_⟩
    rintro ⟨ha, hb, rfl⟩
    exact hwritten ⟨a, b, letter, ha, hb, rfl⟩

/-- A name that is accepted, alone or as a token of `SetCards`, is the one that its card prints,
unless it is misspelt. `memory` is what the variable holds when each of the tokens is read. -/
theorem accepted_names_iff (value : ℕ) (memory : ℕ → ℕ) (text : Str) :
    (((ofName value text).isValid = true → (ofName value text).toString = text) ↔
        ¬ Misspelt value text) ∧
      ((∀ i name, (split text (str ";"))[i]? = some name →
          (ofName (memory i) name).isValid = true → (ofName (memory i) name).toString = name) ↔
        ∀ i name, (split text (str ";"))[i]? = some name → ¬ Misspelt (memory i) name) := by
  refine ⟨accepted_name_iff value text, ?_⟩
  exact forall₃_congr fun i name _ => accepted_name_iff (memory i) name

/-- A blank, a digit and any third character name the five of hearts. -/
theorem blank_name_accepted :
    let name := str " 5xH"
    ∀ value, ofName value name = ⟨5, hearts⟩ ∧ (ofName value name).isValid = true ∧
      (ofName value name).toString = str "05-H" ∧ (ofName value name).toString ≠ name := by
  intro name value
  have hcard : ofName value name = ⟨5, hearts⟩ := by
    have hblank : (name.take 2).all isSpace = false := by decide +kernel
    have hread : streamToUInt32 (name.take 2) % 256 = 5 := by decide +kernel
    have hsuit : suitFromName [name.getD 3 0] = hearts := by decide +kernel
    have hlength : name.length = 4 := by decide +kernel
    simp only [ofName, extractUInt32, if_pos hlength, hblank, Bool.false_eq_true, if_false, hread,
      hsuit]
  rw [hcard]
  exact ⟨rfl, rfl, by decide +kernel, by decide +kernel⟩

end Card

end TarotClub
