import TarotClub.Text
import Mathlib.Data.List.TakeWhile
import Mathlib.Data.Nat.Digits.Lemmas

/-! Hexadecimal text: what the streams and `Util::ToHex` write, and what `std::strtoul` makes
of it when it reads it again. -/
namespace TarotClub

/-- A digit as `std::hex` writes it. -/
def hexChar (d : ℕ) : UInt8 := if d < 10 then (48 + d).toUInt8 else (87 + d).toUInt8

/-- A digit of the table of `Util::ByteToHex`. -/
def binHex (d : ℕ) : UInt8 := if d < 10 then (48 + d).toUInt8 else (55 + d).toUInt8

/-- `std::hex << n`. -/
def hexadecimal (n : ℕ) : Str :=
  (if n = 0 then [0] else (Nat.digits 16 n).reverse).map hexChar

def byteToHex (byte : UInt8) : Str := [binHex (byte.toNat / 16), binHex (byte.toNat % 16)]

def toHex (buf : Str) : Str := buf.flatMap byteToHex

def hexValue (c : UInt8) : ℕ :=
  if c.toNat ≤ 57 then c.toNat - 48 else if c.toNat ≤ 70 then c.toNat - 55 else c.toNat - 87

def hexNumber (digits : Str) : ℕ := digits.foldl (fun v c => 16 * v + hexValue c) 0

def isMinus (s : Str) : Bool := s.head? = some (chr '-')

/-- The text behind a sign, if there is one. -/
def skipSign (s : Str) : Str :=
  if s.head? = some (chr '-') ∨ s.head? = some (chr '+') then s.tail else s

/-- The text behind `0x`, which is read only where a digit follows. -/
def skipHexMark : Str → Str
  | zero :: x :: c :: s =>
    if zero = chr '0' ∧ (x = chr 'x' ∨ x = chr 'X') ∧ isXDigit c then c :: s
    else zero :: x :: c :: s
  | s => s

/-- What `std::strtoul` converts: the text behind white space, sign and `0x`. -/
def numberStart (s : Str) : Str := skipHexMark (skipSign (s.dropWhile isSpace))

/-- `std::strtoul(s, &ptr, 16)`: the value, in 64 bits, and the number of bytes read. Without a
digit nothing is read, and a minus wraps. -/
def strtoul (s : Str) : ℕ × ℕ :=
  let digits := (numberStart s).takeWhile isXDigit
  if digits = [] then (0, 0)
  else
    let n := hexNumber digits
    (if 2 ^ 64 ≤ n then 2 ^ 64 - 1
      else if isMinus (s.dropWhile isSpace) then (2 ^ 64 - n) % 2 ^ 64
      else n,
      s.length - (numberStart s).length + digits.length)

/-- A piece read by `converter >> std::hex >> byte`. A piece without a number counts as zero;
the source then has zero as well, or, if there is but white space, what `byte` held. -/
def readByte (piece : Str) : UInt8 := ((strtoul piece).1 % 256).toUInt8

def hexStringToUint8 : Str → Str
  | [] => []
  | [a] => [readByte [a]]
  | a :: b :: input => readByte [a, b] :: hexStringToUint8 input

/-- What is checked for each number below 256 holds of every byte. -/
theorem forall_byte {P : UInt8 → Prop} (h : ∀ n < 256, P n.toUInt8) (c : UInt8) : P c := by
  have hc := h c.toNat c.toNat_lt
  rwa [Nat.toUInt8_eq, UInt8.ofNat_toNat] at hc

theorem hexNumber_append (s t : Str) :
    hexNumber (s ++ t) = hexNumber s * 16 ^ t.length + hexNumber t := by
  induction t using List.reverseRecOn with
  | nil => simp [hexNumber]
  | append_singleton t c ih =>
    rw [hexNumber, ← List.append_assoc, List.foldl_append, ← hexNumber, ih]
    simp only [hexNumber, List.foldl_append, List.foldl_cons, List.foldl_nil,
      List.length_append, List.length_singleton, pow_succ]
    ring

theorem hexNumber_cons (c : UInt8) (s : Str) :
    hexNumber (c :: s) = hexValue c * 16 ^ s.length + hexNumber s := by
  have h := hexNumber_append [c] s
  simpa [hexNumber] using h

theorem hexChar_spec (d : ℕ) (hd : d < 16) :
    hexValue (hexChar d) = d ∧ isXDigit (hexChar d) = true := by
  interval_cases d <;> decide

theorem binHex_spec (d : ℕ) (hd : d < 16) :
    hexValue (binHex d) = d ∧ isXDigit (binHex d) = true := by
  interval_cases d <;> decide

theorem hexValue_lt {c : UInt8} (hc : isXDigit c = true) : hexValue c < 16 := by
  have h : ∀ c : UInt8, isXDigit c = true → hexValue c < 16 := forall_byte (by decide +kernel)
  exact h c hc

theorem hexNumber_lt {digits : Str} (h : ∀ c ∈ digits, isXDigit c = true) :
    hexNumber digits < 16 ^ digits.length := by
  induction digits with
  | nil => simp [hexNumber]
  | cons c s ih =>
    have hc := hexValue_lt (h c List.mem_cons_self)
    have hs := ih fun d hd => h d (List.mem_cons_of_mem c hd)
    rw [hexNumber_cons, List.length_cons, pow_succ]
    calc hexValue c * 16 ^ s.length + hexNumber s
        < hexValue c * 16 ^ s.length + 16 ^ s.length := by omega
      _ = (hexValue c + 1) * 16 ^ s.length := by ring
      _ ≤ 16 * 16 ^ s.length := Nat.mul_le_mul_right _ hc
      _ = 16 ^ s.length * 16 := by ring

theorem hexNumber_eq_zero {digits : Str} (h : ∀ c ∈ digits, isXDigit c = true) :
    hexNumber digits = 0 ↔ ∀ c ∈ digits, c = chr '0' := by
  have hzero : ∀ c : UInt8, isXDigit c = true → (hexValue c = 0 ↔ c = chr '0') :=
    forall_byte (by decide +kernel)
  induction digits with
  | nil => simp [hexNumber]
  | cons c s ih =>
    have hs := ih fun d hd => h d (List.mem_cons_of_mem c hd)
    have hpos : 16 ^ s.length ≠ 0 := by positivity
    calc hexNumber (c :: s) = 0 ↔ hexValue c = 0 ∧ hexNumber s = 0 := by
          rw [hexNumber_cons, Nat.add_eq_zero_iff, mul_eq_zero_iff_right hpos]
      _ ↔ ∀ d ∈ c :: s, d = chr '0' := by
          rw [List.forall_mem_cons]
          exact and_congr (hzero c (h c List.mem_cons_self)) hs

theorem hexNumber_hexadecimal (n : ℕ) : hexNumber (hexadecimal n) = n := by
  unfold hexadecimal
  by_cases h : n = 0
  · subst h
    rfl
  · rw [if_neg h, hexNumber, List.foldl_map, List.foldl_reverse]
    have hall : ∀ d ∈ Nat.digits 16 n, d < 16 := fun d hd => Nat.digits_lt_base (by norm_num) hd
    conv_rhs => rw [← Nat.ofDigits_digits 16 n, Nat.ofDigits_eq_foldr]
    refine List.foldr_ext _ _ _ ?_
    intro d hd v
    rw [(hexChar_spec d (hall d hd)).1]
    simp only [Nat.cast_id]
    ring

theorem isXDigit_hexadecimal (n : ℕ) : ∀ c ∈ hexadecimal n, isXDigit c = true := by
  intro c hc
  obtain ⟨d, hd, rfl⟩ := List.mem_map.mp hc
  refine (hexChar_spec d ?_).2
  split_ifs at hd with h
  · rw [List.mem_singleton.mp hd]
    norm_num
  · exact Nat.digits_lt_base (by norm_num) (List.mem_reverse.mp hd)

theorem length_hexadecimal_le {n width : ℕ} (hw : 0 < width) :
    (hexadecimal n).length ≤ width ↔ n < 16 ^ width := by
  unfold hexadecimal
  by_cases h : n = 0
  · subst h
    simp
    exact hw
  · rw [if_neg h, List.length_map, List.length_reverse, Nat.digits_length_le_iff (by norm_num)]

/-- A byte that makes a hexadecimal number differ from zero. -/
def IsNonzeroDigit (c : UInt8) : Prop := isXDigit c = true ∧ c ≠ chr '0'

theorem hexNumber_ne_zero {digits : Str} (h : ∀ c ∈ digits, isXDigit c = true) :
    hexNumber digits ≠ 0 ↔ ∃ c ∈ digits, IsNonzeroDigit c := by
  rw [Ne, hexNumber_eq_zero h]
  push Not
  exact exists_congr fun c => and_congr_right fun hc => by simp [IsNonzeroDigit, h c hc]

/-- A byte that says nothing about the value of a number. -/
def IsMute (c : UInt8) : Prop := ¬ IsNonzeroDigit c ∧ c ≠ chr ':'

theorem isMute_of_isSpace {c : UInt8} (hc : isSpace c = true) : IsMute c := by
  have h : ∀ c : UInt8, isSpace c = true → isXDigit c = false ∧ c ≠ chr ':' :=
    forall_byte (by decide +kernel)
  refine ⟨fun hz => ?_, (h c hc).2⟩
  exact Bool.false_ne_true ((h c hc).1.symm.trans hz.1)

theorem ne_colon_of_isXDigit {c : UInt8} (hc : isXDigit c = true) : c ≠ chr ':' := by
  rintro rfl
  exact absurd hc (by decide)

theorem skipSign_eq (s : Str) : ∃ sign, s = sign ++ skipSign s ∧ ∀ c ∈ sign, IsMute c := by
  unfold skipSign
  cases s with
  | nil => exact ⟨[], rfl, by simp⟩
  | cons c s =>
    by_cases hc : c = chr '-' ∨ c = chr '+'
    · refine ⟨[c], by simp [hc], ?_⟩
      rw [List.forall_mem_singleton]
      unfold IsMute IsNonzeroDigit
      rcases hc with rfl | rfl <;> decide
    · exact ⟨[], by simp [hc], by simp⟩

theorem skipHexMark_eq (s : Str) : ∃ mark, s = mark ++ skipHexMark s ∧
    ∀ c ∈ mark, IsMute c := by
  unfold skipHexMark
  split
  next zero x c s =>
    split_ifs with h
    · refine ⟨[zero, x], rfl, ?_⟩
      obtain ⟨rfl, hx, -⟩ := h
      rw [List.forall_mem_cons, List.forall_mem_singleton]
      unfold IsMute IsNonzeroDigit
      rcases hx with rfl | rfl <;> decide
    · exact ⟨[], rfl, by simp⟩
  · exact ⟨[], rfl, by simp⟩

theorem isMinus_append {s : Str} (hs : s ≠ []) (t : Str) : isMinus (s ++ t) = isMinus s := by
  unfold isMinus
  rw [List.head?_append_of_ne_nil s hs]

/-- A field is negative: behind white space stands a minus, and the number is not zero. -/
def Negative (field : Str) : Prop :=
  isMinus (field.dropWhile isSpace) = true ∧ ∃ c ∈ field, IsNonzeroDigit c

/-- What `strtoul` has read is a numeral, and the numeral alone decides what it means. -/
theorem strtoul_eq {s : Str} {n : ℕ} (hn : 0 < n) (h : (strtoul s).2 = n) :
    ∃ digits : Str, (∀ c ∈ digits, isXDigit c = true) ∧ digits.length ≤ n ∧
      n ≤ s.length ∧ (∀ c ∈ s.take n, c ≠ chr ':') ∧
      (Negative (s.take n) ↔
        isMinus (s.dropWhile isSpace) = true ∧ hexNumber digits ≠ 0) ∧
      (strtoul s).1 = if 2 ^ 64 ≤ hexNumber digits then 2 ^ 64 - 1
        else if isMinus (s.dropWhile isSpace) then (2 ^ 64 - hexNumber digits) % 2 ^ 64
        else hexNumber digits := by
  obtain ⟨sign, hsign, hplain⟩ := skipSign_eq (s.dropWhile isSpace)
  obtain ⟨mark, hmark, hplain'⟩ := skipHexMark_eq (skipSign (s.dropWhile isSpace))
  rw [← numberStart] at hmark
  rw [strtoul] at h ⊢
  generalize hv : numberStart s = v at h hmark ⊢
  have hdigits : ∀ c ∈ v.takeWhile isXDigit, isXDigit c = true := fun c hc =>
    List.mem_takeWhile_imp hc
  have hrest : v.takeWhile isXDigit ++ v.dropWhile isXDigit = v := List.takeWhile_append_dropWhile
  have hblanks : s.takeWhile isSpace ++ s.dropWhile isSpace = s := List.takeWhile_append_dropWhile
  have hplain'' : ∀ c ∈ s.takeWhile isSpace, IsMute c := fun c hc =>
    isMute_of_isSpace (List.mem_takeWhile_imp hc)
  generalize v.takeWhile isXDigit = digits at h hdigits hrest ⊢
  by_cases hd : digits = []
  · simp only [hd, if_true] at h
    omega
  simp only [if_neg hd] at h ⊢
  have hs : s = (s.takeWhile isSpace ++ sign ++ mark ++ digits) ++ v.dropWhile isXDigit := by
    calc s = s.takeWhile isSpace ++ (sign ++ (mark ++ (digits ++ v.dropWhile isXDigit))) := by
          rw [hrest, ← hmark, ← hsign, hblanks]
      _ = _ := by simp only [List.append_assoc]
  have hlength : (s.takeWhile isSpace ++ sign ++ mark ++ digits).length = n := by
    have hl := congrArg List.length hs
    have hl' := congrArg List.length hrest
    simp only [List.length_append] at hl hl' ⊢
    omega
  have htake : s.take n = s.takeWhile isSpace ++ sign ++ mark ++ digits := by
    conv_lhs => rw [hs]
    rw [← hlength, List.take_left]
  have hle : digits.length ≤ n := by
    rw [← hlength, List.length_append]
    omega
  have hle' : n ≤ s.length := by
    have hl := congrArg List.length htake
    rw [hlength, List.length_take] at hl
    omega
  have hread : ∀ c ∈ s.take n, c ∈ digits ∨ IsMute c := by
    intro c hc
    rw [htake] at hc
    simp only [List.mem_append] at hc
    rcases hc with ((hc | hc) | hc) | hc
    · exact .inr (hplain'' c hc)
    · exact .inr (hplain c hc)
    · exact .inr (hplain' c hc)
    · exact .inl hc
  refine ⟨digits, hdigits, hle, hle', fun c hc => ?_, ?_, rfl⟩
  · rcases hread c hc with hc | hc
    · exact ne_colon_of_isXDigit (hdigits c hc)
    · exact hc.2
  rw [hexNumber_ne_zero hdigits, Negative]
  refine and_congr ?_ ⟨fun ⟨c, hc, hz⟩ => ?_, fun ⟨c, hc, hz⟩ => ?_⟩
  · have hne : sign ++ mark ++ digits ≠ [] := by simp [hd]
    have ht : s.dropWhile isSpace = (sign ++ mark ++ digits) ++ v.dropWhile isXDigit := by
      rw [List.append_assoc, hrest, List.append_assoc, ← hmark, ← hsign]
    have hhead : (sign ++ mark ++ digits).dropWhile isSpace = sign ++ mark ++ digits := by
      have hnot := List.head?_dropWhile_not isSpace s
      rw [ht, List.head?_append_of_ne_nil _ hne] at hnot
      cases hl : sign ++ mark ++ digits with
      | nil => exact absurd hl hne
      | cons c l =>
        rw [hl] at hnot
        rw [List.dropWhile_cons_of_neg (by simpa using hnot)]
    rw [htake, List.append_assoc, List.append_assoc, ← List.append_assoc sign,
      List.dropWhile_append_of_pos fun c hc => List.mem_takeWhile_imp hc, hhead, ht,
      isMinus_append hne]
  · rcases hread c hc with hc | hc
    · exact ⟨c, hc, hz⟩
    · exact absurd hz hc.1
  · refine ⟨c, ?_, hz⟩
    rw [htake]
    exact List.mem_append_right _ hc

/-- `strtoul` stops before a colon. -/
theorem strtoul_le_of_colon {s : Str} {i : ℕ} (h : s.getD i 0 = chr ':') :
    (strtoul s).2 ≤ i := by
  rcases Nat.eq_zero_or_pos (strtoul s).2 with h0 | hpos
  · omega
  obtain ⟨digits, -, -, hle, hcolon, -⟩ := strtoul_eq hpos rfl
  by_contra hlt
  have hi : i < s.length := by omega
  refine hcolon (chr ':') ?_ rfl
  rw [List.getD_eq_getElem?_getD, List.getElem?_eq_getElem hi, Option.getD_some] at h
  rw [← h]
  exact List.mem_take_iff_getElem.mpr ⟨i, by omega, rfl⟩

theorem strtoul_le_length (s : Str) : (strtoul s).2 ≤ s.length := by
  rcases Nat.eq_zero_or_pos (strtoul s).2 with h0 | hpos
  · omega
  · obtain ⟨digits, -, -, hle, -⟩ := strtoul_eq hpos rfl
    exact hle

theorem skipHexMark_append_colon (s t : Str) :
    skipHexMark (s ++ chr ':' :: t) = skipHexMark s ++ chr ':' :: t := by
  have hzero : chr ':' ≠ chr '0' ∧ chr ':' ≠ chr 'x' ∧ chr ':' ≠ chr 'X' ∧
      isXDigit (chr ':') = false := by decide
  match s with
  | [] => match t with
    | [] | [_] => rfl
    | _ :: _ :: _ => simp [skipHexMark, hzero]
  | [a] => match t with
    | [] => rfl
    | _ :: _ => simp [skipHexMark, hzero]
  | [a, b] => simp [skipHexMark, hzero]
  | a :: b :: c :: s =>
    simp only [List.cons_append, skipHexMark]
    split_ifs <;> rfl

theorem dropWhile_space_append_colon (s t : Str) :
    (s ++ chr ':' :: t).dropWhile isSpace = s.dropWhile isSpace ++ chr ':' :: t := by
  have hcolon : (chr ':' :: t).dropWhile isSpace = chr ':' :: t :=
    List.dropWhile_cons_of_neg (by decide)
  rw [List.dropWhile_append, hcolon]
  split_ifs with hempty
  · rw [List.isEmpty_iff.mp hempty, List.nil_append]
  · rfl

theorem numberStart_append_colon (s t : Str) :
    numberStart (s ++ chr ':' :: t) = numberStart s ++ chr ':' :: t := by
  have hsign : ∀ u : Str, skipSign (u ++ chr ':' :: t) = skipSign u ++ chr ':' :: t := by
    have hminus : chr ':' ≠ chr '-' ∧ chr ':' ≠ chr '+' := by decide
    intro u
    cases u with
    | nil => simp [skipSign, hminus]
    | cons c u =>
      by_cases hc : c = chr '-' ∨ c = chr '+'
      · simp [skipSign, hc]
      · simp [skipSign, hc]
  rw [numberStart, dropWhile_space_append_colon, hsign, skipHexMark_append_colon, numberStart]

/-- What stands behind a colon plays no part. -/
theorem strtoul_append_colon (s t : Str) : strtoul (s ++ chr ':' :: t) = strtoul s := by
  have hdigits : (numberStart s ++ chr ':' :: t).takeWhile isXDigit =
      (numberStart s).takeWhile isXDigit := by
    have hcolon : (chr ':' :: t).takeWhile isXDigit = [] :=
      List.takeWhile_cons_of_neg (by decide)
    rw [List.takeWhile_append, hcolon, List.append_nil]
    split_ifs with hall
    · exact (List.takeWhile_prefix _).eq_of_length hall |>.symm
    · rfl
  have hminus : isMinus ((s ++ chr ':' :: t).dropWhile isSpace) =
      isMinus (s.dropWhile isSpace) := by
    rw [dropWhile_space_append_colon]
    cases s.dropWhile isSpace with
    | nil => rfl
    | cons c u => rfl
  have hlength : (s ++ chr ':' :: t).length - (numberStart s ++ chr ':' :: t).length =
      s.length - (numberStart s).length := by
    rw [List.length_append, List.length_append]
    omega
  rw [strtoul, numberStart_append_colon, hdigits, hminus, hlength, strtoul]

theorem strtoul_append {t : Str} (h : chr ':' ∈ t) (x : Str) : strtoul (t ++ x) = strtoul t := by
  obtain ⟨s, u, rfl⟩ := List.append_of_mem h
  rw [List.append_assoc, List.cons_append, strtoul_append_colon, strtoul_append_colon]

/-- A byte that ends a number. -/
def EndsNumber (c : UInt8) : Prop := isXDigit c = false ∧ c ≠ chr 'x' ∧ c ≠ chr 'X'

theorem isXDigit_spec {c : UInt8} (hc : isXDigit c = true) :
    isSpace c = false ∧ c ≠ chr '-' ∧ c ≠ chr '+' ∧ c ≠ chr 'x' ∧ c ≠ chr 'X' := by
  have h : ∀ c : UInt8, isXDigit c = true →
      isSpace c = false ∧ c ≠ chr '-' ∧ c ≠ chr '+' ∧ c ≠ chr 'x' ∧ c ≠ chr 'X' :=
    forall_byte (by decide +kernel)
  exact h c hc

theorem skipHexMark_of_ne {a b : UInt8} (hx : b ≠ chr 'x') (hX : b ≠ chr 'X') (s : Str) :
    skipHexMark (a :: b :: s) = a :: b :: s := by
  cases s with
  | nil => rfl
  | cons c s => simp [skipHexMark, hx, hX]

/-- Digits are read up to the byte that ends them. -/
theorem strtoul_digits (digits rest : Str) (hne : digits ≠ [])
    (hdigits : ∀ c ∈ digits, isXDigit c = true) (hlength : digits.length ≤ 16)
    (hrest : ∀ c ∈ rest.head?, EndsNumber c) :
    strtoul (digits ++ rest) = (hexNumber digits, digits.length) := by
  have hlt : hexNumber digits < 2 ^ 64 :=
    lt_of_lt_of_le (hexNumber_lt hdigits) <| by
      calc 16 ^ digits.length ≤ 16 ^ 16 := Nat.pow_le_pow_right (by norm_num) hlength
        _ = 2 ^ 64 := by norm_num
  have htake : (digits ++ rest).takeWhile isXDigit = digits := by
    rw [List.takeWhile_append_of_pos hdigits, List.append_right_eq_self]
    cases rest with
    | nil => rfl
    | cons c rest => rw [List.takeWhile_cons_of_neg (by simp [(hrest c rfl).1])]
  obtain ⟨d, ds, rfl⟩ := List.exists_cons_of_ne_nil hne
  obtain ⟨hspace, hminus, hplus, -⟩ := isXDigit_spec (hdigits d List.mem_cons_self)
  have hdrop : (d :: ds ++ rest).dropWhile isSpace = d :: ds ++ rest :=
    List.dropWhile_cons_of_neg (by simp [hspace])
  have hstart : numberStart (d :: ds ++ rest) = d :: ds ++ rest := by
    have hsign : skipSign (d :: ds ++ rest) = d :: (ds ++ rest) := by
      simp [skipSign, hminus, hplus]
    rw [numberStart, hdrop, hsign]
    cases hs : ds ++ rest with
    | nil => simp [skipHexMark, hs]
    | cons b s =>
      have hb : b ≠ chr 'x' ∧ b ≠ chr 'X' := by
        cases ds with
        | nil => exact (hrest b (by simp_all)).2
        | cons b' ds =>
          rw [← (List.cons_eq_cons.mp hs).1]
          exact (isXDigit_spec (hdigits b' (by simp))).2.2.2
      rw [skipHexMark_of_ne hb.1 hb.2, List.cons_append, hs]
  rw [strtoul, hstart, htake, hdrop]
  simp only [if_neg hne, if_neg (not_le.mpr hlt)]
  simp [isMinus, hminus]

theorem readByte_byteToHex (byte : UInt8) : readByte (byteToHex byte) = byte := by
  have hlt := byte.toNat_lt
  have hhigh := binHex_spec (byte.toNat / 16) (by omega)
  have hlow := binHex_spec (byte.toNat % 16) (by omega)
  have hread := strtoul_digits (byteToHex byte) [] (by simp [byteToHex])
    (by simp [byteToHex, hhigh.2, hlow.2]) (by simp [byteToHex]) (by simp)
  have hnumber : hexNumber (byteToHex byte) = byte.toNat := by
    simp only [byteToHex, hexNumber, List.foldl_cons, List.foldl_nil, hhigh.1, hlow.1]
    omega
  rw [List.append_nil] at hread
  rw [readByte, hread, hnumber, Nat.mod_eq_of_lt hlt, Nat.toUInt8_eq, UInt8.ofNat_toNat]

@[simp] theorem length_toHex (buf : Str) : (toHex buf).length = 2 * buf.length := by
  induction buf with
  | nil => rfl
  | cons byte buf ih =>
    rw [toHex, List.flatMap_cons, List.length_append, ← toHex, ih]
    simp only [byteToHex, List.length_cons, List.length_nil]
    omega

/-- `HexStringToUint8` undoes `ToHex`. -/
theorem hexStringToUint8_toHex (buf : Str) : hexStringToUint8 (toHex buf) = buf := by
  induction buf with
  | nil => rfl
  | cons byte buf ih =>
    calc hexStringToUint8 (toHex (byte :: buf))
        = readByte (byteToHex byte) :: hexStringToUint8 (toHex buf) := rfl
      _ = byte :: buf := by rw [readByte_byteToHex, ih]

/-- `std::setfill('0') << std::setw(width) << std::hex << n`. -/
def hexField (width n : ℕ) : Str := padLeft width (hexadecimal n)

theorem isXDigit_hexField (width n : ℕ) : ∀ c ∈ hexField width n, isXDigit c = true := by
  intro c hc
  rcases List.mem_append.mp hc with hc | hc
  · rw [List.eq_of_mem_replicate hc]
    decide
  · exact isXDigit_hexadecimal n c hc

theorem hexNumber_hexField (width n : ℕ) : hexNumber (hexField width n) = n := by
  have hzeros : ∀ k : ℕ, hexNumber (List.replicate k (chr '0')) = 0 := fun k =>
    (hexNumber_eq_zero fun c hc => by rw [List.eq_of_mem_replicate hc]; decide).mpr
      fun c hc => List.eq_of_mem_replicate hc
  rw [hexField, padLeft, hexNumber_append, hzeros, hexNumber_hexadecimal, zero_mul, zero_add]

/-- A field has its width as long as the number fits, and is longer beyond. -/
theorem length_hexField {width n : ℕ} (hw : 0 < width) :
    (hexField width n).length = width ↔ n < 16 ^ width := by
  rw [← length_hexadecimal_le hw, hexField, padLeft, List.length_append, List.length_replicate]
  omega

theorem le_length_hexField (width n : ℕ) : width ≤ (hexField width n).length := by
  rw [hexField, padLeft, List.length_append, List.length_replicate]
  omega

/-- A field that fits is read back, whatever stands behind the byte that ends it. -/
theorem strtoul_hexField {width n : ℕ} (hw : 0 < width) (hw' : width ≤ 16) (hn : n < 16 ^ width)
    {c : UInt8} (hc : EndsNumber c) (rest : Str) :
    strtoul (hexField width n ++ c :: rest) = (n, width) := by
  have hlength := (length_hexField hw).mpr hn
  have hne : hexField width n ≠ [] := List.ne_nil_of_length_pos (by omega)
  rw [strtoul_digits _ _ hne (isXDigit_hexField width n) (by omega) (by simpa using hc),
    hexNumber_hexField, hlength]

end TarotClub
