import Mathlib.Data.List.TakeWhile
import Mathlib.Tactic.Common

/-! The grammar of JSON texts of RFC 8259, over the bytes of their UTF-8 encoding. What may
stand as a key, as a string and as a number is a parameter, so that the same rules give the
documents whose tokens are restricted. -/
namespace JsonText

abbrev Text := List UInt8

def isDigit (c : UInt8) : Bool := 0x30 ≤ c && c ≤ 0x39

def isHexDigit (c : UInt8) : Bool :=
  isDigit c || (0x41 ≤ c && c ≤ 0x46) || (0x61 ≤ c && c ≤ 0x66)

/-- `ws` -/
def Blank (w : Text) : Prop := ∀ c ∈ w, c = 0x20 ∨ c = 0x09 ∨ c = 0x0A ∨ c = 0x0D

/-- `*DIGIT` -/
def Digits (ds : Text) : Prop := ∀ c ∈ ds, isDigit c = true

/-- The number written by digits. -/
def numeral (ds : Text) : ℕ := ds.foldl (fun v c => 10 * v + (c.toNat - 0x30)) 0

/-! ### Numbers -/

/-- `[ frac ]`, for a choice of what stands behind the point. -/
inductive Fraction (P : Text → Prop) : Text → Prop
  | none : Fraction P []
  | point {ds : Text} : P ds → Fraction P (0x2E :: ds)

/-- `[ exp ]`, for a choice of what stands behind the mark and the sign. -/
inductive Exponent (P : Text → Prop) : Text → Prop
  | none : Exponent P []
  | mark {e : UInt8} {sign ds : Text} : e = 0x65 ∨ e = 0x45 →
      sign = [] ∨ sign = [0x2B] ∨ sign = [0x2D] → P ds → Exponent P (e :: (sign ++ ds))

/-- `[ minus ] int [ frac ] [ exp ]` -/
inductive Number (I F E : Text → Prop) : Text → Prop
  | parts {minus int frac exp : Text} : minus = [] ∨ minus = [0x2D] → I int →
      Fraction F frac → Exponent E exp → Number I F E (minus ++ (int ++ (frac ++ exp)))

theorem Exponent.mono {P Q : Text → Prop} (h : ∀ ds, P ds → Q ds) {x : Text}
    (hx : Exponent P x) : Exponent Q x := by
  cases hx with
  | none => exact .none
  | mark he hs hd => exact .mark he hs (h _ hd)

theorem Fraction.mono {P Q : Text → Prop} (h : ∀ ds, P ds → Q ds) {x : Text}
    (hx : Fraction P x) : Fraction Q x := by
  cases hx with
  | none => exact .none
  | point hd => exact .point (h _ hd)

theorem Number.mono {I F E I' F' E' : Text → Prop} (hI : ∀ ds, I ds → I' ds)
    (hF : ∀ ds, F ds → F' ds) (hE : ∀ ds, E ds → E' ds) {x : Text} (hx : Number I F E x) :
    Number I' F' E' x := by
  cases hx with
  | parts hm hi hf he => exact .parts hm (hI _ hi) (hf.mono hF) (he.mono hE)

/-- `int = zero / ( digit1-9 *DIGIT )` -/
def Integer (ds : Text) : Prop :=
  ds = [0x30] ∨ ∃ d tail, ds = d :: tail ∧ d ≠ 0x30 ∧ isDigit d = true ∧ Digits tail

/-- `1*DIGIT` -/
def SomeDigits (ds : Text) : Prop := ds ≠ [] ∧ Digits ds

theorem Integer.someDigits {ds : Text} (h : Integer ds) : SomeDigits ds := by
  rcases h with rfl | ⟨d, tail, rfl, -, hd, ht⟩
  · refine ⟨by simp, ?_⟩
    intro c hc
    rw [List.mem_singleton.mp hc]
    decide
  · refine ⟨by simp, ?_⟩
    intro c hc
    rcases List.mem_cons.mp hc with rfl | hc
    · exact hd
    · exact ht c hc

/-! ### Strings -/

/-- `char`: one character of a string as it is written. -/
inductive Character : Text → Prop
  | unescaped {c : Char} : 0x20 ≤ c.toNat → c ≠ '"' → c ≠ '\\' →
      Character (String.utf8EncodeChar c)
  | escape {e : UInt8} : e ∈ [0x22, 0x5C, 0x2F, 0x62, 0x66, 0x6E, 0x72, 0x74] →
      Character [0x5C, e]
  | unicode {a b c d : UInt8} :
      (isHexDigit a && isHexDigit b && isHexDigit c && isHexDigit d) = true →
      Character [0x5C, 0x75, a, b, c, d]

/-- Characters between quotation marks. -/
inductive Quoted : List Text → Text → Prop
  | marks (cs : List Text) : Quoted cs (0x22 :: (cs.flatten ++ [0x22]))

/-- The strings all of whose characters meet a condition. -/
def StringOf (P : Text → Prop) (x : Text) : Prop := ∃ cs, (∀ c ∈ cs, P c) ∧ Quoted cs x

/-- The bytes of a character outside ASCII all have their highest bit. -/
theorem utf8EncodeChar_high {c : Char} (hc : 0x80 ≤ c.toNat) :
    ∀ b ∈ String.utf8EncodeChar c, 0x80 ≤ b := by
  have hbit : ∀ n : ℕ, 0x80 ≤ n → n < 0x100 → (0x80 : UInt8) ≤ UInt8.ofNat n := by
    intro n hn hlt
    rw [UInt8.le_iff_toNat_le, UInt8.toNat_ofNat', Nat.mod_eq_of_lt hlt]
    exact hn
  intro b hb
  change 0x80 ≤ c.val.toNat at hc
  unfold String.utf8EncodeChar at hb
  generalize c.val.toNat = v at hc hb
  dsimp only at hb
  split_ifs at hb with h1 h2 h3
  · omega
  all_goals
    simp only [List.mem_cons, List.not_mem_nil, or_false] at hb
    rcases hb with rfl | rfl | rfl | rfl <;>
      exact hbit _ (by omega) (by omega)

theorem utf8EncodeChar_ascii {c : Char} (hc : c.toNat < 0x80) :
    String.utf8EncodeChar c = [UInt8.ofNat c.toNat] := by
  change c.val.toNat < 0x80 at hc
  unfold String.utf8EncodeChar
  exact if_pos (by omega)

/-! ### Values -/

/-- What may stand as a number, as a string and as a key. -/
structure Tokens where
  number : Text → Prop
  string : Text → Prop
  key : Text → Prop

/-- The tokens of the standard. -/
def standard : Tokens where
  number := Number Integer SomeDigits SomeDigits
  string := StringOf Character
  key := StringOf Character

inductive Symbol where
  | container
  | value
  | element
  | elements
  | member
  | members

/-- The rules for `object`, `array` and `value`. An element and a member have the white space
around them that belongs to the structural characters. -/
inductive Derives (T : Tokens) : Symbol → Text → Prop
  | emptyArray {w : Text} : Blank w → Derives T .container (0x5B :: (w ++ [0x5D]))
  | array {x : Text} : Derives T .elements x → Derives T .container (0x5B :: (x ++ [0x5D]))
  | emptyObject {w : Text} : Blank w → Derives T .container (0x7B :: (w ++ [0x7D]))
  | object {x : Text} : Derives T .members x → Derives T .container (0x7B :: (x ++ [0x7D]))
  | container {x : Text} : Derives T .container x → Derives T .value x
  | isFalse : Derives T .value [0x66, 0x61, 0x6C, 0x73, 0x65]
  | isNull : Derives T .value [0x6E, 0x75, 0x6C, 0x6C]
  | isTrue : Derives T .value [0x74, 0x72, 0x75, 0x65]
  | number {x : Text} : T.number x → Derives T .value x
  | string {x : Text} : T.string x → Derives T .value x
  | element {w x w' : Text} : Blank w → Derives T .value x → Blank w' →
      Derives T .element (w ++ (x ++ w'))
  | lastElement {x : Text} : Derives T .element x → Derives T .elements x
  | elements {x y : Text} : Derives T .element x → Derives T .elements y →
      Derives T .elements (x ++ 0x2C :: y)
  | member {w k w' x : Text} : Blank w → T.key k → Blank w' → Derives T .element x →
      Derives T .member (w ++ (k ++ (w' ++ 0x3A :: x)))
  | lastMember {x : Text} : Derives T .member x → Derives T .members x
  | members {x y : Text} : Derives T .member x → Derives T .members y →
      Derives T .members (x ++ 0x2C :: y)

/-- `JSON-text`, with an array or an object at the root. -/
def Document (T : Tokens) (s : Text) : Prop :=
  ∃ w x w', Blank w ∧ Derives T .container x ∧ Blank w' ∧ s = w ++ (x ++ w')

/-- Fewer tokens derive fewer texts. -/
theorem Derives.mono {T U : Tokens} (hn : ∀ x, T.number x → U.number x)
    (hs : ∀ x, T.string x → U.string x) (hk : ∀ x, T.key x → U.key x) {a : Symbol} {x : Text}
    (h : Derives T a x) : Derives U a x := by
  induction h with
  | emptyArray hw => exact .emptyArray hw
  | array _ ih => exact .array ih
  | emptyObject hw => exact .emptyObject hw
  | object _ ih => exact .object ih
  | container _ ih => exact .container ih
  | isFalse => exact .isFalse
  | isNull => exact .isNull
  | isTrue => exact .isTrue
  | number hx => exact .number (hn _ hx)
  | string hx => exact .string (hs _ hx)
  | element hw _ hw' ih => exact .element hw ih hw'
  | lastElement _ ih => exact .lastElement ih
  | elements _ _ ih ih' => exact .elements ih ih'
  | member hw hx hw' _ ih => exact .member hw (hk _ hx) hw' ih
  | lastMember _ ih => exact .lastMember ih
  | members _ _ ih ih' => exact .members ih ih'

end JsonText
