import Mathlib.Data.List.Basic
import Mathlib.Data.Nat.Digits.Defs
import Mathlib.Tactic.Common

/-! Byte strings, as `std::string` holds them, and the text helpers of `Util`. -/
namespace TarotClub

abbrev Str := List UInt8

/-- The bytes of a literal. -/
def str (s : String) : Str := s.toList.map fun c => c.toNat.toUInt8

def chr (c : Char) : UInt8 := c.toNat.toUInt8

/-- What is asked of each byte of a text is decided along the text, not along all the bytes that
there are. -/
instance decidableForallByte {P : UInt8 → Prop} [DecidablePred P] (s : Str) :
    Decidable (∀ c ∈ s, P c) := List.decidableBAll P s

instance decidableForallByteOption {P : UInt8 → Prop} [DecidablePred P] (o : Option UInt8) :
    Decidable (∀ c ∈ o, P c) := Option.decidableForallMem o

/-- `isspace` in the C locale. -/
def isSpace (c : UInt8) : Bool := c = 32 || (9 ≤ c && c ≤ 13)

/-- `isdigit`. -/
def isDigit (c : UInt8) : Bool := 48 ≤ c && c ≤ 57

/-- `iscntrl` in the C locale. -/
def isCntrl (c : UInt8) : Bool := c < 32 || c = 127

/-- `isxdigit`. -/
def isXDigit (c : UInt8) : Bool := isDigit c || (65 ≤ c && c ≤ 70) || (97 ≤ c && c ≤ 102)

def digitValue (c : UInt8) : ℕ := c.toNat - 48

def digitChar (d : ℕ) : UInt8 := (48 + d).toUInt8

/-- The decimal digits of `n`, most significant first, without leading zeros. -/
def decimalDigits (n : ℕ) : List ℕ := if n = 0 then [0] else (Nat.digits 10 n).reverse

/-- `std::to_string` of a natural number. -/
def decimal (n : ℕ) : Str := (decimalDigits n).map digitChar

/-- `std::to_string` of a signed integer. -/
def decimalInt (n : ℤ) : Str := if n < 0 then chr '-' :: decimal n.natAbs else decimal n.natAbs

/-- `std::setfill('0') << std::setw(width)`. -/
def padLeft (width : ℕ) (s : Str) : Str := List.replicate (width - s.length) (chr '0') ++ s

/-- `Util::Split` for a non-empty delimiter: `cur` is the piece read so far, `skip`
what is left of a delimiter that has been found. -/
def splitFrom (delimiter : Str) : Str → ℕ → Str → List Str
  | cur, _, [] => [cur]
  | cur, skip + 1, _ :: s => splitFrom delimiter cur skip s
  | cur, 0, c :: s =>
    if delimiter.isPrefixOf (c :: s) then
      cur :: splitFrom delimiter [] (delimiter.length - 1) s
    else splitFrom delimiter (cur ++ [c]) 0 s

def split (s delimiter : Str) : List Str := splitFrom delimiter [] 0 s

/-- `Util::Join`. -/
def join (tokens : List Str) (delimiter : Str) : Str := delimiter.intercalate tokens

/-- `std::stringstream >> std::uint32_t`: white space is skipped, a sign may stand before
the digits and a minus wraps; without digits the value read is zero. A text of white
space alone leaves the variable as it was, here zero as well. -/
def streamToUInt32 (s : Str) : ℕ :=
  let t := s.dropWhile isSpace
  let magnitude (ds : Str) : ℕ :=
    min ((ds.takeWhile isDigit).foldl (fun v c => 10 * v + digitValue c) 0) (2 ^ 32 - 1)
  match t with
  | [] => 0
  | c :: ds =>
    if c = chr '-' then (2 ^ 32 - magnitude ds) % 2 ^ 32
    else if c = chr '+' then magnitude ds
    else magnitude (c :: ds)

end TarotClub
