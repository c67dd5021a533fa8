import TarotClub.JsonValue

/-! The JSON reader: one loop over the characters of a NUL-terminated copy of the text,
with a flag for separators and a stack of the brackets that are open. A list of bytes stands
for the characters before the terminating NUL. -/
namespace TarotClub.JsonReader

open Rounding (Double)

inductive ParseStatus where
  | badNumber
  | badString
  | badIdentifier
  | stackUnderflow
  | mismatchBracket
  | unexpectedCharacter
  | unquotedKey
  | breakingBad
  | allocError
  deriving DecidableEq, Repr

/-- How a call of `Parse` ends. Besides the statuses of the source there are its two
undefined behaviours: a read behind the terminating NUL and an exponent that overflows. -/
inductive ParseOutcome where
  | ok (json : JsonValue)
  | error (status : ParseStatus)
  | overRead
  | overflow

/-- `*s`, which is NUL at the end of the text. -/
def peek (s : Str) : UInt8 := s.headD 0

def isDelim (c : UInt8) : Bool :=
  isSpace c || c = chr ',' || c = chr ':' || c = chr ']' || c = chr '}' || c = 0

def charToInt (c : UInt8) : ℕ :=
  if c ≥ 97 then c.toNat - 97 + 10 else if c ≥ 65 then c.toNat - 65 + 10 else c.toNat - 48

/-- One digit of the integer part: `result = (result * 10) + (*s++ - '0')`. -/
def accumulate (result : Double) (d : ℕ) : Double :=
  (result.mul (.ofNat 10)).add (.ofNat d)

/-- One digit behind the point; the pair holds `fraction` and `result`. -/
def accumulateFraction (p : Double × Double) (d : ℕ) : Double × Double :=
  let fraction := p.1.mul (.ofRat (1 / 10))
  (fraction, p.2.add ((Double.ofNat d).mul fraction))

def digits (s : Str) : List ℕ := (s.takeWhile isDigit).map digitValue

/-- `for (; exponent; exponent >>= 1, base *= base)`, at most 32 times. -/
def powerLoop : ℕ → ℕ → Double → Double → Double
  | 0, _, _, power => power
  | fuel + 1, exponent, base, power =>
    if exponent = 0 then power
    else powerLoop fuel (exponent / 2) (base.mul base)
      (if exponent % 2 = 1 then power.mul base else power)

/-- The conversion of a `double` to 64 bits; out of range it gives the smallest integer, as
the processors of the x86 family do. -/
def toInt64 : Double → ℤ
  | .finite q =>
    let n := Rounding.truncate q
    if -2 ^ 63 ≤ n ∧ n < 2 ^ 63 then n else -2 ^ 63
  | _ => -2 ^ 63

/-- The digits behind a point, if there is one. -/
def readFraction (result : Double) (s : Str) : Double × Bool × Str :=
  if peek s = chr '.' then
    (((digits s.tail).foldl accumulateFraction (.ofNat 1, result)).2, true,
      s.tail.dropWhile isDigit)
  else (result, false, s)

/-- The exponent, if there is one; `none` when it overflows an `int`. -/
def readExponent (result : Double) (doubleValue : Bool) (s : Str) :
    Option (Double × Bool × Str) :=
  if peek s = chr 'e' ∨ peek s = chr 'E' then
    let s := s.tail
    let negative := peek s = chr '-'
    let base : Double := if negative then .ofRat (1 / 10) else .ofNat 10
    let s := if peek s = chr '+' ∨ negative then s.tail else s
    let exponent := (digits s).foldl (fun v d => 10 * v + d) 0
    if exponent < 2 ^ 31 then
      some (result.mul (powerLoop 32 exponent base (.ofNat 1)), true, s.dropWhile isDigit)
    else none
  else some (result, doubleValue, s)

/-- `StringToNumber`: the number and the text behind it. -/
def stringToNumber (s : Str) : Option (JsonValue × Str) :=
  let negative := peek s = chr '-'
  let s := if peek s = chr '+' ∨ negative then s.tail else s
  let result := (digits s).foldl accumulate (.ofNat 0)
  let (result, doubleValue, s) := readFraction result (s.dropWhile isDigit)
  match readExponent result doubleValue s with
  | none => none
  | some (result, doubleValue, s) =>
    let result := if negative then result.neg else result
    some (if doubleValue then .double result else .integer (toInt64 result), s)

def simpleEscape (c : UInt8) : Option UInt8 :=
  if c = chr '\\' ∨ c = chr '"' ∨ c = chr '/' then some c
  else if c = chr 'b' then some 8
  else if c = chr 'f' then some 12
  else if c = chr 'n' then some 10
  else if c = chr 'r' then some 13
  else if c = chr 't' then some 9
  else none

/-- The bytes pushed for a code of four hexadecimal digits. -/
def encode (c : ℕ) : Str :=
  if c < 0x80 then [c.toUInt8]
  else if c < 0x800 then [(0xC0 ||| c >>> 6).toUInt8, (0x80 ||| c &&& 0x3F).toUInt8]
  else [(0xE0 ||| c >>> 12).toUInt8, (0x80 ||| (c >>> 6) &&& 0x3F).toUInt8,
    (0x80 ||| c &&& 0x3F).toUInt8]

/-- The characters of a string up to its closing quote; the end of the text closes it as
well. -/
def readString : Str → Str → Except ParseStatus (Str × Str)
  | [], temp => .ok (temp, [])
  | c :: s, temp =>
    if c = chr '\\' then
      match s with
      | [] => .error .badString
      | e :: s =>
        match simpleEscape e with
        | some b => readString s (temp ++ [b])
        | none =>
          if e = chr 'u' then
            match s with
            | a :: b :: c :: d :: s =>
              if isXDigit a && isXDigit b && isXDigit c && isXDigit d then
                readString s (temp ++ encode
                  (((charToInt a * 16 + charToInt b) * 16 + charToInt c) * 16 + charToInt d))
              else .error .badString
            | _ => .error .badString
          else .error .badString
    else if isCntrl c then .error .badString
    else if c = chr '"' then .ok (temp, s)
    else readString s (temp ++ [c])

/-- One open bracket: what has been read of it and, in an object, the pending key. The
key slot of an array is always empty. -/
inductive Level where
  | array (values : List JsonValue)
  | object (entries : JsonObject) (key : Str)

namespace Level

def key : Level → Str
  | array _ => []
  | object _ key => key

def node : Level → JsonValue
  | array values => .array values
  | object entries _ => .object entries

/-- Adds a finished value at the pending key, or at the end of an array. -/
def addValue : Level → JsonValue → Level
  | array values, v => array (values ++ [v])
  | object entries key, v => object (entries.addValue key v) []

end Level

/-- The text behind a fixed word, if the text starts with it. -/
def stripWord : Str → Str → Option Str
  | [], s => some s
  | _ :: _, [] => none
  | w :: word, c :: s => if w = c then stripWord word s else none

/-- `true`, `false` and `null`, whose first character has been read. -/
def readWord (word s : Str) (o : JsonValue) : Except ParseStatus (JsonValue × Str) :=
  match stripWord word s with
  | some s => if isDelim (peek s) then .ok (o, s) else .error .badIdentifier
  | none => .error .badIdentifier

/-- A scalar goes to the innermost bracket: as a key, under the pending key, or into the
array. -/
def addScalar (levels : List Level) (o : JsonValue) : Except ParseStatus (List Level) :=
  match levels with
  | [] => .error .allocError
  | .array values :: rest => .ok (.array (values ++ [o]) :: rest)
  | .object entries key :: rest =>
    if key = [] then
      match o with
      | .string k => .ok (.object entries k :: rest)
      | _ => .error .unquotedKey
    else .ok (.object (entries.addValue key o) [] :: rest)

/-- A closing bracket: the finished node goes to the bracket around it, or ends the
document. -/
def closeLevel (node : JsonValue) : List Level → JsonValue ⊕ List Level
  | [] => .inl node
  | level :: rest => .inr (level.addValue node :: rest)

/-- What one turn of the loop does: it ends the call, or goes on with the separator flag,
the open brackets and the rest of the text. -/
inductive Turn where
  | stop (outcome : ParseOutcome)
  | go (separator : Bool) (levels : List Level) (rest : Str)

/-- The scalar cases of the `switch`: the value read and the text behind it. -/
def readScalar (c : UInt8) (s : Str) : Option (Except ParseOutcome (JsonValue × Str)) :=
  if c = chr '-' ∨ isDigit c then
    some <|
      if c = chr '-' ∧ ¬ (isDigit (peek s) ∨ peek s = chr '.') then .error (.error .badNumber)
      else
        match stringToNumber (c :: s) with
        | none => .error .overflow
        | some (o, s) => if isDelim (peek s) then .ok (o, s) else .error (.error .badNumber)
  else if c = chr '"' then
    some <|
      match readString s [] with
      | .error e => .error (.error e)
      | .ok (temp, s) =>
        if isDelim (peek s) then .ok (.string temp, s) else .error (.error .badString)
  else if c = chr 't' then some ((readWord (str "rue") s (.boolean true)).mapError .error)
  else if c = chr 'f' then some ((readWord (str "alse") s (.boolean false)).mapError .error)
  else if c = chr 'n' then some ((readWord (str "ull") s .null).mapError .error)
  else none

/-- The cases of the `switch` for brackets and separators. -/
def readPunctuation (c : UInt8) (separator : Bool) (levels : List Level) (s : Str) : Turn :=
  let close (node : JsonValue) (rest : List Level) : Turn :=
    match closeLevel node rest with
    | .inl json => .stop (.ok json)
    | .inr levels => .go false levels s
  if c = chr ']' then
    match levels with
    | [] => .stop (.error .stackUnderflow)
    | .array values :: rest => close (.array values) rest
    | .object _ _ :: _ => .stop (.error .mismatchBracket)
  else if c = chr '}' then
    match levels with
    | [] => .stop (.error .stackUnderflow)
    | .array _ :: _ => .stop (.error .mismatchBracket)
    | .object entries key :: rest =>
      if key ≠ [] then .stop (.error .unexpectedCharacter) else close (.object entries) rest
  else if c = chr '[' then .go true (.array [] :: levels) s
  else if c = chr '{' then .go true (.object [] [] :: levels) s
  else if c = chr ':' then
    match levels with
    | level :: _ =>
      if separator ∨ level.key = [] then .stop (.error .unexpectedCharacter)
      else .go true levels s
    | [] => .stop (.error .unexpectedCharacter)
  else if c = chr ',' then
    match levels with
    | level :: _ =>
      if separator ∨ level.key ≠ [] then .stop (.error .unexpectedCharacter)
      else .go true levels s
    | [] => if separator then .stop (.error .unexpectedCharacter) else .go true levels s
  else .stop (.error .unexpectedCharacter)

/-- One turn of `while (*s)` on a text that is not at its end. When only white space is
left the turn steps over the terminating NUL, and the loop condition reads behind it. -/
def parseTurn (separator : Bool) (levels : List Level) (s : Str) : Turn :=
  match s.dropWhile isSpace with
  | [] => .stop .overRead
  | c :: s =>
    match readScalar c s with
    | none => readPunctuation c separator levels s
    | some (.error outcome) => .stop outcome
    | some (.ok (o, s)) =>
      match addScalar levels o with
      | .error e => .stop (.error e)
      | .ok levels => .go false levels s

/-- The loop, with as many turns as there are characters. -/
def parseLoop : ℕ → Bool → List Level → Str → ParseOutcome
  | 0, _, _, _ => .error .breakingBad
  | fuel + 1, separator, levels, s =>
    if s = [] then .error .breakingBad
    else
      match parseTurn separator levels s with
      | .stop outcome => outcome
      | .go separator levels s => parseLoop fuel separator levels s

/-- `Parse`: every turn reads at least one character. -/
def parse (s : Str) : ParseOutcome := parseLoop (s.length + 1) true [] s

/-- `ParseString`: the tree, when the text is accepted. The copy that is parsed ends at the
first NUL. -/
def parseString (data : Str) : Option JsonValue :=
  match parse (data.takeWhile (· ≠ 0)) with
  | .ok json => some json
  | _ => none

end TarotClub.JsonReader
