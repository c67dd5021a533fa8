import TarotClub.Rounding
import TarotClub.Text

namespace TarotClub

open Rounding (Double)

/-- `JsonValue`. An object lists its keys in the order of `std::map`. -/
inductive JsonValue where
  | invalid
  | array (values : List JsonValue)
  | object (entries : List (Str × JsonValue))
  | integer (value : ℤ)
  | double (value : Double)
  | boolean (value : Bool)
  | string (value : Str)
  | null

abbrev JsonObject := List (Str × JsonValue)

/-- `mObject[name] = value`. -/
def JsonObject.addValue : JsonObject → Str → JsonValue → JsonObject
  | [], name, value => [(name, value)]
  | (k, v) :: rest, name, value =>
    if name = k then (name, value) :: rest
    else if name < k then (name, value) :: (k, v) :: rest
    else (k, v) :: JsonObject.addValue rest name value

/-- The value stored under a key. -/
def JsonObject.lookup (obj : JsonObject) (name : Str) : Option JsonValue :=
  (obj.find? fun e => e.1 = name).map Prod.snd

/-- An object built by successive calls of `AddValue`. -/
def JsonObject.ofList (entries : List (Str × JsonValue)) : JsonObject :=
  entries.foldl (fun obj e => obj.addValue e.1 e.2) []

namespace JsonValue

def isValid : JsonValue → Bool
  | invalid => false
  | _ => true

/-- `GetInteger`: the low 32 bits of the integer. -/
def getInteger : JsonValue → ℤ
  | integer n => n.bmod (2 ^ 32)
  | _ => 0

def getBool : JsonValue → Bool
  | boolean b => b
  | _ => false

def getString : JsonValue → Str
  | string s => s
  | _ => []

def getObj : JsonValue → JsonObject
  | object entries => entries
  | _ => []

def getArray : JsonValue → List JsonValue
  | array values => values
  | _ => []

/-- The first object of an array that holds the key gives the value. -/
def lookupInArray (values : List JsonValue) (name : Str) : Option JsonValue :=
  values.findSome? fun v => JsonObject.lookup v.getObj name

/-- The loop of `FindValue`: `temp` is the value reached so far and `found` whether any
key has been found yet. A key of an object that is missing leaves both as they are. -/
def findKeys : List Str → JsonValue → Bool → JsonValue
  | [], temp, found => if found then temp else invalid
  | key :: keys, temp, found =>
    match temp with
    | object entries =>
      match JsonObject.lookup entries key with
      | some v => findKeys keys v true
      | none => findKeys keys temp found
    | array values =>
      match lookupInArray values key with
      | some v => findKeys keys v true
      | none => findKeys keys temp found
    | _ => if found then temp else invalid

def findValue (json : JsonValue) (keyPath : Str) : JsonValue :=
  findKeys (split keyPath (str ":")) json false

/-- `GetValue` into a `std::string`. -/
def getStringValue (json : JsonValue) (nodePath : Str) : Option Str :=
  match json.findValue nodePath with
  | string s => some s
  | _ => none

/-- `GetValue` into a `bool`. -/
def getBoolValue (json : JsonValue) (nodePath : Str) : Option Bool :=
  match json.findValue nodePath with
  | boolean b => some b
  | _ => none

/-- `CreateIndent`. -/
def createIndent (level : ℤ) : Str := List.replicate (4 * level).toNat (chr ' ')

/-- The only escape sequence the printer knows: backslashes are doubled. -/
def escapeBackslashes : Str → Str
  | [] => []
  | c :: s => if c = chr '\\' then c :: c :: escapeBackslashes s else c :: escapeBackslashes s

def quote (s : Str) : Str := chr '"' :: s ++ [chr '"']

/-- `std::to_string` of a `double`: six decimals. -/
def doubleToString : Double → Str
  | .finite q =>
    let n := (Rounding.nearestInt (|q| * 10 ^ 6)).toNat
    (if q < 0 then [chr '-'] else []) ++ decimal (n / 10 ^ 6) ++ str "." ++
      padLeft 6 (decimal (n % 10 ^ 6))
  | .infinite s => if s then str "-inf" else str "inf"
  | .nan => str "nan"

/-- What an array or object of this level puts after a bracket or a comma. -/
def crlf (level : ℤ) : Str := if level ≥ 0 then [chr '\n'] else []

def indentOf (level : ℤ) : Str := if level ≥ 0 then createIndent (level + 1) else []

def nextLevel (level : ℤ) : ℤ := if level ≥ 0 then level + 1 else -1

mutual
/-- `JsonValue::ToString`, with the array and object printers it calls. An invalid value
prints as an empty array. -/
def toString : JsonValue → ℤ → Str
  | string s, _ => quote (escapeBackslashes s)
  | integer n, _ => decimalInt n
  | boolean b, _ => if b then str "true" else str "false"
  | double d, _ => doubleToString d
  | null, _ => str "null"
  | object entries, level =>
    chr '{' :: crlf level ++ entriesToString entries level ++ crlf level ++ indentOf level ++
      [chr '}']
  | array values, level =>
    chr '[' :: crlf level ++ valuesToString values level ++ crlf level ++ indentOf level ++
      [chr ']']
  | invalid, level => chr '[' :: crlf level ++ crlf level ++ indentOf level ++ [chr ']']

/-- The loop of `JsonArray::ToString`. -/
def valuesToString : List JsonValue → ℤ → Str
  | [], _ => []
  | v :: rest, level =>
    indentOf level ++ toString v (nextLevel level) ++
      (if rest.isEmpty then [] else chr ',' :: crlf level) ++ valuesToString rest level

/-- The loop of `JsonObject::ToString`; keys are printed as they are. -/
def entriesToString : List (Str × JsonValue) → ℤ → Str
  | [], _ => []
  | (k, v) :: rest, level =>
    indentOf level ++ quote k ++ chr ':' :: toString v (nextLevel level) ++
      (if rest.isEmpty then [] else chr ',' :: crlf level) ++ entriesToString rest level
end

end JsonValue

end TarotClub
