import TarotClub.JsonValue
import TarotClub.KeyPaths
import TarotClub.TextSearch

namespace TarotClub

open KeyPaths (follow follow_cons)
open Rounding (Double)

namespace JsonValue

/-- `JsonValue::HasValue` -/
def hasValue (json : JsonValue) (keyPath : Str) : Bool := (json.findValue keyPath).isValid

end JsonValue

namespace JsonObject

/-- `JsonObject::HasValue` -/
def hasValue (obj : JsonObject) (keyPath : Str) : Bool :=
  match split keyPath (str ":") with
  | [] => false
  | name :: keys =>
    match JsonObject.lookup obj name with
    | none => false
    | some v => if keys = [] then true else v.hasValue (join keys (str ":"))

/-- `JsonObject::GetValue` -/
def getValue (obj : JsonObject) (keyPath : Str) : JsonValue :=
  match split keyPath (str ":") with
  | [] => .invalid
  | name :: keys =>
    match JsonObject.lookup obj name with
    | none => .invalid
    | some v => if keys = [] then v else v.findValue (join keys (str ":"))

/-- `GetKeys` -/
def getKeys (obj : JsonObject) : List Str := obj.map Prod.fst

end JsonObject

namespace JsonValue

def string? : JsonValue → Option Str
  | string s => some s
  | _ => none

def boolean? : JsonValue → Option Bool
  | boolean b => some b
  | _ => none

def double? : JsonValue → Option Double
  | double d => some d
  | _ => none

/-- `IsInteger` and a conversion of `GetInteger`. -/
def integer? {α : Type} (convert : ℤ → α) (json : JsonValue) : Option α :=
  match json with
  | integer _ => some (convert json.getInteger)
  | _ => none

/-- `GetValue`: the value found, if it has the type of the variable. -/
def getTyped {α : Type} (project : JsonValue → Option α) (json : JsonValue) (nodePath : Str) :
    Option α :=
  project (json.findValue nodePath)

/-- `GetValue` into a `std::uint32_t`. -/
def getUInt32Value (json : JsonValue) (nodePath : Str) : Option ℕ :=
  json.getTyped (integer? fun n => (n % 2 ^ 32).toNat) nodePath

/-- `GetValue` into a `std::uint16_t`. -/
def getUInt16Value (json : JsonValue) (nodePath : Str) : Option ℕ :=
  json.getTyped (integer? fun n => (n % 2 ^ 16).toNat) nodePath

/-- `GetValue` into a `std::int32_t`. -/
def getInt32Value (json : JsonValue) (nodePath : Str) : Option ℤ :=
  json.getTyped (integer? id) nodePath

/-- `GetValue` into a `double`. -/
def getDoubleValue (json : JsonValue) (nodePath : Str) : Option Double :=
  json.getTyped double? nodePath

/-- The loop of `FindValue` with the lookups of objects that it calls. -/
def findLoop : List Str → JsonValue → Bool → JsonValue
  | [], temp, found => if found then temp else invalid
  | key :: keys, temp, found =>
    match temp with
    | object entries =>
      if JsonObject.hasValue entries key then findLoop keys (JsonObject.getValue entries key) true
      else findLoop keys temp found
    | array values =>
      match values.find? fun v => JsonObject.hasValue v.getObj key with
      | some v => findLoop keys (JsonObject.getValue v.getObj key) true
      | none => findLoop keys temp found
    | _ => if found then temp else invalid

/-! ### The loop of `FindValue` -/

theorem split_key {key : Str} (hkey : chr ':' ∉ key) : split key (str ":") = [key] :=
  (splitFrom_last hkey []).trans rfl

/-- A key without separators is looked up in the object itself. -/
theorem hasValue_key {key : Str} (hkey : chr ':' ∉ key) (obj : JsonObject) :
    JsonObject.hasValue obj key = (JsonObject.lookup obj key).isSome := by
  rw [JsonObject.hasValue, split_key hkey]
  dsimp only
  cases JsonObject.lookup obj key with
  | none => rfl
  | some v => rfl

theorem getValue_key {key : Str} (hkey : chr ':' ∉ key) (obj : JsonObject) :
    JsonObject.getValue obj key = (JsonObject.lookup obj key).getD .invalid := by
  rw [JsonObject.getValue, split_key hkey]
  dsimp only
  cases JsonObject.lookup obj key with
  | none => rfl
  | some v => rfl

theorem lookupInArray_key {key : Str} (hkey : chr ':' ∉ key) (values : List JsonValue) :
    lookupInArray values key =
      (values.find? fun v => JsonObject.hasValue v.getObj key).map
        fun v => JsonObject.getValue v.getObj key := by
  rw [lookupInArray]
  induction values with
  | nil => rfl
  | cons v values ih =>
    rw [List.findSome?_cons, List.find?_cons, hasValue_key hkey]
    cases h : JsonObject.lookup v.getObj key with
    | none => exact ih
    | some w => rw [Option.isSome_some, Option.map_some, getValue_key hkey, h, Option.getD_some]

theorem findKeys_eq_findLoop {keys : List Str} (hkeys : ∀ key ∈ keys, chr ':' ∉ key)
    (temp : JsonValue) (found : Bool) : findKeys keys temp found = findLoop keys temp found := by
  induction keys generalizing temp found with
  | nil => rw [findKeys, findLoop]
  | cons key keys ih =>
    rw [List.forall_mem_cons] at hkeys
    cases temp with
    | object entries =>
      rw [findKeys, findLoop, hasValue_key hkeys.1, getValue_key hkeys.1]
      cases JsonObject.lookup entries key with
      | none => exact ih hkeys.2 _ _
      | some v => exact ih hkeys.2 _ _
    | array values =>
      rw [findKeys, findLoop, lookupInArray_key hkeys.1]
      cases values.find? fun v => JsonObject.hasValue v.getObj key with
      | none => exact ih hkeys.2 _ _
      | some v => exact ih hkeys.2 _ _
    | _ => rfl

/-- `FindValue` with the lookups of objects that it calls. -/
theorem findValue_eq_findLoop (json : JsonValue) (keyPath : Str) :
    json.findValue keyPath = findLoop (split keyPath (str ":")) json false :=
  findKeys_eq_findLoop (fun _ hkey => not_mem_of_mem_split hkey) json false

/-! ### Paths -/

/-- What an object holds under a key. -/
def member : JsonValue → Str → Option JsonValue
  | object entries, key => JsonObject.lookup entries key
  | _, _ => none

/-- The value reached by following every key of the path, in order, from the root. -/
def atPath (json : JsonValue) (keyPath : Str) : Option JsonValue :=
  follow member (split keyPath (str ":")) json

/-- The trees of nested objects whose leaves are scalars. No key has a separator in it. -/
inductive ObjectTree : JsonValue → Prop
  | integer (n : ℤ) : ObjectTree (.integer n)
  | double (d : Double) : ObjectTree (.double d)
  | boolean (b : Bool) : ObjectTree (.boolean b)
  | string (s : Str) : ObjectTree (.string s)
  | null : ObjectTree .null
  | object {entries : JsonObject} : (entries.Pairwise fun e f => e.1 < f.1) →
      (∀ e ∈ entries, chr ':' ∉ e.1) → (∀ e ∈ entries, ObjectTree e.2) →
      ObjectTree (.object entries)

/-- Every lookup of the path answers what is found by following it. -/
structure LooksUp (json : JsonValue) (keyPath : Str) : Prop where
  findValue : json.findValue keyPath = (json.atPath keyPath).getD .invalid
  hasValue : json.hasValue keyPath = (json.atPath keyPath).isSome
  objectHasValue : ∀ entries, json = .object entries →
    JsonObject.hasValue entries keyPath = (json.atPath keyPath).isSome
  objectGetValue : ∀ entries, json = .object entries →
    JsonObject.getValue entries keyPath = (json.atPath keyPath).getD .invalid
  getString : json.getStringValue keyPath = (json.atPath keyPath).bind string?
  getBool : json.getBoolValue keyPath = (json.atPath keyPath).bind boolean?
  getUInt32 : json.getUInt32Value keyPath =
    (json.atPath keyPath).bind (integer? fun n => (n % 2 ^ 32).toNat)
  getUInt16 : json.getUInt16Value keyPath =
    (json.atPath keyPath).bind (integer? fun n => (n % 2 ^ 16).toNat)
  getInt32 : json.getInt32Value keyPath = (json.atPath keyPath).bind (integer? id)
  getDouble : json.getDoubleValue keyPath = (json.atPath keyPath).bind double?

theorem atPath_eq_none_of_root {json : JsonValue} {keyPath : Str}
    (h : ∀ key ∈ split keyPath (str ":"), member json key = none) :
    json.atPath keyPath = none := by
  rw [atPath]
  cases hkeys : split keyPath (str ":") with
  | nil => exact absurd hkeys (split_ne_nil (by decide) keyPath)
  | cons key keys =>
    rw [follow_cons, h key (hkeys ▸ List.mem_cons_self)]
    rfl

/-! ### The trees of objects -/

theorem lookup_mem {obj : JsonObject} {name : Str} {v : JsonValue}
    (h : JsonObject.lookup obj name = some v) : (name, v) ∈ obj := by
  obtain ⟨e, he, rfl⟩ := Option.map_eq_some_iff.mp h
  have hname : e.1 = name := by simpa using List.find?_some he
  have hmem := List.mem_of_find?_eq_some he
  rwa [← hname]

namespace ObjectTree

theorem isValid {json : JsonValue} (h : ObjectTree json) : json.isValid = true := by
  cases h with
  | integer | double | boolean | string | null | object => rfl

theorem member {json v : JsonValue} {key : Str} (h : ObjectTree json)
    (hv : json.member key = some v) : ObjectTree v := by
  cases h with
  | object _ _ htrees => exact htrees _ (lookup_mem hv)
  | integer | double | boolean | string | null => contradiction

end ObjectTree

theorem findKeys_member {json v : JsonValue} {key : Str} (h : json.member key = some v)
    (keys : List Str) (found : Bool) :
    findKeys (key :: keys) json found = findKeys keys v true := by
  cases json with
  | object entries =>
    rw [findKeys]
    simp only [show JsonObject.lookup entries key = some v from h]
  | _ => contradiction

/-- A path that can be followed is followed. -/
theorem findKeys_follow {keys : List Str} {json v : JsonValue}
    (h : follow JsonValue.member keys json = some v) {found : Bool} (hfound : keys = [] → found) :
    findKeys keys json found = v := by
  induction keys generalizing json found with
  | nil =>
    obtain rfl := Option.some.inj h
    rw [findKeys, if_pos (hfound rfl)]
  | cons key keys ih =>
    rw [follow_cons, Option.bind_eq_some_iff] at h
    obtain ⟨w, hw, h⟩ := h
    rw [findKeys_member hw]
    exact ih h fun _ => rfl

/-- A tree of objects skips the keys that are not at its root. -/
theorem ObjectTree.findKeys_skip {json : JsonValue} (h : ObjectTree json) {key : Str}
    (hkey : json.member key = none) (keys : List Str) (found : Bool) :
    findKeys (key :: keys) json found = findKeys keys json found := by
  cases h with
  | object =>
    rw [findKeys]
    simp only [show JsonObject.lookup _ key = none from hkey]
  | integer | double | boolean | string | null =>
    cases keys with
    | nil | cons => rfl

theorem ObjectTree.findKeys_isValid {json : JsonValue} (h : ObjectTree json) (keys : List Str) :
    (findKeys keys json true).isValid = true := by
  induction keys generalizing json with
  | nil => exact h.isValid
  | cons key keys ih =>
    cases hv : json.member key with
    | none =>
      rw [h.findKeys_skip hv]
      exact ih h
    | some v =>
      rw [findKeys_member hv]
      exact ih (h.member hv)

/-- A key of the root is enough for an answer. -/
theorem ObjectTree.findKeys_isValid_iff {json : JsonValue} (h : ObjectTree json)
    (keys : List Str) :
    (findKeys keys json false).isValid = true ↔ ∃ key ∈ keys, json.member key ≠ none := by
  induction keys with
  | nil => simp [findKeys, JsonValue.isValid]
  | cons key keys ih =>
    cases hv : json.member key with
    | none =>
      rw [h.findKeys_skip hv, ih]
      simp [hv]
    | some v =>
      rw [findKeys_member hv]
      simp [(h.member hv).findKeys_isValid, hv]

theorem not_isValid {json : JsonValue} (h : ¬ json.isValid = true) : json = .invalid := by
  cases json with
  | invalid => rfl
  | _ => exact absurd rfl h

theorem follow_objectTree {keys : List Str} {json v : JsonValue} (h : ObjectTree json)
    (hv : follow JsonValue.member keys json = some v) : ObjectTree v := by
  induction keys generalizing json with
  | nil =>
    obtain rfl := Option.some.inj hv
    exact h
  | cons key keys ih =>
    rw [follow_cons, Option.bind_eq_some_iff] at hv
    obtain ⟨w, hw, hv⟩ := hv
    exact ih (h.member hw) hv

/-! ### When every lookup follows the path -/

/-- A path is split, and what is left of it behind the first key is joined and split again. -/
theorem split_rest {keyPath name : Str} {keys : List Str}
    (h : split keyPath (str ":") = name :: keys) (hkeys : keys ≠ []) :
    split (join keys (str ":")) (str ":") = keys := by
  refine split_join hkeys fun key hkey => ?_
  exact not_mem_of_mem_split (h ▸ List.mem_cons_of_mem name hkey)

/-- The lookups of an object follow a path that leads to a value. -/
theorem object_follow {entries : JsonObject} (h : ObjectTree (.object entries)) {keyPath : Str}
    {v : JsonValue} (hv : (JsonValue.object entries).atPath keyPath = some v) :
    JsonObject.hasValue entries keyPath = true ∧ JsonObject.getValue entries keyPath = v := by
  rw [atPath] at hv
  rw [JsonObject.hasValue, JsonObject.getValue]
  cases hsplit : split keyPath (str ":") with
  | nil => exact absurd hsplit (split_ne_nil (by decide) keyPath)
  | cons name keys =>
    rw [hsplit, follow_cons, Option.bind_eq_some_iff] at hv
    obtain ⟨c, hc, hv⟩ := hv
    have hlookup : JsonObject.lookup entries name = some c := hc
    simp only [hlookup]
    by_cases hkeys : keys = []
    · subst hkeys
      rw [if_pos rfl, if_pos rfl]
      exact ⟨rfl, Option.some.inj hv⟩
    · have hfind : c.findValue (join keys (str ":")) = v := by
        rw [JsonValue.findValue, split_rest hsplit hkeys]
        exact findKeys_follow hv fun hnil => absurd hnil hkeys
      have hvalid := follow_objectTree (h.member hc) hv
      rw [if_neg hkeys, if_neg hkeys, JsonValue.hasValue, hfind]
      exact ⟨hvalid.isValid, rfl⟩

theorem object_absent {entries : JsonObject} {keyPath : Str}
    (h : ∀ key ∈ split keyPath (str ":"), JsonObject.lookup entries key = none) :
    JsonObject.hasValue entries keyPath = false ∧
      JsonObject.getValue entries keyPath = .invalid := by
  rw [JsonObject.hasValue, JsonObject.getValue]
  cases hsplit : split keyPath (str ":") with
  | nil => exact ⟨rfl, rfl⟩
  | cons name keys =>
    have hname := h name (hsplit ▸ List.mem_cons_self)
    simp [hname]

/-- The lookups into a variable ask for what `FindValue` answers. -/
theorem looksUp_of_findValue {json : JsonValue} {keyPath : Str} {found : Option JsonValue}
    (hpath : json.atPath keyPath = found) (hfind : json.findValue keyPath = found.getD .invalid)
    (hvalid : ∀ v, found = some v → v.isValid = true)
    (hobject : ∀ entries, json = .object entries →
      JsonObject.hasValue entries keyPath = found.isSome ∧
        JsonObject.getValue entries keyPath = found.getD .invalid) :
    LooksUp json keyPath := by
  have htyped : ∀ {α : Type} (project : JsonValue → Option α), project .invalid = none →
      project (json.findValue keyPath) = (json.atPath keyPath).bind project := by
    intro α project hinvalid
    rw [hfind, hpath]
    cases found with
    | none => exact hinvalid
    | some v => rfl
  have hhas : json.hasValue keyPath = found.isSome := by
    rw [JsonValue.hasValue, hfind]
    cases found with
    | none => rfl
    | some v => exact hvalid v rfl
  have hstring : json.getStringValue keyPath = string? (json.findValue keyPath) := rfl
  have hboolean : json.getBoolValue keyPath = boolean? (json.findValue keyPath) := rfl
  exact {
    findValue := by rw [hfind, hpath]
    hasValue := by rw [hhas, hpath]
    objectHasValue := fun entries hjson => by rw [(hobject entries hjson).1, hpath]
    objectGetValue := fun entries hjson => by rw [(hobject entries hjson).2, hpath]
    getString := hstring.trans (htyped string? rfl)
    getBool := hboolean.trans (htyped boolean? rfl)
    getUInt32 := htyped _ rfl
    getUInt16 := htyped _ rfl
    getInt32 := htyped _ rfl
    getDouble := htyped double? rfl }

/-- The lookups follow the path when it leads to a value, or when none of its keys is at the
root. Elsewhere a key that is missing is skipped, and what the others reach is the answer. -/
theorem looksUp_iff {json : JsonValue} (h : ObjectTree json) (keyPath : Str) :
    LooksUp json keyPath ↔ (json.atPath keyPath).isSome ∨
      ∀ key ∈ split keyPath (str ":"), json.member key = none := by
  constructor
  · intro hlook
    cases hpath : json.atPath keyPath with
    | some v => exact .inl rfl
    | none =>
      have hfind := hlook.findValue
      rw [hpath, Option.getD_none] at hfind
      refine .inr fun key hkey => ?_
      by_contra hne
      have hvalid := (h.findKeys_isValid_iff _).mpr ⟨key, hkey, hne⟩
      rw [JsonValue.findValue] at hfind
      rw [hfind] at hvalid
      contradiction
  · rintro (hsome | hroot)
    · obtain ⟨v, hv⟩ := Option.isSome_iff_exists.mp hsome
      have hne : split keyPath (str ":") ≠ [] := split_ne_nil (by decide) keyPath
      refine looksUp_of_findValue hv ?_ ?_ ?_
      · exact findKeys_follow hv fun hnil => absurd hnil hne
      · intro w hw
        obtain rfl := Option.some.inj hw
        exact (follow_objectTree h hv).isValid
      · rintro entries rfl
        exact object_follow h hv
    · refine looksUp_of_findValue (atPath_eq_none_of_root hroot) ?_ (by simp) ?_
      · apply not_isValid
        rw [JsonValue.findValue, h.findKeys_isValid_iff]
        rintro ⟨key, hkey, hne⟩
        exact hne (hroot key hkey)
      · rintro entries rfl
        exact object_absent hroot

theorem looksUp_iff_nested :
    LooksUp (.object [(str "a", .object [(str "b", .integer 1)])]) (str "a:b") := by
  have hinner : ObjectTree (.object [(str "b", .integer 1)]) :=
    .object (by decide) (by decide) (by simpa using .integer 1)
  have hroot : ObjectTree (.object [(str "a", .object [(str "b", .integer 1)])]) :=
    .object (by decide) (by decide) (by simpa using hinner)
  exact (looksUp_iff hroot (str "a:b")).mpr (.inl rfl)

/-- In `{"a":{"b":1}}` the path `x:a:b` leads nowhere, and what is found is the value of `a:b`. -/
theorem missing_key_skipped :
    (JsonValue.object [(str "a", .object [(str "b", .integer 1)])]).atPath (str "x:a:b") = none ∧
      (JsonValue.object [(str "a", .object [(str "b", .integer 1)])]).findValue (str "x:a:b") =
        .integer 1 := ⟨rfl, rfl⟩

end JsonValue

end TarotClub
