import TarotClub.JsonPaths

namespace TarotClub

open KeyPaths (ReplacedAt follow follow_cons)

namespace JsonValue

mutual
/-- `JsonValue::ReplaceValue` with the array and object members it calls: whether the value has
been replaced, and the tree afterwards. -/
def replaceValue : JsonValue → Str → JsonValue → Bool × JsonValue
  | object entries, keyPath, value =>
    let keys := split keyPath (str ":")
    let r := replaceEntries entries (keys.headD []) keys.tail value false
    (r.1, object r.2)
  | array values, keyPath, value =>
    let keys := split keyPath (str ":")
    let r := replaceElement values (streamToUInt32 (keys.headD [])) keys.tail value
    (r.1, array r.2)
  | json, _, _ => (false, json)

/-- The loop of `JsonObject::ReplaceValue`. -/
def replaceEntries :
    List (Str × JsonValue) → Str → List Str → JsonValue → Bool → Bool × List (Str × JsonValue)
  | [], _, _, _, ret => (ret, [])
  | (k, v) :: rest, name, keys, value, ret =>
    if k = name then
      let r := if keys = [] then (true, value) else replaceValue v (join keys (str ":")) value
      let s := replaceEntries rest name keys value r.1
      (s.1, (k, r.2) :: s.2)
    else
      let s := replaceEntries rest name keys value ret
      (s.1, (k, v) :: s.2)

/-- `JsonArray::ReplaceValue` at an index. -/
def replaceElement : List JsonValue → ℕ → List Str → JsonValue → Bool × List JsonValue
  | [], _, _, _ => (false, [])
  | v :: rest, 0, keys, value =>
    let r := if keys = [] then (true, value) else replaceValue v (join keys (str ":")) value
    (r.1, r.2 :: rest)
  | v :: rest, index + 1, keys, value =>
    let s := replaceElement rest index keys value
    (s.1, v :: s.2)
end

end JsonValue

/-- `JsonObject::ReplaceValue` -/
def JsonObject.replaceValue (obj : JsonObject) (keyPath : Str) (value : JsonValue) :
    Bool × JsonObject :=
  let keys := split keyPath (str ":")
  JsonValue.replaceEntries obj (keys.headD []) keys.tail value false

namespace JsonObject

/-- The object with another value under a key that it has. -/
def setEntry (obj : JsonObject) (name : Str) (value : JsonValue) : JsonObject :=
  obj.map fun e => if e.1 = name then (e.1, value) else e

theorem lookup_cons (k name : Str) (v : JsonValue) (rest : JsonObject) :
    JsonObject.lookup ((k, v) :: rest) name =
      if k = name then some v else JsonObject.lookup rest name := by
  rw [JsonObject.lookup, List.find?_cons]
  by_cases hk : k = name
  · simp [hk]
  · simp [hk, JsonObject.lookup]

theorem getKeys_setEntry (obj : JsonObject) (name : Str) (value : JsonValue) :
    getKeys (setEntry obj name value) = getKeys obj := by
  rw [getKeys, setEntry, List.map_map]
  refine List.map_congr_left fun e _ => ?_
  rw [Function.comp_apply]
  split_ifs <;> rfl

theorem lookup_setEntry {obj : JsonObject} {name : Str} {v : JsonValue}
    (h : JsonObject.lookup obj name = some v) (value : JsonValue) :
    JsonObject.lookup (setEntry obj name value) name = some value := by
  induction obj with
  | nil => contradiction
  | cons e rest ih =>
    obtain ⟨k, w⟩ := e
    rw [lookup_cons] at h
    by_cases hk : k = name
    · rw [setEntry, List.map_cons, if_pos hk, lookup_cons, if_pos hk]
    · rw [if_neg hk] at h
      rw [setEntry, List.map_cons, if_neg hk, lookup_cons, if_neg hk]
      exact ih h

theorem lookup_setEntry_ne {name other : Str} (hne : other ≠ name) (obj : JsonObject)
    (value : JsonValue) :
    JsonObject.lookup (setEntry obj name value) other = JsonObject.lookup obj other := by
  induction obj with
  | nil => rfl
  | cons e rest ih =>
    obtain ⟨k, w⟩ := e
    rw [setEntry, List.map_cons]
    by_cases hk : k = name
    · have hother : ¬ k = other := fun heq => hne (heq.symm.trans hk)
      rw [if_pos hk, lookup_cons, lookup_cons, if_neg hother, if_neg hother]
      exact ih
    · rw [if_neg hk, lookup_cons, lookup_cons, ← ih, setEntry]

/-- A key that is not there is set nowhere. -/
theorem setEntry_of_lookup_none {obj : JsonObject} {name : Str}
    (h : JsonObject.lookup obj name = none) (value : JsonValue) :
    setEntry obj name value = obj := by
  induction obj with
  | nil => rfl
  | cons e rest ih =>
    obtain ⟨k, w⟩ := e
    rw [lookup_cons] at h
    split_ifs at h with hk
    rw [setEntry, List.map_cons, if_neg hk]
    exact congrArg _ (ih h)

/-- The keys of an object are in order, so each of them is there once. -/
theorem lookup_eq_none_of_lt {obj : JsonObject} {name : Str} (h : ∀ e ∈ obj, name < e.1) :
    JsonObject.lookup obj name = none := by
  rw [JsonObject.lookup, Option.map_eq_none_iff, List.find?_eq_none]
  intro e he heq
  rw [decide_eq_true_eq] at heq
  exact absurd (heq ▸ h e he) (List.lt_irrefl e.1)

theorem setEntry_self {obj : JsonObject} {name : Str} {v : JsonValue}
    (hsorted : obj.Pairwise fun e f => e.1 < f.1) (h : JsonObject.lookup obj name = some v) :
    setEntry obj name v = obj := by
  induction obj with
  | nil => rfl
  | cons e rest ih =>
    obtain ⟨k, w⟩ := e
    obtain ⟨hlt, hrest⟩ := List.pairwise_cons.mp hsorted
    rw [lookup_cons] at h
    by_cases hk : k = name
    · rw [if_pos hk, Option.some.injEq] at h
      subst hk h
      rw [setEntry, List.map_cons, if_pos rfl]
      exact congrArg _ (setEntry_of_lookup_none (lookup_eq_none_of_lt hlt) w)
    · rw [if_neg hk] at h
      rw [setEntry, List.map_cons, if_neg hk]
      exact congrArg _ (ih hrest h)

end JsonObject

namespace JsonValue

/-! ### The loop over the entries -/

theorem replaceEntries_absent {entries : JsonObject} {name : Str}
    (h : JsonObject.lookup entries name = none) (keys : List Str) (value : JsonValue)
    (ret : Bool) : replaceEntries entries name keys value ret = (ret, entries) := by
  induction entries with
  | nil => rw [replaceEntries]
  | cons e rest ih =>
    obtain ⟨k, v⟩ := e
    rw [JsonObject.lookup_cons] at h
    split_ifs at h with hk
    rw [replaceEntries, if_neg hk, ih h]

/-- The entry under the key is replaced, or replaced in. -/
theorem replaceEntries_lookup {entries : JsonObject} {name : Str} {v : JsonValue}
    (hsorted : entries.Pairwise fun e f => e.1 < f.1)
    (h : JsonObject.lookup entries name = some v) (keys : List Str) (value : JsonValue)
    (ret : Bool) {r : Bool × JsonValue}
    (hr : r = if keys = [] then (true, value) else v.replaceValue (join keys (str ":")) value) :
    replaceEntries entries name keys value ret =
      (r.1, JsonObject.setEntry entries name r.2) := by
  induction entries generalizing ret with
  | nil => contradiction
  | cons e rest ih =>
    obtain ⟨k, w⟩ := e
    obtain ⟨hlt, hrest⟩ := List.pairwise_cons.mp hsorted
    rw [JsonObject.lookup_cons] at h
    by_cases hk : k = name
    · rw [if_pos hk, Option.some.injEq] at h
      subst hk h
      have hnone : JsonObject.lookup rest k = none := JsonObject.lookup_eq_none_of_lt hlt
      have hset : JsonObject.setEntry ((k, w) :: rest) k r.2 = (k, r.2) :: rest := by
        rw [JsonObject.setEntry, List.map_cons, if_pos rfl]
        exact congrArg _ (JsonObject.setEntry_of_lookup_none hnone r.2)
      rw [replaceEntries, if_pos rfl, ← hr, hset]
      dsimp only
      rw [replaceEntries_absent hnone]
    · rw [if_neg hk] at h
      have hset : JsonObject.setEntry ((k, w) :: rest) name r.2 =
          (k, w) :: JsonObject.setEntry rest name r.2 := by
        rw [JsonObject.setEntry, List.map_cons, if_neg hk, JsonObject.setEntry]
      rw [replaceEntries, if_neg hk, ih hrest h ret, hset]

/-! ### Down the path -/

/-- The keys of an object, by which it is known to be the same one after a replacement in it. -/
def objectKeys : JsonValue → Option (List Str)
  | object entries => some (JsonObject.getKeys entries)
  | _ => none

/-- The object with its child under a key replaced. -/
theorem replacedAt_entry {entries : JsonObject} {name : Str} {keys : List Str}
    {value c c' : JsonValue} (hc : JsonObject.lookup entries name = some c)
    (h : ReplacedAt member objectKeys value keys c c') :
    ReplacedAt member objectKeys value (name :: keys) (.object entries)
      (.object (JsonObject.setEntry entries name c')) :=
  .under (congrArg some (JsonObject.getKeys_setEntry entries name c')) hc
    (JsonObject.lookup_setEntry hc c')
    (fun _ hne => JsonObject.lookup_setEntry_ne hne entries c') h

/-- A tree of objects is replaced in where the path leads, and left alone when it leads
nowhere. -/
theorem ObjectTree.replaceValue_cases {json : JsonValue} (h : ObjectTree json) {keys : List Str}
    {keyPath : Str} (hsplit : split keyPath (str ":") = keys) (value : JsonValue) :
    (∃ json', json.replaceValue keyPath value = (true, json') ∧
        ReplacedAt JsonValue.member objectKeys value keys json json') ∨
      follow JsonValue.member keys json = none ∧
        json.replaceValue keyPath value = (false, json) := by
  induction keys generalizing json keyPath with
  | nil => exact absurd hsplit (split_ne_nil (by decide) keyPath)
  | cons name keys ih =>
    cases h with
    | integer | double | boolean | string | null => exact .inr ⟨rfl, rfl⟩
    | @object entries hsorted hkeys htrees =>
      have hreplace : (JsonValue.object entries).replaceValue keyPath value =
          ((replaceEntries entries name keys value false).1,
            .object (replaceEntries entries name keys value false).2) := by
        rw [replaceValue, hsplit]
        rfl
      rw [hreplace]
      cases hc : JsonObject.lookup entries name with
      | none =>
        have hmember : JsonValue.member (.object entries) name = none := hc
        rw [replaceEntries_absent hc, follow_cons, hmember]
        exact .inr ⟨rfl, rfl⟩
      | some c =>
        have hmember : JsonValue.member (.object entries) name = some c := hc
        rw [follow_cons, hmember, Option.bind_some]
        by_cases hnil : keys = []
        · subst hnil
          rw [replaceEntries_lookup hsorted hc [] value false rfl]
          exact .inl ⟨_, rfl, replacedAt_entry hc (.here c)⟩
        · rw [replaceEntries_lookup hsorted hc keys value false rfl, if_neg hnil]
          have htree : ObjectTree c := htrees _ (lookup_mem hc)
          rcases ih htree (split_rest hsplit hnil) with ⟨c', hc', hat⟩ | ⟨hnone, hc'⟩
          · rw [hc']
            exact .inl ⟨_, rfl, replacedAt_entry hc hat⟩
          · rw [hc', JsonObject.setEntry_self hsorted hc]
            exact .inr ⟨hnone, rfl⟩

/-- Only the place at the end of the path is another one: what lies neither on the way to it nor
below it is the same, and the objects on the way have the keys that they had. -/
structure ReplacedOnly (before after : JsonValue) (keyPath : Str) (value : JsonValue) : Prop where
  atPath : after.atPath keyPath = some value
  elsewhere : ∀ path, ¬ split keyPath (str ":") <+: path → ¬ path <+: split keyPath (str ":") →
    follow member path after = follow member path before
  onTheWay : ∀ path, path <+: split keyPath (str ":") → path ≠ split keyPath (str ":") →
    ∃ entries entries', follow member path before = some (.object entries) ∧
      follow member path after = some (.object entries') ∧
      JsonObject.getKeys entries' = JsonObject.getKeys entries
  findValue : after.findValue keyPath = value

theorem ReplacedOnly.of_replacedAt {before after : JsonValue} {keyPath : Str}
    {value : JsonValue}
    (h : ReplacedAt member objectKeys value (split keyPath (str ":")) before after) :
    ReplacedOnly before after keyPath value where
  atPath := h.follow_eq
  elsewhere := fun _ hle hge => h.frame hle hge
  onTheWay := by
    intro path hpre hne
    obtain ⟨u, u', key, hu, hu', hkeys, hchild⟩ := h.on_the_way hpre hne
    cases u with
    | object entries =>
      cases u' with
      | object entries' => exact ⟨entries, entries', hu, hu', Option.some.inj hkeys⟩
      | _ => contradiction
    | _ => contradiction
  findValue :=
    findKeys_follow h.follow_eq fun hnil => absurd hnil (split_ne_nil (by decide) keyPath)

end JsonValue

/-- `ReplaceValue` of a tree of objects changes the place that the path leads to and nothing
else, and nothing at all when a key of the path is missing. -/
theorem JsonObject.replaceValue_exact {entries : JsonObject}
    (h : JsonValue.ObjectTree (.object entries)) (keyPath : Str) (value : JsonValue) :
    ((entries.replaceValue keyPath value).1 = true ↔
        ((JsonValue.object entries).atPath keyPath).isSome) ∧
      (((JsonValue.object entries).atPath keyPath).isSome →
        JsonValue.ReplacedOnly (.object entries) (.object (entries.replaceValue keyPath value).2)
          keyPath value) ∧
      ((JsonValue.object entries).atPath keyPath = none →
        (entries.replaceValue keyPath value).2 = entries) := by
  have hreplace : (JsonValue.object entries).replaceValue keyPath value =
      ((entries.replaceValue keyPath value).1,
        .object (entries.replaceValue keyPath value).2) := by
    rw [JsonValue.replaceValue, JsonObject.replaceValue]
  rcases h.replaceValue_cases rfl value with ⟨json', hjson', hat⟩ | ⟨hnone, hjson⟩
  · rw [hreplace, Prod.mk.injEq] at hjson'
    obtain ⟨htrue, rfl⟩ := hjson'
    have hsome : ((JsonValue.object entries).atPath keyPath).isSome := hat.follow_isSome
    refine ⟨by simp [htrue, hsome], fun _ => .of_replacedAt hat, fun hnone => ?_⟩
    rw [hnone] at hsome
    contradiction
  · rw [hreplace, Prod.mk.injEq, JsonValue.object.injEq] at hjson
    have hpath : (JsonValue.object entries).atPath keyPath = none := hnone
    exact ⟨by simp [hjson.1, hpath], by simp [hpath], fun _ => hjson.2⟩

/-- `{"a":{"b":1},"c":true}` with the value of `a:b` replaced. -/
theorem JsonObject.replaceValue_exact_nested :
    JsonValue.ReplacedOnly
      (.object [(str "a", .object [(str "b", .integer 1)]), (str "c", .boolean true)])
      (.object [(str "a", .object [(str "b", .null)]), (str "c", .boolean true)])
      (str "a:b") .null := by
  have hinner : JsonValue.ObjectTree (.object [(str "b", .integer 1)]) :=
    .object (by decide) (by decide) (by simpa using .integer 1)
  have hroot : JsonValue.ObjectTree
      (.object [(str "a", .object [(str "b", .integer 1)]), (str "c", .boolean true)]) :=
    .object (by decide) (by decide) (by simpa using ⟨hinner, .boolean true⟩)
  exact (JsonObject.replaceValue_exact hroot (str "a:b") .null).2.1 rfl

end TarotClub
