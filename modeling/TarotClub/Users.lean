import TarotClub.Network
import TarotClub.UniqueId

namespace TarotClub

/-- Reserved identifier: the lobby itself. -/
def lobbyUid : ℕ := 1

inductive Gender where
  | invalid
  | male
  | female
  | robot
  | dummy
  deriving DecidableEq

namespace Gender

def toString : Gender → Str
  | invalid => str "Invalid"
  | male => str "Male"
  | female => str "Female"
  | robot => str "Robot"
  | dummy => str "Dummy"

/-- Unknown texts give the invalid gender. -/
def ofString (txt : Str) : Gender :=
  if txt = str "Male" then male
  else if txt = str "Female" then female
  else if txt = str "Robot" then robot
  else if txt = str "Dummy" then dummy
  else invalid

end Gender

structure Identity where
  username : Str := str "John Doe"
  avatar : Str := []
  gender : Gender := .invalid
  token : Str := []
  deriving DecidableEq

/-- `operator=`: what is stored as the avatar is the user name. -/
def Identity.assign (other : Identity) : Identity := { other with avatar := other.username }

/-- `FromJson` for an identity that has just been made. -/
def Identity.fromJson (obj : JsonObject) : Identity where
  username := (obj.getKey (str "nickname")).getString
  avatar := (obj.getKey (str "avatar")).getString
  gender := Gender.ofString (obj.getKey (str "gender")).getString

def Identity.toJson (ident : Identity) (obj : JsonObject) : JsonObject :=
  ((obj.addValue (str "nickname") (.string ident.username)).addValue
    (str "avatar") (.string ident.avatar)).addValue (str "gender") (.string ident.gender.toString)

structure Player where
  uuid : ℕ := invalidUid
  tableId : ℕ := invalidUid
  place : Place := .nowhere
  deriving DecidableEq

structure Entry where
  player : Player := {}
  identity : Identity := {}
  deriving DecidableEq

/-- The assignment of an entry, member by member. -/
def Entry.assign (other : Entry) : Entry := { other with identity := other.identity.assign }

def Entry.moveTo (tableId : ℕ) (place : Place) (e : Entry) : Entry :=
  { e with player := { e.player with tableId, place } }

def Entry.rename (nickname : Str) (e : Entry) : Entry :=
  { e with identity := { e.identity with username := nickname } }

/-- The connected players. -/
abbrev Users := List Entry

namespace Users

/-- The change of the first entry of a user, as the loops over the list do it. -/
def update (uuid : ℕ) (change : Entry → Entry) : Users → Users
  | [] => []
  | e :: users =>
    if e.player.uuid = uuid then change e :: users else e :: update uuid change users

def find (users : Users) (uuid : ℕ) : Option Entry :=
  users.find? fun e => e.player.uuid = uuid

/-- The table of a user; who is not in the list counts as being in the lobby. -/
def getPlayerTable (users : Users) (uuid : ℕ) : ℕ :=
  ((users.find uuid).map fun e => e.player.tableId).getD lobbyUid

def getEntry (users : Users) (uuid : ℕ) : Option Entry := (users.find uuid).map Entry.assign

def setPlayingTable (users : Users) (uuid tableId : ℕ) (place : Place) : Users :=
  users.update uuid (Entry.moveTo tableId place)

def getAll (users : Users) : List ℕ := users.map fun e => e.player.uuid

/-- The users of a table, or all of them for the lobby. -/
def get (users : Users) (filterId : ℕ) : List Entry :=
  users.filter fun e => e.player.tableId = filterId || filterId = lobbyUid

def isHere (users : Users) (uuid : ℕ) : Bool := (users.find uuid).isSome

/-- Whether another user has this nickname already. -/
def checkNickName (users : Users) (uuid : ℕ) (nickname : Str) : Bool :=
  users.any fun e => e.player.uuid ≠ uuid && e.identity.username = nickname

def changeNickName (users : Users) (uuid : ℕ) (nickname : Str) : Bool × Users :=
  if users.checkNickName uuid nickname then (false, users)
  else (users.isHere uuid, users.update uuid (Entry.rename nickname))

def addEntry (users : Users) (entry : Entry) : Bool × Users :=
  if users.isHere entry.player.uuid then (false, users)
  else if users.checkNickName entry.player.uuid entry.identity.username then (false, users)
  else (true, users ++ [entry])

/-- The entries behind the erased one are moved up by assignment. -/
def remove (uuid : ℕ) : Users → Users
  | [] => []
  | e :: users =>
    if e.player.uuid = uuid then users.map Entry.assign else e :: remove uuid users

/-- Where a user is: the table and the place. -/
def location (users : Users) (uuid : ℕ) : Option (ℕ × Place) :=
  (users.find uuid).map fun e => (e.player.tableId, e.player.place)

theorem find_cons (e : Entry) (users : Users) (uuid : ℕ) :
    find (e :: users) uuid = if e.player.uuid = uuid then some e else users.find uuid := by
  unfold find
  by_cases h : e.player.uuid = uuid <;> simp [h]

theorem find_uuid {users : Users} {uuid : ℕ} {e : Entry} (h : users.find uuid = some e) :
    e ∈ users ∧ e.player.uuid = uuid :=
  ⟨List.mem_of_find?_eq_some h, by simpa using List.find?_some h⟩

theorem getPlayerTable_eq (users : Users) (uuid : ℕ) :
    users.getPlayerTable uuid = ((users.location uuid).map Prod.fst).getD lobbyUid := by
  rw [getPlayerTable, location, Option.map_map]
  rfl

theorem isHere_iff (users : Users) (uuid : ℕ) :
    users.isHere uuid = true ↔ (users.location uuid).isSome = true := by
  rw [isHere, location, Option.isSome_map]

/-- A change that keeps the uuid of an entry changes what is found under that uuid alone. -/
theorem find_update (change : Entry → Entry) {uuid : ℕ}
    (hchange : ∀ e, (change e).player.uuid = e.player.uuid) (users : Users) (v : ℕ) :
    (users.update uuid change).find v =
      if v = uuid then (users.find uuid).map change else users.find v := by
  induction users with
  | nil => split_ifs <;> rfl
  | cons e users ih =>
    by_cases he : e.player.uuid = uuid
    · rw [update, if_pos he, find_cons, find_cons, find_cons, hchange, if_pos he]
      by_cases hv : v = uuid
      · rw [if_pos hv, if_pos (he.trans hv.symm)]
        rfl
      · rw [if_neg hv, if_neg (fun h => hv (h.symm.trans he)),
          if_neg (fun h => hv (h.symm.trans he))]
    · rw [update, if_neg he, find_cons, find_cons, find_cons, ih, if_neg he]
      by_cases hv : v = uuid
      · rw [if_pos hv, if_neg (fun h => he (h.trans hv)), if_pos hv]
      · simp only [if_neg hv]

theorem location_setPlayingTable (users : Users) (uuid tableId v : ℕ) (place : Place) :
    (users.setPlayingTable uuid tableId place).location v =
      if v = uuid then (users.location uuid).map fun _ => (tableId, place)
      else users.location v := by
  rw [location, setPlayingTable, find_update (Entry.moveTo tableId place) fun _ => rfl]
  split_ifs
  · rw [location, Option.map_map, Option.map_map]
    rfl
  · rfl

theorem location_changeNickName (users : Users) (uuid v : ℕ) (nickname : Str) :
    (users.changeNickName uuid nickname).2.location v = users.location v := by
  unfold changeNickName
  split_ifs
  · rfl
  · rw [location, find_update (Entry.rename nickname) fun _ => rfl,
      location]
    split_ifs with hv
    · rw [hv, Option.map_map]
      rfl
    · rfl

theorem location_append (users : Users) (entry : Entry) (v : ℕ) :
    location (users ++ [entry]) v = (users.location v).or
      (if entry.player.uuid = v then some (entry.player.tableId, entry.player.place)
        else none) := by
  rw [location, find, List.find?_append, location, find]
  cases users.find? (fun e => decide (e.player.uuid = v)) with
  | some e => rfl
  | none =>
    rw [Option.none_or, List.find?_cons, List.find?_nil]
    by_cases h : entry.player.uuid = v <;> simp [h]

/-- The uuids are not changed by the assignments of `remove`. -/
theorem location_map_assign (users : Users) (v : ℕ) :
    location (users.map Entry.assign) v = users.location v := by
  induction users with
  | nil => rfl
  | cons e users ih =>
    unfold location at ih ⊢
    rw [List.map_cons, find_cons, find_cons, show e.assign.player = e.player from rfl]
    split_ifs
    · rfl
    · exact ih

theorem find_eq_none {users : Users} {uuid : ℕ} :
    users.find uuid = none ↔ uuid ∉ users.getAll := by
  simp [find, getAll, List.find?_eq_none]

theorem find_of_mem {users : Users} (hnodup : users.getAll.Nodup) {e : Entry} (he : e ∈ users) :
    users.find e.player.uuid = some e := by
  induction users with
  | nil => cases he
  | cons e' users ih =>
    obtain ⟨hnew, hnodup⟩ := List.nodup_cons.mp hnodup
    rw [find_cons]
    rcases List.mem_cons.mp he with rfl | he
    · exact if_pos rfl
    · have hne : e'.player.uuid ≠ e.player.uuid := by
        intro heq
        exact hnew (List.mem_map.mpr ⟨e, he, heq.symm⟩)
      rw [if_neg hne]
      exact ih hnodup he

/-- Where the users are, read off the list. -/
theorem location_eq_some {users : Users} (hnodup : users.getAll.Nodup) {u id : ℕ} {p : Place} :
    users.location u = some (id, p) ↔
      ∃ e ∈ users, e.player.uuid = u ∧ e.player.tableId = id ∧ e.player.place = p := by
  rw [location, Option.map_eq_some_iff]
  constructor
  · rintro ⟨e, he, hloc⟩
    rw [Prod.mk.injEq] at hloc
    exact ⟨e, (find_uuid he).1, (find_uuid he).2, hloc⟩
  · rintro ⟨e, he, rfl, rfl, rfl⟩
    exact ⟨e, find_of_mem hnodup he, rfl⟩

theorem location_remove_of_ne {uuid v : ℕ} (hv : v ≠ uuid) (users : Users) :
    (users.remove uuid).location v = users.location v := by
  induction users with
  | nil => rfl
  | cons e users ih =>
    rw [remove]
    split_ifs with he
    · rw [location_map_assign, location, location, find_cons,
        if_neg fun h => hv (h.symm.trans he)]
    · rw [location, find_cons, location, find_cons]
      split_ifs with hev
      · rfl
      · exact ih

theorem location_remove {users : Users} (hnodup : users.getAll.Nodup) (uuid v : ℕ) :
    (users.remove uuid).location v = if v = uuid then none else users.location v := by
  split_ifs with hv
  swap
  · exact location_remove_of_ne hv users
  subst hv
  induction users with
  | nil => rfl
  | cons e users ih =>
    obtain ⟨hnew, hnodup⟩ := List.nodup_cons.mp hnodup
    rw [remove]
    split_ifs with he
    · rw [location_map_assign, location, ← he, find_eq_none.mpr hnew]
      rfl
    · rw [location, find_cons, if_neg he]
      exact ih hnodup

theorem getAll_update (change : Entry → Entry)
    (hchange : ∀ e, (change e).player.uuid = e.player.uuid) (uuid : ℕ) (users : Users) :
    (users.update uuid change).getAll = users.getAll := by
  induction users with
  | nil => rfl
  | cons e users ih =>
    rw [update]
    split_ifs
    · simp only [getAll, List.map_cons, hchange]
    · rw [getAll, List.map_cons, ← getAll, ih]
      rfl

@[simp] theorem getAll_setPlayingTable (users : Users) (uuid tableId : ℕ) (place : Place) :
    (users.setPlayingTable uuid tableId place).getAll = users.getAll := by
  rw [setPlayingTable, getAll_update (Entry.moveTo tableId place) fun _ => rfl]

@[simp] theorem getAll_changeNickName (users : Users) (uuid : ℕ) (nickname : Str) :
    (users.changeNickName uuid nickname).2.getAll = users.getAll := by
  unfold changeNickName
  split_ifs
  · rfl
  · exact getAll_update (Entry.rename nickname) (fun _ => rfl) uuid users

theorem getAll_remove_sublist (uuid : ℕ) (users : Users) :
    (users.remove uuid).getAll.Sublist users.getAll := by
  induction users with
  | nil => exact List.Sublist.slnil
  | cons e users ih =>
    rw [remove]
    split_ifs
    · have h : getAll (users.map Entry.assign) = getAll users := by
        simp [getAll, Entry.assign]
      rw [h]
      exact List.sublist_cons_self _ _
    · exact ih.cons_cons _

end Users

end TarotClub
