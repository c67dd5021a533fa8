import TarotClub.Users

namespace TarotClub

/-- The avatar is the user name: an assignment loses nothing. -/
def Entry.AvatarIsName (e : Entry) : Prop := e.identity.avatar = e.identity.username

/-- An entry but for its avatar. -/
def Entry.clearAvatar (e : Entry) : Entry := { e with identity := { e.identity with avatar := [] } }

theorem Entry.assign_eq_iff {e : Entry} : e.assign = e ↔ e.AvatarIsName := by
  obtain ⟨player, username, avatar, gender, token⟩ := e
  simp [assign, Identity.assign, AvatarIsName, eq_comm]

@[simp] theorem Entry.clearAvatar_assign (e : Entry) : e.assign.clearAvatar = e.clearAvatar := rfl

namespace Users

/-- `GetEntryByIndex`, with nothing where it answers false. -/
def getEntryByIndex (users : Users) (index : ℕ) : Option Entry :=
  if index < users.length then users[index]?.map Entry.assign else none

/-- The list without the entry of a user. -/
def without (uuid : ℕ) (users : Users) : Users := users.eraseP fun e => e.player.uuid = uuid

/-- The entry of a user and those behind it. -/
def onward (uuid : ℕ) (users : Users) : Users := users.dropWhile fun e => e.player.uuid ≠ uuid

/-- Where the uuids are distinct, the list without a user is that of all the others. -/
theorem without_eq_filter {users : Users} (hnodup : users.getAll.Nodup) (uuid : ℕ) :
    users.without uuid = users.filter fun e => e.player.uuid ≠ uuid := by
  induction users with
  | nil => rfl
  | cons e users ih =>
    obtain ⟨hnew, hnodup⟩ := List.nodup_cons.mp hnodup
    by_cases he : e.player.uuid = uuid
    · have hothers : ∀ e' ∈ users, e'.player.uuid ≠ uuid := by
        intro e' he' heq
        exact hnew (List.mem_map.mpr ⟨e', he', heq.trans he.symm⟩)
      have hkept : users.filter (fun e => e.player.uuid ≠ uuid) = users := by
        apply List.filter_eq_self.mpr
        intro e' he'
        exact decide_eq_true (hothers e' he')
      rw [without, List.eraseP_cons_of_pos (by simpa using he),
        List.filter_cons_of_neg (by simpa using he), hkept]
    · rw [without, List.eraseP_cons_of_neg (by simpa using he), ← without, ih hnodup,
        List.filter_cons_of_pos (by simpa using he)]

theorem map_assign_eq_iff {users : Users} :
    users.map Entry.assign = users ↔ ∀ e ∈ users, e.AvatarIsName := by
  induction users with
  | nil => simp
  | cons e users ih =>
    rw [List.map_cons, List.cons_eq_cons, Entry.assign_eq_iff, ih, List.forall_mem_cons]

/-- An entry that is read is the stored one, and those behind it are when it is removed. -/
theorem remove_and_getEntry_iff (users : Users) (uuid : ℕ) :
    users.remove uuid = users.without uuid ∧ users.getEntry uuid = users.find uuid ↔
      ∀ e ∈ users.onward uuid, e.AvatarIsName := by
  induction users with
  | nil => simp [remove, without, getEntry, find, onward]
  | cons e users ih =>
    rw [remove, getEntry, find_cons, without, onward]
    by_cases he : e.player.uuid = uuid
    · rw [if_pos he, if_pos he, List.eraseP_cons_of_pos (by simpa using he),
        List.dropWhile_cons_of_neg (by simpa using he), map_assign_eq_iff, Option.map_some,
        Option.some_inj, Entry.assign_eq_iff, List.forall_mem_cons, and_comm]
    · rw [if_neg he, if_neg he, List.eraseP_cons_of_neg (by simpa using he),
        List.dropWhile_cons_of_pos (by simpa using he), List.cons_eq_cons, ← without, ← onward,
        ← getEntry, ← ih]
      simp

theorem getEntryByIndex_iff (users : Users) (index : ℕ) :
    users.getEntryByIndex index = users[index]? ↔ ∀ e ∈ users[index]?, e.AvatarIsName := by
  rw [getEntryByIndex]
  split_ifs with hindex
  · rw [List.getElem?_eq_getElem hindex, Option.map_some, Option.some_inj, Entry.assign_eq_iff]
    simp
  · rw [List.getElem?_eq_none (by omega)]
    simp

/-- But for the avatars, removing a user leaves the other entries alone. -/
theorem remove_clearAvatar (users : Users) (uuid : ℕ) :
    (users.remove uuid).map Entry.clearAvatar = (users.without uuid).map Entry.clearAvatar := by
  induction users with
  | nil => rfl
  | cons e users ih =>
    rw [remove, without]
    split_ifs with he
    · rw [List.eraseP_cons_of_pos (by simpa using he), List.map_map]
      rfl
    · rw [List.eraseP_cons_of_neg (by simpa using he), List.map_cons, List.map_cons, ih, without]

/-- Removing a user and reading entries alter nothing exactly when the avatars of the entries that
are assigned are the user names. -/
theorem entries_unaltered_iff (users : Users) (uuid index : ℕ) :
    users.remove uuid = users.without uuid ∧ users.getEntry uuid = users.find uuid ∧
        users.getEntryByIndex index = users[index]? ↔
      (∀ e ∈ users.onward uuid, e.AvatarIsName) ∧ ∀ e ∈ users[index]?, e.AvatarIsName := by
  rw [← and_assoc, remove_and_getEntry_iff, getEntryByIndex_iff]

/-- A user whose avatar is lost when the one in front of him leaves. -/
theorem avatar_lost :
    let first : Entry := { player := { uuid := 10 } }
    let second (avatar : Str) : Entry :=
      { player := { uuid := 11 }, identity := { username := str "Belegar", avatar := avatar } }
    let users : Users := [first, second (str "moi.jpg")]
    users.remove 10 = [second (str "Belegar")] ∧ users.remove 10 ≠ users.without 10 ∧
      users.getEntry 11 ≠ users.find 11 ∧ users.getEntryByIndex 1 ≠ users[1]? := by
  decide

end Users

end TarotClub
