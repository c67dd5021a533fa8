import Mathlib.Data.List.Nodup
import TarotClub.ClientContext
import TarotClub.Machine

namespace TarotClub.Users

def clear (_users : Users) : Users := []

def usernames (users : Users) : List Str := users.map fun e => e.identity.username

/-- What the owner of the list can do to it. -/
inductive Operation where
  | addEntry (entry : Entry)
  | changeNickName (uuid : ℕ) (nickname : Str)
  | remove (uuid : ℕ)
  | setPlayingTable (uuid tableId : ℕ) (place : Place)
  | updateLocation (uuid tableId : ℕ) (p : Place)
  | clear

def operate (users : Users) : Operation → Users
  | .addEntry entry => (users.addEntry entry).2
  | .changeNickName uuid nickname => (users.changeNickName uuid nickname).2
  | .remove uuid => users.remove uuid
  | .setPlayingTable uuid tableId place => users.setPlayingTable uuid tableId place
  | .updateLocation uuid tableId p => users.updateLocation uuid tableId p
  | .clear => users.clear

/-- Both keys are distinct. -/
structure Distinct (users : Users) : Prop where
  uuids : users.getAll.Nodup
  names : users.usernames.Nodup

theorem getAll_append (users : Users) (entry : Entry) :
    getAll (users ++ [entry]) = users.getAll ++ [entry.player.uuid] := List.map_append

theorem usernames_append (users : Users) (entry : Entry) :
    usernames (users ++ [entry]) = users.usernames ++ [entry.identity.username] :=
  List.map_append

theorem isHere_eq_true {users : Users} {uuid : ℕ} :
    users.isHere uuid = true ↔ uuid ∈ users.getAll := by
  rw [isHere, Option.isSome_iff_ne_none, ne_eq, find_eq_none, not_not]

theorem checkNickName_eq_true {users : Users} {uuid : ℕ} {nickname : Str} :
    users.checkNickName uuid nickname = true ↔
      ∃ e ∈ users, e.player.uuid ≠ uuid ∧ e.identity.username = nickname := by
  simp [checkNickName]

/-- Where the uuids are distinct, a change of the first entry of a user is a change of its
only one. -/
theorem update_eq_map {users : Users} (h : users.getAll.Nodup) (uuid : ℕ)
    (change : Entry → Entry) :
    users.update uuid change =
      users.map fun e => if e.player.uuid = uuid then change e else e := by
  induction users with
  | nil => rfl
  | cons e users ih =>
    obtain ⟨hnew, h⟩ := List.nodup_cons.mp h
    rw [update, List.map_cons]
    by_cases he : e.player.uuid = uuid
    · have hrest : users.map (fun e => if e.player.uuid = uuid then change e else e) = users := by
        conv_rhs => rw [← List.map_id users]
        apply List.map_congr_left
        intro e' he'
        have hne : e'.player.uuid ≠ uuid := by
          intro heq
          exact hnew (List.mem_map.mpr ⟨e', he', heq.trans he.symm⟩)
        exact if_neg hne
      rw [if_pos he, if_pos he, hrest]
    · rw [if_neg he, if_neg he, ih h]

theorem usernames_update (change : Entry → Entry)
    (hchange : ∀ e, (change e).identity.username = e.identity.username) (uuid : ℕ)
    (users : Users) : (users.update uuid change).usernames = users.usernames := by
  induction users with
  | nil => rfl
  | cons e users ih =>
    rw [update]
    split_ifs
    · simp only [usernames, List.map_cons, hchange]
    · rw [usernames, List.map_cons, ← usernames, ih]
      rfl

theorem usernames_remove_sublist (uuid : ℕ) (users : Users) :
    (users.remove uuid).usernames.Sublist users.usernames := by
  induction users with
  | nil => exact List.Sublist.slnil
  | cons e users ih =>
    rw [remove]
    split_ifs
    · have h : usernames (users.map Entry.assign) = usernames users := by
        simp [usernames, Entry.assign, Identity.assign]
      rw [h]
      exact List.sublist_cons_self _ _
    · exact ih.cons_cons _

namespace Distinct

theorem empty : Distinct [] := ⟨List.nodup_nil, List.nodup_nil⟩

theorem moved {users : Users} (h : users.Distinct) (uuid tableId : ℕ) (place : Place) :
    Distinct (users.update uuid (Entry.moveTo tableId place)) where
  uuids := by
    rw [getAll_update (Entry.moveTo tableId place) fun _ => rfl]
    exact h.uuids
  names := by
    rw [usernames_update (Entry.moveTo tableId place) fun _ => rfl]
    exact h.names

theorem removed {users : Users} (h : users.Distinct) (uuid : ℕ) :
    Distinct (users.remove uuid) where
  uuids := h.uuids.sublist (getAll_remove_sublist uuid users)
  names := h.names.sublist (usernames_remove_sublist uuid users)

/-- A new entry whose uuid and nickname nobody has. -/
theorem added {users : Users} (h : users.Distinct) {entry : Entry}
    (huuid : users.isHere entry.player.uuid = false)
    (hname : users.checkNickName entry.player.uuid entry.identity.username = false) :
    Distinct (users ++ [entry]) := by
  have hnew : entry.player.uuid ∉ users.getAll := by
    rw [← isHere_eq_true, huuid]
    exact Bool.false_ne_true
  constructor
  · rw [getAll_append]
    exact List.Nodup.append h.uuids (List.nodup_singleton _)
      (List.disjoint_singleton.mpr hnew)
  · rw [usernames_append]
    apply List.Nodup.append h.names (List.nodup_singleton _)
    rw [List.disjoint_singleton]
    intro hmem
    obtain ⟨e, he, hsame⟩ := List.mem_map.mp hmem
    -- the check exempts the entry's own uuid, which the list does not hold
    have hne : e.player.uuid ≠ entry.player.uuid := by
      intro heq
      exact hnew (List.mem_map.mpr ⟨e, he, heq⟩)
    have htaken := checkNickName_eq_true.mpr ⟨e, he, hne, hsame⟩
    rw [hname] at htaken
    exact Bool.false_ne_true htaken

/-- A nickname that no other user has. -/
theorem renamed {users : Users} (h : users.Distinct) {uuid : ℕ} {nickname : Str}
    (hname : users.checkNickName uuid nickname = false) :
    Distinct (users.update uuid (Entry.rename nickname)) := by
  have hfree : ∀ e ∈ users, e.player.uuid ≠ uuid → e.identity.username ≠ nickname := by
    intro e he hne hsame
    have htaken := checkNickName_eq_true.mpr ⟨e, he, hne, hsame⟩
    rw [hname] at htaken
    exact Bool.false_ne_true htaken
  constructor
  · rw [getAll_update (Entry.rename nickname) fun _ => rfl]
    exact h.uuids
  · have hnodup : users.Nodup := List.Nodup.of_map _ h.uuids
    rw [usernames, update_eq_map h.uuids, List.map_map]
    apply hnodup.map_on
    intro e he e' he' heq
    simp only [Function.comp_apply] at heq
    by_cases hu : e.player.uuid = uuid <;> by_cases hu' : e'.player.uuid = uuid
    · exact List.inj_on_of_nodup_map h.uuids he he' (hu.trans hu'.symm)
    · rw [if_pos hu, if_neg hu'] at heq
      exact absurd heq.symm (hfree e' he' hu')
    · rw [if_neg hu, if_pos hu'] at heq
      exact absurd heq (hfree e he hu)
    · rw [if_neg hu, if_neg hu'] at heq
      exact List.inj_on_of_nodup_map h.names he he' heq

/-- Every operation keeps both keys distinct. -/
theorem operate {users : Users} (h : users.Distinct) (op : Operation) :
    Distinct (users.operate op) := by
  cases op with
  | addEntry entry =>
    show Distinct (users.addEntry entry).2
    unfold addEntry
    split_ifs with huuid hname
    · exact h
    · exact h
    · exact h.added (Bool.eq_false_iff.mpr huuid) (Bool.eq_false_iff.mpr hname)
  | changeNickName uuid nickname =>
    show Distinct (users.changeNickName uuid nickname).2
    unfold changeNickName
    split_ifs with hname
    · exact h
    · exact h.renamed (Bool.eq_false_iff.mpr hname)
  | remove uuid => exact h.removed uuid
  | setPlayingTable uuid tableId place => exact h.moved uuid tableId place
  | updateLocation uuid tableId p => exact h.moved uuid tableId p
  | clear => exact empty

end Distinct

/-- What is kept in the list that any operations on the empty list leave. -/
theorem run_distinct (ops : List Operation) : Distinct (Machine.run operate [] ops) :=
  Machine.run_invariant Distinct (fun _ op h => h.operate op) Distinct.empty ops

theorem addEntry_iff (users : Users) (entry : Entry) :
    ((users.addEntry entry).1 = true ↔ (users.addEntry entry).2 = users ++ [entry]) ∧
      ((users.addEntry entry).1 = false → (users.addEntry entry).2 = users) := by
  have hne : users ≠ users ++ [entry] := by simp
  unfold addEntry
  split_ifs <;> simp [hne]

/-- The nickname is changed in the one entry of the user. -/
theorem changeNickName_iff {users : Users} (h : users.Distinct) (uuid : ℕ) (nickname : Str) :
    ((users.changeNickName uuid nickname).1 = true ↔ uuid ∈ users.getAll ∧
        (users.changeNickName uuid nickname).2 =
          users.map fun e => if e.player.uuid = uuid then e.rename nickname else e) ∧
      ((users.changeNickName uuid nickname).1 = false →
        (users.changeNickName uuid nickname).2 = users) := by
  unfold changeNickName
  by_cases hname : users.checkNickName uuid nickname = true
  · rw [if_pos hname]
    refine ⟨⟨fun h => absurd h Bool.false_ne_true, ?_⟩, fun _ => rfl⟩
    rintro ⟨hmem, hsame⟩
    dsimp only at hsame
    obtain ⟨e, he, hne, htaken⟩ := checkNickName_eq_true.mp hname
    obtain ⟨e', he', hu⟩ := List.mem_map.mp hmem
    have hown : e'.identity.username = nickname := by
      have hren : e'.rename nickname ∈ users := by
        rw [hsame]
        exact List.mem_map.mpr ⟨e', he', if_pos hu⟩
      have hfound := find_of_mem h.uuids hren
      rw [show (e'.rename nickname).player = e'.player from rfl, find_of_mem h.uuids he'] at hfound
      rw [Option.some.inj hfound]
      rfl
    have hee := List.inj_on_of_nodup_map h.names he he' (htaken.trans hown.symm)
    exact absurd (hee ▸ hu) hne
  · rw [if_neg hname, update_eq_map h.uuids, isHere_eq_true]
    refine ⟨⟨fun hmem => ⟨hmem, rfl⟩, And.left⟩, fun habsent => ?_⟩
    dsimp only at habsent
    have hnone : uuid ∉ users.getAll := by
      rw [← isHere_eq_true, habsent]
      exact Bool.false_ne_true
    conv_rhs => rw [← List.map_id users]
    apply List.map_congr_left
    intro e he
    exact if_neg fun heq => hnone (List.mem_map.mpr ⟨e, he, heq⟩)

/-- Whatever has been done to the list since it was empty, the uuids and the nicknames in it are
distinct, and an entry is added and a nickname changed exactly where the operation says so. -/
theorem unique_keys (ops : List Operation) :
    let users := Machine.run operate [] ops
    users.getAll.Nodup ∧ users.usernames.Nodup ∧
      (∀ entry : Entry,
        ((users.addEntry entry).1 = true ↔ (users.addEntry entry).2 = users ++ [entry]) ∧
          ((users.addEntry entry).1 = false → (users.addEntry entry).2 = users)) ∧
      ∀ (uuid : ℕ) (nickname : Str),
        ((users.changeNickName uuid nickname).1 = true ↔ uuid ∈ users.getAll ∧
            (users.changeNickName uuid nickname).2 =
              users.map fun e => if e.player.uuid = uuid then e.rename nickname else e) ∧
          ((users.changeNickName uuid nickname).1 = false →
            (users.changeNickName uuid nickname).2 = users) := by
  have h := run_distinct ops
  exact ⟨h.uuids, h.names, addEntry_iff _, changeNickName_iff h⟩

end TarotClub.Users
