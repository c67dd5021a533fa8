import TarotClub.LobbyTables

namespace TarotClub

open Machine

namespace Lobby

/-- The two stores agree: who holds a seat is in the list with that table and place, and who is in
the list at a table that exists has the place of a seat there. -/
structure Consistent (tables : List PlayingTable) (ids : UniqueId) (users : Users) : Prop where
  listed : TablesListed tables ids
  distinct : users.getAll.Nodup
  seated : ∀ t ∈ tables, ∀ i < t.nbPlayers, ∀ u ≠ invalidUid,
    (t.mPlayers i).uuid = u ↔ users.location u = some (t.mId, .assign i)
  live : ∀ u id p, users.location u = some (id, p) →
    id = 0 ∨ id = lobbyUid ∨ ∃ t ∈ tables, t.mId = id ∧ p.value < t.nbPlayers ∧ u ≠ invalidUid

section Tables

variable {tables : List PlayingTable} {ids : UniqueId} {users : Users}

/-- Tables that change without a change of their seats. -/
theorem Consistent.updateTables (h : Consistent tables ids users) {id : ℕ}
    {change : PlayingTable → PlayingTable} (hid : ∀ t, (change t).mId = t.mId)
    (hnb : ∀ t, (change t).nbPlayers = t.nbPlayers)
    {users' : Users} (hdistinct : users'.getAll.Nodup)
    (hseated : ∀ t ∈ tables, ∀ i < t.nbPlayers, ∀ u ≠ invalidUid,
      ((if t.mId = id then change t else t).mPlayers i).uuid = u ↔
        users'.location u = some (t.mId, .assign i))
    (hlive : ∀ u id p, users'.location u = some (id, p) →
      id = 0 ∨ id = lobbyUid ∨ ∃ t ∈ tables, t.mId = id ∧ p.value < t.nbPlayers ∧ u ≠ invalidUid) :
    Consistent (updateTables id change tables) ids users' := by
  have hkeep : ∀ t, (if t.mId = id then change t else t).mId = t.mId ∧
      (if t.mId = id then change t else t).nbPlayers = t.nbPlayers := by
    intro t
    split_ifs
    · exact ⟨hid t, hnb t⟩
    · exact ⟨rfl, rfl⟩
  refine ⟨h.listed.of_outline (outline_updateTables hid hnb tables), hdistinct, ?_, ?_⟩
  · intro t' ht' i hi u hu
    obtain ⟨t, ht, rfl⟩ := mem_updateTables.mp ht'
    rw [(hkeep t).2] at hi
    rw [(hkeep t).1]
    exact hseated t ht i hi u hu
  · intro u id' p hloc
    rcases hlive u id' p hloc with h0 | h1 | ⟨t, ht, hmId, hp⟩
    · exact .inl h0
    · exact .inr (.inl h1)
    · refine .inr (.inr ⟨_, mem_updateTables.mpr ⟨t, ht, rfl⟩, ?_, ?_⟩)
      · rw [(hkeep t).1, hmId]
      · rw [(hkeep t).2]
        exact hp

theorem Consistent.executeRequest (h : Consistent tables ids users) (dealer : Dealer)
    (id srcUuid : ℕ) (json : JsonValue) :
    Consistent (Lobby.updateTables id (fun t => (t.executeRequest dealer srcUuid json).table) tables)
      ids users := by
  refine h.updateTables (fun t => t.executeRequest_mId dealer srcUuid json)
    (fun t => t.executeRequest_nbPlayers dealer srcUuid json) h.distinct ?_ h.live
  intro t ht i hi u hu
  rw [← h.seated t ht i hi u hu]
  split_ifs
  · rw [t.executeRequest_uuid]
  · rfl

/-- Only a user's own seat is named in his entry. -/
theorem Consistent.not_seated (h : Consistent tables ids users) {u : ℕ} (hu : u ≠ invalidUid)
    (hloc : ∀ p, users.location u = some p → p.1 = 0 ∨ p.1 = lobbyUid) :
    ∀ t ∈ tables, ∀ i < t.nbPlayers, (t.mPlayers i).uuid ≠ u := by
  intro t ht i hi he
  have hid := hloc _ ((h.seated t ht i hi u hu).mp he)
  have := (h.listed.id_range ht).1
  simp only [lobbyUid] at hid
  omega

/-- Who leaves a table is at no table any more. -/
theorem Consistent.leave (h : Consistent tables ids users) (u : ℕ) :
    Consistent (Lobby.updateTables (users.getPlayerTable u) (·.removePlayer u) tables) ids
      (users.setPlayingTable u 0 .nowhere) := by
  refine h.updateTables (fun t => t.removePlayer_mId u) (fun t => t.removePlayer_nbPlayers u) ?_ ?_ ?_
  · rw [Users.getAll_setPlayingTable]
    exact h.distinct
  · intro t ht i hi v hv
    rw [Users.location_setPlayingTable]
    have hseat := h.seated t ht i hi
    have hid := (h.listed.id_range ht).1
    by_cases hvu : v = u
    · subst hvu
      rw [if_pos rfl]
      refine iff_of_false ?_ ?_
      · split_ifs with hmId
        · rw [PlayingTable.removePlayer_uuid (h.listed.seats t ht) v hi]
          split_ifs with he
          · exact Ne.symm hv
          · exact he
        · intro he
          have hloc := (hseat v hv).mp he
          rw [Users.getPlayerTable_eq, hloc] at hmId
          exact hmId rfl
      · intro hloc
        obtain ⟨-, -, he⟩ := Option.map_eq_some_iff.mp hloc
        rw [Prod.mk.injEq] at he
        omega
    · rw [if_neg hvu, ← hseat v hv]
      split_ifs with hmId
      · rw [PlayingTable.removePlayer_uuid (h.listed.seats t ht) u hi]
        split_ifs with he
        · exact iff_of_false (Ne.symm hv) (fun h' => hvu (h'.symm.trans he))
        · rfl
      · rfl
  · intro v id p hloc
    rw [Users.location_setPlayingTable] at hloc
    split_ifs at hloc
    · obtain ⟨-, -, he⟩ := Option.map_eq_some_iff.mp hloc
      exact .inl (Prod.mk.injEq _ _ _ _ ▸ he).1.symm
    · exact h.live v id p hloc

/-- A user of the lobby who gets a seat is in the list with that seat. -/
theorem Consistent.join (h : Consistent tables ids users) {t : PlayingTable} (ht : t ∈ tables)
    {u : ℕ} (hu : ∃ p, users.location u = some (lobbyUid, p))
    (hvalid : (t.addPlayer u).1.isValid = true) :
    Consistent (Lobby.updateTables t.mId (fun t => (t.addPlayer u).2) tables) ids
      (users.setPlayingTable u t.mId (t.addPlayer u).1) := by
  obtain ⟨p, hloc⟩ := hu
  rcases PlayingTable.addPlayer_cases (h.listed.seats t ht) u with ⟨hnot, -⟩ |
    ⟨k, hk, hfree, hu0, hplace, -, -, hseats⟩
  · rw [hnot] at hvalid
    exact absurd hvalid Bool.false_ne_true
  have hnone := h.not_seated hu0 fun q hq => by
    rw [hloc, Option.some.injEq] at hq
    exact .inr (hq ▸ rfl)
  refine h.updateTables (fun t => t.addPlayer_mId u) (fun t => t.addPlayer_nbPlayers u) ?_ ?_ ?_
  · rw [Users.getAll_setPlayingTable]
    exact h.distinct
  · intro t' ht' i hi v hv
    rw [Users.location_setPlayingTable, hloc, Option.map_some]
    have hseat := h.seated t' ht' i hi v hv
    by_cases hid : t'.mId = t.mId
    · obtain rfl : t' = t := List.inj_on_of_nodup_map h.listed.nodup ht' ht hid
      rw [if_pos rfl, hseats]
      by_cases hvu : v = u
      · subst hvu
        rw [if_pos rfl, hplace, Option.some.injEq, Prod.mk.injEq]
        by_cases hik : i = k
        · rw [hik, if_pos rfl]
          exact iff_of_true rfl ⟨rfl, rfl⟩
        · rw [if_neg hik]
          refine iff_of_false (hnone t' ht' i hi) fun he => hik ?_
          have hv := congrArg Place.value he.2
          have h5 := h.listed.seats t' ht'
          rwa [Place.value_assign (by omega), Place.value_assign (by omega), eq_comm] at hv
      · rw [if_neg hvu, ← hseat]
        split_ifs with hik
        · subst hik
          exact iff_of_false (Ne.symm hvu) fun he => hv (he.symm.trans hfree)
        · rfl
    · rw [if_neg hid]
      by_cases hvu : v = u
      · subst hvu
        rw [if_pos rfl]
        refine iff_of_false (hnone t' ht' i hi) fun he => hid ?_
        rw [Option.some.injEq, Prod.mk.injEq] at he
        exact he.1.symm
      · rw [if_neg hvu, hseat]
  · intro v id q hq
    rw [Users.location_setPlayingTable] at hq
    split_ifs at hq with hvu
    · rw [hloc, Option.map_some, Option.some.injEq, Prod.mk.injEq] at hq
      refine .inr (.inr ⟨t, ht, hq.1, ?_, hvu ▸ hu0⟩)
      rw [← hq.2, hplace, Place.value_assign (by have := h.listed.seats t ht; omega)]
      exact hk
    · exact h.live v id q hq

/-- Changes of the list that say nothing about seats. -/
theorem Consistent.changeUsers (h : Consistent tables ids users) {users' : Users}
    (hdistinct : users'.getAll.Nodup)
    (hloc : ∀ u, users'.location u = users.location u ∨
      (∀ t ∈ tables, ∀ i < t.nbPlayers, u ≠ invalidUid → (t.mPlayers i).uuid ≠ u) ∧
        ∀ p, users'.location u = some p → p.1 = 0 ∨ p.1 = lobbyUid) :
    Consistent tables ids users' := by
  refine ⟨h.listed, hdistinct, fun t ht i hi u hu => ?_,
    fun u id p hp => ?_⟩
  · rcases hloc u with he | ⟨hnone, hlobby⟩
    · rw [he]
      exact h.seated t ht i hi u hu
    · refine iff_of_false (hnone t ht i hi hu) fun he => ?_
      have hid := hlobby _ he
      have hmin := (h.listed.id_range ht).1
      simp only [lobbyUid] at hid
      omega
  · rcases hloc u with he | ⟨-, hlobby⟩
    · exact h.live u id p (he ▸ hp)
    · rcases hlobby _ hp with h0 | h1
      · exact .inl h0
      · exact .inr (.inl h1)

/-- A new user enters the lobby. -/
theorem Consistent.addEntry (h : Consistent tables ids users) {e : Entry}
    (hlobby : e.player.tableId = lobbyUid) :
    Consistent tables ids (users.addEntry e).2 := by
  unfold Users.addEntry
  split_ifs with hhere hnick
  · exact h
  · exact h
  have hnone : users.location e.player.uuid = none := by
    rw [Users.isHere_iff, Option.not_isSome_iff_eq_none] at hhere
    exact hhere
  have hnew : e.player.uuid ∉ users.getAll := by
    rw [Users.location, Option.map_eq_none_iff] at hnone
    exact Users.find_eq_none.mp hnone
  refine h.changeUsers ?_ fun u => ?_
  · rw [Users.getAll, List.map_append]
    exact List.nodup_append_comm.mp (List.nodup_cons.mpr ⟨hnew, h.distinct⟩)
  · by_cases hu : e.player.uuid = u
    · subst hu
      refine .inr ⟨fun t ht i hi hu0 => ?_, fun p hp => ?_⟩
      · exact h.not_seated hu0 (fun p hp => by rw [hnone] at hp; cases hp) t ht i hi
      · rw [Users.location_append, hnone, if_pos rfl, Option.none_or, Option.some.injEq] at hp
        exact .inr (hp ▸ hlobby)
    · refine .inl ?_
      rw [Users.location_append, if_neg hu, Option.or_none]

/-- A user who is at no table can be taken from the list. -/
theorem Consistent.remove (h : Consistent tables ids users) {u : ℕ}
    (hloc : ∀ p, users.location u = some p → p.1 = 0 ∨ p.1 = lobbyUid) :
    Consistent tables ids (users.remove u) := by
  refine h.changeUsers (h.distinct.sublist (Users.getAll_remove_sublist u users)) fun v => ?_
  rw [Users.location_remove h.distinct]
  by_cases hvu : v = u
  · subst hvu
    refine .inr ⟨fun t ht i hi hv0 => h.not_seated hv0 hloc t ht i hi, fun p hp => ?_⟩
    rw [if_pos rfl] at hp
    cases hp
  · exact .inl (if_neg hvu)

theorem Consistent.createTable (h : Consistent tables ids users) {t : PlayingTable}
    (hid : t.mId = ids.takeId.1) (hpos : 0 < ids.takeId.1) (hnb : t.nbPlayers ≤ 5)
    (hfree : ∀ i < t.nbPlayers, (t.mPlayers i).uuid = invalidUid) :
    Consistent (tables ++ [t]) ids.takeId.2 users := by
  obtain ⟨hfresh, hlisted⟩ := h.listed.createTable hid hpos hnb
  refine ⟨hlisted, h.distinct, ?_, ?_⟩
  · intro t' ht' i hi u hu
    rcases List.mem_append.mp ht' with ht' | ht'
    · exact h.seated t' ht' i hi u hu
    · have hmin := (hlisted.id_range (List.mem_append_right _ ht')).1
      rw [List.mem_singleton.mp ht'] at hi hmin ⊢
      rw [hfree i hi]
      refine iff_of_false (Ne.symm hu) fun hloc => ?_
      rcases h.live _ _ _ hloc with h0 | h1 | ⟨t', ht', he, -⟩
      · omega
      · simp only [lobbyUid] at h1
        omega
      · exact hfresh t' ht' he
  · intro u id p hloc
    rcases h.live u id p hloc with h0 | h1 | ⟨t', ht', he⟩
    · exact .inl h0
    · exact .inr (.inl h1)
    · exact .inr (.inr ⟨t', List.mem_append_left _ ht', he⟩)

/-- A table that no entry refers to can go. -/
theorem Consistent.destroyTable (h : Consistent tables ids users) {id : ℕ}
    (hnone : ∀ t ∈ tables, t.mId = id → ∀ u p, users.location u ≠ some (id, p)) :
    Consistent (tables.eraseP fun t => t.mId = id) (ids.releaseId id) users := by
  refine ⟨h.listed.destroyTable id, h.distinct, fun t ht => ?_, fun u id' p hloc => ?_⟩
  · exact h.seated t ((mem_eraseP_mId h.listed.nodup).mp ht).1
  · rcases h.live u id' p hloc with h0 | h1 | ⟨t, ht, he, hp⟩
    · exact .inl h0
    · exact .inr (.inl h1)
    · refine .inr (.inr ⟨t, (mem_eraseP_mId h.listed.nodup).mpr ⟨ht, fun hid => ?_⟩, he, hp⟩)
      rw [← he, hid] at hloc
      exact hnone t ht hid u p hloc

end Tables

/-! The steps of the lobby. -/

/-- The state of a lobby whose two stores agree. -/
def SeatsConsistent (l : Lobby) : Prop := Consistent l.mTables l.mTableIds l.mUsers

theorem SeatsConsistent.listed {l : Lobby} (h : l.SeatsConsistent) :
    TablesListed l.mTables l.mTableIds := Consistent.listed h

theorem SeatsConsistent.event {l : Lobby} (h : l.SeatsConsistent) (uuid : ℕ) (event : Str) :
    (l.sendPlayerEvent uuid event).1.SeatsConsistent := by
  unfold SeatsConsistent
  rw [sendPlayerEvent_mTables, sendPlayerEvent_mTableIds, sendPlayerEvent_mUsers]
  exact h

/-- A player leaves the table that the list has him at. -/
theorem SeatsConsistent.removePlayerFromTable {l : Lobby} (h : l.SeatsConsistent) (u : ℕ) :
    (l.removePlayerFromTable u (l.mUsers.getPlayerTable u)).1.SeatsConsistent := by
  unfold Lobby.removePlayerFromTable
  refine SeatsConsistent.event ?_ _ _
  split_ifs with hhere
  · exact Consistent.leave h u
  · have hnone : l.mUsers.location u = none := by
      rw [Users.isHere_iff, Option.not_isSome_iff_eq_none] at hhere
      exact hhere
    have hid : l.mUsers.getPlayerTable u = lobbyUid := by
      rw [Users.getPlayerTable_eq, hnone]
      rfl
    have hno : l.mUsers.getPlayerTable u ∉ l.mTables.map (·.mId) := by
      rintro hmem
      obtain ⟨t, ht, he⟩ := List.mem_map.mp hmem
      have := (h.listed.id_range ht).1
      simp only [hid, lobbyUid] at he
      omega
    unfold SeatsConsistent
    rw [updateTables_of_not_mem _ hno]
    exact h

theorem removePlayerFromTable_location {l : Lobby} (u tableId : ℕ) {p : ℕ × Place}
    (hp : (l.removePlayerFromTable u tableId).1.mUsers.location u = some p) : p.1 = 0 := by
  unfold Lobby.removePlayerFromTable at hp
  rw [sendPlayerEvent_mUsers] at hp
  split_ifs at hp with hhere
  · rw [Users.location_setPlayingTable, if_pos rfl] at hp
    obtain ⟨-, -, rfl⟩ := Option.map_eq_some_iff.mp hp
    rfl
  · rw [Users.isHere_iff, Option.not_isSome_iff_eq_none] at hhere
    rw [show l.mUsers.location u = some p from hp] at hhere
    cases hhere

theorem SeatsConsistent.removeUser {l : Lobby} (h : l.SeatsConsistent) (u : ℕ) :
    (l.removeUser u).SeatsConsistent := by
  simp only [Lobby.removeUser, SeatsConsistent]
  split_ifs with hid
  · refine Consistent.remove (h.removePlayerFromTable u) fun p hp => .inl ?_
    exact removePlayerFromTable_location u _ hp
  · refine Consistent.remove h fun p hp => .inr ?_
    rw [not_not, Users.getPlayerTable_eq, hp] at hid
    exact hid

theorem SeatsConsistent.replyLogin {l : Lobby} (h : l.SeatsConsistent) (srcUuid : ℕ)
    (json : JsonValue) : (l.replyLogin srcUuid json).lobby.SeatsConsistent := by
  have hadd := Consistent.addEntry h (e := loginEntry srcUuid json) rfl
  simp only [Lobby.replyLogin]
  split_ifs
  · refine SeatsConsistent.event ?_ _ _
    exact hadd
  · exact hadd
  · exact h

theorem SeatsConsistent.requestQuitTable {l : Lobby} (h : l.SeatsConsistent) (srcUuid : ℕ)
    (json : JsonValue) : (l.requestQuitTable srcUuid json).lobby.SeatsConsistent := by
  simp only [Lobby.requestQuitTable]
  split_ifs with hid
  · rw [← hid]
    exact h.removePlayerFromTable srcUuid
  · exact h

theorem SeatsConsistent.requestChangeNickname {l : Lobby} (h : l.SeatsConsistent) (srcUuid : ℕ)
    (json : JsonValue) : (l.requestChangeNickname srcUuid json).lobby.SeatsConsistent := by
  have hchange : ∀ nickname, Consistent l.mTables l.mTableIds
      (l.mUsers.changeNickName srcUuid nickname).2 := fun nickname =>
    Consistent.changeUsers h (by rw [Users.getAll_changeNickName]; exact Consistent.distinct h)
      fun u => .inl (Users.location_changeNickName l.mUsers srcUuid u nickname)
  simp only [Lobby.requestChangeNickname]
  split_ifs
  · refine SeatsConsistent.event ?_ _ _
    exact hchange _
  · exact hchange _

theorem SeatsConsistent.requestJoinTable {l : Lobby} (h : l.SeatsConsistent) {srcUuid : ℕ}
    {json : JsonValue}
    (hstranger : ∀ t, l.findTable (json.findValue (str "table_id")).getUInt32 = some t →
      t.hasFreeSeat = true → srcUuid ≠ invalidUid → l.mUsers.isHere srcUuid = true) :
    (l.requestJoinTable srcUuid json).lobby.SeatsConsistent := by
  simp only [Lobby.requestJoinTable]
  generalize (json.findValue (str "table_id")).getUInt32 = tableId at hstranger ⊢
  split_ifs with hlobby
  case neg => exact h
  cases ht : l.findTable tableId with
  | none => exact h
  | some t =>
    have hmem : t ∈ l.mTables := List.mem_of_find?_eq_some ht
    have hid : t.mId = tableId := by simpa using List.find?_some ht
    subst hid
    have hupdate := updateFirstTable_eq t.mId (fun t => (t.addPlayer srcUuid).2)
      h.listed.nodup
    rcases PlayingTable.addPlayer_cases (h.listed.seats t hmem) srcUuid with
      ⟨hnot, hsame⟩ | ⟨i, hi, hfree, hsrc, -, hvalid, -⟩
    · have hkeep : updateTables t.mId (fun t => (t.addPlayer srcUuid).2) l.mTables = l.mTables := by
        refine (List.map_congr_left fun t' ht' => ?_).trans (List.map_id _)
        split_ifs with hid
        · rw [List.inj_on_of_nodup_map h.listed.nodup ht' hmem hid]
          exact hsame
        · rfl
      simp only [hnot, Bool.false_eq_true, if_false, hupdate, hkeep]
      exact h
    · have hhere := hstranger t ht ((t.hasFreeSeat_iff).mpr ⟨i, hi, hfree⟩) hsrc
      simp only [hvalid, if_true]
      refine SeatsConsistent.event ?_ _ _
      unfold SeatsConsistent
      simp only [hupdate]
      refine Consistent.join h hmem ?_ hvalid
      rw [Users.isHere_iff, Option.isSome_iff_exists] at hhere
      obtain ⟨⟨id, p⟩, hloc⟩ := hhere
      rw [Users.getPlayerTable_eq, hloc] at hlobby
      exact ⟨p, hlobby ▸ hloc⟩

/-- The request asks for a table that has a free seat. -/
def asksForFreeSeat (l : Lobby) (json : JsonValue) : Bool :=
  (json.findValue (str "cmd")).getString = str "RequestJoinTable" &&
    (l.findTable (json.findValue (str "table_id")).getUInt32).any PlayingTable.hasFreeSeat

/-- Somebody who is not logged in asks for a table that has a free seat. -/
def StrangerJoins (l : Lobby) (req : Request) : Prop :=
  req.destUuid = lobbyUid ∧ req.srcUuid ≠ invalidUid ∧ l.mUsers.isHere req.srcUuid = false ∧
    (JsonReader.parseString req.arg).any l.asksForFreeSeat = true

instance (l : Lobby) (req : Request) : Decidable (l.StrangerJoins req) :=
  inferInstanceAs (Decidable (_ ∧ _ ∧ _ ∧ _))

/-- The calls that the two stores survive: seats are asked for by users who are logged in, and a
table is destroyed when no user is at it. -/
def Orderly (l : Lobby) : LobbyCall → Prop
  | .deliver _ req => ¬ l.StrangerJoins req
  | .destroyTable id =>
    ∀ t ∈ l.mTables, t.mId = id → ∀ e ∈ l.mUsers, e.player.tableId ≠ id
  | _ => True

instance (l : Lobby) : ∀ c, Decidable (l.Orderly c)
  | .deliver _ req => inferInstanceAs (Decidable ¬ l.StrangerJoins req)
  | .destroyTable id => inferInstanceAs
      (Decidable (∀ t ∈ l.mTables, t.mId = id → ∀ e ∈ l.mUsers, e.player.tableId ≠ id))
  | .addUser _ | .removeUser _ | .createTable _ _ _ => .isTrue trivial

theorem SeatsConsistent.deliver {l : Lobby} (h : l.SeatsConsistent) (dealer : Dealer)
    {req : Request} (hreq : ¬ l.StrangerJoins req) :
    (l.deliver dealer req).lobby.SeatsConsistent := by
  unfold Lobby.deliver
  cases hparse : JsonReader.parseString req.arg with
  | none => exact h
  | some json =>
    dsimp only
    split_ifs with htable hdest
    · unfold deliverToTable
      split_ifs
      · exact Consistent.executeRequest h dealer _ _ json
      · exact h
    · simp only [deliverToLobby]
      split_ifs with h1 h2 hcmd
      · exact h
      · exact h.replyLogin _ json
      · refine h.requestJoinTable fun t ht hfree hsrc => ?_
        by_contra hhere
        refine hreq ⟨hdest, hsrc, eq_false_of_ne_true hhere, ?_⟩
        rw [hparse, Option.any_some, asksForFreeSeat, ht, Option.any_some, hfree, hcmd]
        decide
      · exact h.requestQuitTable _ json
      · exact h.requestChangeNickname _ json
      · exact h
    · exact h

theorem SeatsConsistent.apply {l : Lobby} (h : l.SeatsConsistent) {c : LobbyCall}
    (hc : l.Orderly c) : (l.apply c).SeatsConsistent := by
  cases c with
  | addUser peer => exact h
  | removeUser uuid => exact h.removeUser uuid
  | createTable tableName game randomPlace =>
    simp only [Lobby.apply, Lobby.createTable]
    split_ifs with hpos
    · obtain ⟨hid, hnb, hfree⟩ := newTable_seats l l.mTableIds.takeId.1 tableName game randomPlace
      exact Consistent.createTable h hid hpos (by omega) (by rwa [hnb])
    · rcases l.mTableIds.takeId_cases with ⟨-, hsame⟩ | ⟨⟨hmin, -⟩, -⟩
      · unfold SeatsConsistent
        simp only [hsame]
        exact h
      · have := h.listed.range.1
        omega
  | destroyTable id =>
    refine Consistent.destroyTable h fun t ht hid u p hloc => ?_
    obtain ⟨e, he, -, hat, -⟩ := (Users.location_eq_some (Consistent.distinct h)).mp hloc
    exact hc t ht hid e he hat
  | deliver dealer req => exact h.deliver dealer hc

/-- What the list of the users says about the seats of the tables, and the seats about the list. -/
structure SeatsAgree (l : Lobby) : Prop where
  seated : ∀ t ∈ l.mTables, ∀ i < t.nbPlayers, ∀ u ≠ invalidUid,
    (t.mPlayers i).uuid = u ↔
      ∃ e ∈ l.mUsers, e.player.uuid = u ∧ e.player.tableId = t.mId ∧ e.player.place = .assign i
  alone : ∀ t ∈ l.mTables, ∀ t' ∈ l.mTables, ∀ i < t.nbPlayers, ∀ j < t'.nbPlayers,
    (t.mPlayers i).uuid ≠ invalidUid → (t.mPlayers i).uuid = (t'.mPlayers j).uuid →
      t = t' ∧ i = j
  existing : ∀ e ∈ l.mUsers, e.player.tableId = invalidUid ∨ e.player.tableId = lobbyUid ∨
    ∃ t ∈ l.mTables, t.mId = e.player.tableId ∧ e.player.place.value < t.nbPlayers ∧
      (t.mPlayers e.player.place.value).uuid = e.player.uuid

theorem SeatsConsistent.agree {l : Lobby} (h : l.SeatsConsistent) : l.SeatsAgree where
  seated := fun t ht i hi u hu => by
    rw [Consistent.seated h t ht i hi u hu, Users.location_eq_some (Consistent.distinct h)]
  alone := fun t ht t' ht' i hi j hj hne heq => by
    have h1 := (Consistent.seated h t ht i hi _ hne).mp rfl
    have h2 := (Consistent.seated h t' ht' j hj _ hne).mp heq.symm
    rw [h1, Option.some.injEq, Prod.mk.injEq] at h2
    have hti := h.listed.seats t ht
    have htj := h.listed.seats t' ht'
    have hplace := congrArg Place.value h2.2
    rw [Place.value_assign (by omega), Place.value_assign (by omega)] at hplace
    exact ⟨List.inj_on_of_nodup_map h.listed.nodup ht ht' h2.1, hplace⟩
  existing := fun e he => by
    have hloc := (Users.location_eq_some (Consistent.distinct h)).mpr ⟨e, he, rfl, rfl, rfl⟩
    rcases Consistent.live h _ _ _ hloc with h0 | h1 | ⟨t, ht, hid, hp, hu⟩
    · exact .inl h0
    · exact .inr (.inl h1)
    · refine .inr (.inr ⟨t, ht, hid, hp, ?_⟩)
      rw [Consistent.seated h t ht _ hp _ hu, hid, Place.assign_value]
      exact hloc

/-- In every state of every run of orderly calls of a lobby, the seats and the list agree. -/
theorem seats_agree (adminMode : Bool) {calls : List LobbyCall}
    (horderly : Guarded apply Orderly { mAdminMode := adminMode } calls) :
    (run apply ({ mAdminMode := adminMode } : Lobby) calls).SeatsAgree := by
  refine (horderly.invariant SeatsConsistent (fun l c hl hc => hl.apply hc) ?_).agree
  refine ⟨tablesListed_nil ⟨rfl, rfl⟩ rfl, List.nodup_nil, ?_, ?_⟩
  · exact fun t ht => absurd ht List.not_mem_nil
  · intro u id p hloc
    cases hloc

/-- A user logs in and takes a seat; the second table goes. -/
def joinCalls (dealer : Dealer) : List LobbyCall :=
  [.createTable (str "Local game") {} .south, .createTable (str "Second") {} .south, .addUser 1,
    .deliver dealer (PlayerContext.toLobby 10 (PlayerContext.buildReplyLogin {})),
    .deliver dealer (PlayerContext.toLobby 10 (PlayerContext.buildJoinTable 1000)),
    .destroyTable 1001]

theorem seats_agree_join :
    let l := run apply ({} : Lobby) (joinCalls plainDealer)
    l.SeatsAgree ∧ l.mTables.map (fun t => (t.mId, (t.mPlayers 0).uuid)) = [(1000, 10)] :=
  ⟨seats_agree false (by decide +kernel), by decide +kernel⟩

/-- A peer that is not logged in has taken a seat: no entry tells who sits there. -/
theorem stranger_seated :
    let l := run apply ({} : Lobby) [.createTable (str "Local game") {} .south, .addUser 1,
      .deliver plainDealer (PlayerContext.toLobby 10 (PlayerContext.buildJoinTable 1000))]
    ¬ l.SeatsAgree := by
  intro l h
  have hseat : l.mTables.map (fun t => (t.mId, t.nbPlayers, (t.mPlayers 0).uuid)) =
      [(1000, 4, 10)] := by decide +kernel
  have husers : l.mUsers = [] := by decide +kernel
  obtain ⟨t, ht, he⟩ : ∃ t ∈ l.mTables, (t.mId, t.nbPlayers, (t.mPlayers 0).uuid) = (1000, 4, 10) :=
    List.mem_map.mp (hseat ▸ List.mem_singleton_self _)
  simp only [Prod.mk.injEq] at he
  obtain ⟨e, hmem, -⟩ := (h.seated t ht 0 (by omega) 10 (by decide)).mp he.2.2
  rw [husers] at hmem
  cases hmem

end Lobby

end TarotClub
