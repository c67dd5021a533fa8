import TarotClub.LobbyTables

namespace TarotClub

open Machine

namespace Users

theorem location_addEntry {users : Users} {u : ℕ} {p : ℕ × Place}
    (hu : users.location u = some p) (entry : Entry) :
    (users.addEntry entry).2.location u = some p := by
  unfold addEntry
  split_ifs
  · exact hu
  · exact hu
  · rw [location_append, hu, Option.some_or]

end Users

namespace Lobby

/-- A user whose entry names the table, and who has the seat there that it names. -/
def SeatedAt (l : Lobby) (u : ℕ) (t : PlayingTable) : Prop :=
  t ∈ l.mTables ∧ ∃ i < t.nbPlayers, (t.mPlayers i).uuid = u ∧
    l.mUsers.location u = some (t.mId, .assign i)

/-- The request asks the lobby, for the user, for something that has to do with a table. -/
def Asks (req : Request) (u : ℕ) (command : Str) (tableId : ℕ) : Prop :=
  req.srcUuid = u ∧ req.destUuid = lobbyUid ∧ ∃ json, JsonReader.parseString req.arg = some json ∧
    (json.findValue (str "cmd")).getString = command ∧
    (json.findValue (str "table_id")).getUInt32 = tableId

/-- Wherever there is a free seat, the user gets it when he asks, and is told so. -/
def Rejoins (dealer : Dealer) (l : Lobby) (u : ℕ) : Prop :=
  ∀ t ∈ l.mTables, t.hasFreeSeat = true → ∀ req, Asks req u (str "RequestJoinTable") t.mId →
    (∃ t' ∈ (l.deliver dealer req).lobby.mTables, (l.deliver dealer req).lobby.SeatedAt u t' ∧
      t'.mId = t.mId) ∧
    ∃ reply ∈ (l.deliver dealer req).out, reply.dest = [u] ∧
      reply.data.getKey (str "cmd") = .string (str "ReplyJoinTable")

/-- The user has an entry that says that he is at table zero. -/
def LeftTable (l : Lobby) (u : ℕ) : Prop := l.mUsers.location u = some (0, .nowhere)

/-- Who leaves a table is left at table zero. -/
theorem leftTable_removePlayerFromTable {l : Lobby} {u : ℕ} (hu : l.mUsers.isHere u = true)
    (tableId : ℕ) : (l.removePlayerFromTable u tableId).1.LeftTable u := by
  obtain ⟨p, hp⟩ := Option.isSome_iff_exists.mp ((l.mUsers.isHere_iff u).mp hu)
  rw [LeftTable, removePlayerFromTable_mUsers, if_pos hu, Users.location_setPlayingTable,
    if_pos rfl, hp]
  rfl

theorem LeftTable.removePlayerFromTable {l : Lobby} {u : ℕ} (hu : l.LeftTable u)
    (uuid tableId : ℕ) : (l.removePlayerFromTable uuid tableId).1.LeftTable u := by
  rw [LeftTable, removePlayerFromTable_mUsers]
  split_ifs
  · rw [Users.location_setPlayingTable]
    split_ifs with huv
    · rw [← huv, hu]
      rfl
    · exact hu
  · exact hu

theorem LeftTable.getPlayerTable {l : Lobby} {u : ℕ} (hu : l.LeftTable u) :
    l.mUsers.getPlayerTable u = 0 := by
  rw [Users.getPlayerTable_eq, hu]
  rfl

theorem LeftTable.event {l : Lobby} {u : ℕ} (hu : l.LeftTable u) (uuid : ℕ) (event : Str) :
    (l.sendPlayerEvent uuid event).1.LeftTable u := by
  rw [LeftTable, sendPlayerEvent_mUsers]
  exact hu

/-- Nobody at table zero is seated. -/
theorem LeftTable.requestJoinTable_eq {l : Lobby} {u : ℕ} (hu : l.LeftTable u)
    (json : JsonValue) : l.requestJoinTable u json = { lobby := l } := by
  simp only [Lobby.requestJoinTable]
  rw [if_neg]
  rw [hu.getPlayerTable]
  decide

theorem LeftTable.requestJoinTable {l : Lobby} {u : ℕ} (hu : l.LeftTable u) (srcUuid : ℕ)
    (json : JsonValue) : (l.requestJoinTable srcUuid json).lobby.LeftTable u := by
  by_cases hsrc : srcUuid = u
  · rw [hsrc, hu.requestJoinTable_eq]
    exact hu
  have hmove : ∀ tableId place,
      (l.mUsers.setPlayingTable srcUuid tableId place).location u = some (0, .nowhere) := by
    intro tableId place
    rw [Users.location_setPlayingTable, if_neg (Ne.symm hsrc)]
    exact hu
  simp only [Lobby.requestJoinTable]
  split_ifs
  · split
    · split_ifs
      · refine LeftTable.event ?_ _ _
        exact hmove _ _
      · exact hu
    · exact hu
  · exact hu

theorem LeftTable.deliver {l : Lobby} {u : ℕ} (hu : l.LeftTable u) (dealer : Dealer)
    (req : Request) : (l.deliver dealer req).lobby.LeftTable u := by
  unfold Lobby.deliver
  cases JsonReader.parseString req.arg with
  | none => exact hu
  | some json =>
    dsimp only
    split_ifs
    · unfold deliverToTable
      split_ifs <;> exact hu
    · simp only [deliverToLobby]
      split_ifs
      · exact hu
      · have hadd : (l.mUsers.addEntry (loginEntry req.srcUuid json)).2.location u =
            some (0, .nowhere) := Users.location_addEntry hu _
        simp only [Lobby.replyLogin]
        split_ifs
        · refine LeftTable.event ?_ _ _
          exact hadd
        · exact hadd
        · exact hu
      · exact hu.requestJoinTable _ json
      · simp only [Lobby.requestQuitTable]
        split_ifs
        · exact hu.removePlayerFromTable _ _
        · exact hu
      · have hnick : ∀ nickname, (l.mUsers.changeNickName req.srcUuid nickname).2.location u =
            some (0, .nowhere) := fun nickname => by
          rw [Users.location_changeNickName]
          exact hu
        simp only [Lobby.requestChangeNickname]
        split_ifs
        · refine LeftTable.event ?_ _ _
          exact hnick _
        · exact hnick _
      · exact hu
    · exact hu

/-- Nothing but the end of his session brings a user back from table zero. -/
theorem LeftTable.apply {l : Lobby} {u : ℕ} (hu : l.LeftTable u) {c : LobbyCall}
    (hc : c ≠ .removeUser u) : (l.apply c).LeftTable u := by
  cases c with
  | addUser peer => exact hu
  | removeUser uuid =>
    have huv : u ≠ uuid := fun h => hc (h ▸ rfl)
    simp only [Lobby.apply, Lobby.removeUser, LeftTable]
    rw [Users.location_remove_of_ne huv]
    split_ifs
    · exact hu.removePlayerFromTable _ _
    · exact hu
  | createTable tableName game randomPlace =>
    simp only [Lobby.apply, Lobby.createTable]
    split_ifs <;> exact hu
  | destroyTable id => exact hu
  | deliver dealer req => exact hu.deliver dealer req

/-- The lobby hears what is addressed to it, since no table has its identifier. -/
theorem deliver_of_asks {l : Lobby} (h : TablesListed l.mTables l.mTableIds) (dealer : Dealer)
    {req : Request} {u : ℕ} {command : Str} {tableId : ℕ} (hreq : Asks req u command tableId) :
    ∃ json : JsonValue, (json.findValue (str "cmd")).getString = command ∧
      (json.findValue (str "table_id")).getUInt32 = tableId ∧
      l.deliver dealer req = l.deliverToLobby u json := by
  obtain ⟨rfl, hdest, json, hparse, hcmd, hid⟩ := hreq
  refine ⟨json, hcmd, hid, ?_⟩
  have hfree : l.mTableIds.isTaken lobbyUid = false := by
    rw [← Bool.not_eq_true, UniqueId.isTaken_iff]
    intro hmem
    exact absurd (h.used _ hmem).1 (by decide)
  rw [Lobby.deliver, hparse, hdest]
  simp only [hfree, Bool.false_eq_true, if_false, if_true]

/-- The requests to join that the player's side of the program builds, for every table there is. -/
theorem asks_buildJoinTable (id : ℕ) (hid : 1000 ≤ id ∧ id ≤ 1050) (u : ℕ) :
    Asks (PlayerContext.toLobby u (PlayerContext.buildJoinTable id)) u
      (str "RequestJoinTable") id := by
  have hall : ∀ id ∈ List.range' 1000 51,
      (JsonReader.parseString (PlayerContext.toLobby 0 (PlayerContext.buildJoinTable id)).arg).any
        (fun json => (json.findValue (str "cmd")).getString = str "RequestJoinTable" &&
          (json.findValue (str "table_id")).getUInt32 = id) = true := by
    decide +kernel
  have harg := hall id (List.mem_range'_1.mpr (by omega))
  rw [Option.any_eq_true] at harg
  obtain ⟨json, hparse, hjson⟩ := harg
  rw [Bool.and_eq_true, decide_eq_true_iff, decide_eq_true_iff] at hjson
  exact ⟨rfl, rfl, json, hparse, hjson⟩

/-- What the lobby makes of a request to quit the table that the user is at. -/
theorem deliver_quit {l : Lobby} (h : TablesListed l.mTables l.mTableIds) (dealer : Dealer)
    {q : Request} {u : ℕ} {t : PlayingTable} (hseat : l.SeatedAt u t)
    (hq : Asks q u (str "RequestQuitTable") t.mId) :
    (l.deliver dealer q).lobby = (l.removePlayerFromTable u t.mId).1 := by
  obtain ⟨-, i, -, -, hloc⟩ := hseat
  obtain ⟨json, hcmd, hid, hdeliver⟩ := deliver_of_asks h dealer hq
  have htable : l.mUsers.getPlayerTable u = t.mId := by
    rw [Users.getPlayerTable_eq, hloc]
    rfl
  rw [hdeliver, deliverToLobby, hcmd]
  rw [if_neg (by decide), if_neg (by decide), if_neg (by decide), if_pos rfl, requestQuitTable,
    hid, if_pos htable]

/-- After he has quit a table, no request to join one has any effect for a user until his session
ends, though the seat that he left is free: in no case does quitting leave a way back. -/
theorem quit_is_final (adminMode : Bool) (calls : List LobbyCall) {u : ℕ} {t : PlayingTable}
    (hseat : (run apply ({ mAdminMode := adminMode } : Lobby) calls).SeatedAt u t)
    (dealer : Dealer) {q : Request} (hq : Asks q u (str "RequestQuitTable") t.mId) :
    let left := ((run apply ({ mAdminMode := adminMode } : Lobby) calls).deliver dealer q).lobby
    (∀ later, .removeUser u ∉ later → ∀ dealer req id, Asks req u (str "RequestJoinTable") id →
      (run apply left later).deliver dealer req = { lobby := run apply left later }) ∧
    ∀ dealer, ¬ left.Rejoins dealer u := by
  have hlisted := tables_listed adminMode calls
  generalize run apply ({ mAdminMode := adminMode } : Lobby) calls = l at hseat hlisted
  intro left
  have hleft : left = (l.removePlayerFromTable u t.mId).1 := deliver_quit hlisted dealer hseat hq
  have hlistedLeft : TablesListed left.mTables left.mTableIds :=
    tablesListed_apply hlisted (.deliver dealer q)
  obtain ⟨ht, i, hi, hu, hloc⟩ := hseat
  have hzero : left.LeftTable u := by
    rw [hleft]
    refine leftTable_removePlayerFromTable ?_ _
    rw [Users.isHere_iff, hloc]
    rfl
  have hnone : ∀ later, .removeUser u ∉ later → ∀ dealer req id,
      Asks req u (str "RequestJoinTable") id →
        (run apply left later).deliver dealer req = { lobby := run apply left later } := by
    intro later hlater dealer req id hreq
    have hstep : (run apply left later).LeftTable u ∧
        TablesListed (run apply left later).mTables (run apply left later).mTableIds := by
      refine (guarded_of_forall apply (· ≠ .removeUser u) left later fun c hc he =>
        hlater (he ▸ hc)).invariant (fun l => l.LeftTable u ∧ TablesListed l.mTables l.mTableIds)
        (fun l c hl hc => ⟨hl.1.apply hc, tablesListed_apply hl.2 c⟩) ⟨hzero, hlistedLeft⟩
    obtain ⟨json, hcmd, -, hdeliver⟩ := deliver_of_asks hstep.2 dealer hreq
    rw [hdeliver, deliverToLobby, hcmd]
    rw [if_neg (by decide), if_neg (by decide), if_pos rfl, hstep.1.requestJoinTable_eq]
  refine ⟨hnone, fun dealer hrejoins => ?_⟩
  have hmem : t.removePlayer u ∈ left.mTables := by
    rw [hleft, removePlayerFromTable_mTables]
    exact mem_updateTables.mpr ⟨t, ht, if_pos rfl⟩
  have hfree : (t.removePlayer u).hasFreeSeat = true := by
    refine (PlayingTable.hasFreeSeat_iff _).mpr ⟨i, ?_, ?_⟩
    · rw [PlayingTable.removePlayer_nbPlayers]
      exact hi
    · rw [PlayingTable.removePlayer_uuid (hlisted.seats t ht) u hi, if_pos hu]
  have hask := asks_buildJoinTable _ (hlistedLeft.id_range hmem) u
  obtain ⟨-, reply, hreply, -⟩ := hrejoins _ hmem hfree _ hask
  have hout := congrArg Delivered.out (hnone [] List.not_mem_nil dealer _ _ hask)
  rw [run_nil] at hout
  rw [hout] at hreply
  cases hreply

/-- A user logs in and takes a seat at the only table. -/
def seatedCalls : List LobbyCall :=
  [.createTable (str "Local game") {} .south, .addUser 1,
    .deliver plainDealer (PlayerContext.toLobby 10 (PlayerContext.buildReplyLogin {})),
    .deliver plainDealer (PlayerContext.toLobby 10 (PlayerContext.buildJoinTable 1000))]

def quitRequest : Request := PlayerContext.toLobby 10 (PlayerContext.buildQuitTable 1000)

theorem seatedAt_seatedCalls :
    ∃ t, (run apply ({} : Lobby) seatedCalls).SeatedAt 10 t ∧
      Asks quitRequest 10 (str "RequestQuitTable") t.mId := by
  have htables : ((run apply ({} : Lobby) seatedCalls).mTables.any fun t =>
      t.mId = 1000 && t.nbPlayers = 4 && (t.mPlayers 0).uuid = 10) = true := by decide +kernel
  have hloc : (run apply ({} : Lobby) seatedCalls).mUsers.location 10 =
      some (1000, .assign 0) := by decide +kernel
  have hparse : ((JsonReader.parseString quitRequest.arg).any fun json =>
      (json.findValue (str "cmd")).getString = str "RequestQuitTable" &&
        (json.findValue (str "table_id")).getUInt32 = 1000) = true := by decide +kernel
  generalize run apply ({} : Lobby) seatedCalls = l at htables hloc ⊢
  obtain ⟨t, ht, h⟩ := List.any_eq_true.mp htables
  rw [Option.any_eq_true] at hparse
  obtain ⟨json, hjson, h'⟩ := hparse
  simp only [Bool.and_eq_true, decide_eq_true_iff] at h h'
  obtain ⟨⟨hid, hnb⟩, hu⟩ := h
  exact ⟨t, ⟨ht, 0, by omega, hu, hid ▸ hloc⟩, rfl, rfl, json, hjson, h'.1, h'.2.trans hid.symm⟩

theorem quit_is_final_seated :
    ¬ ((run apply ({} : Lobby) seatedCalls).deliver plainDealer quitRequest).lobby.Rejoins
      plainDealer 10 := by
  obtain ⟨t, hseat, hq⟩ := seatedAt_seatedCalls
  exact (quit_is_final false seatedCalls hseat plainDealer hq).2 plainDealer

/-- The user who has left the only table asks for his seat again, and nothing comes of it. -/
theorem quit_not_reversible :
    ¬ ∀ t, (run apply ({} : Lobby) seatedCalls).SeatedAt 10 t →
      Asks quitRequest 10 (str "RequestQuitTable") t.mId →
        ((run apply ({} : Lobby) seatedCalls).deliver plainDealer quitRequest).lobby.Rejoins
          plainDealer 10 := by
  intro h
  obtain ⟨t, hseat, hq⟩ := seatedAt_seatedCalls
  have hrejoins := h t hseat hq
  have htables : (((run apply ({} : Lobby) seatedCalls).deliver plainDealer
      quitRequest).lobby.mTables.any fun t => t.mId = 1000 && t.hasFreeSeat) = true := by
    decide +kernel
  have hout : (((run apply ({} : Lobby) seatedCalls).deliver plainDealer
      quitRequest).lobby.deliver plainDealer
        (PlayerContext.toLobby 10 (PlayerContext.buildJoinTable 1000))).out.isEmpty = true := by
    decide +kernel
  generalize ((run apply ({} : Lobby) seatedCalls).deliver plainDealer quitRequest).lobby = left
    at hrejoins htables hout
  obtain ⟨t', ht', h'⟩ := List.any_eq_true.mp htables
  rw [Bool.and_eq_true, decide_eq_true_iff] at h'
  have hid : 1000 ≤ t'.mId ∧ t'.mId ≤ 1050 := by omega
  have hask := asks_buildJoinTable _ hid 10
  obtain ⟨-, reply, hreply, -⟩ := hrejoins t' ht' h'.2 _ hask
  rw [h'.1, List.isEmpty_iff.mp hout] at hreply
  cases hreply

end Lobby

end TarotClub
