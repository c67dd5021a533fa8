import TarotClub.ClientContext
import TarotClub.PeerMap
import TarotClub.Tournament

namespace TarotClub

open Machine

namespace Users

/-- What is known of a user: his nickname, his table and his place. -/
def summary (users : Users) (uuid : ℕ) : Option (Str × ℕ × Place) :=
  (users.find uuid).map fun e => (e.identity.username, e.player.tableId, e.player.place)

/-- The identifiers and the tables of the list fit in the messages, and no two users have the same
identifier or the same nickname. -/
structure Proper (users : Users) : Prop where
  uuids : users.getAll.Nodup
  names : (users.map fun e => e.identity.username).Nodup
  range : ∀ e ∈ users, e.player.uuid < 2 ^ 32 ∧ e.player.tableId < 2 ^ 32

theorem isHere_eq_false {users : Users} {uuid : ℕ} :
    users.isHere uuid = false ↔ uuid ∉ users.getAll := by
  rw [isHere, ← find_eq_none, Option.isSome_eq_false_iff, Option.isNone_iff_eq_none]

theorem isHere_iff_summary (users : Users) (uuid : ℕ) :
    users.isHere uuid = true ↔ (users.summary uuid).isSome = true := by
  rw [isHere, summary, Option.isSome_map]

theorem summary_eq_none {users : Users} {uuid : ℕ} :
    users.summary uuid = none ↔ uuid ∉ users.getAll := by
  rw [summary, Option.map_eq_none_iff, find_eq_none]

theorem location_eq_summary (users : Users) (uuid : ℕ) :
    users.location uuid = (users.summary uuid).map Prod.snd := by
  rw [location, summary, Option.map_map]
  rfl

theorem summary_setPlayingTable (users : Users) (uuid tableId v : ℕ) (place : Place) :
    (users.setPlayingTable uuid tableId place).summary v =
      if v = uuid then (users.summary uuid).map fun s => (s.1, tableId, place)
      else users.summary v := by
  rw [summary, setPlayingTable, find_update (Entry.moveTo tableId place) fun _ => rfl]
  split_ifs
  · rw [summary, Option.map_map, Option.map_map]
    rfl
  · rfl

theorem summary_rename (users : Users) (uuid v : ℕ) (nickname : Str) :
    (users.update uuid (Entry.rename nickname)).summary v =
      if v = uuid then (users.summary uuid).map fun s => (nickname, s.2) else users.summary v := by
  rw [summary, find_update (Entry.rename nickname) fun _ => rfl]
  split_ifs
  · rw [summary, Option.map_map, Option.map_map]
    rfl
  · rfl

/-- A move is one that shows, unless the user is there already. -/
theorem summary_setPlayingTable_same_iff {users : Users} {uuid : ℕ}
    (hhere : users.isHere uuid = true) (tableId : ℕ) (place : Place) :
    (∀ v, (users.setPlayingTable uuid tableId place).summary v = users.summary v) ↔
      users.location uuid = some (tableId, place) := by
  rw [isHere_iff_summary, Option.isSome_iff_exists] at hhere
  obtain ⟨s, hs⟩ := hhere
  rw [location_eq_summary, hs, Option.map_some, Option.some_inj]
  constructor
  · intro h
    have hmoved := h uuid
    rw [summary_setPlayingTable, if_pos rfl, hs, Option.map_some, Option.some_inj] at hmoved
    exact (congrArg Prod.snd hmoved).symm
  · intro h v
    rw [summary_setPlayingTable]
    split_ifs with hv
    · rw [hv, hs, Option.map_some, ← h]
    · rfl

theorem summary_rename_same_iff {users : Users} {uuid : ℕ} (hhere : users.isHere uuid = true)
    (nickname : Str) :
    (∀ v, (users.update uuid (Entry.rename nickname)).summary v = users.summary v) ↔
      (users.summary uuid).map Prod.fst = some nickname := by
  rw [isHere_iff_summary, Option.isSome_iff_exists] at hhere
  obtain ⟨s, hs⟩ := hhere
  rw [hs, Option.map_some, Option.some_inj]
  constructor
  · intro h
    have hrenamed := h uuid
    rw [summary_rename, if_pos rfl, hs, Option.map_some, Option.some_inj] at hrenamed
    exact (congrArg Prod.fst hrenamed).symm
  · intro h v
    rw [summary_rename]
    split_ifs with hv
    · rw [hv, hs, Option.map_some, ← h]
    · rfl

theorem isHere_congr {users users' : Users} (h : users'.getAll = users.getAll) (uuid : ℕ) :
    users'.isHere uuid = users.isHere uuid := by
  rw [Bool.eq_iff_iff, ← not_iff_not, Bool.not_eq_true, Bool.not_eq_true, isHere_eq_false,
    isHere_eq_false, h]

theorem summary_append (users : Users) (entry : Entry) (v : ℕ) :
    summary (users ++ [entry]) v = (users.summary v).or
      (if entry.player.uuid = v then
        some (entry.identity.username, entry.player.tableId, entry.player.place) else none) := by
  rw [summary, find, List.find?_append, summary, find]
  cases users.find? (fun e => decide (e.player.uuid = v)) with
  | some e => rfl
  | none =>
    rw [Option.none_or, List.find?_cons, List.find?_nil]
    by_cases h : entry.player.uuid = v <;> simp [h]

theorem summary_cons (e : Entry) (users : Users) (v : ℕ) :
    summary (e :: users) v =
      if e.player.uuid = v then some (e.identity.username, e.player.tableId, e.player.place)
      else summary users v := by
  rw [summary, find_cons]
  split_ifs
  · rfl
  · rfl

theorem summary_map_assign (users : Users) (v : ℕ) :
    summary (users.map Entry.assign) v = summary users v := by
  induction users with
  | nil => rfl
  | cons e users ih =>
    rw [List.map_cons, summary_cons, summary_cons, ih]
    rfl

theorem summary_remove {users : Users} (hnodup : users.getAll.Nodup) (uuid v : ℕ) :
    summary (remove uuid users) v = if v = uuid then none else summary users v := by
  induction users with
  | nil =>
    split_ifs
    · rfl
    · rfl
  | cons e users ih =>
    obtain ⟨hnew, hnodup⟩ := List.nodup_cons.mp hnodup
    rw [remove]
    by_cases he : e.player.uuid = uuid
    · rw [if_pos he, summary_map_assign, summary_cons]
      by_cases hv : v = uuid
      · rw [if_pos hv, hv, ← he]
        exact summary_eq_none.mpr hnew
      · rw [if_neg hv, if_neg fun h => hv (h.symm.trans he)]
    · rw [if_neg he, summary_cons, summary_cons, ih hnodup]
      by_cases hv : v = uuid
      · rw [if_pos hv, if_pos hv, if_neg fun h => he (h.trans hv)]
      · rw [if_neg hv, if_neg hv]

theorem addEntry_new {users : Users} {e : Entry} (hhere : users.isHere e.player.uuid = false)
    (hname : users.checkNickName e.player.uuid e.identity.username = false) :
    users.addEntry e = (true, users ++ [e]) := by
  rw [addEntry, hhere, hname, if_neg Bool.false_ne_true, if_neg Bool.false_ne_true]

/-- A user or a nickname that is on the list already is refused. -/
theorem addEntry_refused {users : Users} {e : Entry}
    (h : ¬ (users.isHere e.player.uuid = false ∧
      users.checkNickName e.player.uuid e.identity.username = false)) :
    users.addEntry e = (false, users) := by
  rw [addEntry]
  split_ifs with hhere hname
  · rfl
  · rfl
  · exact absurd ⟨Bool.eq_false_of_not_eq_true hhere, Bool.eq_false_of_not_eq_true hname⟩ h

/-- Who is put on the list one after the other, all of them are on it in the end. -/
theorem foldl_addEntry (es : List Entry) (users : Users) (huuids : (getAll (users ++ es)).Nodup)
    (hnames : ((users ++ es).map fun e => e.identity.username).Nodup) :
    es.foldl (fun users e => (addEntry users e).2) users = users ++ es := by
  induction es generalizing users with
  | nil => rw [List.append_nil, List.foldl_nil]
  | cons e es ih =>
    have hnew : isHere users e.player.uuid = false := by
      rw [isHere_eq_false]
      rw [getAll, List.map_append, List.nodup_append] at huuids
      intro hmem
      exact huuids.2.2 _ hmem _ (List.mem_map_of_mem List.mem_cons_self) rfl
    have hname : checkNickName users e.player.uuid e.identity.username = false := by
      rw [List.map_append, List.nodup_append] at hnames
      refine List.any_eq_false.mpr fun e' he' htaken => ?_
      rw [Bool.and_eq_true, decide_eq_true_iff, decide_eq_true_iff] at htaken
      exact hnames.2.2 _ (List.mem_map_of_mem he') _ (List.mem_map_of_mem List.mem_cons_self)
        htaken.2
    rw [List.foldl_cons, addEntry_new hnew hname]
    have happend : users ++ [e] ++ es = users ++ e :: es := by
      rw [List.append_assoc, List.singleton_append]
    rw [ih (users ++ [e]) (happend ▸ huuids) (happend ▸ hnames), happend]

/-- Entries that say the same of the users. -/
theorem summary_map {change : Entry → Entry} {users : Users}
    (h : ∀ e ∈ users, (change e).player = e.player ∧
      (change e).identity.username = e.identity.username) (v : ℕ) :
    summary (users.map change) v = summary users v := by
  induction users with
  | nil => rfl
  | cons e users ih =>
    obtain ⟨hplayer, hname⟩ := h e List.mem_cons_self
    have hrest := ih fun e' he' => h e' (List.mem_cons_of_mem _ he')
    rw [List.map_cons, summary_cons, summary_cons, hrest, hplayer, hname]

section Proper

variable {users : Users}

theorem mem_update {change : Entry → Entry} {uuid : ℕ} {e : Entry}
    (h : e ∈ users.update uuid change) : e ∈ users ∨ ∃ e' ∈ users, e = change e' := by
  induction users with
  | nil => cases h
  | cons e' users ih =>
    rw [update] at h
    split_ifs at h
    · rcases List.mem_cons.mp h with rfl | h
      · exact .inr ⟨e', List.mem_cons_self, rfl⟩
      · exact .inl (List.mem_cons_of_mem _ h)
    · rcases List.mem_cons.mp h with rfl | h
      · exact .inl List.mem_cons_self
      · rcases ih h with h | ⟨e'', he'', rfl⟩
        · exact .inl (List.mem_cons_of_mem _ h)
        · exact .inr ⟨e'', List.mem_cons_of_mem _ he'', rfl⟩

theorem Proper.setPlayingTable (h : users.Proper) (uuid : ℕ) {tableId : ℕ}
    (htable : tableId < 2 ^ 32) (place : Place) :
    (users.setPlayingTable uuid tableId place).Proper where
  uuids := by
    rw [getAll_setPlayingTable]
    exact h.uuids
  names := by
    have hnames : (users.setPlayingTable uuid tableId place).map (fun e => e.identity.username) =
        users.map fun e => e.identity.username := by
      unfold Users.setPlayingTable
      clear h
      induction users with
      | nil => rfl
      | cons e users ih =>
        rw [update]
        split_ifs
        · rfl
        · rw [List.map_cons, ih, List.map_cons]
    rw [hnames]
    exact h.names
  range := by
    intro e he
    rcases mem_update he with he | ⟨e', he', rfl⟩
    · exact h.range e he
    · exact ⟨(h.range e' he').1, htable⟩

/-- A free nickname stays apart from those of the others. -/
theorem names_rename {uuid : ℕ} {nickname : Str} (huuids : users.getAll.Nodup)
    (hnames : (users.map fun e => e.identity.username).Nodup)
    (hfree : ∀ e ∈ users, e.player.uuid ≠ uuid → e.identity.username ≠ nickname) :
    ((users.update uuid (Entry.rename nickname)).map fun e => e.identity.username).Nodup := by
  induction users with
  | nil => exact List.nodup_nil
  | cons e users ih =>
    obtain ⟨hnew, huuids⟩ := List.nodup_cons.mp huuids
    obtain ⟨hname, hnames⟩ := List.nodup_cons.mp hnames
    rw [update]
    split_ifs with he
    · refine List.nodup_cons.mpr ⟨fun hmem => ?_, hnames⟩
      obtain ⟨e', he', hsame⟩ := List.mem_map.mp hmem
      refine hfree e' (List.mem_cons_of_mem _ he') (fun hu => ?_) hsame
      exact hnew (List.mem_map.mpr ⟨e', he', hu.trans he.symm⟩)
    · have hrest := ih huuids hnames fun e' he' => hfree e' (List.mem_cons_of_mem _ he')
      refine List.nodup_cons.mpr ⟨fun hmem => ?_, hrest⟩
      obtain ⟨e', he', hsame⟩ := List.mem_map.mp hmem
      rcases mem_update he' with he' | ⟨e'', -, rfl⟩
      · exact hname (List.mem_map.mpr ⟨e', he', hsame⟩)
      · exact hfree e List.mem_cons_self he hsame.symm

theorem Proper.rename (h : users.Proper) {uuid : ℕ} {nickname : Str}
    (hfree : users.checkNickName uuid nickname = false) :
    (users.update uuid (Entry.rename nickname)).Proper where
  uuids := by
    rw [getAll_update (Entry.rename nickname) fun _ => rfl]
    exact h.uuids
  names := by
    refine names_rename h.uuids h.names fun e he hne hname => ?_
    refine List.any_eq_false.mp hfree e he ?_
    rw [Bool.and_eq_true, decide_eq_true_iff, decide_eq_true_iff]
    exact ⟨hne, hname⟩
  range := by
    intro e he
    rcases mem_update he with he | ⟨e', he', rfl⟩
    · exact h.range e he
    · exact h.range e' he'

theorem Proper.addEntry (h : users.Proper) {entry : Entry}
    (hnew : users.isHere entry.player.uuid = false)
    (hfree : users.checkNickName entry.player.uuid entry.identity.username = false)
    (hrange : entry.player.uuid < 2 ^ 32 ∧ entry.player.tableId < 2 ^ 32) :
    Proper (users ++ [entry]) where
  uuids := by
    rw [isHere_eq_false] at hnew
    rw [getAll, List.map_append]
    refine List.nodup_append.mpr ⟨h.uuids, List.nodup_singleton _, fun a ha b hb hab => ?_⟩
    rw [hab, List.mem_singleton.mp hb] at ha
    exact hnew ha
  names := by
    rw [List.map_append]
    refine List.nodup_append.mpr ⟨h.names, List.nodup_singleton _, fun a ha b hb hab => ?_⟩
    obtain ⟨e, he, rfl⟩ := List.mem_map.mp ha
    refine List.any_eq_false.mp hfree e he ?_
    rw [Bool.and_eq_true, decide_eq_true_iff, decide_eq_true_iff]
    refine ⟨fun hu => ?_, hab.trans (List.mem_singleton.mp hb)⟩
    rw [isHere_eq_false] at hnew
    exact hnew (List.mem_map.mpr ⟨e, he, hu⟩)
  range := by
    intro e he
    rcases List.mem_append.mp he with he | he
    · exact h.range e he
    · rw [List.mem_singleton.mp he]
      exact hrange

theorem names_remove_sublist (uuid : ℕ) (users : Users) :
    ((users.remove uuid).map fun e => e.identity.username).Sublist
      (users.map fun e => e.identity.username) := by
  induction users with
  | nil => exact List.Sublist.slnil
  | cons e users ih =>
    rw [Users.remove]
    split_ifs
    · rw [List.map_map]
      exact List.sublist_cons_self _ _
    · exact ih.cons_cons _

theorem mem_remove {uuid : ℕ} {e : Entry} (h : e ∈ users.remove uuid) :
    ∃ e' ∈ users, e.player = e'.player := by
  induction users with
  | nil => cases h
  | cons e' users ih =>
    rw [Users.remove] at h
    split_ifs at h
    · obtain ⟨e'', he'', rfl⟩ := List.mem_map.mp h
      exact ⟨e'', List.mem_cons_of_mem _ he'', rfl⟩
    · rcases List.mem_cons.mp h with rfl | h
      · exact ⟨e, List.mem_cons_self, rfl⟩
      · obtain ⟨e'', he'', hsame⟩ := ih h
        exact ⟨e'', List.mem_cons_of_mem _ he'', hsame⟩

theorem Proper.remove (h : users.Proper) (uuid : ℕ) : (users.remove uuid).Proper where
  uuids := (getAll_remove_sublist uuid users).nodup h.uuids
  names := (names_remove_sublist uuid users).nodup h.names
  range := by
    intro e he
    obtain ⟨e', he', hsame⟩ := mem_remove he
    rw [hsame]
    exact h.range e' he'

end Proper

end Users

/-! What a client hears of the lobby. -/

/-- The messages of the lobby that change the list of the client. -/
def lobbyNews : List Str := [str "AccessGranted", str "LobbyEvent"]

/-- None of the messages changes the list of the client. -/
def NoNews (out : List Reply) : Prop := ∀ reply ∈ out, reply.cmd ∉ lobbyNews

theorem NoNews.nil : NoNews [] := fun _ h => absurd h List.not_mem_nil

theorem NoNews.singleton (dest : List ℕ) {obj : JsonObject} (cmd : Str)
    (hobj : obj.getKey (str "cmd") = .string cmd) (hcmd : cmd ∉ lobbyNews) :
    NoNews [⟨dest, obj⟩] := by
  intro reply hreply
  rw [List.mem_singleton.mp hreply, Reply.cmd, hobj]
  exact hcmd

namespace PlayingTable

theorem sendNextBidSequence_noNews (t : PlayingTable) : NoNews t.sendNextBidSequence.out := by
  unfold sendNextBidSequence
  split
  · exact .singleton _ (str "RequestBid") rfl (by decide)
  · exact .singleton _ (str "RequestKingCall") rfl (by decide)
  · exact .singleton _ (str "AllPassed") rfl (by decide)
  · exact .singleton _ (str "StartDeal") rfl (by decide)
  · exact .singleton _ (str "ShowDog") rfl (by decide)
  · exact .nil

theorem gameSequence_noNews (t : PlayingTable) : NoNews t.gameSequence.out := by
  simp only [gameSequence]
  split_ifs
  · exact .singleton _ (str "EndOfDeal") rfl (by decide)
  · split
    · exact .singleton _ (str "EndOfTrick") rfl (by decide)
    · exact .singleton _ (str "PlayCard") rfl (by decide)
    · exact .singleton _ (str "AskForHandle") rfl (by decide)
    · exact .nil

theorem newDeal_noNews (dealer : Dealer) (t : PlayingTable) : NoNews (t.newDeal dealer).out := by
  intro reply hreply
  obtain ⟨i, -, rfl⟩ := List.mem_map.mp hreply
  exact (by decide : str "NewDeal" ∉ lobbyNews)

theorem allSynced_noNews (dealer : Dealer) (t : PlayingTable) (seq : Sequence) :
    NoNews (t.allSynced dealer seq).out := by
  cases seq <;> simp only [allSynced]
  case waitForPlayers =>
    split_ifs
    · exact .nil
    · exact .singleton _ (str "NewGame") rfl (by decide)
  case waitForReady | waitForAllPassed => exact newDeal_noNews dealer t
  case waitForCards | waitForShowBid | waitForShowKingCall => exact sendNextBidSequence_noNews _
  case waitForShowDog => exact .singleton _ (str "BuildDiscard") rfl (by decide)
  case waitForStartDeal | waitForShowHandle | waitForShowCard | waitForEndOfTrick =>
    exact gameSequence_noNews t
  case waitForEndOfDeal =>
    simp only [endOfDeal]
    split_ifs
    · exact newDeal_noNews dealer _
    · exact .singleton _ (str "EndOfGame") rfl (by decide)
  all_goals exact .nil

/-- A table sends no news of the lobby. -/
theorem executeRequest_noNews (dealer : Dealer) (t : PlayingTable) (srcUuid : ℕ)
    (json : JsonValue) : NoNews (t.executeRequest dealer srcUuid json).out := by
  refine request_cases (R := fun r _ => NoNews r.out) dealer t srcUuid json .nil (fun _ => ?_)
    (fun _ => ?_) (fun _ => ?_) (fun _ => ?_) (fun _ => ?_) (fun _ => ?_) (fun _ => ?_)
  · simp only [executeAck]
    split_ifs
    · exact .nil
    · exact allSynced_noNews dealer _ _
    · exact .nil
    · exact .nil
  · unfold executeNewGame
    split_ifs
    · exact .singleton _ (str "NewGame") rfl (by decide)
    · exact .nil
  · simp only [executeReplyBid]
    split_ifs
    · exact .singleton _ (str "ShowBid") rfl (by decide)
    · exact .nil
  · simp only [executeDiscard]
    split_ifs
    · exact .singleton _ (str "StartDeal") rfl (by decide)
    · exact .nil
    · exact .nil
  · simp only [executeReplyKingCall]
    split_ifs
    · exact .singleton _ (str "ShowKingCall") rfl (by decide)
    · exact .nil
    · exact .nil
  · simp only [executeHandle]
    split_ifs
    · exact .singleton _ (str "ShowHandle") rfl (by decide)
    · exact gameSequence_noNews _
    · exact .nil
  · simp only [executeCard]
    split_ifs
    · exact .singleton _ (str "ShowCard") rfl (by decide)
    · exact .nil
    · exact .nil

end PlayingTable

namespace Lobby

/-- What a client makes of a message, if it is one to him: from the first one on he is logged in,
and the events change the list he keeps. -/
def receive (u : ℕ) (client : Option PlayerContext) (reply : Reply) : Option PlayerContext :=
  if u ∈ reply.dest then
    let json := JsonValue.object reply.data
    let cmd := (json.findValue (str "cmd")).getString
    if cmd = str "AccessGranted" then some ((client.getD {}).decodeAccessGranted json)
    else if cmd = str "LobbyEvent" then client.map (·.decodeLobbyEvent json)
    else client
  else client

/-- The client of the user `u`, as long as he is logged in. -/
def noteClient (u : ℕ) (l : Lobby) (c : LobbyCall) (client : Option PlayerContext) :
    Option PlayerContext :=
  match c with
  | .removeUser uuid => if uuid = u then none else client
  | .deliver dealer req => (l.deliver dealer req).out.foldl (receive u) client
  | _ => client

/-- The list of the client says the same of every user as the one of the lobby. -/
def ListsAgree (p : Lobby × Option PlayerContext) : Prop :=
  ∀ ctx, p.2 = some ctx → ∀ v, ctx.mUsers.summary v = p.1.mUsers.summary v

/-- The request changes what is known of a user by something else than a join: he logs in, leaves
his table, or takes another nickname. -/
def ChangesUser (l : Lobby) (srcUuid : ℕ) (json : JsonValue) : Prop :=
  let cmd := (json.findValue (str "cmd")).getString
  let nickname := (json.findValue (str "nickname")).getString
  let name := (json.getObj.getKey (str "nickname")).getString
  cmd = str "ReplyLogin" ∧ l.mUserIds.isTaken srcUuid = true ∧ l.mUsers.isHere srcUuid = false ∧
      l.mUsers.checkNickName srcUuid name = false ∨
    cmd = str "RequestQuitTable" ∧ l.mUsers.isHere srcUuid = true ∧
      l.mUsers.getPlayerTable srcUuid = (json.findValue (str "table_id")).getUInt32 ∧
      l.mUsers.location srcUuid ≠ some (0, .nowhere) ∨
    cmd = str "RequestChangeNickname" ∧ l.mUsers.isHere srcUuid = true ∧
      l.mUsers.checkNickName srcUuid nickname = false ∧
      (l.mUsers.summary srcUuid).map Prod.fst ≠ some nickname

/-- A request to the lobby that changes what is known of a user by something else than a join. -/
def ChangesUsers (l : Lobby) (req : Request) : Prop :=
  req.destUuid = lobbyUid ∧
    ∃ json, JsonReader.parseString req.arg = some json ∧ l.ChangesUser req.srcUuid json

/-- As long as the client is logged in, no other user logs in or is removed, and nobody leaves his
table or takes another nickname. -/
def OnlyJoins (u : ℕ) (p : Lobby × Option PlayerContext) : LobbyCall → Prop
  | .removeUser uuid => p.2.isSome = true → uuid ≠ u → p.1.mUsers.isHere uuid = false
  | .deliver _ req => p.2.isSome = true → ¬ p.1.ChangesUsers req
  | _ => True

theorem receive_eq (u : ℕ) (client : Option PlayerContext) (reply : Reply) :
    receive u client reply =
      if u ∈ reply.dest then
        if reply.cmd = str "AccessGranted" then
          some ((client.getD {}).decodeAccessGranted (.object reply.data))
        else if reply.cmd = str "LobbyEvent" then
          client.map (·.decodeLobbyEvent (.object reply.data))
        else client
      else client := by
  simp only [receive]
  rw [findValue_object (by decide)]
  rfl

theorem foldl_receive_noNews (u : ℕ) {out : List Reply} (h : NoNews out)
    (client : Option PlayerContext) : out.foldl (receive u) client = client := by
  induction out generalizing client with
  | nil => rfl
  | cons reply out ih =>
    have hcmd : reply.cmd ≠ str "AccessGranted" ∧ reply.cmd ≠ str "LobbyEvent" := by
      have hnot := h reply List.mem_cons_self
      simp only [lobbyNews, List.mem_cons, List.not_mem_nil, or_false, not_or] at hnot
      exact hnot
    have hkeep : receive u client reply = client := by
      rw [receive_eq, if_neg hcmd.1, if_neg hcmd.2, ite_self]
    rw [List.foldl_cons, hkeep]
    exact ih (fun reply hr => h reply (List.mem_cons_of_mem _ hr)) client

theorem getUInt32_natCast {n : ℕ} (hn : n < 2 ^ 32) : (JsonValue.integer n).getUInt32 = n := by
  have hpow : (2 : ℤ) ^ 32 = ((2 ^ 32 : ℕ) : ℤ) := by norm_num
  have hmod : (n : ℤ).bmod (2 ^ 32) % (2 : ℤ) ^ 32 = n := by
    rw [hpow, Int.bmod_emod, ← hpow]
    omega
  rw [JsonValue.getUInt32, JsonValue.getInteger, hmod, Int.toNat_natCast]

/-- The entry that a client reads in the status of a user is the one the lobby has of him, but for
his picture. -/
theorem userFromJson_playerStatus {l : Lobby} (h : l.mUsers.Proper) {uuid : ℕ} {e : Entry}
    (he : l.mUsers.find uuid = some e) :
    (PlayerContext.userFromJson (l.playerStatus uuid)).player = e.player ∧
      (PlayerContext.userFromJson (l.playerStatus uuid)).identity.username = e.identity.username := by
  obtain ⟨hmem, huuid⟩ := Users.find_uuid he
  obtain ⟨hu, htable⟩ := h.range e hmem
  have hstatus : l.playerStatus uuid = e.assign.identity.toJson (JsonObject.ofList
      [(str "uuid", .integer uuid), (str "table", .integer e.player.tableId),
       (str "place", .string e.player.place.toString)]) := by
    rw [playerStatus, Users.getEntry, he]
    rfl
  have hu' : (l.playerStatus uuid).getKey (str "uuid") = .integer uuid := by
    rw [hstatus]
    rfl
  have htable' : (l.playerStatus uuid).getKey (str "table") = .integer e.player.tableId := by
    rw [hstatus]
    rfl
  have hplace' : (l.playerStatus uuid).getKey (str "place") = .string e.player.place.toString := by
    rw [hstatus]
    rfl
  have hname : (l.playerStatus uuid).getKey (str "nickname") = .string e.identity.username := by
    rw [hstatus]
    rfl
  constructor
  · simp only [PlayerContext.userFromJson]
    rw [hu', htable', hplace', getUInt32_natCast (huuid ▸ hu), getUInt32_natCast htable,
      JsonValue.getString, Place.ofString_toString, ← huuid]
  · simp only [PlayerContext.userFromJson, Identity.fromJson]
    rw [hname]
    rfl

theorem receive_event (u : ℕ) (l : Lobby) (uuid counter : ℕ) (event : Str) (dest : List ℕ)
    (client : Option PlayerContext) :
    receive u client ⟨dest, JsonObject.ofList
        [(str "cmd", .string (str "LobbyEvent")), (str "type", .string event),
         (str "counter", .integer counter), (str "player", .object (l.playerStatus uuid))]⟩ =
      if u ∈ dest ∧ event = str "JoinTable" then
        client.map fun ctx =>
          { ctx with
            mUsers := ctx.mUsers.updateLocation
              (PlayerContext.userFromJson (l.playerStatus uuid)).player.uuid
              (PlayerContext.userFromJson (l.playerStatus uuid)).player.tableId
              (PlayerContext.userFromJson (l.playerStatus uuid)).player.place }
      else client := by
  generalize hdata : JsonObject.ofList
    [(str "cmd", .string (str "LobbyEvent")), (str "type", .string event),
     (str "counter", .integer counter), (str "player", .object (l.playerStatus uuid))] = data
  have hcmd : Reply.cmd ⟨dest, data⟩ = str "LobbyEvent" := by
    rw [Reply.cmd, ← hdata]
    rfl
  have htype : ((JsonValue.object data).findValue (str "type")).getString = event := by
    rw [findValue_object (by decide), ← hdata]
    rfl
  have hplayer : ((JsonValue.object data).findValue (str "player")).getObj =
      l.playerStatus uuid := by
    rw [findValue_object (by decide), ← hdata]
    rfl
  have hne : str "LobbyEvent" ≠ str "AccessGranted" := by decide
  rw [receive_eq, hcmd, if_neg hne, if_pos rfl]
  by_cases hdest : u ∈ dest
  · by_cases hevent : event = str "JoinTable"
    · rw [if_pos hdest, if_pos ⟨hdest, hevent⟩]
      congr 1
      funext ctx
      simp only [PlayerContext.decodeLobbyEvent]
      rw [htype, hplayer, if_pos hevent]
    · rw [if_pos hdest, if_neg fun h => hevent h.2]
      have hkeep : (fun ctx : PlayerContext => ctx.decodeLobbyEvent (.object data)) = id := by
        funext ctx
        simp only [PlayerContext.decodeLobbyEvent]
        rw [htype, if_neg hevent]
        rfl
      rw [hkeep, Option.map_id]
      rfl
  · rw [if_neg hdest, if_neg fun h => hdest h.1]

/-- An event that is no join leaves the client as he is. -/
theorem foldl_receive_event (u : ℕ) (l : Lobby) (uuid : ℕ) {event : Str}
    (hevent : event ≠ str "JoinTable") (client : Option PlayerContext) :
    (l.sendPlayerEvent uuid event).2.foldl (receive u) client = client := by
  unfold sendPlayerEvent
  cases l.mUsers.getEntry uuid with
  | none => rfl
  | some entry =>
    rw [List.foldl_cons, List.foldl_nil, receive_event, if_neg fun h => hevent h.2]

/-- Of a join the client takes the new place over. -/
theorem foldl_receive_join (u : ℕ) {l : Lobby} (h : l.mUsers.Proper) {uuid : ℕ} {e : Entry}
    (he : l.mUsers.find uuid = some e) {client : Option PlayerContext}
    (hu : client.isSome = true → u ∈ l.mUsers.getAll) :
    (l.sendPlayerEvent uuid (str "JoinTable")).2.foldl (receive u) client =
      client.map fun ctx =>
        { ctx with mUsers := ctx.mUsers.updateLocation uuid e.player.tableId e.player.place } := by
  obtain ⟨hplayer, -⟩ := userFromJson_playerStatus h he
  have huuid := (Users.find_uuid he).2
  have hentry : l.mUsers.getEntry uuid = some e.assign := by
    rw [Users.getEntry, he]
    rfl
  have hstatus : ({ l with mEvCounter := (l.mEvCounter + 1) % 2 ^ 32 } : Lobby).playerStatus uuid =
      l.playerStatus uuid := rfl
  unfold sendPlayerEvent
  rw [hentry, List.foldl_cons, List.foldl_nil, receive_event, hstatus, hplayer, huuid]
  cases client with
  | none => exact ite_self none
  | some ctx => exact if_pos ⟨hu rfl, rfl⟩

/-- With the first message a client gets the whole list. -/
theorem receive_accessGranted (u : ℕ) {l : Lobby} (h : l.mUsers.Proper)
    (client : Option PlayerContext) :
    ∃ ctx, receive u client ⟨[u], l.accessGranted⟩ = some ctx ∧
      ∀ v, ctx.mUsers.summary v = l.mUsers.summary v := by
  have hcmd : Reply.cmd ⟨[u], l.accessGranted⟩ = str "AccessGranted" := rfl
  have hall : l.mUsers.get lobbyUid = l.mUsers := by
    rw [Users.get]
    refine List.filter_eq_self.mpr fun e _ => ?_
    rw [Bool.or_eq_true]
    exact .inr (decide_eq_true rfl)
  let told : Entry → Entry := fun e => PlayerContext.userFromJson (l.playerStatus e.player.uuid)
  have htold : ∀ e ∈ l.mUsers, (told e).player = e.player ∧
      (told e).identity.username = e.identity.username := fun e he =>
    userFromJson_playerStatus h (Users.find_of_mem h.uuids he)
  have hplayers : ((JsonValue.object l.accessGranted).findValue (str "players")).getArray =
      l.mUsers.map fun e => .object (l.playerStatus e.player.uuid) := by
    rw [findValue_object (by decide), accessGranted, hall]
    rfl
  have huuids : (Users.getAll (l.mUsers.map told)).Nodup := by
    have hsame : Users.getAll (l.mUsers.map told) = l.mUsers.getAll := by
      rw [Users.getAll, List.map_map]
      refine List.map_congr_left fun e he => ?_
      rw [Function.comp_apply, (htold e he).1]
    rw [hsame]
    exact h.uuids
  have hnames : ((l.mUsers.map told).map fun e => e.identity.username).Nodup := by
    have hsame : (l.mUsers.map told).map (fun e => e.identity.username) =
        l.mUsers.map fun e => e.identity.username := by
      rw [List.map_map]
      refine List.map_congr_left fun e he => ?_
      rw [Function.comp_apply, (htold e he).2]
    rw [hsame]
    exact h.names
  refine ⟨(client.getD {}).decodeAccessGranted (.object l.accessGranted), ?_, fun v => ?_⟩
  · rw [receive_eq, if_pos (List.mem_singleton_self u), hcmd, if_pos rfl]
  · have hlist : ((client.getD {}).decodeAccessGranted (.object l.accessGranted)).mUsers =
        l.mUsers.map told := by
      simp only [PlayerContext.decodeAccessGranted]
      rw [hplayers, List.foldl_map]
      have hfold := Users.foldl_addEntry (l.mUsers.map told) [] huuids hnames
      rw [List.foldl_map, List.nil_append] at hfold
      exact hfold
    rw [hlist]
    exact Users.summary_map htold v

/-- What holds of the lobby and of the client of the user `u` along a run. -/
structure Replicated (u : ℕ) (p : Lobby × Option PlayerContext) : Prop where
  listed : TablesListed p.1.mTables p.1.mTableIds
  proper : p.1.mUsers.Proper
  pool : p.1.mUserIds.mMax = 200 ∧ ∀ id ∈ p.1.mUserIds.mUsedIds, id ≤ 200
  logged : p.2.isSome = true ↔ p.1.mUsers.isHere u = true
  agree : ListsAgree p

section Step

variable {u : ℕ} {l l' : Lobby} {client : Option PlayerContext}

/-- A step that the client does not hear of: the lists agree behind it if and only if nothing has
changed, or the client is not logged in. -/
theorem Replicated.unheard (h : Replicated u (l, client))
    (hlisted : TablesListed l'.mTables l'.mTableIds)
    (hpool : l'.mUserIds.mMax = 200 ∧ ∀ id ∈ l'.mUserIds.mUsedIds, id ≤ 200)
    (hproper : l'.mUsers.Proper) (hhere : l'.mUsers.isHere u = l.mUsers.isHere u) {changes : Prop}
    (hiff : (∀ v, l'.mUsers.summary v = l.mUsers.summary v) ↔ ¬ changes) :
    ((client.isSome = true → ¬ changes) → Replicated u (l', client)) ∧
      (ListsAgree (l', client) → client.isSome = true → ¬ changes) := by
  constructor
  · intro hquiet
    refine ⟨hlisted, hproper, hpool, ?_, fun ctx hctx v => ?_⟩
    · dsimp only
      rw [hhere]
      exact h.logged
    · dsimp only at hctx ⊢
      have hlogged : client.isSome = true := by
        rw [hctx]
        rfl
      rw [hiff.mpr (hquiet hlogged) v]
      exact h.agree ctx hctx v
  · intro hagree hlogged
    obtain ⟨ctx, hctx⟩ := Option.isSome_iff_exists.mp hlogged
    exact hiff.mp fun v => (hagree ctx hctx v).symm.trans (h.agree ctx hctx v)

/-- What a step of the lobby must do for the client of the user `u`. -/
def Follows (u : ℕ) (l l' : Lobby) (client client' : Option PlayerContext) (changes : Prop) : Prop :=
  Replicated u (l, client) →
    ((client.isSome = true → ¬ changes) → Replicated u (l', client')) ∧
      (ListsAgree (l', client') → client.isSome = true → ¬ changes)

/-- Nothing that the lists tell has changed. -/
theorem follows_of_same (hlisted : TablesListed l'.mTables l'.mTableIds)
    (hpool : l'.mUserIds = l.mUserIds) (husers : l'.mUsers = l.mUsers) {changes : Prop}
    (hnot : ¬ changes) : Follows u l l' client client changes := by
  intro h
  refine h.unheard hlisted (hpool ▸ h.pool) (husers ▸ h.proper) (by rw [husers]) ?_
  rw [husers]
  exact iff_of_true (fun _ => rfl) hnot

variable {srcUuid : ℕ} {json : JsonValue}

theorem not_changesUser (hlogin : (json.findValue (str "cmd")).getString ≠ str "ReplyLogin")
    (hquit : (json.findValue (str "cmd")).getString ≠ str "RequestQuitTable")
    (hnick : (json.findValue (str "cmd")).getString ≠ str "RequestChangeNickname") :
    ¬ l.ChangesUser srcUuid json := by
  rintro (⟨hcmd, -⟩ | ⟨hcmd, -⟩ | ⟨hcmd, -⟩)
  · exact hlogin hcmd
  · exact hquit hcmd
  · exact hnick hcmd

theorem noNews_error (code destUuid : ℕ) : NoNews (error code destUuid) := by
  unfold error
  cases errors[code]? with
  | none => exact .nil
  | some reason => exact .singleton _ (str "Error") rfl (by decide)

/-- Who leaves his table stays where he is, unless he has another place on the list. -/
theorem requestQuitTable_follows (hcmd : (json.findValue (str "cmd")).getString = str "RequestQuitTable")
    (hlisted : TablesListed (l.requestQuitTable srcUuid json).lobby.mTables
      (l.requestQuitTable srcUuid json).lobby.mTableIds)
    (hpool : (l.requestQuitTable srcUuid json).lobby.mUserIds = l.mUserIds) :
    Follows u l (l.requestQuitTable srcUuid json).lobby client
      ((l.requestQuitTable srcUuid json).out.foldl (receive u) client)
      (l.ChangesUser srcUuid json) := by
  have hchanges : l.ChangesUser srcUuid json ↔ l.mUsers.isHere srcUuid = true ∧
      l.mUsers.getPlayerTable srcUuid = (json.findValue (str "table_id")).getUInt32 ∧
      l.mUsers.location srcUuid ≠ some (0, .nowhere) := by
    have h1 : ¬ str "RequestQuitTable" = str "ReplyLogin" := by decide
    have h2 : ¬ str "RequestQuitTable" = str "RequestChangeNickname" := by decide
    simp only [ChangesUser, hcmd, h1, h2, false_and, false_or, or_false, true_and]
  simp only [requestQuitTable] at hlisted hpool ⊢
  generalize (json.findValue (str "table_id")).getUInt32 = tableId at hlisted hpool hchanges ⊢
  by_cases htable : l.mUsers.getPlayerTable srcUuid = tableId
  · rw [if_pos htable] at hlisted hpool ⊢
    dsimp only at hlisted hpool ⊢
    intro h
    have hclient : (l.removePlayerFromTable srcUuid tableId).2.foldl (receive u) client = client :=
      foldl_receive_event u _ srcUuid (by decide) client
    rw [hclient]
    have husers := removePlayerFromTable_mUsers l srcUuid tableId
    by_cases hhere : l.mUsers.isHere srcUuid = true
    · rw [if_pos hhere] at husers
      refine h.unheard hlisted (hpool ▸ h.pool) ?_ ?_ ?_
      · rw [husers]
        exact h.proper.setPlayingTable srcUuid (by decide) .nowhere
      · rw [husers]
        exact Users.isHere_congr (Users.getAll_setPlayingTable ..) u
      · rw [husers, Users.summary_setPlayingTable_same_iff hhere, hchanges, not_and, not_and,
          not_not]
        exact ⟨fun hloc _ _ => hloc, fun hloc => hloc hhere htable⟩
    · rw [if_neg hhere] at husers
      refine h.unheard hlisted (hpool ▸ h.pool) (husers ▸ h.proper) (by rw [husers]) ?_
      rw [husers]
      exact iff_of_true (fun _ => rfl) fun hc => hhere (hchanges.mp hc).1
  · rw [if_neg htable] at hlisted hpool ⊢
    exact follows_of_same hlisted hpool rfl fun hc => htable (hchanges.mp hc).2.1

/-- Who is let in gets the list with himself on it; the others hear of nothing that they heed. -/
theorem replyLogin_follows (hcmd : (json.findValue (str "cmd")).getString = str "ReplyLogin")
    (hlisted : TablesListed (l.replyLogin srcUuid json).lobby.mTables
      (l.replyLogin srcUuid json).lobby.mTableIds)
    (hpool : (l.replyLogin srcUuid json).lobby.mUserIds = l.mUserIds) :
    Follows u l (l.replyLogin srcUuid json).lobby client
      ((l.replyLogin srcUuid json).out.foldl (receive u) client)
      (l.ChangesUser srcUuid json) := by
  have hchanges : l.ChangesUser srcUuid json ↔ l.mUserIds.isTaken srcUuid = true ∧
      l.mUsers.isHere srcUuid = false ∧
      l.mUsers.checkNickName srcUuid (loginEntry srcUuid json).identity.username = false := by
    have h1 : ¬ str "ReplyLogin" = str "RequestQuitTable" := by decide
    have h2 : ¬ str "ReplyLogin" = str "RequestChangeNickname" := by decide
    simp only [ChangesUser, hcmd, h1, h2, false_and, or_false, true_and]
    exact Iff.rfl
  simp only [replyLogin] at hlisted hpool ⊢
  by_cases htaken : l.mUserIds.isTaken srcUuid = true
  swap
  · rw [if_neg htaken] at hlisted hpool ⊢
    exact follows_of_same hlisted hpool rfl fun hc => htaken (hchanges.mp hc).1
  rw [if_pos htaken] at hlisted hpool ⊢
  have hentry : (loginEntry srcUuid json).player.uuid = srcUuid := rfl
  generalize hnew : loginEntry srcUuid json = entry at hlisted hpool hchanges hentry ⊢
  by_cases hfree : l.mUsers.isHere srcUuid = false ∧
      l.mUsers.checkNickName srcUuid entry.identity.username = false
  swap
  · have hadd : l.mUsers.addEntry entry = (false, l.mUsers) :=
      Users.addEntry_refused (hentry.symm ▸ hfree)
    rw [hadd] at hlisted hpool ⊢
    dsimp only at hlisted hpool ⊢
    rw [if_neg Bool.false_ne_true] at hlisted hpool ⊢
    rw [foldl_receive_noNews u (noNews_error _ _)]
    exact follows_of_same hlisted hpool rfl fun hc => hfree (hchanges.mp hc).2
  have hc : l.ChangesUser srcUuid json := hchanges.mpr ⟨htaken, hfree⟩
  obtain ⟨hhere, hname⟩ := hfree
  have hadd : l.mUsers.addEntry entry = (true, l.mUsers ++ [entry]) :=
    Users.addEntry_new (hentry.symm ▸ hhere) (hentry.symm ▸ hname)
  rw [hadd] at hlisted hpool ⊢
  dsimp only at hlisted hpool ⊢
  rw [if_pos rfl] at hlisted hpool ⊢
  dsimp only at hlisted hpool ⊢
  rw [List.foldl_cons, foldl_receive_event u _ srcUuid (by decide)]
  intro h
  have hproper : Users.Proper (l.mUsers ++ [entry]) := by
    refine h.proper.addEntry (hentry ▸ hhere) (hentry ▸ hname) ?_
    rw [hentry, ← hnew]
    have hle := h.pool.2 srcUuid ((UniqueId.isTaken_iff _ _).mp htaken)
    exact ⟨by omega, (by decide : lobbyUid < 2 ^ 32)⟩
  have husers := sendPlayerEvent_mUsers ({ l with mUsers := l.mUsers ++ [entry] } : Lobby) srcUuid
    (str "New")
  generalize (({ l with mUsers := l.mUsers ++ [entry] } : Lobby).sendPlayerEvent srcUuid
    (str "New")).1 = l' at hlisted hpool husers ⊢
  dsimp only at husers
  have hsrc : l'.mUsers.summary srcUuid ≠ none := by
    rw [husers, Users.summary_append, if_pos hentry]
    exact Option.ne_none_iff_isSome.mpr (Option.isSome_or.trans (Bool.or_true _))
  by_cases hu : u = srcUuid
  · obtain ⟨ctx, hctx, hsummary⟩ := receive_accessGranted u
      (l := { l with mUsers := l.mUsers ++ [entry] }) hproper client
    have hnone : ¬ client.isSome = true := by
      rw [h.logged, hu, hhere]
      exact Bool.false_ne_true
    rw [← hu, hctx]
    refine ⟨fun _ => ⟨hlisted, husers ▸ hproper, hpool ▸ h.pool, ?_, ?_⟩, fun _ hsome =>
      absurd hsome hnone⟩
    · refine iff_of_true rfl ?_
      rw [Users.isHere_iff_summary, hu]
      exact Option.ne_none_iff_isSome.mp hsrc
    · intro ctx' hctx' v
      rw [← Option.some_inj.mp hctx', hsummary, husers]
  · rw [receive_eq, if_neg fun hmem => hu (List.mem_singleton.mp hmem)]
    refine h.unheard hlisted (hpool ▸ h.pool) (husers ▸ hproper) ?_ (iff_of_false ?_ fun hn => hn hc)
    · rw [Bool.eq_iff_iff, Users.isHere_iff_summary, Users.isHere_iff_summary, husers,
        Users.summary_append, hentry, if_neg fun h => hu h.symm, Option.or_none]
    · intro hsame
      refine hsrc ((hsame srcUuid).trans (Users.summary_eq_none.mpr ?_))
      exact Users.isHere_eq_false.mp hhere

/-- A nickname that changes is one the client does not hear of. -/
theorem requestChangeNickname_follows
    (hcmd : (json.findValue (str "cmd")).getString = str "RequestChangeNickname")
    (hlisted : TablesListed (l.requestChangeNickname srcUuid json).lobby.mTables
      (l.requestChangeNickname srcUuid json).lobby.mTableIds)
    (hpool : (l.requestChangeNickname srcUuid json).lobby.mUserIds = l.mUserIds) :
    Follows u l (l.requestChangeNickname srcUuid json).lobby client
      ((l.requestChangeNickname srcUuid json).out.foldl (receive u) client)
      (l.ChangesUser srcUuid json) := by
  have hchanges : l.ChangesUser srcUuid json ↔ l.mUsers.isHere srcUuid = true ∧
      l.mUsers.checkNickName srcUuid (json.findValue (str "nickname")).getString = false ∧
      (l.mUsers.summary srcUuid).map Prod.fst ≠
        some (json.findValue (str "nickname")).getString := by
    have h1 : ¬ str "RequestChangeNickname" = str "ReplyLogin" := by decide
    have h2 : ¬ str "RequestChangeNickname" = str "RequestQuitTable" := by decide
    simp only [ChangesUser, hcmd, h1, h2, false_and, false_or, true_and]
  have hout : (l.requestChangeNickname srcUuid json).out.foldl (receive u) client = client := by
    simp only [requestChangeNickname]
    split_ifs
    · exact foldl_receive_event u _ srcUuid (by decide) client
    · exact foldl_receive_noNews u (noNews_error cErrorNickNameUsed srcUuid) client
  have husers : (l.requestChangeNickname srcUuid json).lobby.mUsers =
      (l.mUsers.changeNickName srcUuid (json.findValue (str "nickname")).getString).2 := by
    simp only [requestChangeNickname]
    split_ifs
    · exact sendPlayerEvent_mUsers ..
    · rfl
  rw [hout]
  generalize (json.findValue (str "nickname")).getString = nickname at hchanges husers
  generalize (l.requestChangeNickname srcUuid json).lobby = l' at hlisted hpool husers ⊢
  rw [Users.changeNickName] at husers
  by_cases hused : l.mUsers.checkNickName srcUuid nickname = true
  · rw [if_pos hused] at husers
    refine follows_of_same hlisted hpool husers fun hc => ?_
    rw [hused] at hchanges
    exact Bool.noConfusion (hchanges.mp hc).2.1
  · rw [if_neg hused] at husers
    rw [Bool.not_eq_true] at hused
    intro h
    refine h.unheard hlisted (hpool ▸ h.pool) (husers ▸ h.proper.rename hused) ?_ ?_
    · rw [husers]
      exact Users.isHere_congr (Users.getAll_update (Entry.rename nickname) (fun _ => rfl) ..) u
    · by_cases hhere : l.mUsers.isHere srcUuid = true
      · rw [husers, Users.summary_rename_same_iff hhere, hchanges, not_and, not_and, not_not]
        exact ⟨fun hname _ _ => hname, fun hname => hname hhere hused⟩
      · refine iff_of_true (fun v => ?_) fun hc => hhere (hchanges.mp hc).1
        rw [husers, Users.summary_rename]
        split_ifs with hv
        · rw [hv, Users.summary_eq_none.mpr (Users.isHere_eq_false.mp (Bool.not_eq_true _ ▸ hhere))]
          rfl
        · rfl

/-- A join is told to all, and the client takes it over. -/
theorem joined_follows {tableId : ℕ} {place : Place} (htable : tableId < 2 ^ 32) {changes : Prop}
    (hnot : ¬ changes) (husers : l'.mUsers = l.mUsers.setPlayingTable srcUuid tableId place)
    (hlisted : TablesListed l'.mTables l'.mTableIds) (hpool : l'.mUserIds = l.mUserIds) :
    Follows u l (l'.sendPlayerEvent srcUuid (str "JoinTable")).1 client
      ((l'.sendPlayerEvent srcUuid (str "JoinTable")).2.foldl (receive u) client) changes := by
  intro h
  refine ⟨fun _ => ?_, fun _ _ => hnot⟩
  have hproper : l'.mUsers.Proper := husers ▸ h.proper.setPlayingTable srcUuid htable place
  have hall : l'.mUsers.getAll = l.mUsers.getAll := by
    rw [husers, Users.getAll_setPlayingTable]
  have hhere := Users.isHere_congr hall u
  have hsummary := fun v => Users.summary_setPlayingTable l.mUsers srcUuid tableId v place
  rw [← husers] at hsummary
  suffices hclient : ∃ change : PlayerContext → PlayerContext,
      (l'.sendPlayerEvent srcUuid (str "JoinTable")).2.foldl (receive u) client =
        client.map change ∧
      ∀ ctx, client = some ctx → ∀ v, (change ctx).mUsers.summary v = l'.mUsers.summary v by
    obtain ⟨change, hfold, hagree⟩ := hclient
    rw [hfold]
    refine ⟨?_, ?_, ?_, ?_, ?_⟩
    · rw [sendPlayerEvent_mTables, sendPlayerEvent_mTableIds]
      exact hlisted
    · rw [sendPlayerEvent_mUsers]
      exact hproper
    · rw [(samePeers_sendPlayerEvent _ _ _).1, hpool]
      exact h.pool
    · rw [Option.isSome_map, sendPlayerEvent_mUsers, hhere]
      exact h.logged
    · intro ctx' hctx' v
      obtain ⟨ctx, hctx, rfl⟩ := Option.map_eq_some_iff.mp hctx'
      rw [sendPlayerEvent_mUsers]
      exact hagree ctx hctx v
  by_cases hsrc : l.mUsers.find srcUuid = none
  · have hnone : l'.mUsers.getEntry srcUuid = none := by
      rw [Users.getEntry, Users.find_eq_none.mpr (hall ▸ Users.find_eq_none.mp hsrc)]
      rfl
    refine ⟨id, ?_, fun ctx hctx v => ?_⟩
    · rw [sendPlayerEvent, hnone, Option.map_id]
      rfl
    · rw [hsummary, id_eq, h.agree ctx hctx v]
      split_ifs with hv
      · rw [hv, Users.summary, hsrc]
        rfl
      · rfl
  · have hmoved : l'.mUsers.find srcUuid =
        (l.mUsers.find srcUuid).map (Entry.moveTo tableId place) := by
      rw [husers, Users.setPlayingTable, Users.find_update (Entry.moveTo tableId place) fun _ => rfl,
        if_pos rfl]
    obtain ⟨e, he⟩ := Option.ne_none_iff_exists'.mp hsrc
    rw [he] at hmoved
    have hmem : client.isSome = true → u ∈ l'.mUsers.getAll := by
      intro hlogged
      rw [h.logged, ← hhere, Users.isHere, ← Option.ne_none_iff_isSome, ne_eq,
        Users.find_eq_none, not_not] at hlogged
      exact hlogged
    refine ⟨_, foldl_receive_join u hproper hmoved hmem, fun ctx hctx v => ?_⟩
    have hview := Users.summary_setPlayingTable ctx.mUsers srcUuid tableId v place
    rw [h.agree ctx hctx v, h.agree ctx hctx srcUuid, ← hsummary] at hview
    exact hview

theorem requestJoinTable_follows
    (hcmd : (json.findValue (str "cmd")).getString = str "RequestJoinTable")
    (hlisted : TablesListed (l.requestJoinTable srcUuid json).lobby.mTables
      (l.requestJoinTable srcUuid json).lobby.mTableIds) :
    Follows u l (l.requestJoinTable srcUuid json).lobby client
      ((l.requestJoinTable srcUuid json).out.foldl (receive u) client)
      (l.ChangesUser srcUuid json) := by
  have hnot : ¬ l.ChangesUser srcUuid json := by
    refine not_changesUser ?_ ?_ ?_
    · rw [hcmd]
      decide
    · rw [hcmd]
      decide
    · rw [hcmd]
      decide
  have hrange : (json.findValue (str "table_id")).getUInt32 < 2 ^ 32 := by
    have := Int.emod_lt_of_pos (json.findValue (str "table_id")).getInteger
      (by decide : (0 : ℤ) < 2 ^ 32)
    rw [JsonValue.getUInt32]
    omega
  simp only [requestJoinTable] at hlisted ⊢
  generalize (json.findValue (str "table_id")).getUInt32 = tableId at hlisted hrange ⊢
  by_cases hfree : l.mUsers.getPlayerTable srcUuid = lobbyUid
  swap
  · rw [if_neg hfree] at hlisted ⊢
    exact follows_of_same hlisted rfl rfl hnot
  rw [if_pos hfree] at hlisted ⊢
  cases htable : l.findTable tableId with
  | none =>
    simp only [htable] at hlisted ⊢
    rw [foldl_receive_noNews u (noNews_error cErrorTableIdUnknown srcUuid)]
    exact follows_of_same hlisted rfl rfl hnot
  | some t =>
    simp only [htable] at hlisted ⊢
    by_cases hseat : (t.addPlayer srcUuid).1.isValid = true
    · rw [if_pos hseat] at hlisted ⊢
      dsimp only at hlisted ⊢
      have hreply : NoNews [⟨[srcUuid],
          replyJoinTable tableId (t.addPlayer srcUuid).1 (t.addPlayer srcUuid).2⟩] :=
        .singleton _ (str "ReplyJoinTable") rfl (by decide)
      have hkeep := foldl_receive_noNews u hreply client
      rw [List.foldl_cons, List.foldl_nil] at hkeep
      rw [List.foldl_cons, hkeep]
      rw [sendPlayerEvent_mTables, sendPlayerEvent_mTableIds] at hlisted
      exact joined_follows (l := l) hrange hnot rfl hlisted rfl
    · rw [if_neg hseat] at hlisted ⊢
      rw [foldl_receive_noNews u (noNews_error cErrorFull srcUuid)]
      exact follows_of_same (l := l) hlisted rfl rfl hnot

theorem deliverToLobby_follows (hlisted : TablesListed (l.deliverToLobby srcUuid json).lobby.mTables
      (l.deliverToLobby srcUuid json).lobby.mTableIds)
    (hpool : (l.deliverToLobby srcUuid json).lobby.mUserIds = l.mUserIds) :
    Follows u l (l.deliverToLobby srcUuid json).lobby client
      ((l.deliverToLobby srcUuid json).out.foldl (receive u) client)
      (l.ChangesUser srcUuid json) := by
  simp only [deliverToLobby] at hlisted hpool ⊢
  split_ifs at hlisted hpool ⊢ with hchat hlogin hjoin hquit hnick
  · have hnews : NoNews [⟨[(json.findValue (str "target")).getUInt32], json.getObj⟩] := by
      intro reply hreply
      rw [List.mem_singleton.mp hreply]
      cases json with
      | object data =>
        rw [findValue_object (by decide)] at hchat
        rw [JsonValue.getObj, Reply.cmd, hchat]
        decide
      | _ => exact (by decide : ([] : Str) ∉ lobbyNews)
    rw [foldl_receive_noNews u hnews]
    exact follows_of_same hlisted rfl rfl (not_changesUser (by rw [hchat]; decide)
      (by rw [hchat]; decide) (by rw [hchat]; decide))
  · exact replyLogin_follows hlogin hlisted hpool
  · exact requestJoinTable_follows hjoin hlisted
  · exact requestQuitTable_follows hquit hlisted hpool
  · exact requestChangeNickname_follows hnick hlisted hpool
  · exact follows_of_same hlisted rfl rfl (not_changesUser hlogin hquit hnick)

theorem deliverToTable_follows (dealer : Dealer) (destUuid : ℕ)
    (hlisted : TablesListed (l.deliverToTable dealer srcUuid destUuid json).lobby.mTables
      (l.deliverToTable dealer srcUuid destUuid json).lobby.mTableIds) {changes : Prop}
    (hnot : ¬ changes) :
    Follows u l (l.deliverToTable dealer srcUuid destUuid json).lobby client
      ((l.deliverToTable dealer srcUuid destUuid json).out.foldl (receive u) client) changes := by
  simp only [deliverToTable] at hlisted ⊢
  split_ifs at hlisted ⊢ with hseated
  · have hnews : NoNews ((l.mTables.filter fun t => t.mId = destUuid).flatMap
        fun t => (t.executeRequest dealer srcUuid json).out) := by
      intro reply hreply
      obtain ⟨t, -, ht⟩ := List.mem_flatMap.mp hreply
      exact PlayingTable.executeRequest_noNews dealer t srcUuid json reply ht
    rw [foldl_receive_noNews u hnews]
    exact follows_of_same (l := l) hlisted rfl rfl hnot
  · exact follows_of_same hlisted rfl rfl hnot

theorem deliver_follows (dealer : Dealer) (req : Request) :
    Follows u l (l.deliver dealer req).lobby client
      ((l.deliver dealer req).out.foldl (receive u) client) (l.ChangesUsers req) := by
  intro h
  have hlisted := tablesListed_apply h.listed (.deliver dealer req)
  have hpool := (samePeers_deliver dealer l req).1
  have hused := h.listed.used
  simp only [apply] at hlisted
  revert h
  unfold ChangesUsers
  unfold deliver at hlisted hpool ⊢
  cases hparse : JsonReader.parseString req.arg with
  | none =>
    rw [hparse] at hlisted
    refine follows_of_same (l := l) hlisted rfl rfl ?_
    rintro ⟨-, json, hjson, -⟩
    cases hjson
  | some json =>
    rw [hparse] at hlisted hpool
    dsimp only at hlisted hpool ⊢
    by_cases htaken : l.mTableIds.isTaken req.destUuid = true
    · rw [if_pos htaken] at hlisted hpool ⊢
      refine deliverToTable_follows dealer req.destUuid hlisted ?_
      rintro ⟨hdest, -⟩
      have hid := hused _ ((UniqueId.isTaken_iff _ _).mp htaken)
      rw [hdest] at hid
      exact absurd hid.1 (by decide)
    rw [if_neg htaken] at hlisted hpool ⊢
    by_cases hdest : req.destUuid = lobbyUid
    swap
    · rw [if_neg hdest] at hlisted hpool ⊢
      exact follows_of_same hlisted rfl rfl fun hc => hdest hc.1
    rw [if_pos hdest] at hlisted hpool ⊢
    have hchanges : (req.destUuid = lobbyUid ∧
        ∃ json', some json = some json' ∧ l.ChangesUser req.srcUuid json') =
        l.ChangesUser req.srcUuid json := by
      refine propext ⟨?_, fun hc => ⟨hdest, json, rfl, hc⟩⟩
      rintro ⟨-, json', hjson, hc⟩
      rwa [Option.some_inj.mp hjson]
    rw [hchanges]
    exact deliverToLobby_follows hlisted hpool

theorem summary_removeUser (h : l.mUsers.getAll.Nodup) (uuid v : ℕ) :
    (l.removeUser uuid).mUsers.summary v = if v = uuid then none else l.mUsers.summary v := by
  have hmoved : (l.mUsers.setPlayingTable uuid 0 .nowhere).getAll.Nodup := by
    rw [Users.getAll_setPlayingTable]
    exact h
  simp only [removeUser]
  by_cases htable : l.mUsers.getPlayerTable uuid = lobbyUid
  · rw [if_neg (not_not.mpr htable), Users.summary_remove h]
  · rw [if_pos htable, removePlayerFromTable_mUsers]
    split_ifs with hhere hv hv
    · rw [hv, Users.summary_remove hmoved, if_pos rfl]
    · rw [Users.summary_remove hmoved, if_neg hv,
        Users.summary_setPlayingTable, if_neg hv]
    · rw [hv, Users.summary_remove h, if_pos rfl]
    · rw [Users.summary_remove h, if_neg hv]

theorem removeUser_proper (h : l.mUsers.Proper) (uuid : ℕ) : (l.removeUser uuid).mUsers.Proper := by
  simp only [removeUser]
  refine Users.Proper.remove ?_ uuid
  split_ifs
  · rw [removePlayerFromTable_mUsers]
    split_ifs
    · exact h.setPlayingTable uuid (by decide) .nowhere
    · exact h
  · exact h

/-- Who goes is on the client's list for ever. -/
theorem removeUser_follows {uuid : ℕ} (hne : uuid ≠ u) :
    Follows u l (l.removeUser uuid) client client (l.mUsers.isHere uuid = true) := by
  intro h
  have hproper : l.mUsers.Proper := h.proper
  have hsummary := summary_removeUser hproper.uuids uuid
  have hlisted : TablesListed (l.removeUser uuid).mTables (l.removeUser uuid).mTableIds :=
    tablesListed_apply h.listed (.removeUser uuid)
  refine h.unheard hlisted ?_ (removeUser_proper hproper uuid) ?_ ?_
  · rw [removeUser_mUserIds]
    exact ⟨h.pool.1, fun id hid => h.pool.2 id (List.mem_of_mem_erase hid)⟩
  · rw [Bool.eq_iff_iff, Users.isHere_iff_summary, Users.isHere_iff_summary, hsummary,
      if_neg hne.symm]
  · constructor
    · intro hsame hhere
      rw [Users.isHere_iff_summary, ← hsame, hsummary, if_pos rfl] at hhere
      exact Bool.false_ne_true hhere
    · intro hgone v
      rw [hsummary]
      split_ifs with hv
      · rw [hv, Users.summary_eq_none.mpr (Users.isHere_eq_false.mp (Bool.not_eq_true _ ▸ hgone))]
      · rfl

theorem replicated_removed (h : Replicated u (l, client)) : Replicated u (l.removeUser u, none) where
  listed := tablesListed_apply h.listed (.removeUser u)
  proper := removeUser_proper h.proper u
  pool := by
    dsimp only
    rw [removeUser_mUserIds]
    exact ⟨h.pool.1, fun id hid => h.pool.2 id (List.mem_of_mem_erase hid)⟩
  logged := by
    dsimp only
    rw [Users.isHere_iff_summary, summary_removeUser h.proper.uuids, if_pos rfl]
    exact Iff.rfl
  agree := fun ctx hctx => by cases hctx

theorem addUser_follows (peer : ℕ) : Follows u l (l.addUser peer).2 client client False := by
  intro h
  have hlisted : TablesListed (l.addUser peer).2.mTables (l.addUser peer).2.mTableIds :=
    tablesListed_apply h.listed (.addUser peer)
  refine h.unheard hlisted ?_ h.proper rfl (iff_of_true (fun _ => rfl) not_false)
  simp only [addUser, UniqueId.takeId_mMax]
  refine ⟨h.pool.1, ?_⟩
  rcases l.mUserIds.takeId_cases with ⟨-, hsame⟩ | ⟨⟨-, hle⟩, -, hused⟩
  · rw [hsame]
    exact h.pool.2
  · rw [hused]
    intro id hid
    rcases List.mem_append.mp hid with hid | hid
    · exact h.pool.2 id hid
    · rw [List.mem_singleton.mp hid]
      exact hle.trans h.pool.1.le

theorem createTable_follows (tableName : Str) (game : Game) (randomPlace : Place) :
    Follows u l (l.createTable tableName game randomPlace).2 client client False := by
  intro h
  have hlisted := tablesListed_apply h.listed (.createTable tableName game randomPlace)
  have hsame : (l.createTable tableName game randomPlace).2.mUsers = l.mUsers ∧
      (l.createTable tableName game randomPlace).2.mUserIds = l.mUserIds := by
    simp only [createTable]
    split_ifs
    · exact ⟨rfl, rfl⟩
    · exact ⟨rfl, rfl⟩
  exact follows_of_same hlisted hsame.2 hsame.1 not_false h

/-- What a call changes on the list of the lobby without the client's hearing of it. -/
theorem replicated_step (u : ℕ) (p : Lobby × Option PlayerContext) (c : LobbyCall)
    (h : Replicated u p) :
    (OnlyJoins u p c → Replicated u (observe apply (noteClient u) p c)) ∧
      (ListsAgree (observe apply (noteClient u) p c) → OnlyJoins u p c) := by
  obtain ⟨l, client⟩ := p
  cases c with
  | addUser peer =>
    exact ⟨fun _ => (addUser_follows peer h).1 fun _ => not_false, fun _ => trivial⟩
  | removeUser uuid =>
    by_cases hu : uuid = u
    · simp only [observe, apply, noteClient, OnlyJoins, if_pos hu]
      rw [hu]
      exact ⟨fun _ => replicated_removed h, fun _ _ hne => absurd rfl hne⟩
    · have hgone : OnlyJoins u (l, client) (.removeUser uuid) ↔
          (client.isSome = true → ¬ l.mUsers.isHere uuid = true) := by
        rw [OnlyJoins, Bool.not_eq_true]
        exact ⟨fun hok hlogged => hok hlogged hu, fun hok hlogged _ => hok hlogged⟩
      simp only [observe, apply, noteClient, if_neg hu, hgone]
      exact removeUser_follows hu h
  | createTable tableName game randomPlace =>
    exact ⟨fun _ => (createTable_follows tableName game randomPlace h).1 fun _ => not_false,
      fun _ => trivial⟩
  | destroyTable id =>
    have hlisted : TablesListed (l.destroyTable id).2.mTables (l.destroyTable id).2.mTableIds :=
      tablesListed_apply h.listed (.destroyTable id)
    have hkeep : Follows u l (l.destroyTable id).2 client client False :=
      follows_of_same (l := l) hlisted rfl rfl not_false
    exact ⟨fun _ => (hkeep h).1 fun _ => not_false, fun _ => trivial⟩
  | deliver dealer req => exact deliver_follows dealer req h

end Step

/-- Along every run of the lobby, the list that the client of a user keeps is the one of the lobby in
every state if and only if, while he is logged in, nobody else logs in or is removed, and nobody
leaves his table or takes another nickname. -/
theorem replica_agrees_iff (u : ℕ) (adminMode : Bool) (calls : List LobbyCall) :
    (∀ k, ListsAgree (run (observe apply (noteClient u))
        (({ mAdminMode := adminMode } : Lobby), none) (calls.take k))) ↔
      Guarded (observe apply (noteClient u)) (OnlyJoins u)
        (({ mAdminMode := adminMode } : Lobby), none) calls := by
  refine (guarded_iff_forall_take (Replicated u) ListsAgree (fun p h => h.agree)
    (fun p c h => (replicated_step u p c h).1) (fun p c h => (replicated_step u p c h).2) ?_
    calls).symm
  refine ⟨tablesListed_nil ⟨rfl, rfl⟩ rfl, ⟨List.nodup_nil, List.nodup_nil, ?_⟩, ⟨rfl, ?_⟩, ?_, ?_⟩
  · exact fun e he => absurd he List.not_mem_nil
  · exact fun id hid => absurd hid List.not_mem_nil
  · exact iff_of_false Bool.false_ne_true Bool.false_ne_true
  · intro ctx hctx
    cases hctx

/-- The client who was there first never hears of the second one. -/
theorem newcomer_is_not_listed :
    ¬ ∀ u calls k, ListsAgree (run (observe apply (noteClient u)) (({} : Lobby), none)
      (List.take k calls)) := by
  intro h
  have hagree := h 10 [.addUser 1, .addUser 2, loginAs 10 (str "a"), loginAs 11 (str "b")] 4
  have hlobby : (run (observe apply (noteClient 10)) (({} : Lobby), none) (List.take 4
      [.addUser 1, .addUser 2, loginAs 10 (str "a"), loginAs 11 (str "b")])).1.mUsers.summary 11 ≠
        none := by
    decide +kernel
  have hclient : (run (observe apply (noteClient 10)) (({} : Lobby), none) (List.take 4
      [.addUser 1, .addUser 2, loginAs 10 (str "a"), loginAs 11 (str "b")])).2.map
        (fun ctx => ctx.mUsers.summary 11) = some none := by
    decide +kernel
  obtain ⟨ctx, hctx, hnone⟩ := Option.map_eq_some_iff.mp hclient
  exact hlobby ((hagree ctx hctx 11).symm.trans hnone)

end Lobby

end TarotClub
