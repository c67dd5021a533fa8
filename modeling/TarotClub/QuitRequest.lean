import TarotClub.ClientContext
import TarotClub.JsonRoundTrip
import TarotClub.QuitTable

namespace TarotClub

open Machine

namespace PlayerContext

/-- The request is read as it was built. -/
theorem parse_buildQuitTable (id : ℕ) (hid : id ≤ 2 ^ 53) :
    JsonReader.parseString ((JsonValue.object (buildQuitTable id)).toString (-1)) =
      some (.object (buildQuitTable id)) := by
  have hentries : ∀ e ∈ buildQuitTable id,
      e = (str "cmd", .string (str "RequestQuitTable")) ∨ e = (str "table_id", .integer id) := by
    intro e he
    rcases List.mem_cons.mp he with rfl | he
    · exact .inl rfl
    · exact .inr (List.mem_singleton.mp he)
  refine JsonReader.parseString_toString_of_small (.object ?_ ?_ ?_) (.inr ⟨_, rfl⟩)
    (.object ?_ ?_) (-1)
  · refine List.pairwise_cons.mpr ⟨fun e he => ?_, List.pairwise_singleton _ _⟩
    rw [List.mem_singleton.mp he]
    exact (by decide : str "cmd" < str "table_id")
  · intro e he
    rcases hentries e he with rfl | rfl
    · exact (by decide : str "cmd" ≠ [] ∧ 0 ∉ str "cmd")
    · exact (by decide : str "table_id" ≠ [] ∧ 0 ∉ str "table_id")
  · intro e he
    rcases hentries e he with rfl | rfl
    · exact .string (by decide)
    · exact .integer (by omega) (by omega)
  · intro e he
    rcases hentries e he with rfl | rfl
    · exact (by decide +kernel : ∀ c ∈ str "cmd", c ≠ chr '"' ∧ c ≠ chr '\\' ∧ isCntrl c = false)
    · exact (by decide +kernel : ∀ c ∈ str "table_id", c ≠ chr '"' ∧ c ≠ chr '\\' ∧ isCntrl c = false)
  · intro e he
    rcases hentries e he with rfl | rfl
    · exact .string (by decide +kernel : ∀ c ∈ str "RequestQuitTable", c ≠ chr '"' ∧ isCntrl c = false)
    · refine .integer ?_
      rw [Nat.abs_cast]
      exact_mod_cast hid

end PlayerContext

/-- No command of a table is called so. -/
theorem PlayingTable.executeRequest_buildQuitTable (dealer : Dealer) (t : PlayingTable)
    (srcUuid id : ℕ) :
    t.executeRequest dealer srcUuid (.object (PlayerContext.buildQuitTable id)) =
      { table := t } := by
  have hcmd : ((JsonValue.object (PlayerContext.buildQuitTable id)).findValue
      (str "cmd")).getString = str "RequestQuitTable" := rfl
  rw [executeRequest, hcmd]
  rw [if_neg (by decide), if_neg (by decide), if_neg (by decide), if_neg (by decide),
    if_neg (by decide), if_neg (by decide), if_neg (by decide), if_neg (by decide)]

namespace Lobby

/-- The lobby after a reply of a client has been delivered to all its destinations. -/
def deliverReply (dealer : Dealer) (l : Lobby) (reply : Reply) (srcUuid : ℕ) : Lobby :=
  run (fun l req => (l.deliver dealer req).lobby) l (reply.requests srcUuid)

/-- Who sits on a seat of a table. -/
def seatHolder (l : Lobby) (id i : ℕ) : Option ℕ :=
  (l.findTable id).map fun t => (t.mPlayers i).uuid

/-- The user has left his seat at the table, and the other seats are as they were. -/
def QuitsSeat (l l' : Lobby) (uuid tableId : ℕ) : Prop :=
  ∀ id i, l'.seatHolder id i =
    if id = tableId ∧ l.seatHolder id i = some uuid then some invalidUid else l.seatHolder id i

theorem not_quitsSeat {l l' : Lobby} {uuid tableId : ℕ} (i : ℕ)
    (hseat : l.seatHolder tableId i = some uuid) (hseat' : l'.seatHolder tableId i = some uuid)
    (hne : uuid ≠ invalidUid) : ¬ l.QuitsSeat l' uuid tableId := by
  intro hquits
  have hfreed := hquits tableId i
  rw [hseat, hseat', if_pos ⟨rfl, rfl⟩, Option.some.injEq] at hfreed
  exact hne hfreed

theorem findTable_of_mem {l : Lobby} (h : TablesListed l.mTables l.mTableIds) {t : PlayingTable}
    (ht : t ∈ l.mTables) : l.findTable t.mId = some t := by
  cases hfind : l.findTable t.mId with
  | none =>
    have hnone := List.find?_eq_none.mp hfind t ht
    rw [decide_eq_true_iff] at hnone
    exact absurd rfl hnone
  | some t' =>
    have hid : t'.mId = t.mId := by simpa using List.find?_some hfind
    rw [List.inj_on_of_nodup_map h.nodup (List.mem_of_find?_eq_some hfind) ht hid]

/-- The tables stay as they are when each of them ignores what it gets. -/
theorem updateTables_eq_self {tables : List PlayingTable} (id : ℕ)
    {change : PlayingTable → PlayingTable} (h : ∀ t ∈ tables, change t = t) :
    updateTables id change tables = tables := by
  refine (List.map_congr_left fun t ht => ?_).trans (List.map_id tables)
  rw [h t ht, ite_self]
  rfl

/-- Wherever a client is seated, the request to quit that it builds leaves the whole lobby as it
was, and so the client keeps its seat. -/
theorem quit_request_ignored (adminMode : Bool) (calls : List LobbyCall) {t : PlayingTable}
    (ctx : PlayerContext) (hlogged : ctx.mMyself.isConnected = true)
    (hid : ctx.mMyself.tableId = t.mId)
    (hseat : (run apply ({ mAdminMode := adminMode } : Lobby) calls).SeatedAt ctx.mMyself.uuid t)
    (dealer : Dealer) :
    let l := run apply ({ mAdminMode := adminMode } : Lobby) calls
    let l' := l.deliverReply dealer (ctx.replyQuitTable t.mId) ctx.mMyself.uuid
    l' = l ∧ ¬ l.QuitsSeat l' ctx.mMyself.uuid t.mId := by
  have hlisted := tables_listed adminMode calls
  generalize run apply ({ mAdminMode := adminMode } : Lobby) calls = l at hseat hlisted
  obtain ⟨ht, i, hi, hu, hloc⟩ := hseat
  have hrange := hlisted.id_range ht
  have htaken : l.mTableIds.isTaken t.mId = true :=
    (UniqueId.isTaken_iff _ _).mpr (hlisted.taken t ht)
  have htable : l.mUsers.getPlayerTable ctx.mMyself.uuid = t.mId := by
    rw [Users.getPlayerTable_eq, hloc]
    rfl
  have hkeep : l.deliverReply dealer (ctx.replyQuitTable t.mId) ctx.mMyself.uuid = l := by
    have hparse := PlayerContext.parse_buildQuitTable t.mId (by omega)
    have htables : updateTables t.mId (fun t' => (t'.executeRequest dealer ctx.mMyself.uuid
        (.object (PlayerContext.buildQuitTable t.mId))).table) l.mTables = l.mTables :=
      updateTables_eq_self _ fun t' _ => by rw [PlayingTable.executeRequest_buildQuitTable]
    simp only [deliverReply, Reply.requests, PlayerContext.replyQuitTable, List.map_cons,
      List.map_nil, run_cons, run_nil, Lobby.deliver, hparse, hid, htaken, if_true,
      deliverToTable, htable, htables]
  have hholder : l.seatHolder t.mId i = some ctx.mMyself.uuid := by
    rw [seatHolder, findTable_of_mem hlisted ht, Option.map_some, hu]
  refine ⟨hkeep, not_quitsSeat i hholder (by rw [hkeep, hholder]) fun h0 => ?_⟩
  have huser : 10 ≤ ctx.mMyself.uuid := of_decide_eq_true hlogged
  rw [h0] at huser
  exact absurd huser (by decide)

/-- A player who sits on the first seat of a table. -/
def seatedClient (tableId : ℕ) : PlayerContext :=
  { mMyself := { uuid := 10, tableId := tableId, place := .south } }

theorem quit_request_ignored_seated :
    ∃ t : PlayingTable, ¬ (run apply ({} : Lobby) seatedCalls).QuitsSeat
      ((run apply ({} : Lobby) seatedCalls).deliverReply plainDealer
        ((seatedClient t.mId).replyQuitTable t.mId) (seatedClient t.mId).mMyself.uuid)
      (seatedClient t.mId).mMyself.uuid t.mId := by
  obtain ⟨t, hseat, -⟩ := seatedAt_seatedCalls
  exact ⟨t, (quit_request_ignored false seatedCalls (seatedClient t.mId) rfl rfl hseat
    plainDealer).2⟩

/-- The player of the first seat asks to quit the only table, and still sits there. -/
theorem quit_request_keeps_seat :
    ¬ (run apply ({} : Lobby) seatedCalls).QuitsSeat
      ((run apply ({} : Lobby) seatedCalls).deliverReply plainDealer
        ((seatedClient 1000).replyQuitTable 1000) 10) 10 1000 :=
  not_quitsSeat 0 (by decide +kernel) (by decide +kernel) (by decide)

end Lobby

end TarotClub
