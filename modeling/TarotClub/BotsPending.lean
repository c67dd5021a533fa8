import TarotClub.BotsServe
import TarotClub.FiveBots
import TarotClub.LobbyReplica

namespace TarotClub

open Machine

namespace Engine

variable {e : Engine} {a : Action}

/-- Only new cards lead into a deal. -/
theorem newDeal_of_isRunning (ha : e.Enabled a) (hbefore : e.mSequence.isRunning = false)
    (hafter : (e.act a).mSequence.isRunning = true) : ∃ deal, a = .newDeal deal := by
  have hsteps : ∀ {seq : Sequence}, e.mSequence = seq → seq.isRunning = false := by
    rintro _ rfl
    exact hbefore
  cases a with
  | stay => exact absurd (hbefore.symm.trans hafter) Bool.false_ne_true
  | newGame => exact absurd hafter Bool.false_ne_true
  | newDeal deal => exact ⟨deal, rfl⟩
  | manageAfterBid | discardSequence => cases hsteps ha
  | bid c slam p | discard cards | handle cards p | card c p | kingCall c => cases hsteps ha.1
  | bidSequence => rcases ha with hs | hs <;> cases hsteps hs
  | gameSequence => rcases ha with hs | hs | hs | hs | hs <;> cases hsteps hs

end Engine

/-- Whoever sits down is a user, and a request comes from somebody. -/
def Call.FromUser : Call → Prop
  | .addPlayer uuid => 10 ≤ uuid
  | .executeRequest _ srcUuid _ => srcUuid ≠ invalidUid
  | .removePlayer _ => True

instance : DecidablePred Call.FromUser
  | .addPlayer uuid => inferInstanceAs (Decidable (10 ≤ uuid))
  | .executeRequest _ srcUuid _ => inferInstanceAs (Decidable (srcUuid ≠ invalidUid))
  | .removePlayer _ => isTrue trivial

theorem Call.FromUser.hasSender {c : Call} (h : c.FromUser) : c.HasSender := by
  cases c with
  | executeRequest dealer srcUuid json => exact h
  | _ => trivial

namespace PlayingTable

/-- What holds of a table whose players are users, and whose deals begin with all of them. -/
structure Tended (n : ℕ) (t : PlayingTable) : Prop extends t.Barrier where
  players : t.nbPlayers = n
  counted : t.mEngine.Counted n
  kingless : t.mEngine.mSequence ≠ .waitForKingCall ∧ t.mEngine.mSequence ≠ .waitForShowKingCall
  users : ∀ i < t.nbPlayers, (t.mPlayers i).uuid ≠ invalidUid → 10 ≤ (t.mPlayers i).uuid
  seated : t.mEngine.mSequence.isRunning = true → t.Seated

variable {t : PlayingTable} {n u : ℕ} {p : Place} {c : Call}

/-- Cards are given out when everybody at the table has acknowledged. -/
theorem Barrier.seated_of_newDeal (ht : t.Barrier) (hsend : c.HasSender) {deal : Deal}
    (hdeal : t.action c = .newDeal deal) : t.Seated := by
  cases c with
  | addPlayer _ | removePlayer _ => cases hdeal
  | executeRequest dealer srcUuid json =>
    revert hdeal
    refine request_cases (R := fun _ a => a = Engine.Action.newDeal deal → t.Seated) dealer t
      srcUuid json ?_ ?_ ?_ ?_ ?_ ?_ ?_ ?_
    · intro he
      cases he
    · intro _ he
      simp only [ackAction] at he
      split_ifs at he with hsynced
      intro i hi hfree
      rcases (sync_fst _ _ _).mp hsynced.2.2 i hi with hup | ⟨huuid, -⟩
      · exact Bool.false_ne_true ((ht.free i hi hfree).symm.trans hup)
      · exact hsend (huuid.symm.trans hfree)
    · intro _ he
      split_ifs at he
    · intro _ he
      simp only [bidAction] at he
      split_ifs at he
    · intro _ he
      simp only [discardAction] at he
      split_ifs at he
    · intro _ he
      simp only [kingCallAction] at he
      split_ifs at he
    · intro _ he
      simp only [handleAction] at he
      split_ifs at he
    · intro _ he
      simp only [cardAction] at he
      split_ifs at he

theorem apply_executeRequest_uuid (t : PlayingTable) (dealer : Dealer) (srcUuid : ℕ)
    (json : JsonValue) (i : ℕ) :
    ((t.apply (.executeRequest dealer srcUuid json)).mPlayers i).uuid = (t.mPlayers i).uuid :=
  executeRequest_uuid dealer t srcUuid json i

theorem Tended.apply (h : t.Tended n) (hn : n = 3 ∨ n = 4) (huser : c.FromUser)
    (hkeep : t.KeepsSeats c) : (t.apply c).Tended n := by
  have hnb := apply_nbPlayers t c
  have henabled := h.toOpen.action_enabled c
  have hengine := apply_mEngine t c
  have hfour : t.mEngine.mCtx.mNbPlayers = n := h.players
  refine
    { toBarrier := h.toBarrier.apply c huser.hasSender
      players := hnb.trans h.players
      counted := ?_
      kingless := ?_
      users := ?_
      seated := ?_ }
  · rw [hengine]
    exact h.counted.act hfour (by omega) (by omega) henabled
  · rw [hengine]
    exact Engine.act_kingless henabled (by omega) h.kingless
  · intro i hi hne
    rw [hnb] at hi
    cases c with
    | addPlayer w =>
      rcases addPlayer_seat h.seats w i with hsame | ⟨-, huuid, -⟩
      · change 10 ≤ ((t.addPlayer w).2.mPlayers i).uuid
        rw [hsame]
        exact h.users i hi (hsame ▸ hne)
      · exact huser.trans_eq huuid.symm
    | removePlayer w =>
      rcases removePlayer_mPlayers t w i with hsame | ⟨hfree, -⟩
      · change 10 ≤ ((t.removePlayer w).mPlayers i).uuid
        rw [hsame]
        exact h.users i hi (hsame ▸ hne)
      · exact absurd (congrArg Challenger.uuid hfree) hne
    | executeRequest dealer srcUuid json =>
      rw [apply_executeRequest_uuid] at hne ⊢
      exact h.users i hi hne
  · intro hafter i hi
    rw [hnb] at hi
    cases hbefore : t.mEngine.mSequence.isRunning with
    | true =>
      rw [hkeep hbefore i hi]
      exact h.seated hbefore i hi
    | false =>
      rw [hengine] at hafter
      obtain ⟨deal, hdeal⟩ := Engine.newDeal_of_isRunning henabled hbefore hafter
      have hseated := h.toBarrier.seated_of_newDeal huser.hasSender hdeal
      cases c with
      | addPlayer _ | removePlayer _ => cases hdeal
      | executeRequest dealer srcUuid json =>
        rw [apply_executeRequest_uuid]
        exact hseated i hi

/-- Who is found on a seat sits there alone. -/
theorem Barrier.spot (ht : t.Barrier) (hu : u ≠ invalidUid) : t.Spot u (t.getPlayerPlace u) := by
  by_cases hp : t.getPlayerPlace u = .nowhere
  · rw [hp]
    exact .away ((getPlayerPlace_eq_nowhere ht.seats).mp hp)
  · obtain ⟨hlt, huuid⟩ := getPlayerPlace_of_ne ht.seats hp
    refine .seat hp hlt huuid fun i hi hi' => ?_
    exact ht.distinct i hi _ hlt (hi'.trans huuid.symm) (hi'.symm ▸ hu)

/-- In a deal nobody can sit down. -/
theorem addPlayer_of_isRunning (ht : t.Open) (hrunning : t.mEngine.mSequence.isRunning = true)
    {w : ℕ} (hkeep : t.KeepsSeats (.addPlayer w)) :
    (t.addPlayer w).1.isValid = false ∧ (t.addPlayer w).2 = t := by
  rcases addPlayer_cases ht.seats w with hnobody | ⟨i, hi, hfree, hw, -, -, -, huuid⟩
  · exact hnobody
  · have hsame := hkeep hrunning i hi
    rw [PlayingTable.apply, huuid, if_pos rfl, hfree] at hsame
    exact absurd hsame hw

/-- In a deal nobody can leave. -/
theorem removePlayer_of_isRunning (ht : t.Open) (hrunning : t.mEngine.mSequence.isRunning = true)
    (hseated : t.Seated) {w : ℕ} (hkeep : t.KeepsSeats (.removePlayer w)) :
    t.removePlayer w = t := by
  have haway : t.getPlayerPlace w = .nowhere := by
    refine (getPlayerPlace_eq_nowhere ht.seats).mpr fun i hi hw => ?_
    have hsame := hkeep hrunning i hi
    rw [PlayingTable.apply, removePlayer_uuid ht.seats w hi, if_pos hw] at hsame
    exact hseated i hi hsame.symm
  rw [removePlayer, if_neg (not_not.mpr haway)]

theorem Spot.eq (h : t.Spot u p) {q : Place} (h' : t.Spot u q) (hn : t.nbPlayers ≤ 5) : p = q :=
  (h.getPlayerPlace hn).symm.trans (h'.getPlayerPlace hn)

end PlayingTable

/-- What the table says tells nobody of another seat. -/
theorem News.foldl_sit {e : Engine} {p : Place} {a : Engine.Action} {msgs : List JsonObject}
    (h : News e p a msgs) (seat : Place × ℕ) : msgs.foldl sit seat = seat := by
  have hone : ∀ {m : JsonObject} {cmd : Str}, cmdOf m = cmd → cmd ≠ str "ReplyJoinTable" →
      [m].foldl sit seat = seat := by
    intro m cmd hcmd hne
    exact sit_of_ne (by rw [hcmd]; exact hne) seat
  have hidle : ∀ {msgs : List JsonObject}, (∀ m ∈ msgs, Idle m) → msgs.foldl sit seat = seat := by
    intro msgs hmsgs
    induction msgs with
    | nil => rfl
    | cons m msgs ih =>
      have hne : cmdOf m ≠ str "ReplyJoinTable" := by
        intro hcmd
        exact hmsgs m List.mem_cons_self (hcmd ▸ List.mem_cons_self)
      rw [List.foldl_cons, sit_of_ne hne]
      exact ih fun m' hm' => hmsgs m' (List.mem_cons_of_mem m hm')
  cases h with
  | stay | otherTaker _ => rfl
  | absent _ hmsgs => exact hidle hmsgs
  | idle _ hmsgs => exact hidle hmsgs
  | newDeal hcmd _ => exact hone hcmd (by decide)
  | showDog _ _ _ hcmd _ => exact hone hcmd (by decide)
  | buildDiscard _ _ hcmd => exact hone hcmd (by decide)
  | startDeal _ _ hcmd => exact hone hcmd (by decide)
  | showCard hcmd _ => exact hone hcmd (by decide)
  | endOfTrick _ hcmd => exact hone hcmd (by decide)
  | playCard _ _ hcmd _ => exact hone hcmd (by decide)

/-- Whoever has sat down knows the seat and the table. -/
theorem sit_replyJoinTable (seat : Place × ℕ) {tableId : ℕ} (hid : tableId < 2 ^ 32)
    (place : Place) (t : PlayingTable) :
    sit seat (Lobby.replyJoinTable tableId place t) = (place, tableId) := by
  have hplace : Place.ofString (textAt (Lobby.replyJoinTable tableId place t) "place") = place :=
    Place.ofString_toString place
  have htable : ((Lobby.replyJoinTable tableId place t).getKey (str "table_id")).getUInt32 =
      tableId := by
    have hget : (Lobby.replyJoinTable tableId place t).getKey (str "table_id") =
        .integer tableId := by
      unfold Lobby.replyJoinTable
      rfl
    rw [hget, Lobby.getUInt32_natCast hid]
  have hcmd : cmdOf (Lobby.replyJoinTable tableId place t) = str "ReplyJoinTable" := rfl
  rw [sit, if_pos hcmd, hplace, htable]

namespace BotTable

/-- A call comes from a user, or it seats one, and nobody interferes with a deal; the bots that handle
messages are logged in. -/
def Orderly (s : BotTable) : BotEvent → Prop
  | .call c => c.FromUser ∧ s.table.KeepsSeats c ∧ s.table.Outside c
  | .handle uuid _ => 10 ≤ uuid
  | .arrive _ _ => True

instance (s : BotTable) : DecidablePred s.Orderly
  | .call _ => inferInstanceAs (Decidable (_ ∧ _ ∧ _))
  | .handle uuid _ => inferInstanceAs (Decidable (10 ≤ uuid))
  | .arrive _ _ => isTrue trivial

/-- The bot has not read yet what it is asked, or what the table waits for is on its way. -/
inductive Pending (s : BotTable) (u : ℕ) (p : Place) : Prop
  | asked {pre : List JsonObject} {m : JsonObject} : (s.bots u).inbox = pre ++ [m] →
    Prompts s.table.mEngine p m → Pending s u p
  | answered {reply : Reply} : (u, reply) ∈ s.sent → s.table.mId ∈ reply.dest →
    Serves s.table.mEngine p reply.data → Pending s u p

/-- The taker cannot put enough cards aside. -/
def Stuck (n : ℕ) (s : BotTable) : Prop :=
  s.table.mEngine.mSequence = .waitForDiscard ∧ ¬ s.table.mEngine.CanDiscard n

/-- How a bot on a seat is prepared for what the table waits for. -/
structure Prepared (n : ℕ) (s : BotTable) (u : ℕ) (p : Place) : Prop where
  nbPlayers : (s.bots u).ctx.mGameState.mNbPlayers = 4
  seat : p ≠ .nowhere → (s.bots u).inbox.foldl sit (s.bots u).ctx.seat = (p, s.table.mId)
  pending : p ≠ .nowhere → s.table.mEngine.mSequence.isRunning = true → s.table.Waits p →
    s.Pending u p ∨ s.Stuck n

variable {n u : ℕ} {p : Place} {s : BotTable} {dealer : Dealer} {srcUuid : ℕ} {json : JsonValue}

theorem receive_eq_self {c : Call} (htable : s.table.apply c = s.table)
    (hsilent : s.table.sends c = []) : s.receive c = s := by
  have hbots : (fun u => (s.bots u).put (messagesTo u (s.table.sends c))) = s.bots := by
    funext u
    rw [hsilent]
    exact congrArg (fun inbox => ({ ctx := (s.bots u).ctx, inbox := inbox } : Client))
      (List.append_nil (s.bots u).inbox)
  rw [receive, htable, hbots]

/-- In a deal nobody comes or goes. -/
theorem receive_addPlayer (ht : s.table.Open) (hrunning : s.table.mEngine.mSequence.isRunning = true)
    {w : ℕ} (hkeep : s.table.KeepsSeats (.addPlayer w)) : s.receive (.addPlayer w) = s := by
  obtain ⟨hinvalid, hsame⟩ := PlayingTable.addPlayer_of_isRunning ht hrunning hkeep
  refine receive_eq_self hsame ?_
  simp only [PlayingTable.sends]
  rw [if_neg (Bool.eq_false_iff.mp hinvalid)]

theorem receive_removePlayer (ht : s.table.Tended n)
    (hrunning : s.table.mEngine.mSequence.isRunning = true) {w : ℕ}
    (hkeep : s.table.KeepsSeats (.removePlayer w)) : s.receive (.removePlayer w) = s :=
  receive_eq_self
    (PlayingTable.removePlayer_of_isRunning ht.toOpen hrunning (ht.seated hrunning) hkeep) rfl

/-- A request: the bot has been told of what follows, and if nothing follows, it has to be seen that
what is waited for does not get lost. -/
theorem Prepared.request (h : s.Prepared n u p) (hn : n = 3 ∨ n = 4) (ht : s.table.Tended n)
    (htaken : s.table.mEngine.Taken) (hspot : s.table.Spot u p) (hu : u ≠ invalidUid)
    {sent : List (ℕ × Reply)}
    (hkept : s.table.action (.executeRequest dealer srcUuid json) = .stay → p ≠ .nowhere →
      s.table.mEngine.mSequence.isRunning = true →
      (s.table.apply (.executeRequest dealer srcUuid json)).Waits p → ∀ reply,
        (u, reply) ∈ s.sent → Serves s.table.mEngine p reply.data → (u, reply) ∈ sent) :
    (({ s with sent := sent } : BotTable).receive (.executeRequest dealer srcUuid json)).Prepared
      n u p := by
  have hnews := hspot.executeRequest hu ht.toOpen dealer srcUuid json fun hs =>
    htaken.taker_lt (by rw [hs]; rfl)
  refine ⟨h.nbPlayers, fun hp => ?_, fun hp hrunning hwaits => ?_⟩
  · change ((s.bots u).inbox ++ messagesTo u
      (s.table.executeRequest dealer srcUuid json).out).foldl sit (s.bots u).ctx.seat =
        (p, (s.table.executeRequest dealer srcUuid json).table.mId)
    rw [List.foldl_append, h.seat hp, hnews.foldl_sit, PlayingTable.executeRequest_mId]
  · have htold := hspot.toldRequest hu hp ht.toOpen ht.kingless.1 dealer srcUuid json
    have hengine := PlayingTable.apply_mEngine s.table (.executeRequest dealer srcUuid json)
    change (s.table.apply (.executeRequest dealer srcUuid json)).Waits p at hwaits
    change (s.table.apply (.executeRequest dealer srcUuid json)).mEngine.mSequence.isRunning = true
      at hrunning
    change Told (s.table.apply (.executeRequest dealer srcUuid json)).mEngine p
      (s.table.action (.executeRequest dealer srcUuid json)) _ at htold
    have hinbox : ((({ s with sent := sent } : BotTable).receive
        (.executeRequest dealer srcUuid json)).bots u).inbox = (s.bots u).inbox ++
          messagesTo u (s.table.executeRequest dealer srcUuid json).out := rfl
    generalize messagesTo u (s.table.executeRequest dealer srcUuid json).out = msgs at htold hinbox
    generalize haction : s.table.action (.executeRequest dealer srcUuid json) = a
      at htold hengine hkept
    cases htold with
    | stay =>
      have hsame : (s.table.apply (.executeRequest dealer srcUuid json)).mEngine =
          s.table.mEngine := hengine
      rw [hsame] at hrunning
      have hbefore : s.table.Waits p := by
        rcases hwaits with ⟨hacked, hdown⟩ | hmove
        · refine .inl ⟨hsame ▸ hacked, ?_⟩
          rw [← Bool.not_eq_true] at hdown ⊢
          refine fun hup => hdown (ht.toOpen.ack_of_stay ?_ hrunning haction hup)
          have hplayers := ht.players
          omega
        · exact .inr (hsame ▸ hmove)
      refine (h.pending hp hrunning hbefore).imp (fun hpending => ?_) fun hstuck => ?_
      · cases hpending with
        | @asked pre m hwaiting hprompts =>
          refine .asked (hinbox.trans ((List.append_nil _).trans hwaiting)) ?_
          change Prompts (s.table.apply (.executeRequest dealer srcUuid json)).mEngine p m
          rw [hsame]
          exact hprompts
        | @answered reply hsent hdest hserves =>
          refine .answered (hkept rfl hp hrunning hwaits reply hsent hserves) ?_ ?_
          · change (s.table.executeRequest dealer srcUuid json).table.mId ∈ reply.dest
            rw [PlayingTable.executeRequest_mId]
            exact hdest
          · change Serves (s.table.apply (.executeRequest dealer srcUuid json)).mEngine p reply.data
            rw [hsame]
            exact hserves
      · change (s.table.apply (.executeRequest dealer srcUuid json)).mEngine.mSequence = _ ∧
          ¬ (s.table.apply (.executeRequest dealer srcUuid json)).mEngine.CanDiscard n
        rw [hsame]
        exact hstuck
    | silent _ hnot => exact absurd hwaits.expects hnot
    | message _ hprompts => exact .inl (.asked hinbox (hprompts hwaits.expects))

/-- Whoever sits down is told where. -/
theorem Prepared.addPlayer (h : s.Prepared n u p) (ht : s.table.Tended n)
    (hspot : s.table.Spot u p) (hu : u ≠ invalidUid) (hid : s.table.mId < 2 ^ 32) {w : ℕ}
    (hkeep : s.table.KeepsSeats (.addPlayer w)) {q : Place}
    (hspot' : (s.table.addPlayer w).2.Spot u q) :
    (s.receive (.addPlayer w)).Prepared n u q := by
  by_cases hrunning : s.table.mEngine.mSequence.isRunning = true
  · rw [(PlayingTable.addPlayer_of_isRunning ht.toOpen hrunning hkeep).2] at hspot'
    rw [receive_addPlayer ht.toOpen hrunning hkeep, hspot'.eq hspot ht.seats]
    exact h
  have hq := (hspot.addPlayer ht.seats hu w).eq hspot'
    ((PlayingTable.addPlayer_nbPlayers s.table w).trans_le ht.seats)
  have hengine := PlayingTable.addPlayer_mEngine s.table w
  refine ⟨h.nbPlayers, fun hne => ?_, fun _ hrunning' => ?_⟩
  swap
  · change (s.table.addPlayer w).2.mEngine.mSequence.isRunning = true at hrunning'
    rw [hengine] at hrunning'
    exact absurd hrunning' hrunning
  change ((s.bots u).inbox ++ messagesTo u (s.table.sends (.addPlayer w))).foldl sit
    (s.bots u).ctx.seat = (q, (s.table.addPlayer w).2.mId)
  rw [PlayingTable.addPlayer_mId]
  by_cases hjoins : w = u ∧ (s.table.addPlayer w).1.isValid = true
  · rw [if_pos hjoins] at hq
    have hsends : messagesTo u (s.table.sends (.addPlayer w)) =
        [Lobby.replyJoinTable s.table.mId (s.table.addPlayer w).1 (s.table.addPlayer w).2] := by
      simp only [PlayingTable.sends, if_pos hjoins.2]
      rw [PlayingTable.messagesTo_singleton, if_pos hjoins.1]
    rw [hsends, List.foldl_append, ← hq]
    exact sit_replyJoinTable ((s.bots u).inbox.foldl sit (s.bots u).ctx.seat) hid _ _
  · rw [if_neg hjoins] at hq
    have hsends : messagesTo u (s.table.sends (.addPlayer w)) = [] := by
      simp only [PlayingTable.sends]
      split_ifs with hvalid
      · rw [PlayingTable.messagesTo_singleton, if_neg fun hw => hjoins ⟨hw, hvalid⟩]
      · rfl
    rw [hsends, List.append_nil, ← hq]
    exact h.seat (hq ▸ hne)

theorem Prepared.removePlayer (h : s.Prepared n u p) (ht : s.table.Tended n)
    (hspot : s.table.Spot u p) (hu : u ≠ invalidUid) {w : ℕ}
    (hkeep : s.table.KeepsSeats (.removePlayer w)) {q : Place}
    (hspot' : (s.table.removePlayer w).Spot u q) :
    (s.receive (.removePlayer w)).Prepared n u q := by
  by_cases hrunning : s.table.mEngine.mSequence.isRunning = true
  · rw [PlayingTable.removePlayer_of_isRunning ht.toOpen hrunning (ht.seated hrunning) hkeep]
      at hspot'
    rw [receive_removePlayer ht hrunning hkeep, hspot'.eq hspot ht.seats]
    exact h
  have hq := (hspot.removePlayer ht.seats hu w).eq hspot'
    ((PlayingTable.removePlayer_nbPlayers s.table w).trans_le ht.seats)
  have hengine := PlayingTable.removePlayer_mEngine s.table w
  refine ⟨h.nbPlayers, fun hne => ?_, fun _ hrunning' => ?_⟩
  · have hw : w ≠ u := by
      intro hw
      rw [if_pos hw] at hq
      exact hne hq.symm
    rw [if_neg hw] at hq
    change ((s.bots u).inbox ++ []).foldl sit (s.bots u).ctx.seat =
      (q, (s.table.removePlayer w).mId)
    rw [PlayingTable.removePlayer_mId, List.append_nil, ← hq]
    exact h.seat (hq ▸ hne)
  · change (s.table.removePlayer w).mEngine.mSequence.isRunning = true at hrunning'
    rw [hengine] at hrunning'
    exact absurd hrunning' hrunning

theorem handle_table (s : BotTable) (w : ℕ) (script : Script) :
    (s.handle w script).table = s.table := by
  cases hinbox : (s.bots w).inbox with
  | nil => rw [handle_nil hinbox]
  | cons m rest => rw [handle_cons hinbox]

/-- A bot handles a message: its own one, or another bot does. -/
theorem Prepared.handle (h : s.Prepared n u p) (hn : n = 3 ∨ n = 4) (hagree : Agreeing n u s)
    (hu : 10 ≤ u) (hspot : s.table.Spot u p) (w : ℕ) (script : Script) :
    (s.handle w script).Prepared n u p := by
  cases hinbox : (s.bots w).inbox with
  | nil =>
    rw [handle_nil hinbox]
    exact h
  | cons m rest =>
    rw [handle_cons hinbox]
    have hsent : ∀ message ∈ s.sent, message ∈ s.sent ++
        (Bot.handleRequest script (s.bots w).ctx m).2.map fun reply => (w, reply) :=
      fun message hmessage => List.mem_append_left _ hmessage
    by_cases hw : w = u
    swap
    · refine ⟨?_, fun hp => ?_, fun hp hrunning hwaits => ?_⟩
      · dsimp only
        rw [Function.update_of_ne (Ne.symm hw)]
        exact h.nbPlayers
      · dsimp only
        rw [Function.update_of_ne (Ne.symm hw)]
        exact h.seat hp
      · refine (h.pending hp hrunning hwaits).imp_left fun hpending => ?_
        cases hpending with
        | @asked pre m' hwaiting hprompts =>
          have hsame : (Function.update s.bots w
              { ctx := (Bot.handleRequest script (s.bots w).ctx m).1, inbox := rest } u).inbox =
                pre ++ [m'] := by
            rw [Function.update_of_ne (Ne.symm hw)]
            exact hwaiting
          exact .asked hsame hprompts
        | answered hmem hdest hserves => exact .answered (hsent _ hmem) hdest hserves
    subst hw
    have hconnected : (s.bots w).ctx.mMyself.isConnected = true := by
      rw [Player.isConnected, hagree.uuid]
      exact decide_eq_true hu
    have hminds := Bot.handleRequest_minds script hconnected m
    refine ⟨?_, fun hp => ?_, fun hp hrunning hwaits => ?_⟩
    · dsimp only
      rw [Function.update_self]
      exact hminds.nbPlayers.trans h.nbPlayers
    · have hseat := h.seat hp
      rw [hinbox, List.foldl_cons] at hseat
      dsimp only
      rw [Function.update_self, hminds.seat]
      exact hseat
    · rcases h.pending hp hrunning hwaits with hpending | hstuck
      swap
      · exact .inr hstuck
      cases hpending with
      | answered hmem hdest hserves => exact .inl (.answered (hsent _ hmem) hdest hserves)
      | @asked pre m' hwaiting hprompts =>
        rw [hinbox] at hwaiting
        cases pre with
        | cons m0 pre =>
          have hbehind : (Function.update s.bots w
              { ctx := (Bot.handleRequest script (s.bots w).ctx m).1, inbox := rest } w).inbox =
                pre ++ [m'] := by
            rw [Function.update_self]
            exact (List.cons.inj hwaiting).2
          exact .inl (.asked hbehind hprompts)
        | nil =>
          obtain ⟨rfl, rfl⟩ := List.cons.inj hwaiting
          obtain ⟨plays, hdeal⟩ := hagree.deal
          obtain ⟨q, hspot', hstanding⟩ := hagree.standing
          obtain rfl := hspot'.eq hspot hdeal.seats
          have hseat := h.seat hp
          rw [hinbox] at hseat hstanding
          have hserved := Bot.handleRequest_serves hn script hconnected h.nbPlayers hdeal.phase
            hdeal.taken hp hstanding hseat hprompts
          refine hserved.imp_left ?_
          rintro ⟨reply, hreply, hdest, hserves⟩
          exact .answered (List.mem_append_right _ (List.mem_map_of_mem hreply)) hdest hserves

/-- What holds of a table at which three or four bots sit. -/
structure Diligent (n : ℕ) (s : BotTable) : Prop where
  tended : s.table.Tended n
  tableId : s.table.mId < 2 ^ 32
  senders : ∀ message ∈ s.sent, 10 ≤ message.1
  agreeing : ∀ u, 10 ≤ u → Agreeing n u s
  prepared : ∀ u, 10 ≤ u → ∀ p, s.table.Spot u p → s.Prepared n u p

theorem Diligent.inDeal (h : s.Diligent n) : ∃ plays, s.table.InDeal n plays :=
  (h.agreeing 10 le_rfl).deal

/-- A message that gets lost was perhaps an answer. -/
theorem Agreeing.drop (h : Agreeing n u s) (i : ℕ) :
    Agreeing n u { s with sent := s.sent.eraseIdx i } := by
  obtain ⟨p, hspot, hstanding⟩ := h.standing
  have hsub : (answersOf u (s.sent.eraseIdx i)).Sublist (answersOf u s.sent) :=
    ((List.eraseIdx_sublist s.sent i).filter _).map _
  refine ⟨h.deal, fun message hm => h.bidding message (List.mem_of_mem_eraseIdx hm), h.uuid, p,
    hspot, ?_⟩
  change Standing s.table.mEngine p (s.bots u).ctx.view (s.bots u).inbox
    (answersOf u (s.sent.eraseIdx i))
  generalize answersOf u (s.sent.eraseIdx i) = answers at hsub
  generalize answersOf u s.sent = answers' at hsub hstanding
  cases hstanding with
  | calm hnone hquiet hfollows =>
    subst hnone
    exact .calm (List.sublist_nil.mp hsub) hquiet hfollows
  | asked hp hnone hinbox hquiet hrequest hfollows =>
    subst hnone
    exact .asked hp (List.sublist_nil.mp hsub) hinbox hquiet hrequest hfollows
  | lost hp hinbox hnone howes =>
    subst hnone
    exact .lost hp hinbox (List.sublist_nil.mp hsub) howes
  | answered hp hinbox hone hanswer =>
    subst hone
    rcases List.sublist_singleton.mp hsub with hnone | hone
    · exact .lost hp hinbox hnone hanswer.owes
    · exact .answered hp hinbox hone hanswer

/-- A discard that the table does not take changes nothing. -/
theorem receive_refused {reply : Reply} {w : ℕ}
    (hrefused : ¬ s.table.AcceptsDiscard w reply.data) :
    s.receive (.executeRequest dealer w (.object reply.data)) = s := by
  simp only [PlayingTable.AcceptsDiscard, Classical.not_imp] at hrefused
  obtain ⟨hcmd, hs, htaker, htest⟩ := hrefused
  have hanswers : PlayingTable.Answers
      ((JsonValue.object reply.data).findValue (str "cmd")).getString .waitForDiscard := by
    rw [findValue_object (by decide)]
    change PlayingTable.Answers (cmdOf reply.data) _
    rw [hcmd]
    exact .discard
  have hexecute : s.table.executeRequest dealer w (.object reply.data) = { table := s.table } := by
    rw [PlayingTable.executeRequest_of_answers dealer _ _ _ hanswers]
    refine PlayingTable.executeDiscard_refused (.inr (.inr ?_))
    rw [findValue_object (by decide)]
    exact eq_false_of_ne_true htest
  refine receive_eq_self ?_ ?_
  · exact congrArg Response.table hexecute
  · exact congrArg Response.out hexecute

/-- The calls that the table receives come from users, who keep their seats in a deal. -/
theorem Diligent.called (h : s.Diligent n) {event : BotEvent} (horderly : s.Orderly event) {c : Call}
    (hc : c ∈ s.called event) : c.FromUser ∧ s.table.KeepsSeats c := by
  cases event with
  | call c' =>
    obtain rfl := Option.some.inj hc
    exact ⟨horderly.1, horderly.2.1⟩
  | handle w script => cases hc
  | arrive i dealer =>
    obtain ⟨message, hmessage, rfl⟩ := Option.mem_map.mp hc
    refine ⟨fun hnobody => ?_, fun _ j _ => PlayingTable.apply_executeRequest_uuid ..⟩
    have hsender := h.senders message (List.mem_of_getElem? hmessage)
    rw [hnobody] at hsender
    exact absurd hsender (by decide)

theorem arrive_refused {i : ℕ} {message : ℕ × Reply} (hmessage : s.sent[i]? = some message)
    (hrefused : ¬ s.table.AcceptsDiscard message.1 message.2.data) :
    s.arrive i dealer = { s with sent := s.sent.eraseIdx i } := by
  rw [BotTable.arrive, hmessage]
  dsimp only
  split_ifs
  · exact receive_refused (s := { s with sent := s.sent.eraseIdx i }) hrefused
  · rfl

/-- A bot agrees with the table, also where its discard is not taken. -/
theorem Diligent.agreeing_step (h : s.Diligent n) (hn : n = 3 ∨ n = 4) {event : BotEvent}
    (horderly : s.Orderly event) (hfair : s.DealsFair n event) (hu : 10 ≤ u) :
    Agreeing n u (s.step event) := by
  have hn5 : n = 3 ∨ n = 4 ∨ n = 5 := by omega
  have hbefore := h.agreeing u hu
  cases event with
  | call c => exact hbefore.step hn5 hu horderly.2 hfair
  | handle w script => exact hbefore.step hn5 hu trivial hfair
  | arrive i dealer =>
    by_cases haccepts : ∀ message ∈ s.sent[i]?, s.table.AcceptsDiscard message.1 message.2.data
    · exact hbefore.step hn5 hu haccepts hfair
    · push Not at haccepts
      obtain ⟨message, hmessage, hrefused⟩ := haccepts
      rw [step, arrive_refused hmessage hrefused]
      exact hbefore.drop i

theorem apply_mId (t : PlayingTable) (c : Call) : (t.apply c).mId = t.mId := by
  cases c with
  | addPlayer w => exact PlayingTable.addPlayer_mId t w
  | removePlayer w => exact PlayingTable.removePlayer_mId t w
  | executeRequest dealer srcUuid json => exact PlayingTable.executeRequest_mId dealer t srcUuid json

/-- What arrives is not waited for any more, and the rest is still on its way. -/
theorem Diligent.prepared_arrive (h : s.Diligent n) (hn : n = 3 ∨ n = 4) {i : ℕ} (hu : 10 ≤ u)
    (hspot : (s.arrive i dealer).table.Spot u p) : (s.arrive i dealer).Prepared n u p := by
  have hne : u ≠ invalidUid := by
    rintro rfl
    exact absurd hu (by decide)
  obtain ⟨plays, hdeal⟩ := h.inDeal
  rw [BotTable.arrive] at hspot ⊢
  cases hi : s.sent[i]? with
  | none =>
    rw [hi] at hspot
    exact h.prepared u hu p hspot
  | some message =>
    obtain ⟨w, reply⟩ := message
    rw [hi] at hspot
    have hleft : ∀ {reply' : Reply}, (u, reply') ∈ s.sent → ¬ (w = u ∧ reply = reply') →
        (u, reply') ∈ s.sent.eraseIdx i := by
      intro reply' hmem hother
      obtain ⟨j, hj⟩ := List.getElem?_of_mem hmem
      refine List.mem_eraseIdx_iff_getElem?.mpr ⟨j, ?_, hj⟩
      rintro rfl
      rw [hi] at hj
      obtain ⟨rfl, rfl⟩ := Prod.mk.inj (Option.some.inj hj)
      exact hother ⟨rfl, rfl⟩
    dsimp only at hspot ⊢
    split_ifs at hspot ⊢ with hdest
    · have hbefore : s.table.Spot u p := by
        refine hspot.congr (PlayingTable.apply_nbPlayers s.table _).symm fun j => ?_
        exact (PlayingTable.apply_executeRequest_uuid ..).symm
      refine (h.prepared u hu p hbefore).request hn h.tended hdeal.taken hbefore hne ?_
      intro hstay hp hrunning hwaits reply' hmem hserves
      refine hleft hmem ?_
      rintro ⟨rfl, rfl⟩
      exact hbefore.not_waits hp h.tended.seats hrunning hserves dealer hstay hwaits
    · have hbefore := h.prepared u hu p hspot
      refine ⟨hbefore.nbPlayers, hbefore.seat, fun hp hrunning hwaits => ?_⟩
      refine (hbefore.pending hp hrunning hwaits).imp_left fun hpending => ?_
      cases hpending with
      | asked hinbox hprompts => exact .asked hinbox hprompts
      | answered hmem hdest' hserves =>
        refine .answered (hleft hmem ?_) hdest' hserves
        rintro ⟨rfl, rfl⟩
        exact hdest hdest'

theorem Diligent.step (h : s.Diligent n) (hn : n = 3 ∨ n = 4) {event : BotEvent}
    (horderly : s.Orderly event) (hfair : s.DealsFair n event) : (s.step event).Diligent n := by
  have hne : ∀ {u : ℕ}, 10 ≤ u → u ≠ invalidUid := by
    rintro u hu rfl
    exact absurd hu (by decide)
  obtain ⟨plays, hdeal⟩ := h.inDeal
  refine ⟨?_, ?_, ?_, fun u hu => h.agreeing_step hn horderly hfair hu, fun u hu p hspot => ?_⟩
  · rcases s.step_table event with hsame | ⟨c, hc, happly⟩
    · rw [hsame]
      exact h.tended
    · obtain ⟨huser, hkeep⟩ := h.called horderly hc
      rw [happly]
      exact h.tended.apply hn huser hkeep
  · rcases s.step_table event with hsame | ⟨c, -, happly⟩
    · rw [hsame]
      exact h.tableId
    · rw [happly, apply_mId]
      exact h.tableId
  · intro message hmessage
    cases event with
    | call c => exact h.senders message hmessage
    | handle w script =>
      rw [BotTable.step] at hmessage
      cases hinbox : (s.bots w).inbox with
      | nil =>
        rw [handle_nil hinbox] at hmessage
        exact h.senders message hmessage
      | cons m rest =>
        rw [handle_cons hinbox] at hmessage
        rcases List.mem_append.mp hmessage with hold | hnew
        · exact h.senders message hold
        · obtain ⟨reply, -, rfl⟩ := List.mem_map.mp hnew
          exact horderly
    | arrive i dealer =>
      rw [BotTable.step, BotTable.arrive] at hmessage
      cases hi : s.sent[i]? with
      | none =>
        rw [hi] at hmessage
        exact h.senders message hmessage
      | some first =>
        rw [hi] at hmessage
        dsimp only at hmessage
        have hmem : message ∈ s.sent.eraseIdx i := by
          split_ifs at hmessage
          · exact hmessage
          · exact hmessage
        exact h.senders message (List.mem_of_mem_eraseIdx hmem)
  · cases event with
    | handle w script =>
      have hsame : s.table.Spot u p := handle_table s w script ▸ hspot
      exact (h.prepared u hu p hsame).handle hn (h.agreeing u hu) hu hsame w script
    | arrive i dealer => exact h.prepared_arrive hn hu hspot
    | call c =>
      have hbefore := h.tended.spot (hne hu)
      have hprepared := h.prepared u hu _ hbefore
      cases c with
      | addPlayer w =>
        exact hprepared.addPlayer h.tended hbefore (hne hu) h.tableId horderly.2.1 hspot
      | removePlayer w => exact hprepared.removePlayer h.tended hbefore (hne hu) horderly.2.1 hspot
      | executeRequest dealer srcUuid json =>
        have hsame : s.table.Spot u p := by
          refine hspot.congr (PlayingTable.apply_nbPlayers s.table _).symm fun j => ?_
          exact (PlayingTable.apply_executeRequest_uuid ..).symm
        refine (h.prepared u hu p hsame).request hn h.tended hdeal.taken hsame (hne hu) ?_
        exact fun _ _ _ _ reply hmem _ => hmem

theorem start_diligent (t : PlayingTable) (hn : n = 3 ∨ n = 4) (randomPlace : Place)
    (hid : t.mId < 2 ^ 32) : (start t n randomPlace).Diligent n := by
  have hn5 : n = 3 ∨ n = 4 ∨ n = 5 := by omega
  have hfree : ∀ i < n, ((t.createTable n randomPlace).mPlayers i).uuid = invalidUid := by
    intro i hi
    rw [PlayingTable.createTable_mPlayers t randomPlace (by omega) hi]
  refine ⟨⟨PlayingTable.createTable_barrier t randomPlace (by omega), rfl,
    (PlayingTable.createTable_paced t randomPlace hn5).counted, ?_, ?_, ?_⟩, hid, ?_, ?_, ?_⟩
  · exact ⟨Sequence.noConfusion, Sequence.noConfusion⟩
  · exact fun i hi hne => absurd (hfree i hi) hne
  · exact fun hrunning => absurd hrunning Bool.false_ne_true
  · exact fun message hmessage => absurd hmessage List.not_mem_nil
  · intro u hu
    refine start_agreeing t hn5 randomPlace ?_
    rintro rfl
    exact absurd hu (by decide)
  · intro u hu p hspot
    have haway : p = .nowhere := by
      cases hspot with
      | away _ => rfl
      | seat _ hlt huuid _ =>
        have hu0 : invalidUid = u := (hfree _ hlt).symm.trans huuid
        rw [← hu0] at hu
        exact absurd hu (by decide)
    exact ⟨rfl, fun hp => absurd haway hp, fun hp => absurd haway hp⟩

end BotTable

end TarotClub
