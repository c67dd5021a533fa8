import TarotClub.BotsPending

namespace TarotClub

open Machine

/-- Cards have been given out and the deal is not over. -/
def Sequence.isUnderWay (seq : Sequence) : Bool := seq.isDealt && !seq.isOver

theorem Sequence.isRunning_of_isUnderWay {seq : Sequence} :
    seq.isUnderWay = true → seq.isRunning = true := by
  cases seq <;> decide

namespace Engine

variable {e : Engine}

/-- Within a deal no cards are given out. -/
theorem Enabled.not_newDeal {deal : Deal} (ha : e.Enabled (.newDeal deal)) :
    e.mSequence.isUnderWay = false := by
  rcases ha with hs | hs | hs <;> rw [hs] <;> rfl

end Engine

theorem Told.of_stay {e : Engine} {p : Place} {a : Engine.Action} {msgs : List JsonObject}
    (h : Told e p a msgs) (ha : a = .stay) : msgs = [] := by
  cases h with
  | stay | silent _ _ => rfl
  | message hne _ => exact absurd ha hne

theorem Told.length_le {e : Engine} {p : Place} {a : Engine.Action} {msgs : List JsonObject}
    (h : Told e p a msgs) : msgs.length ≤ 1 := by
  cases h with
  | stay | silent _ _ => exact Nat.zero_le 1
  | message _ _ => exact le_rfl

namespace BotTable

variable {n u : ℕ} {p : Place} {s : BotTable} {dealer : Dealer} {srcUuid : ℕ} {json : JsonValue}

def isSeated (s : BotTable) (uuid : ℕ) : Bool := s.table.getPlayerPlace uuid ≠ .nowhere

/-- The moves that the deal still has, each of which tells every player one thing, and what the
players have not read yet. -/
def load (n : ℕ) (s : BotTable) : ℕ :=
  n * s.table.mEngine.toGo n +
    ∑ i ∈ Finset.range n, (s.bots (s.table.mPlayers i).uuid).inbox.length

/-- A message that is read is answered by two at most. -/
def work (n : ℕ) (s : BotTable) : ℕ :=
  3 * s.load n + s.sent.countP fun message => s.isSeated message.1

/-- A player of the table handles a message, or a message of a player arrives. -/
def works (s : BotTable) : BotEvent → Bool
  | .call _ => false
  | .handle uuid _ => s.isSeated uuid && !(s.bots uuid).inbox.isEmpty
  | .arrive i _ => s.sent[i]?.any fun message => s.isSeated message.1

/-- In a deal no new game begins. -/
theorem Diligent.not_newGame (h : s.Diligent n)
    (hrunning : s.table.mEngine.mSequence.isRunning = true) {event : BotEvent}
    (horderly : s.Orderly event) {c : Call} (hc : c ∈ s.called event) :
    s.table.action c ≠ .newGame := by
  intro hgame
  have hasks : ∀ dealer srcUuid json, s.table.requestAction dealer srcUuid json = .newGame →
      (json.findValue (str "cmd")).getString = str "RequestNewGame" := by
    intro dealer srcUuid json haction
    have hbehind := PlayingTable.behind_requestAction h.tended.toOpen dealer srcUuid json
    rw [haction] at hbehind
    rcases hbehind with hcmd | hout
    · exact hcmd
    · exact absurd (hout.symm.trans hrunning) Bool.false_ne_true
  cases event with
  | handle uuid script => cases hc
  | arrive i dealer =>
    obtain ⟨message, hmessage, rfl⟩ := Option.mem_map.mp hc
    have hcmd := hasks dealer _ _ hgame
    rw [findValue_object (by decide)] at hcmd
    have hbidding := (h.agreeing 10 le_rfl).bidding message (List.mem_of_getElem? hmessage)
    exact hbidding.1 hcmd
  | call c' =>
    obtain rfl := Option.some.inj hc
    cases c' with
    | addPlayer _ | removePlayer _ => cases hgame
    | executeRequest dealer srcUuid json =>
      have hcmd := hasks dealer srcUuid json hgame
      have hout := horderly.2.2
      rw [PlayingTable.Outside, if_pos hcmd] at hout
      exact absurd (hout.symm.trans hrunning) Bool.false_ne_true

/-- A seat in a deal, with the user that sits there. -/
theorem Diligent.seat (h : s.Diligent n) (hrunning : s.table.mEngine.mSequence.isRunning = true)
    {i : ℕ} (hi : i < n) :
    let u := (s.table.mPlayers i).uuid
    10 ≤ u ∧ s.table.Spot u (.assign i) ∧ (Place.assign i) ≠ .nowhere := by
  intro u
  have hi' : i < s.table.nbPlayers := h.tended.players.symm ▸ hi
  have hseated := h.tended.seated hrunning
  have hlt : i < 5 := hi'.trans_le h.tended.seats
  have hplace : s.table.getPlayerPlace u = .assign i := by
    rw [← Place.value_inj, Place.value_assign hlt.le]
    exact h.tended.getPlayerPlace_seat hseated hi'
  refine ⟨h.tended.users i hi' (hseated i hi'), ?_, ?_⟩
  · rw [← hplace]
    exact h.tended.spot (hseated i hi')
  · intro hnone
    have hvalue := Place.value_assign hlt.le
    rw [hnone] at hvalue
    exact absurd hvalue (by change (5 : ℕ) ≠ i; omega)

theorem load_receive (h : s.Diligent n) (hn : n = 3 ∨ n = 4)
    (hunder : s.table.mEngine.mSequence.isUnderWay = true)
    (hgame : s.table.action (.executeRequest dealer srcUuid json) ≠ .newGame)
    (sent : List (ℕ × Reply)) :
    (({ s with sent := sent } : BotTable).receive (.executeRequest dealer srcUuid json)).load n ≤
      s.load n := by
  have hrunning := Sequence.isRunning_of_isUnderWay hunder
  obtain ⟨plays, hdeal⟩ := h.inDeal
  have henabled := hdeal.action_enabled (.executeRequest dealer srcUuid json)
  have hengine := PlayingTable.apply_mEngine s.table (.executeRequest dealer srcUuid json)
  have htold : ∀ i < n, Told (s.table.apply (.executeRequest dealer srcUuid json)).mEngine
      (.assign i) (s.table.action (.executeRequest dealer srcUuid json))
      (messagesTo (s.table.mPlayers i).uuid (s.table.executeRequest dealer srcUuid json).out) := by
    intro i hi
    obtain ⟨hu, hspot, hp⟩ := h.seat hrunning hi
    refine hspot.toldRequest ?_ hp h.tended.toOpen h.tended.kingless.1 dealer srcUuid json
    intro hnobody
    rw [hnobody] at hu
    exact absurd hu (by decide)
  have hload : (({ s with sent := sent } : BotTable).receive
      (.executeRequest dealer srcUuid json)).load n =
        n * (s.table.apply (.executeRequest dealer srcUuid json)).mEngine.toGo n +
          ∑ i ∈ Finset.range n, ((s.bots (s.table.mPlayers i).uuid).inbox.length +
            (messagesTo (s.table.mPlayers i).uuid
              (s.table.executeRequest dealer srcUuid json).out).length) := by
    change n * (s.table.apply (.executeRequest dealer srcUuid json)).mEngine.toGo n +
      ∑ i ∈ Finset.range n, ((s.bots ((s.table.apply (.executeRequest dealer srcUuid
          json)).mPlayers i).uuid).inbox ++ messagesTo ((s.table.apply (.executeRequest dealer
            srcUuid json)).mPlayers i).uuid (s.table.executeRequest dealer srcUuid json).out).length
              = _
    simp only [PlayingTable.apply_executeRequest_uuid, List.length_append]
  rw [hload, Finset.sum_add_distrib, load, hengine]
  rw [hengine] at htold
  generalize s.table.action (.executeRequest dealer srcUuid json) = a at *
  by_cases hstay : a = .stay
  · have hnothing : ∑ i ∈ Finset.range n, (messagesTo (s.table.mPlayers i).uuid
        (s.table.executeRequest dealer srcUuid json).out).length = 0 := by
      refine Finset.sum_eq_zero fun i hi => ?_
      rw [(htold i (Finset.mem_range.mp hi)).of_stay hstay]
      rfl
    rw [hnothing, hstay]
    exact le_rfl
  · have hmove : a.isMove = true := by
      cases a with
      | stay => exact absurd rfl hstay
      | newGame => exact absurd rfl hgame
      | newDeal deal => exact absurd (henabled.not_newDeal.symm.trans hunder) Bool.false_ne_true
      | _ => rfl
    have hlt := hdeal.phase.toGo_lt h.tended.counted (by omega) henabled hmove
    have hmul := Nat.mul_le_mul_left n (Nat.succ_le_of_lt hlt)
    rw [Nat.mul_succ] at hmul
    have hone : ∑ i ∈ Finset.range n, (messagesTo (s.table.mPlayers i).uuid
        (s.table.executeRequest dealer srcUuid json).out).length ≤ n := by
      calc ∑ i ∈ Finset.range n, (messagesTo (s.table.mPlayers i).uuid
            (s.table.executeRequest dealer srcUuid json).out).length
          ≤ ∑ i ∈ Finset.range n, 1 :=
            Finset.sum_le_sum fun i hi => (htold i (Finset.mem_range.mp hi)).length_le
        _ = n := by rw [← Finset.card_eq_sum_ones, Finset.card_range]
    omega

/-- A request leaves everybody where they sit. -/
theorem isSeated_receive (s : BotTable) (sent : List (ℕ × Reply)) (dealer : Dealer) (srcUuid : ℕ)
    (json : JsonValue) (uuid : ℕ) :
    (({ s with sent := sent } : BotTable).receive (.executeRequest dealer srcUuid json)).isSeated
      uuid = s.isSeated uuid := by
  have hnb := PlayingTable.apply_nbPlayers s.table (.executeRequest dealer srcUuid json)
  have hplace : (s.table.apply (.executeRequest dealer srcUuid json)).getPlayerPlace uuid =
      s.table.getPlayerPlace uuid := by
    unfold PlayingTable.getPlayerPlace
    rw [hnb]
    simp only [PlayingTable.apply_executeRequest_uuid]
  change decide ((s.table.apply (.executeRequest dealer srcUuid json)).getPlayerPlace uuid ≠
    .nowhere) = decide (s.table.getPlayerPlace uuid ≠ .nowhere)
  rw [hplace]

theorem work_receive (h : s.Diligent n) (hn : n = 3 ∨ n = 4)
    (hunder : s.table.mEngine.mSequence.isUnderWay = true)
    (hgame : s.table.action (.executeRequest dealer srcUuid json) ≠ .newGame)
    (sent : List (ℕ × Reply)) :
    (({ s with sent := sent } : BotTable).receive (.executeRequest dealer srcUuid json)).work n ≤
      3 * s.load n + sent.countP fun message => s.isSeated message.1 := by
  have hload := load_receive h hn hunder hgame sent
  have hseated : (({ s with sent := sent } : BotTable).receive
      (.executeRequest dealer srcUuid json)).isSeated = s.isSeated :=
    funext (isSeated_receive s sent dealer srcUuid json)
  rw [work, hseated]
  exact Nat.add_le_add_right (Nat.mul_le_mul_left 3 hload) _

theorem countP_eraseIdx {α : Type*} {l : List α} {i : ℕ} {x : α} (hx : l[i]? = some x)
    (test : α → Bool) : (l.eraseIdx i).countP test + (if test x then 1 else 0) = l.countP test := by
  obtain ⟨hi, rfl⟩ := List.getElem?_eq_some_iff.mp hx
  rw [← (List.getElem_cons_eraseIdx_perm hi).countP_eq, List.countP_cons]

/-- A message that is handled is taken off the load of the players. -/
theorem load_handle (h : s.Diligent n) {w : ℕ} {m : JsonObject} {rest : List JsonObject}
    (hinbox : (s.bots w).inbox = m :: rest) (script : Script) :
    (s.handle w script).load n + (if s.isSeated w then 1 else 0) ≤ s.load n := by
  have hinboxes : ∀ v, ((s.handle w script).bots v).inbox.length +
      (if v = w then 1 else 0) = (s.bots v).inbox.length := by
    intro v
    rw [handle_cons hinbox]
    dsimp only
    by_cases hv : v = w
    · rw [hv, Function.update_self, if_pos rfl, hinbox, List.length_cons]
    · rw [Function.update_of_ne hv, if_neg hv, Nat.add_zero]
  have hload : (s.handle w script).load n = n * s.table.mEngine.toGo n +
      ∑ i ∈ Finset.range n, ((s.handle w script).bots (s.table.mPlayers i).uuid).inbox.length := by
    rw [load, handle_table]
  have hsum : ∑ i ∈ Finset.range n, (s.bots (s.table.mPlayers i).uuid).inbox.length =
      ∑ i ∈ Finset.range n, ((s.handle w script).bots (s.table.mPlayers i).uuid).inbox.length +
        ∑ i ∈ Finset.range n, if (s.table.mPlayers i).uuid = w then 1 else 0 := by
    rw [← Finset.sum_add_distrib]
    exact Finset.sum_congr rfl fun i _ => (hinboxes _).symm
  rw [hload, load, hsum]
  have hseat : (if s.isSeated w then 1 else 0) ≤
      ∑ i ∈ Finset.range n, if (s.table.mPlayers i).uuid = w then 1 else 0 := by
    split_ifs with hw
    · rw [isSeated, decide_eq_true_iff] at hw
      obtain ⟨hlt, huuid⟩ := PlayingTable.getPlayerPlace_of_ne h.tended.seats hw
      rw [h.tended.players] at hlt
      calc 1 = if (s.table.mPlayers (s.table.getPlayerPlace w).value).uuid = w then 1 else 0 :=
            (if_pos huuid).symm
        _ ≤ ∑ i ∈ Finset.range n, if (s.table.mPlayers i).uuid = w then 1 else 0 :=
            Finset.single_le_sum (f := fun i => if (s.table.mPlayers i).uuid = w then 1 else 0)
              (fun _ _ => Nat.zero_le _) (Finset.mem_range.mpr hlt)
    · exact Nat.zero_le _
  omega

/-- Within a deal no event adds work, and one that works takes some off. -/
theorem Diligent.consumes (h : s.Diligent n) (hn : n = 3 ∨ n = 4)
    (hunder : s.table.mEngine.mSequence.isUnderWay = true) {event : BotEvent}
    (horderly : s.Orderly event) :
    Consumes BotTable.step works (work n) id (fun _ => false) 0 s event := by
  have hrunning := Sequence.isRunning_of_isUnderWay hunder
  change (s.step event).work n + (if s.works event then 1 else 0) ≤ s.work n + 0
  cases event with
  | call c =>
    cases c with
    | addPlayer w =>
      rw [BotTable.step, receive_addPlayer h.tended.toOpen hrunning horderly.2.1]
      exact le_rfl
    | removePlayer w =>
      rw [BotTable.step, receive_removePlayer h.tended hrunning horderly.2.1]
      exact le_rfl
    | executeRequest dealer srcUuid json =>
      exact work_receive h hn hunder (h.not_newGame hrunning horderly rfl) s.sent
  | handle w script =>
    rw [BotTable.step]
    cases hinbox : (s.bots w).inbox with
    | nil =>
      have hidle : s.works (.handle w script) = false := by
        rw [works, hinbox, List.isEmpty_nil, Bool.not_true, Bool.and_false]
      rw [handle_nil hinbox, hidle]
      exact le_rfl
    | cons m rest =>
      have hload := load_handle h hinbox script
      have hconnected : (s.bots w).ctx.mMyself.isConnected = true := by
        rw [Player.isConnected, (h.agreeing w horderly).uuid]
        exact decide_eq_true horderly
      have hlength := (Bot.handleRequest_minds script hconnected m).length
      have hworks : s.works (.handle w script) = s.isSeated w := by
        rw [works, hinbox, List.isEmpty_cons, Bool.not_false, Bool.and_true]
      have hcount : (s.handle w script).sent.countP (fun message =>
          (s.handle w script).isSeated message.1) ≤ s.sent.countP (fun message =>
            s.isSeated message.1) + 2 * if s.isSeated w then 1 else 0 := by
        have hsame : (s.handle w script).isSeated = s.isSeated := by
          funext v
          rw [isSeated, isSeated, handle_table]
        rw [hsame, handle_cons hinbox, List.countP_append, List.countP_map]
        refine Nat.add_le_add_left ?_ _
        split_ifs with hw
        · exact List.countP_le_length.trans hlength
        · exact (List.countP_eq_zero.mpr fun _ _ => hw).le
      rw [hworks, work, work]
      split_ifs at hload hcount ⊢ <;> omega
  | arrive i dealer =>
    rw [BotTable.step, BotTable.arrive, works]
    cases hi : s.sent[i]? with
    | none => exact le_rfl
    | some message =>
      have hcount := countP_eraseIdx hi fun message => s.isSeated message.1
      have hcalled : .executeRequest dealer message.1 (.object message.2.data) ∈
          s.called (.arrive i dealer) := by
        rw [BotTable.called, hi]
        rfl
      have hrequest := work_receive h hn hunder (h.not_newGame hrunning horderly hcalled)
        (s.sent.eraseIdx i)
      have hlost : ({ s with sent := s.sent.eraseIdx i } : BotTable).work n = 3 * s.load n +
          (s.sent.eraseIdx i).countP fun message => s.isSeated message.1 := rfl
      have hwork : s.work n = 3 * s.load n + s.sent.countP fun message => s.isSeated message.1 :=
        rfl
      rw [Option.any_some]
      dsimp only
      by_cases hdest : s.table.mId ∈ message.2.dest
      · rw [if_pos hdest]
        omega
      · rw [if_neg hdest]
        omega

/-- Where nothing is left to do, the table waits for nobody but a taker without enough cards. -/
theorem Diligent.stuck_of_waits (h : s.Diligent n)
    (hrunning : s.table.mEngine.mSequence.isRunning = true)
    (hquiet : ∀ event, s.works event = false) (hlt : p.value < n) (hwaits : s.table.Waits p) :
    s.Stuck n := by
  obtain ⟨hu, hspot, hp⟩ := h.seat hrunning hlt
  rw [Place.assign_value] at hspot hp
  have hseated : s.isSeated (s.table.mPlayers p.value).uuid = true := by
    rw [isSeated, hspot.getPlayerPlace h.tended.seats]
    exact decide_eq_true hp
  rcases (h.prepared _ hu p hspot).pending hp hrunning hwaits with hpending | hstuck
  swap
  · exact hstuck
  exfalso
  cases hpending with
  | @asked pre m hinbox hprompts =>
    have hworks : s.works (.handle (s.table.mPlayers p.value).uuid fun _ _ => .invalid) = true := by
      rw [works, hseated, hinbox, Bool.true_and, Bool.not_eq_true', List.isEmpty_eq_false_iff]
      exact List.append_ne_nil_of_right_ne_nil _ (List.cons_ne_nil _ _)
    exact Bool.false_ne_true ((hquiet _).symm.trans hworks)
  | answered hmem hdest hserves =>
    obtain ⟨i, hi⟩ := List.getElem?_of_mem hmem
    have hworks : s.works (.arrive i plainDealer) = true := by
      rw [works, hi]
      exact hseated
    exact Bool.false_ne_true ((hquiet _).symm.trans hworks)

theorem Stuck.blocked (h : s.Stuck n) : s.table.mEngine.Blocked n := by
  simp only [Engine.Blocked, h.1]
  exact h.2

/-- In a deal there is always something to do, unless the deal is blocked. -/
theorem Diligent.blocked_of_quiet (h : s.Diligent n) (hn : n = 3 ∨ n = 4)
    (hunder : s.table.mEngine.mSequence.isUnderWay = true)
    (hquiet : ∀ event, s.works event = false) : s.table.mEngine.Blocked n := by
  have hrunning := Sequence.isRunning_of_isUnderWay hunder
  obtain ⟨plays, hdeal⟩ := h.inDeal
  have hphase := hdeal.phase
  have hplayers := h.tended.players
  have hblocked : ∀ {p : Place}, p.value < n → s.table.Waits p → s.table.mEngine.Blocked n :=
    fun hlt hwaits => (h.stuck_of_waits hrunning hquiet hlt hwaits).blocked
  have hacked : s.table.mEngine.mSequence.isAcked = true → s.table.mEngine.Blocked n := by
    intro hacked
    obtain ⟨i, hi, hdown⟩ := h.tended.down (by omega)
    have hvalue : (Place.assign i).value = i :=
      Place.value_assign (hi.trans_le h.tended.seats).le
    refine hblocked (p := .assign i) ?_ (.inl ⟨hacked, ?_⟩)
    · rw [hvalue]
      exact hplayers ▸ hi
    · rw [hvalue]
      exact hdown
  have htaker : s.table.mEngine.mSequence = .waitForDiscard →
      s.table.mEngine.mCtx.mBid.taker.value < n := by
    intro hs
    have hlt := hdeal.taken.taker_lt (by rw [hs]; rfl)
    rwa [hphase.players] at hlt
  cases hs : s.table.mEngine.mSequence with
  | badStep | stopped | waitForPlayers | waitForReady | waitForAllPassed | waitForEndOfDeal =>
    rw [hs] at hunder
    exact absurd hunder (by decide)
  | waitForKingCall => exact absurd hs h.tended.kingless.1
  | waitForShowKingCall => exact absurd hs h.tended.kingless.2
  | waitForBid =>
    by_cases hlt : s.table.mEngine.mCurrentPlayer.value < n
    · exact hblocked hlt (.inr (.inl ⟨.inl hs, rfl⟩))
    · simp only [Engine.Blocked, hs]
      exact not_lt.mp hlt
  | waitForDiscard => exact hblocked (htaker hs) (.inr (.inr ⟨hs, rfl⟩))
  | waitForHandle =>
    simp only [Engine.Phase, hs] at hphase
    obtain ⟨hlt, -⟩ := hphase.1.turn_spec (by omega) hphase.2.1 hphase.2.2
    exact hblocked hlt (.inr (.inl ⟨.inr (.inl hs), rfl⟩))
  | waitForPlayedCard =>
    simp only [Engine.Phase, hs] at hphase
    obtain ⟨hlt, -⟩ := hphase.1.turn_spec (by omega) hphase.2.1 hphase.2.2
    exact hblocked hlt (.inr (.inl ⟨.inr (.inr hs), rfl⟩))
  | _ => exact hacked (by rw [hs]; decide)

/-- The event comes in a deal, from a user or a bot. -/
def InDeal (s : BotTable) (event : BotEvent) : Prop :=
  s.table.mEngine.mSequence.isUnderWay = true ∧ s.Orderly event

instance (s : BotTable) : DecidablePred s.InDeal :=
  fun event => inferInstanceAs (Decidable (_ ∧ s.Orderly event))

/-- A deal goes on until it is over. -/
theorem Diligent.step_inDeal (h : s.Diligent n) (hn : n = 3 ∨ n = 4) {event : BotEvent}
    (hevent : s.InDeal event) :
    (s.step event).Diligent n ∧ (s.step event).table.mEngine.mSequence.isDealt = true := by
  obtain ⟨hunder, horderly⟩ := hevent
  have hrunning := Sequence.isRunning_of_isUnderWay hunder
  obtain ⟨plays, hdeal⟩ := h.inDeal
  have hgives : ∀ c ∈ s.called event, ∀ deal, s.table.action c ≠ .newDeal deal := by
    intro c _ deal hgives
    have henabled := hdeal.action_enabled c
    rw [hgives] at henabled
    exact absurd (henabled.not_newDeal.symm.trans hunder) Bool.false_ne_true
  have hdealt : s.table.mEngine.mSequence.isDealt = true := by
    rw [Sequence.isUnderWay, Bool.and_eq_true] at hunder
    exact hunder.1
  constructor
  · exact h.step hn horderly fun c hc deal hdeal => absurd hdeal (hgives c hc deal)
  · rcases s.step_table event with hsame | ⟨c, hc, happly⟩
    · rw [hsame]
      exact hdealt
    · have hrestart : (s.table.action c).isRestart = false := by
        have hgame := h.not_newGame hrunning horderly hc
        have hdeals := hgives c hc
        generalize s.table.action c = a at hgame hdeals
        cases a with
        | newGame => exact absurd rfl hgame
        | newDeal deal => exact absurd rfl (hdeals deal)
        | _ => rfl
      rw [happly, PlayingTable.apply_mEngine]
      rcases Engine.act_isDealt (hdeal.action_enabled c) hrestart with hstay | ⟨hdealt', -⟩
      · rw [hstay]
        exact hdealt
      · exact hdealt'

/-- Three or four bots come to the end of every deal, in whatever order they handle their messages
and the messages arrive: what they can do in a deal is bounded by what is left of it and by what is
on its way, and as long as the deal is not over or blocked there is something to do. -/
theorem bots_finish (t : PlayingTable) (hid : t.mId < 2 ^ 32) (hn : n = 3 ∨ n = 4)
    (randomPlace : Place) {events later : List BotEvent}
    (horderly : Guarded step Orderly (start t n randomPlace) events)
    (hfair : ∀ event ∈ events, dealsFairly n event) :
    let s := run step (start t n randomPlace) events
    s.table.mEngine.mSequence.isDealt = true → Guarded step InDeal s later →
      let s' := run step s later
      (labels step works s later).countP id + s'.work n ≤ s.work n ∧
        ((∀ event, s'.works event = false) →
          s'.table.mEngine.mSequence.isOver = true ∨ s'.table.mEngine.Blocked n) := by
  intro s hdealt hlater s'
  have hs : s.Diligent n := by
    refine (horderly.and (guarded_dealsFair t randomPlace hfair)).invariant (Diligent n) ?_
      (start_diligent t hn randomPlace hid)
    intro s event h hevent
    exact h.step hn hevent.1 hevent.2
  have hs' : s'.Diligent n ∧ s'.table.mEngine.mSequence.isDealt = true := by
    refine hlater.invariant
      (fun s => s.Diligent n ∧ s.table.mEngine.mSequence.isDealt = true) ?_ ⟨hs, hdealt⟩
    intro s event h hevent
    exact h.1.step_inDeal hn hevent
  constructor
  · have hworks := hlater.countP_works_le (Diligent n)
      (fun s event h hevent => (h.step_inDeal hn hevent).1)
      (fun s event h hevent => h.consumes hn hevent.1 hevent.2) hs
    rwa [Nat.zero_mul, Nat.add_zero] at hworks
  · intro hquiet
    cases hover : s'.table.mEngine.mSequence.isOver with
    | true => exact .inl rfl
    | false =>
      right
      refine hs'.1.blocked_of_quiet hn ?_ hquiet
      rw [Sequence.isUnderWay, hs'.2, hover]
      rfl

/-- Three bots in a trick handle a message each, and the one that is asked answers. -/
theorem bots_finish_three :
    let s := run step (start {} 3 .south) (botRounds plainDealer 10)
    let s' := run step s (botRound plainDealer)
    (labels step works s (botRound plainDealer)).countP id = 4 ∧
      (labels step works s (botRound plainDealer)).countP id + s'.work 3 ≤ s.work 3 ∧
        ((∀ event, s'.works event = false) →
          s'.table.mEngine.mSequence.isOver = true ∨ s'.table.mEngine.Blocked 3) :=
  ⟨by decide +kernel,
    bots_finish {} (by decide) (.inl rfl) .south (by decide +kernel)
      (botRounds_fair (plainDealer_fair (.inl rfl)) 10) (by decide +kernel) (by decide +kernel)⟩

end BotTable

end TarotClub
