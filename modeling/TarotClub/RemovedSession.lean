import TarotClub.Authentication

namespace TarotClub

open Machine

namespace PeerSession

/-- The end of a read that makes the session do something: a frame is complete, or the connection
is closed where a header was awaited. -/
def Completes (s : PeerSession) : ReadEnd → Prop
  | .received _ => s.reading = .body
  | .closed => s.reading = .header
  | .failed => False

instance (s : PeerSession) : ∀ r, Decidable (s.Completes r)
  | .received _ => inferInstanceAs (Decidable (s.reading = .body))
  | .closed => inferInstanceAs (Decidable (s.reading = .header))
  | .failed => inferInstanceAs (Decidable False)

theorem completes_of_endRead {decrypt : Decryption} {l : Lobby} {s s' : PeerSession} {r : ReadEnd}
    {handling : Handling} (h : s.endRead decrypt l r = some (s', some handling)) :
    s.Completes r := by
  rcases endRead_cases h with ⟨hreading, rfl, -, -⟩ | ⟨-, -, hnone, -⟩ | ⟨bytes, hreading, rfl, -, -⟩ |
    ⟨-, hnone, -⟩
  · exact hreading
  · cases hnone
  · exact hreading
  · cases hnone

/-- A session keeps its uuid. -/
theorem findSecurity_uuid (l : Lobby) (s : PeerSession) : (s.findSecurity l).uuid = s.uuid := by
  unfold findSecurity
  split_ifs <;> rfl

theorem handleBody_uuid (decrypt : Decryption) (l : Lobby) (s : PeerSession) :
    (s.handleBody decrypt l).1.uuid = s.uuid := by
  rw [← findSecurity_uuid l s]
  simp only [handleBody]
  split
  · split_ifs <;> rfl
  · rfl

theorem endRead_uuid {decrypt : Decryption} {l : Lobby} {s s' : PeerSession} {r : ReadEnd}
    {handling : Option Handling} (h : s.endRead decrypt l r = some (s', handling)) :
    s'.uuid = s.uuid := by
  rcases endRead_cases h with ⟨-, -, rfl, -⟩ | ⟨-, -, -, data, hparse⟩ | ⟨bytes, -, -, rfl, -⟩ |
    ⟨-, -, rfl⟩
  · rfl
  · obtain ⟨ok, header, -, rfl⟩ := parseHeader_cases hparse
    rfl
  · exact handleBody_uuid decrypt l (s.readBody bytes)
  · rfl

end PeerSession

namespace Server

/-- The peers that have called `RemoveUser`, and those among them that a frame has made do so. -/
structure Removals where
  removed : List ℕ := []
  refused : List ℕ := []

def noteRemovals (decrypt : Decryption) (srv : Server) (event : ServerEvent) (log : Removals) :
    Removals :=
  match event with
  | .read _ peer r =>
    match srv.asks decrypt peer r with
    | some .removeUser =>
      { removed := peer :: log.removed
        refused := if r matches .received _ then peer :: log.refused else log.refused }
    | _ => log
  | _ => log

/-- From a session whose frame has been refused, nothing is read to its end any more: neither
another frame nor the end of the connection. -/
def RefusedIsLast (p : Server × Removals) : ServerEvent → Prop
  | .read _ peer r => peer ∈ p.2.refused → ∀ s ∈ p.1.peers[peer]?, ¬ s.Completes r
  | _ => True

instance (p : Server × Removals) : ∀ event, Decidable (RefusedIsLast p event)
  | .read _ peer r => inferInstanceAs
      (Decidable (peer ∈ p.2.refused → ∀ s ∈ p.1.peers[peer]?, ¬ s.Completes r))
  | .accept _ | .addClient _ _ _ | .createTable _ _ _ | .destroyTable _ => .isTrue trivial

/-- Who calls `RemoveUser` or `Deliver` has not called `RemoveUser` before, and the lobby has not
given his uuid to another session. -/
def RemovedIsDead (decrypt : Decryption) (p : Server × Removals) : ServerEvent → Prop
  | .read _ peer r =>
    match p.1.asks decrypt peer r with
    | some .requestLogin | none => True
    | some .removeUser | some (.deliver _) =>
      peer ∉ p.2.removed ∧ ∀ s ∈ p.1.peers[peer]?, p.1.mLobby.getPeer s.uuid = some peer
  | _ => True

/-- What there is to know of a session here. -/
def uuids (srv : Server) (peer : ℕ) : Option (ℕ × Reading) :=
  (srv.peers[peer]?).map fun s => (s.uuid, s.reading)

/-- The removed sessions have come to their end, and a session that reads is the one that the lobby
has under its uuid. -/
structure Held (uuids : ℕ → Option (ℕ × Reading)) (getPeer : ℕ → Option ℕ) (log : Removals) :
    Prop where
  ended : ∀ i ∈ log.removed, i ∈ log.refused ∨ ∃ u, uuids i = some (u, .stopped)
  held : ∀ i u r, uuids i = some (u, r) → r = .stopped ∨ getPeer u = some i

section Held

variable {uuids uuids' : ℕ → Option (ℕ × Reading)} {getPeer getPeer' : ℕ → Option ℕ}
  {log : Removals}

/-- A new session takes its uuid from the one that it replaces. -/
theorem Held.accept (h : Held uuids getPeer log) {new u : ℕ} (hnew : uuids new = none)
    (hnew' : uuids' new = some (u, .header))
    (hold : ∀ i, i ≠ new → uuids' i = (uuids i).map fun q =>
      if getPeer u = some i then (q.1, .stopped) else q)
    (hpeer : ∀ v, getPeer' v = if u = v then some new else getPeer v) :
    Held uuids' getPeer' log := by
  constructor
  · intro i hi
    rcases h.ended i hi with hrefused | ⟨v, hv⟩
    · exact .inl hrefused
    · have hne : i ≠ new := by
        rintro rfl
        rw [hnew] at hv
        cases hv
      refine .inr ⟨v, ?_⟩
      rw [hold i hne, hv, Option.map_some, ite_self]
  · intro i v r hi
    by_cases hne : i = new
    · rw [hne, hnew', Option.some.injEq, Prod.mk.injEq] at hi
      right
      rw [hpeer, if_pos hi.1, hne]
    · rw [hold i hne] at hi
      obtain ⟨q, hq, hi⟩ := Option.map_eq_some_iff.mp hi
      by_cases hreplaced : getPeer u = some i
      · rw [if_pos hreplaced, Prod.mk.injEq] at hi
        exact .inl hi.2.symm
      · rw [if_neg hreplaced] at hi
        subst hi
        refine (h.held i v r hq).imp_right fun hheld => ?_
        have hvu : u ≠ v := fun he => hreplaced (he ▸ hheld)
        rw [hpeer, if_neg hvu, hheld]

/-- A read changes no uuid, and whoever is removed by it has come to his end. -/
theorem Held.read (h : Held uuids getPeer log) {peer u : ℕ} {rd rd' : Reading}
    (hpeer : uuids peer = some (u, rd)) (hold : ∀ i, i ≠ peer → uuids' i = uuids i)
    (hpeer' : uuids' peer = some (u, rd')) (hstopped : rd = .stopped → rd' = .stopped)
    {log' : Removals} (hrefused : log.refused ⊆ log'.refused)
    (hremoved : ∀ i ∈ log'.removed, i ∈ log.removed ∨ i = peer ∧ (i ∈ log'.refused ∨ rd' = .stopped)) :
    Held uuids' getPeer log' := by
  constructor
  · intro i hi
    rcases hremoved i hi with hi | ⟨rfl, hend⟩
    · rcases h.ended i hi with hmem | ⟨v, hv⟩
      · exact .inl (hrefused hmem)
      · right
        by_cases hip : i = peer
        · rw [hip, hpeer, Option.some.injEq, Prod.mk.injEq] at hv
          exact ⟨u, by rw [hip, hpeer', hstopped hv.2]⟩
        · exact ⟨v, (hold i hip).trans hv⟩
    · rcases hend with hmem | rfl
      · exact .inl hmem
      · exact .inr ⟨u, hpeer'⟩
  · intro i v r hi
    by_cases hip : i = peer
    · rw [hip, hpeer', Option.some.injEq, Prod.mk.injEq] at hi
      rw [← hi.1, ← hi.2, hip]
      exact (h.held peer u rd hpeer).imp_left hstopped
    · exact h.held i v r (hold i hip ▸ hi)

end Held

theorem Written.uuids {srv srv' : Server} (h : srv.Written srv') (i : ℕ) :
    srv'.uuids i = srv.uuids i := by
  obtain ⟨n, hn⟩ := h.peers i
  rw [Server.uuids, Server.uuids, hn, Option.map_map]
  rfl

theorem uuids_accept (srv : Server) (data : Str) :
    (srv.accept data).uuids srv.peers.length =
        some ((srv.mLobby.addUser srv.peers.length).1, .header) ∧
      ∀ i, i ≠ srv.peers.length → (srv.accept data).uuids i = (srv.uuids i).map fun q =>
        if srv.mLobby.getPeer (srv.mLobby.addUser srv.peers.length).1 = some i then (q.1, .stopped)
        else q := by
  constructor
  · unfold uuids accept
    cases hold : srv.mLobby.getPeer (srv.mLobby.addUser srv.peers.length).1 <;> simp [hold]
  · intro i hi
    rw [uuids, uuids, srv.accept_peers data hi]
    cases srv.peers[i]? with
    | none => rfl
    | some s =>
      simp only [Option.map_some]
      split_ifs
      · rfl
      · rfl

theorem uuids_afterRead (dealer : Dealer) {srv : Server} {peer : ℕ} {s : PeerSession}
    (hs : srv.peers[peer]? = some s) (s' : PeerSession) (handling : Option Handling) :
    (srv.afterRead dealer peer s' handling).uuids peer = some (s'.uuid, s'.reading) ∧
      ∀ i, i ≠ peer → (srv.afterRead dealer peer s' handling).uuids i = srv.uuids i := by
  have hlt := (List.getElem?_eq_some_iff.mp hs).1
  refine ⟨?_, fun i hi => ?_⟩
  · rw [uuids, afterRead, List.getElem?_set_self hlt]
    rfl
  · rw [uuids, afterRead, List.getElem?_set_ne (Ne.symm hi)]
    rfl

/-- Only a session that reads something to its end asks for anything. -/
theorem Held.asks {srv : Server} {log : Removals} (h : Held srv.uuids srv.mLobby.getPeer log)
    {dealer : Dealer} {peer : ℕ} {r : ReadEnd}
    (hlast : RefusedIsLast (srv, log) (.read dealer peer r)) {s : PeerSession}
    (hs : srv.peers[peer]? = some s) (hcompletes : s.Completes r) :
    peer ∉ log.removed ∧ srv.mLobby.getPeer s.uuid = some peer := by
  have hreads : s.reading ≠ .stopped := by
    intro hstopped
    cases r with
    | received bytes => exact absurd (hstopped.symm.trans hcompletes) (by decide)
    | closed => exact absurd (hstopped.symm.trans hcompletes) (by decide)
    | failed => exact hcompletes
  have huuids : srv.uuids peer = some (s.uuid, s.reading) := by rw [uuids, hs, Option.map_some]
  constructor
  · intro hmem
    rcases h.ended peer hmem with hrefused | ⟨u, hu⟩
    · exact hlast hrefused s hs hcompletes
    · rw [huuids, Option.some.injEq, Prod.mk.injEq] at hu
      exact hreads hu.2
  · exact (h.held peer s.uuid s.reading huuids).resolve_left hreads

theorem handledLobby_getPeer (dealer : Dealer) (l : Lobby) (uuid : ℕ) (handling : Option Handling) :
    (handledLobby dealer l uuid handling).getPeer = l.getPeer := by
  have hpeers : (handledLobby dealer l uuid handling).mPeers = l.mPeers := by
    cases handling with
    | none => rfl
    | some handling =>
      cases handling with
      | requestLogin => rfl
      | removeUser => exact l.removeUser_mPeers uuid
      | deliver req => exact (l.samePeers_deliver dealer req).2
  funext u
  rw [Lobby.getPeer, hpeers, Lobby.getPeer]

/-- What a read leaves noted. -/
theorem noteRemovals_read (decrypt : Decryption) (srv : Server) (dealer : Dealer) (peer : ℕ)
    (r : ReadEnd) (log : Removals) :
    let log' := noteRemovals decrypt srv (.read dealer peer r) log
    log.refused ⊆ log'.refused ∧ ∀ i ∈ log'.removed, i ∈ log.removed ∨
      i = peer ∧ srv.asks decrypt peer r = some .removeUser ∧
        (i ∈ log'.refused ∨ ∀ bytes, r ≠ .received bytes) := by
  dsimp only [noteRemovals]
  split
  next hasks =>
    cases r with
    | received bytes =>
      refine ⟨List.subset_cons_self _ _, fun i hi => ?_⟩
      rcases List.mem_cons.mp hi with rfl | hi
      · exact .inr ⟨rfl, hasks, .inl List.mem_cons_self⟩
      · exact .inl hi
    | closed | failed =>
      refine ⟨List.Subset.refl _, fun i hi => ?_⟩
      rcases List.mem_cons.mp hi with rfl | hi
      · exact .inr ⟨rfl, hasks, .inr (by simp)⟩
      · exact .inl hi
  · exact ⟨List.Subset.refl _, fun i hi => .inl hi⟩

/-- How far a read leaves a session. -/
theorem endRead_reading {decrypt : Decryption} {l : Lobby} {s s' : PeerSession} {r : ReadEnd}
    {handling : Option Handling} (h : s.endRead decrypt l r = some (s', handling)) :
    (s.reading = .stopped → s'.reading = .stopped) ∧
      (handling = some .removeUser → (∀ bytes, r ≠ .received bytes) → s'.reading = .stopped) := by
  rcases PeerSession.endRead_cases h with ⟨hreading, -, rfl, -⟩ | ⟨hreading, -, rfl, -⟩ |
    ⟨bytes, hreading, rfl, -, -⟩ | ⟨-, rfl, rfl⟩
  · exact ⟨fun _ => rfl, fun _ _ => rfl⟩
  · exact ⟨fun he => absurd (hreading.symm.trans he) (by decide), by simp⟩
  · exact ⟨fun he => absurd (hreading.symm.trans he) (by decide), fun _ hne => absurd rfl (hne bytes)⟩
  · exact ⟨fun _ => rfl, by simp⟩

theorem held_step (gcm : Gcm) (decrypt : Decryption) (p : Server × Removals)
    (event : ServerEvent) (h : Held p.1.uuids p.1.mLobby.getPeer p.2) :
    let p' := observe (step gcm decrypt) (noteRemovals decrypt) p event
    Held p'.1.uuids p'.1.mLobby.getPeer p'.2 := by
  obtain ⟨srv, log⟩ := p
  rcases step_cases gcm decrypt srv event with ⟨data, rfl, -, hstep⟩ |
    ⟨dealer, peer, r, s, s', handling, rfl, -, hs, hr, hasks, hwritten⟩ | ⟨hasks, hpeers, hids⟩
  · obtain ⟨hnew, hold⟩ := srv.uuids_accept data
    simp only [observe, hstep, noteRemovals]
    refine Held.accept h ?_ hnew hold (srv.mLobby.getPeer_addUser srv.peers.length)
    simp [uuids]
  · obtain ⟨hpeer', hold⟩ := uuids_afterRead dealer hs s' handling
    have hpeer : srv.uuids peer = some (s.uuid, s.reading) := by rw [uuids, hs, Option.map_some]
    obtain ⟨hrefused, hremoved⟩ := noteRemovals_read decrypt srv dealer peer r log
    obtain ⟨hstopped, hclosed⟩ := endRead_reading hr
    rw [PeerSession.endRead_uuid hr] at hpeer'
    simp only [observe, hwritten.mLobby, funext hwritten.uuids, afterRead, handledLobby_getPeer]
    refine Held.read h hpeer hold hpeer' hstopped hrefused fun i hi => ?_
    rcases hremoved i hi with hin | ⟨hi, hremove, hend⟩
    · exact .inl hin
    · exact .inr ⟨hi, hend.imp_right (hclosed (hasks.symm.trans hremove))⟩
  · have hlog : noteRemovals decrypt srv event log = log := by
      cases event with
      | read dealer peer r => simp only [noteRemovals, hasks dealer peer r rfl]
      | accept | addClient | createTable | destroyTable => rfl
    have huuids : (step gcm decrypt srv event).uuids = srv.uuids := by
      funext i
      rw [uuids, hpeers, uuids]
    have hgetPeer : (step gcm decrypt srv event).mLobby.getPeer = srv.mLobby.getPeer := by
      funext u
      rw [Lobby.getPeer, hids.2, Lobby.getPeer]
    simp only [observe, hlog, huuids, hgetPeer]
    exact h

/-- A run is at fault that ends with a second `RemoveUser` of the same session. -/
theorem not_removedIsDead {gcm : Gcm} {decrypt : Decryption} {p : Server × Removals}
    {events : List ServerEvent} {dealer : Dealer} {peer : ℕ} {r : ReadEnd}
    (hremoved : peer ∈
      (run (observe (step gcm decrypt) (noteRemovals decrypt)) p events).2.removed)
    (hasks : (run (observe (step gcm decrypt) (noteRemovals decrypt)) p events).1.asks
      decrypt peer r = some .removeUser) :
    ¬ Guarded (observe (step gcm decrypt) (noteRemovals decrypt)) (RemovedIsDead decrypt) p
      (events ++ [.read dealer peer r]) := by
  rw [guarded_append]
  rintro ⟨-, hdead, -⟩
  simp only [RemovedIsDead, hasks] at hdead
  exact hdead.1 hremoved

theorem removedIsDead_step {decrypt : Decryption} {p : Server × Removals} {event : ServerEvent}
    (h : Held p.1.uuids p.1.mLobby.getPeer p.2) (hlast : RefusedIsLast p event) :
    RemovedIsDead decrypt p event := by
  obtain ⟨srv, log⟩ := p
  cases event with
  | accept | addClient | createTable | destroyTable => trivial
  | read dealer peer r =>
    have hdead : ∀ handling, srv.asks decrypt peer r = some handling →
        peer ∉ log.removed ∧ ∀ s ∈ srv.peers[peer]?, srv.mLobby.getPeer s.uuid = some peer := by
      intro handling hasks
      unfold asks at hasks
      split_ifs at hasks
      obtain ⟨⟨s1, handling'⟩, hbind, rfl⟩ := Option.bind_eq_some_iff.mp hasks
      obtain ⟨s, hs, hr⟩ := Option.bind_eq_some_iff.mp hbind
      obtain ⟨hnot, hpeer⟩ := h.asks hlast hs (PeerSession.completes_of_endRead hr)
      refine ⟨hnot, fun t ht => ?_⟩
      obtain rfl : s = t := Option.some.inj (hs.symm.trans (Option.mem_def.mp ht))
      exact hpeer
    cases hasks : srv.asks decrypt peer r with
    | none => simp only [RemovedIsDead, hasks]
    | some handling =>
      cases handling with
      | requestLogin => simp only [RemovedIsDead, hasks]
      | removeUser | deliver =>
        simp only [RemovedIsDead, hasks]
        exact hdead _ hasks

/-- In every run in which nothing is read to its end on a session whose frame has been refused, a
session that has called `RemoveUser` calls the lobby no more, and who calls it has a uuid that the
lobby has given to no other session since. -/
theorem removed_session_is_dead (gcm : Gcm) (decrypt : Decryption) (randomPlace : Place)
    {events : List ServerEvent}
    (hlast : Guarded (observe (step gcm decrypt) (noteRemovals decrypt)) RefusedIsLast
      (create randomPlace, {}) events) :
    Guarded (observe (step gcm decrypt) (noteRemovals decrypt)) (RemovedIsDead decrypt)
      (create randomPlace, {}) events := by
  refine hlast.strengthen (fun p => Held p.1.uuids p.1.mLobby.getPeer p.2)
    (fun p event h _ => held_step gcm decrypt p event h)
    (fun p event h hok => removedIsDead_step h hok) ?_
  constructor
  · exact fun peer hpeer => absurd hpeer List.not_mem_nil
  · exact fun i u r hi => by cases hi

/-- Alice's frame with a wrong pass phrase. -/
def refusedFrame : Str := aliceFrame 0 0 (str "wrong!") (str "alice")

/-- It is refused, and another connection replaces the session, whose read is aborted; then the
new one is closed. -/
def replacedEvents : List ServerEvent :=
  aliceStart ++ readFrame 0 refusedFrame ++
    [.accept (List.replicate dataSize 0), .read plainDealer 0 .closed, .read plainDealer 1 .closed]

theorem removed_session_is_dead_replaced :
    (run (observe (step aliceGcm aliceGcm.decryption) (noteRemovals aliceGcm.decryption))
      (create .south, {}) replacedEvents).2.removed = [1, 0] ∧
    Guarded (observe (step aliceGcm aliceGcm.decryption) (noteRemovals aliceGcm.decryption))
      (RemovedIsDead aliceGcm.decryption) (create .south, {}) replacedEvents := by
  refine ⟨by decide +kernel, ?_⟩
  exact removed_session_is_dead aliceGcm aliceGcm.decryption .south (by decide +kernel)

/-- The frame is refused, and its header comes again. -/
def refusedEvents : List ServerEvent :=
  aliceStart ++ readFrame 0 refusedFrame ++
    [.read plainDealer 0 (.received (refusedFrame.take headerSize))]

/-- The session whose frame was refused reads the next frame too, and removes its user again. -/
theorem refused_session_removes_again :
    ¬ Guarded (observe (step aliceGcm aliceGcm.decryption) (noteRemovals aliceGcm.decryption))
      (RemovedIsDead aliceGcm.decryption) (create .south, {})
      (refusedEvents ++ [.read plainDealer 0 (.received (refusedFrame.drop headerSize))]) :=
  not_removedIsDead (by decide +kernel) (by decide +kernel)

end Server

end TarotClub
