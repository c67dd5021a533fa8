import TarotClub.LobbyPeers
import TarotClub.Protocol

namespace TarotClub

/-- `DecryptPayload`: the clear text of a frame under a key, or nothing when it answers false. Of
the header it uses the two sizes. -/
abbrev Decryption := (key frame : Str) → (prefixSize payloadSize : ℕ) → Option Str

/-- What a session reads next; one that has stopped reads no more. -/
inductive Reading where
  | header
  | body
  | stopped
  deriving DecidableEq

/-- How a read ends: with bytes (as many as have come), because the peer has closed the
connection, or with another error. -/
inductive ReadEnd where
  | received (bytes : Str)
  | closed
  | failed

/-- What a session asks of the lobby, or of its own peer, when it has a frame. -/
inductive Handling where
  | requestLogin
  | removeUser
  | deliver (req : Request)
  deriving DecidableEq

structure PeerSession where
  uuid : ℕ := 0
  mProto : Protocol := {}
  mIsPending : Bool := true
  sec : Security := {}
  h : Header := {}
  reading : Reading := .header

/-- The bytes of the frame that has been read. -/
def Protocol.frame (p : Protocol) (h : Header) : Str := p.mData.take (headerSize + h.bodyLength)

/-- Bytes that are read into the buffer at some place. -/
def Protocol.store (p : Protocol) (offset : ℕ) (bytes : Str) : Protocol :=
  { p with mData := p.mData.take offset ++ bytes ++ p.mData.drop (offset + bytes.length) }

namespace PeerSession

/-- `Deliver`: the frame that is written to the peer. -/
def deliver (gcm : Gcm) (s : PeerSession) (data : Str) : Str × PeerSession :=
  let (frame, p) := s.mProto.build gcm lobbyUid s.uuid data []
  (frame, { s with mProto := p })

/-- The first half of `HandleBody`: a pending session looks up the key of its peer. -/
def findSecurity (l : Lobby) (s : PeerSession) : PeerSession :=
  if s.mIsPending then
    let h := s.mProto.parsePrefix s.h
    let (found, sec) := l.getSecurity h.prefixText s.sec
    { s with h := h, sec := sec, mProto := if found then s.mProto.setSecurity sec.gek else s.mProto }
  else s

def handleBody (decrypt : Decryption) (l : Lobby) (s : PeerSession) : PeerSession × Handling :=
  let s := s.findSecurity l
  match decrypt s.mProto.mKey (s.mProto.frame s.h) s.h.prefixSize s.h.payloadSize with
  | some arg =>
    if s.mIsPending then
      if arg = s.sec.passPhrase then ({ s with mIsPending := false }, .requestLogin)
      else (s, .removeUser)
    else (s, .deliver { srcUuid := s.h.srcUid, destUuid := s.h.dstUid, arg := arg })
  | none => (s, .removeUser)

/-- The handler of `ReadHeader` for a connection that is not closed; nothing when the process is
aborted. -/
def parseHeader (s : PeerSession) : Option PeerSession :=
  (s.mProto.parseHeader s.h).map fun (ok, h) =>
    { s with h := h, reading := if ok then .body else .header }

/-- The session with bytes read into the header of its buffer. -/
def readHeader (s : PeerSession) (bytes : Str) : PeerSession :=
  { s with mProto := s.mProto.store 0 (bytes.take headerSize) }

/-- The session with bytes read into the body of its buffer. -/
def readBody (s : PeerSession) (bytes : Str) : PeerSession :=
  { s with mProto := s.mProto.store headerSize (bytes.take s.h.bodyLength) }

/-- The end of the pending read, as the handlers of `ReadHeader` and `ReadBody` take it. -/
def endRead (decrypt : Decryption) (l : Lobby) (s : PeerSession) (r : ReadEnd) :
    Option (PeerSession × Option Handling) :=
  match s.reading, r with
  | .header, .closed => some ({ s with reading := .stopped }, some .removeUser)
  | .header, .received bytes => (s.readHeader bytes).parseHeader.map (·, none)
  | .header, .failed => s.parseHeader.map (·, none)
  | .body, .received bytes =>
    let (s, handling) := (s.readBody bytes).handleBody decrypt l
    some ({ s with reading := .header }, some handling)
  | .body, _ => some ({ s with reading := .stopped }, none)
  | .stopped, _ => some (s, none)

/-- A session to which nothing refers any more is destroyed: its socket is closed and its read is
aborted. What the handler of that read finds in the freed memory is not modelled. -/
def destroy (s : PeerSession) : PeerSession := { s with reading := .stopped }

theorem parseHeader_cases {s s' : PeerSession} (h : s.parseHeader = some s') :
    ∃ ok header, s.mProto.parseHeader s.h = some (ok, header) ∧
      s' = { s with h := header, reading := if ok then .body else .header } := by
  obtain ⟨⟨ok, header⟩, hparse, rfl⟩ := Option.map_eq_some_iff.mp h
  exact ⟨ok, header, hparse, rfl⟩

/-- What the end of a read can do to a session, and what it makes the session ask for. -/
theorem endRead_cases {decrypt : Decryption} {l : Lobby} {s s' : PeerSession} {r : ReadEnd}
    {handling : Option Handling} (h : s.endRead decrypt l r = some (s', handling)) :
    (s.reading = .header ∧ r = .closed ∧ s' = { s with reading := .stopped } ∧
      handling = some .removeUser) ∨
    (s.reading = .header ∧ r ≠ .closed ∧ handling = none ∧ ∃ data,
      { s with mProto := { s.mProto with mData := data } }.parseHeader = some s') ∨
    (∃ bytes, s.reading = .body ∧ r = .received bytes ∧
      s' = { ((s.readBody bytes).handleBody decrypt l).1 with reading := .header } ∧
      handling = some ((s.readBody bytes).handleBody decrypt l).2) ∨
    (s.reading ≠ .header ∧ handling = none ∧ s' = { s with reading := .stopped }) := by
  obtain ⟨uuid, p, pending, sec, header, reading⟩ := s
  cases reading with
  | header =>
    cases r with
    | closed =>
      obtain ⟨rfl, rfl⟩ := Prod.mk.inj (Option.some.inj h)
      exact .inl ⟨rfl, rfl, rfl, rfl⟩
    | received bytes =>
      obtain ⟨t, ht, heq⟩ := Option.map_eq_some_iff.mp h
      obtain ⟨rfl, rfl⟩ := Prod.mk.inj heq
      exact .inr (.inl ⟨rfl, by simp, rfl, _, ht⟩)
    | failed =>
      obtain ⟨t, ht, heq⟩ := Option.map_eq_some_iff.mp h
      obtain ⟨rfl, rfl⟩ := Prod.mk.inj heq
      exact .inr (.inl ⟨rfl, by simp, rfl, p.mData, ht⟩)
  | body =>
    cases r with
    | received bytes =>
      obtain ⟨rfl, rfl⟩ := Prod.mk.inj (Option.some.inj h)
      exact .inr (.inr (.inl ⟨bytes, rfl, rfl, rfl, rfl⟩))
    | closed | failed =>
      obtain ⟨rfl, rfl⟩ := Prod.mk.inj (Option.some.inj h)
      exact .inr (.inr (.inr ⟨by simp, rfl, rfl⟩))
  | stopped =>
    obtain ⟨rfl, rfl⟩ := Prod.mk.inj (Option.some.inj h)
    exact .inr (.inr (.inr ⟨by simp, rfl, rfl⟩))

end PeerSession

/-- The server. A peer is the number of its session; `sent` is what has been written to the
peers, in order. -/
structure Server where
  mLobby : Lobby := {}
  peers : List PeerSession := []
  sent : List (ℕ × Str) := []
  aborted : Bool := false

/-- What comes to the server: connections, ends of reads, and the calls of its services. The data
of a new session are what stands in its buffer; a request comes with the dealer of the tables, a
table with the place drawn for its dealer. -/
inductive ServerEvent where
  | accept (data : Str)
  | read (dealer : Dealer) (peer : ℕ) (r : ReadEnd)
  | addClient (webId gek passPhrase : Str)
  | createTable (tableName : Str) (game : Game) (randomPlace : Place)
  | destroyTable (id : ℕ)

namespace Server

/-- The constructor. -/
def create (randomPlace : Place) : Server where
  mLobby := (({} : Lobby).createTable (str "Local game") {} randomPlace).2

def requestLogin (uuid : ℕ) : JsonObject :=
  JsonObject.ofList [(str "cmd", .string (str "RequestLogin")), (str "uuid", .integer uuid)]

/-- A text goes to one of the peers. -/
def write (gcm : Gcm) (srv : Server) (peer : ℕ) (data : Str) : Server :=
  match srv.peers[peer]? with
  | some s =>
    let (frame, s) := s.deliver gcm data
    { srv with peers := srv.peers.set peer s, sent := srv.sent ++ [(peer, frame)] }
  | none => srv

/-- `Lobby::Send`. -/
def send (gcm : Gcm) (srv : Server) (out : List Reply) : Server :=
  (srv.mLobby.send out).foldl (fun srv text => srv.write gcm text.1 text.2) srv

/-- What a session asks for is done. -/
def handle (gcm : Gcm) (dealer : Dealer) (srv : Server) (peer uuid : ℕ) : Handling → Server
  | .requestLogin => srv.write gcm peer ((JsonValue.object (requestLogin uuid)).toString (-1))
  | .removeUser => { srv with mLobby := srv.mLobby.removeUser uuid }
  | .deliver req =>
    let d := srv.mLobby.deliver dealer req
    { srv with mLobby := d.lobby }.send gcm d.out

/-- `Accept`, and the `Start` of the session. A session is held by `mPeers` alone: the one whose
place there is given to the new one is destroyed. -/
def accept (srv : Server) (data : Str) : Server :=
  let (uuid, l) := srv.mLobby.addUser srv.peers.length
  let peers := match srv.mLobby.getPeer uuid with
    | some old => srv.peers.modify old PeerSession.destroy
    | none => srv.peers
  { srv with mLobby := l, peers := peers ++ [{ uuid := uuid, mProto := { mData := data } }] }

def endRead (gcm : Gcm) (decrypt : Decryption) (dealer : Dealer) (srv : Server) (peer : ℕ)
    (r : ReadEnd) : Server :=
  match srv.peers[peer]? with
  | some s =>
    match s.endRead decrypt srv.mLobby r with
    | some (s, handling) =>
      let srv := { srv with peers := srv.peers.set peer s }
      match handling with
      | some handling => srv.handle gcm dealer peer s.uuid handling
      | none => srv
    | none => { srv with aborted := true }
  | none => srv

def step (gcm : Gcm) (decrypt : Decryption) (srv : Server) (event : ServerEvent) : Server :=
  if srv.aborted then srv
  else
    match event with
    | .accept data => srv.accept data
    | .read dealer peer r => srv.endRead gcm decrypt dealer peer r
    | .addClient webId gek passPhrase =>
      { srv with mLobby := srv.mLobby.addAllowedClient webId gek passPhrase }
    | .createTable tableName game randomPlace =>
      { srv with mLobby := (srv.mLobby.createTable tableName game randomPlace).2 }
    | .destroyTable id => { srv with mLobby := (srv.mLobby.destroyTable id).2 }

end Server

/-- The session with its counter of written frames set. -/
def PeerSession.count (n : ℕ) (s : PeerSession) : PeerSession :=
  { s with mProto := { s.mProto with mTxFrameCounter := n } }

namespace Server

/-- Frames may have been written; the server is the same in everything else. -/
structure Written (srv srv' : Server) : Prop where
  mLobby : srv'.mLobby = srv.mLobby
  aborted : srv'.aborted = srv.aborted
  peers : ∀ i : ℕ, ∃ n : ℕ, srv'.peers[i]? = (srv.peers[i]?).map (PeerSession.count n)

theorem written_refl (srv : Server) : srv.Written srv := by
  refine ⟨rfl, rfl, fun i => ?_⟩
  cases srv.peers[i]? with
  | none => exact ⟨0, rfl⟩
  | some s => exact ⟨s.mProto.mTxFrameCounter, rfl⟩

theorem Written.trans {srv srv' srv'' : Server} (h : srv.Written srv') (h' : srv'.Written srv'') :
    srv.Written srv'' := by
  refine ⟨h'.mLobby.trans h.mLobby, h'.aborted.trans h.aborted, fun i => ?_⟩
  obtain ⟨m, hm⟩ := h.peers i
  obtain ⟨n, hn⟩ := h'.peers i
  refine ⟨n, ?_⟩
  rw [hn, hm, Option.map_map]
  rfl

theorem written_write (gcm : Gcm) (srv : Server) (peer : ℕ) (data : Str) :
    srv.Written (srv.write gcm peer data) := by
  unfold write
  cases hs : srv.peers[peer]? with
  | none => exact srv.written_refl
  | some s =>
    refine ⟨rfl, rfl, fun i => ?_⟩
    by_cases hi : peer = i
    · subst hi
      have hlt := (List.getElem?_eq_some_iff.mp hs).1
      refine ⟨(s.mProto.mTxFrameCounter + 1) % 2 ^ 32, ?_⟩
      rw [hs, List.getElem?_set_self hlt]
      rfl
    · obtain ⟨n, hn⟩ := srv.written_refl.peers i
      exact ⟨n, (List.getElem?_set_ne hi).trans hn⟩

theorem written_send (gcm : Gcm) (srv : Server) (out : List Reply) :
    srv.Written (srv.send gcm out) := by
  unfold send
  generalize srv.mLobby.send out = texts
  induction texts generalizing srv with
  | nil => exact srv.written_refl
  | cons text texts ih => exact (written_write gcm srv text.1 text.2).trans (ih _)

/-- What becomes of the lobby when a session has handled a frame. -/
def handledLobby (dealer : Dealer) (l : Lobby) (uuid : ℕ) : Option Handling → Lobby
  | some .removeUser => l.removeUser uuid
  | some (.deliver req) => (l.deliver dealer req).lobby
  | some .requestLogin | none => l

/-- The server with one session as a read has left it. -/
def afterRead (dealer : Dealer) (srv : Server) (peer : ℕ) (s : PeerSession)
    (handling : Option Handling) : Server :=
  { srv with
    peers := srv.peers.set peer s
    mLobby := handledLobby dealer srv.mLobby s.uuid handling }

/-- What a session asks for when its read ends. -/
def asks (decrypt : Decryption) (srv : Server) (peer : ℕ) (r : ReadEnd) : Option Handling :=
  if srv.aborted then none
  else (srv.peers[peer]?.bind fun s => s.endRead decrypt srv.mLobby r).bind fun result => result.2

/-- What a step can do: a session is added, a read ends, or the lobby is changed by itself. -/
theorem step_cases (gcm : Gcm) (decrypt : Decryption) (srv : Server) (event : ServerEvent) :
    (∃ data, event = .accept data ∧ srv.aborted = false ∧
      srv.step gcm decrypt event = srv.accept data) ∨
    (∃ dealer peer r s s' handling, event = .read dealer peer r ∧ srv.aborted = false ∧
      srv.peers[peer]? = some s ∧ s.endRead decrypt srv.mLobby r = some (s', handling) ∧
      srv.asks decrypt peer r = handling ∧
      (srv.afterRead dealer peer s' handling).Written (srv.step gcm decrypt event)) ∨
    ((∀ dealer peer r, event = .read dealer peer r → srv.asks decrypt peer r = none) ∧
      (srv.step gcm decrypt event).peers = srv.peers ∧
      srv.mLobby.SamePeers (srv.step gcm decrypt event).mLobby) := by
  unfold step
  split_ifs with habort
  · refine .inr (.inr ⟨fun _ peer r _ => ?_, rfl, srv.mLobby.samePeers_refl⟩)
    rw [asks, if_pos habort]
  rw [Bool.not_eq_true] at habort
  have hother : (∀ dealer peer r, event ≠ .read dealer peer r) →
      ∀ dealer peer r, event = .read dealer peer r → srv.asks decrypt peer r = none :=
    fun hne dealer peer r he => absurd he (hne dealer peer r)
  cases event with
  | accept data => exact .inl ⟨data, rfl, habort, rfl⟩
  | read dealer peer r =>
    cases hs : srv.peers[peer]? with
    | none =>
      refine .inr (.inr ⟨?_, ?_⟩)
      · rintro _ _ _ ⟨⟩
        simp [asks, habort, hs]
      · simp [endRead, hs, Lobby.samePeers_refl]
    | some s =>
      cases hr : s.endRead decrypt srv.mLobby r with
      | none =>
        refine .inr (.inr ⟨?_, ?_⟩)
        · rintro _ _ _ ⟨⟩
          simp [asks, habort, hs, hr]
        · simp [endRead, hs, hr, Lobby.samePeers_refl]
      | some result =>
        obtain ⟨s', handling⟩ := result
        have hasks : srv.asks decrypt peer r = handling := by simp [asks, habort, hs, hr]
        simp only [endRead, hs, hr]
        refine .inr (.inl ⟨dealer, peer, r, s, s', handling, rfl, habort, hs, hr, hasks, ?_⟩)
        cases handling with
        | none => exact written_refl _
        | some handling =>
          cases handling with
          | requestLogin => exact written_write gcm _ peer _
          | removeUser => exact written_refl _
          | deliver req => exact written_send gcm _ _
  | addClient webId gek passPhrase => exact .inr (.inr ⟨hother (by simp), rfl, rfl, rfl⟩)
  | createTable tableName game randomPlace =>
    exact .inr (.inr ⟨hother (by simp), rfl, srv.mLobby.samePeers_createTable _ _ _⟩)
  | destroyTable id => exact .inr (.inr ⟨hother (by simp), rfl, rfl, rfl⟩)

/-- A new connection destroys the session that it replaces in `mPeers`, and leaves the others
alone. -/
theorem accept_peers (srv : Server) (data : Str) {i : ℕ} (hi : i ≠ srv.peers.length) :
    (srv.accept data).peers[i]? = (srv.peers[i]?).map fun s =>
      if srv.mLobby.getPeer (srv.mLobby.addUser srv.peers.length).1 = some i then s.destroy
      else s := by
  have happend : ∀ (peers : List PeerSession) (s : PeerSession),
      peers.length = srv.peers.length → (peers ++ [s])[i]? = peers[i]? := by
    intro peers s hlength
    rcases Nat.lt_or_gt_of_ne hi with hlt | hgt
    · exact List.getElem?_append_left (by omega)
    · rw [List.getElem?_eq_none (by simp; omega), List.getElem?_eq_none (by omega)]
  unfold accept
  cases hold : srv.mLobby.getPeer (srv.mLobby.addUser srv.peers.length).1 with
  | none =>
    simp only [hold]
    rw [happend _ _ rfl]
    simp
  | some old =>
    simp only [hold]
    rw [happend _ _ (List.length_modify _ _ _), List.getElem?_modify]
    cases srv.peers[i]? with
    | none => rfl
    | some s => simp

/-- A session changes by its own reads only, but for the counter of its written frames, and but
for the new one that replaces it. -/
theorem step_session (gcm : Gcm) (decrypt : Decryption) {srv : Server} (event : ServerEvent)
    {i : ℕ} {s : PeerSession} (hs : srv.peers[i]? = some s) :
    ∃ n s', (srv.step gcm decrypt event).peers[i]? = some (PeerSession.count n s') ∧
      (s' = s ∨ s' = s.destroy ∨ ∃ dealer r handling, event = .read dealer i r ∧
        s.endRead decrypt srv.mLobby r = some (s', handling)) := by
  have hlt := (List.getElem?_eq_some_iff.mp hs).1
  have hself : some s = some (PeerSession.count s.mProto.mTxFrameCounter s) := rfl
  rcases step_cases gcm decrypt srv event with ⟨data, -, -, hstep⟩ |
    ⟨dealer, peer, r, s0, s', handling, rfl, -, hs0, hr, -, hwritten⟩ | ⟨-, hpeers, -⟩
  · rw [hstep, srv.accept_peers data hlt.ne, hs, Option.map_some]
    split_ifs
    · exact ⟨s.mProto.mTxFrameCounter, s.destroy, rfl, .inr (.inl rfl)⟩
    · exact ⟨s.mProto.mTxFrameCounter, s, rfl, .inl rfl⟩
  · obtain ⟨n, hn⟩ := hwritten.peers i
    by_cases hi : peer = i
    · subst hi
      obtain rfl : s0 = s := Option.some.inj (hs0.symm.trans hs)
      refine ⟨n, s', ?_, .inr (.inr ⟨dealer, r, handling, rfl, hr⟩)⟩
      rw [hn, afterRead, List.getElem?_set_self hlt]
      rfl
    · refine ⟨n, s, ?_, .inl rfl⟩
      rw [hn, afterRead, List.getElem?_set_ne hi, hs]
      rfl
  · refine ⟨s.mProto.mTxFrameCounter, s, ?_, .inl rfl⟩
    rw [hpeers, hs]
    exact hself

end Server

end TarotClub
