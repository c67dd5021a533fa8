import TarotClub.Session

namespace TarotClub

open Machine Reassembly Protocol

/-- A session of the server, with what it has asked for. -/
structure Reception where
  session : PeerSession
  asked : List Handling := []
  aborted : Bool := false

namespace Reception

/-- The reads of the session; the lobby is the one that the server has then. -/
def reader (decrypt : Decryption) (lobby : Reception → Lobby) : Reader Reception UInt8 where
  need r :=
    if r.aborted then none
    else
      match r.session.reading with
      | .header => some headerSize
      | .body => some r.session.h.bodyLength
      | .stopped => none
  take r bytes :=
    match r.session.endRead decrypt (lobby r) (.received bytes) with
    | some (session, handling) =>
      { r with session := session, asked := r.asked ++ handling.toList }
    | none => { r with aborted := true }

/-- What a session that is let in asks for when a frame comes. -/
def handlingOf (gcm : Gcm) (decrypt : Decryption) (p : Protocol) (c : BuildCall) : Handling :=
  match opened gcm decrypt p c with
  | some req => .deliver req
  | none => .removeUser

/-- A session that is let in and waits for a header. -/
structure Receives (key : Str) (r : Reception) : Prop where
  reading : r.session.reading = .header
  aborted : r.aborted = false
  key : r.session.mProto.mKey = key
  letIn : r.session.mIsPending = false

variable (gcm : Gcm) (decrypt : Decryption) (lobby : Reception → Lobby)

/-- The session behind the header of a frame. -/
def behindHeader (r : Reception) (h : Header) : Reception :=
  { r with session := { r.session with
      mProto := r.session.mProto.store 0 (headerText h)
      h := { h with prefixText := r.session.h.prefixText }
      reading := .body } }

theorem take_header {r : Reception} (hreading : r.session.reading = .header) {h : Header}
    (hn : Narrow h) (hsize : h.payloadSize + h.prefixSize + 1 < maxBodySize) :
    (reader decrypt lobby).take r (headerText h) = r.behindHeader h := by
  have htake : (headerText h).take headerSize = headerText h :=
    List.take_of_length_le (length_headerText hn).le
  have hparse := parseHeader_stored r.session.mProto hn hsize r.session.h
  have hread : r.session.endRead decrypt (lobby r) (.received (headerText h)) =
      some ((r.behindHeader h).session, none) := by
    simp only [PeerSession.endRead, hreading]
    rw [PeerSession.readHeader, htake, PeerSession.parseHeader]
    dsimp only
    rw [hparse]
    rfl
  simp only [reader, hread]
  rw [Option.toList_none, List.append_nil]
  rfl

/-- The body of a frame, as the session reads it behind the header. -/
theorem frame_behindHeader (r : Reception) {h : Header} (hn : Narrow h) {body : Str}
    (hbody : body.length = h.bodyLength) :
    ((r.behindHeader h).session.readBody body).mProto.frame
        { h with prefixText := r.session.h.prefixText } = headerText h ++ body := by
  have htake : body.take (r.behindHeader h).session.h.bodyLength = body :=
    List.take_of_length_le hbody.le
  rw [PeerSession.readBody, htake]
  exact frame_store r.session.mProto (length_headerText hn) hbody

theorem take_body {r : Reception} (hreading : r.session.reading = .body) (body : Str) :
    (reader decrypt lobby).take r body =
      { r with
        session := { ((r.session.readBody body).handleBody decrypt (lobby r)).1 with
          reading := .header }
        asked := r.asked ++ [((r.session.readBody body).handleBody decrypt (lobby r)).2] } := by
  simp only [reader, PeerSession.endRead, hreading]
  rw [Option.toList_some]

/-- A session that is let in looks for no key. -/
theorem handleBody_letIn {s : PeerSession} (hin : s.mIsPending = false) (l : Lobby) :
    (s.handleBody decrypt l).1 = s ∧ (s.handleBody decrypt l).2 =
      match decrypt s.mProto.mKey (s.mProto.frame s.h) s.h.prefixSize s.h.payloadSize with
      | some arg => .deliver { srcUuid := s.h.srcUid, destUuid := s.h.dstUid, arg := arg }
      | none => .removeUser := by
  have hfind : s.findSecurity l = s := by
    rw [PeerSession.findSecurity, hin, if_neg Bool.false_ne_true]
  rw [PeerSession.handleBody, hfind]
  simp only [hin, Bool.false_eq_true, if_false]
  cases decrypt s.mProto.mKey (s.mProto.frame s.h) s.h.prefixSize s.h.payloadSize with
  | none => exact ⟨rfl, rfl⟩
  | some arg => exact ⟨rfl, rfl⟩

/-- The prefix of a frame, as a session finds it. -/
theorem parsePrefix_frame {p : Protocol} {h : Header} {head webId rest : Str}
    (hhead : head.length = headerSize) (hframe : p.frame h = head ++ (webId ++ rest))
    (hsize : h.prefixSize = webId.length) (hlt : webId.length < maxBodySize)
    (hnone : webId = [] → h.prefixText = []) :
    (p.parsePrefix h).prefixText = webId := by
  unfold parsePrefix
  by_cases hempty : webId = []
  · rw [hsize, hempty, List.length_nil, if_neg (fun hpos => absurd hpos.1 (lt_irrefl 0))]
    exact hnone hempty
  · have hpos : 0 < webId.length := List.length_pos_iff.mpr hempty
    rw [hsize, if_pos ⟨hpos, hlt⟩]
    change (p.mData.drop headerSize).take webId.length = webId
    have hlength := congrArg List.length hframe
    rw [Protocol.frame, List.length_take, List.length_append, List.length_append, hhead] at hlength
    have hdrop : (p.frame h).drop headerSize = webId ++ rest := by
      rw [hframe, List.drop_left' hhead]
    rw [Protocol.frame, List.drop_take] at hdrop
    have htake := congrArg (List.take webId.length) hdrop
    rw [List.take_take, List.take_left, min_eq_left] at htake
    · exact htake
    · omega

/-- A session that waits for its peer to log in, and has read a frame of it. -/
theorem handleBody_login {s : PeerSession} (hpending : s.mIsPending = true) {l : Lobby}
    {webId : Str} {sec : Security} (hallowed : l.mAllowedClients webId = some sec)
    (htext : (s.mProto.parsePrefix s.h).prefixText = webId)
    (hopen : decrypt sec.gek (s.mProto.frame s.h) s.h.prefixSize s.h.payloadSize =
      some sec.passPhrase) :
    (s.handleBody decrypt l).1.mIsPending = false ∧
      (s.handleBody decrypt l).1.mProto.mKey = sec.gek ∧
        (s.handleBody decrypt l).2 = .requestLogin := by
  have hsec : l.getSecurity (s.mProto.parsePrefix s.h).prefixText s.sec = (true, sec) := by
    rw [Lobby.getSecurity, htext, hallowed]
  have hfind : s.findSecurity l = { s with
      h := s.mProto.parsePrefix s.h
      sec := sec
      mProto := s.mProto.setSecurity sec.gek } := by
    rw [PeerSession.findSecurity, if_pos hpending]
    dsimp only
    rw [hsec]
    rfl
  have hsizes : (s.mProto.parsePrefix s.h).prefixSize = s.h.prefixSize ∧
      (s.mProto.parsePrefix s.h).payloadSize = s.h.payloadSize := by
    unfold parsePrefix
    split_ifs
    · exact ⟨rfl, rfl⟩
    · exact ⟨rfl, rfl⟩
  have hframe : (s.mProto.setSecurity sec.gek).frame (s.mProto.parsePrefix s.h) =
      s.mProto.frame s.h := by
    rw [Protocol.frame, Protocol.frame, Header.bodyLength, Header.bodyLength, hsizes.1, hsizes.2]
    rfl
  have hkey : (s.mProto.setSecurity sec.gek).mKey = sec.gek := rfl
  rw [PeerSession.handleBody, hfind]
  dsimp only
  rw [hframe, hsizes.1, hsizes.2, hkey, hopen]
  dsimp only
  rw [if_pos hpending, if_pos rfl]
  exact ⟨rfl, rfl, rfl⟩

/-- The session behind a frame. -/
def behindFrame (decrypt : Decryption) (lobby : Reception → Lobby) (r : Reception) (h : Header)
    (body : Str) : Reception :=
  let result := ((r.behindHeader h).session.readBody body).handleBody decrypt
    (lobby (r.behindHeader h))
  { r with
    session := { result.1 with reading := .header }
    asked := r.asked ++ [result.2] }

variable {key : Str} {r : Reception} {h : Header}

theorem behindHeader_session (r : Reception) (h : Header) : (r.behindHeader h).session =
    { r.session with
      mProto := r.session.mProto.store 0 (headerText h)
      h := { h with prefixText := r.session.h.prefixText }
      reading := .body } := by
  rw [behindHeader]

theorem behindHeader_else (r : Reception) (h : Header) :
    (r.behindHeader h).asked = r.asked ∧ (r.behindHeader h).aborted = r.aborted := by
  rw [behindHeader]
  exact ⟨rfl, rfl⟩

/-- What the session has at hand when it handles the body of a frame. -/
theorem readBody_behindHeader (r : Reception) {h : Header} (hn : Narrow h) {body : Str}
    (hbody : body.length = h.bodyLength) {s : PeerSession}
    (hs : s = (r.behindHeader h).session.readBody body) :
    s.mProto.frame s.h = headerText h ++ body ∧ s.h = { h with prefixText := r.session.h.prefixText } ∧
      s.mIsPending = r.session.mIsPending ∧ s.mProto.mKey = r.session.mProto.mKey := by
  have hheader : s.h = { h with prefixText := r.session.h.prefixText } := by
    rw [hs, PeerSession.readBody, behindHeader_session]
  refine ⟨?_, hheader, ?_, ?_⟩
  · rw [hheader, hs]
    exact frame_behindHeader r hn hbody
  · rw [hs, PeerSession.readBody, behindHeader_session]
  · rw [hs, PeerSession.readBody, behindHeader_session, store_mKey, store_mKey]

/-- A session in front of a frame takes it with two reads. -/
theorem takes_frame (hreading : r.session.reading = .header) (halive : r.aborted = false)
    (hn : Narrow h) (hsize : h.payloadSize + h.prefixSize + 1 < maxBodySize) {body : Str}
    (hbody : body.length = h.bodyLength) :
    ∃ out, out = (((r.behindHeader h).session.readBody body).handleBody decrypt
        (lobby (r.behindHeader h))).2 ∧
      Takes (reader decrypt lobby) asked (fun r => r.aborted = false) r (headerText h ++ body)
        [out] (r.behindHeader h) (behindFrame decrypt lobby r h body) (headerText h) body := by
  have hbehind : (r.behindHeader h).session.reading = .body := by
    rw [behindHeader_session]
  have htake := take_body decrypt lobby hbehind body
  obtain ⟨hasked, haborted⟩ := behindHeader_else r h
  refine ⟨_, rfl, rfl, ⟨?_, take_header decrypt lobby hreading hn hsize⟩, ⟨?_, ?_⟩, ⟨?_, ?_⟩, hasked, ?_⟩
  · rw [length_headerText hn]
    simp only [reader, halive, hreading]
    rfl
  · rw [hbody]
    simp only [reader, haborted, halive, behindHeader_session]
    rfl
  · rw [htake, hasked, haborted, behindFrame]
  · rw [haborted]
    exact halive
  · rw [behindFrame]
    exact halive
  · rw [behindFrame]

theorem receives_behindFrame (halive : r.aborted = false) {body : Str}
    (hin : (((r.behindHeader h).session.readBody body).handleBody decrypt
      (lobby (r.behindHeader h))).1.mIsPending = false)
    (hkey : (((r.behindHeader h).session.readBody body).handleBody decrypt
      (lobby (r.behindHeader h))).1.mProto.mKey = key) :
    (behindFrame decrypt lobby r h body).Receives key := by
  rw [behindFrame]
  exact ⟨rfl, halive, hkey, hin⟩

/-- A session that is let in takes a frame with two reads, and stays let in. -/
theorem Receives.takes {p : Protocol} (hr : r.Receives p.mKey) {c : BuildCall} (hc : c.Fits)
    (hcounter : p.mTxFrameCounter < 16 ^ 4) :
    ∃ mid t head body, Takes (reader decrypt lobby) asked (fun r => r.aborted = false) r
        (p.frameOf gcm c) [handlingOf gcm decrypt p c] mid t head body ∧ t.Receives p.mKey := by
  obtain ⟨body, hframe, hbody, -⟩ := frameOf_eq gcm (p := p) hc
  have hnarrow : Narrow (p.headerOf c) := buildHeader_narrow p hc.src hc.dst hc.size hcounter
  obtain ⟨out, hout, htakes⟩ := takes_frame decrypt lobby hr.reading
    hr.aborted hnarrow hc.headerOf_size hbody
  obtain ⟨hbytes, hheader, hpending, hkey⟩ := readBody_behindHeader r hnarrow hbody rfl
  rw [hr.letIn] at hpending
  obtain ⟨hsame, hhandling⟩ := handleBody_letIn decrypt hpending
    (lobby (r.behindHeader (p.headerOf c)))
  have hasks : out = handlingOf gcm decrypt p c := by
    rw [hout, hhandling, hbytes, hheader, hkey, hr.key, handlingOf, opened, hframe]
    cases decrypt p.mKey (headerText (p.headerOf c) ++ body) (p.headerOf c).prefixSize
      (p.headerOf c).payloadSize with
    | none => rfl
    | some arg => rfl
  refine ⟨r.behindHeader (p.headerOf c), behindFrame decrypt lobby r (p.headerOf c) body,
    headerText (p.headerOf c), body, ?_, receives_behindFrame decrypt lobby hr.aborted ?_ ?_⟩
  · rw [hframe, ← hasks]
    exact htakes
  · rw [hsame]
    exact hpending
  · rw [hsame, hkey]
    exact hr.key

/-- The packet of the connection lets a session in. -/
theorem takes_login (hreading : r.session.reading = .header) (halive : r.aborted = false)
    (hpending : r.session.mIsPending = true) (htext : r.session.h.prefixText = []) {sec : Security}
    {p : Protocol} (hkey : p.mKey = sec.gek) {c : BuildCall}
    (hallowed : ∀ r, (lobby r).mAllowedClients c.prefixText = some sec) (hc : c.Fits)
    (hcounter : p.mTxFrameCounter < 16 ^ 4)
    (hopen : (opened gcm decrypt p c).map Request.arg = some sec.passPhrase) :
    ∃ mid t head body, Takes (reader decrypt lobby) asked (fun r => r.aborted = false) r
        (p.frameOf gcm c) [.requestLogin] mid t head body ∧ t.Receives p.mKey := by
  obtain ⟨body, hframe, hbody, rest, hweb⟩ := frameOf_eq gcm (p := p) hc
  have hnarrow : Narrow (p.headerOf c) := buildHeader_narrow p hc.src hc.dst hc.size hcounter
  obtain ⟨out, hout, htakes⟩ := takes_frame decrypt lobby hreading halive
    hnarrow hc.headerOf_size hbody
  obtain ⟨hbytes, hheader, hpending', -⟩ := readBody_behindHeader r hnarrow hbody rfl
  rw [hpending] at hpending'
  have hlt : c.prefixText.length < maxBodySize := by
    have hsize := hc.size
    omega
  have hfound := parsePrefix_frame (length_headerText hnarrow) (hbytes.trans (by rw [hweb]))
    (congrArg Header.prefixSize hheader) hlt fun _ => (congrArg Header.prefixText hheader).trans htext
  have hclear : decrypt sec.gek (headerText (p.headerOf c) ++ body) (p.headerOf c).prefixSize
      (p.headerOf c).payloadSize = some sec.passPhrase := by
    have hread : (Request.arg ∘ fun arg : Str => ({ srcUuid := c.src, destUuid := c.dst, arg := arg } :
        Request)) = id := rfl
    rw [opened, Option.map_map, hread, Option.map_id, id, hframe, hkey] at hopen
    exact hopen
  obtain ⟨hin, hkey', hlogin⟩ := handleBody_login decrypt hpending'
    (hallowed (r.behindHeader (p.headerOf c))) hfound (by rw [hbytes, hheader]; exact hclear)
  refine ⟨r.behindHeader (p.headerOf c), behindFrame decrypt lobby r (p.headerOf c) body,
    headerText (p.headerOf c), body, ?_,
    receives_behindFrame decrypt lobby halive hin (hkey'.trans hkey.symm)⟩
  rw [hframe, ← hlogin, ← hout]
  exact htakes

/-- The session in front of the frames of its peer. -/
theorem Receives.chain {p : Protocol} (hr : r.Receives p.mKey) {calls : List BuildCall}
    (hfits : ∀ c ∈ calls, c.Fits) (hcount : p.mTxFrameCounter + calls.length ≤ 16 ^ 4) :
    Chain (reader decrypt lobby) asked (fun r => r.aborted = false) r (p.frames gcm calls)
      (labels (afterBuild gcm) (fun p c => [handlingOf gcm decrypt p c]) p calls) := by
  induction calls generalizing r p with
  | nil =>
    refine .nil fun n hn => ?_
    have hneed : (reader decrypt lobby).need r = some headerSize := by
      simp only [reader, hr.aborted, hr.reading]
      rfl
    rw [← Option.some.inj (hneed.symm.trans hn)]
    decide
  | cons c calls ih =>
    rw [List.length_cons] at hcount
    obtain ⟨mid, t, head, body, htakes, hreceives⟩ := hr.takes gcm decrypt lobby
      (hfits c List.mem_cons_self) (by omega)
    refine .cons htakes (ih hreceives (fun d hd => hfits d (List.mem_cons_of_mem c hd)) ?_)
    have hcounter := afterBuild_counter_le gcm p c
    omega

end Reception

namespace Session

/-- The calls of `Build` in `BuildConnectionPacket` and in `Send`. -/
def connectionCall (s : Session) : BuildCall := ⟨0, lobbyUid, s.mPassPhrase, s.mWebId⟩

def sendCalls (myUid : ℕ) (out : List Reply) : List BuildCall :=
  (out.flatMap fun reply => reply.dest.map fun dest => (dest, reply.data)).map fun message =>
    ⟨myUid, message.1, (JsonValue.object message.2).toString (-1), []⟩

/-- What is sent are the frames of these calls. -/
theorem send_fst (gcm : Gcm) (s : Session) (myUid : ℕ) (out : List Reply) :
    (s.send gcm myUid out).1 = s.mProto.frames gcm (sendCalls myUid out) := by
  rw [send, sendCalls]
  generalize (out.flatMap fun reply => reply.dest.map fun dest => (dest, reply.data)) = messages
  suffices h : ∀ built : List Str,
      (messages.foldl (fun (acc : List Str × Session) message =>
        let sent := acc.2.mProto.build gcm myUid message.1
          ((JsonValue.object message.2).toString (-1)) []
        (acc.1 ++ [sent.1], { acc.2 with mProto := sent.2 })) (built, s)).1 =
      built ++ s.mProto.frames gcm (messages.map fun message =>
        ⟨myUid, message.1, (JsonValue.object message.2).toString (-1), []⟩) from h []
  induction messages generalizing s with
  | nil => exact fun built => (List.append_nil built).symm
  | cons message messages ih =>
    intro built
    rw [List.foldl_cons, ih, List.append_assoc]
    rfl

end Session

namespace Reception

theorem labels_singleton (gcm : Gcm) (decrypt : Decryption) (p : Protocol) (calls : List BuildCall) :
    labels (afterBuild gcm) (fun p c => [handlingOf gcm decrypt p c]) p calls =
      (labels (afterBuild gcm) (handlingOf gcm decrypt) p calls).map List.singleton := by
  induction calls generalizing p with
  | nil => rfl
  | cons c calls ih => exact congrArg (List.cons _) (ih _)

/-- A client that the lobby knows sends its packet of the connection and its requests, and the
network cuts them as it likes. As long as no read of the server ends early, its session asks the
client to log in, and then for what is in the frames, each of them once and in order. -/
theorem requests_in_order (gcm : Gcm) (decrypt : Decryption) {lobby : Reception → Lobby}
    (buffer webId : Str) (sec : Security)
    (hallowed : ∀ r, (lobby r).mAllowedClients webId = some sec) (uuid : ℕ) (data : Str)
    (myUid : ℕ) (out : List Reply) :
    let client := Session.create buffer webId sec.gek sec.passPhrase
    let (packet, client') := client.buildConnectionPacket gcm
    let calls := Session.sendCalls myUid out
    let (requests, _) := client'.send gcm myUid out
    let start : Feed Reception UInt8 :=
      { reader := { session := { uuid := uuid, mProto := { mData := data } } } }
    decrypt sec.gek packet webId.length (cipheredPayloadSize sec.passPhrase) = some sec.passPhrase →
    (∀ c ∈ client.connectionCall :: calls, c.Fits) → calls.length < 2 ^ 16 →
    ∀ events : List (FeedEvent UInt8), Feed.arrived events <+: packet ++ requests.flatten →
      Guarded (Feed.receiveStep (reader decrypt lobby)) (Feed.Full (reader decrypt lobby)) start
        events →
      let s := run (Feed.receiveStep (reader decrypt lobby)) start events
      ∃ k ≤ requests.length + 1, s.reader.aborted = false ∧
        s.reader.asked = (.requestLogin ::
          labels (afterBuild gcm) (handlingOf gcm decrypt) client'.mProto calls).take k ∧
        (Feed.arrived events = packet ++ requests.flatten → s.isOpen = true →
          s.Waits (reader decrypt lobby) → k = requests.length + 1) := by
  intro client
  dsimp only
  intro hopen hfits hcount events hcome hfull
  rw [Session.send_fst] at hcome ⊢
  rw [Feed.run_receiveStep hfull]
  have hc := hfits _ List.mem_cons_self
  have hnone : client.mProto.mTxFrameCounter = 0 := rfl
  have hlogin : (opened gcm decrypt client.mProto client.connectionCall).map Request.arg =
      some sec.passPhrase :=
    congrArg (Option.map Request.arg) (congrArg (Option.map _) hopen)
  obtain ⟨mid, t, head, body, htakes, hreceives⟩ := takes_login gcm decrypt lobby
    (r := { session := { uuid := uuid, mProto := { mData := data } } }) rfl rfl rfl rfl
    (p := client.mProto) rfl hallowed hc (by rw [hnone]; decide) hlogin
  have hcounter := afterBuild_counter_le gcm client.mProto client.connectionCall
  have hrest := hreceives.chain gcm decrypt lobby
    (p := afterBuild gcm client.mProto client.connectionCall)
    (fun c hmem => hfits c (List.mem_cons_of_mem _ hmem)) (by omega)
  have hchain := Chain.cons htakes hrest
  obtain ⟨k, hk, halive, hasked, hall⟩ := hchain.run rfl hcome
  refine ⟨k, hk, halive, hasked.trans ?_, hall⟩
  rw [labels_singleton]
  change ((List.map List.singleton (Handling.requestLogin :: labels _ _ _ _)).take k).flatten = _
  rw [← List.map_take, ← List.flatMap_def]
  exact List.flatMap_singleton' _

def aliceLobby : Lobby := ({} : Lobby).addAllowedClient (str "alice") aliceKey (str "secret")

def aliceSecurity : Security :=
  { webId := str "alice", gek := aliceKey, passPhrase := str "secret" }

/-- Alice has connected; she says something to the lobby. -/
def alice : Str × Session :=
  (Session.create [] (str "alice") aliceKey (str "secret")).buildConnectionPacket aliceGcm

def aliceMessage : JsonObject :=
  JsonObject.ofList [(str "cmd", .string (str "ChatMessage")), (str "target", .integer lobbyUid),
    (str "message", .string (str "hi"))]

def aliceRequest : Request :=
  { srcUuid := 10, destUuid := lobbyUid, arg := (JsonValue.object aliceMessage).toString (-1) }

def aliceFrames : List Str := (alice.2.send aliceGcm 10 [⟨[lobbyUid], aliceMessage⟩]).1

def aliceBytes : Str := alice.1 ++ aliceFrames.flatten

/-- What she writes comes in three pieces, and a read ends when its bytes have come. -/
def alicePieces : List (FeedEvent UInt8) :=
  [.arrive (aliceBytes.take 20), .arrive ((aliceBytes.drop 20).take 120), .complete, .complete,
    .arrive (aliceBytes.drop 140), .complete, .complete, .complete]

/-- The server takes them; it knows alice. -/
def aliceRun (events : List (FeedEvent UInt8)) : Feed Reception UInt8 :=
  run (Feed.receiveStep (reader aliceGcm.decryption fun _ => aliceLobby))
    { reader := { session := { uuid := 10 } } } events

theorem requests_in_order_alice :
    (aliceRun alicePieces).reader.asked = [.requestLogin, .deliver aliceRequest] ∧
      let s := run (Feed.receiveStep (reader aliceGcm.decryption fun _ => aliceLobby))
        { reader := { session := { uuid := 10, mProto := { mData := [] } } } } alicePieces
      ∃ k ≤ aliceFrames.length + 1, s.reader.aborted = false ∧
        s.reader.asked = (.requestLogin :: labels (afterBuild aliceGcm)
          (handlingOf aliceGcm aliceGcm.decryption) alice.2.mProto
            (Session.sendCalls 10 [⟨[lobbyUid], aliceMessage⟩])).take k ∧
        (Feed.arrived alicePieces = aliceBytes → s.isOpen = true →
          s.Waits (reader aliceGcm.decryption fun _ => aliceLobby) →
            k = aliceFrames.length + 1) := by
  refine ⟨by decide +kernel, ?_⟩
  exact requests_in_order aliceGcm aliceGcm.decryption [] (str "alice") aliceSecurity
    (fun _ => by decide +kernel) 10 [] 10 [⟨[lobbyUid], aliceMessage⟩] (by decide +kernel)
    (by decide +kernel) (by decide +kernel) alicePieces (by decide +kernel) (by decide +kernel)

end Reception

end TarotClub
