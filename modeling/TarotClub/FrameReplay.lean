import TarotClub.Authentication
import TarotClub.FrameBounds

namespace TarotClub

open Machine

namespace Protocol

/-- A column of the header is read from the header alone. -/
theorem parseUint_take {data : Str} (hcolon : data.getD 27 0 = chr ':') {offset : ℕ}
    (hoffset : offset ≤ 27) (modulus size : ℕ) :
    parseUint modulus (data.drop offset) size =
      parseUint modulus ((data.take headerSize).drop offset) size := by
  have hlength : 27 < data.length := by
    by_contra hle
    rw [List.getD_eq_getElem?_getD, List.getElem?_eq_none (by omega)] at hcolon
    exact absurd hcolon (by decide)
  have hlengthTake : (data.take headerSize).length = headerSize := by
    rw [List.length_take, headerSize]
    omega
  have hmem : chr ':' ∈ (data.take headerSize).drop offset := by
    rw [List.getD_eq_getElem?_getD, List.getElem?_eq_getElem hlength, Option.getD_some] at hcolon
    rw [← hcolon, List.mem_iff_getElem]
    refine ⟨27 - offset, ?_, ?_⟩
    · rw [List.length_drop, hlengthTake, headerSize]
      omega
    · simp [show offset + (27 - offset) = 27 by omega]
  have hdrop : data.drop offset =
      (data.take headerSize).drop offset ++ data.drop headerSize := by
    rw [← List.drop_append_of_le_length (by rw [hlengthTake, headerSize]; omega),
      List.take_append_drop]
  rw [parseUint, parseUint, hdrop, strtoul_append hmem]

/-- The same header is read in the same way, whatever the buffer and the record hold besides. -/
theorem parseHeader_again {p q : Protocol} {old h : Header}
    (hp : p.parseHeader old = some (true, h))
    (hdata : q.mData.take headerSize = p.mData.take headerSize) (old' : Header) :
    q.parseHeader old' = some (true, { h with prefixText := old'.prefixText }) := by
  obtain ⟨hcolons, hcolumns, hsize⟩ := parseHeader_columns hp
  obtain ⟨h0, h3, h8, h13, h18, h23, -⟩ := parseColumns_true hcolumns
  have hget : ∀ i < headerSize, q.mData.getD i 0 = p.mData.getD i 0 := by
    intro i hi
    have := congrArg (fun data : Str => data[i]?) hdata
    simpa [List.getElem?_take, hi, List.getD_eq_getElem?_getD] using congrArg (·.getD 0) this
  have hcolons' : ∀ i ∈ separators, q.mData.getD i 0 = chr ':' := by
    intro i hi
    rw [hget i ?_]
    · exact hcolons i hi
    · simp only [separators, List.mem_cons, List.not_mem_nil, or_false] at hi
      rw [headerSize]
      omega
  have hcolumn : ∀ offset ≤ 27, ∀ modulus size, parseUint modulus (q.mData.drop offset) size =
      parseUint modulus (p.mData.drop offset) size := by
    intro offset hoffset modulus size
    rw [parseUint_take (hcolons' 27 (by decide)) hoffset, hdata,
      ← parseUint_take (hcolons 27 (by decide)) hoffset]
  have hcolumns' : q.parseColumns old' = (true, { h with prefixText := old'.prefixText }) := by
    simp only [parseColumns, parseColumn, if_true, hcolumn 0 (by norm_num),
      hcolumn 3 (by norm_num), hcolumn 8 (by norm_num), hcolumn 13 (by norm_num),
      hcolumn 18 (by norm_num), hcolumn 23 (by norm_num), h0, h3, h8, h13, h18, h23]
  rw [parseHeader, if_pos hcolons']
  simp only [hcolumns']
  rw [if_neg (not_le.mpr hsize)]

/-- The bytes of a frame whose header and body have been read one after the other. -/
theorem frame_store (p : Protocol) {header body : Str} (hheader : header.length = headerSize)
    {h : Header} (hbody : body.length = h.bodyLength) :
    ((p.store 0 header).store headerSize body).frame h = header ++ body := by
  have htake : (header ++ p.mData.drop (0 + header.length)).take headerSize = header := by
    rw [← hheader, List.take_left]
  simp only [store, frame, List.take_zero, List.nil_append, htake]
  rw [← hbody, ← hheader, ← List.length_append, List.take_left]

end Protocol

namespace PeerSession

/-- The frame is one that the session accepts: its header promises the body, and under the key of
the session it is deciphered. -/
def Takes (decrypt : Decryption) (s : PeerSession) (header body : Str) (req : Request) : Prop :=
  ∃ h, (s.readHeader header).mProto.parseHeader s.h = some (true, h) ∧
    body.length = h.bodyLength ∧
    ∃ arg, decrypt s.mProto.mKey (header ++ body) h.prefixSize h.payloadSize = some arg ∧
      req = { srcUuid := h.srcUid, destUuid := h.dstUid, arg := arg }

theorem take_store {header : Str} (hheader : header.length = headerSize) (s : PeerSession) :
    (s.readHeader header).mProto.mData.take headerSize = header := by
  simp only [readHeader, Protocol.store, List.take_zero, List.nil_append]
  rw [← hheader, List.take_length, List.take_left]

/-- Only the key decides, and neither a counter nor what the session has read before. -/
theorem Takes.again {decrypt : Decryption} {s s' : PeerSession} {header body : Str} {req : Request}
    (h : s.Takes decrypt header body req) (hheader : header.length = headerSize)
    (hkey : s'.mProto.mKey = s.mProto.mKey) : s'.Takes decrypt header body req := by
  obtain ⟨header', hparse, hbody, arg, hclear, rfl⟩ := h
  refine ⟨_, Protocol.parseHeader_again hparse ?_ s'.h, hbody, arg, ?_, rfl⟩
  · rw [take_store hheader, take_store hheader]
  · rw [hkey]
    exact hclear

/-- Requests reach the lobby from sessions that are let in, when the frame can be deciphered. -/
theorem handleBody_deliver_iff (decrypt : Decryption) (l : Lobby) (s : PeerSession)
    (req : Request) :
    (s.handleBody decrypt l).2 = .deliver req ↔ s.mIsPending = false ∧
      ∃ arg, decrypt s.mProto.mKey (s.mProto.frame s.h) s.h.prefixSize s.h.payloadSize = some arg ∧
        req = { srcUuid := s.h.srcUid, destUuid := s.h.dstUid, arg := arg } := by
  cases hin : s.mIsPending with
  | true =>
    have hpending : (s.findSecurity l).mIsPending = true := by
      rw [findSecurity, if_pos hin]
      exact hin
    refine iff_of_false (fun he => ?_) (fun he => absurd he.1 (by decide))
    simp only [handleBody, hpending, if_true] at he
    split at he
    · split_ifs at he
    · cases he
  | false =>
    have hfind : s.findSecurity l = s := by rw [findSecurity, hin, if_neg Bool.false_ne_true]
    rw [handleBody, hfind]
    simp only [hin, Bool.false_eq_true, if_false, true_and]
    cases decrypt s.mProto.mKey (s.mProto.frame s.h) s.h.prefixSize s.h.payloadSize with
    | none => simp
    | some arg => simp [eq_comm]

/-- A session that is let in stays so, under its key. -/
theorem endRead_let_in {decrypt : Decryption} {l : Lobby} {s s' : PeerSession} {r : ReadEnd}
    {handling : Option Handling} (hin : s.mIsPending = false)
    (h : s.endRead decrypt l r = some (s', handling)) :
    s'.mIsPending = false ∧ s'.mProto.mKey = s.mProto.mKey := by
  have hbody : ∀ bytes, ((s.readBody bytes).handleBody decrypt l).1 = s.readBody bytes := by
    intro bytes
    have hfind : (s.readBody bytes).findSecurity l = s.readBody bytes := by
      rw [findSecurity, show (s.readBody bytes).mIsPending = false from hin,
        if_neg Bool.false_ne_true]
    rw [handleBody, hfind]
    simp only [show (s.readBody bytes).mIsPending = false from hin, Bool.false_eq_true, if_false]
    split <;> rfl
  rcases endRead_cases h with ⟨-, -, rfl, -⟩ | ⟨-, -, -, data, hparse⟩ | ⟨bytes, -, -, rfl, -⟩ |
    ⟨-, -, rfl⟩
  · exact ⟨hin, rfl⟩
  · obtain ⟨ok, header, -, rfl⟩ := parseHeader_cases hparse
    exact ⟨hin, rfl⟩
  · rw [hbody]
    exact ⟨hin, rfl⟩
  · exact ⟨hin, rfl⟩

end PeerSession

namespace Server

/-- The session of the peer waits for a frame. -/
def Awaits (srv : Server) (peer : ℕ) : Prop :=
  srv.aborted = false ∧ ∃ s, srv.peers[peer]? = some s ∧ s.reading = .header

/-- The frame, received now from the peer, is delivered to the lobby: the header is read, the body
that it promises comes, and the session calls `Deliver` with the request. -/
def Delivers (gcm : Gcm) (decrypt : Decryption) (srv : Server) (peer : ℕ) (header body : Str)
    (req : Request) : Prop :=
  srv.Awaits peer ∧ header.length = headerSize ∧
    ∀ dealer, ∃ s, (srv.step gcm decrypt (.read dealer peer (.received header))).peers[peer]? = some s ∧
      s.reading = .body ∧ body.length = s.h.bodyLength ∧
      (srv.step gcm decrypt (.read dealer peer (.received header))).asks decrypt peer
        (.received body) = some (.deliver req)

theorem step_of_endRead (gcm : Gcm) {decrypt : Decryption} {srv : Server} {peer : ℕ}
    {s s' : PeerSession} {r : ReadEnd} (hup : srv.aborted = false)
    (hs : srv.peers[peer]? = some s) (hr : s.endRead decrypt srv.mLobby r = some (s', none))
    (dealer : Dealer) :
    srv.step gcm decrypt (.read dealer peer r) = { srv with peers := srv.peers.set peer s' } := by
  simp [step, hup, endRead, hs, hr]

/-- What the two reads of a frame make a session ask for. -/
theorem delivers_iff (gcm : Gcm) (decrypt : Decryption) {srv : Server} {peer : ℕ} {s : PeerSession}
    (hup : srv.aborted = false) (hs : srv.peers[peer]? = some s) (hreading : s.reading = .header)
    {header body : Str} (hheader : header.length = headerSize) (req : Request) :
    srv.Delivers gcm decrypt peer header body req ↔
      s.mIsPending = false ∧ s.Takes decrypt header body req := by
  have hlt := (List.getElem?_eq_some_iff.mp hs).1
  have hr : s.endRead decrypt srv.mLobby (.received header) =
      ((s.readHeader header).mProto.parseHeader s.h).map fun p =>
        ({ s.readHeader header with h := p.2, reading := if p.1 then .body else .header }, none) := by
    simp only [PeerSession.endRead, hreading, PeerSession.parseHeader, Option.map_map]
    rfl
  have hstep : ∀ {ok h}, (s.readHeader header).mProto.parseHeader s.h = some (ok, h) →
      ∀ dealer, srv.step gcm decrypt (.read dealer peer (.received header)) =
        { srv with
          peers := srv.peers.set peer
            { s.readHeader header with h := h, reading := if ok then .body else .header } } := by
    intro ok h hparse dealer
    refine step_of_endRead gcm hup hs ?_ dealer
    rw [hr, hparse]
    rfl
  have hnot : (s.readHeader header).mProto.parseHeader s.h = none →
      ∀ dealer, (srv.step gcm decrypt (.read dealer peer (.received header))).peers = srv.peers := by
    intro hparse dealer
    simp [step, hup, endRead, hs, hr, hparse]
  have hask : ∀ {h}, (s.readHeader header).mProto.parseHeader s.h = some (true, h) →
      body.length = h.bodyLength → ∀ dealer,
        ((srv.step gcm decrypt (.read dealer peer (.received header))).asks decrypt peer
          (.received body) = some (.deliver req) ↔ s.mIsPending = false ∧ ∃ arg,
            decrypt s.mProto.mKey (header ++ body) h.prefixSize h.payloadSize = some arg ∧
              req = { srcUuid := h.srcUid, destUuid := h.dstUid, arg := arg }) := by
    intro h hparse hlength dealer
    let s1 : PeerSession := { s.readHeader header with h := h, reading := .body }
    have hframe : (s1.readBody body).mProto.frame h = header ++ body := by
      have htakeHeader : header.take headerSize = header := by rw [← hheader, List.take_length]
      have htakeBody : body.take h.bodyLength = body := by rw [← hlength, List.take_length]
      change ((s.mProto.store 0 (header.take headerSize)).store headerSize
        (body.take h.bodyLength)).frame h = _
      rw [htakeHeader, htakeBody]
      exact Protocol.frame_store s.mProto hheader hlength
    have hiff := PeerSession.handleBody_deliver_iff decrypt srv.mLobby (s1.readBody body) req
    rw [show (s1.readBody body).h = h from rfl, hframe] at hiff
    rw [hstep hparse, asks, if_neg (by rw [hup]; decide), List.getElem?_set_self hlt]
    exact Option.some_inj.trans hiff
  constructor
  · rintro ⟨-, -, hdelivers⟩
    obtain ⟨s1, hs1, hbody, hlength, hasks⟩ := hdelivers plainDealer
    cases hparse : (s.readHeader header).mProto.parseHeader s.h with
    | none =>
      rw [hnot hparse, hs, Option.some.injEq] at hs1
      exact absurd ((hs1 ▸ hreading).symm.trans hbody) (by decide)
    | some result =>
      obtain ⟨ok, h⟩ := result
      rw [hstep hparse, List.getElem?_set_self hlt, Option.some.injEq] at hs1
      subst hs1
      cases ok with
      | false => cases hbody
      | true =>
        obtain ⟨hin, harg⟩ := (hask hparse hlength plainDealer).mp hasks
        exact ⟨hin, h, hparse, hlength, harg⟩
  · rintro ⟨hin, h, hparse, hlength, harg⟩
    refine ⟨⟨hup, s, hs, hreading⟩, hheader, fun dealer => ?_⟩
    have hasks := (hask hparse hlength dealer).mpr ⟨hin, harg⟩
    rw [hstep hparse] at hasks ⊢
    exact ⟨_, List.getElem?_set_self hlt, rfl, hlength, hasks⟩

/-- A session that is let in stays so along a run, under its key. -/
theorem run_let_in (gcm : Gcm) (decrypt : Decryption) {srv : Server} {peer : ℕ} {s : PeerSession}
    (hs : srv.peers[peer]? = some s) (hin : s.mIsPending = false) (events : List ServerEvent) :
    ∃ s', (run (step gcm decrypt) srv events).peers[peer]? = some s' ∧ s'.mIsPending = false ∧
      s'.mProto.mKey = s.mProto.mKey := by
  refine run_invariant (fun srv : Server => ∃ s', srv.peers[peer]? = some s' ∧
    s'.mIsPending = false ∧ s'.mProto.mKey = s.mProto.mKey) ?_ ⟨s, hs, hin, rfl⟩ events
  rintro srv event ⟨s1, hs1, hin1, hkey1⟩
  obtain ⟨n, s2, hs2, rfl | rfl | ⟨dealer, r, handling, -, hr⟩⟩ :=
    step_session gcm decrypt event hs1
  · exact ⟨_, hs2, hin1, hkey1⟩
  · exact ⟨_, hs2, hin1, hkey1⟩
  · obtain ⟨hin2, hkey2⟩ := PeerSession.endRead_let_in hin1 hr
    exact ⟨_, hs2, hin2, hkey2.trans hkey1⟩

/-- After a frame that it has delivered, a session waits for the next one. -/
theorem Delivers.awaits {gcm : Gcm} {decrypt : Decryption} {srv : Server} {peer : ℕ}
    {header body : Str} {req : Request} (h : srv.Delivers gcm decrypt peer header body req)
    (dealer dealer' : Dealer) :
    (run (step gcm decrypt) srv [.read dealer peer (.received header),
      .read dealer' peer (.received body)]).Awaits peer := by
  obtain ⟨s, -, -, -, hasks⟩ := h.2.2 dealer
  rw [run_cons, run_cons, run_nil]
  generalize srv.step gcm decrypt (.read dealer peer (.received header)) = srv1 at hasks ⊢
  rcases step_cases gcm decrypt srv1 (.read dealer' peer (.received body)) with ⟨_, he, -⟩ |
    ⟨_, _, _, s1, s2, handling, he, hup, hs1, hr, hhandling, hwritten⟩ | ⟨hnone, -⟩
  · cases he
  · obtain ⟨rfl, rfl, rfl⟩ := ServerEvent.read.inj he
    obtain ⟨n, hn⟩ := hwritten.peers peer
    have hlt := (List.getElem?_eq_some_iff.mp hs1).1
    rw [afterRead, List.getElem?_set_self hlt, Option.map_some] at hn
    refine ⟨hwritten.aborted.trans hup, _, hn, ?_⟩
    rw [hasks] at hhandling
    rcases PeerSession.endRead_cases hr with ⟨-, hr, -⟩ | ⟨-, -, hnone, -⟩ | ⟨bytes, -, -, hs2, -⟩ |
      ⟨-, hnone, -⟩
    · cases hr
    · rw [hnone] at hhandling
      cases hhandling
    · rw [hs2]
      rfl
    · rw [hnone] at hhandling
      cases hhandling
  · rw [hnone dealer' peer _ rfl] at hasks
    cases hasks

/-- A frame that is delivered once is delivered whenever it is received again while its session
waits for a frame, and this it does right after the frame: no frame is safe from replay. -/
theorem accepted_frame_is_replayed (gcm : Gcm) (decrypt : Decryption) {srv : Server} {peer : ℕ}
    {header body : Str} {req : Request} (h : srv.Delivers gcm decrypt peer header body req) :
    (∀ events, (run (step gcm decrypt) srv events).Awaits peer →
      (run (step gcm decrypt) srv events).Delivers gcm decrypt peer header body req) ∧
    ∀ dealer dealer', (run (step gcm decrypt) srv [.read dealer peer (.received header),
      .read dealer' peer (.received body)]).Delivers gcm decrypt peer header body req := by
  obtain ⟨⟨hup, s, hs, hreading⟩, hheader, -⟩ := id h
  obtain ⟨hin, htakes⟩ := (delivers_iff gcm decrypt hup hs hreading hheader req).mp h
  have hagain : ∀ events, (run (step gcm decrypt) srv events).Awaits peer →
      (run (step gcm decrypt) srv events).Delivers gcm decrypt peer header body req := by
    rintro events ⟨hup', s', hs', hreading'⟩
    obtain ⟨s1, hs1, hin1, hkey⟩ := run_let_in gcm decrypt hs hin events
    obtain rfl : s1 = s' := Option.some.inj (hs1.symm.trans hs')
    exact (delivers_iff gcm decrypt hup' hs' hreading' hheader req).mpr
      ⟨hin1, htakes.again hheader hkey⟩
  exact ⟨hagain, fun dealer dealer' => hagain _ (h.awaits dealer dealer')⟩

/-- Alice's second frame, a message to everybody. -/
def chatFrame : Str :=
  aliceFrame 1 10 (str "\x7b\"cmd\":\"ChatMessage\",\"target\":1,\"message\":\"hi\"\x7d") []

def chatRequest : Request where
  srcUuid := 10
  destUuid := lobbyUid
  arg := str "\x7b\"cmd\":\"ChatMessage\",\"target\":1,\"message\":\"hi\"\x7d"

/-- Alice has logged in. -/
def aliceServer : Server := run (step aliceGcm aliceGcm.decryption) (create .south) aliceEvents

/-- Whether the session of alice delivers her message. -/
def deliversChat (srv : Server) : Bool :=
  !srv.aborted && srv.peers[0]?.any fun s => s.reading = .header && !s.mIsPending &&
    ((s.readHeader (chatFrame.take headerSize)).mProto.parseHeader s.h).any fun r =>
      r.1 && (chatFrame.drop headerSize).length = r.2.bodyLength &&
        aliceGcm.decryption s.mProto.mKey (chatFrame.take headerSize ++ chatFrame.drop headerSize)
          r.2.prefixSize r.2.payloadSize = some chatRequest.arg &&
        r.2.srcUid = chatRequest.srcUuid && r.2.dstUid = chatRequest.destUuid

theorem delivers_of_deliversChat {srv : Server} (h : srv.deliversChat = true) :
    srv.Delivers aliceGcm aliceGcm.decryption 0 (chatFrame.take headerSize)
      (chatFrame.drop headerSize) chatRequest := by
  simp only [deliversChat, Bool.and_eq_true, Bool.not_eq_true', Option.any_eq_true,
    decide_eq_true_iff] at h
  obtain ⟨hup, s, hs, ⟨hreading, hin⟩, ⟨ok, header⟩, hparse, hframe⟩ := h
  obtain ⟨⟨⟨⟨rfl, hlength⟩, hclear⟩, hsrc⟩, hdst⟩ := hframe
  refine (delivers_iff _ _ hup hs hreading (by decide +kernel) _).mpr
    ⟨hin, header, hparse, hlength, _, hclear, ?_⟩
  rw [hsrc, hdst]

theorem accepted_frame_is_replayed_chat :
    (run (step aliceGcm aliceGcm.decryption) aliceServer (readFrame 0 chatFrame)).Delivers aliceGcm
      aliceGcm.decryption 0 (chatFrame.take headerSize) (chatFrame.drop headerSize) chatRequest :=
  (accepted_frame_is_replayed _ _ (delivers_of_deliversChat (by decide +kernel))).2
    plainDealer plainDealer

/-- Alice's message is delivered, and when the same bytes come again, it is delivered again. -/
theorem chat_frame_delivered_twice :
    aliceServer.Delivers aliceGcm aliceGcm.decryption 0 (chatFrame.take headerSize)
      (chatFrame.drop headerSize) chatRequest ∧
    ¬ ∀ events, ¬ (run (step aliceGcm aliceGcm.decryption) aliceServer
      (readFrame 0 chatFrame ++ events)).Delivers aliceGcm aliceGcm.decryption 0
        (chatFrame.take headerSize) (chatFrame.drop headerSize) chatRequest := by
  refine ⟨delivers_of_deliversChat (by decide +kernel), fun hnone => hnone [] ?_⟩
  rw [List.append_nil]
  exact delivers_of_deliversChat (by decide +kernel)

end Server

end TarotClub
