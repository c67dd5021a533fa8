import TarotClub.FairDeal
import TarotClub.Machine
import TarotClub.PeerSession

namespace TarotClub

open Machine

namespace PeerSession

/-- The prefix that the frame itself carries. -/
def framePrefix (s : PeerSession) : Option Str :=
  if s.h.prefixSize < maxBodySize then some ((s.mProto.mData.drop 28).take s.h.prefixSize) else none

/-- The prefix of the frame is that of an allowed client, and the payload is the pass phrase of
this client, under the key that is registered for him. -/
def AuthenticFrame (decrypt : Decryption) (l : Lobby) (s : PeerSession) : Prop :=
  ∃ webId sec, s.framePrefix = some webId ∧ l.mAllowedClients webId = some sec ∧
    decrypt sec.gek (s.mProto.frame s.h) s.h.prefixSize s.h.payloadSize = some sec.passPhrase

/-- The prefix of the frame is that of an allowed client. An empty prefix counts only where no
earlier frame has left another one behind. -/
def KnownPrefix (l : Lobby) (s : PeerSession) : Prop :=
  ∃ webId ∈ s.framePrefix, (s.mProto.parsePrefix s.h).prefixText = webId ∧
    (l.mAllowedClients webId).isSome = true

instance (l : Lobby) (s : PeerSession) : Decidable (KnownPrefix l s) :=
  inferInstanceAs (Decidable (∃ webId ∈ s.framePrefix, _ ∧ _))

theorem parsePrefix_sizes (p : Protocol) (h : Header) :
    (p.parsePrefix h).prefixSize = h.prefixSize ∧ (p.parsePrefix h).payloadSize = h.payloadSize ∧
      (p.parsePrefix h).bodyLength = h.bodyLength := by
  unfold Protocol.parsePrefix
  split_ifs <;> exact ⟨rfl, rfl, rfl⟩

/-- A frame with a known prefix lets a pending session in exactly when it is authentic. -/
theorem handleBody_pending {decrypt : Decryption} {l : Lobby} {s : PeerSession}
    (hpending : s.mIsPending = true) (hknown : KnownPrefix l s) :
    (s.handleBody decrypt l).1.mIsPending = false ↔ s.AuthenticFrame decrypt l := by
  obtain ⟨webId, hprefix, htext, hallowed⟩ := hknown
  obtain ⟨sec, hsec⟩ := Option.isSome_iff_exists.mp hallowed
  obtain ⟨hsize, hpayload, hbody⟩ := parsePrefix_sizes s.mProto s.h
  have hauth : s.AuthenticFrame decrypt l ↔
      decrypt sec.gek (s.mProto.frame s.h) s.h.prefixSize s.h.payloadSize =
        some sec.passPhrase := by
    constructor
    · rintro ⟨webId', sec', hprefix', hsec', hclear⟩
      obtain rfl : webId' = webId := Option.some.inj (hprefix'.symm.trans hprefix)
      obtain rfl : sec' = sec := Option.some.inj (hsec'.symm.trans hsec)
      exact hclear
    · exact fun hclear => ⟨webId, sec, hprefix, hsec, hclear⟩
  have hfind : s.findSecurity l =
      { s with
        h := s.mProto.parsePrefix s.h
        sec := sec
        mProto := s.mProto.setSecurity sec.gek } := by
    simp only [findSecurity, if_pos hpending, Lobby.getSecurity, htext, hsec, if_true]
  rw [hauth, handleBody, hfind]
  simp only [Protocol.setSecurity, Protocol.frame, hsize, hpayload, hbody, hpending, if_true]
  cases decrypt sec.gek (s.mProto.mData.take (headerSize + s.h.bodyLength)) s.h.prefixSize
      s.h.payloadSize with
  | none => simp
  | some arg =>
    by_cases harg : arg = sec.passPhrase
    · simp [harg]
    · simp [harg]

end PeerSession

namespace Server

/-- The frames that come while their session is pending have known prefixes. -/
def KnownPrefixes (srv : Server) : ServerEvent → Prop
  | .read _ peer (.received bytes) =>
    ∀ s ∈ srv.peers[peer]?, s.mIsPending = true → s.reading = .body →
      PeerSession.KnownPrefix srv.mLobby (s.readBody bytes)
  | _ => True

instance (srv : Server) : ∀ event, Decidable (srv.KnownPrefixes event)
  | .read _ peer (.received _) => inferInstanceAs (Decidable (∀ s ∈ srv.peers[peer]?, _))
  | .read _ _ .closed | .read _ _ .failed | .accept _ | .addClient _ _ _ | .createTable _ _ _
  | .destroyTable _ => .isTrue trivial

/-- A session is let in on authentic frames only. -/
def LetsInAuthentic (gcm : Gcm) (decrypt : Decryption) (srv : Server) (event : ServerEvent) : Prop :=
  ∀ (peer : ℕ) (s s' : PeerSession), srv.peers[peer]? = some s →
    (srv.step gcm decrypt event).peers[peer]? = some s' →
    s.mIsPending = true → s'.mIsPending = false →
      ∃ dealer bytes, event = .read dealer peer (.received bytes) ∧ s.reading = .body ∧
        (s.readBody bytes).AuthenticFrame decrypt srv.mLobby

theorem letsInAuthentic_step (gcm : Gcm) (decrypt : Decryption) {srv : Server}
    {event : ServerEvent} (hknown : srv.KnownPrefixes event) :
    srv.LetsInAuthentic gcm decrypt event := by
  intro peer s s' hs hs' hpending hin
  obtain ⟨n, s1, hs1, hcases⟩ := step_session gcm decrypt event hs
  obtain rfl : s' = s1.count n := Option.some.inj (hs'.symm.trans hs1)
  have hin1 : s1.mIsPending = false := hin
  rcases hcases with rfl | rfl | ⟨dealer, r, handling, rfl, hr⟩
  · rw [hpending] at hin1
    cases hin1
  · have hdestroyed : s.destroy.mIsPending = true := hpending
    rw [hdestroyed] at hin1
    cases hin1
  have hnot : ∀ t : PeerSession, t.mIsPending = true → t ≠ s1 := by
    rintro t ht rfl
    exact Bool.false_ne_true (hin1.symm.trans ht)
  rcases PeerSession.endRead_cases hr with ⟨-, -, hs1, -⟩ | ⟨-, -, -, data, hparse⟩ |
    ⟨bytes, hreading, rfl, rfl, -⟩ | ⟨-, -, hs1⟩
  · exact absurd hs1.symm (hnot _ hpending)
  · obtain ⟨ok, header, -, hs1⟩ := PeerSession.parseHeader_cases hparse
    exact absurd hs1.symm (hnot _ hpending)
  · refine ⟨dealer, bytes, rfl, hreading, ?_⟩
    exact (PeerSession.handleBody_pending (s := s.readBody bytes) hpending
      (hknown s hs hpending hreading)).mp hin1
  · exact absurd hs1.symm (hnot _ hpending)

/-- In every run in which the frames of the pending sessions have known prefixes, the sessions are
let in on authentic frames only. -/
theorem sessions_authenticated (gcm : Gcm) (decrypt : Decryption) {srv : Server}
    {events : List ServerEvent} (hknown : Guarded (step gcm decrypt) KnownPrefixes srv events) :
    Guarded (step gcm decrypt) (LetsInAuthentic gcm decrypt) srv events :=
  hknown.mono fun _ _ => letsInAuthentic_step gcm decrypt

end Server

/-- `DecryptPayload` with `mbedtls_gcm_auth_decrypt` by its specification: the counter mode is its
own inverse, and the tag is to be that of the clear text. -/
def Gcm.decryption (gcm : Gcm) : Decryption := fun key frame prefixSize payloadSize =>
  match ({ mKey := key, mData := frame } : Protocol).decryptPayloadInput
      { prefixSize := prefixSize, payloadSize := payloadSize } with
  | some (input, tag) =>
    let clear := gcm.crypt input
    if gcm.tag { input with text := clear } = tag then some clear else none
  | none => none

/-! Two clients of a server: one who is allowed, and one who is not. -/

def aliceKey : Str := str "0123456789abcdef"

/-- The frames that alice's key is used for below, each with its tag. -/
def aliceTags : List (Str × Str × Str) :=
  [(str "01:0000:0001:0044:0000:0005:alice:", str "wrong!",
      [219, 83, 39, 234, 214, 89, 251, 237, 220, 71, 151, 43, 123, 69, 89, 123]),
    (str "01:0000:0001:0044:0000:0005:alice:", str "secret",
      [222, 57, 248, 98, 51, 218, 82, 172, 178, 72, 96, 183, 59, 50, 245, 176]),
    (str "01:0000:0001:0044:0001:0005:mallo:", str "secret",
      [43, 177, 48, 167, 206, 85, 108, 12, 152, 129, 6, 243, 213, 193, 54, 101]),
    (str "01:000a:0001:0096:0001:0000::",
      str "\x7b\"cmd\":\"ChatMessage\",\"target\":1,\"message\":\"hi\"\x7d",
      [188, 115, 186, 81, 143, 99, 11, 26, 92, 203, 238, 208, 204, 87, 110, 65])]

/-- The key stream of alice's key and the nonce of every frame. -/
def aliceStream : Str :=
  [245, 208, 233, 245, 137, 178, 229, 123, 152, 145, 67, 218, 142, 67, 196, 154,
    222, 80, 209, 85, 163, 137, 146, 196, 88, 80, 115, 6, 189, 110, 29, 152,
    45, 206, 225, 3, 240, 137, 105, 207, 203, 226, 143, 206, 129, 153, 238, 211]

/-- AES-GCM on those frames. -/
def aliceGcm : Gcm where
  crypt input := List.zipWith (· ^^^ ·) input.text
    ((if input.key = aliceKey then aliceStream else []) ++ List.replicate input.text.length 0)
  tag input := ((aliceTags.find? fun t => input.key = aliceKey && input.add = t.1 &&
    input.text = t.2.1 && t.2.2.length = cTagSize).map fun t => t.2.2).getD
      (List.replicate cTagSize 0)
  length_crypt input := by
    simp only [List.length_zipWith, List.length_append, List.length_replicate]
    omega
  length_tag input := by
    cases h : aliceTags.find? fun t => input.key = aliceKey && input.add = t.1 &&
        input.text = t.2.1 && t.2.2.length = cTagSize with
    | none => rfl
    | some t =>
      have ht := List.find?_some h
      rw [Bool.and_eq_true, decide_eq_true_iff (p := t.2.2.length = cTagSize)] at ht
      exact ht.2

namespace Server

/-- The two reads of a frame. -/
def readFrame (peer : ℕ) (frame : Str) : List ServerEvent :=
  [.read plainDealer peer (.received (frame.take headerSize)),
    .read plainDealer peer (.received (frame.drop headerSize))]

/-- The frame that a client builds with alice's key, after some others. -/
def aliceFrame (counter : ℕ) (src : ℕ) (clearMessage prefixText : Str) : Str :=
  (({ mKey := aliceKey, mTxFrameCounter := counter } : Protocol).build aliceGcm src lobbyUid
    clearMessage prefixText).1

/-- A server that allows alice, and a first connection to it. -/
def aliceStart : List ServerEvent :=
  [.addClient (str "alice") aliceKey (str "secret"), .accept (List.replicate dataSize 0)]

/-- Alice logs in. -/
def aliceEvents : List ServerEvent :=
  aliceStart ++ readFrame 0 (aliceFrame 0 0 (str "secret") (str "alice"))

/-- Alice tries a wrong pass phrase before she logs in. -/
def retryEvents : List ServerEvent :=
  aliceStart ++ readFrame 0 (aliceFrame 0 0 (str "wrong!") (str "alice")) ++
    readFrame 0 (aliceFrame 0 0 (str "secret") (str "alice"))

theorem sessions_authenticated_alice :
    ((run (step aliceGcm aliceGcm.decryption) (create .south) retryEvents).peers[0]?.map
      (·.mIsPending)) = some false ∧
    Guarded (step aliceGcm aliceGcm.decryption)
      (LetsInAuthentic aliceGcm aliceGcm.decryption) (create .south) retryEvents := by
  refine ⟨by decide +kernel, ?_⟩
  exact sessions_authenticated aliceGcm aliceGcm.decryption (by decide +kernel)

/-- A wrong pass phrase with alice's prefix, and the header of a frame with another prefix. -/
def intruderEvents : List ServerEvent :=
  aliceStart ++ readFrame 0 (aliceFrame 0 0 (str "wrong!") (str "alice")) ++
    [.read plainDealer 0 (.received ((aliceFrame 1 0 (str "secret") (str "mallo")).take headerSize))]

/-- The body of that frame. -/
def intruderBody : Str := (aliceFrame 1 0 (str "secret") (str "mallo")).drop headerSize

/-- After a failed attempt with alice's prefix, a prefix that no allowed client has lets in whoever
has her key and pass phrase. -/
theorem unknown_prefix_let_in :
    ¬ Guarded (step aliceGcm aliceGcm.decryption) (LetsInAuthentic aliceGcm aliceGcm.decryption)
      (create .south) (intruderEvents ++ [.read plainDealer 0 (.received intruderBody)]) := by
  rw [guarded_append]
  rintro ⟨-, hlast, -⟩
  have hbefore : ((run (step aliceGcm aliceGcm.decryption) (create .south)
      intruderEvents).peers[0]?.map fun s =>
        (s.mIsPending, (s.readBody intruderBody).framePrefix)) =
      some (true, some (str "mallo")) := by decide +kernel
  have hafter : ((run (step aliceGcm aliceGcm.decryption) (create .south)
      intruderEvents).step aliceGcm aliceGcm.decryption
        (.read plainDealer 0 (.received intruderBody))).peers[0]?.map (·.mIsPending) =
      some false := by decide +kernel
  have hunknown : (run (step aliceGcm aliceGcm.decryption) (create .south)
      intruderEvents).mLobby.mAllowedClients (str "mallo") = none := by decide +kernel
  generalize run (step aliceGcm aliceGcm.decryption) (create .south) intruderEvents = srv
    at hlast hbefore hafter hunknown
  obtain ⟨s, hs, hpending⟩ := Option.map_eq_some_iff.mp hbefore
  obtain ⟨s', hs', hin⟩ := Option.map_eq_some_iff.mp hafter
  obtain ⟨hpending, hprefix⟩ := Prod.mk.inj hpending
  obtain ⟨dealer, bytes, hevent, -, webId, sec, hwebId, hsec, -⟩ :=
    hlast 0 s s' hs hs' hpending hin
  obtain ⟨-, -, hr⟩ := ServerEvent.read.inj hevent
  obtain rfl := ReadEnd.received.inj hr
  obtain rfl : webId = str "mallo" := Option.some.inj (hwebId.symm.trans hprefix)
  rw [hunknown] at hsec
  cases hsec

end Server

end TarotClub
