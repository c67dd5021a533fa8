import TarotClub.FrameReplay
import TarotClub.FrameRoundTrip
import TarotClub.Reassembly

/-! The session of a client. The network cuts what the server writes as it likes; the listener is
told what is in the frames, one after the other. -/
namespace TarotClub

open Machine Reassembly Relation

/-- A session that has connected. `delivered` is what the listener has been told, in order. -/
structure Session where
  mProto : Protocol := {}
  mWebId : Str := []
  mPassPhrase : Str := []
  h : Header := {}
  reading : Reading := .header
  delivered : List Request := []
  aborted : Bool := false

namespace Session

/-- `Initialize`, and the buffer of the session as it finds it. -/
def create (data webId key passPhrase : Str) : Session where
  mWebId := webId
  mPassPhrase := passPhrase
  mProto := ({ mData := data } : Protocol).setSecurity key

def buildConnectionPacket (gcm : Gcm) (s : Session) : Str × Session :=
  let (frame, p) := s.mProto.build gcm 0 lobbyUid s.mPassPhrase s.mWebId
  (frame, { s with mProto := p })

/-- `Send`: the frames, in the order in which they are built. -/
def send (gcm : Gcm) (s : Session) (myUid : ℕ) (out : List Reply) : List Str × Session :=
  (out.flatMap fun reply => reply.dest.map fun dest => (dest, reply.data)).foldl
    (fun (frames, s) message =>
      let (frame, p) :=
        s.mProto.build gcm myUid message.1 ((JsonValue.object message.2).toString (-1)) []
      (frames ++ [frame], { s with mProto := p }))
    ([], s)

/-- The handler of `ReadHeader`, when the header has come. -/
def endHeader (s : Session) (bytes : Str) : Session :=
  let p := s.mProto.store 0 bytes
  match p.parseHeader s.h with
  | some (ok, h) => { s with mProto := p, h := h, reading := if ok then .body else .stopped }
  | none => { s with mProto := p, aborted := true }

/-- The handler of `ReadBody`, when the body has come. -/
def endBody (decrypt : Decryption) (s : Session) (bytes : Str) : Session :=
  let p := s.mProto.store headerSize bytes
  let s := { s with mProto := p, reading := .header }
  match decrypt p.mKey (p.frame s.h) s.h.prefixSize s.h.payloadSize with
  | some arg =>
    { s with
      delivered := s.delivered ++
        [{ srcUuid := s.h.srcUid, destUuid := s.h.dstUid, arg := arg }] }
  | none => s

/-- The reads of a session. -/
def reader (decrypt : Decryption) : Reader Session UInt8 where
  need s :=
    if s.aborted then none
    else
      match s.reading with
      | .header => some headerSize
      | .body => some s.h.bodyLength
      | .stopped => none
  take s bytes :=
    match s.reading with
    | .header => s.endHeader bytes
    | .body => s.endBody decrypt bytes
    | .stopped => s

/-- The connection of a session with the server. -/
def connect (s : Session) : Feed Session UInt8 := { reader := s }

theorem endHeader_delivered (s : Session) (bytes : Str) :
    (s.endHeader bytes).delivered = s.delivered := by
  simp only [endHeader]
  split
  · rfl
  · rfl

variable {decrypt : Decryption} {s t : Feed Session UInt8}

end Session

/-! What comes from a side that builds its frames one after the other. -/
namespace Protocol

/-- A frame of the call fits the buffer of who reads it, and the columns of its header. -/
structure BuildCall.Fits (c : BuildCall) : Prop where
  src : c.src < 2 ^ 16
  dst : c.dst < 2 ^ 16
  size : c.prefixText.length + 1 + 2 * (12 + c.clearMessage.length + 16) < maxBodySize

instance (c : BuildCall) : Decidable c.Fits :=
  decidable_of_iff (c.src < 2 ^ 16 ∧ c.dst < 2 ^ 16 ∧
      c.prefixText.length + 1 + 2 * (12 + c.clearMessage.length + 16) < maxBodySize)
    ⟨fun h => ⟨h.1, h.2.1, h.2.2⟩, fun h => ⟨h.src, h.dst, h.size⟩⟩

/-- The frame of a call. -/
def frameOf (gcm : Gcm) (p : Protocol) (c : BuildCall) : Str :=
  (p.build gcm c.src c.dst c.clearMessage c.prefixText).1

/-- The frames of the calls. -/
def frames (gcm : Gcm) (p : Protocol) (calls : List BuildCall) : List Str :=
  labels (afterBuild gcm) (frameOf gcm) p calls

/-- The header of the frame of a call. -/
def headerOf (p : Protocol) (c : BuildCall) : Header :=
  p.buildHeader c.src c.dst c.clearMessage c.prefixText

/-- What is found in the frame of a call, if it can be deciphered under the key of its builder. -/
def opened (gcm : Gcm) (decrypt : Decryption) (p : Protocol) (c : BuildCall) : Option Request :=
  (decrypt p.mKey (p.frameOf gcm c) (p.headerOf c).prefixSize (p.headerOf c).payloadSize).map
    fun arg => { srcUuid := c.src, destUuid := c.dst, arg := arg }

@[simp] theorem store_mKey (p : Protocol) (offset : ℕ) (bytes : Str) :
    (p.store offset bytes).mKey = p.mKey := rfl

/-- A frame is a header and a body, which is as long as the header says. -/
theorem frameOf_eq (gcm : Gcm) {p : Protocol} {c : BuildCall} (hc : c.Fits) :
    ∃ body, p.frameOf gcm c = headerText (p.headerOf c) ++ body ∧
      body.length = (p.headerOf c).bodyLength ∧ c.prefixText <+: body := by
  refine ⟨c.prefixText ++ str ":" ++ p.payloadAscii gcm c.src c.dst c.clearMessage c.prefixText,
    ?_, ?_, ?_⟩
  · rw [frameOf, build, frameAad, frameHeader_eq, headerOf]
    simp only [List.append_assoc]
  · have hascii := length_payloadAscii gcm p hc.size c.src c.dst
    have hsize := hc.size
    have hpayload := cipheredPayloadSize_eq hc.size
    have hcolon : (str ":").length = 1 := rfl
    rw [maxBodySize] at hsize
    change _ = (c.prefixText.length + 1 + cipheredPayloadSize c.clearMessage) % 2 ^ 32
    rw [List.length_append, List.length_append, hcolon, hascii, hpayload, Nat.mod_eq_of_lt]
    omega
  · rw [List.append_assoc]
    exact List.prefix_append _ _

theorem BuildCall.Fits.headerOf_size {c : BuildCall} (hc : c.Fits) {p : Protocol} :
    (p.headerOf c).payloadSize + (p.headerOf c).prefixSize + 1 < maxBodySize := by
  have hfits := hc.size
  have hpayload := cipheredPayloadSize_eq hc.size
  change cipheredPayloadSize c.clearMessage + c.prefixText.length + 1 < maxBodySize
  omega

/-- A header that has been read into the buffer. -/
theorem parseHeader_stored (p : Protocol) {h : Header} (hn : Narrow h)
    (hsize : h.payloadSize + h.prefixSize + 1 < maxBodySize) (old : Header) :
    (p.store 0 (headerText h)).parseHeader old =
      some (true, { h with prefixText := old.prefixText }) := by
  refine parseHeader_headerText hn hsize (p.mData.drop (0 + (headerText h).length)) ?_ old
  rw [store, List.take_zero, List.nil_append]

theorem length_frames (gcm : Gcm) (p : Protocol) (calls : List BuildCall) :
    (p.frames gcm calls).length = calls.length := by
  induction calls generalizing p with
  | nil => rfl
  | cons c calls ih => exact congrArg Nat.succ (ih (afterBuild gcm p c))

/-- The counter goes up, or begins again. -/
theorem afterBuild_counter_le (gcm : Gcm) (p : Protocol) (c : BuildCall) :
    (afterBuild gcm p c).mTxFrameCounter ≤ p.mTxFrameCounter + 1 := Nat.mod_le _ _

end Protocol

namespace Session

open Protocol

/-- A session that waits for a header. -/
structure Listens (key : Str) (s : Session) : Prop where
  reading : s.reading = .header
  aborted : s.aborted = false
  key : s.mProto.mKey = key

/-- A read of a header that `Build` has written. -/
theorem endHeader_headerText (s : Session) {h : Header} (hn : Narrow h)
    (hsize : h.payloadSize + h.prefixSize + 1 < maxBodySize) :
    s.endHeader (headerText h) =
      { s with
        mProto := s.mProto.store 0 (headerText h)
        h := { h with prefixText := s.h.prefixText }
        reading := .body } := by
  rw [endHeader]
  simp only [parseHeader_stored s.mProto hn hsize s.h, if_true]

/-- What a session has of a frame behind its body. -/
theorem endBody_mid (decrypt : Decryption) (s : Session) {h : Header} (hn : Narrow h) {body : Str}
    (hbody : body.length = h.bodyLength) {mid : Session}
    (hmid : mid = { s with
      mProto := s.mProto.store 0 (headerText h)
      h := { h with prefixText := s.h.prefixText }
      reading := .body }) :
    (mid.endBody decrypt body).reading = .header ∧
      (mid.endBody decrypt body).aborted = s.aborted ∧
      (mid.endBody decrypt body).mProto.mKey = s.mProto.mKey ∧
      (mid.endBody decrypt body).delivered = s.delivered ++
        ((decrypt s.mProto.mKey (headerText h ++ body) h.prefixSize h.payloadSize).map fun arg =>
          ({ srcUuid := h.srcUid, destUuid := h.dstUid, arg := arg } : Request)).toList := by
  have hframe : ((s.mProto.store 0 (headerText h)).store headerSize body).frame
      { h with prefixText := s.h.prefixText } = headerText h ++ body :=
    frame_store s.mProto (length_headerText hn) hbody
  subst hmid
  rw [endBody]
  dsimp only
  rw [hframe, store_mKey, store_mKey]
  cases decrypt s.mProto.mKey (headerText h ++ body) h.prefixSize h.payloadSize with
  | none =>
    dsimp only
    rw [store_mKey, store_mKey]
    exact ⟨rfl, rfl, rfl, (List.append_nil _).symm⟩
  | some arg =>
    dsimp only
    rw [store_mKey, store_mKey]
    exact ⟨rfl, rfl, rfl, rfl⟩

/-- The session in front of a frame: it takes it with two reads, and tells what is in it. -/
theorem Listens.takes (gcm : Gcm) (decrypt : Decryption) {s : Session} {p : Protocol}
    (h : s.Listens p.mKey) {c : BuildCall} (hc : c.Fits) (hcounter : p.mTxFrameCounter < 16 ^ 4) :
    ∃ mid t head body, Takes (reader decrypt) delivered (fun s => s.aborted = false) s
        (p.frameOf gcm c) (opened gcm decrypt p c).toList mid t head body ∧ t.Listens p.mKey := by
  obtain ⟨body, hframe, hbody, -⟩ := frameOf_eq gcm (p := p) hc
  have hnarrow : Narrow (p.headerOf c) := buildHeader_narrow p hc.src hc.dst hc.size hcounter
  have hmid := s.endHeader_headerText hnarrow hc.headerOf_size
  obtain ⟨hreading, haborted, hkey, hdelivered⟩ :=
    s.endBody_mid decrypt hnarrow hbody hmid
  refine ⟨s.endHeader (headerText (p.headerOf c)), _, headerText (p.headerOf c), body,
    ⟨hframe, ⟨?_, ?_⟩, ⟨?_, ?_⟩, ⟨?_, haborted.trans h.aborted⟩, ?_, ?_⟩,
    ⟨hreading, haborted.trans h.aborted, hkey.trans h.key⟩⟩
  · rw [length_headerText hnarrow]
    simp only [reader, h.aborted, h.reading]
    rfl
  · simp only [reader, h.reading]
  · rw [hmid, hbody]
    simp only [reader, h.aborted]
    rfl
  · rw [hmid]
    rfl
  · rw [hmid]
    exact h.aborted
  · exact endHeader_delivered s _
  · rw [hdelivered, opened, hframe, h.key]
    rfl

/-- The session in front of the frames of a side. -/
theorem Listens.chain (gcm : Gcm) (decrypt : Decryption) {s : Session} {p : Protocol}
    (h : s.Listens p.mKey) {calls : List BuildCall} (hfits : ∀ c ∈ calls, c.Fits)
    (hcount : p.mTxFrameCounter + calls.length ≤ 16 ^ 4) :
    Chain (reader decrypt) delivered (fun s => s.aborted = false) s (p.frames gcm calls)
      (labels (afterBuild gcm) (fun p c => (opened gcm decrypt p c).toList) p calls) := by
  induction calls generalizing s p with
  | nil =>
    refine .nil fun n hn => ?_
    have hneed : (reader decrypt).need s = some headerSize := by
      simp only [reader, h.aborted, h.reading]
      rfl
    rw [← Option.some.inj (hneed.symm.trans hn)]
    decide
  | cons c calls ih =>
    rw [List.length_cons] at hcount
    obtain ⟨mid, t, head, body, htakes, hlistens⟩ :=
      h.takes gcm decrypt (hfits c List.mem_cons_self) (by omega)
    refine .cons htakes (ih hlistens (fun d hd => hfits d (List.mem_cons_of_mem c hd)) ?_)
    have hcounter := afterBuild_counter_le gcm p c
    omega

/-- A session that has connected tells its listener what is in the frames of the other side, each
frame once and in order, however the network cuts them; and when all of them have come and no read
can end any more, it has told all of them. -/
theorem frames_in_order (gcm : Gcm) (decrypt : Decryption) (p : Protocol)
    (data webId key passPhrase : Str) {calls : List BuildCall} (hfits : ∀ c ∈ calls, c.Fits)
    (hcount : calls.length ≤ 2 ^ 16) {events : List (FeedEvent UInt8)}
    (hcome : Feed.arrived events <+: (frames gcm (p.setSecurity key) calls).flatten) :
    let s := run (Feed.step (reader decrypt)) (create data webId key passPhrase).connect events
    ∃ k ≤ calls.length, s.reader.aborted = false ∧
      s.reader.delivered = ((labels (afterBuild gcm) (fun p c => (opened gcm decrypt p c).toList)
        (p.setSecurity key) calls).take k).flatten ∧
      (Feed.arrived events = (frames gcm (p.setSecurity key) calls).flatten → s.isOpen = true →
        s.Waits (reader decrypt) → k = calls.length) := by
  have hlistens : (create data webId key passPhrase).Listens (p.setSecurity key).mKey :=
    ⟨rfl, rfl, rfl⟩
  have hcounter : (p.setSecurity key).mTxFrameCounter + calls.length ≤ 16 ^ 4 := by
    change 0 + calls.length ≤ 16 ^ 4
    omega
  have hrun := (hlistens.chain gcm decrypt hfits hcounter).run rfl hcome
  rw [length_frames] at hrun
  exact hrun

def helloCall : BuildCall := ⟨10, 1, str "hello", []⟩

def helloFrame : Str := frameOf helloGcm (({} : Protocol).setSecurity helloInput.key) helloCall

/-- A decryption that knows this frame only. -/
def helloDecryption : Decryption := fun _ frame _ _ =>
  if frame = helloFrame then some (str "hello") else none

/-- The frame comes in two pieces, the first of which is shorter than its header. -/
def helloEvents : List (FeedEvent UInt8) :=
  [.arrive (helloFrame.take 20), .complete, .arrive (helloFrame.drop 20), .complete, .complete]

theorem frames_in_order_hello :
    let s := run (Feed.step (reader helloDecryption)) (create [] [] helloInput.key []).connect
      helloEvents
    s.reader.delivered = [{ srcUuid := 10, destUuid := 1, arg := str "hello" }] ∧
      ∃ k ≤ 1, s.reader.aborted = false ∧
        s.reader.delivered =
          ((labels (afterBuild helloGcm) (fun p c => (opened helloGcm helloDecryption p c).toList)
            (({} : Protocol).setSecurity helloInput.key) [helloCall]).take k).flatten ∧
        (Feed.arrived helloEvents =
            (frames helloGcm (({} : Protocol).setSecurity helloInput.key) [helloCall]).flatten →
          s.isOpen = true → s.Waits (reader helloDecryption) → k = 1) := by
  have hbytes : Feed.arrived helloEvents <+:
      (frames helloGcm (({} : Protocol).setSecurity helloInput.key) [helloCall]).flatten := by
    decide +kernel
  exact ⟨by decide +kernel,
    frames_in_order helloGcm helloDecryption {} [] [] helloInput.key [] (by decide) (by decide) hbytes⟩

end Session

end TarotClub
