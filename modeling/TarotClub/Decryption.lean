import Mathlib.Data.List.GetD
import TarotClub.Authentication
import TarotClub.FrameBounds
import TarotClub.FrameRoundTrip
import TarotClub.Memory

/-! How the payload of a frame is deciphered: the writes and reads of the buffers on the stack, and
where the answer comes from. -/
namespace TarotClub

open Memory

/-- A difference in the 32 bits of its operands. -/
def sub32 (a b : ℕ) : ℕ := (a + 2 ^ 32 - b) % 2 ^ 32

/-- `MBEDTLS_ERR_GCM_AUTH_FAILED`. -/
def authFailed : ℤ := -0x12

namespace Gcm

/-- The tag belongs to the ciphered text, under its key, nonce and additional data. -/
def Authentic (gcm : Gcm) (input : GcmInput) (tag : Str) : Prop :=
  gcm.tag { input with text := gcm.crypt input } = tag

instance (gcm : Gcm) (input : GcmInput) (tag : Str) : Decidable (gcm.Authentic input tag) :=
  inferInstanceAs (Decidable (_ = _))

/-- `mbedtls_gcm_auth_decrypt`: the status, and what it leaves in the output. -/
def authDecrypt (gcm : Gcm) (input : GcmInput) (tag : Str) : ℤ × Str :=
  let clear := gcm.crypt input
  if gcm.tag { input with text := clear } = tag then (0, clear)
  else (authFailed, List.replicate input.text.length 0)

theorem authDecrypt_of_authentic {gcm : Gcm} {input : GcmInput} {tag : Str}
    (h : gcm.Authentic input tag) : gcm.authDecrypt input tag = (0, gcm.crypt input) := if_pos h

theorem authDecrypt_of_not_authentic {gcm : Gcm} {input : GcmInput} {tag : Str}
    (h : ¬ gcm.Authentic input tag) :
    gcm.authDecrypt input tag = (authFailed, List.replicate input.text.length 0) := if_neg h

/-- The status is that of the specification. -/
theorem status_eq_zero_iff (gcm : Gcm) (input : GcmInput) (tag : Str) :
    (gcm.authDecrypt input tag).1 = 0 ↔ gcm.Authentic input tag := by
  by_cases h : gcm.Authentic input tag
  · rw [authDecrypt_of_authentic h]
    exact iff_of_true rfl h
  · rw [authDecrypt_of_not_authentic h]
    have hstatus : authFailed ≠ 0 := by decide
    exact iff_of_false hstatus h

end Gcm

/-- What the local variables hold before they are written: `byte` in each turn of its loop, the
memory from `ciphered` on, and `tag_computed`. -/
structure Locals where
  byte : ℕ → UInt8
  ciphered : ℕ → UInt8
  tagComputed : Str
  length_tagComputed : tagComputed.length = cTagSize

namespace Protocol

/-- `std::string_view(Payload(h), h.payload_size)`. -/
def payloadView (p : Protocol) (h : Header) : Str :=
  (List.range h.payloadSize).map fun i => p.mData.getD (headerSize + h.prefixSize + 1 + i) 0

/-- The byte that is read from a piece. White space alone leaves it as it was. -/
def hexByte (held : UInt8) (piece : Str) : UInt8 :=
  if piece.all isSpace then held else readByte piece

/-- What `HexStringToUint8` writes from the turn with the counter `i` on. -/
def hexWrites (byte : ℕ → UInt8) (i : ℕ) : Str → List (ℕ × UInt8)
  | [] => []
  | [a] => [(i / 2, hexByte (byte i) [a])]
  | a :: b :: input => (i / 2, hexByte (byte i) [a, b]) :: hexWrites byte (i + 2) input

def tagSpan (size : ℕ) : Span := ⟨sub32 size cTagSize, cTagSize⟩

def ivSpan : Span := ⟨0, cIVSize⟩

def plainTextSize (size : ℕ) : ℕ := sub32 size (cIVSize + cTagSize)

def textSpan (size : ℕ) : Span := ⟨cIVSize, plainTextSize size⟩

/-- What `Decrypt` hands to `mbedtls_gcm_auth_decrypt`. -/
def authInput (p : Protocol) (aad : Str) (ciphered : ℕ → UInt8) (size : ℕ) : GcmInput × Str :=
  ({ key := p.mKey.take 16
     iv := ivSpan.read ciphered
     add := aad
     text := (textSpan size).read ciphered },
    (tagSpan size).read ciphered)

/-- `Decrypt`: the answer and the output. The status is dropped, and the tag of the frame compared
with `tag_computed`, which nothing has written. -/
def decrypt (gcm : Gcm) (p : Protocol) (aad : Str) (ciphered : ℕ → UInt8) (size : ℕ)
    (tagComputed output : Str) : Bool × Str :=
  let (input, tag) := p.authInput aad ciphered size
  let (_, plainText) := gcm.authDecrypt input tag
  (tagComputed = tag, output ++ plainText)

/-- What stands in `ciphered` when `Decrypt` is called. -/
def ciphered (p : Protocol) (h : Header) (l : Locals) : ℕ → UInt8 :=
  write l.ciphered (hexWrites l.byte 0 (p.payloadView h))

/-- The additional data: the header and the prefix. -/
def aad (p : Protocol) (h : Header) : Str := p.mData.take (headerSize + h.prefixSize + 1)

def decryptPayload (gcm : Gcm) (p : Protocol) (l : Locals) (output : Str) (h : Header) :
    Bool × Str :=
  p.decrypt gcm (p.aad h) (p.ciphered h l) (h.payloadSize / 2) l.tagComputed output

/-- The input to AES-GCM and the tag of a frame. -/
def received (p : Protocol) (h : Header) (l : Locals) : GcmInput × Str :=
  p.authInput (p.aad h) (p.ciphered h l) (h.payloadSize / 2)

/-- `DecryptPayload` keeps to its buffer: all writes fall into `ciphered`, nonce, tag and text are
read inside of it, and the length of the clear text is a difference of natural numbers. -/
structure StaysInside (p : Protocol) (h : Header) : Prop where
  writes : ∀ byte, ∀ w ∈ hexWrites byte 0 (p.payloadView h), w.1 < h.payloadSize / 2
  iv : ivSpan.Within (h.payloadSize / 2)
  tag : (tagSpan (h.payloadSize / 2)).Within (h.payloadSize / 2)
  text : (textSpan (h.payloadSize / 2)).Within (h.payloadSize / 2)
  plainTextSize : (plainTextSize (h.payloadSize / 2) : ℤ) =
    (h.payloadSize / 2 : ℕ) - (cIVSize + cTagSize : ℕ)

/-- The answer is the status of AES-GCM, and a refused frame adds only zeros to the output. -/
structure RightVerdict (gcm : Gcm) (p : Protocol) (l : Locals) (output : Str) (h : Header) :
    Prop where
  accepted : (p.decryptPayload gcm l output h).1 = true ↔
    (gcm.authDecrypt (p.received h l).1 (p.received h l).2).1 = 0
  refused : (p.decryptPayload gcm l output h).1 = false →
    (p.decryptPayload gcm l output h).2 =
      output ++ List.replicate (plainTextSize (h.payloadSize / 2)) 0

/-! ### The buffer -/

theorem sub32_eq {a b : ℕ} (ha : a < 2 ^ 32) (h : b ≤ a) : sub32 a b = a - b := by
  rw [sub32]
  omega

@[simp] theorem length_payloadView (p : Protocol) (h : Header) :
    (p.payloadView h).length = h.payloadSize := by
  rw [payloadView, List.length_map, List.length_range]

/-- One write for each piece, in the order of the pieces. -/
theorem hexWrites_fst (byte : ℕ → UInt8) (i : ℕ) (input : Str) :
    (hexWrites byte (2 * i) input).map Prod.fst = List.range' i ((input.length + 1) / 2) := by
  induction input using hexStringToUint8.induct generalizing i with
  | case1 => rfl
  | case2 a => simp [hexWrites]
  | case3 a b input ih =>
    have hlength : ((a :: b :: input).length + 1) / 2 = (input.length + 1) / 2 + 1 := by
      rw [List.length_cons, List.length_cons]
      omega
    calc (hexWrites byte (2 * i) (a :: b :: input)).map Prod.fst
        = 2 * i / 2 :: (hexWrites byte (2 * (i + 1)) input).map Prod.fst := rfl
      _ = i :: List.range' (i + 1) ((input.length + 1) / 2) := by
          rw [ih, Nat.mul_div_cancel_left i two_pos]
      _ = List.range' i (((a :: b :: input).length + 1) / 2) := by
          rw [hlength, List.range'_succ]

theorem hexWrites_lt_iff {input : Str} {size : ℕ} :
    (∀ byte, ∀ w ∈ hexWrites byte 0 input, w.1 < size) ↔ (input.length + 1) / 2 ≤ size := by
  have hmem : ∀ byte (k : ℕ), (∃ w ∈ hexWrites byte 0 input, w.1 = k) ↔
      k < (input.length + 1) / 2 := by
    intro byte k
    rw [← List.mem_map, hexWrites_fst byte 0 input, List.mem_range'_1]
    omega
  constructor
  · intro h
    by_contra hsize
    rw [not_le] at hsize
    obtain ⟨w, hw, rfl⟩ := (hmem (fun _ => 0) size).mpr hsize
    exact absurd (h _ w hw) (lt_irrefl _)
  · intro hsize byte w hw
    exact ((hmem byte w.1).mp ⟨w, hw, rfl⟩).trans_le hsize

/-- The spans and the length of the clear text need a nonce and a tag. -/
theorem spans_within {size : ℕ} (hsize : size < 2 ^ 32) (h : cIVSize + cTagSize ≤ size) :
    ivSpan.Within size ∧ (tagSpan size).Within size ∧ (textSpan size).Within size ∧
      plainTextSize size = size - (cIVSize + cTagSize) := by
  have hplain : plainTextSize size = size - (cIVSize + cTagSize) := sub32_eq hsize h
  have htag : sub32 size cTagSize = size - cTagSize :=
    sub32_eq hsize ((Nat.le_add_left _ _).trans h)
  refine ⟨?_, ?_, ?_, hplain⟩
  · change 0 + cIVSize ≤ size
    omega
  · change sub32 size cTagSize + cTagSize ≤ size
    rw [htag]
    omega
  · change cIVSize + plainTextSize size ≤ size
    rw [hplain]
    omega

theorem payload_half_lt {h : Header} (hsize : h.payloadSize + h.prefixSize + 1 < maxBodySize) :
    h.payloadSize / 2 < 2 ^ 32 := by
  rw [maxBodySize] at hsize
  omega

/-- A buffer that is kept to has a nonce and a tag, and no half of a byte is left over. -/
theorem StaysInside.sizes {p : Protocol} {h : Header} (hinside : p.StaysInside h) :
    h.payloadSize % 2 = 0 ∧ 2 * (cIVSize + cTagSize) ≤ h.payloadSize := by
  have hwrites := hexWrites_lt_iff.mp hinside.writes
  rw [length_payloadView] at hwrites
  have hplain := hinside.plainTextSize
  -- otherwise the difference of natural numbers is negative, and no length
  have hroom : cIVSize + cTagSize ≤ h.payloadSize / 2 := by
    by_contra hnot
    rw [not_le] at hnot
    omega
  omega

/-- For every header whose sizes fit together, and whatever stands in the body: the buffer is kept
to exactly when the payload has an even size, with room for a nonce and a tag. -/
theorem staysInside_iff (p : Protocol) {h : Header}
    (hsize : h.payloadSize + h.prefixSize + 1 < maxBodySize) :
    p.StaysInside h ↔ h.payloadSize % 2 = 0 ∧ 2 * (cIVSize + cTagSize) ≤ h.payloadSize := by
  constructor
  · exact StaysInside.sizes
  · intro ⟨heven, hroom⟩
    obtain ⟨hiv, htag, htext, hplain⟩ := spans_within (payload_half_lt hsize) (by omega)
    refine ⟨?_, hiv, htag, htext, ?_⟩
    · rw [hexWrites_lt_iff, length_payloadView]
      omega
    · rw [hplain]
      omega

theorem staysInside_iff_hello :
    let h : Header := { option := 1, srcUid := 10, dstUid := 1, payloadSize := 64, prefixSize := 3 }
    let p : Protocol := { mData := str "01:000a:0001:0040:0000:0003:" }
    p.parseHeader {} = some (true, h) ∧
      (p.StaysInside h ↔ h.payloadSize % 2 = 0 ∧ 2 * (cIVSize + cTagSize) ≤ h.payloadSize) := by
  intro h p
  exact ⟨by decide +kernel, staysInside_iff p (by decide)⟩

/-- An accepted header with an odd payload, and one with no payload at all. -/
theorem payload_leaves_buffer :
    let h (size : ℕ) : Header := { option := 1, srcUid := 10, dstUid := 1, payloadSize := size }
    let p (size : ℕ) (body : Str) : Protocol := { mData := headerText (h size) ++ body }
    headerText (h 57) = str "01:000a:0001:0039:0000:0000:" ∧ plainTextSize 0 = 2 ^ 32 - 28 ∧
      ∀ body, (p 57 body).parseHeader {} = some (true, h 57) ∧
        28 ∈ (hexWrites (fun _ => 0) 0 ((p 57 body).payloadView (h 57))).map Prod.fst ∧
          ¬ (p 57 body).StaysInside (h 57) ∧
        (p 0 body).parseHeader {} = some (true, h 0) ∧ ¬ (p 0 body).StaysInside (h 0) := by
  intro h p
  have hparse : ∀ size ≤ 57, ∀ body, (p size body).parseHeader {} = some (true, h size) := by
    intro size hsize body
    have hnarrow : Narrow (h size) := by
      constructor <;> simp only [h] <;> omega
    have hfits : (h size).payloadSize + (h size).prefixSize + 1 < maxBodySize := by
      simp only [h, maxBodySize]
      omega
    have hdata : (p size body).mData = headerText (h size) ++ body := rfl
    exact parseHeader_headerText hnarrow hfits body hdata {}
  refine ⟨by decide +kernel, by decide, ?_⟩
  intro body
  refine ⟨hparse 57 le_rfl body, ?_, ?_, hparse 0 (Nat.zero_le 57) body, ?_⟩
  · have hkeys := hexWrites_fst (fun _ => 0) 0 ((p 57 body).payloadView (h 57))
    rw [Nat.mul_zero, length_payloadView] at hkeys
    rw [hkeys]
    decide
  · intro hinside
    exact absurd hinside.sizes (by decide)
  · intro hinside
    exact absurd hinside.sizes (by decide)

/-! ### The answer -/

section Answer

variable {gcm : Gcm} {p : Protocol} {h : Header} {l : Locals} {output : Str}

theorem decryptPayload_fst (gcm : Gcm) (p : Protocol) (h : Header) (l : Locals) (output : Str) :
    (p.decryptPayload gcm l output h).1 = true ↔ l.tagComputed = (p.received h l).2 :=
  decide_eq_true_iff

theorem decryptPayload_snd : (p.decryptPayload gcm l output h).2 =
    output ++ (gcm.authDecrypt (p.received h l).1 (p.received h l).2).2 := rfl

theorem length_text : (p.received h l).1.text.length = plainTextSize (h.payloadSize / 2) := by
  rw [received, authInput, Span.length_read, textSpan]

theorem length_tag : (p.received h l).2.length = cTagSize := by
  rw [received, authInput, Span.length_read, tagSpan]

/-- There is always a tag that differs. -/
theorem exists_tag_ne (tag : Str) : ∃ other : Str, other.length = cTagSize ∧ other ≠ tag := by
  have hdiffer : List.replicate cTagSize (1 : UInt8) ≠ List.replicate cTagSize 0 := by decide
  by_cases hzero : tag = List.replicate cTagSize 0
  · exact ⟨List.replicate cTagSize 1, List.length_replicate, hzero ▸ hdiffer⟩
  · exact ⟨List.replicate cTagSize 0, List.length_replicate, Ne.symm hzero⟩

/-- Only what `tag_computed` happens to hold decides. -/
theorem rightVerdict_iff : RightVerdict gcm p l output h ↔
    (l.tagComputed = (p.received h l).2 ↔
      gcm.Authentic (p.received h l).1 (p.received h l).2) := by
  constructor
  · intro hverdict
    rw [← decryptPayload_fst gcm p h l output, hverdict.accepted,
      Gcm.status_eq_zero_iff]
  · intro hsame
    constructor
    · rw [decryptPayload_fst, hsame, Gcm.status_eq_zero_iff]
    · intro hrefused
      have hnot : ¬ gcm.Authentic (p.received h l).1 (p.received h l).2 := by
        rw [← hsame, ← decryptPayload_fst gcm p h l output, hrefused]
        exact Bool.false_ne_true
      rw [decryptPayload_snd, Gcm.authDecrypt_of_not_authentic hnot, length_text]

end Answer

/-! ### What the server relies on -/

theorem length_hexStringToUint8 (input : Str) :
    (hexStringToUint8 input).length = (input.length + 1) / 2 := by
  induction input using hexStringToUint8.induct with
  | case1 => rfl
  | case2 a => simp [hexStringToUint8]
  | case3 a b input ih =>
    rw [hexStringToUint8, List.length_cons, ih, List.length_cons, List.length_cons]
    omega

/-- Without white space, the bytes are written one behind the other. -/
theorem hexWrites_eq {input : Str} (hblank : ∀ c ∈ input, isSpace c = false) (byte : ℕ → UInt8)
    (i : ℕ) :
    hexWrites byte (2 * i) input = ((hexStringToUint8 input).zipIdx i).map Prod.swap := by
  have hread : ∀ held a piece, isSpace a = false →
      hexByte held (a :: piece) = readByte (a :: piece) := by
    intro held a piece ha
    rw [hexByte, List.all_cons, ha, Bool.false_and, if_neg Bool.false_ne_true]
  induction input using hexStringToUint8.induct generalizing i with
  | case1 => rfl
  | case2 a =>
    rw [hexWrites, hread _ a [] (hblank a (by simp)), Nat.mul_div_cancel_left i two_pos]
    rfl
  | case3 a b input ih =>
    have hrest := ih (fun c hc => hblank c (by simp [hc])) (i + 1)
    rw [hexWrites, hread _ a [b] (hblank a (by simp)), Nat.mul_div_cancel_left i two_pos,
      show 2 * i + 2 = 2 * (i + 1) from rfl, hrest]
    rfl

section Server

variable {gcm : Gcm} {p : Protocol} {h : Header} {l : Locals} {output : Str}
  (hdata : p.mData.length = dataSize)
  (hfits : BodyFits h)
include hdata hfits

theorem payloadView_eq : p.payloadView h = (p.payload h).take h.payloadSize := by
  have hbody := hfits.1
  rw [dataSize] at hdata
  apply List.ext_getElem
  · rw [length_payloadView, payload, List.length_take, List.length_drop]
    omega
  · intro i hi hi'
    rw [length_payloadView] at hi
    simp only [payloadView, payload, List.getElem_map, List.getElem_range, List.getElem_take,
      List.getElem_drop]
    exact List.getD_eq_getElem _ _ _

variable (heven : h.payloadSize % 2 = 0) (hroom : 2 * (cIVSize + cTagSize) ≤ h.payloadSize)
  (hblank : ∀ c ∈ p.payloadView h, isSpace c = false)
include heven hroom hblank

/-- Where the buffer is kept to and every piece is a number, the initial contents play no part. -/
theorem received_eq : p.decryptPayloadInput h = some (p.received h l) := by
  have hsize : h.payloadSize / 2 < 2 ^ 32 := by
    apply payload_half_lt
    rw [Nat.add_comm _ h.prefixSize, Nat.add_right_comm]
    exact hfits.1
  have hbytes : (hexStringToUint8 (p.payloadView h)).length = h.payloadSize / 2 := by
    rw [length_hexStringToUint8, length_payloadView]
    omega
  have hmin : cIVSize + cTagSize ≤ h.payloadSize / 2 := by omega
  obtain ⟨hiv, htag, htext, hplain⟩ := spans_within hsize hmin
  have htagStart : sub32 (h.payloadSize / 2) cTagSize = h.payloadSize / 2 - cTagSize :=
    sub32_eq hsize ((Nat.le_add_left _ _).trans hmin)
  have hread : ∀ s : Span, s.Within (h.payloadSize / 2) → s.read (p.ciphered h l) =
      ((hexStringToUint8 (p.payloadView h)).drop s.start).take s.length := by
    intro s hs
    rw [ciphered, ← Nat.mul_zero 2, hexWrites_eq hblank]
    exact Span.read_write (by rw [hbytes]; exact hs) l.ciphered
  rw [decryptPayloadInput, ← payloadView_eq hdata hfits, decryptInput, if_pos hmin, received,
    authInput, hread _ hiv, hread _ htag, hread _ htext, tagSpan, textSpan, ivSpan, htagStart,
    hplain, aad, List.drop_zero]

/-- The frame alone says what AES-GCM is given. -/
theorem decryptPayloadInput_frame :
    ({ mKey := p.mKey, mData := p.frame h } : Protocol).decryptPayloadInput
      { prefixSize := h.prefixSize, payloadSize := h.payloadSize } = some (p.received h l) := by
  have hbody := hfits.1
  rw [maxBodySize] at hbody
  have hframe : p.frame h = p.mData.take (headerSize + h.prefixSize + 1 + h.payloadSize) := by
    rw [frame, Header.bodyLength, Nat.mod_eq_of_lt (by omega)]
    congr 1
    omega
  have haad : (p.frame h).take (headerSize + h.prefixSize + 1) =
      p.mData.take (headerSize + h.prefixSize + 1) := by
    rw [hframe, List.take_take, Nat.min_eq_left (Nat.le_add_right _ _)]
  have hpayload : ((p.frame h).drop (headerSize + h.prefixSize + 1)).take h.payloadSize =
      (p.payload h).take h.payloadSize := by
    rw [hframe, List.drop_take, Nat.add_sub_cancel_left, List.take_take, Nat.min_self, payload]
  rw [← received_eq hdata hfits heven hroom hblank, decryptPayloadInput, decryptPayloadInput,
    payload, hpayload, haad]
  rfl

theorem decryption_eq : gcm.decryption p.mKey (p.frame h) h.prefixSize h.payloadSize =
    if gcm.Authentic (p.received h l).1 (p.received h l).2 then
      some (gcm.crypt (p.received h l).1)
    else none := by
  rw [Gcm.decryption, decryptPayloadInput_frame hdata hfits heven hroom hblank]
  rfl

/-- With the right verdict, `DecryptPayload` is the decryption that the sessions rely on. -/
theorem decryptPayload_eq (hverdict : RightVerdict gcm p l output h) :
    p.decryptPayload gcm l output h =
      match gcm.decryption p.mKey (p.frame h) h.prefixSize h.payloadSize with
      | some clear => (true, output ++ clear)
      | none => (false, output ++ List.replicate (plainTextSize (h.payloadSize / 2)) 0) := by
  rw [decryption_eq hdata hfits heven hroom hblank (l := l)]
  by_cases hauthentic : gcm.Authentic (p.received h l).1 (p.received h l).2
  · have haccepted := hverdict.accepted.mpr ((Gcm.status_eq_zero_iff _ _ _).mpr hauthentic)
    rw [if_pos hauthentic]
    apply Prod.ext haccepted
    rw [decryptPayload_snd, Gcm.authDecrypt_of_authentic hauthentic]
  · have hrefused : (p.decryptPayload gcm l output h).1 = false := by
      rw [Bool.eq_false_iff, Ne, hverdict.accepted, Gcm.status_eq_zero_iff]
      exact hauthentic
    rw [if_neg hauthentic]
    exact Prod.ext hrefused (hverdict.refused hrefused)

end Server

/-- For every key, header and body: the verdict is right exactly when `tag_computed` happens to
hold the tag of the frame if it is authentic, and anything else if it is not; and no frame has a
right verdict for every content of the buffers. -/
theorem verdict_iff (gcm : Gcm) (p : Protocol) (output : Str) (h : Header) :
    (∀ l, RightVerdict gcm p l output h ↔
      (l.tagComputed = (p.received h l).2 ↔
        gcm.Authentic (p.received h l).1 (p.received h l).2)) ∧
      ∃ l, ¬ RightVerdict gcm p l output h := by
  refine ⟨fun l => rightVerdict_iff, ?_⟩
  let zeros : Locals :=
    ⟨fun _ => 0, fun _ => 0, List.replicate cTagSize 0, List.length_replicate⟩
  let input := (p.received h zeros).1
  let tag := (p.received h zeros).2
  by_cases hauthentic : gcm.Authentic input tag
  · -- an authentic frame is refused for a tag that differs from its own
    obtain ⟨other, hlength, hne⟩ := exists_tag_ne tag
    refine ⟨{ zeros with tagComputed := other, length_tagComputed := hlength }, ?_⟩
    rw [rightVerdict_iff]
    intro hsame
    exact hne (hsame.mpr hauthentic)
  · -- a forged one is let through by its own tag
    refine ⟨{ zeros with tagComputed := tag, length_tagComputed := length_tag }, ?_⟩
    rw [rightVerdict_iff]
    intro hsame
    exact hauthentic (hsame.mp rfl)

/-- The locals of a call whose stack holds a tag already. -/
def staleTag (tag : Str) (h : tag.length = cTagSize) : Locals where
  byte _ := 0
  ciphered _ := 0
  tagComputed := tag
  length_tagComputed := h

/-- Alice's frame is refused, and her pass phrase is in the output all the same; a frame with a
tag of zeros is let in where the stack holds zeros. -/
theorem stale_tag_decides :
    let frame := Server.aliceFrame 0 0 (str "secret") (str "alice")
    let h : Header := { option := 1, dstUid := 1, payloadSize := 68, prefixSize := 5 }
    let p : Protocol := { mKey := aliceKey, mData := frame }
    let forged : Protocol :=
      { p with mData := frame.take 70 ++ List.replicate 32 (chr '0') }
    let l := staleTag (List.replicate cTagSize 0) rfl
    (p.parseHeader {} = some (true, h) ∧
      aliceGcm.Authentic (p.received h l).1 (p.received h l).2 ∧
        p.decryptPayload aliceGcm l [] h = (false, str "secret") ∧
          ¬ RightVerdict aliceGcm p l [] h) ∧
      forged.parseHeader {} = some (true, h) ∧
        ¬ aliceGcm.Authentic (forged.received h l).1 (forged.received h l).2 ∧
          (forged.decryptPayload aliceGcm l [] h).1 = true ∧
            ¬ RightVerdict aliceGcm forged l [] h := by
  intro frame h p forged l
  have hparse : p.parseHeader {} = some (true, h) := by decide +kernel
  have hparse' : forged.parseHeader {} = some (true, h) := by decide +kernel
  have hauthentic : aliceGcm.Authentic (p.received h l).1 (p.received h l).2 := by decide +kernel
  have hforged : ¬ aliceGcm.Authentic (forged.received h l).1 (forged.received h l).2 := by
    decide +kernel
  have hrefused : p.decryptPayload aliceGcm l [] h = (false, str "secret") := by decide +kernel
  have haccepted : (forged.decryptPayload aliceGcm l [] h).1 = true := by decide +kernel
  refine ⟨⟨hparse, hauthentic, hrefused, ?_⟩, hparse', hforged, haccepted, ?_⟩
  · intro hverdict
    have htrue := hverdict.accepted.mpr ((Gcm.status_eq_zero_iff _ _ _).mpr hauthentic)
    rw [hrefused] at htrue
    cases htrue
  · intro hverdict
    exact hforged ((Gcm.status_eq_zero_iff _ _ _).mp (hverdict.accepted.mp haccepted))

end Protocol

end TarotClub
