import TarotClub.FrameBounds
import TarotClub.Machine

namespace TarotClub.Protocol

open Machine

/-- The header of a frame, as `Build` writes it and `ParseHeader` reads it. -/
def headerText (h : Header) : Str :=
  hexField 2 h.option ++ str ":" ++ hexField 4 h.srcUid ++ str ":" ++ hexField 4 h.dstUid ++
    str ":" ++ hexField 4 h.payloadSize ++ str ":" ++ hexField 4 h.frameCounter ++ str ":" ++
    hexField 4 h.prefixSize ++ str ":"

/-- Every column of the header is wide enough for its number. -/
structure Narrow (h : Header) : Prop where
  option : h.option < 16 ^ 2
  srcUid : h.srcUid < 16 ^ 4
  dstUid : h.dstUid < 16 ^ 4
  payloadSize : h.payloadSize < 16 ^ 4
  frameCounter : h.frameCounter < 16 ^ 4
  prefixSize : h.prefixSize < 16 ^ 4

/-- The header that `Build` writes. -/
def buildHeader (p : Protocol) (src dst : ℕ) (clearMessage prefixText : Str) : Header where
  option := cOptionCypheredData
  srcUid := src
  dstUid := dst
  payloadSize := cipheredPayloadSize clearMessage
  frameCounter := p.mTxFrameCounter
  prefixSize := prefixText.length

theorem frameHeader_eq (p : Protocol) (src dst : ℕ) (clearMessage prefixText : Str) :
    p.frameHeader src dst clearMessage prefixText =
      headerText (p.buildHeader src dst clearMessage prefixText) := rfl

theorem endsNumber_colon : EndsNumber (chr ':') := by
  unfold EndsNumber
  decide

/-- A column of the data: its colon, its number, and what stands behind it. -/
theorem column_spec {data rest : Str} {offset width n : ℕ} (hw : 0 < width) (hw' : width ≤ 16)
    (hn : n < 16 ^ width) (h : data.drop offset = hexField width n ++ chr ':' :: rest) :
    data.getD (offset + width) 0 = chr ':' ∧ data.drop (offset + width + 1) = rest ∧
      ∀ modulus, width < modulus →
        parseUint modulus (data.drop offset) width = (true, n % modulus) := by
  have hl := (length_hexField hw).mpr hn
  refine ⟨?_, ?_, fun modulus hm => ?_⟩
  · rw [List.getD_eq_getElem?_getD, ← List.getElem?_drop, h, List.getElem?_append_right hl.le, hl,
      Nat.sub_self]
    rfl
  · rw [← List.drop_drop, ← List.drop_drop, h, List.drop_left' hl, List.drop_one, List.tail_cons]
  · rw [h, parseUint, strtoul_hexField hw hw' hn endsNumber_colon]
    simp [Nat.mod_eq_of_lt hm]

/-- A header whose columns are wide enough is read as it was written. -/
theorem parseHeader_headerText {r : Protocol} {h : Header} (hn : Narrow h)
    (hsize : h.payloadSize + h.prefixSize + 1 < maxBodySize) (rest : Str)
    (hdata : r.mData = headerText h ++ rest) (old : Header) :
    r.parseHeader old = some (true, { h with prefixText := old.prefixText }) := by
  have h0 : r.mData.drop 0 = hexField 2 h.option ++ chr ':' :: (hexField 4 h.srcUid ++ chr ':' ::
      (hexField 4 h.dstUid ++ chr ':' :: (hexField 4 h.payloadSize ++ chr ':' ::
      (hexField 4 h.frameCounter ++ chr ':' :: (hexField 4 h.prefixSize ++ chr ':' :: rest))))) := by
    rw [List.drop_zero, hdata, headerText, show str ":" = [chr ':'] from rfl]
    simp only [List.append_assoc, List.cons_append, List.nil_append]
  obtain ⟨c2, h3, option⟩ := column_spec (by norm_num) (by norm_num) hn.option h0
  obtain ⟨c7, h8, srcUid⟩ := column_spec (by norm_num) (by norm_num) hn.srcUid h3
  obtain ⟨c12, h13, dstUid⟩ := column_spec (by norm_num) (by norm_num) hn.dstUid h8
  obtain ⟨c17, h18, payloadSize⟩ := column_spec (by norm_num) (by norm_num) hn.payloadSize h13
  obtain ⟨c22, h23, counter⟩ := column_spec (by norm_num) (by norm_num) hn.frameCounter h18
  obtain ⟨c27, -, prefixSize⟩ := column_spec (by norm_num) (by norm_num) hn.prefixSize h23
  have hcolons : ∀ i ∈ separators, r.mData.getD i 0 = chr ':' := by
    simp only [separators, List.mem_cons, List.not_mem_nil, or_false, forall_eq_or_imp, forall_eq]
    exact ⟨c2, c7, c12, c17, c22, c27⟩
  have hcolumns : r.parseColumns old = (true, { h with prefixText := old.prefixText }) := by
    have mod16 : ∀ n < 16 ^ 2, n % 2 ^ 16 = n := fun n hn => Nat.mod_eq_of_lt (by omega)
    have mod32 : ∀ n < 16 ^ 4, n % 2 ^ 32 = n := fun n hn => Nat.mod_eq_of_lt (by omega)
    simp only [parseColumns, parseColumn, if_true, option _ (by norm_num : 2 < 2 ^ 16),
      srcUid _ (by norm_num : 4 < 2 ^ 32), dstUid _ (by norm_num : 4 < 2 ^ 32),
      payloadSize _ (by norm_num : 4 < 2 ^ 32), counter _ (by norm_num : 4 < 2 ^ 32),
      prefixSize _ (by norm_num : 4 < 2 ^ 32), mod16 _ hn.option, mod32 _ hn.srcUid,
      mod32 _ hn.dstUid, mod32 _ hn.payloadSize, mod32 _ hn.frameCounter, mod32 _ hn.prefixSize]
  rw [parseHeader, if_pos hcolons]
  simp only [hcolumns]
  rw [if_neg]
  rw [maxBodySize] at hsize ⊢
  omega

theorem length_headerText_eq (h : Header) : (headerText h).length =
    (hexField 2 h.option).length + (hexField 4 h.srcUid).length + (hexField 4 h.dstUid).length +
      (hexField 4 h.payloadSize).length + (hexField 4 h.frameCounter).length +
      (hexField 4 h.prefixSize).length + 6 := by
  rw [headerText, show str ":" = [chr ':'] from rfl]
  simp only [List.length_append, List.length_singleton]
  omega

theorem length_headerText {h : Header} (hn : Narrow h) : (headerText h).length = headerSize := by
  rw [length_headerText_eq, (length_hexField (by norm_num)).mpr hn.option,
    (length_hexField (by norm_num)).mpr hn.srcUid, (length_hexField (by norm_num)).mpr hn.dstUid,
    (length_hexField (by norm_num)).mpr hn.payloadSize,
    (length_hexField (by norm_num)).mpr hn.frameCounter,
    (length_hexField (by norm_num)).mpr hn.prefixSize]
  rfl

/-- A header of the right length has a narrow frame counter. -/
theorem frameCounter_lt_of_length {h : Header} (hl : (headerText h).length = headerSize) :
    h.frameCounter < 16 ^ 4 := by
  rw [length_headerText_eq, headerSize] at hl
  have h1 := le_length_hexField 2 h.option
  have h2 := le_length_hexField 4 h.srcUid
  have h3 := le_length_hexField 4 h.dstUid
  have h4 := le_length_hexField 4 h.payloadSize
  have h5 := le_length_hexField 4 h.frameCounter
  have h6 := le_length_hexField 4 h.prefixSize
  exact (length_hexField (by norm_num)).mp (by omega)

theorem length_encrypt (gcm : Gcm) (p : Protocol) (aad payload iv : Str) :
    (p.encrypt gcm aad payload iv).length = iv.length + payload.length + cTagSize := by
  simp only [encrypt, List.length_append, gcm.length_crypt, gcm.length_tag]
  rfl

/-- What `Encrypt` has put together, `Decrypt` takes apart. -/
theorem decryptInput_encrypt (gcm : Gcm) {p r : Protocol} (hkey : r.mKey = p.mKey)
    (aad payload : Str) {iv : Str} (hiv : iv.length = cIVSize) :
    r.decryptInput aad (p.encrypt gcm aad payload iv) (p.encrypt gcm aad payload iv).length =
      some ({ p.encryptInput aad payload iv with
              text := gcm.crypt (p.encryptInput aad payload iv) },
        gcm.tag (p.encryptInput aad payload iv)) := by
  have hlength := length_encrypt gcm p aad payload iv
  have hcipher := gcm.length_crypt (p.encryptInput aad payload iv)
  have htag := gcm.length_tag (p.encryptInput aad payload iv)
  have hpayload : (p.encryptInput aad payload iv).text = payload := rfl
  rw [hpayload] at hcipher
  have hdropTag : (p.encrypt gcm aad payload iv).drop
      ((p.encrypt gcm aad payload iv).length - cTagSize) = gcm.tag (p.encryptInput aad payload iv) := by
    rw [hlength, Nat.add_sub_cancel]
    exact List.drop_left' (by rw [List.length_append, hcipher])
  have hdropIv : (p.encrypt gcm aad payload iv).drop cIVSize =
      gcm.crypt (p.encryptInput aad payload iv) ++ gcm.tag (p.encryptInput aad payload iv) := by
    rw [encrypt, List.append_assoc]
    exact List.drop_left' hiv
  have htakeIv : (p.encrypt gcm aad payload iv).take cIVSize = iv.take 12 := by
    rw [encrypt, List.append_assoc, List.take_left' hiv]
    exact (List.take_of_length_le hiv.le).symm
  rw [decryptInput, if_pos (by rw [hlength, hiv]; omega), hdropTag, hdropIv, htakeIv, hkey,
    hlength, hiv, List.take_of_length_le htag.le, List.take_left' (by omega)]
  rfl

/-- The frame that `p` builds as its `k`-th one is taken apart again: the columns and the sizes are
those of the builder, and `Decrypt` hands to AES-GCM what `Encrypt` got from it. -/
def RoundTrip (gcm : Gcm) (p : Protocol) (k src dst : ℕ) (clearMessage prefixText : Str) : Prop :=
  (p.frameHeader src dst clearMessage prefixText).length = headerSize ∧
    ∀ (r : Protocol) (rest : Str) (old : Header), r.mKey = p.mKey →
      r.mData = (p.build gcm src dst clearMessage prefixText).1 ++ rest →
      ∃ h, r.parseHeader old = some (true, h) ∧ h.srcUid = src ∧ h.dstUid = dst ∧
        h.prefixSize = prefixText.length ∧ h.frameCounter = k ∧
        h.payloadSize = (p.payloadAscii gcm src dst clearMessage prefixText).length ∧
        r.decryptPayloadInput h =
          some ({ p.buildInput src dst clearMessage prefixText with
                  text := gcm.crypt (p.buildInput src dst clearMessage prefixText) },
            gcm.tag (p.buildInput src dst clearMessage prefixText))

section Frame

variable (gcm : Gcm) (p : Protocol) {src dst : ℕ} (hsrc : src < 2 ^ 16) (hdst : dst < 2 ^ 16)
  {clearMessage prefixText : Str}
  (hsize : prefixText.length + 1 + 2 * (12 + clearMessage.length + 16) < maxBodySize)
include hsize

theorem cipheredPayloadSize_eq :
    cipheredPayloadSize clearMessage = 2 * (12 + clearMessage.length + 16) := by
  rw [maxBodySize] at hsize
  rw [cipheredPayloadSize, cIVSize, cTagSize, Nat.mod_eq_of_lt (by omega), mul_comm]

theorem length_payloadAscii (src dst : ℕ) :
    (p.payloadAscii gcm src dst clearMessage prefixText).length =
      cipheredPayloadSize clearMessage := by
  rw [payloadAscii, length_toHex, length_encrypt, cipheredPayloadSize_eq hsize]
  rfl

include hsrc hdst in
theorem buildHeader_narrow (hcounter : p.mTxFrameCounter < 16 ^ 4) :
    Narrow (p.buildHeader src dst clearMessage prefixText) where
  option := (by decide : cOptionCypheredData < 16 ^ 2)
  srcUid := by simpa [buildHeader] using hsrc
  dstUid := by simpa [buildHeader] using hdst
  payloadSize := by
    rw [maxBodySize] at hsize
    simp only [buildHeader, cipheredPayloadSize_eq hsize]
    omega
  frameCounter := hcounter
  prefixSize := by
    rw [maxBodySize] at hsize
    simp only [buildHeader]
    omega

include hsrc hdst in
/-- A frame whose counter is narrow is read with the counter that it was built with. -/
theorem build_roundTrip (hcounter : p.mTxFrameCounter < 16 ^ 4) :
    RoundTrip gcm p p.mTxFrameCounter src dst clearMessage prefixText := by
  have hnarrow := buildHeader_narrow p hsrc hdst hsize hcounter
  have hlength : (p.frameHeader src dst clearMessage prefixText).length = headerSize := by
    rw [frameHeader_eq]
    exact length_headerText hnarrow
  have haad : (p.frameAad src dst clearMessage prefixText).length =
      headerSize + prefixText.length + 1 := by
    rw [frameAad, List.length_append, List.length_append, hlength,
      show (str ":").length = 1 from rfl]
  have hascii := length_payloadAscii gcm p hsize src dst
  refine ⟨hlength, fun r rest old hkey hdata => ?_⟩
  rw [build] at hdata
  refine ⟨_, parseHeader_headerText hnarrow ?_ (prefixText ++ str ":" ++
    p.payloadAscii gcm src dst clearMessage prefixText ++ rest) ?_ old,
    rfl, rfl, rfl, rfl, hascii.symm, ?_⟩
  · simp only [buildHeader, cipheredPayloadSize_eq hsize]
    omega
  · rw [hdata, frameAad, frameHeader_eq]
    simp only [List.append_assoc]
  · have htake : r.mData.take (headerSize + prefixText.length + 1) =
        p.frameAad src dst clearMessage prefixText := by
      rw [hdata, List.append_assoc, List.take_left' haad]
    have hpayload : (r.mData.drop (headerSize + prefixText.length + 1)).take
        (cipheredPayloadSize clearMessage) =
          p.payloadAscii gcm src dst clearMessage prefixText := by
      rw [hdata, List.append_assoc, List.drop_left' haad, List.take_left' hascii]
    have hhalf : cipheredPayloadSize clearMessage / 2 =
        (p.encrypt gcm (p.frameAad src dst clearMessage prefixText) clearMessage buildIv).length := by
      rw [← hascii, payloadAscii, length_toHex]
      omega
    simp only [decryptPayloadInput, payload, buildHeader, htake, hpayload, hhalf]
    rw [payloadAscii, hexStringToUint8_toHex]
    exact decryptInput_encrypt gcm hkey _ _ (by decide)

end Frame

/-! A session: the calls of `Build` since the key was set. -/

/-- The arguments of a call of `Build`. -/
structure BuildCall where
  src : ℕ
  dst : ℕ
  clearMessage : Str
  prefixText : Str

def afterBuild (gcm : Gcm) (p : Protocol) (c : BuildCall) : Protocol :=
  (p.build gcm c.src c.dst c.clearMessage c.prefixText).2

theorem run_afterBuild (gcm : Gcm) (p : Protocol) (key : Str) (calls : List BuildCall) :
    (run (afterBuild gcm) (p.setSecurity key) calls).mTxFrameCounter =
      calls.length % 2 ^ 32 := by
  induction calls using List.reverseRecOn with
  | nil => rfl
  | append_singleton calls c ih =>
    rw [run_append, run_cons, run_nil, afterBuild, build, List.length_append,
      List.length_singleton]
    simp only [ih]
    omega

/-- The frame built after `calls.length` others under one key makes the round trip exactly when
their number fits the column of the frame counter. -/
theorem roundTrip_iff (gcm : Gcm) (p : Protocol) (key : Str) (calls : List BuildCall)
    {src dst : ℕ} (hsrc : src < 2 ^ 16) (hdst : dst < 2 ^ 16) {clearMessage prefixText : Str}
    (hsize : prefixText.length + 1 + 2 * (12 + clearMessage.length + 16) < maxBodySize) :
    RoundTrip gcm (run (afterBuild gcm) (p.setSecurity key) calls) calls.length src dst
      clearMessage prefixText ↔ calls.length < 2 ^ 16 := by
  have hcounter := run_afterBuild gcm p key calls
  generalize run (afterBuild gcm) (p.setSecurity key) calls = q at hcounter ⊢
  constructor
  · rintro ⟨hlength, hread⟩
    have hlt : q.mTxFrameCounter < 16 ^ 4 := by
      rw [frameHeader_eq] at hlength
      exact frameCounter_lt_of_length hlength
    obtain ⟨-, hread'⟩ := build_roundTrip gcm q hsrc hdst hsize hlt
    let r : Protocol := { mKey := q.mKey, mData := (q.build gcm src dst clearMessage prefixText).1 }
    obtain ⟨h, hparse, -, -, -, hk, -⟩ := hread r [] {} rfl (List.append_nil _).symm
    obtain ⟨h', hparse', -, -, -, hk', -⟩ := hread' r [] {} rfl (List.append_nil _).symm
    rw [hparse, Option.some.injEq, Prod.mk.injEq] at hparse'
    rw [← hparse'.2, hk, hcounter] at hk'
    rw [hcounter] at hlt
    omega
  · intro hlt
    have heq : q.mTxFrameCounter = calls.length := by
      rw [hcounter, Nat.mod_eq_of_lt (by omega)]
    rw [← heq]
    exact build_roundTrip gcm q hsrc hdst hsize (by omega)

/-- The input to AES-GCM when user 10 greets the lobby with the first frame under a key. -/
def helloInput : GcmInput where
  key := str "0123456789abcdef"
  iv := buildIv
  add := str "01:000a:0001:0042:0000:0000::"
  text := str "hello"

/-- AES-GCM on that input. -/
def helloGcm : Gcm where
  crypt input := if input = helloInput then [157, 181, 133, 153, 230] else input.text
  tag input := if input = helloInput then
      [81, 83, 194, 155, 74, 106, 148, 185, 208, 10, 19, 145, 169, 169, 139, 28]
    else List.replicate cTagSize 0
  length_crypt input := by
    split_ifs with h
    · rw [h]
      rfl
    · rfl
  length_tag input := by split_ifs <;> rfl

theorem roundTrip_iff_hello :
    let p := run (afterBuild helloGcm) (({} : Protocol).setSecurity helloInput.key) []
    p.buildInput 10 1 (str "hello") [] = helloInput ∧
      (RoundTrip helloGcm p 0 10 1 (str "hello") [] ↔ 0 < 2 ^ 16) :=
  ⟨by decide +kernel, roundTrip_iff helloGcm {} helloInput.key [] (by norm_num) (by norm_num)
    (by decide)⟩

/-- The frame after 65536 others has a header that is one byte too long. -/
theorem not_roundTrip_after_65536 :
    ¬ RoundTrip helloGcm (run (afterBuild helloGcm) (({} : Protocol).setSecurity helloInput.key)
      (List.replicate 65536 ⟨10, 1, str "hello", []⟩)) 65536 10 1 (str "hello") [] := by
  rintro ⟨hlength, -⟩
  rw [frameHeader_eq] at hlength
  have hlt := frameCounter_lt_of_length hlength
  rw [buildHeader, run_afterBuild, List.length_replicate] at hlt
  norm_num at hlt

end TarotClub.Protocol
