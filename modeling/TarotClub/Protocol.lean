import TarotClub.Hex

/-! The frames of the network protocol: a header of fixed columns, a prefix and a ciphered
payload, all in printable characters. AES-GCM is a parameter. -/
namespace TarotClub

/-- `PROTO_HEADER_SIZE`. -/
def headerSize : ℕ := 28

/-- `PROTO_MAX_BODY_SIZE`. -/
def maxBodySize : ℕ := 10 * 1024

def cTagSize : ℕ := 16

def cIVSize : ℕ := 12

def cOptionCypheredData : ℕ := 1

/-- The header of a frame; `prefixText` is its member `prefix`. -/
structure Header where
  option : ℕ := 0
  srcUid : ℕ := 0
  dstUid : ℕ := 0
  payloadSize : ℕ := 0
  frameCounter : ℕ := 0
  prefixSize : ℕ := 0
  prefixText : Str := []
  deriving DecidableEq

def Header.bodyLength (h : Header) : ℕ := (h.prefixSize + 1 + h.payloadSize) % 2 ^ 32

structure Protocol where
  mData : Str := []
  mKey : Str := []
  mTxFrameCounter : ℕ := 0
  mRxFrameCounter : ℕ := 0

/-- The size of `mData`. -/
def dataSize : ℕ := headerSize + maxBodySize

/-- What AES-GCM is given: the first 128 bits of a key, the nonce, the additional data and a
text. -/
structure GcmInput where
  key : Str
  iv : Str
  add : Str
  text : Str
  deriving DecidableEq

/-- The two results of `mbedtls_gcm_crypt_and_tag`, as long as the buffers they go to. -/
structure Gcm where
  crypt : GcmInput → Str
  tag : GcmInput → Str
  length_crypt (input : GcmInput) : (crypt input).length = input.text.length
  length_tag (input : GcmInput) : (tag input).length = cTagSize

namespace Protocol

def setSecurity (p : Protocol) (key : Str) : Protocol :=
  { p with mKey := key, mRxFrameCounter := 0, mTxFrameCounter := 0 }

/-- The nonce of every frame. -/
def buildIv : Str := str "000000000000"

/-- What `Encrypt` hands to AES-GCM. -/
def encryptInput (p : Protocol) (aad payload iv : Str) : GcmInput where
  key := p.mKey.take 16
  iv := iv.take 12
  add := aad
  text := payload

def encrypt (gcm : Gcm) (p : Protocol) (aad payload iv : Str) : Str :=
  let input := p.encryptInput aad payload iv
  iv ++ gcm.crypt input ++ gcm.tag input

def cipheredPayloadSize (clearMessage : Str) : ℕ :=
  (cIVSize + clearMessage.length + cTagSize) * 2 % 2 ^ 32

/-- The columns before the prefix. -/
def frameHeader (p : Protocol) (src dst : ℕ) (clearMessage prefixText : Str) : Str :=
  hexField 2 cOptionCypheredData ++ str ":" ++ hexField 4 src ++ str ":" ++
    hexField 4 dst ++ str ":" ++ hexField 4 (cipheredPayloadSize clearMessage) ++ str ":" ++
    hexField 4 p.mTxFrameCounter ++ str ":" ++ hexField 4 prefixText.length ++ str ":"

/-- The additional data: the header, and the prefix up to its colon. -/
def frameAad (p : Protocol) (src dst : ℕ) (clearMessage prefixText : Str) : Str :=
  p.frameHeader src dst clearMessage prefixText ++ prefixText ++ str ":"

/-- What `Build` has ciphered. -/
def buildInput (p : Protocol) (src dst : ℕ) (clearMessage prefixText : Str) : GcmInput :=
  p.encryptInput (p.frameAad src dst clearMessage prefixText) clearMessage buildIv

def payloadAscii (gcm : Gcm) (p : Protocol) (src dst : ℕ) (clearMessage prefixText : Str) : Str :=
  toHex (p.encrypt gcm (p.frameAad src dst clearMessage prefixText) clearMessage buildIv)

def build (gcm : Gcm) (p : Protocol) (src dst : ℕ) (clearMessage prefixText : Str) :
    Str × Protocol :=
  (p.frameAad src dst clearMessage prefixText ++
      p.payloadAscii gcm src dst clearMessage prefixText,
    { p with mTxFrameCounter := (p.mTxFrameCounter + 1) % 2 ^ 32 })

/-- `ParseUint32`, and `ParseUint16` with the other modulus: the value, and whether the whole
column was read. -/
def parseUint (modulus : ℕ) (data : Str) (size : ℕ) : Bool × ℕ :=
  let (value, read) := strtoul data
  (size = read % modulus, value % modulus)

/-- `ret = ret && ParseUint(...)`: a column is read as long as those before it were numbers. -/
def parseColumn (p : Protocol) (modulus offset size : ℕ) (store : Header → ℕ → Header)
    (r : Bool × Header) : Bool × Header :=
  if r.1 then
    let (ok, value) := parseUint modulus (p.mData.drop offset) size
    (ok, store r.2 value)
  else r

/-- The columns of the header, in the order in which they are read. -/
def parseColumns (p : Protocol) (h : Header) : Bool × Header :=
  let r := p.parseColumn (2 ^ 16) 0 2 (fun h v => { h with option := v }) (true, h)
  let r := p.parseColumn (2 ^ 32) 3 4 (fun h v => { h with srcUid := v }) r
  let r := p.parseColumn (2 ^ 32) 8 4 (fun h v => { h with dstUid := v }) r
  let r := p.parseColumn (2 ^ 32) 13 4 (fun h v => { h with payloadSize := v }) r
  let r := p.parseColumn (2 ^ 32) 18 4 (fun h v => { h with frameCounter := v }) r
  p.parseColumn (2 ^ 32) 23 4 (fun h v => { h with prefixSize := v }) r

/-- The places of the colons. -/
def separators : List ℕ := [2, 7, 12, 17, 22, 27]

/-- The answer and the header; nothing when the process is aborted. -/
def parseHeader (p : Protocol) (h : Header) : Option (Bool × Header) :=
  if ∀ i ∈ separators, p.mData.getD i 0 = chr ':' then
    let r := p.parseColumns h
    if (r.2.payloadSize + r.2.prefixSize + 1) % 2 ^ 32 ≥ maxBodySize then none else some r
  else some (false, h)

def parsePrefix (p : Protocol) (h : Header) : Header :=
  if 0 < h.prefixSize ∧ h.prefixSize < maxBodySize then
    { h with prefixText := (p.mData.drop 28).take h.prefixSize }
  else h

def payload (p : Protocol) (h : Header) : Str := p.mData.drop (headerSize + h.prefixSize + 1)

/-- What `Decrypt` hands to `mbedtls_gcm_auth_decrypt`, the tag apart; nothing when nonce and
tag leave the buffer. -/
def decryptInput (p : Protocol) (aad ciphered : Str) (size : ℕ) : Option (GcmInput × Str) :=
  if cIVSize + cTagSize ≤ size then
    some
      ({ key := p.mKey.take 16
         iv := ciphered.take cIVSize
         add := aad
         text := (ciphered.drop cIVSize).take (size - (cIVSize + cTagSize)) },
        (ciphered.drop (size - cTagSize)).take cTagSize)
  else none

/-- What `DecryptPayload` hands on. -/
def decryptPayloadInput (p : Protocol) (h : Header) : Option (GcmInput × Str) :=
  p.decryptInput (p.mData.take (headerSize + h.prefixSize + 1))
    (hexStringToUint8 ((p.payload h).take h.payloadSize)) (h.payloadSize / 2)

end Protocol

end TarotClub
