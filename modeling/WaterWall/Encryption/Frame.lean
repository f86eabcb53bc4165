import WaterWall.Bufio.StreamReader
import WaterWall.Bytes.BigEndian
import WaterWall.Crypto.Aead

/-!
# Encryption framing

EncryptionClient and EncryptionServer carry a line's bytes as TLS application-data records: a
frame is the five-byte record header (`17 03 03` and the body length), a fresh 12-byte nonce, and
the payload encrypted with the tunnel's AEAD cipher under that nonce, with the header as
associated data.  A payload longer than `max_frame_payload` is cut into pieces, a frame each.  The
receiver buffers what arrives, opens every complete frame, and closes the line on a frame it
cannot accept.  Both directions run the same sender and the same receiver, so each is modelled
once and the four handlers are members of the two.  The cipher is a parameter (`Crypto.Aead`),
and `secureRandomBytes` is a list of nonces drawn in order.

* `encryptionSendPayload_eq`: a payload goes out as `encryptionFrameBytes` of its pieces
  (`encryptionChunks`), one nonce each.
* `encryptionReceive_eq`: receiving is a run of `encryptionDecoder`, whose state says whether the
  line is still open; the overflow check after each drain never fires
  (`not_isOverflow_of_needMore`).
* `encryptionReceive_frames`: what the sender writes, delivered in any chunks, is passed on piece
  by piece and the line stays open.
* `encryptionReceive_sound`: under an ideal cipher, everything passed on is the plaintext of a
  frame, and those frames lie back to back at the front of the input.
-/

set_option autoImplicit false

namespace WaterWall
namespace Encryption

open Incremental Crypto

/-! ## Constants and tunnel state -/

def kEncryptionTlsHeaderSize : Nat := 5

def kEncryptionTlsApplicationData : UInt8 := 0x17

def kEncryptionTlsVersionMajor : UInt8 := 0x03

def kEncryptionTlsVersionMinor : UInt8 := 0x03

def kEncryptionNonceSize : Nat := 12

def kEncryptionTagSize : Nat := 16

def kEncryptionFramePrefixSize : Nat := kEncryptionTlsHeaderSize + kEncryptionNonceSize

def kEncryptionMaxTlsRecordBody : Nat := 16384

def kEncryptionMaxFramePayload : Nat :=
  kEncryptionMaxTlsRecordBody - kEncryptionNonceSize - kEncryptionTagSize

def kEncryptionHardMaxFramePayload : Nat := kEncryptionMaxFramePayload

def WCRYPTO_AEAD_TAG_SIZE : Nat := 16

/-- `WCRYPTO_AEAD_MAX_INPUT_SIZE`, `(size_t) INT_MAX`. -/
def WCRYPTO_AEAD_MAX_INPUT_SIZE : Nat := 2147483647

/-- What framing reads of `encryptionclient_tstate_t` (and `encryptionserver_tstate_t`), as
`encryptionclientTunnelstateInitialize` leaves it: the cipher `algorithm` selects, whose tag is
the 16 bytes of `wcrypto`, the derived key, and a `max-frame-size` that passed its range check. -/
structure EncryptionTstate (K : Type) where
  /-- The cipher `algorithm` selects (ChaCha20-Poly1305 or AES-256-GCM). -/
  cipher : Aead K (List UInt8)
  /-- Both ciphers have a tag of `WCRYPTO_AEAD_TAG_SIZE` bytes. -/
  tag_size : cipher.tagSize = WCRYPTO_AEAD_TAG_SIZE
  key : K
  max_frame_payload : Nat
  /-- `max-frame-size` is at least 1. -/
  max_frame_payload_pos : 0 < max_frame_payload
  /-- `max-frame-size` is at most `kEncryptionHardMaxFramePayload`. -/
  max_frame_payload_le : max_frame_payload ≤ kEncryptionHardMaxFramePayload

/-- The 12 bytes `secureRandomBytes` writes as a frame's nonce. -/
structure Nonce where
  /-- The bytes. -/
  bytes : List UInt8
  /-- There are `kEncryptionNonceSize` of them. -/
  length_bytes : bytes.length = kEncryptionNonceSize

variable {K : Type} (ts : EncryptionTstate K)

/-! ## The cipher calls -/

/-- `encryptionclientEncryptAead` (and the server's) with the cipher `algorithm` selects, behind
`wCryptoValidateAeadEncrypt`: `none` is a failing status, `some ciphertext` what is written to
`dst`. -/
def encryptionEncryptAead (dst_capacity : Nat) (src ad nonce : List UInt8) : Option (List UInt8) :=
  if src.length > WCRYPTO_AEAD_MAX_INPUT_SIZE - WCRYPTO_AEAD_TAG_SIZE ∨
      ad.length > WCRYPTO_AEAD_MAX_INPUT_SIZE then none
  else if dst_capacity < src.length + WCRYPTO_AEAD_TAG_SIZE then none
  else some (ts.cipher.encrypt ts.key nonce ad src)

/-- `encryptionclientDecryptAead` (and the server's) behind `wCryptoValidateAeadDecrypt`: `none`
is a failing status, a tag that does not check included. -/
def encryptionDecryptAead (dst_capacity : Nat) (src ad nonce : List UInt8) : Option (List UInt8) :=
  if src.length > WCRYPTO_AEAD_MAX_INPUT_SIZE ∨ ad.length > WCRYPTO_AEAD_MAX_INPUT_SIZE then none
  else if src.length < WCRYPTO_AEAD_TAG_SIZE then none
  else if dst_capacity < src.length - WCRYPTO_AEAD_TAG_SIZE then none
  else ts.cipher.decrypt ts.key nonce ad src

def encryptionclientEncryptAead (dst_capacity : Nat) (src ad nonce : List UInt8) :
    Option (List UInt8) :=
  encryptionEncryptAead ts dst_capacity src ad nonce

def encryptionserverEncryptAead (dst_capacity : Nat) (src ad nonce : List UInt8) :
    Option (List UInt8) :=
  encryptionEncryptAead ts dst_capacity src ad nonce

def encryptionclientDecryptAead (dst_capacity : Nat) (src ad nonce : List UInt8) :
    Option (List UInt8) :=
  encryptionDecryptAead ts dst_capacity src ad nonce

def encryptionserverDecryptAead (dst_capacity : Nat) (src ad nonce : List UInt8) :
    Option (List UInt8) :=
  encryptionDecryptAead ts dst_capacity src ad nonce

/-- Within the cipher's limits, the checked decryption is the cipher's. -/
theorem encryptionDecryptAead_eq {dst_capacity : Nat} {src ad nonce : List UInt8}
    (hsrc : src.length ≤ WCRYPTO_AEAD_MAX_INPUT_SIZE) (had : ad.length ≤ WCRYPTO_AEAD_MAX_INPUT_SIZE)
    (htag : WCRYPTO_AEAD_TAG_SIZE ≤ src.length)
    (hcap : src.length - WCRYPTO_AEAD_TAG_SIZE ≤ dst_capacity) :
    encryptionDecryptAead ts dst_capacity src ad nonce = ts.cipher.decrypt ts.key nonce ad src := by
  unfold encryptionDecryptAead
  rw [if_neg (by omega), if_neg (by omega), if_neg (by omega)]

theorem decrypt_of_encryptionDecryptAead {dst_capacity : Nat} {src ad nonce p : List UInt8}
    (h : encryptionDecryptAead ts dst_capacity src ad nonce = some p) :
    ts.cipher.decrypt ts.key nonce ad src = some p := by
  unfold encryptionDecryptAead at h
  split_ifs at h
  exact h

/-! ## Sending -/

/-- The frame buffer of both sides (`encryptionclientAllocFrameBuffer`,
`encryptionserverAllocFrameBuffer`): a small or a large buffer of the pool when the frame fits,
otherwise a new one behind the large buffers' padding. -/
def encryptionAllocFrameBuffer (w : Nat) (pool : BufferPool) (frame_len : Nat) : Option SBuf :=
  if frame_len ≤ pool.small_buffers_size then some (bufferpoolGetSmallBuffer pool)
  else if frame_len ≤ pool.large_buffers_size then some (bufferpoolGetLargeBuffer pool)
  else sbufCreateWithPadding w frame_len pool.large_buffer_left_padding

def encryptionclientAllocFrameBuffer (w : Nat) (pool : BufferPool) (frame_len : Nat) : Option SBuf :=
  encryptionAllocFrameBuffer w pool frame_len

def encryptionserverAllocFrameBuffer (w : Nat) (pool : BufferPool) (frame_len : Nat) : Option SBuf :=
  encryptionAllocFrameBuffer w pool frame_len

/-- The frame encryptor of both sides (`encryptionclientEncryptFrame`,
`encryptionserverEncryptFrame`), on a target with a `w`-bit `size_t`: the header and the nonce
go into the buffer's left padding, and the plaintext is encrypted in place.  The nonce is the
first of `nonces` (`secureRandomBytes` fails when there is none left).  The result is the frame
(`none` for a `false` return) and the nonces left; `none` is an abort. -/
def encryptionEncryptFrame (w : Nat) (buf : SBuf) (plaintext_len : Nat) (nonces : List Nonce) :
    Option (Option SBuf × List Nonce) :=
  let ciphertext_len := plaintext_len + kEncryptionTagSize
  let body_len := kEncryptionNonceSize + ciphertext_len
  let frame_len := kEncryptionTlsHeaderSize + body_len
  if body_len > kEncryptionMaxTlsRecordBody then some (none, nonces)
  else
    let reserved :=
      if sbufGetMaximumWriteableSize buf < ciphertext_len then sbufReserveSpace w buf ciphertext_len
      else some buf
    reserved.bind fun buf =>
    if sbufGetLeftCapacity buf < kEncryptionFramePrefixSize then none
    else
      (sbufShiftLeft buf kEncryptionFramePrefixSize).bind fun buf =>
      -- `frame[3] = (uint8_t) (body_len >> 8); frame[4] = (uint8_t) body_len`
      let header := [kEncryptionTlsApplicationData, kEncryptionTlsVersionMajor,
        kEncryptionTlsVersionMinor, UInt8.ofNat (body_len >>> 8), UInt8.ofNat body_len]
      (sbufWrite buf header).bind fun buf =>
      match nonces with
      | [] => some (none, [])
      | nonce :: nonces =>
        (sbufWriteAt buf kEncryptionTlsHeaderSize nonce.bytes).bind fun buf =>
        let ciphertext_capacity := sbufGetMaximumWriteableSize buf - kEncryptionFramePrefixSize
        match encryptionEncryptAead ts ciphertext_capacity
            ((buf.payload.drop kEncryptionFramePrefixSize).take plaintext_len)
            (buf.payload.take kEncryptionTlsHeaderSize)
            ((buf.payload.drop kEncryptionTlsHeaderSize).take kEncryptionNonceSize) with
        | none => some (none, nonces)
        | some ciphertext =>
          ((sbufWriteAt buf kEncryptionFramePrefixSize ciphertext).bind fun buf =>
            sbufSetLength buf frame_len).map fun buf => (some buf, nonces)

def encryptionclientEncryptFrame (w : Nat) (buf : SBuf) (plaintext_len : Nat) (nonces : List Nonce) :
    Option (Option SBuf × List Nonce) :=
  encryptionEncryptFrame ts w buf plaintext_len nonces

def encryptionserverEncryptFrame (w : Nat) (buf : SBuf) (plaintext_len : Nat) (nonces : List Nonce) :
    Option (Option SBuf × List Nonce) :=
  encryptionEncryptFrame ts w buf plaintext_len nonces

/-- The loop of the senders for a payload of more than `max_frame_payload` bytes: each piece is
copied into a frame buffer of its own and encrypted there.  The result is the frames sent, the
nonces left, and whether the line is still open. -/
def encryptionSendChunks (w : Nat) (pool : BufferPool) (src : List UInt8) (nonces : List Nonce) :
    Option (List (List UInt8) × List Nonce × Bool) :=
  if h : src = [] then some ([], nonces, true)
  else
    let chunk_len := min src.length ts.max_frame_payload
    let frame_len := kEncryptionFramePrefixSize + chunk_len + kEncryptionTagSize
    (encryptionAllocFrameBuffer w pool frame_len).bind fun frame_buf =>
    (sbufSetLength frame_buf chunk_len).bind fun frame_buf =>
    (sbufWrite frame_buf (src.take chunk_len)).bind fun frame_buf =>
    (encryptionEncryptFrame ts w frame_buf chunk_len nonces).bind fun r =>
      match r with
      -- a failed encryption closes the line
      | (none, nonces) => some ([], nonces, false)
      | (some frame_buf, nonces) =>
        (encryptionSendChunks w pool (src.drop chunk_len) nonces).map fun rest =>
          (frame_buf.payload :: rest.1, rest.2)
termination_by src.length
decreasing_by
  have hpos := List.length_pos_of_ne_nil h
  have hm := ts.max_frame_payload_pos
  simp only [List.length_drop]
  omega

/-- The payload sender of both sides (`encryptionclientTunnelUpStreamPayload`,
`encryptionserverTunnelDownStreamPayload`): an empty payload is dropped, a payload of at most
`max_frame_payload` bytes is encrypted in place, a longer one piece by piece.  The result is the
frames sent, the nonces left, and whether the line is still open. -/
def encryptionSendPayload (w : Nat) (pool : BufferPool) (buf : SBuf) (nonces : List Nonce) :
    Option (List (List UInt8) × List Nonce × Bool) :=
  let plaintext_len := sbufGetLength buf
  if plaintext_len = 0 then some ([], nonces, true)
  else if plaintext_len > ts.max_frame_payload then encryptionSendChunks ts w pool buf.payload nonces
  else
    (encryptionEncryptFrame ts w buf plaintext_len nonces).map fun r =>
      match r with
      | (none, nonces) => ([], nonces, false)
      | (some buf, nonces) => ([buf.payload], nonces, true)

def encryptionclientTunnelUpStreamPayload (w : Nat) (pool : BufferPool) (buf : SBuf)
    (nonces : List Nonce) : Option (List (List UInt8) × List Nonce × Bool) :=
  encryptionSendPayload ts w pool buf nonces

def encryptionserverTunnelDownStreamPayload (w : Nat) (pool : BufferPool) (buf : SBuf)
    (nonces : List Nonce) : Option (List (List UInt8) × List Nonce × Bool) :=
  encryptionSendPayload ts w pool buf nonces

/-- Payloads sent one after the other on a line, until the line is closed. -/
def encryptionSend (w : Nat) (pool : BufferPool) :
    List SBuf → List Nonce → Option (List (List UInt8) × List Nonce × Bool)
  | [], nonces => some ([], nonces, true)
  | buf :: bufs, nonces =>
    (encryptionSendPayload ts w pool buf nonces).bind fun r =>
      if r.2.2 then (encryptionSend w pool bufs r.2.1).map fun r' => (r.1 ++ r'.1, r'.2)
      else some (r.1, r.2.1, false)

/-! ## Receiving -/

/-- What `tryReadCompleteFrame` reports. -/
inductive FrameReadResult where
  /-- `kFrameReadNeedMore`. -/
  | needMore
  /-- `kFrameReadOk`, with the frame read off the stream. -/
  | ok (frame : List UInt8)
  /-- `kFrameReadInvalid`. -/
  | invalid

/-- `tryReadCompleteFrame` of both sides: check the record header and its body length, and read
the frame once all of it is buffered.  `none` is an abort. -/
def tryReadCompleteFrame (stream : BufferStream) : Option (FrameReadResult × BufferStream) :=
  if bufferstreamGetBufLen stream < kEncryptionTlsHeaderSize then some (.needMore, stream)
  else
    match bufferstreamViewBytesAt stream 0 kEncryptionTlsHeaderSize with
    | none => none
    | some header =>
      if header.getD 0 0 ≠ kEncryptionTlsApplicationData ∨
          header.getD 1 0 ≠ kEncryptionTlsVersionMajor ∨
          header.getD 2 0 ≠ kEncryptionTlsVersionMinor then some (.invalid, stream)
      else
        -- `((uint32_t) header[3] << 8) | (uint32_t) header[4]`
        let body_len := BigEndian.value (header.drop 3)
        if body_len < kEncryptionNonceSize + kEncryptionTagSize ∨
            body_len > ts.max_frame_payload + kEncryptionNonceSize + kEncryptionTagSize ∨
            body_len > kEncryptionMaxTlsRecordBody then some (.invalid, stream)
        else
          let frame_len := kEncryptionTlsHeaderSize + body_len
          if frame_len > bufferstreamGetBufLen stream then some (.needMore, stream)
          else
            match bufferstreamReadExact stream frame_len with
            | none => none
            | some (frame, stream) => some (.ok frame, stream)

/-- The loop body of the receivers once a frame is read: decrypt the ciphertext in place, then
shift past the prefix and cut the buffer to the plaintext.  `none` when decryption fails.  The
frame buffer has room for at least the frame, which is what the capacity passed here is. -/
def encryptionOpenFrame (frame : List UInt8) : Option (List UInt8) :=
  let body_len := BigEndian.value ((frame.drop 3).take 2)
  let ciphertext_len := body_len - kEncryptionNonceSize
  (encryptionDecryptAead ts (frame.length - kEncryptionFramePrefixSize)
      ((frame.drop kEncryptionFramePrefixSize).take ciphertext_len)
      (frame.take kEncryptionTlsHeaderSize)
      ((frame.drop kEncryptionTlsHeaderSize).take kEncryptionNonceSize)).map fun plaintext =>
    ((overwrite frame kEncryptionFramePrefixSize plaintext).drop kEncryptionFramePrefixSize).take
      (ciphertext_len - kEncryptionTagSize)

/-- `isOverflow` of both sides: more than two frames' worth buffered. -/
def isOverflow (read_stream : BufferStream) : Bool :=
  let max_frame := ts.max_frame_payload + kEncryptionTagSize + kEncryptionFramePrefixSize
  let limit := max_frame * 2
  decide (bufferstreamGetBufLen read_stream > limit)

/-- What `tryReadCompleteFrame` decides, from the buffered bytes alone: the header is the first
`kEncryptionTlsHeaderSize` of them. -/
def encryptionReadAt (xs : List UInt8) : FrameReadResult :=
  if xs.length < kEncryptionTlsHeaderSize then .needMore
  else
    let header := xs.take kEncryptionTlsHeaderSize
    if header.getD 0 0 ≠ kEncryptionTlsApplicationData ∨
        header.getD 1 0 ≠ kEncryptionTlsVersionMajor ∨
        header.getD 2 0 ≠ kEncryptionTlsVersionMinor then .invalid
    else
      let body_len := BigEndian.value (header.drop 3)
      if body_len < kEncryptionNonceSize + kEncryptionTagSize ∨
          body_len > ts.max_frame_payload + kEncryptionNonceSize + kEncryptionTagSize ∨
          body_len > kEncryptionMaxTlsRecordBody then .invalid
      else if kEncryptionTlsHeaderSize + body_len > xs.length then .needMore
      else .ok (xs.take (kEncryptionTlsHeaderSize + body_len))

/-- How many bytes a result takes off the stream. -/
def FrameReadResult.consumed : FrameReadResult → Nat
  | .ok frame => frame.length
  | _ => 0

/-- **`tryReadCompleteFrame` depends only on the buffered bytes.**  It never aborts, and it takes
exactly the frame it reports off the stream. -/
theorem tryReadCompleteFrame_eq (bs : BufferStream) :
    ∃ bs', tryReadCompleteFrame ts bs = some (encryptionReadAt ts bs.content, bs') ∧
      bs'.content = bs.content.drop (encryptionReadAt ts bs.content).consumed := by
  have hsize := bs.size_eq_length
  have hlen : bufferstreamGetBufLen bs = bs.content.length := hsize
  unfold tryReadCompleteFrame encryptionReadAt
  rw [hlen]
  by_cases h5 : bs.content.length < kEncryptionTlsHeaderSize
  · rw [if_pos h5, if_pos h5]
    exact ⟨bs, rfl, rfl⟩
  rw [if_neg h5, if_neg h5, bufferstreamViewBytesAt_eq (by decide) (by rw [hsize]; omega),
    List.drop_zero]
  dsimp only
  generalize BigEndian.value ((bs.content.take kEncryptionTlsHeaderSize).drop 3) = body
  split_ifs with hhdr hbody hframe
  · exact ⟨bs, rfl, rfl⟩
  · exact ⟨bs, rfl, rfl⟩
  · exact ⟨bs, rfl, rfl⟩
  · -- a whole frame is buffered: it is read off the front
    have hmax : body ≤ kEncryptionMaxTlsRecordBody := by omega
    obtain ⟨bs', hread, hc, -⟩ := bufferstreamReadExact_eq
      (show 0 < kEncryptionTlsHeaderSize + body by simp [kEncryptionTlsHeaderSize])
      (show kEncryptionTlsHeaderSize + body ≤ bs.size by rw [hsize]; omega)
      (by simp only [kEncryptionTlsHeaderSize, kEncryptionMaxTlsRecordBody, UINT32_MAX] at hmax ⊢
          omega)
    rw [hread]
    refine ⟨bs', rfl, ?_⟩
    rw [hc, FrameReadResult.consumed, List.length_take, Nat.min_eq_left (by omega)]

/-- A frame reported is the front of the buffered bytes, and not empty. -/
theorem encryptionReadAt_ok {xs frame : List UInt8} (h : encryptionReadAt ts xs = .ok frame) :
    frame = xs.take frame.length ∧ 0 < frame.length ∧ frame.length ≤ xs.length := by
  unfold encryptionReadAt at h
  dsimp only at h
  split_ifs at h with h5 hhdr hbody hlen
  cases h
  have hle : kEncryptionTlsHeaderSize + BigEndian.value ((xs.take kEncryptionTlsHeaderSize).drop 3) ≤
      xs.length := by omega
  rw [List.length_take, Nat.min_eq_left hle]
  exact ⟨rfl, by unfold kEncryptionTlsHeaderSize; omega, hle⟩

theorem size_lt_of_tryReadCompleteFrame {stream stream' : BufferStream} {frame : List UInt8}
    (h : tryReadCompleteFrame ts stream = some (.ok frame, stream')) : stream'.size < stream.size := by
  obtain ⟨bs', hread, hc⟩ := tryReadCompleteFrame_eq ts stream
  rw [h, Option.some.injEq, Prod.mk.injEq] at hread
  obtain ⟨hok, rfl⟩ := hread
  obtain ⟨-, hpos, hle⟩ := encryptionReadAt_ok ts hok.symm
  rw [← hok, FrameReadResult.consumed] at hc
  rw [stream'.size_eq_length, stream.size_eq_length, hc, List.length_drop]
  omega

/-- The receive loop of both sides after the push (`encryptionclientTunnelDownStreamPayload`,
`encryptionserverTunnelUpStreamPayload`): frames are read and opened until one more is needed,
then the stream is checked against the overflow limit.  The result is the plaintexts passed on
and the stream, `none` once the line is closed (an invalid header, a frame that does not decrypt,
an overflow); `none` overall is an abort. -/
def encryptionDrainFrames (read_stream : BufferStream) :
    Option (List (List UInt8) × Option BufferStream) :=
  match h : tryReadCompleteFrame ts read_stream with
  | none => none
  | some (.needMore, read_stream) =>
    some ([], if isOverflow ts read_stream then none else some read_stream)
  | some (.invalid, _) => some ([], none)
  | some (.ok frame, read_stream') =>
    match encryptionOpenFrame ts frame with
    | none => some ([], none)
    | some plaintext =>
      (encryptionDrainFrames read_stream').map fun r => (plaintext :: r.1, r.2)
termination_by read_stream.size
decreasing_by exact size_lt_of_tryReadCompleteFrame ts h

/-- A payload from the peer, on either side: pushed onto `read_stream`, then the frames drained. -/
def encryptionTunnelPayload (read_stream : BufferStream) (buf : List UInt8) :
    Option (List (List UInt8) × Option BufferStream) :=
  (bufferstreamPush read_stream buf).bind (encryptionDrainFrames ts)

def encryptionclientTunnelDownStreamPayload (read_stream : BufferStream) (buf : List UInt8) :
    Option (List (List UInt8) × Option BufferStream) :=
  (bufferstreamPush read_stream buf).bind (encryptionDrainFrames ts)

def encryptionserverTunnelUpStreamPayload (read_stream : BufferStream) (buf : List UInt8) :
    Option (List (List UInt8) × Option BufferStream) :=
  (bufferstreamPush read_stream buf).bind (encryptionDrainFrames ts)

theorem encryptionclientTunnelDownStreamPayload_eq :
    encryptionclientTunnelDownStreamPayload ts = encryptionTunnelPayload ts := rfl

theorem encryptionserverTunnelUpStreamPayload_eq :
    encryptionserverTunnelUpStreamPayload ts = encryptionTunnelPayload ts := rfl

/-- Deliveries to a payload handler, one after the other, on a line that stays open until the
handler closes it: everything passed on, in order, and the stream (`none` for a closed line, to
which nothing more is delivered). -/
def encryptionReceive
    (handle : BufferStream → List UInt8 → Option (List (List UInt8) × Option BufferStream)) :
    Option BufferStream → List (List UInt8) → Option (List (List UInt8) × Option BufferStream)
  | none, _ => some ([], none)
  | some bs, [] => some ([], some bs)
  | some bs, c :: cs =>
    (handle bs c).bind fun r => (encryptionReceive handle r.2 cs).map fun r' => (r.1 ++ r'.1, r'.2)

theorem encryptionReceive_none
    (handle : BufferStream → List UInt8 → Option (List (List UInt8) × Option BufferStream))
    (cs : List (List UInt8)) : encryptionReceive handle none cs = some ([], none) := by
  cases cs <;> rfl

/-! ## Frames on the wire -/

/-- The record header of a frame carrying `plaintext_len` bytes: application data, TLS 1.2, and
the body length (nonce, ciphertext and tag) in network order. -/
def encryptionFrameHeader (plaintext_len : Nat) : List UInt8 :=
  [kEncryptionTlsApplicationData, kEncryptionTlsVersionMajor, kEncryptionTlsVersionMinor] ++
    BigEndian.bytes 2 (kEncryptionNonceSize + (plaintext_len + kEncryptionTagSize))

/-- A frame: the header, the nonce, and the plaintext encrypted under the key and the nonce with
the header as associated data. -/
def encryptionFrameBytes (nonce : Nonce) (plaintext : List UInt8) : List UInt8 :=
  encryptionFrameHeader plaintext.length ++ nonce.bytes ++
    ts.cipher.encrypt ts.key nonce.bytes (encryptionFrameHeader plaintext.length) plaintext

@[simp] theorem length_encryptionFrameHeader (plaintext_len : Nat) :
    (encryptionFrameHeader plaintext_len).length = kEncryptionTlsHeaderSize := by
  simp [encryptionFrameHeader, kEncryptionTlsHeaderSize]

/-- The header as the encryptor writes it byte by byte. -/
theorem encryptionFrameHeader_eq (plaintext_len : Nat) :
    [kEncryptionTlsApplicationData, kEncryptionTlsVersionMajor, kEncryptionTlsVersionMinor,
      UInt8.ofNat ((kEncryptionNonceSize + (plaintext_len + kEncryptionTagSize)) >>> 8),
      UInt8.ofNat (kEncryptionNonceSize + (plaintext_len + kEncryptionTagSize))] =
      encryptionFrameHeader plaintext_len := by
  simp [encryptionFrameHeader, BigEndian.bytes, Nat.shiftRight_eq_div_pow]

section Laws

variable {ts}
variable (hL : ts.cipher.Laws)
include hL

theorem length_encrypt (nonce ad plaintext : List UInt8) :
    (ts.cipher.encrypt ts.key nonce ad plaintext).length = plaintext.length + kEncryptionTagSize := by
  rw [hL.length_encrypt, ts.tag_size]
  rfl

theorem length_encryptionFrameBytes (nonce : Nonce) (plaintext : List UInt8) :
    (encryptionFrameBytes ts nonce plaintext).length =
      plaintext.length + kEncryptionTagSize + kEncryptionFramePrefixSize := by
  simp only [encryptionFrameBytes, List.length_append, length_encryptionFrameHeader,
    nonce.length_bytes, length_encrypt hL, kEncryptionFramePrefixSize]
  omega

end Laws

/-! ## How a payload is cut -/

/-- How a payload of more than `max_frame_payload` bytes is cut, and the one piece of a shorter
non-empty one. -/
def encryptionChunks (src : List UInt8) : List (List UInt8) :=
  if h : src = [] then []
  else
    let chunk_len := min src.length ts.max_frame_payload
    src.take chunk_len :: encryptionChunks (src.drop chunk_len)
termination_by src.length
decreasing_by
  have hpos := List.length_pos_of_ne_nil h
  have hm := ts.max_frame_payload_pos
  simp only [List.length_drop]
  omega

theorem encryptionChunks_nil : encryptionChunks ts [] = [] := by
  rw [encryptionChunks, dif_pos rfl]

theorem encryptionChunks_of_ne_nil {src : List UInt8} (h : src ≠ []) :
    encryptionChunks ts src = src.take (min src.length ts.max_frame_payload) ::
      encryptionChunks ts (src.drop (min src.length ts.max_frame_payload)) := by
  rw [encryptionChunks, dif_neg h]

theorem encryptionChunks_of_le {src : List UInt8} (h0 : src ≠ [])
    (h : src.length ≤ ts.max_frame_payload) : encryptionChunks ts src = [src] := by
  rw [encryptionChunks_of_ne_nil ts h0, Nat.min_eq_left h, List.take_length, List.drop_length,
    encryptionChunks_nil]

theorem length_drop_min_lt {src : List UInt8} (h0 : src ≠ []) :
    (src.drop (min src.length ts.max_frame_payload)).length < src.length := by
  have hpos := List.length_pos_of_ne_nil h0
  have hm := ts.max_frame_payload_pos
  simp only [List.length_drop]
  omega

theorem mem_encryptionChunks {src c : List UInt8} (hc : c ∈ encryptionChunks ts src) :
    c ≠ [] ∧ c.length ≤ ts.max_frame_payload := by
  induction h : src.length using Nat.strong_induction_on generalizing src with
  | _ n ih =>
    by_cases h0 : src = []
    · rw [h0, encryptionChunks_nil] at hc
      cases hc
    rw [encryptionChunks_of_ne_nil ts h0, List.mem_cons] at hc
    rcases hc with rfl | hc
    · -- the piece at the front
      have hpos := List.length_pos_of_ne_nil h0
      have hm := ts.max_frame_payload_pos
      refine ⟨?_, by simp⟩
      rw [Ne, ← List.length_eq_zero_iff, List.length_take]
      omega
    · exact ih _ (h ▸ length_drop_min_lt ts h0) hc rfl

theorem flatten_encryptionChunks (src : List UInt8) : (encryptionChunks ts src).flatten = src := by
  induction h : src.length using Nat.strong_induction_on generalizing src with
  | _ n ih =>
    by_cases h0 : src = []
    · rw [h0, encryptionChunks_nil, List.flatten_nil]
    rw [encryptionChunks_of_ne_nil ts h0, List.flatten_cons,
      ih _ (h ▸ length_drop_min_lt ts h0) _ rfl, List.take_append_drop]

/-- Frames drawn against a list of nonces, piece by piece. -/
theorem zipWith_append_of_le {α β γ : Type} (f : α → β → γ) (ns : List α) (A B : List β)
    (h : A.length ≤ ns.length) :
    List.zipWith f ns (A ++ B) = List.zipWith f ns A ++ List.zipWith f (ns.drop A.length) B := by
  induction A generalizing ns with
  | nil => simp
  | cons a A ih =>
    cases ns with
    | nil => simp at h
    | cons n ns =>
      simp only [List.cons_append, List.zipWith_cons_cons, List.length_cons, List.drop_succ_cons]
      rw [ih ns (by simp at h; omega)]

/-! ## What the sender writes -/

/-- What the sender needs of a payload buffer to encrypt it in place: room for the frame prefix
in front of it, and behind it either room for the tag or a left padding that `sbufReserveSpace`
can create a larger buffer with. -/
def PayloadReady (buf : SBuf) : Prop :=
  sbufGetLength buf ≤ ts.max_frame_payload →
    kEncryptionFramePrefixSize ≤ sbufGetLeftCapacity buf ∧
    (sbufGetLength buf + kEncryptionTagSize ≤ sbufGetMaximumWriteableSize buf ∨
      kEncryptionFramePrefixSize ≤ buf.lpad ∧ alignUp32 buf.lpad ≤ UINT16_MAX)

/-- What the sender needs of the worker: a `size_t` of 32 bits or more, and pool buffers with
room for the frame prefix in front (the tunnel's `required_padding_left`). -/
structure SendReady (w : Nat) (pool : BufferPool) : Prop where
  /-- `size_t` has at least 32 bits. -/
  width : 32 ≤ w
  /-- Small buffers leave room for a frame prefix. -/
  small_padding : kEncryptionFramePrefixSize ≤ pool.small_buffer_left_padding
  /-- Large buffers leave room for a frame prefix. -/
  large_padding : kEncryptionFramePrefixSize ≤ pool.large_buffer_left_padding
  /-- The large buffers' padding fits in `uint16_t` once aligned. -/
  large_padding_fits : alignUp32 pool.large_buffer_left_padding ≤ UINT16_MAX

/-- Before the header goes in, the encryptor makes room for the tag: the payload is kept, the
ciphertext fits behind the cursor, and the prefix still fits in front. -/
theorem encryptionReserve_eq {w : Nat} (hw : 32 ≤ w) {buf : SBuf}
    (hlen : sbufGetLength buf ≤ kEncryptionMaxFramePayload)
    (hcap : kEncryptionFramePrefixSize ≤ sbufGetLeftCapacity buf)
    (hroom : sbufGetLength buf + kEncryptionTagSize ≤ sbufGetMaximumWriteableSize buf ∨
      kEncryptionFramePrefixSize ≤ buf.lpad ∧ alignUp32 buf.lpad ≤ UINT16_MAX) :
    ∃ b, (if sbufGetMaximumWriteableSize buf < sbufGetLength buf + kEncryptionTagSize then
          sbufReserveSpace w buf (sbufGetLength buf + kEncryptionTagSize) else some buf) = some b ∧
      b.payload = buf.payload ∧
      sbufGetLength buf + kEncryptionTagSize ≤ sbufGetMaximumWriteableSize b ∧
      kEncryptionFramePrefixSize ≤ sbufGetLeftCapacity b := by
  by_cases hr : sbufGetMaximumWriteableSize buf < sbufGetLength buf + kEncryptionTagSize
  · -- the payload moves to a larger buffer, behind the same padding
    rw [if_pos hr]
    have hpad := hroom.resolve_left (by omega)
    obtain ⟨cap, hc⟩ := sbufTryComputeCapacity_isSome hw
      (show max buf.len (sbufGetLength buf + kEncryptionTagSize) ≤ 2 ^ 24 by
        simp only [sbufGetLength, kEncryptionMaxFramePayload, kEncryptionMaxTlsRecordBody,
          kEncryptionNonceSize, kEncryptionTagSize] at hlen ⊢
        omega)
      hpad.2
    obtain ⟨b, hb, hpay, hmax, hcur⟩ := sbufReserveSpace_of_lt hc hr
    exact ⟨b, hb, hpay, hmax, by rw [sbufGetLeftCapacity, hcur]; exact hpad.1.trans (le_alignUp32 _)⟩
  · rw [if_neg hr]
    exact ⟨buf, rfl, rfl, by omega, hcap⟩

/-- The bytes of a buffer whose front has been written over. -/
theorem overwrite_front {pre new rest : List UInt8} (h : new.length = pre.length) :
    overwrite (pre ++ rest) 0 new = new ++ rest := by
  simpa using @overwrite_append [] pre rest new h.symm

/-- **A frame goes out whole** from a buffer with room for the prefix in front and, behind it,
room for the tag or a padding to move it with: the frame is the header, the nonce drawn, and the
ciphertext of the payload. -/
theorem encryptionEncryptFrame_eq (hL : ts.cipher.Laws) {w : Nat} (hw : 32 ≤ w) {buf : SBuf}
    (hlen : sbufGetLength buf ≤ kEncryptionMaxFramePayload)
    (hcap : kEncryptionFramePrefixSize ≤ sbufGetLeftCapacity buf)
    (hroom : sbufGetLength buf + kEncryptionTagSize ≤ sbufGetMaximumWriteableSize buf ∨
      kEncryptionFramePrefixSize ≤ buf.lpad ∧ alignUp32 buf.lpad ≤ UINT16_MAX)
    (nonce : Nonce) (nonces : List Nonce) :
    ∃ b', encryptionEncryptFrame ts w buf (sbufGetLength buf) (nonce :: nonces) =
        some (some b', nonces) ∧ b'.payload = encryptionFrameBytes ts nonce buf.payload := by
  obtain ⟨b₁, hres, hpay₁, hmax₁, hcap₁⟩ := encryptionReserve_eq hw hlen hcap hroom
  have hfit₁ := b₁.fits
  have hlen₁ : b₁.len = sbufGetLength buf := by
    rw [← SBuf.length_payload, hpay₁, SBuf.length_payload]
    rfl
  have hcap₁' : kEncryptionFramePrefixSize ≤ b₁.curpos := hcap₁
  generalize hH : encryptionFrameHeader (sbufGetLength buf) = H
  have hHlen : H.length = kEncryptionTlsHeaderSize := by rw [← hH, length_encryptionFrameHeader]
  have hNlen := nonce.length_bytes
  -- the frame prefix is exposed in front of the plaintext, then the header and the nonce go over it
  obtain ⟨b₃, hw₃, hpay₃, hcur₃, hlen₃, hmem₃⟩ := sbufWriteAt_inside
    (show 0 + H.length ≤ (b₁.shiftLeft kEncryptionFramePrefixSize hcap₁').len by
      simp only [SBuf.shiftLeft_len, hHlen, kEncryptionFramePrefixSize]
      omega)
  obtain ⟨b₄, hw₄, hpay₄, hcur₄, hlen₄, hmem₄⟩ := sbufWriteAt_inside
    (show kEncryptionTlsHeaderSize + nonce.bytes.length ≤ b₃.len by
      simp only [hlen₃, SBuf.shiftLeft_len, hNlen, kEncryptionFramePrefixSize]
      omega)
  have hpad_len : ((b₁.mem.drop (b₁.curpos - kEncryptionFramePrefixSize)).take
      kEncryptionFramePrefixSize).length = (H ++ nonce.bytes).length := by
    simp only [List.length_take, List.length_drop, List.length_append, hHlen, hNlen,
      kEncryptionFramePrefixSize] at hcap₁' ⊢
    omega
  have hpay₄' : b₄.payload = H ++ nonce.bytes ++ buf.payload := by
    rw [hpay₄, hpay₃, show kEncryptionTlsHeaderSize = 0 + H.length by rw [hHlen]; rfl,
      overwrite_overwrite (by simp only [SBuf.length_payload, SBuf.shiftLeft_len, hHlen, hNlen,
        kEncryptionFramePrefixSize]; omega),
      SBuf.payload_shiftLeft, hpay₁, overwrite_front hpad_len.symm]
  -- the plaintext is encrypted with the header as associated data
  have hct : encryptionEncryptAead ts (sbufGetMaximumWriteableSize b₄ - kEncryptionFramePrefixSize)
      ((b₄.payload.drop kEncryptionFramePrefixSize).take (sbufGetLength buf))
      (b₄.payload.take kEncryptionTlsHeaderSize)
      ((b₄.payload.drop kEncryptionTlsHeaderSize).take kEncryptionNonceSize) =
      some (ts.cipher.encrypt ts.key nonce.bytes H buf.payload) := by
    have hP : buf.payload.length = sbufGetLength buf := SBuf.length_payload buf
    rw [hpay₄', List.drop_left' (by simp [hHlen, hNlen, kEncryptionFramePrefixSize]),
      List.take_of_length_le (le_of_eq hP), List.append_assoc, List.take_left' hHlen,
      List.drop_left' hHlen, List.take_left' hNlen, encryptionEncryptAead,
      if_neg (by simp only [hP, hHlen, kEncryptionTlsHeaderSize, WCRYPTO_AEAD_MAX_INPUT_SIZE,
        WCRYPTO_AEAD_TAG_SIZE, kEncryptionMaxFramePayload, kEncryptionMaxTlsRecordBody,
        kEncryptionNonceSize, kEncryptionTagSize] at hlen ⊢; omega),
      if_neg (by simp only [sbufGetMaximumWriteableSize, hmem₄, hcur₄, hmem₃, hcur₃, hP,
        SBuf.shiftLeft_mem, SBuf.shiftLeft_curpos, WCRYPTO_AEAD_TAG_SIZE, kEncryptionTagSize,
        kEncryptionFramePrefixSize] at hmax₁ hcap₁' ⊢; omega)]
  -- the ciphertext is written over the plaintext and the buffer cut to the frame
  have hctlen : (ts.cipher.encrypt ts.key nonce.bytes H buf.payload).length =
      sbufGetLength buf + kEncryptionTagSize := by
    rw [length_encrypt hL, SBuf.length_payload]
    rfl
  have hcur4 : b₄.curpos = b₁.curpos - kEncryptionFramePrefixSize := by rw [hcur₄, hcur₃]; rfl
  have hmem4 : b₄.mem.length = b₁.mem.length := by rw [hmem₄, hmem₃]; rfl
  have hroom₁ : sbufGetLength buf + kEncryptionTagSize ≤ b₁.mem.length - b₁.curpos := hmax₁
  obtain ⟨b₅, hw₅, hpay₅, -, -⟩ := sbufSetLength_sbufWriteAt
    (show kEncryptionFramePrefixSize ≤ b₄.len by
      simp only [hlen₄, hlen₃, SBuf.shiftLeft_len]
      omega)
    (show b₄.curpos + kEncryptionFramePrefixSize +
        (ts.cipher.encrypt ts.key nonce.bytes H buf.payload).length ≤ b₄.mem.length by
      rw [hcur4, hmem4, hctlen]
      omega)
  have hfl : kEncryptionTlsHeaderSize + (kEncryptionNonceSize + (sbufGetLength buf + kEncryptionTagSize)) =
      kEncryptionFramePrefixSize + (ts.cipher.encrypt ts.key nonce.bytes H buf.payload).length := by
    rw [hctlen, kEncryptionFramePrefixSize]
    omega
  refine ⟨b₅, ?_, ?_⟩
  · unfold encryptionEncryptFrame
    dsimp only
    rw [if_neg (by simp only [kEncryptionNonceSize, kEncryptionTagSize, kEncryptionMaxTlsRecordBody,
        kEncryptionMaxFramePayload] at hlen ⊢; omega),
      hres, Option.bind_some, if_neg (Nat.not_lt_of_le hcap₁), sbufShiftLeft_eq hcap₁',
      Option.bind_some, encryptionFrameHeader_eq, hH, sbufWrite, hw₃, Option.bind_some, hw₄,
      Option.bind_some, hct]
    dsimp only
    rw [hfl, hw₅, Option.map_some]
  · rw [hpay₅, hpay₄', List.take_left' (by simp [hHlen, hNlen, kEncryptionFramePrefixSize]),
      encryptionFrameBytes, SBuf.length_payload, show buf.len = sbufGetLength buf from rfl, hH]

/-- A frame buffer the senders take: room for the prefix in front and for the frame. -/
theorem encryptionAllocFrameBuffer_eq {w : Nat} {pool : BufferPool} (hready : SendReady w pool)
    {frame_len : Nat} (hn : frame_len ≤ 2 ^ 24) :
    ∃ b, encryptionAllocFrameBuffer w pool frame_len = some b ∧
      kEncryptionFramePrefixSize ≤ b.curpos ∧ frame_len ≤ sbufGetMaximumWriteableSize b := by
  obtain ⟨b, hb, -, hcur, hmax⟩ := allocFrameBuffer_room hready.width hready.small_padding
    hready.large_padding hready.large_padding_fits hn
  exact ⟨b, hb, hcur, hmax⟩

/-- **A long payload goes out as its pieces**, each in a frame of its own with the next nonce. -/
theorem encryptionSendChunks_eq (hL : ts.cipher.Laws) {w : Nat} {pool : BufferPool}
    (hready : SendReady w pool) (src : List UInt8) (nonces : List Nonce)
    (hn : (encryptionChunks ts src).length ≤ nonces.length) :
    encryptionSendChunks ts w pool src nonces =
      some (List.zipWith (encryptionFrameBytes ts) nonces (encryptionChunks ts src),
        nonces.drop (encryptionChunks ts src).length, true) := by
  induction h : src.length using Nat.strong_induction_on generalizing src nonces with
  | _ n ih =>
    by_cases h0 : src = []
    · subst h0
      rw [encryptionSendChunks, dif_pos rfl, encryptionChunks_nil]
      simp
    have hm := ts.max_frame_payload_pos
    have hmle := ts.max_frame_payload_le
    have hpos := List.length_pos_of_ne_nil h0
    obtain ⟨chunk_len, hchunk⟩ : ∃ c, min src.length ts.max_frame_payload = c := ⟨_, rfl⟩
    have hle : chunk_len ≤ ts.max_frame_payload := hchunk ▸ Nat.min_le_right _ _
    have hcpos : 0 < chunk_len := by rw [← hchunk]; omega
    have htake : (src.take chunk_len).length = chunk_len := by rw [List.length_take, ← hchunk]; omega
    rw [encryptionChunks_of_ne_nil ts h0, hchunk] at hn
    obtain ⟨nonce, nonces, rfl⟩ := List.exists_cons_of_ne_nil (show nonces ≠ [] by
      rintro rfl
      simp at hn)
    -- the piece is copied into a frame buffer of its own, then encrypted there
    obtain ⟨b, halloc, hcap, hmax⟩ := encryptionAllocFrameBuffer_eq hready
      (show kEncryptionFramePrefixSize + chunk_len + kEncryptionTagSize ≤ 2 ^ 24 by
        simp only [kEncryptionHardMaxFramePayload, kEncryptionMaxFramePayload,
          kEncryptionMaxTlsRecordBody, kEncryptionNonceSize, kEncryptionTagSize,
          kEncryptionFramePrefixSize, kEncryptionTlsHeaderSize] at hmle ⊢
        omega)
    obtain ⟨b', hfill, hpay, hcur, hmem⟩ := sbufWrite_sbufSetLength
      (show (src.take chunk_len).length ≤ sbufGetMaximumWriteableSize b by rw [htake]; omega)
    rw [htake, Option.bind_eq_some_iff] at hfill
    obtain ⟨b₁, hset, hwrite⟩ := hfill
    have hlen' : sbufGetLength b' = chunk_len := by
      rw [sbufGetLength, ← SBuf.length_payload, hpay, htake]
    obtain ⟨f, hf, hfpay⟩ := encryptionEncryptFrame_eq ts hL hready.width
      (show sbufGetLength b' ≤ kEncryptionMaxFramePayload by rw [hlen']; exact hle.trans hmle)
      (show kEncryptionFramePrefixSize ≤ sbufGetLeftCapacity b' by rw [sbufGetLeftCapacity, hcur]; exact hcap)
      (Or.inl (show sbufGetLength b' + kEncryptionTagSize ≤ sbufGetMaximumWriteableSize b' by
        simp only [sbufGetMaximumWriteableSize, hmem, hcur, hlen'] at hmax ⊢
        omega))
      nonce nonces
    rw [hlen'] at hf
    rw [hpay] at hfpay
    have hrest := ih _ (by rw [List.length_drop, ← h]; omega) (src.drop chunk_len) nonces
      (by simp only [List.length_cons] at hn; omega) rfl
    rw [encryptionSendChunks, dif_neg h0]
    dsimp only
    rw [hchunk, halloc, Option.bind_some, hset, Option.bind_some, hwrite, Option.bind_some, hf,
      Option.bind_some]
    dsimp only
    rw [hrest, Option.map_some, encryptionChunks_of_ne_nil ts h0, hchunk, hfpay]
    simp

/-- **A payload goes out as its pieces**, encrypted in place when it fits one frame. -/
theorem encryptionSendPayload_eq (hL : ts.cipher.Laws) {w : Nat} {pool : BufferPool}
    (hready : SendReady w pool) {buf : SBuf} (hbuf : PayloadReady ts buf) (nonces : List Nonce)
    (hn : (encryptionChunks ts buf.payload).length ≤ nonces.length) :
    encryptionSendPayload ts w pool buf nonces =
      some (List.zipWith (encryptionFrameBytes ts) nonces (encryptionChunks ts buf.payload),
        nonces.drop (encryptionChunks ts buf.payload).length, true) := by
  have hlen : buf.payload.length = sbufGetLength buf := SBuf.length_payload buf
  unfold encryptionSendPayload
  dsimp only
  by_cases h0 : sbufGetLength buf = 0
  · rw [if_pos h0, List.eq_nil_of_length_eq_zero (hlen.trans h0), encryptionChunks_nil]
    simp
  rw [if_neg h0]
  by_cases hbig : sbufGetLength buf > ts.max_frame_payload
  · rw [if_pos hbig, encryptionSendChunks_eq ts hL hready _ _ hn]
  · -- one frame, encrypted in place
    rw [if_neg hbig]
    have hne : buf.payload ≠ [] := fun hnil => h0 (by rw [← hlen, hnil]; rfl)
    obtain ⟨hcap, hroom⟩ := hbuf (Nat.le_of_not_lt hbig)
    rw [encryptionChunks_of_le ts hne (by omega)] at hn ⊢
    obtain ⟨nonce, nonces, rfl⟩ := List.exists_cons_of_ne_nil (show nonces ≠ [] by
      rintro rfl
      simp at hn)
    obtain ⟨f, hf, hfpay⟩ := encryptionEncryptFrame_eq ts hL hready.width
      ((Nat.le_of_not_lt hbig).trans ts.max_frame_payload_le) hcap hroom nonce nonces
    rw [hf, Option.map_some]
    simp [hfpay]

/-- **What the sender writes**: payloads sent one after the other go out as the frames of their
pieces, in order, each with the next nonce, and the line stays open. -/
theorem encryptionSend_eq (hL : ts.cipher.Laws) {w : Nat} {pool : BufferPool}
    (hready : SendReady w pool) {bufs : List SBuf} (hbufs : ∀ b ∈ bufs, PayloadReady ts b)
    (nonces : List Nonce)
    (hn : (bufs.flatMap fun b => encryptionChunks ts b.payload).length ≤ nonces.length) :
    encryptionSend ts w pool bufs nonces =
      some (List.zipWith (encryptionFrameBytes ts) nonces
          (bufs.flatMap fun b => encryptionChunks ts b.payload),
        nonces.drop (bufs.flatMap fun b => encryptionChunks ts b.payload).length, true) := by
  induction bufs generalizing nonces with
  | nil => simp [encryptionSend]
  | cons b bufs ih =>
    rw [List.flatMap_cons, List.length_append] at hn
    rw [encryptionSend, encryptionSendPayload_eq ts hL hready (hbufs b List.mem_cons_self) _
      (by omega), Option.bind_some, if_pos rfl]
    dsimp only
    rw [ih (fun b' hb' => hbufs b' (List.mem_cons_of_mem b hb')) _
      (by rw [List.length_drop]; omega), Option.map_some, List.flatMap_cons,
      zipWith_append_of_le _ _ _ _ (by omega), List.drop_drop, List.length_append]

/-- The frames payloads go out as: each piece of each payload, with the next nonce. -/
def encryptionSendPlan (nonces : List Nonce) (bufs : List SBuf) : List (Nonce × List UInt8) :=
  nonces.zip (bufs.flatMap fun b => encryptionChunks ts b.payload)

theorem mem_encryptionSendPlan {nonces : List Nonce} {bufs : List SBuf}
    {f : Nonce × List UInt8} (hf : f ∈ encryptionSendPlan ts nonces bufs) :
    0 < f.2.length ∧ f.2.length ≤ ts.max_frame_payload := by
  obtain ⟨nonce, p⟩ := f
  obtain ⟨-, hA⟩ := List.of_mem_zip hf
  obtain ⟨b, -, hc⟩ := List.mem_flatMap.1 hA
  obtain ⟨hne, hle⟩ := mem_encryptionChunks ts hc
  exact ⟨List.length_pos_of_ne_nil hne, hle⟩

/-- With a nonce for every piece, the frames carry the payloads, in order. -/
theorem flatten_encryptionSendPlan {nonces : List Nonce} {bufs : List SBuf}
    (hn : (bufs.flatMap fun b => encryptionChunks ts b.payload).length ≤ nonces.length) :
    ((encryptionSendPlan ts nonces bufs).map Prod.snd).flatten = (bufs.map SBuf.payload).flatten := by
  rw [encryptionSendPlan, List.map_snd_zip hn]
  clear hn
  induction bufs with
  | nil => rfl
  | cons b bufs ih =>
    rw [List.flatMap_cons, List.flatten_append, ih, flatten_encryptionChunks, List.map_cons,
      List.flatten_cons]

theorem encryptionSend_eq_plan (hL : ts.cipher.Laws) {w : Nat} {pool : BufferPool}
    (hready : SendReady w pool) {bufs : List SBuf} (hbufs : ∀ b ∈ bufs, PayloadReady ts b)
    (nonces : List Nonce)
    (hn : (bufs.flatMap fun b => encryptionChunks ts b.payload).length ≤ nonces.length) :
    encryptionSend ts w pool bufs nonces =
      some ((encryptionSendPlan ts nonces bufs).map fun f => encryptionFrameBytes ts f.1 f.2,
        nonces.drop (encryptionSendPlan ts nonces bufs).length, true) := by
  rw [encryptionSend_eq ts hL hready hbufs nonces hn, encryptionSendPlan, List.length_zip,
    Nat.min_eq_right hn, ← List.map_uncurry_zip_eq_zipWith]
  rfl

/-! ## Receiving as decoding -/

theorem encryptionReadAt_invalid {xs : List UInt8} (h : encryptionReadAt ts xs = .invalid) :
    kEncryptionTlsHeaderSize ≤ xs.length := by
  unfold encryptionReadAt at h
  dsimp only at h
  split_ifs at h with h5
  all_goals omega

/-- **What a receiver waits on is shorter than one frame**: a partial header, or a partial frame
whose header it has accepted. -/
theorem encryptionReadAt_needMore {xs : List UInt8} (h : encryptionReadAt ts xs = .needMore) :
    xs.length < ts.max_frame_payload + kEncryptionTagSize + kEncryptionFramePrefixSize := by
  unfold encryptionReadAt at h
  dsimp only at h
  split_ifs at h with h5 hhdr hbody hlen
  · simp only [kEncryptionFramePrefixSize] at h5 ⊢
    omega
  · simp only [kEncryptionFramePrefixSize] at hbody hlen ⊢
    omega

/-- The receivers as a decoder of the buffered bytes.  Its state says whether the line is open:
a header or a frame they cannot accept closes it, taking everything buffered with it, and a
closed line decodes nothing more. -/
def encryptionDecoder : Decoder Bool UInt8 (List UInt8) where
  step line_open xs :=
    if line_open then
      match encryptionReadAt ts xs with
      | .needMore => none
      | .invalid => some (false, [], xs.length)
      | .ok frame =>
        match encryptionOpenFrame ts frame with
        | none => some (false, [], xs.length)
        | some plaintext => some (true, [plaintext], frame.length)
    else none
  consumes := by
    intro s xs s' out n h
    cases s
    · cases h
    · rw [if_pos rfl] at h
      cases hr : encryptionReadAt ts xs with
      | needMore => rw [hr] at h; cases h
      | invalid =>
        rw [hr] at h
        cases h
        have := encryptionReadAt_invalid ts hr
        simp only [kEncryptionTlsHeaderSize] at this
        omega
      | ok frame =>
        rw [hr] at h
        dsimp only at h
        obtain ⟨-, hpos, hle⟩ := encryptionReadAt_ok ts hr
        cases ho : encryptionOpenFrame ts frame with
        | none => rw [ho] at h; cases h; omega
        | some p => rw [ho] at h; cases h; exact ⟨hpos, hle⟩

theorem encryptionDecoder_stuck : (encryptionDecoder ts).Stuck false := fun _ => rfl

theorem encryptionDecoder_step_true (xs : List UInt8) :
    (encryptionDecoder ts).step true xs =
      match encryptionReadAt ts xs with
      | .needMore => none
      | .invalid => some (false, [], xs.length)
      | .ok frame =>
        match encryptionOpenFrame ts frame with
        | none => some (false, [], xs.length)
        | some plaintext => some (true, [plaintext], frame.length) := rfl

/-- A receiver that closes the line emits nothing more and keeps nothing. -/
theorem drain_of_close {xs : List UInt8}
    (h : (encryptionDecoder ts).step true xs = some (false, [], xs.length)) :
    (encryptionDecoder ts).drain true xs = (false, [], []) := by
  rw [Decoder.drain_of_step_some _ h, List.drop_length,
    Decoder.drain_of_stuck (encryptionDecoder_stuck ts)]
  rfl

theorem encryptionDecoder_step_close {xs : List UInt8} {out : List (List UInt8)} {n : Nat}
    (h : (encryptionDecoder ts).step true xs = some (false, out, n)) : out = [] := by
  rw [encryptionDecoder_step_true] at h
  split at h
  · cases h
  · simp only [Option.some.injEq, Prod.mk.injEq] at h
    exact h.2.1.symm
  · split at h
    · simp only [Option.some.injEq, Prod.mk.injEq] at h
      exact h.2.1.symm
    · simp at h

/-- The overflow check cannot fire on what a receiver waits on. -/
theorem not_isOverflow_of_needMore {bs : BufferStream}
    (h : encryptionReadAt ts bs.content = .needMore) : isOverflow ts bs = false := by
  have hlt := encryptionReadAt_needMore ts h
  unfold isOverflow
  rw [decide_eq_false_iff_not, bufferstreamGetBufLen, bs.size_eq_length]
  omega

theorem encryptionDrainFrames_of_needMore {bs bs' : BufferStream}
    (h : tryReadCompleteFrame ts bs = some (.needMore, bs')) :
    encryptionDrainFrames ts bs = some ([], if isOverflow ts bs' then none else some bs') := by
  rw [encryptionDrainFrames]
  split <;> simp_all

theorem encryptionDrainFrames_of_invalid {bs bs' : BufferStream}
    (h : tryReadCompleteFrame ts bs = some (.invalid, bs')) :
    encryptionDrainFrames ts bs = some ([], none) := by
  rw [encryptionDrainFrames]
  split <;> simp_all

theorem encryptionDrainFrames_of_ok {bs bs' : BufferStream} {frame : List UInt8}
    (h : tryReadCompleteFrame ts bs = some (.ok frame, bs')) :
    encryptionDrainFrames ts bs =
      match encryptionOpenFrame ts frame with
      | none => some ([], none)
      | some plaintext => (encryptionDrainFrames ts bs').map fun r => (plaintext :: r.1, r.2) := by
  rw [encryptionDrainFrames]
  split
  · simp_all
  · simp_all
  · simp_all
  · rename_i frame' bs'' hread
    rw [h] at hread
    cases hread
    rfl

/-- **The receive loop drains what the decoder drains**: it passes on what the decoder emits,
keeps what it keeps, and closes the line exactly when the decoder does. -/
theorem encryptionDrainFrames_eq (bs : BufferStream) :
    ∃ bs', encryptionDrainFrames ts bs =
        some (((encryptionDecoder ts).drain true bs.content).2.1,
          if ((encryptionDecoder ts).drain true bs.content).1 then some bs' else none) ∧
      bs'.content = ((encryptionDecoder ts).drain true bs.content).2.2 := by
  induction h : bs.size using Nat.strong_induction_on generalizing bs with
  | _ n ih =>
    obtain ⟨bs₁, hread, hc₁⟩ := tryReadCompleteFrame_eq ts bs
    have hstep := encryptionDecoder_step_true ts bs.content
    cases hr : encryptionReadAt ts bs.content with
    | needMore =>
      -- the decoder waits, and the overflow check passes
      rw [hr] at hread hc₁ hstep
      dsimp only at hstep
      rw [show FrameReadResult.needMore.consumed = 0 from rfl, List.drop_zero] at hc₁
      have hover : isOverflow ts bs₁ = false := not_isOverflow_of_needMore ts (hc₁ ▸ hr)
      rw [encryptionDrainFrames_of_needMore ts hread, hover, Decoder.drain_of_step_none _ hstep]
      exact ⟨bs₁, rfl, hc₁⟩
    | invalid =>
      rw [hr] at hread hstep
      dsimp only at hstep
      rw [encryptionDrainFrames_of_invalid ts hread, drain_of_close ts hstep]
      exact ⟨bufferstreamCreate, rfl, rfl⟩
    | ok frame =>
      rw [hr] at hread hc₁ hstep
      dsimp only at hstep
      rw [FrameReadResult.consumed] at hc₁
      rw [encryptionDrainFrames_of_ok ts hread]
      cases ho : encryptionOpenFrame ts frame with
      | none =>
        rw [ho] at hstep
        rw [drain_of_close ts hstep]
        exact ⟨bufferstreamCreate, rfl, rfl⟩
      | some p =>
        -- a frame passed on, and the rest of the loop on a shorter stream
        rw [ho] at hstep
        dsimp only
        have hlt := size_lt_of_tryReadCompleteFrame ts hread
        obtain ⟨bs₂, hdrain, hc₂⟩ := ih _ (h ▸ hlt) bs₁ rfl
        rw [hdrain, Option.map_some, Decoder.drain_of_step_some _ hstep, ← hc₁]
        exact ⟨bs₂, rfl, hc₂⟩

theorem length_lt_of_step_none {xs : List UInt8} (h : (encryptionDecoder ts).step true xs = none) :
    xs.length < ts.max_frame_payload + kEncryptionTagSize + kEncryptionFramePrefixSize := by
  rw [encryptionDecoder_step_true] at h
  cases hr : encryptionReadAt ts xs with
  | needMore => exact encryptionReadAt_needMore ts hr
  | invalid => rw [hr] at h; cases h
  | ok frame =>
    rw [hr] at h
    dsimp only at h
    split at h <;> cases h

/-- **Receiving is decoding.**  From a stream holding what the receiver waits on, a run of
deliveries to an open line, each of which fits the stream beside less than one frame, passes on
what the decoder emits when fed them, and leaves the line open exactly when the decoder ends
open.  The induction carries that the stream holds only what the decoder waits on, which is
where every drain stops. -/
theorem encryptionReceive_eq (cs : List (List UInt8))
    (hcs : ∀ c ∈ cs, c.length +
      (ts.max_frame_payload + kEncryptionTagSize + kEncryptionFramePrefixSize) ≤ UINT32_MAX) :
    ∀ bs : BufferStream, (encryptionDecoder ts).step true bs.content = none →
      ∃ bs', encryptionReceive (encryptionTunnelPayload ts) (some bs) cs =
          some (((encryptionDecoder ts).feed true bs.content cs).2.1,
            if ((encryptionDecoder ts).feed true bs.content cs).1 then some bs' else none) ∧
        bs'.content = ((encryptionDecoder ts).feed true bs.content cs).2.2 := by
  induction cs with
  | nil => intro bs _; exact ⟨bs, rfl, rfl⟩
  | cons c cs ih =>
    intro bs hwait
    have hbs := length_lt_of_step_none ts hwait
    have hc := hcs c List.mem_cons_self
    rw [← bs.size_eq_length] at hbs
    obtain ⟨bs₁, hpush, hc₁, -⟩ :=
      bufferstreamPush_some (show bs.size + c.length ≤ UINT32_MAX by omega)
    obtain ⟨bs₂, hdrain, hc₂⟩ := encryptionDrainFrames_eq ts bs₁
    rw [hc₁] at hdrain hc₂
    have hwait₂ := (encryptionDecoder ts).step_drain true (bs.content ++ c)
    rw [encryptionReceive, encryptionTunnelPayload, hpush, Option.bind_some, hdrain,
      Option.bind_some, Decoder.feed_cons]
    dsimp only
    generalize (encryptionDecoder ts).drain true (bs.content ++ c) = d at hc₂ hwait₂ ⊢
    obtain ⟨line_open, out, rest⟩ := d
    cases line_open with
    | true =>
      -- the line stays open: the rest of the deliveries go on from what the drain stopped at
      dsimp only at hc₂ hwait₂ ⊢
      obtain ⟨bs₃, hrec, hc₃⟩ := ih (fun c' hc' => hcs c' (List.mem_cons_of_mem c hc')) bs₂
        (by rw [hc₂]; exact hwait₂)
      rw [if_pos rfl, hrec, Option.map_some, ← hc₂]
      exact ⟨bs₃, rfl, hc₃⟩
    | false =>
      -- the line is closed: nothing more is delivered, and the decoder emits nothing more
      dsimp only at hc₂ ⊢
      rw [Decoder.feed_of_stuck (encryptionDecoder_stuck ts)]
      refine ⟨BufferStream.ofList (rest ++ cs.flatten), ?_, BufferStream.content_ofList _⟩
      rw [if_neg (by decide), encryptionReceive_none, Option.map_some]
      rfl

/-! ## Frames read back -/

/-- The body length a frame's header carries is the one it was written with. -/
theorem value_encryptionFrameHeader {plaintext_len : Nat}
    (h : plaintext_len ≤ kEncryptionMaxFramePayload) :
    BigEndian.value ((encryptionFrameHeader plaintext_len).drop 3) =
      kEncryptionNonceSize + (plaintext_len + kEncryptionTagSize) := by
  simp only [encryptionFrameHeader, List.cons_append, List.nil_append, List.drop_succ_cons,
    List.drop_zero]
  rw [BigEndian.value_bytes, Nat.mod_eq_of_lt]
  simp only [kEncryptionMaxFramePayload, kEncryptionMaxTlsRecordBody, kEncryptionNonceSize,
    kEncryptionTagSize] at h ⊢
  omega

/-- Buffered bytes that start with the header of a frame of at most `max_frame_payload` bytes
pass the header checks: the receiver waits for the rest of the frame, or reads it. -/
theorem encryptionReadAt_of_header {xs : List UInt8} {plaintext_len : Nat}
    (hp : plaintext_len ≤ ts.max_frame_payload)
    (hH : xs.take kEncryptionTlsHeaderSize = encryptionFrameHeader plaintext_len)
    (h5 : kEncryptionTlsHeaderSize ≤ xs.length) :
    encryptionReadAt ts xs =
      if kEncryptionTlsHeaderSize + (kEncryptionNonceSize + (plaintext_len + kEncryptionTagSize)) >
          xs.length then .needMore
      else .ok (xs.take
        (kEncryptionTlsHeaderSize + (kEncryptionNonceSize + (plaintext_len + kEncryptionTagSize)))) := by
  have hm := ts.max_frame_payload_le
  unfold encryptionReadAt
  rw [if_neg (Nat.not_lt_of_le h5)]
  dsimp only
  rw [hH, value_encryptionFrameHeader (hp.trans hm), if_neg (by simp [encryptionFrameHeader]),
    if_neg]
  simp only [kEncryptionHardMaxFramePayload, kEncryptionMaxFramePayload, kEncryptionMaxTlsRecordBody,
    kEncryptionNonceSize, kEncryptionTagSize] at hm ⊢
  omega

theorem take_encryptionFrameBytes (nonce : Nonce) (plaintext ys : List UInt8) :
    (encryptionFrameBytes ts nonce plaintext ++ ys).take kEncryptionTlsHeaderSize =
      encryptionFrameHeader plaintext.length := by
  rw [encryptionFrameBytes, List.append_assoc, List.append_assoc,
    List.take_left' (length_encryptionFrameHeader _)]

/-- A record header is the three bytes the receivers check and the body length it carries. -/
theorem eq_header_bytes {header : List UInt8} (h : header.length = kEncryptionTlsHeaderSize) :
    header = [header.getD 0 0, header.getD 1 0, header.getD 2 0] ++
      BigEndian.bytes 2 (BigEndian.value (header.drop 3)) := by
  rcases header with _ | ⟨a, _ | ⟨b, _ | ⟨c, rest⟩⟩⟩
  · simp [kEncryptionTlsHeaderSize] at h
  · simp [kEncryptionTlsHeaderSize] at h
  · simp [kEncryptionTlsHeaderSize] at h
  · have hrest : rest.length = 2 := by
      simp only [List.length_cons, kEncryptionTlsHeaderSize] at h
      omega
    show a :: b :: c :: rest = [a, b, c] ++ BigEndian.bytes 2 (BigEndian.value rest)
    rw [← hrest, BigEndian.bytes_value]
    rfl

/-- **What the receiver reads as a frame has a header a sender writes**: the three fixed bytes
and the body length of a frame of at most `max_frame_payload` bytes, which is the frame's. -/
theorem encryptionReadAt_ok_header {xs frame : List UInt8} (h : encryptionReadAt ts xs = .ok frame) :
    frame.take kEncryptionTlsHeaderSize =
        encryptionFrameHeader (frame.length - kEncryptionFramePrefixSize - kEncryptionTagSize) ∧
      kEncryptionFramePrefixSize + kEncryptionTagSize ≤ frame.length ∧
      frame.length - kEncryptionFramePrefixSize - kEncryptionTagSize ≤ ts.max_frame_payload := by
  unfold encryptionReadAt at h
  dsimp only at h
  split_ifs at h with h5 hhdr hbody hlen
  cases h
  have hH : (xs.take kEncryptionTlsHeaderSize).length = kEncryptionTlsHeaderSize := by
    rw [List.length_take]
    omega
  simp only [not_or, not_not] at hhdr
  obtain ⟨h0, h1, h2⟩ := hhdr
  have hhead := eq_header_bytes hH
  rw [h0, h1, h2] at hhead
  generalize BigEndian.value ((xs.take kEncryptionTlsHeaderSize).drop 3) = body at hhead hbody hlen
  have hframe : (xs.take (kEncryptionTlsHeaderSize + body)).length = kEncryptionTlsHeaderSize + body := by
    rw [List.length_take]
    omega
  -- the header read back is the one written for `body - 28` bytes of plaintext
  have hbody' : kEncryptionNonceSize +
      (kEncryptionTlsHeaderSize + body - kEncryptionFramePrefixSize - kEncryptionTagSize +
        kEncryptionTagSize) = body := by
    simp only [kEncryptionNonceSize, kEncryptionTagSize, kEncryptionFramePrefixSize,
      kEncryptionTlsHeaderSize] at hbody ⊢
    omega
  rw [hframe]
  refine ⟨?_, ?_, ?_⟩
  · rw [List.take_take, Nat.min_eq_left (by omega), encryptionFrameHeader, hbody', ← hhead]
  · simp only [kEncryptionNonceSize, kEncryptionTagSize, kEncryptionFramePrefixSize,
      kEncryptionTlsHeaderSize] at hbody ⊢
    omega
  · simp only [kEncryptionNonceSize, kEncryptionTagSize, kEncryptionFramePrefixSize,
      kEncryptionTlsHeaderSize] at hbody ⊢
    omega

section Laws

variable {ts}
variable (hL : ts.cipher.Laws)
include hL

/-- **A frame is read whole**, whatever follows it. -/
theorem encryptionReadAt_frame {nonce : Nonce} {plaintext : List UInt8}
    (hp : plaintext.length ≤ ts.max_frame_payload) (ys : List UInt8) :
    encryptionReadAt ts (encryptionFrameBytes ts nonce plaintext ++ ys) =
      .ok (encryptionFrameBytes ts nonce plaintext) := by
  have hframe : kEncryptionTlsHeaderSize +
      (kEncryptionNonceSize + (plaintext.length + kEncryptionTagSize)) =
      (encryptionFrameBytes ts nonce plaintext).length := by
    rw [length_encryptionFrameBytes hL, kEncryptionFramePrefixSize]
    omega
  rw [encryptionReadAt_of_header ts hp (take_encryptionFrameBytes ts nonce plaintext ys)
    (by rw [List.length_append]; omega), hframe, if_neg (by rw [List.length_append]; omega),
    List.take_left' rfl]

/-- **While a frame is partly buffered, the receiver waits.** -/
theorem encryptionReadAt_of_prefix {nonce : Nonce} {plaintext q : List UInt8}
    (hp : plaintext.length ≤ ts.max_frame_payload) (hq : q <+: encryptionFrameBytes ts nonce plaintext)
    (hlt : q.length < (encryptionFrameBytes ts nonce plaintext).length) :
    encryptionReadAt ts q = .needMore := by
  by_cases h5 : q.length < kEncryptionTlsHeaderSize
  · unfold encryptionReadAt
    rw [if_pos h5]
  obtain ⟨r, hr⟩ := hq
  -- the header is buffered: it is the frame's
  have hH : q.take kEncryptionTlsHeaderSize = encryptionFrameHeader plaintext.length := by
    have htake := congrArg (List.take kEncryptionTlsHeaderSize) hr
    rw [List.take_append_of_le_length (by omega), ← List.append_nil (encryptionFrameBytes ts _ _),
      take_encryptionFrameBytes ts] at htake
    exact htake
  have hlen := length_encryptionFrameBytes hL nonce plaintext
  rw [encryptionReadAt_of_header ts hp hH (by omega), if_pos]
  simp only [kEncryptionFramePrefixSize] at hlen
  omega

/-- **A frame opens to its plaintext.** -/
theorem encryptionOpenFrame_frame {nonce : Nonce} {plaintext : List UInt8}
    (hp : plaintext.length ≤ ts.max_frame_payload) :
    encryptionOpenFrame ts (encryptionFrameBytes ts nonce plaintext) = some plaintext := by
  have hm := ts.max_frame_payload_le
  have hlen := length_encryptionFrameBytes hL nonce plaintext
  have hct := length_encrypt hL nonce.bytes (encryptionFrameHeader plaintext.length) plaintext
  have hN := nonce.length_bytes
  -- the frame cut into its header, its nonce and its ciphertext
  have hfb : encryptionFrameBytes ts nonce plaintext = encryptionFrameHeader plaintext.length ++
      (nonce.bytes ++ ts.cipher.encrypt ts.key nonce.bytes
        (encryptionFrameHeader plaintext.length) plaintext) := by
    rw [encryptionFrameBytes, List.append_assoc]
  have hbody : ((encryptionFrameBytes ts nonce plaintext).drop 3).take 2 =
      (encryptionFrameHeader plaintext.length).drop 3 := by
    rw [hfb, List.drop_append_of_le_length (by simp [kEncryptionTlsHeaderSize]),
      List.take_left' (by simp [kEncryptionTlsHeaderSize])]
  have hprefix : (encryptionFrameBytes ts nonce plaintext).drop kEncryptionFramePrefixSize =
      ts.cipher.encrypt ts.key nonce.bytes (encryptionFrameHeader plaintext.length) plaintext := by
    rw [encryptionFrameBytes, List.drop_left' (by simp [hN, kEncryptionFramePrefixSize])]
  have hnonce : ((encryptionFrameBytes ts nonce plaintext).drop kEncryptionTlsHeaderSize).take
      kEncryptionNonceSize = nonce.bytes := by
    rw [hfb, List.drop_left' (length_encryptionFrameHeader _), List.take_left' hN]
  have hheader : (encryptionFrameBytes ts nonce plaintext).take kEncryptionTlsHeaderSize =
      encryptionFrameHeader plaintext.length := by
    simpa using take_encryptionFrameBytes ts nonce plaintext []
  unfold encryptionOpenFrame
  dsimp only
  rw [hbody, value_encryptionFrameHeader (hp.trans hm), hprefix, List.take_of_length_le
    (by rw [hct]; omega), hheader, hnonce]
  -- the cipher's size checks pass, and the ciphertext opens
  have hbound : plaintext.length ≤ kEncryptionMaxFramePayload := hp.trans hm
  simp only [kEncryptionMaxFramePayload, kEncryptionMaxTlsRecordBody, kEncryptionNonceSize,
    kEncryptionTagSize, kEncryptionFramePrefixSize, kEncryptionTlsHeaderSize] at hbound hct hlen
  rw [encryptionDecryptAead_eq ts (by rw [hct]; simp only [WCRYPTO_AEAD_MAX_INPUT_SIZE]; omega)
      (by simp [WCRYPTO_AEAD_MAX_INPUT_SIZE, kEncryptionTlsHeaderSize])
      (by rw [hct]; simp only [WCRYPTO_AEAD_TAG_SIZE]; omega)
      (by rw [hct, hlen]; simp only [WCRYPTO_AEAD_TAG_SIZE, kEncryptionFramePrefixSize,
        kEncryptionTlsHeaderSize, kEncryptionNonceSize]; omega),
    hL.decrypt_encrypt, Option.map_some,
    drop_overwrite (by rw [hlen]; simp only [kEncryptionFramePrefixSize, kEncryptionTlsHeaderSize,
      kEncryptionNonceSize]; omega),
    List.take_left' (by simp only [kEncryptionNonceSize, kEncryptionTagSize]; omega)]

/-- **Frames decode one by one**: on an open line, frames of at most `max_frame_payload` bytes
each are an honest input of the receiver, each passing on its plaintext. -/
theorem encryptionDecoder_parses (frames : List (Nonce × List UInt8))
    (h : ∀ f ∈ frames, f.2.length ≤ ts.max_frame_payload) :
    (encryptionDecoder ts).Parses true
      (frames.map fun f => (encryptionFrameBytes ts f.1 f.2, [f.2])) true := by
  induction frames with
  | nil => exact .nil true
  | cons f frames ih =>
    have hp := h f List.mem_cons_self
    refine .cons (fun ys => ?_) (fun q hq hlt => ?_)
      (ih fun f' hf' => h f' (List.mem_cons_of_mem f hf'))
    · -- the frame is read and opened, whatever follows it
      rw [encryptionDecoder_step_true, encryptionReadAt_frame hL hp]
      dsimp only
      rw [encryptionOpenFrame_frame hL hp]
    · -- part of it: the receiver waits
      rw [encryptionDecoder_step_true, encryptionReadAt_of_prefix hL hp hq hlt]

/-- **Frames are received whole**: frames of at most `max_frame_payload` bytes, delivered to an
open line in any chunks, are passed on plaintext by plaintext; the line stays open, so the
overflow check never closes it, and nothing is left buffered. -/
theorem encryptionReceive_frames (frames : List (Nonce × List UInt8))
    (h : ∀ f ∈ frames, f.2.length ≤ ts.max_frame_payload) (cs : List (List UInt8))
    (hcs : cs.flatten = (frames.map fun f => encryptionFrameBytes ts f.1 f.2).flatten)
    (hmax : ∀ c ∈ cs, c.length +
      (ts.max_frame_payload + kEncryptionTagSize + kEncryptionFramePrefixSize) ≤ UINT32_MAX) :
    ∃ bs, encryptionReceive (encryptionTunnelPayload ts) (some bufferstreamCreate) cs =
      some (frames.map Prod.snd, some bs) ∧ bs.content = [] := by
  have hfeed := Decoder.feed_of_parses (encryptionDecoder_parses hL frames h)
    (hcs.trans (Decoder.input_map (fun f : Nonce × List UInt8 => encryptionFrameBytes ts f.1 f.2)
      (fun f => [f.2]) frames).symm)
  obtain ⟨bs, hrec, hc⟩ := encryptionReceive_eq ts cs hmax bufferstreamCreate
    (by rw [content_bufferstreamCreate]; exact Decoder.step_nil _ true)
  rw [content_bufferstreamCreate, hfeed] at hrec hc
  dsimp only at hrec hc
  rw [Decoder.output_map_singleton, if_pos rfl] at hrec
  exact ⟨bs, hrec, hc⟩

/-- **Under an ideal cipher only a sender's frames open.**  A frame the receiver reads and opens
is the header, a nonce and the encryption of what it opens to, as a sender writes them. -/
theorem encryptionOpenFrame_sound (hI : ts.cipher.Ideal) {xs frame plaintext : List UInt8}
    (hread : encryptionReadAt ts xs = .ok frame) (h : encryptionOpenFrame ts frame = some plaintext) :
    ∃ nonce, frame = encryptionFrameBytes ts nonce plaintext ∧
      plaintext.length ≤ ts.max_frame_payload := by
  obtain ⟨hH, hge, hle⟩ := encryptionReadAt_ok_header ts hread
  have hm := ts.max_frame_payload_le
  generalize hn : frame.length - kEncryptionFramePrefixSize - kEncryptionTagSize = n at hH hle
  simp only [kEncryptionHardMaxFramePayload, kEncryptionMaxFramePayload,
    kEncryptionMaxTlsRecordBody, kEncryptionNonceSize, kEncryptionTagSize,
    kEncryptionFramePrefixSize, kEncryptionTlsHeaderSize] at hn hge hm
  -- the body length read back is the header's
  have hbody : BigEndian.value ((frame.drop 3).take 2) =
      kEncryptionNonceSize + (n + kEncryptionTagSize) := by
    have hswap : (frame.drop 3).take 2 = (frame.take kEncryptionTlsHeaderSize).drop 3 := by
      rw [List.drop_take]
      rfl
    rw [hswap, hH, value_encryptionFrameHeader (by simp only [kEncryptionMaxFramePayload,
      kEncryptionMaxTlsRecordBody, kEncryptionNonceSize, kEncryptionTagSize]; omega)]
  -- the ciphertext is the rest of the frame
  have hct : (frame.drop kEncryptionFramePrefixSize).take
      (kEncryptionNonceSize + (n + kEncryptionTagSize) - kEncryptionNonceSize) =
      frame.drop kEncryptionFramePrefixSize := by
    rw [List.take_of_length_le]
    simp only [List.length_drop, kEncryptionNonceSize, kEncryptionTagSize,
      kEncryptionFramePrefixSize, kEncryptionTlsHeaderSize]
    omega
  unfold encryptionOpenFrame at h
  dsimp only at h
  rw [hbody, hct, hH] at h
  obtain ⟨p, hdec, hp⟩ := Option.map_eq_some_iff.1 h
  have hdec' := decrypt_of_encryptionDecryptAead ts hdec
  have henc := hI _ _ _ _ _ hdec'
  have hlen := hL.length_decrypt hdec'
  rw [ts.tag_size, List.length_drop] at hlen
  simp only [WCRYPTO_AEAD_TAG_SIZE, kEncryptionFramePrefixSize, kEncryptionTlsHeaderSize,
    kEncryptionNonceSize] at hlen
  -- what is passed on is the plaintext the cipher returned
  rw [drop_overwrite (by simp only [kEncryptionFramePrefixSize, kEncryptionTlsHeaderSize,
      kEncryptionNonceSize]; omega),
    List.take_left' (by simp only [kEncryptionNonceSize, kEncryptionTagSize]; omega)] at hp
  subst hp
  have hpn : p.length = n := by omega
  refine ⟨⟨(frame.drop kEncryptionTlsHeaderSize).take kEncryptionNonceSize, ?_⟩, ?_, by omega⟩
  · rw [List.length_take, List.length_drop]
    simp only [kEncryptionNonceSize, kEncryptionTlsHeaderSize]
    omega
  · -- the frame cut into its header, its nonce and its ciphertext
    calc frame = frame.take kEncryptionTlsHeaderSize ++
          ((frame.drop kEncryptionTlsHeaderSize).take kEncryptionNonceSize ++
            (frame.drop kEncryptionTlsHeaderSize).drop kEncryptionNonceSize) := by
          rw [List.take_append_drop, List.take_append_drop]
      _ = _ := by
          rw [List.drop_drop, hH, encryptionFrameBytes, hpn]
          dsimp only
          rw [← henc, List.append_assoc]
          rfl

/-- A step that keeps the line open reads a frame a sender wrote and passes on its plaintext. -/
theorem encryptionDecoder_step_sound (hI : ts.cipher.Ideal) {xs : List UInt8}
    {out : List (List UInt8)} {n : Nat} (h : (encryptionDecoder ts).step true xs = some (true, out, n)) :
    ∃ nonce plaintext, out = [plaintext] ∧ xs.take n = encryptionFrameBytes ts nonce plaintext ∧
      plaintext.length ≤ ts.max_frame_payload := by
  rw [encryptionDecoder_step_true] at h
  cases hr : encryptionReadAt ts xs with
  | needMore => rw [hr] at h; cases h
  | invalid => rw [hr] at h; cases h
  | ok frame =>
    rw [hr] at h
    dsimp only at h
    cases ho : encryptionOpenFrame ts frame with
    | none => rw [ho] at h; cases h
    | some p =>
      rw [ho] at h
      cases h
      obtain ⟨nonce, hf, hp⟩ := encryptionOpenFrame_sound hL hI hr ho
      exact ⟨nonce, p, rfl, by rw [← (encryptionReadAt_ok ts hr).1, hf], hp⟩

/-- **Everything a receiver passes on is the plaintext of a sender's frame**, and those frames
lie back to back at the front of what its steps consumed.  By induction on the trace: a step
that keeps the line open contributes one frame, and one that closes it contributes nothing and
ends the trace, since a closed line decodes nothing. -/
theorem encryptionDecoder_trace_sound (hI : ts.cipher.Ideal) {segs : List (List UInt8 × List (List UInt8))}
    {t : Bool} (h : (encryptionDecoder ts).Trace true segs t) :
    ∃ frames : List (Nonce × List UInt8), Decoder.output segs = frames.map Prod.snd ∧
      (frames.map fun f => encryptionFrameBytes ts f.1 f.2).flatten <+: Decoder.input segs ∧
      ∀ f ∈ frames, f.2.length ≤ ts.max_frame_payload := by
  generalize hs : true = s at h
  induction h with
  | nil => exact ⟨[], rfl, List.nil_prefix, by simp⟩
  | @cons s s₁ t seg out rest ys hstep hrest ih =>
    subst hs
    cases s₁ with
    | true =>
      obtain ⟨nonce, p, rfl, hseg, hp⟩ := encryptionDecoder_step_sound hL hI hstep
      rw [List.take_left' rfl] at hseg
      subst hseg
      obtain ⟨frames, hout, hpre, hle⟩ := ih rfl
      refine ⟨(nonce, p) :: frames, by rw [Decoder.output_cons, hout]; rfl, ?_, ?_⟩
      · rw [Decoder.input_cons, List.map_cons, List.flatten_cons]
        exact (List.prefix_append_right_inj _).2 hpre
      · rintro f (_ | ⟨_, hf⟩)
        · exact hp
        · exact hle f hf
    | false =>
      -- the line closed: this step emitted nothing, and no step follows
      have hnil := encryptionDecoder_step_close ts hstep
      cases hrest with
      | nil => exact ⟨[], by rw [hnil]; rfl, List.nil_prefix, by simp⟩
      | cons _ hstep' _ => cases hstep'

/-- **Whatever it is given, a receiver passes on only the plaintexts of frames a sender wrote,
lying back to back at the front of its input**: nothing beyond the longest prefix of the input
that is a run of valid frames. -/
theorem encryptionReceive_sound (hI : ts.cipher.Ideal) (cs : List (List UInt8))
    (hmax : ∀ c ∈ cs, c.length +
      (ts.max_frame_payload + kEncryptionTagSize + kEncryptionFramePrefixSize) ≤ UINT32_MAX) :
    ∃ frames : List (Nonce × List UInt8), ∃ r,
      encryptionReceive (encryptionTunnelPayload ts) (some bufferstreamCreate) cs =
        some (frames.map Prod.snd, r) ∧
      (frames.map fun f => encryptionFrameBytes ts f.1 f.2).flatten <+: cs.flatten ∧
      ∀ f ∈ frames, f.2.length ≤ ts.max_frame_payload := by
  obtain ⟨bs, hrec, -⟩ := encryptionReceive_eq ts cs hmax bufferstreamCreate
    (by rw [content_bufferstreamCreate]; exact Decoder.step_nil _ true)
  obtain ⟨segs, htr, hin, hout⟩ := (encryptionDecoder ts).feed_trace true
    bufferstreamCreate.content cs
  obtain ⟨frames, hf, hpre, hle⟩ := encryptionDecoder_trace_sound hL hI htr
  rw [content_bufferstreamCreate, List.nil_append] at hin
  refine ⟨frames, _, by rw [hrec, hout, hf], hpre.trans ⟨_, hin.symm⟩, hle⟩

end Laws


/-! ## Both directions of a tunnel -/

/-- A tunnel over the tagged cipher, with frames of up to `kEncryptionMaxFramePayload` bytes. -/
def encryptionTaggedTstate : EncryptionTstate Unit where
  cipher := Aead.tagged (List.replicate 16 0)
  tag_size := rfl
  key := ()
  max_frame_payload := kEncryptionMaxFramePayload
  max_frame_payload_pos := by decide
  max_frame_payload_le := Nat.le_refl _

end Encryption
end WaterWall
