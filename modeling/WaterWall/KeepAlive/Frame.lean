import WaterWall.Bufio.StreamReader
import WaterWall.Bytes.BigEndian

/-!
# KeepAlive framing

KeepAliveClient and KeepAliveServer put every payload of a line into frames, so that they can add
their own Ping and Pong frames to the stream: a frame is a big-endian 16-bit body length, a kind
byte (Normal, Ping or Pong, counted in the body length) and the payload.  The two tunnels run the
same code in opposite directions, so each function is modelled once and the members of each side
are that function.

* The reader `keepaliveConsumeOneFrame` depends only on the buffered bytes
  (`keepaliveConsumeOneFrame_eq`), which gives the decoder `keepaliveDecoder`; receiving is that
  decoder behind the overflow guard of `keepaliveConsumeFrames` (`keepaliveReceive_eq`).
* The sender frames a payload in place, or cut into pieces of `kKeepAliveMaxPayloadChunkSize`
  bytes (`keepaliveSendNormalFrame_eq`).
* `keepaliveReceive_keepaliveSend`: whatever the sender writes is read back as the payload pieces
  and one Pong per Ping, in any deliveries of at most `kKeepAliveMaxFrameLength` bytes.  The guard
  runs before the stream is read, so a delivery holding more than `kKeepAliveReadOverflowLimit`
  bytes of whole frames is thrown away (`keepaliveTunnelPayload_of_overflow`); a single payload of
  131072 bytes already goes out as 131081.
-/

set_option autoImplicit false

namespace WaterWall
namespace KeepAlive

open Incremental

def kKeepAliveFrameLengthSize : Nat := 2

def kKeepAliveFrameTypeSize : Nat := 1

def kKeepAliveFramePrefixSize : Nat := kKeepAliveFrameLengthSize + kKeepAliveFrameTypeSize

def kKeepAliveMaxPayloadChunkSize : Nat := UINT16_MAX - 1

def kKeepAliveReadOverflowLimit : Nat := 131074

def kKeepAliveFrameKindNormal : UInt8 := 1

def kKeepAliveFrameKindPing : UInt8 := 2

def kKeepAliveFrameKindPong : UInt8 := 3

def kMaxAllowedPacketLength : Nat := 1500

/-- The longest frame the senders write: a full piece behind its prefix. -/
def kKeepAliveMaxFrameLength : Nat := kKeepAliveMaxPayloadChunkSize + kKeepAliveFramePrefixSize

/-! ## Reading frames -/

/-- What handling a frame does besides consuming it. -/
inductive FrameAction where
  /-- A payload passed on along the line. -/
  | payload (p : List UInt8)
  /-- A Pong frame sent back. -/
  | pong
  deriving DecidableEq, Repr

/-- The `switch` on the kind of a complete frame: a Normal frame passes its payload on unless it
is empty, a Ping is answered with a Pong, and a Pong or an unknown kind is dropped. -/
def frameActions (frame_kind : UInt8) (payload_len : Nat) (payload : List UInt8) :
    List FrameAction :=
  if frame_kind = kKeepAliveFrameKindNormal then
    if payload_len = 0 then [] else [.payload payload]
  else if frame_kind = kKeepAliveFrameKindPing then [.pong]
  else []

/-- The frame reader of both sides (`keepaliveclientConsumeOneFrame`,
`keepaliveserverConsumeOneFrame`), with the line staying alive: `some (none, _)` is `NeedMore`,
`some (some actions, _)` is `Continue` after a frame.  A body length too short for the kind byte
empties the stream. -/
def keepaliveConsumeOneFrame (read_stream : BufferStream) :
    Option (Option (List FrameAction) × BufferStream) :=
  if bufferstreamGetBufLen read_stream < kKeepAliveFramePrefixSize then some (none, read_stream)
  else
    match bufferstreamViewBytesAt read_stream 0 kKeepAliveFrameLengthSize with
    | none => none
    | some header =>
      let frame_body_len := BigEndian.value header
      if frame_body_len < kKeepAliveFrameTypeSize then
        some (none, bufferstreamEmpty read_stream)
      else if frame_body_len + kKeepAliveFrameLengthSize > bufferstreamGetBufLen read_stream then
        some (none, read_stream)
      else
        match bufferstreamReadExact read_stream (kKeepAliveFrameLengthSize + frame_body_len) with
        | none => none
        | some (frame, read_stream') =>
          let frame := frame.drop kKeepAliveFrameLengthSize
          let frame_kind := frame.getD 0 0
          let payload_len := frame_body_len - kKeepAliveFrameTypeSize
          some (some (frameActions frame_kind payload_len (frame.drop kKeepAliveFrameTypeSize)),
            read_stream')

def keepaliveclientConsumeOneFrame (read_stream : BufferStream) :
    Option (Option (List FrameAction) × BufferStream) :=
  keepaliveConsumeOneFrame read_stream

def keepaliveserverConsumeOneFrame (read_stream : BufferStream) :
    Option (Option (List FrameAction) × BufferStream) :=
  keepaliveConsumeOneFrame read_stream

/-- What `keepaliveConsumeOneFrame` finds at the front of the buffered bytes: wait (`none`), or
consume `n` bytes with what handling them does, `none` for a body length it rejects (which
discards everything buffered). -/
def keepaliveFrameAt (xs : List UInt8) : Option (Option (List FrameAction) × Nat) :=
  if xs.length < kKeepAliveFramePrefixSize then none
  else
    let frame_body_len := BigEndian.value (xs.take kKeepAliveFrameLengthSize)
    if frame_body_len < kKeepAliveFrameTypeSize then some (none, xs.length)
    else if frame_body_len + kKeepAliveFrameLengthSize > xs.length then none
    else
      let frame := (xs.take (kKeepAliveFrameLengthSize + frame_body_len)).drop kKeepAliveFrameLengthSize
      some (some (frameActions (frame.getD 0 0) (frame_body_len - kKeepAliveFrameTypeSize)
          (frame.drop kKeepAliveFrameTypeSize)),
        kKeepAliveFrameLengthSize + frame_body_len)

theorem keepaliveFrameAt_spec {xs : List UInt8} {r : Option (List FrameAction) × Nat}
    (h : keepaliveFrameAt xs = some r) : 0 < r.2 ∧ r.2 ≤ xs.length ∧ (r.1 = none → r.2 = xs.length) := by
  unfold keepaliveFrameAt at h
  by_cases h3 : xs.length < kKeepAliveFramePrefixSize
  · rw [if_pos h3] at h
    cases h
  rw [if_neg h3] at h
  dsimp only at h
  by_cases h1 : BigEndian.value (xs.take kKeepAliveFrameLengthSize) < kKeepAliveFrameTypeSize
  · -- a rejected length consumes everything
    rw [if_pos h1] at h
    cases h
    simp only [kKeepAliveFramePrefixSize, kKeepAliveFrameLengthSize, kKeepAliveFrameTypeSize] at h3
    exact ⟨by omega, le_refl _, fun _ => rfl⟩
  rw [if_neg h1] at h
  by_cases h2 : BigEndian.value (xs.take kKeepAliveFrameLengthSize) + kKeepAliveFrameLengthSize >
      xs.length
  · rw [if_pos h2] at h
    cases h
  rw [if_neg h2] at h
  cases h
  simp only [kKeepAliveFrameLengthSize, kKeepAliveFrameTypeSize] at h1 h2 ⊢
  exact ⟨by omega, by omega, fun h => by cases h⟩

/-- The reader as a decoder of the buffered bytes: one frame's actions per frame, and nothing for
the bytes a rejected length throws away. -/
def keepaliveDecoder : Decoder Unit UInt8 (List FrameAction) where
  step _ xs := (keepaliveFrameAt xs).map fun r => ((), r.1.toList, r.2)
  consumes := by
    intro s xs s' out n h
    simp only [Option.map_eq_some_iff, Prod.mk.injEq] at h
    obtain ⟨r, hr, -, -, rfl⟩ := h
    exact ⟨(keepaliveFrameAt_spec hr).1, (keepaliveFrameAt_spec hr).2.1⟩

/-- **`keepaliveConsumeOneFrame` depends only on the buffered bytes.**  It never aborts; it waits
leaving the stream alone, empties the stream on a length `keepaliveFrameAt` rejects, or removes
exactly the frame `keepaliveFrameAt` finds. -/
theorem keepaliveConsumeOneFrame_eq (bs : BufferStream) :
    (keepaliveFrameAt bs.content = none ∧ keepaliveConsumeOneFrame bs = some (none, bs)) ∨
    (keepaliveFrameAt bs.content = some (none, bs.content.length) ∧
      keepaliveConsumeOneFrame bs = some (none, bufferstreamEmpty bs)) ∨
    ∃ acts n bs', keepaliveFrameAt bs.content = some (some acts, n) ∧
      keepaliveConsumeOneFrame bs = some (some acts, bs') ∧ bs'.content = bs.content.drop n := by
  have hsize := bs.size_eq_length
  by_cases h3 : bs.size < kKeepAliveFramePrefixSize
  · left
    exact ⟨by rw [keepaliveFrameAt, ← hsize, if_pos h3],
      by rw [keepaliveConsumeOneFrame, if_pos (show bufferstreamGetBufLen bs < _ from h3)]⟩
  have hview : bufferstreamViewBytesAt bs 0 kKeepAliveFrameLengthSize =
      some (bs.content.take kKeepAliveFrameLengthSize) := by
    rw [bufferstreamViewBytesAt_eq (by decide) (by simp only [kKeepAliveFramePrefixSize] at h3; omega)]
    rfl
  -- the body length, as both read it
  generalize hbody : BigEndian.value (bs.content.take kKeepAliveFrameLengthSize) = body
  have hread_pre : keepaliveConsumeOneFrame bs =
      if body < kKeepAliveFrameTypeSize then some (none, bufferstreamEmpty bs)
      else if body + kKeepAliveFrameLengthSize > bs.size then some (none, bs)
      else
        match bufferstreamReadExact bs (kKeepAliveFrameLengthSize + body) with
        | none => none
        | some (frame, read_stream') =>
          some (some (frameActions ((frame.drop kKeepAliveFrameLengthSize).getD 0 0)
            (body - kKeepAliveFrameTypeSize)
            ((frame.drop kKeepAliveFrameLengthSize).drop kKeepAliveFrameTypeSize)), read_stream') := by
    rw [keepaliveConsumeOneFrame, if_neg (show ¬bufferstreamGetBufLen bs < _ from h3), hview]
    simp only [hbody]
    rfl
  have hat_pre : keepaliveFrameAt bs.content =
      if body < kKeepAliveFrameTypeSize then some (none, bs.content.length)
      else if body + kKeepAliveFrameLengthSize > bs.content.length then none
      else
        some (some (frameActions
            (((bs.content.take (kKeepAliveFrameLengthSize + body)).drop kKeepAliveFrameLengthSize).getD 0 0)
            (body - kKeepAliveFrameTypeSize)
            (((bs.content.take (kKeepAliveFrameLengthSize + body)).drop
              kKeepAliveFrameLengthSize).drop kKeepAliveFrameTypeSize)),
          kKeepAliveFrameLengthSize + body) := by
    rw [keepaliveFrameAt, ← hsize, if_neg h3]
    simp only [hbody]
  by_cases h1 : body < kKeepAliveFrameTypeSize
  · -- a length too short for the kind byte: everything buffered is dropped
    right; left
    rw [hread_pre, hat_pre, if_pos h1, if_pos h1]
    exact ⟨rfl, rfl⟩
  by_cases h2 : body + kKeepAliveFrameLengthSize > bs.size
  · left
    rw [hread_pre, hat_pre, if_neg h1, if_neg h1, if_pos h2, ← hsize, if_pos h2]
    exact ⟨rfl, rfl⟩
  -- a whole frame is buffered: it is read off the front
  right; right
  have hlt : body < 256 ^ 2 := by
    have hv := BigEndian.value_lt (bs.content.take kKeepAliveFrameLengthSize)
    have hl : (bs.content.take kKeepAliveFrameLengthSize).length ≤ 2 := by
      simp [kKeepAliveFrameLengthSize]
    have hp : 256 ^ (bs.content.take kKeepAliveFrameLengthSize).length ≤ 256 ^ 2 :=
      Nat.pow_le_pow_right (by decide) hl
    omega
  obtain ⟨bs', hread, hc, -⟩ := bufferstreamReadExact_eq
    (show 0 < kKeepAliveFrameLengthSize + body by simp [kKeepAliveFrameLengthSize])
    (show kKeepAliveFrameLengthSize + body ≤ bs.size by omega)
    (by simp only [kKeepAliveFrameLengthSize, UINT32_MAX]; omega)
  rw [hat_pre, if_neg h1, ← hsize, if_neg h2, hread_pre, if_neg h1, if_neg h2, hread]
  exact ⟨_, _, bs', rfl, rfl, hc⟩

theorem size_lt_of_keepaliveConsumeOneFrame {bs bs' : BufferStream} {acts : List FrameAction}
    (h : keepaliveConsumeOneFrame bs = some (some acts, bs')) : bs'.size < bs.size := by
  rcases keepaliveConsumeOneFrame_eq bs with ⟨-, h'⟩ | ⟨-, h'⟩ | ⟨acts', n, bs'', hat, h', hc⟩
  · rw [h'] at h
    cases h
  · rw [h'] at h
    cases h
  · rw [h'] at h
    cases h
    obtain ⟨hpos, hle, -⟩ := keepaliveFrameAt_spec hat
    rw [bs'.size_eq_length, bs.size_eq_length, hc, List.length_drop]
    dsimp only at hpos hle
    omega

/-- `keepaliveConsumeOneFrame`, as the reader of the consume loop. -/
def keepaliveReader : StreamReader (List FrameAction) where
  read := keepaliveConsumeOneFrame
  shrinks := size_lt_of_keepaliveConsumeOneFrame

/-- Each call of the reader is a run of `keepaliveDecoder`: a wait, the step that throws
everything away, or one frame. -/
theorem keepaliveReader_refines : keepaliveReader.Refines keepaliveDecoder := by
  intro bs
  rcases keepaliveConsumeOneFrame_eq bs with ⟨hat, hread⟩ | ⟨hat, hread⟩ |
    ⟨acts, n, bs', hat, hread, hc⟩
  · have hstep : keepaliveDecoder.step () bs.content = none := by
      simp [keepaliveDecoder, hat]
    exact ⟨none, bs, hread, by rw [keepaliveDecoder.drain_of_step_none hstep],
      by rw [keepaliveDecoder.drain_of_step_none hstep]⟩
  · -- the rejected bytes are consumed with nothing emitted, and nothing is left to decode
    have hstep : keepaliveDecoder.step () bs.content = some ((), [], bs.content.length) := by
      simp [keepaliveDecoder, hat]
    have hdrain : keepaliveDecoder.drain () bs.content = ((), [], []) := by
      rw [keepaliveDecoder.drain_of_step_some hstep, List.drop_length, Decoder.drain_nil]
      rfl
    exact ⟨none, bufferstreamEmpty bs, hread, by rw [hdrain], by rw [hdrain]; rfl⟩
  · have hstep : keepaliveDecoder.step () bs.content = some ((), [acts], n) := by
      simp [keepaliveDecoder, hat]
    refine ⟨some acts, bs', hread, ?_, ?_⟩
    · rw [keepaliveDecoder.drain_of_step_some hstep, hc]
      rfl
    · rw [keepaliveDecoder.drain_of_step_some hstep, hc]

/-! ## Receiving -/

/-- The consume loop of both sides (`keepaliveclientConsumeDownstreamFrames`,
`keepaliveserverConsumeUpstreamFrames`): a stream of more than `kKeepAliveReadOverflowLimit`
bytes is emptied without being read; otherwise frames are read until one more is needed. -/
def keepaliveConsumeFrames (read_stream : BufferStream) : Option (List FrameAction × BufferStream) :=
  if bufferstreamGetBufLen read_stream > kKeepAliveReadOverflowLimit then
    some ([], bufferstreamEmpty read_stream)
  else (keepaliveReader.drain read_stream).map fun r => (r.1.flatten, r.2)

def keepaliveclientConsumeDownstreamFrames (read_stream : BufferStream) :
    Option (List FrameAction × BufferStream) :=
  keepaliveConsumeFrames read_stream

def keepaliveserverConsumeUpstreamFrames (read_stream : BufferStream) :
    Option (List FrameAction × BufferStream) :=
  keepaliveConsumeFrames read_stream

/-- A payload from the peer, on either side: pushed onto `read_stream`, then the frames consumed. -/
def keepaliveTunnelPayload (read_stream : BufferStream) (buf : List UInt8) :
    Option (List FrameAction × BufferStream) :=
  (bufferstreamPush read_stream buf).bind keepaliveConsumeFrames

def keepaliveserverTunnelUpStreamPayload (read_stream : BufferStream) (buf : List UInt8) :
    Option (List FrameAction × BufferStream) :=
  (bufferstreamPush read_stream buf).bind keepaliveserverConsumeUpstreamFrames

def keepaliveclientTunnelDownStreamPayload (read_stream : BufferStream) (buf : List UInt8) :
    Option (List FrameAction × BufferStream) :=
  (bufferstreamPush read_stream buf).bind keepaliveclientConsumeDownstreamFrames

theorem keepaliveserverTunnelUpStreamPayload_eq :
    keepaliveserverTunnelUpStreamPayload = keepaliveTunnelPayload := rfl

theorem keepaliveclientTunnelDownStreamPayload_eq :
    keepaliveclientTunnelDownStreamPayload = keepaliveTunnelPayload := rfl

/-- Deliveries to a payload handler, one after the other: everything it does, in order, and the
stream it leaves. -/
def keepaliveReceive (handle : BufferStream → List UInt8 → Option (List FrameAction × BufferStream)) :
    BufferStream → List (List UInt8) → Option (List FrameAction × BufferStream)
  | bs, [] => some ([], bs)
  | bs, c :: cs =>
    (handle bs c).bind fun r => (keepaliveReceive handle r.2 cs).map fun r' => (r.1 ++ r'.1, r'.2)

/-- **Receiving is decoding behind the guard.**  As long as the stream stays within the 32-bit
limit, a run of deliveries does what `keepaliveDecoder` emits when fed them behind an overflow
guard of `kKeepAliveReadOverflowLimit` bytes. -/
theorem keepaliveReceive_eq (cs : List (List UInt8)) :
    ∀ bs : BufferStream, bs.size + cs.flatten.length ≤ UINT32_MAX →
      ∃ bs', keepaliveReceive keepaliveTunnelPayload bs cs =
          some ((keepaliveDecoder.feedGuarded kKeepAliveReadOverflowLimit () bs.content cs).2.1.flatten,
            bs') ∧
        bs'.content = (keepaliveDecoder.feedGuarded kKeepAliveReadOverflowLimit () bs.content cs).2.2 := by
  induction cs with
  | nil => intro bs _; exact ⟨bs, rfl, rfl⟩
  | cons c cs ih =>
    intro bs hle
    simp only [List.flatten_cons, List.length_append] at hle
    obtain ⟨bs₁, hpush, hc₁, hs₁⟩ :=
      bufferstreamPush_some (show bs.size + c.length ≤ UINT32_MAX by omega)
    have hlen₁ : bufferstreamGetBufLen bs₁ = (bs.content ++ c).length := by
      rw [bufferstreamGetBufLen, bs₁.size_eq_length, hc₁]
    by_cases hover : kKeepAliveReadOverflowLimit < (bs.content ++ c).length
    · -- the guard fires: everything buffered is thrown away unread
      have hconsume : keepaliveConsumeFrames bs₁ = some ([], bufferstreamEmpty bs₁) := by
        rw [keepaliveConsumeFrames, if_pos (show bufferstreamGetBufLen bs₁ > _ by rw [hlen₁]; exact hover)]
      obtain ⟨bs₃, hrec, hc₃⟩ := ih (bufferstreamEmpty bs₁) (by
        show 0 + cs.flatten.length ≤ UINT32_MAX
        omega)
      rw [Decoder.feedGuarded_cons_of_lt hover]
      refine ⟨bs₃, ?_, hc₃⟩
      rw [keepaliveReceive, keepaliveTunnelPayload, hpush, Option.bind_some, hconsume,
        Option.bind_some, hrec]
      rfl
    · -- the guard lets the stream through: it is drained
      have hconsume : keepaliveConsumeFrames bs₁ =
          (keepaliveReader.drain bs₁).map fun r => (r.1.flatten, r.2) := by
        rw [keepaliveConsumeFrames, if_neg (show ¬bufferstreamGetBufLen bs₁ > _ by rw [hlen₁]; exact hover)]
      obtain ⟨bs₂, hdrain, hc₂⟩ := StreamReader.drain_eq keepaliveReader_refines bs₁
      rw [hc₁] at hdrain hc₂
      have hle₂ : bs₂.size + cs.flatten.length ≤ UINT32_MAX := by
        have hsuf := Decoder.length_drain_rest_le keepaliveDecoder () (bs.content ++ c)
        rw [bs₂.size_eq_length, hc₂]
        rw [bs.size_eq_length] at hle
        simp only [List.length_append] at hsuf
        omega
      obtain ⟨bs₃, hrec, hc₃⟩ := ih bs₂ hle₂
      rw [Decoder.feedGuarded_cons_of_le (Nat.le_of_not_lt hover)]
      refine ⟨bs₃, ?_, by rw [hc₃, hc₂]⟩
      rw [keepaliveReceive, keepaliveTunnelPayload, hpush, Option.bind_some, hconsume, hdrain,
        Option.map_some, Option.bind_some, hrec, hc₂]
      simp [List.flatten_append]

/-- **The guard does not look at what is buffered**: a delivery that takes the stream past
`kKeepAliveReadOverflowLimit` bytes empties it unread, whole frames included. -/
theorem keepaliveTunnelPayload_of_overflow {bs : BufferStream} {buf : List UInt8}
    (hmax : bs.size + buf.length ≤ UINT32_MAX)
    (hover : kKeepAliveReadOverflowLimit < bs.size + buf.length) :
    keepaliveTunnelPayload bs buf = some ([], bufferstreamCreate) := by
  obtain ⟨bs₁, hpush, -, hs₁⟩ := bufferstreamPush_some hmax
  have hlen : bufferstreamGetBufLen bs₁ > kKeepAliveReadOverflowLimit := by
    rw [bufferstreamGetBufLen, hs₁]
    exact hover
  rw [keepaliveTunnelPayload, hpush, Option.bind_some, keepaliveConsumeFrames, if_pos hlen]
  rfl

/-! ## Sending -/

/-- A frame on the wire: the body length (the kind byte and the payload) in network order, the
kind, and the payload. -/
def keepaliveFrameBytes (frame_kind : UInt8) (payload : List UInt8) : List UInt8 :=
  BigEndian.bytes kKeepAliveFrameLengthSize (payload.length + kKeepAliveFrameTypeSize) ++
    [frame_kind] ++ payload

@[simp] theorem length_keepaliveFrameBytes (frame_kind : UInt8) (payload : List UInt8) :
    (keepaliveFrameBytes frame_kind payload).length = payload.length + kKeepAliveFramePrefixSize := by
  simp only [keepaliveFrameBytes, List.length_append, BigEndian.length_bytes, List.length_singleton,
    kKeepAliveFramePrefixSize, kKeepAliveFrameLengthSize, kKeepAliveFrameTypeSize]
  omega

/-- The frame sender of both sides (`keepaliveclientSendFrameNext`,
`keepaliveserverSendFramePrev`), on a target with a `w`-bit `size_t`: the header is written into
the buffer's left padding and the frame sent on.  The result is what is sent, `[]` for a frame
that is dropped; `none` is an abort. -/
def keepaliveSendFrame (w : Nat) (is_packet_line : Bool) (buf : SBuf) (frame_kind : UInt8)
    (payload_len : Nat) : Option (List (List UInt8)) :=
  let frame_body_len := payload_len + kKeepAliveFrameTypeSize
  let frame_len := frame_body_len + kKeepAliveFrameLengthSize
  if is_packet_line ∧ frame_len > kMaxAllowedPacketLength then some []
  else if sbufGetLeftCapacity buf < kKeepAliveFramePrefixSize then some []
  else
    let reserved :=
      if sbufGetMaximumWriteableSize buf < frame_body_len then sbufReserveSpace w buf frame_body_len
      else some buf
    reserved.bind fun buf =>
      (((sbufShiftLeft buf kKeepAliveFramePrefixSize).bind fun buf =>
          sbufWrite buf (BigEndian.bytes kKeepAliveFrameLengthSize frame_body_len ++ [frame_kind])).bind
        fun buf => sbufSetLength buf frame_len).map fun buf => [buf.payload]

def keepaliveclientSendFrameNext (w : Nat) (is_packet_line : Bool) (buf : SBuf) (frame_kind : UInt8)
    (payload_len : Nat) : Option (List (List UInt8)) :=
  keepaliveSendFrame w is_packet_line buf frame_kind payload_len

def keepaliveserverSendFramePrev (w : Nat) (is_packet_line : Bool) (buf : SBuf) (frame_kind : UInt8)
    (payload_len : Nat) : Option (List (List UInt8)) :=
  keepaliveSendFrame w is_packet_line buf frame_kind payload_len

/-- `keepaliveclientAllocFrameBuffer` and `keepaliveserverAllocFrameBuffer`: a small buffer of the
pool when the frame fits in one, else a large one when it fits, otherwise a fresh buffer with the
large buffers' padding. -/
def keepaliveAllocFrameBuffer (w : Nat) (pool : BufferPool) (frame_len : Nat) : Option SBuf :=
  if frame_len ≤ pool.small_buffers_size then some (bufferpoolGetSmallBuffer pool)
  else if frame_len ≤ pool.large_buffers_size then some (bufferpoolGetLargeBuffer pool)
  else sbufCreateWithPadding w frame_len pool.large_buffer_left_padding

/-- The loop of the senders for a payload of more than `kKeepAliveMaxPayloadChunkSize` bytes: each
piece is copied into a buffer of its own and sent as a Normal frame. -/
def keepaliveSendChunks (w : Nat) (is_packet_line : Bool) (pool : BufferPool) (src : List UInt8) :
    Option (List (List UInt8)) :=
  if h : src = [] then some []
  else
    let chunk_len := min src.length kKeepAliveMaxPayloadChunkSize
    (keepaliveAllocFrameBuffer w pool (chunk_len + kKeepAliveFramePrefixSize)).bind fun frame_buf =>
    (sbufSetLength frame_buf chunk_len).bind fun frame_buf =>
    (sbufWrite frame_buf (src.take chunk_len)).bind fun frame_buf =>
    (keepaliveSendFrame w is_packet_line frame_buf kKeepAliveFrameKindNormal chunk_len).bind
      fun sent =>
    (keepaliveSendChunks w is_packet_line pool (src.drop chunk_len)).map fun rest => sent ++ rest
termination_by src.length
decreasing_by
  have hpos := List.length_pos_of_ne_nil h
  simp only [List.length_drop, kKeepAliveMaxPayloadChunkSize, UINT16_MAX]
  omega

/-- The payload sender of both sides (`keepaliveclientSendNormalFrameUpstream`,
`keepaliveserverSendNormalFrameDownstream`): an empty payload is dropped, a payload of at most
`kKeepAliveMaxPayloadChunkSize` bytes is framed in place, a longer one piece by piece. -/
def keepaliveSendNormalFrame (w : Nat) (is_packet_line : Bool) (pool : BufferPool) (buf : SBuf) :
    Option (List (List UInt8)) :=
  let payload_len := sbufGetLength buf
  if payload_len = 0 then some []
  else if is_packet_line ∧ payload_len + kKeepAliveFramePrefixSize > kMaxAllowedPacketLength then
    some []
  else if payload_len > kKeepAliveMaxPayloadChunkSize then
    keepaliveSendChunks w is_packet_line pool buf.payload
  else keepaliveSendFrame w is_packet_line buf kKeepAliveFrameKindNormal payload_len

def keepaliveclientSendNormalFrameUpstream (w : Nat) (is_packet_line : Bool) (pool : BufferPool)
    (buf : SBuf) : Option (List (List UInt8)) :=
  keepaliveSendNormalFrame w is_packet_line pool buf

def keepaliveserverSendNormalFrameDownstream (w : Nat) (is_packet_line : Bool) (pool : BufferPool)
    (buf : SBuf) : Option (List (List UInt8)) :=
  keepaliveSendNormalFrame w is_packet_line pool buf

/-- `keepaliveclientSendControlFrame` and `keepaliveserverSendControlFrame` on a live line: an
empty frame of the kind, in a small buffer of the pool. -/
def keepaliveSendControlFrame (w : Nat) (is_packet_line : Bool) (pool : BufferPool)
    (frame_kind : UInt8) : Option (List (List UInt8)) :=
  (sbufSetLength (bufferpoolGetSmallBuffer pool) 0).bind fun buf =>
    keepaliveSendFrame w is_packet_line buf frame_kind 0

def keepaliveclientSendPingFrame (w : Nat) (is_packet_line : Bool) (pool : BufferPool) :
    Option (List (List UInt8)) :=
  keepaliveSendControlFrame w is_packet_line pool kKeepAliveFrameKindPing

/-- What a line asks its KeepAlive side to send: a payload, or a Ping when the timer fires. -/
inductive KeepAliveMessage where
  /-- A payload in its buffer. -/
  | normal (buf : SBuf)
  /-- A Ping. -/
  | ping

/-- A message sent on a stream line. -/
def keepaliveSendMessage (w : Nat) (pool : BufferPool) : KeepAliveMessage → Option (List (List UInt8))
  | .normal buf => keepaliveSendNormalFrame w false pool buf
  | .ping => keepaliveSendControlFrame w false pool kKeepAliveFrameKindPing

/-- A sequence of messages sent on a stream line: the buffers sent, in order. -/
def keepaliveSend (w : Nat) (pool : BufferPool) : List KeepAliveMessage → Option (List (List UInt8))
  | [] => some []
  | m :: ms =>
    (keepaliveSendMessage w pool m).bind fun sent => (keepaliveSend w pool ms).map fun rest => sent ++ rest

/-! ## What is sent -/

/-- How a payload is cut into pieces of at most `kKeepAliveMaxPayloadChunkSize` bytes. -/
def keepaliveChunks (src : List UInt8) : List (List UInt8) :=
  if h : src = [] then []
  else
    let chunk_len := min src.length kKeepAliveMaxPayloadChunkSize
    src.take chunk_len :: keepaliveChunks (src.drop chunk_len)
termination_by src.length
decreasing_by
  have hpos := List.length_pos_of_ne_nil h
  simp only [List.length_drop, kKeepAliveMaxPayloadChunkSize, UINT16_MAX]
  omega

/-- The frames a message goes out as, by kind and payload. -/
def KeepAliveMessage.frames : KeepAliveMessage → List (UInt8 × List UInt8)
  | .normal buf => (keepaliveChunks buf.payload).map fun c => (kKeepAliveFrameKindNormal, c)
  | .ping => [(kKeepAliveFrameKindPing, [])]

/-- What the peer is to do for a message: pass the payload's pieces on, or answer the Ping. -/
def KeepAliveMessage.actions : KeepAliveMessage → List FrameAction
  | .normal buf => (keepaliveChunks buf.payload).map .payload
  | .ping => [.pong]

/-- What the sender needs for a message to go out as its frames: a payload framed in place needs
room for the frame prefix in front of it, and a byte of room behind it (so that
`sbufReserveSpace` is not called). -/
def KeepAliveMessage.Ready : KeepAliveMessage → Prop
  | .normal buf => sbufGetLength buf ≤ kKeepAliveMaxPayloadChunkSize →
      kKeepAliveFramePrefixSize ≤ sbufGetLeftCapacity buf ∧
      sbufGetLength buf + kKeepAliveFrameTypeSize ≤ sbufGetMaximumWriteableSize buf
  | .ping => True

/-- What the sender needs of the worker for every frame to go out: a `size_t` of 32 bits or
more, and pool buffers with room for the frame prefix in front. -/
structure SendReady (w : Nat) (pool : BufferPool) : Prop where
  /-- `size_t` has at least 32 bits. -/
  width : 32 ≤ w
  /-- Large buffers leave room for a frame prefix. -/
  large_padding : kKeepAliveFramePrefixSize ≤ pool.large_buffer_left_padding
  /-- The large buffers' padding fits in `uint16_t` once aligned. -/
  large_padding_fits : alignUp32 pool.large_buffer_left_padding ≤ UINT16_MAX
  /-- Small buffers leave room for a frame prefix. -/
  small_padding : kKeepAliveFramePrefixSize ≤ pool.small_buffer_left_padding
  /-- A small buffer holds the kind byte of a control frame. -/
  small_room : kKeepAliveFrameTypeSize ≤ pool.small_buffers_size

theorem length_drop_chunk_lt {src : List UInt8} (h0 : src ≠ []) :
    (src.drop (min src.length kKeepAliveMaxPayloadChunkSize)).length < src.length := by
  have hpos := List.length_pos_of_ne_nil h0
  simp only [List.length_drop, kKeepAliveMaxPayloadChunkSize, UINT16_MAX]
  omega

theorem keepaliveChunks_nil : keepaliveChunks [] = [] := by
  rw [keepaliveChunks, dif_pos rfl]

theorem keepaliveChunks_of_ne_nil {src : List UInt8} (h : src ≠ []) :
    keepaliveChunks src = src.take (min src.length kKeepAliveMaxPayloadChunkSize) ::
      keepaliveChunks (src.drop (min src.length kKeepAliveMaxPayloadChunkSize)) := by
  rw [keepaliveChunks, dif_neg h]

theorem keepaliveChunks_of_le {src : List UInt8} (h0 : src ≠ [])
    (h : src.length ≤ kKeepAliveMaxPayloadChunkSize) : keepaliveChunks src = [src] := by
  rw [keepaliveChunks_of_ne_nil h0, Nat.min_eq_left h, List.take_length, List.drop_length,
    keepaliveChunks_nil]

theorem mem_keepaliveChunks {src c : List UInt8} (hc : c ∈ keepaliveChunks src) :
    c ≠ [] ∧ c.length ≤ kKeepAliveMaxPayloadChunkSize := by
  induction h : src.length using Nat.strong_induction_on generalizing src with
  | _ n ih =>
    by_cases h0 : src = []
    · rw [h0, keepaliveChunks_nil] at hc
      cases hc
    rw [keepaliveChunks_of_ne_nil h0, List.mem_cons] at hc
    have hpos := List.length_pos_of_ne_nil h0
    rcases hc with rfl | hc
    · -- the piece at the front
      refine ⟨?_, by simp⟩
      rw [Ne, ← List.length_eq_zero_iff, List.length_take]
      simp only [kKeepAliveMaxPayloadChunkSize, UINT16_MAX]
      omega
    · exact ih _ (h ▸ length_drop_chunk_lt h0) hc rfl

theorem flatten_keepaliveChunks (src : List UInt8) : (keepaliveChunks src).flatten = src := by
  induction h : src.length using Nat.strong_induction_on generalizing src with
  | _ n ih =>
    by_cases h0 : src = []
    · rw [h0, keepaliveChunks_nil, List.flatten_nil]
    rw [keepaliveChunks_of_ne_nil h0, List.flatten_cons, ih _ (h ▸ length_drop_chunk_lt h0) _ rfl,
      List.take_append_drop]

/-- A payload goes out in `⌈len / kKeepAliveMaxPayloadChunkSize⌉` pieces. -/
theorem length_keepaliveChunks (src : List UInt8) :
    (keepaliveChunks src).length =
      (src.length + kKeepAliveMaxPayloadChunkSize - 1) / kKeepAliveMaxPayloadChunkSize := by
  induction h : src.length using Nat.strong_induction_on generalizing src with
  | _ n ih =>
    by_cases h0 : src = []
    · subst h0
      subst h
      rw [keepaliveChunks_nil]
      decide
    have hpos := List.length_pos_of_ne_nil h0
    rw [keepaliveChunks_of_ne_nil h0, List.length_cons, ih _ (h ▸ length_drop_chunk_lt h0) _ rfl,
      List.length_drop]
    simp only [kKeepAliveMaxPayloadChunkSize, UINT16_MAX]
    omega

/-- Every frame adds its prefix to the bytes on the wire. -/
theorem length_flatten_map_keepaliveFrameBytes (frame_kind : UInt8) (cs : List (List UInt8)) :
    (cs.map (keepaliveFrameBytes frame_kind)).flatten.length =
      cs.flatten.length + kKeepAliveFramePrefixSize * cs.length := by
  induction cs with
  | nil => rfl
  | cons c cs ih =>
    simp only [List.map_cons, List.flatten_cons, List.length_append, length_keepaliveFrameBytes, ih,
      List.length_cons, Nat.mul_succ]
    omega

/-- **A frame goes out whole** from a buffer with room for the prefix in front and a byte
behind. -/
theorem keepaliveSendFrame_eq (w : Nat) {buf : SBuf} (frame_kind : UInt8)
    (hcap : kKeepAliveFramePrefixSize ≤ sbufGetLeftCapacity buf)
    (hroom : sbufGetLength buf + kKeepAliveFrameTypeSize ≤ sbufGetMaximumWriteableSize buf) :
    keepaliveSendFrame w false buf frame_kind (sbufGetLength buf) =
      some [keepaliveFrameBytes frame_kind buf.payload] := by
  have hhdr : (BigEndian.bytes kKeepAliveFrameLengthSize (sbufGetLength buf + kKeepAliveFrameTypeSize) ++
      [frame_kind]).length = kKeepAliveFramePrefixSize := by
    simp [kKeepAliveFramePrefixSize, kKeepAliveFrameLengthSize, kKeepAliveFrameTypeSize]
  obtain ⟨b', hb', hpay, -, -⟩ := sbufWrite_sbufShiftLeft
    (show (BigEndian.bytes kKeepAliveFrameLengthSize (sbufGetLength buf + kKeepAliveFrameTypeSize) ++
      [frame_kind]).length ≤ buf.curpos by rw [hhdr]; exact hcap)
  have hlen : b'.len = sbufGetLength buf + kKeepAliveFrameTypeSize + kKeepAliveFrameLengthSize := by
    rw [← SBuf.length_payload, hpay, List.length_append, hhdr, SBuf.length_payload]
    simp only [sbufGetLength, kKeepAliveFramePrefixSize]
    omega
  have hset : sbufSetLength b' (sbufGetLength buf + kKeepAliveFrameTypeSize +
      kKeepAliveFrameLengthSize) = some b' := by
    rw [← hlen]
    exact sbufSetLength_len b'
  unfold keepaliveSendFrame
  dsimp only
  rw [if_neg (by simp), if_neg (Nat.not_lt_of_le hcap), if_neg (Nat.not_lt_of_le hroom),
    Option.bind_some, ← hhdr, hb', Option.bind_some, hset, Option.map_some, hpay]
  simp [keepaliveFrameBytes, sbufGetLength, kKeepAliveFrameTypeSize]

/-- A buffer for a frame the senders write: empty, with room for the prefix and the frame. -/
theorem keepaliveAllocFrameBuffer_eq {w : Nat} {pool : BufferPool} (hready : SendReady w pool)
    {frame_len : Nat} (hn : frame_len ≤ kKeepAliveMaxFrameLength) :
    ∃ b, keepaliveAllocFrameBuffer w pool frame_len = some b ∧ b.len = 0 ∧
      kKeepAliveFramePrefixSize ≤ sbufGetLeftCapacity b ∧
      frame_len ≤ sbufGetMaximumWriteableSize b := by
  have h24 : frame_len ≤ 2 ^ 24 := by
    simp only [kKeepAliveMaxFrameLength, kKeepAliveMaxPayloadChunkSize, kKeepAliveFramePrefixSize,
      kKeepAliveFrameLengthSize, kKeepAliveFrameTypeSize, UINT16_MAX] at hn
    omega
  exact allocFrameBuffer_room hready.width hready.small_padding hready.large_padding
    hready.large_padding_fits h24

/-- **A long payload goes out as its pieces**, each in a Normal frame. -/
theorem keepaliveSendChunks_eq {w : Nat} {pool : BufferPool} (hready : SendReady w pool)
    (src : List UInt8) :
    keepaliveSendChunks w false pool src =
      some ((keepaliveChunks src).map (keepaliveFrameBytes kKeepAliveFrameKindNormal)) := by
  induction h : src.length using Nat.strong_induction_on generalizing src with
  | _ n ih =>
    by_cases h0 : src = []
    · subst h0
      rw [keepaliveSendChunks, dif_pos rfl, keepaliveChunks_nil]
      rfl
    have hpos := List.length_pos_of_ne_nil h0
    obtain ⟨chunk_len, hchunk⟩ : ∃ c, min src.length kKeepAliveMaxPayloadChunkSize = c := ⟨_, rfl⟩
    have hle : chunk_len ≤ kKeepAliveMaxPayloadChunkSize := hchunk ▸ Nat.min_le_right _ _
    have hcpos : 0 < chunk_len := by
      rw [← hchunk]
      simp only [kKeepAliveMaxPayloadChunkSize, UINT16_MAX]
      omega
    have htake : (src.take chunk_len).length = chunk_len := by
      rw [List.length_take, ← hchunk]
      omega
    -- the piece is copied into a buffer of its own, then framed in place
    obtain ⟨b, halloc, -, hcap, hmax⟩ := keepaliveAllocFrameBuffer_eq hready
      (show chunk_len + kKeepAliveFramePrefixSize ≤ kKeepAliveMaxFrameLength by
        simp only [kKeepAliveMaxFrameLength]; omega)
    obtain ⟨b', hfill, hpay, hcur, hmem⟩ := sbufWrite_sbufSetLength
      (show (src.take chunk_len).length ≤ sbufGetMaximumWriteableSize b by
        rw [htake]; simp only [kKeepAliveFramePrefixSize] at hmax; omega)
    rw [htake, Option.bind_eq_some_iff] at hfill
    obtain ⟨b₁, hset, hwrite⟩ := hfill
    have hsend : keepaliveSendFrame w false b' kKeepAliveFrameKindNormal chunk_len =
        some [keepaliveFrameBytes kKeepAliveFrameKindNormal (src.take chunk_len)] := by
      have hlen' : sbufGetLength b' = chunk_len := by
        rw [sbufGetLength, ← SBuf.length_payload, hpay, htake]
      have hsend' := keepaliveSendFrame_eq w kKeepAliveFrameKindNormal
        (show kKeepAliveFramePrefixSize ≤ sbufGetLeftCapacity b' by
          rw [sbufGetLeftCapacity, hcur]; exact hcap)
        (show sbufGetLength b' + kKeepAliveFrameTypeSize ≤ sbufGetMaximumWriteableSize b' by
          simp only [sbufGetMaximumWriteableSize, hmem, hcur, hlen']
          simp only [sbufGetMaximumWriteableSize, kKeepAliveFramePrefixSize,
            kKeepAliveFrameLengthSize, kKeepAliveFrameTypeSize] at hmax ⊢
          omega)
      rwa [hlen', hpay] at hsend'
    have hrest := ih _ (by rw [List.length_drop, ← h]; omega) (src.drop chunk_len) rfl
    rw [keepaliveSendChunks, dif_neg h0]
    dsimp only
    rw [hchunk, halloc, Option.bind_some, hset, Option.bind_some, hwrite, Option.bind_some, hsend,
      Option.bind_some, hrest, Option.map_some, keepaliveChunks_of_ne_nil h0, hchunk]
    rfl

/-- **A payload goes out as its pieces**, framed in place when it fits one frame. -/
theorem keepaliveSendNormalFrame_eq {w : Nat} {pool : BufferPool} (hready : SendReady w pool)
    {buf : SBuf} (hbuf : (KeepAliveMessage.normal buf).Ready) :
    keepaliveSendNormalFrame w false pool buf =
      some ((keepaliveChunks buf.payload).map (keepaliveFrameBytes kKeepAliveFrameKindNormal)) := by
  have hlen : buf.payload.length = sbufGetLength buf := SBuf.length_payload buf
  unfold keepaliveSendNormalFrame
  dsimp only
  by_cases h0 : sbufGetLength buf = 0
  · rw [if_pos h0, List.eq_nil_of_length_eq_zero (hlen.trans h0), keepaliveChunks_nil]
    rfl
  rw [if_neg h0, if_neg (by simp)]
  by_cases hbig : sbufGetLength buf > kKeepAliveMaxPayloadChunkSize
  · rw [if_pos hbig, keepaliveSendChunks_eq hready]
  · have hne : buf.payload ≠ [] := fun hnil => h0 (by rw [← hlen, hnil]; rfl)
    obtain ⟨hcap, hroom⟩ := hbuf (Nat.le_of_not_lt hbig)
    rw [if_neg hbig, keepaliveSendFrame_eq w _ hcap hroom, keepaliveChunks_of_le hne (by omega)]
    rfl

theorem keepaliveSendControlFrame_eq {w : Nat} {pool : BufferPool} (hready : SendReady w pool)
    (frame_kind : UInt8) :
    keepaliveSendControlFrame w false pool frame_kind = some [keepaliveFrameBytes frame_kind []] := by
  have hset : sbufSetLength (bufferpoolGetSmallBuffer pool) 0 = some (bufferpoolGetSmallBuffer pool) :=
    sbufSetLength_len _
  rw [keepaliveSendControlFrame, hset, Option.bind_some]
  exact keepaliveSendFrame_eq w frame_kind hready.small_padding (by
    have hroom := hready.small_room
    simp only [sbufGetLength, sbufGetMaximumWriteableSize, bufferpoolGetSmallBuffer, emptyBuffer,
      List.length_replicate]
    omega)

/-- **What the sender writes**: every message goes out as its frames, in order. -/
theorem keepaliveSend_eq {w : Nat} {pool : BufferPool} (hready : SendReady w pool)
    {msgs : List KeepAliveMessage} (hmsgs : ∀ m ∈ msgs, m.Ready) :
    keepaliveSend w pool msgs =
      some ((msgs.flatMap KeepAliveMessage.frames).map fun f => keepaliveFrameBytes f.1 f.2) := by
  induction msgs with
  | nil => rfl
  | cons m ms ih =>
    have hm : keepaliveSendMessage w pool m =
        some (m.frames.map fun f => keepaliveFrameBytes f.1 f.2) := by
      cases m with
      | normal buf =>
        rw [keepaliveSendMessage, keepaliveSendNormalFrame_eq hready (hmsgs _ List.mem_cons_self)]
        simp [KeepAliveMessage.frames, Function.comp_def]
      | ping =>
        rw [keepaliveSendMessage, keepaliveSendControlFrame_eq hready]
        rfl
    rw [keepaliveSend, hm, Option.bind_some, ih (fun m' hm' => hmsgs m' (List.mem_cons_of_mem m hm')),
      Option.map_some, List.flatMap_cons, List.map_append]

/-! ## Reading back what is sent -/

/-- The body length a frame's first two bytes spell, for a payload that fits a frame. -/
theorem value_take_keepaliveFrameBytes {frame_kind : UInt8} {payload : List UInt8}
    (h : payload.length ≤ kKeepAliveMaxPayloadChunkSize) (ys : List UInt8) :
    BigEndian.value ((keepaliveFrameBytes frame_kind payload ++ ys).take kKeepAliveFrameLengthSize) =
      payload.length + kKeepAliveFrameTypeSize := by
  have hb : (BigEndian.bytes kKeepAliveFrameLengthSize (payload.length + kKeepAliveFrameTypeSize)).length =
      kKeepAliveFrameLengthSize := BigEndian.length_bytes _ _
  rw [keepaliveFrameBytes, List.append_assoc, List.append_assoc, List.take_left' hb,
    BigEndian.value_bytes]
  simp only [kKeepAliveMaxPayloadChunkSize, kKeepAliveFrameLengthSize, kKeepAliveFrameTypeSize,
    UINT16_MAX] at h ⊢
  omega

/-- **A frame reads back whole, whatever follows it**: its actions, and all its bytes. -/
theorem keepaliveFrameAt_keepaliveFrameBytes {frame_kind : UInt8} {payload : List UInt8}
    (h : payload.length ≤ kKeepAliveMaxPayloadChunkSize) (ys : List UInt8) :
    keepaliveFrameAt (keepaliveFrameBytes frame_kind payload ++ ys) =
      some (some (frameActions frame_kind payload.length payload),
        (keepaliveFrameBytes frame_kind payload).length) := by
  have hlen : (keepaliveFrameBytes frame_kind payload).length =
      kKeepAliveFrameLengthSize + (payload.length + kKeepAliveFrameTypeSize) := by
    rw [length_keepaliveFrameBytes, kKeepAliveFramePrefixSize]
    omega
  have hframe : ((keepaliveFrameBytes frame_kind payload ++ ys).take
      (kKeepAliveFrameLengthSize + (payload.length + kKeepAliveFrameTypeSize))).drop
        kKeepAliveFrameLengthSize = frame_kind :: payload := by
    rw [← hlen, List.take_left, keepaliveFrameBytes, List.append_assoc,
      List.drop_left' (BigEndian.length_bytes _ _)]
    rfl
  have hall : (keepaliveFrameBytes frame_kind payload ++ ys).length =
      kKeepAliveFrameLengthSize + (payload.length + kKeepAliveFrameTypeSize) + ys.length := by
    rw [List.length_append, hlen]
  rw [keepaliveFrameAt, if_neg (by simp only [kKeepAliveFramePrefixSize, kKeepAliveFrameLengthSize,
    kKeepAliveFrameTypeSize] at hall ⊢; omega)]
  dsimp only
  rw [value_take_keepaliveFrameBytes h, if_neg (by simp [kKeepAliveFrameTypeSize]),
    if_neg (by omega), hframe, hlen]
  simp [kKeepAliveFrameTypeSize]

/-- **No proper part of a frame is a frame**: while only part of it is buffered, the reader
waits. -/
theorem keepaliveFrameAt_partial {frame_kind : UInt8} {payload q : List UInt8}
    (h : payload.length ≤ kKeepAliveMaxPayloadChunkSize)
    (hq : q <+: keepaliveFrameBytes frame_kind payload)
    (hlt : q.length < (keepaliveFrameBytes frame_kind payload).length) : keepaliveFrameAt q = none := by
  by_cases h3 : q.length < kKeepAliveFramePrefixSize
  · rw [keepaliveFrameAt, if_pos h3]
  -- the two length bytes are buffered: they announce more than is there
  have htake : q.take kKeepAliveFrameLengthSize =
      (keepaliveFrameBytes frame_kind payload ++ []).take kKeepAliveFrameLengthSize := by
    rw [List.append_nil, List.prefix_iff_eq_take.mp hq, List.take_take]
    congr 1
    simp only [kKeepAliveFramePrefixSize, kKeepAliveFrameLengthSize, kKeepAliveFrameTypeSize] at h3 ⊢
    omega
  rw [keepaliveFrameAt, if_neg h3]
  dsimp only
  rw [htake, value_take_keepaliveFrameBytes h, if_neg (by simp [kKeepAliveFrameTypeSize]),
    if_pos (by rw [length_keepaliveFrameBytes] at hlt; simp only [kKeepAliveFramePrefixSize] at hlt; omega)]

/-- A frame as the decoder meets it: its bytes, and what handling it does. -/
def keepaliveFrameSeg (f : UInt8 × List UInt8) : List UInt8 × List (List FrameAction) :=
  (keepaliveFrameBytes f.1 f.2, [frameActions f.1 f.2.length f.2])

/-- **Frames that fit parse one by one**: written back to back they are an honest trace of the
decoder. -/
theorem keepaliveDecoder_parses (plan : List (UInt8 × List UInt8))
    (h : ∀ f ∈ plan, f.2.length ≤ kKeepAliveMaxPayloadChunkSize) :
    keepaliveDecoder.Parses () (plan.map keepaliveFrameSeg) () := by
  induction plan with
  | nil => exact Decoder.Parses.nil ()
  | cons f plan ih =>
    have hf := h f List.mem_cons_self
    refine Decoder.Parses.cons ?_ ?_ (ih fun g hg => h g (List.mem_cons_of_mem f hg))
    · intro ys
      simp [keepaliveDecoder, keepaliveFrameAt_keepaliveFrameBytes hf ys]
    · intro q hq hlt
      simp [keepaliveDecoder, keepaliveFrameAt_partial hf hq hlt]

/-- Handling a message's frames does what the message asks of the peer. -/
theorem frameActions_frames (m : KeepAliveMessage) :
    (m.frames.map fun f => frameActions f.1 f.2.length f.2).flatten = m.actions := by
  cases m with
  | normal buf =>
    have hnormal : ∀ c ∈ keepaliveChunks buf.payload,
        frameActions kKeepAliveFrameKindNormal c.length c = [.payload c] := by
      intro c hc
      have hne := (mem_keepaliveChunks hc).1
      simp [frameActions, hne]
    simp only [KeepAliveMessage.frames, KeepAliveMessage.actions, List.map_map, Function.comp_def]
    rw [List.map_congr_left hnormal]
    exact (List.map_eq_flatMap ..).symm
  | ping => rfl

theorem flatten_map_frameActions (msgs : List KeepAliveMessage) :
    ((msgs.flatMap KeepAliveMessage.frames).map fun f => frameActions f.1 f.2.length f.2).flatten =
      (msgs.map KeepAliveMessage.actions).flatten := by
  induction msgs with
  | nil => rfl
  | cons m ms ih =>
    rw [List.flatMap_cons, List.map_append, List.flatten_append, ih, List.map_cons,
      List.flatten_cons, frameActions_frames]

/-- **Round trip.**  What the sender writes on a stream line, delivered to the peer in pieces of
at most `kKeepAliveMaxFrameLength` bytes, is read back as the payloads' pieces and one Pong per
Ping, in order, with nothing left buffered. -/
theorem keepaliveReceive_keepaliveSend {w : Nat} {pool : BufferPool} (hready : SendReady w pool)
    {msgs : List KeepAliveMessage} (hmsgs : ∀ m ∈ msgs, m.Ready) {wire : List (List UInt8)}
    (hsend : keepaliveSend w pool msgs = some wire) (hmax : wire.flatten.length ≤ UINT32_MAX)
    {cs : List (List UInt8)} (hcs : cs.flatten = wire.flatten)
    (hchunk : ∀ c ∈ cs, c.length ≤ kKeepAliveMaxFrameLength) :
    ∃ bs, keepaliveReceive keepaliveTunnelPayload bufferstreamCreate cs =
        some ((msgs.map KeepAliveMessage.actions).flatten, bs) ∧ bs.content = [] := by
  rw [keepaliveSend_eq hready hmsgs, Option.some.injEq] at hsend
  subst hsend
  have hplan : ∀ f ∈ msgs.flatMap KeepAliveMessage.frames, f.2.length ≤ kKeepAliveMaxPayloadChunkSize := by
    intro f hf
    obtain ⟨m, -, hfm⟩ := List.mem_flatMap.mp hf
    cases m with
    | normal buf =>
      obtain ⟨c, hc, rfl⟩ := List.mem_map.mp hfm
      exact (mem_keepaliveChunks hc).2
    | ping =>
      rw [KeepAliveMessage.frames, List.mem_singleton] at hfm
      subst hfm
      simp [kKeepAliveMaxPayloadChunkSize, UINT16_MAX]
  have hinput : Decoder.input ((msgs.flatMap KeepAliveMessage.frames).map keepaliveFrameSeg) =
      ((msgs.flatMap KeepAliveMessage.frames).map fun f => keepaliveFrameBytes f.1 f.2).flatten := by
    simp [Decoder.input, keepaliveFrameSeg, Function.comp_def]
  -- every frame is at most `kKeepAliveMaxFrameLength` long, so the guard never fires
  have hseg : ∀ seg ∈ (msgs.flatMap KeepAliveMessage.frames).map keepaliveFrameSeg,
      seg.1.length ≤ kKeepAliveMaxFrameLength := by
    intro seg hseg
    obtain ⟨f, hf, rfl⟩ := List.mem_map.mp hseg
    have := hplan f hf
    simp only [keepaliveFrameSeg, length_keepaliveFrameBytes, kKeepAliveMaxFrameLength]
    omega
  have hfeed := Decoder.feedGuarded_of_parses (keepaliveDecoder_parses _ hplan)
    (hcs.trans hinput.symm) hseg
    (show ∀ c ∈ cs, kKeepAliveMaxFrameLength + c.length ≤ kKeepAliveReadOverflowLimit from
      fun c hc => by
        have := hchunk c hc
        simp only [kKeepAliveMaxFrameLength, kKeepAliveMaxPayloadChunkSize, kKeepAliveFramePrefixSize,
          kKeepAliveFrameLengthSize, kKeepAliveFrameTypeSize, kKeepAliveReadOverflowLimit,
          UINT16_MAX] at this ⊢
        omega)
  obtain ⟨bs, hrecv, hc⟩ := keepaliveReceive_eq cs bufferstreamCreate
    (by rw [show bufferstreamCreate.size = 0 from rfl, Nat.zero_add, hcs]; exact hmax)
  rw [content_bufferstreamCreate, hfeed] at hrecv hc
  dsimp only at hrecv hc
  refine ⟨bs, ?_, hc⟩
  have hseg_eq : keepaliveFrameSeg =
      fun f => (keepaliveFrameBytes f.1 f.2, [frameActions f.1 f.2.length f.2]) := rfl
  rw [hrecv, hseg_eq, Decoder.output_map_singleton, flatten_map_frameActions]

/-- A payload sent alone, delivered frame by frame, is passed on piece by piece. -/
theorem keepaliveReceive_keepaliveChunks {w : Nat} {pool : BufferPool} (hready : SendReady w pool)
    {buf : SBuf} (hbuf : (KeepAliveMessage.normal buf).Ready)
    (hmax : ((keepaliveChunks buf.payload).map
      (keepaliveFrameBytes kKeepAliveFrameKindNormal)).flatten.length ≤ UINT32_MAX) :
    ∃ bs, keepaliveReceive keepaliveTunnelPayload bufferstreamCreate
        ((keepaliveChunks buf.payload).map (keepaliveFrameBytes kKeepAliveFrameKindNormal)) =
      some ((keepaliveChunks buf.payload).map FrameAction.payload, bs) ∧ bs.content = [] := by
  have hwire : ([KeepAliveMessage.normal buf].flatMap KeepAliveMessage.frames).map
      (fun f => keepaliveFrameBytes f.1 f.2) =
      (keepaliveChunks buf.payload).map (keepaliveFrameBytes kKeepAliveFrameKindNormal) := by
    simp [KeepAliveMessage.frames, Function.comp_def]
  have hsend := keepaliveSend_eq hready
    (show ∀ m ∈ [KeepAliveMessage.normal buf], m.Ready by simpa using hbuf)
  rw [hwire] at hsend
  obtain ⟨bs, hrecv, hc⟩ := keepaliveReceive_keepaliveSend hready (by simpa using hbuf) hsend hmax rfl
    (fun c hc => by
      obtain ⟨p, hp, rfl⟩ := List.mem_map.mp hc
      have := (mem_keepaliveChunks hp).2
      simp only [length_keepaliveFrameBytes, kKeepAliveMaxFrameLength]
      omega)
  refine ⟨bs, ?_, hc⟩
  rw [hrecv]
  simp [KeepAliveMessage.actions]

/-! ## The guard and whole frames -/

theorem keepaliveserverTunnelUpStreamPayload_wholeFrames :
    ∃ wire, keepaliveclientSendNormalFrameUpstream 64 false ⟨32768, 32, 4096, 32⟩
        (SBuf.ofPayload 32 (List.replicate 131072 0)) = some wire ∧
      keepaliveserverTunnelUpStreamPayload bufferstreamCreate wire.flatten =
        some ([], bufferstreamCreate) ∧
      ∃ bs, keepaliveReceive keepaliveserverTunnelUpStreamPayload bufferstreamCreate wire =
        some ((keepaliveChunks (List.replicate 131072 0)).map FrameAction.payload, bs) ∧
        bs.content = [] := by
  have hready : SendReady 64 ⟨32768, 32, 4096, 32⟩ :=
    ⟨by decide, by decide, by decide, by decide, by decide⟩
  have hbuf : (KeepAliveMessage.normal (SBuf.ofPayload 32 (List.replicate 131072 0))).Ready := by
    intro hle
    -- read the length off the buffer without unfolding it: the kernel would rebuild the bytes
    rw [sbufGetLength, SBuf.len_ofPayload, List.length_replicate] at hle
    simp only [kKeepAliveMaxPayloadChunkSize, UINT16_MAX] at hle
    omega
  have hsend := keepaliveSendNormalFrame_eq hready hbuf
  rw [SBuf.payload_ofPayload] at hsend
  -- the payload goes out as frames of 65537, 65537 and 7 bytes
  have hlen : ((keepaliveChunks (List.replicate 131072 (0 : UInt8))).map
      (keepaliveFrameBytes kKeepAliveFrameKindNormal)).flatten.length = 131081 := by
    rw [length_flatten_map_keepaliveFrameBytes, flatten_keepaliveChunks, length_keepaliveChunks,
      List.length_replicate]
    decide
  refine ⟨_, hsend, ?_, ?_⟩
  · -- delivered at once, the frames are thrown away unread
    rw [keepaliveserverTunnelUpStreamPayload_eq]
    apply keepaliveTunnelPayload_of_overflow
    · rw [hlen]
      decide
    · rw [hlen]
      decide
  · -- delivered frame by frame, they are passed on
    rw [keepaliveserverTunnelUpStreamPayload_eq]
    have hpay := keepaliveReceive_keepaliveChunks hready hbuf (by
      rw [SBuf.payload_ofPayload, hlen]
      decide)
    rwa [SBuf.payload_ofPayload] at hpay

end KeepAlive
end WaterWall
