import WaterWall.Bufio.StreamReader
import WaterWall.Bytes.BigEndian

/-!
# The MUX wire format

`tunnels/Internals/MuxCommon/src/mux_wire.c` is shared by MuxClient and MuxServer: many child
connections travel over one parent line as frames, each an 8-byte header (a big-endian 16-bit
payload length, a flag byte, a zero pad byte and a big-endian 32-bit connection id) followed by
the payload.

* The receiver is `muxReadCompleteFrame`, called in a loop after every payload the parent line
  delivers (`muxReceive`).  It is modelled over the `buffer_stream_t` queue, and
  `muxReadCompleteFrame_eq` shows it depends only on the bytes buffered, which gives the decoder
  `muxDecoder`.
* The sender is `muxEncodeChildPayload`.  A payload of at most `kMuxMaxDataFrameLength` bytes is
  framed in place, its headers written into the left padding; a longer one is copied into a fresh
  buffer as a run of DATA frames (`muxWriteDataFrames`, with invariant
  `muxWriteDataFrames_spec`).  Both paths produce `muxWire`.
* `muxReceive_muxWire`: however the encoded bytes are cut into deliveries, the receiver reads back
  the OPEN frame, then DATA frames that carry the payload, and is left with an empty stream.
-/

set_option autoImplicit false

namespace WaterWall
namespace Mux

open Incremental

/-! ## Frames -/

def kMuxFlagOpen : UInt8 := 0
def kMuxFlagClose : UInt8 := 1
def kMuxFlagFlowPause : UInt8 := 2
def kMuxFlagFlowResume : UInt8 := 3
def kMuxFlagData : UInt8 := 4

/-- `kMuxFrameLength`, `sizeof(mux_frame_t)`. -/
def kMuxFrameLength : Nat := 8

/-- `kMuxMaxDataFrameLength`: a whole frame must fit a 16-bit length. -/
def kMuxMaxDataFrameLength : Nat := 0xFFFF - kMuxFrameLength

/-- A `mux_frame_t` as `muxReadCompleteFrame` leaves it: `length` and `cid` converted to host
order, `flags` and `_pad1` as they arrived. -/
structure MuxFrame where
  /-- Payload length. -/
  length : Nat
  /-- One of the `kMuxFlag*` values. -/
  flags : UInt8
  /-- `_pad1`. -/
  pad1 : UInt8
  /-- Connection id. -/
  cid : UInt32
deriving DecidableEq, Repr

/-- `muxSetMuxFrameHeader`: the eight header bytes, in wire order.  `length` is cast to
`mux_length_t` (16 bits). -/
def muxSetMuxFrameHeader (length : Nat) (cid : UInt32) (flag : UInt8) : List UInt8 :=
  BigEndian.bytes 2 length ++ [flag, 0] ++ BigEndian.bytes 4 cid.toNat

@[simp] theorem length_muxSetMuxFrameHeader (length : Nat) (cid : UInt32) (flag : UInt8) :
    (muxSetMuxFrameHeader length cid flag).length = kMuxFrameLength := by
  simp [muxSetMuxFrameHeader, kMuxFrameLength]

/-! ## Reading frames -/

/-- `muxReadCompleteFrame`: when the stream holds a complete frame, remove it and return it (the
whole wire frame, header included) with its decoded header; otherwise leave the stream alone.
`none` is an abort. -/
def muxReadCompleteFrame (bs : BufferStream) :
    Option (Option (MuxFrame × List UInt8) × BufferStream) :=
  if bufferstreamGetBufLen bs < kMuxFrameLength then some (none, bs)
  else
    match bufferstreamViewBytesAt bs 0 kMuxFrameLength with
    | none => none
    | some frame =>
      let payload_length := BigEndian.value (frame.take 2)
      let cid := BigEndian.value ((frame.drop 4).take 4)
      let total_length := payload_length + kMuxFrameLength
      if bufferstreamGetBufLen bs < total_length then some (none, bs)
      else
        match bufferstreamReadExact bs total_length with
        | none => none
        | some (buf, bs') =>
          some (some (⟨payload_length, frame.getD 2 0, frame.getD 3 0, UInt32.ofNat cid⟩, buf), bs')

/-- The frame header at the front of a byte string, if all of it is there. -/
def headerAt (xs : List UInt8) : MuxFrame :=
  ⟨BigEndian.value ((xs.take 8).take 2), (xs.take 8).getD 2 0, (xs.take 8).getD 3 0,
    UInt32.ofNat (BigEndian.value (((xs.take 8).drop 4).take 4))⟩

/-- The complete frame at the front of a byte string, as `muxReadCompleteFrame` finds it: its
header and the whole wire frame. -/
def muxFrameAt (xs : List UInt8) : Option (MuxFrame × List UInt8) :=
  if xs.length < kMuxFrameLength then none
  else if xs.length < (headerAt xs).length + kMuxFrameLength then none
  else some (headerAt xs, xs.take ((headerAt xs).length + kMuxFrameLength))

/-- **`muxReadCompleteFrame` depends only on the buffered bytes.**  It never aborts, leaves the
stream unchanged when no complete frame is buffered, and otherwise removes exactly the frame
`muxFrameAt` finds. -/
theorem muxReadCompleteFrame_eq (bs : BufferStream) :
    (muxFrameAt bs.content = none ∧ muxReadCompleteFrame bs = some (none, bs)) ∨
    ∃ fr bs', muxFrameAt bs.content = some fr ∧ muxReadCompleteFrame bs = some (some fr, bs') ∧
      bs'.content = bs.content.drop fr.2.length := by
  have hsize := bs.size_eq_length
  by_cases h8 : bs.size < kMuxFrameLength
  · left
    exact ⟨by simp [muxFrameAt, ← hsize, h8],
      by simp [muxReadCompleteFrame, bufferstreamGetBufLen, h8]⟩
  -- a whole header is buffered: it is what `bufferstreamViewBytesAt` copies out
  have hview : bufferstreamViewBytesAt bs 0 kMuxFrameLength = some (bs.content.take 8) := by
    rw [bufferstreamViewBytesAt_eq (by decide) (by omega)]
    rfl
  by_cases hlen : bs.size < (headerAt bs.content).length + kMuxFrameLength
  · left
    refine ⟨by simp [muxFrameAt, ← hsize, hlen], ?_⟩
    simp only [headerAt] at hlen
    simp [muxReadCompleteFrame, bufferstreamGetBufLen, h8, hview, hlen]
  · right
    have hn : (headerAt bs.content).length + kMuxFrameLength ≤ bs.size := by omega
    have hmax : (headerAt bs.content).length + kMuxFrameLength ≤ UINT32_MAX := by
      have hv := BigEndian.value_lt ((bs.content.take 8).take 2)
      have h2 : ((bs.content.take 8).take 2).length ≤ 2 := by simp
      have hp : 256 ^ ((bs.content.take 8).take 2).length ≤ 256 ^ 2 :=
        Nat.pow_le_pow_right (by decide) h2
      simp only [headerAt, kMuxFrameLength, UINT32_MAX]
      omega
    obtain ⟨bs', hread, hc, -⟩ := bufferstreamReadExact_eq (by simp [kMuxFrameLength]) hn hmax
    refine ⟨(headerAt bs.content, bs.content.take ((headerAt bs.content).length + kMuxFrameLength)),
      bs', by simp [muxFrameAt, ← hsize, hlen, Nat.le_of_not_lt h8], ?_, ?_⟩
    · simp only [headerAt] at hlen hread
      simp [muxReadCompleteFrame, bufferstreamGetBufLen, h8, hview, hlen, hread, headerAt]
    · rw [hc, List.length_take, Nat.min_eq_left (by omega)]

theorem muxFrameAt_spec {xs : List UInt8} {fr : MuxFrame × List UInt8} (h : muxFrameAt xs = some fr) :
    fr.1 = headerAt xs ∧ fr.2 = xs.take (fr.1.length + kMuxFrameLength) ∧
      fr.1.length + kMuxFrameLength ≤ xs.length := by
  unfold muxFrameAt at h
  split_ifs at h with h1 h2
  cases h
  refine ⟨rfl, rfl, ?_⟩
  dsimp only
  omega

theorem length_of_muxFrameAt {xs : List UInt8} {fr : MuxFrame × List UInt8}
    (h : muxFrameAt xs = some fr) : fr.2.length = fr.1.length + kMuxFrameLength := by
  obtain ⟨-, h2, h3⟩ := muxFrameAt_spec h
  rw [h2, List.length_take, Nat.min_eq_left h3]

/-- The frame reader, as a decoder of the buffered bytes: it emits one complete frame at a time
and consumes its wire bytes. -/
def muxDecoder : Decoder Unit UInt8 (MuxFrame × List UInt8) where
  step _ xs := (muxFrameAt xs).map fun fr => ((), [fr], fr.2.length)
  consumes := by
    intro s xs s' out n h
    simp only [Option.map_eq_some_iff, Prod.mk.injEq] at h
    obtain ⟨fr, hfr, -, -, rfl⟩ := h
    obtain ⟨-, -, hle⟩ := muxFrameAt_spec hfr
    rw [length_of_muxFrameAt hfr]
    simp only [kMuxFrameLength] at hle ⊢
    omega

theorem size_lt_of_muxReadCompleteFrame {bs bs' : BufferStream} {fr : MuxFrame × List UInt8}
    (h : muxReadCompleteFrame bs = some (some fr, bs')) : bs'.size < bs.size := by
  rcases muxReadCompleteFrame_eq bs with ⟨-, h'⟩ | ⟨fr', bs'', hfr, h', hc⟩
  · rw [h'] at h; cases h
  · rw [h'] at h
    cases h
    have hpos := length_of_muxFrameAt hfr
    rw [bs'.size_eq_length, bs.size_eq_length, hc, List.length_drop]
    obtain ⟨-, -, hle⟩ := muxFrameAt_spec hfr
    simp only [kMuxFrameLength] at hpos hle
    omega

/-- `muxReadCompleteFrame`, as the reader of the receive loop. -/
def muxReader : StreamReader (MuxFrame × List UInt8) where
  read := muxReadCompleteFrame
  shrinks := size_lt_of_muxReadCompleteFrame

/-- Parent-line deliveries, as `muxclientTunnelDownStreamPayload` (and
`muxserverTunnelUpStreamPayload`) handle them: each payload is pushed into the read stream, and
complete frames are read until `muxReadCompleteFrame` returns NULL.  The overflow check on what is
left afterwards is not modelled. -/
def muxReceive (bs : BufferStream) (cs : List (List UInt8)) :
    Option (List (MuxFrame × List UInt8) × BufferStream) :=
  muxReader.receive bs cs

theorem muxReader_refines : muxReader.Refines muxDecoder := by
  apply StreamReader.refines_of_step
  intro bs
  rcases muxReadCompleteFrame_eq bs with ⟨hnone, hread⟩ | ⟨fr, bs', hfr, hread, hc⟩
  · exact .inl ⟨by simp [muxDecoder, hnone], hread⟩
  · exact .inr ⟨fr, fr.2.length, bs', by simp [muxDecoder, hfr], hread, hc⟩

/-- **Receiving is decoding.**  As long as the stream stays within the 32-bit limit it enforces,
the receiver emits what the decoder emits when fed the same deliveries. -/
theorem muxReceive_eq (cs : List (List UInt8)) (bs : BufferStream)
    (hle : bs.size + cs.flatten.length ≤ UINT32_MAX) :
    ∃ bs', muxReceive bs cs = some ((muxDecoder.feed () bs.content cs).2.1, bs') ∧
      bs'.content = (muxDecoder.feed () bs.content cs).2.2 :=
  StreamReader.receive_eq muxReader_refines cs bs hle

/-! ## Writing frames -/

/-- `muxMakeMuxFrame`: frame the whole payload in place, its header written into the left
padding.  `none` is a failed assertion. -/
def muxMakeMuxFrame (buf : SBuf) (cid : UInt32) (flag : UInt8) : Option SBuf :=
  if sbufGetLength buf ≤ kMuxMaxDataFrameLength then
    (sbufShiftLeft buf kMuxFrameLength).bind fun buf' =>
      sbufWrite buf' (muxSetMuxFrameHeader (sbufGetLength buf) cid flag)
  else none

/-- `muxMakeMuxOpenDataFrames`: an OPEN header and a DATA header, both written into the left
padding in front of the payload. -/
def muxMakeMuxOpenDataFrames (buf : SBuf) (cid : UInt32) : Option SBuf :=
  let payload_length := sbufGetLength buf
  if payload_length ≤ kMuxMaxDataFrameLength then
    let open_frame := muxSetMuxFrameHeader 0 cid kMuxFlagOpen
    let data_frame := muxSetMuxFrameHeader payload_length cid kMuxFlagData
    (sbufShiftLeft buf (kMuxFrameLength * 2)).bind fun buf' =>
      (sbufWrite buf' open_frame).bind fun buf'' =>
        sbufWriteAt buf'' kMuxFrameLength data_frame
  else none

/-- `muxTryComputeEncodedLength`: the length of a payload cut into DATA frames, with an OPEN frame
in front when asked; `none` when it does not fit 32 bits.  The `uint64_t` arithmetic cannot wrap
on a 32-bit `payload_length`, so it is computed in `Nat`.  (The `NULL` check on the out-pointer is
not modelled: the only caller passes a local.) -/
def muxTryComputeEncodedLength (payload_length : Nat) (prepend_open : Bool) : Option Nat :=
  let data_frames := (payload_length + kMuxMaxDataFrameLength - 1) / kMuxMaxDataFrameLength
  let data_frames := if data_frames = 0 then 1 else data_frames
  let header_count := data_frames + (if prepend_open then 1 else 0)
  let total_length := payload_length + header_count * kMuxFrameLength
  if total_length > UINT32_MAX then none else some total_length

/-- `mux_encode_result_t`. -/
inductive MuxEncodeResult where
  | kMuxEncodeSuccess
  | kMuxEncodeLengthOverflow
deriving DecidableEq, Repr

/-- The DATA-frame loop of `muxEncodeChildPayload`, from `consumed` input bytes and `offset` output
bytes on: each round writes a header and then a chunk of at most `kMuxMaxDataFrameLength` input
bytes.  It returns the buffer and the final `offset`. -/
def muxWriteDataFrames (cid : UInt32) (input : List UInt8) (payload_length : Nat)
    (consumed offset : Nat) (out : SBuf) : Option (SBuf × Nat) :=
  if _ : consumed < payload_length then
    let chunk := min (payload_length - consumed) kMuxMaxDataFrameLength
    (sbufWriteAt out offset (muxSetMuxFrameHeader chunk cid kMuxFlagData)).bind fun out =>
      (sbufWriteAt out (offset + kMuxFrameLength) ((input.drop consumed).take chunk)).bind
        fun out =>
          muxWriteDataFrames cid input payload_length (consumed + chunk)
            (offset + kMuxFrameLength + chunk) out
  else some (out, offset)
termination_by payload_length - consumed
decreasing_by simp only [kMuxMaxDataFrameLength, kMuxFrameLength]; omega

/-- `muxEncodeChildPayload` on a target with a `w`-bit `size_t`: the result and `*encoded_out`, or
`none` for an abort.  Which buffers go back to the pool is not modelled. -/
def muxEncodeChildPayload (w : Nat) (pool : BufferPool) (input : SBuf) (cid : UInt32)
    (prepend_open : Bool) : Option (MuxEncodeResult × Option SBuf) :=
  let payload_length := sbufGetLength input
  if payload_length ≤ kMuxMaxDataFrameLength then
    -- the payload is framed in place
    let framed := if prepend_open then muxMakeMuxOpenDataFrames input cid
      else muxMakeMuxFrame input cid kMuxFlagData
    framed.map fun encoded => (.kMuxEncodeSuccess, some encoded)
  else
    match muxTryComputeEncodedLength payload_length prepend_open with
    | none => some (.kMuxEncodeLengthOverflow, none)
    | some encoded_length =>
      let encoded := bufferpoolGetLargeBuffer pool
      match sbufTryComputeCapacity w encoded_length (sbufGetLeftPadding encoded) with
      | none => some (.kMuxEncodeLengthOverflow, none)
      | some _ =>
        (sbufReserveSpace w encoded encoded_length).bind fun encoded =>
        (sbufSetLength encoded encoded_length).bind fun encoded =>
        (if prepend_open then
            (sbufWriteAt encoded 0 (muxSetMuxFrameHeader 0 cid kMuxFlagOpen)).map
              fun encoded => (encoded, kMuxFrameLength)
          else some (encoded, 0)).bind fun opened =>
        (muxWriteDataFrames cid input.payload payload_length 0 opened.2 opened.1).bind
          fun written =>
            -- `assert(offset == encoded_length)`
            if written.2 = encoded_length then some (.kMuxEncodeSuccess, some written.1)
            else none

/-! ## The encoded bytes -/

/-- One frame on the wire: its header and its payload. -/
def muxFrameBytes (cid : UInt32) (flag : UInt8) (payload : List UInt8) : List UInt8 :=
  muxSetMuxFrameHeader payload.length cid flag ++ payload

@[simp] theorem length_muxFrameBytes (cid : UInt32) (flag : UInt8) (payload : List UInt8) :
    (muxFrameBytes cid flag payload).length = kMuxFrameLength + payload.length := by
  simp [muxFrameBytes]

/-- How a payload is cut into DATA frames: pieces of `kMuxMaxDataFrameLength` bytes and a last
piece of at most that many; an empty payload is one empty piece. -/
def muxDataChunks (p : List UInt8) : List (List UInt8) :=
  if _ : p.length ≤ kMuxMaxDataFrameLength then [p]
  else p.take kMuxMaxDataFrameLength :: muxDataChunks (p.drop kMuxMaxDataFrameLength)
termination_by p.length
decreasing_by simp only [List.length_drop, kMuxMaxDataFrameLength, kMuxFrameLength]; omega

/-- The frames the encoder writes, as flag and payload: an OPEN frame when asked, then the DATA
frames. -/
def muxWirePlan (prepend_open : Bool) (p : List UInt8) : List (UInt8 × List UInt8) :=
  (if prepend_open then [(kMuxFlagOpen, [])] else []) ++
    (muxDataChunks p).map fun c => (kMuxFlagData, c)

/-- The bytes `muxEncodeChildPayload` is to produce. -/
def muxWire (cid : UInt32) (prepend_open : Bool) (p : List UInt8) : List UInt8 :=
  ((muxWirePlan prepend_open p).map fun f => muxFrameBytes cid f.1 f.2).flatten

/-- The frames the receiver is to read back: each header as `muxReadCompleteFrame` decodes it,
with the whole wire frame. -/
def muxWireFrames (cid : UInt32) (prepend_open : Bool) (p : List UInt8) :
    List (MuxFrame × List UInt8) :=
  (muxWirePlan prepend_open p).map fun f => (⟨f.2.length, f.1, 0, cid⟩, muxFrameBytes cid f.1 f.2)

/-- The DATA frames of a payload. -/
def muxDataFrames (cid : UInt32) (p : List UInt8) : List UInt8 :=
  ((muxDataChunks p).map (muxFrameBytes cid kMuxFlagData)).flatten

theorem muxDataChunks_of_le {p : List UInt8} (h : p.length ≤ kMuxMaxDataFrameLength) :
    muxDataChunks p = [p] := by
  rw [muxDataChunks, dif_pos h]

theorem muxDataChunks_of_lt {p : List UInt8} (h : kMuxMaxDataFrameLength < p.length) :
    muxDataChunks p = p.take kMuxMaxDataFrameLength :: muxDataChunks (p.drop kMuxMaxDataFrameLength) := by
  rw [muxDataChunks, dif_neg (by omega)]

theorem flatten_muxDataChunks (p : List UInt8) : (muxDataChunks p).flatten = p := by
  by_cases h : p.length ≤ kMuxMaxDataFrameLength
  · rw [muxDataChunks_of_le h, List.flatten_singleton]
  · rw [muxDataChunks_of_lt (by omega), List.flatten_cons, flatten_muxDataChunks,
      List.take_append_drop]
termination_by p.length
decreasing_by simp only [List.length_drop, kMuxMaxDataFrameLength, kMuxFrameLength] at *; omega

theorem length_le_of_mem_muxDataChunks {p c : List UInt8} (hc : c ∈ muxDataChunks p) :
    c.length ≤ kMuxMaxDataFrameLength := by
  by_cases h : p.length ≤ kMuxMaxDataFrameLength
  · rw [muxDataChunks_of_le h, List.mem_singleton] at hc
    rw [hc]
    exact h
  · rw [muxDataChunks_of_lt (by omega), List.mem_cons] at hc
    rcases hc with rfl | hc
    · simp
    · exact length_le_of_mem_muxDataChunks hc
termination_by p.length
decreasing_by simp only [List.length_drop, kMuxMaxDataFrameLength, kMuxFrameLength] at *; omega

/-- The number of DATA frames, as `muxTryComputeEncodedLength` counts them. -/
theorem length_muxDataChunks (p : List UInt8) :
    (muxDataChunks p).length =
      max 1 ((p.length + kMuxMaxDataFrameLength - 1) / kMuxMaxDataFrameLength) := by
  by_cases h : p.length ≤ kMuxMaxDataFrameLength
  · rw [muxDataChunks_of_le h, List.length_singleton]
    simp only [kMuxMaxDataFrameLength, kMuxFrameLength] at h ⊢
    omega
  · rw [muxDataChunks_of_lt (by omega), List.length_cons, length_muxDataChunks, List.length_drop]
    simp only [kMuxMaxDataFrameLength, kMuxFrameLength] at h ⊢
    omega
termination_by p.length
decreasing_by simp only [List.length_drop, kMuxMaxDataFrameLength, kMuxFrameLength] at *; omega

theorem muxDataChunks_ne_nil (p : List UInt8) : muxDataChunks p ≠ [] := by
  intro h
  have := length_muxDataChunks p
  rw [h, List.length_nil] at this
  omega

theorem muxDataFrames_eq (cid : UInt32) (p : List UInt8) :
    muxDataFrames cid p = muxFrameBytes cid kMuxFlagData (p.take kMuxMaxDataFrameLength) ++
      (if kMuxMaxDataFrameLength < p.length then
        muxDataFrames cid (p.drop kMuxMaxDataFrameLength) else []) := by
  by_cases h : kMuxMaxDataFrameLength < p.length
  · rw [muxDataFrames, muxDataChunks_of_lt h, if_pos h, List.map_cons, List.flatten_cons]
    rfl
  · rw [muxDataFrames, muxDataChunks_of_le (by omega), if_neg h, List.take_of_length_le (by omega)]
    simp

theorem length_muxDataFrames (cid : UInt32) (p : List UInt8) :
    (muxDataFrames cid p).length = p.length + kMuxFrameLength * (muxDataChunks p).length := by
  have hsum : ∀ cs : List (List UInt8), ((cs.map (muxFrameBytes cid kMuxFlagData)).flatten).length =
      cs.flatten.length + kMuxFrameLength * cs.length := by
    intro cs
    induction cs with
    | nil => simp
    | cons c cs ih =>
      simp only [List.map_cons, List.flatten_cons, List.length_append, ih, length_muxFrameBytes,
        List.length_cons]
      ring
  rw [muxDataFrames, hsum, flatten_muxDataChunks]

theorem muxWire_eq (cid : UInt32) (prepend_open : Bool) (p : List UInt8) :
    muxWire cid prepend_open p =
      (if prepend_open then muxFrameBytes cid kMuxFlagOpen [] else []) ++ muxDataFrames cid p := by
  cases prepend_open <;> simp [muxWire, muxWirePlan, muxDataFrames, Function.comp_def]

/-- What `muxTryComputeEncodedLength` computes: one header per DATA frame, and one for OPEN. -/
theorem muxTryComputeEncodedLength_spec {payload_length : Nat} {prepend_open : Bool}
    {encoded_length : Nat}
    (h : muxTryComputeEncodedLength payload_length prepend_open = some encoded_length) :
    encoded_length = payload_length +
      (max 1 ((payload_length + kMuxMaxDataFrameLength - 1) / kMuxMaxDataFrameLength) +
        (if prepend_open then 1 else 0)) * kMuxFrameLength ∧
      encoded_length ≤ UINT32_MAX := by
  unfold muxTryComputeEncodedLength at h
  dsimp only at h
  -- `data_frames` is raised to one for an empty payload
  have hframes : ∀ n : Nat, (if n = 0 then 1 else n) = max 1 n := by intro n; split <;> omega
  rw [hframes] at h
  generalize (if prepend_open = true then 1 else 0) = k at h ⊢
  split_ifs at h with hover
  cases h
  exact ⟨rfl, by omega⟩

/-- **The encoded length is the one `muxTryComputeEncodedLength` reports.** -/
theorem length_muxWire (cid : UInt32) {prepend_open : Bool} {p : List UInt8} {encoded_length : Nat}
    (h : muxTryComputeEncodedLength p.length prepend_open = some encoded_length) :
    (muxWire cid prepend_open p).length = encoded_length ∧ encoded_length ≤ UINT32_MAX := by
  obtain ⟨rfl, hle⟩ := muxTryComputeEncodedLength_spec h
  refine ⟨?_, hle⟩
  rw [muxWire_eq, List.length_append, length_muxDataFrames, length_muxDataChunks]
  cases prepend_open
  · simp
    ring
  · simp
    ring

/-! ## Reading back what was written -/

/-- A header reads back with its length reduced to 16 bits, whatever follows it. -/
theorem headerAt_muxSetMuxFrameHeader (n : Nat) (cid : UInt32) (flag : UInt8) (ys : List UInt8) :
    headerAt (muxSetMuxFrameHeader n cid flag ++ ys) = ⟨n % 65536, flag, 0, cid⟩ := by
  have h8 : (muxSetMuxFrameHeader n cid flag ++ ys).take 8 = muxSetMuxFrameHeader n cid flag :=
    List.take_left' (by simp [kMuxFrameLength])
  have h2 : (BigEndian.bytes 2 n).length = 2 := BigEndian.length_bytes 2 n
  have h4 : (BigEndian.bytes 2 n ++ [flag, 0]).length = 4 := by simp
  have hcid : (BigEndian.bytes 4 cid.toNat).take 4 = BigEndian.bytes 4 cid.toNat :=
    List.take_of_length_le (by simp)
  rw [headerAt, h8, muxSetMuxFrameHeader, List.drop_left' h4, hcid, List.append_assoc,
    List.take_left' h2, BigEndian.value_bytes, BigEndian.value_bytes]
  simp [List.getD_eq_getElem?_getD, h2, UInt32.ofNat_toNat]

theorem mod_of_le_kMuxMaxDataFrameLength {n : Nat} (h : n ≤ kMuxMaxDataFrameLength) :
    n % 65536 = n := by
  simp only [kMuxMaxDataFrameLength, kMuxFrameLength] at h
  omega

/-- **A frame reads back whole, whatever follows it**, when its payload fits the 16-bit length. -/
theorem muxFrameAt_muxFrameBytes {cid : UInt32} {flag : UInt8} {payload : List UInt8}
    (h : payload.length ≤ kMuxMaxDataFrameLength) (ys : List UInt8) :
    muxFrameAt (muxFrameBytes cid flag payload ++ ys) =
      some (⟨payload.length, flag, 0, cid⟩, muxFrameBytes cid flag payload) := by
  have hhdr : headerAt (muxFrameBytes cid flag payload ++ ys) = ⟨payload.length, flag, 0, cid⟩ := by
    rw [muxFrameBytes, List.append_assoc, headerAt_muxSetMuxFrameHeader,
      mod_of_le_kMuxMaxDataFrameLength h]
  have hlen : (muxFrameBytes cid flag payload ++ ys).length =
      payload.length + kMuxFrameLength + ys.length := by
    simp only [List.length_append, length_muxFrameBytes]
    omega
  have htake : (muxFrameBytes cid flag payload ++ ys).take (payload.length + kMuxFrameLength) =
      muxFrameBytes cid flag payload :=
    List.take_left' (by rw [length_muxFrameBytes, Nat.add_comm])
  rw [muxFrameAt, hhdr]
  dsimp only
  rw [if_neg (by omega), if_neg (by omega), htake]

/-- **No proper prefix of a frame is a frame**: while only part of it is buffered, the reader
waits. -/
theorem muxFrameAt_of_prefix {cid : UInt32} {flag : UInt8} {payload q : List UInt8}
    (h : payload.length ≤ kMuxMaxDataFrameLength) (hq : q <+: muxFrameBytes cid flag payload)
    (hlt : q.length < (muxFrameBytes cid flag payload).length) : muxFrameAt q = none := by
  rw [length_muxFrameBytes] at hlt
  by_cases h8 : q.length < kMuxFrameLength
  · rw [muxFrameAt, if_pos h8]
  -- the whole header is there, and part of the payload
  have hq' : q = muxSetMuxFrameHeader payload.length cid flag ++
      payload.take (q.length - kMuxFrameLength) := by
    rw [List.prefix_iff_eq_take.mp hq, muxFrameBytes, List.take_append,
      List.take_of_length_le (by simp; omega), length_muxSetMuxFrameHeader]
    simp
  have hhdr : headerAt q = ⟨payload.length, flag, 0, cid⟩ := by
    rw [hq', headerAt_muxSetMuxFrameHeader, mod_of_le_kMuxMaxDataFrameLength h]
  rw [muxFrameAt, if_neg h8, hhdr]
  dsimp only
  rw [if_pos (by omega)]

/-- A frame as the decoder meets it: its bytes, and the one frame it emits for them. -/
def muxFrameSeg (cid : UInt32) (f : UInt8 × List UInt8) : List UInt8 × List (MuxFrame × List UInt8) :=
  (muxFrameBytes cid f.1 f.2, [(⟨f.2.length, f.1, 0, cid⟩, muxFrameBytes cid f.1 f.2)])

/-- **Frames that fit the 16-bit length parse one by one**: written back to back they are an
honest trace of the decoder. -/
theorem muxDecoder_parses (cid : UInt32) (plan : List (UInt8 × List UInt8))
    (h : ∀ f ∈ plan, f.2.length ≤ kMuxMaxDataFrameLength) :
    muxDecoder.Parses () (plan.map (muxFrameSeg cid)) () := by
  induction plan with
  | nil => exact Decoder.Parses.nil ()
  | cons f plan ih =>
    have hf := h f List.mem_cons_self
    refine Decoder.Parses.cons ?_ ?_ (ih fun g hg => h g (List.mem_cons_of_mem f hg))
    · intro ys
      simp [muxDecoder, muxFrameAt_muxFrameBytes hf ys]
    · intro q hq hlt
      simp [muxDecoder, muxFrameAt_of_prefix hf hq hlt]

/-- **The encoder's bytes are an honest trace**: the OPEN frame, then every DATA frame. -/
theorem muxWire_parses (cid : UInt32) (prepend_open : Bool) (p : List UInt8) :
    muxDecoder.Parses () ((muxWirePlan prepend_open p).map (muxFrameSeg cid)) () := by
  apply muxDecoder_parses
  intro f hf
  simp only [muxWirePlan, List.mem_append, List.mem_map] at hf
  rcases hf with hopen | ⟨c, hc, rfl⟩
  · cases prepend_open <;> simp_all [kMuxMaxDataFrameLength]
  · exact length_le_of_mem_muxDataChunks hc

theorem input_muxWirePlan (cid : UInt32) (prepend_open : Bool) (p : List UInt8) :
    Decoder.input ((muxWirePlan prepend_open p).map (muxFrameSeg cid)) = muxWire cid prepend_open p := by
  simp [Decoder.input, muxWire, muxFrameSeg, Function.comp_def]

theorem output_muxWirePlan (cid : UInt32) (prepend_open : Bool) (p : List UInt8) :
    Decoder.output ((muxWirePlan prepend_open p).map (muxFrameSeg cid)) =
      muxWireFrames cid prepend_open p := by
  unfold Decoder.output muxWireFrames
  generalize muxWirePlan prepend_open p = plan
  induction plan with
  | nil => rfl
  | cons f plan ih => simp only [List.map_cons, List.flatten_cons, ih]; rfl

/-- **The receiver reads back what the encoder wrote**, however the bytes are cut into
deliveries: the frames of `muxWireFrames`, with nothing left in the stream. -/
theorem muxReceive_muxWire {cid : UInt32} {prepend_open : Bool} {p : List UInt8}
    (hmax : (muxWire cid prepend_open p).length ≤ UINT32_MAX) (cs : List (List UInt8))
    (hcs : cs.flatten = muxWire cid prepend_open p) :
    ∃ bs, muxReceive bufferstreamCreate cs = some (muxWireFrames cid prepend_open p, bs) ∧
      bs.content = [] := by
  have hfeed := Decoder.feed_of_parses (muxWire_parses cid prepend_open p)
    (hcs.trans (input_muxWirePlan cid prepend_open p).symm)
  obtain ⟨bs, hrecv, hc⟩ := muxReceive_eq cs bufferstreamCreate (by simp [bufferstreamCreate, hcs, hmax])
  rw [content_bufferstreamCreate, hfeed, output_muxWirePlan] at hrecv hc
  exact ⟨bs, hrecv, hc⟩

/-! ## The encoder writes the wire -/

theorem muxWriteDataFrames_done {cid : UInt32} {input : List UInt8}
    {payload_length consumed offset : Nat} {out : SBuf} (h : ¬consumed < payload_length) :
    muxWriteDataFrames cid input payload_length consumed offset out = some (out, offset) := by
  rw [muxWriteDataFrames, dif_neg h]

/-- **The DATA-frame loop writes the DATA frames of the rest of the input**, back to back from
`offset`, as long as they fit in the payload.  The loop invariant: after each round the frames of
the bytes consumed so far stand in front of `offset`. -/
theorem muxWriteDataFrames_spec (cid : UInt32) (input : List UInt8) (consumed offset : Nat)
    (out : SBuf) (hc : consumed < input.length)
    (hroom : offset + (muxDataFrames cid (input.drop consumed)).length ≤ out.len) :
    ∃ out', muxWriteDataFrames cid input input.length consumed offset out =
        some (out', offset + (muxDataFrames cid (input.drop consumed)).length) ∧
      out'.payload = overwrite out.payload offset (muxDataFrames cid (input.drop consumed)) ∧
      out'.len = out.len := by
  rw [muxWriteDataFrames, dif_pos hc]
  dsimp only
  generalize hchunk : min (input.length - consumed) kMuxMaxDataFrameLength = chunk
  have hchunk_pos : 0 < chunk := by
    simp only [kMuxMaxDataFrameLength, kMuxFrameLength] at hchunk
    omega
  -- the first frame carries the next `chunk` bytes of the input
  have hbody : (input.drop consumed).take chunk =
      (input.drop consumed).take kMuxMaxDataFrameLength := by
    rw [List.take_eq_take_iff, List.length_drop]
    omega
  have hbody_len : ((input.drop consumed).take chunk).length = chunk := by
    simp only [List.length_take, List.length_drop]
    omega
  have hframes := muxDataFrames_eq cid (input.drop consumed)
  rw [← hbody, muxFrameBytes, hbody_len] at hframes
  have hframe_len : (muxDataFrames cid (input.drop consumed)).length ≥ kMuxFrameLength + chunk := by
    rw [hframes, List.length_append, List.length_append, length_muxSetMuxFrameHeader, hbody_len]
    omega
  -- write the header, then the chunk behind it
  have hroom₁ : offset + (muxSetMuxFrameHeader chunk cid kMuxFlagData).length ≤ out.len := by
    rw [length_muxSetMuxFrameHeader]
    omega
  obtain ⟨out₁, hw₁, hp₁, -, hl₁, -⟩ := sbufWriteAt_inside hroom₁
  have hroom₂ : offset + kMuxFrameLength + ((input.drop consumed).take chunk).length ≤ out₁.len := by
    rw [hl₁, hbody_len]
    omega
  obtain ⟨out₂, hw₂, hp₂, -, hl₂, -⟩ := sbufWriteAt_inside hroom₂
  have hp₂' : out₂.payload = overwrite out.payload offset
      (muxSetMuxFrameHeader chunk cid kMuxFlagData ++ (input.drop consumed).take chunk) := by
    rw [hp₂, hp₁, ← length_muxSetMuxFrameHeader chunk cid kMuxFlagData, overwrite_overwrite]
    rw [length_muxSetMuxFrameHeader, SBuf.length_payload, hbody_len]
    omega
  rw [hw₁, Option.bind_some, hw₂, Option.bind_some]
  by_cases hmore : consumed + chunk < input.length
  · -- more frames follow: the loop goes on from the next chunk
    have hlt : kMuxMaxDataFrameLength < (input.drop consumed).length := by
      rw [List.length_drop]
      omega
    have hrest : input.drop (consumed + chunk) = (input.drop consumed).drop kMuxMaxDataFrameLength := by
      rw [List.drop_drop]
      congr 1
      omega
    rw [if_pos hlt, ← hrest] at hframes
    have hroom' : offset + kMuxFrameLength + chunk +
        (muxDataFrames cid (input.drop (consumed + chunk))).length ≤ out₂.len := by
      have := congrArg List.length hframes
      simp only [List.length_append, length_muxSetMuxFrameHeader, hbody_len] at this
      omega
    obtain ⟨out', hrun, hp', hl'⟩ := muxWriteDataFrames_spec cid input (consumed + chunk)
      (offset + kMuxFrameLength + chunk) out₂ hmore hroom'
    refine ⟨out', ?_, ?_, by rw [hl', hl₂, hl₁]⟩
    · rw [hrun, hframes]
      simp only [List.length_append, length_muxSetMuxFrameHeader, hbody_len]
      congr 2
      omega
    · have hpos : offset + kMuxFrameLength + chunk = offset +
          (muxSetMuxFrameHeader chunk cid kMuxFlagData ++ (input.drop consumed).take chunk).length := by
        simp only [List.length_append, length_muxSetMuxFrameHeader, hbody_len]
        omega
      rw [hp', hp₂', hpos, overwrite_overwrite, hframes, List.append_assoc]
      have := congrArg List.length hframes
      simp only [List.length_append, SBuf.length_payload] at this ⊢
      omega
  · -- that was the last frame
    have hle : ¬kMuxMaxDataFrameLength < (input.drop consumed).length := by
      rw [List.length_drop]
      omega
    rw [if_neg hle, List.append_nil] at hframes
    refine ⟨out₂, ?_, by rw [hp₂', hframes], by rw [hl₂, hl₁]⟩
    rw [muxWriteDataFrames_done hmore, hframes]
    simp only [List.length_append, length_muxSetMuxFrameHeader, hbody_len]
    congr 2
    omega
termination_by input.length - consumed
decreasing_by omega

theorem muxMakeMuxFrame_eq (cid : UInt32) (flag : UInt8) {buf : SBuf}
    (hlen : sbufGetLength buf ≤ kMuxMaxDataFrameLength)
    (hpad : kMuxFrameLength ≤ sbufGetLeftCapacity buf) :
    ∃ b, muxMakeMuxFrame buf cid flag = some b ∧ b.payload = muxFrameBytes cid flag buf.payload := by
  have hhdr : (muxSetMuxFrameHeader (sbufGetLength buf) cid flag).length ≤ buf.curpos := by
    rw [length_muxSetMuxFrameHeader]
    exact hpad
  obtain ⟨b, hb, hpay, -, -⟩ := sbufWrite_sbufShiftLeft hhdr
  refine ⟨b, ?_, ?_⟩
  · rw [muxMakeMuxFrame, if_pos hlen, ← hb, length_muxSetMuxFrameHeader]
  · rw [hpay, muxFrameBytes, SBuf.length_payload]
    rfl

/-- `muxMakeMuxOpenDataFrames` puts an OPEN frame and a DATA header in front of the payload. -/
theorem muxMakeMuxOpenDataFrames_eq (cid : UInt32) {buf : SBuf}
    (hlen : sbufGetLength buf ≤ kMuxMaxDataFrameLength)
    (hpad : kMuxFrameLength * 2 ≤ sbufGetLeftCapacity buf) :
    ∃ b, muxMakeMuxOpenDataFrames buf cid = some b ∧
      b.payload = muxFrameBytes cid kMuxFlagOpen [] ++ muxFrameBytes cid kMuxFlagData buf.payload := by
  have hcur : kMuxFrameLength * 2 ≤ buf.curpos := hpad
  have hfit := buf.fits
  -- the sixteen padding bytes the shift exposes, in front of the payload
  have hp₁ := SBuf.payload_shiftLeft buf _ hcur
  generalize hX : (buf.mem.drop (buf.curpos - kMuxFrameLength * 2)).take (kMuxFrameLength * 2) = X
    at hp₁
  have hXlen : X.length = kMuxFrameLength * 2 := by
    rw [← hX, List.length_take, List.length_drop]
    omega
  have hroom₂ : 0 + (muxSetMuxFrameHeader 0 cid kMuxFlagOpen).length ≤
      (buf.shiftLeft (kMuxFrameLength * 2) hcur).len := by
    simp [kMuxFrameLength]
  obtain ⟨b₂, hw₂, hp₂, -, hl₂, -⟩ := sbufWriteAt_inside hroom₂
  have hroom₃ : kMuxFrameLength +
      (muxSetMuxFrameHeader (sbufGetLength buf) cid kMuxFlagData).length ≤ b₂.len := by
    simp [hl₂, kMuxFrameLength]
  obtain ⟨b₃, hw₃, hp₃, -, -, -⟩ := sbufWriteAt_inside hroom₃
  refine ⟨b₃, ?_, ?_⟩
  · rw [muxMakeMuxOpenDataFrames]
    dsimp only
    rw [if_pos hlen, sbufShiftLeft_eq hcur, Option.bind_some, sbufWrite, hw₂, Option.bind_some, hw₃]
  · -- the two headers are one write of both, over the exposed padding
    have hk : kMuxFrameLength = 0 + (muxSetMuxFrameHeader 0 cid kMuxFlagOpen).length := by simp
    rw [hp₃, hp₂, hp₁, hk, overwrite_overwrite (by simp [hXlen]; omega)]
    rw [show X ++ buf.payload = [] ++ X ++ buf.payload from rfl, List.length_nil.symm,
      overwrite_append (by simp [hXlen, kMuxFrameLength])]
    simp [muxFrameBytes, sbufGetLength]

/-- **A short payload is framed in place**, given room for the headers in the left padding. -/
theorem muxEncodeChildPayload_small {w : Nat} {pool : BufferPool} {input : SBuf} {cid : UInt32}
    {prepend_open : Bool} (hlen : sbufGetLength input ≤ kMuxMaxDataFrameLength)
    (hpad : (if prepend_open then kMuxFrameLength * 2 else kMuxFrameLength) ≤
      sbufGetLeftCapacity input) :
    ∃ encoded, muxEncodeChildPayload w pool input cid prepend_open =
        some (.kMuxEncodeSuccess, some encoded) ∧
      encoded.payload = muxWire cid prepend_open input.payload := by
  have hp : input.payload.length ≤ kMuxMaxDataFrameLength := by
    rw [SBuf.length_payload]
    exact hlen
  have hwire : muxWire cid prepend_open input.payload =
      (if prepend_open then muxFrameBytes cid kMuxFlagOpen [] else []) ++
        muxFrameBytes cid kMuxFlagData input.payload := by
    rw [muxWire_eq, muxDataFrames, muxDataChunks_of_le hp]
    simp
  cases prepend_open with
  | false =>
    obtain ⟨b, hb, hpay⟩ := muxMakeMuxFrame_eq cid kMuxFlagData hlen hpad
    refine ⟨b, ?_, by rw [hpay, hwire]; rfl⟩
    simp [muxEncodeChildPayload, hlen, hb]
  | true =>
    obtain ⟨b, hb, hpay⟩ := muxMakeMuxOpenDataFrames_eq cid hlen hpad
    refine ⟨b, ?_, by rw [hpay, hwire]; rfl⟩
    simp [muxEncodeChildPayload, hlen, hb]

/-- The OPEN frame the long path writes at the front, if asked for. -/
theorem muxEncodeChildPayload_open (cid : UInt32) (prepend_open : Bool) {e : SBuf}
    (hroom : kMuxFrameLength ≤ e.len) :
    ∃ e', (if prepend_open then
          (sbufWriteAt e 0 (muxSetMuxFrameHeader 0 cid kMuxFlagOpen)).map
            fun encoded => (encoded, kMuxFrameLength)
        else some (e, 0)) =
        some (e', (if prepend_open then muxFrameBytes cid kMuxFlagOpen [] else []).length) ∧
      e'.payload = overwrite e.payload 0
        (if prepend_open then muxFrameBytes cid kMuxFlagOpen [] else []) ∧ e'.len = e.len := by
  cases prepend_open with
  | false => exact ⟨e, rfl, by simp [overwrite], rfl⟩
  | true =>
    have hin : 0 + (muxSetMuxFrameHeader 0 cid kMuxFlagOpen).length ≤ e.len := by simpa using hroom
    obtain ⟨e', hw, hp, -, hl, -⟩ := sbufWriteAt_inside hin
    refine ⟨e', by simp [hw], by simp [hp, muxFrameBytes], hl⟩

/-- **A long payload is copied out as a run of DATA frames**, when the buffer for it can be
sized. -/
theorem muxEncodeChildPayload_large {w : Nat} {pool : BufferPool} {input : SBuf} {cid : UInt32}
    {prepend_open : Bool} {encoded_length cap : Nat}
    (hlen : kMuxMaxDataFrameLength < sbufGetLength input)
    (henc : muxTryComputeEncodedLength (sbufGetLength input) prepend_open = some encoded_length)
    (hcap : sbufTryComputeCapacity w encoded_length
      (sbufGetLeftPadding (bufferpoolGetLargeBuffer pool)) = some cap) :
    ∃ encoded, muxEncodeChildPayload w pool input cid prepend_open =
        some (.kMuxEncodeSuccess, some encoded) ∧
      encoded.payload = muxWire cid prepend_open input.payload := by
  have hL : sbufGetLength input = input.payload.length := (SBuf.length_payload input).symm
  obtain ⟨hwire, -⟩ := length_muxWire cid (hL ▸ henc)
  rw [muxWire_eq, List.length_append] at hwire
  generalize hO : (if prepend_open then muxFrameBytes cid kMuxFlagOpen [] else []) = O at hwire
  -- the large buffer, grown to hold the whole encoding
  have hcap' : sbufTryComputeCapacity w (max (bufferpoolGetLargeBuffer pool).len encoded_length)
      (bufferpoolGetLargeBuffer pool).lpad = some cap := by
    simpa [bufferpoolGetLargeBuffer, emptyBuffer, sbufGetLeftPadding] using hcap
  obtain ⟨e₁, hres, -, hmax⟩ := sbufReserveSpace_eq hcap'
  have hset : e₁.curpos + encoded_length ≤ e₁.mem.length := by
    have := e₁.fits
    simp only [sbufGetMaximumWriteableSize] at hmax
    omega
  -- the OPEN frame at the front
  have hopen_room : kMuxFrameLength ≤ (e₁.setLength encoded_length hset).len := by
    have hDF : kMuxFrameLength ≤ (muxDataFrames cid input.payload).length := by
      rw [length_muxDataFrames]
      have hn := List.length_pos_iff.mpr (muxDataChunks_ne_nil input.payload)
      calc kMuxFrameLength ≤ kMuxFrameLength * (muxDataChunks input.payload).length :=
            Nat.le_mul_of_pos_right _ hn
        _ ≤ _ := Nat.le_add_left _ _
    simp only [SBuf.setLength_len]
    omega
  obtain ⟨e₃, hopen, hp₃, hl₃⟩ := muxEncodeChildPayload_open cid prepend_open
    hopen_room
  rw [hO] at hopen hp₃
  -- then the DATA frames behind it
  have hpos : 0 < input.payload.length := by omega
  have hdata_room : O.length + (muxDataFrames cid (input.payload.drop 0)).length ≤ e₃.len := by
    simp [hl₃]
    omega
  obtain ⟨e₄, hrun, hp₄, -⟩ := muxWriteDataFrames_spec cid input.payload 0 O.length e₃ hpos hdata_room
  refine ⟨e₄, ?_, ?_⟩
  · simp only [muxEncodeChildPayload, if_neg (Nat.not_le_of_lt hlen), henc, hcap, hres,
      Option.bind_some, sbufSetLength_eq hset, hopen]
    rw [← hL] at hrun
    simp only [hrun, Option.bind_some, List.drop_zero]
    rw [if_pos (by omega)]
  · rw [hp₄, hp₃, List.drop_zero, muxWire_eq, hO]
    have hO_len : O.length ≤ (e₁.setLength encoded_length hset).payload.length := by
      simp
      omega
    rw [show O.length = 0 + O.length from (Nat.zero_add _).symm, overwrite_overwrite (by simp; omega),
      overwrite_of_length_eq (by simp; omega)]

/-! ## The round trip -/

/-- The reader leaves a stream alone while it holds no complete frame. -/
theorem muxReadCompleteFrame_of_muxFrameAt {bs : BufferStream} (h : muxFrameAt bs.content = none) :
    muxReadCompleteFrame bs = some (none, bs) := by
  rcases muxReadCompleteFrame_eq bs with ⟨-, hread⟩ | ⟨fr, bs', hfr, -, -⟩
  · exact hread
  · rw [h] at hfr
    cases hfr

theorem drop_muxFrameBytes (cid : UInt32) (flag : UInt8) (payload : List UInt8) :
    (muxFrameBytes cid flag payload).drop kMuxFrameLength = payload :=
  List.drop_left' (length_muxSetMuxFrameHeader _ _ _)

/-- What the frames read back are: the OPEN frame when asked for, then DATA frames of the
connection, at least one, each at most `kMuxMaxDataFrameLength` bytes long, whose payloads make up
the input. -/
theorem muxWireFrames_spec (cid : UInt32) (prepend_open : Bool) (p : List UInt8) :
    ∃ data, muxWireFrames cid prepend_open p = (if prepend_open then
        [(⟨0, kMuxFlagOpen, 0, cid⟩, muxFrameBytes cid kMuxFlagOpen [])] else []) ++ data ∧
      data ≠ [] ∧
      (∀ fr ∈ data, fr.1 = ⟨(fr.2.drop kMuxFrameLength).length, kMuxFlagData, 0, cid⟩ ∧
        fr.1.length ≤ kMuxMaxDataFrameLength) ∧
      (data.map fun fr => fr.2.drop kMuxFrameLength).flatten = p := by
  refine ⟨(muxDataChunks p).map fun c => (⟨c.length, kMuxFlagData, 0, cid⟩,
    muxFrameBytes cid kMuxFlagData c), ?_, ?_, ?_, ?_⟩
  · cases prepend_open <;> simp [muxWireFrames, muxWirePlan]
  · simpa using muxDataChunks_ne_nil p
  · intro fr hfr
    obtain ⟨c, hc, rfl⟩ := List.mem_map.mp hfr
    exact ⟨by rw [drop_muxFrameBytes], length_le_of_mem_muxDataChunks hc⟩
  · simp only [List.map_map, Function.comp_def, drop_muxFrameBytes, List.map_id']
    exact flatten_muxDataChunks p

/-- **The MUX round trip.**  When `muxTryComputeEncodedLength` accepts the payload, a short payload
has room for its headers in the left padding and the buffer for a long one can be sized,
`muxEncodeChildPayload` succeeds with exactly the reported number of bytes.  Delivered to the
receiver in any chunks, they are read back as the OPEN frame (when asked for) and at least one
DATA frame of the connection, each at most `kMuxMaxDataFrameLength` bytes long, whose payloads make
up the input; the stream is left empty and the reader finds no frame in it.  And the reader leaves
alone any stream that holds no complete frame. -/
theorem muxEncodeChildPayload_muxReceive {w : Nat} {pool : BufferPool} {input : SBuf}
    {cid : UInt32} {prepend_open : Bool} {encoded_length : Nat}
    (henc : muxTryComputeEncodedLength (sbufGetLength input) prepend_open = some encoded_length)
    (hsmall : sbufGetLength input ≤ kMuxMaxDataFrameLength →
      (if prepend_open then kMuxFrameLength * 2 else kMuxFrameLength) ≤ sbufGetLeftCapacity input)
    (hlarge : kMuxMaxDataFrameLength < sbufGetLength input →
      (sbufTryComputeCapacity w encoded_length
        (sbufGetLeftPadding (bufferpoolGetLargeBuffer pool))).isSome) :
    (∃ encoded, muxEncodeChildPayload w pool input cid prepend_open =
        some (.kMuxEncodeSuccess, some encoded) ∧ sbufGetLength encoded = encoded_length ∧
      ∀ cs : List (List UInt8), cs.flatten = encoded.payload →
        ∃ frames bs, muxReceive bufferstreamCreate cs = some (frames, bs) ∧
          bs.content = [] ∧ muxReadCompleteFrame bs = some (none, bs) ∧
          ∃ data, frames = (if prepend_open then
              [(⟨0, kMuxFlagOpen, 0, cid⟩, muxFrameBytes cid kMuxFlagOpen [])] else []) ++ data ∧
            data ≠ [] ∧
            (∀ fr ∈ data, fr.1 = ⟨(fr.2.drop kMuxFrameLength).length, kMuxFlagData, 0, cid⟩ ∧
              fr.1.length ≤ kMuxMaxDataFrameLength) ∧
            (data.map fun fr => fr.2.drop kMuxFrameLength).flatten = input.payload) ∧
    ∀ bs : BufferStream, muxFrameAt bs.content = none → muxReadCompleteFrame bs = some (none, bs) := by
  have hL : sbufGetLength input = input.payload.length := (SBuf.length_payload input).symm
  obtain ⟨hlen, hmax⟩ := length_muxWire cid (hL ▸ henc)
  -- both paths of the encoder write `muxWire`
  obtain ⟨encoded, hencode, hpay⟩ : ∃ encoded, muxEncodeChildPayload w pool input cid prepend_open =
      some (.kMuxEncodeSuccess, some encoded) ∧
      encoded.payload = muxWire cid prepend_open input.payload := by
    by_cases hs : sbufGetLength input ≤ kMuxMaxDataFrameLength
    · exact muxEncodeChildPayload_small hs (hsmall hs)
    · obtain ⟨cap, hcap⟩ := Option.isSome_iff_exists.mp (hlarge (Nat.lt_of_not_le hs))
      exact muxEncodeChildPayload_large (Nat.lt_of_not_le hs) henc hcap
  refine ⟨⟨encoded, hencode, ?_, ?_⟩, fun bs h => muxReadCompleteFrame_of_muxFrameAt h⟩
  · rw [sbufGetLength, ← SBuf.length_payload, hpay, hlen]
  · intro cs hcs
    obtain ⟨bs, hrecv, hbs⟩ := muxReceive_muxWire (hlen ▸ hmax) cs (hcs.trans hpay)
    have hnone : muxFrameAt bs.content = none := by
      rw [hbs, muxFrameAt, if_pos (by simp [kMuxFrameLength])]
    exact ⟨_, bs, hrecv, hbs, muxReadCompleteFrame_of_muxFrameAt hnone,
      muxWireFrames_spec cid prepend_open input.payload⟩

/-- Both paths of the encoder.  One byte, sent with an OPEN frame in front, is framed in place as
seventeen bytes.  65528 bytes, one more than a DATA frame holds, are copied into two DATA frames,
65544 bytes in all, and are read back whole however the receiver gets them. -/
theorem muxEncodeChildPayload_muxReceive_bothPaths :
    (∃ encoded, muxEncodeChildPayload 64 ⟨0, 0, 0, 0⟩ (SBuf.ofPayload 16 [7]) 1 true =
      some (.kMuxEncodeSuccess, some encoded) ∧ sbufGetLength encoded = 17) ∧
    ∃ encoded, muxEncodeChildPayload 64 ⟨0, 0, 0, 0⟩ (SBuf.ofPayload 0 (List.replicate 65528 7)) 1
        false = some (.kMuxEncodeSuccess, some encoded) ∧ sbufGetLength encoded = 65544 ∧
      ∀ cs : List (List UInt8), cs.flatten = encoded.payload →
        ∃ frames bs, muxReceive bufferstreamCreate cs = some (frames, bs) ∧ bs.content = [] ∧
          (frames.map fun fr => fr.2.drop kMuxFrameLength).flatten = List.replicate 65528 7 := by
  have hlen : sbufGetLength (SBuf.ofPayload 0 (List.replicate 65528 (7 : UInt8))) = 65528 := by
    rw [sbufGetLength, SBuf.len_ofPayload, List.length_replicate]
  refine ⟨(muxEncodeChildPayload_muxReceive (by decide) (fun _ => by decide)
    (fun h => absurd h (by decide))).1.imp fun _ h => ⟨h.1, h.2.1⟩, ?_⟩
  -- the long path: past one DATA frame, so the in-place condition is vacuous
  obtain ⟨encoded, hencode, hsize, hrecv⟩ := (@muxEncodeChildPayload_muxReceive 64 ⟨0, 0, 0, 0⟩
    (SBuf.ofPayload 0 (List.replicate 65528 7)) 1 false 65544 (by rw [hlen]; decide)
    (fun h => absurd (hlen ▸ h) (by decide)) (fun _ => by decide)).1
  refine ⟨encoded, hencode, hsize, fun cs hcs => ?_⟩
  obtain ⟨frames, bs, hr, hbs, -, data, hframes, -, -, hdata⟩ := hrecv cs hcs
  refine ⟨frames, bs, hr, hbs, ?_⟩
  rw [hframes, if_neg Bool.false_ne_true, List.nil_append, hdata, SBuf.payload_ofPayload]

/-- **The long path reports an overflow** when the encoded length does not fit 32 bits, or when
the buffer for it cannot be sized. -/
theorem muxEncodeChildPayload_of_overflow {w : Nat} {pool : BufferPool} {input : SBuf}
    {cid : UInt32} {prepend_open : Bool} (hlen : kMuxMaxDataFrameLength < sbufGetLength input)
    (hfail : muxTryComputeEncodedLength (sbufGetLength input) prepend_open = none ∨
      ∃ encoded_length,
        muxTryComputeEncodedLength (sbufGetLength input) prepend_open = some encoded_length ∧
        sbufTryComputeCapacity w encoded_length
          (sbufGetLeftPadding (bufferpoolGetLargeBuffer pool)) = none) :
    muxEncodeChildPayload w pool input cid prepend_open = some (.kMuxEncodeLengthOverflow, none) := by
  rcases hfail with henc | ⟨encoded_length, henc, hcap⟩
  · simp only [muxEncodeChildPayload, if_neg (Nat.not_le_of_lt hlen), henc]
  · simp only [muxEncodeChildPayload, if_neg (Nat.not_le_of_lt hlen), henc, hcap]

/-- **The capacity check of the long path can fail where the length check passes.**  A payload of
4294442937 bytes makes 65537 DATA frames, 4294967233 bytes in all, which fits 32 bits; but
`sbufTryComputeCapacity` rounds it up to a whole number of cache lines, 2^32 bytes, which does
not, so the encoder reports `kMuxEncodeLengthOverflow` whatever the pool and the `size_t`. -/
theorem muxEncodeChildPayload_of_capacity_rounding (w : Nat) (pool : BufferPool) (cid : UInt32) :
    muxTryComputeEncodedLength 4294442937 false = some 4294967233 ∧
      muxEncodeChildPayload w pool (SBuf.ofPayload 0 (List.replicate 4294442937 0)) cid false =
        some (.kMuxEncodeLengthOverflow, none) := by
  have hlen : muxTryComputeEncodedLength 4294442937 false = some 4294967233 := by decide
  have hcap : ∀ pad, sbufTryComputeCapacity w 4294967233 pad = none := by
    intro pad
    cases hc : sbufTryComputeCapacity w 4294967233 pad with
    | none => rfl
    | some total =>
      -- a whole number of cache lines of at least 4294967233 bytes is at least 2^32
      obtain ⟨capacity, rfl, hmin, hmod, hle⟩ := sbufTryComputeCapacityWithin_spec hc
      simp only [kCpuLineCacheSize, UINT32_MAX] at hmod hle
      omega
  -- the payload is never built: its length is rewritten, never computed
  have hinput : sbufGetLength (SBuf.ofPayload 0 (List.replicate 4294442937 0)) = 4294442937 := by
    rw [sbufGetLength, ← SBuf.length_payload, SBuf.payload_ofPayload, List.length_replicate]
  have henc : muxTryComputeEncodedLength
      (sbufGetLength (SBuf.ofPayload 0 (List.replicate 4294442937 0))) false = some 4294967233 := by
    rw [hinput]
    exact hlen
  have hlong : kMuxMaxDataFrameLength <
      sbufGetLength (SBuf.ofPayload 0 (List.replicate 4294442937 0)) := by
    rw [hinput]
    decide
  exact ⟨hlen, muxEncodeChildPayload_of_overflow hlong (.inr ⟨_, henc, hcap _⟩)⟩

/-- On a 64-bit target, with a pool whose buffers have no padding. -/
theorem muxEncodeChildPayload_capacityOverflow :
    muxTryComputeEncodedLength 4294442937 false = some 4294967233 ∧
      muxEncodeChildPayload 64 ⟨0, 0, 0, 0⟩ (SBuf.ofPayload 0 (List.replicate 4294442937 0)) 1
        false = some (.kMuxEncodeLengthOverflow, none) :=
  muxEncodeChildPayload_of_capacity_rounding 64 ⟨0, 0, 0, 0⟩ 1

end Mux
end WaterWall
