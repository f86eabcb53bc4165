import WaterWall.Incremental.Decoder
import WaterWall.Bufio.BufferStream
import WaterWall.Libc.Hex

/-!
# HTTP/1.1 chunked transfer coding between HttpClient and HttpServer

An HTTP/1.1 body of unknown length goes out chunked: each payload behind its size in hexadecimal
and a CRLF, followed by a CRLF, and the body ends with the chunk of size zero and the empty line
that ends its trailer.  HttpClient sends request bodies so and HttpServer decodes them, and the
other way round for responses.  The two senders are the same code (`sendHttp1ChunkedPayload`), and
so are the two decoders (`drainHttp1ChunkedBody`).

* The sender writes the size line into the payload's left padding when it fits and sends it ahead
  otherwise, and likewise the CRLF behind it.  `sendHttp1ChunkedPayload_spec`: either way, the
  bytes sent are `chunkBytes` of the payload.
* The decoder is a three-state loop over the line's `buffer_stream_t`: a size line is awaited
  (`h1_chunk_expected < 0`), a chunk and its CRLF are awaited (`> 0`), or the trailer is scanned
  (`= 0`) until the empty line.  `chunkedDecoder` is that machine as a `Decoder` of the
  `Incremental` library, and `drainHttp1ChunkedBody_refines` says one call of the loop is a drain
  of it, whatever the queue looks like; `deliver_receiveChunkedPayload` lifts this to any sequence
  of payloads.

The decoder cannot tell a chunk of size zero from the end of the body: `chunkBytes []` is the
last chunk itself, so an empty payload given to the sender ends the body early
(`deliver_of_emptyChunk`).  Non-empty payloads go through unchanged in any partition
(`deliver_chunkedBody`).
-/

set_option autoImplicit false

namespace WaterWall
namespace Http

open Incremental Libc

/-- `"\r\n"`. -/
def crlf : List UInt8 := [13, 10]

@[simp] theorem length_crlf : crlf.length = 2 := rfl

def INT64_MAX : Nat := 2 ^ 63 - 1

/-! ## The sender -/

/-- The loop of `sendBytesUp` / `sendBytesDown`: `min(rem, max_chunk)` bytes at a time, each in a
buffer of its own. -/
def sendBytesLoop (max_chunk : Nat) (rem : List UInt8) : List (List UInt8) :=
  if _ : 0 < rem.length ∧ 0 < max_chunk then
    rem.take (min rem.length max_chunk) :: sendBytesLoop max_chunk (rem.drop (min rem.length max_chunk))
  else []
termination_by rem.length
decreasing_by simp only [List.length_drop]; omega

/-- `sendBytesUp` / `sendBytesDown` on a line that can send: the buffers handed to the neighbour,
`max_chunk` being `bufferpoolGetLargeBufferSize`.  `none` is the `false` return for a pool without
large buffers. -/
def sendBytes (max_chunk : Nat) (data : List UInt8) : Option (List (List UInt8)) :=
  if data.length = 0 then some []
  else if max_chunk = 0 then none
  else some (sendBytesLoop max_chunk data)

/-- `chunk_prefix`, `snprintf(chunk_prefix, sizeof(chunk_prefix), "%x\r\n", payload_len)`. -/
def chunkPrefix (payload_len : Nat) : List UInt8 := printHex payload_len ++ crlf

/-- The first half of the chunked send: `chunk_prefix` goes into the payload's left padding when
it fits, and out ahead of the payload otherwise.  What was sent, and the payload buffer. -/
def writeChunkPrefix (max_chunk : Nat) (payload : SBuf) : Option (List (List UInt8) × SBuf) :=
  let chunk_prefix := chunkPrefix (sbufGetLength payload)
  let prefix_len := chunk_prefix.length
  if prefix_len ≤ sbufGetLeftCapacity payload then
    ((sbufShiftLeft payload prefix_len).bind fun b => sbufWrite b chunk_prefix).map fun b => ([], b)
  else (sendBytes max_chunk chunk_prefix).map fun sent => (sent, payload)

/-- The second half: the CRLF goes into the room behind the payload when there is room for it
(`old_len + 2` is a `uint32_t` sum), and out after the payload otherwise. -/
def writeChunkTail (max_chunk : Nat) (payload : SBuf) : Option (List (List UInt8)) :=
  let old_len := sbufGetLength payload
  if (old_len + 2) % 2 ^ 32 ≤ sbufGetMaximumWriteableSize payload then
    ((sbufSetLength payload ((old_len + 2) % 2 ^ 32)).bind fun b => sbufWriteAt b old_len crlf).map
      fun b => [b.payload]
  else (sendBytes max_chunk crlf).map fun tail => payload.payload :: tail

/-- The chunked send shared by `httpclientTransportSendHttp1ChunkedPayload` and
`httpserverTransportSendHttp1ChunkedPayload`, on a line that can send: the buffers handed to the
neighbour, in order.  `snprintf` always writes the size line, so the `prefix_len <= 0` path is
never taken. -/
def sendHttp1ChunkedPayload (max_chunk : Nat) (payload : SBuf) : Option (List (List UInt8)) :=
  (writeChunkPrefix max_chunk payload).bind fun r =>
    (writeChunkTail max_chunk r.2).map fun tail => r.1 ++ tail

def httpclientTransportSendHttp1ChunkedPayload (max_chunk : Nat) (payload : SBuf) :
    Option (List (List UInt8)) :=
  sendHttp1ChunkedPayload max_chunk payload

def httpserverTransportSendHttp1ChunkedPayload (max_chunk : Nat) (payload : SBuf) :
    Option (List (List UInt8)) :=
  sendHttp1ChunkedPayload max_chunk payload

/-- `"0\r\n\r\n"`: the last chunk and the empty line that ends its trailer. -/
def lastChunk : List UInt8 := [48, 13, 10, 13, 10]

def httpclientTransportSendHttp1FinalChunk (max_chunk : Nat) : Option (List (List UInt8)) :=
  sendBytes max_chunk lastChunk

def httpserverTransportSendHttp1FinalChunk (max_chunk : Nat) : Option (List (List UInt8)) :=
  sendBytes max_chunk lastChunk

/-- A body sent chunked: each payload through `sendPayload`, then the last chunk through
`sendFinal`.  What the neighbour receives, buffer by buffer. -/
def sendChunkedBody (sendPayload : SBuf → Option (List (List UInt8)))
    (sendFinal : Option (List (List UInt8))) : List SBuf → Option (List (List UInt8))
  | [] => sendFinal
  | p :: ps => (sendPayload p).bind fun sent =>
      (sendChunkedBody sendPayload sendFinal ps).map fun rest => sent ++ rest

/-! ## What the sender sends -/

/-- A payload on the wire: its size line, the payload, and a CRLF. -/
def chunkBytes (p : List UInt8) : List UInt8 := chunkPrefix p.length ++ p ++ crlf

theorem flatten_sendBytesLoop {max_chunk : Nat} (hmax : 0 < max_chunk) (rem : List UInt8) :
    (sendBytesLoop max_chunk rem).flatten = rem := by
  induction h : rem.length using Nat.strong_induction_on generalizing rem with
  | _ n ih =>
    rw [sendBytesLoop]
    by_cases hpos : 0 < rem.length
    · rw [dif_pos ⟨hpos, hmax⟩, List.flatten_cons,
        ih _ (by simp only [List.length_drop]; omega) _ rfl, List.take_append_drop]
    · rw [dif_neg (fun h => hpos h.1), List.flatten_nil]
      exact (List.eq_nil_of_length_eq_zero (by omega)).symm

theorem sendBytes_spec {max_chunk : Nat} (hmax : 0 < max_chunk) (data : List UInt8) :
    ∃ sent, sendBytes max_chunk data = some sent ∧ sent.flatten = data := by
  by_cases hd : data.length = 0
  · exact ⟨[], by rw [sendBytes, if_pos hd], (List.eq_nil_of_length_eq_zero hd).symm⟩
  · exact ⟨_, by rw [sendBytes, if_neg hd, if_neg (by omega)], flatten_sendBytesLoop hmax data⟩

theorem length_chunkPrefix_le {n : Nat} (hn : n < 2 ^ 32) : (chunkPrefix n).length ≤ 10 := by
  have h := length_printHex_le (show 0 < 8 by omega) (show n < 16 ^ 8 by simpa using hn)
  simp only [chunkPrefix, List.length_append, length_crlf]
  omega

theorem writeChunkPrefix_spec {max_chunk : Nat} (hmax : 0 < max_chunk) (payload : SBuf) :
    ∃ sent b, writeChunkPrefix max_chunk payload = some (sent, b) ∧
      sent.flatten ++ b.payload = chunkPrefix (sbufGetLength payload) ++ payload.payload ∧
      (sbufGetLength b = (chunkPrefix (sbufGetLength payload)).length + sbufGetLength payload ∨
        sbufGetLength b = sbufGetLength payload) := by
  by_cases hfit : (chunkPrefix (sbufGetLength payload)).length ≤ sbufGetLeftCapacity payload
  · -- into the padding: one buffer, longer by the size line
    obtain ⟨b, hb, hpay, -, -⟩ := sbufWrite_sbufShiftLeft hfit
    refine ⟨[], b, ?_, by rw [hpay]; rfl, .inl ?_⟩
    · simp only [writeChunkPrefix, if_pos hfit, hb, Option.map_some]
    · rw [sbufGetLength, ← SBuf.length_payload, hpay, List.length_append, SBuf.length_payload]
      rfl
  · -- ahead of the payload, in buffers of its own
    obtain ⟨sent, hsent, hflat⟩ := sendBytes_spec hmax (chunkPrefix (sbufGetLength payload))
    refine ⟨sent, payload, ?_, by rw [hflat], .inr rfl⟩
    simp only [writeChunkPrefix, if_neg hfit, hsent, Option.map_some]

theorem writeChunkTail_spec {max_chunk : Nat} (hmax : 0 < max_chunk) (payload : SBuf)
    (hlen : sbufGetLength payload + 2 < 2 ^ 32) :
    ∃ sent, writeChunkTail max_chunk payload = some sent ∧
      sent.flatten = payload.payload ++ crlf := by
  have hmod : (sbufGetLength payload + 2) % 2 ^ 32 = payload.len + crlf.length := by
    rw [Nat.mod_eq_of_lt hlen]
    rfl
  by_cases hroom : (sbufGetLength payload + 2) % 2 ^ 32 ≤ sbufGetMaximumWriteableSize payload
  · -- into the room behind the payload
    have h : payload.curpos + (payload.len + crlf.length) ≤ payload.mem.length := by
      have hfit := payload.fits
      rw [hmod] at hroom
      simp only [sbufGetMaximumWriteableSize] at hroom
      omega
    obtain ⟨b, hb, hpay, -⟩ := sbufWriteAt_sbufSetLength h
    have hb' : ((sbufSetLength payload ((sbufGetLength payload + 2) % 2 ^ 32)).bind
        fun b₁ => sbufWriteAt b₁ (sbufGetLength payload) crlf) = some b := by
      rw [hmod]
      exact hb
    refine ⟨[b.payload], ?_, by rw [List.flatten_singleton, hpay]⟩
    simp only [writeChunkTail, if_pos hroom, hb', Option.map_some]
  · -- after the payload, in buffers of its own
    obtain ⟨sent, hsent, hflat⟩ := sendBytes_spec hmax crlf
    refine ⟨payload.payload :: sent, ?_, by rw [List.flatten_cons, hflat]⟩
    simp only [writeChunkTail, if_neg hroom, hsent, Option.map_some]

/-- **The chunked send puts `chunkBytes` of the payload on the wire**, whichever of its four paths
it takes, for payloads short enough that `old_len + 2` does not wrap. -/
theorem sendHttp1ChunkedPayload_spec {max_chunk : Nat} (hmax : 0 < max_chunk) (payload : SBuf)
    (hlen : sbufGetLength payload + 12 < 2 ^ 32) :
    ∃ sent, sendHttp1ChunkedPayload max_chunk payload = some sent ∧
      sent.flatten = chunkBytes payload.payload := by
  have hpre := length_chunkPrefix_le (show sbufGetLength payload < 2 ^ 32 by omega)
  obtain ⟨sent, b, hw, hflat, hcase⟩ := writeChunkPrefix_spec hmax payload
  have hb : sbufGetLength b + 2 < 2 ^ 32 := by
    rcases hcase with hlenb | hlenb <;> omega
  obtain ⟨tail, ht, htail⟩ := writeChunkTail_spec hmax b hb
  refine ⟨sent ++ tail, by simp only [sendHttp1ChunkedPayload, hw, Option.bind_some, ht,
    Option.map_some], ?_⟩
  rw [List.flatten_append, htail, ← List.append_assoc, hflat, chunkBytes, SBuf.length_payload]
  rfl

theorem sendChunkedBody_spec {max_chunk : Nat} (hmax : 0 < max_chunk) (ps : List SBuf)
    (hlen : ∀ p ∈ ps, sbufGetLength p + 12 < 2 ^ 32) :
    ∃ sent, sendChunkedBody (sendHttp1ChunkedPayload max_chunk) (sendBytes max_chunk lastChunk) ps =
        some sent ∧ sent.flatten = (ps.map fun p => chunkBytes p.payload).flatten ++ lastChunk := by
  induction ps with
  | nil =>
    obtain ⟨sent, hs, hflat⟩ := sendBytes_spec hmax lastChunk
    exact ⟨sent, hs, by rw [hflat]; rfl⟩
  | cons p ps ih =>
    obtain ⟨sent, hs, hflat⟩ := sendHttp1ChunkedPayload_spec hmax p (hlen p (by simp))
    obtain ⟨rest, hr, hrest⟩ := ih fun q hq => hlen q (by simp [hq])
    refine ⟨sent ++ rest, ?_, ?_⟩
    · rw [sendChunkedBody, hs, Option.bind_some, hr, Option.map_some]
    · rw [List.flatten_append, hflat, hrest, List.map_cons, List.flatten_cons, List.append_assoc]

/-! ## The size line -/

/-- `parseChunkSizeLine` (the same function in both tunnels): the size a size line announces, or
`none` for a line that is not one. -/
def parseChunkSizeLine (line_buf : List UInt8) : Option Nat :=
  let raw_len := line_buf.length
  if raw_len < 2 then none
  else
    -- the line without its CRLF, as the C string `line`: it ends at the first NUL
    let line := (line_buf.take (raw_len - 2)).takeWhile (· != 0)
    -- `strchr(line, ';')` cuts a chunk extension off
    let line := line.takeWhile (· != 59)
    let parsed := strtoull line
    -- blanks and tabs after the number are skipped
    let endp := parsed.2 + ((line.drop parsed.2).takeWhile fun c => c == 32 || c == 9).length
    if endp ≠ 0 ∧ endp = line.length then some parsed.1 else none

/-- **The size line the sender writes is read back as the size**, for any size up to
`ULLONG_MAX`. -/
theorem parseChunkSizeLine_chunkPrefix {n : Nat} (hn : n ≤ ULLONG_MAX) :
    parseChunkSizeLine (chunkPrefix n) = some n := by
  have hnul : (printHex n).takeWhile (· != 0) = printHex n := by
    refine List.takeWhile_eq_self_iff.mpr fun c hc => ?_
    obtain ⟨d, rfl⟩ := mem_printHex hc
    obtain ⟨-, -, -, -, -, -, -, -, h0⟩ := hexDigitByte_spec d
    simp [h0]
  have hsemi : (printHex n).takeWhile (· != 59) = printHex n := by
    refine List.takeWhile_eq_self_iff.mpr fun c hc => ?_
    obtain ⟨d, rfl⟩ := mem_printHex hc
    obtain ⟨-, -, -, -, -, -, h59, -, -⟩ := hexDigitByte_spec d
    simp [h59]
  have hline : (chunkPrefix n).take ((chunkPrefix n).length - 2) = printHex n := by
    simp [chunkPrefix, crlf]
  have hlen : ¬(chunkPrefix n).length < 2 := by simp [chunkPrefix]
  have hne : (printHex n).length ≠ 0 := by simpa using printHex_ne_nil n
  simp only [parseChunkSizeLine, if_neg hlen, hline, hnul, hsemi, strtoull_printHex hn,
    List.drop_length, List.takeWhile_nil, List.length_nil, Nat.add_zero]
  rw [if_pos ⟨hne, trivial⟩]

/-! ## The decoder -/

/-- The check `ptr[full_len - 2] == '\r' && ptr[full_len - 1] == '\n'` on a chunk read with its
tail. -/
def hasCRLFTail (chunk_with_tail : List UInt8) : Bool :=
  chunk_with_tail.getD (chunk_with_tail.length - 2) 0 == 13 &&
    chunk_with_tail.getD (chunk_with_tail.length - 1) 0 == 10

/-- The trailer scan, the inner `while (true)` of the decoder at `h1_chunk_expected == 0`: trailer
lines are read and dropped up to the empty one.  Whether the empty line was read, and the stream
left. -/
def drainTrailer (bs : BufferStream) : Option (Bool × BufferStream) :=
  match bufferstreamFindCRLF bs with
  | none => some (false, bs)
  | some trailer_line_end =>
    match h : bufferstreamReadExact bs (trailer_line_end + 2) with
    | none => none
    | some (_, bs') => if trailer_line_end = 0 then some (true, bs') else drainTrailer bs'
termination_by bs.size
decreasing_by
  obtain ⟨-, hle, -, hsize⟩ := bufferstreamReadExact_some h
  omega

/-- What one call of the chunked-body decoder leaves. -/
structure ChunkedDrain where
  /-- The return value: `false` makes the caller close the line. -/
  ok : Bool
  /-- The chunks forwarded to the neighbour, in order. -/
  forwarded : List (List UInt8)
  /-- `h1_chunk_expected` afterwards. -/
  h1_chunk_expected : Int
  /-- Whether the empty line ending the trailer was read. -/
  done : Bool
  /-- `in_stream` afterwards. -/
  in_stream : BufferStream

/-- The loop shared by `httpserverTransportDrainHttp1ChunkedRequestBody` and
`httpclientTransportDrainHttp1ChunkedBody`.  `h1_chunk_expected` is negative while a size line is
awaited, zero in the trailer scan, and the size of the awaited chunk otherwise.  The C loop body
falls through from reading a size line to the branch for the new `h1_chunk_expected`, which is
the recursive call here; forwarding never fails. -/
def drainHttp1ChunkedBody (h1_chunk_expected : Int) (bs : BufferStream) : Option ChunkedDrain :=
  if h1_chunk_expected < 0 then
    match bufferstreamFindCRLF bs with
    | none => some ⟨true, [], h1_chunk_expected, false, bs⟩
    | some line_end =>
      match h : bufferstreamReadExact bs (line_end + 2) with
      | none => none
      | some (line_buf, bs₁) =>
        match parseChunkSizeLine line_buf with
        | some chunk_len =>
          if chunk_len ≤ INT64_MAX then drainHttp1ChunkedBody chunk_len bs₁
          else some ⟨false, [], h1_chunk_expected, false, bs₁⟩
        -- "invalid chunked size line"
        | none => some ⟨false, [], h1_chunk_expected, false, bs₁⟩
  else if h1_chunk_expected = 0 then
    (drainTrailer bs).map fun r => ⟨true, [], 0, r.1, r.2⟩
  else
    let required := h1_chunk_expected.toNat + 2
    if bufferstreamGetBufLen bs < required then some ⟨true, [], h1_chunk_expected, false, bs⟩
    else
      match h : bufferstreamReadExact bs required with
      | none => none
      | some (chunk_with_tail, bs₁) =>
        if chunk_with_tail.length < 2 then some ⟨false, [], h1_chunk_expected, false, bs₁⟩
        -- "invalid chunked frame tail"
        else if !hasCRLFTail chunk_with_tail then some ⟨false, [], h1_chunk_expected, false, bs₁⟩
        else
          -- `sbufSetLength(chunk_with_tail, h1_chunk_expected)`, forwarded; a size line is next
          (drainHttp1ChunkedBody (-1) bs₁).map fun r =>
            { r with forwarded := chunk_with_tail.take h1_chunk_expected.toNat :: r.forwarded }
termination_by bs.size
decreasing_by
  all_goals
    obtain ⟨-, hle, -, hsize⟩ := bufferstreamReadExact_some h
    omega

/-- Where the chunked-body decoder is: awaiting a size line, scanning the trailer, awaiting a chunk
of `n` bytes and its CRLF, past the end of the body, or failed. -/
inductive ChunkPhase where
  | sizeLine
  | trailer
  | data (n : Nat)
  | finished
  | failed
  deriving DecidableEq, Repr

/-- The phase a value of `h1_chunk_expected` stands for. -/
def chunkPhase (h1_chunk_expected : Int) : ChunkPhase :=
  if h1_chunk_expected < 0 then .sizeLine
  else if h1_chunk_expected = 0 then .trailer
  else .data h1_chunk_expected.toNat

/-- One step of the decoder on the buffered bytes: the size line, one trailer line, or one chunk
with its CRLF. -/
def chunkedStep : ChunkPhase → List UInt8 → Option (ChunkPhase × List (List UInt8) × Nat)
  | .sizeLine, xs => (firstCRLF xs).map fun line_end =>
      (match parseChunkSizeLine (xs.take (line_end + 2)) with
        | some chunk_len => if chunk_len ≤ INT64_MAX then chunkPhase chunk_len else .failed
        | none => .failed,
       [], line_end + 2)
  | .trailer, xs => (firstCRLF xs).map fun line_end =>
      (if line_end = 0 then .finished else .trailer, [], line_end + 2)
  | .data n, xs =>
      if xs.length < n + 2 then none
      else if hasCRLFTail (xs.take (n + 2)) then some (.sizeLine, [xs.take n], n + 2)
      else some (.failed, [], n + 2)
  | .finished, _ => none
  | .failed, _ => none

theorem firstCRLF_spec : ∀ {xs : List UInt8} {i : Nat}, firstCRLF xs = some i →
    i + 2 ≤ xs.length ∧ xs[i]? = some 13
  | [], _, h => by simp [firstCRLF] at h
  | [_], _, h => by simp [firstCRLF] at h
  | c :: d :: rest, i, h => by
    rw [firstCRLF_cons_cons] at h
    split_ifs at h with hcd
    · cases h
      simp [hcd.1]
    · obtain ⟨j, hj, rfl⟩ := Option.map_eq_some_iff.mp h
      have ih := firstCRLF_spec hj
      simp only [List.length_cons] at ih ⊢
      exact ⟨by omega, by simpa using ih.2⟩

theorem chunkedStep_consumes {s : ChunkPhase} {xs : List UInt8} {s' : ChunkPhase}
    {out : List (List UInt8)} {n : Nat} (h : chunkedStep s xs = some (s', out, n)) :
    0 < n ∧ n ≤ xs.length := by
  cases s with
  | sizeLine | trailer =>
    simp only [chunkedStep] at h
    obtain ⟨i, hi, hr⟩ := Option.map_eq_some_iff.mp h
    have hb := (firstCRLF_spec hi).1
    cases hr
    omega
  | data m =>
    simp only [chunkedStep] at h
    split_ifs at h <;> cases h <;> omega
  | finished | failed => cases h

/-- The chunked-body decoder. -/
def chunkedDecoder : Decoder ChunkPhase UInt8 (List UInt8) where
  step := chunkedStep
  consumes := chunkedStep_consumes

theorem chunkedDecoder_stuck_finished : chunkedDecoder.Stuck .finished := fun _ => rfl

theorem chunkedDecoder_stuck_failed : chunkedDecoder.Stuck .failed := fun _ => rfl

/-! ## The code's loops are drains of the decoder -/

theorem drainTrailer_of_none {bs : BufferStream} (hf : firstCRLF bs.content = none) :
    drainTrailer bs = some (false, bs) := by
  rw [drainTrailer, bufferstreamFindCRLF_eq, hf]

theorem drainTrailer_of_line {bs bs' : BufferStream} {i : Nat} {line : List UInt8}
    (hf : firstCRLF bs.content = some i)
    (hread : bufferstreamReadExact bs (i + 2) = some (line, bs')) :
    drainTrailer bs = if i = 0 then some (true, bs') else drainTrailer bs' := by
  rw [drainTrailer]
  simp only [bufferstreamFindCRLF_eq, hf]
  split
  · rename_i hnone
    rw [hread] at hnone
    cases hnone
  · rename_i line' bs'' hsome
    rw [hread] at hsome
    cases hsome
    rfl

/-- A read at a CRLF the stream holds succeeds, and takes the line off the front. -/
theorem bufferstreamReadExact_line {bs : BufferStream} {i : Nat} (hbs : bs.size ≤ UINT32_MAX)
    (hf : firstCRLF bs.content = some i) :
    ∃ bs', bufferstreamReadExact bs (i + 2) = some (bs.content.take (i + 2), bs') ∧
      bs'.content = bs.content.drop (i + 2) ∧ bs'.size < bs.size := by
  have hb := (firstCRLF_spec hf).1
  rw [← bs.size_eq_length] at hb
  obtain ⟨bs', hread, hc, hs⟩ := bufferstreamReadExact_eq (by omega) hb (by omega)
  exact ⟨bs', hread, hc, by omega⟩

/-- **The trailer scan is a drain of the decoder from `trailer`.** -/
theorem drainTrailer_refines (bs : BufferStream) (hbs : bs.size ≤ UINT32_MAX) :
    ∃ done bs', drainTrailer bs = some (done, bs') ∧
      chunkedDecoder.drain .trailer bs.content =
        (if done then .finished else .trailer, [], bs'.content) := by
  induction h : bs.size using Nat.strong_induction_on generalizing bs with
  | _ n ih =>
    cases hf : firstCRLF bs.content with
    | none =>
      -- no complete line: both wait
      refine ⟨false, bs, drainTrailer_of_none hf, ?_⟩
      exact chunkedDecoder.drain_of_step_none (by simp [chunkedDecoder, chunkedStep, hf])
    | some i =>
      obtain ⟨bs', hread, hc, hlt⟩ := bufferstreamReadExact_line hbs hf
      have hstep : chunkedDecoder.step .trailer bs.content =
          some (if i = 0 then .finished else .trailer, [], i + 2) := by
        simp [chunkedDecoder, chunkedStep, hf]
      rw [drainTrailer_of_line hf hread, chunkedDecoder.drain_of_step_silent hstep, ← hc]
      by_cases hi : i = 0
      · -- the empty line: the body is complete
        rw [if_pos hi, if_pos hi]
        exact ⟨true, bs', rfl, by rw [chunkedDecoder.drain_of_stuck chunkedDecoder_stuck_finished]; rfl⟩
      · -- a trailer field, dropped
        rw [if_neg hi, if_neg hi]
        exact ih _ (h ▸ hlt) bs' (by omega) rfl

theorem drainHttp1ChunkedBody_of_sizeLine_none {e : Int} {bs : BufferStream} (he : e < 0)
    (hf : firstCRLF bs.content = none) :
    drainHttp1ChunkedBody e bs = some ⟨true, [], e, false, bs⟩ := by
  rw [drainHttp1ChunkedBody, if_pos he]
  simp only [bufferstreamFindCRLF_eq, hf]

theorem drainHttp1ChunkedBody_of_sizeLine {e : Int} {bs bs₁ : BufferStream} {i : Nat}
    {line_buf : List UInt8} (he : e < 0) (hf : firstCRLF bs.content = some i)
    (hread : bufferstreamReadExact bs (i + 2) = some (line_buf, bs₁)) :
    drainHttp1ChunkedBody e bs =
      match parseChunkSizeLine line_buf with
      | some chunk_len =>
        if chunk_len ≤ INT64_MAX then drainHttp1ChunkedBody chunk_len bs₁
        else some ⟨false, [], e, false, bs₁⟩
      | none => some ⟨false, [], e, false, bs₁⟩ := by
  rw [drainHttp1ChunkedBody, if_pos he]
  simp only [bufferstreamFindCRLF_eq, hf]
  split
  · rename_i hnone
    rw [hread] at hnone
    cases hnone
  · rename_i line' bs' hsome
    rw [hread] at hsome
    cases hsome
    rfl

theorem drainHttp1ChunkedBody_of_trailer (bs : BufferStream) :
    drainHttp1ChunkedBody 0 bs = (drainTrailer bs).map fun r => ⟨true, [], 0, r.1, r.2⟩ := by
  rw [drainHttp1ChunkedBody, if_neg (by omega), if_pos rfl]

theorem drainHttp1ChunkedBody_of_data_short {e : Int} {bs : BufferStream} (he : 0 < e)
    (hlt : bs.size < e.toNat + 2) :
    drainHttp1ChunkedBody e bs = some ⟨true, [], e, false, bs⟩ := by
  rw [drainHttp1ChunkedBody, if_neg (by omega), if_neg (by omega)]
  dsimp only
  rw [if_pos (show bufferstreamGetBufLen bs < e.toNat + 2 from hlt)]

theorem drainHttp1ChunkedBody_of_data {e : Int} {bs bs₁ : BufferStream}
    {chunk_with_tail : List UInt8} (he : 0 < e) (hle : e.toNat + 2 ≤ bs.size)
    (hread : bufferstreamReadExact bs (e.toNat + 2) = some (chunk_with_tail, bs₁))
    (hlen : 2 ≤ chunk_with_tail.length) :
    drainHttp1ChunkedBody e bs =
      if hasCRLFTail chunk_with_tail then
        (drainHttp1ChunkedBody (-1) bs₁).map fun r =>
          { r with forwarded := chunk_with_tail.take e.toNat :: r.forwarded }
      else some ⟨false, [], e, false, bs₁⟩ := by
  rw [drainHttp1ChunkedBody, if_neg (by omega), if_neg (by omega)]
  dsimp only
  rw [if_neg (show ¬bufferstreamGetBufLen bs < e.toNat + 2 from Nat.not_lt_of_le hle)]
  split
  · rename_i hnone
    rw [hread] at hnone
    cases hnone
  · rename_i c' bs' hsome
    rw [hread] at hsome
    cases hsome
    rw [if_neg (by omega)]
    cases hasCRLFTail chunk_with_tail <;> rfl

/-- What a drain result stands for in the decoder: a failure is `failed`, a completed body
`finished`, and otherwise the phase of `h1_chunk_expected`. -/
def ChunkedDrain.phase (r : ChunkedDrain) : ChunkPhase :=
  if r.ok then (if r.done then .finished else chunkPhase r.h1_chunk_expected) else .failed

/-- `r` is what draining the decoder from `s` over `xs` gives: the same phase, the same chunks, and
the same bytes left. -/
def ChunkedDrain.DrainsAs (r : ChunkedDrain) (s : ChunkPhase) (xs : List UInt8) : Prop :=
  chunkedDecoder.drain s xs = (r.phase, r.forwarded, r.in_stream.content)

theorem drainsAs_failed {s : ChunkPhase} {xs : List UInt8} {n : Nat} {e : Int} {bs : BufferStream}
    (hstep : chunkedDecoder.step s xs = some (.failed, [], n)) (hc : bs.content = xs.drop n) :
    ChunkedDrain.DrainsAs ⟨false, [], e, false, bs⟩ s xs := by
  rw [ChunkedDrain.DrainsAs, chunkedDecoder.drain_of_step_silent hstep, hc,
    chunkedDecoder.drain_of_stuck chunkedDecoder_stuck_failed]
  rfl

theorem drainsAs_wait {e : Int} {bs : BufferStream}
    (hstep : chunkedDecoder.step (chunkPhase e) bs.content = none) :
    ChunkedDrain.DrainsAs ⟨true, [], e, false, bs⟩ (chunkPhase e) bs.content := by
  rw [ChunkedDrain.DrainsAs, chunkedDecoder.drain_of_step_none hstep]
  rfl

/-- **One call of the decoder loop is a drain of `chunkedDecoder`**, whatever the queue looks like:
it forwards the chunks the decoder emits, leaves the bytes the decoder leaves, and ends in the
phase the decoder ends in. -/
theorem drainHttp1ChunkedBody_refines (e : Int) (bs : BufferStream) (hbs : bs.size ≤ UINT32_MAX) :
    ∃ r, drainHttp1ChunkedBody e bs = some r ∧ r.DrainsAs (chunkPhase e) bs.content := by
  induction h : bs.size using Nat.strong_induction_on generalizing e bs with
  | _ n ih =>
    by_cases hneg : e < 0
    · have hphase : chunkPhase e = .sizeLine := by simp [chunkPhase, hneg]
      cases hf : firstCRLF bs.content with
      | none =>
        -- no complete size line: both wait
        refine ⟨_, drainHttp1ChunkedBody_of_sizeLine_none hneg hf, drainsAs_wait ?_⟩
        simp [chunkedDecoder, chunkedStep, hphase, hf]
      | some i =>
        obtain ⟨bs₁, hread, hc, hlt⟩ := bufferstreamReadExact_line hbs hf
        rw [drainHttp1ChunkedBody_of_sizeLine hneg hf hread, hphase]
        cases hparse : parseChunkSizeLine (bs.content.take (i + 2)) with
        | none =>
          refine ⟨_, rfl, drainsAs_failed ?_ hc⟩
          simp [chunkedDecoder, chunkedStep, hf, hparse]
        | some chunk_len =>
          by_cases hmax : chunk_len ≤ INT64_MAX
          · -- a size: the decoder takes the line silently and goes on from the new phase
            have hstep : chunkedDecoder.step .sizeLine bs.content =
                some (chunkPhase chunk_len, [], i + 2) := by
              simp [chunkedDecoder, chunkedStep, hf, hparse, hmax]
            obtain ⟨r, hr, hdr⟩ := ih _ (h ▸ hlt) chunk_len bs₁ (by omega) rfl
            refine ⟨r, by simp only [if_pos hmax, hr], ?_⟩
            rw [ChunkedDrain.DrainsAs, chunkedDecoder.drain_of_step_silent hstep, ← hc]
            exact hdr
          · refine ⟨⟨false, [], e, false, bs₁⟩, by simp only [if_neg hmax], drainsAs_failed ?_ hc⟩
            simp [chunkedDecoder, chunkedStep, hf, hparse, hmax]
    · by_cases hzero : e = 0
      · -- the trailer scan
        subst hzero
        obtain ⟨done, bs', htr, hdrain⟩ := drainTrailer_refines bs hbs
        refine ⟨_, by rw [drainHttp1ChunkedBody_of_trailer, htr, Option.map_some], ?_⟩
        rw [ChunkedDrain.DrainsAs, show chunkPhase 0 = .trailer by rfl, hdrain]
        cases done <;> rfl
      · have hpos : 0 < e := by omega
        have hphase : chunkPhase e = .data e.toNat := by simp [chunkPhase, hneg, hzero]
        have hsize := bs.size_eq_length
        by_cases hshort : bs.size < e.toNat + 2
        · -- the chunk is not all there: both wait
          refine ⟨_, drainHttp1ChunkedBody_of_data_short hpos hshort, drainsAs_wait ?_⟩
          simp [chunkedDecoder, chunkedStep, hphase, ← hsize, hshort]
        · have hle : e.toNat + 2 ≤ bs.size := Nat.le_of_not_lt hshort
          obtain ⟨bs₁, hread, hc, hs⟩ := bufferstreamReadExact_eq (by omega) hle (by omega)
          have hlen : 2 ≤ (bs.content.take (e.toNat + 2)).length := by
            simp only [List.length_take]
            omega
          rw [drainHttp1ChunkedBody_of_data hpos hle hread hlen, hphase]
          by_cases htail : hasCRLFTail (bs.content.take (e.toNat + 2))
          · -- a chunk: forwarded, and the decoder emits it and awaits a size line
            have hstep : chunkedDecoder.step (.data e.toNat) bs.content =
                some (.sizeLine, [bs.content.take e.toNat], e.toNat + 2) := by
              simp [chunkedDecoder, chunkedStep, ← hsize, hshort, htail]
            obtain ⟨r, hr, hdr⟩ := ih _ (by omega) (-1) bs₁ (by omega) rfl
            refine ⟨_, by rw [if_pos htail, hr, Option.map_some], ?_⟩
            rw [ChunkedDrain.DrainsAs, chunkedDecoder.drain_of_step_some hstep, ← hc]
            rw [ChunkedDrain.DrainsAs, show chunkPhase (-1) = .sizeLine by rfl] at hdr
            rw [hdr, List.take_take, Nat.min_eq_left (by omega)]
            rfl
          · refine ⟨⟨false, [], e, false, bs₁⟩, by rw [if_neg htail], drainsAs_failed ?_ hc⟩
            simp [chunkedDecoder, chunkedStep, ← hsize, hshort, htail]

end Http
end WaterWall
