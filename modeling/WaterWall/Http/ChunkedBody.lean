import WaterWall.Http.Chunked

/-!
# Chunked bodies on a line

What HttpServer does with the payloads of a request whose body is chunked, and HttpClient with
those of a response whose body is chunked: push each payload into the line's `in_stream`, drain
it with the decoder loop of `WaterWall.Http.Chunked`, drop everything once the body is complete,
and close the line when the loop fails.  `receiveChunkedPayload` is that, and both tunnels' handlers
are it (`httpserverChunkedUpStreamPayload_eq`, `httpclientChunkedDownStreamPayload_eq`).

* `deliver_receiveChunkedPayload`: over any sequence of payloads, the line forwards what
  `chunkedDecoder` emits when fed the same payloads, and ends where the decoder ends.
* `parses_chunkedBody`: the body the sender writes for non-empty payloads is an honest trace of
  the decoder, and `deliver_chunkedBody` follows: the payloads are forwarded exactly, in any
  partition, the body is complete, and nothing after it is forwarded.
* `deliver_of_emptyChunk`: an empty payload's chunk is the last chunk, so the body ends there and
  nothing is forwarded, whatever follows.
-/

set_option autoImplicit false

namespace WaterWall
namespace Http

open Incremental Libc

/-! ## The line -/

/-- The part of a line's state that reading a chunked body uses, the same in
`httpserver_lstate_t` and `httpclient_lstate_t`. -/
structure ChunkedBodyState where
  in_stream : BufferStream
  h1_chunk_expected : Int
  /-- `h1_request_finished` on the server, `response_complete` on the client. -/
  finished : Bool

/-- The state once a head announcing a chunked body has been parsed. -/
def chunkedBodyStart : ChunkedBodyState := ⟨bufferstreamCreate, -1, false⟩

/-- `httpserverTransportDrainHttp1ChunkedRequestBody`: the decoder loop, forwarding upstream; the
empty trailer line sets `h1_request_finished`.  Its return value, the chunks forwarded, and the
line's state afterwards. -/
def httpserverTransportDrainHttp1ChunkedRequestBody (ls : ChunkedBodyState) :
    Option (Bool × List (List UInt8) × ChunkedBodyState) :=
  (drainHttp1ChunkedBody ls.h1_chunk_expected ls.in_stream).map fun r =>
    (r.ok, r.forwarded, ⟨r.in_stream, r.h1_chunk_expected, r.done || ls.finished⟩)

/-- `httpclientTransportDrainHttp1ChunkedBody`: the same loop, forwarding downstream; the empty
trailer line sets `response_complete` only while the previous tunnel has not finished. -/
def httpclientTransportDrainHttp1ChunkedBody (prev_finished : Bool) (ls : ChunkedBodyState) :
    Option (Bool × List (List UInt8) × ChunkedBodyState) :=
  (drainHttp1ChunkedBody ls.h1_chunk_expected ls.in_stream).map fun r =>
    (r.ok, r.forwarded, ⟨r.in_stream, r.h1_chunk_expected, (r.done && !prev_finished) || ls.finished⟩)

/-- The path of `httpserverTunnelUpStreamPayload` for an HTTP/1.1 line whose request head has been
parsed and whose body is chunked: bytes after the request body are dropped; otherwise the payload
joins `in_stream`, which `httpserverTransportDrainHttp1RequestBody` drains. -/
def httpserverChunkedUpStreamPayload (ls : ChunkedBodyState) (buf : List UInt8) :
    Option (Bool × List (List UInt8) × ChunkedBodyState) :=
  if ls.finished then some (true, [], ls)
  else (bufferstreamPush ls.in_stream buf).bind fun in_stream =>
    httpserverTransportDrainHttp1ChunkedRequestBody { ls with in_stream := in_stream }

/-- The path of `httpclientTunnelDownStreamPayload` for an HTTP/1.1 line whose response head has
been parsed and whose body is chunked.  `httpclientTransportDrainHttp1Body` does not drain once the
previous tunnel has finished. -/
def httpclientChunkedDownStreamPayload (prev_finished : Bool) (ls : ChunkedBodyState)
    (buf : List UInt8) : Option (Bool × List (List UInt8) × ChunkedBodyState) :=
  if ls.finished then some (true, [], ls)
  else (bufferstreamPush ls.in_stream buf).bind fun in_stream =>
    if prev_finished then some (true, [], { ls with in_stream := in_stream })
    else httpclientTransportDrainHttp1ChunkedBody prev_finished { ls with in_stream := in_stream }

/-- What both tunnels do with a payload of a chunked body: drop it once the body is complete, and
otherwise push it and drain. -/
def receiveChunkedPayload (ls : ChunkedBodyState) (buf : List UInt8) :
    Option (Bool × List (List UInt8) × ChunkedBodyState) :=
  if ls.finished then some (true, [], ls)
  else (bufferstreamPush ls.in_stream buf).bind fun in_stream =>
    (drainHttp1ChunkedBody ls.h1_chunk_expected in_stream).map fun r =>
      (r.ok, r.forwarded, ⟨r.in_stream, r.h1_chunk_expected, r.done⟩)

theorem httpserverChunkedUpStreamPayload_eq :
    httpserverChunkedUpStreamPayload = receiveChunkedPayload := by
  funext ls buf
  cases hf : ls.finished <;>
    simp [httpserverChunkedUpStreamPayload, receiveChunkedPayload,
      httpserverTransportDrainHttp1ChunkedRequestBody, hf]

theorem httpclientChunkedDownStreamPayload_eq :
    httpclientChunkedDownStreamPayload false = receiveChunkedPayload := by
  funext ls buf
  cases hf : ls.finished <;>
    simp [httpclientChunkedDownStreamPayload, receiveChunkedPayload,
      httpclientTransportDrainHttp1ChunkedBody, hf]

/-- Once the previous tunnel has finished, the client only buffers: it forwards nothing and never
completes the response. -/
theorem httpclientChunkedDownStreamPayload_of_prev_finished {ls ls' : ChunkedBodyState}
    {buf : List UInt8} {ok : Bool} {fwd : List (List UInt8)}
    (h : httpclientChunkedDownStreamPayload true ls buf = some (ok, fwd, ls')) :
    ok = true ∧ fwd = [] ∧ ls'.finished = ls.finished := by
  unfold httpclientChunkedDownStreamPayload at h
  by_cases hf : ls.finished = true
  · rw [if_pos hf] at h
    cases h
    exact ⟨rfl, rfl, rfl⟩
  · rw [if_neg hf] at h
    obtain ⟨in_stream, -, h⟩ := Option.bind_eq_some_iff.mp h
    rw [if_pos rfl] at h
    cases h
    exact ⟨rfl, rfl, rfl⟩

/-- Payloads delivered one after another to `handle`.  A `false` return closes the line
(`failAndCloseU`, `failAndCloseD`) and nothing more is delivered.  What was forwarded, the last
state, and whether the line is still open. -/
def deliver (handle : ChunkedBodyState → List UInt8 → Option (Bool × List (List UInt8) × ChunkedBodyState)) :
    ChunkedBodyState → List (List UInt8) → Option (List (List UInt8) × ChunkedBodyState × Bool)
  | ls, [] => some ([], ls, true)
  | ls, c :: cs =>
    match handle ls c with
    | none => none
    | some (false, fwd, ls') => some (fwd, ls', false)
    | some (true, fwd, ls') => (deliver handle ls' cs).map fun r => (fwd ++ r.1, r.2)

/-! ## The line follows the decoder -/

/-- The decoder phase a line is in: `finished` once the body is complete. -/
def ChunkedBodyState.phase (ls : ChunkedBodyState) : ChunkPhase :=
  if ls.finished then .finished else chunkPhase ls.h1_chunk_expected

theorem chunkPhase_ne_finished (e : Int) : chunkPhase e ≠ .finished := by
  unfold chunkPhase
  split_ifs <;> simp

theorem phase_eq_finished {ls : ChunkedBodyState} : ls.phase = .finished ↔ ls.finished = true := by
  unfold ChunkedBodyState.phase
  cases ls.finished
  · simp [chunkPhase_ne_finished]
  · simp

theorem deliver_of_finished {ls : ChunkedBodyState} (hf : ls.finished = true) :
    ∀ cs : List (List UInt8), deliver receiveChunkedPayload ls cs = some ([], ls, true)
  | [] => rfl
  | c :: cs => by
    have hhandle : receiveChunkedPayload ls c = some (true, [], ls) := by
      rw [receiveChunkedPayload, if_pos hf]
    rw [deliver, hhandle]
    simp only
    rw [deliver_of_finished hf cs]
    rfl

/-- One payload on a line that has not completed its body: pushed, then one drain of the decoder
over what is buffered. -/
theorem receiveChunkedPayload_refines {ls : ChunkedBodyState} (hf : ls.finished = false)
    (c : List UInt8) (hsize : ls.in_stream.size + c.length ≤ UINT32_MAX) :
    ∃ r : ChunkedDrain,
      receiveChunkedPayload ls c = some (r.ok, r.forwarded, ⟨r.in_stream, r.h1_chunk_expected, r.done⟩) ∧
      r.DrainsAs ls.phase (ls.in_stream.content ++ c) := by
  have hpush := bufferstreamPush_eq hsize
  have hc := content_bufferstreamPush hpush
  obtain ⟨r, hr, hdr⟩ := drainHttp1ChunkedBody_refines ls.h1_chunk_expected
    ⟨ls.in_stream.q ++ [c], ls.in_stream.size + c.length, by simp [ls.in_stream.size_eq]⟩ hsize
  refine ⟨r, ?_, ?_⟩
  · rw [receiveChunkedPayload, if_neg (by simp [hf]), hpush, Option.bind_some, hr, Option.map_some]
  · rw [ChunkedBodyState.phase, if_neg (by simp [hf]), ← hc]
    exact hdr

theorem phase_of_drain {r : ChunkedDrain} (hok : r.ok = true) :
    (ChunkedBodyState.mk r.in_stream r.h1_chunk_expected r.done).phase = r.phase := by
  simp only [ChunkedBodyState.phase, ChunkedDrain.phase, hok, if_true]

/-- **The line follows the decoder.**  Delivered any payloads, a line that buffers no more than
`bufferstreamPush` allows forwards exactly what `chunkedDecoder` emits when fed the same payloads,
and ends in the phase the decoder ends in; a closed line is a decoder that failed. -/
theorem deliver_receiveChunkedPayload (cs : List (List UInt8)) :
    ∀ ls : ChunkedBodyState, ls.in_stream.size + cs.flatten.length ≤ UINT32_MAX →
      ∃ ls' open_, deliver receiveChunkedPayload ls cs =
          some ((chunkedDecoder.feed ls.phase ls.in_stream.content cs).2.1, ls', open_) ∧
        (chunkedDecoder.feed ls.phase ls.in_stream.content cs).1 =
          if open_ then ls'.phase else .failed := by
  induction cs with
  | nil => intro ls _; exact ⟨ls, true, rfl, rfl⟩
  | cons c cs ih =>
    intro ls hsize
    cases hfin : ls.finished with
    | true =>
      -- the body is complete: the line drops everything and the decoder is stuck
      have hph : ls.phase = .finished := phase_eq_finished.mpr hfin
      refine ⟨ls, true, ?_, ?_⟩
      · rw [deliver_of_finished hfin, hph,
          chunkedDecoder.feed_of_stuck chunkedDecoder_stuck_finished]
      · rw [hph, chunkedDecoder.feed_of_stuck chunkedDecoder_stuck_finished, if_pos rfl]
    | false =>
      simp only [List.flatten_cons, List.length_append] at hsize
      obtain ⟨r, hr, hdr⟩ := receiveChunkedPayload_refines hfin c (by omega)
      rw [ChunkedDrain.DrainsAs] at hdr
      have hfeed := Decoder.feed_cons chunkedDecoder ls.phase ls.in_stream.content c cs
      rw [hdr] at hfeed
      cases hok : r.ok with
      | false =>
        -- the loop failed: the line closes, and the decoder is stuck in `failed`
        have hph : r.phase = .failed := by simp [ChunkedDrain.phase, hok]
        rw [hph, chunkedDecoder.feed_of_stuck chunkedDecoder_stuck_failed] at hfeed
        refine ⟨⟨r.in_stream, r.h1_chunk_expected, r.done⟩, false, ?_, by rw [hfeed]; rfl⟩
        rw [deliver, hr, hok, hfeed, List.append_nil]
      | true =>
        -- the line stays open in the phase the decoder reached, holding what it holds
        have hrest : r.in_stream.size + cs.flatten.length ≤ UINT32_MAX := by
          have hsuf := chunkedDecoder.length_drain_rest_le ls.phase (ls.in_stream.content ++ c)
          rw [hdr] at hsuf
          rw [r.in_stream.size_eq_length]
          rw [ls.in_stream.size_eq_length] at hsize
          simp only [List.length_append] at hsuf
          omega
        obtain ⟨ls', open_, hdel, hend⟩ := ih ⟨r.in_stream, r.h1_chunk_expected, r.done⟩ hrest
        rw [phase_of_drain hok] at hdel hend
        refine ⟨ls', open_, ?_, by rw [hfeed]; exact hend⟩
        rw [deliver, hr, hok]
        simp only
        rw [hdel, hfeed]
        rfl

/-! ## The chunked coding as a trace of the decoder -/

/-- A payload's chunk as decoder segments: the size line, then the data and its CRLF, which emits
the payload. -/
def chunkSegments (p : List UInt8) : List (List UInt8 × List (List UInt8)) :=
  [(chunkPrefix p.length, []), (p ++ crlf, [p])]

/-- The last chunk as decoder segments: its size line, then the empty line ending the trailer. -/
def lastChunkSegments : List (List UInt8 × List (List UInt8)) :=
  [(chunkPrefix 0, []), (crlf, [])]

theorem input_chunkSegments (p : List UInt8) : Decoder.input (chunkSegments p) = chunkBytes p := by
  simp [chunkSegments, chunkBytes, Decoder.input]

theorem chunkBytes_nil : chunkBytes [] = lastChunk := rfl

theorem firstCRLF_append_crlf {xs : List UInt8} (hxs : 13 ∉ xs) (ys : List UInt8) :
    firstCRLF (xs ++ 13 :: 10 :: ys) = some xs.length := by
  induction xs with
  | nil => rfl
  | cons c cs ih =>
    have hc : c ≠ 13 := fun h => hxs (h ▸ List.mem_cons_self ..)
    have ih' := ih fun h => hxs (List.mem_cons_of_mem c h)
    obtain ⟨d, rest, hdr⟩ : ∃ d rest, cs ++ 13 :: 10 :: ys = d :: rest := by
      cases cs <;> exact ⟨_, _, rfl⟩
    rw [List.cons_append, hdr, firstCRLF_cons_cons, if_neg (fun h => hc h.1), ← hdr, ih']
    rfl

theorem not_mem_printHex_13 (n : Nat) : (13 : UInt8) ∉ printHex n := by
  intro h
  obtain ⟨d, hd⟩ := mem_printHex h
  obtain ⟨-, -, -, -, -, -, -, h13, -⟩ := hexDigitByte_spec d
  exact h13 hd.symm

/-- No CRLF in a proper prefix of a line whose text has no CR. -/
theorem firstCRLF_of_prefix {xs p : List UInt8} (hxs : 13 ∉ xs) (hp : p <+: xs ++ crlf)
    (hlt : p.length < xs.length + 2) : firstCRLF p = none := by
  cases hf : firstCRLF p with
  | none => rfl
  | some i =>
    obtain ⟨hi, h13⟩ := firstCRLF_spec hf
    have hpre : p = (xs ++ crlf).take p.length := List.prefix_iff_eq_take.mp hp
    rw [hpre, List.getElem?_take, if_pos (by omega), List.getElem?_append_left (by omega)] at h13
    exact absurd (List.mem_of_getElem? h13) hxs

theorem chunkPhase_natCast (n : Nat) :
    chunkPhase n = if n = 0 then .trailer else .data n := by
  unfold chunkPhase
  by_cases hn : n = 0 <;> simp [hn]

theorem INT64_MAX_le_ULLONG_MAX : INT64_MAX ≤ ULLONG_MAX := by decide

/-- A size line is consumed whole whatever follows, and moves the decoder to the phase of its size. -/
theorem chunkedStep_chunkPrefix {n : Nat} (hn : n ≤ INT64_MAX) (ys : List UInt8) :
    chunkedStep .sizeLine (chunkPrefix n ++ ys) =
      some (chunkPhase n, [], (chunkPrefix n).length) := by
  have hf : firstCRLF (chunkPrefix n ++ ys) = some (printHex n).length := by
    rw [chunkPrefix, crlf, List.append_assoc]
    exact firstCRLF_append_crlf (not_mem_printHex_13 n) ys
  have htake : (chunkPrefix n ++ ys).take ((printHex n).length + 2) = chunkPrefix n := by
    rw [chunkPrefix, List.append_assoc, List.take_length_add_append]
    rfl
  have hlen : (chunkPrefix n).length = (printHex n).length + 2 := by simp [chunkPrefix]
  simp only [chunkedStep, hf, Option.map_some, htake,
    parseChunkSizeLine_chunkPrefix (Nat.le_trans hn INT64_MAX_le_ULLONG_MAX), if_pos hn, hlen]

theorem chunkedStep_sizeLine_wait {n : Nat} {p : List UInt8} (hp : p <+: chunkPrefix n)
    (hlt : p.length < (chunkPrefix n).length) : chunkedStep .sizeLine p = none := by
  have hlen : (chunkPrefix n).length = (printHex n).length + 2 := by simp [chunkPrefix]
  rw [hlen] at hlt
  simp [chunkedStep, firstCRLF_of_prefix (not_mem_printHex_13 n) hp hlt]

theorem hasCRLFTail_append_crlf (p : List UInt8) : hasCRLFTail (p ++ crlf) = true := by
  simp [hasCRLFTail, crlf, List.getD_eq_getElem?_getD]

/-- A chunk with its CRLF is consumed whole whatever follows, and emits the chunk. -/
theorem chunkedStep_data (p ys : List UInt8) :
    chunkedStep (.data p.length) (p ++ crlf ++ ys) = some (.sizeLine, [p], (p ++ crlf).length) := by
  have htake : (p ++ crlf ++ ys).take (p.length + 2) = p ++ crlf := by
    rw [List.append_assoc, List.take_length_add_append]
    rfl
  have hshort : ¬(p ++ crlf ++ ys).length < p.length + 2 := by
    simp only [List.length_append, length_crlf]
    omega
  have hdata : (p ++ crlf ++ ys).take p.length = p := by
    rw [List.append_assoc, List.take_left]
  simp only [chunkedStep]
  rw [if_neg hshort, htake, hasCRLFTail_append_crlf, if_pos rfl, hdata, List.length_append,
    length_crlf]

theorem chunkedStep_data_wait {n : Nat} {xs : List UInt8} (h : xs.length < n + 2) :
    chunkedStep (.data n) xs = none := by
  simp [chunkedStep, h]

/-- The empty line ends the trailer, whatever follows it. -/
theorem chunkedStep_crlf (ys : List UInt8) :
    chunkedStep .trailer (crlf ++ ys) = some (.finished, [], crlf.length) := rfl

theorem chunkedStep_trailer_wait {p : List UInt8} (hp : p <+: crlf) (hlt : p.length < crlf.length) :
    chunkedStep .trailer p = none := by
  have hnil : firstCRLF p = none := by
    exact firstCRLF_of_prefix (show (13 : UInt8) ∉ ([] : List UInt8) by simp)
      (by simpa using hp) (by simpa using hlt)
  simp [chunkedStep, hnil]

theorem parses_lastChunk : chunkedDecoder.Parses .sizeLine lastChunkSegments .finished := by
  have hsize : ∀ ys, chunkedDecoder.step .sizeLine (chunkPrefix 0 ++ ys) =
      some (.trailer, [], (chunkPrefix 0).length) :=
    fun ys => chunkedStep_chunkPrefix (show (0 : Nat) ≤ INT64_MAX by decide) ys
  refine .cons hsize (fun p hp hlt => chunkedStep_sizeLine_wait hp hlt) ?_
  exact .cons (fun ys => chunkedStep_crlf ys) (fun p hp hlt => chunkedStep_trailer_wait hp hlt)
    (.nil _)

/-- A non-empty payload's chunk takes the decoder from a size line back to a size line, emitting
the payload. -/
theorem parses_chunk {p : List UInt8} (hp : p ≠ []) (hlen : p.length ≤ INT64_MAX) :
    chunkedDecoder.Parses .sizeLine (chunkSegments p) .sizeLine := by
  have hpos : p.length ≠ 0 := by simpa using hp
  have hphase : chunkPhase p.length = .data p.length := by
    rw [chunkPhase_natCast, if_neg hpos]
  have hsize : ∀ ys, chunkedDecoder.step .sizeLine (chunkPrefix p.length ++ ys) =
      some (.data p.length, [], (chunkPrefix p.length).length) := by
    intro ys
    rw [← hphase]
    exact chunkedStep_chunkPrefix hlen ys
  refine .cons hsize (fun q hq hlt => chunkedStep_sizeLine_wait hq hlt) ?_
  refine .cons (fun ys => by rw [List.append_assoc p crlf ys, ← List.append_assoc]; exact chunkedStep_data p ys)
    (fun q hq hlt => chunkedStep_data_wait (by simpa using hlt)) (.nil _)

/-- **The sender's body is an honest trace of the decoder**: for non-empty payloads, each chunk is
read whole, whatever follows, emitting its payload, and the last chunk ends the body. -/
theorem parses_chunkedBody {ps : List (List UInt8)} (hne : ∀ p ∈ ps, p ≠ [])
    (hlen : ∀ p ∈ ps, p.length ≤ INT64_MAX) :
    chunkedDecoder.Parses .sizeLine (ps.flatMap chunkSegments ++ lastChunkSegments) .finished := by
  induction ps with
  | nil => exact parses_lastChunk
  | cons p ps ih =>
    rw [List.flatMap_cons, List.append_assoc]
    exact (parses_chunk (hne p (by simp)) (hlen p (by simp))).append
      (ih (fun q hq => hne q (by simp [hq])) (fun q hq => hlen q (by simp [hq])))

theorem input_chunkedBody (ps : List (List UInt8)) :
    Decoder.input (ps.flatMap chunkSegments ++ lastChunkSegments) =
      (ps.map chunkBytes).flatten ++ lastChunk := by
  induction ps with
  | nil => rfl
  | cons p ps ih =>
    rw [List.flatMap_cons, List.append_assoc, Decoder.input_append, ih, input_chunkSegments,
      List.map_cons, List.flatten_cons, List.append_assoc]

theorem output_chunkedBody (ps : List (List UInt8)) :
    Decoder.output (ps.flatMap chunkSegments ++ lastChunkSegments) = ps := by
  induction ps with
  | nil => rfl
  | cons p ps ih =>
    rw [List.flatMap_cons, List.append_assoc, Decoder.output_append, ih]
    rfl

/-- A line that starts a chunked body and ends where the decoder finishes is open and complete. -/
theorem finished_of_feed {cs : List (List UInt8)} {ls : ChunkedBodyState} {open_ : Bool}
    (hend : (chunkedDecoder.feed .sizeLine [] cs).1 = if open_ then ls.phase else .failed)
    (hfin : (chunkedDecoder.feed .sizeLine [] cs).1 = .finished) :
    open_ = true ∧ ls.finished = true := by
  rw [hfin] at hend
  cases open_ with
  | false => simp at hend
  | true =>
    rw [if_pos rfl] at hend
    exact ⟨rfl, phase_eq_finished.mp hend.symm⟩

/-! ## What the line forwards -/

/-- **Chunked round trip.**  Non-empty payloads, sent chunked and followed by anything at all,
delivered in any partition: the line forwards exactly the payloads, stays open, and completes the
body. -/
theorem deliver_chunkedBody {ps : List (List UInt8)} (hne : ∀ p ∈ ps, p ≠ [])
    (hlen : ∀ p ∈ ps, p.length ≤ INT64_MAX) (rest : List UInt8) {cs : List (List UInt8)}
    (hcs : cs.flatten = (ps.map chunkBytes).flatten ++ lastChunk ++ rest)
    (hsize : cs.flatten.length ≤ UINT32_MAX) :
    ∃ ls, deliver receiveChunkedPayload chunkedBodyStart cs = some (ps, ls, true) ∧
      ls.finished = true := by
  obtain ⟨ls, open_, hdel, hend⟩ := deliver_receiveChunkedPayload cs chunkedBodyStart
    (by rw [show chunkedBodyStart.in_stream.size = 0 from rfl, Nat.zero_add]; exact hsize)
  have hfeed := chunkedDecoder.feed_of_parses_append (parses_chunkedBody hne hlen)
    chunkedDecoder_stuck_finished (by rw [input_chunkedBody]; exact hcs)
  rw [show chunkedBodyStart.phase = .sizeLine from rfl,
    show chunkedBodyStart.in_stream.content = [] from rfl, hfeed, output_chunkedBody] at hdel
  rw [show chunkedBodyStart.phase = .sizeLine from rfl,
    show chunkedBodyStart.in_stream.content = [] from rfl] at hend
  obtain ⟨rfl, hfin⟩ := finished_of_feed hend (by rw [hfeed])
  exact ⟨ls, hdel, hfin⟩

/-- **An empty payload ends the body.**  Its chunk is `"0\r\n\r\n"`, the last chunk: whatever
follows it, in any partition, nothing is forwarded and the body is complete. -/
theorem deliver_of_emptyChunk (rest : List UInt8) {cs : List (List UInt8)}
    (hcs : cs.flatten = chunkBytes [] ++ rest) (hsize : cs.flatten.length ≤ UINT32_MAX) :
    ∃ ls, deliver receiveChunkedPayload chunkedBodyStart cs = some ([], ls, true) ∧
      ls.finished = true := by
  exact deliver_chunkedBody (by simp : ∀ p ∈ ([] : List (List UInt8)), p ≠ []) (by simp) rest
    (by rw [hcs, chunkBytes_nil]; rfl) hsize

/-! ## Between the two tunnels -/

/-- The sender's bytes for non-empty payloads, delivered in any partition and followed by anything,
are forwarded as exactly the payloads by a line reading a chunked body. -/
theorem deliver_sendChunkedBody {max_chunk : Nat} (hmax : 0 < max_chunk) {ps : List SBuf}
    (hne : ∀ p ∈ ps, 0 < sbufGetLength p) (hlen : ∀ p ∈ ps, sbufGetLength p + 12 < 2 ^ 32) :
    ∃ sent, sendChunkedBody (sendHttp1ChunkedPayload max_chunk) (sendBytes max_chunk lastChunk) ps =
        some sent ∧
      ∀ (rest : List UInt8) (cs : List (List UInt8)), cs.flatten = sent.flatten ++ rest →
        cs.flatten.length ≤ UINT32_MAX →
        ∃ ls, deliver receiveChunkedPayload chunkedBodyStart cs = some (ps.map SBuf.payload, ls, true) ∧
          ls.finished = true := by
  obtain ⟨sent, hsent, hflat⟩ := sendChunkedBody_spec hmax ps hlen
  refine ⟨sent, hsent, fun rest cs hcs hsize => ?_⟩
  have hne' : ∀ p ∈ ps.map SBuf.payload, p ≠ [] := by
    intro p hp
    obtain ⟨b, hb, rfl⟩ := List.mem_map.mp hp
    have := hne b hb
    rw [← List.length_pos_iff, SBuf.length_payload]
    exact this
  have hlen' : ∀ p ∈ ps.map SBuf.payload, p.length ≤ INT64_MAX := by
    intro p hp
    obtain ⟨b, hb, rfl⟩ := List.mem_map.mp hp
    have := hlen b hb
    rw [SBuf.length_payload]
    simp only [sbufGetLength] at this
    simp only [INT64_MAX]
    omega
  refine deliver_chunkedBody hne' hlen' rest ?_ hsize
  rw [hcs, hflat, List.map_map]
  rfl

/-- **Request bodies, HttpClient to HttpServer.**  Non-empty payloads sent by
`httpclientTransportSendHttp1ChunkedPayload` and `httpclientTransportSendHttp1FinalChunk`, delivered
in any partition and followed by anything, are forwarded upstream by HttpServer as exactly those
payloads, and `h1_request_finished` is set. -/
theorem httpserverChunkedUpStreamPayload_roundTrip {max_chunk : Nat} (hmax : 0 < max_chunk)
    {ps : List SBuf} (hne : ∀ p ∈ ps, 0 < sbufGetLength p)
    (hlen : ∀ p ∈ ps, sbufGetLength p + 12 < 2 ^ 32) :
    ∃ sent, sendChunkedBody (httpclientTransportSendHttp1ChunkedPayload max_chunk)
        (httpclientTransportSendHttp1FinalChunk max_chunk) ps = some sent ∧
      ∀ (rest : List UInt8) (cs : List (List UInt8)), cs.flatten = sent.flatten ++ rest →
        cs.flatten.length ≤ UINT32_MAX →
        ∃ ls, deliver httpserverChunkedUpStreamPayload chunkedBodyStart cs =
            some (ps.map SBuf.payload, ls, true) ∧ ls.finished = true := by
  rw [httpserverChunkedUpStreamPayload_eq]
  exact deliver_sendChunkedBody hmax hne hlen

/-- **Response bodies, HttpServer to HttpClient**, with the previous tunnel not finished: the same,
with `response_complete` set. -/
theorem httpclientChunkedDownStreamPayload_roundTrip {max_chunk : Nat} (hmax : 0 < max_chunk)
    {ps : List SBuf} (hne : ∀ p ∈ ps, 0 < sbufGetLength p)
    (hlen : ∀ p ∈ ps, sbufGetLength p + 12 < 2 ^ 32) :
    ∃ sent, sendChunkedBody (httpserverTransportSendHttp1ChunkedPayload max_chunk)
        (httpserverTransportSendHttp1FinalChunk max_chunk) ps = some sent ∧
      ∀ (rest : List UInt8) (cs : List (List UInt8)), cs.flatten = sent.flatten ++ rest →
        cs.flatten.length ≤ UINT32_MAX →
        ∃ ls, deliver (httpclientChunkedDownStreamPayload false) chunkedBodyStart cs =
            some (ps.map SBuf.payload, ls, true) ∧ ls.finished = true := by
  rw [httpclientChunkedDownStreamPayload_eq]
  exact deliver_sendChunkedBody hmax hne hlen

/-- HttpClient sends the payloads `""` and `"a"` as a chunked request body: in whatever partition
the bytes arrive, HttpServer forwards nothing and takes the request body as complete. -/
theorem httpserverChunkedUpStreamPayload_emptyPayload :
    ∃ sent, sendChunkedBody (httpclientTransportSendHttp1ChunkedPayload 4096)
        (httpclientTransportSendHttp1FinalChunk 4096)
        [SBuf.ofPayload 16 [], SBuf.ofPayload 16 [97]] = some sent ∧
      ∀ cs : List (List UInt8), cs.flatten = sent.flatten →
        ∃ ls, deliver httpserverChunkedUpStreamPayload chunkedBodyStart cs = some ([], ls, true) ∧
          ls.finished = true := by
  obtain ⟨sent, hsent, hflat⟩ := sendChunkedBody_spec (show 0 < 4096 by decide)
    [SBuf.ofPayload 16 [], SBuf.ofPayload 16 [97]] (by simp [sbufGetLength, SBuf.ofPayload])
  refine ⟨sent, hsent, fun cs hcs => ?_⟩
  have hbytes : cs.flatten = chunkBytes [] ++ (chunkBytes [97] ++ lastChunk) := by
    rw [hcs, hflat]
    simp
  rw [httpserverChunkedUpStreamPayload_eq]
  exact deliver_of_emptyChunk (chunkBytes [97] ++ lastChunk) hbytes (by rw [hbytes]; decide)

end Http
end WaterWall
