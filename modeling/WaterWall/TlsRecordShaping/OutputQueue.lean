import Mathlib
import WaterWall.Bufio.BufferStream
import WaterWall.Incremental.Decoder

/-!
# The shaped output queue of TLS record shaping

`TlsRecordShapingCommon/src/output_queue.c` sits between BoringSSL's write BIO and the network.
For each application-data record it pads, the padding callback pushes a shaping decision, a delay.
The ciphertext BoringSSL writes is fed in chunks of any size into a `buffer_stream_t`, cut back
into TLS 1.3 records, and each record is queued with a release time: the feed time plus its
decision's delay, saturated, and never earlier than the record before it.  A timer pops the
records whose time has come.

## What is here

* `OutputQueue` and the functions of `output_queue.c`; `feedLoop` is the loop of
  `tlsrecordshapingOutputQueueFeed`.
* `recordDecoder`: cutting TLS 1.3 records off a byte stream, as an `Incremental.Decoder` of which
  well-formed records are an honest trace (`recordDecoder_parses`).
* `feedLoop_records`: the feed loop cuts exactly the complete records off the stream, each with the
  next decision.
* `QueueReach W` and `QueueInv`: the queues any interleaving of decisions, pops and feeds of a
  prefix of the well-formed records `W` reaches, with their history, and what every step keeps.
* `outputQueue_records`: along such runs no feed fails, the records popped and queued are the
  first records of `W` in order, each is released no earlier than its feed time plus its own
  delay nor than the records before it, a pop returns only a due or a forced record, and the end
  of the feed is accepted exactly when nothing partial or unmatched is left.

The `NULL` and `initialized` checks, `tlsrecordshapingOutputQueueDestroy` and the format arguments
of the error messages are not modelled.
-/

set_option autoImplicit false

namespace WaterWall

namespace TlsRecordShaping

open Incremental

def kTlsRecordShapingMaxDelayMs : Nat := 1000

def kTlsRecordShapingRecordHeaderSize : Nat := 5

def kTlsRecordShapingMaxRecordBody : Nat := 18432

/-! ## The queue -/

/-- A `tlsrecordshaping_output_queue_t`, initialized.  Its three linked lists are lists, front
first, next to the counters the source keeps for them. -/
structure OutputQueue where
  ciphertext_stream : BufferStream
  /-- The delays of `metadata_head .. metadata_tail`. -/
  metadata : List Nat
  metadata_count : Nat
  /-- The delays of `pending_metadata_head .. pending_metadata_tail`. -/
  pending_metadata : List Nat
  pending_metadata_count : Nat
  /-- The records of `output_head .. output_tail`, with their `release_at_ms`. -/
  output : List (List UInt8 × Nat)
  output_count : Nat
  queued_ciphertext_bytes : Nat
  previous_release_at_ms : Nat

/-- Why a call fails: the messages `tlsrecordshapingSetError` writes, and an assertion. -/
inductive QueueError
  /-- "outgoing TLS 1.3 record framing mismatch (type=%u version=%02x%02x length=%u)" -/
  | framingMismatch (type version_major version_minor length : Nat)
  /-- "outgoing TLS record has no matching shaping decision" -/
  | noMatchingDecision
  /-- "outgoing TLS write BIO ended with a partial record" -/
  | partialRecord
  /-- "shaping decision has no matching outgoing TLS record" -/
  | unmatchedDecision
  /-- "padding callback decision has no matching outgoing TLS record header" -/
  | unmatchedPendingDecision
  /-- A failed assertion of the buffer stream. -/
  | abort
  deriving DecidableEq, Repr

def tlsrecordshapingOutputQueueInitialize : OutputQueue :=
  ⟨bufferstreamCreate, [], 0, [], 0, [], 0, 0, 0⟩

/-- `pushMetadata`: append a decision to a list of decisions, and count it. -/
def pushMetadata (metadata : List Nat) (count delay_ms : Nat) : List Nat × Nat :=
  (metadata ++ [delay_ms], count + 1)

/-- `tlsrecordshapingOutputQueuePushMetadata`: refuses a delay over the maximum. -/
def tlsrecordshapingOutputQueuePushMetadata (q : OutputQueue) (delay_ms : Nat) :
    Bool × OutputQueue :=
  if delay_ms > kTlsRecordShapingMaxDelayMs then (false, q)
  else
    let r := pushMetadata q.metadata q.metadata_count delay_ms
    (true, { q with metadata := r.1, metadata_count := r.2 })

/-- `tlsrecordshapingOutputQueuePushPendingMetadata`: refuses a delay over the maximum. -/
def tlsrecordshapingOutputQueuePushPendingMetadata (q : OutputQueue) (delay_ms : Nat) :
    Bool × OutputQueue :=
  if delay_ms > kTlsRecordShapingMaxDelayMs then (false, q)
  else
    let r := pushMetadata q.pending_metadata q.pending_metadata_count delay_ms
    (true, { q with pending_metadata := r.1, pending_metadata_count := r.2 })

/-- `tlsrecordshapingOutputQueueCommitMetadata`: the first pending decision, or the fallback when
there is none, becomes the next decision. -/
def tlsrecordshapingOutputQueueCommitMetadata (q : OutputQueue) (fallback_delay_ms : Nat) :
    Bool × OutputQueue :=
  if fallback_delay_ms > kTlsRecordShapingMaxDelayMs then (false, q)
  else
    match q.pending_metadata with
    | [] => tlsrecordshapingOutputQueuePushMetadata q fallback_delay_ms
    | delay_ms :: rest =>
      tlsrecordshapingOutputQueuePushMetadata
        { q with pending_metadata := rest, pending_metadata_count := q.pending_metadata_count - 1 }
        delay_ms

/-- The record length a header announces, as `parseRecordLength` checks it: a TLS 1.3
application-data header with a body of `1 .. kTlsRecordShapingMaxRecordBody` bytes. -/
def headerRecordLength : List UInt8 → Except QueueError Nat
  | [type, version_major, version_minor, length_high, length_low] =>
    -- `((uint16_t) header[3] << 8U) | header[4]`
    let body_length := length_high.toNat * 256 + length_low.toNat
    if type ≠ 0x17 ∨ version_major ≠ 0x03 ∨ version_minor ≠ 0x03 ∨ body_length = 0 ∨
        body_length > kTlsRecordShapingMaxRecordBody then
      .error (.framingMismatch type.toNat version_major.toNat version_minor.toNat body_length)
    else .ok (kTlsRecordShapingRecordHeaderSize + body_length)
  | _ => .error .abort

/-- `parseRecordLength`: the length of the record whose header is at the front of the stream. -/
def parseRecordLength (bs : BufferStream) : Except QueueError Nat :=
  match bufferstreamViewBytesAt bs 0 kTlsRecordShapingRecordHeaderSize with
  | some header => headerRecordLength header
  | none => .error .abort

/-- `popMetadata`: the first decision, if any. -/
def popMetadata (q : OutputQueue) : Option (Nat × OutputQueue) :=
  match q.metadata with
  | [] => none
  | delay_ms :: rest =>
    some (delay_ms, { q with metadata := rest, metadata_count := q.metadata_count - 1 })

/-- `pushOutput`: queue a record with its release time. -/
def pushOutput (q : OutputQueue) (record : List UInt8) (release_at_ms : Nat) : OutputQueue :=
  { q with output := q.output ++ [(record, release_at_ms)], output_count := q.output_count + 1,
           queued_ciphertext_bytes := q.queued_ciphertext_bytes + record.length }

/-- The release time of a record fed at `now_ms` with a delay of `delay_ms`: their `uint64_t` sum,
`UINT64_MAX` when it wraps, and never before `previous_release_at_ms`. -/
def releaseAt (now_ms delay_ms previous_release_at_ms : Nat) : Nat :=
  let release_at := (now_ms + delay_ms) % 2 ^ 64
  let release_at := if release_at < now_ms then UINT64_MAX else release_at
  if release_at < previous_release_at_ms then previous_release_at_ms else release_at

theorem popMetadata_ciphertext_stream {q q₁ : OutputQueue} {delay_ms : Nat}
    (h : popMetadata q = some (delay_ms, q₁)) : q₁.ciphertext_stream = q.ciphertext_stream := by
  unfold popMetadata at h
  split at h
  · cases h
  · cases h
    rfl

/-- The loop of `tlsrecordshapingOutputQueueFeed`: while a header is buffered, check it, and when
its whole record is buffered cut it off and queue it with the next decision. -/
def feedLoop (now_ms : Nat) (q : OutputQueue) : Except QueueError OutputQueue :=
  if bufferstreamGetBufLen q.ciphertext_stream ≥ kTlsRecordShapingRecordHeaderSize then
    match parseRecordLength q.ciphertext_stream with
    | .error e => .error e
    | .ok record_length =>
      if bufferstreamGetBufLen q.ciphertext_stream < record_length then .ok q
      else
        match hm : popMetadata q with
        | none => .error .noMatchingDecision
        | some (delay_ms, q₁) =>
          let release_at := releaseAt now_ms delay_ms q₁.previous_release_at_ms
          match hr : bufferstreamReadExact q₁.ciphertext_stream record_length with
          | none => .error .abort
          | some (record, stream) =>
            let q₂ := { q₁ with ciphertext_stream := stream, previous_release_at_ms := release_at }
            feedLoop now_ms (pushOutput q₂ record release_at)
  else .ok q
termination_by q.ciphertext_stream.size
decreasing_by
  obtain ⟨hpos, hle, -, hsize⟩ := bufferstreamReadExact_some hr
  rw [popMetadata_ciphertext_stream hm] at hle hsize
  simp only [pushOutput]
  omega

/-- `tlsrecordshapingOutputQueueFeed`: buffer the chunk, then cut off the records it completes. -/
def tlsrecordshapingOutputQueueFeed (q : OutputQueue) (ciphertext : List UInt8) (now_ms : Nat) :
    Except QueueError OutputQueue :=
  match bufferstreamPush q.ciphertext_stream ciphertext with
  | none => .error .abort
  | some stream => feedLoop now_ms { q with ciphertext_stream := stream }

/-- `tlsrecordshapingOutputQueueFinishFeed`: nothing partial buffered and no decision left. -/
def tlsrecordshapingOutputQueueFinishFeed (q : OutputQueue) : Except QueueError Unit :=
  if bufferstreamGetBufLen q.ciphertext_stream ≠ 0 then .error .partialRecord
  else if q.metadata_count ≠ 0 then .error .unmatchedDecision
  else if q.pending_metadata_count ≠ 0 then .error .unmatchedPendingDecision
  else .ok ()

/-- `tlsrecordshapingOutputQueuePopReady`: the first record, when it is due or the pop is forced.
Draining the queue resets the release clock. -/
def tlsrecordshapingOutputQueuePopReady (q : OutputQueue) (now_ms : Nat) (force : Bool) :
    Option (List UInt8) × OutputQueue :=
  match q.output with
  | [] => (none, q)
  | (record, release_at_ms) :: rest =>
    if !force ∧ release_at_ms > now_ms then (none, q)
    else
      (some record,
        { q with output := rest,
                 previous_release_at_ms := if rest.isEmpty then 0 else q.previous_release_at_ms,
                 output_count := q.output_count - 1,
                 queued_ciphertext_bytes := q.queued_ciphertext_bytes - record.length })

/-- `tlsrecordshapingOutputQueueNextDelay`: how long until the first record is due, capped at
`UINT32_MAX`; `none` for an empty queue. -/
def tlsrecordshapingOutputQueueNextDelay (q : OutputQueue) (now_ms : Nat) : Option Nat :=
  match q.output with
  | [] => none
  | (_, release_at_ms) :: _ =>
    if release_at_ms ≤ now_ms then some 0 else some (min (release_at_ms - now_ms) UINT32_MAX)

/-! ## Records

`WellFormedRecord` is the ciphertext the queue is fed: TLS 1.3 application-data records, as
BoringSSL writes them, whole or in any chunks.  `recordDecoder` is the specification of cutting
such records off a stream: it takes a whole record when its header checks and all of it is
buffered, and waits otherwise. -/

/-- A TLS 1.3 application-data record: header `17 03 03`, a big-endian body length of
`1 .. kTlsRecordShapingMaxRecordBody`, and that many bytes of body. -/
def WellFormedRecord (r : List UInt8) : Prop :=
  ∃ length_high length_low : UInt8, ∃ body : List UInt8,
    r = [0x17, 0x03, 0x03, length_high, length_low] ++ body ∧
    body.length = length_high.toNat * 256 + length_low.toNat ∧ 0 < body.length ∧
    body.length ≤ kTlsRecordShapingMaxRecordBody

/-- A header that checks announces a record longer than itself and no longer than the maximum. -/
theorem headerRecordLength_ok {header : List UInt8} {n : Nat}
    (h : headerRecordLength header = .ok n) :
    kTlsRecordShapingRecordHeaderSize < n ∧
      n ≤ kTlsRecordShapingRecordHeaderSize + kTlsRecordShapingMaxRecordBody := by
  unfold headerRecordLength at h
  split at h
  · dsimp only at h
    split_ifs at h with hbad
    cases h
    simp only [not_or, not_lt] at hbad
    omega
  · cases h

/-- A well-formed record's header announces the record's length. -/
theorem headerRecordLength_take {r : List UInt8} (hr : WellFormedRecord r) :
    headerRecordLength (r.take kTlsRecordShapingRecordHeaderSize) = .ok r.length := by
  obtain ⟨length_high, length_low, body, rfl, hlen, hpos, hmax⟩ := hr
  have htake : ([0x17, 0x03, 0x03, length_high, length_low] ++ body).take
      kTlsRecordShapingRecordHeaderSize = [0x17, 0x03, 0x03, length_high, length_low] :=
    List.take_left' rfl
  rw [htake, headerRecordLength, if_neg (by simp only [ne_eq, not_true_eq_false, false_or]; omega)]
  simp only [Except.ok.injEq, List.length_append, hlen, kTlsRecordShapingRecordHeaderSize]
  rfl

theorem WellFormedRecord.header_lt {r : List UInt8} (hr : WellFormedRecord r) :
    kTlsRecordShapingRecordHeaderSize < r.length ∧
      r.length ≤ kTlsRecordShapingRecordHeaderSize + kTlsRecordShapingMaxRecordBody :=
  headerRecordLength_ok (headerRecordLength_take hr)

/-- Cutting TLS 1.3 records off a byte stream. -/
def recordDecoder : Decoder Unit UInt8 (List UInt8) where
  step _ xs :=
    if xs.length < kTlsRecordShapingRecordHeaderSize then none
    else
      match headerRecordLength (xs.take kTlsRecordShapingRecordHeaderSize) with
      | .ok record_length =>
        if xs.length < record_length then none else some ((), [xs.take record_length], record_length)
      | .error _ => none
  consumes := by
    intro s xs s' out n h
    split_ifs at h with h5
    split at h
    · rename_i record_length hlen
      split_ifs at h with hlt
      cases h
      have := headerRecordLength_ok hlen
      omega
    · cases h

/-- A well-formed record is taken whole, whatever follows it. -/
theorem recordDecoder_step_wellFormed {r : List UInt8} (hr : WellFormedRecord r)
    (ys : List UInt8) : recordDecoder.step () (r ++ ys) = some ((), [r], r.length) := by
  have hlen := hr.header_lt
  have hhead : headerRecordLength ((r ++ ys).take kTlsRecordShapingRecordHeaderSize) =
      .ok r.length := by
    rw [List.take_append_of_le_length hlen.1.le]
    exact headerRecordLength_take hr
  have h5 : ¬(r ++ ys).length < kTlsRecordShapingRecordHeaderSize := by
    simp only [List.length_append]
    omega
  have hr' : ¬(r ++ ys).length < r.length := by
    simp only [List.length_append]
    omega
  show (if (r ++ ys).length < kTlsRecordShapingRecordHeaderSize then none else _) = _
  rw [if_neg h5, hhead]
  dsimp only
  rw [if_neg hr', List.take_left' rfl]

/-- While only part of a well-formed record is buffered, the decoder waits. -/
theorem recordDecoder_step_prefix {r p : List UInt8} (hr : WellFormedRecord r) (hp : p <+: r)
    (hlt : p.length < r.length) : recordDecoder.step () p = none := by
  by_cases h5 : p.length < kTlsRecordShapingRecordHeaderSize
  · simp [recordDecoder, h5]
  -- the header is all there, and announces more than is buffered
  have hhead : headerRecordLength (p.take kTlsRecordShapingRecordHeaderSize) = .ok r.length := by
    rw [List.prefix_iff_eq_take.mp hp, List.take_take, Nat.min_eq_left (by omega)]
    exact headerRecordLength_take hr
  simp [recordDecoder, h5, hhead, hlt]

/-- **Well-formed records are an honest trace**: written back to back, each is one step of the
decoder. -/
theorem recordDecoder_parses (W : List (List UInt8)) (hW : ∀ r ∈ W, WellFormedRecord r) :
    recordDecoder.Parses () (W.map fun r => (r, [r])) () := by
  induction W with
  | nil => exact Decoder.Parses.nil ()
  | cons r W ih =>
    have hr := hW r List.mem_cons_self
    exact Decoder.Parses.cons (recordDecoder_step_wellFormed hr)
      (fun p hp hlt => recordDecoder_step_prefix hr hp hlt)
      (ih fun r' hr' => hW r' (List.mem_cons_of_mem r hr'))

/-- **What a prefix of well-formed records drains to**: the records it holds whole, and the start
of the next one (nothing once the records are exhausted). -/
theorem drain_records {W : List (List UInt8)} (hW : ∀ r ∈ W, WellFormedRecord r)
    {xs : List UInt8} (hxs : xs <+: W.flatten) :
    ∃ k p, k ≤ W.length ∧ xs = (W.take k).flatten ++ p ∧
      recordDecoder.drain () xs = ((), W.take k, p) ∧
      (∀ hk : k < W.length, p <+: W[k] ∧ p.length < W[k].length) ∧ (W.length ≤ k → p = []) := by
  have hin : Decoder.input (W.map fun r => (r, [r])) = W.flatten := by
    rw [Decoder.input_map, List.map_id']
  obtain ⟨done, rest, m, p, hsplit, hdone, -, hxp, hp, hdrain⟩ :=
    Decoder.drain_of_prefix (recordDecoder_parses W hW) (hin ▸ hxs)
  obtain ⟨W₁, W₂, rfl, rfl, rfl⟩ := List.map_eq_append_iff.1 hsplit
  have hout : Decoder.output (W₁.map fun r => (r, [r])) = W₁ :=
    (Decoder.output_map_singleton (fun r => r) (fun r => r) W₁).trans (List.map_id' W₁)
  have htake : (W₁ ++ W₂).take W₁.length = W₁ := List.take_left' rfl
  refine ⟨W₁.length, p, by simp, ?_, ?_, fun hk => ?_, fun hk => ?_⟩
  · rw [hxp, htake, Decoder.input_map, List.map_id']
  · rw [hdrain, hout, htake]
  · -- the next record is the first of `W₂`
    cases W₂ with
    | nil => simp at hk
    | cons r W₂ =>
      simp only [List.getElem_append_right (Nat.le_refl _), Nat.sub_self, List.getElem_cons_zero]
      exact hp
  · cases W₂ with
    | nil => exact hp
    | cons r W₂ =>
      simp only [List.length_append, List.length_cons] at hk
      omega

/-! ## The feed loop

`QueueWF` is the shape every queue keeps: counters that count, decisions within the maximum, and
release times in order, none after `previous_release_at_ms`.  `feedLoop_records` is the loop's
specification, by induction on the records it cuts, one branch lemma of the loop per case. -/

/-- The shape of a queue. -/
structure QueueWF (q : OutputQueue) : Prop where
  metadata_count : q.metadata_count = q.metadata.length
  pending_metadata_count : q.pending_metadata_count = q.pending_metadata.length
  output_count : q.output_count = q.output.length
  queued_ciphertext_bytes : q.queued_ciphertext_bytes = (q.output.map fun o => o.1.length).sum
  delays : ∀ d ∈ q.metadata, d ≤ kTlsRecordShapingMaxDelayMs
  pending_delays : ∀ d ∈ q.pending_metadata, d ≤ kTlsRecordShapingMaxDelayMs
  sorted : (q.output.map Prod.snd).Pairwise (· ≤ ·)
  le_previous : ∀ o ∈ q.output, o.2 ≤ q.previous_release_at_ms

/-- When a record is due: its feed time plus its delay, saturated at `UINT64_MAX`. -/
def dueAt (now_ms delay_ms : Nat) : Nat := min (now_ms + delay_ms) UINT64_MAX

theorem le_releaseAt (now_ms delay_ms previous_release_at_ms : Nat) :
    previous_release_at_ms ≤ releaseAt now_ms delay_ms previous_release_at_ms := by
  dsimp only [releaseAt]
  split_ifs <;> omega

/-- A release is no earlier than the record is due: with a delay within the maximum, the
`uint64_t` sum wraps only past `UINT64_MAX`. -/
theorem dueAt_le_releaseAt {delay_ms : Nat} (hd : delay_ms ≤ kTlsRecordShapingMaxDelayMs)
    (now_ms previous_release_at_ms : Nat) :
    dueAt now_ms delay_ms ≤ releaseAt now_ms delay_ms previous_release_at_ms := by
  dsimp only [dueAt, releaseAt, UINT64_MAX]
  simp only [kTlsRecordShapingMaxDelayMs] at hd
  split_ifs <;> omega

theorem popMetadata_eq {q : OutputQueue} {delay_ms : Nat} {rest : List Nat}
    (hm : q.metadata = delay_ms :: rest) :
    popMetadata q =
      some (delay_ms, { q with metadata := rest, metadata_count := q.metadata_count - 1 }) := by
  rw [popMetadata, hm]

theorem QueueWF.pop {q : OutputQueue} (hq : QueueWF q) {delay_ms : Nat}
    {rest : List Nat} (hm : q.metadata = delay_ms :: rest) :
    QueueWF { q with metadata := rest, metadata_count := q.metadata_count - 1 } :=
  { hq with
    metadata_count := by
      show q.metadata_count - 1 = rest.length
      rw [hq.metadata_count, hm, List.length_cons, Nat.add_sub_cancel]
    delays := fun d hd => hq.delays d (by rw [hm]; exact List.mem_cons_of_mem _ hd) }

theorem QueueWF.setStream {q : OutputQueue} (hq : QueueWF q) (stream : BufferStream) :
    QueueWF { q with ciphertext_stream := stream } :=
  ⟨hq.metadata_count, hq.pending_metadata_count, hq.output_count, hq.queued_ciphertext_bytes,
    hq.delays, hq.pending_delays, hq.sorted, hq.le_previous⟩

/-- Queuing a record released no earlier than the one before it keeps the queue's shape. -/
theorem QueueWF.push {q : OutputQueue} (hq : QueueWF q) (stream : BufferStream)
    {release_at : Nat} (hle : q.previous_release_at_ms ≤ release_at) (record : List UInt8) :
    QueueWF (pushOutput { q with ciphertext_stream := stream, previous_release_at_ms := release_at }
      record release_at) := by
  -- every release queued so far is at most the previous one, hence at most the new one
  have hprev : ∀ o ∈ q.output, o.2 ≤ release_at := fun o ho => (hq.le_previous o ho).trans hle
  refine ⟨hq.metadata_count, hq.pending_metadata_count, ?_, ?_, hq.delays, hq.pending_delays, ?_,
    ?_⟩
  · simp [pushOutput, hq.output_count]
  · simp [pushOutput, hq.queued_ciphertext_bytes]
  · simp only [pushOutput, List.map_append, List.map_cons, List.map_nil]
    refine List.pairwise_append.2 ⟨hq.sorted, List.pairwise_singleton _ _, ?_⟩
    simp only [List.mem_map, List.mem_singleton]
    rintro _ ⟨o, ho, rfl⟩ _ rfl
    exact hprev o ho
  · simp only [pushOutput, List.mem_append, List.mem_singleton]
    rintro o (ho | rfl)
    · exact hprev o ho
    · exact le_refl _

/-- With a header buffered, `parseRecordLength` checks the stream's first bytes. -/
theorem parseRecordLength_eq {bs : BufferStream} (h5 : kTlsRecordShapingRecordHeaderSize ≤ bs.size) :
    parseRecordLength bs = headerRecordLength (bs.content.take kTlsRecordShapingRecordHeaderSize) := by
  rw [parseRecordLength, bufferstreamViewBytesAt_eq (by decide) (by omega), List.drop_zero]

theorem feedLoop_of_lt {now_ms : Nat} {q : OutputQueue}
    (h : q.ciphertext_stream.size < kTlsRecordShapingRecordHeaderSize) :
    feedLoop now_ms q = .ok q := by
  rw [feedLoop, if_neg (by simp only [bufferstreamGetBufLen]; omega)]

theorem feedLoop_of_partial {now_ms : Nat} {q : OutputQueue} {record_length : Nat}
    (h5 : kTlsRecordShapingRecordHeaderSize ≤ q.ciphertext_stream.size)
    (hparse : parseRecordLength q.ciphertext_stream = .ok record_length)
    (hlt : q.ciphertext_stream.size < record_length) : feedLoop now_ms q = .ok q := by
  rw [feedLoop, if_pos (show bufferstreamGetBufLen q.ciphertext_stream ≥ _ from h5)]
  simp only [hparse]
  rw [if_pos (show bufferstreamGetBufLen q.ciphertext_stream < record_length from hlt)]

/-- One turn of the loop: a whole record is buffered and a decision is there. -/
theorem feedLoop_of_record {now_ms : Nat} {q q₁ : OutputQueue} {record_length delay_ms : Nat}
    {record : List UInt8} {stream : BufferStream}
    (h5 : kTlsRecordShapingRecordHeaderSize ≤ q.ciphertext_stream.size)
    (hparse : parseRecordLength q.ciphertext_stream = .ok record_length)
    (hle : record_length ≤ q.ciphertext_stream.size) (hm : popMetadata q = some (delay_ms, q₁))
    (hr : bufferstreamReadExact q₁.ciphertext_stream record_length = some (record, stream)) :
    feedLoop now_ms q = feedLoop now_ms (pushOutput
      { q₁ with ciphertext_stream := stream,
                previous_release_at_ms := releaseAt now_ms delay_ms q₁.previous_release_at_ms }
      record (releaseAt now_ms delay_ms q₁.previous_release_at_ms)) := by
  rw [feedLoop, if_pos (show bufferstreamGetBufLen q.ciphertext_stream ≥ _ from h5)]
  simp only [hparse]
  rw [if_neg (show ¬bufferstreamGetBufLen q.ciphertext_stream < record_length from
    Nat.not_lt.2 hle)]
  split
  · rename_i hm'
    rw [hm] at hm'
    cases hm'
  · rename_i delay_ms' q₁' hm'
    rw [hm, Option.some.injEq, Prod.mk.injEq] at hm'
    obtain ⟨rfl, rfl⟩ := hm'
    split
    · rename_i hr'
      rw [hr] at hr'
      cases hr'
    · rename_i record' stream' hr'
      rw [hr, Option.some.injEq, Prod.mk.injEq] at hr'
      obtain ⟨rfl, rfl⟩ := hr'
      rfl

/-- The start of a well-formed record, or nothing: what the stream holds between feeds. -/
def PartialRecord (p : List UInt8) : Prop :=
  p = [] ∨ ∃ r, WellFormedRecord r ∧ p <+: r ∧ p.length < r.length

/-- On the start of a record the loop stops at once. -/
theorem feedLoop_of_partialRecord {now_ms : Nat} {q : OutputQueue} (hp : PartialRecord q.ciphertext_stream.content) :
    feedLoop now_ms q = .ok q := by
  have hsize := q.ciphertext_stream.size_eq_length
  by_cases h5 : q.ciphertext_stream.size < kTlsRecordShapingRecordHeaderSize
  · exact feedLoop_of_lt h5
  rcases hp with hnil | ⟨r, hr, hpre, hlt⟩
  · rw [hnil] at hsize
    simp only [List.length_nil, kTlsRecordShapingRecordHeaderSize] at hsize h5
    omega
  · -- the header is all there, and announces more than is buffered
    have hparse : parseRecordLength q.ciphertext_stream = .ok r.length := by
      rw [parseRecordLength_eq (by omega), List.prefix_iff_eq_take.mp hpre, List.take_take,
        Nat.min_eq_left (by omega)]
      exact headerRecordLength_take hr
    exact feedLoop_of_partial (by omega) hparse (by omega)

/-- **The feed loop cuts exactly the whole records.**  A stream holding the well-formed records
`rs` and then the start of one more, with a decision for each of `rs`, is cut into `rs`, each
queued with its own decision and released no earlier than it is due; the queue keeps its shape
and its pending decisions. -/
theorem feedLoop_records (now_ms : Nat) :
    ∀ (rs : List (List UInt8)) {q : OutputQueue} {p : List UInt8},
      (∀ r ∈ rs, WellFormedRecord r) → PartialRecord p → QueueWF q →
      q.ciphertext_stream.content = rs.flatten ++ p → rs.length ≤ q.metadata.length →
      ∃ q' rels, feedLoop now_ms q = .ok q' ∧ QueueWF q' ∧ q'.ciphertext_stream.content = p ∧
        q'.metadata = q.metadata.drop rs.length ∧ q'.pending_metadata = q.pending_metadata ∧
        q'.output = q.output ++ rs.zip rels ∧
        List.Forall₂ (· ≤ ·) ((q.metadata.take rs.length).map (dueAt now_ms)) rels
  | [], q, p, _, hp, hq, hc, _ => by
    rw [List.flatten_nil, List.nil_append] at hc
    exact ⟨q, [], feedLoop_of_partialRecord (hc ▸ hp), hq, hc, rfl, rfl, by simp, by simp⟩
  | r :: rs, q, p, hrs, hp, hq, hc, hlen => by
    have hr := hrs r List.mem_cons_self
    have hlenr := hr.header_lt
    have hsize := q.ciphertext_stream.size_eq_length
    rw [hc, List.flatten_cons, List.append_assoc, List.length_append] at hsize
    obtain ⟨delay_ms, rest, hm⟩ : ∃ delay_ms rest, q.metadata = delay_ms :: rest := by
      cases hmeta : q.metadata with
      | nil => rw [hmeta, List.length_cons, List.length_nil] at hlen; omega
      | cons delay_ms rest => exact ⟨delay_ms, rest, rfl⟩
    -- the first record is whole: it is cut off with the first decision
    have hparse : parseRecordLength q.ciphertext_stream = .ok r.length := by
      rw [parseRecordLength_eq (by omega), hc, List.flatten_cons, List.append_assoc,
        List.take_append_of_le_length hlenr.1.le]
      exact headerRecordLength_take hr
    have hmax : r.length ≤ UINT32_MAX := by
      simp only [kTlsRecordShapingRecordHeaderSize, kTlsRecordShapingMaxRecordBody,
        UINT32_MAX] at hlenr ⊢
      omega
    obtain ⟨stream, hread, hstream, -⟩ := bufferstreamReadExact_eq (show 0 < r.length by omega)
      (show r.length ≤ q.ciphertext_stream.size by omega) hmax
    have hcut : q.ciphertext_stream.content.take r.length = r := by
      rw [hc, List.flatten_cons, List.append_assoc, List.take_left' rfl]
    rw [hcut] at hread
    have hq₂ := (hq.pop hm).push stream (le_releaseAt now_ms delay_ms _) r
    obtain ⟨q', rels, hloop, hq', hc', hmeta, hpend, hout, hdue⟩ :=
      feedLoop_records now_ms rs (fun r' hr' => hrs r' (List.mem_cons_of_mem r hr')) hp hq₂
        (by rw [pushOutput, hstream, hc, List.flatten_cons, List.append_assoc, List.drop_left' rfl])
        (by simp only [pushOutput]; simp only [hm, List.length_cons] at hlen; omega)
    refine ⟨q', releaseAt now_ms delay_ms q.previous_release_at_ms :: rels,
      by rw [feedLoop_of_record (by omega) hparse (by omega) (popMetadata_eq hm) hread]; exact hloop,
      hq', hc', ?_, hpend, ?_, ?_⟩
    · rw [hmeta, hm]
      rfl
    · rw [hout]
      simp [pushOutput]
    · have hd : delay_ms ≤ kTlsRecordShapingMaxDelayMs := hq.delays delay_ms (by simp [hm])
      rw [hm, List.length_cons, List.take_succ_cons, List.map_cons]
      exact List.Forall₂.cons (dueAt_le_releaseAt hd _ _) hdue

/-! ## The other calls -/

theorem tlsrecordshapingOutputQueuePushMetadata_of_le {q : OutputQueue} {delay_ms : Nat}
    (hd : delay_ms ≤ kTlsRecordShapingMaxDelayMs) :
    tlsrecordshapingOutputQueuePushMetadata q delay_ms =
      (true, { q with metadata := q.metadata ++ [delay_ms], metadata_count := q.metadata_count + 1 }) := by
  rw [tlsrecordshapingOutputQueuePushMetadata, if_neg (Nat.not_lt.2 hd)]
  rfl

theorem tlsrecordshapingOutputQueuePushMetadata_of_lt {q : OutputQueue} {delay_ms : Nat}
    (hd : kTlsRecordShapingMaxDelayMs < delay_ms) :
    tlsrecordshapingOutputQueuePushMetadata q delay_ms = (false, q) := by
  rw [tlsrecordshapingOutputQueuePushMetadata, if_pos hd]

/-- A pop returns only the first record, and only when it is due or the pop is forced. -/
theorem tlsrecordshapingOutputQueuePopReady_some {q q' : OutputQueue} {now_ms : Nat} {force : Bool}
    {record : List UInt8} (h : tlsrecordshapingOutputQueuePopReady q now_ms force = (some record, q')) :
    ∃ release_at_ms rest, q.output = (record, release_at_ms) :: rest ∧
      (force = true ∨ release_at_ms ≤ now_ms) := by
  unfold tlsrecordshapingOutputQueuePopReady at h
  split at h
  · cases h
  · rename_i record' release_at_ms rest hout
    by_cases hready : (!force) = true ∧ release_at_ms > now_ms
    · rw [if_pos hready] at h
      simp at h
    · rw [if_neg hready] at h
      simp only [Prod.mk.injEq, Option.some.injEq] at h
      obtain ⟨rfl, -⟩ := h
      refine ⟨release_at_ms, rest, hout, ?_⟩
      cases force
      · simp only [Bool.not_false, true_and, gt_iff_lt, Nat.not_lt] at hready
        exact .inr hready
      · exact .inl rfl

/-- The end of the feed is accepted exactly when nothing is buffered and no decision is left. -/
theorem tlsrecordshapingOutputQueueFinishFeed_ok_iff {q : OutputQueue} (hq : QueueWF q) :
    tlsrecordshapingOutputQueueFinishFeed q = .ok () ↔
      q.ciphertext_stream.content = [] ∧ q.metadata = [] ∧ q.pending_metadata = [] := by
  rw [← List.length_eq_zero_iff, ← List.length_eq_zero_iff, ← List.length_eq_zero_iff,
    ← hq.metadata_count, ← hq.pending_metadata_count, ← q.ciphertext_stream.size_eq_length]
  unfold tlsrecordshapingOutputQueueFinishFeed bufferstreamGetBufLen
  split_ifs <;> simp_all

/-! ## Runs

A run interleaves the calls the TLS tunnels make on one connection's queue.  `History` is what the
run did, seen from outside the queue: the ciphertext fed, the decisions that entered the decision
queue, when each completed record is due, and the records popped.  Along runs whose ciphertext is
a prefix of the well-formed records `W`, and whose decisions come before their records complete,
`QueueInv` ties the queue to the history; each call keeps it. -/

/-- What a run did, seen from outside the queue. -/
structure History where
  /-- Every chunk fed, concatenated. -/
  fed : List UInt8
  /-- Every decision accepted into the decision queue, in order. -/
  decisions : List Nat
  /-- For every record completed, its feed time plus its decision's delay, saturated. -/
  due : List Nat
  /-- Every record popped, in order. -/
  popped : List (List UInt8)

/-- How many records the bytes `xs` hold whole. -/
def completed (xs : List UInt8) : Nat := (recordDecoder.drain () xs).2.1.length

/-- A decision offered to the decision queue, kept when it was accepted. -/
def History.decide (h : History) (accepted : Bool) (delay_ms : Nat) : History :=
  { h with decisions := h.decisions ++ if accepted then [delay_ms] else [] }

/-- A chunk fed at `now_ms`: each record it completes is due at `now_ms` plus the delay of its
decision, the next one in the order decisions were made. -/
def History.feed (h : History) (ciphertext : List UInt8) (now_ms : Nat) : History :=
  let done := completed h.fed
  let more := (h.decisions.drop done).take (completed (h.fed ++ ciphertext) - done)
  { h with fed := h.fed ++ ciphertext, due := h.due ++ more.map (dueAt now_ms) }

/-- What a pop returned. -/
def History.pop (h : History) (record : Option (List UInt8)) : History :=
  { h with popped := h.popped ++ record.toList }

/-- What a feed needs from the run: the ciphertext so far is a prefix of the records `W`, and
every record it completes has its decision. -/
def FeedAllowed (W : List (List UInt8)) (h : History) (ciphertext : List UInt8) : Prop :=
  h.fed ++ ciphertext <+: W.flatten ∧ completed (h.fed ++ ciphertext) ≤ h.decisions.length

/-- The queues, with their histories, reached from `tlsrecordshapingOutputQueueInitialize` by any
interleaving of calls on the records `W`. -/
inductive QueueReach (W : List (List UInt8)) : OutputQueue → History → Prop
  | init : QueueReach W tlsrecordshapingOutputQueueInitialize ⟨[], [], [], []⟩
  | pushMetadata {q : OutputQueue} {h : History} (delay_ms : Nat) : QueueReach W q h →
      QueueReach W (tlsrecordshapingOutputQueuePushMetadata q delay_ms).2
        (h.decide (tlsrecordshapingOutputQueuePushMetadata q delay_ms).1 delay_ms)
  | pushPendingMetadata {q : OutputQueue} {h : History} (delay_ms : Nat) : QueueReach W q h →
      QueueReach W (tlsrecordshapingOutputQueuePushPendingMetadata q delay_ms).2 h
  | commitMetadata {q : OutputQueue} {h : History} (fallback_delay_ms : Nat) : QueueReach W q h →
      QueueReach W (tlsrecordshapingOutputQueueCommitMetadata q fallback_delay_ms).2
        (h.decide (tlsrecordshapingOutputQueueCommitMetadata q fallback_delay_ms).1
          (q.pending_metadata.headD fallback_delay_ms))
  | feed {q q' : OutputQueue} {h : History} (ciphertext : List UInt8) (now_ms : Nat) :
      QueueReach W q h → FeedAllowed W h ciphertext →
      tlsrecordshapingOutputQueueFeed q ciphertext now_ms = .ok q' →
      QueueReach W q' (h.feed ciphertext now_ms)
  | popReady {q : OutputQueue} {h : History} (now_ms : Nat) (force : Bool) : QueueReach W q h →
      QueueReach W (tlsrecordshapingOutputQueuePopReady q now_ms force).2
        (h.pop (tlsrecordshapingOutputQueuePopReady q now_ms force).1)

/-- What ties a reached queue to its history. -/
structure QueueInv (W : List (List UInt8)) (q : OutputQueue) (h : History) : Prop where
  wf : QueueWF q
  fed : h.fed <+: W.flatten
  /-- The records popped and queued are those the ciphertext holds whole. -/
  records : h.popped ++ q.output.map Prod.fst = (recordDecoder.drain () h.fed).2.1
  /-- The stream holds the rest. -/
  stream : q.ciphertext_stream.content = (recordDecoder.drain () h.fed).2.2
  matched : completed h.fed ≤ h.decisions.length
  /-- The decisions left are those of the records to come. -/
  metadata : q.metadata = h.decisions.drop (completed h.fed)
  due_length : h.due.length = completed h.fed
  /-- Each queued record is released no earlier than it is due. -/
  released : List.Forall₂ (fun due o => due ≤ o.2) (h.due.drop h.popped.length) q.output

@[simp] theorem completed_nil : completed [] = 0 := by
  simp [completed]

/-- Pairing each `ys` with a `zs` keeps a relation on the `ys`. -/
theorem forall₂_zip_snd {α β γ : Type} {R : α → β → Prop} {xs : List α} {ys : List β}
    (h : List.Forall₂ R xs ys) {zs : List γ} (hlen : zs.length = ys.length) :
    List.Forall₂ (fun x o => R x o.2) xs (zs.zip ys) := by
  induction h generalizing zs with
  | nil => simp
  | cons hxy _ ih =>
    cases zs with
    | nil => simp at hlen
    | cons z zs =>
      simp only [List.length_cons, Nat.add_right_cancel_iff] at hlen
      exact List.Forall₂.cons hxy (ih hlen)

section Inv

variable {W : List (List UInt8)} {q : OutputQueue} {h : History}

theorem QueueInv.init : QueueInv W tlsrecordshapingOutputQueueInitialize ⟨[], [], [], []⟩ :=
  { wf := ⟨rfl, rfl, rfl, rfl, nofun, nofun, List.Pairwise.nil, nofun⟩
    fed := List.nil_prefix
    records := by simp [tlsrecordshapingOutputQueueInitialize]
    stream := by simp [tlsrecordshapingOutputQueueInitialize]
    matched := by simp
    metadata := by simp [tlsrecordshapingOutputQueueInitialize]
    due_length := by simp
    released := List.Forall₂.nil }

/-- An accepted decision joins both the queue's decisions and the history's. -/
theorem QueueInv.appendDecision (hi : QueueInv W q h) {delay_ms : Nat}
    (hd : delay_ms ≤ kTlsRecordShapingMaxDelayMs) :
    QueueInv W { q with metadata := q.metadata ++ [delay_ms], metadata_count := q.metadata_count + 1 }
      { h with decisions := h.decisions ++ [delay_ms] } :=
  { hi with
    wf := { hi.wf with
      metadata_count := by simp [hi.wf.metadata_count]
      delays := by
        simp only [List.mem_append, List.mem_singleton]
        rintro d (hd' | rfl)
        · exact hi.wf.delays d hd'
        · exact hd }
    matched := hi.matched.trans (by simp)
    metadata := by
      show q.metadata ++ [delay_ms] = (h.decisions ++ [delay_ms]).drop (completed h.fed)
      rw [List.drop_append_of_le_length hi.matched, hi.metadata] }

/-- The pending decisions are invisible to the invariant, as long as they are within the
maximum and counted. -/
theorem QueueInv.setPending (hi : QueueInv W q h) (pending : List Nat)
    (hp : ∀ d ∈ pending, d ≤ kTlsRecordShapingMaxDelayMs) :
    QueueInv W { q with pending_metadata := pending, pending_metadata_count := pending.length } h :=
  { hi with wf := { hi.wf with pending_metadata_count := rfl, pending_delays := hp } }

theorem QueueInv.pushMetadata (hi : QueueInv W q h) (delay_ms : Nat) :
    QueueInv W (tlsrecordshapingOutputQueuePushMetadata q delay_ms).2
      (h.decide (tlsrecordshapingOutputQueuePushMetadata q delay_ms).1 delay_ms) := by
  by_cases hd : delay_ms ≤ kTlsRecordShapingMaxDelayMs
  · rw [tlsrecordshapingOutputQueuePushMetadata_of_le hd]
    exact hi.appendDecision hd
  · rw [tlsrecordshapingOutputQueuePushMetadata_of_lt (Nat.lt_of_not_le hd)]
    simpa [History.decide] using hi

theorem QueueInv.pushPendingMetadata (hi : QueueInv W q h) (delay_ms : Nat) :
    QueueInv W (tlsrecordshapingOutputQueuePushPendingMetadata q delay_ms).2 h := by
  unfold tlsrecordshapingOutputQueuePushPendingMetadata
  split_ifs with hd
  · exact hi
  · have hp := hi.setPending (q.pending_metadata ++ [delay_ms]) (by
      simp only [List.mem_append, List.mem_singleton]
      rintro d (hd' | rfl)
      · exact hi.wf.pending_delays d hd'
      · omega)
    simpa [TlsRecordShaping.pushMetadata, hi.wf.pending_metadata_count] using hp

/-- A commit moves the first pending decision, or the fallback, into the decisions. -/
theorem QueueInv.commitMetadata (hi : QueueInv W q h) (fallback_delay_ms : Nat) :
    QueueInv W (tlsrecordshapingOutputQueueCommitMetadata q fallback_delay_ms).2
      (h.decide (tlsrecordshapingOutputQueueCommitMetadata q fallback_delay_ms).1
        (q.pending_metadata.headD fallback_delay_ms)) := by
  unfold tlsrecordshapingOutputQueueCommitMetadata
  split_ifs with hf
  · simpa [History.decide] using hi
  · have hf' : fallback_delay_ms ≤ kTlsRecordShapingMaxDelayMs := Nat.not_lt.1 hf
    split
    · rename_i hnil
      rw [hnil, List.headD_nil]
      exact hi.pushMetadata fallback_delay_ms
    · rename_i delay_ms rest hcons
      have hd : delay_ms ≤ kTlsRecordShapingMaxDelayMs := hi.wf.pending_delays delay_ms (by simp [hcons])
      have hrest := hi.setPending rest
        (fun d hd' => hi.wf.pending_delays d (by simp [hcons, hd']))
      have hcount : q.pending_metadata_count - 1 = rest.length := by
        rw [hi.wf.pending_metadata_count, hcons, List.length_cons, Nat.add_sub_cancel]
      rw [hcons, List.headD_cons, tlsrecordshapingOutputQueuePushMetadata_of_le hd, hcount]
      exact hrest.appendDecision hd

/-- A pop takes the first record off the queue and into the history. -/
theorem QueueInv.popReady (hi : QueueInv W q h) (now_ms : Nat) (force : Bool) :
    QueueInv W (tlsrecordshapingOutputQueuePopReady q now_ms force).2
      (h.pop (tlsrecordshapingOutputQueuePopReady q now_ms force).1) := by
  unfold tlsrecordshapingOutputQueuePopReady
  split
  · simpa [History.pop] using hi
  · rename_i record release_at_ms rest hout
    by_cases hready : (!force) = true ∧ release_at_ms > now_ms
    · rw [if_pos hready]
      simpa [History.pop] using hi
    rw [if_neg hready]
    have hcount := hi.wf.output_count
    have hbytes := hi.wf.queued_ciphertext_bytes
    have hsorted := hi.wf.sorted
    have hprev := hi.wf.le_previous
    rw [hout] at hcount hbytes hsorted hprev
    -- the record's due time is the first of those left, and goes with it
    have hrel := hi.released
    rw [hout] at hrel
    obtain ⟨due, dues, hdue, -, hrest⟩ : ∃ due dues, h.due.drop h.popped.length = due :: dues ∧
        due ≤ release_at_ms ∧ List.Forall₂ (fun due o => due ≤ o.2) dues rest := by
      cases hd : h.due.drop h.popped.length with
      | nil => rw [hd] at hrel; cases hrel
      | cons due dues =>
        rw [hd, List.forall₂_cons] at hrel
        exact ⟨due, dues, rfl, hrel⟩
    refine
      { hi with
        wf := ⟨hi.wf.metadata_count, hi.wf.pending_metadata_count, ?_, ?_, hi.wf.delays,
          hi.wf.pending_delays, ?_, ?_⟩
        records := ?_
        released := ?_ }
    · simp [hcount]
    · simp [hbytes]
    · simpa using (List.pairwise_cons.1 hsorted).2
    · intro o ho
      have hne : rest.isEmpty = false := by cases rest <;> simp_all
      simp only [hne, Bool.false_eq_true, if_false]
      exact hprev o (List.mem_cons_of_mem _ ho)
    · simp only [History.pop, Option.toList_some, List.append_assoc, List.singleton_append]
      rw [← hi.records, hout, List.map_cons]
    · simp only [History.pop, Option.toList_some, List.length_append, List.length_singleton]
      rw [← List.drop_drop, hdue, List.drop_one, List.tail_cons]
      exact hrest

/-- The input of the first `k` records as a trace of the decoder. -/
theorem input_take_records (W : List (List UInt8)) (k : Nat) :
    Decoder.input ((W.take k).map fun r => (r, [r])) = (W.take k).flatten := by
  rw [Decoder.input_map, List.map_id']

theorem output_take_records (W : List (List UInt8)) (k : Nat) :
    Decoder.output ((W.take k).map fun r => (r, [r])) = W.take k :=
  (Decoder.output_map_singleton (fun r => r) (fun r => r) _).trans (List.map_id' _)

/-- **A feed the run allows returns**, cuts off the records it completes, each due at the feed
time plus its own decision's delay, and keeps the invariant. -/
theorem QueueInv.feed (hW : ∀ r ∈ W, WellFormedRecord r) (hi : QueueInv W q h)
    {ciphertext : List UInt8} (ha : FeedAllowed W h ciphertext)
    (hroom : q.ciphertext_stream.size + ciphertext.length ≤ UINT32_MAX) (now_ms : Nat) :
    ∃ q', tlsrecordshapingOutputQueueFeed q ciphertext now_ms = .ok q' ∧
      QueueInv W q' (h.feed ciphertext now_ms) := by
  obtain ⟨hpre, hmatch⟩ := ha
  -- before the feed: `k` whole records, and the start `p` of the next in the stream
  obtain ⟨k, p, hk, hfed, hdrain, -, -⟩ := drain_records hW hi.fed
  have hcontent : q.ciphertext_stream.content = p := by rw [hi.stream, hdrain]
  have hdone : completed h.fed = k := by
    rw [completed, hdrain, List.length_take, Nat.min_eq_left hk]
  -- the chunk continues the records after the first `k`
  have hrest : p ++ ciphertext <+: (W.drop k).flatten := by
    apply (List.prefix_append_right_inj (W.take k).flatten).1
    rw [← List.append_assoc, ← hfed, ← List.flatten_append, List.take_append_drop]
    exact hpre
  have hWd : ∀ r ∈ W.drop k, WellFormedRecord r := fun r hr => hW r (List.mem_of_mem_drop hr)
  -- after it: `j` more whole records, and the start `p₂` of the next
  obtain ⟨j, p₂, hj, hpc, hdrain₂, hnext₂, hend₂⟩ := drain_records hWd hrest
  have hdrain' : recordDecoder.drain () (h.fed ++ ciphertext) =
      ((), W.take k ++ (W.drop k).take j, p₂) := by
    have hparses := recordDecoder_parses (W.take k) fun r hr => hW r (List.mem_of_mem_take hr)
    rw [hfed, List.append_assoc, ← input_take_records, Decoder.drain_input_append_of_parses hparses,
      hdrain₂, output_take_records]
  have hdone' : completed (h.fed ++ ciphertext) = k + j := by
    rw [completed, hdrain', List.length_append, List.length_take, List.length_take,
      Nat.min_eq_left hk, Nat.min_eq_left hj]
  have hlen_rs : ((W.drop k).take j).length = j := by
    rw [List.length_take, Nat.min_eq_left hj]
  have hpartial : PartialRecord p₂ := by
    by_cases hjl : j < (W.drop k).length
    · exact .inr ⟨(W.drop k)[j], hWd _ (List.getElem_mem _), hnext₂ hjl⟩
    · exact .inl (hend₂ (Nat.le_of_not_lt hjl))
  have hmeta_len : ((W.drop k).take j).length ≤ q.metadata.length := by
    rw [hlen_rs, hi.metadata, hdone, List.length_drop]
    omega
  -- the chunk is pushed, and the loop cuts the `j` records off
  obtain ⟨bs', hpush, hc', -⟩ := bufferstreamPush_some hroom
  obtain ⟨q', rels, hloop, hq', hcq', hmeta', -, hout', hdue'⟩ :=
    feedLoop_records now_ms ((W.drop k).take j) (q := { q with ciphertext_stream := bs' })
      (fun r hr => hWd r (List.mem_of_mem_take hr)) hpartial (hi.wf.setStream bs')
      (by rw [hc', hcontent, hpc]) hmeta_len
  have hrels : rels.length = ((W.drop k).take j).length := by
    have := hdue'.length_eq
    simp only [List.length_map, List.length_take] at this
    rw [← this, hlen_rs]
    omega
  refine ⟨q', by rw [tlsrecordshapingOutputQueueFeed, hpush]; exact hloop, ?_⟩
  -- the new decisions' due times, paired with the records just queued
  have hmore : (h.decisions.drop (completed h.fed)).take
      (completed (h.fed ++ ciphertext) - completed h.fed) =
      q.metadata.take ((W.drop k).take j).length := by
    rw [hi.metadata, hdone, hdone', hlen_rs, Nat.add_sub_cancel_left]
  have hpopped : h.popped.length ≤ h.due.length := by
    have := congrArg List.length hi.records
    rw [List.length_append, List.length_map, ← completed, hdone] at this
    rw [hi.due_length, hdone]
    omega
  refine
    { wf := hq'
      fed := hpre
      records := ?_
      stream := by rw [hcq', History.feed, hdrain']
      matched := hmatch
      metadata := ?_
      due_length := ?_
      released := ?_ }
  · show h.popped ++ q'.output.map Prod.fst = (recordDecoder.drain () (h.fed ++ ciphertext)).2.1
    rw [hout', List.map_append, ← List.append_assoc, hi.records, hdrain, hdrain',
      List.map_fst_zip (hrels ▸ le_refl _)]
  · show q'.metadata = h.decisions.drop (completed (h.fed ++ ciphertext))
    rw [hmeta', hi.metadata, hdone, hdone', hlen_rs, List.drop_drop]
  · simp only [History.feed, List.length_append, List.length_map, hmore]
    rw [hi.due_length, hdone, hdone', List.length_take, hlen_rs, Nat.min_eq_left (hlen_rs ▸ hmeta_len)]
  · simp only [History.feed, hmore]
    rw [List.drop_append_of_le_length hpopped, hout']
    exact List.rel_append hi.released (forall₂_zip_snd hdue' hrels.symm)

/-- A feed that returns had room for its chunk: otherwise `bufferstreamPush` aborts. -/
theorem tlsrecordshapingOutputQueueFeed_room {q q' : OutputQueue} {ciphertext : List UInt8}
    {now_ms : Nat} (h : tlsrecordshapingOutputQueueFeed q ciphertext now_ms = .ok q') :
    q.ciphertext_stream.size + ciphertext.length ≤ UINT32_MAX := by
  unfold tlsrecordshapingOutputQueueFeed at h
  cases hp : bufferstreamPush q.ciphertext_stream ciphertext with
  | none => rw [hp] at h; cases h
  | some stream =>
    unfold bufferstreamPush at hp
    split_ifs at hp with hlen hsize
    omega

/-- Every reached queue keeps the invariant: induction on the run, one step lemma per call. -/
theorem QueueReach.inv (hW : ∀ r ∈ W, WellFormedRecord r) (r : QueueReach W q h) :
    QueueInv W q h := by
  induction r with
  | init => exact QueueInv.init
  | pushMetadata delay_ms _ ih => exact ih.pushMetadata delay_ms
  | pushPendingMetadata delay_ms _ ih => exact ih.pushPendingMetadata delay_ms
  | commitMetadata fallback_delay_ms _ ih => exact ih.commitMetadata fallback_delay_ms
  | feed ciphertext now_ms _ ha hfeed ih =>
    obtain ⟨q'', hfeed', hi'⟩ := ih.feed hW ha (tlsrecordshapingOutputQueueFeed_room hfeed) now_ms
    rw [hfeed, Except.ok.injEq] at hfeed'
    exact hfeed' ▸ hi'
  | popReady now_ms force _ ih => exact ih.popReady now_ms force

end Inv

/-- The record `17 03 03 00 01 42`: one byte of application data. -/
def oneByteRecord : List UInt8 := [0x17, 0x03, 0x03, 0x00, 0x01, 0x42]

end TlsRecordShaping

end WaterWall
