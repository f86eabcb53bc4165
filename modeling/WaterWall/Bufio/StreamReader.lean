import WaterWall.Incremental.Decoder
import WaterWall.Bufio.BufferStream

/-!
# Reading frames off a stream until there are none

The stream-framed tunnels handle a payload from their peer the same way: push it into the
line's `buffer_stream_t`, then call a frame reader in a loop until it reports that no complete
frame is buffered (`packetstostreamTryReadIPv4Packet`, `streamtopacketsTryReadIPv4Packet`, the
KeepAlive and Encryption readers, ...).  This file is that loop, for any reader.

* `StreamReader` is a reader with the fact that reading a frame shrinks the stream, which is
  what makes the loop terminate.
* `StreamReader.Refines R D` says that one call of the reader is a run of the decoder `D` of the
  `Incremental` library over the buffered bytes, with at most one frame out.  A reader may drop
  bytes before it finds a frame, or before it gives up: only what `D` emits is constrained.
* `StreamReader.drain_eq` and `StreamReader.receive_eq`: the loop drains what `D` drains, and a
  whole sequence of deliveries is decoded as `D.feed` decodes it.
-/

set_option autoImplicit false

namespace WaterWall

open Incremental

/-- A frame reader over a `buffer_stream_t`: `none` is an abort, `some (none, bs')` a `false` (or
`NULL`) return, `some (some x, bs')` a frame. -/
structure StreamReader (β : Type) where
  /-- One call of the reader. -/
  read : BufferStream → Option (Option β × BufferStream)
  /-- Reading a frame consumes bytes. -/
  shrinks : ∀ {bs bs' : BufferStream} {x : β}, read bs = some (some x, bs') → bs'.size < bs.size

namespace StreamReader

variable {β : Type} (R : StreamReader β)

/-- The reader called in a loop until it returns no frame. -/
def drain (bs : BufferStream) : Option (List β × BufferStream) :=
  match hread : R.read bs with
  | none => none
  | some (none, bs') => some ([], bs')
  | some (some x, bs') => (drain bs').map fun r => (x :: r.1, r.2)
termination_by bs.size
decreasing_by exact R.shrinks hread

/-- Deliveries from the peer: each payload is pushed into the stream, which is then drained. -/
def receive : BufferStream → List (List UInt8) → Option (List β × BufferStream)
  | bs, [] => some ([], bs)
  | bs, c :: cs =>
    match bufferstreamPush bs c with
    | none => none
    | some bs₁ =>
      match R.drain bs₁ with
      | none => none
      | some (xs, bs₂) => (receive bs₂ cs).map fun r => (xs ++ r.1, r.2)

variable {R}

theorem drain_of_read_none {bs bs' : BufferStream} (h : R.read bs = some (none, bs')) :
    R.drain bs = some ([], bs') := by
  rw [drain]
  split <;> simp_all

theorem drain_of_read_some {bs bs' : BufferStream} {x : β} (h : R.read bs = some (some x, bs')) :
    R.drain bs = (R.drain bs').map fun r => (x :: r.1, r.2) := by
  rw [drain]
  split
  · simp_all
  · simp_all
  · rename_i x' bs'' hread
    rw [h] at hread
    cases hread
    rfl

/-- `R` reads what the decoder `D` decodes: one call is a run of decoder steps over the buffered
bytes that emits at most one frame.  When the call returns no frame, the decoder emits nothing
more and stops where the reader leaves the stream; when it returns a frame, the decoder emits that
frame and then goes on as from the stream the reader leaves. -/
def Refines (D : Decoder Unit UInt8 β) : Prop :=
  ∀ bs : BufferStream, ∃ r bs', R.read bs = some (r, bs') ∧
    match r with
    | none => (D.drain () bs.content).2.1 = [] ∧ (D.drain () bs.content).2.2 = bs'.content
    | some x => (D.drain () bs.content).2.1 = x :: (D.drain () bs'.content).2.1 ∧
        (D.drain () bs.content).2.2 = (D.drain () bs'.content).2.2

/-- The common case: each call is one decoder step, which either waits, leaving the stream alone,
or takes one frame off its front. -/
theorem refines_of_step {D : Decoder Unit UInt8 β}
    (h : ∀ bs : BufferStream,
      (D.step () bs.content = none ∧ R.read bs = some (none, bs)) ∨
      ∃ x n bs', D.step () bs.content = some ((), [x], n) ∧ R.read bs = some (some x, bs') ∧
        bs'.content = bs.content.drop n) :
    R.Refines D := by
  intro bs
  rcases h bs with ⟨hstep, hread⟩ | ⟨x, n, bs', hstep, hread, hc⟩
  · exact ⟨none, bs, hread, by rw [D.drain_of_step_none hstep], by rw [D.drain_of_step_none hstep]⟩
  · refine ⟨some x, bs', hread, ?_, ?_⟩
    · rw [D.drain_of_step_some hstep, hc]
      rfl
    · rw [D.drain_of_step_some hstep, hc]

/-- **The loop drains what the decoder drains**, whatever the queue looks like. -/
theorem drain_eq {D : Decoder Unit UInt8 β} (hR : R.Refines D) (bs : BufferStream) :
    ∃ bs', R.drain bs = some ((D.drain () bs.content).2.1, bs') ∧
      bs'.content = (D.drain () bs.content).2.2 := by
  induction h : bs.size using Nat.strong_induction_on generalizing bs with
  | _ n ih =>
    obtain ⟨r, bs', hread, hr⟩ := hR bs
    cases r with
    | none =>
      -- the reader gives up: the decoder has nothing more to emit either
      obtain ⟨hout, hrest⟩ := hr
      exact ⟨bs', by rw [drain_of_read_none hread, hout], hrest.symm⟩
    | some x =>
      -- a frame, and the rest of the loop runs on a shorter stream
      obtain ⟨hout, hrest⟩ := hr
      obtain ⟨bs'', hdrain, hc⟩ := ih _ (h ▸ R.shrinks hread) bs' rfl
      refine ⟨bs'', ?_, by rw [hc, hrest]⟩
      rw [drain_of_read_some hread, hdrain, hout]
      rfl

/-- **Receiving is decoding.**  As long as the stream stays within the 32-bit limit that
`bufferstreamPush` enforces, the deliveries are decoded as the decoder decodes them. -/
theorem receive_eq {D : Decoder Unit UInt8 β} (hR : R.Refines D) (cs : List (List UInt8)) :
    ∀ bs : BufferStream, bs.size + cs.flatten.length ≤ UINT32_MAX →
      ∃ bs', R.receive bs cs = some ((D.feed () bs.content cs).2.1, bs') ∧
        bs'.content = (D.feed () bs.content cs).2.2 := by
  induction cs with
  | nil => intro bs _; exact ⟨bs, rfl, rfl⟩
  | cons c cs ih =>
    intro bs hle
    simp only [List.flatten_cons, List.length_append] at hle
    have hroom : bs.size + c.length ≤ UINT32_MAX := by omega
    have hpush := bufferstreamPush_eq hroom
    have hc₁ := content_bufferstreamPush hpush
    obtain ⟨bs₂, hdrain, hc₂⟩ := drain_eq hR ⟨bs.q ++ [c], bs.size + c.length, by simp [bs.size_eq]⟩
    -- what is left after draining is no longer than what was there
    have hle₂ : bs₂.size + cs.flatten.length ≤ UINT32_MAX := by
      have hsuf := Decoder.length_drain_rest_le D () (bs.content ++ c)
      rw [bs₂.size_eq_length, hc₂, hc₁]
      rw [bs.size_eq_length] at hle
      simp only [List.length_append] at hsuf
      omega
    obtain ⟨bs₃, hrec, hc₃⟩ := ih bs₂ hle₂
    refine ⟨bs₃, ?_, ?_⟩
    · rw [receive, hpush]
      simp only
      rw [hdrain]
      simp only
      rw [hrec, Decoder.feed_cons, ← hc₁, ← hc₂]
      rfl
    · rw [hc₃, Decoder.feed_cons, ← hc₁, ← hc₂]

end StreamReader

end WaterWall
