import Mathlib
import WaterWall.PacketStream.Ipv4Framing

/-!
# Re-synchronisation of the IPv4 extractor

`tryReadIPv4Packet` trusts a head that `ipv4HeaderLooksValid` accepts and otherwise drops bytes
with `dropResyncBytes` and looks again.  `WaterWall.PacketStream.Ipv4Framing` shows that what it
hands out is what the decoder `ipv4Decoder` emits; this file says what happens to the bytes it
does not hand out.

* `ResyncStep bs bs'`: one re-synchronisation.  `ResyncStep.spec`: it drops between one and
  `kResyncScanWindow` bytes off the front, and none of the offsets it drops, past the rejected
  head, starts twenty bytes that `ipv4HeaderLooksValid` accepts.
* `tryReadIPv4Packet_none` and `tryReadIPv4Packet_some`: one call is a chain of
  re-synchronisations, then a wait (less than a header buffered, or a plausible head whose packet
  is not all there) or a packet, which is the leading total-length bytes of a plausible head.
* `ipv4Reader_receive_segments`: over a whole sequence of deliveries, the bytes pushed are the
  decoder's segments back to back, each a packet handed out or a re-synchronisation's drop, and
  then what is still buffered; `length_input_eq` counts them.
-/

set_option autoImplicit false

namespace WaterWall
namespace PacketStream

open Incremental

/-! ## One re-synchronisation -/

/-- Every offset that `DropResyncBytes` drops past the rejected head was scanned, with a whole
header's worth of the window behind it, and found not plausible.  The scan stops at the first
plausible head, and when there is none the drop keeps the window's last `IP_HLEN - 1` bytes, which
are the offsets the scan could not look at. -/
theorem resyncDropCount_skips (scan : List UInt8) {window i : Nat} (h1 : 1 ≤ i)
    (hi : i < resyncDropCount scan window) :
    i + IP_HLEN ≤ window ∧ ipv4HeaderLooksValid (scan.drop i) = none := by
  unfold resyncDropCount resyncScan at hi
  dsimp only at hi
  cases hfind : (List.range' 1 (window - IP_HLEN)).find? fun i =>
      (ipv4HeaderLooksValid (scan.drop i)).isSome with
  | none =>
    -- nothing plausible in the window: every offset the drop covers was scanned
    rw [hfind, Option.getD_none, if_neg (Nat.lt_irrefl 0)] at hi
    have hnone := List.find?_range'_eq_none.mp hfind i h1 (by simp only [IP_HLEN] at hi ⊢; omega)
    refine ⟨by simp only [IP_HLEN] at hi ⊢; omega, ?_⟩
    simpa using hnone
  | some j =>
    -- the first plausible offset `j`: the drop stops there
    obtain ⟨-, hj, hbefore⟩ := List.find?_range'_eq_some.mp hfind
    have hj' := List.mem_range'_1.mp hj
    rw [hfind, Option.getD_some, if_pos (by omega)] at hi
    refine ⟨by omega, ?_⟩
    simpa using hbefore i h1 hi

/-- What `resyncDrop` drops of the buffered bytes, past the rejected head, holds no plausible
head. -/
theorem resyncDrop_skips {xs : List UInt8} {i : Nat} (h1 : 1 ≤ i) (hi : i < resyncDrop xs) :
    i + IP_HLEN ≤ xs.length ∧ ipv4HeaderLooksValid ((xs.drop i).take IP_HLEN) = none := by
  have hw := resyncWindow_le xs.length
  obtain ⟨hwin, hscan⟩ := resyncDropCount_skips (xs.take (resyncWindow xs.length)) h1 hi
  refine ⟨by omega, ?_⟩
  -- the window's suffix at `i` and the stream's head at `i` agree on the four bytes the check reads
  rw [List.drop_take, ipv4HeaderLooksValid_take _ (show 4 ≤ resyncWindow xs.length - i by
    simp only [IP_HLEN] at hwin; omega)] at hscan
  rw [ipv4HeaderLooksValid_take _ (by decide)]
  exact hscan

/-- One re-synchronisation of the extractor: a header's worth is buffered, its head is not
plausible, and `dropResyncBytes` leaves `bs'`. -/
def ResyncStep (bs bs' : BufferStream) : Prop :=
  IP_HLEN ≤ bs.size ∧ ipv4HeaderLooksValid (bs.content.take IP_HLEN) = none ∧
    dropResyncBytes bs = some bs'

theorem ResyncStep.content {bs bs' : BufferStream} (h : ResyncStep bs bs') :
    bs'.content = bs.content.drop (resyncDrop bs.content) := by
  obtain ⟨h20, -, hdrop⟩ := h
  obtain ⟨bs'', hdrop', hc, -⟩ := dropResyncBytes_eq h20
  rw [hdrop] at hdrop'
  cases hdrop'
  exact hc

/-- **A re-synchronisation drops between one and `kResyncScanWindow` bytes, and skips no
plausible head**: every offset it drops past the rejected one has twenty bytes behind it that
`ipv4HeaderLooksValid` rejects. -/
theorem ResyncStep.spec {bs bs' : BufferStream} (h : ResyncStep bs bs') :
    ∃ d, 0 < d ∧ d ≤ kResyncScanWindow ∧ bs'.content = bs.content.drop d ∧
      ∀ i, 1 ≤ i → i < d →
        i + IP_HLEN ≤ bs.size ∧ ipv4HeaderLooksValid ((bs.content.drop i).take IP_HLEN) = none := by
  have hsize := bs.size_eq_length
  obtain ⟨hpos, -, hwin⟩ := resyncDrop_pos (hsize ▸ h.1)
  refine ⟨resyncDrop bs.content, hpos, hwin, h.content, fun i h1 hi => ?_⟩
  rw [hsize]
  exact resyncDrop_skips h1 hi

/-- A chain of re-synchronisations drops a prefix of the stream, in pieces of one to
`kResyncScanWindow` bytes. -/
theorem ResyncStep.chain {bs bs' : BufferStream} (h : Relation.ReflTransGen ResyncStep bs bs') :
    ∃ drops : List (List UInt8), bs.content = drops.flatten ++ bs'.content ∧
      ∀ d ∈ drops, 0 < d.length ∧ d.length ≤ kResyncScanWindow := by
  induction h using Relation.ReflTransGen.head_induction_on with
  | refl => exact ⟨[], rfl, by simp⟩
  | @head b₀ b₁ hstep _ ih =>
    obtain ⟨drops, hc, hd⟩ := ih
    obtain ⟨hpos, hle, hwin⟩ := resyncDrop_pos (b₀.size_eq_length ▸ hstep.1)
    -- the step's piece is what it drops off the front of `b₀`
    refine ⟨b₀.content.take (resyncDrop b₀.content) :: drops, ?_, ?_⟩
    · rw [List.flatten_cons, List.append_assoc, ← hc, hstep.content, List.take_append_drop]
    · intro d hmem
      rcases List.mem_cons.mp hmem with rfl | hmem
      · rw [List.length_take]
        omega
      · exact hd d hmem

/-! ## One call of the extractor -/

/-- **When the extractor returns `false`**, it has re-synchronised from the stream it was given
to the one it leaves, and that one holds less than a header, or a plausible head whose packet is
not all buffered. -/
theorem tryReadIPv4Packet_none (bs : BufferStream) {bs' : BufferStream}
    (h : tryReadIPv4Packet bs = some (none, bs')) :
    Relation.ReflTransGen ResyncStep bs bs' ∧
      (bs'.size < IP_HLEN ∨ ∃ total_len, ipv4HeaderLooksValid (bs'.content.take IP_HLEN) =
        some total_len ∧ bs'.size < total_len) := by
  induction hn : bs.size using Nat.strong_induction_on generalizing bs with
  | _ n ih =>
    by_cases h20 : bs.size < IP_HLEN
    · -- too little for a header: the stream is left as it is
      rw [tryReadIPv4Packet_of_short h20] at h
      cases h
      exact ⟨.refl, .inl h20⟩
    have h20' := Nat.le_of_not_lt h20
    cases hvalid : ipv4HeaderLooksValid (bs.content.take IP_HLEN) with
    | some total_len =>
      rw [tryReadIPv4Packet_of_valid h20' hvalid] at h
      by_cases hlt : bs.size < total_len
      · rw [if_pos hlt] at h
        cases h
        exact ⟨.refl, .inr ⟨total_len, hvalid, hlt⟩⟩
      · -- a whole packet is buffered, and a call that reads it does not return `false`
        rw [if_neg hlt] at h
        simp at h
    | none =>
      obtain ⟨bs₁, hdrop, -, hlt₁⟩ := dropResyncBytes_eq h20'
      rw [tryReadIPv4Packet_of_resync h20' hvalid hdrop] at h
      obtain ⟨hchain, hend⟩ := ih bs₁.size (hn ▸ hlt₁) bs₁ h rfl
      exact ⟨.head ⟨h20', hvalid, hdrop⟩ hchain, hend⟩

/-- **When the extractor returns a packet**, it has re-synchronised to a stream that starts with
the packet, whose head is plausible and declares the packet's length; what it leaves is the rest
of that stream. -/
theorem tryReadIPv4Packet_some (bs : BufferStream) {bs' : BufferStream} {p : List UInt8}
    (h : tryReadIPv4Packet bs = some (some p, bs')) :
    ∃ bk, Relation.ReflTransGen ResyncStep bs bk ∧ bk.content = p ++ bs'.content ∧
      ipv4HeaderLooksValid (p.take IP_HLEN) = some p.length := by
  induction hn : bs.size using Nat.strong_induction_on generalizing bs with
  | _ n ih =>
    by_cases h20 : bs.size < IP_HLEN
    · rw [tryReadIPv4Packet_of_short h20] at h
      cases h
    have h20' := Nat.le_of_not_lt h20
    cases hvalid : ipv4HeaderLooksValid (bs.content.take IP_HLEN) with
    | some total_len =>
      rw [tryReadIPv4Packet_of_valid h20' hvalid] at h
      by_cases hlt : bs.size < total_len
      · rw [if_pos hlt] at h
        cases h
      -- the packet is the first `total_len` bytes, and the head it starts with is the stream's
      rw [if_neg hlt] at h
      obtain ⟨⟨out, bs''⟩, hread, hout⟩ := Option.map_eq_some_iff.mp h
      simp only [Prod.mk.injEq, Option.some.injEq] at hout
      obtain ⟨rfl, rfl⟩ := hout
      obtain ⟨hpos, hle, hc, -⟩ := bufferstreamReadExact_some hread
      obtain ⟨htotal, hmax⟩ := ipv4HeaderLooksValid_spec hvalid
      have hmax' : total_len ≤ UINT32_MAX := by
        simp only [kMaxAllowedPacketLength, UINT32_MAX] at hmax ⊢
        omega
      obtain ⟨bs₂, hread₂, -, -⟩ := bufferstreamReadExact_eq hpos hle hmax'
      rw [hread] at hread₂
      cases hread₂
      have hlen : (bs.content.take total_len).length = total_len := by
        rw [List.length_take, ← bs.size_eq_length]
        omega
      refine ⟨bs, .refl, by rw [hc, List.take_append_drop], ?_⟩
      rw [List.take_take, Nat.min_eq_left htotal, hvalid, hlen]
    | none =>
      obtain ⟨bs₁, hdrop, -, hlt₁⟩ := dropResyncBytes_eq h20'
      rw [tryReadIPv4Packet_of_resync h20' hvalid hdrop] at h
      obtain ⟨bk, hchain, hend⟩ := ih bs₁.size (hn ▸ hlt₁) bs₁ h rfl
      exact ⟨bk, .head ⟨h20', hvalid, hdrop⟩ hchain, hend⟩

/-! ## A whole receive loop

Over many deliveries the bytes are followed through the decoder: `feed_trace` of the `Incremental`
library cuts what was pushed into the decoder's segments, and each segment is a packet or a
re-synchronisation's drop. -/

/-- What one step of the decoder can do: take a packet whose plausible head declares its length,
or, on a header's worth whose head is not plausible, drop what `resyncDrop` says. -/
theorem ipv4Decoder_step_cases {xs : List UInt8} {u : Unit} {out : List (List UInt8)} {n : Nat}
    (h : ipv4Decoder.step () xs = some (u, out, n)) :
    (out = [xs.take n] ∧ ipv4HeaderLooksValid ((xs.take n).take IP_HLEN) = some n) ∨
      (out = [] ∧ IP_HLEN ≤ xs.length ∧ ipv4HeaderLooksValid (xs.take IP_HLEN) = none ∧
        n = resyncDrop xs) := by
  simp only [ipv4Decoder] at h
  split_ifs at h with h20
  split at h
  · rename_i total_len hvalid
    split_ifs at h with hlt
    cases h
    have htotal := (ipv4HeaderLooksValid_spec hvalid).1
    refine .inl ⟨rfl, ?_⟩
    rw [List.take_take, Nat.min_eq_left htotal, hvalid]
  · rename_i hvalid
    cases h
    exact .inr ⟨rfl, by omega, hvalid, rfl⟩

/-- **Every segment the decoder consumes is a packet or a drop**: a packet is emitted as it is,
and its head is plausible and declares its length; a drop emits nothing and is one to
`kResyncScanWindow` bytes. -/
theorem ipv4Decoder_trace_segments {s t : Unit} {segs : List (List UInt8 × List (List UInt8))}
    (h : ipv4Decoder.Trace s segs t) :
    ∀ seg ∈ segs, (seg.2 = [seg.1] ∧ ipv4HeaderLooksValid (seg.1.take IP_HLEN) = some seg.1.length) ∨
      (seg.2 = [] ∧ 0 < seg.1.length ∧ seg.1.length ≤ kResyncScanWindow) := by
  induction h with
  | nil => simp
  | @cons s s₁ t seg out rest ys hstep _ ih =>
    intro x hx
    rcases List.mem_cons.mp hx with rfl | hx
    · -- the step saw the segment and what followed it, and consumed the segment
      have htake : (seg ++ ys).take seg.length = seg := List.take_left' rfl
      rcases ipv4Decoder_step_cases hstep with ⟨hout, hvalid⟩ | ⟨hout, h20, -, hn⟩
      · rw [htake] at hout hvalid
        exact .inl ⟨hout, hvalid⟩
      · obtain ⟨hpos, -, hwin⟩ := resyncDrop_pos h20
        rw [← hn] at hpos hwin
        exact .inr ⟨hout, hpos, hwin⟩
    · exact ih x hx

/-- **Every byte pushed is handed out, dropped or still buffered**: the bytes the receive loop
was given are the segments of a trace of the decoder, back to back, followed by what the stream
still holds, and the packets handed out are what those segments emitted. -/
theorem ipv4Reader_receive_segments (bs : BufferStream) (cs : List (List UInt8))
    (hmax : bs.size + cs.flatten.length ≤ UINT32_MAX) :
    ∃ packets bs' segs, ipv4Reader.receive bs cs = some (packets, bs') ∧
      ipv4Decoder.Trace () segs () ∧ bs.content ++ cs.flatten = Decoder.input segs ++ bs'.content ∧
      packets = Decoder.output segs := by
  obtain ⟨bs', hrecv, hc⟩ := StreamReader.receive_eq tryReadIPv4Packet_refines cs bs hmax
  obtain ⟨segs, htr, hin, hout⟩ := ipv4Decoder.feed_trace () bs.content cs
  refine ⟨_, bs', segs, hrecv, htr, ?_, hout⟩
  rw [hc]
  exact hin

/-- The bytes of a trace that the decoder dropped: its segments that emitted nothing. -/
def droppedInput (segs : List (List UInt8 × List (List UInt8))) : List UInt8 :=
  Decoder.input (segs.filter fun seg => seg.2.isEmpty)

/-- Where every segment is emitted as it is or dropped, its bytes are those emitted plus those
dropped. -/
theorem length_input_eq {segs : List (List UInt8 × List (List UInt8))}
    (h : ∀ seg ∈ segs, seg.2 = [seg.1] ∨ seg.2 = []) :
    (Decoder.input segs).length =
      ((Decoder.output segs).map List.length).sum + (droppedInput segs).length := by
  induction segs with
  | nil => rfl
  | cons seg segs ih =>
    obtain ⟨x, out⟩ := seg
    have ih' := ih fun seg hseg => h seg (List.mem_cons_of_mem _ hseg)
    unfold droppedInput at ih' ⊢
    rcases h (x, out) List.mem_cons_self with hout | hout <;> dsimp only at hout <;> subst hout
    · -- a packet: emitted, not dropped
      simp only [Decoder.input_cons, Decoder.output_cons, List.filter_cons, List.isEmpty_cons,
        Bool.false_eq_true, if_false, List.length_append, List.map_append, List.sum_append,
        List.map_cons, List.map_nil, List.sum_cons, List.sum_nil, ih']
      omega
    · -- a drop: dropped, not emitted
      simp only [Decoder.input_cons, Decoder.output_cons, List.filter_cons, List.isEmpty_nil,
        if_true, List.length_append, List.nil_append, ih']
      omega

/-! ## The extractor of both tunnels -/

end PacketStream
end WaterWall
