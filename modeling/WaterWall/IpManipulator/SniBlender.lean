import WaterWall.Net.Fragment
import WaterWall.Net.ChecksumUpdate

/-!
# IpManipulator: the SNI blender trick

`sniblendertrickUpStreamPayload` (`tunnels/IpManipulator/common/tricks/sniblender/trick.c`) takes
an unfragmented IPv4 TCP packet whose payload starts a TLS ClientHello and sends it on as IPv4
fragments, the first one first and the rest shuffled, so that a middlebox that does not
reassemble never sees the ClientHello whole.  The first fragment carries the TCP header rounded
up to 8 bytes; the planner cuts the rest into equal shares rounded down to 8 bytes, in `uint16_t`
arithmetic, and gives the last fragment what is left.

* `sniblenderPlanLoop_cuts`: the planned fragments lie end to end over the payload, each
  nonempty, all but the last in whole 8-byte units, and no more of them than the count allows.
* `sniblenderCraftFragment_spec`: a crafted fragment is a complete IPv4 packet with the source's
  header but for the total length, flags and offset, and checksum, and the planned bytes.
* `sniblenderShuffle_perm`: the shuffle permutes the fragments and never moves the first.
* `sniblendertrickUpStreamPayload_bypass`, `sniblendertrickUpStreamPayload_handled`: every early
  return leaves the buffer with the caller, changed at most by a pending checksum request;
  otherwise what is sent is an `Ipv4Fragmentation` of the packet, first fragment first, and the
  source buffer goes back to the pool once, after the last send.
-/

set_option autoImplicit false

namespace WaterWall
namespace IpManipulator

open Net Tiling
open scoped List

/-! ## The model -/

def kSniBlenderTrickMinPacketsCount : Int := 2

/-- `kSniBlenderTrickMaxPacketsCount`: the size of the trick's fragment arrays. -/
def kSniBlenderTrickMaxPacketsCount : Int := 16

/-- The check of `sni-blender-packets` that creating the tunnel makes (`instance/create.c`). -/
def sniBlenderPacketsCountAccepted (trick_sni_blender_packets_count : Int) : Prop :=
  ¬ (trick_sni_blender_packets_count < kSniBlenderTrickMinPacketsCount ∨
    trick_sni_blender_packets_count > kSniBlenderTrickMaxPacketsCount)

instance (trick_sni_blender_packets_count : Int) :
    Decidable (sniBlenderPacketsCountAccepted trick_sni_blender_packets_count) :=
  inferInstanceAs (Decidable (¬ (_ ∨ _)))

/-- `IPH_HL`: the header length in 32-bit words. -/
def IPH_HL (buf : List UInt8) : UInt8 := byteAt buf 0 &&& 0x0f

/-- `TCPH_HDRLEN` of the TCP header at `off`: its data offset, in 32-bit words. -/
def TCPH_HDRLEN (buf : List UInt8) (off : Nat) : Nat :=
  (lwip_ntohs (load16 buf (off + 12))).toNat >>> 12

/-- `isTlsClientHello`: the TCP payload starts with a TLS handshake record (content type 22,
version 3.x with x at most 3) whose message is a ClientHello (type 1). -/
def isTlsClientHello (packet : List UInt8) (iphdr_hlen tcphdr_hlen ip_total_len : Nat) : Bool :=
  if ip_total_len < iphdr_hlen + tcphdr_hlen + 6 then false
  else
    let tls := iphdr_hlen + tcphdr_hlen
    decide (byteAt packet tls = 0x16 ∧ byteAt packet (tls + 1) = 0x03 ∧
      byteAt packet (tls + 2) ≤ 0x03 ∧ byteAt packet (tls + 5) = 0x01)

/-- `fastRand` (`ww/libc/wfrand.h`): one step of the thread's linear congruential generator
`frand_seed32`, and its output, in `[0, 32767]`. -/
def fastRand (frand_seed32 : UInt32) : UInt32 × UInt32 :=
  let frand_seed32 := 214013 * frand_seed32 + 2531011
  ((frand_seed32 >>> 16) &&& 0x7FFF, frand_seed32)

/-- The length the planner gives the next fragment when `fragments_left` fragments remain for
`remaining_payload` bytes: an equal share rounded down to 8 bytes, or all that is left when this
is the last fragment or the share rounds to nothing. -/
def sniblenderShare (fragments_left : Nat) (remaining_payload : UInt16) : UInt16 :=
  if fragments_left > 1 then
    let this_len := UInt16.ofNat ((remaining_payload.toNat / fragments_left) &&& 0xFFFFFFF8)
    if this_len = 0 then remaining_payload else this_len
  else remaining_payload

/-- The planning loop: the offsets and lengths of the fragments after the first, while payload
remains and `fragments_left`, the configured count less the fragments planned so far, is
positive. -/
def sniblenderPlanLoop : Nat → UInt16 → UInt16 → List (UInt16 × UInt16)
  | 0, _, _ => []
  | fragments_left + 1, offset_bytes, remaining_payload =>
    if remaining_payload > 0 then
      let this_len := sniblenderShare (fragments_left + 1) remaining_payload
      (offset_bytes, this_len) ::
        sniblenderPlanLoop fragments_left (offset_bytes + this_len) (remaining_payload - this_len)
    else []

/-- One crafted fragment: the source's header with the total length, the version and header
length, the identification and the flags and offset set, then `this_len` bytes of the payload
from `this_offset`.  `clonePacketWithLength` takes a buffer of `iphdr_len + this_len` bytes from
the pool and every one of them is written, so what it held before does not matter. -/
def sniblenderCraftFragment (buf : List UInt8) (iphdr_len : Nat) (identification : UInt16)
    (more_fragments : Bool) (this_offset this_len : UInt16) : List UInt8 :=
  let fhdr := buf.take iphdr_len
  let fhdr := IPH_LEN_SET fhdr (lwip_htons (UInt16.ofNat (iphdr_len + this_len.toNat)))
  let fhdr := IPH_VHL_SET fhdr 4 (iphdr_len / 4)
  let fhdr := IPH_ID_SET fhdr (lwip_htons identification)
  let flags_offset := this_offset >>> 3
  let flags_offset := if more_fragments then flags_offset ||| UInt16.ofNat IP_MF else flags_offset
  let fhdr := IPH_OFFSET_SET fhdr (lwip_htons flags_offset)
  fhdr ++ (buf.drop (iphdr_len + this_offset.toNat)).take this_len.toNat

/-- The crafting loop over the planned fragments, from fragment `i` of `planned_count`; it stops
at a fragment of length zero. -/
def sniblenderCraftLoop (buf : List UInt8) (iphdr_len : Nat) (identification : UInt16)
    (planned_count : Nat) : Nat → List (UInt16 × UInt16) → List (List UInt8)
  | _, [] => []
  | i, (this_offset, this_len) :: rest =>
    if this_len = 0 then []
    else
      sniblenderCraftFragment buf iphdr_len identification (decide (i < planned_count - 1))
          this_offset this_len ::
        sniblenderCraftLoop buf iphdr_len identification planned_count (i + 1) rest

/-- The swap of the shuffle: `temp = a[idx]; a[idx] = a[j]; a[j] = temp`. -/
def sniblenderSwap (shuffled_indices : List Nat) (idx j : Nat) : List Nat :=
  let temp := shuffled_indices.getD idx 0
  let shuffled_indices := shuffled_indices.set idx (shuffled_indices.getD j 0)
  shuffled_indices.set j temp

/-- The shuffle: for `idx` from the given one down to 2, swap position `idx` with a position
`j = 1 + rand () % idx`, in `[1, idx]`.  The trick draws from `fastRand`; the generator is a
parameter here so that nothing about the shuffle unfolds its arithmetic. -/
def sniblenderShuffle (rand : UInt32 → UInt32 × UInt32) :
    Nat → List Nat → UInt32 → List Nat × UInt32
  | idx + 2, shuffled_indices, frand_seed32 =>
    let (r, frand_seed32) := rand frand_seed32
    let j := 1 + r.toNat % (idx + 2)
    sniblenderShuffle rand (idx + 1) (sniblenderSwap shuffled_indices (idx + 2) j) frand_seed32
  | _, shuffled_indices, frand_seed32 => (shuffled_indices, frand_seed32)

/-- What the trick does with the line: a packet sent on with `ipmanipulatorSendUpstreamFinal`,
or the source buffer given back with `lineReuseBuffer`. -/
inductive LineAction where
  | sendUpstreamFinal (packet : List UInt8)
  | reuseBuffer (buf : List UInt8)
deriving DecidableEq, Repr

/-- What a call of the trick leaves: its answer, the source buffer, what it did with the line in
order, the line's `recalculate_checksum` and the thread's `frand_seed32`. -/
structure SniBlenderOutcome where
  handled : Bool
  buf : List UInt8
  actions : List LineAction
  recalculate_checksum : Bool
  frand_seed32 : UInt32

/-- The planning: the first fragment carries `min_first_fragment_payload` bytes, and the loop
cuts the rest of the `total_payload` bytes among the other fragments. -/
def sniblenderPlan (trick_sni_blender_packets_count : Int) (min_first_fragment_payload : UInt16)
    (total_payload : Nat) : List (UInt16 × UInt16) :=
  (0, min_first_fragment_payload) ::
    sniblenderPlanLoop (trick_sni_blender_packets_count - 1).toNat min_first_fragment_payload
      (UInt16.ofNat (total_payload - min_first_fragment_payload.toNat))

/-- The sending: the fragments in the shuffled order, each send setting `recalculate_checksum`,
and the source buffer back to the pool last. -/
def sniblenderSend (crafted_packets : List (List UInt8)) (buf : List UInt8)
    (frand_seed32 : UInt32) : SniBlenderOutcome :=
  let crafted_count := crafted_packets.length
  let (shuffled_indices, frand_seed32) :=
    sniblenderShuffle fastRand (crafted_count - 1) (List.range crafted_count) frand_seed32
  { handled := true, buf,
    actions := shuffled_indices.map (fun packet_i =>
        LineAction.sendUpstreamFinal (crafted_packets.getD packet_i [])) ++
      [LineAction.reuseBuffer buf],
    recalculate_checksum := true, frand_seed32 }

/-- `sniblendertrickUpStreamPayload` with lwIP's `inet_chksum` and the transport checksum backend
`checksum` (which the pending checksum request calls), the configured
`trick_sni_blender_packets_count`, the line's `recalculate_checksum` flag and the thread's
`frand_seed32`. -/
def sniblendertrickUpStreamPayload (inet_chksum : List UInt8 → UInt16)
    (checksum : List UInt8 → UInt32 → UInt16)
    (trick_sni_blender_packets_count : Int) (recalculate_checksum : Bool)
    (frand_seed32 : UInt32) (buf : List UInt8) : SniBlenderOutcome :=
  -- every early return answers `false` and leaves the buffer with the caller
  let bypass (buf : List UInt8) (recalculate_checksum : Bool) : SniBlenderOutcome :=
    { handled := false, buf, actions := [], recalculate_checksum, frand_seed32 }
  if buf.length < IP_HLEN then bypass buf recalculate_checksum
  else if IPH_V buf ≠ 4 ∨ IPH_PROTO buf ≠ IP_PROTO_TCP then bypass buf recalculate_checksum
  else
    let packet_length := buf.length
    let ip_hdr_len_words := IPH_HL buf
    if ip_hdr_len_words < 5 ∨ ip_hdr_len_words > 15 then bypass buf recalculate_checksum
    else
    let iphdr_len := ip_hdr_len_words.toNat * 4
    if packet_length < iphdr_len + TCP_HLEN then bypass buf recalculate_checksum
    else
    let ip_total_len := (lwip_ntohs (IPH_LEN buf)).toNat
    if ip_total_len < iphdr_len + TCP_HLEN ∨ packet_length < ip_total_len then
      bypass buf recalculate_checksum
    else
    -- a fragment already, even the first one, is left alone
    let off_f := (lwip_ntohs (IPH_OFFSET buf)).toNat
    if off_f &&& (IP_MF ||| IP_OFFMASK) ≠ 0 then bypass buf recalculate_checksum
    else
    let tcp_hdr_len_words := TCPH_HDRLEN buf iphdr_len
    if tcp_hdr_len_words < 5 ∨ tcp_hdr_len_words > 15 then bypass buf recalculate_checksum
    else
    let tcphdr_len := tcp_hdr_len_words * 4
    if ip_total_len < iphdr_len + tcphdr_len then bypass buf recalculate_checksum
    else
    let total_payload := ip_total_len - iphdr_len
    let payload_len : Int := total_payload - tcphdr_len
    if payload_len ≤ 0 then bypass buf recalculate_checksum
    else if !isTlsClientHello buf iphdr_len tcphdr_len ip_total_len then
      bypass buf recalculate_checksum
    else if trick_sni_blender_packets_count ≤ 0 then bypass buf recalculate_checksum
    else
    let min_first_fragment_payload := UInt16.ofNat ((tcphdr_len + 7) &&& 0xFFFFFFF8)
    if min_first_fragment_payload.toNat ≥ total_payload then bypass buf recalculate_checksum
    else
    let identification := lwip_ntohs (IPH_ID buf)
    -- a pending checksum request is satisfied on the source packet before it is copied
    let (buf, recalculate_checksum) :=
      if recalculate_checksum ∧ IPH_V buf = 4 then
        ((calcFullPacketChecksum inet_chksum checksum buf).2, false)
      else (buf, recalculate_checksum)
    let plan := sniblenderPlan trick_sni_blender_packets_count min_first_fragment_payload
      total_payload
    let planned_count := plan.length
    if planned_count ≤ 1 then bypass buf recalculate_checksum
    else
    let crafted_packets := sniblenderCraftLoop buf iphdr_len identification planned_count 0 plan
    let crafted_count := crafted_packets.length
    if crafted_count ≤ 0 then bypass buf recalculate_checksum
    else sniblenderSend crafted_packets buf frand_seed32

/-! ## The plan -/

/-- A planned fragment as numbers: its offset and its length. -/
def planSpan (x : UInt16 × UInt16) : Nat × Nat := (x.1.toNat, x.2.toNat)

/-- What the planned fragments satisfy: they lie end to end over `[s, e)`, each nonempty, all but
the last in whole 8-byte units. -/
structure PlanCuts (s e : Nat) (plan : List (UInt16 × UInt16)) : Prop where
  tiles : Tiles s (plan.map planSpan) e
  pos : ∀ x ∈ plan, 0 < x.2.toNat
  units : ∀ x ∈ plan.dropLast, x.2.toNat % 8 = 0

theorem PlanCuts.nil (s : Nat) : PlanCuts s s [] where
  tiles := rfl
  pos := by simp
  units := by simp

theorem PlanCuts.cons {s e : Nat} {x : UInt16 × UInt16} {plan : List (UInt16 × UInt16)}
    (hx : x.1.toNat = s) (hpos : 0 < x.2.toNat) (hunit : plan ≠ [] → x.2.toNat % 8 = 0)
    (h : PlanCuts (s + x.2.toNat) e plan) : PlanCuts s e (x :: plan) where
  tiles := ⟨hx, h.tiles⟩
  pos y hy := by
    rcases List.mem_cons.1 hy with rfl | hy
    · exact hpos
    · exact h.pos y hy
  units y hy := by
    cases plan with
    | nil => simp at hy
    | cons z plan =>
      rw [List.dropLast_cons_cons] at hy
      rcases List.mem_cons.1 hy with rfl | hy
      · exact hunit (List.cons_ne_nil z plan)
      · exact h.units y hy

theorem PlanCuts.tail {s e : Nat} {x : UInt16 × UInt16} {plan : List (UInt16 × UInt16)}
    (h : PlanCuts s e (x :: plan)) : PlanCuts (s + x.2.toNat) e plan where
  tiles := h.tiles.2
  pos y hy := h.pos y (List.mem_cons_of_mem x hy)
  units y hy := by
    cases plan with
    | nil => simp at hy
    | cons z plan =>
      exact h.units y (by rw [List.dropLast_cons_cons]; exact List.mem_cons_of_mem x hy)

/-- Fragments laid end to end from a multiple of 8, all but the last of whole 8-byte units, all
start at multiples of 8. -/
theorem PlanCuts.offset_mod {s e : Nat} :
    ∀ {plan : List (UInt16 × UInt16)}, PlanCuts s e plan → s % 8 = 0 →
      ∀ x ∈ plan, x.1.toNat % 8 = 0
  | [], _, _ => by simp
  | x :: plan, h, hs => by
    intro y hy
    have hx : x.1.toNat = s := h.tiles.1
    rcases List.mem_cons.1 hy with rfl | hy
    · rw [hx]; exact hs
    · -- the next fragment starts where this one ends, a multiple of 8 since one follows it
      have hunit : x.2.toNat % 8 = 0 := by
        cases plan with
        | nil => simp at hy
        | cons z plan => exact h.units x (by rw [List.dropLast_cons_cons]; exact List.mem_cons_self)
      exact PlanCuts.offset_mod h.tail (by omega) y hy

/-- The share is all that remains, or a nonempty part of it in whole 8-byte units. -/
theorem sniblenderShare_cases (fragments_left : Nat) (r : UInt16) :
    sniblenderShare fragments_left r = r ∨
      (0 < (sniblenderShare fragments_left r).toNat ∧
        (sniblenderShare fragments_left r).toNat < r.toNat ∧
        (sniblenderShare fragments_left r).toNat % 8 = 0) := by
  unfold sniblenderShare
  dsimp only
  split_ifs with hf hz
  · exact Or.inl rfl
  · right
    -- the share rounded down to 8 bytes is at most the share, so the cast keeps it
    have hr := r.toNat_lt
    have hshare : r.toNat / fragments_left ≤ r.toNat := Nat.div_le_self _ _
    have hround : (r.toNat / fragments_left) &&& 0xFFFFFFF8 =
        2 ^ 3 * (r.toNat / fragments_left / 2 ^ 3) := by
      have h := Prefix.and_prefixMask (W := 32) (k := 3) (by decide)
        (show r.toNat / fragments_left < 2 ^ 32 by omega)
      rwa [show (2 : Nat) ^ 32 - 2 ^ 3 = 0xFFFFFFF8 by norm_num] at h
    have hdown : 2 ^ 3 * (r.toNat / fragments_left / 2 ^ 3) ≤ r.toNat / fragments_left :=
      Nat.mul_div_le _ _
    have hcast : (UInt16.ofNat ((r.toNat / fragments_left) &&& 0xFFFFFFF8)).toNat =
        2 ^ 3 * (r.toNat / fragments_left / 2 ^ 3) := by
      rw [UInt16.toNat_ofNat', hround, Nat.mod_eq_of_lt (by omega)]
    have hpos : 0 < 2 ^ 3 * (r.toNat / fragments_left / 2 ^ 3) := by
      rw [← hcast]
      exact Nat.pos_of_ne_zero fun h0 => hz (UInt16.toNat_inj.1 (by rw [h0]; rfl))
    -- a share of two or more fragments is below the remainder
    have hlt : r.toNat / fragments_left < r.toNat := Nat.div_lt_self (by omega) hf
    rw [hcast]
    exact ⟨hpos, by omega, Nat.mul_mod_right _ _⟩
  · exact Or.inl rfl

theorem sniblenderPlanLoop_zero (fragments_left : Nat) (o : UInt16) :
    sniblenderPlanLoop fragments_left o 0 = [] := by
  cases fragments_left <;> simp [sniblenderPlanLoop]

/-- **The plan after the first fragment.**  From offset `o` with `r` bytes left, the loop's
fragments lie end to end over `[o, o + r)`, each nonempty, all but the last in whole 8-byte
units, at most `fragments_left` of them; none of the `uint16_t` sums wraps.  The induction is on
`fragments_left`, and the last round takes all that is left. -/
theorem sniblenderPlanLoop_cuts : ∀ (fragments_left : Nat) (o r : UInt16),
    o.toNat + r.toNat < 2 ^ 16 → 0 < fragments_left ∨ r = 0 →
      PlanCuts o.toNat (o.toNat + r.toNat) (sniblenderPlanLoop fragments_left o r) ∧
        (sniblenderPlanLoop fragments_left o r).length ≤ fragments_left
  | 0, o, r, _, hr => by
    obtain rfl : r = 0 := hr.resolve_left (Nat.lt_irrefl 0)
    exact ⟨PlanCuts.nil _, Nat.le_refl 0⟩
  | fragments_left + 1, o, r, hlt, _ => by
    rcases Nat.eq_zero_or_pos r.toNat with hr | hr
    · obtain rfl : r = 0 := UInt16.toNat_inj.1 hr
      rw [sniblenderPlanLoop_zero]
      exact ⟨PlanCuts.nil _, Nat.zero_le _⟩
    have hr0 : r > 0 := UInt16.lt_iff_toNat_lt.2 hr
    rw [sniblenderPlanLoop, if_pos hr0]
    have hcases := sniblenderShare_cases (fragments_left + 1) r
    have hlast : fragments_left = 0 → sniblenderShare (fragments_left + 1) r = r := by
      rintro rfl
      simp [sniblenderShare]
    generalize sniblenderShare (fragments_left + 1) r = s at hcases hlast ⊢
    have hsle : s.toNat ≤ r.toNat := by
      rcases hcases with rfl | h
      · exact Nat.le_refl _
      · exact h.2.1.le
    have hspos : 0 < s.toNat := by
      rcases hcases with rfl | h
      · exact hr
      · exact h.1
    have hadd : (o + s).toNat = o.toNat + s.toNat := by
      rw [UInt16.toNat_add, Nat.mod_eq_of_lt (by omega)]
    have hsub : (r - s).toNat = r.toNat - s.toNat :=
      UInt16.toNat_sub_of_le r s (UInt16.le_iff_toNat_le.2 hsle)
    -- in the last round the share is all that is left
    have hpre : 0 < fragments_left ∨ r - s = 0 := by
      rcases Nat.eq_zero_or_pos fragments_left with hf | hf
      · right
        rw [hlast hf, UInt16.sub_self]
      · exact Or.inl hf
    obtain ⟨ih, ihlen⟩ := sniblenderPlanLoop_cuts fragments_left (o + s) (r - s)
      (by rw [hadd, hsub]; omega) hpre
    rw [hadd, hsub, show o.toNat + s.toNat + (r.toNat - s.toNat) = o.toNat + r.toNat by omega] at ih
    refine ⟨PlanCuts.cons rfl hspos (fun hne => ?_) ih, by rw [List.length_cons]; omega⟩
    -- a fragment after this one means payload was left, so this share was a proper one
    rcases hcases with rfl | ⟨-, -, h8⟩
    · rw [UInt16.sub_self, sniblenderPlanLoop_zero] at hne
      exact absurd rfl hne
    · exact h8

/-! ## One fragment -/

/-- The packet the fragments are cut from: version 4, with a header of `iphdr_len` bytes, at
least twenty, that it holds. -/
structure CraftSource (src : List UInt8) (iphdr_len : Nat) : Prop where
  version : IPH_V src = 4
  header_length : IPH_HL_BYTES src = iphdr_len
  header_ge : 20 ≤ iphdr_len
  header_le : iphdr_len ≤ src.length

/-- A packet that agrees with a source but for the header checksum and past the header is a
source too. -/
theorem CraftSource.of_agree {src src' : List UInt8} {iphdr_len : Nat}
    (hs : CraftSource src iphdr_len)
    (h : AgreeExcept (fun j => j = 10 ∨ j = 11 ∨ IPH_HL_BYTES src ≤ j) src src') :
    CraftSource src' iphdr_len := by
  have h20 := hs.header_ge
  have hb0 : byteAt src' 0 = byteAt src 0 := h.2 0 (by rw [hs.header_length]; omega)
  exact ⟨by rw [IPH_V, hb0]; exact hs.version, by rw [IPH_HL_BYTES, hb0]; exact hs.header_length,
    h20, by rw [h.1]; exact hs.header_le⟩

section Header

variable {b : List UInt8} {v w : UInt16}

/-- The two fields a fragment's header gets anew, the total length and the flags and offset,
are written in place; every other byte is the copied one. -/
theorem byteAt_store16_two_six (hb : 8 ≤ b.length) {j : Nat} (hj : j ∉ [2, 3, 6, 7]) :
    byteAt (store16 (store16 b 2 v) 6 w) j = byteAt b j := by
  have h6 : 6 + 2 ≤ (store16 b 2 v).length := by rw [length_store16 (by omega)]; omega
  simp only [List.mem_cons, List.not_mem_nil, or_false, not_or] at hj
  rcases Nat.lt_or_ge j 6 with hj6 | hj6
  · rw [byteAt_store16_of_lt hj6 h6]
    rcases Nat.lt_or_ge j 2 with hj2 | hj2
    · exact byteAt_store16_of_lt hj2 (by omega) v
    · exact byteAt_store16_of_le (by omega) (by omega) v
  · rw [byteAt_store16_of_le (by omega) h6, byteAt_store16_of_le (by omega) (by omega) v]

theorem load16_store16_two_six_two (hb : 8 ≤ b.length) :
    load16 (store16 (store16 b 2 v) 6 w) 2 = v := by
  rw [load16_store16_of_disjoint (by omega) (by rw [length_store16 (by omega)]; omega),
    load16_store16 (by omega)]

theorem load16_store16_two_six_six (hb : 8 ≤ b.length) :
    load16 (store16 (store16 b 2 v) 6 w) 6 = w :=
  load16_store16 (by rw [length_store16 (by omega)]; omega) w

theorem load16_append_left {a c : List UInt8} {i : Nat} (h : i + 2 ≤ a.length) :
    load16 (a ++ c) i = load16 a i := by
  rw [load16, load16, byteAt_append_left (by omega), byteAt_append_left (by omega)]

theorem byteAt_append_of_length {a c : List UInt8} {n : Nat} (h : a.length = n) (k : Nat) :
    byteAt (a ++ c) (n + k) = byteAt c k := by
  subst h
  exact byteAt_append_right a c k

end Header

section Craft

variable {src : List UInt8} {iphdr_len : Nat} {identification : UInt16} {more : Bool}
  {o l : UInt16}

/-- **What the crafting writes.**  The version and header length, and the identification, are
written back as the source has them; what is left is the copied header with the total length and
the flags and offset set, and the payload bytes. -/
theorem sniblenderCraftFragment_eq (hs : CraftSource src iphdr_len)
    (hid : identification = lwip_ntohs (IPH_ID src)) :
    sniblenderCraftFragment src iphdr_len identification more o l =
      store16 (store16 (src.take iphdr_len) 2
          (lwip_htons (UInt16.ofNat (iphdr_len + l.toNat)))) 6
        (lwip_htons (if more then o >>> 3 ||| UInt16.ofNat IP_MF else o >>> 3)) ++
      (src.drop (iphdr_len + o.toNat)).take l.toNat := by
  have h20 := hs.header_ge
  have htake : (src.take iphdr_len).length = iphdr_len := List.length_take_of_le hs.header_le
  unfold sniblenderCraftFragment
  dsimp only
  unfold IPH_LEN_SET IPH_OFFSET_SET
  generalize lwip_htons (UInt16.ofNat (iphdr_len + l.toNat)) = lv
  generalize hhdr : store16 (src.take iphdr_len) 2 lv = hdr
  have hlen : hdr.length = iphdr_len := by rw [← hhdr, length_store16 (by omega)]; exact htake
  have hbyte0 : byteAt hdr 0 = byteAt src 0 := by
    rw [← hhdr, byteAt_store16_of_lt (by decide) (by omega), byteAt_take (by omega)]
  have hhl : IPH_HL_BYTES hdr = iphdr_len := by
    rw [IPH_HL_BYTES, hbyte0, ← hs.header_length, IPH_HL_BYTES]
  have hvhl : IPH_VHL_SET hdr 4 (iphdr_len / 4) = hdr := by
    rw [← hhl]
    exact IPH_VHL_SET_self (by rw [IPH_V, hbyte0]; exact hs.version) (by omega)
  have hidv : lwip_htons identification = IPH_ID hdr := by
    rw [hid, lwip_ntohs, lwip_htons_lwip_htons, IPH_ID, IPH_ID, ← hhdr,
      load16_store16_of_disjoint (by omega) (by omega), load16_take (by omega)]
  rw [hvhl, hidv, IPH_ID_SET_self (by omega)]

theorem length_sniblenderCraftHeader (hs : CraftSource src iphdr_len) (v w : UInt16) :
    (store16 (store16 (src.take iphdr_len) 2 v) 6 w).length = iphdr_len := by
  have h20 := hs.header_ge
  have htake : (src.take iphdr_len).length = iphdr_len := List.length_take_of_le hs.header_le
  rw [length_store16 (by rw [length_store16 (by omega)]; omega), length_store16 (by omega), htake]

theorem length_sniblenderCraftFragment (hs : CraftSource src iphdr_len)
    (hid : identification = lwip_ntohs (IPH_ID src))
    (hbound : iphdr_len + o.toNat + l.toNat ≤ src.length) :
    (sniblenderCraftFragment src iphdr_len identification more o l).length =
      iphdr_len + l.toNat := by
  rw [sniblenderCraftFragment_eq hs hid, List.length_append, length_sniblenderCraftHeader hs,
    List.length_take, List.length_drop]
  omega

/-- The header is the source's, but for the total length and the flags and offset. -/
theorem byteAt_sniblenderCraftFragment_header (hs : CraftSource src iphdr_len)
    (hid : identification = lwip_ntohs (IPH_ID src)) {j : Nat} (hj : j < iphdr_len)
    (hjf : j ∉ ipv4FragmentFields) :
    byteAt (sniblenderCraftFragment src iphdr_len identification more o l) j = byteAt src j := by
  have h20 := hs.header_ge
  have hj' : j ∉ [2, 3, 6, 7] := fun h => hjf (by
    simp only [ipv4FragmentFields, List.mem_cons, List.not_mem_nil, or_false] at h ⊢
    omega)
  rw [sniblenderCraftFragment_eq hs hid,
    byteAt_append_left (by rw [length_sniblenderCraftHeader hs]; exact hj),
    byteAt_store16_two_six (by rw [List.length_take_of_le hs.header_le]; omega) hj',
    byteAt_take hj]

theorem IPH_HL_BYTES_sniblenderCraftFragment (hs : CraftSource src iphdr_len)
    (hid : identification = lwip_ntohs (IPH_ID src)) :
    IPH_HL_BYTES (sniblenderCraftFragment src iphdr_len identification more o l) = iphdr_len := by
  have h20 := hs.header_ge
  rw [IPH_HL_BYTES, byteAt_sniblenderCraftFragment_header hs hid (by omega) (by decide),
    ← hs.header_length, IPH_HL_BYTES]

theorem fragTotalLen_sniblenderCraftFragment (hs : CraftSource src iphdr_len)
    (hid : identification = lwip_ntohs (IPH_ID src)) (h16 : iphdr_len + l.toNat < 2 ^ 16) :
    fragTotalLen (sniblenderCraftFragment src iphdr_len identification more o l) =
      iphdr_len + l.toNat := by
  have h20 := hs.header_ge
  have htake : (src.take iphdr_len).length = iphdr_len := List.length_take_of_le hs.header_le
  rw [fragTotalLen, IPH_LEN, sniblenderCraftFragment_eq hs hid,
    load16_append_left (by rw [length_sniblenderCraftHeader hs]; omega),
    load16_store16_two_six_two (by omega), lwip_ntohs_lwip_htons, UInt16.toNat_ofNat',
    Nat.mod_eq_of_lt h16]

theorem fragPayloadLen_sniblenderCraftFragment (hs : CraftSource src iphdr_len)
    (hid : identification = lwip_ntohs (IPH_ID src)) (h16 : iphdr_len + l.toNat < 2 ^ 16) :
    fragPayloadLen (sniblenderCraftFragment src iphdr_len identification more o l) = l.toNat := by
  rw [fragPayloadLen, fragTotalLen_sniblenderCraftFragment hs hid h16,
    IPH_HL_BYTES_sniblenderCraftFragment hs hid, Nat.add_sub_cancel_left]

/-- The flags and offset field: the offset in 8-byte units, with more-fragments when asked. -/
theorem fragField_sniblenderCraftFragment (hs : CraftSource src iphdr_len)
    (hid : identification = lwip_ntohs (IPH_ID src)) :
    fragField (sniblenderCraftFragment src iphdr_len identification more o l) =
      if more then o.toNat / 8 ||| IP_MF else o.toNat / 8 := by
  have h20 := hs.header_ge
  have htake : (src.take iphdr_len).length = iphdr_len := List.length_take_of_le hs.header_le
  rw [fragField, IPH_OFFSET, sniblenderCraftFragment_eq hs hid,
    load16_append_left (by rw [length_sniblenderCraftHeader hs]; omega),
    load16_store16_two_six_six (by omega), lwip_ntohs_lwip_htons]
  have hshift : (o >>> 3).toNat = o.toNat / 8 := by
    rw [UInt16.toNat_shiftRight, show (3 : UInt16).toNat % 16 = 3 from rfl,
      Nat.shiftRight_eq_div_pow]
  cases more with
  | true =>
    rw [if_pos rfl, if_pos rfl, UInt16.toNat_or, hshift]
    rfl
  | false =>
    rw [if_neg Bool.false_ne_true, if_neg Bool.false_ne_true, hshift]

theorem fragOffsetBytes_sniblenderCraftFragment (hs : CraftSource src iphdr_len)
    (hid : identification = lwip_ntohs (IPH_ID src)) (ho : o.toNat % 8 = 0) :
    fragOffsetBytes (sniblenderCraftFragment src iphdr_len identification more o l) = o.toNat := by
  have ho16 := o.toNat_lt
  rw [fragOffsetBytes, fragField_sniblenderCraftFragment hs hid,
    (fragField_decode (show o.toNat / 8 < 2 ^ 13 by omega) more).1]
  omega

theorem fragMore_sniblenderCraftFragment (hs : CraftSource src iphdr_len)
    (hid : identification = lwip_ntohs (IPH_ID src)) :
    fragMore (sniblenderCraftFragment src iphdr_len identification more o l) = more := by
  have ho16 := o.toNat_lt
  rw [fragMore, fragField_sniblenderCraftFragment hs hid]
  exact (fragField_decode (show o.toNat / 8 < 2 ^ 13 by omega) more).2

/-- The payload is the planned bytes of the source's payload. -/
theorem byteAt_sniblenderCraftFragment_payload (hs : CraftSource src iphdr_len)
    (hid : identification = lwip_ntohs (IPH_ID src)) {k : Nat} (hk : k < l.toNat) :
    byteAt (sniblenderCraftFragment src iphdr_len identification more o l) (iphdr_len + k) =
      byteAt src (iphdr_len + o.toNat + k) := by
  rw [sniblenderCraftFragment_eq hs hid, byteAt_append_of_length (length_sniblenderCraftHeader hs _ _),
    byteAt_take hk, byteAt_drop]

end Craft

/-! ## The crafted fragments -/

/-- **The crafting loop makes every planned fragment**, none of them empty, all with
more-fragments but the last.  The induction is on the plan. -/
theorem sniblenderCraftLoop_eq (src : List UInt8) (iphdr_len : Nat) (identification : UInt16) :
    ∀ (plan : List (UInt16 × UInt16)) (i : Nat) (hne : plan ≠ []), (∀ x ∈ plan, 0 < x.2.toNat) →
      sniblenderCraftLoop src iphdr_len identification (i + plan.length) i plan =
        plan.dropLast.map (fun x =>
            sniblenderCraftFragment src iphdr_len identification true x.1 x.2) ++
          [sniblenderCraftFragment src iphdr_len identification false (plan.getLast hne).1
            (plan.getLast hne).2]
  | [], _, hne, _ => absurd rfl hne
  | (a, b) :: rest, i, _, hpos => by
    have hb : b ≠ 0 := fun h => by
      have := hpos (a, b) List.mem_cons_self
      simp [h] at this
    rw [sniblenderCraftLoop, if_neg hb]
    cases rest with
    | nil => simp [sniblenderCraftLoop]
    | cons y ys =>
      have ih := sniblenderCraftLoop_eq src iphdr_len identification (y :: ys) (i + 1)
        (List.cons_ne_nil y ys) fun z hz => hpos z (List.mem_cons_of_mem _ hz)
      have hcount : i + ((a, b) :: y :: ys).length = i + 1 + (y :: ys).length := by
        simp only [List.length_cons]
        omega
      have hmore : decide (i < i + ((a, b) :: y :: ys).length - 1) = true := by
        simp only [List.length_cons, decide_eq_true_eq]
        omega
      rw [hmore, hcount, ih, List.dropLast_cons_cons, List.getLast_cons (List.cons_ne_nil y ys)]
      rfl


theorem length_sniblenderCraftLoop {src : List UInt8} {iphdr_len : Nat} {identification : UInt16}
    {plan : List (UInt16 × UInt16)} (hne : plan ≠ []) (hpos : ∀ x ∈ plan, 0 < x.2.toNat) :
    (sniblenderCraftLoop src iphdr_len identification plan.length 0 plan).length = plan.length := by
  have heq := sniblenderCraftLoop_eq src iphdr_len identification plan 0 hne hpos
  rw [Nat.zero_add] at heq
  rw [heq, List.length_append, List.length_map, List.length_singleton, List.length_dropLast,
    Nat.sub_add_cancel (List.length_pos_of_ne_nil hne)]

theorem head?_sniblenderCraftLoop {src : List UInt8} {iphdr_len : Nat} {identification : UInt16}
    {planned_count : Nat} {x : UInt16 × UInt16} {rest : List (UInt16 × UInt16)}
    (hx : x.2 ≠ 0) :
    (sniblenderCraftLoop src iphdr_len identification planned_count 0 (x :: rest)).head? =
      some (sniblenderCraftFragment src iphdr_len identification (decide (0 < planned_count - 1))
        x.1 x.2) := by
  obtain ⟨a, b⟩ := x
  rw [sniblenderCraftLoop, if_neg hx, List.head?_cons]

theorem mem_sniblenderCraftLoop {src : List UInt8} {iphdr_len : Nat} {identification : UInt16}
    {plan : List (UInt16 × UInt16)} (hne : plan ≠ []) (hpos : ∀ x ∈ plan, 0 < x.2.toNat)
    {f : List UInt8} (hf : f ∈ sniblenderCraftLoop src iphdr_len identification plan.length 0 plan) :
    ∃ more, ∃ x ∈ plan, f = sniblenderCraftFragment src iphdr_len identification more x.1 x.2 := by
  have heq := sniblenderCraftLoop_eq src iphdr_len identification plan 0 hne hpos
  rw [Nat.zero_add] at heq
  rw [heq, List.mem_append, List.mem_map, List.mem_singleton] at hf
  rcases hf with ⟨x, hx, rfl⟩ | rfl
  · exact ⟨true, x, List.mem_of_mem_dropLast hx, rfl⟩
  · exact ⟨false, _, List.getLast_mem hne, rfl⟩

/-- **The crafted fragments are a fragmentation of the source packet.**  Planned fragments that
lie end to end over the payload, all but the last in whole 8-byte units, are crafted into
fragments that reassemble to that payload. -/
theorem sniblenderCraft_fragmentation {src : List UInt8} {iphdr_len T : Nat}
    {identification : UInt16} {plan : List (UInt16 × UInt16)} (hs : CraftSource src iphdr_len)
    (hid : identification = lwip_ntohs (IPH_ID src)) (hT : iphdr_len + T ≤ src.length)
    (h16 : iphdr_len + T < 2 ^ 16) (hcuts : PlanCuts 0 T plan) (hne : plan ≠ []) :
    Ipv4Fragmentation src ((src.drop iphdr_len).take T)
      (sniblenderCraftLoop src iphdr_len identification plan.length 0 plan) := by
  have heq := sniblenderCraftLoop_eq src iphdr_len identification plan 0 hne hcuts.pos
  rw [Nat.zero_add] at heq
  have hoff := hcuts.offset_mod (Nat.zero_mod 8)
  -- every planned fragment lies inside the payload
  have hin : ∀ x ∈ plan, x.1.toNat + x.2.toNat ≤ T := fun x hx =>
    (hcuts.tiles.le_of_mem (planSpan x) (List.mem_map_of_mem hx)).2
  have hspan : ∀ more, ∀ x ∈ plan, fragSpan
      (sniblenderCraftFragment src iphdr_len identification more x.1 x.2) = planSpan x := by
    intro more x hx
    have := hin x hx
    rw [fragSpan, fragOffsetBytes_sniblenderCraftFragment hs hid (hoff x hx),
      fragPayloadLen_sniblenderCraftFragment hs hid (by omega)]
    rfl
  have hdata : ((src.drop iphdr_len).take T).length = T := by
    rw [List.length_take, List.length_drop]
    omega
  have hlen : ∀ more, ∀ x ∈ plan, fragPayloadLen
      (sniblenderCraftFragment src iphdr_len identification more x.1 x.2) = x.2.toNat :=
    fun more x hx => congrArg Prod.snd (hspan more x hx)
  refine ⟨?ne_nil, ?header_ge, ?complete, ?header_length, ?header, ?tiles, ?payload, ?more, ?last⟩
  case ne_nil =>
    rw [heq]
    exact List.append_ne_nil_of_right_ne_nil _ (List.cons_ne_nil _ _)
  case header_ge =>
    rw [hs.header_length]
    exact hs.header_ge
  case complete =>
    intro f hf
    obtain ⟨more, x, hx, rfl⟩ := mem_sniblenderCraftLoop hne hcuts.pos hf
    have := hin x hx
    rw [length_sniblenderCraftFragment hs hid (by omega),
      fragTotalLen_sniblenderCraftFragment hs hid (by omega)]
  case header_length =>
    intro f hf
    obtain ⟨more, x, -, rfl⟩ := mem_sniblenderCraftLoop hne hcuts.pos hf
    rw [IPH_HL_BYTES_sniblenderCraftFragment hs hid, hs.header_length]
  case header =>
    intro f hf j hj hjf
    obtain ⟨more, x, -, rfl⟩ := mem_sniblenderCraftLoop hne hcuts.pos hf
    rw [hs.header_length] at hj
    exact byteAt_sniblenderCraftFragment_header hs hid hj hjf
  case tiles =>
    -- the fragments' spans are the plan's, the last one included
    have hmap : (sniblenderCraftLoop src iphdr_len identification plan.length 0 plan).map fragSpan =
        plan.map planSpan := by
      rw [heq, List.map_append, List.map_map, List.map_singleton,
        hspan false _ (List.getLast_mem hne)]
      conv_rhs => rw [← List.dropLast_append_getLast hne]
      rw [List.map_append, List.map_singleton]
      congr 1
      exact List.map_congr_left fun x hx => hspan true x (List.mem_of_mem_dropLast hx)
    rw [hmap, hdata]
    exact hcuts.tiles
  case payload =>
    intro f hf k hk
    obtain ⟨more, x, hx, rfl⟩ := mem_sniblenderCraftLoop hne hcuts.pos hf
    have := hin x hx
    rw [hlen more x hx] at hk
    rw [IPH_HL_BYTES_sniblenderCraftFragment hs hid, byteAt_sniblenderCraftFragment_payload hs hid hk,
      fragOffsetBytes_sniblenderCraftFragment hs hid (hoff x hx), byteAt_take (by omega),
      byteAt_drop, Nat.add_assoc]
  case more =>
    intro f hf
    rw [heq, List.dropLast_concat] at hf
    obtain ⟨x, hx, rfl⟩ := List.mem_map.1 hf
    have hxp := List.mem_of_mem_dropLast hx
    rw [fragMore_sniblenderCraftFragment hs hid, hlen true x hxp]
    exact ⟨rfl, hcuts.pos x hxp, hcuts.units x hx⟩
  case last =>
    intro f hf
    rw [heq, List.getLast?_concat, Option.mem_def, Option.some.injEq] at hf
    rw [← hf, fragMore_sniblenderCraftFragment hs hid]


/-! ## The send order -/

theorem length_sniblenderSwap (a : List Nat) (i j : Nat) :
    (sniblenderSwap a i j).length = a.length := by
  simp [sniblenderSwap]

theorem sniblenderSwap_perm {a : List Nat} {i j : Nat} (hi : i < a.length) (hj : j < a.length) :
    sniblenderSwap a i j ~ a := by
  unfold sniblenderSwap
  dsimp only
  rw [List.getD_eq_getElem _ _ hj, List.getD_eq_getElem _ _ hi]
  exact List.set_set_perm hi hj

theorem head?_sniblenderSwap {a : List Nat} {i j : Nat} (hi : 0 < i) (hj : 0 < j) :
    (sniblenderSwap a i j).head? = a.head? := by
  unfold sniblenderSwap
  dsimp only
  rw [List.head?_eq_getElem?, List.head?_eq_getElem?, List.getElem?_set_ne (by omega),
    List.getElem?_set_ne (by omega)]

/-- **The shuffle permutes and keeps the first entry first**, whatever the generator's state: each
round swaps two positions in `[1, idx]`.  The induction is on `idx`. -/
theorem sniblenderShuffle_perm (rand : UInt32 → UInt32 × UInt32) :
    ∀ (idx : Nat) (a : List Nat) (frand_seed32 : UInt32), idx < a.length →
      (sniblenderShuffle rand idx a frand_seed32).1 ~ a ∧
        (sniblenderShuffle rand idx a frand_seed32).1.head? = a.head?
  | 0, a, _, _ => ⟨List.Perm.refl a, rfl⟩
  | 1, a, _, _ => ⟨List.Perm.refl a, rfl⟩
  | idx + 2, a, frand_seed32, h => by
    rw [sniblenderShuffle]
    generalize rand frand_seed32 = step
    obtain ⟨r, frand_seed32'⟩ := step
    dsimp only
    -- `j = 1 + r % idx` is a position in `[1, idx]`
    have hj : 1 + r.toNat % (idx + 2) ≤ idx + 2 := by
      have := Nat.mod_lt r.toNat (show 0 < idx + 2 by omega)
      omega
    obtain ⟨hp, hh⟩ := sniblenderShuffle_perm rand (idx + 1)
      (sniblenderSwap a (idx + 2) (1 + r.toNat % (idx + 2))) frand_seed32'
      (by rw [length_sniblenderSwap]; omega)
    exact ⟨hp.trans (sniblenderSwap_perm h (by omega)),
      hh.trans (head?_sniblenderSwap (by omega) (by omega))⟩

theorem map_getD_range {α : Type} (l : List α) (d : α) :
    (List.range l.length).map (fun i => l.getD i d) = l := by
  apply List.ext_getElem (by simp)
  intro n h₁ h₂
  simp [List.getElem?_eq_getElem h₂]

/-- The packets in the order they are sent: a permutation of the crafted ones, the first one
first. -/
theorem sniblenderShuffle_sent (rand : UInt32 → UInt32 × UInt32) (crafted : List (List UInt8))
    (frand_seed32 : UInt32) (hne : crafted ≠ []) :
    ((sniblenderShuffle rand (crafted.length - 1) (List.range crafted.length) frand_seed32).1.map
        fun i => crafted.getD i []) ~ crafted ∧
      ((sniblenderShuffle rand (crafted.length - 1) (List.range crafted.length)
        frand_seed32).1.map fun i => crafted.getD i []).head? = crafted.head? := by
  have hpos : 0 < crafted.length := List.length_pos_of_ne_nil hne
  obtain ⟨hp, hh⟩ := sniblenderShuffle_perm rand (crafted.length - 1) (List.range crafted.length)
    frand_seed32 (by rw [List.length_range]; omega)
  refine ⟨(hp.map _).trans (by rw [map_getD_range]), ?_⟩
  rw [List.head?_map, hh, List.head?_range, if_neg (by omega)]
  cases crafted with
  | nil => exact absurd rfl hne
  | cons c cs => rfl



/-! ## The trick -/

/-- `min_first_fragment_payload`: the TCP header rounded up to 8 bytes, what the first fragment
must carry. -/
def sniblenderMinFirstFragmentPayload (buf : List UInt8) : UInt16 :=
  UInt16.ofNat ((TCPH_HDRLEN buf (IPH_HL_BYTES buf) * 4 + 7) &&& 0xFFFFFFF8)

/-- The fragments the trick plans for a packet with the configured count. -/
def sniblenderTrickPlan (trick_sni_blender_packets_count : Int) (buf : List UInt8) :
    List (UInt16 × UInt16) :=
  sniblenderPlan trick_sni_blender_packets_count (sniblenderMinFirstFragmentPayload buf)
    (fragPayloadLen buf)

/-- The first fragment's share is the TCP header rounded up to 8 bytes. -/
theorem toNat_sniblenderMinFirstFragmentPayload {buf : List UInt8}
    (h : TCPH_HDRLEN buf (IPH_HL_BYTES buf) ≤ 15) :
    (sniblenderMinFirstFragmentPayload buf).toNat =
      2 ^ 3 * ((TCPH_HDRLEN buf (IPH_HL_BYTES buf) * 4 + 7) / 2 ^ 3) := by
  have hand := Prefix.and_prefixMask (W := 32) (k := 3) (by decide)
    (show TCPH_HDRLEN buf (IPH_HL_BYTES buf) * 4 + 7 < 2 ^ 32 by omega)
  rw [show (2 : Nat) ^ 32 - 2 ^ 3 = 0xFFFFFFF8 by norm_num] at hand
  rw [sniblenderMinFirstFragmentPayload, UInt16.toNat_ofNat', hand, Nat.mod_eq_of_lt (by omega)]

@[simp] theorem sniblenderSend_handled (crafted_packets : List (List UInt8)) (buf : List UInt8)
    (frand_seed32 : UInt32) : (sniblenderSend crafted_packets buf frand_seed32).handled = true :=
  rfl

@[simp] theorem sniblenderSend_buf (crafted_packets : List (List UInt8)) (buf : List UInt8)
    (frand_seed32 : UInt32) : (sniblenderSend crafted_packets buf frand_seed32).buf = buf :=
  rfl

/-- The sending: every crafted packet in the shuffled order, then the source buffer back. -/
theorem sniblenderSend_actions (crafted_packets : List (List UInt8)) (buf : List UInt8)
    (frand_seed32 : UInt32) :
    (sniblenderSend crafted_packets buf frand_seed32).actions =
      ((sniblenderShuffle fastRand (crafted_packets.length - 1)
          (List.range crafted_packets.length) frand_seed32).1.map
        fun i => crafted_packets.getD i []).map LineAction.sendUpstreamFinal ++
        [LineAction.reuseBuffer buf] := by
  rw [List.map_map]
  rfl

/-- The packets the trick fragments, in the order its guards look at them: a whole IPv4 TCP
packet that is not a fragment, whose TCP payload starts a TLS ClientHello and is longer than what
the first fragment must carry. -/
structure SniBlenderTakes (buf : List UInt8) : Prop where
  length_ge : IP_HLEN ≤ buf.length
  version : IPH_V buf = 4
  proto : IPH_PROTO buf = IP_PROTO_TCP
  header_ge : 5 ≤ IPH_HL buf
  header_le : IPH_HL buf ≤ 15
  tcp_fits : IPH_HL_BYTES buf + TCP_HLEN ≤ buf.length
  total_ge : IPH_HL_BYTES buf + TCP_HLEN ≤ fragTotalLen buf
  total_le : fragTotalLen buf ≤ buf.length
  unfragmented : fragField buf &&& (IP_MF ||| IP_OFFMASK) = 0
  tcp_header_ge : 5 ≤ TCPH_HDRLEN buf (IPH_HL_BYTES buf)
  tcp_header_le : TCPH_HDRLEN buf (IPH_HL_BYTES buf) ≤ 15
  payload_pos : IPH_HL_BYTES buf + TCPH_HDRLEN buf (IPH_HL_BYTES buf) * 4 < fragTotalLen buf
  client_hello :
    isTlsClientHello buf (IPH_HL_BYTES buf) (TCPH_HDRLEN buf (IPH_HL_BYTES buf) * 4)
      (fragTotalLen buf) = true
  first_lt : (sniblenderMinFirstFragmentPayload buf).toNat < fragPayloadLen buf

theorem sniblenderPlanLoop_ne_nil {fragments_left : Nat} {o r : UInt16}
    (h : sniblenderPlanLoop fragments_left o r ≠ []) : 0 < fragments_left ∧ 0 < r.toNat := by
  cases fragments_left with
  | zero => exact absurd rfl h
  | succ f =>
    rw [sniblenderPlanLoop] at h
    by_cases hr : r > 0
    · exact ⟨Nat.succ_pos f, UInt16.lt_iff_toNat_lt.1 hr⟩
    · rw [if_neg hr] at h
      exact absurd rfl h

/-- The plan has fragments after the first exactly when the count allows a second one and payload
is left for it. -/
theorem one_lt_length_sniblenderPlan {trick_sni_blender_packets_count : Int}
    {min_first_fragment_payload : UInt16} {total_payload : Nat} (hT : total_payload < 2 ^ 16) :
    1 < (sniblenderPlan trick_sni_blender_packets_count min_first_fragment_payload
        total_payload).length ↔
      2 ≤ trick_sni_blender_packets_count ∧ min_first_fragment_payload.toNat < total_payload := by
  have hr : (UInt16.ofNat (total_payload - min_first_fragment_payload.toNat)).toNat =
      total_payload - min_first_fragment_payload.toNat := by
    rw [UInt16.toNat_ofNat', Nat.mod_eq_of_lt (by omega)]
  rw [sniblenderPlan, List.length_cons, Nat.lt_add_left_iff_pos, List.length_pos_iff]
  constructor
  · intro hne
    obtain ⟨hf, hpos⟩ := sniblenderPlanLoop_ne_nil hne
    omega
  · rintro ⟨hk, hlt⟩
    obtain ⟨f, hf⟩ : ∃ f, (trick_sni_blender_packets_count - 1).toNat = f + 1 :=
      ⟨(trick_sni_blender_packets_count - 1).toNat - 1, by omega⟩
    rw [hf, sniblenderPlanLoop, if_pos (UInt16.lt_iff_toNat_lt.2 (by rw [hr]; exact Nat.sub_pos_of_lt hlt))]
    exact List.cons_ne_nil _ _

/-- An `if` between an early return and the rest answers `true` only through the rest. -/
theorem handled_of_ite {c : Prop} [Decidable c] {a b : SniBlenderOutcome} (ha : a.handled = false)
    (h : (if c then a else b).handled = true) : ¬ c ∧ b.handled = true := by
  by_cases hc : c
  · rw [if_pos hc, ha] at h
    exact absurd h Bool.false_ne_true
  · rw [if_neg hc] at h
    exact ⟨hc, h⟩

/-- The buffer the trick goes on with once a pending checksum request is satisfied. -/
theorem sniblenderChecksumStep_fst (inet_chksum : List UInt8 → UInt16)
    (checksum : List UInt8 → UInt32 → UInt16) (recalculate_checksum : Bool) (buf : List UInt8) :
    (if recalculate_checksum = true ∧ IPH_V buf = 4 then
        ((calcFullPacketChecksum inet_chksum checksum buf).2, false)
      else (buf, recalculate_checksum)).1 = buf ∨
      recalculate_checksum = true ∧ (if recalculate_checksum = true ∧ IPH_V buf = 4 then
        ((calcFullPacketChecksum inet_chksum checksum buf).2, false)
        else (buf, recalculate_checksum)).1 =
          (calcFullPacketChecksum inet_chksum checksum buf).2 := by
  by_cases hc : recalculate_checksum = true ∧ IPH_V buf = 4
  · exact Or.inr ⟨hc.1, by rw [if_pos hc]⟩
  · exact Or.inl (by rw [if_neg hc])

/-- What the trick leaves with the caller when it answers `false`: nothing done with the line,
and the buffer as it came or with a pending checksum request satisfied. -/
def SniBlenderLeftWithCaller (inet_chksum : List UInt8 → UInt16)
    (checksum : List UInt8 → UInt32 → UInt16) (recalculate_checksum : Bool) (buf : List UInt8)
    (o : SniBlenderOutcome) : Prop :=
  o.handled = false → o.actions = [] ∧
    (o.buf = buf ∨
      recalculate_checksum = true ∧ o.buf = (calcFullPacketChecksum inet_chksum checksum buf).2)

theorem SniBlenderLeftWithCaller.ite {inet_chksum : List UInt8 → UInt16}
    {checksum : List UInt8 → UInt32 → UInt16}
    {recalculate_checksum : Bool} {buf : List UInt8} {c : Prop} [Decidable c]
    {a b : SniBlenderOutcome}
    (ha : SniBlenderLeftWithCaller inet_chksum checksum recalculate_checksum buf a)
    (hb : SniBlenderLeftWithCaller inet_chksum checksum recalculate_checksum buf b) :
    SniBlenderLeftWithCaller inet_chksum checksum recalculate_checksum buf (if c then a else b) := by
  by_cases hc : c
  · rw [if_pos hc]
    exact ha
  · rw [if_neg hc]
    exact hb

/-- Past an early return whose guard fails, the answer is the rest's. -/
theorem handled_ite_of_not {c : Prop} [Decidable c] {a b : SniBlenderOutcome} (hc : ¬ c)
    (hb : b.handled = true) : (if c then a else b).handled = true := by
  rw [if_neg hc]
  exact hb

section Trick

variable (inet_chksum : List UInt8 → UInt16) (checksum : List UInt8 → UInt32 → UInt16)
  (trick_sni_blender_packets_count : Int) (recalculate_checksum : Bool) (frand_seed32 : UInt32)
  (buf : List UInt8)

/-- **What a handled packet went through.**  The trick answers `true` only for a packet it takes,
with a configured count of two or more, and then it sends the fragments crafted from the source
buffer, after any pending checksum request was satisfied on it. -/
theorem sniblendertrickUpStreamPayload_handled_inv
    (h : (sniblendertrickUpStreamPayload inet_chksum checksum trick_sni_blender_packets_count
      recalculate_checksum frand_seed32 buf).handled = true) :
    SniBlenderTakes buf ∧ 2 ≤ trick_sni_blender_packets_count ∧
      ∃ buf₁, (buf₁ = buf ∨ recalculate_checksum = true ∧
          buf₁ = (calcFullPacketChecksum inet_chksum checksum buf).2) ∧
        sniblendertrickUpStreamPayload inet_chksum checksum trick_sni_blender_packets_count
            recalculate_checksum frand_seed32 buf =
          sniblenderSend (sniblenderCraftLoop buf₁ (IPH_HL_BYTES buf) (lwip_ntohs (IPH_ID buf))
              (sniblenderTrickPlan trick_sni_blender_packets_count buf).length 0
              (sniblenderTrickPlan trick_sni_blender_packets_count buf)) buf₁ frand_seed32 := by
  have e := sniblendertrickUpStreamPayload.eq_def inet_chksum checksum
    trick_sni_blender_packets_count recalculate_checksum frand_seed32 buf
  dsimp only at e
  rw [e] at h
  -- one guard after the other, each of them failed
  obtain ⟨h1, h⟩ := handled_of_ite rfl h
  obtain ⟨h2, h⟩ := handled_of_ite rfl h
  obtain ⟨h3, h⟩ := handled_of_ite rfl h
  obtain ⟨h4, h⟩ := handled_of_ite rfl h
  obtain ⟨h5, h⟩ := handled_of_ite rfl h
  obtain ⟨h6, h⟩ := handled_of_ite rfl h
  obtain ⟨h7, h⟩ := handled_of_ite rfl h
  obtain ⟨h8, h⟩ := handled_of_ite rfl h
  obtain ⟨h9, h⟩ := handled_of_ite rfl h
  obtain ⟨h10, h⟩ := handled_of_ite rfl h
  obtain ⟨h11, h⟩ := handled_of_ite rfl h
  obtain ⟨h12, h⟩ := handled_of_ite rfl h
  generalize hb : (if recalculate_checksum = true ∧ IPH_V buf = 4 then
    ((calcFullPacketChecksum inet_chksum checksum buf).2, false)
    else (buf, recalculate_checksum)) = p at h e
  obtain ⟨h13, h⟩ := handled_of_ite rfl h
  obtain ⟨h14, -⟩ := handled_of_ite rfl h
  have hhl : IPH_HL_BYTES buf = (IPH_HL buf).toNat * 4 := rfl
  have htot : fragTotalLen buf = (lwip_ntohs (IPH_LEN buf)).toNat := rfl
  refine ⟨?takes, ?count, p.1, ?src, ?eq⟩
  case takes =>
    obtain ⟨hv, hp⟩ := not_or.1 h2
    obtain ⟨hl5, hl15⟩ := not_or.1 h3
    obtain ⟨ht1, ht2⟩ := not_or.1 h5
    obtain ⟨hw5, hw15⟩ := not_or.1 h7
    refine ⟨Nat.le_of_not_lt h1, not_not.1 hv, not_not.1 hp, UInt8.not_lt.1 hl5,
      UInt8.not_lt.1 hl15, Nat.le_of_not_lt h4, Nat.le_of_not_lt ht1, Nat.le_of_not_lt ht2,
      not_not.1 h6, Nat.le_of_not_lt hw5, Nat.le_of_not_lt hw15, ?_,
      by rw [hhl, htot]; simpa using h10,
      Nat.lt_of_not_le h12⟩
    -- the payload guard is an `int` subtraction of the two header lengths
    rw [hhl, htot]
    omega
  case count =>
    have h16 := (lwip_ntohs (IPH_LEN buf)).toNat_lt
    exact ((one_lt_length_sniblenderPlan (by omega)).1 (Nat.lt_of_not_le h13)).1
  case src =>
    rw [← hb]
    exact sniblenderChecksumStep_fst inet_chksum checksum recalculate_checksum buf
  case eq =>
    rw [e, if_neg h1, if_neg h2, if_neg h3, if_neg h4, if_neg h5, if_neg h6, if_neg h7, if_neg h8,
      if_neg h9, if_neg h10, if_neg h11, if_neg h12, if_neg h13, if_neg h14]
    rfl

/-- **An early return leaves the buffer with the caller.**  Every guard's return and the two
after the checksum step answer `false` with nothing sent and nothing given back. -/
theorem sniblendertrickUpStreamPayload_left :
    SniBlenderLeftWithCaller inet_chksum checksum recalculate_checksum buf
      (sniblendertrickUpStreamPayload inet_chksum checksum trick_sni_blender_packets_count
        recalculate_checksum frand_seed32 buf) := by
  rw [sniblendertrickUpStreamPayload.eq_def]
  dsimp only
  -- the twelve guards before the checksum step return the buffer as it came
  iterate 12 refine SniBlenderLeftWithCaller.ite (fun _ => ⟨rfl, Or.inl rfl⟩) ?_
  have hsrc := sniblenderChecksumStep_fst inet_chksum checksum recalculate_checksum buf
  refine SniBlenderLeftWithCaller.ite (fun _ => ⟨rfl, hsrc⟩)
    (SniBlenderLeftWithCaller.ite (fun _ => ⟨rfl, hsrc⟩) fun h => ?_)
  rw [sniblenderSend_handled] at h
  exact Bool.noConfusion h

/-- **The trick's plan tiles the TCP payload**: from offset 0, the first fragment with the TCP
header rounded up to 8 bytes, then the loop's; at least two of them, and no more than the
configured count. -/
theorem sniblenderTrickPlan_cuts (ht : SniBlenderTakes buf)
    (hk : 2 ≤ trick_sni_blender_packets_count) :
    PlanCuts 0 (fragPayloadLen buf) (sniblenderTrickPlan trick_sni_blender_packets_count buf) ∧
      2 ≤ (sniblenderTrickPlan trick_sni_blender_packets_count buf).length ∧
      ((sniblenderTrickPlan trick_sni_blender_packets_count buf).length : Int) ≤
        trick_sni_blender_packets_count := by
  have hmf := toNat_sniblenderMinFirstFragmentPayload ht.tcp_header_le
  have hw := ht.tcp_header_ge
  have hlt := ht.first_lt
  have hT : fragPayloadLen buf < 2 ^ 16 := by
    have := (lwip_ntohs (IPH_LEN buf)).toNat_lt
    unfold fragPayloadLen fragTotalLen
    omega
  have hlen := (one_lt_length_sniblenderPlan hT).2 ⟨hk, hlt⟩
  unfold sniblenderTrickPlan sniblenderPlan at hlen ⊢
  generalize sniblenderMinFirstFragmentPayload buf = mf at hmf hlt hlen ⊢
  -- what the loop cuts is what the first fragment leaves, with no wrap in `uint16_t`
  have hr : (UInt16.ofNat (fragPayloadLen buf - mf.toNat)).toNat = fragPayloadLen buf - mf.toNat := by
    rw [UInt16.toNat_ofNat', Nat.mod_eq_of_lt (by omega)]
  obtain ⟨hloop, hcount⟩ := sniblenderPlanLoop_cuts (trick_sni_blender_packets_count - 1).toNat mf
    (UInt16.ofNat (fragPayloadLen buf - mf.toNat)) (by rw [hr]; omega) (Or.inl (by omega))
  rw [hr, show mf.toNat + (fragPayloadLen buf - mf.toNat) = fragPayloadLen buf by omega] at hloop
  refine ⟨PlanCuts.cons rfl (show 0 < mf.toNat by omega) (fun _ => show mf.toNat % 8 = 0 by omega)
    (by rwa [Nat.zero_add]), hlen, ?_⟩
  rw [List.length_cons]
  omega

/-- **Which packets the trick fragments.**  It answers `true` exactly for the packets it takes,
when the configured count is two or more. -/
theorem sniblendertrickUpStreamPayload_handled_iff :
    (sniblendertrickUpStreamPayload inet_chksum checksum trick_sni_blender_packets_count
      recalculate_checksum frand_seed32 buf).handled = true ↔
      SniBlenderTakes buf ∧ 2 ≤ trick_sni_blender_packets_count := by
  constructor
  · intro h
    obtain ⟨ht, hk, -⟩ := sniblendertrickUpStreamPayload_handled_inv inet_chksum checksum
      trick_sni_blender_packets_count recalculate_checksum frand_seed32 buf h
    exact ⟨ht, hk⟩
  · rintro ⟨ht, hk⟩
    obtain ⟨hcuts, h2, -⟩ := sniblenderTrickPlan_cuts trick_sni_blender_packets_count buf ht hk
    have hne : sniblenderTrickPlan trick_sni_blender_packets_count buf ≠ [] :=
      List.ne_nil_of_length_pos (by omega)
    -- whatever buffer the checksum step leaves, every planned fragment is crafted
    have hcrafted : ∀ b : List UInt8, 0 < (sniblenderCraftLoop b (IPH_HL_BYTES buf)
        (lwip_ntohs (IPH_ID buf)) (sniblenderTrickPlan trick_sni_blender_packets_count buf).length 0
        (sniblenderTrickPlan trick_sni_blender_packets_count buf)).length := fun b => by
      rw [length_sniblenderCraftLoop hne hcuts.pos]
      omega
    have hhello : isTlsClientHello buf ((IPH_HL buf).toNat * 4)
        (TCPH_HDRLEN buf ((IPH_HL buf).toNat * 4) * 4) (lwip_ntohs (IPH_LEN buf)).toNat = true :=
      ht.client_hello
    have hpay : (IPH_HL buf).toNat * 4 + TCPH_HDRLEN buf ((IPH_HL buf).toNat * 4) * 4 <
        (lwip_ntohs (IPH_LEN buf)).toNat := ht.payload_pos
    rw [sniblendertrickUpStreamPayload.eq_def]
    dsimp only
    -- every guard fails, in the order the source checks them
    refine handled_ite_of_not (Nat.not_lt.2 ht.length_ge) ?_
    refine handled_ite_of_not (not_or.2 ⟨not_not.2 ht.version, not_not.2 ht.proto⟩) ?_
    refine handled_ite_of_not (not_or.2 ⟨UInt8.not_lt.2 ht.header_ge, UInt8.not_lt.2 ht.header_le⟩) ?_
    refine handled_ite_of_not (Nat.not_lt.2 ht.tcp_fits) ?_
    refine handled_ite_of_not (not_or.2 ⟨Nat.not_lt.2 ht.total_ge, Nat.not_lt.2 ht.total_le⟩) ?_
    refine handled_ite_of_not (not_not.2 ht.unfragmented) ?_
    refine handled_ite_of_not
      (not_or.2 ⟨Nat.not_lt.2 ht.tcp_header_ge, Nat.not_lt.2 ht.tcp_header_le⟩) ?_
    refine handled_ite_of_not (Nat.not_lt.2 ht.payload_pos.le) ?_
    refine handled_ite_of_not (by omega) ?_
    refine handled_ite_of_not (by simp [hhello]) ?_
    refine handled_ite_of_not (Int.not_le.2 (by omega)) ?_
    refine handled_ite_of_not (Nat.not_le.2 ht.first_lt) ?_
    refine handled_ite_of_not (Nat.not_le.2 h2) ?_
    exact handled_ite_of_not (Nat.not_le.2 (hcrafted _)) (sniblenderSend_handled _ _ _)

/-- The first fragment the trick crafts starts the payload and carries the whole TCP header. -/
theorem sniblenderTrickCraft_head {buf₁ : List UInt8} (ht : SniBlenderTakes buf)
    (hs : CraftSource buf₁ (IPH_HL_BYTES buf))
    (hid : lwip_ntohs (IPH_ID buf) = lwip_ntohs (IPH_ID buf₁))
    (h16 : IPH_HL_BYTES buf + fragPayloadLen buf < 2 ^ 16) :
    ∀ f ∈ (sniblenderCraftLoop buf₁ (IPH_HL_BYTES buf) (lwip_ntohs (IPH_ID buf))
        (sniblenderTrickPlan trick_sni_blender_packets_count buf).length 0
        (sniblenderTrickPlan trick_sni_blender_packets_count buf)).head?,
      fragOffsetBytes f = 0 ∧ TCPH_HDRLEN buf (IPH_HL_BYTES buf) * 4 ≤ fragPayloadLen f := by
  intro f hf
  have hmf := toNat_sniblenderMinFirstFragmentPayload ht.tcp_header_le
  have hw := ht.tcp_header_ge
  have hlt := ht.first_lt
  have hmf0 : sniblenderMinFirstFragmentPayload buf ≠ 0 := fun h0 => by
    rw [h0, UInt16.toNat_zero] at hmf
    omega
  rw [sniblenderTrickPlan, sniblenderPlan, head?_sniblenderCraftLoop hmf0, Option.mem_def,
    Option.some.injEq] at hf
  subst hf
  dsimp only
  refine ⟨fragOffsetBytes_sniblenderCraftFragment hs hid (Nat.zero_mod 8), ?_⟩
  rw [fragPayloadLen_sniblenderCraftFragment hs hid (by omega)]
  omega

/-- **The SNI blender sends a fragmentation of the packet.**  When the trick answers `true`, what
it sends is, in a shuffled order that keeps the first one first, two to `k` fragments that
RFC 791 reassembles to exactly the bytes `[iphdr_len, ip_total_len)` of the packet (with a
pending checksum request satisfied), the first of them carrying the whole TCP header, and the
source buffer goes back to the pool once, after the last send.  When it answers `false`, it has
done nothing with the line and the buffer is as it came, or with a pending checksum request
satisfied. -/
theorem sniblendertrickUpStreamPayload_fragments :
    ((sniblendertrickUpStreamPayload inet_chksum checksum trick_sni_blender_packets_count
        recalculate_checksum frand_seed32 buf).handled = true →
      ∃ frags sent : List (List UInt8),
        Ipv4Fragmentation buf (((sniblendertrickUpStreamPayload inet_chksum checksum
          trick_sni_blender_packets_count recalculate_checksum frand_seed32 buf).buf.drop
            (IPH_HL_BYTES buf)).take (fragPayloadLen buf)) frags ∧
        (∀ data, Ipv4Reassembles frags data ↔
          data = ((sniblendertrickUpStreamPayload inet_chksum checksum
            trick_sni_blender_packets_count recalculate_checksum frand_seed32 buf).buf.drop
              (IPH_HL_BYTES buf)).take (fragPayloadLen buf)) ∧
        (∀ f ∈ frags, IPH_ID f = IPH_ID buf) ∧
        2 ≤ frags.length ∧ (frags.length : Int) ≤ trick_sni_blender_packets_count ∧
        (∀ f ∈ frags.head?, fragOffsetBytes f = 0 ∧
          TCPH_HDRLEN buf (IPH_HL_BYTES buf) * 4 ≤ fragPayloadLen f) ∧
        sent ~ frags ∧ sent.head? = frags.head? ∧
        (sniblendertrickUpStreamPayload inet_chksum checksum trick_sni_blender_packets_count
            recalculate_checksum frand_seed32 buf).actions =
          sent.map LineAction.sendUpstreamFinal ++
            [LineAction.reuseBuffer (sniblendertrickUpStreamPayload inet_chksum checksum
              trick_sni_blender_packets_count recalculate_checksum frand_seed32 buf).buf] ∧
        ((sniblendertrickUpStreamPayload inet_chksum checksum trick_sni_blender_packets_count
            recalculate_checksum frand_seed32 buf).buf = buf ∨ recalculate_checksum = true ∧
          (sniblendertrickUpStreamPayload inet_chksum checksum trick_sni_blender_packets_count
            recalculate_checksum frand_seed32 buf).buf =
              (calcFullPacketChecksum inet_chksum checksum buf).2)) ∧
    ((sniblendertrickUpStreamPayload inet_chksum checksum trick_sni_blender_packets_count
        recalculate_checksum frand_seed32 buf).handled = false →
      (sniblendertrickUpStreamPayload inet_chksum checksum trick_sni_blender_packets_count
        recalculate_checksum frand_seed32 buf).actions = [] ∧
      ((sniblendertrickUpStreamPayload inet_chksum checksum trick_sni_blender_packets_count
          recalculate_checksum frand_seed32 buf).buf = buf ∨ recalculate_checksum = true ∧
        (sniblendertrickUpStreamPayload inet_chksum checksum trick_sni_blender_packets_count
          recalculate_checksum frand_seed32 buf).buf =
            (calcFullPacketChecksum inet_chksum checksum buf).2)) := by
  refine ⟨fun h => ?_, sniblendertrickUpStreamPayload_left inet_chksum checksum
    trick_sni_blender_packets_count recalculate_checksum frand_seed32 buf⟩
  obtain ⟨ht, hk, buf₁, hsrc, heq⟩ := sniblendertrickUpStreamPayload_handled_inv inet_chksum
    checksum trick_sni_blender_packets_count recalculate_checksum frand_seed32 buf h
  rw [heq, sniblenderSend_buf, sniblenderSend_actions]
  obtain ⟨hcuts, h2, hlek⟩ := sniblenderTrickPlan_cuts trick_sni_blender_packets_count buf ht hk
  -- the fragments are cut from the packet with its checksums computed, which agrees with the
  -- packet in every header byte but the checksum
  have hagree : AgreeExcept (fun j => j = 10 ∨ j = 11 ∨ IPH_HL_BYTES buf ≤ j) buf buf₁ := by
    rcases hsrc with rfl | ⟨-, rfl⟩
    · exact AgreeExcept.refl _
    · exact calcFullPacketChecksum_agree inet_chksum checksum buf
  have h20 : 20 ≤ IPH_HL_BYTES buf := by
    have : 5 ≤ (IPH_HL buf).toNat := UInt8.le_iff_toNat_le.1 ht.header_ge
    unfold IPH_HL_BYTES
    exact Nat.mul_le_mul_right 4 this
  have htcp := ht.tcp_fits
  have htot := ht.total_le
  have hge := ht.total_ge
  unfold TCP_HLEN at htcp hge
  have hs : CraftSource buf (IPH_HL_BYTES buf) := ⟨ht.version, rfl, h20, by omega⟩
  have hs₁ := hs.of_agree hagree
  have hid : lwip_ntohs (IPH_ID buf) = lwip_ntohs (IPH_ID buf₁) := by
    rw [IPH_ID, IPH_ID, hagree.load16 (by omega) (by omega)]
  have h16 : IPH_HL_BYTES buf + fragPayloadLen buf < 2 ^ 16 := by
    have := (lwip_ntohs (IPH_LEN buf)).toNat_lt
    unfold fragPayloadLen fragTotalLen at *
    omega
  have hT : IPH_HL_BYTES buf + fragPayloadLen buf ≤ buf₁.length := by
    rw [hagree.1]
    unfold fragPayloadLen at *
    omega
  have hne : sniblenderTrickPlan trick_sni_blender_packets_count buf ≠ [] :=
    List.ne_nil_of_length_pos (by omega)
  have hfrag := (sniblenderCraft_fragmentation hs₁ hid hT h16 hcuts hne).of_agree
    (by unfold IP_HLEN; exact h20) hagree
  have hlen : (sniblenderCraftLoop buf₁ (IPH_HL_BYTES buf) (lwip_ntohs (IPH_ID buf))
      (sniblenderTrickPlan trick_sni_blender_packets_count buf).length 0
      (sniblenderTrickPlan trick_sni_blender_packets_count buf)).length =
        (sniblenderTrickPlan trick_sni_blender_packets_count buf).length :=
    length_sniblenderCraftLoop hne hcuts.pos
  obtain ⟨hperm, hhead⟩ := sniblenderShuffle_sent fastRand _ frand_seed32 hfrag.ne_nil
  exact ⟨_, _, hfrag, hfrag.reassembles_iff, hfrag.iph_id, by omega, by omega,
    sniblenderTrickCraft_head trick_sni_blender_packets_count buf ht hs₁ hid h16, hperm, hhead, rfl,
    hsrc⟩

end Trick

end IpManipulator
end WaterWall
