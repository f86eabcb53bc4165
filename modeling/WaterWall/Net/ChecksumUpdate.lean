import WaterWall.Net.Ipv4PacketView

/-!
# Writing checksums into IPv4 packets

`calcFullPacketChecksum` recomputes the header checksum of an IPv4 packet and, for an
unfragmented TCP, UDP or ICMP packet, its transport checksum; `calcIpv4HeaderChecksum` only the
first.  `setIpv4AddressWithChecksumUpdate` replaces an address and `updateIpv4TransportChecksum16`
one transport word, and both update the checksums incrementally (RFC 1624).  The transport
checksums are computed by a backend chosen at start-up (`checksum` here), seeded with the
pseudo-header sum; the header checksum is lwIP's `inet_chksum`, which is not part of this source:
it is a parameter too, assumed only to compute the RFC 1071 checksum (`InetChksum`).

* Every function that answers `false` leaves the buffer as it was (`calcFullPacketChecksum_false`
  and its siblings).
* `checksumUpdateWord16_spec`, `checksumUpdateWord32_spec`: the incremental update is
  `OnesComplement.update_checksum` read through the byte swaps.
* `setIpv4AddressWithChecksumUpdate_tcp_recompute`: with a backend that computes the RFC 1071
  checksum, changing an address of an unfragmented TCP packet with correct checksums gives what
  writing the new address and recomputing gives.
* `setIpv4AddressWithChecksumUpdate_lostCarry`: with the portable backend `checksumDefault`, which
  can lose a carry, it does not: for an address changed from `0.0.0.0` to `255.255.255.255` the
  update is right and the recomputation wrong.
-/

set_option autoImplicit false

namespace WaterWall
namespace Net

open OnesComplement

/-! ## The model -/

/-- `sizeof(struct icmp_hdr)`. -/
def ICMP_HLEN : Nat := 8

def kIpv4ChecksumAddressSource : Nat := 0

def kIpv4ChecksumAddressDestination : Nat := 1

/-- What is assumed of lwIP's `inet_chksum`: read in host order, it answers the RFC 1071 checksum
of the bytes, the ones' complement of the ones' complement sum of their 16-bit words. -/
def InetChksum (inet_chksum : List UInt8 → UInt16) : Prop :=
  ∀ data, (lwip_ntohs (inet_chksum data)).toNat = checksum (words16 data).sum

/-- `checksumPseudoHeader`: the sum of the pseudo-header's 16-bit words in host order. -/
def checksumPseudoHeader (src dst : UInt32) (proto : UInt8) (length : UInt16) : UInt32 :=
  let sum : UInt32 := 0
  let src_h := lwip_ntohl src
  let dst_h := lwip_ntohl dst
  let sum := sum + ((src_h >>> 16) &&& 0xFFFF)
  let sum := sum + (src_h &&& 0xFFFF)
  let sum := sum + ((dst_h >>> 16) &&& 0xFFFF)
  let sum := sum + (dst_h &&& 0xFFFF)
  let sum := sum + proto.toUInt32
  let sum := sum + length.toUInt32
  sum

/-- The check `calcFullPacketChecksum` makes of every field it will read before it writes: the
transport header of an unfragmented TCP or UDP packet, and the length of an ICMP one. -/
def calcFullPacketChecksumValid (buf : List UInt8) (packet : Ipv4PacketView) : Bool :=
  if packet.fragmented then true
  else if packet.protocol = IP_PROTO_TCP then (ipv4packetviewParseTcp buf).isSome
  else if packet.protocol = IP_PROTO_UDP then (ipv4packetviewParseUdp buf).isSome
  else if packet.protocol = IP_PROTO_ICMP then !(packet.transport_length < ICMP_HLEN)
  else true

/-- `calcFullPacketChecksum` with lwIP's `inet_chksum` and the backend `checksum`: the header
checksum, and unless the packet is a fragment, the TCP, UDP or ICMP checksum, each zeroed and then
computed.  A UDP checksum that comes out zero is sent as all ones (RFC 768). -/
def calcFullPacketChecksum (inet_chksum : List UInt8 → UInt16)
    (checksum : List UInt8 → UInt32 → UInt16) (buf : List UInt8) : Bool × List UInt8 :=
  match ipv4packetviewParse buf with
  | none => (false, buf)
  | some packet =>
    if !calcFullPacketChecksumValid buf packet then (false, buf)
    else
      let off := packet.transport_offset
      let buf := IPH_CHKSUM_SET buf 0
      let buf := IPH_CHKSUM_SET buf (inet_chksum (buf.take packet.ip_header_length))
      if packet.fragmented then (true, buf)
      else if packet.protocol = IP_PROTO_TCP then
        let buf := store16 buf (off + 16) 0
        let init := checksumPseudoHeader (IPH_SRC buf) (IPH_DEST buf) IP_PROTO_TCP
          (UInt16.ofNat packet.transport_length)
        (true, store16 buf (off + 16) (checksum ((buf.drop off).take packet.transport_length) init))
      else if packet.protocol = IP_PROTO_UDP then
        let udp_len := lwip_ntohs (load16 buf (off + 4))
        let buf := store16 buf (off + 6) 0
        let init := checksumPseudoHeader (IPH_SRC buf) (IPH_DEST buf) IP_PROTO_UDP udp_len
        let buf := store16 buf (off + 6) (checksum ((buf.drop off).take udp_len.toNat) init)
        if load16 buf (off + 6) = 0 then (true, store16 buf (off + 6) 0xFFFF) else (true, buf)
      else if packet.protocol = IP_PROTO_ICMP then
        let buf := store16 buf (off + 2) 0
        (true, store16 buf (off + 2) (checksum ((buf.drop off).take packet.transport_length) 0))
      else (true, buf)

/-- `calcIpv4HeaderChecksum`: the header checksum alone, zeroed and then computed. -/
def calcIpv4HeaderChecksum (inet_chksum : List UInt8 → UInt16) (buf : List UInt8) :
    Bool × List UInt8 :=
  match ipv4packetviewParse buf with
  | none => (false, buf)
  | some packet =>
    let buf := IPH_CHKSUM_SET buf 0
    (true, IPH_CHKSUM_SET buf (inet_chksum (buf.take packet.ip_header_length)))

/-- `checksumUpdateWord16`: RFC 1624's `HC' = ~(~HC + ~m + m')` on network-order values, the sum
taken in 32 bits and folded. -/
def checksumUpdateWord16 (checksum_network old_word_network new_word_network : UInt16) : UInt16 :=
  if old_word_network = new_word_network then checksum_network
  else
    let hc := lwip_ntohs checksum_network
    let m := lwip_ntohs old_word_network
    let m_prime := lwip_ntohs new_word_network
    let sum : UInt32 := ((~~~hc.toUInt32) &&& 0xFFFF) + ((~~~m.toUInt32) &&& 0xFFFF) + m_prime.toUInt32
    let sum := foldSum32 sum
    let hc_prime : UInt16 := (~~~sum).toUInt16
    lwip_htons hc_prime

/-- `checksumUpdateWord32`: a replaced 32-bit value as its two 16-bit words, high then low. -/
def checksumUpdateWord32 (checksum_network : UInt16) (old_value_network new_value_network : UInt32) :
    UInt16 :=
  if old_value_network = new_value_network then checksum_network
  else
    let old32_h := lwip_ntohl old_value_network
    let new32_h := lwip_ntohl new_value_network
    let old_high := lwip_htons (old32_h >>> 16).toUInt16
    let old_low := lwip_htons (old32_h &&& 0xFFFF).toUInt16
    let new_high := lwip_htons (new32_h >>> 16).toUInt16
    let new_low := lwip_htons (new32_h &&& 0xFFFF).toUInt16
    let step1 := checksumUpdateWord16 checksum_network old_high new_high
    checksumUpdateWord16 step1 old_low new_low

/-- The offset of the address `field` selects in the header. -/
def addressOffset (field : Nat) : Nat := if field = kIpv4ChecksumAddressSource then 12 else 16

/-- The transport checksum `setIpv4AddressWithChecksumUpdate` will update, as whether it updates
one and the offset of the transport header; `none` when a transport header it needs does not
parse.  Only a packet that is not a later fragment has one: TCP always, UDP unless its checksum
is zero (no checksum). -/
def addressTransportTarget (buf : List UInt8) (packet : Ipv4PacketView) : Option (Bool × Nat) :=
  if packet.fragment_offset = 0 then
    if packet.protocol = IP_PROTO_TCP then
      (ipv4packetviewParseTcp buf).map fun transport => (true, transport.transport_offset)
    else if packet.protocol = IP_PROTO_UDP then
      (ipv4packetviewParseUdp buf).map fun transport =>
        (load16 buf (transport.transport_offset + 6) != 0, transport.transport_offset)
    else some (false, 0)
  else some (false, 0)

/-- `setIpv4AddressWithChecksumUpdate`: the address replaced, the header checksum and, where
there is one, the transport checksum updated for it. -/
def setIpv4AddressWithChecksumUpdate (buf : List UInt8) (field : Nat) (new_address_network : UInt32) :
    Bool × List UInt8 :=
  if field ≠ kIpv4ChecksumAddressSource ∧ field ≠ kIpv4ChecksumAddressDestination then (false, buf)
  else
    match ipv4packetviewParse buf with
    | none => (false, buf)
    | some packet =>
      let old_address_network :=
        if field = kIpv4ChecksumAddressSource then IPH_SRC buf else IPH_DEST buf
      if old_address_network = new_address_network then (true, buf)
      else
        match addressTransportTarget buf packet with
        | none => (false, buf)
        | some (update_transport_chksum, toff) =>
          let old_ip_chksum := IPH_CHKSUM buf
          let new_ip_chksum := checksumUpdateWord32 old_ip_chksum old_address_network new_address_network
          let new_trans_chksum : UInt16 :=
            if update_transport_chksum then
              if packet.protocol = IP_PROTO_TCP then
                checksumUpdateWord32 (load16 buf (toff + 16)) old_address_network new_address_network
              else if packet.protocol = IP_PROTO_UDP then
                let c := checksumUpdateWord32 (load16 buf (toff + 6)) old_address_network
                  new_address_network
                if c = 0 then 0xFFFF else c
              else 0
            else 0
          let buf := store32 buf (addressOffset field) new_address_network
          let buf := IPH_CHKSUM_SET buf new_ip_chksum
          let buf :=
            if update_transport_chksum then
              if packet.protocol = IP_PROTO_TCP then store16 buf (toff + 16) new_trans_chksum
              else if packet.protocol = IP_PROTO_UDP then store16 buf (toff + 6) new_trans_chksum
              else buf
            else buf
          (true, buf)

/-- `updateIpv4TransportChecksum16`: the TCP or UDP checksum of a packet that is not a later
fragment, updated for one transport word replaced; a zero UDP checksum (none) stays zero. -/
def updateIpv4TransportChecksum16 (buf : List UInt8) (old_word_network new_word_network : UInt16) :
    Bool × List UInt8 :=
  match ipv4packetviewParse buf with
  | none => (false, buf)
  | some packet =>
    if packet.protocol ≠ IP_PROTO_TCP ∧ packet.protocol ≠ IP_PROTO_UDP then (false, buf)
    else if packet.fragment_offset > 0 then (false, buf)
    else
      let transport :=
        if packet.protocol = IP_PROTO_TCP then ipv4packetviewParseTcp buf
        else ipv4packetviewParseUdp buf
      match transport with
      | none => (false, buf)
      | some transport =>
        let toff := transport.transport_offset
        if old_word_network = new_word_network then (true, buf)
        else if packet.protocol = IP_PROTO_TCP then
          (true, store16 buf (toff + 16)
            (checksumUpdateWord16 (load16 buf (toff + 16)) old_word_network new_word_network))
        else if load16 buf (toff + 6) ≠ 0 then
          let new_chksum := checksumUpdateWord16 (load16 buf (toff + 6)) old_word_network
            new_word_network
          (true, store16 buf (toff + 6) (if new_chksum = 0 then 0xFFFF else new_chksum))
        else (true, buf)

/-! ## A call that fails writes nothing

Each function checks everything it reads before its first write, so that `false` comes back with
the buffer as it was. -/

theorem calcFullPacketChecksum_false {inet_chksum : List UInt8 → UInt16}
    {checksum : List UInt8 → UInt32 → UInt16} {buf buf' : List UInt8}
    (h : calcFullPacketChecksum inet_chksum checksum buf = (false, buf')) :
    buf' = buf := by
  unfold calcFullPacketChecksum at h
  split at h
  · exact (Prod.mk.inj h).2.symm
  split at h
  · exact (Prod.mk.inj h).2.symm
  -- past the check every branch answers `true`
  dsimp only at h
  split_ifs at h <;> exact absurd (Prod.mk.inj h).1 (by decide)

theorem calcIpv4HeaderChecksum_false {inet_chksum : List UInt8 → UInt16} {buf buf' : List UInt8}
    (h : calcIpv4HeaderChecksum inet_chksum buf = (false, buf')) : buf' = buf := by
  unfold calcIpv4HeaderChecksum at h
  split at h
  · exact (Prod.mk.inj h).2.symm
  · exact absurd (Prod.mk.inj h).1 (by decide)

theorem setIpv4AddressWithChecksumUpdate_false {buf buf' : List UInt8} {field : Nat}
    {a : UInt32} (h : setIpv4AddressWithChecksumUpdate buf field a = (false, buf')) :
    buf' = buf := by
  unfold setIpv4AddressWithChecksumUpdate at h
  split at h
  · exact (Prod.mk.inj h).2.symm
  split at h
  · exact (Prod.mk.inj h).2.symm
  -- which address is read, whether it changes, and the transport header the update needs
  dsimp only at h
  split at h <;> split at h <;> try split at h
  all_goals first | exact absurd (Prod.mk.inj h).1 (by decide) | exact (Prod.mk.inj h).2.symm

theorem updateIpv4TransportChecksum16_false {buf buf' : List UInt8} {old new : UInt16}
    (h : updateIpv4TransportChecksum16 buf old new = (false, buf')) : buf' = buf := by
  unfold updateIpv4TransportChecksum16 at h
  split at h
  · exact (Prod.mk.inj h).2.symm
  split at h
  · exact (Prod.mk.inj h).2.symm
  split at h
  · exact (Prod.mk.inj h).2.symm
  dsimp only at h
  split at h
  · exact (Prod.mk.inj h).2.symm
  · split_ifs at h <;> exact absurd (Prod.mk.inj h).1 (by decide)

/-! ## Checksums as numbers

Read in host order, every checksum these functions write is `OnesComplement.checksum` of a sum
of words, and the incremental updates are `OnesComplement.update`. -/

theorem toNat_ntohs_checksumRef (data : List UInt8) (initial : Nat) :
    (lwip_ntohs (checksumRef data initial)).toNat = checksum (initial + (words16 data).sum) := by
  have hlt := fold_lt (show 0 < 16 by decide) (initial + (words16 data).sum)
  rw [checksumRef, lwip_ntohs_lwip_htons, UInt16.toNat_not, UInt16.toNat_ofNat',
    Nat.mod_eq_of_lt hlt, checksum]
  rfl

theorem eq_of_toNat_ntohs {x y : UInt16} (h : (lwip_ntohs x).toNat = (lwip_ntohs y).toNat) : x = y :=
  lwip_ntohs_inj.1 (UInt16.toNat_inj.1 h)

/-- The reference sum with no seed computes the RFC 1071 checksum. -/
theorem inetChksum_checksumRef : InetChksum fun data => checksumRef data 0 := fun data => by
  rw [toNat_ntohs_checksumRef, Nat.zero_add]

/-- ... and it is the only function that does: an `inet_chksum` that meets `InetChksum` is
`checksumRef` with no seed. -/
theorem InetChksum.eq_checksumRef {inet_chksum : List UInt8 → UInt16} (h : InetChksum inet_chksum)
    (data : List UInt8) : inet_chksum data = checksumRef data 0 :=
  eq_of_toNat_ntohs (by rw [h, inetChksum_checksumRef])

/-- `checksumUpdateWord16` is RFC 1624's update on host values. -/
theorem toNat_ntohs_checksumUpdateWord16 (c m m' : UInt16) (hne : m ≠ m') :
    (lwip_ntohs (checksumUpdateWord16 c m m')).toNat =
      update (lwip_ntohs c).toNat (lwip_ntohs m).toNat (lwip_ntohs m').toNat := by
  have hc := (lwip_ntohs c).toNat_lt
  have hm := (lwip_ntohs m).toNat_lt
  have hm' := (lwip_ntohs m').toNat_lt
  -- the sum of three 16-bit numbers does not wrap 32 bits
  have hsum : (((~~~(lwip_ntohs c).toUInt32) &&& 0xFFFF) + ((~~~(lwip_ntohs m).toUInt32) &&& 0xFFFF) +
      (lwip_ntohs m').toUInt32).toNat =
      (2 ^ 16 - 1 - (lwip_ntohs c).toNat) + (2 ^ 16 - 1 - (lwip_ntohs m).toNat) +
        (lwip_ntohs m').toNat := by
    simp only [UInt32.toNat_add, UInt32.toNat_and, UInt32.toNat_not, UInt16.toNat_toUInt32,
      show (0xFFFF : UInt32).toNat = 2 ^ 16 - 1 from rfl, Nat.and_two_pow_sub_one_eq_mod,
      show UInt32.size = 2 ^ 32 from rfl]
    omega
  have hfold := fold_lt (show 0 < 16 by decide)
    ((2 ^ 16 - 1 - (lwip_ntohs c).toNat) + (2 ^ 16 - 1 - (lwip_ntohs m).toNat) + (lwip_ntohs m').toNat)
  rw [checksumUpdateWord16, if_neg hne]
  dsimp only
  rw [lwip_ntohs_lwip_htons, show ∀ x : UInt32, (~~~(foldSum32 x)).toUInt16 = finalizeChecksum x from
    fun _ => rfl, finalizeChecksum_eq, hsum, UInt16.toNat_not, UInt16.toNat_ofNat',
    Nat.mod_eq_of_lt hfold, update]
  rfl

/-- **One replaced word.**  The update of the checksum of a nonzero sum is the checksum of the
sum with the old word's complement and the new word added; when the two words are equal the
code returns the checksum as it is, which is the same. -/
theorem checksumUpdateWord16_spec {c : UInt16} {S : Nat} (hS : 0 < S)
    (hc : (lwip_ntohs c).toNat = checksum S) (m m' : UInt16) :
    (lwip_ntohs (checksumUpdateWord16 c m m')).toNat =
      checksum (S + (2 ^ 16 - 1 - (lwip_ntohs m).toNat) + (lwip_ntohs m').toNat) := by
  by_cases hmm : m = m'
  · subst hmm
    rw [checksumUpdateWord16, if_pos rfl, hc, checksum_add_complement hS (lwip_ntohs m).toNat_lt]
  · rw [toNat_ntohs_checksumUpdateWord16 c m m' hmm, hc, update_checksum]

/-- **One replaced 32-bit value**, as its two 16-bit words. -/
theorem checksumUpdateWord32_spec {c : UInt16} {S : Nat} (hS : 0 < S)
    (hc : (lwip_ntohs c).toNat = checksum S) (x y : UInt32) :
    (lwip_ntohs (checksumUpdateWord32 c x y)).toNat =
      checksum (S + (2 ^ 16 - 1 - (lwip_ntohs x.toUInt16).toNat) + (lwip_ntohs y.toUInt16).toNat +
        (2 ^ 16 - 1 - (lwip_ntohs (x >>> 16).toUInt16).toNat) +
        (lwip_ntohs (y >>> 16).toUInt16).toNat) := by
  by_cases hxy : x = y
  · subst hxy
    have hS' : 0 < S + (2 ^ 16 - 1 - (lwip_ntohs x.toUInt16).toNat) + (lwip_ntohs x.toUInt16).toNat := by
      omega
    rw [checksumUpdateWord32, if_pos rfl, hc,
      checksum_add_complement hS' (lwip_ntohs (x >>> 16).toUInt16).toNat_lt,
      checksum_add_complement hS (lwip_ntohs x.toUInt16).toNat_lt]
  · -- the halves of the host words, swapped back, are the network halves
    have hhigh : ∀ v : UInt32, lwip_htons (lwip_ntohl v >>> 16).toUInt16 = v.toUInt16 := fun v => by
      rw [lwip_ntohl_shiftRight, lwip_htons_lwip_htons]
    have hlow : ∀ v : UInt32, lwip_htons (lwip_ntohl v &&& 0xFFFF).toUInt16 = (v >>> 16).toUInt16 :=
      fun v => by rw [lwip_ntohl_and, lwip_htons_lwip_htons]
    rw [checksumUpdateWord32, if_neg hxy]
    dsimp only
    rw [hhigh, hhigh, hlow, hlow]
    exact checksumUpdateWord16_spec (by omega) (checksumUpdateWord16_spec hS hc _ _) _ _

theorem toNat_ntohl_shiftRight_and (x : UInt32) :
    ((lwip_ntohl x >>> 16) &&& 0xFFFF).toNat = (lwip_ntohs x.toUInt16).toNat := by
  have := (lwip_htons (x >>> 16).toUInt16).toNat_lt
  have := (lwip_htons x.toUInt16).toNat_lt
  rw [UInt32.toNat_and, UInt32.toNat_shiftRight, lwip_ntohl, toNat_lwip_htonl,
    show (16 : UInt32).toNat % 32 = 16 from rfl, show (0xFFFF : UInt32).toNat = 2 ^ 16 - 1 from rfl,
    Nat.and_two_pow_sub_one_eq_mod, Nat.shiftRight_eq_div_pow, lwip_ntohs]
  omega

theorem toNat_ntohl_and (x : UInt32) :
    (lwip_ntohl x &&& 0xFFFF).toNat = (lwip_ntohs (x >>> 16).toUInt16).toNat := by
  have := (lwip_htons (x >>> 16).toUInt16).toNat_lt
  rw [UInt32.toNat_and, lwip_ntohl, toNat_lwip_htonl,
    show (0xFFFF : UInt32).toNat = 2 ^ 16 - 1 from rfl, Nat.and_two_pow_sub_one_eq_mod, lwip_ntohs]
  omega

/-- The pseudo-header sum does not wrap: four address words, the protocol and the length. -/
theorem toNat_checksumPseudoHeader (src dst : UInt32) (proto : UInt8) (length : UInt16) :
    (checksumPseudoHeader src dst proto length).toNat =
      (lwip_ntohs src.toUInt16).toNat + (lwip_ntohs (src >>> 16).toUInt16).toNat +
        (lwip_ntohs dst.toUInt16).toNat + (lwip_ntohs (dst >>> 16).toUInt16).toNat + proto.toNat +
        length.toNat := by
  have h₁ := (lwip_ntohs src.toUInt16).toNat_lt
  have h₂ := (lwip_ntohs (src >>> 16).toUInt16).toNat_lt
  have h₃ := (lwip_ntohs dst.toUInt16).toNat_lt
  have h₄ := (lwip_ntohs (dst >>> 16).toUInt16).toNat_lt
  have h₅ := proto.toNat_lt
  have h₆ := length.toNat_lt
  simp only [checksumPseudoHeader, UInt32.toNat_add, toNat_ntohl_shiftRight_and, toNat_ntohl_and,
    UInt8.toNat_toUInt32, UInt16.toNat_toUInt32, UInt32.toNat_zero]
  omega

/-! ## What the functions write -/

section Writes

variable {buf : List UInt8} {p : Ipv4PacketView}

theorem ViewOf.twenty_le (hv : ViewOf buf p) : 20 ≤ p.transport_offset := by
  have := hv.header_ge; have := hv.transport_offset; unfold IP_HLEN at *; omega

theorem ViewOf.transport_le (hv : ViewOf buf p) :
    p.transport_offset + p.transport_length ≤ buf.length := by
  have := hv.total_le; have := hv.transport_length; have := hv.header_le_total
  have := hv.transport_offset; omega

/-- What `calcFullPacketChecksum` writes into an unfragmented TCP packet: the header checksum over
the header with its checksum zeroed, and the backend's checksum over the segment with its
checksum zeroed, seeded with the pseudo-header. -/
theorem calcFullPacketChecksum_tcp (inet_chksum : List UInt8 → UInt16)
    (checksum : List UInt8 → UInt32 → UInt16)
    (hp : ipv4packetviewParse buf = some p) (hfrag : p.fragmented = false)
    (hproto : p.protocol = IP_PROTO_TCP) (htcp : (ipv4packetviewParseTcp buf).isSome) :
    calcFullPacketChecksum inet_chksum checksum buf = (true,
      store16 (IPH_CHKSUM_SET buf (inet_chksum ((IPH_CHKSUM_SET buf 0).take p.ip_header_length)))
        (p.transport_offset + 16)
        (checksum (((store16 buf (p.transport_offset + 16) 0).drop p.transport_offset).take
          p.transport_length)
          (checksumPseudoHeader (IPH_SRC buf) (IPH_DEST buf) IP_PROTO_TCP
            (UInt16.ofNat p.transport_length)))) := by
  have hv := ipv4packetviewParse_viewOf hp
  obtain ⟨t, ht⟩ := Option.isSome_iff_exists.1 htcp
  obtain ⟨p', hp', -, -, htl, -⟩ := ipv4packetviewParseTcp_eq_some ht
  rw [hp, Option.some.injEq] at hp'
  subst hp'
  have h20 := hv.twenty_le
  have hlen : p.transport_offset + 18 ≤ buf.length := by
    have := hv.transport_le; unfold TCP_HLEN at htl; omega
  unfold calcFullPacketChecksum
  rw [hp]
  simp only [calcFullPacketChecksumValid, hfrag, hproto, htcp, Bool.false_eq_true, ↓reduceIte,
    Bool.not_true]
  generalize inet_chksum ((IPH_CHKSUM_SET buf 0).take p.ip_header_length) = c
  have h12 : 10 + 2 ≤ buf.length := by omega
  have hlen' : p.transport_offset + 16 + 2 ≤ (store16 buf 10 c).length := by
    rw [length_store16 h12]; omega
  unfold IPH_CHKSUM_SET
  rw [store16_store16 h12, store16_store16 hlen']
  -- the header stores are neither in the segment nor in the addresses
  have hsrc : IPH_SRC (store16 (store16 buf 10 c) (p.transport_offset + 16) 0) = IPH_SRC buf := by
    unfold IPH_SRC
    rw [load32_store16_of_disjoint (by omega) hlen', load32_store16_of_disjoint (by omega) h12]
  have hdst : IPH_DEST (store16 (store16 buf 10 c) (p.transport_offset + 16) 0) = IPH_DEST buf := by
    unfold IPH_DEST
    rw [load32_store16_of_disjoint (by omega) hlen', load32_store16_of_disjoint (by omega) h12]
  have hdrop : (store16 (store16 buf 10 c) (p.transport_offset + 16) 0).drop p.transport_offset =
      (store16 buf (p.transport_offset + 16) 0).drop p.transport_offset := by
    rw [store16_comm (by omega) h12 (by omega), drop_store16_of_le (by omega)
      (by rw [length_store16 (by omega)]; exact h12)]
  rw [hsrc, hdst, hdrop]

/-- **`calcFullPacketChecksum` writes only checksums**: the header checksum, and bytes past the
header.  Every other header byte, and the length, stay as they were. -/
theorem calcFullPacketChecksum_agree (inet_chksum : List UInt8 → UInt16)
    (checksum : List UInt8 → UInt32 → UInt16) (buf : List UInt8) :
    AgreeExcept (fun j => j = 10 ∨ j = 11 ∨ IPH_HL_BYTES buf ≤ j) buf
      (calcFullPacketChecksum inet_chksum checksum buf).2 := by
  unfold calcFullPacketChecksum
  cases hp : ipv4packetviewParse buf with
  | none => exact AgreeExcept.refl buf
  | some p =>
    have hv := ipv4packetviewParse_viewOf hp
    have h20 := hv.twenty_le
    have hle := hv.transport_le
    dsimp only
    split
    · exact AgreeExcept.refl buf
    rename_i hvalid
    simp only [Bool.not_eq_true', Bool.not_eq_false] at hvalid
    -- the header checksum is written twice, then the transport checksum, past the header
    have h12 : 10 + 2 ≤ buf.length := by omega
    have hhdr : ∀ j, 10 ≤ j → j < 10 + 2 → j = 10 ∨ j = 11 ∨ IPH_HL_BYTES buf ≤ j := by omega
    have hh := ((AgreeExcept.refl buf).store16 hhdr h12 0).store16 hhdr
      (by rw [length_store16 h12]; exact h12) (inet_chksum ((IPH_CHKSUM_SET buf 0).take p.ip_header_length))
    have htail : ∀ {b : List UInt8} (c : Nat),
        AgreeExcept (fun j => j = 10 ∨ j = 11 ∨ IPH_HL_BYTES buf ≤ j) buf b →
        c + 2 ≤ p.transport_length → ∀ v,
          AgreeExcept (fun j => j = 10 ∨ j = 11 ∨ IPH_HL_BYTES buf ≤ j) buf
            (store16 b (p.transport_offset + c) v) := fun c hb hc v =>
      hb.store16 (fun j hj _ => Or.inr (Or.inr (by
          rw [← hv.header_length, ← hv.transport_offset]; omega)))
        (by rw [hb.1]; omega) v
    unfold IPH_CHKSUM_SET at hh ⊢
    split_ifs with hfrag htcp hudp hzero hicmp
    · exact hh
    all_goals
      simp only [calcFullPacketChecksumValid, hfrag, Bool.false_eq_true, if_false] at hvalid
    · -- a TCP header that parses is at least twenty bytes
      rw [if_pos htcp] at hvalid
      obtain ⟨t, ht⟩ := Option.isSome_iff_exists.1 hvalid
      obtain ⟨p', hp', -, -, htl, -⟩ := ipv4packetviewParseTcp_eq_some ht
      rw [hp, Option.some.injEq] at hp'
      subst hp'
      unfold TCP_HLEN at htl
      exact htail 16 (htail 16 hh (by omega) 0) (by omega) _
    · -- a UDP header that parses is at least eight bytes
      rw [if_neg htcp, if_pos hudp] at hvalid
      obtain ⟨t, ht⟩ := Option.isSome_iff_exists.1 hvalid
      obtain ⟨p', hp', -, -, htl, -⟩ := ipv4packetviewParseUdp_eq_some ht
      rw [hp, Option.some.injEq] at hp'
      subst hp'
      unfold UDP_HLEN at htl
      exact htail 6 (htail 6 (htail 6 hh (by omega) 0) (by omega) _) (by omega) _
    · rw [if_neg htcp, if_pos hudp] at hvalid
      obtain ⟨t, ht⟩ := Option.isSome_iff_exists.1 hvalid
      obtain ⟨p', hp', -, -, htl, -⟩ := ipv4packetviewParseUdp_eq_some ht
      rw [hp, Option.some.injEq] at hp'
      subst hp'
      unfold UDP_HLEN at htl
      exact htail 6 (htail 6 hh (by omega) 0) (by omega) _
    · -- an ICMP message is checked to be at least eight bytes
      rw [if_neg htcp, if_neg hudp, if_pos hicmp] at hvalid
      have h8 : ICMP_HLEN ≤ p.transport_length := by simpa using hvalid
      unfold ICMP_HLEN at h8
      exact htail 2 (htail 2 hh (by omega) 0) (by omega) _
    · exact hh

/-- The address `setIpv4AddressWithChecksumUpdate` replaces is the field at `addressOffset`. -/
theorem oldAddress_eq {field : Nat}
    (hfield : field = kIpv4ChecksumAddressSource ∨ field = kIpv4ChecksumAddressDestination) :
    (if field = kIpv4ChecksumAddressSource then IPH_SRC buf else IPH_DEST buf) =
      load32 buf (addressOffset field) := by
  rcases hfield with rfl | rfl
  · rfl
  · rfl

theorem addressOffset_cases {field : Nat}
    (hfield : field = kIpv4ChecksumAddressSource ∨ field = kIpv4ChecksumAddressDestination) :
    addressOffset field = 12 ∨ addressOffset field = 16 := by
  rcases hfield with rfl | rfl
  · left; rfl
  · right; rfl

/-- `calcFullPacketChecksum` answers `true` for an unfragmented TCP packet only when its TCP
header parses. -/
theorem isSome_parseTcp_of_calcFullPacketChecksum {inet_chksum : List UInt8 → UInt16}
    {checksum : List UInt8 → UInt32 → UInt16}
    (hp : ipv4packetviewParse buf = some p) (hfrag : p.fragmented = false)
    (hproto : p.protocol = IP_PROTO_TCP)
    (h : (calcFullPacketChecksum inet_chksum checksum buf).1 = true) :
    (ipv4packetviewParseTcp buf).isSome := by
  cases ht : ipv4packetviewParseTcp buf with
  | some t => rfl
  | none =>
    have hfalse : calcFullPacketChecksum inet_chksum checksum buf = (false, buf) := by
      unfold calcFullPacketChecksum
      rw [hp]
      simp [calcFullPacketChecksumValid, hfrag, hproto, ht]
    rw [hfalse] at h
    exact absurd h Bool.false_ne_true

/-- What `setIpv4AddressWithChecksumUpdate` writes into a TCP packet that is not a later fragment
when the address changes: the address, and both checksums updated for it. -/
theorem setIpv4AddressWithChecksumUpdate_tcp {field : Nat}
    (hfield : field = kIpv4ChecksumAddressSource ∨ field = kIpv4ChecksumAddressDestination)
    (hp : ipv4packetviewParse buf = some p) (hfo : p.fragment_offset = 0)
    (hproto : p.protocol = IP_PROTO_TCP) (htcp : (ipv4packetviewParseTcp buf).isSome) {a : UInt32}
    (hne : load32 buf (addressOffset field) ≠ a) :
    setIpv4AddressWithChecksumUpdate buf field a = (true,
      store16 (IPH_CHKSUM_SET (store32 buf (addressOffset field) a)
          (checksumUpdateWord32 (IPH_CHKSUM buf) (load32 buf (addressOffset field)) a))
        (p.transport_offset + 16)
        (checksumUpdateWord32 (load16 buf (p.transport_offset + 16))
          (load32 buf (addressOffset field)) a)) := by
  obtain ⟨t, ht⟩ := Option.isSome_iff_exists.1 htcp
  obtain ⟨p', hp', -, -, -, hoff⟩ := ipv4packetviewParseTcp_eq_some ht
  rw [hp, Option.some.injEq] at hp'
  subst hp'
  have htarget : addressTransportTarget buf p = some (true, p.transport_offset) := by
    simp only [addressTransportTarget, hfo, hproto, ht, ↓reduceIte, Option.map_some, hoff]
  have hvalid : ¬(field ≠ kIpv4ChecksumAddressSource ∧ field ≠ kIpv4ChecksumAddressDestination) := by
    rcases hfield with h | h <;> simp [h]
  unfold setIpv4AddressWithChecksumUpdate
  rw [if_neg hvalid, hp]
  dsimp only
  rw [oldAddress_eq hfield, if_neg hne, htarget]
  simp only [hproto, ↓reduceIte]

end Writes

/-! ## With an RFC 1071 backend the update is the recomputation -/

/-- A checksum backend that computes the RFC 1071 checksum of a buffer and a seed. -/
def RfcBackend (checksum : List UInt8 → UInt32 → UInt16) : Prop :=
  ∀ data initial, checksum data initial = checksumRef data initial.toNat

section Recompute

variable {buf : List UInt8} {p : Ipv4PacketView}

/-- A buffer with a byte that is not zero has a sum of words that is not zero. -/
theorem pos_sum_words16 {l : List UInt8} {i : Nat} (h : byteAt l i ≠ 0) : 0 < (words16 l).sum := by
  refine Nat.pos_of_ne_zero fun h0 => h ?_
  have hall := (sum_words16_eq_zero_iff l).1 h0
  unfold byteAt
  rw [List.getD_eq_getElem?_getD]
  cases hi : l[i]? with
  | none => rfl
  | some b => exact hall b (List.mem_of_getElem? hi)

/-- The version nibble makes the first byte of a header nonzero. -/
theorem ViewOf.byteAt_zero_ne (hv : ViewOf buf p) : byteAt buf 0 ≠ 0 := by
  intro h0
  have := hv.version
  rw [IPH_V, h0] at this
  exact absurd this (by decide)

/-- **The update of an RFC 1071 checksum for a replaced 32-bit value** is the RFC 1071 checksum
of whatever the replacement makes of the words: any string and seed whose sum differs from the
old one by the new value's two words less the old value's, as long as neither sum is zero. -/
theorem checksumUpdateWord32_checksumRef {data data' : List UInt8} {init init' : Nat} (x y : UInt32)
    (hsum : init' + (words16 data').sum + (lwip_ntohs x.toUInt16).toNat +
        (lwip_ntohs (x >>> 16).toUInt16).toNat =
      init + (words16 data).sum + (lwip_ntohs y.toUInt16).toNat +
        (lwip_ntohs (y >>> 16).toUInt16).toNat)
    (hpos : 0 < init + (words16 data).sum) (hpos' : 0 < init' + (words16 data').sum) :
    checksumUpdateWord32 (checksumRef data init) x y = checksumRef data' init' := by
  have hx₁ := (lwip_ntohs x.toUInt16).toNat_lt
  have hx₂ := (lwip_ntohs (x >>> 16).toUInt16).toNat_lt
  apply eq_of_toNat_ntohs
  rw [checksumUpdateWord32_spec hpos (toNat_ntohs_checksumRef data init) x y,
    toNat_ntohs_checksumRef]
  exact checksum_replace (by omega) (by omega) (by omega) hpos'

/-- The pseudo-header with one address replaced differs by the two words of each. -/
theorem checksumPseudoHeader_store32 {buf : List UInt8} {field : Nat}
    (hfield : field = kIpv4ChecksumAddressSource ∨ field = kIpv4ChecksumAddressDestination)
    (hlen : 20 ≤ buf.length) (a : UInt32) (proto : UInt8) (length : UInt16) :
    (checksumPseudoHeader (IPH_SRC (store32 buf (addressOffset field) a))
        (IPH_DEST (store32 buf (addressOffset field) a)) proto length).toNat +
        (lwip_ntohs (load32 buf (addressOffset field)).toUInt16).toNat +
        (lwip_ntohs (load32 buf (addressOffset field) >>> 16).toUInt16).toNat =
      (checksumPseudoHeader (IPH_SRC buf) (IPH_DEST buf) proto length).toNat +
        (lwip_ntohs a.toUInt16).toNat + (lwip_ntohs (a >>> 16).toUInt16).toNat := by
  rcases hfield with rfl | rfl
  · have hsrc : IPH_SRC (store32 buf 12 a) = a := load32_store32 (by omega) a
    have hdst : IPH_DEST (store32 buf 12 a) = IPH_DEST buf :=
      load32_store32_of_disjoint (by omega) (by omega) a
    simp only [addressOffset, kIpv4ChecksumAddressSource, ↓reduceIte]
    rw [hsrc, hdst, toNat_checksumPseudoHeader, toNat_checksumPseudoHeader, IPH_SRC]
    omega
  · have hsrc : IPH_SRC (store32 buf 16 a) = IPH_SRC buf :=
      load32_store32_of_disjoint (by omega) (by omega) a
    have hdst : IPH_DEST (store32 buf 16 a) = a := load32_store32 (by omega) a
    simp only [addressOffset, kIpv4ChecksumAddressDestination, kIpv4ChecksumAddressSource,
      show (1 : Nat) ≠ 0 by decide, ↓reduceIte]
    rw [hsrc, hdst, toNat_checksumPseudoHeader, toNat_checksumPseudoHeader, IPH_DEST]
    omega

theorem setIpv4AddressWithChecksumUpdate_same {field : Nat}
    (hfield : field = kIpv4ChecksumAddressSource ∨ field = kIpv4ChecksumAddressDestination)
    (hp : ipv4packetviewParse buf = some p) :
    setIpv4AddressWithChecksumUpdate buf field (load32 buf (addressOffset field)) = (true, buf) := by
  have hvalid : ¬(field ≠ kIpv4ChecksumAddressSource ∧ field ≠ kIpv4ChecksumAddressDestination) := by
    rcases hfield with h | h <;> simp [h]
  unfold setIpv4AddressWithChecksumUpdate
  rw [if_neg hvalid, hp]
  dsimp only
  rw [oldAddress_eq hfield, if_pos rfl]

/-- The two words of the address field, as `checksumUpdateWord32` reads them, are the words of
the header there. -/
theorem ntohs_load32_halves (buf : List UInt8) (i : Nat) :
    (lwip_ntohs (load32 buf i).toUInt16).toNat = (lwip_ntohs (load16 buf i)).toNat ∧
      (lwip_ntohs (load32 buf i >>> 16).toUInt16).toNat = (lwip_ntohs (load16 buf (i + 2))).toNat := by
  rw [load16_eq_toUInt16_load32, load16_add_two_eq_load32]
  exact ⟨rfl, rfl⟩

/-- A packet that the two checksum stores leave as it is already holds the checksums stored. -/
theorem chksums_of_store16_eq {c t : UInt16} {j : Nat} (hj : 12 ≤ j) (hlen : j + 2 ≤ buf.length)
    (h : store16 (IPH_CHKSUM_SET buf c) j t = buf) : IPH_CHKSUM buf = c ∧ load16 buf j = t := by
  have h12 : 10 + 2 ≤ buf.length := by omega
  have hlen' : j + 2 ≤ (IPH_CHKSUM_SET buf c).length := by
    rw [IPH_CHKSUM_SET, length_store16 h12]; exact hlen
  constructor
  · conv_lhs => rw [← h]
    unfold IPH_CHKSUM
    rw [load16_store16_of_disjoint (by omega) hlen', IPH_CHKSUM_SET, load16_store16 h12]
  · conv_lhs => rw [← h]
    rw [load16_store16 hlen']

/-- The header the checksum is computed over, after an address store, is the old one with the
address written. -/
theorem take_chksum_set_store32 {field n : Nat}
    (hfield : field = kIpv4ChecksumAddressSource ∨ field = kIpv4ChecksumAddressDestination)
    (hn : addressOffset field + 4 ≤ n) (hlen : n ≤ buf.length) (a : UInt32) (c : UInt16) :
    (IPH_CHKSUM_SET (store32 buf (addressOffset field) a) c).take n =
      store32 ((IPH_CHKSUM_SET buf c).take n) (addressOffset field) a := by
  have hao := addressOffset_cases hfield
  have h12 : 10 + 2 ≤ buf.length := by omega
  unfold IPH_CHKSUM_SET
  rw [store16_store32_comm (by omega) h12 (by omega),
    take_store32_of_lt hn (by rw [length_store16 h12]; exact hlen)]

/-- The first byte of the header the checksum is computed over is the packet's. -/
theorem byteAt_take_chksum_set_zero {n : Nat} (hn : 0 < n) (h12 : 10 + 2 ≤ buf.length)
    (c : UInt16) : byteAt ((IPH_CHKSUM_SET buf c).take n) 0 = byteAt buf 0 := by
  unfold IPH_CHKSUM_SET
  rw [byteAt_take hn, byteAt_store16_of_lt (by decide) h12]

/-- The address words of the header the checksum is computed over are the packet's. -/
theorem load16_take_chksum_set {n i : Nat} (hi : 12 ≤ i) (hn : i + 2 ≤ n)
    (h12 : 10 + 2 ≤ buf.length) (c : UInt16) :
    load16 ((IPH_CHKSUM_SET buf c).take n) i = load16 buf i := by
  unfold IPH_CHKSUM_SET
  rw [load16_take hn, load16_store16_of_disjoint (by omega) h12]

/-- **The header checksum, updated for a replaced address**, is the RFC 1071 checksum of the
header with the address written.  The nonzero first byte keeps both sums from zero. -/
theorem checksumUpdateWord32_header {field n : Nat}
    (hfield : field = kIpv4ChecksumAddressSource ∨ field = kIpv4ChecksumAddressDestination)
    (h0 : byteAt buf 0 ≠ 0) (hn : 20 ≤ n) (hlen : n ≤ buf.length) (a : UInt32) :
    checksumUpdateWord32 (checksumRef ((IPH_CHKSUM_SET buf 0).take n) 0)
        (load32 buf (addressOffset field)) a =
      checksumRef (store32 ((IPH_CHKSUM_SET buf 0).take n) (addressOffset field) a) 0 := by
  have hao := addressOffset_cases hfield
  have h12 : 10 + 2 ≤ buf.length := by omega
  have hHlen : addressOffset field + 4 ≤ ((IPH_CHKSUM_SET buf 0).take n).length := by
    rw [IPH_CHKSUM_SET, List.length_take, length_store16 h12]; omega
  have hb := byteAt_take_chksum_set_zero (show 0 < n by omega) h12 0
  have hpos := pos_sum_words16 (show byteAt ((IPH_CHKSUM_SET buf 0).take n) 0 ≠ 0 by
    rw [hb]; exact h0)
  have hpos' := pos_sum_words16
    (show byteAt (store32 ((IPH_CHKSUM_SET buf 0).take n) (addressOffset field) a) 0 ≠ 0 by
      rw [byteAt_store32_of_lt (by omega) hHlen, hb]; exact h0)
  -- the header's sum changes by the address's words
  have hsum := sum_words16_store32 (by rcases hao with h | h <;> rw [h] <;> decide) hHlen a
  rw [load16_take_chksum_set (by omega) (by omega) h12,
    load16_take_chksum_set (by omega) (by omega) h12] at hsum
  have hold := ntohs_load32_halves buf (addressOffset field)
  exact checksumUpdateWord32_checksumRef _ _ (by omega) (by omega) (by omega)

/-- **A transport checksum, updated for a replaced address**, is the RFC 1071 checksum of the
same segment seeded with the new pseudo-header.  A nonzero protocol keeps both seeds from zero. -/
theorem checksumUpdateWord32_pseudoHeader {field : Nat}
    (hfield : field = kIpv4ChecksumAddressSource ∨ field = kIpv4ChecksumAddressDestination)
    (hlen : 20 ≤ buf.length) (a : UInt32) (segment : List UInt8) {proto : UInt8}
    (hproto : proto ≠ 0) (length : UInt16) :
    checksumUpdateWord32
        (checksumRef segment (checksumPseudoHeader (IPH_SRC buf) (IPH_DEST buf) proto length).toNat)
        (load32 buf (addressOffset field)) a =
      checksumRef segment (checksumPseudoHeader (IPH_SRC (store32 buf (addressOffset field) a))
        (IPH_DEST (store32 buf (addressOffset field) a)) proto length).toNat := by
  have hsum := checksumPseudoHeader_store32 hfield hlen a proto length
  have hproto' : 0 < proto.toNat := Nat.pos_of_ne_zero fun h => hproto (UInt8.toNat_inj.1 h)
  have hpos : ∀ s d : UInt32, 0 < (checksumPseudoHeader s d proto length).toNat := fun s d => by
    rw [toNat_checksumPseudoHeader]; omega
  have h₁ := hpos (IPH_SRC buf) (IPH_DEST buf)
  have h₂ := hpos (IPH_SRC (store32 buf (addressOffset field) a))
    (IPH_DEST (store32 buf (addressOffset field) a))
  exact checksumUpdateWord32_checksumRef _ _ (by omega) (by omega) (by omega)

/-- The packet with an address written parses as the old one, its addresses apart. -/
theorem ipv4packetviewParse_store32_address {field : Nat}
    (hfield : field = kIpv4ChecksumAddressSource ∨ field = kIpv4ChecksumAddressDestination)
    (hp : ipv4packetviewParse buf = some p) (a : UInt32) :
    ipv4packetviewParse (store32 buf (addressOffset field) a) = some
      { p with source_address := IPH_SRC (store32 buf (addressOffset field) a),
               destination_address := IPH_DEST (store32 buf (addressOffset field) a) } := by
  have hao := addressOffset_cases hfield
  have h20 := (ipv4packetviewParse_viewOf hp).twenty_le
  have hlen := (ipv4packetviewParse_viewOf hp).transport_le
  rw [ipv4packetviewParse_congr (agreeExcept_store32 (by omega) a) (fun j hj => by omega), hp]
  rfl

/-- ... and its TCP header parses when the old one's did. -/
theorem isSome_parseTcp_store32_address {field : Nat}
    (hfield : field = kIpv4ChecksumAddressSource ∨ field = kIpv4ChecksumAddressDestination)
    (hp : ipv4packetviewParse buf = some p) (htcp : (ipv4packetviewParseTcp buf).isSome)
    (a : UInt32) : (ipv4packetviewParseTcp (store32 buf (addressOffset field) a)).isSome := by
  have hao := addressOffset_cases hfield
  have hv := ipv4packetviewParse_viewOf hp
  have h20 := hv.twenty_le
  have hlen := hv.transport_le
  rw [ipv4packetviewParseTcp_congr (agreeExcept_store32 (by omega) a) (fun j hj => by omega)
    fun p' hp' k _ => by
      rw [hp, Option.some.injEq] at hp'
      subst hp'
      omega]
  simpa using htcp

/-- **Replacing an address in an unfragmented TCP packet.**  With an `inet_chksum` and a backend
that compute the RFC 1071 checksum, and checksums that are those `calcFullPacketChecksum` writes,
the incremental update writes exactly what writing the address and recomputing both checksums
would. -/
theorem setIpv4AddressWithChecksumUpdate_tcp_recompute {inet_chksum : List UInt8 → UInt16}
    {checksum : List UInt8 → UInt32 → UInt16} (hinet : InetChksum inet_chksum)
    (hrfc : RfcBackend checksum) (hp : ipv4packetviewParse buf = some p)
    (hfrag : p.fragmented = false) (hproto : p.protocol = IP_PROTO_TCP)
    (hcons : calcFullPacketChecksum inet_chksum checksum buf = (true, buf)) {field : Nat}
    (hfield : field = kIpv4ChecksumAddressSource ∨ field = kIpv4ChecksumAddressDestination)
    (a : UInt32) :
    setIpv4AddressWithChecksumUpdate buf field a =
      calcFullPacketChecksum inet_chksum checksum (store32 buf (addressOffset field) a) := by
  have hv := ipv4packetviewParse_viewOf hp
  have h20 := hv.twenty_le
  have htcp := isSome_parseTcp_of_calcFullPacketChecksum hp hfrag hproto (by rw [hcons])
  obtain ⟨t, ht⟩ := Option.isSome_iff_exists.1 htcp
  obtain ⟨p', hp', -, hfo, htl, -⟩ := ipv4packetviewParseTcp_eq_some ht
  rw [hp, Option.some.injEq] at hp'
  subst hp'
  have hlen : p.transport_offset + 18 ≤ buf.length := by
    have := hv.transport_le; unfold TCP_HLEN at htl; omega
  have hao := addressOffset_cases hfield
  have haolen : addressOffset field + 4 ≤ buf.length := by omega
  by_cases hne : load32 buf (addressOffset field) = a
  · subst hne
    rw [setIpv4AddressWithChecksumUpdate_same hfield hp, store32_load32 haolen, hcons]
  rw [setIpv4AddressWithChecksumUpdate_tcp hfield hp hfo hproto htcp hne,
    calcFullPacketChecksum_tcp inet_chksum checksum
      (ipv4packetviewParse_store32_address hfield hp a) hfrag hproto
      (isSome_parseTcp_store32_address hfield hp htcp a)]
  rw [calcFullPacketChecksum_tcp inet_chksum checksum hp hfrag hproto htcp] at hcons
  -- the checksums stored are the ones computed
  obtain ⟨hhc, htc⟩ := chksums_of_store16_eq (by omega) (by omega) (Prod.mk.inj hcons).2
  -- the segment the TCP checksum covers does not hold the address
  have hseg : (store16 (store32 buf (addressOffset field) a) (p.transport_offset + 16) 0).drop
      p.transport_offset = (store16 buf (p.transport_offset + 16) 0).drop p.transport_offset := by
    rw [store16_store32_comm (by omega) (by omega) haolen,
      drop_store32_of_le (by omega) (by rw [length_store16 (by omega)]; exact haolen)]
  have hhl : p.ip_header_length = p.transport_offset := hv.transport_offset.symm
  dsimp only
  rw [hhc, htc, take_chksum_set_store32 hfield (by omega) (by omega), hseg, hrfc, hrfc,
    hinet.eq_checksumRef, hinet.eq_checksumRef,
    checksumUpdateWord32_header hfield hv.byteAt_zero_ne (by omega) (by omega),
    checksumUpdateWord32_pseudoHeader hfield (by omega) a _ (by decide)]

end Recompute

/-! ## The portable backend breaks the agreement -/

/-- A 40-byte TCP segment from `0.0.0.0` to `0.0.0.0`, its checksums those the portable backend
writes. -/
def carryPacket : List UInt8 :=
  [0x45, 0x00, 0x00, 0x28, 0, 0, 0, 0, 0x40, 0x06, 0x7A, 0xD1, 0, 0, 0, 0, 0, 0, 0, 0,
    0, 0, 0, 0, 0, 0, 0, 0, 0xAF, 0xFF, 0xFC, 0x18, 0x50, 0x00, 0, 0, 0x03, 0xCD, 0, 0]

/-- **The incremental update and the recomputation disagree** when the recomputation loses a
carry.  The words of `carryPacket` sum, with the pseudo-header, to `0xfc32`, and its checksums are
those `calcFullPacketChecksum` writes with the portable backend and any `inet_chksum` that computes
the RFC 1071 checksum.  Changing the source address to `255.255.255.255` adds two words `0xffff`,
which change no checksum, and the update leaves both as they are; an RFC 1071 backend agrees.
The portable backend, summing again, adds the seed `0x20018` to the segment's 32-bit sum
`0xfffffc18`, loses the carry out of 32 bits, and writes `03 ce` where the checksum is `03 cd`. -/
theorem setIpv4AddressWithChecksumUpdate_lostCarry {inet_chksum : List UInt8 → UInt16}
    (hinet : InetChksum inet_chksum) :
    calcFullPacketChecksum inet_chksum checksumDefault carryPacket = (true, carryPacket) ∧
      setIpv4AddressWithChecksumUpdate carryPacket kIpv4ChecksumAddressSource 0xFFFFFFFF =
        (true, store32 carryPacket 12 0xFFFFFFFF) ∧
      calcFullPacketChecksum inet_chksum (fun data initial => checksumRef data initial.toNat)
        (store32 carryPacket 12 0xFFFFFFFF) = (true, store32 carryPacket 12 0xFFFFFFFF) ∧
      calcFullPacketChecksum inet_chksum checksumDefault (store32 carryPacket 12 0xFFFFFFFF) =
        (true, store16 (store32 carryPacket 12 0xFFFFFFFF) 36 0xCE03) := by
  -- the header checksum is the reference sum; every loop and fold in closed form, after which the
  -- functions run on the packet
  have h16 : (0 : Nat) < 16 := by decide
  have h32 : (0 : Nat) < 32 := by decide
  refine ⟨?_, ?_, ?_, ?_⟩
  · simp only [carryPacket, calcFullPacketChecksum, checksumDefault, cChecksum, finalizeChecksum,
      foldSum32_eq, checksumBuffer, foldSum64_eq, fold_eq_ite h16, fold_eq_ite h32,
      hinet.eq_checksumRef, checksumRef, checksumBufferSum, checksumLoop_eq]
    decide
  · simp only [carryPacket, setIpv4AddressWithChecksumUpdate, checksumUpdateWord32,
      checksumUpdateWord16, foldSum32_eq, fold_eq_ite h16]
    decide
  · simp only [carryPacket, calcFullPacketChecksum, fold_eq_ite h16, hinet.eq_checksumRef,
      checksumRef]
    decide
  · simp only [carryPacket, calcFullPacketChecksum, checksumDefault, cChecksum, finalizeChecksum,
      foldSum32_eq, checksumBuffer, foldSum64_eq, fold_eq_ite h16, fold_eq_ite h32,
      hinet.eq_checksumRef, checksumRef, checksumBufferSum, checksumLoop_eq]
    decide

/-- The disagreement with the reference sum as `inet_chksum`. -/
theorem setIpv4AddressWithChecksumUpdate_lostCarry_checksumRef :
    InetChksum (fun data => checksumRef data 0) ∧
      calcFullPacketChecksum (fun data => checksumRef data 0) checksumDefault carryPacket =
        (true, carryPacket) ∧
      setIpv4AddressWithChecksumUpdate carryPacket kIpv4ChecksumAddressSource 0xFFFFFFFF =
        (true, store32 carryPacket 12 0xFFFFFFFF) ∧
      calcFullPacketChecksum (fun data => checksumRef data 0)
        (fun data initial => checksumRef data initial.toNat)
        (store32 carryPacket 12 0xFFFFFFFF) = (true, store32 carryPacket 12 0xFFFFFFFF) ∧
      calcFullPacketChecksum (fun data => checksumRef data 0) checksumDefault
        (store32 carryPacket 12 0xFFFFFFFF) =
        (true, store16 (store32 carryPacket 12 0xFFFFFFFF) 36 0xCE03) :=
  ⟨inetChksum_checksumRef, setIpv4AddressWithChecksumUpdate_lostCarry inetChksum_checksumRef⟩

end Net
end WaterWall
