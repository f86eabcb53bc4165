import WaterWall.Net.Ipv4PacketView

/-!
# Device flow affinity: the flow hash

`deviceFlowAffinityHash` (`ww/devices/device_flow_affinity.c`) reads an IP packet's flow fields
(the two addresses, the ports of TCP, UDP and SCTP, the protocol, and for an IPv4 fragment the
identification) and mixes them into a 64-bit hash; a device picks the worker for a packet from
it, so that every packet of a flow lands on one worker.  The two endpoints are ordered before
they are mixed, IPv6 addresses are folded to 32 bits, and a fragment is hashed by its datagram
instead of its ports, which only the first fragment carries.

* `deviceFlowAffinityHash_swapEndpoints`: a packet with its source and destination exchanged
  (addresses, and ports for TCP, UDP and SCTP) hashes as the packet does.
* `deviceFlowAffinityHash_ipv4Fragment`: the hash of an IPv4 fragment is a function of its
  source, destination, protocol and identification alone.
* `deviceFlowAffinityHash_of_take`: the bytes after the datagram (the IPv4 total length, the
  IPv6 header and payload length) never change the hash.
-/

set_option autoImplicit false

namespace WaterWall
namespace FlowAffinity

open Net

/-! ## Reading the packet -/

/-- `GET_BE16`: the two bytes at `i`, most significant first. -/
def GET_BE16 (p : List UInt8) (i : Nat) : UInt16 :=
  UInt16.ofNat ((byteAt p i).toNat * 2 ^ 8 + (byteAt p (i + 1)).toNat)

/-- `GET_BE32`: the four bytes at `i`, most significant first. -/
def GET_BE32 (p : List UInt8) (i : Nat) : UInt32 :=
  UInt32.ofNat ((byteAt p i).toNat * 2 ^ 24 + (byteAt p (i + 1)).toNat * 2 ^ 16 +
    (byteAt p (i + 2)).toNat * 2 ^ 8 + (byteAt p (i + 3)).toNat)

theorem GET_BE16_congr {p q : List UInt8} {i j : Nat} (h : ∀ m < 2, byteAt p (i + m) = byteAt q (j + m)) :
    GET_BE16 p i = GET_BE16 q j := by
  have h0 := h 0 (by decide)
  have h1 := h 1 (by decide)
  simp only [Nat.add_zero] at h0
  rw [GET_BE16, GET_BE16, h0, h1]

theorem GET_BE32_congr {p q : List UInt8} {i j : Nat} (h : ∀ m < 4, byteAt p (i + m) = byteAt q (j + m)) :
    GET_BE32 p i = GET_BE32 q j := by
  have h0 := h 0 (by decide)
  simp only [Nat.add_zero] at h0
  rw [GET_BE32, GET_BE32, h0, h 1 (by decide), h 2 (by decide), h 3 (by decide)]

/-! ## The model -/

def kDeviceFlowAffinityIpv4MoreFragments : UInt16 := 0x2000

def kDeviceFlowAffinityIpv4OffsetMask : UInt16 := 0x1FFF

/-- `deviceFlowAffinityMix64`: the SplitMix64 finaliser. -/
def deviceFlowAffinityMix64 (value : UInt64) : UInt64 :=
  let value := value ^^^ (value >>> 30)
  let value := value * 0xBF58476D1CE4E5B9
  let value := value ^^^ (value >>> 27)
  let value := value * 0x94D049BB133111EB
  value ^^^ (value >>> 31)

/-- `wwMinUllong`, what `min` is on `uint64_t`. -/
def wwMinUllong (a b : UInt64) : UInt64 := if a < b then a else b

/-- `wwMaxUllong`, what `max` is on `uint64_t`. -/
def wwMaxUllong (a b : UInt64) : UInt64 := if a > b then a else b

/-- `deviceFlowAffinityMixTuple`: each endpoint is its address above its port, and the smaller
endpoint is mixed first. -/
def deviceFlowAffinityMixTuple (src : UInt32) (src_port : UInt16) (dst : UInt32) (dst_port : UInt16)
    (proto : UInt8) (fragment_key : UInt32) : UInt64 :=
  let endpoint_a := (src.toUInt64 <<< 16) ||| src_port.toUInt64
  let endpoint_b := (dst.toUInt64 <<< 16) ||| dst_port.toUInt64
  let low := wwMinUllong endpoint_a endpoint_b
  let high := wwMaxUllong endpoint_a endpoint_b
  let hash := deviceFlowAffinityMix64 (low + 0x9E3779B97F4A7C15)
  let hash := hash ^^^ deviceFlowAffinityMix64 (high + 0xD1B54A32D192ED03)
  let hash := hash ^^^ deviceFlowAffinityMix64 (proto.toUInt64 + 0x94D049BB133111EB)
  let hash :=
    if fragment_key ≠ 0 then
      hash ^^^ deviceFlowAffinityMix64 (fragment_key.toUInt64 + 0xDB4F0B9175AE2165)
    else hash
  deviceFlowAffinityMix64 hash

/-- `deviceFlowAffinityFoldIpv6Address`: the four words of the address at `address`, xored. -/
def deviceFlowAffinityFoldIpv6Address (packet : List UInt8) (address : Nat) : UInt32 :=
  GET_BE32 packet address ^^^ GET_BE32 packet (address + 4) ^^^ GET_BE32 packet (address + 8) ^^^
    GET_BE32 packet (address + 12)

/-- `device_flow_affinity_tuple_t`, zero-initialised as the hash function declares it. -/
structure DeviceFlowAffinityTuple where
  src : UInt32 := 0
  dst : UInt32 := 0
  fragment_key : UInt32 := 0
  src_port : UInt16 := 0
  dst_port : UInt16 := 0
  proto : UInt8 := 0
deriving DecidableEq, Repr

/-- What `deviceFlowAffinityParseIpv4` writes once the lengths have passed: the protocol and the
addresses, then for a fragment the identification, and otherwise the ports when the protocol has
them and the datagram holds them. -/
def deviceFlowAffinityIpv4Tuple (packet : List UInt8) (ip_header_len ip_total_len : Nat) :
    DeviceFlowAffinityTuple :=
  let proto := byteAt packet 9
  let src := GET_BE32 packet 12
  let dst := GET_BE32 packet 16
  let fragment_field := GET_BE16 packet 6
  if fragment_field &&& (kDeviceFlowAffinityIpv4MoreFragments ||| kDeviceFlowAffinityIpv4OffsetMask) ≠ 0 then
    { src, dst, proto, fragment_key := 0x10000 ||| (GET_BE16 packet 4).toUInt32 }
  else if (proto = 6 ∨ proto = 17 ∨ proto = 132) ∧ ip_total_len ≥ ip_header_len + 4 then
    { src, dst, proto, src_port := GET_BE16 packet ip_header_len,
      dst_port := GET_BE16 packet (ip_header_len + 2) }
  else { src, dst, proto }

/-- `deviceFlowAffinityParseIpv4`: the header length from the low nibble of the first byte, the
total length bounding the datagram inside the buffer. -/
def deviceFlowAffinityParseIpv4 (packet : List UInt8) : Option DeviceFlowAffinityTuple :=
  if packet.length < 20 then none
  else
    let ip_header_len := ((byteAt packet 0) &&& 0x0F).toNat * 4
    if ip_header_len < 20 ∨ ip_header_len > 60 ∨ packet.length < ip_header_len then none
    else
      let ip_total_len := (GET_BE16 packet 2).toNat
      if ip_total_len < ip_header_len ∨ ip_total_len > packet.length then none
      else some (deviceFlowAffinityIpv4Tuple packet ip_header_len ip_total_len)

/-- What `deviceFlowAffinityParseIpv6` writes once the payload length has passed: the next
header as the protocol, the folded addresses, and the ports of TCP and UDP. -/
def deviceFlowAffinityIpv6Tuple (packet : List UInt8) (payload_len : Nat) :
    DeviceFlowAffinityTuple :=
  let proto := byteAt packet 6
  let src := deviceFlowAffinityFoldIpv6Address packet 8
  let dst := deviceFlowAffinityFoldIpv6Address packet 24
  if (proto = 6 ∨ proto = 17) ∧ payload_len ≥ 4 ∧ packet.length ≥ 44 then
    { src, dst, proto, src_port := GET_BE16 packet 40, dst_port := GET_BE16 packet 42 }
  else { src, dst, proto }

/-- `deviceFlowAffinityParseIpv6`: a zero payload length (a jumbogram) and a truncated payload
are both refused. -/
def deviceFlowAffinityParseIpv6 (packet : List UInt8) : Option DeviceFlowAffinityTuple :=
  if packet.length < 40 then none
  else
    let payload_len := (GET_BE16 packet 4).toNat
    if payload_len = 0 ∨ payload_len + 40 > packet.length then none
    else some (deviceFlowAffinityIpv6Tuple packet payload_len)

/-- The hash of a parsed tuple. -/
def DeviceFlowAffinityTuple.hash (t : DeviceFlowAffinityTuple) : UInt64 :=
  deviceFlowAffinityMixTuple t.src t.src_port t.dst t.dst_port t.proto t.fragment_key

/-- `deviceFlowAffinityHash`; `none` is `false`.  The version is the high nibble of the first
byte. -/
def deviceFlowAffinityHash (packet : List UInt8) : Option UInt64 :=
  if packet.length = 0 then none
  else
    let version := byteAt packet 0 >>> 4
    let parsed :=
      if version = 4 then deviceFlowAffinityParseIpv4 packet
      else if version = 6 then deviceFlowAffinityParseIpv6 packet
      else none
    parsed.map DeviceFlowAffinityTuple.hash

/-! ## The mix is symmetric in the endpoints -/

theorem wwMinUllong_comm (a b : UInt64) : wwMinUllong a b = wwMinUllong b a := by
  simp only [wwMinUllong, UInt64.lt_iff_toNat_lt]
  split_ifs <;> first | rfl | (apply UInt64.toNat_inj.1; omega)

theorem wwMaxUllong_comm (a b : UInt64) : wwMaxUllong a b = wwMaxUllong b a := by
  simp only [wwMaxUllong, gt_iff_lt, UInt64.lt_iff_toNat_lt]
  split_ifs <;> first | rfl | (apply UInt64.toNat_inj.1; omega)

/-- Ordering the endpoints makes the mix forget which one is the source. -/
theorem deviceFlowAffinityMixTuple_comm (src : UInt32) (src_port : UInt16) (dst : UInt32)
    (dst_port : UInt16) (proto : UInt8) (fragment_key : UInt32) :
    deviceFlowAffinityMixTuple dst dst_port src src_port proto fragment_key =
      deviceFlowAffinityMixTuple src src_port dst dst_port proto fragment_key := by
  simp only [deviceFlowAffinityMixTuple]
  rw [wwMinUllong_comm, wwMaxUllong_comm]

/-- The tuple of the same flow seen the other way. -/
def DeviceFlowAffinityTuple.swap (t : DeviceFlowAffinityTuple) : DeviceFlowAffinityTuple :=
  { t with src := t.dst, dst := t.src, src_port := t.dst_port, dst_port := t.src_port }

@[simp] theorem DeviceFlowAffinityTuple.hash_swap (t : DeviceFlowAffinityTuple) :
    t.swap.hash = t.hash :=
  deviceFlowAffinityMixTuple_comm _ _ _ _ _ _

/-! ## Exchanging two fields of a packet -/

/-- The packet with the `n` bytes at `i` and the `n` bytes at `j` exchanged. -/
def swapBytes (p : List UInt8) (i j n : Nat) : List UInt8 :=
  p.mapIdx fun k b =>
    if i ≤ k ∧ k < i + n then byteAt p (k - i + j)
    else if j ≤ k ∧ k < j + n then byteAt p (k - j + i)
    else b

@[simp] theorem length_swapBytes (p : List UInt8) (i j n : Nat) :
    (swapBytes p i j n).length = p.length :=
  List.length_mapIdx

theorem byteAt_eq_zero {p : List UInt8} {k : Nat} (hk : p.length ≤ k) : byteAt p k = 0 := by
  rw [byteAt, List.getD_eq_getElem?_getD, List.getElem?_eq_none hk, Option.getD_none]

theorem byteAt_swapBytes (p : List UInt8) (i j n k : Nat) :
    byteAt (swapBytes p i j n) k =
      if k < p.length then
        (if i ≤ k ∧ k < i + n then byteAt p (k - i + j)
        else if j ≤ k ∧ k < j + n then byteAt p (k - j + i)
        else byteAt p k)
      else 0 := by
  by_cases hk : k < p.length
  · rw [if_pos hk]
    simp only [swapBytes, byteAt, List.getD_eq_getElem?_getD, List.getElem?_mapIdx,
      List.getElem?_eq_getElem hk, Option.map_some, Option.getD_some]
  · rw [if_neg hk, byteAt_eq_zero (by simp; omega)]

theorem byteAt_swapBytes_of_not_mem {p : List UInt8} {i j n k : Nat} (hi : ¬(i ≤ k ∧ k < i + n))
    (hj : ¬(j ≤ k ∧ k < j + n)) : byteAt (swapBytes p i j n) k = byteAt p k := by
  rw [byteAt_swapBytes, if_neg hi, if_neg hj]
  split
  · rfl
  · rw [byteAt_eq_zero (by omega)]

theorem byteAt_swapBytes_left {p : List UInt8} {i j n m : Nat} (hm : m < n) (hij : i + n ≤ j)
    (hlen : j + n ≤ p.length) : byteAt (swapBytes p i j n) (i + m) = byteAt p (j + m) := by
  rw [byteAt_swapBytes, if_pos (by omega), if_pos (by omega), Nat.add_sub_cancel_left,
    Nat.add_comm m j]

theorem byteAt_swapBytes_right {p : List UInt8} {i j n m : Nat} (hm : m < n) (hij : i + n ≤ j)
    (hlen : j + n ≤ p.length) : byteAt (swapBytes p i j n) (j + m) = byteAt p (i + m) := by
  rw [byteAt_swapBytes, if_pos (by omega), if_neg (by omega), if_pos (by omega),
    Nat.add_sub_cancel_left, Nat.add_comm m i]

/-- The packet of the same flow seen the other way: the two addresses exchanged, and for TCP,
UDP and SCTP (protocols 6, 17 and 132) the two ports after the header. -/
def swapEndpoints (packet : List UInt8) : List UInt8 :=
  if byteAt packet 0 >>> 4 = 4 then
    let ip_header_len := ((byteAt packet 0) &&& 0x0F).toNat * 4
    let swapped := swapBytes packet 12 16 4
    if byteAt packet 9 = 6 ∨ byteAt packet 9 = 17 ∨ byteAt packet 9 = 132 then
      swapBytes swapped ip_header_len (ip_header_len + 2) 2
    else swapped
  else
    let swapped := swapBytes packet 8 24 16
    if byteAt packet 6 = 6 ∨ byteAt packet 6 = 17 ∨ byteAt packet 6 = 132 then
      swapBytes swapped 40 42 2
    else swapped

/-! ## What the parsers accept -/

/-- The IPv4 header length, from the low nibble of the first byte. -/
def ipv4HeaderLen (packet : List UInt8) : Nat := ((byteAt packet 0) &&& 0x0F).toNat * 4

/-- The IPv4 total length. -/
def ipv4TotalLen (packet : List UInt8) : Nat := (GET_BE16 packet 2).toNat

/-- The IPv6 payload length. -/
def ipv6PayloadLen (packet : List UInt8) : Nat := (GET_BE16 packet 4).toNat

/-- The lengths an IPv4 packet must have: a header of 20 to 60 bytes inside the datagram, and the
datagram inside the buffer. -/
structure Ipv4Accepted (packet : List UInt8) : Prop where
  header_ge : 20 ≤ ipv4HeaderLen packet
  header_le : ipv4HeaderLen packet ≤ 60
  header_le_total : ipv4HeaderLen packet ≤ ipv4TotalLen packet
  total_le : ipv4TotalLen packet ≤ packet.length

/-- The lengths an IPv6 packet must have: a payload, and all of it inside the buffer. -/
structure Ipv6Accepted (packet : List UInt8) : Prop where
  payload_pos : 0 < ipv6PayloadLen packet
  payload_le : ipv6PayloadLen packet + 40 ≤ packet.length

theorem deviceFlowAffinityParseIpv4_eq_some_iff {p : List UInt8} {t : DeviceFlowAffinityTuple} :
    deviceFlowAffinityParseIpv4 p = some t ↔
      Ipv4Accepted p ∧ t = deviceFlowAffinityIpv4Tuple p (ipv4HeaderLen p) (ipv4TotalLen p) := by
  simp only [deviceFlowAffinityParseIpv4]
  constructor
  · intro h
    split_ifs at h with h1 h2 h3
    exact ⟨⟨by unfold ipv4HeaderLen; omega, by unfold ipv4HeaderLen; omega,
      by unfold ipv4HeaderLen ipv4TotalLen; omega, by unfold ipv4TotalLen; omega⟩,
      (Option.some.inj h).symm⟩
  · rintro ⟨⟨h1, h2, h3, h4⟩, rfl⟩
    unfold ipv4HeaderLen ipv4TotalLen at *
    rw [if_neg (by omega), if_neg (by omega), if_neg (by omega)]

theorem deviceFlowAffinityParseIpv6_eq_some_iff {p : List UInt8} {t : DeviceFlowAffinityTuple} :
    deviceFlowAffinityParseIpv6 p = some t ↔
      Ipv6Accepted p ∧ t = deviceFlowAffinityIpv6Tuple p (ipv6PayloadLen p) := by
  simp only [deviceFlowAffinityParseIpv6]
  constructor
  · intro h
    split_ifs at h with h1 h2
    exact ⟨⟨by unfold ipv6PayloadLen; omega, by unfold ipv6PayloadLen; omega⟩,
      (Option.some.inj h).symm⟩
  · rintro ⟨⟨h1, h2⟩, rfl⟩
    unfold ipv6PayloadLen at *
    rw [if_neg (by omega), if_neg (by omega)]

/-- **What the hash accepts**: an IPv4 packet whose lengths pass, hashed by its IPv4 tuple, or
an IPv6 packet whose payload length passes, hashed by its IPv6 tuple. -/
theorem deviceFlowAffinityHash_eq_some_iff {p : List UInt8} {h : UInt64} :
    deviceFlowAffinityHash p = some h ↔
      (byteAt p 0 >>> 4 = 4 ∧ Ipv4Accepted p ∧
        h = (deviceFlowAffinityIpv4Tuple p (ipv4HeaderLen p) (ipv4TotalLen p)).hash) ∨
      (byteAt p 0 >>> 4 = 6 ∧ Ipv6Accepted p ∧
        h = (deviceFlowAffinityIpv6Tuple p (ipv6PayloadLen p)).hash) := by
  rw [deviceFlowAffinityHash]
  by_cases hlen : p.length = 0
  · -- an empty buffer is refused, and no accepted packet is empty
    rw [if_pos hlen]
    have h4 : ¬Ipv4Accepted p := fun hp => by have := hp.total_le; have := hp.header_le_total;
                                               have := hp.header_ge; omega
    have h6 : ¬Ipv6Accepted p := fun hp => by have := hp.payload_le; omega
    simp [h4, h6]
  · rw [if_neg hlen]
    dsimp only
    by_cases hv4 : byteAt p 0 >>> 4 = 4
    · rw [if_pos hv4, Option.map_eq_some_iff]
      simp only [deviceFlowAffinityParseIpv4_eq_some_iff, hv4, true_and,
        show ¬((4 : UInt8) = 6) by decide, false_and, or_false]
      constructor
      · rintro ⟨t, ⟨hp, rfl⟩, rfl⟩
        exact ⟨hp, rfl⟩
      · rintro ⟨hp, rfl⟩
        exact ⟨_, ⟨hp, rfl⟩, rfl⟩
    · rw [if_neg hv4]
      by_cases hv6 : byteAt p 0 >>> 4 = 6
      · rw [if_pos hv6, Option.map_eq_some_iff]
        simp only [deviceFlowAffinityParseIpv6_eq_some_iff, hv6, true_and,
          show ¬((6 : UInt8) = 4) by decide, false_and, false_or]
        constructor
        · rintro ⟨t, ⟨hp, rfl⟩, rfl⟩
          exact ⟨hp, rfl⟩
        · rintro ⟨hp, rfl⟩
          exact ⟨_, ⟨hp, rfl⟩, rfl⟩
      · rw [if_neg hv6]
        simp [hv4, hv6]

/-! ## What the hash reads -/

theorem ipv4HeaderLen_congr {p q : List UInt8} (h0 : byteAt q 0 = byteAt p 0) :
    ipv4HeaderLen q = ipv4HeaderLen p := by
  rw [ipv4HeaderLen, ipv4HeaderLen, h0]

/-- The length checks read the first four bytes and the buffer's length only. -/
theorem Ipv4Accepted.transfer {p q : List UInt8} (hp : Ipv4Accepted p)
    (h0 : byteAt q 0 = byteAt p 0) (h2 : GET_BE16 q 2 = GET_BE16 p 2)
    (hlen : ipv4TotalLen p ≤ q.length) : Ipv4Accepted q := by
  have hhl := ipv4HeaderLen_congr h0
  have htot : ipv4TotalLen q = ipv4TotalLen p := by rw [ipv4TotalLen, ipv4TotalLen, h2]
  have := hp.header_ge
  have := hp.header_le
  have := hp.header_le_total
  exact ⟨by omega, by omega, by omega, by omega⟩

theorem Ipv6Accepted.transfer {p q : List UInt8} (hp : Ipv6Accepted p)
    (h4 : GET_BE16 q 4 = GET_BE16 p 4) (hlen : ipv6PayloadLen p + 40 ≤ q.length) :
    Ipv6Accepted q := by
  have hpl : ipv6PayloadLen q = ipv6PayloadLen p := by rw [ipv6PayloadLen, ipv6PayloadLen, h4]
  have := hp.payload_pos
  exact ⟨by omega, by omega⟩

/-- The IPv4 tuple reads the first 20 bytes, and the four after the header when it reads the
ports. -/
theorem deviceFlowAffinityIpv4Tuple_congr {p q : List UInt8} {hl tot : Nat}
    (h : ∀ k < 20, byteAt q k = byteAt p k)
    (hports : hl + 4 ≤ tot → ∀ m < 4, byteAt q (hl + m) = byteAt p (hl + m)) :
    deviceFlowAffinityIpv4Tuple q hl tot = deviceFlowAffinityIpv4Tuple p hl tot := by
  have h4 : GET_BE16 q 4 = GET_BE16 p 4 := GET_BE16_congr fun m hm => h _ (by omega)
  have h6 : GET_BE16 q 6 = GET_BE16 p 6 := GET_BE16_congr fun m hm => h _ (by omega)
  have h12 : GET_BE32 q 12 = GET_BE32 p 12 := GET_BE32_congr fun m hm => h _ (by omega)
  have h16 : GET_BE32 q 16 = GET_BE32 p 16 := GET_BE32_congr fun m hm => h _ (by omega)
  simp only [deviceFlowAffinityIpv4Tuple, h 9 (by decide), h4, h6, h12, h16]
  split_ifs with hfrag hports'
  · rfl
  · have hp := hports hports'.2
    have hsrc : GET_BE16 q hl = GET_BE16 p hl := GET_BE16_congr fun m hm => hp m (by omega)
    have hdst : GET_BE16 q (hl + 2) = GET_BE16 p (hl + 2) := GET_BE16_congr fun m hm => by
      rw [Nat.add_assoc]
      exact hp (2 + m) (by omega)
    rw [hsrc, hdst]
  · rfl

theorem deviceFlowAffinityFoldIpv6Address_congr {p q : List UInt8} {a b : Nat}
    (h : ∀ m < 16, byteAt q (a + m) = byteAt p (b + m)) :
    deviceFlowAffinityFoldIpv6Address q a = deviceFlowAffinityFoldIpv6Address p b := by
  have hw : ∀ o, o + 4 ≤ 16 → GET_BE32 q (a + o) = GET_BE32 p (b + o) := fun o ho =>
    GET_BE32_congr fun m hm => by rw [Nat.add_assoc, Nat.add_assoc]; exact h _ (by omega)
  rw [deviceFlowAffinityFoldIpv6Address, deviceFlowAffinityFoldIpv6Address, ← Nat.add_zero a,
    ← Nat.add_zero b, hw 0 (by decide), hw 4 (by decide), hw 8 (by decide), hw 12 (by decide)]

/-- The IPv6 tuple reads the 40 bytes of the header, and four more when it reads the ports. -/
theorem deviceFlowAffinityIpv6Tuple_congr {p q : List UInt8} {pl : Nat}
    (h : ∀ k < 40, byteAt q k = byteAt p k)
    (hports : 4 ≤ pl → ∀ m < 4, byteAt q (40 + m) = byteAt p (40 + m))
    (hlen : 4 ≤ pl → (q.length ≥ 44 ↔ p.length ≥ 44)) :
    deviceFlowAffinityIpv6Tuple q pl = deviceFlowAffinityIpv6Tuple p pl := by
  have hfold : ∀ a, a + 16 ≤ 40 →
      deviceFlowAffinityFoldIpv6Address q a = deviceFlowAffinityFoldIpv6Address p a :=
    fun a ha => deviceFlowAffinityFoldIpv6Address_congr fun m hm => h _ (by omega)
  simp only [deviceFlowAffinityIpv6Tuple, h 6 (by decide), hfold 8 (by decide),
    hfold 24 (by decide)]
  by_cases hpl : 4 ≤ pl
  · have hp := hports hpl
    have hsrc : GET_BE16 q 40 = GET_BE16 p 40 := GET_BE16_congr fun m hm => hp m (by omega)
    have hdst : GET_BE16 q 42 = GET_BE16 p 42 := GET_BE16_congr fun m hm => by
      rw [show 42 + m = 40 + (2 + m) by omega]
      exact hp (2 + m) (by omega)
    simp only [hlen hpl, hsrc, hdst]
  · simp only [ge_iff_le, hpl, false_and, and_false, if_false]

/-- The bytes of the datagram its header declares. -/
def datagramLength (packet : List UInt8) : Nat :=
  if byteAt packet 0 >>> 4 = 4 then ipv4TotalLen packet else ipv6PayloadLen packet + 40

/-- **Bytes after the datagram never change the hash.**  A buffer that holds the same datagram,
whatever follows it, hashes as the packet does. -/
theorem deviceFlowAffinityHash_of_take {p q : List UInt8} {h : UInt64}
    (hp : deviceFlowAffinityHash p = some h)
    (hq : q.take (datagramLength p) = p.take (datagramLength p))
    (hlen : datagramLength p ≤ q.length) : deviceFlowAffinityHash q = some h := by
  have hbytes : ∀ k < datagramLength p, byteAt q k = byteAt p k := fun k hk => by
    rw [← byteAt_take hk, hq, byteAt_take hk]
  rcases deviceFlowAffinityHash_eq_some_iff.1 hp with ⟨hv, hacc, rfl⟩ | ⟨hv, hacc, rfl⟩
  · -- IPv4: everything read lies below the total length
    rw [datagramLength, if_pos hv] at hbytes hlen
    have hhl := hacc.header_ge
    have htot := hacc.header_le_total
    have h0 := hbytes 0 (by omega)
    have h2 : GET_BE16 q 2 = GET_BE16 p 2 := GET_BE16_congr fun m hm => hbytes _ (by omega)
    have hacc' := hacc.transfer h0 h2 hlen
    have hhl' := ipv4HeaderLen_congr h0
    have htot' : ipv4TotalLen q = ipv4TotalLen p := by rw [ipv4TotalLen, ipv4TotalLen, h2]
    refine deviceFlowAffinityHash_eq_some_iff.2 (.inl ⟨h0 ▸ hv, hacc', ?_⟩)
    rw [hhl', htot', deviceFlowAffinityIpv4Tuple_congr (fun k hk => hbytes k (by omega))
      fun hp4 m hm => hbytes _ (by omega)]
  · -- IPv6: the header and the payload are the datagram
    have hv' : ¬(byteAt p 0 >>> 4 = 4) := by rw [hv]; decide
    rw [datagramLength, if_neg hv'] at hbytes hlen
    have hpos := hacc.payload_pos
    have hle := hacc.payload_le
    have h0 := hbytes 0 (by omega)
    have h4 : GET_BE16 q 4 = GET_BE16 p 4 := GET_BE16_congr fun m hm => hbytes _ (by omega)
    have hpl : ipv6PayloadLen q = ipv6PayloadLen p := by
      rw [ipv6PayloadLen, ipv6PayloadLen, h4]
    refine deviceFlowAffinityHash_eq_some_iff.2 (.inr ⟨h0 ▸ hv, hacc.transfer h4 hlen, ?_⟩)
    rw [hpl, deviceFlowAffinityIpv6Tuple_congr (fun k hk => hbytes k (by omega))
      (fun hp4 m hm => hbytes _ (by omega)) fun hp4 => by omega]

/-! ## The hash is symmetric -/

@[simp] theorem length_swapEndpoints (p : List UInt8) : (swapEndpoints p).length = p.length := by
  unfold swapEndpoints
  split_ifs <;> simp

theorem swapEndpoints_of_ipv4 {p : List UInt8} (hv : byteAt p 0 >>> 4 = 4) :
    swapEndpoints p =
      if byteAt p 9 = 6 ∨ byteAt p 9 = 17 ∨ byteAt p 9 = 132 then
        swapBytes (swapBytes p 12 16 4) (ipv4HeaderLen p) (ipv4HeaderLen p + 2) 2
      else swapBytes p 12 16 4 := by
  rw [swapEndpoints, if_pos hv]
  rfl

theorem swapEndpoints_of_ipv6 {p : List UInt8} (hv : ¬(byteAt p 0 >>> 4 = 4)) :
    swapEndpoints p =
      if byteAt p 6 = 6 ∨ byteAt p 6 = 17 ∨ byteAt p 6 = 132 then
        swapBytes (swapBytes p 8 24 16) 40 42 2
      else swapBytes p 8 24 16 := by
  rw [swapEndpoints, if_neg hv]

/-- The ports are exchanged behind the header, so the header reads the addresses exchanged. -/
theorem byteAt_swapEndpoints_of_ipv4 {p : List UInt8} (hv : byteAt p 0 >>> 4 = 4)
    {k : Nat} (hk : k < ipv4HeaderLen p) :
    byteAt (swapEndpoints p) k = byteAt (swapBytes p 12 16 4) k := by
  rw [swapEndpoints_of_ipv4 hv]
  split_ifs
  · exact byteAt_swapBytes_of_not_mem (by omega) (by omega)
  · rfl

/-- **The IPv4 tuple of the packet seen the other way is the tuple exchanged.** -/
theorem deviceFlowAffinityIpv4Tuple_swapEndpoints {p : List UInt8} (hv : byteAt p 0 >>> 4 = 4)
    (hacc : Ipv4Accepted p) :
    deviceFlowAffinityIpv4Tuple (swapEndpoints p) (ipv4HeaderLen p) (ipv4TotalLen p) =
      (deviceFlowAffinityIpv4Tuple p (ipv4HeaderLen p) (ipv4TotalLen p)).swap := by
  have hhl := hacc.header_ge
  have htot := hacc.header_le_total
  have hlen := hacc.total_le
  -- below the header only the addresses move
  have hhead : ∀ k < 20, byteAt (swapEndpoints p) k = byteAt (swapBytes p 12 16 4) k :=
    fun k hk => byteAt_swapEndpoints_of_ipv4 hv (by omega)
  have hfix : ∀ k < 12, byteAt (swapEndpoints p) k = byteAt p k := fun k hk =>
    (hhead k (by omega)).trans (byteAt_swapBytes_of_not_mem (by omega) (by omega))
  have h4 : GET_BE16 (swapEndpoints p) 4 = GET_BE16 p 4 :=
    GET_BE16_congr fun m hm => hfix _ (by omega)
  have h6 : GET_BE16 (swapEndpoints p) 6 = GET_BE16 p 6 :=
    GET_BE16_congr fun m hm => hfix _ (by omega)
  have h12 : GET_BE32 (swapEndpoints p) 12 = GET_BE32 p 16 := GET_BE32_congr fun m hm =>
    (hhead _ (by omega)).trans (byteAt_swapBytes_left hm (by omega) (by omega))
  have h16 : GET_BE32 (swapEndpoints p) 16 = GET_BE32 p 12 := GET_BE32_congr fun m hm =>
    (hhead _ (by omega)).trans (byteAt_swapBytes_right hm (by omega) (by omega))
  simp only [deviceFlowAffinityIpv4Tuple, hfix 9 (by decide), h4, h6, h12, h16]
  split_ifs with hfrag hports
  · rfl
  · -- the ports are read, so the packet holds them, and they were exchanged
    have hports' : byteAt p 9 = 6 ∨ byteAt p 9 = 17 ∨ byteAt p 9 = 132 := hports.1
    have hq : swapEndpoints p =
        swapBytes (swapBytes p 12 16 4) (ipv4HeaderLen p) (ipv4HeaderLen p + 2) 2 := by
      rw [swapEndpoints_of_ipv4 hv, if_pos hports']
    -- the inner exchange of the addresses leaves the ports alone
    have hinner : ∀ k, ipv4HeaderLen p ≤ k → byteAt (swapBytes p 12 16 4) k = byteAt p k :=
      fun k hk => byteAt_swapBytes_of_not_mem (by omega) (by omega)
    have hsrc : GET_BE16 (swapEndpoints p) (ipv4HeaderLen p) =
        GET_BE16 p (ipv4HeaderLen p + 2) := GET_BE16_congr fun m hm => by
      rw [hq, byteAt_swapBytes_left hm (by omega) (by simp; omega), hinner _ (by omega)]
    have hdst : GET_BE16 (swapEndpoints p) (ipv4HeaderLen p + 2) =
        GET_BE16 p (ipv4HeaderLen p) := GET_BE16_congr fun m hm => by
      rw [hq, byteAt_swapBytes_right hm (by omega) (by simp; omega), hinner _ (by omega)]
    rw [hsrc, hdst]
    rfl
  · rfl

/-- **The IPv6 tuple of the packet seen the other way is the tuple exchanged.** -/
theorem deviceFlowAffinityIpv6Tuple_swapEndpoints {p : List UInt8} (hv : ¬(byteAt p 0 >>> 4 = 4))
    (hacc : Ipv6Accepted p) :
    deviceFlowAffinityIpv6Tuple (swapEndpoints p) (ipv6PayloadLen p) =
      (deviceFlowAffinityIpv6Tuple p (ipv6PayloadLen p)).swap := by
  have hlen := hacc.payload_le
  -- in the header only the addresses move
  have hhead : ∀ k < 40, byteAt (swapEndpoints p) k = byteAt (swapBytes p 8 24 16) k := by
    intro k hk
    rw [swapEndpoints_of_ipv6 hv]
    split_ifs
    · exact byteAt_swapBytes_of_not_mem (by omega) (by omega)
    · rfl
  have hsrc : deviceFlowAffinityFoldIpv6Address (swapEndpoints p) 8 =
      deviceFlowAffinityFoldIpv6Address p 24 := deviceFlowAffinityFoldIpv6Address_congr
    fun m hm => (hhead _ (by omega)).trans (byteAt_swapBytes_left hm (by omega) (by omega))
  have hdst : deviceFlowAffinityFoldIpv6Address (swapEndpoints p) 24 =
      deviceFlowAffinityFoldIpv6Address p 8 := deviceFlowAffinityFoldIpv6Address_congr
    fun m hm => (hhead _ (by omega)).trans (byteAt_swapBytes_right hm (by omega) (by omega))
  have h6 : byteAt (swapEndpoints p) 6 = byteAt p 6 :=
    (hhead 6 (by decide)).trans (byteAt_swapBytes_of_not_mem (by omega) (by omega))
  simp only [deviceFlowAffinityIpv6Tuple, h6, hsrc, hdst, length_swapEndpoints]
  split_ifs with hports
  · -- TCP or UDP with the ports in the buffer: they were exchanged
    have hq : swapEndpoints p = swapBytes (swapBytes p 8 24 16) 40 42 2 := by
      rw [swapEndpoints_of_ipv6 hv, if_pos (by tauto)]
    have hinner : ∀ k, 40 ≤ k → byteAt (swapBytes p 8 24 16) k = byteAt p k :=
      fun k hk => byteAt_swapBytes_of_not_mem (by omega) (by omega)
    have hsp : GET_BE16 (swapEndpoints p) 40 = GET_BE16 p 42 := GET_BE16_congr fun m hm => by
      rw [hq, byteAt_swapBytes_left hm (by omega) (by simp; omega), hinner _ (by omega)]
    have hdp : GET_BE16 (swapEndpoints p) 42 = GET_BE16 p 40 := GET_BE16_congr fun m hm => by
      rw [hq, byteAt_swapBytes_right hm (by omega) (by simp; omega), hinner _ (by omega)]
    rw [hsp, hdp]
    rfl
  · rfl

/-- **A packet and the packet seen the other way hash alike**: exchanging the source and the
destination (the addresses, and the ports of TCP, UDP and SCTP) keeps the packet accepted and its
hash unchanged. -/
theorem deviceFlowAffinityHash_swapEndpoints {p : List UInt8} {h : UInt64}
    (hp : deviceFlowAffinityHash p = some h) : deviceFlowAffinityHash (swapEndpoints p) = some h := by
  rcases deviceFlowAffinityHash_eq_some_iff.1 hp with ⟨hv, hacc, rfl⟩ | ⟨hv, hacc, rfl⟩
  · have hhl := hacc.header_ge
    have hfix : ∀ k < 12, byteAt (swapEndpoints p) k = byteAt p k := fun k hk =>
      (byteAt_swapEndpoints_of_ipv4 hv (by omega)).trans
        (byteAt_swapBytes_of_not_mem (by omega) (by omega))
    have h0 := hfix 0 (by decide)
    have h2 : GET_BE16 (swapEndpoints p) 2 = GET_BE16 p 2 :=
      GET_BE16_congr fun m hm => hfix _ (by omega)
    have hacc' := hacc.transfer h0 h2 (by simpa using hacc.total_le)
    have hhl' := ipv4HeaderLen_congr h0
    have htot' : ipv4TotalLen (swapEndpoints p) = ipv4TotalLen p := by
      rw [ipv4TotalLen, ipv4TotalLen, h2]
    refine deviceFlowAffinityHash_eq_some_iff.2 (.inl ⟨h0 ▸ hv, hacc', ?_⟩)
    rw [hhl', htot', deviceFlowAffinityIpv4Tuple_swapEndpoints hv hacc,
      DeviceFlowAffinityTuple.hash_swap]
  · have hv' : ¬(byteAt p 0 >>> 4 = 4) := by rw [hv]; decide
    have hfix : ∀ k < 8, byteAt (swapEndpoints p) k = byteAt p k := by
      intro k hk
      rw [swapEndpoints_of_ipv6 hv']
      split_ifs
      · rw [byteAt_swapBytes_of_not_mem (by omega) (by omega),
          byteAt_swapBytes_of_not_mem (by omega) (by omega)]
      · exact byteAt_swapBytes_of_not_mem (by omega) (by omega)
    have h0 := hfix 0 (by decide)
    have h4 : GET_BE16 (swapEndpoints p) 4 = GET_BE16 p 4 :=
      GET_BE16_congr fun m hm => hfix _ (by omega)
    have hpl : ipv6PayloadLen (swapEndpoints p) = ipv6PayloadLen p := by
      rw [ipv6PayloadLen, ipv6PayloadLen, h4]
    refine deviceFlowAffinityHash_eq_some_iff.2
      (.inr ⟨h0 ▸ hv, hacc.transfer h4 (by simpa using hacc.payload_le), ?_⟩)
    rw [hpl, deviceFlowAffinityIpv6Tuple_swapEndpoints hv' hacc,
      DeviceFlowAffinityTuple.hash_swap]

/-! ## Fragments -/

/-- An IPv4 fragment: the more-fragments bit or a non-zero offset. -/
def IsIpv4Fragment (packet : List UInt8) : Prop :=
  byteAt packet 0 >>> 4 = 4 ∧
    GET_BE16 packet 6 &&& (kDeviceFlowAffinityIpv4MoreFragments ||| kDeviceFlowAffinityIpv4OffsetMask) ≠ 0

/-- **A fragment is hashed by its datagram**: its source, destination, protocol and
identification, whatever its offset and payload. -/
theorem deviceFlowAffinityHash_ipv4Fragment {p : List UInt8} {h : UInt64}
    (hp : deviceFlowAffinityHash p = some h) (hf : IsIpv4Fragment p) :
    h = deviceFlowAffinityMixTuple (GET_BE32 p 12) 0 (GET_BE32 p 16) 0 (byteAt p 9)
      (0x10000 ||| (GET_BE16 p 4).toUInt32) := by
  rcases deviceFlowAffinityHash_eq_some_iff.1 hp with ⟨-, -, rfl⟩ | ⟨hv, -, -⟩
  · simp only [deviceFlowAffinityIpv4Tuple]
    rw [if_pos hf.2]
    rfl
  · have := hf.1
    rw [hv] at this
    exact absurd this (by decide)

/-! ## The worker of a packet -/

/-- `getNextDistributionWID`: the round-robin counter `distribute_wid`, read and incremented,
and reset to 1 (the id handed out being 0) once it reaches the worker count. -/
def getNextDistributionWID (workers distribute_wid : UInt8) : UInt8 × UInt8 :=
  let wid := distribute_wid
  if wid ≥ workers then (0, 1) else (wid, distribute_wid + 1)

/-- `deviceFlowAffineWID`: the worker of an accepted packet, its hash modulo the worker count. -/
def deviceFlowAffineWID (workers : UInt8) (packet : List UInt8) : Option UInt8 :=
  (deviceFlowAffinityHash packet).map fun hash => (hash % workers.toUInt64).toUInt8

/-- `deviceFlowAffinitySelectWID`: the packet's own worker, or the next round-robin one for a
packet the hash refuses.  The counter is the state it passes on. -/
def deviceFlowAffinitySelectWID (workers distribute_wid : UInt8) (buf : List UInt8) :
    UInt8 × UInt8 :=
  match deviceFlowAffineWID workers buf with
  | some target_wid => (target_wid, distribute_wid)
  | none => getNextDistributionWID workers distribute_wid

/-- Both directions of a flow go to one worker. -/
theorem deviceFlowAffineWID_swapEndpoints (workers : UInt8) {p : List UInt8}
    (hp : (deviceFlowAffinityHash p).isSome) :
    deviceFlowAffineWID workers (swapEndpoints p) = deviceFlowAffineWID workers p := by
  obtain ⟨h, hh⟩ := Option.isSome_iff_exists.1 hp
  rw [deviceFlowAffineWID, deviceFlowAffineWID, hh, deviceFlowAffinityHash_swapEndpoints hh]

end FlowAffinity
end WaterWall
