import WaterWall.WireGuard.Receive
import WaterWall.Order.FirstMax
import WaterWall.Bits.Ones

/-!
# Cryptokey routing: the allowed IPs of the peers

Each peer of a WireGuard device has up to `WIREGUARD_MAX_SRC_IPS` allowed prefixes, an address
and a mask each, which `peerAddIp` fills.  They are read two ways.

* Outbound, `wireguarddevicePeerLookupByAllowedIp` picks the peer a packet for an address goes
  to: over the valid peers and their slots in order, the matching slot with the most mask bits,
  the first such on a tie.
* Inbound, `wireguardifProcessDataMessage` forwards a decrypted packet only if its source passes
  `wireguarddeviceCheckPeerAllowedIp` for the peer that sent it: some slot of *that* peer
  matches.  Nothing compares one peer's prefixes with another's, so they may overlap.

* `wireguarddevicePeerLookupByAllowedIp_eq_some_iff`, `_eq_none_iff`: the lookup returns the valid
  peer owning the matching prefix of the most mask bits, the lowest-indexed on a tie, and nothing
  when no valid peer has a matching prefix.
* `wireguarddeviceCheckPeerAllowedIp_of_lookup`: the peer the lookup returns passes the inbound
  check; `wireguarddevicePeerLookupByAllowedIp_of_check`: when no two valid peers match the same
  address, only that peer does.
* `wireguardifNetworkRx_overlapForwarded`: with overlapping prefixes the two differ.  A peer
  allowed `10.0.0.0/8` has a packet from `10.1.2.3` forwarded although the lookup sends that
  address to the peer allowed `10.1.0.0/16`.
-/

set_option autoImplicit false

namespace WaterWall
namespace WireGuard

open FirstMax

/-! ## The model -/

/-- `wireguard_allowed_ip_t`. -/
structure AllowedIp where
  valid : Bool
  ip : IpAddr
  mask : IpAddr
deriving DecidableEq, Repr

/-- The fields of `wireguard_peer_s` the allowed-IP functions read: `valid`, and the slots of
`allowed_source_ips`. -/
structure PeerRoutes where
  valid : Bool
  allowed_source_ips : List AllowedIp
deriving DecidableEq, Repr

/-- The bytes of an `ip_addr_t`, in network order. -/
def IpAddr.bytes : IpAddr → List UInt8
  | .v4 addr => addr
  | .v6 addr => addr

/-- `ip4AddrNetcmp` over the first 4 bytes, `ip6AddrNetcmp` over 16: the two addresses agree on
every bit the mask sets.  The source compares 32-bit words, which agree under their mask exactly
when each of their bytes does. -/
def addrNetcmp (n : Nat) (addr net mask : List UInt8) : Bool :=
  (List.range n).all fun i => addr.getD i 0 &&& mask.getD i 0 == net.getD i 0 &&& mask.getD i 0

/-- `wireguarddeviceAllowedIpMatches`, for an address that is there. -/
def wireguarddeviceAllowedIpMatches (allowed : AllowedIp) (ipaddr : IpAddr) : Bool :=
  if !allowed.valid then false
  else
    match ipaddr, allowed.ip with
    | .v4 addr, .v4 net => addrNetcmp 4 addr net allowed.mask.bytes
    | .v6 addr, .v6 net => addrNetcmp 16 addr net allowed.mask.bytes
    | _, _ => false

/-- At most `fuel` rounds of the loop of `wireguarddeviceCountMaskBits32`. -/
def countMaskBitsLoop : Nat → UInt32 → Nat
  | 0, _ => 0
  | fuel + 1, value => if value = 0 then 0 else countMaskBitsLoop fuel (value &&& (value - 1)) + 1

/-- `wireguarddeviceCountMaskBits32`.  A round clears the lowest one bit, so 32 rounds always
finish the loop (`countMaskBitsLoop_eq`). -/
def wireguarddeviceCountMaskBits32 (value : UInt32) : Nat := countMaskBitsLoop 32 value

/-- Word `i` of an address, as the host reads it from memory. -/
def addrWord (bytes : List UInt8) (i : Nat) : UInt32 :=
  UInt32.ofNat (littleEndian ((bytes.drop (4 * i)).take 4))

/-- `wireguarddeviceAllowedIpPrefixBits`: the one bits of the mask's word, or of its four. -/
def wireguarddeviceAllowedIpPrefixBits (allowed : AllowedIp) : Nat :=
  if !allowed.valid then 0
  else
    match allowed.mask with
    | .v4 mask => wireguarddeviceCountMaskBits32 (addrWord mask 0)
    | .v6 mask => ((List.range 4).map fun i => wireguarddeviceCountMaskBits32 (addrWord mask i)).sum

/-- A round of the inner loop of `wireguarddevicePeerLookupByAllowedIp`, at peer `x`: a matching
slot makes `x` the result when there is none yet or its prefix is strictly longer. -/
def lookupAllowedIp (ipaddr : IpAddr) (x : Nat) (acc : Option Nat × Nat) (allowed : AllowedIp) :
    Option Nat × Nat :=
  if !wireguarddeviceAllowedIpMatches allowed ipaddr then acc
  else
    let prefix_bits := wireguarddeviceAllowedIpPrefixBits allowed
    if acc.1 = none ∨ prefix_bits > acc.2 then (some x, prefix_bits) else acc

/-- The outer loop of `wireguarddevicePeerLookupByAllowedIp` from peer `x` on, with the result
and `best_prefix` so far. -/
def lookupPeers (ipaddr : IpAddr) :
    List PeerRoutes → Nat → Option Nat × Nat → Option Nat × Nat
  | [], _, acc => acc
  | peer :: peers, x, acc =>
    let acc :=
      if !peer.valid then acc else peer.allowed_source_ips.foldl (lookupAllowedIp ipaddr x) acc
    lookupPeers ipaddr peers (x + 1) acc

/-- `wireguarddevicePeerLookupByAllowedIp`: the index in `device->peers` of the peer found. -/
def wireguarddevicePeerLookupByAllowedIp (peers : List PeerRoutes) (ipaddr : IpAddr) :
    Option Nat :=
  (lookupPeers ipaddr peers 0 (none, 0)).1

/-- `wireguarddeviceCheckPeerAllowedIp`: some slot of the peer matches. -/
def wireguarddeviceCheckPeerAllowedIp (peer : PeerRoutes) (ipaddr : IpAddr) : Bool :=
  peer.allowed_source_ips.any fun allowed => wireguarddeviceAllowedIpMatches allowed ipaddr

/-- `peerAddIp`: a slot that already holds the prefix is kept, else the first free slot takes
it; `false` when every slot is taken. -/
def peerAddIp (peer : PeerRoutes) (ip mask : IpAddr) : PeerRoutes × Bool :=
  if peer.allowed_source_ips.any fun allowed =>
      allowed.valid && allowed.ip == ip && allowed.mask == mask then (peer, true)
  else
    match peer.allowed_source_ips.findIdx? fun allowed => !allowed.valid with
    | some x =>
      ({ peer with allowed_source_ips := peer.allowed_source_ips.set x ⟨true, ip, mask⟩ }, true)
    | none => (peer, false)

/-! ## Counting the mask bits -/

theorem countMaskBitsLoop_eq {fuel : Nat} {value : UInt32}
    (h : value.toNat.bitIndices.length ≤ fuel) :
    countMaskBitsLoop fuel value = value.toNat.bitIndices.length := by
  induction fuel generalizing value with
  | zero => simp_all [countMaskBitsLoop]
  | succ fuel ih =>
    rw [countMaskBitsLoop]
    split
    · simp_all
    · rename_i hv
      -- a round takes away the lowest one bit
      have hpos : value.toNat ≠ 0 := fun h0 => hv (UInt32.toNat_inj.1 h0)
      have hand : (value &&& (value - 1)).toNat = value.toNat &&& (value.toNat - 1) := by
        rw [UInt32.toNat_and,
          UInt32.toNat_sub_of_le _ _ (UInt32.le_iff_toNat_le.2 (by simp; omega))]
        rfl
      have hcount := Ones.length_bitIndices_land_pred hpos
      rw [ih (by rw [hand]; omega), hand]
      omega

/-- `wireguarddeviceCountMaskBits32` counts the one bits of its word. -/
theorem wireguarddeviceCountMaskBits32_eq (value : UInt32) :
    wireguarddeviceCountMaskBits32 value = value.toNat.bitIndices.length :=
  countMaskBitsLoop_eq (Ones.length_bitIndices_le value.toNat_lt)

/-! ## The lookup as a first maximum -/

/-- The slots of peer `x` that match `ipaddr`, with their prefix bits, when the peer is valid. -/
def peerCandidates (ipaddr : IpAddr) (x : Nat) (peer : PeerRoutes) : List (Nat × Nat) :=
  if peer.valid then
    (peer.allowed_source_ips.filter fun allowed => wireguarddeviceAllowedIpMatches allowed ipaddr).map
      fun allowed => (x, wireguarddeviceAllowedIpPrefixBits allowed)
  else []

/-- The candidates of the peers from `x` on, in the order the loops visit them. -/
def routeCandidates (ipaddr : IpAddr) : List PeerRoutes → Nat → List (Nat × Nat)
  | [], _ => []
  | peer :: peers, x => peerCandidates ipaddr x peer ++ routeCandidates ipaddr peers (x + 1)

/-- Peer `x` of the device is valid and has a slot matching `ipaddr` whose mask has `w` bits. -/
def OwnsPrefix (peers : List PeerRoutes) (ipaddr : IpAddr) (x w : Nat) : Prop :=
  ∃ peer, peers[x]? = some peer ∧ peer.valid = true ∧
    ∃ allowed ∈ peer.allowed_source_ips, wireguarddeviceAllowedIpMatches allowed ipaddr = true ∧
      wireguarddeviceAllowedIpPrefixBits allowed = w

theorem lookupAllowedIp_eq (ipaddr : IpAddr) (x : Nat) (acc : Option Nat × Nat)
    (allowed : AllowedIp) :
    lookupAllowedIp ipaddr x acc allowed =
      if wireguarddeviceAllowedIpMatches allowed ipaddr then
        bestStep acc (x, wireguarddeviceAllowedIpPrefixBits allowed)
      else acc := by
  unfold lookupAllowedIp bestStep
  cases wireguarddeviceAllowedIpMatches allowed ipaddr <;> rfl

theorem foldl_lookupAllowedIp (ipaddr : IpAddr) (x : Nat) (slots : List AllowedIp)
    (acc : Option Nat × Nat) :
    slots.foldl (lookupAllowedIp ipaddr x) acc =
      ((slots.filter fun allowed => wireguarddeviceAllowedIpMatches allowed ipaddr).map
        fun allowed => (x, wireguarddeviceAllowedIpPrefixBits allowed)).foldl bestStep acc := by
  induction slots generalizing acc with
  | nil => rfl
  | cons allowed slots ih =>
    rw [List.foldl_cons, lookupAllowedIp_eq, List.filter_cons]
    split <;> simp [ih]

theorem lookupPeers_eq (ipaddr : IpAddr) (peers : List PeerRoutes) (x : Nat)
    (acc : Option Nat × Nat) :
    lookupPeers ipaddr peers x acc = (routeCandidates ipaddr peers x).foldl bestStep acc := by
  induction peers generalizing x acc with
  | nil => rfl
  | cons peer peers ih =>
    rw [lookupPeers, routeCandidates, List.foldl_append, ih, peerCandidates]
    cases peer.valid <;> simp [foldl_lookupAllowedIp]

/-- **The lookup is `argmax` of the prefix bits over the candidates.** -/
theorem wireguarddevicePeerLookupByAllowedIp_eq_argmax (peers : List PeerRoutes) (ipaddr : IpAddr) :
    wireguarddevicePeerLookupByAllowedIp peers ipaddr =
      ((routeCandidates ipaddr peers 0).argmax Prod.snd).map Prod.fst := by
  rw [wireguarddevicePeerLookupByAllowedIp, lookupPeers_eq, foldl_bestStep]

theorem mem_peerCandidates {ipaddr : IpAddr} {x : Nat} {peer : PeerRoutes} {c : Nat × Nat} :
    c ∈ peerCandidates ipaddr x peer ↔ c.1 = x ∧ peer.valid = true ∧
      ∃ allowed ∈ peer.allowed_source_ips, wireguarddeviceAllowedIpMatches allowed ipaddr = true ∧
        wireguarddeviceAllowedIpPrefixBits allowed = c.2 := by
  unfold peerCandidates
  split
  · rename_i hv
    obtain ⟨y, w⟩ := c
    simp only [List.mem_map, List.mem_filter, Prod.mk.injEq, hv, true_and]
    constructor
    · rintro ⟨allowed, ⟨hmem, hm⟩, rfl, rfl⟩
      exact ⟨rfl, allowed, hmem, hm, rfl⟩
    · rintro ⟨rfl, allowed, hmem, hm, rfl⟩
      exact ⟨allowed, ⟨hmem, hm⟩, rfl, rfl⟩
  · simp_all

theorem le_fst_of_mem_routeCandidates {ipaddr : IpAddr} {peers : List PeerRoutes} {x : Nat}
    {c : Nat × Nat} (hc : c ∈ routeCandidates ipaddr peers x) : x ≤ c.1 := by
  induction peers generalizing x with
  | nil => simp [routeCandidates] at hc
  | cons peer peers ih =>
    rw [routeCandidates, List.mem_append] at hc
    rcases hc with hc | hc
    · exact (mem_peerCandidates.1 hc).1.ge
    · exact Nat.le_of_succ_le (ih hc)

theorem routeCandidates_sorted (ipaddr : IpAddr) (peers : List PeerRoutes) (x : Nat) :
    (routeCandidates ipaddr peers x).Pairwise fun a b => a.1 ≤ b.1 := by
  induction peers generalizing x with
  | nil => exact List.Pairwise.nil
  | cons peer peers ih =>
    rw [routeCandidates, List.pairwise_append]
    refine ⟨?_, ih (x + 1), fun a ha b hb => ?_⟩
    · -- the candidates of one peer all carry its index
      refine List.pairwise_of_forall_mem_list fun a ha b hb => ?_
      rw [(mem_peerCandidates.1 ha).1, (mem_peerCandidates.1 hb).1]
    · rw [(mem_peerCandidates.1 ha).1]
      exact Nat.le_of_succ_le (le_fst_of_mem_routeCandidates hb)

theorem mem_routeCandidates {ipaddr : IpAddr} {peers : List PeerRoutes} {x y w : Nat} :
    (y, w) ∈ routeCandidates ipaddr peers x ↔ x ≤ y ∧ OwnsPrefix peers ipaddr (y - x) w := by
  induction peers generalizing x with
  | nil => simp [routeCandidates, OwnsPrefix]
  | cons peer peers ih =>
    rw [routeCandidates, List.mem_append, ih, mem_peerCandidates]
    constructor
    · rintro (⟨hx, hv, h⟩ | ⟨hle, hown⟩)
      · -- a slot of the head peer, which is peer `x`
        dsimp only at hx h
        subst hx
        exact ⟨le_rfl, peer, by simp, hv, h⟩
      · refine ⟨by omega, ?_⟩
        rw [show y - x = y - (x + 1) + 1 by omega]
        simpa [OwnsPrefix] using hown
    · rintro ⟨hle, owner, howner, hv, h⟩
      rcases Nat.eq_or_lt_of_le hle with rfl | hlt
      · simp only [Nat.sub_self, List.getElem?_cons_zero, Option.some.injEq] at howner
        subst howner
        exact Or.inl ⟨rfl, hv, h⟩
      · rw [show y - x = y - (x + 1) + 1 by omega, List.getElem?_cons_succ] at howner
        exact Or.inr ⟨hlt, owner, howner, hv, h⟩

theorem mem_routeCandidates_zero {ipaddr : IpAddr} {peers : List PeerRoutes} {y w : Nat} :
    (y, w) ∈ routeCandidates ipaddr peers 0 ↔ OwnsPrefix peers ipaddr y w := by
  simp [mem_routeCandidates]

/-- **Outbound routing is a longest-prefix match.**  The lookup returns peer `x` exactly when `x`
owns a matching prefix of `w` mask bits, no valid peer owns a matching prefix of more, and no
valid peer below `x` owns one of `w`. -/
theorem wireguarddevicePeerLookupByAllowedIp_eq_some_iff (peers : List PeerRoutes)
    (ipaddr : IpAddr) (x : Nat) :
    wireguarddevicePeerLookupByAllowedIp peers ipaddr = some x ↔
      ∃ w, OwnsPrefix peers ipaddr x w ∧ (∀ y v, OwnsPrefix peers ipaddr y v → v ≤ w) ∧
        ∀ y, OwnsPrefix peers ipaddr y w → x ≤ y := by
  rw [wireguarddevicePeerLookupByAllowedIp_eq_argmax,
    map_fst_argmax_eq_some_iff (routeCandidates_sorted ipaddr peers 0)]
  simp only [Prod.forall, mem_routeCandidates_zero]
  refine exists_congr fun w => and_congr_right fun _ => and_congr_right fun _ => ?_
  -- a tie is a matching prefix of exactly `w` bits
  exact ⟨fun h y hy => h y w hy rfl, fun h a b hb hbw => h a (hbw ▸ hb)⟩

theorem wireguarddevicePeerLookupByAllowedIp_eq_none_iff (peers : List PeerRoutes)
    (ipaddr : IpAddr) :
    wireguarddevicePeerLookupByAllowedIp peers ipaddr = none ↔
      ∀ x w, ¬OwnsPrefix peers ipaddr x w := by
  rw [wireguarddevicePeerLookupByAllowedIp_eq_argmax, Option.map_eq_none_iff, List.argmax_eq_none,
    List.eq_nil_iff_forall_not_mem]
  simp only [Prod.forall, mem_routeCandidates_zero]

/-! ## Outbound routing and the inbound check -/

theorem ownsPrefix_of_check {peers : List PeerRoutes} {ipaddr : IpAddr} {x : Nat}
    {peer : PeerRoutes} (hpeer : peers[x]? = some peer) (hvalid : peer.valid = true)
    (hcheck : wireguarddeviceCheckPeerAllowedIp peer ipaddr = true) :
    ∃ w, OwnsPrefix peers ipaddr x w := by
  obtain ⟨allowed, hmem, hm⟩ := List.any_eq_true.1 hcheck
  exact ⟨_, peer, hpeer, hvalid, allowed, hmem, hm, rfl⟩

/-- The peer outbound routing picks for an address passes the inbound check for it. -/
theorem wireguarddeviceCheckPeerAllowedIp_of_lookup {peers : List PeerRoutes} {ipaddr : IpAddr}
    {x : Nat} (h : wireguarddevicePeerLookupByAllowedIp peers ipaddr = some x) :
    ∃ peer, peers[x]? = some peer ∧ peer.valid = true ∧
      wireguarddeviceCheckPeerAllowedIp peer ipaddr = true := by
  obtain ⟨w, ⟨peer, hpeer, hvalid, allowed, hmem, hm, -⟩, -⟩ :=
    (wireguarddevicePeerLookupByAllowedIp_eq_some_iff peers ipaddr x).1 h
  exact ⟨peer, hpeer, hvalid, List.any_eq_true.2 ⟨allowed, hmem, hm⟩⟩

/-- **Without overlap the two agree.**  When no two valid peers have slots matching the same
address, a valid peer that passes the inbound check for it is the one outbound routing picks. -/
theorem wireguarddevicePeerLookupByAllowedIp_of_check {peers : List PeerRoutes} {ipaddr : IpAddr}
    (hdisjoint : ∀ x y w v, OwnsPrefix peers ipaddr x w → OwnsPrefix peers ipaddr y v → x = y)
    {x : Nat} {peer : PeerRoutes} (hpeer : peers[x]? = some peer) (hvalid : peer.valid = true)
    (hcheck : wireguarddeviceCheckPeerAllowedIp peer ipaddr = true) :
    wireguarddevicePeerLookupByAllowedIp peers ipaddr = some x := by
  obtain ⟨w, hown⟩ := ownsPrefix_of_check hpeer hvalid hcheck
  -- the lookup finds some owner, and the only owner is `x`
  cases h : wireguarddevicePeerLookupByAllowedIp peers ipaddr with
  | none =>
    exact absurd hown ((wireguarddevicePeerLookupByAllowedIp_eq_none_iff peers ipaddr).1 h x w)
  | some y =>
    obtain ⟨v, hy, -⟩ := (wireguarddevicePeerLookupByAllowedIp_eq_some_iff peers ipaddr y).1 h
    rw [hdisjoint y x v w hy hown]

/-- What `peerAddIp` adds: after a successful call the peer's slots match what they matched
before and the new prefix. -/
theorem wireguarddeviceCheckPeerAllowedIp_peerAddIp {peer peer' : PeerRoutes} {ip mask : IpAddr}
    (h : peerAddIp peer ip mask = (peer', true)) (ipaddr : IpAddr) :
    wireguarddeviceCheckPeerAllowedIp peer' ipaddr =
      (wireguarddeviceCheckPeerAllowedIp peer ipaddr ||
        wireguarddeviceAllowedIpMatches ⟨true, ip, mask⟩ ipaddr) := by
  unfold peerAddIp at h
  split at h
  · -- the prefix is already there
    rename_i hthere
    cases h
    obtain ⟨allowed, hmem, hsame⟩ := List.any_eq_true.1 hthere
    simp only [Bool.and_eq_true, beq_iff_eq] at hsame
    obtain ⟨⟨hv, rfl⟩, rfl⟩ := hsame
    have hallowed : allowed = ⟨true, allowed.ip, allowed.mask⟩ := by
      cases allowed
      simp_all
    cases hm : wireguarddeviceAllowedIpMatches ⟨true, allowed.ip, allowed.mask⟩ ipaddr
    · simp
    · rw [Bool.or_true]
      exact List.any_eq_true.2 ⟨allowed, hmem, hallowed ▸ hm⟩
  · split at h
    · -- the first free slot `x` takes it; what was there matched nothing
      rename_i x hx
      cases h
      obtain ⟨hlt, hfree, -⟩ := List.findIdx?_eq_some_iff_getElem.1 hx
      have hnone : wireguarddeviceAllowedIpMatches peer.allowed_source_ips[x] ipaddr = false := by
        simp only [Bool.not_eq_eq_eq_not, Bool.not_true] at hfree
        simp [wireguarddeviceAllowedIpMatches, hfree]
      conv_rhs => rw [wireguarddeviceCheckPeerAllowedIp,
        ← List.take_append_drop x peer.allowed_source_ips, List.drop_eq_getElem_cons hlt]
      rw [wireguarddeviceCheckPeerAllowedIp, List.set_eq_take_append_cons_drop, if_pos hlt]
      simp only [List.any_append, List.any_cons, hnone, Bool.false_or]
      cases wireguarddeviceAllowedIpMatches ⟨true, ip, mask⟩ ipaddr <;> simp
    · cases h

/-! ## Overlapping prefixes -/

/-- A peer allowed `10.0.0.0/8`. -/
def routesWide : PeerRoutes := ⟨true, [⟨true, .v4 [10, 0, 0, 0], .v4 [255, 0, 0, 0]⟩]⟩

/-- A peer allowed `10.1.0.0/16`. -/
def routesNarrow : PeerRoutes := ⟨true, [⟨true, .v4 [10, 1, 0, 0], .v4 [255, 255, 0, 0]⟩]⟩

/-- A second peer, like `livePeer` but with the keypair index 2. -/
def narrowPeer : Peer := { livePeer with curr_keypair := { liveKeypair with local_index := 2 } }

/-- An IPv4 packet of 20 bytes from `10.1.2.3` to `10.0.0.1`. -/
def spoofedPacket : List UInt8 :=
  [0x45, 0, 0, 20, 0, 0, 0, 0, 64, 17, 0, 0, 10, 1, 2, 3, 10, 0, 0, 1]

/-- A transport data message for index 1 with counter 0 that carries `spoofedPacket`, sealed by
`Aead.tagged` with a tag of zeros. -/
def spoofedDatagram : List UInt8 :=
  [MESSAGE_TRANSPORT_DATA, 0, 0, 0, 1, 0, 0, 0, 0, 0, 0, 0, 0, 0, 0, 0] ++ spoofedPacket ++
    List.replicate 16 0

set_option maxRecDepth 20000 in
theorem wireguardifNetworkRx_overlapForwarded :
    wireguarddevicePeerLookupByAllowedIp [routesWide, routesNarrow] (.v4 [10, 1, 2, 3]) = some 1 ∧
    ∃ device, wireguardifNetworkRx
        ⟨⟨LARGE_BUFFER_SIZE_RAM_HIGH, 0, SMALL_BUFFER_SIZE, 0⟩,
          Crypto.Aead.tagged (List.replicate 16 0), 0,
          fun peer => wireguarddeviceCheckPeerAllowedIp
            (if peer.curr_keypair.local_index = 1 then routesWide else routesNarrow)⟩
        ⟨[livePeer, narrowPeer], false⟩ spoofedDatagram (.v4 [192, 0, 2, 1]) 51820 =
      .ok (device, .data (.forwarded spoofedPacket)) :=
  ⟨by decide, _, rfl⟩

end WireGuard
end WaterWall
