import WaterWall.WireGuard.AllowedIps
import WaterWall.Order.LowerBound
import WaterWall.Bytes.BigEndian

/-!
# The Allowed-IP table of `users_t`

A user may own one WireGuard Allowed-IP range, a network and a mask.  `users_t` indexes the
ranges in an ordered map keyed by the family and the range's inclusive end, both as 16 bytes in
network order, with the range's start and the user as the value.  Configured ranges do not
overlap, so one `lower_bound` probe answers both which user's range holds an address
(`usersLookupByWireGuardAllowedIp`) and which range meets a candidate `[start, end]`
(`usersAllowedIpTableFindOverlapLocked`, skipping the caller's own old range).

The map is the list of its entries in key order, and a user is its index among the active users.
`AllowedIpTableInv` is what `users_t` keeps of the map: its entries are exactly the ranges of the
active users that have one, in key order, pairwise disjoint within a family, and built from
prefix masks.

* `usersLookupByWireGuardAllowedIp_spec`: the lookup returns the one active user whose range
  holds the address, and nothing when there is none.
* `usersAllowedIpTableFindOverlapLocked_spec`: the probe finds a user exactly when some active
  user other than the ignored one has a range of the family meeting `[start, end]`.
* `AllowedIpReach.inv`: adding a user and updating a user's range, each behind the overlap check,
  keep the invariant.
-/

set_option autoImplicit false

namespace WaterWall
namespace Users

open WireGuard BigEndian LowerBound

/-! ## The model -/

/-- `memoryCompare` of two byte arrays of one length: the first byte where they differ decides. -/
def memoryCompare : List UInt8 → List UInt8 → Ordering
  | a :: as, b :: bs => if a < b then .lt else if b < a then .gt else memoryCompare as bs
  | _, _ => .eq

/-- The fields of `user_t` the Allowed-IP table reads. -/
structure UserAllowedIp where
  wireguard_allowed_ips_valid : Bool
  wireguard_allowed_ip : IpAddr
  wireguard_allowed_mask : IpAddr
  wireguard_allowed_ip_family : UInt8
deriving DecidableEq, Repr

/-- `usersWireGuardAllowedIpContainsFields`, for fields and an address that are there. -/
def usersWireGuardAllowedIpContainsFields (valid : Bool) (network mask : IpAddr) (family : UInt8)
    (ip : IpAddr) : Bool :=
  if !valid then false
  else
    match ip with
    | .v4 addr => family = 4 && addrNetcmp 4 addr network.bytes mask.bytes
    | .v6 addr => family = 6 && addrNetcmp 16 addr network.bytes mask.bytes

def usersWireGuardAllowedIpContainsUser (user : UserAllowedIp) (ip : IpAddr) : Bool :=
  usersWireGuardAllowedIpContainsFields user.wireguard_allowed_ips_valid user.wireguard_allowed_ip
    user.wireguard_allowed_mask user.wireguard_allowed_ip_family ip

/-- The bytes of the 16 a family uses: the first 4 for IPv4, all of them for IPv6. -/
def familyLength (family : UInt8) : Nat := if family = 4 then 4 else 16

/-- `usersAllowedIpExtractBytes`: 16 bytes in network order, the address's own in front and zeros
after them. -/
def usersAllowedIpExtractBytes (addr : IpAddr) (family : UInt8) : Option (List UInt8) :=
  if family = 4 ∨ family = 6 then
    some ((List.range 16).map fun i => if i < familyLength family then addr.bytes.getD i 0 else 0)
  else none

/-- `usersAllowedIpRangeFromFields`: `start16` the network under the mask, `end16` that with the
bits outside the mask set, over the family's bytes. -/
def usersAllowedIpRangeFromFields (network mask : IpAddr) (family : UInt8) :
    Option (List UInt8 × List UInt8) :=
  if family ≠ 4 ∧ family ≠ 6 then none
  else
    let len := familyLength family
    match usersAllowedIpExtractBytes network family, usersAllowedIpExtractBytes mask family with
    | some network_bytes, some mask_bytes =>
      let start (i : Nat) := network_bytes.getD i 0 &&& mask_bytes.getD i 0
      some ((List.range 16).map (fun i => if i < len then start i else 0),
        (List.range 16).map fun i => if i < len then start i ||| ~~~(mask_bytes.getD i 0) else 0)
    | _, _ => none

/-- `users_allowed_ip_key_t`. -/
structure AllowedIpKey where
  family : UInt8
  end16 : List UInt8
deriving DecidableEq, Repr

/-- `users_allowed_ip_value_t`, the user as its index among the active users. -/
structure AllowedIpValue where
  start : List UInt8
  user : Nat
deriving DecidableEq, Repr

/-- An entry of `users_allowed_ip_map_t`. -/
abbrev AllowedIpEntry := AllowedIpKey × AllowedIpValue

/-- `usersAllowedIpEntryFromUser`, for the user at index `u`. -/
def usersAllowedIpEntryFromUser (user : UserAllowedIp) (u : Nat) : Option AllowedIpEntry :=
  if !user.wireguard_allowed_ips_valid then none
  else
    match usersAllowedIpRangeFromFields user.wireguard_allowed_ip user.wireguard_allowed_mask
        user.wireguard_allowed_ip_family with
    | some (start16, end16) => some (⟨user.wireguard_allowed_ip_family, end16⟩, ⟨start16, u⟩)
    | none => none

/-- `usersAllowedIpKeyCmp`: the family first, then the end's bytes. -/
def usersAllowedIpKeyCmp (a b : AllowedIpKey) : Ordering :=
  if a.family ≠ b.family then (if a.family < b.family then .lt else .gt)
  else memoryCompare a.end16 b.end16

/-- `users_allowed_ip_map_t_lower_bound`: the map from its first entry whose key is not below
the probe. -/
def usersAllowedIpMapLowerBound (map : List AllowedIpEntry) (probe : AllowedIpKey) :
    List AllowedIpEntry :=
  map.dropWhile fun e => usersAllowedIpKeyCmp e.1 probe == .lt

/-- `usersAllowedIpTableFindContainingLocked`: the user whose range holds `addr16`. -/
def usersAllowedIpTableFindContainingLocked (map : List AllowedIpEntry) (family : UInt8)
    (addr16 : List UInt8) : Option Nat :=
  match usersAllowedIpMapLowerBound map ⟨family, addr16⟩ with
  | [] => none
  | e :: _ =>
    if e.1.family ≠ family then none
    else if memoryCompare e.2.start addr16 ≠ .gt then some e.2.user else none

/-- `usersAllowedIpTableFindOverlapLocked`: a user other than `ignore` whose range meets
`[start16, end16]`. -/
def usersAllowedIpTableFindOverlapLocked (map : List AllowedIpEntry) (family : UInt8)
    (start16 end16 : List UInt8) (ignore : Option Nat) : Option Nat :=
  let it := usersAllowedIpMapLowerBound map ⟨family, start16⟩
  -- the caller's own old range is skipped; the next entry still ends at or after `start16`
  let it :=
    match it with
    | e :: rest => if e.1.family = family ∧ some e.2.user = ignore then rest else it
    | [] => []
  match it with
  | [] => none
  | e :: _ =>
    if e.1.family ≠ family then none
    else if memoryCompare e.2.start end16 ≠ .gt then some e.2.user else none

def usersLookupByWireGuardAllowedIp (map : List AllowedIpEntry) (ip : IpAddr) : Option Nat :=
  let family : UInt8 :=
    match ip with
    | .v4 _ => 4
    | .v6 _ => 6
  match usersAllowedIpExtractBytes ip family with
  | none => none
  | some addr16 => usersAllowedIpTableFindContainingLocked map family addr16

/-! ## Byte arrays as numbers -/

theorem memoryCompare_eq : ∀ {xs ys : List UInt8}, xs.length = ys.length →
    memoryCompare xs ys = compare (value xs) (value ys)
  | [], [], _ => rfl
  | x :: xs, y :: ys, h => by
    have hlen : xs.length = ys.length := by simpa using h
    rw [memoryCompare, compare_value_cons x y hlen, memoryCompare_eq hlen]

theorem memoryCompare_ne_gt_iff {xs ys : List UInt8} (h : xs.length = ys.length) :
    memoryCompare xs ys ≠ .gt ↔ value xs ≤ value ys := by
  rw [memoryCompare_eq h, Ne, compare_gt_iff_gt, not_lt]

/-- The family's bytes of an address. -/
def familyBytes (addr : IpAddr) (family : UInt8) : List UInt8 :=
  (List.range (familyLength family)).map (addr.bytes.getD · 0)

@[simp] theorem length_familyBytes (addr : IpAddr) (family : UInt8) :
    (familyBytes addr family).length = familyLength family := by
  simp [familyBytes]

theorem familyLength_le (family : UInt8) : familyLength family ≤ 16 := by
  unfold familyLength
  split <;> omega

theorem map_range_sixteen (family : UInt8) (f : Nat → UInt8) :
    (List.range 16).map (fun i => if i < familyLength family then f i else 0) =
      (List.range (familyLength family)).map f ++ List.replicate (16 - familyLength family) 0 := by
  have hle := familyLength_le family
  apply List.ext_getElem
  · simp only [List.length_map, List.length_range, List.length_append, List.length_replicate]
    omega
  · intro i h₁ h₂
    simp only [List.getElem_map, List.getElem_range, List.getElem_append]
    split <;> simp_all

theorem usersAllowedIpExtractBytes_eq {addr : IpAddr} {family : UInt8} (hf : family = 4 ∨ family = 6) :
    usersAllowedIpExtractBytes addr family =
      some (familyBytes addr family ++ List.replicate (16 - familyLength family) 0) := by
  rw [usersAllowedIpExtractBytes, if_pos hf, map_range_sixteen]
  rfl

/-- `addrNetcmp` over a family's bytes compares the numbers they spell under the mask. -/
theorem addrNetcmp_iff (addr network mask : IpAddr) (family : UInt8) :
    addrNetcmp (familyLength family) addr.bytes network.bytes mask.bytes = true ↔
      value (familyBytes addr family) &&& value (familyBytes mask family) =
        value (familyBytes network family) &&& value (familyBytes mask family) := by
  have hlist : addrNetcmp (familyLength family) addr.bytes network.bytes mask.bytes = true ↔
      List.zipWith (· &&& ·) (familyBytes addr family) (familyBytes mask family) =
        List.zipWith (· &&& ·) (familyBytes network family) (familyBytes mask family) := by
    simp only [addrNetcmp, familyBytes, List.zipWith_map, List.zipWith_self, List.all_eq_true,
      beq_iff_eq, List.map_inj_left]
  rw [← value_zipWith_and (by simp), ← value_zipWith_and (by simp), hlist]
  exact ⟨fun h => by rw [h], fun h => value_injective (by simp) h⟩

theorem usersAllowedIpRangeFromFields_eq {network mask : IpAddr} {family : UInt8}
    (hf : family = 4 ∨ family = 6) :
    usersAllowedIpRangeFromFields network mask family =
      some (List.zipWith (· &&& ·) (familyBytes network family) (familyBytes mask family) ++
          List.replicate (16 - familyLength family) 0,
        List.zipWith (· ||| ·)
            (List.zipWith (· &&& ·) (familyBytes network family) (familyBytes mask family))
            ((familyBytes mask family).map (~~~·)) ++
          List.replicate (16 - familyLength family) 0) := by
  have hf' : ¬(family ≠ 4 ∧ family ≠ 6) := by
    rcases hf with rfl | rfl <;> decide
  rw [usersAllowedIpRangeFromFields, if_neg hf', usersAllowedIpExtractBytes_eq hf,
    usersAllowedIpExtractBytes_eq hf]
  simp only [map_range_sixteen, Option.some.injEq, Prod.mk.injEq, List.append_cancel_right_eq]
  -- over the family's bytes the zeros behind them are not read
  constructor <;> apply List.ext_getElem <;> simp [familyBytes] <;> intro i hi <;>
    simp [List.getElem?_append_left, hi]

/-- A mask that keeps a prefix of the family's bits: ones above bit `k`, zeros below. -/
def IsPrefixMask (mask : IpAddr) (family : UInt8) : Prop :=
  ∃ k ≤ 8 * familyLength family,
    value (familyBytes mask family) = 2 ^ (8 * familyLength family) - 2 ^ k

theorem value_familyBytes_lt (addr : IpAddr) (family : UInt8) :
    value (familyBytes addr family) < 2 ^ (8 * familyLength family) := by
  simpa using value_lt_two_pow (familyBytes addr family)

/-- **Under a prefix mask the network compare is an interval.**  An address agrees with the
network under the mask exactly when its 16 bytes lie between `start16` and `end16`. -/
theorem usersAllowedIpRangeFromFields_contains {network mask : IpAddr} {family : UInt8}
    (hf : family = 4 ∨ family = 6) (hmask : IsPrefixMask mask family) {start16 end16 : List UInt8}
    (hr : usersAllowedIpRangeFromFields network mask family = some (start16, end16))
    (addr : IpAddr) :
    addrNetcmp (familyLength family) addr.bytes network.bytes mask.bytes = true ↔
      value start16 ≤ value (familyBytes addr family ++ List.replicate (16 - familyLength family) 0) ∧
        value (familyBytes addr family ++ List.replicate (16 - familyLength family) 0) ≤
          value end16 := by
  obtain ⟨k, hk, hM⟩ := hmask
  rw [usersAllowedIpRangeFromFields_eq hf, Option.some.injEq, Prod.mk.injEq] at hr
  obtain ⟨rfl, rfl⟩ := hr
  have hpos : 0 < 256 ^ (16 - familyLength family) := Nat.pow_pos (by decide)
  -- the zeros behind the family's bytes scale all three numbers alike
  rw [addrNetcmp_iff, value_append_replicate_zero, value_append_replicate_zero,
    value_append_replicate_zero, Nat.mul_le_mul_right_iff hpos, Nat.mul_le_mul_right_iff hpos,
    value_zipWith_or (by simp), value_zipWith_and (by simp), value_map_not, length_familyBytes,
    hM, show (256 : Nat) ^ familyLength family = 2 ^ (8 * familyLength family) by
      rw [Nat.pow_mul]]
  exact Prefix.and_prefixMask_eq_iff hk (value_familyBytes_lt addr family)
    (value_familyBytes_lt network family)

/-! ## Ranges and entries -/

/-- A range the fields give has 16 bytes at each end, and its start is not above its end. -/
theorem usersAllowedIpRangeFromFields_some {network mask : IpAddr} {family : UInt8}
    {start16 end16 : List UInt8}
    (h : usersAllowedIpRangeFromFields network mask family = some (start16, end16)) :
    (family = 4 ∨ family = 6) ∧ start16.length = 16 ∧ end16.length = 16 ∧
      value start16 ≤ value end16 := by
  have hf : family = 4 ∨ family = 6 := by
    by_contra hf
    rw [usersAllowedIpRangeFromFields, if_pos (not_or.1 hf)] at h
    cases h
  rw [usersAllowedIpRangeFromFields_eq hf, Option.some.injEq, Prod.mk.injEq] at h
  obtain ⟨rfl, rfl⟩ := h
  have hle := familyLength_le family
  refine ⟨hf, by simp; omega, by simp; omega, ?_⟩
  -- the end is the start with the bits outside the mask set
  rw [value_append_replicate_zero, value_append_replicate_zero, value_zipWith_or (by simp)]
  exact Nat.mul_le_mul_right _ Nat.left_le_or

/-- An entry is the user's range under its family, valid and with the user's index. -/
theorem usersAllowedIpEntryFromUser_eq_some {user : UserAllowedIp} {u : Nat} {e : AllowedIpEntry}
    (h : usersAllowedIpEntryFromUser user u = some e) :
    user.wireguard_allowed_ips_valid = true ∧
      usersAllowedIpRangeFromFields user.wireguard_allowed_ip user.wireguard_allowed_mask
        user.wireguard_allowed_ip_family = some (e.2.start, e.1.end16) ∧
      e.1.family = user.wireguard_allowed_ip_family ∧ e.2.user = u := by
  unfold usersAllowedIpEntryFromUser at h
  cases hv : user.wireguard_allowed_ips_valid
  · simp [hv] at h
  · simp only [hv, Bool.not_true, Bool.false_eq_true, if_false] at h
    split at h
    · rename_i start16 end16 hr
      cases h
      exact ⟨rfl, hr, rfl, rfl⟩
    · cases h

/-! ## The map in key order -/

/-- A key as one number: the family above the 128 bits of the end. -/
def keyValue (k : AllowedIpKey) : Nat := k.family.toNat * 2 ^ 128 + value k.end16

theorem value_lt_of_length {xs : List UInt8} (h : xs.length = 16) : value xs < 2 ^ 128 := by
  simpa [h] using value_lt_two_pow xs

/-- Over ends of 16 bytes `usersAllowedIpKeyCmp` orders keys as their numbers. -/
theorem usersAllowedIpKeyCmp_eq_lt_iff {a b : AllowedIpKey} (ha : a.end16.length = 16)
    (hb : b.end16.length = 16) :
    usersAllowedIpKeyCmp a b = .lt ↔ keyValue a < keyValue b := by
  have hva := value_lt_of_length ha
  have hvb := value_lt_of_length hb
  unfold usersAllowedIpKeyCmp keyValue
  split_ifs with hne hlt
  · -- a lower family comes first whatever the ends
    have : a.family.toNat < b.family.toNat := UInt8.lt_iff_toNat_lt.1 hlt
    simp only [true_iff]
    omega
  · have : b.family.toNat < a.family.toNat := by
      have h₁ : a.family.toNat ≠ b.family.toNat := fun h => hne (UInt8.toNat_inj.1 h)
      have h₂ : ¬a.family.toNat < b.family.toNat := fun h => hlt (UInt8.lt_iff_toNat_lt.2 h)
      omega
    simp only [false_iff, not_lt]
    omega
  · -- one family: the ends decide
    rw [not_not] at hne
    rw [memoryCompare_eq (ha.trans hb.symm), compare_lt_iff_lt, hne]
    omega

/-- A key at or above `(family, lo)` and at or below `(family, hi)` is of that family, and its end
lies between `lo` and `hi`. -/
theorem keyValue_between {family : UInt8} {lo hi : List UInt8} {k : AllowedIpKey}
    (hk : k.end16.length = 16) (hhi : hi.length = 16)
    (h₁ : keyValue ⟨family, lo⟩ ≤ keyValue k) (h₂ : keyValue k ≤ keyValue ⟨family, hi⟩) :
    k.family = family ∧ value lo ≤ value k.end16 ∧ value k.end16 ≤ value hi := by
  have hvk := value_lt_of_length hk
  have hvhi := value_lt_of_length hhi
  unfold keyValue at h₁ h₂
  dsimp only at h₁ h₂
  have hfam : k.family.toNat = family.toNat := by
    rcases Nat.lt_trichotomy k.family.toNat family.toNat with hlt | heq | hgt
    · -- a lower family sits below every key of `family`
      have : (k.family.toNat + 1) * 2 ^ 128 ≤ family.toNat * 2 ^ 128 :=
        Nat.mul_le_mul_right _ hlt
      omega
    · exact heq
    · have : (family.toNat + 1) * 2 ^ 128 ≤ k.family.toNat * 2 ^ 128 :=
        Nat.mul_le_mul_right _ hgt
      omega
  refine ⟨UInt8.toNat_inj.1 hfam, ?_, ?_⟩ <;> rw [hfam] at h₁ h₂ <;> omega

/-- Over ends of 16 bytes the map's `lower_bound` is `lowerBound` on the keys' numbers. -/
theorem usersAllowedIpMapLowerBound_eq {probe : AllowedIpKey} (hp : probe.end16.length = 16) :
    ∀ {map : List AllowedIpEntry}, (∀ e ∈ map, e.1.end16.length = 16) →
      usersAllowedIpMapLowerBound map probe =
        lowerBound (fun e : AllowedIpEntry => keyValue e.1) map (keyValue probe)
  | [], _ => by rw [usersAllowedIpMapLowerBound, lowerBound, List.dropWhile_nil, List.dropWhile_nil]
  | e :: map, hmap => by
    have hhead : (usersAllowedIpKeyCmp e.1 probe == .lt) = decide (keyValue e.1 < keyValue probe) := by
      rw [Bool.eq_iff_iff, beq_iff_eq, decide_eq_true_iff,
        usersAllowedIpKeyCmp_eq_lt_iff (hmap e List.mem_cons_self) hp]
    have ih := usersAllowedIpMapLowerBound_eq hp fun e he => hmap e (List.mem_cons_of_mem _ he)
    unfold usersAllowedIpMapLowerBound lowerBound at ih ⊢
    rw [List.dropWhile_cons, List.dropWhile_cons, hhead, ih]

/-! ## The table invariant -/

/-- What `users_t` keeps of its Allowed-IP map over the active users `users`. -/
structure AllowedIpTableInv (users : List UserAllowedIp) (map : List AllowedIpEntry) : Prop where
  /-- Every entry is the entry of its user. -/
  entry : ∀ e ∈ map, ∃ user, users[e.2.user]? = some user ∧
    usersAllowedIpEntryFromUser user e.2.user = some e
  /-- Every active user with a range has its entry. -/
  complete : ∀ u user, users[u]? = some user → ∀ e, usersAllowedIpEntryFromUser user u = some e →
    e ∈ map
  /-- The entries are in the order of `usersAllowedIpKeyCmp`. -/
  sorted : map.Pairwise fun a b => usersAllowedIpKeyCmp a.1 b.1 = .lt
  /-- Two ranges of one family do not overlap. -/
  disjoint : ∀ a ∈ map, ∀ b ∈ map, a ≠ b → a.1.family = b.1.family →
    value a.1.end16 < value b.2.start ∨ value b.1.end16 < value a.2.start
  /-- A valid range is built from a prefix mask. -/
  masks : ∀ user ∈ users, user.wireguard_allowed_ips_valid = true →
    IsPrefixMask user.wireguard_allowed_mask user.wireguard_allowed_ip_family

namespace AllowedIpTableInv

variable {users : List UserAllowedIp} {map : List AllowedIpEntry}

/-- An entry's ends have 16 bytes, and its start is not above its end. -/
theorem range (hinv : AllowedIpTableInv users map) {e : AllowedIpEntry} (he : e ∈ map) :
    e.2.start.length = 16 ∧ e.1.end16.length = 16 ∧ value e.2.start ≤ value e.1.end16 := by
  obtain ⟨user, -, hentry⟩ := hinv.entry e he
  obtain ⟨-, hr, -⟩ := usersAllowedIpEntryFromUser_eq_some hentry
  exact (usersAllowedIpRangeFromFields_some hr).2

theorem sorted_keyValue (hinv : AllowedIpTableInv users map) :
    map.Pairwise fun a b => keyValue a.1 < keyValue b.1 :=
  hinv.sorted.imp_of_mem fun ha hb h =>
    (usersAllowedIpKeyCmp_eq_lt_iff (hinv.range ha).2.1 (hinv.range hb).2.1).1 h

theorem eq_of_user_eq (hinv : AllowedIpTableInv users map) {a b : AllowedIpEntry} (ha : a ∈ map)
    (hb : b ∈ map) (hab : a.2.user = b.2.user) : a = b := by
  obtain ⟨x, hx, hxa⟩ := hinv.entry a ha
  obtain ⟨y, hy, hyb⟩ := hinv.entry b hb
  rw [hab, hy, Option.some.injEq] at hx
  rw [hab, ← hx, hyb, Option.some.injEq] at hxa
  exact hxa.symm

theorem eq_of_mem_range (hinv : AllowedIpTableInv users map) {a b : AllowedIpEntry} (ha : a ∈ map)
    (hb : b ∈ map) (hfam : a.1.family = b.1.family) {x : Nat}
    (hxa : value a.2.start ≤ x ∧ x ≤ value a.1.end16) (hxb : value b.2.start ≤ x ∧ x ≤ value b.1.end16) :
    a = b := by
  by_contra hne
  rcases hinv.disjoint a ha b hb hne hfam with h | h <;> omega

/-- **The first entry a probe reaches meets the range if any entry after it does.**  Over entries
of the map in key order from one at or above `(family, lo)`: an entry of `family` meeting
`[lo, hi]` is preceded by no entry of another family, and the first entry, ending between `lo`
and that entry's end, ends before that entry starts, so it meets `[lo, hi]` too. -/
theorem head_meets (hinv : AllowedIpTableInv users map) {family : UInt8} {lo hi : List UInt8}
    {h e : AllowedIpEntry} {rest : List AllowedIpEntry}
    (hs : (h :: rest).Pairwise fun a b => keyValue a.1 < keyValue b.1)
    (hmem : ∀ x ∈ h :: rest, x ∈ map) (hp : keyValue ⟨family, lo⟩ ≤ keyValue h.1)
    (he : e ∈ h :: rest) (hfam : e.1.family = family)
    (hmeet : value e.2.start ≤ value hi ∧ value lo ≤ value e.1.end16) :
    h.1.family = family ∧ value h.2.start ≤ value hi := by
  have hh := hinv.range (hmem h List.mem_cons_self)
  have he' := hinv.range (hmem e he)
  -- `h` comes first, so its key is at most `e`'s
  have hle : keyValue h.1 ≤ keyValue ⟨family, e.1.end16⟩ := by
    rw [← hfam]
    rcases List.mem_cons.1 he with rfl | he
    · exact le_rfl
    · exact le_of_lt ((List.pairwise_cons.1 hs).1 e he)
  obtain ⟨hhfam, -, hend⟩ := keyValue_between hh.2.1 he'.2.1 hp hle
  refine ⟨hhfam, ?_⟩
  by_cases hhe : h = e
  · rw [hhe]
    exact hmeet.1
  · -- two ranges of one family: `h` ends before `e` starts
    rcases hinv.disjoint h (hmem h List.mem_cons_self) e (hmem e he) hhe (hhfam.trans hfam.symm)
      with hd | hd <;> omega

/-- What the check of the entry a probe stops at establishes: the entry is of the family and
meets `[lo, hi]`. -/
theorem head_check_sound (hinv : AllowedIpTableInv users map) {family : UInt8}
    {lo hi : List UInt8} (hhi : hi.length = 16) {e : AllowedIpEntry} (he : e ∈ map)
    (hp : keyValue ⟨family, lo⟩ ≤ keyValue e.1) {u : Nat}
    (h : (if e.1.family ≠ family then none
      else if memoryCompare e.2.start hi ≠ .gt then some e.2.user else none) = some u) :
    e.2.user = u ∧ e.1.family = family ∧ value e.2.start ≤ value hi ∧
      value lo ≤ value e.1.end16 := by
  have hr := hinv.range he
  split_ifs at h with hfam hcmp
  cases h
  rw [not_not] at hfam
  have hkey : keyValue e.1 ≤ keyValue ⟨family, e.1.end16⟩ := by rw [← hfam]
  exact ⟨rfl, hfam, (memoryCompare_ne_gt_iff (hr.1.trans hhi.symm)).1 hcmp,
    (keyValue_between hr.2.1 hr.2.1 hp hkey).2.1⟩

/-- The entry a probe stops at passes the check when it is of the family and starts by `hi`. -/
theorem head_check_ne_none (hinv : AllowedIpTableInv users map) {family : UInt8}
    {hi : List UInt8} (hhi : hi.length = 16) {e : AllowedIpEntry} (he : e ∈ map)
    (hfam : e.1.family = family) (hstart : value e.2.start ≤ value hi) :
    (if e.1.family ≠ family then none
      else if memoryCompare e.2.start hi ≠ .gt then some e.2.user else none) ≠ none := by
  rw [if_neg (not_not.2 hfam),
    if_pos ((memoryCompare_ne_gt_iff ((hinv.range he).1.trans hhi.symm)).2 hstart)]
  exact Option.some_ne_none _

end AllowedIpTableInv

/-! ## The probes -/

section Probes

variable {users : List UserAllowedIp} {map : List AllowedIpEntry}

/-- The entries from `lower_bound` of `(family, lo)` on: entries of the map in key order, the
first at or above the probe. -/
theorem lowerBound_facts (hinv : AllowedIpTableInv users map) (family : UInt8) {lo : List UInt8}
    (hlo : lo.length = 16) :
    (∀ x ∈ usersAllowedIpMapLowerBound map ⟨family, lo⟩, x ∈ map) ∧
      (usersAllowedIpMapLowerBound map ⟨family, lo⟩).Pairwise
        (fun a b => keyValue a.1 < keyValue b.1) ∧
      ∀ x rest, usersAllowedIpMapLowerBound map ⟨family, lo⟩ = x :: rest →
        keyValue ⟨family, lo⟩ ≤ keyValue x.1 := by
  rw [@usersAllowedIpMapLowerBound_eq ⟨family, lo⟩ hlo map fun e he => (hinv.range he).2.1]
  refine ⟨fun x hx => (List.dropWhile_suffix _).subset hx,
    hinv.sorted_keyValue.sublist (List.dropWhile_suffix _).sublist,
    fun x rest h => @le_key_of_lowerBound_eq_cons _ _ _ (fun e : AllowedIpEntry => keyValue e.1)
      _ _ _ _ h⟩


/-- **What the overlap probe returns is a user of the family, not the ignored one, whose range
meets `[lo, hi]`.** -/
theorem usersAllowedIpTableFindOverlapLocked_sound (hinv : AllowedIpTableInv users map)
    {family : UInt8} {lo hi : List UInt8} (hlo : lo.length = 16) (hhi : hi.length = 16)
    {ignore : Option Nat} {u : Nat}
    (h : usersAllowedIpTableFindOverlapLocked map family lo hi ignore = some u) :
    ∃ e ∈ map, e.2.user = u ∧ some u ≠ ignore ∧ e.1.family = family ∧
      value e.2.start ≤ value hi ∧ value lo ≤ value e.1.end16 := by
  obtain ⟨hmem, hs, hp⟩ := lowerBound_facts hinv family hlo
  unfold usersAllowedIpTableFindOverlapLocked at h
  rcases hL : usersAllowedIpMapLowerBound map ⟨family, lo⟩ with _ | ⟨x, rest⟩
  · simp [hL] at h
  · simp only [hL] at h
    rw [hL] at hmem hs
    have hx := hp x rest hL
    by_cases hskip : x.1.family = family ∧ some x.2.user = ignore
    · -- the caller's own range is passed over; the next entry is another user's
      rw [if_pos hskip] at h
      rcases hr : rest with _ | ⟨y, rest'⟩
      · simp [hr] at h
      · simp only [hr] at h
        rw [hr] at hmem hs
        have hxy : keyValue x.1 < keyValue y.1 := (List.pairwise_cons.1 hs).1 y List.mem_cons_self
        have hy : y ∈ map := hmem y (List.mem_cons_of_mem _ List.mem_cons_self)
        obtain ⟨rfl, hfam, hmeet⟩ := hinv.head_check_sound hhi hy (hx.trans hxy.le) h
        refine ⟨y, hy, rfl, ?_, hfam, hmeet⟩
        rw [← hskip.2, Ne, Option.some.injEq]
        intro hyx
        rw [hinv.eq_of_user_eq hy (hmem x List.mem_cons_self) hyx] at hxy
        exact lt_irrefl _ hxy
    · rw [if_neg hskip] at h
      have hxm := hmem x List.mem_cons_self
      obtain ⟨rfl, hfam, hmeet⟩ := hinv.head_check_sound hhi hxm hx h
      exact ⟨x, hxm, rfl, fun hign => hskip ⟨hfam, hign⟩, hfam, hmeet⟩

/-- **The overlap probe finds a user when an entry of the family, not the ignored one's, meets
`[lo, hi]`.** -/
theorem usersAllowedIpTableFindOverlapLocked_complete (hinv : AllowedIpTableInv users map)
    {family : UInt8} {lo hi : List UInt8} (hlo : lo.length = 16) (hhi : hi.length = 16)
    {ignore : Option Nat} {e : AllowedIpEntry} (he : e ∈ map) (hign : some e.2.user ≠ ignore)
    (hfam : e.1.family = family) (hmeet : value e.2.start ≤ value hi ∧ value lo ≤ value e.1.end16) :
    usersAllowedIpTableFindOverlapLocked map family lo hi ignore ≠ none := by
  obtain ⟨hmem, hs, hp⟩ := lowerBound_facts hinv family hlo
  -- `e` ends at or after `lo`, so `lower_bound` keeps it
  have heL : e ∈ usersAllowedIpMapLowerBound map ⟨family, lo⟩ := by
    rw [@usersAllowedIpMapLowerBound_eq ⟨family, lo⟩ hlo map fun e he => (hinv.range he).2.1]
    apply mem_lowerBound he
    show keyValue ⟨family, lo⟩ ≤ keyValue e.1
    unfold keyValue
    rw [hfam]
    exact Nat.add_le_add_left hmeet.2 _
  unfold usersAllowedIpTableFindOverlapLocked
  rcases hL : usersAllowedIpMapLowerBound map ⟨family, lo⟩ with _ | ⟨x, rest⟩
  · rw [hL] at heL
    cases heL
  · simp only
    rw [hL] at heL hmem hs
    have hx := hp x rest hL
    by_cases hskip : x.1.family = family ∧ some x.2.user = ignore
    · rw [if_pos hskip]
      -- `e` is not the passed-over entry, so it comes after it
      have hex : e ≠ x := fun hex => hign (by rw [hex]; exact hskip.2)
      have heRest : e ∈ rest := (List.mem_cons.1 heL).resolve_left hex
      rcases hr : rest with _ | ⟨y, rest'⟩
      · rw [hr] at heRest
        cases heRest
      · simp only
        rw [hr] at heRest hmem hs
        have hxy : keyValue x.1 < keyValue y.1 := (List.pairwise_cons.1 hs).1 y List.mem_cons_self
        have hmem' : ∀ z ∈ y :: rest', z ∈ map := fun z hz => hmem z (List.mem_cons_of_mem _ hz)
        obtain ⟨hyfam, hystart⟩ := hinv.head_meets (List.pairwise_cons.1 hs).2 hmem' (hx.trans hxy.le)
          heRest hfam hmeet
        exact hinv.head_check_ne_none hhi (hmem' y List.mem_cons_self) hyfam hystart
    · rw [if_neg hskip]
      obtain ⟨hxfam, hxstart⟩ := hinv.head_meets hs hmem hx heL hfam hmeet
      exact hinv.head_check_ne_none hhi (hmem x List.mem_cons_self) hxfam hxstart

end Probes

/-! ## The address lookup -/

/-- The family `usersLookupByWireGuardAllowedIp` reads off an address. -/
def ipFamily : IpAddr → UInt8
  | .v4 _ => 4
  | .v6 _ => 6

/-- The 16 bytes `usersLookupByWireGuardAllowedIp` probes with. -/
def ipBytes16 (ip : IpAddr) : List UInt8 :=
  familyBytes ip (ipFamily ip) ++ List.replicate (16 - familyLength (ipFamily ip)) 0

theorem ipFamily_cases (ip : IpAddr) : ipFamily ip = 4 ∨ ipFamily ip = 6 := by
  cases ip
  · exact Or.inl rfl
  · exact Or.inr rfl

@[simp] theorem length_ipBytes16 (ip : IpAddr) : (ipBytes16 ip).length = 16 := by
  have := familyLength_le (ipFamily ip)
  simp only [ipBytes16, List.length_append, length_familyBytes, List.length_replicate]
  omega

theorem usersLookupByWireGuardAllowedIp_eq (map : List AllowedIpEntry) (ip : IpAddr) :
    usersLookupByWireGuardAllowedIp map ip =
      usersAllowedIpTableFindContainingLocked map (ipFamily ip) (ipBytes16 ip) := by
  cases ip
  · simp only [usersLookupByWireGuardAllowedIp]
    rw [usersAllowedIpExtractBytes_eq (Or.inl rfl)]
    rfl
  · simp only [usersLookupByWireGuardAllowedIp]
    rw [usersAllowedIpExtractBytes_eq (Or.inr rfl)]
    rfl

/-- The containing probe is the overlap probe of the one-address range, ignoring no one. -/
theorem usersAllowedIpTableFindContainingLocked_eq (map : List AllowedIpEntry) (family : UInt8)
    (addr16 : List UInt8) :
    usersAllowedIpTableFindContainingLocked map family addr16 =
      usersAllowedIpTableFindOverlapLocked map family addr16 addr16 none := by
  unfold usersAllowedIpTableFindContainingLocked usersAllowedIpTableFindOverlapLocked
  rcases usersAllowedIpMapLowerBound map ⟨family, addr16⟩ with _ | ⟨x, rest⟩ <;> simp

/-- `usersWireGuardAllowedIpContainsUser`: a valid range of the address's family whose network
the address agrees with under the mask. -/
theorem usersWireGuardAllowedIpContainsUser_iff (user : UserAllowedIp) (ip : IpAddr) :
    usersWireGuardAllowedIpContainsUser user ip = true ↔
      user.wireguard_allowed_ips_valid = true ∧ user.wireguard_allowed_ip_family = ipFamily ip ∧
        addrNetcmp (familyLength (ipFamily ip)) ip.bytes user.wireguard_allowed_ip.bytes
          user.wireguard_allowed_mask.bytes = true := by
  rcases user with ⟨valid, network, mask, family⟩
  cases ip <;> cases valid <;>
    simp [usersWireGuardAllowedIpContainsUser, usersWireGuardAllowedIpContainsFields, ipFamily,
      familyLength, IpAddr.bytes]

/-- **Under a prefix mask a user holds an address exactly when the user's entry does.** -/
theorem usersWireGuardAllowedIpContainsUser_iff_entry {user : UserAllowedIp}
    (hmask : user.wireguard_allowed_ips_valid = true →
      IsPrefixMask user.wireguard_allowed_mask user.wireguard_allowed_ip_family)
    (u : Nat) (ip : IpAddr) :
    usersWireGuardAllowedIpContainsUser user ip = true ↔
      ∃ e, usersAllowedIpEntryFromUser user u = some e ∧ e.1.family = ipFamily ip ∧
        value e.2.start ≤ value (ipBytes16 ip) ∧ value (ipBytes16 ip) ≤ value e.1.end16 := by
  rw [usersWireGuardAllowedIpContainsUser_iff]
  constructor
  · rintro ⟨hv, hfam, hnet⟩
    have hf : user.wireguard_allowed_ip_family = 4 ∨ user.wireguard_allowed_ip_family = 6 := by
      rw [hfam]
      exact ipFamily_cases ip
    obtain ⟨⟨start16, end16⟩, hr⟩ :
        ∃ r, usersAllowedIpRangeFromFields user.wireguard_allowed_ip user.wireguard_allowed_mask
          user.wireguard_allowed_ip_family = some r := ⟨_, usersAllowedIpRangeFromFields_eq hf⟩
    refine ⟨(⟨user.wireguard_allowed_ip_family, end16⟩, ⟨start16, u⟩), ?_, hfam, ?_⟩
    · simp only [usersAllowedIpEntryFromUser, hv, hr, Bool.not_true, Bool.false_eq_true, if_false]
    · rw [ipBytes16, ← hfam]
      rw [← hfam] at hnet
      exact (usersAllowedIpRangeFromFields_contains hf (hmask hv) hr ip).1 hnet
  · rintro ⟨e, hentry, hefam, hlo, hhi⟩
    obtain ⟨hv, hr, hfam, -⟩ := usersAllowedIpEntryFromUser_eq_some hentry
    have hf := (usersAllowedIpRangeFromFields_some hr).1
    rw [hefam] at hfam
    refine ⟨hv, hfam.symm, ?_⟩
    rw [hfam]
    rw [ipBytes16, hfam] at hlo hhi
    exact (usersAllowedIpRangeFromFields_contains hf (hmask hv) hr ip).2 ⟨hlo, hhi⟩

section Lookup

variable {users : List UserAllowedIp} {map : List AllowedIpEntry}

/-- **The lookup returns the one active user whose range holds the address.** -/
theorem usersLookupByWireGuardAllowedIp_spec (hinv : AllowedIpTableInv users map) (ip : IpAddr)
    (u : Nat) :
    usersLookupByWireGuardAllowedIp map ip = some u ↔
      ∃ user, users[u]? = some user ∧ usersWireGuardAllowedIpContainsUser user ip = true := by
  have hlen := length_ipBytes16 ip
  rw [usersLookupByWireGuardAllowedIp_eq, usersAllowedIpTableFindContainingLocked_eq]
  constructor
  · intro h
    obtain ⟨e, he, rfl, -, hfam, hstart, hend⟩ :=
      usersAllowedIpTableFindOverlapLocked_sound hinv hlen hlen h
    obtain ⟨user, huser, hentry⟩ := hinv.entry e he
    refine ⟨user, huser, ?_⟩
    rw [usersWireGuardAllowedIpContainsUser_iff_entry
      (hinv.masks user (List.mem_of_getElem? huser)) e.2.user]
    exact ⟨e, hentry, hfam, hstart, hend⟩
  · rintro ⟨user, huser, hcont⟩
    obtain ⟨e, hentry, hfam, hstart, hend⟩ :=
      (usersWireGuardAllowedIpContainsUser_iff_entry
        (hinv.masks user (List.mem_of_getElem? huser)) u ip).1 hcont
    have he := hinv.complete u user huser e hentry
    obtain ⟨v, hv⟩ := Option.ne_none_iff_exists'.1 <|
      usersAllowedIpTableFindOverlapLocked_complete hinv hlen hlen he (Option.some_ne_none _) hfam
        ⟨hstart, hend⟩
    -- the entry found holds the address too, so it is `e`
    obtain ⟨e', he', rfl, -, hfam', hstart', hend'⟩ :=
      usersAllowedIpTableFindOverlapLocked_sound hinv hlen hlen hv
    have hee' := hinv.eq_of_mem_range he he' (hfam.trans hfam'.symm) ⟨hstart, hend⟩
      ⟨hstart', hend'⟩
    rw [hv, ← hee', (usersAllowedIpEntryFromUser_eq_some hentry).2.2.2]

theorem usersWireGuardAllowedIpContainsUser_unique (hinv : AllowedIpTableInv users map)
    {ip : IpAddr} {u v : Nat} {x y : UserAllowedIp} (hx : users[u]? = some x)
    (hy : users[v]? = some y) (hcx : usersWireGuardAllowedIpContainsUser x ip = true)
    (hcy : usersWireGuardAllowedIpContainsUser y ip = true) : u = v := by
  have hu := (usersLookupByWireGuardAllowedIp_spec hinv ip u).2 ⟨x, hx, hcx⟩
  have hv := (usersLookupByWireGuardAllowedIp_spec hinv ip v).2 ⟨y, hy, hcy⟩
  rw [hu] at hv
  exact Option.some.inj hv

theorem usersLookupByWireGuardAllowedIp_eq_none_iff (hinv : AllowedIpTableInv users map)
    (ip : IpAddr) :
    usersLookupByWireGuardAllowedIp map ip = none ↔
      ∀ (u : Nat) user, users[u]? = some user →
        usersWireGuardAllowedIpContainsUser user ip = false := by
  rw [Option.eq_none_iff_forall_ne_some]
  simp only [Ne, usersLookupByWireGuardAllowedIp_spec hinv, not_exists, not_and, Bool.not_eq_true]

/-- **The overlap probe finds a user exactly when some active user other than the ignored one
has a range of the family meeting `[lo, hi]`.** -/
theorem usersAllowedIpTableFindOverlapLocked_spec (hinv : AllowedIpTableInv users map)
    {family : UInt8} {lo hi : List UInt8} {ignore : Option Nat} (hlo : lo.length = 16)
    (hhi : hi.length = 16) (hle : value lo ≤ value hi) :
    usersAllowedIpTableFindOverlapLocked map family lo hi ignore ≠ none ↔
      ∃ u user start16 end16, users[u]? = some user ∧ some u ≠ ignore ∧
        user.wireguard_allowed_ips_valid = true ∧ user.wireguard_allowed_ip_family = family ∧
        usersAllowedIpRangeFromFields user.wireguard_allowed_ip user.wireguard_allowed_mask
          family = some (start16, end16) ∧
        ∃ x, value lo ≤ x ∧ x ≤ value hi ∧ value start16 ≤ x ∧ x ≤ value end16 := by
  constructor
  · intro h
    obtain ⟨u, hu⟩ := Option.ne_none_iff_exists'.1 h
    obtain ⟨e, he, rfl, hign, hfam, hstart, hend⟩ :=
      usersAllowedIpTableFindOverlapLocked_sound hinv hlo hhi hu
    obtain ⟨user, huser, hentry⟩ := hinv.entry e he
    obtain ⟨hv, hr, hefam, -⟩ := usersAllowedIpEntryFromUser_eq_some hentry
    have hse := (hinv.range he).2.2
    rw [hfam] at hefam
    rw [← hefam] at hr
    refine ⟨e.2.user, user, e.2.start, e.1.end16, huser, hign, hv, hefam.symm, hr, ?_⟩
    -- the later of the two starts lies in both ranges
    by_cases hs : value lo ≤ value e.2.start
    · exact ⟨value e.2.start, hs, hstart, le_rfl, hse⟩
    · exact ⟨value lo, le_rfl, hle, by omega, hend⟩
  · rintro ⟨u, user, start16, end16, huser, hign, hv, hfam, hr, x, hlox, hxhi, hsx, hxe⟩
    have hentry : usersAllowedIpEntryFromUser user u = some (⟨family, end16⟩, ⟨start16, u⟩) := by
      simp only [usersAllowedIpEntryFromUser, hv, hfam, hr, Bool.not_true, Bool.false_eq_true,
        if_false]
    exact usersAllowedIpTableFindOverlapLocked_complete hinv hlo hhi
      (hinv.complete u user huser _ hentry) hign rfl ⟨hsx.trans hxhi, hlox.trans hxe⟩

/-- **The interval probes agree with the linear containment check.**  Over a table that keeps
`AllowedIpTableInv`, the lookup of an IPv4 or IPv6 address returns the active user whose range
holds it under the user's mask, that user is the only one, and the lookup returns nothing when no
user holds it; the overlap probe of a range `[lo, hi]` finds a user exactly when some active user
other than the ignored one has a range of the family meeting it. -/
theorem usersAllowedIpTable_matches_scan {users : List UserAllowedIp} {map : List AllowedIpEntry}
    (hinv : AllowedIpTableInv users map) :
    (∀ ip u, usersLookupByWireGuardAllowedIp map ip = some u ↔
      ∃ user, users[u]? = some user ∧ usersWireGuardAllowedIpContainsUser user ip = true) ∧
    (∀ ip (u v : Nat) x y, users[u]? = some x → users[v]? = some y →
      usersWireGuardAllowedIpContainsUser x ip = true →
      usersWireGuardAllowedIpContainsUser y ip = true → u = v) ∧
    (∀ ip, usersLookupByWireGuardAllowedIp map ip = none ↔
      ∀ (u : Nat) user, users[u]? = some user →
        usersWireGuardAllowedIpContainsUser user ip = false) ∧
    ∀ family lo hi ignore, lo.length = 16 → hi.length = 16 → value lo ≤ value hi →
      (usersAllowedIpTableFindOverlapLocked map family lo hi ignore ≠ none ↔
        ∃ u user start16 end16, users[u]? = some user ∧ some u ≠ ignore ∧
          user.wireguard_allowed_ips_valid = true ∧ user.wireguard_allowed_ip_family = family ∧
          usersAllowedIpRangeFromFields user.wireguard_allowed_ip user.wireguard_allowed_mask
            family = some (start16, end16) ∧
          ∃ x, value lo ≤ x ∧ x ≤ value hi ∧ value start16 ≤ x ∧ x ≤ value end16) :=
  ⟨usersLookupByWireGuardAllowedIp_spec hinv,
    fun _ _ _ _ _ hx hy hcx hcy => usersWireGuardAllowedIpContainsUser_unique hinv hx hy hcx hcy,
    usersLookupByWireGuardAllowedIp_eq_none_iff hinv,
    fun _ _ _ _ hlo hhi hle => usersAllowedIpTableFindOverlapLocked_spec hinv hlo hhi hle⟩

/-- Two users, `10.0.0.0/8` and `192.168.0.0/16`. -/
def officeUsers : List UserAllowedIp :=
  [⟨true, .v4 [10, 0, 0, 0], .v4 [255, 0, 0, 0], 4⟩,
    ⟨true, .v4 [192, 168, 0, 0], .v4 [255, 255, 0, 0], 4⟩]

/-- The map `users_t` keeps for `officeUsers`. -/
def officeMap : List AllowedIpEntry :=
  [(⟨4, [10, 255, 255, 255] ++ List.replicate 12 0⟩, ⟨[10, 0, 0, 0] ++ List.replicate 12 0, 0⟩),
    (⟨4, [192, 168, 255, 255] ++ List.replicate 12 0⟩,
      ⟨[192, 168, 0, 0] ++ List.replicate 12 0, 1⟩)]

end Lookup

/-! ## Keeping the table

Two paths change the map.  `usersAddUserLocked` refuses a new user whose range cannot be indexed
or meets an active user's, and inserts its entry.  `usersUpdateUserLocked` checks a new range the
same way, passing over the user's own, then erases the old entry, replaces the fields and inserts
the new entry.  The invariant holds along every run of the two from an empty table
(`AllowedIpReach.inv`). -/

/-- `users_allowed_ip_map_t_find`: the entry whose key compares equal to `key`. -/
def usersAllowedIpMapFind (map : List AllowedIpEntry) (key : AllowedIpKey) : Option AllowedIpEntry :=
  map.find? fun e => usersAllowedIpKeyCmp e.1 key == .eq

/-- `users_allowed_ip_map_t_insert`: under a key the map holds, the map as it is and the entry
there; otherwise the map with `e` before the first entry not below it. -/
def usersAllowedIpMapInsert (map : List AllowedIpEntry) (e : AllowedIpEntry) :
    List AllowedIpEntry × Option AllowedIpEntry :=
  match usersAllowedIpMapFind map e.1 with
  | some x => (map, some x)
  | none => (map.takeWhile (fun x => usersAllowedIpKeyCmp x.1 e.1 == .lt) ++
      e :: usersAllowedIpMapLowerBound map e.1, none)

/-- `usersAllowedIpTableInsertLocked` for the user at index `u`, `none` for `false`: a key held
for another user is refused. -/
def usersAllowedIpTableInsertLocked (map : List AllowedIpEntry) (user : UserAllowedIp) (u : Nat) :
    Option (List AllowedIpEntry) :=
  if !user.wireguard_allowed_ips_valid then some map
  else
    match usersAllowedIpEntryFromUser user u with
    | none => none
    | some e =>
      match usersAllowedIpMapInsert map e with
      | (map, none) => some map
      | (map, some x) => if x.2.user ≠ u then none else some map

/-- `usersAllowedIpTableEraseLocked` for the user at index `u`, `none` for `false`: an entry that
is missing or another user's is a corrupted index. -/
def usersAllowedIpTableEraseLocked (map : List AllowedIpEntry) (user : UserAllowedIp) (u : Nat) :
    Option (List AllowedIpEntry) :=
  if !user.wireguard_allowed_ips_valid then some map
  else
    match usersAllowedIpEntryFromUser user u with
    | none => none
    | some e =>
      match usersAllowedIpMapFind map e.1 with
      | none => none
      | some x =>
        if x.2.user ≠ u then none else some (map.filter fun y => usersAllowedIpKeyCmp y.1 e.1 != .eq)

/-- `usersFindWireGuardAllowedIpsOverlapLocked`: the user other than `ignore` whose range meets the
fields' range; `none` for a valid range that cannot be indexed (`range_ok` false). -/
def usersFindWireGuardAllowedIpsOverlapLocked (map : List AllowedIpEntry) (user : UserAllowedIp)
    (ignore : Option Nat) : Option (Option Nat) :=
  if !user.wireguard_allowed_ips_valid then some none
  else
    (usersAllowedIpRangeFromFields user.wireguard_allowed_ip user.wireguard_allowed_mask
      user.wireguard_allowed_ip_family).map fun r =>
        usersAllowedIpTableFindOverlapLocked map user.wireguard_allowed_ip_family r.1 r.2 ignore

/-- The Allowed-IP steps of `usersAddUserLocked` for a new active user; `none` for `false`. -/
def usersAddUserAllowedIpLocked (users : List UserAllowedIp) (map : List AllowedIpEntry)
    (user : UserAllowedIp) : Option (List UserAllowedIp × List AllowedIpEntry) :=
  if usersFindWireGuardAllowedIpsOverlapLocked map user none = some none then
    (usersAllowedIpTableInsertLocked map user users.length).map fun map => (users ++ [user], map)
  else none

/-- What `usersUpdateUserLocked` answers about a new Allowed-IP range. -/
inductive UsersUpdateResult where
  | kUsersUpdateResultOk
  | kUsersUpdateResultInvalidWireGuardAllowedIps
  | kUsersUpdateResultDuplicateWireGuardAllowedIps
  deriving DecidableEq

/-- The Allowed-IP steps of `usersUpdateUserLocked` giving the active user `u` the fields `nu`: the
answer, the users and the map after, and `none` where the code calls `abortProgramNow`. -/
def usersUpdateUserAllowedIpLocked (users : List UserAllowedIp) (map : List AllowedIpEntry)
    (u : Nat) (nu : UserAllowedIp) :
    Option (UsersUpdateResult × List UserAllowedIp × List AllowedIpEntry) :=
  match usersFindWireGuardAllowedIpsOverlapLocked map nu (some u), users[u]? with
  | none, _ => some (.kUsersUpdateResultInvalidWireGuardAllowedIps, users, map)
  | some (some _), _ => some (.kUsersUpdateResultDuplicateWireGuardAllowedIps, users, map)
  | some none, none => none
  | some none, some user =>
    (usersAllowedIpTableEraseLocked map user u).bind fun map =>
      (usersAllowedIpTableInsertLocked map nu u).map fun map =>
        (.kUsersUpdateResultOk, users.set u nu, map)

/-- The tables reached from an empty one by adding users and updating their ranges, every new
range built on a prefix mask, as the parser of `wireguard_allowed_ips` makes them. -/
inductive AllowedIpReach : List UserAllowedIp → List AllowedIpEntry → Prop
  | empty : AllowedIpReach [] []
  | add {users : List UserAllowedIp} {map : List AllowedIpEntry} {users' map'} (user : UserAllowedIp) :
      AllowedIpReach users map →
      (user.wireguard_allowed_ips_valid = true →
        IsPrefixMask user.wireguard_allowed_mask user.wireguard_allowed_ip_family) →
      usersAddUserAllowedIpLocked users map user = some (users', map') → AllowedIpReach users' map'
  | update {users : List UserAllowedIp} {map : List AllowedIpEntry} {users' map'} {r}
      (u : Nat) (nu : UserAllowedIp) : AllowedIpReach users map →
      (nu.wireguard_allowed_ips_valid = true →
        IsPrefixMask nu.wireguard_allowed_mask nu.wireguard_allowed_ip_family) →
      usersUpdateUserAllowedIpLocked users map u nu = some (r, users', map') →
      AllowedIpReach users' map'

theorem usersAllowedIpKeyCmp_eq_eq_iff {a b : AllowedIpKey} (ha : a.end16.length = 16)
    (hb : b.end16.length = 16) : usersAllowedIpKeyCmp a b = .eq ↔ keyValue a = keyValue b := by
  have hva := value_lt_of_length ha
  have hvb := value_lt_of_length hb
  unfold usersAllowedIpKeyCmp keyValue
  split_ifs with hne hlt
  · -- another family: the keys differ in their top part
    have : a.family.toNat < b.family.toNat := UInt8.lt_iff_toNat_lt.1 hlt
    simp only [false_iff]
    omega
  · have : a.family.toNat ≠ b.family.toNat := fun h => hne (UInt8.toNat_inj.1 h)
    simp only [false_iff]
    omega
  · rw [not_not] at hne
    rw [memoryCompare_eq (ha.trans hb.symm), compare_eq_iff_eq, hne]
    omega

/-- The entry `e` does not meet the range of the entry `nu` has as user `u`, when the two share a
family. -/
def ApartFromNew (nu : UserAllowedIp) (u : Nat) (e : AllowedIpEntry) : Prop :=
  ∀ en, usersAllowedIpEntryFromUser nu u = some en → e.1.family = en.1.family →
    value e.1.end16 < value en.2.start ∨ value en.1.end16 < value e.2.start

section Keeping

variable {users : List UserAllowedIp} {map : List AllowedIpEntry}

/-- An erase that succeeds removes the user's own entry and nothing else. -/
theorem usersAllowedIpTableEraseLocked_mem (hinv : AllowedIpTableInv users map) {u : Nat}
    {user : UserAllowedIp} (hu : users[u]? = some user) {map₁ : List AllowedIpEntry}
    (h : usersAllowedIpTableEraseLocked map user u = some map₁) :
    map₁.Sublist map ∧ ∀ e, e ∈ map₁ ↔ e ∈ map ∧ e.2.user ≠ u := by
  -- the user's entry is the one entry of the map under its index
  have hown : ∀ e ∈ map, e.2.user = u → usersAllowedIpEntryFromUser user u = some e := by
    intro e he heu
    obtain ⟨x, hx, hxe⟩ := hinv.entry e he
    rw [heu, hu, Option.some.injEq] at hx
    rwa [hx, ← heu]
  unfold usersAllowedIpTableEraseLocked at h
  cases hv : user.wireguard_allowed_ips_valid
  · simp only [hv, Bool.not_false, if_true, Option.some.injEq] at h
    subst h
    refine ⟨List.Sublist.refl _, fun e => ⟨fun he => ⟨he, fun heu => ?_⟩, And.left⟩⟩
    have := (usersAllowedIpEntryFromUser_eq_some (hown e he heu)).1
    rw [hv] at this
    cases this
  simp only [hv, Bool.not_true, Bool.false_eq_true, if_false] at h
  split at h
  · cases h
  rename_i eo heo
  have heo_mem := hinv.complete u user hu eo heo
  obtain ⟨-, hend, hse⟩ := hinv.range heo_mem
  split at h
  · cases h
  split_ifs at h
  simp only [Option.some.injEq] at h
  subst h
  refine ⟨List.filter_sublist, fun e => ?_⟩
  rw [List.mem_filter, bne_iff_ne, ne_eq]
  constructor
  · rintro ⟨he, hcmp⟩
    refine ⟨he, fun heu => hcmp ?_⟩
    rw [Option.some.inj ((hown e he heu).symm.trans heo)]
    exact (usersAllowedIpKeyCmp_eq_eq_iff hend hend).2 rfl
  · rintro ⟨he, heu⟩
    refine ⟨he, fun hcmp => heu ?_⟩
    -- an entry under the same key shares the end of the user's entry, so it is that entry
    obtain ⟨-, he16, hse'⟩ := hinv.range he
    have hkey := (usersAllowedIpKeyCmp_eq_eq_iff he16 hend).1 hcmp
    obtain ⟨hfam, hle, hge⟩ := keyValue_between he16 hend hkey.symm.le hkey.le
    rw [hinv.eq_of_mem_range he heo_mem hfam ⟨hse', le_rfl⟩ ⟨hse.trans hle, hge⟩,
      (usersAllowedIpEntryFromUser_eq_some heo).2.2.2]

/-- An insert that succeeds into entries of other users, in key order and apart from the new
entry, adds the new entry in order. -/
theorem usersAllowedIpTableInsertLocked_mem {map₁ map₂ : List AllowedIpEntry} {u : Nat}
    {user : UserAllowedIp} (hrange : ∀ e ∈ map₁, e.2.start.length = 16 ∧
      e.1.end16.length = 16 ∧ value e.2.start ≤ value e.1.end16)
    (hs : map₁.Pairwise fun a b => usersAllowedIpKeyCmp a.1 b.1 = .lt)
    (hother : ∀ e ∈ map₁, e.2.user ≠ u) (hdisj : ∀ e ∈ map₁, ApartFromNew user u e)
    (h : usersAllowedIpTableInsertLocked map₁ user u = some map₂) :
    (map₂.Pairwise fun a b => usersAllowedIpKeyCmp a.1 b.1 = .lt) ∧
      ∀ e, e ∈ map₂ ↔ e ∈ map₁ ∨ usersAllowedIpEntryFromUser user u = some e := by
  unfold usersAllowedIpTableInsertLocked at h
  cases hv : user.wireguard_allowed_ips_valid
  · simp only [hv, Bool.not_false, if_true, Option.some.injEq] at h
    subst h
    refine ⟨hs, fun e => ⟨Or.inl, fun he => he.resolve_right fun hen => ?_⟩⟩
    have := (usersAllowedIpEntryFromUser_eq_some hen).1
    rw [hv] at this
    cases this
  simp only [hv, Bool.not_true, Bool.false_eq_true, if_false] at h
  split at h
  · cases h
  rename_i en hen
  obtain ⟨-, -, he16, hse⟩ :=
    usersAllowedIpRangeFromFields_some (usersAllowedIpEntryFromUser_eq_some hen).2.1
  cases hf : usersAllowedIpMapFind map₁ en.1 with
  | some x =>
    -- a key the map holds is another user's: the insert is refused
    have hxm : x ∈ map₁ := List.mem_of_find?_eq_some hf
    simp only [usersAllowedIpMapInsert, hf, if_pos (hother x hxm), reduceCtorEq] at h
  | none =>
  simp only [usersAllowedIpMapInsert, hf, Option.some.injEq] at h
  subst h
  have hlt : ∀ x ∈ map₁, (usersAllowedIpKeyCmp x.1 en.1 == .lt) = true ↔ keyValue x.1 < keyValue en.1 :=
    fun x hx => by rw [beq_iff_eq, usersAllowedIpKeyCmp_eq_lt_iff (hrange x hx).2.1 he16]
  -- no entry shares the new key: it would share the new range's end
  have hne : ∀ x ∈ map₁, keyValue x.1 ≠ keyValue en.1 := by
    intro x hx hkey
    obtain ⟨hxfam, hle, hge⟩ := keyValue_between (hrange x hx).2.1 he16 hkey.symm.le hkey.le
    rcases hdisj x hx en hen hxfam with h' | h'
    · exact lt_irrefl _ (h'.trans_le (hse.trans hle))
    · exact lt_irrefl _ (h'.trans_le ((hrange x hx).2.2.trans hge))
  have hkeys : ∀ e ∈ en :: map₁, e.1.end16.length = 16 := fun e he =>
    (List.mem_cons.1 he).elim (fun h => h ▸ he16) fun h => (hrange e h).2.1
  have hperm : (map₁.takeWhile (fun x => usersAllowedIpKeyCmp x.1 en.1 == .lt) ++
      en :: usersAllowedIpMapLowerBound map₁ en.1).Perm (en :: map₁) := by
    rw [usersAllowedIpMapLowerBound]
    exact List.perm_middle.trans (List.Perm.cons _ (by rw [List.takeWhile_append_dropWhile]))
  refine ⟨?_, fun e => by rw [hperm.mem_iff, List.mem_cons, hen, Option.some.injEq, or_comm,
    @eq_comm _ en e]⟩
  have hsorted := @pairwise_takeWhile_append_cons _ _ _ (fun e : AllowedIpEntry => keyValue e.1) _ _ _
    (hs.imp_of_mem fun ha hb h =>
      (usersAllowedIpKeyCmp_eq_lt_iff (hrange _ ha).2.1 (hrange _ hb).2.1).1 h) hlt hne
  rw [← usersAllowedIpMapLowerBound] at hsorted
  exact hsorted.imp_of_mem fun ha hb h => (usersAllowedIpKeyCmp_eq_lt_iff
    (hkeys _ (hperm.subset ha)) (hkeys _ (hperm.subset hb))).2 h

/-- **Giving user `u` new fields keeps the invariant**: when `users'` is `users` with `nu` at `u`,
the map after holds the other users' entries and `nu`'s, in key order, and `nu`'s range, on a
prefix mask, meets no other user's. -/
theorem AllowedIpTableInv.replace (hinv : AllowedIpTableInv users map) {u : Nat}
    {nu : UserAllowedIp} {users' : List UserAllowedIp} {map' : List AllowedIpEntry}
    (hu : users'[u]? = some nu) (hrest : ∀ v ≠ u, users'[v]? = users[v]?)
    (hmask : nu.wireguard_allowed_ips_valid = true →
      IsPrefixMask nu.wireguard_allowed_mask nu.wireguard_allowed_ip_family)
    (hs : map'.Pairwise fun a b => usersAllowedIpKeyCmp a.1 b.1 = .lt)
    (hmem : ∀ e, e ∈ map' ↔ (e ∈ map ∧ e.2.user ≠ u) ∨ usersAllowedIpEntryFromUser nu u = some e)
    (hdisj : ∀ e ∈ map, e.2.user ≠ u → ApartFromNew nu u e) : AllowedIpTableInv users' map' where
  entry e he := by
    rcases (hmem e).1 he with ⟨he, heu⟩ | hen
    · rw [hrest _ heu]
      exact hinv.entry e he
    · rw [(usersAllowedIpEntryFromUser_eq_some hen).2.2.2]
      exact ⟨nu, hu, (usersAllowedIpEntryFromUser_eq_some hen).2.2.2 ▸ hen⟩
  complete v user hv e he := by
    by_cases hvu : v = u
    · subst hvu
      rw [hu, Option.some.injEq] at hv
      exact (hmem e).2 (.inr (hv ▸ he))
    · rw [hrest v hvu] at hv
      exact (hmem e).2 (.inl ⟨hinv.complete v user hv e he,
        (usersAllowedIpEntryFromUser_eq_some he).2.2.2 ▸ hvu⟩)
  sorted := hs
  disjoint a ha b hb hab hfam := by
    rcases (hmem a).1 ha with ⟨ha, hau⟩ | han <;> rcases (hmem b).1 hb with ⟨hb, hbu⟩ | hbn
    · exact hinv.disjoint a ha b hb hab hfam
    · exact hdisj a ha hau b hbn hfam
    · exact (hdisj b hb hbu a han hfam.symm).symm
    · exact absurd (Option.some.inj (han.symm.trans hbn)) hab
  masks user huser hv := by
    obtain ⟨v, hv'⟩ := List.mem_iff_getElem?.1 huser
    by_cases hvu : v = u
    · rw [hvu, hu, Option.some.injEq] at hv'
      exact hv' ▸ hmask (hv' ▸ hv)
    · rw [hrest v hvu] at hv'
      exact hinv.masks user (List.mem_of_getElem? hv') hv

/-- Inserting the new entry of user `u` into the map without `u`'s entry keeps the invariant. -/
theorem AllowedIpTableInv.insertLocked (hinv : AllowedIpTableInv users map) {u : Nat}
    {nu : UserAllowedIp} {users' : List UserAllowedIp} {map₁ map₂ : List AllowedIpEntry}
    (hu : users'[u]? = some nu) (hrest : ∀ v ≠ u, users'[v]? = users[v]?)
    (hmask : nu.wireguard_allowed_ips_valid = true →
      IsPrefixMask nu.wireguard_allowed_mask nu.wireguard_allowed_ip_family)
    (hsub : map₁.Sublist map) (hmem₁ : ∀ e, e ∈ map₁ ↔ e ∈ map ∧ e.2.user ≠ u)
    (hdisj : ∀ e ∈ map, e.2.user ≠ u → ApartFromNew nu u e)
    (h : usersAllowedIpTableInsertLocked map₁ nu u = some map₂) : AllowedIpTableInv users' map₂ := by
  obtain ⟨hs, hmem⟩ := usersAllowedIpTableInsertLocked_mem (fun e he => hinv.range (hsub.subset he))
    (hinv.sorted.sublist hsub) (fun e he => ((hmem₁ e).1 he).2)
    (fun e he => hdisj e (hsub.subset he) ((hmem₁ e).1 he).2) h
  exact hinv.replace hu hrest hmask hs (fun e => by rw [hmem, hmem₁]) hdisj

/-- A range the overlap check lets through is apart from every entry but the ignored one's. -/
theorem apartFromNew_of_overlap_none (hinv : AllowedIpTableInv users map) {nu : UserAllowedIp}
    {ignore : Option Nat} (h : usersFindWireGuardAllowedIpsOverlapLocked map nu ignore = some none)
    (u : Nat) : ∀ e ∈ map, some e.2.user ≠ ignore → ApartFromNew nu u e := by
  intro e he hign en hen hfam
  obtain ⟨hv, hr, hefam, -⟩ := usersAllowedIpEntryFromUser_eq_some hen
  obtain ⟨-, hs16, he16, -⟩ := usersAllowedIpRangeFromFields_some hr
  simp only [usersFindWireGuardAllowedIpsOverlapLocked, hv, Bool.not_true, Bool.false_eq_true,
    if_false, hr, Option.map_some, Option.some.injEq] at h
  by_contra hmeet
  exact usersAllowedIpTableFindOverlapLocked_complete hinv hs16 he16 he hign (hfam.trans hefam)
    (by omega) h

/-- **Every reachable table keeps the invariant**, by induction on the run: an add inserts into a
map with no entry of the new index, and an update erases the user's entry before inserting the new
one. -/
theorem AllowedIpReach.inv (r : AllowedIpReach users map) : AllowedIpTableInv users map := by
  induction r with
  | empty => exact ⟨by simp, by simp, List.Pairwise.nil, by simp, by simp⟩
  | @add users map users' map' user _ hmask h ih =>
    unfold usersAddUserAllowedIpLocked at h
    split_ifs at h with hover
    obtain ⟨map₂, hins, heq⟩ := Option.map_eq_some_iff.1 h
    simp only [Prod.mk.injEq] at heq
    obtain ⟨rfl, rfl⟩ := heq
    -- no entry of the map is under the new index
    have hother : ∀ e ∈ map, e.2.user ≠ users.length := fun e he heu => by
      obtain ⟨x, hx, -⟩ := ih.entry e he
      rw [heu, List.getElem?_eq_none le_rfl] at hx
      cases hx
    refine ih.insertLocked (by simp) (fun v hv => ?_) hmask (List.Sublist.refl _)
      (fun e => ⟨fun he => ⟨he, hother e he⟩, And.left⟩)
      (fun e he _ => apartFromNew_of_overlap_none ih hover _ e he (by simp)) hins
    rcases Nat.lt_or_ge v users.length with hlt | hge
    · rw [List.getElem?_append_left hlt]
    · rw [List.getElem?_eq_none hge, List.getElem?_eq_none (by simp; omega)]
  | @update users map users' map' r u nu _ hmask h ih =>
    unfold usersUpdateUserAllowedIpLocked at h
    -- a refused range leaves the table as it was
    rcases hover : usersFindWireGuardAllowedIpsOverlapLocked map nu (some u) with _ | _ | x
    rotate_left
    any_goals
      simp only [hover, Option.some.injEq, Prod.mk.injEq] at h
      obtain ⟨-, rfl, rfl⟩ := h
      exact ih
    rcases hu : users[u]? with _ | user
    · simp [hover, hu] at h
    simp only [hover, hu] at h
    obtain ⟨map₁, hers, h⟩ := Option.bind_eq_some_iff.1 h
    obtain ⟨map₂, hins, heq⟩ := Option.map_eq_some_iff.1 h
    simp only [Prod.mk.injEq] at heq
    obtain ⟨-, rfl, rfl⟩ := heq
    obtain ⟨hsub, hmem₁⟩ := usersAllowedIpTableEraseLocked_mem ih hu hers
    exact ih.insertLocked (List.getElem?_set_self (List.getElem?_eq_some_iff.1 hu).1)
      (fun v hv => List.getElem?_set_ne (Ne.symm hv)) hmask hsub hmem₁
      (fun e he heu => apartFromNew_of_overlap_none ih hover u e he
        (by rw [Ne, Option.some.injEq]; exact heu)) hins

end Keeping

/-- The table of `officeUsers` is reached by adding its two users in turn, so it keeps the
invariant. -/
theorem officeMap_inv : AllowedIpTableInv officeUsers officeMap :=
  have r₁ : AllowedIpReach [officeUsers[0]] [officeMap[0]] :=
    .add officeUsers[0] .empty (fun _ => ⟨24, by decide, by decide⟩) (by decide)
  (AllowedIpReach.add officeUsers[1] r₁ (fun _ => ⟨16, by decide, by decide⟩) (by decide)).inv

theorem usersAllowedIpTable_matches_scan_office :
    AllowedIpTableInv officeUsers officeMap ∧
      usersLookupByWireGuardAllowedIp officeMap (.v4 [10, 1, 2, 3]) = some 0 :=
  ⟨officeMap_inv,
    ((usersAllowedIpTable_matches_scan officeMap_inv).1 (.v4 [10, 1, 2, 3]) 0).2 ⟨_, rfl, by decide⟩⟩

end Users
end WaterWall
