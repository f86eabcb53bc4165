import Mathlib
import WaterWall.WireGuard.AllowedIps
import WaterWall.Net.AddressContext

/-!
# CIDR ranges: parsing, masks and the router's IP match

`parseIPWithSubnetMaskAndPrefix` (`ww/base/wsocket.h`) reads a text `A/P`: the address before the
first slash goes to lwIP's `ipaddr_aton`, the decimal prefix length after it is read with an
overflow guard, and the subnet mask is built from it, for IPv4 as one host-order word, for IPv6
word by word with a partial word at index `P / 32`.  `checkIPRange4` and `checkIPRange6` compare
two addresses under a mask.  The router (`tunnels/Router/common/match_ip.c`) turns its patterns
into ranges, a bare address being a range of one, skips `geoip:` patterns, and matches a
destination against them.  `ipaddr_aton` is not part of the repository, so it is a parameter
(`ParsedIp`); a C string is the list of its bytes before the terminating zero.

* `parseIPWithSubnetMaskAndPrefix_eq_some_iff`: the parser accepts exactly the texts `A/P` of
  `IsCidr`, with a mask of `P` one bits followed by zeros (`IsPrefixMaskOf`).
* `addrNetcmp_prefixMask_iff`: under such a mask the range check says that the two addresses
  agree on their first `P` bits (`AgreeOnPrefix`).
* `routerIpRangesMatch_iff`: after a successful `routerIpRangesParse`, a destination matches
  exactly when some pattern other than a `geoip:` one denotes a range of its family holding it.
-/

set_option autoImplicit false

namespace WaterWall
namespace Router

open WireGuard BigEndian

/-! ## Addresses as `ipaddr_aton` writes them -/

/-- The number of bytes an `ip_addr_t` of the address's type holds. -/
def addrLength : IpAddr → Nat
  | .v4 _ => 4
  | .v6 _ => 16

/-- The family code the parser returns and the router stores for an address's type. -/
def addrFamily : IpAddr → Nat
  | .v4 _ => 4
  | .v6 _ => 6

/-- An address `ipaddr_aton` wrote: its bytes fill the type's `ip4_addr_t` or `ip6_addr_t`. -/
structure ParsedIp where
  ip : IpAddr
  length_bytes : ip.bytes.length = addrLength ip

/-! ## `wlibc` helpers -/

/-- `stringChr`: the offset of the first `c` in the string, if there is one. -/
def stringChr : List UInt8 → UInt8 → Option Nat
  | [], _ => none
  | x :: s, c => if x = c then some 0 else (stringChr s c).map (· + 1)

/-- `asciiLower`: upper-case letters `A`..`Z` (65..90) get the `0x20` bit. -/
def asciiLower (c : UInt8) : UInt8 :=
  if c ≥ 65 ∧ c ≤ 90 then c ||| 0x20 else c

def asciiCaseEqual (a b : UInt8) : Bool := asciiLower a == asciiLower b

/-- `stringStartsWithIgnoreCase`: every byte of `start` matches `str`'s up to case, and `str` does
not end first. -/
def stringStartsWithIgnoreCase : List UInt8 → List UInt8 → Bool
  | _, [] => true
  | [], _ :: _ => false
  | s :: str, t :: start => asciiCaseEqual s t && stringStartsWithIgnoreCase str start

theorem stringChr_append_cons {c : UInt8} {A : List UInt8} (hA : c ∉ A) (B : List UInt8) :
    stringChr (A ++ c :: B) c = some A.length := by
  induction A with
  | nil => simp [stringChr]
  | cons x A ih =>
    have hx : x ≠ c := fun h => hA (h ▸ List.mem_cons_self)
    rw [List.cons_append, stringChr, if_neg hx, ih (fun h => hA (List.mem_cons_of_mem x h))]
    rfl

/-- The first `c` splits the string: what is before it holds no `c`. -/
theorem stringChr_eq_some {s : List UInt8} {c : UInt8} {i : Nat} (h : stringChr s c = some i) :
    ∃ A B, s = A ++ c :: B ∧ c ∉ A ∧ A.length = i := by
  induction s generalizing i with
  | nil => simp [stringChr] at h
  | cons x s ih =>
    rw [stringChr] at h
    split at h
    · case isTrue hx => exact ⟨[], s, by rw [hx]; rfl, List.not_mem_nil, by simpa using h⟩
    · case isFalse hx =>
      obtain ⟨j, hj, rfl⟩ := Option.map_eq_some_iff.1 h
      obtain ⟨A, B, rfl, hA, rfl⟩ := ih hj
      refine ⟨x :: A, B, rfl, ?_, rfl⟩
      simp only [List.mem_cons, not_or]
      exact ⟨Ne.symm hx, hA⟩

theorem stringChr_eq_none_iff {s : List UInt8} {c : UInt8} : stringChr s c = none ↔ c ∉ s := by
  induction s with
  | nil => simp [stringChr]
  | cons x s ih =>
    rw [stringChr, List.mem_cons, not_or]
    split
    · case isTrue hx => simp [hx]
    · case isFalse hx => simp [ih, Ne.symm hx]

/-! ## `parseIPWithSubnetMaskAndPrefix` -/

/-- `INET6_ADDRSTRLEN`: the size of the buffer the address part is copied to. -/
def INET6_ADDRSTRLEN : Nat := 46

/-- The loop over the prefix digits: a byte outside `'0'..'9'` (48..57) fails, and so does a digit
that would take the running value past 128, by the guard `parsed_prefix > (128 - digit) / 10`. -/
def parsePrefixDigits : List UInt8 → Nat → Option Nat
  | [], parsed_prefix => some parsed_prefix
  | c :: cursor, parsed_prefix =>
    if c < 48 ∨ c > 57 then none
    else
      let digit := (c - 48).toNat
      if parsed_prefix > (128 - digit) / 10 then none
      else parsePrefixDigits cursor ( parsed_prefix * 10 + digit)

/-- A digit byte, `'0'..'9'`. -/
def IsDigit (d : UInt8) : Prop := 48 ≤ d.toNat ∧ d.toNat ≤ 57

instance (d : UInt8) : Decidable (IsDigit d) :=
  inferInstanceAs (Decidable (48 ≤ d.toNat ∧ d.toNat ≤ 57))

/-- One more digit after a decimal number. -/
def decimalStep (acc : Nat) (d : UInt8) : Nat := acc * 10 + (d.toNat - 48)

/-- The number a digit string spells, leading zeros allowed. -/
def decimalValue (ds : List UInt8) : Nat := ds.foldl decimalStep 0

theorem le_foldl_decimalStep (ds : List UInt8) (acc : Nat) : acc ≤ ds.foldl decimalStep acc := by
  induction ds generalizing acc with
  | nil => exact Nat.le_refl acc
  | cons d ds ih =>
    rw [List.foldl_cons]
    have := ih (decimalStep acc d)
    simp only [decimalStep] at this ⊢
    omega

/-- **The digit loop reads a decimal number up to 128.**  The guard only fails when the running
value would pass 128, and the value never decreases, so the loop accepts exactly the digit strings
whose whole value is at most 128. -/
theorem parsePrefixDigits_eq_some_iff {ds : List UInt8} {acc v : Nat} (hacc : acc ≤ 128) :
    parsePrefixDigits ds acc = some v ↔
      (∀ d ∈ ds, IsDigit d) ∧ ds.foldl decimalStep acc ≤ 128 ∧ ds.foldl decimalStep acc = v := by
  induction ds generalizing acc with
  | nil => simp [parsePrefixDigits, hacc]
  | cons c ds ih =>
    rw [parsePrefixDigits, List.foldl_cons, List.forall_mem_cons]
    by_cases hc : c < 48 ∨ c > 57
    · -- a byte that is not a digit
      rw [if_pos hc]
      have hnd : ¬ IsDigit c := by
        simp only [IsDigit, UInt8.lt_iff_toNat_lt] at hc ⊢
        exact fun h => by rcases hc with hc | hc <;> simp at hc <;> omega
      simp [hnd]
    · have hdig : IsDigit c := by
        simp only [IsDigit, UInt8.lt_iff_toNat_lt, not_or, Nat.not_lt] at hc ⊢
        simpa using hc
      have hd : (c - 48).toNat = c.toNat - 48 := UInt8.toNat_sub_of_le _ _ (by
        simpa [UInt8.le_iff_toNat_le] using hdig.1)
      have h57 : c.toNat ≤ 57 := hdig.2
      rw [if_neg hc]
      simp only [hd]
      by_cases hg : acc > (128 - (c.toNat - 48)) / 10
      · -- the guard: this digit takes the value past 128, and later digits only add to it
        rw [if_pos hg]
        have hge := le_foldl_decimalStep ds (decimalStep acc c)
        simp only [decimalStep] at hge ⊢
        simp only [reduceCtorEq, false_iff, not_and]
        intro _ _ hle
        omega
      · rw [if_neg hg, ih (by omega)]
        simp only [decimalStep, hdig, true_and]

/-- The four bytes `IP4_ADDR` is given: the 32-bit value from the top byte down. -/
def ipv4Bytes (v : Nat) : List UInt8 :=
  [((v >>> 24) &&& 0xFF).toUInt8, ((v >>> 16) &&& 0xFF).toUInt8, ((v >>> 8) &&& 0xFF).toUInt8,
    (v &&& 0xFF).toUInt8]

/-- The IPv4 subnet mask: `0xFFFFFFFF << (32 - prefix)` as a `u32`, and zero for a zero prefix,
where that shift would be by the full width. -/
def ipv4SubnetMask ( parsed_prefix : Nat) : List UInt8 :=
  let subnet_mask_value :=
    if parsed_prefix = 0 then 0 else (0xFFFFFFFF <<< (32 - parsed_prefix)) % 2 ^ 32
  ipv4Bytes subnet_mask_value

/-- Word `i` of the IPv6 mask, as the number `htonl` is given: all ones below `prefix / 32`, the
partial word at `prefix / 32` when the prefix is not a multiple of 32, zero (from `memoryZero`)
after. -/
def ipv6MaskWord ( parsed_prefix i : Nat) : Nat :=
  if i < parsed_prefix / 32 then 0xFFFFFFFF
  else if i = parsed_prefix / 32 ∧ parsed_prefix % 32 > 0 then
    (0xFFFFFFFF <<< (32 - parsed_prefix % 32)) % 2 ^ 32
  else 0

/-- The IPv6 subnet mask: the four words in network byte order. -/
def ipv6SubnetMask ( parsed_prefix : Nat) : List UInt8 :=
  (List.range 4).flatMap fun i => bytes 4 (ipv6MaskWord parsed_prefix i)

/-! ### The masks' values -/

theorem and_twoFiftyFive_eq_mod (x : Nat) : x &&& 0xFF = x % 256 :=
  Nat.and_two_pow_sub_one_eq_mod x 8

/-- All ones shifted left by `s ≤ 32` and cut to 32 bits leaves the top `32 - s` bits set. -/
theorem shiftLeft_ones_mod {s : Nat} (hs : s ≤ 32) :
    (0xFFFFFFFF <<< s) % 2 ^ 32 = 2 ^ 32 - 2 ^ s := by
  have hX : 1 ≤ 2 ^ s := Nat.one_le_two_pow
  have hX32 : 2 ^ s ≤ 2 ^ 32 := Nat.pow_le_pow_right (by decide) hs
  rw [Nat.shiftLeft_eq]
  generalize 2 ^ s = X at hX hX32 ⊢
  have hsplit : 0xFFFFFFFF * X = 2 ^ 32 * (X - 1) + (2 ^ 32 - X) := by
    norm_num at hX32 ⊢
    omega
  rw [hsplit, Nat.mul_add_mod, Nat.mod_eq_of_lt (by omega)]

theorem value_ipv4Bytes {v : Nat} (hv : v < 2 ^ 32) : value (ipv4Bytes v) = v := by
  simp only [ipv4Bytes, value_cons, value_nil, List.length_cons, List.length_nil, Nat.toUInt8_eq,
    UInt8.toNat_ofNat', and_twoFiftyFive_eq_mod, Nat.shiftRight_eq_div_pow]
  norm_num at hv ⊢
  omega

@[simp] theorem length_ipv4SubnetMask (P : Nat) : (ipv4SubnetMask P).length = 4 := rfl

/-- **The IPv4 mask is `P` ones followed by zeros**, in network order. -/
theorem value_ipv4SubnetMask (P : Nat) :
    value (ipv4SubnetMask P) = 2 ^ 32 - 2 ^ (32 - P) := by
  rw [ipv4SubnetMask]
  split
  · case isTrue h0 =>
    rw [value_ipv4Bytes (Nat.two_pow_pos 32), h0, Nat.sub_zero, Nat.sub_self]
  · case isFalse h0 =>
    have hpos := Nat.two_pow_pos (32 - P)
    rw [shiftLeft_ones_mod (Nat.sub_le 32 P), value_ipv4Bytes (by omega)]

/-- Word `i` of the IPv6 mask, read as a number: all ones before word `P / 32`, the top `P % 32`
bits there, zero after.  For a multiple of 32 the source skips word `P / 32`, and the formula
gives zero there too. -/
theorem ipv6MaskWord_eq (P i : Nat) :
    ipv6MaskWord P i =
      if i < P / 32 then 2 ^ 32 - 1 else if i = P / 32 then 2 ^ 32 - 2 ^ (32 - P % 32) else 0 := by
  rw [ipv6MaskWord]
  by_cases hlt : i < P / 32
  · rw [if_pos hlt, if_pos hlt]
    rfl
  · rw [if_neg hlt, if_neg hlt]
    by_cases heq : i = P / 32
    · rw [if_pos heq]
      by_cases hr : P % 32 > 0
      · rw [if_pos ⟨heq, hr⟩, shiftLeft_ones_mod (by omega)]
      · rw [if_neg (fun h => hr h.2), show P % 32 = 0 by omega, Nat.sub_zero, Nat.sub_self]
    · rw [if_neg (fun h => heq h.1), if_neg heq]

theorem ipv6MaskWord_lt (P i : Nat) : ipv6MaskWord P i < 2 ^ 32 := by
  rw [ipv6MaskWord_eq]
  have hpos := Nat.two_pow_pos (32 - P % 32)
  split_ifs <;> omega

@[simp] theorem length_ipv6SubnetMask (P : Nat) : (ipv6SubnetMask P).length = 16 := rfl

/-- The IPv6 mask read as a number: its four words, the first the most significant. -/
theorem value_ipv6SubnetMask_words (P : Nat) :
    value (ipv6SubnetMask P) =
      ipv6MaskWord P 0 * 2 ^ 96 + ipv6MaskWord P 1 * 2 ^ 64 + ipv6MaskWord P 2 * 2 ^ 32 +
        ipv6MaskWord P 3 := by
  rw [ipv6SubnetMask, show List.range 4 = [0, 1, 2, 3] from rfl]
  simp only [List.flatMap_cons, List.flatMap_nil, List.append_nil, value_append, value_bytes,
    length_bytes, List.length_append]
  have h : ∀ i, ipv6MaskWord P i % 256 ^ 4 = ipv6MaskWord P i := fun i =>
    Nat.mod_eq_of_lt (ipv6MaskWord_lt P i)
  rw [h, h, h, h]
  norm_num
  omega

/-- **The IPv6 mask is `P` ones followed by zeros**, in network order.  The words split the
prefix as `P = 32 * q + r`: all ones in the words before `q`, the top `r` bits of word `q`. -/
theorem value_ipv6SubnetMask {P : Nat} (hP : P ≤ 128) :
    value (ipv6SubnetMask P) = 2 ^ 128 - 2 ^ (128 - P) := by
  obtain ⟨q, r, hr, rfl⟩ : ∃ q r, r < 32 ∧ P = 32 * q + r :=
    ⟨P / 32, P % 32, Nat.mod_lt _ (by decide), (Nat.div_add_mod P 32).symm⟩
  have hdiv : (32 * q + r) / 32 = q := by omega
  have hmod : (32 * q + r) % 32 = r := by omega
  rw [value_ipv6SubnetMask_words, ipv6MaskWord_eq, ipv6MaskWord_eq, ipv6MaskWord_eq,
    ipv6MaskWord_eq, hdiv, hmod]
  rcases Nat.lt_or_ge q 4 with hq | hq
  · -- the partial word is one of the four: its zero bits are the mask's low `32 - r`
    have hpow : 2 ^ (128 - (32 * q + r)) = 2 ^ (96 - 32 * q) * 2 ^ (32 - r) := by
      rw [← Nat.pow_add]
      congr 1
      omega
    have hX : 1 ≤ 2 ^ (32 - r) := Nat.one_le_two_pow
    have hX32 : 2 ^ (32 - r) ≤ 2 ^ 32 := Nat.pow_le_pow_right (by decide) (by omega)
    rw [hpow]
    generalize 2 ^ (32 - r) = X at hX hX32 ⊢
    interval_cases q <;> norm_num at hX32 ⊢ <;> omega
  · -- `P = 128`: all four words are ones
    obtain rfl : q = 4 := by omega
    obtain rfl : r = 0 := by omega
    norm_num

/-- The mask of a `P`-bit prefix for the address's type. -/
def subnetMaskOf (ip : IpAddr) (P : Nat) : IpAddr :=
  match ip with
  | .v4 _ => .v4 (ipv4SubnetMask P)
  | .v6 _ => .v6 (ipv6SubnetMask P)

/-- What a successful parse writes: the return value (4 or 6), `ip`, `subnet_mask` and
`prefix_len`. -/
structure CidrParse where
  family : Nat
  ip : IpAddr
  subnet_mask : IpAddr
  prefix_len : Nat
deriving DecidableEq, Repr

section Parse

variable (ipaddr_aton : List UInt8 → Option ParsedIp)

/-- `parseIPWithSubnetMaskAndPrefix`; `none` is `ERR_ARG`.  An address of neither type is not
modelled: `ipaddr_aton` gives one of the two. -/
def parseIPWithSubnetMaskAndPrefix (ip_str : List UInt8) : Option CidrParse :=
  match stringChr ip_str 47 with
  | none => none
  | some ip_len =>
    -- `slash == ip_str`, or nothing after the slash
    if ip_len = 0 ∨ ip_str.drop (ip_len + 1) = [] then none
    else if ip_len ≥ INET6_ADDRSTRLEN then none
    else
      match parsePrefixDigits (ip_str.drop (ip_len + 1)) 0 with
      | none => none
      | some parsed_prefix =>
        match ipaddr_aton (ip_str.take ip_len) with
        | none => none
        | some ⟨.v4 addr, _⟩ =>
          if parsed_prefix > 32 then none
          else some ⟨4, .v4 addr, .v4 (ipv4SubnetMask parsed_prefix), parsed_prefix⟩
        | some ⟨.v6 addr, _⟩ =>
          some ⟨6, .v6 addr, .v6 (ipv6SubnetMask parsed_prefix), parsed_prefix⟩

/-- `parseIPWithSubnetMask`: the same parse without the prefix length. -/
def parseIPWithSubnetMask (ip_str : List UInt8) : Option (Nat × IpAddr × IpAddr) :=
  (parseIPWithSubnetMaskAndPrefix ipaddr_aton ip_str).map fun r => (r.family, r.ip, r.subnet_mask)

/-- `parseIpAddress`: the address `ipaddr_aton` gives, whose type is the result. -/
def parseIpAddress (ip_str : List UInt8) : Option IpAddr :=
  (ipaddr_aton ip_str).map ParsedIp.ip


/-- `m` is, for the type of `ip`, the mask of a `P`-bit prefix: as many bytes as that type holds,
read in network order as `P` one bits and then zeros. -/
def IsPrefixMaskOf (ip : IpAddr) (P : Nat) (m : IpAddr) : Prop :=
  addrFamily m = addrFamily ip ∧ m.bytes.length = addrLength ip ∧
    value m.bytes = 2 ^ (8 * addrLength ip) - 2 ^ (8 * addrLength ip - P)

theorem isPrefixMaskOf_subnetMaskOf (ip : IpAddr) {P : Nat} (hP : P ≤ 8 * addrLength ip) :
    IsPrefixMaskOf ip P (subnetMaskOf ip P) := by
  cases ip with
  | v4 addr => exact ⟨rfl, rfl, value_ipv4SubnetMask P⟩
  | v6 addr => exact ⟨rfl, rfl, value_ipv6SubnetMask hP⟩

/-- A prefix mask is determined by its type and its value. -/
theorem IsPrefixMaskOf.eq_subnetMaskOf {ip m : IpAddr} {P : Nat} (hP : P ≤ 8 * addrLength ip)
    (h : IsPrefixMaskOf ip P m) : m = subnetMaskOf ip P := by
  obtain ⟨hfam, hlen, hval⟩ := h
  obtain ⟨-, hlen', hval'⟩ := isPrefixMaskOf_subnetMaskOf ip hP
  have hbytes : m.bytes = (subnetMaskOf ip P).bytes :=
    value_injective (hlen.trans hlen'.symm) (hval.trans hval'.symm)
  -- a mask of the other type has the other family code
  cases ip with
  | v4 a =>
    cases m with
    | v4 b => exact congrArg IpAddr.v4 hbytes
    | v6 b => simp [addrFamily] at hfam
  | v6 a =>
    cases m with
    | v4 b => simp [addrFamily] at hfam
    | v6 b => exact congrArg IpAddr.v6 hbytes

/-- What the parser writes for the address `ip` and the prefix length `P`. -/
def cidrOf (ip : IpAddr) (P : Nat) : CidrParse := ⟨addrFamily ip, ip, subnetMaskOf ip P, P⟩

/-! ### What the parser accepts -/

/-- `s` is `A/P` as the parser takes it apart: `A` is what comes before the first slash, not empty
and shorter than `INET6_ADDRSTRLEN`, an address `ipaddr_aton` accepts, and `P` is a non-empty
string of digits whose value fits the address's type. -/
def IsCidr (s : List UInt8) (ip : ParsedIp) (P : Nat) : Prop :=
  ∃ A Pd, s = A ++ 47 :: Pd ∧ 47 ∉ A ∧ A ≠ [] ∧ A.length < INET6_ADDRSTRLEN ∧ Pd ≠ [] ∧
    (∀ d ∈ Pd, IsDigit d) ∧ decimalValue Pd = P ∧ ipaddr_aton A = some ip ∧
    P ≤ 8 * addrLength ip.ip

theorem IsCidr.le {s : List UInt8} {ip : ParsedIp} {P : Nat}
    (h : IsCidr ipaddr_aton s ip P) : P ≤ 8 * addrLength ip.ip := by
  obtain ⟨A, Pd, -, -, -, -, -, -, -, -, hle⟩ := h
  exact hle

theorem IsCidr.slash_mem {s : List UInt8} {ip : ParsedIp} {P : Nat}
    (h : IsCidr ipaddr_aton s ip P) : 47 ∈ s := by
  obtain ⟨A, Pd, rfl, -⟩ := h
  exact List.mem_append_right A List.mem_cons_self

/-- The parser on a text split at its first slash: the checks on the two parts, the digits, the
address, and the prefix against the address's width.  For IPv6 the source has no check of its
own: the digit loop already keeps the prefix at most 128. -/
theorem parseIPWithSubnetMaskAndPrefix_append {A B : List UInt8} (hA : 47 ∉ A) :
    parseIPWithSubnetMaskAndPrefix ipaddr_aton (A ++ 47 :: B) =
      if A = [] ∨ B = [] ∨ INET6_ADDRSTRLEN ≤ A.length then none
      else (parsePrefixDigits B 0).bind fun P => (ipaddr_aton A).bind fun ip =>
        if P ≤ 8 * addrLength ip.ip then some (cidrOf ip.ip P) else none := by
  have htake : (A ++ 47 :: B).take A.length = A := List.take_left' rfl
  have hdrop : (A ++ 47 :: B).drop (A.length + 1) = B := by
    rw [← List.drop_drop, List.drop_left' rfl, List.drop_one, List.tail_cons]
  rw [parseIPWithSubnetMaskAndPrefix, stringChr_append_cons hA]
  dsimp only
  rw [htake, hdrop]
  simp only [List.length_eq_zero_iff]
  by_cases hbad : A = [] ∨ B = [] ∨ INET6_ADDRSTRLEN ≤ A.length
  · rw [if_pos hbad]
    rcases hbad with h | h | h
    · rw [if_pos (.inl h)]
    · rw [if_pos (.inr h)]
    · split_ifs <;> rfl
  · rw [if_neg hbad, if_neg (by tauto), if_neg (by tauto)]
    cases hP : parsePrefixDigits B 0 with
    | none => rfl
    | some P =>
      -- the digit loop bounds the prefix by 128, the IPv6 width
      have hP128 : P ≤ 128 := by
        obtain ⟨-, hle, rfl⟩ := (parsePrefixDigits_eq_some_iff (Nat.zero_le 128)).1 hP
        exact hle
      cases ipaddr_aton A with
      | none => rfl
      | some ip =>
        obtain ⟨ip, hip⟩ := ip
        cases ip with
        | v4 addr =>
          simp only [Option.bind_some]
          by_cases hle : P ≤ 32
          · rw [if_neg (by omega), if_pos (show P ≤ 8 * addrLength (IpAddr.v4 addr) from hle)]
            rfl
          · rw [if_pos (by omega), if_neg (show ¬ P ≤ 8 * addrLength (IpAddr.v4 addr) from hle)]
        | v6 addr =>
          simp only [Option.bind_some]
          rw [if_pos (show P ≤ 8 * addrLength (IpAddr.v6 addr) from hP128)]
          rfl

theorem parseIPWithSubnetMaskAndPrefix_of_not_mem {s : List UInt8} (hs : 47 ∉ s) :
    parseIPWithSubnetMaskAndPrefix ipaddr_aton s = none := by
  rw [parseIPWithSubnetMaskAndPrefix, stringChr_eq_none_iff.2 hs]

/-- **The parser accepts exactly the texts `A/P`**, and writes the address `ipaddr_aton` gives
for `A`, the family of its type, the prefix length `P` and the mask of a `P`-bit prefix. -/
theorem parseIPWithSubnetMaskAndPrefix_eq_some_iff {s : List UInt8} {r : CidrParse} :
    parseIPWithSubnetMaskAndPrefix ipaddr_aton s = some r ↔
      ∃ ip P, IsCidr ipaddr_aton s ip P ∧ r = cidrOf ip.ip P := by
  constructor
  · intro h
    by_cases hs : 47 ∈ s
    · -- split the text at its first slash and read the equation above
      obtain ⟨i, hi⟩ := Option.ne_none_iff_exists'.1 (mt stringChr_eq_none_iff.1 (not_not.2 hs))
      obtain ⟨A, B, rfl, hA, -⟩ := stringChr_eq_some hi
      rw [parseIPWithSubnetMaskAndPrefix_append ipaddr_aton hA] at h
      split_ifs at h with hbad
      obtain ⟨P, hP, h⟩ := Option.bind_eq_some_iff.1 h
      obtain ⟨ip, hip, h⟩ := Option.bind_eq_some_iff.1 h
      split_ifs at h with hle
      obtain ⟨hdig, -, rfl⟩ := (parsePrefixDigits_eq_some_iff (Nat.zero_le 128)).1 hP
      exact ⟨ip, _, ⟨A, B, rfl, hA, by tauto, by omega, by tauto, hdig, rfl, hip, hle⟩,
        (Option.some.inj h).symm⟩
    · rw [parseIPWithSubnetMaskAndPrefix_of_not_mem ipaddr_aton hs] at h
      exact absurd h (by simp)
  · rintro ⟨ip, P, ⟨A, B, rfl, hA, hAne, hAlen, hBne, hdig, rfl, hip, hle⟩, rfl⟩
    have h128 : decimalValue B ≤ 128 := by
      cases h : ip.ip <;> simp only [h, addrLength] at hle <;> omega
    have hP : parsePrefixDigits B 0 = some (decimalValue B) :=
      (parsePrefixDigits_eq_some_iff (Nat.zero_le 128)).2 ⟨hdig, h128, rfl⟩
    have hok : ¬(A = [] ∨ B = [] ∨ INET6_ADDRSTRLEN ≤ A.length) := by
      simp only [not_or, Nat.not_le]
      exact ⟨hAne, hBne, hAlen⟩
    rw [parseIPWithSubnetMaskAndPrefix_append ipaddr_aton hA, if_neg hok, hP,
      Option.bind_some, hip, Option.bind_some, if_pos hle]

/-- A parse result is `cidrOf ip P` exactly when its fields are: the family and the address of
`ip`, the prefix length `P`, and a mask of a `P`-bit prefix. -/
theorem eq_cidrOf_iff {r : CidrParse} {ip : IpAddr} {P : Nat} (hP : P ≤ 8 * addrLength ip) :
    r = cidrOf ip P ↔
      r.family = addrFamily ip ∧ r.ip = ip ∧ r.prefix_len = P ∧ IsPrefixMaskOf ip P r.subnet_mask := by
  constructor
  · rintro rfl
    exact ⟨rfl, rfl, rfl, isPrefixMaskOf_subnetMaskOf ip hP⟩
  · obtain ⟨family, ip', mask, prefix_len⟩ := r
    rintro ⟨hf, hip, hp, hmask⟩
    dsimp only at hf hip hp hmask
    subst hf hip hp
    rw [hmask.eq_subnetMaskOf hP]
    rfl

/-- What a parse writes is a full address with a mask of its prefix length. -/
theorem isPrefixMaskOf_of_parse {s : List UInt8} {r : CidrParse}
    (h : parseIPWithSubnetMaskAndPrefix ipaddr_aton s = some r) :
    r.ip.bytes.length = addrLength r.ip ∧ IsPrefixMaskOf r.ip r.prefix_len r.subnet_mask := by
  obtain ⟨ip, P, hc, rfl⟩ := (parseIPWithSubnetMaskAndPrefix_eq_some_iff ipaddr_aton).1 h
  exact ⟨ip.length_bytes, isPrefixMaskOf_subnetMaskOf ip.ip hc.le⟩

end Parse

/-! ## The range checks -/

/-- `checkIPRange4`: the two addresses agree under the mask.  The source compares the `u32`
words, which agree under their mask exactly when each of their bytes does. -/
def checkIPRange4 (test_addr base_addr subnet_mask : List UInt8) : Bool :=
  addrNetcmp 4 test_addr base_addr subnet_mask

/-- `checkIPRange6`: the masked words compared with `memcmp`, i.e. byte by byte. -/
def checkIPRange6 (test_addr base_addr subnet_mask : List UInt8) : Bool :=
  addrNetcmp 16 test_addr base_addr subnet_mask

/-- `t` and `a` agree on their first `P` of `W` bits, in network bit order. -/
def AgreeOnPrefix (W P : Nat) (t a : List UInt8) : Prop :=
  value t / 2 ^ (W - P) = value a / 2 ^ (W - P)

instance (W P : Nat) (t a : List UInt8) : Decidable (AgreeOnPrefix W P t a) :=
  inferInstanceAs (Decidable (_ = _))

/-- The byte-by-byte compare under a mask is an equality of the masked strings. -/
theorem addrNetcmp_eq_true_iff {n : Nat} {t a m : List UInt8} (ht : t.length = n)
    (ha : a.length = n) (hm : m.length = n) :
    addrNetcmp n t a m = true ↔ List.zipWith (· &&& ·) t m = List.zipWith (· &&& ·) a m := by
  rw [addrNetcmp, List.all_eq_true, List.ext_getElem_iff]
  simp only [List.mem_range, beq_iff_eq, List.length_zipWith, ht, ha, hm, Nat.min_self, true_and,
    List.getElem_zipWith]
  constructor
  · intro h i hi _
    have := h i hi
    rwa [List.getD_eq_getElem _ _ (by omega), List.getD_eq_getElem _ _ (by omega),
      List.getD_eq_getElem _ _ (by omega)] at this
  · intro h i hi
    rw [List.getD_eq_getElem _ _ (by omega), List.getD_eq_getElem _ _ (by omega),
      List.getD_eq_getElem _ _ (by omega)]
    exact h i hi hi

/-- **Under a prefix mask the compare is agreement on the prefix.**  The masked strings are
equal exactly when their values are, and a value under the mask `2 ^ W - 2 ^ (W - P)` keeps its
quotient by `2 ^ (W - P)`. -/
theorem addrNetcmp_prefixMask_iff {n P : Nat} {t a m : List UInt8} (ht : t.length = n)
    (ha : a.length = n) (hm : m.length = n) (hmv : value m = 2 ^ (8 * n) - 2 ^ (8 * n - P)) :
    addrNetcmp n t a m = true ↔ AgreeOnPrefix (8 * n) P t a := by
  have hlt : ∀ {xs : List UInt8}, xs.length = n → value xs < 2 ^ (8 * n) := fun h =>
    h ▸ value_lt_two_pow _
  have hvalues : List.zipWith (· &&& ·) t m = List.zipWith (· &&& ·) a m ↔
      value t &&& value m = value a &&& value m := by
    rw [← value_zipWith_and (ht.trans hm.symm), ← value_zipWith_and (ha.trans hm.symm)]
    exact ⟨fun h => by rw [h], fun h => value_injective (by simp [ht, ha, hm]) h⟩
  rw [addrNetcmp_eq_true_iff ht ha hm, hvalues, hmv,
    Prefix.and_prefixMask_eq_iff_div (Nat.sub_le _ _) (hlt ht) (hlt ha)]
  rfl

theorem checkIPRange4_iff {P : Nat} {t a m : List UInt8} (ht : t.length = 4) (ha : a.length = 4)
    (hm : IsPrefixMaskOf (.v4 a) P (.v4 m)) :
    checkIPRange4 t a m = true ↔ AgreeOnPrefix 32 P t a :=
  addrNetcmp_prefixMask_iff ht ha hm.2.1 hm.2.2

theorem checkIPRange6_iff {P : Nat} {t a m : List UInt8} (ht : t.length = 16) (ha : a.length = 16)
    (hm : IsPrefixMaskOf (.v6 a) P (.v6 m)) :
    checkIPRange6 t a m = true ↔ AgreeOnPrefix 128 P t a :=
  addrNetcmp_prefixMask_iff ht ha hm.2.1 hm.2.2

/-! ## The router -/

/-- `router_ip_range_t`. -/
structure RouterIpRange where
  ip : IpAddr
  mask : IpAddr
  family : Nat
deriving DecidableEq, Repr

def routerHasChar (s : List UInt8) (c : UInt8) : Bool := s.contains c

/-- The text `geoip:`. -/
def geoipPrefix : List UInt8 := [103, 101, 111, 105, 112, 58]

section Router

variable (ipaddr_aton : List UInt8 → Option ParsedIp)

/-- `routerParseIpEntry`: a pattern with a slash is a CIDR range; one without is a single
address, with a mask of all ones. -/
def routerParseIpEntry (pattern : List UInt8) : Option RouterIpRange :=
  if routerHasChar pattern 47 then
    match parseIPWithSubnetMask ipaddr_aton pattern with
    | none => none
    | some (family, ip, mask) =>
      if family ≠ 4 ∧ family ≠ 6 then none else some ⟨ip, mask, family⟩
  else
    match parseIpAddress ipaddr_aton pattern with
    | some (.v4 addr) => some ⟨.v4 addr, .v4 [0xFF, 0xFF, 0xFF, 0xFF], 4⟩
    | some (.v6 addr) => some ⟨.v6 addr, .v6 (List.replicate 16 0xFF), 6⟩
    | none => none

/-- `routerIpRangesParse`: the ranges of the patterns in order, `geoip:` ones skipped; one pattern
that is not a range fails the whole list. -/
def routerIpRangesParse : List (List UInt8) → Option (List RouterIpRange)
  | [] => some []
  | pattern :: patterns =>
    if stringStartsWithIgnoreCase pattern geoipPrefix then routerIpRangesParse patterns
    else
      match routerParseIpEntry ipaddr_aton pattern with
      | none => none
      | some range => (routerIpRangesParse patterns).map (range :: ·)

end Router

/-- One pass of the loop of `routerIpRangesMatch`: the range is of the destination's family and
holds it. -/
def routerIpRangeHolds (host : Host) (range : RouterIpRange) : Bool :=
  match host with
  | .ipv4 test _ => range.family == 4 && checkIPRange4 test range.ip.bytes range.mask.bytes
  | .ipv6 test _ => range.family == 6 && checkIPRange6 test range.ip.bytes range.mask.bytes
  | _ => false

/-- `routerIpRangesMatch`: the destination is an address, and some range holds it. -/
def routerIpRangesMatch (ctx : AddressContext) (ranges : List RouterIpRange) : Bool :=
  if !addresscontextIsIpType ctx then false else ranges.any (routerIpRangeHolds ctx.host)

/-! ### What a pattern denotes -/

/-- The range of the address `ip` and the prefix length `P`, as the router stores it. -/
def rangeOf (ip : IpAddr) (P : Nat) : RouterIpRange := ⟨ip, subnetMaskOf ip P, addrFamily ip⟩

/-- The destination is an address of `ip`'s type that agrees with `ip` on the first `P` bits. -/
def InRange (host : Host) (ip : IpAddr) (P : Nat) : Prop :=
  match host, ip with
  | .ipv4 t _, .v4 a => AgreeOnPrefix 32 P t a
  | .ipv6 t _, .v6 a => AgreeOnPrefix 128 P t a
  | _, _ => False

/-- A full-length prefix has the mask of all ones the router gives a bare address. -/
theorem ipv4SubnetMask_thirtyTwo : ipv4SubnetMask 32 = [0xFF, 0xFF, 0xFF, 0xFF] := by decide

theorem ipv6SubnetMask_oneTwentyEight : ipv6SubnetMask 128 = List.replicate 16 0xFF := by decide

/-- Where the prefix lies in the range, the range's check is the prefix agreement. -/
theorem routerIpRangeHolds_rangeOf (host : Host) (ip : ParsedIp) {P : Nat}
    (hP : P ≤ 8 * addrLength ip.ip) :
    routerIpRangeHolds host (rangeOf ip.ip P) = true ↔ InRange host ip.ip P := by
  obtain ⟨ip, hip⟩ := ip
  have hmask := isPrefixMaskOf_subnetMaskOf ip hP
  cases host with
  | ipv4 t ht =>
    cases ip with
    | v4 a =>
      simp only [routerIpRangeHolds, rangeOf, addrFamily, beq_self_eq_true, Bool.true_and, InRange]
      exact checkIPRange4_iff ht hip hmask
    | v6 a => simp [routerIpRangeHolds, rangeOf, addrFamily, InRange]
  | ipv6 t ht =>
    cases ip with
    | v4 a => simp [routerIpRangeHolds, rangeOf, addrFamily, InRange]
    | v6 a =>
      simp only [routerIpRangeHolds, rangeOf, addrFamily, beq_self_eq_true, Bool.true_and, InRange]
      exact checkIPRange6_iff ht hip hmask
  | domain name h => simp [routerIpRangeHolds, InRange]
  | unset => simp [routerIpRangeHolds, InRange]

/-- The address check in front of the loop excludes nothing the loop would accept. -/
theorem routerIpRangesMatch_eq_true_iff (ctx : AddressContext) (ranges : List RouterIpRange) :
    routerIpRangesMatch ctx ranges = true ↔ ∃ r ∈ ranges, routerIpRangeHolds ctx.host r = true := by
  rw [routerIpRangesMatch, ← List.any_eq_true]
  obtain ⟨host, port⟩ := ctx
  cases host <;> simp [addresscontextIsIpType, routerIpRangeHolds]

section Router

variable (ipaddr_aton : List UInt8 → Option ParsedIp)

/-- A pattern denotes the range of an address and a prefix length: as a CIDR text, or, without a
slash, as a bare address with the full-length prefix. -/
def PatternDenotes (pattern : List UInt8) (ip : ParsedIp) (P : Nat) : Prop :=
  IsCidr ipaddr_aton pattern ip P ∨
    (47 ∉ pattern ∧ ipaddr_aton pattern = some ip ∧ P = 8 * addrLength ip.ip)

theorem PatternDenotes.le {pattern : List UInt8} {ip : ParsedIp} {P : Nat}
    (h : PatternDenotes ipaddr_aton pattern ip P) : P ≤ 8 * addrLength ip.ip := by
  rcases h with h | ⟨-, -, rfl⟩
  · exact h.le
  · exact Nat.le_refl _

/-- **An entry is the range its pattern denotes.** -/
theorem routerParseIpEntry_eq_some_iff {pattern : List UInt8} {range : RouterIpRange} :
    routerParseIpEntry ipaddr_aton pattern = some range ↔
      ∃ ip P, PatternDenotes ipaddr_aton pattern ip P ∧ range = rangeOf ip.ip P := by
  rw [routerParseIpEntry]
  by_cases hs : 47 ∈ pattern
  · -- a CIDR text: the parser's result, whose family always passes the router's check
    rw [if_pos (by simpa [routerHasChar] using hs)]
    have hbare : ∀ {ip P}, PatternDenotes ipaddr_aton pattern ip P → IsCidr ipaddr_aton pattern ip P :=
      fun h => h.resolve_right fun h => h.1 hs
    cases hpar : parseIPWithSubnetMaskAndPrefix ipaddr_aton pattern with
    | none =>
      simp only [parseIPWithSubnetMask, hpar, Option.map_none, reduceCtorEq, false_iff]
      rintro ⟨ip, P, hden, -⟩
      have := (parseIPWithSubnetMaskAndPrefix_eq_some_iff ipaddr_aton).2 ⟨ip, P, hbare hden, rfl⟩
      rw [hpar] at this
      exact absurd this (by simp)
    | some c =>
      obtain ⟨ip, P, hc, rfl⟩ := (parseIPWithSubnetMaskAndPrefix_eq_some_iff ipaddr_aton).1 hpar
      have hfam : ¬(addrFamily ip.ip ≠ 4 ∧ addrFamily ip.ip ≠ 6) := by
        cases ip.ip <;> simp [addrFamily]
      simp only [parseIPWithSubnetMask, hpar, Option.map_some, cidrOf]
      rw [if_neg hfam, Option.some.injEq]
      constructor
      · rintro rfl
        exact ⟨ip, P, .inl hc, rfl⟩
      · rintro ⟨ip', P', hden, rfl⟩
        -- the parse is a function of the text: the two readings agree
        have := (parseIPWithSubnetMaskAndPrefix_eq_some_iff ipaddr_aton).2
          ⟨ip', P', hbare hden, rfl⟩
        rw [hpar, Option.some.injEq] at this
        exact congrArg (fun c : CidrParse => (⟨c.ip, c.subnet_mask, c.family⟩ : RouterIpRange)) this
  · -- a bare address, with the full-length prefix
    rw [if_neg (by simpa [routerHasChar] using hs)]
    have hcidr : ∀ {ip P}, PatternDenotes ipaddr_aton pattern ip P →
        ipaddr_aton pattern = some ip ∧ P = 8 * addrLength ip.ip :=
      fun h => (h.resolve_left fun h => hs h.slash_mem).2
    cases ha : ipaddr_aton pattern with
    | none =>
      simp only [parseIpAddress, ha, Option.map_none, reduceCtorEq, false_iff]
      rintro ⟨ip, P, hden, -⟩
      have := (hcidr hden).1
      rw [ha] at this
      exact absurd this (by simp)
    | some ip =>
      have hden : PatternDenotes ipaddr_aton pattern ip (8 * addrLength ip.ip) := .inr ⟨hs, ha, rfl⟩
      have hunique : ∀ {ip' P'}, PatternDenotes ipaddr_aton pattern ip' P' →
          rangeOf ip'.ip P' = rangeOf ip.ip (8 * addrLength ip.ip) := by
        intro ip' P' h
        obtain ⟨h1, rfl⟩ := hcidr h
        rw [ha, Option.some.injEq] at h1
        rw [h1]
      have hrange : ∃ r, (match parseIpAddress ipaddr_aton pattern with
          | some (.v4 addr) => some (⟨.v4 addr, .v4 [0xFF, 0xFF, 0xFF, 0xFF], 4⟩ : RouterIpRange)
          | some (.v6 addr) => some ⟨.v6 addr, .v6 (List.replicate 16 0xFF), 6⟩
          | none => none) = some r ∧ r = rangeOf ip.ip (8 * addrLength ip.ip) := by
        obtain ⟨ip, hip⟩ := ip
        cases ip with
        | v4 a =>
          refine ⟨⟨.v4 a, .v4 [0xFF, 0xFF, 0xFF, 0xFF], 4⟩,
            by simp only [parseIpAddress, ha, Option.map_some], ?_⟩
          rw [rangeOf, subnetMaskOf, addrLength, ipv4SubnetMask_thirtyTwo]
          rfl
        | v6 a =>
          refine ⟨⟨.v6 a, .v6 (List.replicate 16 0xFF), 6⟩,
            by simp only [parseIpAddress, ha, Option.map_some], ?_⟩
          rw [rangeOf, subnetMaskOf, addrLength, ipv6SubnetMask_oneTwentyEight]
          rfl
      obtain ⟨r, hr, rfl⟩ := hrange
      rw [hr, Option.some.injEq]
      constructor
      · rintro rfl
        exact ⟨ip, _, hden, rfl⟩
      · rintro ⟨ip', P', hden', rfl⟩
        exact (hunique hden').symm

/-- The ranges of a successful parse are the entries of the patterns that are not `geoip:`
ones. -/
theorem mem_of_routerIpRangesParse {patterns : List (List UInt8)} {ranges : List RouterIpRange}
    (h : routerIpRangesParse ipaddr_aton patterns = some ranges) (r : RouterIpRange) :
    r ∈ ranges ↔ ∃ p ∈ patterns, stringStartsWithIgnoreCase p geoipPrefix = false ∧
      routerParseIpEntry ipaddr_aton p = some r := by
  induction patterns generalizing ranges with
  | nil =>
    rw [routerIpRangesParse, Option.some.injEq] at h
    subst h
    simp
  | cons p ps ih =>
    rw [routerIpRangesParse] at h
    split at h
    · case isTrue hgeo =>
      rw [ih h]
      simp [hgeo]
    · case isFalse hgeo =>
      cases he : routerParseIpEntry ipaddr_aton p with
      | none => simp [he] at h
      | some r0 =>
        rw [he] at h
        obtain ⟨rs, hrs, rfl⟩ := Option.map_eq_some_iff.1 h
        rw [List.mem_cons, ih hrs]
        simp only [Bool.not_eq_true] at hgeo
        simp only [List.mem_cons, exists_eq_or_imp, hgeo, he, true_and, Option.some.injEq,
          @eq_comm _ r0 r]

/-- The parse succeeds exactly when every pattern that is not a `geoip:` one is an entry. -/
theorem routerIpRangesParse_isSome_iff (patterns : List (List UInt8)) :
    (routerIpRangesParse ipaddr_aton patterns).isSome ↔
      ∀ p ∈ patterns, stringStartsWithIgnoreCase p geoipPrefix = false →
        (routerParseIpEntry ipaddr_aton p).isSome := by
  induction patterns with
  | nil => simp [routerIpRangesParse]
  | cons p ps ih =>
    rw [routerIpRangesParse, List.forall_mem_cons]
    split
    · case isTrue hgeo => simp [hgeo, ih]
    · case isFalse hgeo =>
      simp only [Bool.not_eq_true] at hgeo
      cases he : routerParseIpEntry ipaddr_aton p with
      | none => simp [hgeo]
      | some r0 => simp [ih]

/-- **The router's IP match is prefix membership.**  After a successful parse, a destination
matches exactly when some pattern that is not a `geoip:` one denotes a range of its family holding
it. -/
theorem routerIpRangesMatch_iff {patterns : List (List UInt8)} {ranges : List RouterIpRange}
    (h : routerIpRangesParse ipaddr_aton patterns = some ranges) (ctx : AddressContext) :
    routerIpRangesMatch ctx ranges = true ↔
      ∃ p ∈ patterns, stringStartsWithIgnoreCase p geoipPrefix = false ∧
        ∃ ip P, PatternDenotes ipaddr_aton p ip P ∧ InRange ctx.host ip.ip P := by
  rw [routerIpRangesMatch_eq_true_iff]
  constructor
  · rintro ⟨r, hr, hholds⟩
    obtain ⟨p, hp, hgeo, hentry⟩ := (mem_of_routerIpRangesParse ipaddr_aton h r).1 hr
    obtain ⟨ip, P, hden, rfl⟩ := (routerParseIpEntry_eq_some_iff ipaddr_aton).1 hentry
    exact ⟨p, hp, hgeo, ip, P, hden,
      (routerIpRangeHolds_rangeOf ctx.host ip (hden.le ipaddr_aton)).1 hholds⟩
  · rintro ⟨p, hp, hgeo, ip, P, hden, hin⟩
    refine ⟨rangeOf ip.ip P, (mem_of_routerIpRangesParse ipaddr_aton h _).2
      ⟨p, hp, hgeo, (routerParseIpEntry_eq_some_iff ipaddr_aton).2 ⟨ip, P, hden, rfl⟩⟩, ?_⟩
    exact (routerIpRangeHolds_rangeOf ctx.host ip (hden.le ipaddr_aton)).2 hin

end Router

/-! ## CIDR semantics -/

/-- **CIDR parsing and matching implement prefix semantics.**  The parser accepts exactly the
texts `A/P` and writes the address, its family, `P` and a mask of `P` one bits; under that mask
each range check is agreement on the first `P` bits; the router's parse succeeds when every
pattern but the `geoip:` ones denotes a range, and then a destination matches exactly when one of
those ranges of its family holds it. -/
theorem routerIpRanges_prefixSemantics (ipaddr_aton : List UInt8 → Option ParsedIp) :
    (∀ s r, parseIPWithSubnetMaskAndPrefix ipaddr_aton s = some r ↔
      ∃ ip P, IsCidr ipaddr_aton s ip P ∧ r.family = addrFamily ip.ip ∧ r.ip = ip.ip ∧
        r.prefix_len = P ∧ IsPrefixMaskOf ip.ip P r.subnet_mask) ∧
    (∀ s r a m t, parseIPWithSubnetMaskAndPrefix ipaddr_aton s = some r →
      r.ip = .v4 a → r.subnet_mask = .v4 m → t.length = 4 →
        (checkIPRange4 t a m = true ↔ AgreeOnPrefix 32 r.prefix_len t a)) ∧
    (∀ s r a m t, parseIPWithSubnetMaskAndPrefix ipaddr_aton s = some r →
      r.ip = .v6 a → r.subnet_mask = .v6 m → t.length = 16 →
        (checkIPRange6 t a m = true ↔ AgreeOnPrefix 128 r.prefix_len t a)) ∧
    (∀ patterns, (routerIpRangesParse ipaddr_aton patterns).isSome ↔
      ∀ p ∈ patterns, stringStartsWithIgnoreCase p geoipPrefix = false →
        ∃ ip P, PatternDenotes ipaddr_aton p ip P) ∧
    (∀ patterns ranges, routerIpRangesParse ipaddr_aton patterns = some ranges →
      ∀ ctx, routerIpRangesMatch ctx ranges = true ↔
        ∃ p ∈ patterns, stringStartsWithIgnoreCase p geoipPrefix = false ∧
          ∃ ip P, PatternDenotes ipaddr_aton p ip P ∧ InRange ctx.host ip.ip P) := by
  refine ⟨?parse, ?check4, ?check6, ?isSome, ?ranges⟩
  case parse =>
    intro s r
    rw [parseIPWithSubnetMaskAndPrefix_eq_some_iff]
    constructor
    · rintro ⟨ip, P, hc, hr⟩
      exact ⟨ip, P, hc, (eq_cidrOf_iff hc.le).1 hr⟩
    · rintro ⟨ip, P, hc, hr⟩
      exact ⟨ip, P, hc, (eq_cidrOf_iff hc.le).2 hr⟩
  case check4 =>
    intro s r a m t h ha hm ht
    obtain ⟨hlen, hmask⟩ := isPrefixMaskOf_of_parse ipaddr_aton h
    rw [ha, hm] at hmask
    rw [ha] at hlen
    exact checkIPRange4_iff ht hlen hmask
  case check6 =>
    intro s r a m t h ha hm ht
    obtain ⟨hlen, hmask⟩ := isPrefixMaskOf_of_parse ipaddr_aton h
    rw [ha, hm] at hmask
    rw [ha] at hlen
    exact checkIPRange6_iff ht hlen hmask
  case isSome =>
    intro patterns
    rw [routerIpRangesParse_isSome_iff]
    simp only [Option.isSome_iff_exists, routerParseIpEntry_eq_some_iff]
    constructor
    · intro h p hp hgeo
      obtain ⟨-, ip, P, hden, -⟩ := h p hp hgeo
      exact ⟨ip, P, hden⟩
    · intro h p hp hgeo
      obtain ⟨ip, P, hden⟩ := h p hp hgeo
      exact ⟨_, ip, P, hden, rfl⟩
  case ranges =>
    intro patterns ranges h ctx
    exact routerIpRangesMatch_iff ipaddr_aton h ctx

end Router
end WaterWall
