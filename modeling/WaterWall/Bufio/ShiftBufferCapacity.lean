import WaterWall.Bufio.ShiftBufferOps
import WaterWall.Bits.Prefix

/-!
# The capacity check, in the `uint64_t` arithmetic of the C

`sbufTryComputeCapacityWithin` is modelled in `WaterWall.Bufio.ShiftBuffer` over `Nat`, on the
ground that none of its `uint64_t` operations can wrap.  This file checks that ground, and says
exactly which requests the check accepts.

* `sbufTryComputeCapacityWithin64` is the function as the C computes it: `uint64_t` additions
  and masks on a `uint16_t` padding, and the out-parameter `*out_capacity`, which a `false`
  return leaves as it was.
* `sbufTryComputeCapacityWithin_eq`: the `Nat` model in closed form.  A request is accepted
  exactly when the capacity rounded up to whole cache lines (`cacheLineRoundUp`) and the aligned
  padding fit 32 bits and, with the header and the alignment slack, the target's `size_t`.
* `sbufTryComputeCapacityWithin64_eq`: on every input the `uint64_t` computation does what the
  `Nat` model does, so no operation wraps.  The masks are brought to `Nat` once, by
  `Prefix.and_prefixMask` (`toNat_alignUp64`).
-/

set_option autoImplicit false

namespace WaterWall

/-! ## The check in `Nat` -/

/-- `minimum_capacity` rounded up to a whole number of cache lines; `0` stays `0`. -/
def cacheLineRoundUp (n : Nat) : Nat :=
  (n + (kCpuLineCacheSize - 1)) / kCpuLineCacheSize * kCpuLineCacheSize

/-- The capacity the check computes is the round-up to whole cache lines: a capacity below one
line that is not zero is first raised to one line, which rounds to the same. -/
theorem capacity_eq_cacheLineRoundUp (m : Nat) :
    (if m ≠ 0 ∧ m % kCpuLineCacheSize ≠ 0 then
      max m kCpuLineCacheSize + (kCpuLineCacheSize - 1) -
        (max m kCpuLineCacheSize + (kCpuLineCacheSize - 1)) % kCpuLineCacheSize
    else m) = cacheLineRoundUp m := by
  unfold cacheLineRoundUp kCpuLineCacheSize
  split_ifs with h <;> omega

/-- **The check in closed form.** -/
theorem sbufTryComputeCapacityWithin_eq (minimum_capacity pad_left size_max : Nat) :
    sbufTryComputeCapacityWithin minimum_capacity pad_left size_max =
      if alignUp32 pad_left ≤ UINT16_MAX ∧ minimum_capacity ≤ UINT32_MAX ∧
          cacheLineRoundUp minimum_capacity + alignUp32 pad_left ≤ UINT32_MAX ∧
          SIZEOF_STRUCT_SBUF + kSbufAllocationAlignment ≤ size_max ∧
          cacheLineRoundUp minimum_capacity + alignUp32 pad_left ≤
            size_max - (SIZEOF_STRUCT_SBUF + kSbufAllocationAlignment) then
        some (cacheLineRoundUp minimum_capacity + alignUp32 pad_left)
      else none := by
  unfold sbufTryComputeCapacityWithin
  dsimp only
  rw [capacity_eq_cacheLineRoundUp]
  -- each check that fails falsifies one conjunct; when all pass, so do all conjuncts
  split_ifs <;> first | rfl | omega

theorem le_cacheLineRoundUp (n : Nat) : n ≤ cacheLineRoundUp n := by
  unfold cacheLineRoundUp kCpuLineCacheSize
  omega

/-! ## The check in `uint64_t` -/

/-- `sbufTryComputeCapacityWithin` as the C computes it, in `uint64_t`, with the out-parameter:
the result, and what `*out_capacity` holds afterwards when it held `out_capacity` before. -/
def sbufTryComputeCapacityWithin64 (minimum_capacity : UInt64) (pad_left : UInt16)
    (size_max : UInt64) (out_capacity : UInt32) : Bool × UInt32 :=
  let aligned_pad : UInt64 := (pad_left.toUInt64 + 31) &&& ~~~31
  if aligned_pad > UINT16_MAX.toUInt64 then (false, out_capacity)
  else if minimum_capacity > UINT32_MAX.toUInt64 then (false, out_capacity)
  else
    -- bounded above by `UINT32_MAX`, so the round-up cannot wrap
    let capacity : UInt64 :=
      if minimum_capacity ≠ 0 ∧ minimum_capacity % kCpuLineCacheSize.toUInt64 ≠ 0 then
        let c := if minimum_capacity < kCpuLineCacheSize.toUInt64 then kCpuLineCacheSize.toUInt64
          else minimum_capacity
        (c + (kCpuLineCacheSize - 1).toUInt64) &&& ~~~(kCpuLineCacheSize - 1).toUInt64
      else minimum_capacity
    let total := capacity + aligned_pad
    if total > UINT32_MAX.toUInt64 then (false, out_capacity)
    else
      let allocation_overhead := (SIZEOF_STRUCT_SBUF + kSbufAllocationAlignment).toUInt64
      if size_max < allocation_overhead ∨ total > size_max - allocation_overhead then
        (false, out_capacity)
      else (true, total.toUInt32)

/-- `(x + (2 ^ k - 1)) & ~(2 ^ k - 1)` in `uint64_t`, when the sum does not wrap, is `x` rounded
up to a multiple of `2 ^ k`. -/
theorem toNat_alignUp64 (x : UInt64) {k : Nat} (hk : k ≤ 64) (hx : x.toNat + (2 ^ k - 1) < 2 ^ 64) :
    ((x + (2 ^ k - 1 : Nat).toUInt64) &&& ~~~(2 ^ k - 1 : Nat).toUInt64).toNat =
      2 ^ k * ((x.toNat + (2 ^ k - 1)) / 2 ^ k) := by
  have hpow : 2 ^ k ≤ 2 ^ 64 := Nat.pow_le_pow_right (by decide) hk
  have hlow : (2 ^ k - 1) % 2 ^ 64 = 2 ^ k - 1 := Nat.mod_eq_of_lt (by omega)
  -- the complement of the low mask is the prefix mask of the high `64 - k` bits
  have hmask : UInt64.size - 1 - (2 ^ k - 1) = 2 ^ 64 - 2 ^ k := by
    have := Nat.two_pow_pos k
    simp only [UInt64.size]
    omega
  simp only [UInt64.toNat_and, UInt64.toNat_add, UInt64.toNat_not, Nat.toUInt64_eq,
    UInt64.toNat_ofNat', hlow, hmask, Nat.mod_eq_of_lt hx]
  exact Prefix.and_prefixMask hk hx

/-- The aligned padding, in `uint64_t`, is `alignUp32` of the padding. -/
theorem toNat_alignedPad (pad_left : UInt16) :
    ((pad_left.toUInt64 + 31) &&& ~~~31).toNat = alignUp32 pad_left.toNat := by
  have hpad := pad_left.toNat_lt
  have hcast : pad_left.toUInt64.toNat = pad_left.toNat := UInt16.toNat_toUInt64 pad_left
  have h := toNat_alignUp64 pad_left.toUInt64 (k := 5) (by decide)
    (by rw [hcast]; omega)
  rw [hcast] at h
  rw [show ((2 ^ 5 - 1 : Nat).toUInt64) = 31 from rfl] at h
  rw [h, alignUp32]
  omega

/-- Below `UINT32_MAX`, the capacity the `uint64_t` computation rounds to is
`cacheLineRoundUp`. -/
theorem toNat_capacity64 {m : UInt64} (hm : m.toNat ≤ UINT32_MAX) :
    (if m ≠ 0 ∧ m % kCpuLineCacheSize.toUInt64 ≠ 0 then
      (if m < kCpuLineCacheSize.toUInt64 then kCpuLineCacheSize.toUInt64 else m) +
        (kCpuLineCacheSize - 1).toUInt64 &&& ~~~(kCpuLineCacheSize - 1).toUInt64
    else m).toNat = cacheLineRoundUp m.toNat := by
  have hline : kCpuLineCacheSize.toUInt64.toNat = 64 := rfl
  have hcond : (m ≠ 0 ∧ m % kCpuLineCacheSize.toUInt64 ≠ 0) ↔
      (m.toNat ≠ 0 ∧ m.toNat % 64 ≠ 0) := by
    simp only [ne_eq, ← UInt64.toNat_inj, UInt64.toNat_mod, hline, UInt64.toNat_zero]
  unfold cacheLineRoundUp kCpuLineCacheSize at *
  by_cases hr : m.toNat ≠ 0 ∧ m.toNat % 64 ≠ 0
  · rw [if_pos (hcond.mpr hr)]
    -- the raised capacity `c` is `max m 64`, and its round-up does not wrap
    generalize hc : (if m < (64 : Nat).toUInt64 then (64 : Nat).toUInt64 else m) = c
    have hcv : c.toNat = max m.toNat 64 := by
      rw [← hc]
      split_ifs with hlt
      · rw [UInt64.lt_iff_toNat_lt] at hlt
        simp only [Nat.toUInt64_eq, UInt64.toNat_ofNat'] at hlt ⊢
        omega
      · rw [UInt64.lt_iff_toNat_lt] at hlt
        simp only [Nat.toUInt64_eq, UInt64.toNat_ofNat'] at hlt ⊢
        omega
    have h := toNat_alignUp64 c (k := 6) (by decide)
      (by rw [hcv]; simp only [UINT32_MAX] at hm; omega)
    rw [show (64 - 1 : Nat) = 2 ^ 6 - 1 from rfl, h, hcv]
    omega
  · rw [if_neg (mt hcond.mp hr)]
    omega

/-- **The `uint64_t` computation never wraps**: on every input it returns what the `Nat` model
returns, and a `false` leaves `*out_capacity` as it was. -/
theorem sbufTryComputeCapacityWithin64_eq (minimum_capacity : UInt64) (pad_left : UInt16)
    (size_max : UInt64) (out_capacity : UInt32) :
    sbufTryComputeCapacityWithin64 minimum_capacity pad_left size_max out_capacity =
      match sbufTryComputeCapacityWithin minimum_capacity.toNat pad_left.toNat size_max.toNat with
      | some total => (true, total.toUInt32)
      | none => (false, out_capacity) := by
  have c16 : UINT16_MAX.toUInt64.toNat = UINT16_MAX := rfl
  have c32 : UINT32_MAX.toUInt64.toNat = UINT32_MAX := rfl
  have cov : (SIZEOF_STRUCT_SBUF + kSbufAllocationAlignment).toUInt64.toNat =
      SIZEOF_STRUCT_SBUF + kSbufAllocationAlignment := rfl
  have hA := toNat_alignedPad pad_left
  have hAle : alignUp32 pad_left.toNat ≤ 65536 := by
    have := pad_left.toNat_lt
    unfold alignUp32
    omega
  unfold sbufTryComputeCapacityWithin64
  rw [sbufTryComputeCapacityWithin_eq]
  dsimp only
  generalize (pad_left.toUInt64 + 31) &&& ~~~31 = aligned at hA ⊢
  -- the padding check
  by_cases h1 : aligned > UINT16_MAX.toUInt64
  · rw [if_pos h1]
    rw [gt_iff_lt, UInt64.lt_iff_toNat_lt, c16, hA] at h1
    rw [if_neg (by omega)]
  rw [if_neg h1]
  rw [gt_iff_lt, UInt64.lt_iff_toNat_lt, c16, hA] at h1
  -- the range check, before any rounding
  by_cases h2 : minimum_capacity > UINT32_MAX.toUInt64
  · rw [if_pos h2]
    rw [gt_iff_lt, UInt64.lt_iff_toNat_lt, c32] at h2
    rw [if_neg (by omega)]
  rw [if_neg h2]
  rw [gt_iff_lt, UInt64.lt_iff_toNat_lt, c32] at h2
  have hC := toNat_capacity64 (Nat.le_of_not_lt h2)
  -- the rounded capacity and the padding are both far below `2 ^ 64`
  have hCle : cacheLineRoundUp minimum_capacity.toNat ≤ UINT32_MAX + 63 := by
    unfold cacheLineRoundUp kCpuLineCacheSize
    omega
  have htotal : (cacheLineRoundUp minimum_capacity.toNat + alignUp32 pad_left.toNat) % 2 ^ 64 =
      cacheLineRoundUp minimum_capacity.toNat + alignUp32 pad_left.toNat :=
    Nat.mod_eq_of_lt (by simp only [UINT32_MAX] at hCle; omega)
  generalize (if minimum_capacity ≠ 0 ∧ minimum_capacity % kCpuLineCacheSize.toUInt64 ≠ 0 then
      (if minimum_capacity < kCpuLineCacheSize.toUInt64 then kCpuLineCacheSize.toUInt64
        else minimum_capacity) + (kCpuLineCacheSize - 1).toUInt64 &&&
        ~~~(kCpuLineCacheSize - 1).toUInt64
    else minimum_capacity) = capacity at hC ⊢
  have hsum : (capacity + aligned).toNat =
      cacheLineRoundUp minimum_capacity.toNat + alignUp32 pad_left.toNat := by
    rw [UInt64.toNat_add, hC, hA, htotal]
  generalize capacity + aligned = total at hsum ⊢
  -- the 32-bit check on the total
  by_cases h3 : total > UINT32_MAX.toUInt64
  · rw [if_pos h3]
    rw [gt_iff_lt, UInt64.lt_iff_toNat_lt, c32, hsum] at h3
    rw [if_neg (by omega)]
  rw [if_neg h3]
  rw [gt_iff_lt, UInt64.lt_iff_toNat_lt, c32, hsum] at h3
  -- the check against `size_t`, with the header and the alignment slack
  by_cases h4 : size_max < (SIZEOF_STRUCT_SBUF + kSbufAllocationAlignment).toUInt64
  · rw [if_pos (Or.inl h4)]
    rw [UInt64.lt_iff_toNat_lt, cov] at h4
    rw [if_neg (by omega)]
  have hov : (size_max - (SIZEOF_STRUCT_SBUF + kSbufAllocationAlignment).toUInt64).toNat =
      size_max.toNat - (SIZEOF_STRUCT_SBUF + kSbufAllocationAlignment) := by
    rw [UInt64.toNat_sub_of_le _ _ (UInt64.le_iff_toNat_le.mpr (by
      rw [UInt64.lt_iff_toNat_lt] at h4; omega)), cov]
  rw [UInt64.lt_iff_toNat_lt, cov] at h4
  by_cases h5 : total > size_max - (SIZEOF_STRUCT_SBUF + kSbufAllocationAlignment).toUInt64
  · rw [if_pos (Or.inr h5)]
    rw [gt_iff_lt, UInt64.lt_iff_toNat_lt, hov, hsum] at h5
    rw [if_neg (by omega)]
  rw [if_neg (by
    rw [UInt64.lt_iff_toNat_lt, cov]
    exact not_or.mpr ⟨h4, h5⟩)]
  rw [gt_iff_lt, UInt64.lt_iff_toNat_lt, hov, hsum] at h5
  -- every check passes: the out-parameter gets the total
  rw [if_pos (by omega)]
  congr 1
  apply UInt32.toNat_inj.mp
  rw [UInt64.toNat_toUInt32, hsum, Nat.toUInt32_eq, UInt32.toNat_ofNat']

/-! ## What the check accepts -/

/-- **`sbufTryComputeCapacityWithin` never wraps, and accepts exactly the requests that fit.**
For every `uint64_t` minimum capacity, `uint16_t` padding and `uint64_t` `SIZE_MAX`, it returns
`true` exactly when the minimum capacity fits 32 bits, the aligned padding fits 16, `SIZE_MAX`
covers the header and the alignment slack, and the capacity rounded up to whole cache lines plus
the aligned padding fits both 32 bits and what `SIZE_MAX` leaves past that overhead.  On `true`
the out-parameter is that sum, so it holds the minimum behind the padding; on `false` it is
untouched.  Every buffer `sbufCreateWithPadding` returns has that room after its cursor, and its
cursor and left padding are the aligned padding. -/
theorem sbufTryComputeCapacityWithin_never_wraps :
    (∀ (minimum_capacity : UInt64) (pad_left : UInt16) (size_max : UInt64)
        (out_capacity : UInt32) (r : Bool × UInt32),
      sbufTryComputeCapacityWithin64 minimum_capacity pad_left size_max out_capacity = r →
      (r.1 = true ↔
        minimum_capacity.toNat ≤ UINT32_MAX ∧ alignUp32 pad_left.toNat ≤ UINT16_MAX ∧
          SIZEOF_STRUCT_SBUF + kSbufAllocationAlignment ≤ size_max.toNat ∧
          cacheLineRoundUp minimum_capacity.toNat + alignUp32 pad_left.toNat ≤ UINT32_MAX ∧
          cacheLineRoundUp minimum_capacity.toNat + alignUp32 pad_left.toNat ≤
            size_max.toNat - (SIZEOF_STRUCT_SBUF + kSbufAllocationAlignment)) ∧
      (r.1 = true →
        r.2.toNat = cacheLineRoundUp minimum_capacity.toNat + alignUp32 pad_left.toNat ∧
          minimum_capacity.toNat ≤ r.2.toNat - alignUp32 pad_left.toNat) ∧
      (r.1 = false → r.2 = out_capacity)) ∧
    (∀ (w minimum_capacity pad_left : Nat) (b : SBuf),
      sbufCreateWithPadding w minimum_capacity pad_left = some b →
      minimum_capacity ≤ b.mem.length - b.curpos ∧ b.curpos = alignUp32 pad_left ∧
        b.lpad = alignUp32 pad_left) := by
  refine ⟨fun m p s out r hr => ?_, fun w m p b hb => ?_⟩
  · rw [sbufTryComputeCapacityWithin64_eq, sbufTryComputeCapacityWithin_eq] at hr
    have hround := le_cacheLineRoundUp m.toNat
    split_ifs at hr with hc <;> subst hr
    · -- accepted: the total is below `2 ^ 32`, so the out-parameter holds it exactly
      have hlt : cacheLineRoundUp m.toNat + alignUp32 p.toNat < 2 ^ 32 := by
        simp only [UINT32_MAX] at hc
        omega
      have hout : (cacheLineRoundUp m.toNat + alignUp32 p.toNat).toUInt32.toNat =
          cacheLineRoundUp m.toNat + alignUp32 p.toNat := by
        rw [Nat.toUInt32_eq, UInt32.toNat_ofNat', Nat.mod_eq_of_lt hlt]
      refine ⟨⟨fun _ => ⟨hc.2.1, hc.1, hc.2.2.2.1, hc.2.2.1, hc.2.2.2.2⟩, fun _ => rfl⟩,
        fun _ => ⟨hout, ?_⟩, fun h => Bool.noConfusion h⟩
      rw [hout]
      omega
    · -- rejected: one condition fails, and the out-parameter is left alone
      refine ⟨⟨fun h => Bool.noConfusion h,
        fun h => absurd ⟨h.2.1, h.1, h.2.2.2.1, h.2.2.1, h.2.2.2.2⟩ hc⟩,
        fun h => Bool.noConfusion h, fun _ => rfl⟩
  · obtain ⟨-, -, -, hcur, hpad, hroom⟩ := sbufCreateWithPadding_some hb
    exact ⟨hroom, hcur, hpad⟩

end WaterWall
