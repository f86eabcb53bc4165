import Mathlib
import WaterWall.Heap.Binary
import WaterWall.Intrusive.Chain

/-!
# The IpManipulator flow table

`ipmanipulator_flow_table_t` is a bounded table of TCP flows shared by the stateful tricks, split
into a power of two of shards, each with its own limit; the limits add up to the table's.  A shard
keeps every entry in two intrusive structures at once: a hash bucket chain
(`buckets[hash & bucket_mask]`, through `bucket_next`) for lookup, and a binary min-heap on the
deadline (`heap`, with each entry's `heap_index`) for expiry.

* The bottom layer is `flow_table.c` under its own names: the shard and limit arithmetic of
  `ipmanipulatorFlowTableInitWithSeed`, the heap and bucket helpers (the generic
  `BinaryHeap.Heap` and `Intrusive.Buckets` at the entries' fields), and
  `ipmanipulatorFlowShardFind`, `…Reserve`, `…Touch`, `…Remove` and `…Expire`.
* The seeded hash `ipmanipulatorFlowTableHash` is a parameter.  The mutexes, the log rate limiter,
  the record storage and destructor, and the table's own allocations are not modelled; the
  allocation of an entry may fail, and says so in an argument.
* `ipmanipulatorFlowTableInitWithSeed_spec`: the table init builds.
-/

set_option autoImplicit false

namespace WaterWall
namespace IpManipulator

open BinaryHeap Intrusive

def kIpManipulatorFlowLimitMin : UInt32 := 32
def kIpManipulatorFlowLimitMax : UInt32 := 1048576
def kIpManipulatorFlowShardsMax : UInt32 := 64
def kIpManipulatorFlowCleanupBudget : UInt32 := 32

/-- `ipmanipulator_flow_key_t`: the canonical four-tuple, lower endpoint first. -/
structure FlowKey where
  low_addr : UInt32
  high_addr : UInt32
  low_port : UInt16
  high_port : UInt16
  deriving DecidableEq, Inhabited

/-- `ipmanipulatorFlowKeyMake`: the endpoint that is lower by address, then port, goes first. -/
def ipmanipulatorFlowKeyMake (src_addr : UInt32) (src_port : UInt16) (dst_addr : UInt32)
    (dst_port : UInt16) : FlowKey :=
  let src_is_low := decide (src_addr < dst_addr) || (src_addr == dst_addr && decide (src_port ≤ dst_port))
  { low_addr := if src_is_low then src_addr else dst_addr
    high_addr := if src_is_low then dst_addr else src_addr
    low_port := if src_is_low then src_port else dst_port
    high_port := if src_is_low then dst_port else src_port }

def ipmanipulatorFlowKeyEquals (a b : FlowKey) : Bool :=
  a.low_addr == b.low_addr && a.high_addr == b.high_addr && a.low_port == b.low_port &&
    a.high_port == b.high_port

theorem ipmanipulatorFlowKeyEquals_iff (a b : FlowKey) :
    ipmanipulatorFlowKeyEquals a b = true ↔ a = b := by
  cases a
  cases b
  simp [ipmanipulatorFlowKeyEquals, and_assoc]

/-- Address of an `ipmanipulator_flow_entry_t`. -/
abbrev EntryPtr := Nat

/-- `ipmanipulator_flow_shard_t` and the entries it owns.  The entries' fields are functions over
entry addresses: `key`, `deadline_ms` and `bucket_index` here, `bucket_next` in `buckets` (with the
bucket array) and `heap_index` in `heap` (with the heap array and `heap_count`).  `allocated` is
the allocator: entries allocated so far, the next one at that address. -/
structure FlowShard where
  buckets : Buckets UInt32 EntryPtr
  heap : Heap EntryPtr
  key : EntryPtr → FlowKey
  deadline_ms : EntryPtr → UInt64
  bucket_index : EntryPtr → UInt32
  bucket_count : UInt32
  bucket_mask : UInt32
  count : Nat
  limit : UInt32
  rejected_admissions : UInt64
  allocated : Nat

/-- `ipmanipulator_flow_table_t`, without its name, destructor and record sizes. -/
structure FlowTable where
  shards : List FlowShard
  hash_seed : UInt64
  shard_count : UInt32
  shard_mask : UInt32
  limit : UInt32

/-! ## Init -/

theorem toNat_shiftLeft_one {r : UInt32} (h : r < 0x40000000) : (r <<< 1).toNat = 2 * r.toNat := by
  have hr : r.toNat < 0x40000000 := UInt32.lt_iff_toNat_lt.mp h
  have h1 : (1 : UInt32).toNat % 32 = 1 := rfl
  rw [UInt32.toNat_shiftLeft, h1, Nat.shiftLeft_eq, Nat.pow_one]
  omega

/-- The loop of `flowtableRoundUpPowerOfTwo`: double `result` while it is below `value` and
below `2^30`.  `result` starts at `1` and stays positive, which is what makes the loop end. -/
def flowtableRoundUpPowerOfTwo.loop (value result : UInt32) (hpos : 0 < result.toNat) : UInt32 :=
  if h : result < value ∧ result < 0x40000000 then
    loop value (result <<< 1) (by rw [toNat_shiftLeft_one h.2]; omega)
  else result
termination_by 0x40000000 - result.toNat
decreasing_by
  have := UInt32.lt_iff_toNat_lt.mp h.2
  rw [toNat_shiftLeft_one h.2]
  exact Nat.sub_lt_sub_left this (by omega)

def flowtableRoundUpPowerOfTwo (value : UInt32) : UInt32 :=
  if value ≤ 1 then 1 else flowtableRoundUpPowerOfTwo.loop value 1 (by decide)

/-- `while (shard_count > limit) shard_count >>= 1U;` -/
def flowtableHalveShardCount (limit shard_count : UInt32) : UInt32 :=
  if limit < shard_count then flowtableHalveShardCount limit (shard_count >>> 1) else shard_count
termination_by shard_count.toNat
decreasing_by
  have := UInt32.lt_iff_toNat_lt.mp ‹_›
  rw [UInt32.toNat_shiftRight]
  simp only [UInt32.reduceToNat, Nat.reduceMod, Nat.shiftRight_eq_div_pow]
  omega

/-- The shard count `ipmanipulatorFlowTableInitWithSeed` picks: the worker count rounded up to a
power of two, at most `kIpManipulatorFlowShardsMax`, halved until it is at most the limit. -/
def flowtableShardCount (limit worker_count : UInt32) : UInt32 :=
  let shard_count := flowtableRoundUpPowerOfTwo (if worker_count = 0 then 1 else worker_count)
  let shard_count :=
    if shard_count > kIpManipulatorFlowShardsMax then kIpManipulatorFlowShardsMax else shard_count
  let shard_count := flowtableHalveShardCount limit shard_count
  if shard_count = 0 then 1 else shard_count

/-- Shard `i` as the init loop leaves it: its share of the limit, its bucket count, and empty
buckets and heap. -/
def flowtableShardInit (limit shard_count i : UInt32) : FlowShard :=
  let base_limit := limit / shard_count
  let remainder := limit % shard_count
  let shard_limit := base_limit + (if i < remainder then 1 else 0)
  let bucket_count := flowtableRoundUpPowerOfTwo shard_limit
  { buckets := ⟨fun _ => none, fun _ => none⟩
    heap := ⟨fun _ => 0, 0, fun _ => 0⟩
    key := fun _ => default
    deadline_ms := fun _ => 0
    bucket_index := fun _ => 0
    bucket_count := bucket_count
    bucket_mask := bucket_count - 1
    count := 0
    limit := shard_limit
    rejected_admissions := 0
    allocated := 0 }

/-- `ipmanipulatorFlowTableInitWithSeed`.  `seed` is the seed it gets: `*forced_seed`, or what
`secureRandomBytes` gives, `none` when that fails. -/
def ipmanipulatorFlowTableInitWithSeed (limit worker_count : UInt32) (record_size : UInt64)
    (seed : Option UInt64) : Option FlowTable :=
  if record_size = 0 then none
  else if limit < kIpManipulatorFlowLimitMin ∨ limit > kIpManipulatorFlowLimitMax then none
  else
    match seed with
    | none => none
    | some seed =>
      let shard_count := flowtableShardCount limit worker_count
      some
        { shards := (List.range shard_count.toNat).map fun i =>
            flowtableShardInit limit shard_count (UInt32.ofNat i)
          hash_seed := seed
          shard_count := shard_count
          shard_mask := shard_count - 1
          limit := limit }

/-! ### The init arithmetic -/

theorem isPowerOfTwo_two_mul {n : Nat} (h : n.isPowerOfTwo) : (2 * n).isPowerOfTwo := by
  obtain ⟨k, rfl⟩ := h
  exact ⟨k + 1, by rw [Nat.pow_succ, Nat.mul_comm]⟩

/-- Below a power of two, a power of two is at most half of it. -/
theorem two_mul_le_of_isPowerOfTwo {n m : Nat} (hn : n.isPowerOfTwo) (hm : m.isPowerOfTwo)
    (hlt : n < m) : 2 * n ≤ m := by
  obtain ⟨k, rfl⟩ := hn
  obtain ⟨j, rfl⟩ := hm
  have hkj : k < j := (Nat.pow_lt_pow_iff_right (by decide)).mp hlt
  calc 2 * 2 ^ k = 2 ^ (k + 1) := by rw [Nat.pow_succ, Nat.mul_comm]
    _ ≤ 2 ^ j := Nat.pow_le_pow_right (by decide) hkj

theorem isPowerOfTwo_div_two {n : Nat} (h : n.isPowerOfTwo) : n / 2 = 0 ∨ (n / 2).isPowerOfTwo := by
  obtain ⟨k, rfl⟩ := h
  cases k with
  | zero => exact Or.inl rfl
  | succ k => exact Or.inr ⟨k, by rw [Nat.pow_succ, Nat.mul_div_cancel _ (by decide)]⟩

/-- The doubling loop stays a power of two of at most `2^30`, below twice `value`, and stops at
`value` or above, or at `2^30`. -/
theorem flowtableRoundUpPowerOfTwo.loop_spec (value result : UInt32) (hpos : 0 < result.toNat)
    (hp : result.toNat.isPowerOfTwo) (hle : result.toNat ≤ 2 ^ 30)
    (hlt : result.toNat < 2 * value.toNat) :
    (loop value result hpos).toNat.isPowerOfTwo ∧ (loop value result hpos).toNat ≤ 2 ^ 30 ∧
      (loop value result hpos).toNat < 2 * value.toNat ∧
      (value.toNat ≤ (loop value result hpos).toNat ∨ (loop value result hpos).toNat = 2 ^ 30) := by
  induction result, hpos using flowtableRoundUpPowerOfTwo.loop.induct value with
  | case1 result hpos h ih =>
    rw [loop, dif_pos h]
    have hv := UInt32.lt_iff_toNat_lt.mp h.1
    have hc := UInt32.lt_iff_toNat_lt.mp h.2
    rw [toNat_shiftLeft_one h.2] at ih
    have h30 : 2 * result.toNat ≤ 2 ^ 30 := two_mul_le_of_isPowerOfTwo hp ⟨30, rfl⟩ hc
    exact ih (isPowerOfTwo_two_mul hp) h30 (by omega)
  | case2 result hpos h =>
    rw [loop, dif_neg h]
    refine ⟨hp, hle, hlt, ?_⟩
    rw [not_and_or, UInt32.not_lt, UInt32.not_lt, UInt32.le_iff_toNat_le,
      UInt32.le_iff_toNat_le] at h
    simp only [UInt32.reduceToNat] at h
    omega

/-- `flowtableRoundUpPowerOfTwo` gives a power of two of at most `2^30`; for a value from `1` to
`2^30`, the least one at or above it. -/
theorem flowtableRoundUpPowerOfTwo_spec (value : UInt32) :
    (flowtableRoundUpPowerOfTwo value).toNat.isPowerOfTwo ∧
      (flowtableRoundUpPowerOfTwo value).toNat ≤ 2 ^ 30 ∧
      (value.toNat ≤ 2 ^ 30 → value.toNat ≤ (flowtableRoundUpPowerOfTwo value).toNat) ∧
      (0 < value.toNat → (flowtableRoundUpPowerOfTwo value).toNat < 2 * value.toNat) := by
  unfold flowtableRoundUpPowerOfTwo
  by_cases hv : value ≤ 1
  · rw [if_pos hv]
    rw [UInt32.le_iff_toNat_le] at hv
    simp only [UInt32.reduceToNat] at hv ⊢
    exact ⟨⟨0, rfl⟩, by decide, fun _ => hv, fun _ => by omega⟩
  · rw [if_neg hv]
    rw [UInt32.le_iff_toNat_le] at hv
    simp only [UInt32.reduceToNat] at hv
    obtain ⟨hp, hle, hlt, hge⟩ := flowtableRoundUpPowerOfTwo.loop_spec value 1 (by decide) ⟨0, rfl⟩
      (by decide) (by simp only [UInt32.reduceToNat]; omega)
    exact ⟨hp, hle, fun h => by omega, fun _ => hlt⟩

/-- The halving loop ends at or below the limit and below where it started, at a power of two
or at `0` when it starts at one. -/
theorem flowtableHalveShardCount_spec (limit shard_count : UInt32) :
    (flowtableHalveShardCount limit shard_count).toNat ≤ limit.toNat ∧
      (flowtableHalveShardCount limit shard_count).toNat ≤ shard_count.toNat ∧
      (shard_count.toNat.isPowerOfTwo → flowtableHalveShardCount limit shard_count = 0 ∨
        (flowtableHalveShardCount limit shard_count).toNat.isPowerOfTwo) := by
  induction shard_count using flowtableHalveShardCount.induct limit with
  | case1 x hx ih =>
    rw [flowtableHalveShardCount, if_pos hx]
    have hhalf : (x >>> 1).toNat = x.toNat / 2 := by
      rw [UInt32.toNat_shiftRight]
      simp only [UInt32.reduceToNat, Nat.reduceMod, Nat.shiftRight_eq_div_pow, Nat.pow_one]
    obtain ⟨h₁, h₂, h₃⟩ := ih
    rw [hhalf] at h₂ h₃
    refine ⟨h₁, by omega, fun hp => ?_⟩
    rcases isPowerOfTwo_div_two hp with h0 | hp'
    · -- the count halved to `0`, and the loop stops there
      have hz : x >>> 1 = 0 := UInt32.toNat_inj.mp (by rw [hhalf, h0]; rfl)
      rw [hz, flowtableHalveShardCount, if_neg (by simp)]
      exact Or.inl rfl
    · exact h₃ hp'
  | case2 x hx =>
    rw [flowtableHalveShardCount, if_neg hx]
    rw [UInt32.not_lt, UInt32.le_iff_toNat_le] at hx
    exact ⟨hx, le_rfl, Or.inr⟩

/-- The shard count is a power of two from `1` to `min 64 limit`. -/
theorem flowtableShardCount_spec (limit worker_count : UInt32) (hlimit : 1 ≤ limit.toNat) :
    (flowtableShardCount limit worker_count).toNat.isPowerOfTwo ∧
      1 ≤ (flowtableShardCount limit worker_count).toNat ∧
      (flowtableShardCount limit worker_count).toNat ≤ min 64 limit.toNat := by
  unfold flowtableShardCount
  simp only
  -- the rounded-up worker count, and the same at most `kIpManipulatorFlowShardsMax`
  generalize hr : flowtableRoundUpPowerOfTwo (if worker_count = 0 then 1 else worker_count) = r
  have hrp : r.toNat.isPowerOfTwo := hr ▸ (flowtableRoundUpPowerOfTwo_spec _).1
  generalize hc : (if r > kIpManipulatorFlowShardsMax then kIpManipulatorFlowShardsMax else r) = c
  have hcp : c.toNat.isPowerOfTwo ∧ c.toNat ≤ 64 := by
    rw [← hc]
    split_ifs with h64
    · exact ⟨⟨6, rfl⟩, by decide⟩
    · rw [gt_iff_lt, UInt32.not_lt, UInt32.le_iff_toNat_le] at h64
      exact ⟨hrp, h64⟩
  obtain ⟨hlim, hle, hpow⟩ := flowtableHalveShardCount_spec limit c
  split_ifs with h0
  · simp only [UInt32.reduceToNat]
    exact ⟨⟨0, rfl⟩, le_rfl, by omega⟩
  · have hpos : 0 < (flowtableHalveShardCount limit c).toNat := by
      rcases Nat.eq_zero_or_pos (flowtableHalveShardCount limit c).toNat with h | h
      · exact absurd (UInt32.toNat_inj.mp (by rw [h]; rfl)) h0
      · exact h
    exact ⟨(hpow hcp.1).resolve_left h0, hpos, by omega⟩

/-- The shares `base + (i < rem ? 1 : 0)` of the first `n` shards add up to `n * base + min rem n`. -/
theorem sum_shares (base rem : Nat) :
    ∀ n, ((List.range n).map fun i => base + if i < rem then 1 else 0).sum = n * base + min rem n
  | 0 => by simp
  | n + 1 => by
    rw [List.range_succ, List.map_append, List.sum_append, sum_shares base rem n]
    simp only [List.map_cons, List.map_nil, List.sum_cons, List.sum_nil]
    split_ifs <;> rw [Nat.succ_mul] <;> omega

/-- Shard `i < shard_count` of a table for `limit`: its limit is its share, at least one, and its
bucket count a power of two at or above it, with the mask below. -/
theorem flowtableShardInit_spec (limit shard_count : UInt32) {i : Nat}
    (hs : 1 ≤ shard_count.toNat) (hsl : shard_count.toNat ≤ limit.toNat) (hl : limit.toNat ≤ 2 ^ 20)
    (hi : i < shard_count.toNat) :
    (flowtableShardInit limit shard_count (UInt32.ofNat i)).limit.toNat =
        limit.toNat / shard_count.toNat + (if i < limit.toNat % shard_count.toNat then 1 else 0) ∧
      1 ≤ (flowtableShardInit limit shard_count (UInt32.ofNat i)).limit.toNat ∧
      (flowtableShardInit limit shard_count (UInt32.ofNat i)).bucket_count.toNat.isPowerOfTwo ∧
      (flowtableShardInit limit shard_count (UInt32.ofNat i)).limit.toNat ≤
        (flowtableShardInit limit shard_count (UInt32.ofNat i)).bucket_count.toNat ∧
      (flowtableShardInit limit shard_count (UInt32.ofNat i)).bucket_mask =
        (flowtableShardInit limit shard_count (UInt32.ofNat i)).bucket_count - 1 := by
  have hi' : (UInt32.ofNat i).toNat = i := by
    rw [UInt32.toNat_ofNat']
    exact Nat.mod_eq_of_lt (by have := shard_count.toNat_lt; omega)
  have hbase : limit.toNat / shard_count.toNat ≥ 1 := (Nat.one_le_div_iff (by omega)).mpr hsl
  have hdiv : limit.toNat / shard_count.toNat ≤ limit.toNat := Nat.div_le_self _ _
  -- the share, as a number: no wrap, since it is at most the limit plus one
  have hshare : (limit / shard_count + (if UInt32.ofNat i < limit % shard_count then 1 else 0)).toNat =
      limit.toNat / shard_count.toNat + (if i < limit.toNat % shard_count.toNat then 1 else 0) := by
    rw [UInt32.toNat_add, UInt32.toNat_div]
    have hlt : (UInt32.ofNat i < limit % shard_count) ↔ i < limit.toNat % shard_count.toNat := by
      rw [UInt32.lt_iff_toNat_lt, hi', UInt32.toNat_mod]
    by_cases hc : i < limit.toNat % shard_count.toNat
    · rw [if_pos (hlt.mpr hc), if_pos hc]
      simp only [UInt32.reduceToNat]
      exact Nat.mod_eq_of_lt (by omega)
    · rw [if_neg (mt hlt.mp hc), if_neg hc]
      simp only [UInt32.reduceToNat, Nat.add_zero]
      exact Nat.mod_eq_of_lt (by omega)
  obtain ⟨hp, -, hge, -⟩ := flowtableRoundUpPowerOfTwo_spec
    (limit / shard_count + (if UInt32.ofNat i < limit % shard_count then 1 else 0))
  refine ⟨?_, ?_, hp, ?_, rfl⟩ <;> dsimp only [flowtableShardInit] <;> rw [hshare]
  · omega
  · rw [hshare] at hge
    exact hge (by split_ifs <;> omega)

/-- What init establishes of a table, and no operation on a shard changes. -/
structure FlowTable.Sized (t : FlowTable) : Prop where
  limit_ge : 32 ≤ t.limit.toNat
  limit_le : t.limit.toNat ≤ 2 ^ 20
  shard_count_pow : t.shard_count.toNat.isPowerOfTwo
  shard_count_pos : 1 ≤ t.shard_count.toNat
  shard_count_le : t.shard_count.toNat ≤ min 64 t.limit.toNat
  shard_mask_eq : t.shard_mask = t.shard_count - 1
  length_shards : t.shards.length = t.shard_count.toNat
  shard_limit_pos : ∀ s ∈ t.shards, 1 ≤ s.limit.toNat
  bucket_count_pow : ∀ s ∈ t.shards, s.bucket_count.toNat.isPowerOfTwo
  limit_le_bucket_count : ∀ s ∈ t.shards, s.limit.toNat ≤ s.bucket_count.toNat
  bucket_mask_eq : ∀ s ∈ t.shards, s.bucket_mask = s.bucket_count - 1
  sum_limits : (t.shards.map fun s => s.limit.toNat).sum = t.limit.toNat

/-- The table `ipmanipulatorFlowTableInitWithSeed` builds is `Sized` for the limit it was given,
and each shard is one that `flowtableShardInit` builds. -/
theorem ipmanipulatorFlowTableInitWithSeed_spec {limit worker_count : UInt32} {record_size : UInt64}
    {seed : Option UInt64} {t : FlowTable}
    (h : ipmanipulatorFlowTableInitWithSeed limit worker_count record_size seed = some t) :
    t.Sized ∧ t.limit = limit ∧
      ∀ s ∈ t.shards, ∃ i, s = flowtableShardInit limit t.shard_count (UInt32.ofNat i) := by
  unfold ipmanipulatorFlowTableInitWithSeed at h
  split_ifs at h with h0 hrange
  cases seed with
  | none => cases h
  | some seed =>
    simp only [Option.some.injEq] at h
    subst h
    simp only [not_or, UInt32.not_lt, gt_iff_lt, UInt32.le_iff_toNat_le] at hrange
    obtain ⟨hmin, hmax⟩ := hrange
    simp only [kIpManipulatorFlowLimitMin, kIpManipulatorFlowLimitMax, UInt32.reduceToNat] at hmin hmax
    obtain ⟨hp, hpos, hle⟩ := flowtableShardCount_spec limit worker_count (by omega)
    have hsl : (flowtableShardCount limit worker_count).toNat ≤ limit.toNat := le_trans hle (min_le_right _ _)
    have hshard := fun i (hi : i < (flowtableShardCount limit worker_count).toNat) =>
      flowtableShardInit_spec limit (flowtableShardCount limit worker_count) hpos hsl hmax hi
    refine ⟨⟨hmin, hmax, hp, hpos, hle, rfl, by simp, ?_, ?_, ?_, ?_, ?_⟩, rfl, ?_⟩
    · simp only [List.mem_map, List.mem_range]
      rintro s ⟨i, hi, rfl⟩
      exact (hshard i hi).2.1
    · simp only [List.mem_map, List.mem_range]
      rintro s ⟨i, hi, rfl⟩
      exact (hshard i hi).2.2.1
    · simp only [List.mem_map, List.mem_range]
      rintro s ⟨i, hi, rfl⟩
      exact (hshard i hi).2.2.2.1
    · simp only [List.mem_map, List.mem_range]
      rintro s ⟨i, hi, rfl⟩
      exact (hshard i hi).2.2.2.2
    · -- the shares add up to the limit
      rw [List.map_map]
      have hmap : ((List.range (flowtableShardCount limit worker_count).toNat).map
          ((fun s => s.limit.toNat) ∘ fun i =>
            flowtableShardInit limit (flowtableShardCount limit worker_count) (UInt32.ofNat i))) =
          (List.range (flowtableShardCount limit worker_count).toNat).map fun i =>
            limit.toNat / (flowtableShardCount limit worker_count).toNat +
              if i < limit.toNat % (flowtableShardCount limit worker_count).toNat then 1 else 0 := by
        apply List.map_congr_left
        intro i hi
        exact (hshard i (List.mem_range.mp hi)).1
      rw [hmap, sum_shares, min_eq_left (Nat.mod_lt _ (by omega)).le, Nat.mul_comm]
      exact Nat.div_add_mod' _ _
    · simp only [List.mem_map, List.mem_range]
      rintro s ⟨i, -, rfl⟩
      exact ⟨i, rfl⟩

/-! ## Shard operations -/

section Operations

variable (hash : FlowKey → UInt64)

namespace FlowShard

/-- The heap's order: `deadline_ms`, compared as the C code compares `uint64_t`s. -/
def deadlineKey (shard : FlowShard) (entry : EntryPtr) : Nat := (shard.deadline_ms entry).toNat

end FlowShard

/-- `flowtableBucketIndex`: the low 32 bits of the hash, masked. -/
def flowtableBucketIndex (shard : FlowShard) (key : FlowKey) : UInt32 :=
  (hash key).toUInt32 &&& shard.bucket_mask

def flowtableHeapSiftUp (shard : FlowShard) (index : Nat) : FlowShard :=
  { shard with heap := shard.heap.siftUp shard.deadlineKey index }

def flowtableHeapSiftDown (shard : FlowShard) (index : Nat) : FlowShard :=
  { shard with heap := shard.heap.siftDown shard.deadlineKey index }

def flowtableHeapPush (shard : FlowShard) (entry : EntryPtr) : FlowShard :=
  { shard with heap := shard.heap.push shard.deadlineKey entry }

/-- `flowtableHeapRemoveAt`; the `NULL` it writes past the heap's end is never read. -/
def flowtableHeapRemoveAt (shard : FlowShard) (index : Nat) : FlowShard :=
  { shard with heap := shard.heap.removeAt shard.deadlineKey index }

def flowtableBucketInsert (shard : FlowShard) (entry : EntryPtr) (bucket_index : UInt32) :
    FlowShard :=
  { shard with
    bucket_index := Function.update shard.bucket_index entry bucket_index
    buckets := shard.buckets.pushFront bucket_index entry }

/-- `flowtableBucketRemove`: the walk from `&buckets[entry->bucket_index]` through the links.  It
ends at the end of the chain; no chain is longer than `count`, so `count` steps are as many as it
takes. -/
def flowtableBucketRemove (shard : FlowShard) (entry : EntryPtr) : FlowShard :=
  { shard with
    buckets := shard.buckets.unlinkFrom entry shard.count (.head (shard.bucket_index entry)) }

/-- `ipmanipulatorFlowShardFind`: the walk along the key's bucket chain, bounded as in
`flowtableBucketRemove`. -/
def ipmanipulatorFlowShardFind (shard : FlowShard) (key : FlowKey) : Option EntryPtr :=
  Chain.find shard.buckets.next (fun entry => ipmanipulatorFlowKeyEquals (shard.key entry) key)
    shard.count (shard.buckets.heads (flowtableBucketIndex hash shard key))

/-- `ipmanipulatorFlowShardRemove`; the destructor and `memoryFree` change nothing modelled. -/
def ipmanipulatorFlowShardRemove (shard : FlowShard) (entry : EntryPtr) : FlowShard :=
  let shard := flowtableBucketRemove shard entry
  let shard := flowtableHeapRemoveAt shard (shard.heap.pos entry)
  { shard with count := shard.count - 1 }

/-- The loop of `ipmanipulatorFlowShardExpire`: remove the heap's root while it is due and the
budget lasts.  Returns the shard and the count removed. -/
def ipmanipulatorFlowShardExpire.loop (shard : FlowShard) (now_ms : UInt64) (budget removed : UInt32) :
    FlowShard × UInt32 :=
  if h : removed < budget ∧ 0 < shard.heap.count ∧ shard.deadline_ms (shard.heap.arr 0) ≤ now_ms then
    loop (ipmanipulatorFlowShardRemove shard (shard.heap.arr 0)) now_ms budget (removed + 1)
  else (shard, removed)
termination_by budget.toNat - removed.toNat
decreasing_by
  have := UInt32.lt_iff_toNat_lt.mp h.1
  have hb := budget.toNat_lt
  rw [UInt32.toNat_add]
  simp only [UInt32.reduceToNat]
  rw [Nat.mod_eq_of_lt (by omega)]
  omega

def ipmanipulatorFlowShardExpire (shard : FlowShard) (now_ms : UInt64) (budget : UInt32) :
    FlowShard × UInt32 :=
  ipmanipulatorFlowShardExpire.loop shard now_ms budget 0

/-- The entry `ipmanipulatorFlowShardReserve` adds once it has decided to: the new entry at the
next address, with its key and deadline, put in its bucket and on the heap. -/
def flowtableAdmit (shard : FlowShard) (key : FlowKey) (deadline_ms : UInt64) : FlowShard :=
  let entry := shard.allocated
  let shard := { shard with
    allocated := shard.allocated + 1
    key := Function.update shard.key entry key
    deadline_ms := Function.update shard.deadline_ms entry deadline_ms }
  let shard := flowtableBucketInsert shard entry (flowtableBucketIndex hash shard key)
  let shard := flowtableHeapPush shard entry
  { shard with count := shard.count + 1 }

/-- `ipmanipulatorFlowShardReserve`.  `allocation_succeeds` is whether `memoryAllocateZero` returns
an entry. -/
def ipmanipulatorFlowShardReserve (shard : FlowShard) (key : FlowKey) (now_ms deadline_ms : UInt64)
    (allocation_succeeds : Bool) : FlowShard × Option EntryPtr :=
  if (ipmanipulatorFlowShardFind hash shard key).isSome then (shard, none)
  else
    let shard :=
      if shard.limit.toNat ≤ shard.count then
        (ipmanipulatorFlowShardExpire shard now_ms kIpManipulatorFlowCleanupBudget).1
      else shard
    if shard.limit.toNat ≤ shard.count then
      ({ shard with rejected_admissions := shard.rejected_admissions + 1 }, none)
    else if !allocation_succeeds then (shard, none)
    else (flowtableAdmit hash shard key deadline_ms, some shard.allocated)

end Operations

def ipmanipulatorFlowShardTouch (shard : FlowShard) (entry : EntryPtr) (deadline_ms : UInt64) :
    FlowShard :=
  if shard.deadline_ms entry = deadline_ms then shard
  else
    let moved_later := decide (deadline_ms > shard.deadline_ms entry)
    let shard := { shard with deadline_ms := Function.update shard.deadline_ms entry deadline_ms }
    if moved_later then flowtableHeapSiftDown shard (shard.heap.pos entry)
    else flowtableHeapSiftUp shard (shard.heap.pos entry)

/-! ## The table -/

/-- `ipmanipulatorFlowTableHash`: `calcHashBytesSeed` of the key's twelve bytes under the table's
seed, with the hash of a key under a seed a parameter. -/
def ipmanipulatorFlowTableHash (calcHash : FlowKey → UInt64 → UInt64) (table : FlowTable)
    (key : FlowKey) : UInt64 :=
  calcHash key table.hash_seed

/-- `ipmanipulatorFlowTableLockShard`: the index of the shard it locks, from the hash's high
half. -/
def ipmanipulatorFlowTableLockShard (hash : FlowKey → UInt64) (table : FlowTable) (key : FlowKey) :
    Nat :=
  ((hash key >>> 32).toUInt32 &&& table.shard_mask).toNat

/-- The shard `ipmanipulatorFlowTableLockShard` picks is one of the table's. -/
theorem ipmanipulatorFlowTableLockShard_lt (hash : FlowKey → UInt64) {t : FlowTable} (ht : t.Sized)
    (key : FlowKey) : ipmanipulatorFlowTableLockShard hash t key < t.shards.length := by
  obtain ⟨k, hk⟩ := ht.shard_count_pow
  have hone : (1 : UInt32) ≤ t.shard_count := UInt32.le_iff_toNat_le.mpr ht.shard_count_pos
  have hmask : t.shard_mask.toNat = 2 ^ k - 1 := by
    rw [ht.shard_mask_eq, UInt32.toNat_sub_of_le _ _ hone, hk]
    rfl
  rw [ipmanipulatorFlowTableLockShard, UInt32.toNat_and, hmask, Nat.and_two_pow_sub_one_eq_mod,
    ht.length_shards, hk]
  exact Nat.mod_lt _ (Nat.two_pow_pos k)

end IpManipulator
end WaterWall
