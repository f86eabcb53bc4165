import Mathlib
import WaterWall.Devices.FlowAffinity

/-!
# Device flow affinity: posting a batch

`deviceFlowAffinityPostBatch` (`ww/devices/device_flow_affinity.c`) hands a batch of buffers read
from a device to the workers, in chunks of at most 512.  For a chunk it asks
`deviceFlowAffinitySelectWID` for each buffer's worker, sorts the buffers by worker with a
counting sort over the 256 worker ids (`uint16_t` counts, offsets and positions), and makes one
`deviceReaderSessionPost` per worker that has buffers.

* `deviceFlowAffinityPostChunk_filter`: in one chunk the buffers posted to a worker are exactly
  the chunk's buffers that chose it, in their order: the counting sort is stable.
* `deviceFlowAffinityPostBatch_filter`: over the whole batch, the buffers posted to a worker are
  exactly the batch's buffers that chose it, in order; every buffer is posted once.
* `deviceFlowAffinityCounts_toNat`, `deviceFlowAffinityOffsets_toNat`: the `uint16_t` counts and
  offsets never wrap, and the last offset is the chunk's size, as the source asserts.
-/

set_option autoImplicit false

namespace WaterWall
namespace FlowAffinity

open scoped List

def kDeviceFlowAffinityMaxBatch : Nat := 512

/-- `kDeviceFlowAffinityBuckets`: one bucket for each `wid_t`. -/
def kDeviceFlowAffinityBuckets : Nat := 256

/-- The worker ids, in the order the loops over the buckets visit them. -/
def deviceFlowAffinityBucketWids : List UInt8 :=
  (List.range kDeviceFlowAffinityBuckets).map UInt8.ofNat

section Chunk

variable {β : Type}

/-- The first loop's counting: `counts[wids[i]]++` on `uint16_t` counters. -/
def deviceFlowAffinityCounts (wids : List UInt8) : UInt8 → UInt16 :=
  wids.foldl (fun counts wid => Function.update counts wid (counts wid + 1)) fun _ => 0

/-- The second loop: a worker's entry of `offsets` is the running `offset`, which then grows by
the worker's count.  `positions` starts as a copy of `offsets`. -/
def deviceFlowAffinityOffsets (counts : UInt8 → UInt16) : (UInt8 → UInt16) × UInt16 :=
  deviceFlowAffinityBucketWids.foldl
    (fun acc wid => (Function.update acc.1 wid acc.2, acc.2 + counts wid)) (fun _ => 0, 0)

/-- The third loop: `sorted[positions[wids[i]]++] = bufs[i]`, over the chunk's buffers with
their workers, in order.  A slot of `sorted` not written is `none`. -/
def deviceFlowAffinityScatter :
    (UInt8 → UInt16) → (Nat → Option β) → List (β × UInt8) → (UInt8 → UInt16) × (Nat → Option β)
  | positions, sorted, [] => (positions, sorted)
  | positions, sorted, (buf, wid) :: rest =>
    deviceFlowAffinityScatter (Function.update positions wid (positions wid + 1))
      (Function.update sorted (positions wid).toNat (some buf)) rest

/-- One chunk: the buffers sorted by worker, then, for every worker with buffers, one
`deviceReaderSessionPost` of the `counts[wid]` slots of `sorted` from `offsets[wid]`. -/
def deviceFlowAffinityPostChunk (bufs : List β) (wids : List UInt8) :
    List (UInt8 × List (Option β)) :=
  let counts := deviceFlowAffinityCounts wids
  let offsets := (deviceFlowAffinityOffsets counts).1
  let sorted := (deviceFlowAffinityScatter offsets (fun _ => none) (bufs.zip wids)).2
  deviceFlowAffinityBucketWids.filterMap fun wid =>
    if counts wid > 0 then
      some (wid, (List.range (counts wid).toNat).map fun i => sorted ((offsets wid).toNat + i))
    else none

/-! ### The counts and the offsets -/

/-- The number of workers in the list below `v`: where `v`'s run of the sorted array begins. -/
def countBelow (wids : List UInt8) (v : UInt8) : Nat := wids.countP fun x => x.toNat < v.toNat

theorem foldl_update_count (wids : List UInt8) (c : UInt8 → UInt16) :
    wids.foldl (fun counts wid => Function.update counts wid (counts wid + 1)) c =
      fun v => c v + UInt16.ofNat (wids.count v) := by
  induction wids generalizing c with
  | nil => funext v; simp
  | cons w ws ih =>
    rw [List.foldl_cons, ih]
    funext v
    rw [List.count_cons, UInt16.ofNat_add]
    by_cases hv : v = w
    · subst hv
      rw [Function.update_self, if_pos (beq_self_eq_true v), show UInt16.ofNat 1 = 1 from rfl,
        UInt16.add_assoc, UInt16.add_comm 1]
    · rw [Function.update_of_ne hv, if_neg (by simpa using Ne.symm hv),
        show UInt16.ofNat 0 = 0 from rfl, UInt16.add_zero]

theorem deviceFlowAffinityCounts_eq (wids : List UInt8) (v : UInt8) :
    deviceFlowAffinityCounts wids v = UInt16.ofNat (wids.count v) := by
  rw [deviceFlowAffinityCounts, foldl_update_count]
  exact UInt16.zero_add _

/-- A worker's run of buffers below `m + 1` is those below `m` and those of worker `m`. -/
theorem countP_lt_succ (wids : List UInt8) {m : Nat} (hm : m < 256) :
    wids.countP (fun x => x.toNat < m + 1) =
      wids.countP (fun x => x.toNat < m) + wids.count (UInt8.ofNat m) := by
  have hm' : (UInt8.ofNat m).toNat = m := by rw [UInt8.toNat_ofNat']; omega
  induction wids with
  | nil => rfl
  | cons x xs ih =>
    rw [List.countP_cons, List.countP_cons, List.count_cons, ih]
    have hx : (x == UInt8.ofNat m) = decide (x.toNat = m) := by
      rw [Bool.eq_iff_iff, beq_iff_eq, decide_eq_true_iff, ← UInt8.toNat_inj, hm']
    rw [hx]
    by_cases h1 : x.toNat < m
    · simp [h1, Nat.lt_succ_of_lt h1, Nat.ne_of_lt h1]
      omega
    · by_cases h2 : x.toNat = m
      · simp [h2]
        omega
      · simp [h1, h2, show ¬(x.toNat < m + 1) by omega]

/-- The offsets loop over the first `m` worker ids: the ids below `m` have their offsets, and the
running offset is the number of buffers of those workers. -/
theorem foldl_offsets (wids : List UInt8) {m : Nat} (hm : m ≤ 256) :
    ((List.range m).map UInt8.ofNat).foldl
        (fun acc wid => (Function.update acc.1 wid acc.2,
          acc.2 + deviceFlowAffinityCounts wids wid)) (fun _ => 0, 0) =
      (fun v => if v.toNat < m then UInt16.ofNat (countBelow wids v) else 0,
        UInt16.ofNat (wids.countP fun x => x.toNat < m)) := by
  induction m with
  | zero => simp
  | succ m ih =>
    rw [List.range_succ, List.map_append, List.foldl_append, ih (by omega), List.map_singleton,
      List.foldl_cons, List.foldl_nil, deviceFlowAffinityCounts_eq, ← UInt16.ofNat_add,
      ← countP_lt_succ wids (by omega)]
    have hm' : (UInt8.ofNat m).toNat = m := by rw [UInt8.toNat_ofNat']; omega
    dsimp only
    congr 1
    funext v
    by_cases hv : v = UInt8.ofNat m
    · subst hv
      rw [Function.update_self, if_pos (by omega), countBelow, hm']
    · have hvm : v.toNat ≠ m := fun h => hv (UInt8.toNat_inj.1 (by rw [h, hm']))
      rw [Function.update_of_ne hv]
      by_cases hlt : v.toNat < m
      · rw [if_pos hlt, if_pos (by omega)]
      · rw [if_neg hlt, if_neg (by omega)]

/-- The offsets of a chunk: each worker's is the number of buffers of the workers below it, and
the last running offset is the chunk's size. -/
theorem deviceFlowAffinityOffsets_eq (wids : List UInt8) :
    deviceFlowAffinityOffsets (deviceFlowAffinityCounts wids) =
      (fun v => UInt16.ofNat (countBelow wids v), UInt16.ofNat wids.length) := by
  rw [deviceFlowAffinityOffsets, deviceFlowAffinityBucketWids, kDeviceFlowAffinityBuckets,
    foldl_offsets wids (Nat.le_refl 256)]
  congr 1
  · funext v
    rw [if_pos v.toNat_lt]
  · rw [List.countP_eq_length.2 fun x _ => by simpa using x.toNat_lt]

/-! ### The runs of the sorted array -/

/-- A worker's run ends before the run of any worker above it. -/
theorem countBelow_add_count_le (wids : List UInt8) {v w : UInt8} (h : v.toNat < w.toNat) :
    countBelow wids v + wids.count v ≤ countBelow wids w := by
  induction wids with
  | nil => simp [countBelow]
  | cons x xs ih =>
    simp only [countBelow, List.countP_cons, List.count_cons, beq_iff_eq] at ih ⊢
    have hxv : x = v → x.toNat = v.toNat := fun h => h ▸ rfl
    split_ifs <;> simp_all <;> omega

theorem countBelow_add_count_le_length (wids : List UInt8) (v : UInt8) :
    countBelow wids v + wids.count v ≤ wids.length := by
  induction wids with
  | nil => simp [countBelow]
  | cons x xs ih =>
    simp only [countBelow, List.countP_cons, List.count_cons, beq_iff_eq, List.length_cons] at ih ⊢
    split_ifs <;> simp_all <;> omega

theorem countBelow_add_ne {wids : List UInt8} {v w : UInt8} (hvw : v ≠ w) {k j : Nat}
    (hk : k < wids.count v) (hj : j < wids.count w) :
    countBelow wids v + k ≠ countBelow wids w + j := by
  have hne : v.toNat ≠ w.toNat := fun h => hvw (UInt8.toNat_inj.1 h)
  rcases Nat.lt_or_gt_of_ne hne with h | h
  · have := countBelow_add_count_le wids h
    omega
  · have := countBelow_add_count_le wids h
    omega

variable {β : Type}

/-- **One pass of the scatter loop.**  Writing the next buffer of worker `w` at the end of `w`'s
written part of its run extends that part by the buffer, and leaves every other worker's run as
it was. -/
theorem scatter_step {all : List UInt8} {pre rest : List (β × UInt8)} {b : β} {w : UInt8}
    {sorted : Nat → Option β} (hall : (pre ++ (b, w) :: rest).map Prod.snd = all)
    (hsorted : ∀ v, (List.range ((pre.map Prod.snd).count v)).map
      (fun k => sorted (countBelow all v + k)) = (pre.filter (·.2 == v)).map (some ∘ Prod.fst))
    (v : UInt8) :
    (List.range (((pre ++ [(b, w)]).map Prod.snd).count v)).map
        (fun k => Function.update sorted (countBelow all w + (pre.map Prod.snd).count w) (some b)
          (countBelow all v + k)) =
      ((pre ++ [(b, w)]).filter (·.2 == v)).map (some ∘ Prod.fst) := by
  -- how many of each worker come before, at and after this buffer
  have hcount : ∀ u, all.count u =
      (pre.map Prod.snd).count u + (if w == u then 1 else 0) + (rest.map Prod.snd).count u := by
    intro u
    rw [← hall, List.map_append, List.count_append, List.map_cons, List.count_cons]
    dsimp only
    omega
  rw [List.map_append, List.count_append, List.filter_append, List.map_append]
  by_cases hv : v = w
  · subst hv
    have hlt : (pre.map Prod.snd).count v < all.count v := by
      rw [hcount v, if_pos (beq_self_eq_true v)]
      omega
    rw [List.map_singleton, List.count_singleton_self, List.range_succ, List.map_append,
      List.map_singleton, Function.update_self, List.filter_singleton, beq_self_eq_true,
      cond_true, List.map_singleton]
    congr 1
    rw [← hsorted v]
    apply List.map_congr_left
    intro k hk
    rw [List.mem_range] at hk
    exact Function.update_of_ne (by omega) _ _
  · have hwv : (w == v) = false := by simpa using Ne.symm hv
    have hle : (pre.map Prod.snd).count v ≤ all.count v := by
      rw [hcount v]
      omega
    have hlt : (pre.map Prod.snd).count w < all.count w := by
      rw [hcount w, if_pos (beq_self_eq_true w)]
      omega
    rw [List.map_singleton, List.count_singleton, hwv, List.filter_singleton]
    simp only [hwv, cond_false, List.map_nil, List.append_nil, Bool.false_eq_true, ↓reduceIte,
      Nat.add_zero]
    rw [← hsorted v]
    apply List.map_congr_left
    intro k hk
    rw [List.mem_range] at hk
    exact Function.update_of_ne (countBelow_add_ne hv (by omega) hlt) _ _

/-- **The scatter loop sorts stably.**  From a state where the positions are at the end of each
worker's written part and those parts hold the buffers seen so far, the loop over the remaining
buffers leaves each worker's run holding all of that worker's buffers, in their order.  The
induction is on the buffers still to place. -/
theorem deviceFlowAffinityScatter_runs (all : List UInt8) (hsize : all.length < 2 ^ 16) :
    ∀ (ps pre : List (β × UInt8)) (positions : UInt8 → UInt16) (sorted : Nat → Option β),
      (pre ++ ps).map Prod.snd = all →
      (∀ v, positions v = UInt16.ofNat (countBelow all v + (pre.map Prod.snd).count v)) →
      (∀ v, (List.range ((pre.map Prod.snd).count v)).map
        (fun k => sorted (countBelow all v + k)) = (pre.filter (·.2 == v)).map (some ∘ Prod.fst)) →
      ∀ v, (List.range (all.count v)).map
        (fun k => (deviceFlowAffinityScatter positions sorted ps).2 (countBelow all v + k)) =
          ((pre ++ ps).filter (·.2 == v)).map (some ∘ Prod.fst)
  | [], pre, positions, sorted, hall, _, hsorted, v => by
    rw [List.append_nil] at hall ⊢
    rw [deviceFlowAffinityScatter, ← hsorted v, hall]
  | (b, w) :: rest, pre, positions, sorted, hall, hpos, hsorted, v => by
    -- the buffer goes to `positions[w]`, which is inside `w`'s run
    have hcount : (pre.map Prod.snd).count w < all.count w := by
      rw [← hall, List.map_append, List.count_append, List.map_cons, List.count_cons]
      simp
    have hbound := countBelow_add_count_le_length all w
    have hw : (positions w).toNat = countBelow all w + (pre.map Prod.snd).count w := by
      rw [hpos w, UInt16.toNat_ofNat', Nat.mod_eq_of_lt (by omega)]
    rw [deviceFlowAffinityScatter, hw]
    have hall' : (pre ++ [(b, w)] ++ rest).map Prod.snd = all := by
      rw [List.append_assoc]
      exact hall
    rw [show pre ++ (b, w) :: rest = pre ++ [(b, w)] ++ rest by simp]
    refine deviceFlowAffinityScatter_runs all hsize rest (pre ++ [(b, w)]) _ _ hall' ?_
      (scatter_step hall hsorted) v
    intro u
    rw [List.map_append, List.count_append, List.map_singleton, List.count_singleton]
    by_cases hu : u = w
    · subst hu
      rw [Function.update_self, hpos u, beq_self_eq_true, if_pos rfl, ← Nat.add_assoc,
        UInt16.ofNat_add _ 1]
      rfl
    · rw [Function.update_of_ne hu, hpos u, if_neg (by simpa using Ne.symm hu), Nat.add_zero]

/-! ### One chunk -/

/-- In a chunk the `uint16_t` counts do not wrap: each is its worker's number of buffers. -/
theorem deviceFlowAffinityCounts_toNat {wids : List UInt8}
    (hsize : wids.length ≤ kDeviceFlowAffinityMaxBatch) (v : UInt8) :
    (deviceFlowAffinityCounts wids v).toNat = wids.count v := by
  have := List.count_le_length (a := v) (l := wids)
  rw [deviceFlowAffinityCounts_eq, UInt16.toNat_ofNat', Nat.mod_eq_of_lt]
  unfold kDeviceFlowAffinityMaxBatch at hsize
  omega

/-- In a chunk the `uint16_t` offsets do not wrap: each is the number of buffers of the workers
below, and the last running offset is the chunk's size (the source's `assert`). -/
theorem deviceFlowAffinityOffsets_toNat {wids : List UInt8}
    (hsize : wids.length ≤ kDeviceFlowAffinityMaxBatch) :
    (∀ v, ((deviceFlowAffinityOffsets (deviceFlowAffinityCounts wids)).1 v).toNat =
      countBelow wids v) ∧
    (deviceFlowAffinityOffsets (deviceFlowAffinityCounts wids)).2.toNat = wids.length := by
  unfold kDeviceFlowAffinityMaxBatch at hsize
  rw [deviceFlowAffinityOffsets_eq]
  refine ⟨fun v => ?_, ?_⟩
  · have := countBelow_add_count_le_length wids v
    rw [UInt16.toNat_ofNat', Nat.mod_eq_of_lt (by omega)]
  · rw [UInt16.toNat_ofNat', Nat.mod_eq_of_lt (by omega)]

/-- Picking the posts to one worker out of the loop over the buckets. -/
theorem flatMap_filter_filterMap {γ : Type} (ids : List UInt8) (c : UInt8 → Prop)
    [DecidablePred c] (L : UInt8 → List γ) (w : UInt8) :
    ((ids.filterMap fun v => if c v then some (v, L v) else none).filter (·.1 == w)).flatMap
        Prod.snd =
      (ids.filter (· == w)).flatMap fun v => if c v then L v else [] := by
  induction ids with
  | nil => rfl
  | cons v vs ih =>
    rw [List.filterMap_cons, List.filter_cons]
    by_cases hc : c v <;> by_cases hv : (v == w) = true
    · simp [hc, hv, ih]
    · simp [hc, hv, ih]
    · simp [hc, hv, ih]
    · simp [hc, hv, ih]

theorem deviceFlowAffinityBucketWids_nodup : deviceFlowAffinityBucketWids.Nodup := by
  refine List.Nodup.map_on (fun x hx y hy hxy => ?_) List.nodup_range
  rw [List.mem_range, kDeviceFlowAffinityBuckets] at hx hy
  have := congrArg UInt8.toNat hxy
  rwa [UInt8.toNat_ofNat', UInt8.toNat_ofNat', Nat.mod_eq_of_lt (by simpa using hx),
    Nat.mod_eq_of_lt (by simpa using hy)] at this

theorem mem_deviceFlowAffinityBucketWids (w : UInt8) : w ∈ deviceFlowAffinityBucketWids :=
  List.mem_map.2 ⟨w.toNat, List.mem_range.2 w.toNat_lt, UInt8.ofNat_toNat⟩

/-- Each worker id is visited once by the loops over the buckets. -/
theorem deviceFlowAffinityBucketWids_filter (w : UInt8) :
    deviceFlowAffinityBucketWids.filter (· == w) = [w] := by
  rw [List.filter_beq, List.count_eq_one_of_mem deviceFlowAffinityBucketWids_nodup
    (mem_deviceFlowAffinityBucketWids w), List.replicate_one]

/-- **A chunk posts each worker its own buffers, in their order.**  The posts to `w` are the
chunk's buffers whose worker is `w`. -/
theorem deviceFlowAffinityPostChunk_filter (bufs : List β) (wids : List UInt8)
    (hlen : bufs.length = wids.length) (hsize : wids.length ≤ kDeviceFlowAffinityMaxBatch)
    (w : UInt8) :
    ((deviceFlowAffinityPostChunk bufs wids).filter (·.1 == w)).flatMap Prod.snd =
      ((bufs.zip wids).filter (·.2 == w)).map (some ∘ Prod.fst) := by
  have hoff := deviceFlowAffinityOffsets_toNat hsize
  -- the scatter loop from the offsets leaves each worker's run holding its buffers
  have hruns := deviceFlowAffinityScatter_runs wids
    (by unfold kDeviceFlowAffinityMaxBatch at hsize; omega) (bufs.zip wids) []
    (deviceFlowAffinityOffsets (deviceFlowAffinityCounts wids)).1 (fun _ => none)
    (List.map_snd_zip (by omega))
    (fun v => by rw [deviceFlowAffinityOffsets_eq]; rfl) (fun v => rfl) w
  rw [List.nil_append] at hruns
  rw [deviceFlowAffinityPostChunk, flatMap_filter_filterMap, deviceFlowAffinityBucketWids_filter, List.flatMap_singleton]
  by_cases hc : deviceFlowAffinityCounts wids w > 0
  · rw [if_pos hc, deviceFlowAffinityCounts_toNat hsize, hoff.1 w, ← hruns]
  · -- a worker with no buffer in the chunk gets no post, and has none to get
    have h0 : wids.count w = 0 := by
      rw [← deviceFlowAffinityCounts_toNat hsize]
      simpa [UInt16.lt_iff_toNat_lt] using hc
    rw [if_neg hc, ← hruns, h0]
    rfl

/-- Every post of a chunk carries between one and `kDeviceFlowAffinityMaxBatch` buffers. -/
theorem length_of_mem_deviceFlowAffinityPostChunk {bufs : List β} {wids : List UInt8}
    (hsize : wids.length ≤ kDeviceFlowAffinityMaxBatch) {post : UInt8 × List (Option β)}
    (h : post ∈ deviceFlowAffinityPostChunk bufs wids) :
    0 < post.2.length ∧ post.2.length ≤ kDeviceFlowAffinityMaxBatch := by
  rw [deviceFlowAffinityPostChunk] at h
  obtain ⟨v, -, hv⟩ := List.mem_filterMap.1 h
  split at hv
  · case isTrue hc =>
    rw [Option.some.injEq] at hv
    subst hv
    have := List.count_le_length (a := v) (l := wids)
    rw [List.length_map, List.length_range, deviceFlowAffinityCounts_toNat hsize]
    rw [GT.gt, UInt16.lt_iff_toNat_lt, deviceFlowAffinityCounts_toNat hsize] at hc
    exact ⟨by simpa using hc, by omega⟩
  · case isFalse => exact absurd hv (by simp)

end Chunk

/-- The first loop's calls of `deviceFlowAffinitySelectWID`, in buffer order, passing the
round-robin counter on. -/
def deviceFlowAffinitySelectWIDs (workers : UInt8) :
    UInt8 → List (List UInt8) → List UInt8 × UInt8
  | distribute_wid, [] => ([], distribute_wid)
  | distribute_wid, buf :: bufs =>
    let (wid, distribute_wid) := deviceFlowAffinitySelectWID workers distribute_wid buf
    let (wids, distribute_wid) := deviceFlowAffinitySelectWIDs workers distribute_wid bufs
    (wid :: wids, distribute_wid)

/-- `deviceFlowAffinityPostBatch`: the batch in chunks of at most `kDeviceFlowAffinityMaxBatch`,
each chunk's workers chosen and its posts made before the next chunk.  The result is the
sequence of `deviceReaderSessionPost` calls, each a worker and the buffers posted to it, and the
round-robin counter after the batch. -/
def deviceFlowAffinityPostBatch (workers distribute_wid : UInt8) (bufs : List (List UInt8)) :
    List (UInt8 × List (Option (List UInt8))) × UInt8 :=
  if bufs.length = 0 then ([], distribute_wid)
  else
    let chunk_count := min bufs.length kDeviceFlowAffinityMaxBatch
    let (wids, distribute_wid) :=
      deviceFlowAffinitySelectWIDs workers distribute_wid (bufs.take chunk_count)
    let (posts, distribute_wid) :=
      deviceFlowAffinityPostBatch workers distribute_wid (bufs.drop chunk_count)
    (deviceFlowAffinityPostChunk (bufs.take chunk_count) wids ++ posts, distribute_wid)
termination_by bufs.length
decreasing_by
  simp only [List.length_drop, kDeviceFlowAffinityMaxBatch]
  omega

/-! ## Grouping by worker only reorders -/

section Group

variable {K X Y : Type} [BEq K] [LawfulBEq K]

theorem flatMap_beq_of_nodup {ids : List K} (hnd : ids.Nodup) (a : K) (x : List X) :
    (ids.flatMap fun k => if a == k then x else []) = if a ∈ ids then x else [] := by
  induction ids with
  | nil => simp
  | cons k ks ih =>
    obtain ⟨hk, hks⟩ := List.nodup_cons.1 hnd
    rw [List.flatMap_cons, ih hks]
    by_cases hak : a = k
    · subst hak
      simp [hk]
    · simp [hak]

/-- **Grouping a list of runs by key, over a list holding every key once, only reorders it.**
The induction is on the runs: the first run lands in its key's group. -/
theorem flatMap_perm_flatMap_filter {ids : List K} (hnd : ids.Nodup) :
    ∀ (l : List (K × List X)), (∀ e ∈ l, e.1 ∈ ids) →
      l.flatMap Prod.snd ~ ids.flatMap fun k => (l.filter (·.1 == k)).flatMap Prod.snd
  | [], _ => by simp
  | e :: l, hl => by
    have ih := flatMap_perm_flatMap_filter hnd l fun x hx => hl x (List.mem_cons_of_mem _ hx)
    have hsingle : (ids.flatMap fun k => if e.1 == k then e.2 else []) = e.2 := by
      rw [flatMap_beq_of_nodup hnd, if_pos (hl e List.mem_cons_self)]
    have hsplit : (ids.flatMap fun k => ((e :: l).filter (·.1 == k)).flatMap Prod.snd) =
        ids.flatMap fun k =>
          (if e.1 == k then e.2 else []) ++ (l.filter (·.1 == k)).flatMap Prod.snd := by
      congr 1
      funext k
      rw [List.filter_cons]
      split <;> simp_all
    rw [hsplit, List.flatMap_cons]
    calc e.2 ++ l.flatMap Prod.snd
        ~ e.2 ++ ids.flatMap (fun k => (l.filter (·.1 == k)).flatMap Prod.snd) := ih.append_left _
      _ = (ids.flatMap fun k => if e.1 == k then e.2 else []) ++
            ids.flatMap (fun k => (l.filter (·.1 == k)).flatMap Prod.snd) := by rw [hsingle]
      _ ~ _ := List.flatMap_append_perm _ _ _

/-- The same for a list of single items, each with its key. -/
theorem map_perm_flatMap_filter {ids : List K} (hnd : ids.Nodup) (l : List (Y × K))
    (hl : ∀ e ∈ l, e.2 ∈ ids) (f : Y → X) :
    l.map (f ∘ Prod.fst) ~ ids.flatMap fun k => (l.filter (·.2 == k)).map (f ∘ Prod.fst) := by
  have h := flatMap_perm_flatMap_filter hnd (l.map fun e => (e.2, [f e.1])) fun e he => by
    obtain ⟨x, hx, rfl⟩ := List.mem_map.1 he
    exact hl x hx
  simp only [List.filter_map, List.flatMap_map, Function.comp_def, ← List.map_eq_flatMap] at h
  exact h

end Group

/-! ## The whole batch -/

theorem length_deviceFlowAffinitySelectWIDs (workers : UInt8) :
    ∀ (distribute_wid : UInt8) (bufs : List (List UInt8)),
      (deviceFlowAffinitySelectWIDs workers distribute_wid bufs).1.length = bufs.length
  | _, [] => rfl
  | distribute_wid, buf :: bufs => by
    rcases hs : deviceFlowAffinitySelectWID workers distribute_wid buf with ⟨wid, d⟩
    have := length_deviceFlowAffinitySelectWIDs workers d bufs
    simp only [deviceFlowAffinitySelectWIDs, hs, List.length_cons]
    omega

/-- Choosing the workers of two runs of buffers one after the other is choosing them for both. -/
theorem deviceFlowAffinitySelectWIDs_append (workers : UInt8) :
    ∀ (distribute_wid : UInt8) (l₁ l₂ : List (List UInt8)),
      deviceFlowAffinitySelectWIDs workers distribute_wid (l₁ ++ l₂) =
        ((deviceFlowAffinitySelectWIDs workers distribute_wid l₁).1 ++
          (deviceFlowAffinitySelectWIDs workers
            (deviceFlowAffinitySelectWIDs workers distribute_wid l₁).2 l₂).1,
          (deviceFlowAffinitySelectWIDs workers
            (deviceFlowAffinitySelectWIDs workers distribute_wid l₁).2 l₂).2)
  | _, [], _ => rfl
  | distribute_wid, buf :: l₁, l₂ => by
    rcases hs : deviceFlowAffinitySelectWID workers distribute_wid buf with ⟨wid, d⟩
    simp only [List.cons_append, deviceFlowAffinitySelectWIDs, hs,
      deviceFlowAffinitySelectWIDs_append workers d l₁ l₂, List.cons_append]

/-- **Every buffer is posted once, to the worker chosen for it, in order.**  Over the whole
batch, the buffers of the posts to worker `w`, post after post, are exactly the batch's buffers
for which `deviceFlowAffinitySelectWID` chose `w`, in their order.  The induction is on the
chunks. -/
theorem deviceFlowAffinityPostBatch_filter (workers w : UInt8) :
    ∀ (n : Nat) (distribute_wid : UInt8) (bufs : List (List UInt8)), bufs.length = n →
      ((deviceFlowAffinityPostBatch workers distribute_wid bufs).1.filter (·.1 == w)).flatMap
          Prod.snd =
        ((bufs.zip (deviceFlowAffinitySelectWIDs workers distribute_wid bufs).1).filter
          (·.2 == w)).map (some ∘ Prod.fst) := by
  intro n
  induction n using Nat.strong_induction_on with
  | _ n ih =>
    intro distribute_wid bufs hn
    rw [deviceFlowAffinityPostBatch]
    by_cases h0 : bufs.length = 0
    · rw [if_pos h0, List.length_eq_zero_iff.1 h0]
      rfl
    · rw [if_neg h0]
      -- the first chunk and the rest of the batch
      generalize hc : min bufs.length kDeviceFlowAffinityMaxBatch = c
      have hc512 : c ≤ kDeviceFlowAffinityMaxBatch := hc ▸ Nat.min_le_right _ _
      have hcpos : 0 < c := by unfold kDeviceFlowAffinityMaxBatch at hc; omega
      rcases hsel : deviceFlowAffinitySelectWIDs workers distribute_wid (bufs.take c)
        with ⟨wids, d⟩
      rcases hrec : deviceFlowAffinityPostBatch workers d (bufs.drop c) with ⟨posts, d'⟩
      dsimp only
      rw [hsel]
      dsimp only
      rw [hrec]
      have hwl : wids.length = (bufs.take c).length := by
        rw [← length_deviceFlowAffinitySelectWIDs workers distribute_wid (bufs.take c), hsel]
      have hselAll : (deviceFlowAffinitySelectWIDs workers distribute_wid bufs).1 =
          wids ++ (deviceFlowAffinitySelectWIDs workers d (bufs.drop c)).1 := by
        conv_lhs => rw [← List.take_append_drop c bufs]
        rw [deviceFlowAffinitySelectWIDs_append, hsel]
      have hzip : bufs.zip (wids ++ (deviceFlowAffinitySelectWIDs workers d (bufs.drop c)).1) =
          (bufs.take c).zip wids ++
            (bufs.drop c).zip (deviceFlowAffinitySelectWIDs workers d (bufs.drop c)).1 := by
        have : (bufs.take c ++ bufs.drop c).zip
            (wids ++ (deviceFlowAffinitySelectWIDs workers d (bufs.drop c)).1) =
            (bufs.take c).zip wids ++
              (bufs.drop c).zip (deviceFlowAffinitySelectWIDs workers d (bufs.drop c)).1 :=
          List.zip_append hwl.symm
        rwa [List.take_append_drop] at this
      have hchunk := deviceFlowAffinityPostChunk_filter (bufs.take c) wids hwl.symm
        (by rw [hwl, List.length_take]; omega) w
      have hrest := ih (bufs.drop c).length (by rw [List.length_drop]; omega) d (bufs.drop c) rfl
      rw [hrec] at hrest
      rw [hselAll, hzip, List.filter_append, List.flatMap_append, hchunk, List.filter_append,
        List.map_append, ← hrest]

/-- Every post of the batch carries between one and `kDeviceFlowAffinityMaxBatch` buffers. -/
theorem length_of_mem_deviceFlowAffinityPostBatch (workers : UInt8) :
    ∀ (n : Nat) (distribute_wid : UInt8) (bufs : List (List UInt8)), bufs.length = n →
      ∀ post ∈ (deviceFlowAffinityPostBatch workers distribute_wid bufs).1,
        0 < post.2.length ∧ post.2.length ≤ kDeviceFlowAffinityMaxBatch := by
  intro n
  induction n using Nat.strong_induction_on with
  | _ n ih =>
    intro distribute_wid bufs hn post hpost
    rw [deviceFlowAffinityPostBatch] at hpost
    by_cases h0 : bufs.length = 0
    · rw [if_pos h0] at hpost
      exact absurd hpost List.not_mem_nil
    · rw [if_neg h0] at hpost
      generalize hc : min bufs.length kDeviceFlowAffinityMaxBatch = c at hpost
      have hc512 : c ≤ kDeviceFlowAffinityMaxBatch := hc ▸ Nat.min_le_right _ _
      have hcpos : 0 < c := by unfold kDeviceFlowAffinityMaxBatch at hc; omega
      rcases hsel : deviceFlowAffinitySelectWIDs workers distribute_wid (bufs.take c)
        with ⟨wids, d⟩
      rcases hrec : deviceFlowAffinityPostBatch workers d (bufs.drop c) with ⟨posts, d'⟩
      dsimp only at hpost
      rw [hsel] at hpost
      dsimp only at hpost
      rw [hrec] at hpost
      rcases List.mem_append.1 hpost with h | h
      · have hwl : wids.length = (bufs.take c).length := by
          rw [← length_deviceFlowAffinitySelectWIDs workers distribute_wid (bufs.take c), hsel]
        exact length_of_mem_deviceFlowAffinityPostChunk
          (by rw [hwl, List.length_take]; omega) h
      · have hrest := ih (bufs.drop c).length (by rw [List.length_drop]; omega) d (bufs.drop c) rfl
        rw [hrec] at hrest
        exact hrest post h

/-- **Every buffer of the batch is posted exactly once**: the buffers of all the posts are the
batch's buffers, reordered. -/
theorem deviceFlowAffinityPostBatch_perm (workers distribute_wid : UInt8)
    (bufs : List (List UInt8)) :
    (deviceFlowAffinityPostBatch workers distribute_wid bufs).1.flatMap Prod.snd ~ bufs.map some := by
  have hlen := length_deviceFlowAffinitySelectWIDs workers distribute_wid bufs
  -- group the posts by worker, then the buffers by the worker chosen for them
  have hposts := flatMap_perm_flatMap_filter deviceFlowAffinityBucketWids_nodup
    (deviceFlowAffinityPostBatch workers distribute_wid bufs).1
    fun e _ => mem_deviceFlowAffinityBucketWids e.1
  have hbufs := map_perm_flatMap_filter deviceFlowAffinityBucketWids_nodup
    (bufs.zip (deviceFlowAffinitySelectWIDs workers distribute_wid bufs).1)
    (fun e _ => mem_deviceFlowAffinityBucketWids e.2) some
  have hgroups : (deviceFlowAffinityBucketWids.flatMap fun w =>
      ((deviceFlowAffinityPostBatch workers distribute_wid bufs).1.filter (·.1 == w)).flatMap
        Prod.snd) =
      deviceFlowAffinityBucketWids.flatMap fun w =>
        ((bufs.zip (deviceFlowAffinitySelectWIDs workers distribute_wid bufs).1).filter
          (·.2 == w)).map (some ∘ Prod.fst) := by
    congr 1
    funext w
    exact deviceFlowAffinityPostBatch_filter workers w _ distribute_wid bufs rfl
  have hzip : (bufs.zip (deviceFlowAffinitySelectWIDs workers distribute_wid bufs).1).map
      (some ∘ Prod.fst) = bufs.map some := by
    rw [← List.map_map, List.map_fst_zip (by omega)]
  rw [hgroups] at hposts
  exact hposts.trans (hzip ▸ hbufs).symm

/-! ## Flow affinity -/

/-- **Device flow affinity keeps flows and datagrams together and posts every buffer once.**
Both directions of a flow hash alike; every fragment of an IPv4 datagram hashes by the
datagram's source, destination, protocol and identification; bytes after the datagram never
change the hash; and the batch poster hands each worker exactly the buffers chosen for it, in
their order, every buffer once, in posts of 1 to 512 buffers, with the chunk's `uint16_t` counts
and offsets never wrapping. -/
theorem deviceFlowAffinity_keepsFlowsTogether :
    (∀ p h, deviceFlowAffinityHash p = some h → deviceFlowAffinityHash (swapEndpoints p) = some h) ∧
    (∀ p q hp hq, deviceFlowAffinityHash p = some hp → deviceFlowAffinityHash q = some hq →
      IsIpv4Fragment p → IsIpv4Fragment q → GET_BE32 p 12 = GET_BE32 q 12 →
      GET_BE32 p 16 = GET_BE32 q 16 → Net.byteAt p 9 = Net.byteAt q 9 →
      GET_BE16 p 4 = GET_BE16 q 4 → hp = hq) ∧
    (∀ p q h, deviceFlowAffinityHash p = some h →
      q.take (datagramLength p) = p.take (datagramLength p) → datagramLength p ≤ q.length →
      deviceFlowAffinityHash q = some h) ∧
    (∀ workers distribute_wid bufs w,
      ((deviceFlowAffinityPostBatch workers distribute_wid bufs).1.filter (·.1 == w)).flatMap
          Prod.snd =
        ((bufs.zip (deviceFlowAffinitySelectWIDs workers distribute_wid bufs).1).filter
          (·.2 == w)).map (some ∘ Prod.fst)) ∧
    (∀ workers distribute_wid bufs,
      (deviceFlowAffinityPostBatch workers distribute_wid bufs).1.flatMap Prod.snd ~
        bufs.map some) ∧
    (∀ workers distribute_wid bufs, ∀ post ∈ (deviceFlowAffinityPostBatch workers distribute_wid bufs).1,
      0 < post.2.length ∧ post.2.length ≤ kDeviceFlowAffinityMaxBatch) ∧
    (∀ wids : List UInt8, wids.length ≤ kDeviceFlowAffinityMaxBatch →
      (∀ v, (deviceFlowAffinityCounts wids v).toNat = wids.count v ∧
        ((deviceFlowAffinityOffsets (deviceFlowAffinityCounts wids)).1 v).toNat =
          countBelow wids v ∧
        countBelow wids v + wids.count v ≤ wids.length) ∧
      (deviceFlowAffinityOffsets (deviceFlowAffinityCounts wids)).2.toNat = wids.length) := by
  refine ⟨?swap, ?fragment, ?trailing, ?worker, ?once, ?posts, ?counts⟩
  case swap =>
    intro p h hp
    exact deviceFlowAffinityHash_swapEndpoints hp
  case fragment =>
    intro p q hp hq hph hqh hpf hqf hsrc hdst hproto hid
    rw [deviceFlowAffinityHash_ipv4Fragment hph hpf, deviceFlowAffinityHash_ipv4Fragment hqh hqf,
      hsrc, hdst, hproto, hid]
  case trailing =>
    intro p q h hp hq hlen
    exact deviceFlowAffinityHash_of_take hp hq hlen
  case worker =>
    intro workers distribute_wid bufs w
    exact deviceFlowAffinityPostBatch_filter workers w _ distribute_wid bufs rfl
  case once =>
    intro workers distribute_wid bufs
    exact deviceFlowAffinityPostBatch_perm workers distribute_wid bufs
  case posts =>
    intro workers distribute_wid bufs
    exact length_of_mem_deviceFlowAffinityPostBatch workers _ distribute_wid bufs rfl
  case counts =>
    intro wids hsize
    obtain ⟨hoff, hlast⟩ := deviceFlowAffinityOffsets_toNat hsize
    exact ⟨fun v => ⟨deviceFlowAffinityCounts_toNat hsize v, hoff v,
      countBelow_add_count_le_length wids v⟩, hlast⟩

end FlowAffinity
end WaterWall
