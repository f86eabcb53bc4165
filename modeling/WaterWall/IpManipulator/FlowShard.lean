import Mathlib
import WaterWall.IpManipulator.FlowTable

/-!
# What every run keeps of a flow-table shard

`FlowShard.Inv hash s es`: shard `s` holds the entries `es`, each once, in both of its structures.
The heap holds exactly `es`, each entry at the index it records, with deadlines that do not
decrease from parent to child, and `heap_count = count ≤ limit`; the bucket chains hold exactly
`es`, each entry in the chain of its key's hash under the mask, no two with one key.

* One lemma per operation from `Inv` to `Inv`, with what it does to `es`: `Inv.remove`,
  `Inv.touch`, `Inv.expireLoop`, `Inv.admit` and `Inv.reserve`.
* `Inv.find_eq_some_iff`: `ipmanipulatorFlowShardFind` finds the entry with the key exactly when
  there is one.  `Inv.reserve_eq_none_iff`: `ipmanipulatorFlowShardReserve` refuses exactly when
  the key is there, or the shard is full and nothing in it is due, or the allocation fails.
* `Reachable.good`: every table init and any calls on the locked shards reach is `Sized`, and each
  shard keeps `Inv`.
-/

set_option autoImplicit false

namespace WaterWall
namespace IpManipulator

open BinaryHeap Intrusive

namespace FlowShard

variable (hash : FlowKey → UInt64)

/-- Shard `s` holds the entries `es`, in its heap and in its bucket chains. -/
structure Inv (s : FlowShard) (es : List EntryPtr) : Prop where
  nodup : es.Nodup
  count_eq : s.count = es.length
  count_le : s.count ≤ s.limit.toNat
  heap_count : s.heap.count = s.count
  heap_valid : s.heap.Valid s.deadlineKey
  mem_heap : ∀ e, s.heap.Mem e ↔ e ∈ es
  buckets : ∃ chain : UInt32 → List EntryPtr, s.buckets.Holds chain ∧
    ∀ b e, e ∈ chain b ↔ e ∈ es ∧ s.bucket_index e = b
  bucket_index_eq : ∀ e ∈ es, s.bucket_index e = flowtableBucketIndex hash s (s.key e)
  key_inj : ∀ e ∈ es, ∀ e' ∈ es, s.key e = s.key e' → e = e'
  lt_allocated : ∀ e ∈ es, e < s.allocated

/-- The fields of a shard that no operation writes. -/
structure SameConfig (s s' : FlowShard) : Prop where
  limit : s'.limit = s.limit
  bucket_count : s'.bucket_count = s.bucket_count
  bucket_mask : s'.bucket_mask = s.bucket_mask

theorem SameConfig.refl (s : FlowShard) : SameConfig s s := ⟨rfl, rfl, rfl⟩

theorem SameConfig.trans {s s' s'' : FlowShard} (h₁ : SameConfig s s') (h₂ : SameConfig s' s'') :
    SameConfig s s'' :=
  ⟨h₂.limit.trans h₁.limit, h₂.bucket_count.trans h₁.bucket_count,
    h₂.bucket_mask.trans h₁.bucket_mask⟩

theorem inv_shardInit (limit shard_count i : UInt32) :
    Inv hash (flowtableShardInit limit shard_count i) [] where
  nodup := List.nodup_nil
  count_eq := rfl
  count_le := Nat.zero_le _
  heap_count := rfl
  heap_valid := ⟨fun _ h => absurd h (Nat.not_lt_zero _), fun _ _ h => absurd h (Nat.not_lt_zero _)⟩
  mem_heap _ := ⟨fun ⟨_, h, _⟩ => absurd h (Nat.not_lt_zero _), fun h => absurd h List.not_mem_nil⟩
  buckets := ⟨fun _ => [], Buckets.holds_empty _, fun _ _ => by simp⟩
  bucket_index_eq _ h := absurd h List.not_mem_nil
  key_inj _ h := absurd h List.not_mem_nil
  lt_allocated _ h := absurd h List.not_mem_nil

variable {hash} {s : FlowShard} {es : List EntryPtr}

/-- No bucket chain is longer than the shard's count: the bound of the chain walks. -/
theorem Inv.chain_length_le (hi : Inv hash s es) {chain : UInt32 → List EntryPtr}
    (hl : s.buckets.Holds chain) (hc : ∀ b e, e ∈ chain b ↔ e ∈ es ∧ s.bucket_index e = b)
    (b : UInt32) : (chain b).length ≤ s.count := by
  have hsub : chain b ⊆ es := fun e he => ((hc b e).mp he).1
  rw [hi.count_eq]
  exact (List.subperm_of_subset (hl.nodup b) hsub).length_le

/-- An entry of the shard sits in the heap at its `heap_index`. -/
theorem Inv.pos (hi : Inv hash s es) {e : EntryPtr} (he : e ∈ es) :
    s.heap.pos e < s.heap.count ∧ s.heap.arr (s.heap.pos e) = e :=
  hi.heap_valid.positioned.mem_iff.mp ((hi.mem_heap e).mpr he)

/-- `Inv` holds after a change of the heap and the deadlines that keeps the heap's entries and
their positions and orders it by the new deadlines. -/
theorem Inv.of_heap (hi : Inv hash s es) {s' : FlowShard} (hb : s'.buckets = s.buckets)
    (hk : s'.key = s.key) (hbi : s'.bucket_index = s.bucket_index) (hc : s'.count = s.count)
    (hcfg : SameConfig s s') (ha : s'.allocated = s.allocated) (hr : Heap.Rearranges s.heap s'.heap)
    (ho : Heap.Ordered s'.deadlineKey s'.heap) : Inv hash s' es where
  nodup := hi.nodup
  count_eq := hc ▸ hi.count_eq
  count_le := by rw [hc, hcfg.limit]; exact hi.count_le
  heap_count := by rw [hr.count_eq, hc]; exact hi.heap_count
  heap_valid := hr.valid ho
  mem_heap e := (hr.mem_iff e).trans (hi.mem_heap e)
  buckets := by rw [hb, hbi]; exact hi.buckets
  bucket_index_eq e he := by
    rw [hbi, hk, hi.bucket_index_eq e he]
    simp only [flowtableBucketIndex, hcfg.bucket_mask]
  key_inj := hk ▸ hi.key_inj
  lt_allocated := ha ▸ hi.lt_allocated

/-! ## Find -/

theorem Inv.find_eq_some_iff (hi : Inv hash s es) (key : FlowKey) (e : EntryPtr) :
    ipmanipulatorFlowShardFind hash s key = some e ↔ e ∈ es ∧ s.key e = key := by
  obtain ⟨chain, hl, hc⟩ := hi.buckets
  set b := flowtableBucketIndex hash s key with hb
  have hfind : ipmanipulatorFlowShardFind hash s key =
      (chain b).find? fun x => ipmanipulatorFlowKeyEquals (s.key x) key :=
    (hl.chain_eq b).find_eq _ (hi.chain_length_le hl hc b)
  rw [hfind]
  constructor
  · intro h
    have hp := List.find?_some h
    exact ⟨((hc b e).mp (List.mem_of_find?_eq_some h)).1, (ipmanipulatorFlowKeyEquals_iff _ _).mp hp⟩
  · rintro ⟨he, rfl⟩
    have heb : e ∈ chain b := (hc b e).mpr ⟨he, hi.bucket_index_eq e he⟩
    -- the walk stops at an entry with the key, and only `e` has it
    cases hf : (chain b).find? fun x => ipmanipulatorFlowKeyEquals (s.key x) (s.key e) with
    | none =>
      exact absurd ((ipmanipulatorFlowKeyEquals_iff _ _).mpr rfl) (List.find?_eq_none.mp hf e heb)
    | some e' =>
      have he' := ((hc b e').mp (List.mem_of_find?_eq_some hf)).1
      have hp := List.find?_some hf
      rw [hi.key_inj e' he' e he ((ipmanipulatorFlowKeyEquals_iff _ _).mp hp)]

theorem Inv.find_eq_none_iff (hi : Inv hash s es) (key : FlowKey) :
    ipmanipulatorFlowShardFind hash s key = none ↔ ∀ e ∈ es, s.key e ≠ key := by
  rw [Option.eq_none_iff_forall_ne_some]
  constructor
  · exact fun h e he hk => h e ((hi.find_eq_some_iff key e).mpr ⟨he, hk⟩)
  · exact fun h e hf => h e ((hi.find_eq_some_iff key e).mp hf).1 ((hi.find_eq_some_iff key e).mp hf).2

/-! ## Remove and Touch -/

theorem ipmanipulatorFlowShardRemove_eq (s : FlowShard) (e : EntryPtr) :
    ipmanipulatorFlowShardRemove s e =
      { s with
        buckets := s.buckets.unlinkFrom e s.count (.head (s.bucket_index e))
        heap := s.heap.removeAt s.deadlineKey (s.heap.pos e)
        count := s.count - 1 } := rfl

/-- `Remove` of an entry of the shard takes it out of both structures. -/
theorem Inv.remove (hi : Inv hash s es) {e : EntryPtr} (he : e ∈ es) :
    Inv hash (ipmanipulatorFlowShardRemove s e) (es.erase e) ∧
      SameConfig s (ipmanipulatorFlowShardRemove s e) := by
  obtain ⟨chain, hl, hc⟩ := hi.buckets
  have heb : e ∈ chain (s.bucket_index e) := (hc _ e).mpr ⟨he, rfl⟩
  have hl' := Buckets.holds_unlinkFrom hl heb (hi.chain_length_le hl hc _)
  obtain ⟨hpos, harr⟩ := hi.pos he
  obtain ⟨hv, hcount, hmem⟩ := Heap.valid_removeAt hi.heap_valid hpos
  have hmem_erase : ∀ x, x ∈ es.erase e ↔ x ≠ e ∧ x ∈ es := fun x => hi.nodup.mem_erase_iff
  have hlen := List.length_erase_of_mem he
  have hpos_es : 0 < es.length := List.length_pos_of_mem he
  rw [ipmanipulatorFlowShardRemove_eq]
  refine ⟨⟨hi.nodup.erase e, ?_, ?_, ?_, hv, fun x => ?_, ⟨_, hl', fun b x => ?_⟩, ?_, ?_, ?_⟩,
    ⟨rfl, rfl, rfl⟩⟩
  · show s.count - 1 = (es.erase e).length
    rw [hlen, hi.count_eq]
  · show s.count - 1 ≤ s.limit.toNat
    exact Nat.le_trans (Nat.sub_le _ _) hi.count_le
  · show (s.heap.removeAt s.deadlineKey (s.heap.pos e)).count = s.count - 1
    rw [hcount, hi.heap_count]
  · rw [hmem x, harr, hi.mem_heap, hmem_erase]
    exact And.comm
  · rw [hl.mem_update_erase heb, hc, hmem_erase]
    exact ⟨fun ⟨⟨h₁, h₂⟩, h₃⟩ => ⟨⟨h₃, h₁⟩, h₂⟩, fun ⟨⟨h₁, h₂⟩, h₃⟩ => ⟨⟨h₂, h₃⟩, h₁⟩⟩
  · exact fun x hx => hi.bucket_index_eq x ((hmem_erase x).mp hx).2
  · exact fun x hx y hy => hi.key_inj x ((hmem_erase x).mp hx).2 y ((hmem_erase y).mp hy).2
  · exact fun x hx => hi.lt_allocated x ((hmem_erase x).mp hx).2

/-- `Touch` of an entry of the shard moves it in the heap to its new deadline's place. -/
theorem Inv.touch (hi : Inv hash s es) {e : EntryPtr} (he : e ∈ es) (deadline_ms : UInt64) :
    Inv hash (ipmanipulatorFlowShardTouch s e deadline_ms) es ∧
      SameConfig s (ipmanipulatorFlowShardTouch s e deadline_ms) ∧
      (ipmanipulatorFlowShardTouch s e deadline_ms).deadline_ms =
        Function.update s.deadline_ms e deadline_ms := by
  obtain ⟨hpos, harr⟩ := hi.pos he
  -- the new deadlines differ from the old ones at `e` only, which is at `heap_index`
  set s₁ : FlowShard := { s with deadline_ms := Function.update s.deadline_ms e deadline_ms }
  have hk : ∀ x, x ≠ s.heap.arr (s.heap.pos e) → s₁.deadlineKey x = s.deadlineKey x := by
    intro x hx
    rw [harr] at hx
    simp only [s₁, FlowShard.deadlineKey, Function.update_of_ne hx]
  have hnew : s₁.deadlineKey (s.heap.arr (s.heap.pos e)) = deadline_ms.toNat := by
    simp only [s₁, FlowShard.deadlineKey, harr, Function.update_self]
  have hold : s.deadlineKey (s.heap.arr (s.heap.pos e)) = (s.deadline_ms e).toNat := by
    rw [harr]
    rfl
  unfold ipmanipulatorFlowShardTouch
  by_cases heq : s.deadline_ms e = deadline_ms
  · rw [if_pos heq]
    refine ⟨hi, SameConfig.refl s, ?_⟩
    rw [← heq, Function.update_eq_self]
  rw [if_neg heq]
  by_cases hlater : deadline_ms > s.deadline_ms e
  · rw [if_pos (decide_eq_true hlater)]
    have hle : s.deadlineKey (s.heap.arr (s.heap.pos e)) ≤ s₁.deadlineKey (s.heap.arr (s.heap.pos e)) := by
      rw [hnew, hold]
      exact Nat.le_of_lt (UInt64.lt_iff_toNat_lt.mp hlater)
    obtain ⟨hr, ho⟩ := Heap.siftDown_of_key_le hi.heap_valid hpos hk hle
    exact ⟨hi.of_heap rfl rfl rfl rfl ⟨rfl, rfl, rfl⟩ rfl hr ho, ⟨rfl, rfl, rfl⟩, rfl⟩
  · rw [if_neg (by simpa using hlater)]
    have hle : s₁.deadlineKey (s.heap.arr (s.heap.pos e)) ≤ s.deadlineKey (s.heap.arr (s.heap.pos e)) := by
      rw [hnew, hold]
      exact UInt64.le_iff_toNat_le.mp (UInt64.not_lt.mp hlater)
    obtain ⟨hr, ho⟩ := Heap.siftUp_of_key_le hi.heap_valid hpos hk hle
    exact ⟨hi.of_heap rfl rfl rfl rfl ⟨rfl, rfl, rfl⟩ rfl hr ho, ⟨rfl, rfl, rfl⟩, rfl⟩

/-! ## Expire -/

section Expire

variable (now_ms : UInt64) (budget : UInt32)

/-- The loop's test: budget left, and a root that is due. -/
def ExpireStep (shard : FlowShard) (removed : UInt32) : Prop :=
  removed < budget ∧ 0 < shard.heap.count ∧ shard.deadline_ms (shard.heap.arr 0) ≤ now_ms

theorem expireLoop_of_step {shard : FlowShard} {removed : UInt32}
    (h : ExpireStep now_ms budget shard removed) :
    ipmanipulatorFlowShardExpire.loop shard now_ms budget removed =
      ipmanipulatorFlowShardExpire.loop (ipmanipulatorFlowShardRemove shard (shard.heap.arr 0))
        now_ms budget (removed + 1) := by
  rw [ipmanipulatorFlowShardExpire.loop]
  exact dif_pos h

theorem expireLoop_of_not_step {shard : FlowShard} {removed : UInt32}
    (h : ¬ ExpireStep now_ms budget shard removed) :
    ipmanipulatorFlowShardExpire.loop shard now_ms budget removed = (shard, removed) := by
  rw [ipmanipulatorFlowShardExpire.loop]
  exact dif_neg h

theorem expireLoop_count_le (shard : FlowShard) (removed : UInt32) :
    (ipmanipulatorFlowShardExpire.loop shard now_ms budget removed).1.count ≤ shard.count := by
  induction shard, removed using ipmanipulatorFlowShardExpire.loop.induct now_ms budget with
  | case1 shard removed h ih =>
    rw [expireLoop_of_step now_ms budget h]
    exact Nat.le_trans ih (Nat.sub_le _ _)
  | case2 shard removed h =>
    rw [expireLoop_of_not_step now_ms budget h]

/-- The loop writes no entry's key, deadline or address. -/
theorem expireLoop_frame (shard : FlowShard) (removed : UInt32) :
    (ipmanipulatorFlowShardExpire.loop shard now_ms budget removed).1.key = shard.key ∧
      (ipmanipulatorFlowShardExpire.loop shard now_ms budget removed).1.deadline_ms =
        shard.deadline_ms ∧
      (ipmanipulatorFlowShardExpire.loop shard now_ms budget removed).1.allocated =
        shard.allocated := by
  induction shard, removed using ipmanipulatorFlowShardExpire.loop.induct now_ms budget with
  | case1 shard removed h ih =>
    rw [expireLoop_of_step now_ms budget h]
    exact ih
  | case2 shard removed h =>
    rw [expireLoop_of_not_step now_ms budget h]
    exact ⟨rfl, rfl, rfl⟩

/-- Each pass of the loop removes the root, an entry of the shard; what stays is a part of
`es`. -/
theorem Inv.expireLoop (hi : Inv hash s es) (removed : UInt32) :
    ∃ es', Inv hash (ipmanipulatorFlowShardExpire.loop s now_ms budget removed).1 es' ∧
      SameConfig s (ipmanipulatorFlowShardExpire.loop s now_ms budget removed).1 ∧ es' ⊆ es := by
  induction s, removed using ipmanipulatorFlowShardExpire.loop.induct now_ms budget generalizing es with
  | case1 shard removed h ih =>
    rw [expireLoop_of_step now_ms budget h]
    have hroot : shard.heap.arr 0 ∈ es := (hi.mem_heap _).mp ⟨0, h.2.1, rfl⟩
    obtain ⟨hi₁, hc₁⟩ := hi.remove hroot
    obtain ⟨es', hi', hc', hsub⟩ := ih hi₁
    exact ⟨es', hi', hc₁.trans hc', fun x hx => List.mem_of_mem_erase (hsub hx)⟩
  | case2 shard removed h =>
    rw [expireLoop_of_not_step now_ms budget h]
    exact ⟨es, hi, SameConfig.refl _, fun _ hx => hx⟩

/-- The root is due exactly when some entry is: it has the earliest deadline. -/
theorem Inv.root_due_iff (hi : Inv hash s es) :
    (0 < s.heap.count ∧ s.deadline_ms (s.heap.arr 0) ≤ now_ms) ↔ ∃ e ∈ es, s.deadline_ms e ≤ now_ms := by
  constructor
  · rintro ⟨hpos, hdue⟩
    exact ⟨_, (hi.mem_heap _).mp ⟨0, hpos, rfl⟩, hdue⟩
  · rintro ⟨e, he, hdue⟩
    obtain ⟨j, hj, rfl⟩ := (hi.mem_heap e).mpr he
    have hroot : s.deadlineKey (s.heap.arr 0) ≤ s.deadlineKey (s.heap.arr j) :=
      hi.heap_valid.ordered.root_le j hj
    refine ⟨Nat.lt_of_le_of_lt (Nat.zero_le j) hj, ?_⟩
    rw [UInt64.le_iff_toNat_le] at hdue ⊢
    exact Nat.le_trans hroot hdue

end Expire

/-! ## Reserve -/

theorem flowtableAdmit_eq (s : FlowShard) (key : FlowKey) (deadline_ms : UInt64) :
    flowtableAdmit hash s key deadline_ms =
      { s with
        allocated := s.allocated + 1
        key := Function.update s.key s.allocated key
        deadline_ms := Function.update s.deadline_ms s.allocated deadline_ms
        bucket_index := Function.update s.bucket_index s.allocated (flowtableBucketIndex hash s key)
        buckets := s.buckets.pushFront (flowtableBucketIndex hash s key) s.allocated
        heap := s.heap.push (fun e => (Function.update s.deadline_ms s.allocated deadline_ms e).toNat)
          s.allocated
        count := s.count + 1 } := rfl

/-- The entry `Reserve` admits is new: it goes into both structures, at its key's bucket. -/
theorem Inv.admit (hi : Inv hash s es) {key : FlowKey} (hk : ∀ e ∈ es, s.key e ≠ key)
    (hlt : s.count < s.limit.toNat) (deadline_ms : UInt64) :
    Inv hash (flowtableAdmit hash s key deadline_ms) (es ++ [s.allocated]) ∧
      SameConfig s (flowtableAdmit hash s key deadline_ms) := by
  obtain ⟨chain, hl, hc⟩ := hi.buckets
  have hn : s.allocated ∉ es := fun h => Nat.lt_irrefl _ (hi.lt_allocated s.allocated h)
  have hne : ∀ x ∈ es, x ≠ s.allocated := fun x hx hxn => hn (hxn ▸ hx)
  set b := flowtableBucketIndex hash s key with hb
  set key' : EntryPtr → Nat := fun e =>
    (Function.update s.deadline_ms s.allocated deadline_ms e).toNat
  -- the new deadline is at an address the heap does not hold
  have hv : s.heap.Valid key' := by
    refine ⟨hi.heap_valid.positioned, hi.heap_valid.ordered.congr_key fun x hx => ?_⟩
    simp only [key', Function.update_of_ne (hne x ((hi.mem_heap x).mp hx))]
    rfl
  obtain ⟨hv', hcount, hmem⟩ :=
    Heap.valid_push hv (e := s.allocated) fun h => hn ((hi.mem_heap s.allocated).mp h)
  have hl' := Buckets.holds_pushFront hl b fun b' h => hn ((hc b' s.allocated).mp h).1
  have hmem_app : ∀ x, x ∈ es ++ [s.allocated] ↔ x ∈ es ∨ x = s.allocated := fun x => by simp
  rw [flowtableAdmit_eq]
  refine ⟨⟨?_, ?_, ?_, ?_, hv', fun x => ?_, ⟨_, hl', fun b' x => ?_⟩, fun x hx => ?_,
    fun x hx y hy hxy => ?_, fun x hx => ?_⟩, ⟨rfl, rfl, rfl⟩⟩
  · exact List.nodup_append.mpr ⟨hi.nodup, List.nodup_singleton s.allocated,
      fun x hx y hy hxy => hn (by rw [List.mem_singleton.mp hy] at hxy; exact hxy ▸ hx)⟩
  · show s.count + 1 = (es ++ [s.allocated]).length
    rw [List.length_append, hi.count_eq]
    rfl
  · exact hlt
  · show (s.heap.push key' s.allocated).count = s.count + 1
    rw [hcount, hi.heap_count]
  · rw [hmem, hi.mem_heap, hmem_app]
  · rw [Buckets.mem_update_cons, hc, hmem_app]
    by_cases hxn : x = s.allocated
    · rw [hxn]
      simp [hn, hb, eq_comm]
    · simp [hxn]
  · show Function.update s.bucket_index s.allocated b x =
      flowtableBucketIndex hash s (Function.update s.key s.allocated key x)
    rcases (hmem_app x).mp hx with hx | rfl
    · rw [Function.update_of_ne (hne x hx), Function.update_of_ne (hne x hx)]
      exact hi.bucket_index_eq x hx
    · rw [Function.update_self, Function.update_self]
  · show x = y
    change Function.update s.key s.allocated key x = Function.update s.key s.allocated key y at hxy
    rcases (hmem_app x).mp hx with hx | rfl <;> rcases (hmem_app y).mp hy with hy | rfl
    · rw [Function.update_of_ne (hne x hx), Function.update_of_ne (hne y hy)] at hxy
      exact hi.key_inj x hx y hy hxy
    · rw [Function.update_of_ne (hne x hx), Function.update_self] at hxy
      exact absurd hxy (hk x hx)
    · rw [Function.update_self, Function.update_of_ne (hne y hy)] at hxy
      exact absurd hxy.symm (hk y hy)
    · rfl
  · show x < s.allocated + 1
    rcases (hmem_app x).mp hx with hx | rfl
    · exact Nat.lt_succ_of_lt (hi.lt_allocated x hx)
    · exact Nat.lt_succ_self _

/-- The shard `Reserve` goes on with once the key is not found: a full shard after
`ipmanipulatorFlowShardExpire` with the cleanup budget. -/
theorem Inv.reserveExpire (hi : Inv hash s es) (now_ms : UInt64) :
    ∃ es₁, Inv hash (if s.limit.toNat ≤ s.count then
        (ipmanipulatorFlowShardExpire s now_ms kIpManipulatorFlowCleanupBudget).1 else s) es₁ ∧
      SameConfig s (if s.limit.toNat ≤ s.count then
        (ipmanipulatorFlowShardExpire s now_ms kIpManipulatorFlowCleanupBudget).1 else s) ∧
      (if s.limit.toNat ≤ s.count then
        (ipmanipulatorFlowShardExpire s now_ms kIpManipulatorFlowCleanupBudget).1 else s).key = s.key ∧
      (if s.limit.toNat ≤ s.count then
        (ipmanipulatorFlowShardExpire s now_ms kIpManipulatorFlowCleanupBudget).1 else s).allocated =
        s.allocated ∧
      es₁ ⊆ es := by
  split_ifs
  · obtain ⟨es₁, hi₁, hc₁, hsub⟩ := hi.expireLoop now_ms kIpManipulatorFlowCleanupBudget 0
    obtain ⟨hk, -, ha⟩ := expireLoop_frame now_ms kIpManipulatorFlowCleanupBudget s 0
    exact ⟨es₁, hi₁, hc₁, hk, ha, hsub⟩
  · exact ⟨es, hi, SameConfig.refl s, rfl, rfl, fun _ hx => hx⟩

/-- `Reserve` keeps `Inv`; an entry it returns is a new one, with the key and the deadline. -/
theorem Inv.reserve (hi : Inv hash s es) (key : FlowKey) (now_ms deadline_ms : UInt64)
    (allocation_succeeds : Bool) :
    ∃ es', Inv hash (ipmanipulatorFlowShardReserve hash s key now_ms deadline_ms
        allocation_succeeds).1 es' ∧
      SameConfig s (ipmanipulatorFlowShardReserve hash s key now_ms deadline_ms
        allocation_succeeds).1 ∧
      ∀ e, (ipmanipulatorFlowShardReserve hash s key now_ms deadline_ms allocation_succeeds).2 =
          some e →
        e ∈ es' ∧ e ∉ es ∧
          (ipmanipulatorFlowShardReserve hash s key now_ms deadline_ms allocation_succeeds).1.key e =
            key ∧
          (ipmanipulatorFlowShardReserve hash s key now_ms deadline_ms
            allocation_succeeds).1.deadline_ms e = deadline_ms := by
  unfold ipmanipulatorFlowShardReserve
  by_cases hf : (ipmanipulatorFlowShardFind hash s key).isSome
  · rw [if_pos hf]
    exact ⟨es, hi, SameConfig.refl s, fun _ h => by cases h⟩
  rw [if_neg hf]
  have hk := (hi.find_eq_none_iff key).mp (Option.not_isSome_iff_eq_none.mp hf)
  obtain ⟨es₁, hi₁, hc₁, hkey₁, halloc₁, hsub₁⟩ := hi.reserveExpire now_ms
  simp only
  generalize (if s.limit.toNat ≤ s.count then
    (ipmanipulatorFlowShardExpire s now_ms kIpManipulatorFlowCleanupBudget).1 else s) = s₁
    at hi₁ hc₁ hkey₁ halloc₁ ⊢
  split_ifs with hfull ha
  · -- still full: only the count of refusals changes
    exact ⟨es₁, hi₁.of_heap rfl rfl rfl rfl ⟨rfl, rfl, rfl⟩ rfl (.refl hi₁.heap_valid.positioned)
      hi₁.heap_valid.ordered, hc₁.trans ⟨rfl, rfl, rfl⟩, fun _ h => by cases h⟩
  · exact ⟨es₁, hi₁, hc₁, fun _ h => by cases h⟩
  · have hk₁ : ∀ e ∈ es₁, s₁.key e ≠ key := fun e he => hkey₁ ▸ hk e (hsub₁ he)
    obtain ⟨hi₂, hc₂⟩ := hi₁.admit hk₁ (Nat.lt_of_not_le hfull) deadline_ms
    refine ⟨_, hi₂, hc₁.trans hc₂, fun e he => ?_⟩
    cases he
    refine ⟨List.mem_append_right _ (List.mem_singleton_self _), fun h => ?_, ?_, ?_⟩
    · have := hi.lt_allocated _ h
      rw [halloc₁] at this
      exact Nat.lt_irrefl _ this
    · exact Function.update_self ..
    · exact Function.update_self ..

/-- After the expiry, a full shard is still full exactly when none of its entries was due: a due
entry makes the root due, and the loop removes it. -/
theorem Inv.full_after_expire_iff (hi : Inv hash s es) (now_ms : UInt64) :
    (if s.limit.toNat ≤ s.count then
        (ipmanipulatorFlowShardExpire s now_ms kIpManipulatorFlowCleanupBudget).1 else s).limit.toNat ≤
      (if s.limit.toNat ≤ s.count then
        (ipmanipulatorFlowShardExpire s now_ms kIpManipulatorFlowCleanupBudget).1 else s).count ↔
      s.limit.toNat ≤ s.count ∧ ∀ e ∈ es, now_ms < s.deadline_ms e := by
  by_cases hfull : s.limit.toNat ≤ s.count
  · rw [if_pos hfull, ipmanipulatorFlowShardExpire]
    by_cases hdue : ∃ e ∈ es, s.deadline_ms e ≤ now_ms
    · -- the root is due, so the loop removes at least it
      have hstep : ExpireStep now_ms kIpManipulatorFlowCleanupBudget s 0 :=
        ⟨by decide, (hi.root_due_iff now_ms).mpr hdue⟩
      have hpos : 0 < s.count := hi.heap_count ▸ hstep.2.1
      have hlt := expireLoop_count_le now_ms kIpManipulatorFlowCleanupBudget
        (ipmanipulatorFlowShardRemove s (s.heap.arr 0)) (0 + 1)
      obtain ⟨es', hi', hc', -⟩ := hi.expireLoop now_ms kIpManipulatorFlowCleanupBudget 0
      rw [expireLoop_of_step _ _ hstep] at hc' ⊢
      rw [hc'.limit]
      obtain ⟨e, he, hle⟩ := hdue
      constructor
      · intro h
        change _ ≤ s.count - 1 at hlt
        have := hi.count_le
        omega
      · rintro ⟨-, hall⟩
        exact absurd hle (UInt64.not_le.mpr (hall e he))
    · -- nothing is due: the loop stops at once
      have hnot : ¬ ExpireStep now_ms kIpManipulatorFlowCleanupBudget s 0 := fun h =>
        hdue ((hi.root_due_iff now_ms).mp h.2)
      rw [expireLoop_of_not_step _ _ hnot]
      refine ⟨fun h => ⟨h, fun e he => ?_⟩, fun h => h.1⟩
      exact UInt64.not_le.mp fun hle => hdue ⟨e, he, hle⟩
  · rw [if_neg hfull]
    exact ⟨fun h => absurd h hfull, fun h => absurd h.1 hfull⟩

/-- `Reserve` returns `NULL` exactly when the key is there already, or the shard is full and
stays full because nothing in it is due, or the allocation fails. -/
theorem Inv.reserve_eq_none_iff (hi : Inv hash s es) (key : FlowKey) (now_ms deadline_ms : UInt64)
    (allocation_succeeds : Bool) :
    (ipmanipulatorFlowShardReserve hash s key now_ms deadline_ms allocation_succeeds).2 = none ↔
      (∃ e ∈ es, s.key e = key) ∨ (s.limit.toNat ≤ s.count ∧ ∀ e ∈ es, now_ms < s.deadline_ms e) ∨
        allocation_succeeds = false := by
  unfold ipmanipulatorFlowShardReserve
  by_cases hf : (ipmanipulatorFlowShardFind hash s key).isSome
  · rw [if_pos hf]
    obtain ⟨e, he⟩ := Option.isSome_iff_exists.mp hf
    exact ⟨fun _ => Or.inl ⟨e, (hi.find_eq_some_iff key e).mp he⟩, fun _ => rfl⟩
  rw [if_neg hf]
  have hk := (hi.find_eq_none_iff key).mp (Option.not_isSome_iff_eq_none.mp hf)
  have hnokey : ¬ ∃ e ∈ es, s.key e = key := fun ⟨e, he, hke⟩ => hk e he hke
  have hfull := hi.full_after_expire_iff now_ms
  simp only [hnokey, false_or]
  generalize (if s.limit.toNat ≤ s.count then
    (ipmanipulatorFlowShardExpire s now_ms kIpManipulatorFlowCleanupBudget).1 else s) = s₁ at hfull ⊢
  split_ifs with h₁ h₂
  · exact ⟨fun _ => Or.inl (hfull.mp h₁), fun _ => rfl⟩
  · simp only [Bool.not_eq_true'] at h₂
    exact ⟨fun _ => Or.inr h₂, fun _ => rfl⟩
  · simp only [Bool.not_eq_true', Bool.not_eq_false] at h₂
    refine ⟨fun h => (by cases h), ?_⟩
    rintro (h | h)
    · exact absurd (hfull.mpr h) h₁
    · rw [h₂] at h
      cases h

end FlowShard

/-! ## Calls and runs -/

/-- A call on a locked shard. -/
inductive ShardCall
  | reserve (key : FlowKey) (now_ms deadline_ms : UInt64) (allocation_succeeds : Bool)
  | find (key : FlowKey)
  | touch (entry : EntryPtr) (deadline_ms : UInt64)
  | remove (entry : EntryPtr)
  | expire (now_ms : UInt64) (budget : UInt32)

namespace ShardCall

/-- What the C contract asks of a call: `Touch` and `Remove` get an entry of the shard, one that
`Find` or `Reserve` returned under the same lock and that was not removed since. -/
def Allowed (s : FlowShard) : ShardCall → Prop
  | touch entry _ => s.heap.Mem entry
  | remove entry => s.heap.Mem entry
  | _ => True

instance (s : FlowShard) : (c : ShardCall) → Decidable (c.Allowed s)
  | .touch entry _ => inferInstanceAs (Decidable (s.heap.Mem entry))
  | .remove entry => inferInstanceAs (Decidable (s.heap.Mem entry))
  | .reserve .. => isTrue trivial
  | .find _ => isTrue trivial
  | .expire .. => isTrue trivial

/-- What a run checks of the shard a call will lock. -/
theorem allowed_of_all {o : Option FlowShard} {c : ShardCall}
    (h : o.all (fun s => decide (c.Allowed s)) = true) : ∀ s, o = some s → c.Allowed s := by
  intro s hs
  subst hs
  simpa using h

/-- The shard after the call. -/
def apply (hash : FlowKey → UInt64) (s : FlowShard) : ShardCall → FlowShard
  | reserve key now_ms deadline_ms allocation_succeeds =>
    (ipmanipulatorFlowShardReserve hash s key now_ms deadline_ms allocation_succeeds).1
  | find _ => s
  | touch entry deadline_ms => ipmanipulatorFlowShardTouch s entry deadline_ms
  | remove entry => ipmanipulatorFlowShardRemove s entry
  | expire now_ms budget => (ipmanipulatorFlowShardExpire s now_ms budget).1

end ShardCall

namespace FlowShard

variable {hash : FlowKey → UInt64} {s : FlowShard} {es : List EntryPtr}

/-- Every call the contract allows keeps `Inv`. -/
theorem Inv.call (hi : Inv hash s es) (c : ShardCall) (hc : c.Allowed s) :
    ∃ es', Inv hash (c.apply hash s) es' ∧ SameConfig s (c.apply hash s) := by
  cases c with
  | reserve key now_ms deadline_ms allocation_succeeds =>
    obtain ⟨es', hi', hc', -⟩ := hi.reserve key now_ms deadline_ms allocation_succeeds
    exact ⟨es', hi', hc'⟩
  | find key => exact ⟨es, hi, SameConfig.refl s⟩
  | touch entry deadline_ms =>
    obtain ⟨hi', hc', -⟩ := hi.touch ((hi.mem_heap entry).mp hc) deadline_ms
    exact ⟨es, hi', hc'⟩
  | remove entry => exact ⟨_, hi.remove ((hi.mem_heap entry).mp hc)⟩
  | expire now_ms budget =>
    obtain ⟨es', hi', hc', -⟩ := hi.expireLoop now_ms budget 0
    exact ⟨es', hi', hc'⟩

end FlowShard

namespace FlowTable

variable (calcHash : FlowKey → UInt64 → UInt64)

/-- A call on the shard that `ipmanipulatorFlowTableLockShard` locks for `key`. -/
def call (t : FlowTable) (key : FlowKey) (c : ShardCall) : FlowTable :=
  { t with
    shards := t.shards.modify (ipmanipulatorFlowTableLockShard (ipmanipulatorFlowTableHash calcHash t) t key)
      fun s => c.apply (ipmanipulatorFlowTableHash calcHash t) s }

/-- The tables that init and calls on locked shards reach. -/
inductive Reachable : FlowTable → Prop
  | init {limit worker_count : UInt32} {record_size : UInt64} {seed : Option UInt64} {t : FlowTable} :
      ipmanipulatorFlowTableInitWithSeed limit worker_count record_size seed = some t → Reachable t
  | call {t : FlowTable} (key : FlowKey) (c : ShardCall) : Reachable t →
      (∀ s, t.shards[ipmanipulatorFlowTableLockShard (ipmanipulatorFlowTableHash calcHash t) t key]? =
        some s → c.Allowed s) →
      Reachable (t.call calcHash key c)

/-- The table is `Sized` and each of its shards holds its entries. -/
def Good (t : FlowTable) : Prop :=
  t.Sized ∧ ∀ s ∈ t.shards, ∃ es, FlowShard.Inv (ipmanipulatorFlowTableHash calcHash t) s es

variable {calcHash}

theorem good_init {limit worker_count : UInt32} {record_size : UInt64} {seed : Option UInt64}
    {t : FlowTable} (h : ipmanipulatorFlowTableInitWithSeed limit worker_count record_size seed = some t) :
    Good calcHash t := by
  obtain ⟨hs, -, hshards⟩ := ipmanipulatorFlowTableInitWithSeed_spec h
  refine ⟨hs, fun s hmem => ?_⟩
  obtain ⟨i, rfl⟩ := hshards s hmem
  exact ⟨[], FlowShard.inv_shardInit _ _ _ _⟩

/-- A call on the locked shard keeps the table `Good`: the other shards do not change, and the
locked one keeps `Inv` and its configuration. -/
theorem Good.call {t : FlowTable} (hg : Good calcHash t) (key : FlowKey) (c : ShardCall)
    (hc : ∀ s, t.shards[ipmanipulatorFlowTableLockShard (ipmanipulatorFlowTableHash calcHash t) t key]? =
      some s → c.Allowed s) :
    Good calcHash (t.call calcHash key c) := by
  obtain ⟨hs, hinv⟩ := hg
  have hlt := ipmanipulatorFlowTableLockShard_lt (ipmanipulatorFlowTableHash calcHash t) hs key
  obtain ⟨l₁, a, l₂, ht, hlen, hmod⟩ := List.exists_of_modify
    (fun s => c.apply (ipmanipulatorFlowTableHash calcHash t) s) hlt
  have ha : a ∈ t.shards := by rw [ht]; simp
  have hallowed : c.Allowed a := hc a (by rw [ht, List.getElem?_append_right (by omega), hlen]; simp)
  obtain ⟨es, hi⟩ := hinv a ha
  obtain ⟨es', hi', hcfg⟩ := hi.call c hallowed
  -- the shards after the call: those before, the locked one called, those after
  have hmem : ∀ s ∈ (t.call calcHash key c).shards, s ∈ t.shards ∨
      s = c.apply (ipmanipulatorFlowTableHash calcHash t) a := by
    intro s hs'
    change s ∈ t.shards.modify _ _ at hs'
    rw [hmod] at hs'
    rw [ht]
    simp only [List.mem_append, List.mem_cons] at hs' ⊢
    tauto
  refine ⟨⟨hs.limit_ge, hs.limit_le, hs.shard_count_pow, hs.shard_count_pos, hs.shard_count_le,
    hs.shard_mask_eq, ?_, ?_, ?_, ?_, ?_, ?_⟩, fun s hs' => ?_⟩
  · change (t.shards.modify _ _).length = t.shard_count.toNat
    rw [List.length_modify, hs.length_shards]
  · intro s hs'
    rcases hmem s hs' with h | rfl
    · exact hs.shard_limit_pos s h
    · rw [hcfg.limit]
      exact hs.shard_limit_pos a ha
  · intro s hs'
    rcases hmem s hs' with h | rfl
    · exact hs.bucket_count_pow s h
    · rw [hcfg.bucket_count]
      exact hs.bucket_count_pow a ha
  · intro s hs'
    rcases hmem s hs' with h | rfl
    · exact hs.limit_le_bucket_count s h
    · rw [hcfg.limit, hcfg.bucket_count]
      exact hs.limit_le_bucket_count a ha
  · intro s hs'
    rcases hmem s hs' with h | rfl
    · exact hs.bucket_mask_eq s h
    · rw [hcfg.bucket_mask, hcfg.bucket_count]
      exact hs.bucket_mask_eq a ha
  · change ((t.shards.modify _ _).map fun s => s.limit.toNat).sum = t.limit.toNat
    rw [hmod, ← hs.sum_limits, ht]
    simp only [List.map_append, List.map_cons, List.sum_append, List.sum_cons, hcfg.limit]
  · rcases hmem s hs' with h | rfl
    · exact hinv s h
    · exact ⟨es', hi'⟩

theorem Reachable.good {t : FlowTable} (r : Reachable calcHash t) : Good calcHash t := by
  induction r with
  | init h => exact good_init h
  | call key c _ hc ih => exact ih.call key c hc

end FlowTable

variable {calcHash : FlowKey → UInt64 → UInt64}

/-- Every table that init and calls on locked shards reach is `Sized`, and each shard holds a
list of entries in its heap and its bucket chains (`Inv`), finds an entry by key exactly when it
holds one with that key, and refuses a reservation exactly when the key is there, or it is full
and nothing in it is due, or the allocation fails. -/
theorem ipmanipulatorFlowTable_representation {t : FlowTable} (r : FlowTable.Reachable calcHash t) :
    t.Sized ∧ ∀ s ∈ t.shards, ∃ es, FlowShard.Inv (ipmanipulatorFlowTableHash calcHash t) s es ∧
      (∀ key e, ipmanipulatorFlowShardFind (ipmanipulatorFlowTableHash calcHash t) s key = some e ↔
        e ∈ es ∧ s.key e = key) ∧
      ∀ key now_ms deadline_ms allocation_succeeds,
        (ipmanipulatorFlowShardReserve (ipmanipulatorFlowTableHash calcHash t) s key now_ms
          deadline_ms allocation_succeeds).2 = none ↔
        (∃ e ∈ es, s.key e = key) ∨ (s.limit.toNat ≤ s.count ∧ ∀ e ∈ es, now_ms < s.deadline_ms e) ∨
          allocation_succeeds = false := by
  obtain ⟨hs, hinv⟩ := r.good
  refine ⟨hs, fun s hmem => ?_⟩
  obtain ⟨es, hi⟩ := hinv s hmem
  exact ⟨es, hi, hi.find_eq_some_iff, hi.reserve_eq_none_iff⟩

/-- A run on a table of limit 32 for four workers, its hash putting every key in one shard and
one bucket: two flows are reserved, due at 100 ms and 50 ms, the first is touched to 300 ms (a
sift down), and the second, then at the root, is removed. -/
theorem ipmanipulatorFlowTable_representation_run :
    ∃ t, FlowTable.Reachable (fun _ seed => seed) t ∧ (t.shards.map FlowShard.count).sum = 1 ∧
      t.Sized ∧ ∀ s ∈ t.shards,
        ∃ es, FlowShard.Inv (ipmanipulatorFlowTableHash (fun _ seed => seed) t) s es ∧
        (∀ key e, ipmanipulatorFlowShardFind (ipmanipulatorFlowTableHash (fun _ seed => seed) t) s
          key = some e ↔ e ∈ es ∧ s.key e = key) ∧
        ∀ key now_ms deadline_ms allocation_succeeds,
          (ipmanipulatorFlowShardReserve (ipmanipulatorFlowTableHash (fun _ seed => seed) t) s key
            now_ms deadline_ms allocation_succeeds).2 = none ↔
          (∃ e ∈ es, s.key e = key) ∨
            (s.limit.toNat ≤ s.count ∧ ∀ e ∈ es, now_ms < s.deadline_ms e) ∨
            allocation_succeeds = false := by
  have r₀ : FlowTable.Reachable (fun _ seed => seed) _ :=
    @FlowTable.Reachable.init _ 32 4 16 (some 7) _ rfl
  have r₁ := FlowTable.Reachable.call ⟨1, 2, 80, 443⟩ (.reserve ⟨1, 2, 80, 443⟩ 0 100 true) r₀
    fun _ _ => trivial
  have r₂ := FlowTable.Reachable.call ⟨1, 3, 80, 443⟩ (.reserve ⟨1, 3, 80, 443⟩ 0 50 true) r₁
    fun _ _ => trivial
  -- entry 0 sits at index 1 of the heap and entry 1 at the root: both are the shard's
  have r₃ := FlowTable.Reachable.call ⟨1, 2, 80, 443⟩ (.touch 0 300) r₂
    (ShardCall.allowed_of_all (by decide +kernel))
  have r₄ := FlowTable.Reachable.call ⟨1, 3, 80, 443⟩ (.remove 1) r₃
    (ShardCall.allowed_of_all (by decide +kernel))
  exact ⟨_, r₄, by decide +kernel, ipmanipulatorFlowTable_representation r₄⟩

end IpManipulator
end WaterWall
