import WaterWall.IdleTable.LocalInv

/-!
# The worker-local idle table makes no memory fault

Each function of `local_widle_table.c` gets its specification here, from the invariants of
`WaterWall.IdleTable.LocalInv` to the same invariants, with the ways the run may stop that are not
the table's fault (`LocalIdleHalt.Benign`): a caller keeping a freed item alive, an abort, or the
fuel of a loop running out.  The callers cite the specifications and never unfold the callees.

* The calls a callback may make (`LocalIdleCall.run_spec`) hold the item whose callback runs
  outside the heap; the firing loop and the drain put it back or free it.
* `localIdleCallBack_spec`, `localidletableDrainItems_spec`: a firing and a drain keep the
  invariants.
* `Reachable.good`: so does every run, and `localidletableDestroy_frees` frees every item of a
  reachable table.
-/

set_option autoImplicit false

namespace WaterWall.IdleTable

open LocalIdleTable Except

/-- The ways a run stops that are not the table's faults. -/
def LocalIdleHalt.Benign : LocalIdleHalt → Prop
  | .useAfterFree => False
  | .doubleFree => False
  | _ => True

section Table

variable (ops : PQueue.Ops ItemPtr)
variable {t : LocalIdleTable} {out : Option ItemPtr} {p : ItemPtr}

/-! ## The heap -/

theorem hqueuePush_eq (h : ∀ x ∈ t.hqueue, t.live x) (hl : t.live p) :
    hqueuePush ops t p = .ok { t with hqueue := ops.push t.less t.hqueue p } := by
  have hq : ∀ x ∈ t.hqueue ++ [p], t.live x := by
    intro x hx
    rcases List.mem_append.1 hx with hx | hx
    · exact h x hx
    · rw [List.mem_singleton.1 hx]
      exact hl
  rw [hqueuePush, readQueued_of_live hq]
  rfl

theorem hqueuePop_eq (h : ∀ x ∈ t.hqueue, t.live x) :
    hqueuePop ops t = .ok { t with hqueue := ops.pop t.less t.hqueue } := by
  rw [hqueuePop, readQueued_of_live h]
  rfl

theorem hqueueMakeHeap_eq (h : ∀ x ∈ t.hqueue, t.live x) :
    hqueueMakeHeap ops t = .ok { t with hqueue := ops.makeHeap t.less t.hqueue } := by
  rw [hqueueMakeHeap, readQueued_of_live h]
  rfl

/-- The loop of `localidletableRemoveItemFromHeap` keeps every item but the target. -/
theorem removeItemFromHeap_loop_perm (less : ItemPtr → ItemPtr → Bool) (target : ItemPtr)
    (q kept : List ItemPtr) :
    (localidletableRemoveItemFromHeap.loop ops less target q kept).Perm
      (kept ++ q.filter fun x => x ≠ target) := by
  fun_induction localidletableRemoveItemFromHeap.loop ops less target q kept with
  | case1 kept => simp
  | case2 item q kept ih =>
    refine ih.trans ?_
    have hpop := (ops.pop_perm less item q).filter fun x => decide (x ≠ target)
    by_cases hit : item = target
    · subst hit
      simpa using (List.Perm.refl kept).append hpop
    · have hpush := (ops.push_perm less kept item).append hpop
      simpa [hit] using hpush

/-- The heap `localidletableRemoveItemFromHeap` leaves behind. -/
def heapWithout (t : LocalIdleTable) (p : ItemPtr) : List ItemPtr :=
  localidletableRemoveItemFromHeap.loop ops t.less p (ops.makeHeap t.less t.hqueue) []

theorem localidletableRemoveItemFromHeap_eq (h : Inv t out) :
    localidletableRemoveItemFromHeap ops t p = .ok { t with hqueue := heapWithout ops t p } := by
  have hq : ∀ x ∈ ops.makeHeap t.less t.hqueue, t.live x :=
    fun _ hx => h.live_of_mem_heap ((ops.mem_makeHeap _).1 hx)
  rw [localidletableRemoveItemFromHeap, hqueueMakeHeap_eq ops fun _ hx => h.live_of_mem_heap hx,
    ok_bind,
    readQueued_of_live (t := { t with hqueue := ops.makeHeap t.less t.hqueue }) hq]
  rfl

theorem Inv.removeItemFromHeap (h : Inv t none) (hl : t.live p) :
    Inv { t with hqueue := heapWithout ops t p } (some p) := by
  have hperm := (removeItemFromHeap_loop_perm ops t.less p (ops.makeHeap t.less t.hqueue) []).trans
    (((ops.makeHeap_perm t.less t.hqueue).filter fun x => decide (x ≠ p)).trans
      (List.Perm.refl _))
  refine h.requeue (hperm.nodup_iff.2 (h.heap_nodup.filter _)) (fun x => ?_) ?_
  · rw [heapWithout, hperm.mem_iff, List.mem_filter, h.mem_heap x]
    by_cases hxp : x = p
    · subst hxp
      simp
    · simp [hxp, Ne.symm hxp]
  · rintro x ⟨⟩
    exact hl

theorem Inv.pop_top (h : Inv t none) {rest : List ItemPtr} (hq : t.hqueue = p :: rest) :
    Inv { t with hqueue := ops.pop t.less t.hqueue } (some p) := by
  have hnd : (p :: rest).Nodup := hq ▸ h.heap_nodup
  refine h.requeue ?_ (fun x => ?_) ?_
  · rw [hq]
    exact ops.nodup_pop t.less hnd
  · have hm := h.mem_heap x
    rw [hq] at hm
    rw [hq, ops.mem_pop]
    constructor
    · intro hx
      refine ⟨(hm.1 (List.mem_cons_of_mem _ hx)).1, fun hpx => ?_⟩
      cases hpx
      exact (List.nodup_cons.1 hnd).1 hx
    · rintro ⟨hlx, hpx⟩
      rcases List.mem_cons.1 (hm.2 ⟨hlx, nofun⟩) with rfl | hx
      · exact absurd rfl hpx
      · exact hx
  · rintro x ⟨⟩
    exact h.live_of_mem_heap (hq ▸ List.mem_cons_self)

theorem Inv.push_out (h : Inv t (some p)) :
    Inv { t with hqueue := ops.push t.less t.hqueue p } none := by
  have hp : p ∉ t.hqueue := fun hp => ((h.mem_heap p).1 hp).2 rfl
  refine h.requeue (ops.nodup_push t.less h.heap_nodup hp) (fun x => ?_) (fun _ hx => by cases hx)
  rw [ops.mem_push, h.mem_heap x]
  by_cases hxp : x = p
  · subst hxp
    simp [h.out_live x rfl]
  · simp [hxp, Ne.symm hxp]

/-! ## The calls -/

theorem spec_readItem_bind {β : Type} {k : LocalIdleItem → Except LocalIdleHalt β}
    {P : β → Prop} {S : LocalIdleHalt → Prop} (hl : t.live p = true) (h : Spec (k (t.items p)) P S) :
    Spec (readItem t p >>= k) P S := by
  rw [readItem_of_live hl]
  exact h

theorem localidletableEraseItemFromMap_eq (h : Inv t out) (hl : t.live p)
    (hr : (t.items p).removed = false) :
    localidletableEraseItemFromMap t p = .ok (t.retire p) := by
  rw [localidletableEraseItemFromMap, readItem_of_live hl, ok_bind]
  simp only [h.find_hash hl hr, if_true]
  exact writeItem_of_live (t := { t with hmap := t.hmap.erase (t.items p).hash }) hl _

/-- The map holds no removed item, so the walk returns its first entry. -/
theorem localidletableGetFirstActiveItem_eq (h : Inv t out) :
    ∃ r, localidletableGetFirstActiveItem t = .ok r ∧
      ∀ q, r = some q → t.live q ∧ (t.items q).removed = false := by
  rw [localidletableGetFirstActiveItem]
  cases he : t.hmap.entries with
  | nil => exact ⟨none, rfl, nofun⟩
  | cons e rest =>
    obtain ⟨k, q⟩ := e
    obtain ⟨hlq, hrq, -⟩ := h.map_live k q (he ▸ List.mem_cons_self)
    refine ⟨some q, ?_, ?_⟩
    · rw [localidletableGetFirstActiveItem.go, readItem_of_live hlq, ok_bind, hrq]
      rfl
    · rintro x ⟨⟩
      exact ⟨hlq, hrq⟩

theorem localidletableCreateItem_spec (hg : Good t out) (key : UInt64) (userdata cb : Bool)
    (age_ms : UInt64) :
    Spec (localidletableCreateItem ops t key userdata cb age_ms)
      (fun r => Good r.1 out ∧ Evolves t r.1) LocalIdleHalt.Benign := by
  rw [localidletableCreateItem]
  have hfresh : t.live t.allocated = false := by
    cases hl : t.live t.allocated with
    | false => rfl
    | true => exact absurd (hg.inv.live_lt _ hl) (Nat.lt_irrefl _)
  cases hf : t.hmap.find key with
  | some q =>
    -- the map holds the key: the new item is freed at once
    simp only [memoryAllocate, HMap.insert_of_find_some hf, Bool.not_false, if_true]
    rw [memoryFree_of_live (by simp), ok_bind]
    have he := (evolves_memoryAllocate t
      { expire_at_ms := t.now_ms + age_ms, hash := key, userdata, cb, removed := false }).trans
      (evolves_release _ t.allocated)
    exact ⟨⟨hg.inv.create_rejected _, hg.history.evolve he rfl⟩, he⟩
  | none =>
    obtain ⟨hins, -⟩ := HMap.insert_of_find_none hf (v := t.allocated)
    simp only [memoryAllocate, hins, Bool.not_true, Bool.false_eq_true, if_false]
    -- the new item goes into the map and the heap
    have hq : ∀ x ∈ t.hqueue, Function.update t.live t.allocated true x = true := by
      intro x hx
      simp [Function.update_of_ne (hg.inv.ne_of_live (hg.inv.live_of_mem_heap hx)),
        hg.inv.live_of_mem_heap hx]
    rw [hqueuePush_eq ops hq (by simp), ok_bind]
    have he := evolves_memoryAllocate t
      { expire_at_ms := t.now_ms + age_ms, hash := key, userdata, cb, removed := false }
    refine ⟨⟨hg.inv.create rfl hf (ops.push_perm _ _ _), hg.history.evolve ?_ rfl⟩, ?_⟩ <;>
      exact he.trans (evolves_of_items rfl rfl rfl rfl)

theorem localidletableGetIdleItemByHash_ok (h : Inv t out) (key : UInt64) :
    ∃ r, localidletableGetIdleItemByHash t key = .ok r := by
  rw [localidletableGetIdleItemByHash]
  cases hf : t.hmap.find key with
  | none => exact ⟨none, rfl⟩
  | some q =>
    simp only [readItem_of_live (h.of_find hf).1, ok_bind]
    exact ⟨_, rfl⟩

theorem localidletableKeepIdleItemForAtleast_spec (hg : Good t out) (q : ItemPtr)
    (age_ms : UInt64) :
    Spec (localidletableKeepIdleItemForAtleast t q age_ms)
      (fun t' => Good t' out ∧ Evolves t t') LocalIdleHalt.Benign := by
  rw [localidletableKeepIdleItemForAtleast]
  cases hl : t.live q with
  | false => exact spec_throw trivial
  | true =>
    cases hr : (t.items q).removed with
    | true => exact spec_throw trivial
    | false =>
      simp only [Bool.not_true, Bool.false_eq_true, if_false, writeItem_of_live hl, spec_ok]
      have he := evolves_setItem (t := t) (p := q) (by simp [hr])
        (expire_le_localIdleItemKeepExpireAtForAtleast (t.items q) (t.now_ms + age_ms))
      exact ⟨⟨hg.inv.setItem (by simp) (by simp), hg.history.evolve he rfl⟩, he⟩

theorem localidletableRemoveIdleItemByHash_spec (hg : Good t out) (key : UInt64) :
    Spec (localidletableRemoveIdleItemByHash t key)
      (fun r => Good r.1 out ∧ Evolves t r.1) LocalIdleHalt.Benign := by
  rw [localidletableRemoveIdleItemByHash]
  cases hf : t.hmap.find key with
  | none => exact ⟨hg, Evolves.refl t⟩
  | some q =>
    obtain ⟨hl, hr, -⟩ := hg.inv.of_find hf
    simp only [localidletableEraseItemFromMap_eq hg.inv hl hr, ok_bind]
    have he := evolves_retire t q
    refine ⟨⟨(hg.inv.retire hl hr).congr rfl rfl rfl rfl rfl, ?_⟩, he.trans (evolves_record _ _)⟩
    exact (hg.history.evolve he rfl).record_retired (.inl rfl) (hg.inv.live_lt q hl)
      (by simp [LocalIdleTable.retire])

/-- What a callback may call keeps the invariants, with the same item held. -/
theorem LocalIdleCall.run_spec (hg : Good t out) (c : LocalIdleCall) :
    Spec (LocalIdleCall.run ops t c) (fun t' => Good t' out ∧ Evolves t t')
      LocalIdleHalt.Benign := by
  cases c with
  | createItem key userdata cb age_ms =>
    refine (localidletableCreateItem_spec ops hg key userdata cb age_ms).bind fun r hr => ?_
    obtain ⟨t', _⟩ := r
    exact hr
  | getIdleItemByHash key =>
    obtain ⟨r, hr⟩ := localidletableGetIdleItemByHash_ok hg.inv key
    rw [LocalIdleCall.run, hr]
    exact ⟨hg, Evolves.refl t⟩
  | keepIdleItemForAtleast q age_ms => exact localidletableKeepIdleItemForAtleast_spec hg q age_ms
  | removeIdleItemByHash key =>
    refine (localidletableRemoveIdleItemByHash_spec hg key).bind fun r hr => ?_
    obtain ⟨t', _⟩ := r
    exact hr

theorem runCalls_spec :
    ∀ (cs : List LocalIdleCall) {t : LocalIdleTable}, Good t out →
      Spec (runCalls ops t cs) (fun t' => Good t' out ∧ Evolves t t') LocalIdleHalt.Benign
  | [], t, hg => ⟨hg, Evolves.refl t⟩
  | c :: cs, _, hg =>
    (LocalIdleCall.run_spec ops hg c).bind fun _ ⟨hg₁, he₁⟩ =>
      (runCalls_spec cs hg₁).mono (fun _ ⟨hg₂, he₂⟩ => ⟨hg₂, he₁.trans he₂⟩) fun _ h => h

variable (cbs : Nat → ItemPtr → List LocalIdleCall)

/-- A callback, whatever it calls, keeps the invariants with the same item held. -/
theorem invokeCallback_spec (hg : Good t out) (q : ItemPtr) :
    Spec (invokeCallback ops cbs t q) (fun t' => Good t' out ∧ Evolves t t')
      LocalIdleHalt.Benign := by
  have he : Evolves t { t with callbacks_run := t.callbacks_run + 1 } :=
    evolves_of_items rfl rfl rfl rfl
  have hg' : Good { t with callbacks_run := t.callbacks_run + 1 } out :=
    ⟨hg.inv.congr rfl rfl rfl rfl rfl, hg.history.evolve he rfl⟩
  exact (runCalls_spec ops _ hg').mono (fun _ ⟨hg₂, he₂⟩ => ⟨hg₂, he.trans he₂⟩) fun _ h => h

/-! ## The firing loop and the drain -/

theorem free_held (hg : Good t (some p)) (hr : (t.items p).removed = true) :
    Spec (memoryFree t p) (fun t' => Good t' none ∧ t'.now_ms = t.now_ms)
      LocalIdleHalt.Benign := by
  have hl := hg.inv.out_live p rfl
  rw [memoryFree_of_live hl, spec_ok]
  refine ⟨⟨hg.inv.release_out hr, ?_⟩, rfl⟩
  exact (hg.history.evolve (evolves_release t p) rfl).unhold_freed (by simp)

theorem localIdleCallBack_settle_spec (hg : Good t (some p)) (old_expire_at_ms : UInt64) :
    Spec (localIdleCallBack.settle ops t p old_expire_at_ms)
      (fun t' => Good t' none ∧ t'.now_ms = t.now_ms) LocalIdleHalt.Benign := by
  have hl := hg.inv.out_live p rfl
  rw [localIdleCallBack.settle, readItem_of_live hl, ok_bind]
  cases hr : (t.items p).removed with
  | true =>
    -- a removed item is only freed
    simp only [Bool.not_true, Bool.false_and, Bool.false_eq_true, if_false, pure_bind]
    exact free_held hg hr
  | false =>
    simp only [Bool.not_false, Bool.true_and, if_true]
    split
    · -- kept alive: the callback moved the expiry past the current time
      rename_i hkeep
      simp only [Bool.and_eq_true, decide_eq_true_eq] at hkeep
      rw [hqueuePush_eq ops (fun _ hx => hg.inv.live_of_mem_heap hx) hl, spec_ok]
      refine ⟨⟨hg.inv.push_out ops, ?_⟩, rfl⟩
      exact (hg.history.unhold hkeep.2).evolve (evolves_of_items rfl rfl rfl rfl) rfl
    · -- still in the map: out of it first
      rw [localidletableEraseItemFromMap_eq hg.inv hl hr, ok_bind]
      exact free_held ⟨hg.inv.retire hl hr, hg.history.evolve (evolves_retire t p) rfl⟩
        (by simp [LocalIdleTable.retire])

/-- The loop body for an expired item at the top of the heap, at the loop's time. -/
theorem localIdleCallBack_expire_spec {now : UInt64} {rest : List ItemPtr} (hg : Good t none)
    (hnow : t.now_ms = now) (hq : t.hqueue = p :: rest)
    (he : ¬(t.items p).expire_at_ms > now) :
    Spec (localIdleCallBack.expire ops cbs now t p (t.items p))
      (fun t' => Good t' none ∧ t'.now_ms = now) LocalIdleHalt.Benign := by
  subst hnow
  have hl := hg.inv.live_of_mem_heap (hq ▸ List.mem_cons_self)
  rw [localIdleCallBack.expire, hqueuePop_eq ops fun _ hx => hg.inv.live_of_mem_heap hx, ok_bind]
  -- popped, the item is held outside the heap
  have he₁ : Evolves t { t with hqueue := ops.pop t.less t.hqueue } :=
    evolves_of_items rfl rfl rfl rfl
  have hg₁ : Good { t with hqueue := ops.pop t.less t.hqueue } (some p) :=
    ⟨hg.inv.pop_top ops hq, (hg.history.evolve he₁ rfl).hold⟩
  cases hr : (t.items p).removed with
  | true =>
    -- removed: it surfaced and is freed
    simp only [if_true]
    exact free_held hg₁ hr
  | false =>
    simp only [Bool.false_eq_true, if_false]
    have hsettle : ∀ t₂, Good t₂ (some p) → t₂.now_ms = t.now_ms →
        Spec (localIdleCallBack.settle ops t₂ p (t.items p).expire_at_ms)
          (fun t' => Good t' none ∧ t'.now_ms = t.now_ms) LocalIdleHalt.Benign :=
      fun t₂ hg₂ hnow₂ => (localIdleCallBack_settle_spec ops hg₂ _).mono
        (fun _ h => ⟨h.1, h.2.trans hnow₂⟩) fun _ h => h
    cases hcb : (t.items p).cb with
    | false => exact hsettle _ hg₁ rfl
    | true =>
      -- the callback runs: the log says so, at the loop's time
      simp only [if_true]
      have hle : (t.items p).expire_at_ms ≤ t.now_ms := UInt64.not_lt.1 he
      have hg₂ : Good ({ t with hqueue := ops.pop t.less t.hqueue }.record
          (.fired p (t.items p).expire_at_ms t.now_ms)) (some p) :=
        ⟨hg₁.inv.congr rfl rfl rfl rfl rfl,
          (hg.history.evolve he₁ rfl).record_fired hl hr hle (hg.inv.live_lt p hl)⟩
      exact (invokeCallback_spec ops cbs hg₂ p).bind fun t₃ ⟨hg₃, he₃⟩ =>
        hsettle t₃ hg₃ he₃.now_eq

theorem localIdleCallBack_loop_spec (now : UInt64) :
    ∀ (fuel : Nat) {t : LocalIdleTable}, Good t none → t.now_ms = now →
      Spec (localIdleCallBack.loop ops cbs now fuel t) (fun t' => Good t' none ∧ t'.now_ms = now)
        LocalIdleHalt.Benign
  | 0, _, _, _ => spec_throw trivial
  | fuel + 1, t, hg, hnow => by
    rw [localIdleCallBack.loop]
    split
    · exact ⟨hg, hnow⟩
    · rename_i p rest hq
      rw [readItem_of_live (hg.inv.live_of_mem_heap (hq ▸ List.mem_cons_self)), ok_bind]
      split
      · exact ⟨hg, hnow⟩
      · rename_i he
        exact (localIdleCallBack_expire_spec ops cbs hg hnow hq he).bind fun _ ⟨hg', hnow'⟩ =>
          localIdleCallBack_loop_spec now fuel hg' hnow'

theorem Inv.makeHeap (h : Inv t out) :
    Inv { t with hqueue := ops.makeHeap t.less t.hqueue } out :=
  h.requeue (ops.nodup_makeHeap t.less h.heap_nodup)
    (fun x => (ops.mem_makeHeap t.less).trans (h.mem_heap x)) h.out_live

theorem localIdleCallBack_spec (hg : Good t none) (fuel : Nat) :
    Spec (localIdleCallBack ops cbs fuel t) (fun t' => Good t' none) LocalIdleHalt.Benign := by
  rw [localIdleCallBack, hqueueMakeHeap_eq ops fun _ hx => hg.inv.live_of_mem_heap hx, ok_bind]
  have hg₁ : Good { t with hqueue := ops.makeHeap t.less t.hqueue } none :=
    ⟨hg.inv.makeHeap ops, hg.history.evolve (evolves_of_items rfl rfl rfl rfl) rfl⟩
  exact (localIdleCallBack_loop_spec ops cbs _ fuel hg₁ rfl).mono (fun _ h => h.1) fun _ h => h

/-- The drain's body for an active item: out of the map and the heap, its callback, and free. -/
theorem localidletableDrainItems_take_spec (hg : Good t none) (hl : t.live p)
    (hr : (t.items p).removed = false) :
    Spec (localidletableDrainItems.take ops cbs t p) (fun t' => Good t' none)
      LocalIdleHalt.Benign := by
  rw [localidletableDrainItems.take, localidletableEraseItemFromMap_eq hg.inv hl hr, ok_bind,
    localidletableRemoveItemFromHeap_eq ops (hg.inv.retire hl hr), ok_bind]
  -- out of the map and the heap, the item is held, removed
  have hi₁ := (hg.inv.retire hl hr).removeItemFromHeap ops hl
  have he₁ : Evolves t { t.retire p with hqueue := heapWithout ops (t.retire p) p } :=
    (evolves_retire t p).trans (evolves_of_items rfl rfl rfl rfl)
  have hrem : ((t.retire p).items p).removed = true := by simp [LocalIdleTable.retire]
  have hh := (hg.history.evolve he₁ rfl).record_retired (.inr rfl) (hg.inv.live_lt p hl) hrem
  have hg₂ : Good ({ t.retire p with hqueue := heapWithout ops (t.retire p) p }.record
      (.drained p)) (some p) := ⟨hi₁.congr rfl rfl rfl rfl rfl, hh.hold⟩
  refine spec_readItem_bind ?_ ?_
  · exact hl
  split
  · exact (invokeCallback_spec ops cbs hg₂ p).bind fun t₃ h₃ =>
      (free_held h₃.1 (h₃.2.removed_of_removed p (hg.inv.live_lt p hl)
        (h₃.1.inv.out_live p rfl) hrem)).mono (fun _ h => h.1) fun _ h => h
  · exact (free_held hg₂ hrem).mono (fun _ h => h.1) fun _ h => h

theorem localidletableDrainItems_spec :
    ∀ (fuel : Nat) {t : LocalIdleTable}, Good t none →
      Spec (localidletableDrainItems ops cbs fuel t) (fun t' => Good t' none) LocalIdleHalt.Benign
  | 0, _, _ => spec_throw trivial
  | fuel + 1, t, hg => by
    obtain ⟨r, hr, hact⟩ := localidletableGetFirstActiveItem_eq hg.inv
    rw [localidletableDrainItems, hr, ok_bind]
    cases r with
    | none => exact hg
    | some p =>
      obtain ⟨hl, hrem⟩ := hact p rfl
      exact (localidletableDrainItems_take_spec ops cbs hg hl hrem).bind fun _ hg' =>
        localidletableDrainItems_spec fuel hg'

/-- Every operation of the worker keeps the invariants, or stops in a way that is not the
table's fault. -/
theorem LocalIdleOp.apply_spec (hg : Good t none) (fuel : Nat) (op : LocalIdleOp) :
    Spec (LocalIdleOp.apply ops cbs fuel t op) (fun t' => Good t' none) LocalIdleHalt.Benign := by
  cases op with
  | call c => exact (LocalIdleCall.run_spec ops hg c).mono (fun _ h => h.1) fun _ h => h
  | drainItems => exact localidletableDrainItems_spec ops cbs fuel hg
  | idleCallBack => exact localIdleCallBack_spec ops cbs hg fuel

theorem good_localIdleTableCreate (now_ms : UInt64) : Good (localIdleTableCreate now_ms) none where
  inv :=
    { live_lt := fun _ h => by simp [localIdleTableCreate] at h
      map_live := fun _ _ h => by simp [localIdleTableCreate] at h
      map_complete := fun _ h => by simp [localIdleTableCreate] at h
      heap_nodup := List.nodup_nil
      mem_heap := fun _ => by simp [localIdleTableCreate]
      out_live := fun _ h => by cases h }
  history :=
    { log_lt := fun _ h => by simp [localIdleTableCreate] at h
      fired_le := fun _ _ _ h => by simp [localIdleTableCreate] at h
      retired := fun _ h => by simp [localIdleTableCreate] at h
      fired_future := fun _ _ _ h => by simp [localIdleTableCreate] at h
      ordered := List.Pairwise.nil }

theorem Good.setNow (hg : Good t none) (now_ms : UInt64) : Good { t with now_ms := now_ms } none :=
  ⟨hg.inv.congr rfl rfl rfl rfl rfl, hg.history.setNow now_ms⟩

theorem Reachable.good {t : LocalIdleTable} (r : Reachable ops cbs t) : Good t none := by
  induction r with
  | create now_ms => exact good_localIdleTableCreate now_ms
  | step now_ms op fuel _ happly ih =>
    exact (LocalIdleOp.apply_spec ops cbs (ih.setNow now_ms) fuel op).of_eq_ok happly

/-- The loop of `localidletableDestroy` frees every queued item when every live item is queued
once. -/
theorem localidletableDestroy_loop_frees :
    ∀ (fuel : Nat) {t : LocalIdleTable}, t.hqueue.length ≤ fuel → t.hqueue.Nodup →
      (∀ x, t.live x ↔ x ∈ t.hqueue) →
      ∃ t', localidletableDestroy.loop ops fuel t = .ok t' ∧ ∀ x, t'.live x = false := by
  intro fuel
  induction fuel with
  | zero =>
    intro t hlen _ hmem
    have hq : t.hqueue = [] := List.eq_nil_of_length_eq_zero (Nat.le_zero.1 hlen)
    refine ⟨t, by rw [localidletableDestroy.loop.eq_def, hq]; rfl, fun x => ?_⟩
    simpa [hq] using hmem x
  | succ fuel ih =>
    intro t hlen hnd hmem
    cases hq : t.hqueue with
    | nil =>
      refine ⟨t, by rw [localidletableDestroy.loop.eq_def, hq]; rfl, fun x => ?_⟩
      simpa [hq] using hmem x
    | cons p rest =>
      have hl : t.live p := (hmem p).2 (hq ▸ List.mem_cons_self)
      have hnd' : (p :: rest).Nodup := hq ▸ hnd
      rw [localidletableDestroy.loop.eq_def, hq]
      simp only
      rw [hqueuePop_eq ops fun x hx => (hmem x).2 hx, ok_bind,
        memoryFree_of_live (t := { t with hqueue := ops.pop t.less t.hqueue }) hl, ok_bind]
      refine ih ?_ ?_ fun x => ?_
      · simp only [release_hqueue, hq, ops.length_pop]
        rw [hq] at hlen
        exact Nat.le_of_succ_le_succ hlen
      · simp only [release_hqueue, hq]
        exact ops.nodup_pop t.less hnd'
      · simp only [release_live, release_hqueue, hq, ops.mem_pop]
        by_cases hxp : x = p
        · subst hxp
          simp [(List.nodup_cons.1 hnd').1]
        · simp only [Function.update_of_ne hxp, hmem x, hq, List.mem_cons, hxp, false_or]

/-- `localidletableDestroy` frees every item of a table that keeps the invariant. -/
theorem localidletableDestroy_frees (h : Inv t none) :
    ∃ t', localidletableDestroy ops t = .ok t' ∧ ∀ x, t'.live x = false :=
  localidletableDestroy_loop_frees ops _ (Nat.le_refl _) h.heap_nodup fun x => by
    simp [h.mem_heap x]

/-- Memory and expiry discipline of the worker-local idle table, for every table a worker reaches
by creates, keeps, gets, removes, drains and timer firings, whose callbacks call create, keep, get
and remove. -/
theorem localIdleTable_discipline {t : LocalIdleTable} (r : Reachable ops cbs t) :
    -- no next operation reads, writes or frees a freed item, and a destroy frees every item
    (∀ now_ms fuel op,
      LocalIdleOp.apply ops cbs fuel { t with now_ms := now_ms } op ≠ .error .useAfterFree ∧
      LocalIdleOp.apply ops cbs fuel { t with now_ms := now_ms } op ≠ .error .doubleFree) ∧
    (∃ t', localidletableDestroy ops t = .ok t' ∧ ∀ x, t'.live x = false) ∧
    -- the map holds the live items not removed, one per hash, and each live item is queued once
    (∀ x, (∃ k, (k, x) ∈ t.hmap.entries) ↔ t.live x ∧ (t.items x).removed = false) ∧
    (∀ k x y, (k, x) ∈ t.hmap.entries → (k, y) ∈ t.hmap.entries → x = y) ∧
    (∀ k x, (k, x) ∈ t.hmap.entries → (t.items x).hash = k) ∧
    (∀ x, t.live x → t.hqueue.count x = 1) ∧
    -- callbacks run when due, never after a removal or a drain, and once per expiry
    (∀ x e n, .fired x e n ∈ t.log → e ≤ n) ∧
    (∀ l₁ l₂ x, t.log = l₁ ++ l₂ → (.removed x ∈ l₁ ∨ .drained x ∈ l₁) →
      ∀ e n, .fired x e n ∉ l₂) ∧
    (∀ l₁ l₂ x e n e' n', t.log = l₁ ++ l₂ → .fired x e n ∈ l₁ → .fired x e' n' ∈ l₂ →
      e < e' ∧ n < e') := by
  have hg := r.good
  have hsafe : ∀ now_ms fuel op,
      Spec (LocalIdleOp.apply ops cbs fuel { t with now_ms := now_ms } op) (fun t' => Good t' none)
        LocalIdleHalt.Benign :=
    fun now_ms fuel op => LocalIdleOp.apply_spec ops cbs (hg.setNow now_ms) fuel op
  refine ⟨fun now_ms fuel op => ⟨fun h => ?_, fun h => ?_⟩, localidletableDestroy_frees ops hg.inv,
    fun x => ⟨?_, ?_⟩, fun k x y hx hy => HMap.eq_of_mem hx hy,
    fun k x hx => (hg.inv.map_live k x hx).2.2,
    fun x hx => List.count_eq_one_of_mem hg.inv.heap_nodup ((hg.inv.mem_heap x).2 ⟨hx, nofun⟩),
    hg.history.fired_le, fun l₁ l₂ x hlog hx => hg.history.not_fired_after hlog hx,
    fun l₁ l₂ x e n e' n' hlog h₁ h₂ => hg.history.fired_later hlog h₁ h₂⟩
  · exact (hsafe now_ms fuel op).of_eq_error h
  · exact (hsafe now_ms fuel op).of_eq_error h
  · rintro ⟨k, hk⟩
    exact ⟨(hg.inv.map_live k x hk).1, (hg.inv.map_live k x hk).2.1⟩
  · rintro ⟨hl, hr⟩
    exact ⟨_, hg.inv.map_complete x hl hr⟩

end Table

/-- A run whose callback re-enters the table: two items, due at 5 ms and 100 ms, the timer at
10 ms (the first item's callback creates a third item and the first is freed), then the removal
of the second by its hash. -/
theorem localIdleTable_discipline_run :
    ∃ t, Reachable PQueue.sorted (fun _ _ => [.createItem 3 true true 50]) t ∧
      t.log = [.fired 0 5 10, .removed 1] ∧ t.live 0 = false ∧ t.live 2 = true ∧
      (∀ now_ms fuel op,
        LocalIdleOp.apply PQueue.sorted (fun _ _ => [.createItem 3 true true 50]) fuel
            { t with now_ms := now_ms } op ≠ .error .useAfterFree ∧
        LocalIdleOp.apply PQueue.sorted (fun _ _ => [.createItem 3 true true 50]) fuel
            { t with now_ms := now_ms } op ≠ .error .doubleFree) ∧
      (∃ t', localidletableDestroy PQueue.sorted t = .ok t' ∧ ∀ x, t'.live x = false) ∧
      (∀ x, (∃ k, (k, x) ∈ t.hmap.entries) ↔ t.live x ∧ (t.items x).removed = false) ∧
      (∀ k x y, (k, x) ∈ t.hmap.entries → (k, y) ∈ t.hmap.entries → x = y) ∧
      (∀ k x, (k, x) ∈ t.hmap.entries → (t.items x).hash = k) ∧
      (∀ x, t.live x → t.hqueue.count x = 1) ∧
      (∀ x e n, .fired x e n ∈ t.log → e ≤ n) ∧
      (∀ l₁ l₂ x, t.log = l₁ ++ l₂ → (.removed x ∈ l₁ ∨ .drained x ∈ l₁) →
        ∀ e n, .fired x e n ∉ l₂) ∧
      (∀ l₁ l₂ x e n e' n', t.log = l₁ ++ l₂ → .fired x e n ∈ l₁ → .fired x e' n' ∈ l₂ →
        e < e' ∧ n < e') := by
  have r₁ : Reachable PQueue.sorted (fun _ _ => [.createItem 3 true true 50]) _ :=
    Reachable.step 0 (.call (.createItem 1 true true 5)) 0 (.create 0) rfl
  have r₂ := Reachable.step 0 (.call (.createItem 2 true true 100)) 0 r₁ rfl
  have r₃ := Reachable.step 10 .idleCallBack 4 r₂ rfl
  have r₄ := Reachable.step 20 (.call (.removeIdleItemByHash 2)) 0 r₃ rfl
  exact ⟨_, r₄, by decide, by decide, by decide,
    localIdleTable_discipline PQueue.sorted (fun _ _ => [.createItem 3 true true 50]) r₄⟩

end WaterWall.IdleTable
