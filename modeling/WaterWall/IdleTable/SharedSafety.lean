import WaterWall.IdleTable.SharedInv

/-!
# The shared idle table keeps its ownership protocol

Each function of `widle_table.c` gets its specification here, from the invariants of
`WaterWall.IdleTable.SharedInv` to the same invariants, with the ways a step may stop that are not
the table's fault (`IdleHalt.Benign`): a caller keeping a freed or removed item alive.  A callee
is cited by its specification and never unfolded.

* The calls (`IdleCall.run_spec`) keep the invariants whatever the running step holds, so a
  callback may call them from a message or a drain.
* `beforeCloseWorkerMessage_spec` and `idlePostedCloseMessageCleanup_spec`: a message, run or
  dropped, frees its item or gives it back to the heap, and drops its reference.
* `idleCallBack_spec`, `idletableDrainWorkerItems_spec`, `idletableDestroy_spec`: the timer, a
  drain and the destroy keep the invariants; `Reachable.good`: so does every run.
-/

set_option autoImplicit false
set_option linter.dupNamespace false

namespace WaterWall.IdleTable.Shared

open IdleTable Except

/-- The ways a step stops that are not the table's faults. -/
def IdleHalt.Benign : IdleHalt → Prop
  | .callerUseAfterFree => True
  | .abort => True
  | _ => False

section Table

variable (ops : PQueue.Ops ItemPtr)
variable {t : IdleTable} {held : List ItemPtr} {n : Nat} {p : ItemPtr}

/-! ## The heap and the map -/

theorem hqueuePush_eq (h : ∀ x ∈ t.hqueue, t.live x = true) (hl : t.live p = true) :
    hqueuePush ops t p = .ok { t with hqueue := ops.push t.less t.hqueue p } := by
  have hq : ∀ x ∈ t.hqueue ++ [p], t.live x = true := by
    intro x hx
    rcases List.mem_append.1 hx with hx | hx
    · exact h x hx
    · rw [List.mem_singleton.1 hx]
      exact hl
  rw [hqueuePush, IdleTable.readQueued_of_live hq]
  rfl

theorem hqueuePop_eq (h : ∀ x ∈ t.hqueue, t.live x = true) :
    hqueuePop ops t = .ok { t with hqueue := ops.pop t.less t.hqueue } := by
  rw [hqueuePop, IdleTable.readQueued_of_live h]
  rfl

theorem hqueueMakeHeap_eq (h : ∀ x ∈ t.hqueue, t.live x = true) :
    hqueueMakeHeap ops t = .ok { t with hqueue := ops.makeHeap t.less t.hqueue } := by
  rw [hqueueMakeHeap, IdleTable.readQueued_of_live h]
  rfl

theorem idletableEraseItemFromMapLocked_eq (hl : t.live p = true) :
    idletableEraseItemFromMapLocked t p = .ok (t.eraseFromMap p) := by
  rw [idletableEraseItemFromMapLocked, IdleTable.readItem_of_live hl, ok_bind,
    IdleTable.eraseFromMap]
  split
  · exact IdleTable.writeItem_of_live (t := { t with hmap := t.hmap.erase (t.items p).hash }) hl _
  · exact IdleTable.writeItem_of_live hl _

/-- A held item goes back into the heap, no longer pending, and the step goes on with `k`. -/
theorem Good.requeue_held {β : Type} {k : IdleTable → Except IdleHalt β} {Q : β → Prop}
    (hg : Good t (p :: held) n) (htab : (t.items p).table = true)
    (hd : t.destroy_requested = false)
    (hk : ∀ t', Good t' held n → Evolves t t' → t'.destroy_requested = false →
      Spec (k t') Q IdleHalt.Benign) :
    Spec (do
        let t ← t.writeItem p fun item => { item with worker_message_pending := false }
        let t ← hqueuePush ops t p
        k t) Q IdleHalt.Benign := by
  have hl := hg.inv.live_of_held List.mem_cons_self
  rw [IdleTable.writeItem_of_live hl, ok_bind]
  have hi := hg.inv.setItem_held List.mem_cons_self
    (e := { t.items p with worker_message_pending := false }) rfl rfl rfl
    (fun h => absurd (htab ▸ h) (by decide))
  rw [hqueuePush_eq ops (fun _ hx => hi.live_of_mem_heap hx) (by simpa using hl), ok_bind]
  have he := evolves_setItem (t := t) (p := p)
    (e := { t.items p with worker_message_pending := false }) id
  exact hk _ ⟨hi.push_held ⟨by simp, by simpa using htab⟩ hd (ops.push_perm _ _ _),
    hg.history.evolve (he.trans (evolves_of_items rfl rfl rfl)) rfl⟩
    (he.trans (evolves_of_items rfl rfl rfl)) hd

/-! ## The calls -/

theorem spec_readItem_bind {β : Type} {k : IdleItem → Except IdleHalt β}
    {P : β → Prop} {S : IdleHalt → Prop} (hl : t.live p = true) (h : Spec (k (t.items p)) P S) :
    Spec (t.readItem p >>= k) P S := by
  rw [IdleTable.readItem_of_live hl]
  exact h

theorem idletableCreateItem_spec (hg : Good t held n) (hd : t.destroy_requested = false)
    (key : UInt64) (cb : Bool) (wid : UInt8) (age_ms : UInt64) :
    Spec (idletableCreateItem ops t key cb wid age_ms)
      (fun r => Good r.1 held n ∧ Evolves t r.1 ∧ r.1.destroy_requested = false)
      IdleHalt.Benign := by
  rw [idletableCreateItem]
  -- the allocation comes before the lock
  generalize hitem : IdleItem.mk (t.now_ms + age_ms) cb key wid true false false = item
  cases ha : t.memoryAllocate item with
  | mk t₁ p₁ =>
  obtain ⟨rfl, rfl⟩ := Prod.mk.inj ha.symm
  subst hitem
  dsimp only
  rw [IdleTable.mutexLock_of_storage (by simpa using hg.inv.storage_of_active hd), ok_bind]
  have he := evolves_memoryAllocate t
    { expire_at_ms := t.now_ms + age_ms, hash := key, wid, cb, table := true, removed := false,
      worker_message_pending := false }
  cases hf : t.hmap.find key with
  | some q =>
    -- the map holds the key: the new item is freed at once
    simp only [HMap.insert_of_find_some hf, Bool.not_false, if_true]
    rw [IdleTable.memoryFree_of_live (by simp), ok_bind]
    have he' := he.trans (evolves_release _ t.allocated)
    exact ⟨⟨hg.inv.create_rejected _, hg.history.evolve he' rfl⟩, he', hd⟩
  | none =>
    obtain ⟨hins, -⟩ := HMap.insert_of_find_none hf (v := t.allocated)
    simp only [hins, Bool.not_true, Bool.false_eq_true, if_false]
    -- the new item goes into the map and the heap
    have hq : ∀ x ∈ t.hqueue, Function.update t.live t.allocated true x = true := by
      intro x hx
      simp [Function.update_of_ne (hg.inv.ne_of_live (hg.inv.live_of_mem_heap hx)),
        hg.inv.live_of_mem_heap hx]
    rw [hqueuePush_eq ops hq (by simp), ok_bind]
    refine ⟨⟨hg.inv.create rfl ⟨rfl, rfl⟩ hd hf (ops.push_perm _ _ _), hg.history.evolve ?_ rfl⟩,
      ?_, hd⟩ <;>
      exact he.trans (evolves_of_items rfl rfl rfl)

theorem idletableGetIdleItemByHash_ok (h : Inv t held n) (hd : t.destroy_requested = false)
    (wid : UInt8) (key : UInt64) : ∃ r, idletableGetIdleItemByHash t wid key = .ok r := by
  rw [idletableGetIdleItemByHash, IdleTable.mutexLock_of_storage (h.storage_of_active hd), ok_bind]
  cases hf : t.hmap.find key with
  | none => exact ⟨none, rfl⟩
  | some q =>
    have hl := ((h.mapped hd).map_live key q (HMap.find_eq_some_iff.1 hf)).1
    simp only [IdleTable.readItem_of_live hl, ok_bind]
    exact ⟨_, rfl⟩

theorem idletableKeepIdleItemForAtleast_spec (hg : Good t held n) (hd : t.destroy_requested = false)
    (q : ItemPtr) (now_ms age_ms : UInt64) :
    Spec (idletableKeepIdleItemForAtleast t q now_ms age_ms)
      (fun t' => Good t' held n ∧ Evolves t t' ∧ t'.destroy_requested = false)
      IdleHalt.Benign := by
  rw [idletableKeepIdleItemForAtleast]
  cases hl : t.live q with
  | false => exact spec_throw trivial
  | true =>
    by_cases hkeep : (!(t.items q).table || (t.items q).removed) = true
    · simp only [Bool.not_true, Bool.false_eq_true, if_false, hkeep, if_true]
      exact spec_throw trivial
    · simp only [Bool.not_true, Bool.false_eq_true, if_false, hkeep,
        IdleTable.writeItem_of_live hl, spec_ok]
      -- the expiry is all that moves
      have hflags : (idleItemKeepExpireAtForAtleast (t.items q) (now_ms + age_ms)).flags =
          (t.items q).flags ∧
          (idleItemKeepExpireAtForAtleast (t.items q) (now_ms + age_ms)).hash = (t.items q).hash := by
        rw [idleItemKeepExpireAtForAtleast]
        split <;> exact ⟨rfl, rfl⟩
      have he := evolves_setItem (t := t) (p := q)
        (e := idleItemKeepExpireAtForAtleast (t.items q) (now_ms + age_ms)) fun hr => by
          simp only [IdleItem.flags, Prod.mk.injEq] at hflags
          rw [hflags.1.1, hr]
      exact ⟨⟨hg.inv.setItem_flags hflags.1 hflags.2, hg.history.evolve he rfl⟩, he, hd⟩

theorem idletableRemoveIdleItemByHash_spec (hg : Good t held n) (hd : t.destroy_requested = false)
    (wid : UInt8) (key : UInt64) :
    Spec (idletableRemoveIdleItemByHash t wid key)
      (fun r => Good r.1 held n ∧ Evolves t r.1 ∧ r.1.destroy_requested = false)
      IdleHalt.Benign := by
  rw [idletableRemoveIdleItemByHash,
    IdleTable.mutexLock_of_storage (hg.inv.storage_of_active hd), ok_bind]
  cases hf : t.hmap.find key with
  | none => exact ⟨hg, Evolves.refl t, hd⟩
  | some q =>
    obtain ⟨hl, hr, -⟩ := (hg.inv.mapped hd).map_live key q (HMap.find_eq_some_iff.1 hf)
    simp only [IdleTable.readItem_of_live hl, ok_bind]
    split
    · exact ⟨hg, Evolves.refl t, hd⟩
    rw [idletableEraseItemFromMapLocked_eq hl, ok_bind,
      IdleTable.readItem_of_live (t := t.eraseFromMap q) (by simpa using hl), ok_bind]
    have he := evolves_eraseFromMap t q
    have hrq : (t.items q).removed = false := hr
    cases hp : (t.items q).worker_message_pending with
    | true =>
      -- a message holds the item: it is detached and left to the message
      simp only [eraseFromMap_items, Function.update_self, hp, if_true]
      rw [IdleTable.writeItem_of_live (by simpa using hl), ok_bind]
      have he' := he.trans (evolves_setItem (t := t.eraseFromMap q) (p := q)
        (e := { (t.eraseFromMap q).items q with table := false }) id)
      refine spec_pure ⟨⟨(hg.inv.eraseFromMap_detach hp).record _, ?_⟩,
        he'.trans (evolves_of_items rfl rfl rfl), by simpa using hd⟩
      exact (hg.history.evolve he' (by simp)).record_retired (.inl rfl)
        (by simpa using hg.inv.live_lt q hl) (by simp)
    | false =>
      -- the heap holds the item: it stays there, removed, until it surfaces
      simp only [eraseFromMap_items, Function.update_self, hp, Bool.false_eq_true, if_false,
        pure_bind]
      have hm : q ∉ t.messages := fun hm => by
        rw [((hg.inv.placed q).posted hm).1] at hp
        exact Bool.noConfusion hp
      refine ⟨⟨(hg.inv.eraseFromMap hm).record _, ?_⟩, he.trans (evolves_of_items rfl rfl rfl),
        by simpa using hd⟩
      exact (hg.history.evolve he (by simp)).record_retired (.inl rfl)
        (by simpa using hg.inv.live_lt q hl) (by simp)

/-- Every call keeps the invariants, whatever the running step holds. -/
theorem IdleCall.run_spec (hg : Good t held n) (hd : t.destroy_requested = false) (c : IdleCall) :
    Spec (IdleCall.run ops t c)
      (fun t' => Good t' held n ∧ Evolves t t' ∧ t'.destroy_requested = false)
      IdleHalt.Benign := by
  cases c with
  | createItem key cb wid age_ms =>
    refine (idletableCreateItem_spec ops hg hd key cb wid age_ms).bind fun r hr => ?_
    obtain ⟨t', _⟩ := r
    exact hr
  | getIdleItemByHash wid key =>
    obtain ⟨r, hr⟩ := idletableGetIdleItemByHash_ok hg.inv hd wid key
    rw [IdleCall.run, hr]
    exact ⟨hg, Evolves.refl t, hd⟩
  | keepIdleItemForAtleast q now_ms age_ms =>
    exact idletableKeepIdleItemForAtleast_spec hg hd q now_ms age_ms
  | removeIdleItemByHash wid key =>
    refine (idletableRemoveIdleItemByHash_spec hg hd wid key).bind fun r hr => ?_
    obtain ⟨t', _⟩ := r
    exact hr

theorem runCalls_spec :
    ∀ (cs : List IdleCall) {t : IdleTable}, Good t held n → t.destroy_requested = false →
      Spec (runCalls ops t cs)
        (fun t' => Good t' held n ∧ Evolves t t' ∧ t'.destroy_requested = false) IdleHalt.Benign
  | [], t, hg, hd => ⟨hg, Evolves.refl t, hd⟩
  | c :: cs, _, hg, hd =>
    (IdleCall.run_spec ops hg hd c).bind fun _ ⟨hg₁, he₁, hd₁⟩ =>
      (runCalls_spec cs hg₁ hd₁).mono (fun _ ⟨hg₂, he₂, hd₂⟩ => ⟨hg₂, he₁.trans he₂, hd₂⟩)
        fun _ h => h

/-! ## The messages -/

theorem idletableReleaseMessageRef_spec (hg : Good t held (n + 1)) :
    Spec (idletableReleaseMessageRef t)
      (fun t' => Good t' held n ∧ Evolves t t' ∧ t'.items = t.items ∧
        t'.destroy_requested = t.destroy_requested) IdleHalt.Benign := by
  have hs := hg.inv.storage_of_pos
  rw [idletableReleaseMessageRef, IdleTable.mutexLock_of_storage hs, ok_bind]
  have he : Evolves t { t with posted_messages := t.posted_messages - 1 } :=
    evolves_of_items rfl rfl rfl
  dsimp only
  split
  · -- the last reference after a destroy: the storage goes
    rename_i h0
    simp only [Bool.and_eq_true, beq_iff_eq] at h0
    rw [idletableFreeResources_of_storage (t := { t with posted_messages := t.posted_messages - 1 })
      hs, spec_ok]
    have he' : Evolves t
        { t with posted_messages := t.posted_messages - 1, storage := false } :=
      he.trans (evolves_of_items rfl rfl rfl)
    exact ⟨⟨hg.inv.unpost_free h0.2 h0.1, hg.history.evolve he' rfl⟩, he', rfl, rfl⟩
  · rename_i h0
    have hkeep : t.destroy_requested = false ∨ 0 < t.posted_messages - 1 := by
      cases hd : t.destroy_requested with
      | false => exact .inl rfl
      | true =>
        refine .inr (Nat.pos_of_ne_zero fun hz => h0 ?_)
        simp [hz, hd]
    exact ⟨⟨hg.inv.unpost hkeep, hg.history.evolve he rfl⟩, he, rfl, rfl⟩

theorem idlePostedCloseMessageCleanup_spec (hg : Good t (p :: held) (n + 1)) :
    Spec (idlePostedCloseMessageCleanup t p)
      (fun t' => Good t' held n ∧ Evolves t t' ∧ (∀ x, x ≠ p → t'.items x = t.items x) ∧
        t'.destroy_requested = t.destroy_requested) IdleHalt.Benign := by
  have hl := hg.inv.live_of_held List.mem_cons_self
  have hm := ((hg.inv.placed p).held_apart List.mem_cons_self).2
  rw [idlePostedCloseMessageCleanup, IdleTable.mutexLock_of_storage hg.inv.storage_of_pos, ok_bind,
    idletableEraseItemFromMapLocked_eq hl, ok_bind,
    IdleTable.memoryFree_of_live (by simpa using hl), ok_bind]
  have he := (evolves_eraseFromMap t p).trans (evolves_release _ p)
  have hi := (hg.inv.eraseFromMap hm).free_held fun _ => by simp
  refine (idletableReleaseMessageRef_spec ⟨hi, hg.history.evolve he (by simp)⟩).mono ?_ fun _ h => h
  rintro t' ⟨hg', he', hitems, hd'⟩
  refine ⟨hg', he.trans he', fun x hx => ?_, by simp [hd']⟩
  simp [hitems, hx]

/-- Where a message leaves its item, before the free and the release: back in the heap (`false`),
or still held and removed, to be freed (`true`). -/
def Settled (p : ItemPtr) (held : List ItemPtr) (n : Nat) (r : IdleTable × Bool) : Prop :=
  (r.2 = false ∧ Good r.1 held (n + 1)) ∨
    (r.2 = true ∧ Good r.1 (p :: held) (n + 1) ∧
      (r.1.destroy_requested = false → (r.1.items p).removed = true))

/-- A held item that is detached or removed is left to be freed. -/
theorem settled_inactive (hg : Good t (p :: held) (n + 1))
    (hi : (!(t.items p).table || (t.items p).removed) = true) : Settled p held n (t, true) :=
  .inr ⟨rfl, hg, fun _ => hg.inv.removed_of_inactive (hg.inv.live_of_held List.mem_cons_self) hi⟩

theorem beforeCloseWorkerMessage_requeue_spec (hg : Good t (p :: held) (n + 1)) :
    Spec (beforeCloseWorkerMessage.requeue ops t p) (Settled p held n) IdleHalt.Benign := by
  have hl := hg.inv.live_of_held List.mem_cons_self
  rw [beforeCloseWorkerMessage.requeue, IdleTable.mutexLock_of_storage hg.inv.storage_of_pos,
    ok_bind, IdleTable.readItem_of_live hl, ok_bind]
  split
  · rename_i hact
    simp only [Bool.and_eq_true, Bool.not_eq_true'] at hact
    -- still attached and active: back into the heap
    have hd : t.destroy_requested = false := by
      cases hd : t.destroy_requested with
      | false => rfl
      | true => simp [(hg.inv.placed p).destroyed hd hl] at hact
    exact Good.requeue_held ops hg hact.2 hd fun t' hg' _ _ => spec_pure (.inl ⟨rfl, hg'⟩)
  · rename_i hact
    refine settled_inactive hg ?_
    cases htab : (t.items p).table <;> cases hr : (t.items p).removed <;> simp_all

theorem beforeCloseWorkerMessage_settle_spec (hg : Good t (p :: held) (n + 1))
    (hd : t.destroy_requested = false) (now old_expire_at_ms : UInt64) :
    Spec (beforeCloseWorkerMessage.settle ops t p now old_expire_at_ms) (Settled p held n)
      IdleHalt.Benign := by
  have hl := hg.inv.live_of_held List.mem_cons_self
  rw [beforeCloseWorkerMessage.settle, IdleTable.readItem_of_live hl, ok_bind,
    IdleTable.mutexLock_of_storage (hg.inv.storage_of_active hd), ok_bind, ok_bind]
  dsimp only
  by_cases hact : (!(t.items p).table || (t.items p).removed) = true
  · -- removed or detached meanwhile: to be freed
    have hr : ((t.items p).removed || !(t.items p).table) = true := by
      rw [Bool.or_comm]
      exact hact
    simp only [hr, Bool.not_true, Bool.false_and, Bool.false_eq_true, if_false, pure_bind]
    exact settled_inactive hg hact
  · have hr : ((t.items p).removed || !(t.items p).table) = false := by
      rw [Bool.or_comm]
      simpa using hact
    have htab : (t.items p).table = true := by
      cases htab : (t.items p).table <;> simp_all
    simp only [hr, Bool.not_false, Bool.true_and]
    split
    · exact Good.requeue_held ops hg htab hd fun t' hg' _ _ => spec_pure (.inl ⟨rfl, hg'⟩)
    · -- expired for good: out of the map, to be freed
      simp only [if_true]
      rw [idletableEraseItemFromMapLocked_eq hl, ok_bind]
      have hm := ((hg.inv.placed p).held_apart List.mem_cons_self).2
      exact .inr ⟨rfl, ⟨hg.inv.eraseFromMap hm, hg.history.evolve (evolves_eraseFromMap t p)
        (by simp)⟩, fun _ => by simp⟩

variable (cbs : Nat → ItemPtr → List IdleCall)

/-- A callback, whatever it calls, keeps the invariants with the same items held. -/
theorem invokeCallback_spec (hg : Good t held n) (hd : t.destroy_requested = false) (q : ItemPtr) :
    Spec (invokeCallback ops cbs t q)
      (fun t' => Good t' held n ∧ Evolves t t' ∧ t'.destroy_requested = false)
      IdleHalt.Benign := by
  have he : Evolves t { t with callbacks_run := t.callbacks_run + 1 } :=
    evolves_of_items rfl rfl rfl
  have hg' : Good { t with callbacks_run := t.callbacks_run + 1 } held n :=
    ⟨hg.inv.congr rfl rfl rfl rfl rfl rfl rfl rfl rfl, hg.history.evolve he rfl⟩
  exact (runCalls_spec ops _ hg' hd).mono (fun _ ⟨hg₂, he₂, hd₂⟩ => ⟨hg₂, he.trans he₂, hd₂⟩)
    fun _ h => h

/-- A message, run on its worker, frees its item or gives it back to the heap, and drops its
reference. -/
theorem beforeCloseWorkerMessage_spec (hg : Good t (p :: held) (n + 1)) (now : UInt64) :
    Spec (beforeCloseWorkerMessage ops cbs t p now) (fun t' => Good t' held n) IdleHalt.Benign := by
  have hl := hg.inv.live_of_held List.mem_cons_self
  rw [beforeCloseWorkerMessage, IdleTable.readItem_of_live hl, ok_bind]
  dsimp only
  -- the free and the release, wherever the item was left
  have hfinish : ∀ r : IdleTable × Bool, Settled p held n r →
      Spec (if r.2 = true then (do let t ← r.1.memoryFree p; idletableReleaseMessageRef t)
        else (do let t ← pure r.1; idletableReleaseMessageRef t))
        (fun t' => Good t' held n) IdleHalt.Benign := by
    rintro ⟨t₁, b⟩ (⟨rfl, hg₁⟩ | ⟨rfl, hg₁, hr⟩)
    · exact (idletableReleaseMessageRef_spec hg₁).mono (fun _ h => h.1) fun _ h => h
    · simp only [if_true]
      rw [IdleTable.memoryFree_of_live (hg₁.inv.live_of_held List.mem_cons_self), ok_bind]
      have hg₂ : Good (t₁.release p) held (n + 1) :=
        ⟨hg₁.inv.free_held hr, hg₁.history.evolve (evolves_release t₁ p) rfl⟩
      exact (idletableReleaseMessageRef_spec hg₂).mono (fun _ h => h.1) fun _ h => h
  split
  · exact Spec.bind (spec_pure (settled_inactive hg ‹_›)) hfinish
  · rename_i hact
    split
    · exact Spec.bind (beforeCloseWorkerMessage_requeue_spec ops hg) hfinish
    · -- expired: the callback runs, then the item is settled
      have hact' : (t.items p).table = true ∧ (t.items p).removed = false := by
        cases htab : (t.items p).table <;> cases hr : (t.items p).removed <;> simp_all
      have hd : t.destroy_requested = false := by
        cases hd : t.destroy_requested with
        | false => rfl
        | true => simp [(hg.inv.placed p).destroyed hd hl] at hact'
      split
      · have hg₁ : Good (t.record (.fired p)) (p :: held) (n + 1) :=
          ⟨hg.inv.record _, hg.history.record_fired hl hact'.2 (hg.inv.live_lt p hl)⟩
        exact Spec.bind (invokeCallback_spec ops cbs hg₁ (by simpa using hd) p)
          fun t₂ ⟨hg₂, _, hd₂⟩ =>
            Spec.bind (beforeCloseWorkerMessage_settle_spec ops hg₂ hd₂ now _) hfinish
      · rw [pure_bind]
        exact Spec.bind (beforeCloseWorkerMessage_settle_spec ops hg hd now _) hfinish

/-! ## The timer -/

theorem idleCallBack_loop_spec (now : UInt64) (fails : ItemPtr → Bool) :
    ∀ (fuel : Nat) {t : IdleTable} {expired : List ItemPtr}, Good t expired expired.length →
      t.destroy_requested = false → t.hqueue.length ≤ fuel →
      (∀ x ∈ expired, (t.items x).Posted) →
      Spec (idleCallBack.loop ops now fails fuel t expired)
        (fun r => Good r.1 r.2 r.2.length ∧ r.1.destroy_requested = false ∧
          ∀ x ∈ r.2, (r.1.items x).Posted) IdleHalt.Benign
  | fuel, t, expired, hg, hd, hlen, hpost => by
    rw [idleCallBack.loop.eq_def]
    split
    · exact ⟨hg, hd, hpost⟩
    · rename_i hq
      rw [hq] at hlen
      exact absurd hlen (by simp)
    · rename_i p rest fuel hq
      have hph : p ∈ t.hqueue := hq ▸ List.mem_cons_self
      have hl := hg.inv.live_of_mem_heap hph
      have hqd := (hg.inv.placed p).queued hph
      have hpe : p ∉ expired := fun hx => ((hg.inv.placed p).held_apart hx).1 hph
      rw [IdleTable.readItem_of_live hl, ok_bind]
      split
      swap
      · exact ⟨hg, hd, hpost⟩
      rw [hqueuePop_eq ops fun _ hx => hg.inv.live_of_mem_heap hx, ok_bind]
      -- popped, the item is held
      have hpop : (ops.pop t.less t.hqueue).Perm rest := by
        rw [hq]
        exact ops.pop_perm _ _ _
      have hg₁ : Good { t with hqueue := ops.pop t.less t.hqueue } (p :: expired) expired.length :=
        ⟨hg.inv.pop_top hq hpop, hg.history.evolve (evolves_of_items rfl rfl rfl) rfl⟩
      have hlen₁ : (ops.pop t.less t.hqueue).length ≤ fuel := by
        rw [hpop.length_eq]
        simpa [hq] using hlen
      have hpost_ne : ∀ {t' : IdleTable}, (∀ x, x ≠ p → t'.items x = t.items x) →
          ∀ x ∈ expired, (t'.items x).Posted := fun hi x hx => by
        rw [hi x fun hxp => hpe (hxp ▸ hx)]
        exact hpost x hx
      split
      · -- removed while queued: freed as it surfaces
        rename_i hr
        rw [IdleTable.memoryFree_of_live (t := { t with hqueue := ops.pop t.less t.hqueue }) hl,
          ok_bind]
        exact idleCallBack_loop_spec now fails fuel
          ⟨hg₁.inv.free_held fun _ => hr, hg₁.history.evolve (evolves_release _ p) rfl⟩ hd hlen₁
          (hpost_ne fun _ _ => rfl)
      · rename_i hr
        have hr' : (t.items p).removed = false := by simpa using hr
        rw [IdleTable.writeItem_of_live (t := { t with hqueue := ops.pop t.less t.hqueue }) hl,
          ok_bind]
        have hg₂ : Good ({ t with hqueue := ops.pop t.less t.hqueue }.setItem p
            { t.items p with worker_message_pending := true }) (p :: expired) expired.length :=
          ⟨hg₁.inv.setItem_held List.mem_cons_self rfl rfl rfl fun h => absurd (hqd.2 ▸ h) (by decide),
            hg₁.history.evolve (evolves_setItem id) rfl⟩
        have hl₂ : ({ t with hqueue := ops.pop t.less t.hqueue }.setItem p
            { t.items p with worker_message_pending := true }).live p = true := hl
        split
        · -- no room to collect it: out of the map and freed at once
          rw [idletableEraseItemFromMapLocked_eq hl₂, ok_bind,
            IdleTable.writeItem_of_live (by simpa using hl₂), ok_bind,
            IdleTable.memoryFree_of_live (by simpa using hl₂), ok_bind]
          have hm := ((hg₂.inv.placed p).held_apart List.mem_cons_self).2
          have hg₃ := hg₂.inv.eraseFromMap hm
          have hg₄ := hg₃.setItem_held List.mem_cons_self (e := { (_ : IdleTable).items p with
            worker_message_pending := false }) rfl rfl rfl fun h => by simp [hqd.2] at h
          refine idleCallBack_loop_spec now fails fuel
            ⟨hg₄.free_held fun _ => by simp, hg₂.history.evolve ?_ (by simp)⟩ (by simpa using hd)
            (by simpa using hlen₁) (hpost_ne fun x hx => by simp [hx])
          exact (evolves_eraseFromMap _ p).trans ((evolves_setItem (fun _ => by simp)).trans
            (evolves_release _ p))
        · -- collected: the message about to be posted holds a reference
          have hg₃ := (hg₂.inv.addPosted (by simpa using hd)).perm_held
            (List.perm_append_singleton p expired).symm
          refine idleCallBack_loop_spec now fails fuel ⟨?_, hg₂.history.evolve
            (evolves_of_items rfl rfl rfl) rfl⟩ (by simpa using hd) (by simpa using hlen₁) ?_
          · simpa using hg₃
          · intro x hx
            rcases List.mem_append.1 hx with hx | hx
            · exact hpost_ne (fun y hy => by simp [hy]) x hx
            · rw [List.mem_singleton.1 hx]
              simp [IdleItem.Posted, hr']

theorem idleCallBack_post_spec (rejects : ItemPtr → Bool) :
    ∀ (l : List ItemPtr) {t : IdleTable}, Good t l l.length → t.destroy_requested = false →
      (∀ x ∈ l, (t.items x).Posted) →
      Spec (idleCallBack.post rejects t l) (fun t' => Good t' [] 0) IdleHalt.Benign
  | [], t, hg, _, _ => hg
  | p :: rest, t, hg, hd, hpost => by
    have hl := hg.inv.live_of_held List.mem_cons_self
    have hnd := List.nodup_cons.1 hg.inv.held_nodup
    rw [idleCallBack.post, IdleTable.readItem_of_live hl, ok_bind]
    dsimp only
    split
    · -- refused at once: the cleanup runs here
      refine Spec.bind (idlePostedCloseMessageCleanup_spec hg) ?_
      rintro t' ⟨hg', -, hitems, hd'⟩
      refine idleCallBack_post_spec rejects rest hg' (hd' ▸ hd) fun x hx => ?_
      rw [hitems x fun hxp => hnd.1 (hxp ▸ hx)]
      exact hpost x (List.mem_cons_of_mem _ hx)
    · exact idleCallBack_post_spec rejects rest ⟨hg.inv.post (hpost p List.mem_cons_self),
        hg.history.evolve (evolves_of_items rfl rfl rfl) rfl⟩ hd
        fun x hx => hpost x (List.mem_cons_of_mem _ hx)

theorem idleCallBack_spec (hg : Good t [] 0) (fails rejects : ItemPtr → Bool) :
    Spec (Shared.idleCallBack ops fails rejects t) (fun t' => Good t' [] 0) IdleHalt.Benign := by
  rw [Shared.idleCallBack]
  cases hd : t.destroy_requested with
  | true => exact hg
  | false =>
    simp only [Bool.false_eq_true, if_false]
    rw [IdleTable.mutexLock_of_storage (hg.inv.storage_of_active hd), ok_bind,
      hqueueMakeHeap_eq ops fun _ hx => hg.inv.live_of_mem_heap hx, ok_bind]
    have hg₁ : Good { t with hqueue := ops.makeHeap t.less t.hqueue } [] ([] : List ItemPtr).length :=
      ⟨hg.inv.requeue (ops.makeHeap_perm _ _), hg.history.evolve (evolves_of_items rfl rfl rfl) rfl⟩
    refine (idleCallBack_loop_spec ops t.now_ms fails _ hg₁ hd (Nat.le_refl _) nofun).bind ?_
    rintro ⟨t₂, expired⟩ ⟨hg₂, hd₂, hpost₂⟩
    exact idleCallBack_post_spec rejects expired hg₂ hd₂ hpost₂

/-! ## The drain -/

/-- The drained items no message holds: the drain frees them itself. -/
def drainHeld : List (ItemPtr × Bool) → List ItemPtr
  | [] => []
  | (p, pending) :: rest => if pending then drainHeld rest else p :: drainHeld rest

@[simp] theorem drainHeld_cons_true (p : ItemPtr) (rest : List (ItemPtr × Bool)) :
    drainHeld ((p, true) :: rest) = drainHeld rest := rfl

@[simp] theorem drainHeld_cons_false (p : ItemPtr) (rest : List (ItemPtr × Bool)) :
    drainHeld ((p, false) :: rest) = p :: drainHeld rest := rfl

theorem mem_drainHeld {x : ItemPtr} :
    ∀ {l : List (ItemPtr × Bool)}, x ∈ drainHeld l ↔ (x, false) ∈ l
  | [] => by simp [drainHeld]
  | (p, true) :: rest => by simp [mem_drainHeld]
  | (p, false) :: rest => by simp [mem_drainHeld]

theorem drainHeld_nodup :
    ∀ {l : List (ItemPtr × Bool)}, (l.map Prod.fst).Nodup → (drainHeld l).Nodup
  | [], _ => List.nodup_nil
  | (p, true) :: rest, h => drainHeld_nodup (l := rest) (List.nodup_cons.1 h).2
  | (p, false) :: rest, h => by
    have h' := List.nodup_cons.1 h
    refine List.nodup_cons.2 ⟨fun hp => h'.1 ?_, drainHeld_nodup h'.2⟩
    exact List.mem_map.2 ⟨_, mem_drainHeld.1 hp, rfl⟩

/-- Under `Mapped` the map lists each item once: its key is the item's hash. -/
theorem Mapped.values_nodup (h : Mapped t) : (t.hmap.entries.map Prod.snd).Nodup := by
  have hkeys := t.hmap.nodup
  have heq : t.hmap.entries.map Prod.fst =
      (t.hmap.entries.map Prod.snd).map fun q => (t.items q).hash := by
    rw [List.map_map]
    exact List.map_congr_left fun e he => (h.map_live e.1 e.2 he).2.2.symm
  rw [heq] at hkeys
  exact hkeys.of_map _

/-- The walks over the map, when it lists live items only. -/
theorem idletableDrainWorkerItems_collect_eq (wid : UInt8) :
    ∀ {l : List (UInt64 × ItemPtr)}, (∀ e ∈ l, t.live e.2 = true) →
      idletableDrainWorkerItems.collect t wid l =
        .ok ((l.filter fun e => !(t.items e.2).removed && (t.items e.2).wid == wid).map
          fun e => (e.2, (t.items e.2).worker_message_pending))
  | [], _ => rfl
  | (k, q) :: rest, h => by
    rw [idletableDrainWorkerItems.collect, IdleTable.readItem_of_live (h _ List.mem_cons_self),
      ok_bind, idletableDrainWorkerItems_collect_eq wid fun e he => h e (List.mem_cons_of_mem _ he),
      ok_bind]
    by_cases hc : (!(t.items q).removed && (t.items q).wid == wid) = true
    · simp [hc, pure, Except.pure]
    · simp [hc, pure, Except.pure]

/-- What the first loop of the drain leaves: the items of `l` out of the map and removed, with
their pending flags, and the rest of the table as it was. -/
structure DrainDetached (t : IdleTable) (l : List (ItemPtr × Bool)) (t' : IdleTable) : Prop where
  good : Good t' [] 0
  evolves : Evolves t t'
  live : t'.live = t.live
  hqueue : t'.hqueue = t.hqueue
  active : t'.destroy_requested = false
  retired : ∀ e ∈ l, (t'.items e.1).removed = true ∧ (t'.items e.1).worker_message_pending = e.2
  frame : ∀ x, x ∉ l.map Prod.fst → t'.items x = t.items x

theorem idletableDrainWorkerItems_detach_spec :
    ∀ (l : List (ItemPtr × Bool)) {t : IdleTable}, Good t [] 0 → t.destroy_requested = false →
      (l.map Prod.fst).Nodup →
      (∀ e ∈ l, t.live e.1 = true ∧ e.2 = (t.items e.1).worker_message_pending) →
      Spec (idletableDrainWorkerItems.detach t l) (DrainDetached t l) IdleHalt.Benign
  | [], t, hg, hd, _, _ => ⟨hg, Evolves.refl t, rfl, rfl, hd, nofun, fun _ _ => rfl⟩
  | (p, pending) :: rest, t, hg, hd, hnd, hl => by
    obtain ⟨hlp, hpp⟩ := hl _ List.mem_cons_self
    have hnd' := List.nodup_cons.1 hnd
    rw [idletableDrainWorkerItems.detach, idletableEraseItemFromMapLocked_eq hlp, ok_bind]
    -- the rest of the walk, from the table left after this item
    have hrest : ∀ t₁ : IdleTable, Good t₁ [] 0 → Evolves t t₁ → t₁.live = t.live →
        t₁.hqueue = t.hqueue → t₁.destroy_requested = false → (t₁.items p).removed = true →
        (t₁.items p).worker_message_pending = pending → (∀ x, x ≠ p → t₁.items x = t.items x) →
        Spec (idletableDrainWorkerItems.detach (t₁.record (.drained p)) rest)
          (DrainDetached t ((p, pending) :: rest)) IdleHalt.Benign := by
      intro t₁ hg₁ he₁ hl₁ hq₁ hd₁ hr₁ hp₁ hf₁
      have hg₂ : Good (t₁.record (.drained p)) [] 0 :=
        ⟨hg₁.inv.record _, hg₁.history.record_retired (.inr rfl)
          (hg₁.inv.live_lt p (hl₁ ▸ hlp)) hr₁⟩
      have hne : ∀ e ∈ rest, e.1 ≠ p := fun e he hep =>
        hnd'.1 (hep ▸ List.mem_map.2 ⟨e, he, rfl⟩)
      refine (idletableDrainWorkerItems_detach_spec rest hg₂ hd₁ hnd'.2 fun e he => ?_).mono
        (fun t' h => ?_) fun _ h => h
      · obtain ⟨hle, hpe⟩ := hl e (List.mem_cons_of_mem _ he)
        refine ⟨by simpa [hl₁] using hle, ?_⟩
        simpa [hf₁ e.1 (hne e he)] using hpe
      · have hp' : t'.items p = t₁.items p := h.frame p hnd'.1
        have her : Evolves t₁ (t₁.record (.drained p)) := evolves_of_items rfl rfl rfl
        refine ⟨h.good, he₁.trans (her.trans h.evolves),
          by simpa [hl₁] using h.live, by simpa [hq₁] using h.hqueue, h.active, ?_, ?_⟩
        · intro e he
          rcases List.mem_cons.1 he with rfl | he
          · exact ⟨hp' ▸ hr₁, hp' ▸ hp₁⟩
          · exact h.retired e he
        · intro x hx
          simp only [List.map_cons, List.mem_cons, not_or] at hx
          rw [h.frame x hx.2]
          exact hf₁ x hx.1
    cases pending with
    | false =>
      -- queued: it stays in the heap until the heap is rebuilt
      have hm : p ∉ t.messages := fun hm => by
        have := ((hg.inv.placed p).posted hm).1
        rw [← hpp] at this
        exact Bool.noConfusion this
      exact hrest _ ⟨hg.inv.eraseFromMap hm, hg.history.evolve (evolves_eraseFromMap t p)
        (by simp)⟩ (evolves_eraseFromMap t p) (by simp) (by simp) (by simpa using hd) (by simp)
        (by simpa using hpp.symm) fun x hx => by simp [hx]
    | true =>
      -- a message holds it: detached, and left to the message
      simp only [if_true]
      rw [IdleTable.writeItem_of_live (by simpa using hlp), ok_bind]
      have he := (evolves_eraseFromMap t p).trans (evolves_setItem (t := t.eraseFromMap p) (p := p)
        (e := { (t.eraseFromMap p).items p with table := false }) id)
      exact hrest _ ⟨hg.inv.eraseFromMap_detach hpp.symm, hg.history.evolve he (by simp)⟩ he
        (by simp) (by simp) (by simpa using hd) (by simp) (by simpa using hpp.symm)
        fun x hx => by simp [hx]

theorem idletableDrainWorkerItems_finish_spec :
    ∀ (l : List (ItemPtr × Bool)) {t : IdleTable}, Good t (drainHeld l) 0 →
      t.destroy_requested = false → (∀ x ∈ drainHeld l, (t.items x).removed = true) →
      Spec (idletableDrainWorkerItems.finish ops cbs t l)
        (fun t' => Good t' [] 0 ∧ t'.destroy_requested = false) IdleHalt.Benign
  | [], _, hg, hd, _ => ⟨hg, hd⟩
  | (p, true) :: rest, t, hg, hd, hr => by
    rw [idletableDrainWorkerItems.finish]
    exact idletableDrainWorkerItems_finish_spec rest hg hd hr
  | (p, false) :: rest, t, hg, hd, hr => by
    rw [drainHeld_cons_false] at hg hr
    have hl := hg.inv.live_of_held List.mem_cons_self
    have hpr := (List.nodup_cons.1 hg.inv.held_nodup).1
    simp only [idletableDrainWorkerItems.finish, Bool.false_eq_true, if_false]
    rw [IdleTable.readItem_of_live hl, ok_bind]
    -- the drain holds `p` through its callback, then frees it
    have hfree : ∀ t₁ : IdleTable, Good t₁ (p :: drainHeld rest) 0 → Evolves t t₁ →
        t₁.destroy_requested = false →
        Spec (do let t ← t₁.memoryFree p; idletableDrainWorkerItems.finish ops cbs t rest)
          (fun t' => Good t' [] 0 ∧ t'.destroy_requested = false) IdleHalt.Benign := by
      intro t₁ hg₁ he₁ hd₁
      have hr₁ : ∀ x ∈ p :: drainHeld rest, (t₁.items x).removed = true := fun x hx =>
        he₁.removed_of_removed x (hg.inv.live_lt x (hg.inv.live_of_held hx))
          (hg₁.inv.live_of_held hx) (hr x hx)
      rw [IdleTable.memoryFree_of_live (hg₁.inv.live_of_held List.mem_cons_self), ok_bind]
      refine idletableDrainWorkerItems_finish_spec rest
        ⟨hg₁.inv.free_held fun _ => hr₁ p List.mem_cons_self,
          hg₁.history.evolve (evolves_release t₁ p) rfl⟩ hd₁ fun x hx => ?_
      have hxp : x ≠ p := fun hxp => hpr (hxp ▸ hx)
      simpa [hxp] using hr₁ x (List.mem_cons_of_mem _ hx)
    split
    · exact Spec.bind (invokeCallback_spec ops cbs hg hd p) fun t₁ ⟨hg₁, he₁, hd₁⟩ =>
        hfree t₁ hg₁ he₁ hd₁
    · rw [pure_bind]
      exact hfree t hg (Evolves.refl t) hd

/-- A drain takes the active items of a worker out of the table: it keeps the invariants. -/
theorem idletableDrainWorkerItems_spec (hg : Good t [] 0) (hd : t.destroy_requested = false)
    (wid : UInt8) :
    Spec (idletableDrainWorkerItems ops cbs t wid)
      (fun t' => Good t' [] 0 ∧ t'.destroy_requested = false) IdleHalt.Benign := by
  have hm := hg.inv.mapped hd
  rw [idletableDrainWorkerItems, IdleTable.mutexLock_of_storage (hg.inv.storage_of_active hd),
    ok_bind, idletableDrainWorkerItems_collect_eq wid fun e he => (hm.map_live e.1 e.2 he).1,
    ok_bind]
  set D := (t.hmap.entries.filter fun e => !(t.items e.2).removed && (t.items e.2).wid == wid).map
    fun e => (e.2, (t.items e.2).worker_message_pending) with hD
  have hmemD : ∀ e ∈ D, t.live e.1 = true ∧ e.2 = (t.items e.1).worker_message_pending := by
    intro e he
    obtain ⟨e', he', rfl⟩ := List.mem_map.1 he
    exact ⟨(hm.map_live e'.1 e'.2 (List.mem_filter.1 he').1).1, rfl⟩
  have hndD : (D.map Prod.fst).Nodup := by
    rw [hD, List.map_map]
    exact (hm.values_nodup.sublist ((List.filter_sublist).map _))
  split
  · exact ⟨hg, hd⟩
  refine Spec.bind (idletableDrainWorkerItems_detach_spec D hg hd hndD hmemD) fun t₁ h₁ => ?_
  rw [IdleTable.readQueued_of_live fun _ hx => h₁.good.inv.live_of_mem_heap hx, ok_bind]
  -- the drained items no message holds are queued: the rebuilt heap leaves them out
  have hdq : ∀ x ∈ drainHeld D, x ∈ t₁.hqueue := by
    intro x hx
    have hxD := mem_drainHeld.1 hx
    have hl₁ : t₁.live x = true := h₁.live ▸ (hmemD _ hxD).1
    have hp₁ := (h₁.retired _ hxD).2
    rcases ((h₁.good.inv.placed x).owned.1 hl₁) with hq | hm' | hh
    · exact hq
    · have := ((h₁.good.inv.placed x).posted hm').1
      rw [hp₁] at this
      exact Bool.noConfusion this
    · cases hh
  have hkeep : ∀ x ∈ t₁.hqueue,
      (!idleItemIsInDrainList x D) = false ↔ x ∈ drainHeld D := by
    intro x hxq
    simp only [idleItemIsInDrainList, Bool.not_eq_false', List.any_eq_true, beq_iff_eq]
    constructor
    · rintro ⟨e, he, rfl⟩
      have hpe := (h₁.retired e he).2
      rw [((h₁.good.inv.placed e.1).queued hxq).1] at hpe
      exact mem_drainHeld.2 (hpe ▸ he)
    · intro hx
      exact ⟨_, mem_drainHeld.1 hx, rfl⟩
  have hi₂ := h₁.good.inv.lift (drainHeld_nodup hndD) hdq hkeep
    (ops.rebuild_perm t₁.less (fun p => !idleItemIsInDrainList p D) t₁.hqueue [])
  exact idletableDrainWorkerItems_finish_spec ops cbs D
    ⟨hi₂, h₁.good.history.evolve (evolves_of_items rfl rfl rfl) rfl⟩ h₁.active
    fun x hx => (h₁.retired _ (mem_drainHeld.1 hx)).1

/-! ## The destroy -/

/-- The walk of the destroy marks every pending item the map lists removed and detached.  Writing
an item twice writes the same, so the order and repetitions of the walk do not matter. -/
theorem idletableDestroy_detachPending_eq :
    ∀ (l : List (UInt64 × ItemPtr)) (t : IdleTable), (∀ e ∈ l, t.live e.2 = true) →
      idletableDestroy.detachPending t l = .ok { t with items := (fun x =>
        if x ∈ l.map Prod.snd ∧ (t.items x).worker_message_pending = true then
          { t.items x with removed := true, table := false }
        else t.items x) }
  | [], t, _ => by simp [idletableDestroy.detachPending, pure, Except.pure]
  | (k, q) :: rest, t, hl => by
    have hlq : t.live q = true := hl _ List.mem_cons_self
    have hrest : ∀ e ∈ rest, t.live e.2 = true := fun e he => hl e (List.mem_cons_of_mem _ he)
    rw [idletableDestroy.detachPending, IdleTable.readItem_of_live hlq, ok_bind]
    dsimp only
    split
    · rename_i hp
      rw [IdleTable.writeItem_of_live hlq, ok_bind,
        idletableDestroy_detachPending_eq rest _ fun e he => by simpa using hrest e he]
      refine congrArg (fun f => Except.ok { t with items := f }) (funext fun x => ?_)
      by_cases hxq : x = q
      · -- written once more by a repeated entry: the same item
        subst hxq
        by_cases hmem : x ∈ rest.map Prod.snd <;> simp [hmem, hp]
      · simp only [IdleTable.setItem_items, Function.update_of_ne hxq, List.map_cons, List.mem_cons, hxq,
          false_or]
    · rename_i hp
      rw [pure_bind, idletableDestroy_detachPending_eq rest t hrest]
      refine congrArg (fun f => Except.ok { t with items := f }) (funext fun x => ?_)
      by_cases hxq : x = q
      · subst hxq
        simp [hp]
      · simp only [List.map_cons, List.mem_cons, hxq, false_or]

/-- The heap loop of the destroy frees every queued item, none of which a message holds. -/
theorem idletableDestroy_loop_eq :
    ∀ (fuel : Nat) (t : IdleTable), t.hqueue.length ≤ fuel → t.hqueue.Nodup →
      (∀ x ∈ t.hqueue, t.live x = true ∧ (t.items x).worker_message_pending = false) →
      idletableDestroy.loop ops fuel t =
        .ok { t with hqueue := [], live := fun x => t.live x && decide (x ∉ t.hqueue) }
  | fuel, t, hlen, hnd, hq => by
    rw [idletableDestroy.loop.eq_def]
    split
    · rename_i hnil
      have ht : t = { t with hqueue := [], live := fun x => t.live x && decide (x ∉ t.hqueue) } := by
        cases t
        simp only at hnil
        subst hnil
        simp
      exact congrArg Except.ok ht
    · rename_i hq'
      rw [hq'] at hlen
      exact absurd hlen (by simp)
    · rename_i p rest fuel hq'
      have hph : p ∈ t.hqueue := hq' ▸ List.mem_cons_self
      have hpop : (ops.pop t.less t.hqueue).Perm rest := by
        rw [hq']
        exact ops.pop_perm _ _ _
      have hnd' : (p :: rest).Nodup := hq' ▸ hnd
      rw [hqueuePop_eq ops fun x hx => (hq x hx).1, ok_bind,
        IdleTable.readItem_of_live (t := { t with hqueue := ops.pop t.less t.hqueue }) (hq p hph).1,
        ok_bind]
      dsimp only
      simp only [(hq p hph).2, Bool.not_false, if_true]
      rw [IdleTable.memoryFree_of_live (t := { t with hqueue := ops.pop t.less t.hqueue })
        (hq p hph).1, ok_bind]
      have hmem : ∀ x, x ∈ ops.pop t.less t.hqueue ↔ x ∈ rest := fun x => hpop.mem_iff
      rw [idletableDestroy_loop_eq fuel _ (show (ops.pop t.less t.hqueue).length ≤ fuel by
          rw [hpop.length_eq]; simpa [hq'] using hlen)
        (hpop.nodup_iff.2 (List.nodup_cons.1 hnd').2) fun x hx => by
          have hxr := (hmem x).1 hx
          have hxp : x ≠ p := fun hxp => (List.nodup_cons.1 hnd').1 (hxp ▸ hxr)
          simpa [hxp] using hq x (hq' ▸ List.mem_cons_of_mem _ hxr)]
      refine congrArg (fun l => Except.ok { t with hqueue := [], live := l }) (funext fun x => ?_)
      by_cases hxp : x = p
      · subst hxp
        simp [hph]
      · simp [hxp, hq']

/-- The destroy keeps the invariants: the queued items are freed, the items the messages hold
are detached, and the storage stays while a message holds it. -/
theorem idletableDestroy_spec (hg : Good t [] 0) (hd : t.destroy_requested = false) :
    Spec (idletableDestroy ops t) (fun t' => Good t' [] 0) IdleHalt.Benign := by
  have hm := hg.inv.mapped hd
  have hs := hg.inv.storage_of_active hd
  rw [idletableDestroy, IdleTable.mutexLock_of_storage hs, ok_bind]
  dsimp only
  rw [idletableDestroy_detachPending_eq _ { t with destroy_requested := true }
    fun e he => (hm.map_live e.1 e.2 he).1, ok_bind]
  have hq : ∀ x ∈ t.hqueue, t.live x = true ∧ (t.items x).worker_message_pending = false :=
    fun x hx => ⟨hg.inv.live_of_mem_heap hx, ((hg.inv.placed x).queued hx).1⟩
  rw [idletableDestroy_loop_eq ops _ _ (Nat.le_refl _) ?hnd ?hq, ok_bind]
  case hnd => exact hg.inv.heap_nodup
  case hq => exact fun x hx => by simpa [(hq x hx).2] using hq x hx
  -- the destroy only frees, and marks removed
  have he : ∀ t' : IdleTable, t'.allocated = t.allocated →
      (∀ x, t'.live x = (t.live x && decide (x ∉ t.hqueue))) →
      (∀ x, t'.items x = if x ∈ t.hmap.entries.map Prod.snd ∧
          (t.items x).worker_message_pending = true then
        { t.items x with removed := true, table := false } else t.items x) →
      Evolves t t' := by
    intro t' ha hl hi
    refine ⟨ha ▸ Nat.le_refl _, fun x _ hx => ?_, fun x _ _ hr => ?_⟩
    · rw [hl, Bool.and_eq_true] at hx
      exact hx.1
    · rw [hi]
      split <;> simp [hr]
  split
  · rename_i hpos
    exact spec_pure ⟨hg.inv.destroy hd (fun _ => rfl) (fun _ => rfl) rfl rfl rfl rfl rfl
      (by simp [hs, hpos]), hg.history.evolve (he _ rfl (fun _ => rfl) fun _ => rfl) rfl⟩
  · -- no message holds the table: it is freed
    rename_i hpos
    rw [idletableFreeResources]
    split
    · exact spec_pure ⟨hg.inv.destroy hd (fun _ => rfl) (fun _ => rfl) rfl rfl rfl rfl rfl
        (by simp [hpos]), hg.history.evolve (he _ rfl (fun _ => rfl) fun _ => rfl) rfl⟩
    · rename_i hs'
      exact absurd hs hs'

/-! ## Runs -/

/-- A worker takes the `i`-th posted message: it holds the message's item and its reference. -/
theorem Good.take_message (hg : Good t [] 0) {i : Nat} (hi : t.messages[i]? = some p) :
    Good { t with messages := t.messages.eraseIdx i } [p] (0 + 1) := by
  obtain ⟨hlt, rfl⟩ := List.getElem?_eq_some_iff.1 hi
  exact ⟨hg.inv.take_message (List.getElem_cons_eraseIdx_perm hlt).symm,
    hg.history.evolve (evolves_of_items rfl rfl rfl) rfl⟩

/-- Every allowed step keeps the invariants, or stops in a way that is not the table's fault. -/
theorem IdleStep.apply_spec (hg : Good t [] 0) (s : IdleStep) (hs : s.Allowed t) :
    Spec (s.apply ops cbs t) (fun t' => Good t' [] 0) IdleHalt.Benign := by
  cases s with
  | call c => exact (IdleCall.run_spec ops hg hs c).mono (fun _ h => h.1) fun _ h => h
  | drainWorkerItems wid =>
    exact (idletableDrainWorkerItems_spec ops cbs hg hs wid).mono (fun _ h => h.1) fun _ h => h
  | idleCallBack fails rejects => exact idleCallBack_spec ops hg fails rejects
  | destroy => exact idletableDestroy_spec ops hg hs
  | closeMessage i now =>
    rw [IdleStep.apply]
    split
    · exact hg
    · rename_i p hp
      exact beforeCloseWorkerMessage_spec ops cbs (hg.take_message hp) now
  | cleanupMessage i =>
    rw [IdleStep.apply]
    split
    · exact hg
    · rename_i p hp
      exact (idlePostedCloseMessageCleanup_spec (hg.take_message hp)).mono (fun _ h => h.1)
        fun _ h => h

theorem good_idleTableCreate (now_ms : UInt64) : Good (idleTableCreate now_ms) [] 0 where
  inv :=
    { live_lt := fun _ h => by simp [idleTableCreate] at h
      placed := fun _ => ⟨by simp [idleTableCreate], nofun, nofun, nofun,
        fun h => by simp [idleTableCreate] at h, fun h => by simp [idleTableCreate] at h⟩
      heap_nodup := List.nodup_nil
      messages_nodup := List.nodup_nil
      held_nodup := List.nodup_nil
      mapped := fun _ => ⟨fun _ _ h => by simp [idleTableCreate] at h,
        fun _ h => by simp [idleTableCreate] at h⟩
      heap_destroyed := fun h => by simp [idleTableCreate] at h
      storage := by simp [idleTableCreate]
      posted := rfl }
  history :=
    { log_lt := fun _ h => by simp [idleTableCreate] at h
      retired := fun _ _ h => by simp [idleTableCreate] at h
      ordered := List.Pairwise.nil }

theorem Good.setNow (hg : Good t [] 0) (now_ms : UInt64) : Good { t with now_ms := now_ms } [] 0 :=
  ⟨hg.inv.congr rfl rfl rfl rfl rfl rfl rfl rfl rfl,
    hg.history.evolve (evolves_of_items rfl rfl rfl) rfl⟩

theorem Reachable.good (r : Reachable ops cbs t) : Good t [] 0 := by
  induction r with
  | create now_ms => exact good_idleTableCreate now_ms
  | step now_ms s _ hs happly ih =>
    exact (IdleStep.apply_spec ops cbs (ih.setNow now_ms) s hs).of_eq_ok happly

/-- Between steps each live item is in the heap or in one posted message, once. -/
theorem Inv.count_owned (h : Inv t [] n) (x : ItemPtr) :
    t.hqueue.count x + t.messages.count x = if t.live x then 1 else 0 := by
  have hx := h.placed x
  cases hl : t.live x with
  | true =>
    rcases hx.owned.1 hl with hq | hm | hh
    · rw [List.count_eq_one_of_mem h.heap_nodup hq,
        List.count_eq_zero_of_not_mem (hx.not_mem_messages_of_heap hq)]
      rfl
    · rw [List.count_eq_zero_of_not_mem fun hq => hx.not_mem_messages_of_heap hq hm,
        List.count_eq_one_of_mem h.messages_nodup hm]
      rfl
    · cases hh
  | false =>
    have hq : x ∉ t.hqueue := fun hq => by simp [hx.live_of_mem_heap hq] at hl
    have hm : x ∉ t.messages := fun hm => by simp [hx.live_of_mem_messages hm] at hl
    simp [List.count_eq_zero_of_not_mem hq, List.count_eq_zero_of_not_mem hm]

/-- Ownership protocol of the idle table shared by the workers, for every table reached by calls
from any thread, drains, timer firings, the destroy, and the running or dropping of posted
messages, whose callbacks make calls. -/
theorem idleTable_ownership (r : Reachable ops cbs t) :
    -- no allowed step faults on an item or on the table
    (∀ now_ms s e, s.Allowed t → IdleStep.apply ops cbs { t with now_ms := now_ms } s = .error e →
      e = .callerUseAfterFree ∨ e = .abort) ∧
    -- each live item is in the heap or in one posted message, once, and all are freed at the end
    (∀ x, t.hqueue.count x + t.messages.count x = if t.live x then 1 else 0) ∧
    (t.destroy_requested = true → t.messages = [] → ∀ x, t.live x = false) ∧
    -- one item per key, and until the destroy only live items not removed, under their hash
    (∀ k x y, (k, x) ∈ t.hmap.entries → (k, y) ∈ t.hmap.entries → x = y) ∧
    (t.destroy_requested = false → ∀ k x, (k, x) ∈ t.hmap.entries →
      t.live x = true ∧ (t.items x).removed = false ∧ (t.items x).hash = k) ∧
    -- no expiration callback after a removal or a drain
    (∀ l₁ l₂ x, t.log = l₁ ++ l₂ → (.removed x ∈ l₁ ∨ .drained x ∈ l₁) → .fired x ∉ l₂) ∧
    -- the count of posted messages, and the storage
    t.posted_messages = t.messages.length ∧
    (t.storage = false ↔ t.destroy_requested = true ∧ t.posted_messages = 0) := by
  have hg := r.good
  refine ⟨fun now_ms s e hs he => ?_, hg.inv.count_owned, fun hd hms x => ?_,
    fun k x y hx hy => HMap.eq_of_mem hx hy, fun hd => (hg.inv.mapped hd).map_live,
    fun l₁ l₂ x hlog hx => hg.history.not_fired_after hlog hx, hg.inv.posted, ?_⟩
  · have hb := (IdleStep.apply_spec ops cbs (hg.setNow now_ms) s hs).of_eq_error he
    cases e <;> simp_all [IdleHalt.Benign]
  · -- after the destroy the heap is empty: a live item would be a message's
    have hx := hg.inv.count_owned x
    rw [hg.inv.heap_destroyed hd, hms] at hx
    cases hl : t.live x with
    | true => simp [hl] at hx
    | false => rfl
  · rw [← Bool.not_eq_true, hg.inv.storage]
    cases t.destroy_requested <;> simp

end Table

/-- A run that destroys the table while a message is posted: two items, due at 5 ms and 100 ms,
the timer firing at 10 ms (which posts the first), then the destroy.  The map still lists the
message's item, removed, and the item the destroy freed. -/
theorem reachable_destroy_posted :
    ∃ t, Reachable PQueue.sorted (fun _ _ => []) t ∧ t.destroy_requested = true ∧
      t.messages ≠ [] ∧ (1, 0) ∈ t.hmap.entries ∧ (t.items 0).removed = true ∧
      (2, 1) ∈ t.hmap.entries ∧ t.live 1 = false := by
  have r₁ : Reachable PQueue.sorted (fun _ _ => []) _ :=
    Reachable.step 0 (.call (.createItem 1 true 0 5)) (.create 0) rfl rfl
  have r₂ := Reachable.step 0 (.call (.createItem 2 true 0 100)) r₁ rfl rfl
  have r₃ := Reachable.step 10 (.idleCallBack (fun _ => false) (fun _ => false)) r₂ trivial rfl
  have r₄ := Reachable.step 10 .destroy r₃ rfl rfl
  exact ⟨_, r₄, by decide, by decide, by decide, by decide, by decide, by decide⟩

/-- The protocol at that run, with the table destroyed and a message still posted. -/
theorem idleTable_ownership_destroyPosted :
    ∃ t, Reachable PQueue.sorted (fun _ _ => []) t ∧ t.destroy_requested = true ∧
      t.messages ≠ [] ∧
      (∀ now_ms s e, s.Allowed t →
        IdleStep.apply PQueue.sorted (fun _ _ => []) { t with now_ms := now_ms } s = .error e →
          e = .callerUseAfterFree ∨ e = .abort) ∧
      (∀ x, t.hqueue.count x + t.messages.count x = if t.live x then 1 else 0) ∧
      (t.destroy_requested = true → t.messages = [] → ∀ x, t.live x = false) ∧
      (∀ k x y, (k, x) ∈ t.hmap.entries → (k, y) ∈ t.hmap.entries → x = y) ∧
      (t.destroy_requested = false → ∀ k x, (k, x) ∈ t.hmap.entries →
        t.live x = true ∧ (t.items x).removed = false ∧ (t.items x).hash = k) ∧
      (∀ l₁ l₂ x, t.log = l₁ ++ l₂ → (.removed x ∈ l₁ ∨ .drained x ∈ l₁) → .fired x ∉ l₂) ∧
      t.posted_messages = t.messages.length ∧
      (t.storage = false ↔ t.destroy_requested = true ∧ t.posted_messages = 0) := by
  obtain ⟨t, r, hd, hm, -⟩ := reachable_destroy_posted
  exact ⟨t, r, hd, hm, idleTable_ownership PQueue.sorted (fun _ _ => []) r⟩

/-- After a destroy that leaves a posted message, the map still lists the message's item, removed,
and an item the destroy freed: two items, one due at 5 ms and one at 100 ms, the timer firing at
10 ms, then the destroy. -/
theorem idleTable_map_after_destroy :
    ∃ t, Reachable PQueue.sorted (fun _ _ => []) t ∧ t.destroy_requested = true ∧
      (1, 0) ∈ t.hmap.entries ∧ (t.items 0).removed = true ∧
      (2, 1) ∈ t.hmap.entries ∧ t.live 1 = false := by
  obtain ⟨t, r, hd, -, h₀, hr, h₁, hl⟩ := reachable_destroy_posted
  exact ⟨t, r, hd, h₀, hr, h₁, hl⟩

end WaterWall.IdleTable.Shared
