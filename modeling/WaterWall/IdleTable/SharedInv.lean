import Mathlib
import WaterWall.IdleTable.Shared

/-!
# Invariants of the shared idle table

Every live item has one owner: the heap, one posted message, or the step that runs now (`held`:
the items a drain or a message has taken out of both and not yet freed or given back).  The flags
say which: a queued item is attached and not pending, an item of a message is pending and
detached once removed, and only such an item is ever detached.  `Placed t held p` says this of one
item, so a step that touches one item re-proves it for that item only (`Placed.frame`).

Until the destroy the map holds exactly the live items not removed, under their hashes
(`Mapped`); after it the heap is empty and every live item is detached.  `posted_messages` counts
the messages queued and those the running step answers for (`n`); the storage is freed exactly
when the destroy came and that count is zero.  `History` says what the log owes to the state, as
in `WaterWall.IdleTable.LocalInv`.
-/

set_option autoImplicit false
set_option linter.dupNamespace false

namespace WaterWall.IdleTable.Shared

open IdleTable

/-- An item in the heap: no message holds it, and it points to the table. -/
def IdleItem.Queued (item : IdleItem) : Prop :=
  item.worker_message_pending = false ∧ item.table = true

/-- An item a posted message holds: pending, and detached once it is removed. -/
def IdleItem.Posted (item : IdleItem) : Prop :=
  item.worker_message_pending = true ∧ (item.removed = true → item.table = false)

/-- Only a removed item a message holds is detached. -/
def IdleItem.Detached (item : IdleItem) : Prop :=
  item.table = false → item.removed = true ∧ item.worker_message_pending = true

/-- The flags the ownership reads. -/
def IdleItem.flags (item : IdleItem) : Bool × Bool × Bool :=
  (item.removed, item.table, item.worker_message_pending)

/-- Where the item `p` is and what its flags say, with `held` the items of the running step. -/
structure Placed (t : IdleTable) (held : List ItemPtr) (p : ItemPtr) : Prop where
  owned : t.live p = true ↔ p ∈ t.hqueue ∨ p ∈ t.messages ∨ p ∈ held
  held_apart : p ∈ held → p ∉ t.hqueue ∧ p ∉ t.messages
  queued : p ∈ t.hqueue → (t.items p).Queued
  posted : p ∈ t.messages → (t.items p).Posted
  detached : t.live p = true → (t.items p).Detached
  destroyed : t.destroy_requested = true → t.live p = true → (t.items p).table = false

/-- Until the destroy, the map holds the live items not removed, each under its hash. -/
structure Mapped (t : IdleTable) : Prop where
  map_live : ∀ k p, (k, p) ∈ t.hmap.entries →
    t.live p = true ∧ (t.items p).removed = false ∧ (t.items p).hash = k
  map_complete : ∀ p, t.live p = true → (t.items p).removed = false →
    ((t.items p).hash, p) ∈ t.hmap.entries

/-- The memory, the owners, the map, the storage and the message count agree, while the running
step holds `held` and answers for `n` posted messages. -/
structure Inv (t : IdleTable) (held : List ItemPtr) (n : Nat) : Prop where
  live_lt : ∀ p, t.live p = true → p < t.allocated
  placed : ∀ p, Placed t held p
  heap_nodup : t.hqueue.Nodup
  messages_nodup : t.messages.Nodup
  held_nodup : held.Nodup
  mapped : t.destroy_requested = false → Mapped t
  heap_destroyed : t.destroy_requested = true → t.hqueue = []
  storage : t.storage = true ↔ (t.destroy_requested = false ∨ 0 < t.posted_messages)
  posted : t.posted_messages = t.messages.length + n

/-- What the log's order must respect: no item's expiration callback runs after it was removed
or drained. -/
def IdleEvent.Precedes : IdleEvent → IdleEvent → Prop
  | .removed p, .fired q => p ≠ q
  | .drained p, .fired q => p ≠ q
  | _, _ => True

/-- What the log owes to the state. -/
structure History (t : IdleTable) : Prop where
  log_lt : ∀ ev ∈ t.log, ev.item < t.allocated
  retired : ∀ p, (.removed p ∈ t.log ∨ .drained p ∈ t.log) → t.live p = true →
    (t.items p).removed = true
  ordered : t.log.Pairwise IdleEvent.Precedes

/-- Both invariants. -/
structure Good (t : IdleTable) (held : List ItemPtr) (n : Nat) : Prop where
  inv : Inv t held n
  history : History t

/-- `t'` moves the items of `t` forward only: an old address is live, and removed, in `t'` only if
it was live, and if removed, in `t`. -/
structure Evolves (t t' : IdleTable) : Prop where
  allocated_le : t.allocated ≤ t'.allocated
  live_of_live : ∀ p, p < t.allocated → t'.live p = true → t.live p = true
  removed_of_removed : ∀ p, p < t.allocated → t'.live p = true → (t.items p).removed = true →
    (t'.items p).removed = true

/-- What `idletableEraseItemFromMapLocked` does to a live item: drop the map's entry for its hash
if the entry is the item, and mark it removed. -/
def IdleTable.eraseFromMap (t : IdleTable) (p : ItemPtr) : IdleTable :=
  (if t.hmap.find (t.items p).hash = some p then { t with hmap := t.hmap.erase (t.items p).hash }
    else t).setItem p { t.items p with removed := true }

/-- `idleItemSetTable(item, NULL)`. -/
def IdleTable.detach (t : IdleTable) (p : ItemPtr) : IdleTable :=
  t.setItem p { t.items p with table := false }

variable {t t' t'' : IdleTable} {held held' : List ItemPtr} {n : Nat} {p : ItemPtr}

/-! ## One item at a time -/

theorem IdleItem.queued_of_flags {a b : IdleItem} (h : a.flags = b.flags) (hb : b.Queued) :
    a.Queued := by
  simp only [IdleItem.flags, Prod.mk.injEq] at h
  simpa [IdleItem.Queued, h.2.1, h.2.2] using hb

theorem IdleItem.posted_of_flags {a b : IdleItem} (h : a.flags = b.flags) (hb : b.Posted) :
    a.Posted := by
  simp only [IdleItem.flags, Prod.mk.injEq] at h
  simpa [IdleItem.Posted, h.1, h.2.1, h.2.2] using hb

theorem IdleItem.detached_of_flags {a b : IdleItem} (h : a.flags = b.flags) (hb : b.Detached) :
    a.Detached := by
  simp only [IdleItem.flags, Prod.mk.injEq] at h
  simpa [IdleItem.Detached, h.1, h.2.1, h.2.2] using hb

/-- An item whose flags, liveness and owners are unchanged stays placed. -/
theorem Placed.frame (h : Placed t held p) (hl : t'.live p = t.live p)
    (hf : (t'.items p).flags = (t.items p).flags) (hq : p ∈ t'.hqueue ↔ p ∈ t.hqueue)
    (hm : p ∈ t'.messages ↔ p ∈ t.messages) (hh : p ∈ held' ↔ p ∈ held)
    (hd : t'.destroy_requested = t.destroy_requested) : Placed t' held' p where
  owned := by rw [hl, hq, hm, hh]; exact h.owned
  held_apart hp := by rw [hq, hm]; exact h.held_apart (hh.1 hp)
  queued hp := IdleItem.queued_of_flags hf (h.queued (hq.1 hp))
  posted hp := IdleItem.posted_of_flags hf (h.posted (hm.1 hp))
  detached hp := IdleItem.detached_of_flags hf (h.detached (hl ▸ hp))
  destroyed hd' hp := by
    have htab := h.destroyed (hd ▸ hd') (hl ▸ hp)
    simp only [IdleItem.flags, Prod.mk.injEq] at hf
    rw [hf.2.1, htab]

theorem Placed.live_of_held (h : Placed t held p) (hp : p ∈ held) : t.live p = true :=
  h.owned.2 (.inr (.inr hp))

theorem Placed.live_of_mem_heap (h : Placed t held p) (hp : p ∈ t.hqueue) : t.live p = true :=
  h.owned.2 (.inl hp)

theorem Placed.live_of_mem_messages (h : Placed t held p) (hp : p ∈ t.messages) :
    t.live p = true :=
  h.owned.2 (.inr (.inl hp))

theorem Placed.not_mem_messages_of_heap (h : Placed t held p) (hp : p ∈ t.hqueue) :
    p ∉ t.messages := fun hm => by
  have h₁ := (h.queued hp).1
  have h₂ := (h.posted hm).1
  rw [h₁] at h₂
  exact Bool.false_ne_true h₂

theorem Inv.live_of_mem_heap (h : Inv t held n) (hp : p ∈ t.hqueue) : t.live p = true :=
  (h.placed p).live_of_mem_heap hp

theorem Inv.live_of_mem_messages (h : Inv t held n) (hp : p ∈ t.messages) : t.live p = true :=
  (h.placed p).live_of_mem_messages hp

theorem Inv.live_of_held (h : Inv t held n) (hp : p ∈ held) : t.live p = true :=
  (h.placed p).live_of_held hp

theorem Inv.ne_of_live {q : ItemPtr} (h : Inv t held n) (hq : t.live q = true) :
    q ≠ t.allocated :=
  Nat.ne_of_lt (h.live_lt q hq)

theorem Inv.storage_of_active (h : Inv t held n) (hd : t.destroy_requested = false) :
    t.storage = true :=
  h.storage.2 (.inl hd)

/-- While the running step answers for a message, the storage is there. -/
theorem Inv.storage_of_pos (h : Inv t held (n + 1)) : t.storage = true :=
  h.storage.2 (.inr (by rw [h.posted]; exact Nat.succ_pos _))

/-! ## Updates that keep the owners -/

theorem Mapped.congr (h : Mapped t) (hl : t'.live = t.live) (hi : t'.items = t.items)
    (hm : t'.hmap = t.hmap) : Mapped t' where
  map_live k q hk := by
    rw [hl, hi]
    exact h.map_live k q (hm ▸ hk)
  map_complete q hq hr := by
    rw [hm]
    rw [hi] at hr ⊢
    exact h.map_complete q (hl ▸ hq) hr

/-- The invariant reads only the memory, the owners, the map and the counts. -/
theorem Inv.congr (h : Inv t held n) (hl : t'.live = t.live) (hi : t'.items = t.items)
    (ha : t'.allocated = t.allocated) (hq : t'.hqueue = t.hqueue) (hm : t'.hmap = t.hmap)
    (hms : t'.messages = t.messages) (hp : t'.posted_messages = t.posted_messages)
    (hd : t'.destroy_requested = t.destroy_requested) (hs : t'.storage = t.storage) :
    Inv t' held n where
  live_lt q hq' := ha ▸ h.live_lt q (hl ▸ hq')
  placed q := (h.placed q).frame (by rw [hl]) (by rw [hi]) (by rw [hq]) (by rw [hms]) Iff.rfl hd
  heap_nodup := hq ▸ h.heap_nodup
  messages_nodup := hms ▸ h.messages_nodup
  held_nodup := h.held_nodup
  mapped hd' := (h.mapped (hd ▸ hd')).congr hl hi hm
  heap_destroyed hd' := hq ▸ h.heap_destroyed (hd ▸ hd')
  storage := by rw [hs, hd, hp]; exact h.storage
  posted := by rw [hp, hms]; exact h.posted

theorem Inv.record (h : Inv t held n) (ev : IdleEvent) : Inv (t.record ev) held n :=
  h.congr rfl rfl rfl rfl rfl rfl rfl rfl rfl

theorem Inv.perm_held (h : Inv t held n) (hp : held.Perm held') : Inv t held' n :=
  { h with
    placed := fun q => (h.placed q).frame rfl rfl Iff.rfl Iff.rfl hp.symm.mem_iff rfl
    held_nodup := hp.nodup_iff.1 h.held_nodup }

theorem Mapped.setItem (h : Mapped t) {item : IdleItem} (hr : item.removed = (t.items p).removed)
    (hh : item.hash = (t.items p).hash) : Mapped (t.setItem p item) where
  map_live k q hq := by
    obtain ⟨hlq, hrq, hhq⟩ := h.map_live k q hq
    by_cases hqp : q = p
    · subst hqp
      simp [hr, hh, hlq, hrq, hhq]
    · simp [hqp, hlq, hrq, hhq]
  map_complete q hlq hrq := by
    by_cases hqp : q = p
    · subst hqp
      simp only [setItem_items, Function.update_self, hh] at hrq ⊢
      exact h.map_complete q hlq (hr ▸ hrq)
    · simp only [setItem_items, Function.update_of_ne hqp] at hrq ⊢
      exact h.map_complete q hlq hrq

/-- Writing an item without changing whether it is removed or its hash keeps the invariant once
the item is placed again. -/
theorem Inv.setItem (h : Inv t held n) {item : IdleItem} (hp : Placed (t.setItem p item) held p)
    (hr : item.removed = (t.items p).removed) (hh : item.hash = (t.items p).hash) :
    Inv (t.setItem p item) held n where
  live_lt := h.live_lt
  placed q := by
    by_cases hqp : q = p
    · exact hqp ▸ hp
    · exact (h.placed q).frame rfl (by simp [hqp]) Iff.rfl Iff.rfl Iff.rfl rfl
  heap_nodup := h.heap_nodup
  messages_nodup := h.messages_nodup
  held_nodup := h.held_nodup
  mapped hd := (h.mapped hd).setItem hr hh
  heap_destroyed := h.heap_destroyed
  storage := h.storage
  posted := h.posted

theorem Inv.setItem_flags (h : Inv t held n) {item : IdleItem}
    (hf : item.flags = (t.items p).flags) (hh : item.hash = (t.items p).hash) :
    Inv (t.setItem p item) held n := by
  refine h.setItem ((h.placed p).frame rfl (by simpa using hf) Iff.rfl Iff.rfl Iff.rfl rfl) ?_ hh
  simp only [IdleItem.flags, Prod.mk.injEq] at hf
  exact hf.1

/-! ## The map -/

/-- Under `Mapped`, erasing an item from the map drops its entry and no other. -/
theorem Mapped.mem_eraseFromMap (h : Mapped t) {k : UInt64} {q : ItemPtr} :
    (k, q) ∈ (t.eraseFromMap p).hmap.entries ↔ (k, q) ∈ t.hmap.entries ∧ q ≠ p := by
  rw [IdleTable.eraseFromMap]
  split
  · rename_i hf
    simp only [setItem_hmap, HMap.mem_erase, ne_eq]
    constructor
    · rintro ⟨hk, hne⟩
      refine ⟨hk, fun hqp => hne ?_⟩
      rw [← (h.map_live k q hk).2.2, hqp]
    · rintro ⟨hk, hqp⟩
      refine ⟨hk, fun hkp => hqp ?_⟩
      rw [hkp] at hk
      exact HMap.eq_of_mem hk (HMap.find_eq_some_iff.1 hf)
  · rename_i hf
    simp only [setItem_hmap]
    refine ⟨fun hk => ⟨hk, fun hqp => hf ?_⟩, fun hk => hk.1⟩
    subst hqp
    rw [HMap.find_eq_some_iff, (h.map_live k q hk).2.2]
    exact hk

@[simp] theorem eraseFromMap_items (t : IdleTable) (p : ItemPtr) :
    (t.eraseFromMap p).items = Function.update t.items p { t.items p with removed := true } := by
  rw [IdleTable.eraseFromMap]
  split <;> rfl

@[simp] theorem eraseFromMap_live (t : IdleTable) (p : ItemPtr) :
    (t.eraseFromMap p).live = t.live := by
  rw [IdleTable.eraseFromMap]
  split <;> rfl

theorem eraseFromMap_eq_congr (t : IdleTable) (p : ItemPtr) :
    t.eraseFromMap p = { t.eraseFromMap p with
      live := t.live, allocated := t.allocated, hqueue := t.hqueue, messages := t.messages,
      posted_messages := t.posted_messages, destroy_requested := t.destroy_requested,
      storage := t.storage, log := t.log } := by
  rw [IdleTable.eraseFromMap]
  split <;> rfl

@[simp] theorem eraseFromMap_allocated (t : IdleTable) (p : ItemPtr) :
    (t.eraseFromMap p).allocated = t.allocated := by
  rw [eraseFromMap_eq_congr]

@[simp] theorem eraseFromMap_hqueue (t : IdleTable) (p : ItemPtr) :
    (t.eraseFromMap p).hqueue = t.hqueue := by
  rw [eraseFromMap_eq_congr]

@[simp] theorem eraseFromMap_messages (t : IdleTable) (p : ItemPtr) :
    (t.eraseFromMap p).messages = t.messages := by
  rw [eraseFromMap_eq_congr]

@[simp] theorem eraseFromMap_posted_messages (t : IdleTable) (p : ItemPtr) :
    (t.eraseFromMap p).posted_messages = t.posted_messages := by
  rw [eraseFromMap_eq_congr]

@[simp] theorem eraseFromMap_destroy_requested (t : IdleTable) (p : ItemPtr) :
    (t.eraseFromMap p).destroy_requested = t.destroy_requested := by
  rw [eraseFromMap_eq_congr]

@[simp] theorem eraseFromMap_storage (t : IdleTable) (p : ItemPtr) :
    (t.eraseFromMap p).storage = t.storage := by
  rw [eraseFromMap_eq_congr]

@[simp] theorem eraseFromMap_log (t : IdleTable) (p : ItemPtr) :
    (t.eraseFromMap p).log = t.log := by
  rw [eraseFromMap_eq_congr]

theorem Mapped.eraseFromMap (h : Mapped t) : Mapped (t.eraseFromMap p) where
  map_live k q hq := by
    obtain ⟨hk, hqp⟩ := h.mem_eraseFromMap.1 hq
    obtain ⟨hlq, hrq, hhq⟩ := h.map_live k q hk
    simp [hqp, hlq, hrq, hhq]
  map_complete q hlq hrq := by
    have hqp : q ≠ p := by
      rintro rfl
      simp at hrq
    simp only [eraseFromMap_items, eraseFromMap_live, Function.update_of_ne hqp] at hlq hrq ⊢
    exact h.mem_eraseFromMap.2 ⟨h.map_complete q hlq hrq, hqp⟩

/-- Erasing an item no message holds from the map keeps the invariant. -/
theorem Inv.eraseFromMap (h : Inv t held n) (hm : p ∉ t.messages) :
    Inv (t.eraseFromMap p) held n where
  live_lt q hq := by simpa using h.live_lt q (by simpa using hq)
  placed q := by
    by_cases hqp : q = p
    · subst hqp
      have hq := h.placed q
      refine ⟨by simpa using hq.owned, by simpa using hq.held_apart, fun hq' => ?_,
        fun hq' => absurd (by simpa using hq') hm, fun hl htab => ?_, fun hd hl => ?_⟩
      · simpa [IdleItem.Queued] using hq.queued (by simpa using hq')
      · simpa [IdleItem.Detached] using
          (hq.detached (by simpa using hl) (by simpa using htab)).2
      · simpa using hq.destroyed (by simpa using hd) (by simpa using hl)
    · exact (h.placed q).frame (by simp) (by simp [hqp]) (by simp) (by simp) Iff.rfl (by simp)
  heap_nodup := by simpa using h.heap_nodup
  messages_nodup := by simpa using h.messages_nodup
  held_nodup := h.held_nodup
  mapped hd := (h.mapped (by simpa using hd)).eraseFromMap
  heap_destroyed hd := by simpa using h.heap_destroyed (by simpa using hd)
  storage := by simpa using h.storage
  posted := by simpa using h.posted

/-- Erasing a pending item from the map and detaching it, as a removal does while a message
holds the item, keeps the invariant. -/
theorem Inv.eraseFromMap_detach (h : Inv t held n) (hp : (t.items p).worker_message_pending = true) :
    Inv ((t.eraseFromMap p).detach p) held n where
  live_lt q hq := by simpa [IdleTable.detach] using h.live_lt q (by simpa [IdleTable.detach] using hq)
  placed q := by
    by_cases hqp : q = p
    · subst hqp
      have hq := h.placed q
      refine ⟨by simpa [IdleTable.detach] using hq.owned,
        by simpa [IdleTable.detach] using hq.held_apart, fun hq' => ?_, fun _ => ?_,
        fun _ _ => ?_, fun _ _ => by simp [IdleTable.detach]⟩
      · have := (hq.queued (by simpa [IdleTable.detach] using hq')).1
        rw [hp] at this
        exact Bool.noConfusion this
      · simp [IdleItem.Posted, IdleTable.detach, hp]
      · simp [IdleTable.detach, hp]
    · exact (h.placed q).frame (by simp [IdleTable.detach])
        (by simp [IdleTable.detach, hqp]) (by simp [IdleTable.detach])
        (by simp [IdleTable.detach]) Iff.rfl (by simp [IdleTable.detach])
  heap_nodup := by simpa [IdleTable.detach] using h.heap_nodup
  messages_nodup := by simpa [IdleTable.detach] using h.messages_nodup
  held_nodup := h.held_nodup
  mapped hd := by
    have hm := (h.mapped (by simpa [IdleTable.detach] using hd)).eraseFromMap (p := p)
    exact hm.setItem rfl rfl
  heap_destroyed hd := by
    simpa [IdleTable.detach] using h.heap_destroyed (by simpa [IdleTable.detach] using hd)
  storage := by simpa [IdleTable.detach] using h.storage
  posted := by simpa [IdleTable.detach] using h.posted

/-! ## Allocation -/

/-- A new item for a key the map does not hold goes into the map and the heap. -/
theorem Inv.create (h : Inv t held n) {item : IdleItem} (hr : item.removed = false)
    (hqd : item.Queued) (hd : t.destroy_requested = false) (hf : t.hmap.find item.hash = none)
    {q : List ItemPtr} (hq : q.Perm (t.hqueue ++ [t.allocated])) :
    Inv { t with items := Function.update t.items t.allocated item
                 live := Function.update t.live t.allocated true
                 allocated := t.allocated + 1
                 hmap := (t.hmap.insert item.hash t.allocated).1
                 hqueue := q } held n where
  live_lt x hx := by
    show x < t.allocated + 1
    by_cases hxa : x = t.allocated
    · exact hxa ▸ Nat.lt_succ_self _
    · exact Nat.lt_succ_of_lt (h.live_lt x (by simpa [hxa] using hx))
  placed x := by
    by_cases hxa : x = t.allocated
    · subst hxa
      have hheld : t.allocated ∉ held := fun hx => h.ne_of_live (h.live_of_held hx) rfl
      have hmsg : t.allocated ∉ t.messages := fun hx => h.ne_of_live (h.live_of_mem_messages hx) rfl
      refine ⟨by simp [hq.mem_iff], fun hx => absurd hx hheld, fun _ => by simpa using hqd,
        fun hx => absurd hx hmsg, fun _ htab => ?_, fun hd' => absurd (hd ▸ hd') (by decide)⟩
      simp only [Function.update_self] at htab
      rw [hqd.2] at htab
      exact Bool.noConfusion htab
    · refine (h.placed x).frame (by simp [hxa]) (by simp [hxa]) ?_ Iff.rfl Iff.rfl rfl
      simp [hq.mem_iff, hxa]
  heap_nodup := by
    refine hq.nodup_iff.2 (List.nodup_append.2 ⟨h.heap_nodup, List.nodup_singleton _, ?_⟩)
    intro a ha b hb hab
    rw [List.mem_singleton] at hb
    exact h.ne_of_live (h.live_of_mem_heap ha) (hab.trans hb)
  messages_nodup := h.messages_nodup
  held_nodup := h.held_nodup
  mapped _ := by
    have hm := h.mapped hd
    refine ⟨fun k x hx => ?_, fun x hlx hrx => ?_⟩
    · simp only [(HMap.insert_of_find_none hf).2, List.mem_append, List.mem_singleton,
        Prod.mk.injEq] at hx
      rcases hx with hx | ⟨rfl, rfl⟩
      · obtain ⟨hlx, hrx, hhx⟩ := hm.map_live k x hx
        have hxa := h.ne_of_live hlx
        simp [hxa, hlx, hrx, hhx]
      · simp [hr]
    · simp only [(HMap.insert_of_find_none hf).2, List.mem_append, List.mem_singleton,
        Prod.mk.injEq]
      by_cases hxa : x = t.allocated
      · subst hxa
        simp
      · simp only [Function.update_of_ne hxa] at hlx hrx ⊢
        exact .inl (hm.map_complete x hlx hrx)
  heap_destroyed hd' := absurd (hd ▸ hd') (by decide)
  storage := h.storage
  posted := h.posted

theorem Inv.create_rejected (h : Inv t held n) (item : IdleItem) :
    Inv ((t.memoryAllocate item).1.release t.allocated) held n where
  live_lt x hx := by
    by_cases hxa : x = t.allocated
    · subst hxa
      simp at hx
    · exact Nat.lt_succ_of_lt (h.live_lt x (by simpa [IdleTable.memoryAllocate, hxa] using hx))
  placed x := by
    by_cases hxa : x = t.allocated
    · subst hxa
      have hfresh : ∀ {l : List ItemPtr}, (∀ y ∈ l, t.live y = true) → t.allocated ∉ l :=
        fun hl hx => h.ne_of_live (hl _ hx) rfl
      refine ⟨?_, fun hx => absurd hx (hfresh fun _ => h.live_of_held), fun hx => ?_,
        fun hx => ?_, fun hx => by simp at hx, fun _ hx => by simp at hx⟩
      · simp only [release_live, Function.update_self, Bool.false_eq_true, false_iff, not_or]
        exact ⟨hfresh fun _ => h.live_of_mem_heap, hfresh fun _ => h.live_of_mem_messages,
          hfresh fun _ => h.live_of_held⟩
      · exact absurd hx (hfresh fun _ => h.live_of_mem_heap)
      · exact absurd hx (hfresh fun _ => h.live_of_mem_messages)
    · exact (h.placed x).frame (by simp [IdleTable.memoryAllocate, hxa]) (by simp [IdleTable.memoryAllocate, hxa])
        Iff.rfl Iff.rfl Iff.rfl rfl
  heap_nodup := h.heap_nodup
  messages_nodup := h.messages_nodup
  held_nodup := h.held_nodup
  mapped hd := by
    have hm := h.mapped hd
    refine ⟨fun k x hx => ?_, fun x hlx hrx => ?_⟩
    · obtain ⟨hlx, hrx, hhx⟩ := hm.map_live k x hx
      have hxa := h.ne_of_live hlx
      simp [IdleTable.memoryAllocate, hxa, hlx, hrx, hhx]
    · by_cases hxa : x = t.allocated
      · subst hxa
        simp at hlx
      · simp only [IdleTable.memoryAllocate, release_items, release_live, Function.update_of_ne hxa]
          at hlx hrx ⊢
        exact hm.map_complete x hlx hrx
  heap_destroyed := h.heap_destroyed
  storage := h.storage
  posted := h.posted

/-! ## Moving items between the owners -/

theorem Inv.requeue (h : Inv t held n) {q : List ItemPtr} (hq : q.Perm t.hqueue) :
    Inv { t with hqueue := q } held n where
  live_lt := h.live_lt
  placed x := (h.placed x).frame rfl rfl hq.mem_iff Iff.rfl Iff.rfl rfl
  heap_nodup := hq.nodup_iff.2 h.heap_nodup
  messages_nodup := h.messages_nodup
  held_nodup := h.held_nodup
  mapped hd := (h.mapped hd).congr rfl rfl rfl
  heap_destroyed hd := by
    rw [h.heap_destroyed hd] at hq
    exact List.Perm.eq_nil hq
  storage := h.storage
  posted := h.posted

theorem Inv.pop_top (h : Inv t held n) {rest : List ItemPtr} (hq : t.hqueue = p :: rest)
    {q : List ItemPtr} (hq' : q.Perm rest) : Inv { t with hqueue := q } (p :: held) n := by
  have hnd : (p :: rest).Nodup := hq ▸ h.heap_nodup
  have hph : p ∈ t.hqueue := hq ▸ List.mem_cons_self
  have hpq : p ∉ q := fun hp => (List.nodup_cons.1 hnd).1 (hq'.mem_iff.1 hp)
  have hd : t.destroy_requested = false := by
    cases hd : t.destroy_requested with
    | false => rfl
    | true => simp [h.heap_destroyed hd] at hq
  refine ⟨h.live_lt, fun x => ?_, hq'.nodup_iff.2 (List.nodup_cons.1 hnd).2, h.messages_nodup,
    List.nodup_cons.2 ⟨fun hp => ((h.placed p).held_apart hp).1 hph, h.held_nodup⟩,
    fun hd' => (h.mapped hd').congr rfl rfl rfl, fun hd' => absurd (hd ▸ hd') (by decide), h.storage, h.posted⟩
  by_cases hxp : x = p
  · subst hxp
    have hx := h.placed x
    exact ⟨by simp [hx.live_of_mem_heap hph], fun _ => ⟨hpq, hx.not_mem_messages_of_heap hph⟩,
      fun hx' => absurd hx' hpq, hx.posted, hx.detached, hx.destroyed⟩
  · refine (h.placed x).frame rfl rfl ?_ Iff.rfl (by simp [hxp]) rfl
    rw [hq'.mem_iff, hq]
    simp [hxp]

theorem Inv.push_held (h : Inv t (p :: held) n) (hqd : (t.items p).Queued)
    (hd : t.destroy_requested = false) {q : List ItemPtr} (hq : q.Perm (t.hqueue ++ [p])) :
    Inv { t with hqueue := q } held n := by
  have happ := (h.placed p).held_apart List.mem_cons_self
  have hnd := List.nodup_cons.1 h.held_nodup
  refine ⟨h.live_lt, fun x => ?_, ?_, h.messages_nodup, hnd.2,
    fun hd' => (h.mapped hd').congr rfl rfl rfl, fun hd' => absurd (hd ▸ hd') (by decide), h.storage, h.posted⟩
  · by_cases hxp : x = p
    · subst hxp
      have hx := h.placed x
      refine ⟨?_, fun hx' => absurd hx' hnd.1, fun _ => hqd, fun hx' => absurd hx' happ.2,
        hx.detached, fun hd' => absurd (hd ▸ hd') (by decide)⟩
      simp [hq.mem_iff, hx.live_of_held List.mem_cons_self]
    · refine (h.placed x).frame rfl rfl ?_ Iff.rfl (by simp [hxp]) rfl
      simp [hq.mem_iff, hxp]
  · refine hq.nodup_iff.2 (List.nodup_append.2 ⟨h.heap_nodup, List.nodup_singleton _, ?_⟩)
    intro a ha b hb hab
    rw [List.mem_singleton] at hb
    exact happ.1 (hb ▸ hab ▸ ha)

/-- A held item is freed; until the destroy it must be out of the map, so removed. -/
theorem Inv.free_held (h : Inv t (p :: held) n)
    (hr : t.destroy_requested = false → (t.items p).removed = true) :
    Inv (t.release p) held n := by
  have happ := (h.placed p).held_apart List.mem_cons_self
  have hnd := List.nodup_cons.1 h.held_nodup
  refine ⟨fun x hx => h.live_lt x ?_, fun x => ?_, h.heap_nodup, h.messages_nodup, hnd.2,
    fun hd => ?_, h.heap_destroyed, h.storage, h.posted⟩
  · by_cases hxp : x = p
    · subst hxp
      simp at hx
    · simpa [hxp] using hx
  · by_cases hxp : x = p
    · subst hxp
      refine ⟨?_, fun hx => absurd hx hnd.1, fun hx => absurd hx happ.1,
        fun hx => absurd hx happ.2, fun hx => by simp at hx, fun _ hx => by simp at hx⟩
      simp [happ.1, happ.2, hnd.1]
    · exact (h.placed x).frame (by simp [hxp]) rfl Iff.rfl Iff.rfl (by simp [hxp]) rfl
  · have hm := h.mapped hd
    refine ⟨fun k x hx => ?_, fun x hlx hrx => ?_⟩
    · obtain ⟨hlx, hrx, hhx⟩ := hm.map_live k x hx
      have hxp : x ≠ p := by
        rintro rfl
        rw [hr hd] at hrx
        exact Bool.noConfusion hrx
      simp [hxp, hlx, hrx, hhx]
    · have hxp : x ≠ p := by
        rintro rfl
        simp at hlx
      exact hm.map_complete x (by simpa [hxp] using hlx) hrx

/-- A write to a held item that keeps its hash, whether it is removed and whether it is
attached, and leaves a detached item pending. -/
theorem Inv.setItem_held (h : Inv t held n) (hp : p ∈ held) {e : IdleItem}
    (hr : e.removed = (t.items p).removed) (hh : e.hash = (t.items p).hash)
    (htab : e.table = (t.items p).table)
    (hpend : e.table = false → e.worker_message_pending = true) :
    Inv (t.setItem p e) held n := by
  have hx := h.placed p
  refine h.setItem ⟨by simpa using hx.owned, by simpa using hx.held_apart,
    fun hq => absurd hq (hx.held_apart hp).1, fun hm => absurd hm (hx.held_apart hp).2,
    fun _ hdt => ?_, fun hd hl => ?_⟩ hr hh
  · simp only [setItem_items, Function.update_self] at hdt ⊢
    refine ⟨?_, hpend hdt⟩
    rw [hr]
    exact (hx.detached (hx.live_of_held hp) (htab ▸ hdt)).1
  · simpa [htab] using hx.destroyed hd hl

/-- A held item becomes a posted message. -/
theorem Inv.post {rest : List ItemPtr} (h : Inv t (p :: rest) (n + 1))
    (hpost : (t.items p).Posted) :
    Inv { t with messages := t.messages ++ [p] } rest n := by
  have happ := (h.placed p).held_apart List.mem_cons_self
  have hnd := List.nodup_cons.1 h.held_nodup
  refine ⟨h.live_lt, fun x => ?_, h.heap_nodup, ?_, hnd.2,
    fun hd => (h.mapped hd).congr rfl rfl rfl, h.heap_destroyed, h.storage, ?_⟩
  · by_cases hxp : x = p
    · subst hxp
      have hx := h.placed x
      refine ⟨?_, fun hx' => absurd hx' hnd.1, hx.queued, fun _ => hpost, hx.detached,
        hx.destroyed⟩
      simp [hx.live_of_held List.mem_cons_self]
    · exact (h.placed x).frame rfl rfl Iff.rfl (by simp [hxp]) (by simp [hxp]) rfl
  · refine List.nodup_append.2 ⟨h.messages_nodup, List.nodup_singleton _, ?_⟩
    intro a ha b hb hab
    rw [List.mem_singleton] at hb
    exact happ.2 (hb ▸ hab ▸ ha)
  · rw [h.posted, List.length_append, List.length_singleton]
    omega

/-- A posted message taken off the queue: the step holds its item and answers for it. -/
theorem Inv.take_message (h : Inv t held n) {ms : List ItemPtr} (hm : t.messages.Perm (p :: ms)) :
    Inv { t with messages := ms } (p :: held) (n + 1) := by
  have hnd : (p :: ms).Nodup := hm.nodup_iff.1 h.messages_nodup
  have hpm : p ∈ t.messages := hm.mem_iff.2 List.mem_cons_self
  have hx := h.placed p
  have hph : p ∉ held := fun hp => (hx.held_apart hp).2 hpm
  refine ⟨h.live_lt, fun x => ?_, h.heap_nodup, (List.nodup_cons.1 hnd).2,
    List.nodup_cons.2 ⟨hph, h.held_nodup⟩, fun hd => (h.mapped hd).congr rfl rfl rfl,
    h.heap_destroyed, h.storage, ?_⟩
  · by_cases hxp : x = p
    · subst hxp
      have hxq : x ∉ t.hqueue := fun hq => hx.not_mem_messages_of_heap hq hpm
      exact ⟨by simp [hx.live_of_mem_messages hpm],
        fun _ => ⟨hxq, (List.nodup_cons.1 hnd).1⟩, fun hq => absurd hq hxq,
        fun hm' => absurd hm' (List.nodup_cons.1 hnd).1, hx.detached, hx.destroyed⟩
    · refine (h.placed x).frame rfl rfl Iff.rfl ?_ (by simp [hxp]) rfl
      rw [hm.mem_iff]
      simp [hxp]
  · show t.posted_messages = ms.length + (n + 1)
    rw [h.posted, hm.length_eq, List.length_cons]
    omega

/-- The step takes a reference for a message it is about to post. -/
theorem Inv.addPosted (h : Inv t held n) (hd : t.destroy_requested = false) :
    Inv { t with posted_messages := t.posted_messages + 1 } held (n + 1) where
  live_lt := h.live_lt
  placed x := (h.placed x).frame rfl rfl Iff.rfl Iff.rfl Iff.rfl rfl
  heap_nodup := h.heap_nodup
  messages_nodup := h.messages_nodup
  held_nodup := h.held_nodup
  mapped hd' := (h.mapped hd').congr rfl rfl rfl
  heap_destroyed := h.heap_destroyed
  storage := by
    simp only [h.storage_of_active hd, true_iff]
    exact .inl hd
  posted := by
    show t.posted_messages + 1 = t.messages.length + (n + 1)
    rw [h.posted]
    omega

/-- A live item that is detached or removed is removed. -/
theorem Inv.removed_of_inactive (h : Inv t held n) (hl : t.live p = true)
    (hi : (!(t.items p).table || (t.items p).removed) = true) : (t.items p).removed = true := by
  cases htab : (t.items p).table with
  | false => exact ((h.placed p).detached hl htab).1
  | true => simpa [htab] using hi

/-- The step gives up a message's reference while the table stays. -/
theorem Inv.unpost (h : Inv t held (n + 1))
    (hs : t.destroy_requested = false ∨ 0 < t.posted_messages - 1) :
    Inv { t with posted_messages := t.posted_messages - 1 } held n where
  live_lt := h.live_lt
  placed x := (h.placed x).frame rfl rfl Iff.rfl Iff.rfl Iff.rfl rfl
  heap_nodup := h.heap_nodup
  messages_nodup := h.messages_nodup
  held_nodup := h.held_nodup
  mapped hd := (h.mapped hd).congr rfl rfl rfl
  heap_destroyed := h.heap_destroyed
  storage := by
    simp only [h.storage_of_pos, true_iff]
    exact hs
  posted := by
    show t.posted_messages - 1 = t.messages.length + n
    rw [h.posted]
    omega

/-- The last message's reference after the destroy: the storage goes with it. -/
theorem Inv.unpost_free (h : Inv t held (n + 1)) (hd : t.destroy_requested = true)
    (h0 : t.posted_messages - 1 = 0) :
    Inv { t with posted_messages := t.posted_messages - 1, storage := false } held n where
  live_lt := h.live_lt
  placed x := (h.placed x).frame rfl rfl Iff.rfl Iff.rfl Iff.rfl rfl
  heap_nodup := h.heap_nodup
  messages_nodup := h.messages_nodup
  held_nodup := h.held_nodup
  mapped hd' := absurd (hd ▸ hd') (by decide)
  heap_destroyed := h.heap_destroyed
  storage := by
    show false = true ↔ t.destroy_requested = false ∨ 0 < t.posted_messages - 1
    rw [hd, h0]
    decide
  posted := by
    show t.posted_messages - 1 = t.messages.length + n
    rw [h.posted]
    omega

/-- A drain lifts its items `d`, none of which a message holds, out of the heap: it holds them. -/
theorem Inv.lift (h : Inv t [] n) {d : List ItemPtr} (hd : d.Nodup)
    (hdq : ∀ x ∈ d, x ∈ t.hqueue) {keep : ItemPtr → Bool}
    (hkeep : ∀ x ∈ t.hqueue, keep x = false ↔ x ∈ d) {q : List ItemPtr}
    (hq : q.Perm (t.hqueue.filter keep)) : Inv { t with hqueue := q } d n := by
  have hmem : ∀ x, x ∈ q ↔ x ∈ t.hqueue ∧ keep x = true := fun x => by
    rw [hq.mem_iff, List.mem_filter]
  refine ⟨h.live_lt, fun x => ⟨?_, fun hx => ⟨?_, ?_⟩, fun hx => ?_, (h.placed x).posted,
    (h.placed x).detached, (h.placed x).destroyed⟩, hq.nodup_iff.2 (h.heap_nodup.filter _),
    h.messages_nodup, hd, fun hd' => (h.mapped hd').congr rfl rfl rfl, fun hd' => ?_, h.storage,
    h.posted⟩
  · rw [(h.placed x).owned, hmem]
    by_cases hxq : x ∈ t.hqueue
    · cases hk : keep x with
      | true => simp [hxq]
      | false => simp [hxq, (hkeep x hxq).1 hk]
    · have hxd : x ∉ d := fun hx => hxq (hdq x hx)
      simp [hxq, hxd]
  · rw [hmem]
    rintro ⟨hxq, hk⟩
    rw [(hkeep x hxq).2 hx] at hk
    exact Bool.noConfusion hk
  · exact (h.placed x).not_mem_messages_of_heap (hdq x hx)
  · exact (h.placed x).queued ((hmem x).1 hx).1
  · have hnil := h.heap_destroyed hd'
    rw [hnil] at hq
    exact List.Perm.eq_nil hq

/-! ## Moving forward -/

theorem Evolves.refl (t : IdleTable) : Evolves t t where
  allocated_le := Nat.le_refl _
  live_of_live _ _ h := h
  removed_of_removed _ _ _ h := h

theorem Evolves.trans (h₁ : Evolves t t') (h₂ : Evolves t' t'') : Evolves t t'' where
  allocated_le := Nat.le_trans h₁.allocated_le h₂.allocated_le
  live_of_live q hq hl :=
    h₁.live_of_live q hq (h₂.live_of_live q (Nat.lt_of_lt_of_le hq h₁.allocated_le) hl)
  removed_of_removed q hq hl hr := by
    have hq' := Nat.lt_of_lt_of_le hq h₁.allocated_le
    exact h₂.removed_of_removed q hq' hl
      (h₁.removed_of_removed q hq (h₂.live_of_live q hq' hl) hr)

theorem evolves_of_items (hl : t'.live = t.live) (hi : t'.items = t.items)
    (ha : t'.allocated = t.allocated) : Evolves t t' where
  allocated_le := ha ▸ Nat.le_refl _
  live_of_live _ _ h := hl ▸ h
  removed_of_removed _ _ _ h := hi ▸ h

theorem evolves_release (t : IdleTable) (p : ItemPtr) : Evolves t (t.release p) where
  allocated_le := Nat.le_refl _
  live_of_live q _ h := by
    by_cases hq : q = p
    · subst hq
      simp at h
    · simpa [hq] using h
  removed_of_removed _ _ _ h := h

theorem evolves_memoryAllocate (t : IdleTable) (item : IdleItem) :
    Evolves t (t.memoryAllocate item).1 where
  allocated_le := Nat.le_succ _
  live_of_live q hq h := by
    simpa [IdleTable.memoryAllocate, Nat.ne_of_lt hq] using h
  removed_of_removed q hq _ h := by
    simpa [IdleTable.memoryAllocate, Nat.ne_of_lt hq] using h

/-- Replacing an item by one at least as removed. -/
theorem evolves_setItem {e : IdleItem}
    (hr : (t.items p).removed = true → e.removed = true) : Evolves t (t.setItem p e) where
  allocated_le := Nat.le_refl _
  live_of_live _ _ h := h
  removed_of_removed q _ _ h := by
    by_cases hq : q = p
    · subst hq
      simpa using hr h
    · simpa [hq] using h

theorem evolves_eraseFromMap (t : IdleTable) (p : ItemPtr) : Evolves t (t.eraseFromMap p) where
  allocated_le := by simp
  live_of_live _ _ h := by simpa using h
  removed_of_removed q _ _ h := by
    by_cases hq : q = p
    · subst hq
      simp
    · simpa [hq] using h

/-! ## The log -/

/-- A step that moves the items forward and leaves the log keeps the history. -/
theorem History.evolve (h : History t) (he : Evolves t t') (hlog : t'.log = t.log) :
    History t' where
  log_lt ev hev := Nat.lt_of_lt_of_le (h.log_lt ev (hlog ▸ hev)) he.allocated_le
  retired q hq hl := by
    rw [hlog] at hq
    have hlt : q < t.allocated := by
      rcases hq with hq | hq
      · exact h.log_lt _ hq
      · exact h.log_lt _ hq
    exact he.removed_of_removed q hlt hl (h.retired q hq (he.live_of_live q hlt hl))
  ordered := hlog ▸ h.ordered

theorem precedes_retired (ev : IdleEvent) {ev' : IdleEvent} {p : ItemPtr}
    (hev : ev' = .removed p ∨ ev' = .drained p) : ev.Precedes ev' := by
  rcases hev with rfl | rfl <;> cases ev <;> trivial

/-- Logging that a removed item was removed, or drained. -/
theorem History.record_retired (h : History t) {ev : IdleEvent}
    (hev : ev = .removed p ∨ ev = .drained p) (hp : p < t.allocated)
    (hr : (t.items p).removed = true) : History (t.record ev) where
  log_lt ev' hev' := by
    rcases List.mem_append.1 hev' with hev' | hev'
    · exact h.log_lt ev' hev'
    · rw [List.mem_singleton.1 hev']
      rcases hev with rfl | rfl <;> exact hp
  retired q hq hl := by
    simp only [record_log, List.mem_append, List.mem_singleton] at hq
    rcases hq with (hq | hq) | (hq | hq)
    · exact h.retired q (.inl hq) hl
    · rcases hev with rfl | rfl <;> simp_all
    · exact h.retired q (.inr hq) hl
    · rcases hev with rfl | rfl <;> simp_all
  ordered := by
    rw [record_log, List.pairwise_append]
    refine ⟨h.ordered, List.pairwise_singleton _ _, fun a _ b hb => ?_⟩
    rw [List.mem_singleton.1 hb]
    exact precedes_retired a hev

/-- Logging that the callback of a live item not removed runs. -/
theorem History.record_fired (h : History t) (hl : t.live p = true)
    (hr : (t.items p).removed = false) (hp : p < t.allocated) : History (t.record (.fired p)) where
  log_lt ev hev := by
    rcases List.mem_append.1 hev with hev | hev
    · exact h.log_lt ev hev
    · rw [List.mem_singleton.1 hev]
      exact hp
  retired q hq hl' := by
    simp only [record_log, List.mem_append, List.mem_singleton, reduceCtorEq, or_false] at hq
    exact h.retired q hq hl'
  ordered := by
    rw [record_log, List.pairwise_append]
    refine ⟨h.ordered, List.pairwise_singleton _ _, fun a ha b hb => ?_⟩
    rw [List.mem_singleton.1 hb]
    -- an item removed or drained earlier would be removed now
    cases a with
    | fired q => trivial
    | removed q =>
      rintro rfl
      simp [h.retired q (.inl ha) hl] at hr
    | drained q =>
      rintro rfl
      simp [h.retired q (.inr ha) hl] at hr

theorem History.not_fired_after (h : History t) {l₁ l₂ : List IdleEvent}
    (hlog : t.log = l₁ ++ l₂) (hx : .removed p ∈ l₁ ∨ .drained p ∈ l₁) : .fired p ∉ l₂ := by
  have hord := h.ordered
  rw [hlog, List.pairwise_append] at hord
  intro hf
  rcases hx with hx | hx
  · exact hord.2.2 _ hx _ hf rfl
  · exact hord.2.2 _ hx _ hf rfl

/-! ## The destroy -/

/-- The table `idletableDestroy` leaves: the queued items freed, every item a message holds that
the map still lists detached and removed, and the storage kept for the messages if there are
any. -/
theorem Inv.destroy (h : Inv t [] 0) (hd : t.destroy_requested = false) {t' : IdleTable}
    (hl : ∀ x, t'.live x = (t.live x && decide (x ∉ t.hqueue)))
    (hi : ∀ x, t'.items x =
      if x ∈ t.hmap.entries.map Prod.snd ∧ (t.items x).worker_message_pending = true then
        { t.items x with removed := true, table := false }
      else t.items x)
    (ha : t'.allocated = t.allocated) (hq : t'.hqueue = []) (hms : t'.messages = t.messages)
    (hp : t'.posted_messages = t.posted_messages) (hd' : t'.destroy_requested = true)
    (hs : t'.storage = decide (0 < t.posted_messages)) : Inv t' [] 0 := by
  have hm := h.mapped hd
  -- a live item that outlives the destroy is a message's
  have hlive : ∀ x, t'.live x = true ↔ x ∈ t.messages := fun x => by
    rw [hl, Bool.and_eq_true, decide_eq_true_eq, (h.placed x).owned]
    constructor
    · rintro ⟨hx | hx | hx, hxq⟩
      · exact absurd hx hxq
      · exact hx
      · cases hx
    · intro hx
      exact ⟨.inr (.inl hx), fun hxq => (h.placed x).not_mem_messages_of_heap hxq hx⟩
  -- what the destroy leaves of the flags of such an item
  have hflags : ∀ x, x ∈ t.messages → (t'.items x).worker_message_pending = true ∧
      (t'.items x).table = false ∧ ((t'.items x).removed = true → (t'.items x).table = false) ∧
      ((t'.items x).table = false → (t'.items x).removed = true) := fun x hx => by
    have hpost := (h.placed x).posted hx
    rw [hi x]
    split
    · simp [hpost.1]
    · rename_i hnot
      -- not in the map: it was removed earlier, and then detached
      have hr : (t.items x).removed = true := by
        cases hr : (t.items x).removed with
        | true => rfl
        | false =>
          have hmem := hm.map_complete x ((h.placed x).live_of_mem_messages hx) hr
          exact absurd ⟨List.mem_map.2 ⟨_, hmem, rfl⟩, hpost.1⟩ hnot
      have htab := hpost.2 hr
      exact ⟨hpost.1, htab, fun _ => htab, fun _ => hr⟩
  refine ⟨fun x hx => ha ▸ h.live_lt x ?_, fun x => ⟨?_, nofun, ?_, ?_, ?_, ?_⟩,
    hq ▸ List.nodup_nil, hms ▸ h.messages_nodup, List.nodup_nil, fun hd'' => ?_, fun _ => hq,
    ?_, ?_⟩
  · rw [hl, Bool.and_eq_true] at hx
    exact hx.1
  · rw [hlive, hq, hms]
    simp
  · intro hx
    rw [hq] at hx
    cases hx
  · intro hx
    rw [hms] at hx
    obtain ⟨h₁, -, h₃, -⟩ := hflags x hx
    exact ⟨h₁, h₃⟩
  · intro hx htab
    obtain ⟨h₁, -, -, h₄⟩ := hflags x ((hlive x).1 hx)
    exact ⟨h₄ htab, h₁⟩
  · intro _ hx
    exact (hflags x ((hlive x).1 hx)).2.1
  · rw [hd'] at hd''
    exact absurd hd'' (by decide)
  · rw [hs, hd', hp]
    simp
  · rw [hp, hms, h.posted]

end WaterWall.IdleTable.Shared
