import Mathlib
import WaterWall.IdleTable.Local

/-!
# Invariants of the worker-local idle table

Between two operations every live item is queued in the heap exactly once, and the map holds
exactly the live items that are not removed, under their hashes.  While the firing loop or a drain
holds an item `out` outside the heap and runs its callback, the same holds of every item but
`out`.  `Inv t out` says this of the memory, the heap and the map.

`History t out` says what the log owes to the state: a removed or drained item that is still live
stays removed, and an item that has fired and is still active has an expiry later than the time it
fired, but for the item whose callback is running, which fired at the current time.  From that,
`History.record_fired` shows the log's order is kept when an item fires again.

Most steps only move the items forward: they never revive a freed item, unremove a removed one or
lower an expiry.  `Evolves t t'` is that, and `History.evolve` carries the history over any such
step, so each step's own lemma only deals with `Inv`.
-/

set_option autoImplicit false

namespace WaterWall.IdleTable

open LocalIdleTable

/-- What the log's order must respect: no item fires after it was removed or drained, and an item
fires again only for an expiry later than the time it last fired. -/
def LocalIdleEvent.Precedes : LocalIdleEvent → LocalIdleEvent → Prop
  | .removed p, .fired q _ _ => p ≠ q
  | .drained p, .fired q _ _ => p ≠ q
  | .fired p _ n, .fired q e _ => p = q → n < e
  | _, _ => True

/-- The memory, the heap and the map agree, with `out` held outside the heap. -/
structure Inv (t : LocalIdleTable) (out : Option ItemPtr) : Prop where
  live_lt : ∀ p, t.live p → p < t.allocated
  map_live : ∀ k p, (k, p) ∈ t.hmap.entries →
    t.live p ∧ (t.items p).removed = false ∧ (t.items p).hash = k
  map_complete : ∀ p, t.live p → (t.items p).removed = false →
    ((t.items p).hash, p) ∈ t.hmap.entries
  heap_nodup : t.hqueue.Nodup
  mem_heap : ∀ p, p ∈ t.hqueue ↔ t.live p ∧ out ≠ some p
  out_live : ∀ p, out = some p → t.live p

/-- What the log owes to the state. -/
structure History (t : LocalIdleTable) (out : Option ItemPtr) : Prop where
  log_lt : ∀ ev ∈ t.log, ev.item < t.allocated
  fired_le : ∀ p e n, .fired p e n ∈ t.log → e ≤ n
  retired : ∀ p, (.removed p ∈ t.log ∨ .drained p ∈ t.log) → t.live p →
    (t.items p).removed = true
  fired_future : ∀ p e n, .fired p e n ∈ t.log → t.live p → (t.items p).removed = false →
    n < (t.items p).expire_at_ms ∨ (out = some p ∧ n = t.now_ms)
  ordered : t.log.Pairwise LocalIdleEvent.Precedes

/-- Both invariants. -/
structure Good (t : LocalIdleTable) (out : Option ItemPtr) : Prop where
  inv : Inv t out
  history : History t out

/-- `t'` moves the items of `t` forward only: the time stays, and an old address is live, removed
and late in `t'` only if it was live, and if removed or that late in `t`. -/
structure Evolves (t t' : LocalIdleTable) : Prop where
  now_eq : t'.now_ms = t.now_ms
  allocated_le : t.allocated ≤ t'.allocated
  live_of_live : ∀ p, p < t.allocated → t'.live p → t.live p
  removed_of_removed : ∀ p, p < t.allocated → t'.live p → (t.items p).removed = true →
    (t'.items p).removed = true
  expire_le : ∀ p, p < t.allocated → t'.live p →
    (t.items p).expire_at_ms ≤ (t'.items p).expire_at_ms

variable {t t' t'' : LocalIdleTable} {out : Option ItemPtr} {p : ItemPtr}

/-! ## Moving forward -/

theorem Evolves.refl (t : LocalIdleTable) : Evolves t t where
  now_eq := rfl
  allocated_le := Nat.le_refl _
  live_of_live _ _ h := h
  removed_of_removed _ _ _ h := h
  expire_le _ _ _ := UInt64.le_refl _

theorem Evolves.trans (h₁ : Evolves t t') (h₂ : Evolves t' t'') : Evolves t t'' where
  now_eq := h₂.now_eq.trans h₁.now_eq
  allocated_le := Nat.le_trans h₁.allocated_le h₂.allocated_le
  live_of_live q hq hl :=
    h₁.live_of_live q hq (h₂.live_of_live q (Nat.lt_of_lt_of_le hq h₁.allocated_le) hl)
  removed_of_removed q hq hl hr := by
    have hq' := Nat.lt_of_lt_of_le hq h₁.allocated_le
    exact h₂.removed_of_removed q hq' hl
      (h₁.removed_of_removed q hq (h₂.live_of_live q hq' hl) hr)
  expire_le q hq hl := by
    have hq' := Nat.lt_of_lt_of_le hq h₁.allocated_le
    exact UInt64.le_trans (h₁.expire_le q hq (h₂.live_of_live q hq' hl))
      (h₂.expire_le q hq' hl)

/-- A step that only touches the heap, the map, the log or the callback count moves nothing. -/
theorem evolves_of_items (hl : t'.live = t.live) (hi : t'.items = t.items)
    (ha : t'.allocated = t.allocated) (hn : t'.now_ms = t.now_ms) : Evolves t t' where
  now_eq := hn
  allocated_le := ha ▸ Nat.le_refl _
  live_of_live _ _ h := hl ▸ h
  removed_of_removed _ _ _ h := hi ▸ h
  expire_le _ _ _ := hi ▸ UInt64.le_refl _

theorem evolves_release (t : LocalIdleTable) (p : ItemPtr) : Evolves t (t.release p) where
  now_eq := rfl
  allocated_le := Nat.le_refl _
  live_of_live q _ h := by
    by_cases hq : q = p
    · subst hq
      simp at h
    · simpa [hq] using h
  removed_of_removed _ _ _ h := h
  expire_le _ _ _ := UInt64.le_refl _

theorem evolves_record (t : LocalIdleTable) (ev : LocalIdleEvent) : Evolves t (t.record ev) :=
  evolves_of_items rfl rfl rfl rfl

theorem evolves_memoryAllocate (t : LocalIdleTable) (item : LocalIdleItem) :
    Evolves t (memoryAllocate t item).1 where
  now_eq := rfl
  allocated_le := Nat.le_succ _
  live_of_live q hq h := by
    simpa [memoryAllocate, Nat.ne_of_lt hq] using h
  removed_of_removed q hq _ h := by
    simpa [memoryAllocate, Nat.ne_of_lt hq] using h
  expire_le q hq _ := by
    simp [memoryAllocate, Nat.ne_of_lt hq]

/-- Replacing an item by one as removed and as late. -/
theorem evolves_setItem {item : LocalIdleItem}
    (hr : (t.items p).removed = true → item.removed = true)
    (he : (t.items p).expire_at_ms ≤ item.expire_at_ms) : Evolves t (t.setItem p item) where
  now_eq := rfl
  allocated_le := Nat.le_refl _
  live_of_live _ _ h := h
  removed_of_removed q _ _ h := by
    by_cases hq : q = p
    · subst hq
      simpa using hr h
    · simpa [hq] using h
  expire_le q _ _ := by
    by_cases hq : q = p
    · subst hq
      simpa using he
    · simp [hq]

/-- A step that moves the items forward and leaves the log keeps the history. -/
theorem History.evolve (h : History t out) (he : Evolves t t') (hlog : t'.log = t.log) :
    History t' out where
  log_lt ev hev := Nat.lt_of_lt_of_le (h.log_lt ev (hlog ▸ hev)) he.allocated_le
  fired_le q e n hq := h.fired_le q e n (hlog ▸ hq)
  retired q hq hl := by
    rw [hlog] at hq
    have hlt : q < t.allocated := by
      rcases hq with hq | hq
      · exact h.log_lt _ hq
      · exact h.log_lt _ hq
    exact he.removed_of_removed q hlt hl (h.retired q hq (he.live_of_live q hlt hl))
  fired_future q e n hq hl hr := by
    rw [hlog] at hq
    have hlt : q < t.allocated := h.log_lt _ hq
    have hl₀ := he.live_of_live q hlt hl
    have hr₀ : (t.items q).removed = false := by
      cases h' : (t.items q).removed with
      | false => rfl
      | true => simp [he.removed_of_removed q hlt hl h'] at hr
    rcases h.fired_future q e n hq hl₀ hr₀ with h' | ⟨hout, hn⟩
    · exact .inl (UInt64.lt_of_lt_of_le h' (he.expire_le q hlt hl))
    · exact .inr ⟨hout, hn.trans he.now_eq.symm⟩
  ordered := hlog ▸ h.ordered

/-! ## The log -/

/-- With no item held outside the heap, the history holds for any item held. -/
theorem History.hold (h : History t none) : History t out where
  log_lt := h.log_lt
  fired_le := h.fired_le
  retired := h.retired
  fired_future q e n hq hl hr := by
    rcases h.fired_future q e n hq hl hr with h' | ⟨hout, _⟩
    · exact .inl h'
    · cases hout
  ordered := h.ordered

/-- The item held outside the heap goes back with an expiry after the current time. -/
theorem History.unhold (h : History t (some p)) (hlt : t.now_ms < (t.items p).expire_at_ms) :
    History t none where
  log_lt := h.log_lt
  fired_le := h.fired_le
  retired := h.retired
  fired_future q e n hq hl hr := by
    rcases h.fired_future q e n hq hl hr with h' | ⟨hout, hn⟩
    · exact .inl h'
    · cases hout
      exact .inl (hn ▸ hlt)
  ordered := h.ordered

theorem History.unhold_freed (h : History t (some p)) (hl : t.live p = false) : History t none where
  log_lt := h.log_lt
  fired_le := h.fired_le
  retired := h.retired
  fired_future q e n hq hlq hr := by
    rcases h.fired_future q e n hq hlq hr with h' | ⟨hout, _⟩
    · exact .inl h'
    · cases hout
      simp [hl] at hlq
  ordered := h.ordered

theorem History.setNow (h : History t none) (now_ms : UInt64) :
    History { t with now_ms := now_ms } none where
  log_lt := h.log_lt
  fired_le := h.fired_le
  retired := h.retired
  fired_future q e n hq hl hr := by
    rcases h.fired_future q e n hq hl hr with h' | ⟨hout, _⟩
    · exact .inl h'
    · cases hout
  ordered := h.ordered

theorem precedes_removed (ev : LocalIdleEvent) (p : ItemPtr) :
    ev.Precedes (.removed p) := by
  cases ev <;> trivial

theorem precedes_drained (ev : LocalIdleEvent) (p : ItemPtr) :
    ev.Precedes (.drained p) := by
  cases ev <;> trivial

/-- Logging that a removed item was removed, or drained. -/
theorem History.record_retired (h : History t out) {ev : LocalIdleEvent}
    (hev : ev = .removed p ∨ ev = .drained p) (hp : p < t.allocated)
    (hr : (t.items p).removed = true) : History (t.record ev) out where
  log_lt ev' hev' := by
    rcases List.mem_append.1 hev' with hev' | hev'
    · exact h.log_lt ev' hev'
    · rw [List.mem_singleton.1 hev']
      rcases hev with rfl | rfl <;> exact hp
  fired_le q e n hq := by
    rcases List.mem_append.1 hq with hq | hq
    · exact h.fired_le q e n hq
    · rcases hev with rfl | rfl <;> simp at hq
  retired q hq hl := by
    simp only [record_log, List.mem_append, List.mem_singleton] at hq
    rcases hq with (hq | hq) | (hq | hq)
    · exact h.retired q (.inl hq) hl
    · rcases hev with rfl | rfl <;> simp_all
    · exact h.retired q (.inr hq) hl
    · rcases hev with rfl | rfl <;> simp_all
  fired_future q e n hq hl hr' := by
    rcases List.mem_append.1 hq with hq | hq
    · exact h.fired_future q e n hq hl hr'
    · rcases hev with rfl | rfl <;> simp at hq
  ordered := by
    rw [record_log, List.pairwise_append]
    refine ⟨h.ordered, List.pairwise_singleton _ _, fun a _ b hb => ?_⟩
    rw [List.mem_singleton.1 hb]
    rcases hev with rfl | rfl
    · exact precedes_removed a p
    · exact precedes_drained a p

/-- Logging that an active item fires at the current time, its expiry reached: from then on the
item is held outside the heap. -/
theorem History.record_fired (h : History t none) (hl : t.live p)
    (hr : (t.items p).removed = false) (he : (t.items p).expire_at_ms ≤ t.now_ms)
    (hp : p < t.allocated) :
    History (t.record (.fired p (t.items p).expire_at_ms t.now_ms)) (some p) where
  log_lt ev hev := by
    rcases List.mem_append.1 hev with hev | hev
    · exact h.log_lt ev hev
    · rw [List.mem_singleton.1 hev]
      exact hp
  fired_le q e n hq := by
    rcases List.mem_append.1 hq with hq | hq
    · exact h.fired_le q e n hq
    · simp only [List.mem_singleton, LocalIdleEvent.fired.injEq] at hq
      obtain ⟨rfl, rfl, rfl⟩ := hq
      exact he
  retired q hq hl' := by
    simp only [record_log, List.mem_append, List.mem_singleton, reduceCtorEq, or_false] at hq
    exact h.retired q hq hl'
  fired_future q e n hq hl' hr' := by
    rcases List.mem_append.1 hq with hq | hq
    · rcases h.fired_future q e n hq hl' hr' with h' | ⟨hout, _⟩
      · exact .inl h'
      · cases hout
    · simp only [List.mem_singleton, LocalIdleEvent.fired.injEq] at hq
      obtain ⟨rfl, rfl, rfl⟩ := hq
      exact .inr ⟨rfl, rfl⟩
  ordered := by
    rw [record_log, List.pairwise_append]
    refine ⟨h.ordered, List.pairwise_singleton _ _, fun a ha b hb => ?_⟩
    rw [List.mem_singleton.1 hb]
    cases a with
    | fired q e n =>
      rintro rfl
      rcases h.fired_future q e n ha hl hr with h' | ⟨hout, _⟩
      · exact h'
      · cases hout
    | removed q =>
      rintro rfl
      simp [h.retired q (.inl ha) hl] at hr
    | drained q =>
      rintro rfl
      simp [h.retired q (.inr ha) hl] at hr

theorem History.not_fired_after (h : History t out) {l₁ l₂ : List LocalIdleEvent}
    (hlog : t.log = l₁ ++ l₂) (hx : .removed p ∈ l₁ ∨ .drained p ∈ l₁) (e n : UInt64) :
    .fired p e n ∉ l₂ := by
  have hord := h.ordered
  rw [hlog, List.pairwise_append] at hord
  intro hf
  rcases hx with hx | hx
  · exact hord.2.2 _ hx _ hf rfl
  · exact hord.2.2 _ hx _ hf rfl

/-- An item fires again only for a later expiry, after the time it fired at. -/
theorem History.fired_later (h : History t out) {l₁ l₂ : List LocalIdleEvent}
    (hlog : t.log = l₁ ++ l₂) {e n e' n' : UInt64} (h₁ : .fired p e n ∈ l₁)
    (h₂ : .fired p e' n' ∈ l₂) : e < e' ∧ n < e' := by
  have hord := h.ordered
  rw [hlog, List.pairwise_append] at hord
  have hn : n < e' := hord.2.2 _ h₁ _ h₂ rfl
  have he : e ≤ n := h.fired_le p e n (hlog ▸ List.mem_append_left _ h₁)
  exact ⟨UInt64.lt_of_le_of_lt he hn, hn⟩

/-! ## The memory, the heap and the map -/

/-- What `localidletableEraseItemFromMap` does to an item the map holds: drop its entry and mark
it removed. -/
def LocalIdleTable.retire (t : LocalIdleTable) (p : ItemPtr) : LocalIdleTable :=
  { t with hmap := t.hmap.erase (t.items p).hash }.setItem p { t.items p with removed := true }

theorem Inv.live_of_mem_heap (h : Inv t out) {q : ItemPtr} (hq : q ∈ t.hqueue) : t.live q :=
  ((h.mem_heap q).1 hq).1

theorem Inv.ne_of_live {q : ItemPtr} (h : Inv t out) (hq : t.live q) : q ≠ t.allocated :=
  Nat.ne_of_lt (h.live_lt q hq)

theorem Inv.find_hash (h : Inv t out) (hl : t.live p) (hr : (t.items p).removed = false) :
    t.hmap.find (t.items p).hash = some p :=
  HMap.find_eq_some_iff.2 (h.map_complete p hl hr)

theorem Inv.of_find {k : UInt64} (h : Inv t out) (hf : t.hmap.find k = some p) :
    t.live p ∧ (t.items p).removed = false ∧ (t.items p).hash = k :=
  h.map_live k p (HMap.find_eq_some_iff.1 hf)

/-- The invariant only reads the memory, the heap and the map. -/
theorem Inv.congr (h : Inv t out) (hl : t'.live = t.live) (hi : t'.items = t.items)
    (ha : t'.allocated = t.allocated) (hq : t'.hqueue = t.hqueue) (hm : t'.hmap = t.hmap) :
    Inv t' out := by
  obtain ⟨h₁, h₂, h₃, h₄, h₅, h₆⟩ := h
  constructor <;> simp only [hl, hi, ha, hq, hm] <;> assumption

theorem Inv.requeue (h : Inv t out) {q : List ItemPtr} {out' : Option ItemPtr} (hq : q.Nodup)
    (hm : ∀ x, x ∈ q ↔ t.live x ∧ out' ≠ some x)
    (ho : ∀ x, out' = some x → t.live x) :
    Inv { t with hqueue := q } out' where
  live_lt := h.live_lt
  map_live := h.map_live
  map_complete := h.map_complete
  heap_nodup := hq
  mem_heap := hm
  out_live := ho

theorem Inv.setItem (h : Inv t out) {item : LocalIdleItem}
    (hr : item.removed = (t.items p).removed) (hh : item.hash = (t.items p).hash) :
    Inv (t.setItem p item) out where
  live_lt := h.live_lt
  map_live k q hq := by
    obtain ⟨hlq, hrq, hhq⟩ := h.map_live k q hq
    by_cases hqp : q = p
    · subst hqp
      simp [hr, hh, hlq, hrq, hhq]
    · simp [hqp, hlq, hrq, hhq]
  map_complete q hlq hrq := by
    by_cases hqp : q = p
    · subst hqp
      simp only [setItem_items, Function.update_self, hh] at hrq ⊢
      exact h.map_complete q hlq (hr ▸ hrq)
    · simp only [setItem_items, Function.update_of_ne hqp] at hrq ⊢
      exact h.map_complete q hlq hrq
  heap_nodup := h.heap_nodup
  mem_heap := h.mem_heap
  out_live := h.out_live

theorem Inv.retire (h : Inv t out) (hl : t.live p) (hr : (t.items p).removed = false) :
    Inv (t.retire p) out where
  live_lt := h.live_lt
  map_live k q hq := by
    simp only [LocalIdleTable.retire, setItem_hmap, HMap.mem_erase] at hq
    obtain ⟨hq, hk⟩ := hq
    obtain ⟨hlq, hrq, hhq⟩ := h.map_live k q hq
    -- the entry of `p` is the one dropped
    have hqp : q ≠ p := by
      rintro rfl
      exact hk hhq.symm
    simp [LocalIdleTable.retire, hqp, hlq, hrq, hhq]
  map_complete q hlq hrq := by
    have hqp : q ≠ p := by
      rintro rfl
      simp [LocalIdleTable.retire] at hrq
    simp only [LocalIdleTable.retire, setItem_items, Function.update_of_ne hqp] at hrq ⊢
    -- two active items never share a hash, so `q` keeps its entry
    have hk : (t.items q).hash ≠ (t.items p).hash := by
      intro hk
      have hq := h.map_complete q hlq hrq
      rw [hk] at hq
      exact hqp (HMap.eq_of_mem (h.map_complete p hl hr) hq).symm
    simp only [setItem_hmap, HMap.mem_erase]
    exact ⟨h.map_complete q hlq hrq, hk⟩
  heap_nodup := h.heap_nodup
  mem_heap := h.mem_heap
  out_live := h.out_live

theorem evolves_retire (t : LocalIdleTable) (p : ItemPtr) : Evolves t (t.retire p) := by
  have h : Evolves t { t with hmap := t.hmap.erase (t.items p).hash } :=
    evolves_of_items rfl rfl rfl rfl
  refine h.trans ?_
  exact evolves_setItem (fun _ => rfl) (UInt64.le_refl _)

theorem Inv.release_out (h : Inv t (some p)) (hr : (t.items p).removed = true) :
    Inv (t.release p) none where
  live_lt q hq := by
    by_cases hqp : q = p
    · subst hqp
      simp at hq
    · exact h.live_lt q (by simpa [hqp] using hq)
  map_live k q hq := by
    obtain ⟨hlq, hrq, hhq⟩ := h.map_live k q hq
    have hqp : q ≠ p := by
      rintro rfl
      simp [hr] at hrq
    simp [hqp, hlq, hrq, hhq]
  map_complete q hlq hrq := by
    by_cases hqp : q = p
    · subst hqp
      simp at hlq
    · exact h.map_complete q (by simpa [hqp] using hlq) hrq
  heap_nodup := h.heap_nodup
  mem_heap q := by
    by_cases hqp : q = p
    · subst hqp
      simp [h.mem_heap q]
    · simp [h.mem_heap q, hqp, Ne.symm hqp]
  out_live _ hq := by cases hq

/-- A new item for a hash the map does not hold goes into the map and the heap. -/
theorem Inv.create (h : Inv t out) {item : LocalIdleItem} (hr : item.removed = false)
    (hf : t.hmap.find item.hash = none) {q : List ItemPtr}
    (hq : q.Perm (t.hqueue ++ [t.allocated])) :
    Inv { t with items := Function.update t.items t.allocated item
                 live := Function.update t.live t.allocated true
                 allocated := t.allocated + 1
                 hmap := (t.hmap.insert item.hash t.allocated).1
                 hqueue := q } out where
  live_lt x hx := by
    show x < t.allocated + 1
    by_cases hxa : x = t.allocated
    · exact hxa ▸ Nat.lt_succ_self _
    · exact Nat.lt_succ_of_lt (h.live_lt x (by simpa [hxa] using hx))
  map_live k x hx := by
    simp only [(HMap.insert_of_find_none hf).2, List.mem_append, List.mem_singleton,
      Prod.mk.injEq] at hx
    rcases hx with hx | ⟨rfl, rfl⟩
    · obtain ⟨hlx, hrx, hhx⟩ := h.map_live k x hx
      have hxa := h.ne_of_live hlx
      simp [hxa, hlx, hrx, hhx]
    · simp [hr]
  map_complete x hlx hrx := by
    simp only [(HMap.insert_of_find_none hf).2, List.mem_append, List.mem_singleton,
      Prod.mk.injEq]
    by_cases hxa : x = t.allocated
    · subst hxa
      simp
    · simp only [Function.update_of_ne hxa] at hlx hrx ⊢
      exact .inl (h.map_complete x hlx hrx)
  heap_nodup := by
    refine hq.nodup_iff.2 (List.nodup_append.2 ⟨h.heap_nodup, List.nodup_singleton _, ?_⟩)
    intro a ha b hb hab
    rw [List.mem_singleton] at hb
    exact h.ne_of_live (h.live_of_mem_heap ha) (hab.trans hb)
  mem_heap x := by
    rw [hq.mem_iff, List.mem_append, List.mem_singleton, h.mem_heap x]
    by_cases hxa : x = t.allocated
    · subst hxa
      have hout : out ≠ some t.allocated := fun ho => h.ne_of_live (h.out_live _ ho) rfl
      simp [hout]
    · simp [hxa]
  out_live x hx := by
    have hxa := h.ne_of_live (h.out_live x hx)
    simp [hxa, h.out_live x hx]

theorem Inv.create_rejected (h : Inv t out) (item : LocalIdleItem) :
    Inv ((memoryAllocate t item).1.release t.allocated) out where
  live_lt x hx := by
    by_cases hxa : x = t.allocated
    · subst hxa
      simp at hx
    · exact Nat.lt_succ_of_lt (h.live_lt x (by simpa [memoryAllocate, hxa] using hx))
  map_live k x hx := by
    obtain ⟨hlx, hrx, hhx⟩ := h.map_live k x hx
    have hxa := h.ne_of_live hlx
    simp [memoryAllocate, hxa, hlx, hrx, hhx]
  map_complete x hlx hrx := by
    by_cases hxa : x = t.allocated
    · subst hxa
      simp at hlx
    · simp only [memoryAllocate, release_items, release_live, Function.update_of_ne hxa]
        at hlx hrx ⊢
      exact h.map_complete x hlx hrx
  heap_nodup := h.heap_nodup
  mem_heap x := by
    by_cases hxa : x = t.allocated
    · subst hxa
      simp only [release_live, Function.update_self, Bool.false_eq_true, false_and, iff_false]
      exact fun hx => h.ne_of_live (h.live_of_mem_heap hx) rfl
    · simp [memoryAllocate, hxa, h.mem_heap x]
  out_live x hx := by
    have hxa := h.ne_of_live (h.out_live x hx)
    simp [memoryAllocate, hxa, h.out_live x hx]

end WaterWall.IdleTable
