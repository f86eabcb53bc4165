import Mathlib
import WaterWall.Concurrent.Interleave

/-!
# The master pool

A `master_pool_t` keeps the items that worker pools give back, in the first `len` of its `cap`
slots `available`.  `masterpoolGetItems` takes up to `count` items off the top under the mutex and
makes the rest with `create_item_handle`; `masterpoolReuseItems` puts up to `cap - len` of the
items it is handed on top under the mutex and passes the rest to `destroy_item_handle`.  Both
first read `len` without the mutex: a get that reads `0` does not take it, and a reuse that reads
`cap` destroys every item.

The model runs any number of callers on one pool as an `Interleave` system.  The pool is the
shared state, with two ghost fields: how many items `create_item_handle` has made (an item is
named by its order of creation) and the items destroyed.  A caller's local state is where it
stands, with the items it owns.  A section under the mutex is one step, a call of a handle is
one step, and a read of `len` outside the mutex returns any value at all.

* `MasterpoolStep.poolInv`: `len ≤ cap`, and the slots stay `cap` many.
* `MasterpoolStep.account`: each step moves items between the pool, the stepping caller and the
  destroyed ones, and adds the item it creates; `masterpool_placed` follows from the conservation
  rule `Interleave.Reach.sum_eq`.
* `masterpool_conservation`: in every configuration reached, each item made so far is in exactly
  one place (in the pool, owned by one caller, or destroyed once), and no other item is anywhere.
-/

set_option autoImplicit false

namespace WaterWall
namespace Master

open Interleave

/-- A pool item, named by the order in which `create_item_handle` made it. -/
abbrev Item := Nat

/-- A `master_pool_t`, with two ghost fields. -/
structure MasterPool where
  /-- `available`: `cap` slots, the first `len` of which hold the pool's items. -/
  available : List Item
  len : Nat
  cap : Nat
  /-- Ghost: the number of items `create_item_handle` has made. -/
  created : Nat
  /-- Ghost: the items passed to `destroy_item_handle`, in order. -/
  destroyed : List Item

/-- The items in the pool: `available[0..len)`. -/
def MasterPool.stored (pool : MasterPool) : Multiset Item := ↑(pool.available.take pool.len)

/-- `masterpoolCreateWithCapacity`: `cap = 2 * max(1, pool_width)` in `uint32_t`, and no item;
`uninit i` is what slot `i` holds before it is first written. -/
def masterpoolCreateWithCapacity (pool_width : UInt32) (uninit : Nat → Item) : MasterPool :=
  let cap := (2 * max 1 pool_width).toNat
  { available := (List.range cap).map uninit, len := 0, cap := cap, created := 0, destroyed := [] }

/-! ## The calls -/

/-- The copy loop of `masterpoolGetItems`: `iptr[i] = available[pbase + i]` for `i < consumed`. -/
def readSlots (available : List Item) (pbase consumed : Nat) : List Item :=
  (List.range consumed).map fun i => available.getD (pbase + i) 0

/-- The copy loop of `masterpoolReuseItems`: `available[i + tmp_len] = iptr[i]`, item by item. -/
def writeSlots : List Item → Nat → List Item → List Item
  | available, _, [] => available
  | available, base, x :: xs => writeSlots (available.set base x) (base + 1) xs

/-- The section of `masterpoolGetItems` under the mutex: up to `count` items off the top of the
pool, into `iptr[0..consumed)`. -/
def masterpoolGetLocked (pool : MasterPool) (count : Nat) : MasterPool × List Item :=
  let tmp_len := pool.len
  let consumed := min tmp_len count
  if consumed > 0 then
    let pbase := tmp_len - consumed
    ({ pool with len := tmp_len - consumed }, readSlots pool.available pbase consumed)
  else (pool, [])

/-- The section of `masterpoolReuseItems` under the mutex: the first `min(cap - len, count)` items
of `iptr` go on top of the pool; the others are left to be destroyed. -/
def masterpoolReuseLocked (pool : MasterPool) (iptr : List Item) : MasterPool × List Item :=
  let tmp_len := pool.len
  let consumed := min (pool.cap - tmp_len) iptr.length
  ({ pool with
      len := tmp_len + consumed
      available := writeSlots pool.available tmp_len (iptr.take consumed) },
    iptr.drop consumed)

/-- `masterpoolMakeEmpty`: every item of the pool destroyed, under the mutex. -/
def masterpoolMakeEmpty (pool : MasterPool) : MasterPool :=
  { pool with destroyed := pool.destroyed ++ pool.available.take pool.len, len := 0 }

/-- `create_item_handle`: a new item. -/
def createItem (pool : MasterPool) : MasterPool × Item :=
  ({ pool with created := pool.created + 1 }, pool.created)

/-- `destroy_item_handle`. -/
def destroyItem (pool : MasterPool) (item : Item) : MasterPool :=
  { pool with destroyed := pool.destroyed ++ [item] }

@[simp] theorem created_masterpoolGetLocked (pool : MasterPool) (count : Nat) :
    (masterpoolGetLocked pool count).1.created = pool.created := by
  dsimp only [masterpoolGetLocked]
  split <;> rfl

@[simp] theorem created_masterpoolReuseLocked (pool : MasterPool) (iptr : List Item) :
    (masterpoolReuseLocked pool iptr).1.created = pool.created := rfl

/-! ## The callers -/

/-- Where a caller stands in a call on the pool. -/
inductive Phase where
  /-- Between calls. -/
  | idle
  /-- In `masterpoolGetItems` for `count` items, after a nonzero read of `len`. -/
  | getLocked (count : Nat)
  /-- In `masterpoolGetItems` for `count` items, `iptr` holding `out`: the rest are created. -/
  | getCreate (out : List Item) (count : Nat)
  /-- In `masterpoolReuseItems` with the items `iptr`, after a read of `len` other than `cap`. -/
  | reuseLocked (iptr : List Item)
  /-- In `masterpoolReuseItems`, destroying the items `rest` the pool did not keep. -/
  | reuseDestroy (rest : List Item)

/-- The items a call has in its array `iptr`. -/
def Phase.items : Phase → Multiset Item
  | .idle | .getLocked _ => 0
  | .getCreate out _ => ↑out
  | .reuseLocked iptr => ↑iptr
  | .reuseDestroy rest => ↑rest

/-- A caller of the pool. -/
structure Caller where
  /-- Ghost: the items the caller owns, from the arrays its calls of `masterpoolGetItems` filled. -/
  held : Multiset Item
  /-- Where it stands. -/
  phase : Phase

/-- The items a caller has: those it owns and those in the array of its call. -/
def Caller.owned (c : Caller) : Multiset Item := c.held + c.phase.items

/-- One step of a caller. -/
inductive MasterpoolStep : Caller → MasterPool → Caller → MasterPool → Prop
  /-- `masterpoolGetItems(pool, iptr, count)` reads `len` outside the mutex and sees `seen`. -/
  | getItems {held : Multiset Item} (pool : MasterPool) (count seen : Nat) :
      MasterpoolStep ⟨held, .idle⟩ pool
        ⟨held, if seen > 0 then .getLocked count else .getCreate [] count⟩ pool
  | getLocked {held : Multiset Item} (pool : MasterPool) (count : Nat) :
      MasterpoolStep ⟨held, .getLocked count⟩ pool
        ⟨held, .getCreate (masterpoolGetLocked pool count).2 count⟩
        (masterpoolGetLocked pool count).1
  /-- `iptr[i] = pool->create_item_handle(userdata)` for the next `i < count`. -/
  | create {held : Multiset Item} {out : List Item} {count : Nat} (pool : MasterPool)
      (h : out.length < count) :
      MasterpoolStep ⟨held, .getCreate out count⟩ pool
        ⟨held, .getCreate (out ++ [(createItem pool).2]) count⟩ (createItem pool).1
  /-- `masterpoolGetItems` returns: the caller owns the items of `iptr`. -/
  | getReturn {held : Multiset Item} {out : List Item} {count : Nat} (pool : MasterPool)
      (h : count ≤ out.length) :
      MasterpoolStep ⟨held, .getCreate out count⟩ pool ⟨held + ↑out, .idle⟩ pool
  /-- `masterpoolReuseItems(pool, iptr, count)`, with items the caller owns, reads `len` outside
  the mutex and sees `seen`. -/
  | reuseItems {held : Multiset Item} (pool : MasterPool) (iptr : List Item) (seen : Nat)
      (h : ↑iptr ≤ held) :
      MasterpoolStep ⟨held, .idle⟩ pool
        ⟨held - ↑iptr, if pool.cap = seen then .reuseDestroy iptr else .reuseLocked iptr⟩ pool
  | reuseLocked {held : Multiset Item} {iptr : List Item} (pool : MasterPool) :
      MasterpoolStep ⟨held, .reuseLocked iptr⟩ pool
        ⟨held, .reuseDestroy (masterpoolReuseLocked pool iptr).2⟩
        (masterpoolReuseLocked pool iptr).1
  /-- `pool->destroy_item_handle(iptr[i])` for the next item not kept. -/
  | destroy {held : Multiset Item} {item : Item} {rest : List Item} (pool : MasterPool) :
      MasterpoolStep ⟨held, .reuseDestroy (item :: rest)⟩ pool ⟨held, .reuseDestroy rest⟩
        (destroyItem pool item)
  | reuseReturn {held : Multiset Item} (pool : MasterPool) :
      MasterpoolStep ⟨held, .reuseDestroy []⟩ pool ⟨held, .idle⟩ pool
  | makeEmpty {held : Multiset Item} (pool : MasterPool) :
      MasterpoolStep ⟨held, .idle⟩ pool ⟨held, .idle⟩ (masterpoolMakeEmpty pool)

/-- A new pool, and callers that own nothing. -/
def masterpoolInit (W : Type) (pool_width : UInt32) (uninit : Nat → Item) :
    Config W Caller MasterPool :=
  ⟨masterpoolCreateWithCapacity pool_width uninit, fun _ => ⟨0, .idle⟩⟩

/-! ## The copy loops -/

theorem readSlots_eq {available : List Item} {pbase consumed : Nat}
    (h : pbase + consumed ≤ available.length) :
    readSlots available pbase consumed = (available.drop pbase).take consumed := by
  apply List.ext_getElem
  · simp only [readSlots, List.length_map, List.length_range, List.length_take, List.length_drop]
    omega
  · intro i h1 _
    have hi : i < consumed := by simpa [readSlots] using h1
    simp only [readSlots, List.getElem_map, List.getElem_range, List.getElem_take,
      List.getElem_drop, List.getD_eq_getElem?_getD,
      List.getElem?_eq_getElem (show pbase + i < available.length by omega),
      Option.getD_some]

@[simp] theorem length_writeSlots (available : List Item) (base : Nat) (xs : List Item) :
    (writeSlots available base xs).length = available.length := by
  induction xs generalizing available base with
  | nil => rfl
  | cons x xs ih => rw [writeSlots, ih, List.length_set]

/-- Writing `xs` from slot `base` on leaves the slots before `base` and puts `xs` after them. -/
theorem take_writeSlots {available : List Item} {base : Nat} {xs : List Item}
    (h : base + xs.length ≤ available.length) :
    (writeSlots available base xs).take (base + xs.length) = available.take base ++ xs := by
  induction xs generalizing available base with
  | nil => simp [writeSlots]
  | cons x xs ih =>
    have hb : base < available.length := by simp only [List.length_cons] at h; omega
    have hset : (available.set base x).take (base + 1) = available.take base ++ [x] := by
      rw [List.take_add_one, List.take_set_of_le (Nat.le_refl _), List.getElem?_set_self hb]
      rfl
    rw [writeSlots, List.length_cons, ← Nat.add_assoc, ← Nat.add_right_comm,
      ih (by rw [List.length_set]; simp only [List.length_cons] at h; omega), hset,
      List.append_assoc, List.singleton_append]

/-! ## The pool stays within its slots -/

/-- The pool's shape: `cap` slots, of which the first `len` are the pool's. -/
structure PoolInv (pool : MasterPool) : Prop where
  slots : pool.available.length = pool.cap
  len_le_cap : pool.len ≤ pool.cap

theorem poolInv_masterpoolCreateWithCapacity (pool_width : UInt32) (uninit : Nat → Item) :
    PoolInv (masterpoolCreateWithCapacity pool_width uninit) :=
  ⟨by simp [masterpoolCreateWithCapacity], Nat.zero_le _⟩

theorem PoolInv.getLocked {pool : MasterPool} (hp : PoolInv pool) (count : Nat) :
    PoolInv (masterpoolGetLocked pool count).1 := by
  dsimp only [masterpoolGetLocked]
  split
  · exact ⟨hp.slots, by dsimp only; have := hp.len_le_cap; omega⟩
  · exact hp

theorem PoolInv.reuseLocked {pool : MasterPool} (hp : PoolInv pool) (iptr : List Item) :
    PoolInv (masterpoolReuseLocked pool iptr).1 :=
  ⟨by simp only [masterpoolReuseLocked, length_writeSlots, hp.slots],
    by dsimp only [masterpoolReuseLocked]; have := hp.len_le_cap; omega⟩

theorem MasterpoolStep.poolInv {l l' : Caller} {pool pool' : MasterPool}
    (h : MasterpoolStep l pool l' pool') (hp : PoolInv pool) : PoolInv pool' := by
  cases h with
  | getLocked _ count => exact hp.getLocked count
  | reuseLocked _ => exact hp.reuseLocked _
  | create _ _ => exact ⟨hp.slots, hp.len_le_cap⟩
  | destroy _ => exact ⟨hp.slots, hp.len_le_cap⟩
  | makeEmpty _ => exact ⟨hp.slots, Nat.zero_le _⟩
  | getItems | getReturn | reuseItems | reuseReturn => exact hp

theorem poolInv_of_reach {W : Type} [DecidableEq W] {pool_width : UInt32} {uninit : Nat → Item}
    {c : Config W Caller MasterPool}
    (hc : Reach MasterpoolStep (masterpoolInit W pool_width uninit) c) :
    PoolInv c.shared :=
  hc.inv (P := fun c => PoolInv c.shared) (poolInv_masterpoolCreateWithCapacity pool_width uninit)
    fun _ _ _ _ hp hstep => hstep.poolInv hp

/-! ## Every step keeps the account of the items -/

/-- What the pool has of the items: those in it and those destroyed. -/
def MasterPool.placed (pool : MasterPool) : Multiset Item := pool.stored + ↑pool.destroyed

theorem placed_getLocked {pool : MasterPool} (hp : PoolInv pool) (count : Nat) :
    (masterpoolGetLocked pool count).1.placed + ↑(masterpoolGetLocked pool count).2 =
      pool.placed := by
  dsimp only [masterpoolGetLocked]
  split
  · have hle := hp.len_le_cap
    have hslots := hp.slots
    -- the items read are the top `consumed` slots of `available[0..len)`
    have htake : pool.available.take pool.len =
        pool.available.take (pool.len - min pool.len count) ++
        (pool.available.drop (pool.len - min pool.len count)).take (min pool.len count) := by
      rw [← List.take_add, Nat.sub_add_cancel (Nat.min_le_left _ _)]
    simp only [MasterPool.placed, MasterPool.stored,
      readSlots_eq (show pool.len - min pool.len count +
      min pool.len count ≤ pool.available.length by omega), htake, ← Multiset.coe_add]
    ac_rfl
  · simp

theorem placed_reuseLocked {pool : MasterPool} (hp : PoolInv pool) (iptr : List Item) :
    (masterpoolReuseLocked pool iptr).1.placed + ↑(masterpoolReuseLocked pool iptr).2 =
      pool.placed + ↑iptr := by
  have hle := hp.len_le_cap
  have hslots := hp.slots
  -- the items kept are written to the slots right after `available[0..len)`
  have hkept : (iptr.take (min (pool.cap - pool.len) iptr.length)).length =
      min (pool.cap - pool.len) iptr.length := by simp
  have hwrite := @take_writeSlots pool.available pool.len
    (iptr.take (min (pool.cap - pool.len) iptr.length)) (by rw [hkept]; omega)
  rw [hkept] at hwrite
  simp only [masterpoolReuseLocked, MasterPool.placed, MasterPool.stored, hwrite,
    ← Multiset.coe_add]
  conv_rhs => rw [← List.take_append_drop (min (pool.cap - pool.len) iptr.length) iptr]
  simp only [← Multiset.coe_add]
  ac_rfl

/-- **The account of one step.**  A step moves items between the pool, the destroyed ones and the
stepping caller, and `create_item_handle` adds the one item it makes. -/
theorem MasterpoolStep.account {l l' : Caller} {pool pool' : MasterPool}
    (h : MasterpoolStep l pool l' pool') (hp : PoolInv pool) :
    pool'.placed + l'.owned + Multiset.range pool.created =
      pool.placed + l.owned + Multiset.range pool'.created := by
  cases h with
  | getItems _ count seen =>
    simp only [Caller.owned]
    split <;> simp [Phase.items]
  | getLocked _ count =>
    have hmove := placed_getLocked hp count
    simp only [Caller.owned, Phase.items, add_zero, created_masterpoolGetLocked]
    rw [← hmove]
    ac_rfl
  | create _ _ =>
    simp only [Caller.owned, Phase.items, createItem, Multiset.range_succ, ← Multiset.coe_add,
      MasterPool.placed, MasterPool.stored, ← Multiset.singleton_add, Multiset.coe_singleton]
    ac_rfl
  | getReturn _ _ => simp [Caller.owned, Phase.items]
  | @reuseItems held _ iptr seen hle =>
    have hback : held - ↑iptr + ↑iptr = held := Multiset.sub_add_cancel hle
    simp only [Caller.owned]
    split <;> simp only [Phase.items, add_assoc, hback, zero_add]
  | @reuseLocked held iptr _ =>
    have hmove := placed_reuseLocked hp iptr
    simp only [Caller.owned, Phase.items, created_masterpoolReuseLocked]
    rw [add_left_comm _ held, hmove]
    ac_rfl
  | destroy _ =>
    simp only [Caller.owned, Phase.items, destroyItem, MasterPool.placed, MasterPool.stored,
      ← Multiset.coe_add, ← Multiset.cons_coe, ← Multiset.singleton_add]
    ac_rfl
  | reuseReturn _ => simp [Caller.owned, Phase.items]
  | makeEmpty _ =>
    simp only [Caller.owned, masterpoolMakeEmpty, MasterPool.placed, MasterPool.stored,
      List.take_zero, ← Multiset.coe_add, Multiset.coe_nil, zero_add]
    ac_rfl

/-! ## Every item in exactly one place -/

section Callers

variable {W : Type} [Fintype W] [DecidableEq W] {pool_width : UInt32} {uninit : Nat → Item}
  {c : Config W Caller MasterPool}

/-- The items in the pool, those the callers have and those destroyed are the items made so far. -/
theorem masterpool_placed (hc : Reach MasterpoolStep (masterpoolInit W pool_width uninit) c) :
    c.shared.placed + ∑ w, (c.locals w).owned = Multiset.range c.shared.created :=
  Reach.sum_eq MasterPool.placed Caller.owned (fun pool => Multiset.range pool.created)
    (by simp [masterpoolInit, masterpoolCreateWithCapacity, MasterPool.placed, MasterPool.stored,
      Caller.owned, Phase.items])
    (fun {_} _ {_ _} r hstep => hstep.account (poolInv_of_reach r)) hc

/-- Counted item by item: how often `x` is in the pool, with a caller or destroyed. -/
theorem count_placed (hc : Reach MasterpoolStep (masterpoolInit W pool_width uninit) c) (x : Item) :
    c.shared.stored.count x + ∑ w, (c.locals w).owned.count x + c.shared.destroyed.count x =
      if x < c.shared.created then 1 else 0 := by
  have hx := congrArg (Multiset.count x) (masterpool_placed hc)
  rw [MasterPool.placed, Multiset.count_add, Multiset.count_add, Multiset.count_sum',
    Multiset.coe_count] at hx
  rw [add_right_comm, hx]
  split
  · exact Multiset.count_eq_one_of_mem (Multiset.nodup_range _) (Multiset.mem_range.2 ‹_›)
  · exact Multiset.count_eq_zero_of_notMem (mt Multiset.mem_range.1 ‹_›)

/-- Two callers' counts of an item are at most the sum over all callers. -/
theorem add_le_sum_of_ne (f : W → Nat) {w w' : W} (h : w ≠ w') : f w + f w' ≤ ∑ v, f v := by
  rw [← Finset.add_sum_erase _ _ (Finset.mem_univ w),
    ← Finset.add_sum_erase _ _ (Finset.mem_erase.2 ⟨h.symm, Finset.mem_univ w'⟩)]
  omega

/-- **The master pool conserves its items.**  Over any interleaving of calls of
`masterpoolGetItems`, `masterpoolReuseItems` and `masterpoolMakeEmpty` by any number of callers,
each passing `masterpoolReuseItems` items it owns, and whatever the reads of `len` outside the
mutex return: `len ≤ cap`; every item `create_item_handle` has made is in exactly one place, once
(in `available[0..len)`, with one caller, or passed to `destroy_item_handle`), and no other item
is anywhere; so no item is with two callers. -/
theorem masterpool_conservation (hc : Reach MasterpoolStep (masterpoolInit W pool_width uninit) c) :
    c.shared.len ≤ c.shared.cap ∧
      (∀ x : Item, c.shared.stored.count x + ∑ w, (c.locals w).owned.count x +
        c.shared.destroyed.count x = if x < c.shared.created then 1 else 0) ∧
      ∀ (x : Item) (w w' : W), x ∈ (c.locals w).owned → x ∈ (c.locals w').owned →
        w = w' := by
  refine ⟨(poolInv_of_reach hc).len_le_cap, count_placed hc, fun x w w' hw hw' => ?_⟩
  by_contra hne
  have hcount := count_placed hc x
  have htwo := add_le_sum_of_ne (fun v => (c.locals v).owned.count x) hne
  have h1 := Multiset.count_pos.2 hw
  have h2 := Multiset.count_pos.2 hw'
  split at hcount <;> omega

end Callers

/-- Two callers on a pool of width `1` (two slots): caller 0 gets an item the pool makes for it and
gives it back, and caller 1 then gets it from the pool.  The item has moved from one caller to the
other through the pool, and is with caller 1 alone. -/
theorem masterpool_conservation_handOver :
    ∃ c : Config (Fin 2) Caller MasterPool,
      Reach MasterpoolStep (masterpoolInit (Fin 2) 1 fun i => 100 + i) c ∧
      (c.locals 0).owned = 0 ∧ (c.locals 1).owned = {0} ∧ c.shared.created = 1 ∧
      c.shared.len ≤ c.shared.cap ∧
      (∀ x : Item, c.shared.stored.count x + ∑ w, (c.locals w).owned.count x +
        c.shared.destroyed.count x = if x < c.shared.created then 1 else 0) ∧
      ∀ (x : Item) (w w' : Fin 2), x ∈ (c.locals w).owned → x ∈ (c.locals w').owned → w = w' := by
  -- caller 0 gets an item the pool makes and gives it back
  have r₁ : Reach MasterpoolStep (masterpoolInit (Fin 2) 1 fun i => 100 + i) _ :=
    Reach.step 0 Reach.init (MasterpoolStep.getItems _ 1 0)
  have r₂ := Reach.step 0 r₁ (@MasterpoolStep.create 0 [] 1 _ (by decide))
  have r₃ := Reach.step 0 r₂ (@MasterpoolStep.getReturn 0 [0] 1 _ (by decide))
  have r₄ := Reach.step 0 r₃ (@MasterpoolStep.reuseItems {0} _ [0] 0 (by decide))
  have r₅ := Reach.step 0 r₄ (@MasterpoolStep.reuseLocked 0 [0] _)
  have r₆ := Reach.step 0 r₅ (@MasterpoolStep.reuseReturn 0 _)
  -- caller 1 finds it on top of the pool
  have r₇ := Reach.step 1 r₆ (MasterpoolStep.getItems _ 1 1)
  have r₈ := Reach.step 1 r₇ (@MasterpoolStep.getLocked 0 _ 1)
  have r₉ := Reach.step 1 r₈ (@MasterpoolStep.getReturn 0 [0] 1 _ (by decide))
  exact ⟨_, r₉, by decide, by decide, rfl, masterpool_conservation r₉⟩

end Master
end WaterWall
