import WaterWall.Heap.PQueue
import WaterWall.Map.HMap
import WaterWall.Monad.ExceptSpec

/-!
# The worker-local idle table

`src/ww/base/local_widle_table.c` keeps idle items of one worker: a binary heap `hqueue` ordered
by expiry, and a hash map `hmap` from an item's hash to the item.  The timer callback
`localIdleCallBack` pops expired items, runs their callbacks, and frees them unless a callback
moved the expiry into the future.  Removal by hash only marks an item `removed` and drops it from
the map; the item stays in the heap until it surfaces and is freed.  A drain takes the active
items out of both one by one, runs their callbacks and frees them.

* Memory is a bump allocator over addresses `ItemPtr` with a `live` flag.  Every read, write and
  free of an item stops with `LocalIdleHalt.useAfterFree` or `LocalIdleHalt.doubleFree` when the
  item is freed: the faults the table must never make.
* The heap is any priority queue obeying `PQueue.Ops`.  A heap operation compares the keys of
  queued items, so it is modelled as reading every queued item, which only makes the model
  stricter.
* Callbacks are the environment: `cbs n p` is the list of calls (create, get, keep, remove) the
  `n`-th callback makes when it runs for item `p`.  Any callback behaves on a given run as one
  such list.
* The firing and draining loops take fuel, since a callback may create expired items forever;
  running out is `LocalIdleHalt.outOfFuel`.  `LocalIdleTable.log` records what callbacks ran and
  what was removed.
-/

set_option autoImplicit false

namespace WaterWall.IdleTable

/-- An item's address.  The allocator never hands an address out twice. -/
abbrev ItemPtr := Nat

/-- The fields of `local_idle_item_t` that the table reads.  `userdata` and `cb` are kept as
whether they are non-NULL, which is all the table looks at; `table` is the one table here. -/
structure LocalIdleItem where
  userdata : Bool
  expire_at_ms : UInt64
  cb : Bool
  hash : UInt64
  removed : Bool
  deriving Inhabited

/-- What happened to an item, in the order it happened. -/
inductive LocalIdleEvent
  /-- `localIdleCallBack` ran the item's callback, with the item's expiry and its own time. -/
  | fired (item : ItemPtr) (expire_at_ms now : UInt64)
  /-- `localidletableDrainItems` took the item. -/
  | drained (item : ItemPtr)
  /-- `localidletableRemoveIdleItemByHash` returned true, having found the item. -/
  | removed (item : ItemPtr)
  deriving DecidableEq

/-- The item an event is about. -/
def LocalIdleEvent.item : LocalIdleEvent → ItemPtr
  | .fired p _ _ => p
  | .drained p => p
  | .removed p => p

/-- How a run of the table stops short of returning. -/
inductive LocalIdleHalt
  /-- The table reads or writes an item that is freed. -/
  | useAfterFree
  /-- The table frees an item that is freed. -/
  | doubleFree
  /-- `localidletableKeepIdleItemForAtleast` is given a freed item: the caller's fault. -/
  | callerUseAfterFree
  /-- `abortProgramNow`. -/
  | abort
  /-- A firing or a drain ran longer than its fuel. -/
  | outOfFuel
  deriving DecidableEq

/-- The table, with the allocator's view of the items and the log of events. -/
structure LocalIdleTable where
  items : ItemPtr → LocalIdleItem
  live : ItemPtr → Bool
  allocated : Nat
  hqueue : List ItemPtr
  hmap : HMap UInt64 ItemPtr
  /-- `wloopNowMS(self->loop)`. -/
  now_ms : UInt64
  /-- How many callbacks have run, which picks the next callback's calls. -/
  callbacks_run : Nat
  log : List LocalIdleEvent

/-- The calls a callback may make on the table, and the worker between timer firings. -/
inductive LocalIdleCall
  | createItem (key : UInt64) (userdata cb : Bool) (age_ms : UInt64)
  | getIdleItemByHash (key : UInt64)
  | keepIdleItemForAtleast (item : ItemPtr) (age_ms : UInt64)
  | removeIdleItemByHash (key : UInt64)

namespace LocalIdleTable

/-- Replace the item at `p`. -/
def setItem (t : LocalIdleTable) (p : ItemPtr) (item : LocalIdleItem) : LocalIdleTable :=
  { t with items := Function.update t.items p item }

/-- Mark `p` freed. -/
def release (t : LocalIdleTable) (p : ItemPtr) : LocalIdleTable :=
  { t with live := Function.update t.live p false }

/-- Append an event to the log. -/
def record (t : LocalIdleTable) (ev : LocalIdleEvent) : LocalIdleTable :=
  { t with log := t.log ++ [ev] }

/-- `localidletable_less_func`: the heap's comparison, the later expiry being the smaller. -/
def less (t : LocalIdleTable) (x y : ItemPtr) : Bool :=
  (t.items x).expire_at_ms > (t.items y).expire_at_ms

@[simp] theorem setItem_items (t : LocalIdleTable) (p : ItemPtr) (item : LocalIdleItem) :
    (t.setItem p item).items = Function.update t.items p item := rfl

@[simp] theorem setItem_live (t : LocalIdleTable) (p : ItemPtr) (item : LocalIdleItem) :
    (t.setItem p item).live = t.live := rfl

@[simp] theorem setItem_hqueue (t : LocalIdleTable) (p : ItemPtr) (item : LocalIdleItem) :
    (t.setItem p item).hqueue = t.hqueue := rfl

@[simp] theorem setItem_hmap (t : LocalIdleTable) (p : ItemPtr) (item : LocalIdleItem) :
    (t.setItem p item).hmap = t.hmap := rfl

@[simp] theorem release_live (t : LocalIdleTable) (p : ItemPtr) :
    (t.release p).live = Function.update t.live p false := rfl

@[simp] theorem release_items (t : LocalIdleTable) (p : ItemPtr) :
    (t.release p).items = t.items := rfl

@[simp] theorem release_hqueue (t : LocalIdleTable) (p : ItemPtr) :
    (t.release p).hqueue = t.hqueue := rfl

@[simp] theorem release_hmap (t : LocalIdleTable) (p : ItemPtr) :
    (t.release p).hmap = t.hmap := rfl

@[simp] theorem record_log (t : LocalIdleTable) (ev : LocalIdleEvent) :
    (t.record ev).log = t.log ++ [ev] := rfl

@[simp] theorem record_items (t : LocalIdleTable) (ev : LocalIdleEvent) :
    (t.record ev).items = t.items := rfl

@[simp] theorem record_live (t : LocalIdleTable) (ev : LocalIdleEvent) :
    (t.record ev).live = t.live := rfl

end LocalIdleTable

open LocalIdleTable

/-- `localIdleTableCreate`: an empty table at loop time `now_ms`. -/
def localIdleTableCreate (now_ms : UInt64) : LocalIdleTable where
  items := fun _ => default
  live := fun _ => false
  allocated := 0
  hqueue := []
  hmap := HMap.empty
  now_ms := now_ms
  callbacks_run := 0
  log := []

/-! ## Memory -/

/-- Read the item at `p`. -/
def readItem (t : LocalIdleTable) (p : ItemPtr) : Except LocalIdleHalt LocalIdleItem :=
  if t.live p then pure (t.items p) else throw .useAfterFree

/-- Update the item at `p`. -/
def writeItem (t : LocalIdleTable) (p : ItemPtr) (f : LocalIdleItem → LocalIdleItem) :
    Except LocalIdleHalt LocalIdleTable :=
  if t.live p then pure (t.setItem p (f (t.items p))) else throw .useAfterFree

/-- `memoryFree(item)`. -/
def memoryFree (t : LocalIdleTable) (p : ItemPtr) : Except LocalIdleHalt LocalIdleTable :=
  if t.live p then pure (t.release p) else throw .doubleFree

/-- `memoryAllocate(sizeof(local_idle_item_t))`, filled with `item`: the next fresh address.
An allocation failure aborts the program, so it is not modelled. -/
def memoryAllocate (t : LocalIdleTable) (item : LocalIdleItem) : LocalIdleTable × ItemPtr :=
  ({ t with items := Function.update t.items t.allocated item
            live := Function.update t.live t.allocated true
            allocated := t.allocated + 1 }, t.allocated)

/-- A heap operation reads the keys of the queued items `q`. -/
def readQueued (t : LocalIdleTable) (q : List ItemPtr) : Except LocalIdleHalt Unit :=
  if q.all t.live then pure () else throw .useAfterFree

theorem readItem_of_live {t : LocalIdleTable} {p : ItemPtr} (h : t.live p = true) :
    readItem t p = .ok (t.items p) := by
  simp [readItem, h, pure, Except.pure]

theorem writeItem_of_live {t : LocalIdleTable} {p : ItemPtr} (h : t.live p = true)
    (f : LocalIdleItem → LocalIdleItem) : writeItem t p f = .ok (t.setItem p (f (t.items p))) := by
  simp [writeItem, h, pure, Except.pure]

theorem memoryFree_of_live {t : LocalIdleTable} {p : ItemPtr} (h : t.live p = true) :
    memoryFree t p = .ok (t.release p) := by
  simp [memoryFree, h, pure, Except.pure]

theorem readQueued_of_live {t : LocalIdleTable} {q : List ItemPtr} (h : ∀ x ∈ q, t.live x = true) :
    readQueued t q = .ok () := by
  simp [readQueued, List.all_eq_true.2 h, pure, Except.pure]

section Table

variable (ops : PQueue.Ops ItemPtr)

/-! ## The heap -/

/-- `local_heapq_idles_t_push(&self->hqueue, item)`. -/
def hqueuePush (t : LocalIdleTable) (p : ItemPtr) : Except LocalIdleHalt LocalIdleTable := do
  readQueued t (t.hqueue ++ [p])
  pure { t with hqueue := ops.push t.less t.hqueue p }

/-- `local_heapq_idles_t_pop(&self->hqueue)`. -/
def hqueuePop (t : LocalIdleTable) : Except LocalIdleHalt LocalIdleTable := do
  readQueued t t.hqueue
  pure { t with hqueue := ops.pop t.less t.hqueue }

/-- `local_heapq_idles_t_make_heap(&self->hqueue)`. -/
def hqueueMakeHeap (t : LocalIdleTable) : Except LocalIdleHalt LocalIdleTable := do
  readQueued t t.hqueue
  pure { t with hqueue := ops.makeHeap t.less t.hqueue }

/-! ## The table's functions -/

def localIdleItemKeepExpireAtForAtleast (item : LocalIdleItem) (expire_at_ms : UInt64) :
    LocalIdleItem :=
  if item.expire_at_ms < expire_at_ms then { item with expire_at_ms := expire_at_ms } else item

@[simp] theorem localIdleItemKeepExpireAtForAtleast_removed (item : LocalIdleItem)
    (expire_at_ms : UInt64) :
    (localIdleItemKeepExpireAtForAtleast item expire_at_ms).removed = item.removed := by
  rw [localIdleItemKeepExpireAtForAtleast]
  split <;> rfl

@[simp] theorem localIdleItemKeepExpireAtForAtleast_hash (item : LocalIdleItem)
    (expire_at_ms : UInt64) :
    (localIdleItemKeepExpireAtForAtleast item expire_at_ms).hash = item.hash := by
  rw [localIdleItemKeepExpireAtForAtleast]
  split <;> rfl

/-- Keeping an item never brings its expiry closer. -/
theorem expire_le_localIdleItemKeepExpireAtForAtleast (item : LocalIdleItem)
    (expire_at_ms : UInt64) :
    item.expire_at_ms ≤ (localIdleItemKeepExpireAtForAtleast item expire_at_ms).expire_at_ms := by
  rw [localIdleItemKeepExpireAtForAtleast]
  split
  · exact UInt64.le_of_lt ‹_›
  · exact UInt64.le_refl _

/-- `localidletableEraseItemFromMap`: drop the map's entry for the item's hash if it is this item,
and mark the item removed. -/
def localidletableEraseItemFromMap (t : LocalIdleTable) (p : ItemPtr) :
    Except LocalIdleHalt LocalIdleTable := do
  let item ← readItem t p
  let t := if t.hmap.find item.hash = some p then { t with hmap := t.hmap.erase item.hash } else t
  writeItem t p fun item => { item with removed := true }

/-- `localidletableGetFirstActiveItem`: the first item of the map, in the map's order, that is not
removed. -/
def localidletableGetFirstActiveItem (t : LocalIdleTable) : Except LocalIdleHalt (Option ItemPtr) :=
  go t.hmap.entries
where
  /-- The walk of `c_foreach` over the entries. -/
  go : List (UInt64 × ItemPtr) → Except LocalIdleHalt (Option ItemPtr)
    | [] => pure none
    | (_, p) :: rest => do
      let item ← readItem t p
      if !item.removed then pure (some p) else go rest

/-- The loop of `localidletableRemoveItemFromHeap`: pop every item of `q`, and push each one but
`target` into `kept`. -/
def localidletableRemoveItemFromHeap.loop (less : ItemPtr → ItemPtr → Bool) (target : ItemPtr) :
    List ItemPtr → List ItemPtr → List ItemPtr
  | [], kept => kept
  | item :: q, kept =>
    loop less target (ops.pop less (item :: q))
      (if item ≠ target then ops.push less kept item else kept)
termination_by q => q.length
decreasing_by rw [ops.length_pop]; exact Nat.lt_succ_self _

/-- `localidletableRemoveItemFromHeap`: rebuild the heap without `target`. -/
def localidletableRemoveItemFromHeap (t : LocalIdleTable) (target : ItemPtr) :
    Except LocalIdleHalt LocalIdleTable := do
  let t ← hqueueMakeHeap ops t
  -- every pop from the heap and push into `kept` compares keys of items queued now
  readQueued t t.hqueue
  pure { t with hqueue := localidletableRemoveItemFromHeap.loop ops t.less target t.hqueue [] }

/-- `localidletableCreateItem`: a new item, or `none` when the map has an entry for the key, in
which case the new item is freed again. -/
def localidletableCreateItem (t : LocalIdleTable) (key : UInt64) (userdata cb : Bool)
    (age_ms : UInt64) : Except LocalIdleHalt (LocalIdleTable × Option ItemPtr) := do
  let (t, p) := memoryAllocate t
    { expire_at_ms := t.now_ms + age_ms, hash := key, userdata, cb, removed := false }
  let r := t.hmap.insert key p
  if !r.2 then
    let t ← memoryFree t p
    pure (t, none)
  else
    let t ← hqueuePush ops { t with hmap := r.1 } p
    pure (t, some p)

def localidletableGetIdleItemByHash (t : LocalIdleTable) (key : UInt64) :
    Except LocalIdleHalt (Option ItemPtr) :=
  match t.hmap.find key with
  | none => pure none
  | some p => do
    let item ← readItem t p
    pure (if item.removed then none else some p)

/-- `localidletableKeepIdleItemForAtleast`.  Its first read of the item is `item->table`; an item
the caller already saw freed is the caller's fault. -/
def localidletableKeepIdleItemForAtleast (t : LocalIdleTable) (p : ItemPtr) (age_ms : UInt64) :
    Except LocalIdleHalt LocalIdleTable :=
  if !t.live p then throw .callerUseAfterFree
  else if (t.items p).removed then throw .abort
  else writeItem t p fun item => localIdleItemKeepExpireAtForAtleast item (t.now_ms + age_ms)

def localidletableRemoveIdleItemByHash (t : LocalIdleTable) (key : UInt64) :
    Except LocalIdleHalt (LocalIdleTable × Bool) :=
  match t.hmap.find key with
  | none => pure (t, false)
  | some p => do
    let t ← localidletableEraseItemFromMap t p
    pure (t.record (.removed p), true)

/-- One call on the table, its result dropped. -/
def LocalIdleCall.run (t : LocalIdleTable) : LocalIdleCall → Except LocalIdleHalt LocalIdleTable
  | .createItem key userdata cb age_ms => do
    let (t, _) ← localidletableCreateItem ops t key userdata cb age_ms
    pure t
  | .getIdleItemByHash key => do
    let _ ← localidletableGetIdleItemByHash t key
    pure t
  | .keepIdleItemForAtleast p age_ms => localidletableKeepIdleItemForAtleast t p age_ms
  | .removeIdleItemByHash key => do
    let (t, _) ← localidletableRemoveIdleItemByHash t key
    pure t

/-- A callback's calls, one after the other. -/
def runCalls : LocalIdleTable → List LocalIdleCall → Except LocalIdleHalt LocalIdleTable
  | t, [] => pure t
  | t, c :: cs => do
    let t ← LocalIdleCall.run ops t c
    runCalls t cs

variable (cbs : Nat → ItemPtr → List LocalIdleCall)

/-- `item->cb(item)`. -/
def invokeCallback (t : LocalIdleTable) (p : ItemPtr) : Except LocalIdleHalt LocalIdleTable :=
  runCalls ops { t with callbacks_run := t.callbacks_run + 1 } (cbs t.callbacks_run p)

def localidletableDrainItems.take (t : LocalIdleTable) (p : ItemPtr) :
    Except LocalIdleHalt LocalIdleTable := do
  let t ← localidletableEraseItemFromMap t p
  let t ← localidletableRemoveItemFromHeap ops t p
  let t := t.record (.drained p)
  let item ← readItem t p
  let t ← if item.cb && item.userdata then invokeCallback ops cbs t p else pure t
  memoryFree t p

/-- `localidletableDrainItems`: take the active items out one at a time, run their callbacks and
free them. -/
def localidletableDrainItems : Nat → LocalIdleTable → Except LocalIdleHalt LocalIdleTable
  | 0, _ => throw .outOfFuel
  | fuel + 1, t => do
    match ← localidletableGetFirstActiveItem t with
    | none => pure t
    | some p =>
      let t ← localidletableDrainItems.take ops cbs t p
      localidletableDrainItems fuel t

/-- The end of the loop body of `localIdleCallBack`, after the callback of `p` ran: push the item
back if the callback moved its expiry past the current time, else drop it from the map if it is
still there, and free it. -/
def localIdleCallBack.settle (t : LocalIdleTable) (p : ItemPtr) (old_expire_at_ms : UInt64) :
    Except LocalIdleHalt LocalIdleTable := do
  let item ← readItem t p
  let new_expire_at_ms := item.expire_at_ms
  let keep_alive := !item.removed && old_expire_at_ms != new_expire_at_ms &&
    decide (new_expire_at_ms > t.now_ms)
  if keep_alive then hqueuePush ops t p
  else
    let t ← if !item.removed then localidletableEraseItemFromMap t p else pure t
    memoryFree t p

/-- The loop body of `localIdleCallBack` for the expired item `p` at the top of the heap, read as
`item`: pop it, then free it if it was removed, else run its callback and settle it. -/
def localIdleCallBack.expire (now : UInt64) (t : LocalIdleTable) (p : ItemPtr)
    (item : LocalIdleItem) : Except LocalIdleHalt LocalIdleTable := do
  let t ← hqueuePop ops t
  if item.removed then memoryFree t p
  else
    let old_expire_at_ms := item.expire_at_ms
    let t ← if item.cb then invokeCallback ops cbs (t.record (.fired p old_expire_at_ms now)) p
      else pure t
    localIdleCallBack.settle ops t p old_expire_at_ms

/-- The loop of `localIdleCallBack` at time `now`: free the removed items that surface, run the
callbacks of the expired ones, and stop at the first item that has not expired. -/
def localIdleCallBack.loop (now : UInt64) :
    Nat → LocalIdleTable → Except LocalIdleHalt LocalIdleTable
  | 0, _ => throw .outOfFuel
  | fuel + 1, t =>
    match t.hqueue with
    | [] => pure t
    | p :: _ => do
      let item ← readItem t p
      if item.expire_at_ms > now then pure t
      else
        let t ← localIdleCallBack.expire ops cbs now t p item
        loop now fuel t

/-- `localIdleCallBack`: order the heap, then run the loop at the loop's time.  The timer's next
period is not modelled. -/
def localIdleCallBack (fuel : Nat) (t : LocalIdleTable) : Except LocalIdleHalt LocalIdleTable := do
  let t ← hqueueMakeHeap ops t
  localIdleCallBack.loop ops cbs t.now_ms fuel t

/-- The loop of `localidletableDestroy`: pop and free every queued item.  Each pop takes one item
away, so the heap's length is fuel enough (`localidletableDestroy_eq` uses no more). -/
def localidletableDestroy.loop (fuel : Nat) (t : LocalIdleTable) :
    Except LocalIdleHalt LocalIdleTable :=
  match t.hqueue, fuel with
  | [], _ => pure t
  | _ :: _, 0 => throw .outOfFuel
  | p :: _, fuel + 1 => do
    let t ← hqueuePop ops t
    let t ← memoryFree t p
    loop fuel t

/-- `localidletableDestroy`: free every queued item; the map and the table go with it. -/
def localidletableDestroy (t : LocalIdleTable) : Except LocalIdleHalt LocalIdleTable :=
  localidletableDestroy.loop ops t.hqueue.length t

/-- What the worker does with the table: a call, a drain, or a firing of the timer. -/
inductive LocalIdleOp
  | call (c : LocalIdleCall)
  | drainItems
  | idleCallBack

/-- One operation, with fuel for the loops. -/
def LocalIdleOp.apply (fuel : Nat) (t : LocalIdleTable) :
    LocalIdleOp → Except LocalIdleHalt LocalIdleTable
  | .call c => LocalIdleCall.run ops t c
  | .drainItems => localidletableDrainItems ops cbs fuel t
  | .idleCallBack => localIdleCallBack ops cbs fuel t

/-- The tables a worker reaches: created at some loop time, then any operation that returns, each
at a loop time of its own. -/
inductive Reachable : LocalIdleTable → Prop
  | create (now_ms : UInt64) : Reachable (localIdleTableCreate now_ms)
  | step {t t' : LocalIdleTable} (now_ms : UInt64) (op : LocalIdleOp) (fuel : Nat) :
      Reachable t → LocalIdleOp.apply ops cbs fuel { t with now_ms := now_ms } op = .ok t' →
      Reachable t'

end Table

end WaterWall.IdleTable
