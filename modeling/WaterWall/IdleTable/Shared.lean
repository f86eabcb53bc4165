import WaterWall.IdleTable.Local

/-!
# The shared idle table

`src/ww/base/widle_table.c` keeps the idle items of all workers in one table behind a mutex: a
heap `hqueue` ordered by expiry and a map `hmap` from hash to item.  The table's timer runs
`idleCallBack`, which does not run the callbacks itself but marks each expired item
`worker_message_pending` and posts a close message to the item's worker.  That message
(`beforeCloseWorkerMessage`), or its cleanup when the message is dropped
(`idlePostedCloseMessageCleanup`), later runs the callback or frees the item.  A queued message
owns its item and holds a reference to the table (`posted_messages`), so that `idletableDestroy`
leaves the table's own storage to the last message.

* Each mutex section, each run of `idleCallBack` with its posting, each message and cleanup, and
  each drain with its callbacks is one step (`IdleStep`), taken in any order.  The posted messages
  are the list `IdleTable.messages`; the worker runs or drops any one of them.
* Memory is checked as in `WaterWall.IdleTable.Local`, with `IdleHalt.useAfterFree` or
  `IdleHalt.doubleFree` on a freed item.  The table's own storage has a flag of its own,
  `storage`: locking a freed table is `IdleHalt.tableUseAfterFree`, freeing it twice
  `IdleHalt.tableDoubleFree`.
* A pointer field is kept as whether it is set.  Callbacks are the environment: `cbs n p` is what
  the `n`-th callback does for item `p`.  Where an allocation can fail and the source recovers,
  the step takes the outcome as an argument (`fails`, `rejects`).
-/

set_option autoImplicit false
set_option linter.dupNamespace false

namespace WaterWall.IdleTable.Shared

/-- The fields of `idle_item_t` that the table and its messages read. -/
structure IdleItem where
  expire_at_ms : UInt64
  cb : Bool
  hash : UInt64
  wid : UInt8
  /-- `item->table` is the table, or NULL once the item is detached. -/
  table : Bool
  removed : Bool
  worker_message_pending : Bool
  deriving Inhabited

/-- What happened to an item, in the order it happened. -/
inductive IdleEvent
  /-- `beforeCloseWorkerMessage` ran the item's expiration callback. -/
  | fired (item : ItemPtr)
  /-- `idletableDrainWorkerItems` took the item. -/
  | drained (item : ItemPtr)
  /-- `idletableRemoveIdleItemByHash` returned true, having found the item. -/
  | removed (item : ItemPtr)
  deriving DecidableEq

/-- The item an event is about. -/
def IdleEvent.item : IdleEvent → ItemPtr
  | .fired p => p
  | .drained p => p
  | .removed p => p

/-- How a step stops short of returning. -/
inductive IdleHalt
  /-- An item that is freed is read or written. -/
  | useAfterFree
  /-- An item that is freed is freed. -/
  | doubleFree
  /-- The mutex, heap or map of a freed table is used. -/
  | tableUseAfterFree
  /-- The table's storage is freed twice. -/
  | tableDoubleFree
  /-- `idletableKeepIdleItemForAtleast` is given a freed item: the caller's fault. -/
  | callerUseAfterFree
  /-- `abortProgramNow`. -/
  | abort
  /-- A loop over the heap ran longer than its fuel. -/
  | outOfFuel
  deriving DecidableEq

/-- The table, with the allocator's view of the items, the queue of posted messages and the log
of events. -/
structure IdleTable where
  items : ItemPtr → IdleItem
  live : ItemPtr → Bool
  allocated : Nat
  hqueue : List ItemPtr
  hmap : HMap UInt64 ItemPtr
  posted_messages : Nat
  destroy_requested : Bool
  /-- The table's own allocation, with its heap, map and mutex, is not freed. -/
  storage : Bool
  /-- The close messages posted and not yet run or dropped, by their items. -/
  messages : List ItemPtr
  /-- `wloopNowMS(self->loop)`. -/
  now_ms : UInt64
  /-- How many callbacks have run, which picks the next callback's calls. -/
  callbacks_run : Nat
  log : List IdleEvent

/-- The calls a callback, or any thread, may make on the table. -/
inductive IdleCall
  | createItem (key : UInt64) (cb : Bool) (wid : UInt8) (age_ms : UInt64)
  | getIdleItemByHash (wid : UInt8) (key : UInt64)
  /-- `now_ms` is what `getTimeOfDayMS()` returns. -/
  | keepIdleItemForAtleast (item : ItemPtr) (now_ms age_ms : UInt64)
  | removeIdleItemByHash (wid : UInt8) (key : UInt64)

namespace IdleTable

/-- Replace the item at `p`. -/
def setItem (t : IdleTable) (p : ItemPtr) (item : IdleItem) : IdleTable :=
  { t with items := Function.update t.items p item }

/-- Mark `p` freed. -/
def release (t : IdleTable) (p : ItemPtr) : IdleTable :=
  { t with live := Function.update t.live p false }

/-- Append an event to the log. -/
def record (t : IdleTable) (ev : IdleEvent) : IdleTable :=
  { t with log := t.log ++ [ev] }

/-- `idletable_less_func`: the heap's comparison, the later expiry being the smaller. -/
def less (t : IdleTable) (x y : ItemPtr) : Bool :=
  (t.items x).expire_at_ms > (t.items y).expire_at_ms

@[simp] theorem setItem_items (t : IdleTable) (p : ItemPtr) (item : IdleItem) :
    (t.setItem p item).items = Function.update t.items p item := rfl

@[simp] theorem setItem_live (t : IdleTable) (p : ItemPtr) (item : IdleItem) :
    (t.setItem p item).live = t.live := rfl

@[simp] theorem setItem_allocated (t : IdleTable) (p : ItemPtr) (item : IdleItem) :
    (t.setItem p item).allocated = t.allocated := rfl

@[simp] theorem setItem_hqueue (t : IdleTable) (p : ItemPtr) (item : IdleItem) :
    (t.setItem p item).hqueue = t.hqueue := rfl

@[simp] theorem setItem_hmap (t : IdleTable) (p : ItemPtr) (item : IdleItem) :
    (t.setItem p item).hmap = t.hmap := rfl

@[simp] theorem setItem_messages (t : IdleTable) (p : ItemPtr) (item : IdleItem) :
    (t.setItem p item).messages = t.messages := rfl

@[simp] theorem setItem_posted_messages (t : IdleTable) (p : ItemPtr) (item : IdleItem) :
    (t.setItem p item).posted_messages = t.posted_messages := rfl

@[simp] theorem setItem_destroy_requested (t : IdleTable) (p : ItemPtr) (item : IdleItem) :
    (t.setItem p item).destroy_requested = t.destroy_requested := rfl

@[simp] theorem setItem_storage (t : IdleTable) (p : ItemPtr) (item : IdleItem) :
    (t.setItem p item).storage = t.storage := rfl

@[simp] theorem setItem_log (t : IdleTable) (p : ItemPtr) (item : IdleItem) :
    (t.setItem p item).log = t.log := rfl

@[simp] theorem release_live (t : IdleTable) (p : ItemPtr) :
    (t.release p).live = Function.update t.live p false := rfl

@[simp] theorem release_items (t : IdleTable) (p : ItemPtr) : (t.release p).items = t.items := rfl

@[simp] theorem release_allocated (t : IdleTable) (p : ItemPtr) :
    (t.release p).allocated = t.allocated := rfl

@[simp] theorem release_hqueue (t : IdleTable) (p : ItemPtr) : (t.release p).hqueue = t.hqueue :=
  rfl

@[simp] theorem release_hmap (t : IdleTable) (p : ItemPtr) : (t.release p).hmap = t.hmap := rfl

@[simp] theorem release_messages (t : IdleTable) (p : ItemPtr) :
    (t.release p).messages = t.messages := rfl

@[simp] theorem release_posted_messages (t : IdleTable) (p : ItemPtr) :
    (t.release p).posted_messages = t.posted_messages := rfl

@[simp] theorem release_destroy_requested (t : IdleTable) (p : ItemPtr) :
    (t.release p).destroy_requested = t.destroy_requested := rfl

@[simp] theorem release_storage (t : IdleTable) (p : ItemPtr) : (t.release p).storage = t.storage :=
  rfl

@[simp] theorem release_log (t : IdleTable) (p : ItemPtr) : (t.release p).log = t.log := rfl

@[simp] theorem record_log (t : IdleTable) (ev : IdleEvent) : (t.record ev).log = t.log ++ [ev] :=
  rfl

@[simp] theorem record_items (t : IdleTable) (ev : IdleEvent) : (t.record ev).items = t.items := rfl

@[simp] theorem record_live (t : IdleTable) (ev : IdleEvent) : (t.record ev).live = t.live := rfl

@[simp] theorem record_allocated (t : IdleTable) (ev : IdleEvent) :
    (t.record ev).allocated = t.allocated := rfl

@[simp] theorem record_hqueue (t : IdleTable) (ev : IdleEvent) : (t.record ev).hqueue = t.hqueue :=
  rfl

@[simp] theorem record_hmap (t : IdleTable) (ev : IdleEvent) : (t.record ev).hmap = t.hmap := rfl

@[simp] theorem record_messages (t : IdleTable) (ev : IdleEvent) :
    (t.record ev).messages = t.messages := rfl

@[simp] theorem record_posted_messages (t : IdleTable) (ev : IdleEvent) :
    (t.record ev).posted_messages = t.posted_messages := rfl

@[simp] theorem record_destroy_requested (t : IdleTable) (ev : IdleEvent) :
    (t.record ev).destroy_requested = t.destroy_requested := rfl

@[simp] theorem record_storage (t : IdleTable) (ev : IdleEvent) :
    (t.record ev).storage = t.storage := rfl

/-! ## Memory -/

/-- Read the item at `p`. -/
def readItem (t : IdleTable) (p : ItemPtr) : Except IdleHalt IdleItem :=
  if t.live p then pure (t.items p) else throw .useAfterFree

/-- Update the item at `p`. -/
def writeItem (t : IdleTable) (p : ItemPtr) (f : IdleItem → IdleItem) : Except IdleHalt IdleTable :=
  if t.live p then pure (t.setItem p (f (t.items p))) else throw .useAfterFree

/-- `memoryFree(item)`. -/
def memoryFree (t : IdleTable) (p : ItemPtr) : Except IdleHalt IdleTable :=
  if t.live p then pure (t.release p) else throw .doubleFree

/-- `memoryAllocate(sizeof(idle_item_t))`, filled with `item`: the next fresh address.  An
allocation failure aborts the program, so it is not modelled. -/
def memoryAllocate (t : IdleTable) (item : IdleItem) : IdleTable × ItemPtr :=
  ({ t with items := Function.update t.items t.allocated item
            live := Function.update t.live t.allocated true
            allocated := t.allocated + 1 }, t.allocated)

/-- A heap operation reads the keys of the queued items `q`. -/
def readQueued (t : IdleTable) (q : List ItemPtr) : Except IdleHalt Unit :=
  if q.all t.live then pure () else throw .useAfterFree

/-- `mutexLock(&(self->mutex))`: the mutex lives in the table's storage. -/
def mutexLock (t : IdleTable) : Except IdleHalt Unit :=
  if t.storage then pure () else throw .tableUseAfterFree

@[simp] theorem memoryAllocate_snd (t : IdleTable) (item : IdleItem) :
    (t.memoryAllocate item).2 = t.allocated := rfl

@[simp] theorem memoryAllocate_items (t : IdleTable) (item : IdleItem) :
    (t.memoryAllocate item).1.items = Function.update t.items t.allocated item := rfl

@[simp] theorem memoryAllocate_live (t : IdleTable) (item : IdleItem) :
    (t.memoryAllocate item).1.live = Function.update t.live t.allocated true := rfl

@[simp] theorem memoryAllocate_allocated (t : IdleTable) (item : IdleItem) :
    (t.memoryAllocate item).1.allocated = t.allocated + 1 := rfl

@[simp] theorem memoryAllocate_hqueue (t : IdleTable) (item : IdleItem) :
    (t.memoryAllocate item).1.hqueue = t.hqueue := rfl

@[simp] theorem memoryAllocate_hmap (t : IdleTable) (item : IdleItem) :
    (t.memoryAllocate item).1.hmap = t.hmap := rfl

@[simp] theorem memoryAllocate_storage (t : IdleTable) (item : IdleItem) :
    (t.memoryAllocate item).1.storage = t.storage := rfl

@[simp] theorem memoryAllocate_destroy_requested (t : IdleTable) (item : IdleItem) :
    (t.memoryAllocate item).1.destroy_requested = t.destroy_requested := rfl

theorem readItem_of_live {t : IdleTable} {p : ItemPtr} (h : t.live p = true) :
    t.readItem p = .ok (t.items p) := by
  simp [readItem, h, pure, Except.pure]

theorem writeItem_of_live {t : IdleTable} {p : ItemPtr} (h : t.live p = true)
    (f : IdleItem → IdleItem) : t.writeItem p f = .ok (t.setItem p (f (t.items p))) := by
  simp [writeItem, h, pure, Except.pure]

theorem memoryFree_of_live {t : IdleTable} {p : ItemPtr} (h : t.live p = true) :
    t.memoryFree p = .ok (t.release p) := by
  simp [memoryFree, h, pure, Except.pure]

theorem readQueued_of_live {t : IdleTable} {q : List ItemPtr} (h : ∀ x ∈ q, t.live x = true) :
    t.readQueued q = .ok () := by
  simp [readQueued, List.all_eq_true.2 h, pure, Except.pure]

theorem mutexLock_of_storage {t : IdleTable} (h : t.storage = true) : t.mutexLock = .ok () := by
  simp [mutexLock, h, pure, Except.pure]

end IdleTable

/-- `idleTableCreate`: an empty table on a loop at time `now_ms`. -/
def idleTableCreate (now_ms : UInt64) : IdleTable where
  items := fun _ => default
  live := fun _ => false
  allocated := 0
  hqueue := []
  hmap := HMap.empty
  posted_messages := 0
  destroy_requested := false
  storage := true
  messages := []
  now_ms := now_ms
  callbacks_run := 0
  log := []

/-- `idletableFreeResources`: drop the heap and the map, destroy the mutex, free the table. -/
def idletableFreeResources (t : IdleTable) : Except IdleHalt IdleTable :=
  if t.storage then pure { t with storage := false } else throw .tableDoubleFree

theorem idletableFreeResources_of_storage {t : IdleTable} (h : t.storage = true) :
    idletableFreeResources t = .ok { t with storage := false } := by
  simp [idletableFreeResources, h, pure, Except.pure]

/-- `idleItemKeepExpireAtForAtleast`: the compare-and-swap loop raises the expiry to
`expire_at_ms` unless it is already as late. -/
def idleItemKeepExpireAtForAtleast (item : IdleItem) (expire_at_ms : UInt64) : IdleItem :=
  if item.expire_at_ms < expire_at_ms then { item with expire_at_ms := expire_at_ms } else item

def idleItemIsInDrainList (p : ItemPtr) (items : List (ItemPtr × Bool)) : Bool :=
  items.any fun d => d.1 == p

section Table

variable (ops : PQueue.Ops ItemPtr)

/-! ## The heap -/

/-- `heapq_idles_t_push(&self->hqueue, item)`. -/
def hqueuePush (t : IdleTable) (p : ItemPtr) : Except IdleHalt IdleTable := do
  t.readQueued (t.hqueue ++ [p])
  pure { t with hqueue := ops.push t.less t.hqueue p }

/-- `heapq_idles_t_pop(&self->hqueue)`. -/
def hqueuePop (t : IdleTable) : Except IdleHalt IdleTable := do
  t.readQueued t.hqueue
  pure { t with hqueue := ops.pop t.less t.hqueue }

/-- `heapq_idles_t_make_heap(&self->hqueue)`. -/
def hqueueMakeHeap (t : IdleTable) : Except IdleHalt IdleTable := do
  t.readQueued t.hqueue
  pure { t with hqueue := ops.makeHeap t.less t.hqueue }

/-! ## The calls -/

/-- `idletableEraseItemFromMapLocked`: drop the map's entry for the item's hash if it is this
item, comparing pointers only, and mark the item removed. -/
def idletableEraseItemFromMapLocked (t : IdleTable) (p : ItemPtr) : Except IdleHalt IdleTable := do
  let item ← t.readItem p
  let t := if t.hmap.find item.hash = some p then { t with hmap := t.hmap.erase item.hash } else t
  t.writeItem p fun item => { item with removed := true }

/-- `idletableCreateItem`: a new item, or `none` when the map has an entry for the key, in which
case the new item is freed again. -/
def idletableCreateItem (t : IdleTable) (key : UInt64) (cb : Bool) (wid : UInt8)
    (age_ms : UInt64) : Except IdleHalt (IdleTable × Option ItemPtr) := do
  let (t, p) := t.memoryAllocate
    { expire_at_ms := t.now_ms + age_ms, hash := key, wid, cb, table := true, removed := false,
      worker_message_pending := false }
  t.mutexLock
  let r := t.hmap.insert key p
  if !r.2 then
    let t ← t.memoryFree p
    pure (t, none)
  else
    let t ← hqueuePush ops { t with hmap := r.1 } p
    pure (t, some p)

/-- `idletableKeepIdleItemForAtleast`, at wall-clock time `now_ms`.  Its first read of the item is
`item->table`; an item the caller already saw freed is the caller's fault. -/
def idletableKeepIdleItemForAtleast (t : IdleTable) (p : ItemPtr) (now_ms age_ms : UInt64) :
    Except IdleHalt IdleTable :=
  if !t.live p then throw .callerUseAfterFree
  else if !(t.items p).table || (t.items p).removed then throw .abort
  else t.writeItem p fun item => idleItemKeepExpireAtForAtleast item (now_ms + age_ms)

/-- `idletableGetIdleItemByHash`: the map's item for the key, if it belongs to `wid`. -/
def idletableGetIdleItemByHash (t : IdleTable) (wid : UInt8) (key : UInt64) :
    Except IdleHalt (Option ItemPtr) := do
  t.mutexLock
  match t.hmap.find key with
  | none => pure none
  | some p => do
    let item ← t.readItem p
    pure (if item.wid != wid then none else some p)

/-- `idletableRemoveIdleItemByHash`: erase the map's item for the key if it belongs to `wid`, and
leave it to its message if one is posted. -/
def idletableRemoveIdleItemByHash (t : IdleTable) (wid : UInt8) (key : UInt64) :
    Except IdleHalt (IdleTable × Bool) := do
  t.mutexLock
  match t.hmap.find key with
  | none => pure (t, false)
  | some p => do
    let item ← t.readItem p
    if item.wid != wid then pure (t, false)
    else
      let t ← idletableEraseItemFromMapLocked t p
      let item ← t.readItem p
      let t ← if item.worker_message_pending then t.writeItem p fun item => { item with table := false }
        else pure t
      pure (t.record (.removed p), true)

/-- One call on the table, its result dropped. -/
def IdleCall.run (t : IdleTable) : IdleCall → Except IdleHalt IdleTable
  | .createItem key cb wid age_ms => do
    let (t, _) ← idletableCreateItem ops t key cb wid age_ms
    pure t
  | .getIdleItemByHash wid key => do
    let _ ← idletableGetIdleItemByHash t wid key
    pure t
  | .keepIdleItemForAtleast p now_ms age_ms => idletableKeepIdleItemForAtleast t p now_ms age_ms
  | .removeIdleItemByHash wid key => do
    let (t, _) ← idletableRemoveIdleItemByHash t wid key
    pure t

/-- A callback's calls, one after the other. -/
def runCalls : IdleTable → List IdleCall → Except IdleHalt IdleTable
  | t, [] => pure t
  | t, c :: cs => do
    let t ← IdleCall.run ops t c
    runCalls t cs

/-! ## The messages -/

/-- `idletableReleaseMessageRef`: drop one message's reference, and free the table if it was the
last one after a destroy.  The source asserts the count is positive; `Inv.posted` shows it is. -/
def idletableReleaseMessageRef (t : IdleTable) : Except IdleHalt IdleTable := do
  t.mutexLock
  let t := { t with posted_messages := t.posted_messages - 1 }
  if t.posted_messages == 0 && t.destroy_requested then idletableFreeResources t else pure t

/-- `idlePostedCloseMessageCleanup`: the message for `p` is dropped unrun. -/
def idlePostedCloseMessageCleanup (t : IdleTable) (p : ItemPtr) : Except IdleHalt IdleTable := do
  t.mutexLock
  let t ← idletableEraseItemFromMapLocked t p
  let t ← t.memoryFree p
  idletableReleaseMessageRef t

/-- The mutex section of `beforeCloseWorkerMessage` for an item that has not expired yet: back into
the heap unless it was removed or detached meanwhile; the flag says whether to free it. -/
def beforeCloseWorkerMessage.requeue (t : IdleTable) (p : ItemPtr) :
    Except IdleHalt (IdleTable × Bool) := do
  t.mutexLock
  let item ← t.readItem p
  if !item.removed && item.table then
    let t ← t.writeItem p fun item => { item with worker_message_pending := false }
    let t ← hqueuePush ops t p
    pure (t, false)
  else pure (t, true)

/-- The end of `beforeCloseWorkerMessage` after the callback of `p` ran at worker time `now`: back
into the heap if the callback moved the expiry past `now`, else out of the map; the flag says
whether to free it. -/
def beforeCloseWorkerMessage.settle (t : IdleTable) (p : ItemPtr) (now old_expire_at_ms : UInt64) :
    Except IdleHalt (IdleTable × Bool) := do
  let item ← t.readItem p
  let new_expire_at_ms := item.expire_at_ms
  let keep_alive := old_expire_at_ms != new_expire_at_ms && decide (new_expire_at_ms > now)
  t.mutexLock
  let item ← t.readItem p
  let removed := item.removed || !item.table
  if !removed && keep_alive then
    let t ← t.writeItem p fun item => { item with worker_message_pending := false }
    let t ← hqueuePush ops t p
    pure (t, false)
  else
    let t ← if !removed then idletableEraseItemFromMapLocked t p else pure t
    pure (t, true)

variable (cbs : Nat → ItemPtr → List IdleCall)

/-- `item->cb(item)`. -/
def invokeCallback (t : IdleTable) (p : ItemPtr) : Except IdleHalt IdleTable :=
  runCalls ops { t with callbacks_run := t.callbacks_run + 1 } (cbs t.callbacks_run p)

/-- `beforeCloseWorkerMessage`: the message for `p` runs on its worker at time `now`. -/
def beforeCloseWorkerMessage (t : IdleTable) (p : ItemPtr) (now : UInt64) :
    Except IdleHalt IdleTable := do
  let item ← t.readItem p
  let (t, should_free) ←
    if !item.table || item.removed then pure (t, true)
    else if item.expire_at_ms > now then beforeCloseWorkerMessage.requeue ops t p
    else
      let t ← if item.cb then invokeCallback ops cbs (t.record (.fired p)) p else pure t
      beforeCloseWorkerMessage.settle ops t p now item.expire_at_ms
  let t ← if should_free then t.memoryFree p else pure t
  idletableReleaseMessageRef t

/-! ## The drain -/

/-- The walks of `c_foreach` over the map in `idletableDrainWorkerItems`: the active items of `wid`,
each with whether a message owns it.  The source walks twice, to count and then to fill the array;
both walks see the same entries. -/
def idletableDrainWorkerItems.collect (t : IdleTable) (wid : UInt8) :
    List (UInt64 × ItemPtr) → Except IdleHalt (List (ItemPtr × Bool))
  | [] => pure []
  | (_, p) :: rest => do
    let item ← t.readItem p
    let items ← collect t wid rest
    pure (if !item.removed && item.wid == wid then (p, item.worker_message_pending) :: items
      else items)

/-- The first loop over the drained items, under the mutex: out of the map, and an item a message
owns is detached and left to it. -/
def idletableDrainWorkerItems.detach : IdleTable → List (ItemPtr × Bool) → Except IdleHalt IdleTable
  | t, [] => pure t
  | t, (p, pending) :: rest => do
    let t ← idletableEraseItemFromMapLocked t p
    let t ← if pending then t.writeItem p fun item => { item with table := false } else pure t
    detach (t.record (.drained p)) rest

/-- The last loop, after the unlock: the callbacks of the items no message owns, and their frees. -/
def idletableDrainWorkerItems.finish : IdleTable → List (ItemPtr × Bool) → Except IdleHalt IdleTable
  | t, [] => pure t
  | t, (p, pending) :: rest => do
    if pending then finish t rest
    else
      let item ← t.readItem p
      let t ← if item.cb then invokeCallback ops cbs t p else pure t
      let t ← t.memoryFree p
      finish t rest

/-- `idletableDrainWorkerItems`: take the active items of `wid` out of the map and the heap, run
the callbacks of those no message owns and free them.  The check that the caller is worker `wid`
is not modelled. -/
def idletableDrainWorkerItems (t : IdleTable) (wid : UInt8) : Except IdleHalt IdleTable := do
  t.mutexLock
  let items ← idletableDrainWorkerItems.collect t wid t.hmap.entries
  if items.isEmpty then pure t
  else
    let t ← idletableDrainWorkerItems.detach t items
    -- the heap is popped empty into `kept`, each pop comparing the keys of the queued items
    t.readQueued t.hqueue
    let t := { t with hqueue := ops.rebuild t.less (fun p => !idleItemIsInDrainList p items) t.hqueue [] }
    idletableDrainWorkerItems.finish ops cbs t items

/-! ## The timer -/

/-- The loop of `idleCallBack` at time `now`, under the mutex: free the removed items that surface,
mark the expired ones pending and collect them, and stop at the first item that has not expired.
`fails p` says that pushing `p` onto the collection runs out of memory. -/
def idleCallBack.loop (now : UInt64) (fails : ItemPtr → Bool) (fuel : Nat) (t : IdleTable)
    (expired : List ItemPtr) : Except IdleHalt (IdleTable × List ItemPtr) :=
  match t.hqueue, fuel with
  | [], _ => pure (t, expired)
  | _ :: _, 0 => throw .outOfFuel
  | p :: _, fuel + 1 => do
    let item ← t.readItem p
    if item.expire_at_ms ≤ now then
      let t ← hqueuePop ops t
      if item.removed then
        let t ← t.memoryFree p
        loop now fails fuel t expired
      else
        let t ← t.writeItem p fun item => { item with worker_message_pending := true }
        if fails p then
          let t ← idletableEraseItemFromMapLocked t p
          let t ← t.writeItem p fun item => { item with worker_message_pending := false }
          let t ← t.memoryFree p
          loop now fails fuel t expired
        else
          loop now fails fuel { t with posted_messages := t.posted_messages + 1 } (expired ++ [p])
    else pure (t, expired)

/-- The posting after the unlock: a message for each collected item, to the item's worker.
`rejects p` says the message for `p` is refused at once, in which case its cleanup runs here. -/
def idleCallBack.post (rejects : ItemPtr → Bool) : IdleTable → List ItemPtr →
    Except IdleHalt IdleTable
  | t, [] => pure t
  | t, p :: rest => do
    -- `item->wid`, the worker to send to
    let _ ← t.readItem p
    let t ← if rejects p then idlePostedCloseMessageCleanup t p
      else pure { t with messages := t.messages ++ [p] }
    post rejects t rest

/-- `idleCallBack`: nothing once the table is destroyed (its timer is gone); else order the heap,
collect the expired items under the mutex and post their messages.  The timer's next period is not
modelled. -/
def idleCallBack (fails rejects : ItemPtr → Bool) (t : IdleTable) : Except IdleHalt IdleTable := do
  if t.destroy_requested then pure t
  else
    t.mutexLock
    let t ← hqueueMakeHeap ops t
    let (t, expired) ← idleCallBack.loop ops t.now_ms fails t.hqueue.length t []
    idleCallBack.post rejects t expired

/-! ## Destroy -/

/-- The walk of `idletableDestroy` over the map: every item a message owns is marked removed and
detached. -/
def idletableDestroy.detachPending (t : IdleTable) : List (UInt64 × ItemPtr) →
    Except IdleHalt IdleTable
  | [] => pure t
  | (_, p) :: rest => do
    let item ← t.readItem p
    let t ← if item.worker_message_pending then
        t.writeItem p fun item => { item with removed := true, table := false }
      else pure t
    detachPending t rest

/-- The heap loop of `idletableDestroy`: pop every queued item and free it unless a message owns
it.  Each pop takes one item away, so the heap's length is fuel enough. -/
def idletableDestroy.loop (fuel : Nat) (t : IdleTable) : Except IdleHalt IdleTable :=
  match t.hqueue, fuel with
  | [], _ => pure t
  | _ :: _, 0 => throw .outOfFuel
  | p :: _, fuel + 1 => do
    let t ← hqueuePop ops t
    let item ← t.readItem p
    let t ← if !item.worker_message_pending then t.memoryFree p else pure t
    loop fuel t

/-- `idletableDestroy`: detach the items messages own, free the queued ones, and free the table
unless a posted message still holds it. -/
def idletableDestroy (t : IdleTable) : Except IdleHalt IdleTable := do
  t.mutexLock
  let t := { t with destroy_requested := true }
  let t ← idletableDestroy.detachPending t t.hmap.entries
  let t ← idletableDestroy.loop ops t.hqueue.length t
  if t.posted_messages > 0 then pure t else idletableFreeResources t

/-! ## Runs -/

/-- The steps taken on the table, in any order: a call from any thread, a drain on a worker, a
firing of the timer, the destroy, and a worker running or dropping the `i`-th posted message. -/
inductive IdleStep
  | call (c : IdleCall)
  | drainWorkerItems (wid : UInt8)
  | idleCallBack (fails rejects : ItemPtr → Bool)
  | destroy
  | closeMessage (i : Nat) (now : UInt64)
  | cleanupMessage (i : Nat)

/-- One step.  A message taken off the queue runs with the queue without it. -/
def IdleStep.apply (t : IdleTable) : IdleStep → Except IdleHalt IdleTable
  | .call c => IdleCall.run ops t c
  | .drainWorkerItems wid => idletableDrainWorkerItems ops cbs t wid
  | .idleCallBack fails rejects => Shared.idleCallBack ops fails rejects t
  | .destroy => idletableDestroy ops t
  | .closeMessage i now =>
    match t.messages[i]? with
    | none => pure t
    | some p => beforeCloseWorkerMessage ops cbs { t with messages := t.messages.eraseIdx i } p now
  | .cleanupMessage i =>
    match t.messages[i]? with
    | none => pure t
    | some p => idlePostedCloseMessageCleanup { t with messages := t.messages.eraseIdx i } p

/-- The owner of the table calls nothing on it once it is destroyed; the messages and the timer
still run. -/
def IdleStep.Allowed (t : IdleTable) : IdleStep → Prop
  | .idleCallBack _ _ | .closeMessage _ _ | .cleanupMessage _ => True
  | _ => t.destroy_requested = false

/-- The tables reached from a new one by allowed steps, each at a loop time of its own. -/
inductive Reachable : IdleTable → Prop
  | create (now_ms : UInt64) : Reachable (idleTableCreate now_ms)
  | step {t t' : IdleTable} (now_ms : UInt64) (s : IdleStep) :
      Reachable t → s.Allowed t → IdleStep.apply ops cbs { t with now_ms := now_ms } s = .ok t' →
      Reachable t'

end Table

end WaterWall.IdleTable.Shared
