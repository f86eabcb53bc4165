import WaterWall.Bufio.ShiftBufferOps

/-!
# `buffer_pool_t`: the per-worker pools of buffers

`ww/bufio/buffer_pool.c` keeps, for each worker, a stack of free large buffers and one of small
buffers, in arrays of `cap` entries.  A get pops a buffer, recharging the stack from a
`master_pool_t` shared with other workers when it is empty; a reuse resets the buffer and pushes it
back on the stack its geometry matches, after giving half the stack to the master pool when it is
past `free_threshold`.

`WaterWall.Bufio.ShiftBuffer` takes a buffer from a pool to be an empty buffer of the pool's
geometry (`WaterWall.bufferpoolGetSmallBuffer`).  This file models the pool itself, in namespace
`WaterWall.Pool`, and proves that abstraction sound.

## What is here

* `PoolSide`, `BufferPoolState`, `MasterPool`: the stacks and the master pools, as lists.  The
  large and small functions of the source are one definition each over a `PoolSide`.
* `PoolInv`: both stacks within `cap`, and every free buffer an empty buffer of its side's
  geometry (`PoolSide.Fresh`); `PoolReachable.inv`: every operation, and every other pool's use of
  the master pools, keeps it.
* `bufferpool_invariant`: the stacks stay within their arrays, every operation returns, gets hand
  out empty buffers of the pool's geometry and a best fit has the room asked for.
* `bufferpool_refines_emptyBuffer`: a get hands out the `emptyBuffer` the frame encoders take.

The thread check, the debug counter and the temporary buffers are not modelled; the two master
pools of a pool are taken to be distinct objects.
-/

set_option autoImplicit false

namespace WaterWall

namespace Pool

/-! ## The master pool -/

/-- A `master_pool_t`: its free items `available[0, len)` and its capacity. -/
structure MasterPool where
  available : List SBuf
  cap : Nat

/-- The master pool after `masterpoolGetItems` takes its top `min(len, count)` items. -/
def MasterPool.takeItems (mp : MasterPool) (count : Nat) : MasterPool :=
  { mp with available := mp.available.take (mp.available.length - min mp.available.length count) }

/-- `masterpoolGetItems`: the top `min(len, count)` items of the master pool, in array order,
then `count - consumed` items made by the create handle. -/
def masterpoolGetItems (mp : MasterPool) (count : Nat) (create : Option SBuf) :
    Option (List SBuf × MasterPool) :=
  let consumed := min mp.available.length count
  let taken := mp.available.drop (mp.available.length - consumed)
  if count - consumed = 0 then some (taken, mp.takeItems count)
  else create.map fun b => (taken ++ List.replicate (count - consumed) b, mp.takeItems count)

/-- `masterpoolReuseItems`: the master pool keeps as many of `items` as it has room for, and the
rest are destroyed. -/
def masterpoolReuseItems (mp : MasterPool) (items : List SBuf) : MasterPool :=
  if mp.cap = mp.available.length then mp
  else { mp with available := mp.available ++ items.take (min (mp.cap - mp.available.length)
    items.length) }

theorem MasterPool.mem_takeItems {mp : MasterPool} {count : Nat} {b : SBuf}
    (h : b ∈ (mp.takeItems count).available) : b ∈ mp.available :=
  List.mem_of_mem_take h

/-! ## The pool -/

/-- One side of a `buffer_pool_t`: the geometry of its buffers, its stack
`*_buffers[0, *_buffers_container_len)` and its master pool. -/
structure PoolSide where
  buffers_size : Nat
  buffer_left_padding : Nat
  buffers : List SBuf
  buffers_mp : MasterPool

/-- A `buffer_pool_t`. -/
structure BufferPoolState where
  cap : Nat
  free_threshold : Nat
  large : PoolSide
  small : PoolSide

/-- The two sides of a pool, whose functions the source writes out twice. -/
inductive PoolKind
  | large
  | small
  deriving DecidableEq

namespace BufferPoolState

/-- The side of a pool. -/
def side (pool : BufferPoolState) : PoolKind → PoolSide
  | .large => pool.large
  | .small => pool.small

/-- The pool with one side replaced. -/
def setSide (pool : BufferPoolState) : PoolKind → PoolSide → BufferPoolState
  | .large, s => { pool with large := s }
  | .small, s => { pool with small := s }

end BufferPoolState

/-- `createLargeBufHandle` and `createSmallBufHandle`, which `masterpoolGetItems` calls with the
pool as `userdata`. -/
def PoolSide.create (w : Nat) (s : PoolSide) : Option SBuf :=
  sbufCreateWithPadding w s.buffers_size s.buffer_left_padding

/-- `reChargeLargeBuffers` and `reChargeSmallBuffers`: fill the stack by `min(cap - len, cap / 2)`
items from the master pool, written at `[len, len + increase)` of the array. -/
def reCharge (w cap : Nat) (s : PoolSide) : Option PoolSide :=
  let increase := min (cap - s.buffers.length) (cap / 2)
  if s.buffers.length + increase ≤ cap then
    (masterpoolGetItems s.buffers_mp increase (s.create w)).map fun r =>
      { s with buffers := s.buffers ++ r.1, buffers_mp := r.2 }
  else none

/-- `shrinkLargeBuffers` and `shrinkSmallBuffers`: give the top `min(len, cap / 2)` buffers to the
master pool. -/
def shrink (cap : Nat) (s : PoolSide) : PoolSide :=
  let decrease := min s.buffers.length (cap / 2)
  { s with buffers := s.buffers.take (s.buffers.length - decrease),
           buffers_mp := masterpoolReuseItems s.buffers_mp
             (s.buffers.drop (s.buffers.length - decrease)) }

/-- `--len; return buffers[len]`. -/
def pop (s : PoolSide) : Option (SBuf × PoolSide) :=
  s.buffers.getLast?.map fun b => (b, { s with buffers := s.buffers.dropLast })

/-- The body of `bufferpoolGetLargeBuffer` and `bufferpoolGetSmallBuffer` on one side: pop,
recharging an empty stack first. -/
def getBuffer (w cap : Nat) (s : PoolSide) : Option (SBuf × PoolSide) :=
  if 0 < s.buffers.length then pop s else (reCharge w cap s).bind pop

/-- The push of `bufferpoolReuseBuffer` on the side whose geometry matched: shrink past the
threshold, then `buffers[len++] = b`, which must be inside the array. -/
def putBack (cap free_threshold : Nat) (s : PoolSide) (b : SBuf) : Option PoolSide :=
  let s := if s.buffers.length > free_threshold then shrink cap s else s
  if s.buffers.length < cap then some { s with buffers := s.buffers ++ [b] } else none

/-- A get from one side of the pool. -/
def getPoolBuffer (w : Nat) (pool : BufferPoolState) (k : PoolKind) :
    Option (SBuf × BufferPoolState) :=
  (getBuffer w pool.cap (pool.side k)).map fun r => (r.1, pool.setSide k r.2)

def bufferpoolGetLargeBuffer (w : Nat) (pool : BufferPoolState) :
    Option (SBuf × BufferPoolState) :=
  getPoolBuffer w pool .large

def bufferpoolGetSmallBuffer (w : Nat) (pool : BufferPoolState) :
    Option (SBuf × BufferPoolState) :=
  getPoolBuffer w pool .small

/-- `bufferpoolGetBestFit`: a small buffer if it has the room and the padding, else a large one,
else a new buffer of exactly what was asked. -/
def bufferpoolGetBestFit (w : Nat) (pool : BufferPoolState)
    (minimum_payload minimum_left_padding : Nat) : Option (SBuf × BufferPoolState) :=
  if minimum_payload ≤ pool.small.buffers_size ∧
      minimum_left_padding ≤ pool.small.buffer_left_padding then
    bufferpoolGetSmallBuffer w pool
  else if minimum_payload ≤ pool.large.buffers_size ∧
      minimum_left_padding ≤ pool.large.buffer_left_padding then
    bufferpoolGetLargeBuffer w pool
  else (sbufCreateWithPadding w minimum_payload minimum_left_padding).map fun b => (b, pool)

/-- `sbufReset`: an empty payload at the padding.  A buffer whose padding passes its capacity is
not one `sbufCreateWithPadding` makes; its reset is `none`. -/
def sbufReset (b : SBuf) : Option SBuf :=
  if h : b.lpad ≤ b.mem.length then some (b.setCursor b.lpad 0 (by simpa using h)) else none

/-- A push on one side of the pool. -/
def putPoolBuffer (pool : BufferPoolState) (k : PoolKind) (b : SBuf) : Option BufferPoolState :=
  (putBack pool.cap pool.free_threshold (pool.side k) b).map (pool.setSide k)

/-- `bufferpoolReuseBuffer`: reset the buffer and push it on the stack whose geometry it has, or
destroy it. -/
def bufferpoolReuseBuffer (pool : BufferPoolState) (b : SBuf) : Option BufferPoolState :=
  (sbufReset b).bind fun b =>
    if sbufGetTotalCapacityNoPadding b = pool.large.buffers_size ∧
        sbufGetLeftPadding b = pool.large.buffer_left_padding then
      putPoolBuffer pool .large b
    else if sbufGetTotalCapacityNoPadding b = pool.small.buffers_size ∧
        sbufGetLeftPadding b = pool.small.buffer_left_padding then
      putPoolBuffer pool .small b
    else some pool

/-- `bufferpoolRoundBufferSize`: the capacity `sbufCreateWithPadding` gives a buffer of this size
with no padding.  Aborts when there is none. -/
def bufferpoolRoundBufferSize (w requested : Nat) : Option Nat :=
  sbufTryComputeCapacity w requested 0

/-- `bufferpoolCreate`: twice `bufcount` entries per stack, both empty, sizes rounded, paddings
zero.  `(bufcount * 2) / 3` is computed in `uint32_t`. -/
def bufferpoolCreate (w : Nat) (mp_large mp_small : MasterPool)
    (bufcount large_buffer_size small_buffer_size : Nat) : Option BufferPoolState :=
  if 1 ≤ bufcount ∧ bufcount ≤ UINT32_MAX / 2 then
    let bufcount := 2 * bufcount
    (bufferpoolRoundBufferSize w large_buffer_size).bind fun large_size =>
      (bufferpoolRoundBufferSize w small_buffer_size).map fun small_size =>
        { cap := bufcount,
          free_threshold := max (bufcount / 2) (bufcount * 2 % 2 ^ 32 / 3),
          large := ⟨large_size, 0, [], mp_large⟩,
          small := ⟨small_size, 0, [], mp_small⟩ }
  else none

/-! ## Requests the capacity computation refuses -/

/-- An accepted request has its padding aligned within 16 bits. -/
theorem alignUp32_le_of_sbufTryComputeCapacityWithin {n p m t : Nat}
    (h : sbufTryComputeCapacityWithin n p m = some t) : alignUp32 p ≤ UINT16_MAX := by
  unfold sbufTryComputeCapacityWithin at h
  dsimp only at h
  by_contra hc
  rw [if_pos (show alignUp32 p > UINT16_MAX by omega)] at h
  cases h

/-- `0xFFFFFFFF` bytes round up to `2 ^ 32`, past 32 bits, whatever the padding. -/
theorem sbufTryComputeCapacity_huge (w p : Nat) : sbufTryComputeCapacity w 0xFFFFFFFF p = none := by
  cases h : sbufTryComputeCapacity w 0xFFFFFFFF p with
  | none => rfl
  | some t =>
    obtain ⟨capacity, htotal, hmin, hmod, hle⟩ := sbufTryComputeCapacityWithin_spec h
    simp only [kCpuLineCacheSize, UINT32_MAX] at hmod hle
    omega

/-- `65535` bytes of padding align to `65536`, past 16 bits, whatever the room. -/
theorem sbufTryComputeCapacity_wide_pad (w n : Nat) : sbufTryComputeCapacity w n 65535 = none := by
  cases h : sbufTryComputeCapacity w n 65535 with
  | none => rfl
  | some t => exact absurd (alignUp32_le_of_sbufTryComputeCapacityWithin h) (by decide)

/-! ## The invariant -/

/-- A free buffer of the side: empty, at the side's padding, with the side's capacity behind it. -/
def PoolSide.Fresh (s : PoolSide) (b : SBuf) : Prop :=
  b.len = 0 ∧ b.curpos = s.buffer_left_padding ∧ b.lpad = s.buffer_left_padding ∧
    b.mem.length = s.buffer_left_padding + s.buffers_size

/-- What a side keeps: an aligned padding, a geometry `sbufCreateWithPadding` makes exactly, a
stack within its array, and only fresh buffers in the stack and in the master pool. -/
structure SideInv (w cap : Nat) (s : PoolSide) : Prop where
  aligned : alignUp32 s.buffer_left_padding = s.buffer_left_padding
  exact : sbufTryComputeCapacity w s.buffers_size s.buffer_left_padding =
    some (s.buffers_size + s.buffer_left_padding)
  len_le : s.buffers.length ≤ cap
  fresh : ∀ b ∈ s.buffers, s.Fresh b
  fresh_mp : ∀ b ∈ s.buffers_mp.available, s.Fresh b

/-- The invariant of a `buffer_pool_t`. -/
structure PoolInv (w : Nat) (pool : BufferPoolState) : Prop where
  cap_ge : 2 ≤ pool.cap
  threshold_lt : pool.free_threshold < pool.cap
  large : SideInv w pool.cap pool.large
  small : SideInv w pool.cap pool.small

section Side

variable {w cap : Nat} {s : PoolSide}

theorem PoolSide.create_fresh (h : SideInv w cap s) :
    ∃ b, s.create w = some b ∧ s.Fresh b := by
  obtain ⟨b, hb, -, -⟩ := sbufCreateWithPadding_eq h.exact
  obtain ⟨-, hcap, hlen, hcur, hpad, -⟩ := sbufCreateWithPadding_some hb
  rw [h.exact, Option.some.injEq] at hcap
  refine ⟨b, hb, hlen, by rw [hcur, h.aligned], by rw [hpad, h.aligned], ?_⟩
  rw [← hcap, Nat.add_comm]

theorem masterpoolGetItems_fresh {mp : MasterPool} {count : Nat} {create : Option SBuf}
    {items : List SBuf} {mp' : MasterPool} (hmp : ∀ b ∈ mp.available, s.Fresh b)
    (hc : ∀ b, create = some b → s.Fresh b)
    (h : masterpoolGetItems mp count create = some (items, mp')) :
    items.length = count ∧ (∀ b ∈ items, s.Fresh b) ∧ ∀ b ∈ mp'.available, s.Fresh b := by
  simp only [masterpoolGetItems] at h
  split at h
  · simp only [Option.some.injEq, Prod.mk.injEq] at h
    obtain ⟨rfl, rfl⟩ := h
    refine ⟨by simp only [List.length_drop]; omega, fun b hb => hmp b (List.mem_of_mem_drop hb),
      fun b hb => hmp b (MasterPool.mem_takeItems hb)⟩
  · -- the master pool ran short: the create handle makes the rest
    obtain ⟨c, hcs, hr⟩ := Option.map_eq_some_iff.1 h
    simp only [Prod.mk.injEq] at hr
    obtain ⟨rfl, rfl⟩ := hr
    refine ⟨by simp only [List.length_append, List.length_drop, List.length_replicate]; omega,
      fun b hb => ?_, fun b hb => hmp b (MasterPool.mem_takeItems hb)⟩
    rcases List.mem_append.1 hb with hb | hb
    · exact hmp b (List.mem_of_mem_drop hb)
    · rw [List.eq_of_mem_replicate hb]
      exact hc c hcs

theorem masterpoolReuseItems_fresh {mp : MasterPool} {items : List SBuf}
    (hmp : ∀ b ∈ mp.available, s.Fresh b) (hi : ∀ b ∈ items, s.Fresh b) :
    ∀ b ∈ (masterpoolReuseItems mp items).available, s.Fresh b := by
  unfold masterpoolReuseItems
  split
  · exact hmp
  · intro b hb
    rcases List.mem_append.1 hb with hb | hb
    · exact hmp b hb
    · exact hi b (List.mem_of_mem_take hb)

/-- Another master pool of fresh buffers keeps the side's invariant. -/
theorem SideInv.setMaster (h : SideInv w cap s) {mp : MasterPool}
    (hmp : ∀ b ∈ mp.available, s.Fresh b) : SideInv w cap { s with buffers_mp := mp } :=
  ⟨h.aligned, h.exact, h.len_le, h.fresh, hmp⟩

/-- A recharge of an empty stack writes `cap / 2` fresh buffers inside the array. -/
theorem reCharge_eq (h : SideInv w cap s) (hempty : s.buffers = []) :
    ∃ s', reCharge w cap s = some s' ∧ SideInv w cap s' ∧ s'.buffers.length = cap / 2 ∧
      s'.Fresh = s.Fresh := by
  obtain ⟨c, hc, hcf⟩ := PoolSide.create_fresh h
  have hinc : min (cap - s.buffers.length) (cap / 2) = cap / 2 := by
    rw [hempty, List.length_nil, Nat.sub_zero]
    omega
  have hget : ∃ r, masterpoolGetItems s.buffers_mp (cap / 2) (s.create w) = some r := by
    simp only [masterpoolGetItems]
    split
    · exact ⟨_, rfl⟩
    · exact ⟨_, by rw [hc]; rfl⟩
  obtain ⟨⟨items, mp'⟩, hr⟩ := hget
  obtain ⟨hlen, hitems, hmp'⟩ := masterpoolGetItems_fresh h.fresh_mp
    (fun b hb => by rw [hc, Option.some.injEq] at hb; exact hb ▸ hcf) hr
  have hlen' : (s.buffers ++ items).length = cap / 2 := by simp [hempty, hlen]
  have hroom : s.buffers.length + cap / 2 ≤ cap := by
    rw [hempty, List.length_nil, Nat.zero_add]
    exact Nat.div_le_self _ _
  refine ⟨{ s with buffers := s.buffers ++ items, buffers_mp := mp' }, ?_,
    ⟨h.aligned, h.exact, hlen'.trans_le (Nat.div_le_self _ _), ?_, hmp'⟩, hlen', rfl⟩
  · rw [reCharge, hinc, if_pos hroom, hr]
    rfl
  · rw [hempty, List.nil_append]
    exact hitems

theorem pop_fresh (h : SideInv w cap s) {b : SBuf} {s' : PoolSide} (hp : pop s = some (b, s')) :
    s.Fresh b ∧ SideInv w cap s' ∧ s'.Fresh = s.Fresh := by
  obtain ⟨b', hlast, hr⟩ := Option.map_eq_some_iff.1 hp
  simp only [Prod.mk.injEq] at hr
  obtain ⟨rfl, rfl⟩ := hr
  refine ⟨h.fresh _ (List.mem_of_getLast? hlast),
    ⟨h.aligned, h.exact, ?_, fun x hx => h.fresh x (List.dropLast_subset _ hx), h.fresh_mp⟩, rfl⟩
  simp only [List.length_dropLast]
  exact Nat.sub_le_of_le_add (Nat.le_add_right_of_le h.len_le)

theorem pop_isSome {s : PoolSide} (h : 0 < s.buffers.length) : ∃ r, pop s = some r := by
  obtain ⟨b, hlast⟩ : ∃ b, s.buffers.getLast? = some b :=
    Option.isSome_iff_exists.1 (List.getLast?_isSome.2 (List.ne_nil_of_length_pos h))
  exact ⟨_, by rw [pop, hlast]; rfl⟩

/-- **A get always returns a fresh buffer** and keeps the side's invariant. -/
theorem getBuffer_eq (h : SideInv w cap s) (hcap : 2 ≤ cap) :
    ∃ b s', getBuffer w cap s = some (b, s') ∧ s.Fresh b ∧ SideInv w cap s' ∧
      s'.Fresh = s.Fresh := by
  by_cases hpos : 0 < s.buffers.length
  · obtain ⟨⟨b, s'⟩, hp⟩ := pop_isSome hpos
    obtain ⟨hb, hs', hfresh⟩ := pop_fresh h hp
    exact ⟨b, s', by rw [getBuffer, if_pos hpos, hp], hb, hs', hfresh⟩
  · -- an empty stack is recharged with `cap / 2` buffers, then popped
    have hempty : s.buffers = [] := List.eq_nil_of_length_eq_zero (by omega)
    obtain ⟨s₁, hr, hs₁, hlen₁, hfresh₁⟩ := reCharge_eq h hempty
    obtain ⟨⟨b, s'⟩, hp⟩ := pop_isSome (s := s₁) (by omega)
    obtain ⟨hb, hs', hfresh⟩ := pop_fresh hs₁ hp
    refine ⟨b, s', by rw [getBuffer, if_neg hpos, hr, Option.bind_some, hp], ?_, hs', ?_⟩
    · rw [← hfresh₁]
      exact hb
    · rw [hfresh, hfresh₁]

theorem shrink_inv (h : SideInv w cap s) : SideInv w cap (shrink cap s) :=
  ⟨h.aligned, h.exact, (List.length_take_le' _ _).trans h.len_le,
    fun b hb => h.fresh b (List.mem_of_mem_take hb),
    masterpoolReuseItems_fresh h.fresh_mp fun b hb => h.fresh b (List.mem_of_mem_drop hb)⟩

/-- **A push after the threshold check is inside the array**, and keeps the invariant. -/
theorem putBack_eq (h : SideInv w cap s) (hcap : 2 ≤ cap) {free_threshold : Nat}
    (hth : free_threshold < cap) {b : SBuf} (hb : s.Fresh b) :
    ∃ s', putBack cap free_threshold s b = some s' ∧ SideInv w cap s' ∧ s'.Fresh = s.Fresh := by
  have hle := h.len_le
  -- the stack pushed on: shrunk by `cap / 2 ≥ 1` when past the threshold
  set s₁ := if s.buffers.length > free_threshold then shrink cap s else s with hs₁
  have hinv₁ : SideInv w cap s₁ := by
    rw [hs₁]
    split
    · exact shrink_inv h
    · exact h
  have hfresh₁ : s₁.Fresh = s.Fresh := by
    rw [hs₁]
    split <;> rfl
  have hlt : s₁.buffers.length < cap := by
    rw [hs₁]
    split
    · simp only [shrink, List.length_take]
      omega
    · omega
  refine ⟨{ s₁ with buffers := s₁.buffers ++ [b] }, by rw [putBack, if_pos hlt],
    ⟨hinv₁.aligned, hinv₁.exact, ?_, fun x hx => ?_, hinv₁.fresh_mp⟩, hfresh₁⟩
  · rw [List.length_append, List.length_singleton]
    exact hlt
  · rcases List.mem_append.1 hx with hx | hx
    · exact hinv₁.fresh x hx
    · rw [List.mem_singleton.1 hx]
      show s₁.Fresh b
      rw [hfresh₁]
      exact hb

/-- A reset buffer whose geometry is the side's is fresh. -/
theorem PoolSide.fresh_setCursor {b : SBuf} (hfit : b.lpad + 0 ≤ b.mem.length)
    (hsz : sbufGetTotalCapacityNoPadding (b.setCursor b.lpad 0 hfit) = s.buffers_size)
    (hpad : sbufGetLeftPadding (b.setCursor b.lpad 0 hfit) = s.buffer_left_padding) :
    s.Fresh (b.setCursor b.lpad 0 hfit) := by
  simp only [sbufGetTotalCapacityNoPadding, sbufGetLeftPadding, SBuf.setCursor_mem,
    SBuf.setCursor_lpad] at hsz hpad
  refine ⟨rfl, hpad, hpad, ?_⟩
  rw [SBuf.setCursor_mem, ← hsz, ← hpad]
  omega

end Side

/-! ## The pool keeps the invariant -/

section Pool

variable {w : Nat} {pool : BufferPoolState}

theorem PoolInv.side (hi : PoolInv w pool) : ∀ k, SideInv w pool.cap (pool.side k)
  | .large => hi.large
  | .small => hi.small

theorem PoolInv.setSide (hi : PoolInv w pool) {s : PoolSide} (hs : SideInv w pool.cap s) :
    ∀ k, PoolInv w (pool.setSide k s)
  | .large => ⟨hi.cap_ge, hi.threshold_lt, hs, hi.small⟩
  | .small => ⟨hi.cap_ge, hi.threshold_lt, hi.large, hs⟩

/-- A get from either side returns a fresh buffer of that side and keeps the invariant. -/
theorem getPoolBuffer_eq (hi : PoolInv w pool) (k : PoolKind) :
    ∃ b pool', getPoolBuffer w pool k = some (b, pool') ∧ (pool.side k).Fresh b ∧
      PoolInv w pool' := by
  obtain ⟨b, s', hg, hb, hs', -⟩ := getBuffer_eq (hi.side k) hi.cap_ge
  exact ⟨b, _, by rw [getPoolBuffer, hg]; rfl, hb, hi.setSide hs' k⟩

/-- A push of a fresh buffer on either side returns and keeps the invariant. -/
theorem putPoolBuffer_eq (hi : PoolInv w pool) (k : PoolKind) {b : SBuf}
    (hb : (pool.side k).Fresh b) : ∃ pool', putPoolBuffer pool k b = some pool' ∧ PoolInv w pool' := by
  obtain ⟨s', hp, hs', -⟩ := putBack_eq (hi.side k) hi.cap_ge hi.threshold_lt hb
  exact ⟨_, by rw [putPoolBuffer, hp]; rfl, hi.setSide hs' k⟩

/-- **A reuse of any buffer that fits its padding returns** and keeps the invariant: the buffer is
pushed on the side whose geometry it has, or destroyed. -/
theorem bufferpoolReuseBuffer_eq (hi : PoolInv w pool) {b : SBuf} (hb : b.lpad ≤ b.mem.length) :
    ∃ pool', bufferpoolReuseBuffer pool b = some pool' ∧ PoolInv w pool' := by
  have hfit : b.lpad + 0 ≤ b.mem.length := by simpa using hb
  rw [bufferpoolReuseBuffer, sbufReset, dif_pos hb, Option.bind_some]
  split_ifs with hlarge hsmall
  · exact putPoolBuffer_eq hi .large (PoolSide.fresh_setCursor hfit hlarge.1 hlarge.2)
  · exact putPoolBuffer_eq hi .small (PoolSide.fresh_setCursor hfit hsmall.1 hsmall.2)
  · exact ⟨pool, rfl, hi⟩

/-- A best fit has the room and the padding asked for, and keeps the invariant. -/
theorem bufferpoolGetBestFit_spec (hi : PoolInv w pool) {n p : Nat} {b : SBuf}
    {pool' : BufferPoolState} (h : bufferpoolGetBestFit w pool n p = some (b, pool')) :
    n ≤ sbufGetTotalCapacity b - b.curpos ∧ p ≤ b.curpos ∧ PoolInv w pool' := by
  -- a pooled buffer of a side whose geometry covers the request
  have hpooled : ∀ k, n ≤ (pool.side k).buffers_size → p ≤ (pool.side k).buffer_left_padding →
      getPoolBuffer w pool k = some (b, pool') →
      n ≤ sbufGetTotalCapacity b - b.curpos ∧ p ≤ b.curpos ∧ PoolInv w pool' := by
    intro k hn hp hg
    obtain ⟨b', pool'', hg', hb', hi'⟩ := getPoolBuffer_eq hi k
    rw [hg', Option.some.injEq, Prod.mk.injEq] at hg
    obtain ⟨rfl, rfl⟩ := hg
    obtain ⟨-, hcur, -, hmem⟩ := hb'
    refine ⟨?_, hcur ▸ hp, hi'⟩
    rw [sbufGetTotalCapacity, hmem, hcur]
    omega
  unfold bufferpoolGetBestFit at h
  split_ifs at h with hsmall hlarge
  · exact hpooled .small hsmall.1 hsmall.2 h
  · exact hpooled .large hlarge.1 hlarge.2 h
  · -- a buffer made to measure; the pool is unchanged
    obtain ⟨b', hb', hr⟩ := Option.map_eq_some_iff.1 h
    simp only [Prod.mk.injEq] at hr
    obtain ⟨rfl, rfl⟩ := hr
    obtain ⟨-, -, -, hcur, -, hroom⟩ := sbufCreateWithPadding_some hb'
    exact ⟨hroom, hcur ▸ le_alignUp32 p, hi⟩

theorem isSome_sbufCreateWithPadding {n p : Nat} :
    (sbufCreateWithPadding w n p).isSome ↔ (sbufTryComputeCapacity w n p).isSome := by
  constructor
  · intro h
    obtain ⟨b, hb⟩ := Option.isSome_iff_exists.1 h
    rw [(sbufCreateWithPadding_some hb).2.1]
    rfl
  · intro h
    obtain ⟨cap, hcap⟩ := Option.isSome_iff_exists.1 h
    obtain ⟨b, hb, -⟩ := sbufCreateWithPadding_eq hcap
    rw [hb]
    rfl

/-- **When a best fit returns.**  A request one side's buffers cover is served from that side,
which always returns; any other is a new buffer, which `sbufCreateWithPadding` makes exactly when
the capacity computation accepts the request, and aborts on otherwise. -/
theorem isSome_bufferpoolGetBestFit (hi : PoolInv w pool) (n p : Nat) :
    (bufferpoolGetBestFit w pool n p).isSome ↔
      (n ≤ pool.small.buffers_size ∧ p ≤ pool.small.buffer_left_padding) ∨
      (n ≤ pool.large.buffers_size ∧ p ≤ pool.large.buffer_left_padding) ∨
      (sbufTryComputeCapacity w n p).isSome := by
  have hget : ∀ k, (getPoolBuffer w pool k).isSome := fun k => by
    obtain ⟨b, pool', hg, -⟩ := getPoolBuffer_eq hi k
    rw [hg]
    rfl
  unfold bufferpoolGetBestFit
  split_ifs with hsmall hlarge
  · exact iff_of_true (hget .small) (Or.inl hsmall)
  · exact iff_of_true (hget .large) (Or.inr (Or.inl hlarge))
  · rw [Option.isSome_map, isSome_sbufCreateWithPadding]
    simp only [hsmall, hlarge, false_or]

/-- A side's buffers are shorter than `0xFFFFFFFF` bytes, behind less than `65535` bytes of
padding: the capacity computation that made the geometry rounds to cache lines within 32 bits
and aligns the padding within 16. -/
theorem SideInv.lt_max {cap : Nat} {s : PoolSide} (h : SideInv w cap s) :
    s.buffers_size < 0xFFFFFFFF ∧ s.buffer_left_padding < 65535 := by
  obtain ⟨capacity, htotal, -, hmod, hle⟩ := sbufTryComputeCapacityWithin_spec h.exact
  have hpad := alignUp32_le_of_sbufTryComputeCapacityWithin h.exact
  have haligned := h.aligned
  rw [haligned] at htotal hpad
  unfold alignUp32 at haligned
  simp only [kCpuLineCacheSize, UINT32_MAX, UINT16_MAX] at hmod hle hpad
  omega

/-- **A best fit can abort.**  No side of a pool covers a request for `0xFFFFFFFF` bytes, whose
cache-line rounding passes 32 bits, or for `65535` bytes of padding, whose alignment passes 16;
`sbufCreateWithPadding` then aborts. -/
theorem bufferpoolGetBestFit_eq_none (hi : PoolInv w pool) (n p : Nat) :
    bufferpoolGetBestFit w pool 0xFFFFFFFF p = none ∧ bufferpoolGetBestFit w pool n 65535 = none := by
  have hl := hi.large.lt_max
  have hs := hi.small.lt_max
  constructor
  · rw [← Option.not_isSome_iff_eq_none, isSome_bufferpoolGetBestFit hi,
      sbufTryComputeCapacity_huge]
    simp only [Option.isSome_none, Bool.false_eq_true, or_false]
    omega
  · rw [← Option.not_isSome_iff_eq_none, isSome_bufferpoolGetBestFit hi,
      sbufTryComputeCapacity_wide_pad]
    simp only [Option.isSome_none, Bool.false_eq_true, or_false]
    omega

/-- A pool fresh from `bufferpoolCreate` keeps the invariant. -/
theorem PoolInv.create {mp_large mp_small : MasterPool}
    {bufcount large_buffer_size small_buffer_size : Nat}
    (h : bufferpoolCreate w mp_large mp_small bufcount large_buffer_size small_buffer_size =
      some pool)
    (hl : ∀ b ∈ mp_large.available, pool.large.Fresh b)
    (hs : ∀ b ∈ mp_small.available, pool.small.Fresh b) : PoolInv w pool := by
  unfold bufferpoolCreate at h
  split_ifs at h with hb
  obtain ⟨large_size, hlarge, h⟩ := Option.bind_eq_some_iff.1 h
  obtain ⟨small_size, hsmall, rfl⟩ := Option.map_eq_some_iff.1 h
  -- a rounded size is rounded to itself
  have hexact : ∀ {req size : Nat}, bufferpoolRoundBufferSize w req = some size →
      sbufTryComputeCapacity w size 0 = some (size + 0) := fun hr => by
    have := sbufTryComputeCapacityWithin_idem
      (show sbufTryComputeCapacityWithin _ 0 (sizeMax w) = some _ from hr)
    rw [show alignUp32 0 = 0 from rfl, Nat.sub_zero] at this
    exact this
  have hcap : max (2 * bufcount / 2) (2 * bufcount * 2 % 2 ^ 32 / 3) < 2 * bufcount := by
    simp only [UINT32_MAX] at hb
    omega
  exact ⟨Nat.mul_le_mul_left 2 hb.1, hcap,
    ⟨rfl, hexact hlarge, Nat.zero_le _, fun _ h => absurd h List.not_mem_nil, hl⟩,
    ⟨rfl, hexact hsmall, Nat.zero_le _, fun _ h => absurd h List.not_mem_nil, hs⟩⟩

end Pool

/-! ## Runs -/

/-- What happens to a pool: its worker's calls, and another worker's pool of the same geometry
taking items from or giving items to a master pool they share. -/
inductive PoolStep
  | getLargeBuffer
  | getSmallBuffer
  | getBestFit (minimum_payload minimum_left_padding : Nat)
  | reuseBuffer (b : SBuf)
  | masterTakes (k : PoolKind) (count : Nat)
  | masterGives (k : PoolKind) (items : List SBuf)

/-- One step. -/
def PoolStep.apply (w : Nat) (pool : BufferPoolState) : PoolStep → Option BufferPoolState
  | .getLargeBuffer => (bufferpoolGetLargeBuffer w pool).map Prod.snd
  | .getSmallBuffer => (bufferpoolGetSmallBuffer w pool).map Prod.snd
  | .getBestFit n p => (bufferpoolGetBestFit w pool n p).map Prod.snd
  | .reuseBuffer b => bufferpoolReuseBuffer pool b
  | .masterTakes k count =>
    some (pool.setSide k { pool.side k with
      buffers_mp := (pool.side k).buffers_mp.takeItems count })
  | .masterGives k items =>
    some (pool.setSide k { pool.side k with
      buffers_mp := masterpoolReuseItems (pool.side k).buffers_mp items })

/-- What a step needs from the world: a buffer given back has its padding within its capacity,
and another pool gives only reset buffers of this pool's geometry. -/
def PoolStep.Allowed (pool : BufferPoolState) : PoolStep → Prop
  | .reuseBuffer b => b.lpad ≤ b.mem.length
  | .masterGives k items => ∀ b ∈ items, (pool.side k).Fresh b
  | _ => True

/-- The pools reached from `bufferpoolCreate`, on master pools holding buffers of its geometry. -/
inductive PoolReachable (w : Nat) : BufferPoolState → Prop
  | create {mp_large mp_small : MasterPool} {bufcount large_buffer_size small_buffer_size : Nat}
      {pool : BufferPoolState} :
      bufferpoolCreate w mp_large mp_small bufcount large_buffer_size small_buffer_size =
        some pool →
      (∀ b ∈ mp_large.available, pool.large.Fresh b) →
      (∀ b ∈ mp_small.available, pool.small.Fresh b) → PoolReachable w pool
  | step {pool pool' : BufferPoolState} (s : PoolStep) : PoolReachable w pool → s.Allowed pool →
      s.apply w pool = some pool' → PoolReachable w pool'

theorem PoolStep.apply_inv {w : Nat} {pool pool' : BufferPoolState} (hi : PoolInv w pool)
    {s : PoolStep} (ha : s.Allowed pool) (h : s.apply w pool = some pool') : PoolInv w pool' := by
  -- a get's new pool, whatever it hands out
  have hget : ∀ k, (getPoolBuffer w pool k).map Prod.snd = some pool' → PoolInv w pool' := by
    intro k hk
    obtain ⟨b, pool'', hg, -, hi'⟩ := getPoolBuffer_eq hi k
    rw [hg, Option.map_some, Option.some.injEq] at hk
    exact hk ▸ hi'
  cases s with
  | getLargeBuffer => exact hget .large h
  | getSmallBuffer => exact hget .small h
  | getBestFit n p =>
    obtain ⟨⟨b, pool''⟩, hg, rfl⟩ := Option.map_eq_some_iff.1 h
    exact (bufferpoolGetBestFit_spec hi hg).2.2
  | reuseBuffer b =>
    obtain ⟨pool'', hr, hi'⟩ := bufferpoolReuseBuffer_eq hi (show b.lpad ≤ b.mem.length from ha)
    rw [PoolStep.apply, hr, Option.some.injEq] at h
    exact h ▸ hi'
  | masterTakes k count =>
    rw [PoolStep.apply, Option.some.injEq] at h
    subst h
    exact hi.setSide ((hi.side k).setMaster fun b hb =>
      (hi.side k).fresh_mp b (MasterPool.mem_takeItems hb)) k
  | masterGives k items =>
    rw [PoolStep.apply, Option.some.injEq] at h
    subst h
    exact hi.setSide ((hi.side k).setMaster
      (masterpoolReuseItems_fresh (hi.side k).fresh_mp ha)) k

theorem PoolReachable.inv {w : Nat} {pool : BufferPoolState} (r : PoolReachable w pool) :
    PoolInv w pool := by
  induction r with
  | create h hl hs => exact PoolInv.create h hl hs
  | step s _ ha happly ih => exact PoolStep.apply_inv ih ha happly

/-- **The buffer pool's representation invariant**, for every pool reached from `bufferpoolCreate`
while the pools sharing its master pools have its geometry: both stacks stay within their arrays,
so every write of a reuse and of a recharge is in bounds and every get and reuse returns; a small
(large) buffer handed out is empty, at the pool's small (large) padding, with the small (large)
size behind it; a best fit returns exactly when one side covers the request or the capacity
computation accepts it (it aborts otherwise), and what it returns has the room and the padding
asked for. -/
theorem bufferpool_invariant (w : Nat) {pool : BufferPoolState} (r : PoolReachable w pool) :
    pool.small.buffers.length ≤ pool.cap ∧ pool.large.buffers.length ≤ pool.cap ∧
    (∃ b pool', bufferpoolGetSmallBuffer w pool = some (b, pool') ∧ b.len = 0 ∧
      b.curpos = b.lpad ∧ b.lpad = pool.small.buffer_left_padding ∧
      sbufGetTotalCapacity b - b.lpad = pool.small.buffers_size) ∧
    (∃ b pool', bufferpoolGetLargeBuffer w pool = some (b, pool') ∧ b.len = 0 ∧
      b.curpos = b.lpad ∧ b.lpad = pool.large.buffer_left_padding ∧
      sbufGetTotalCapacity b - b.lpad = pool.large.buffers_size) ∧
    (∀ b : SBuf, b.lpad ≤ b.mem.length → ∃ pool', bufferpoolReuseBuffer pool b = some pool') ∧
    (∀ n p, (bufferpoolGetBestFit w pool n p).isSome ↔
      (n ≤ pool.small.buffers_size ∧ p ≤ pool.small.buffer_left_padding) ∨
      (n ≤ pool.large.buffers_size ∧ p ≤ pool.large.buffer_left_padding) ∨
      (sbufTryComputeCapacity w n p).isSome) ∧
    (∀ n p b pool', bufferpoolGetBestFit w pool n p = some (b, pool') →
      n ≤ sbufGetTotalCapacity b - b.curpos ∧ p ≤ b.curpos) := by
  have hi := r.inv
  -- what a get of either side hands out
  have hget : ∀ k, ∃ b pool', getPoolBuffer w pool k = some (b, pool') ∧ b.len = 0 ∧
      b.curpos = b.lpad ∧ b.lpad = (pool.side k).buffer_left_padding ∧
      sbufGetTotalCapacity b - b.lpad = (pool.side k).buffers_size := by
    intro k
    obtain ⟨b, pool', hg, ⟨hlen, hcur, hpad, hmem⟩, -⟩ := getPoolBuffer_eq hi k
    refine ⟨b, pool', hg, hlen, hcur.trans hpad.symm, hpad, ?_⟩
    rw [sbufGetTotalCapacity, hmem, hpad]
    omega
  refine ⟨hi.small.len_le, hi.large.len_le, hget .small, hget .large, fun b hb => ?_,
    isSome_bufferpoolGetBestFit hi, fun n p b pool' h => ?_⟩
  · obtain ⟨pool', hr, -⟩ := bufferpoolReuseBuffer_eq hi hb
    exact ⟨pool', hr⟩
  · obtain ⟨hn, hp, -⟩ := bufferpoolGetBestFit_spec hi h
    exact ⟨hn, hp⟩

/-- The geometry the frame encoders take a pool to have (`WaterWall.BufferPool`). -/
def BufferPoolState.geometry (pool : BufferPoolState) : BufferPool :=
  ⟨pool.large.buffers_size, pool.large.buffer_left_padding, pool.small.buffers_size,
    pool.small.buffer_left_padding⟩

/-- A fresh buffer has the shape of `emptyBuffer` of its side: the same capacity, padding, cursor
and (empty) payload; only the stale bytes of a recycled buffer's memory differ. -/
theorem PoolSide.Fresh.shape {s : PoolSide} {b : SBuf} (h : s.Fresh b) :
    b.geom = (emptyBuffer s.buffers_size s.buffer_left_padding).geom ∧
      b.curpos = (emptyBuffer s.buffers_size s.buffer_left_padding).curpos ∧
      b.payload = (emptyBuffer s.buffers_size s.buffer_left_padding).payload := by
  obtain ⟨hlen, hcur, hpad, hmem⟩ := h
  refine ⟨?_, hcur, ?_⟩
  · rw [SBuf.geom, SBuf.geom, hmem, hpad, length_emptyBuffer_mem]
    rfl
  · rw [payload_emptyBuffer, ← List.length_eq_zero_iff, SBuf.length_payload, hlen]

/-- **The pool refines the abstraction of `WaterWall.bufferpoolGetSmallBuffer` and
`WaterWall.bufferpoolGetLargeBuffer`** that the frame encoders use: from every reached pool, a get
returns a buffer of the shape of the abstract empty buffer of the pool's geometry. -/
theorem bufferpool_refines_emptyBuffer {w : Nat} {pool : BufferPoolState}
    (r : PoolReachable w pool) :
    (∃ b pool', bufferpoolGetSmallBuffer w pool = some (b, pool') ∧
      b.geom = (WaterWall.bufferpoolGetSmallBuffer pool.geometry).geom ∧
      b.curpos = (WaterWall.bufferpoolGetSmallBuffer pool.geometry).curpos ∧
      b.payload = (WaterWall.bufferpoolGetSmallBuffer pool.geometry).payload) ∧
    (∃ b pool', bufferpoolGetLargeBuffer w pool = some (b, pool') ∧
      b.geom = (WaterWall.bufferpoolGetLargeBuffer pool.geometry).geom ∧
      b.curpos = (WaterWall.bufferpoolGetLargeBuffer pool.geometry).curpos ∧
      b.payload = (WaterWall.bufferpoolGetLargeBuffer pool.geometry).payload) := by
  obtain ⟨bs, pools, hs, hbs, -⟩ := getPoolBuffer_eq r.inv .small
  obtain ⟨bl, pooll, hl, hbl, -⟩ := getPoolBuffer_eq r.inv .large
  exact ⟨⟨bs, pools, hs, hbs.shape⟩, ⟨bl, pooll, hl, hbl.shape⟩⟩

/-! ## A run

The pool `bufferpoolCreate` makes on a 64-bit target for one buffer per side, of 128 and 64 bytes
(two cache lines and one), on empty master pools: a get of a small buffer recharges the small stack with one buffer
made to measure and hands it out, and its reuse puts it back on the small stack. -/

/-- The pool `bufferpoolCreate` makes for one buffer per side of 128 and 64 bytes. -/
def pool128x64 : BufferPoolState := ⟨2, 1, ⟨128, 0, [], ⟨[], 16⟩⟩, ⟨64, 0, [], ⟨[], 16⟩⟩⟩

/-- The small buffer its first recharge makes. -/
def smallBuffer64 : SBuf := ⟨List.replicate 64 0, 0, 0, 0, Nat.zero_le _⟩

/-- The pool once that buffer is back on the small stack. -/
def pool128x64Reused : BufferPoolState :=
  ⟨2, 1, ⟨128, 0, [], ⟨[], 16⟩⟩, ⟨64, 0, [smallBuffer64], ⟨[], 16⟩⟩⟩

theorem poolReachable_pool128x64Reused : PoolReachable 64 pool128x64Reused := by
  have hcreate : PoolReachable 64 pool128x64 :=
    .create (show bufferpoolCreate 64 ⟨[], 16⟩ ⟨[], 16⟩ 1 128 64 = some pool128x64 from rfl)
      (fun _ h => absurd h List.not_mem_nil) (fun _ h => absurd h List.not_mem_nil)
  -- the get hands the recharged buffer out and leaves the stack as it was
  have hget : PoolReachable 64 pool128x64 := .step .getSmallBuffer hcreate trivial rfl
  exact .step (.reuseBuffer smallBuffer64) hget (Nat.zero_le _) rfl

/-- The invariant at the pool a get and a reuse reach. -/
theorem bufferpool_invariant_reused :
    pool128x64Reused.small.buffers.length ≤ pool128x64Reused.cap ∧
    pool128x64Reused.large.buffers.length ≤ pool128x64Reused.cap ∧
    (∃ b pool', bufferpoolGetSmallBuffer 64 pool128x64Reused = some (b, pool') ∧ b.len = 0 ∧
      b.curpos = b.lpad ∧ b.lpad = pool128x64Reused.small.buffer_left_padding ∧
      sbufGetTotalCapacity b - b.lpad = pool128x64Reused.small.buffers_size) ∧
    (∃ b pool', bufferpoolGetLargeBuffer 64 pool128x64Reused = some (b, pool') ∧ b.len = 0 ∧
      b.curpos = b.lpad ∧ b.lpad = pool128x64Reused.large.buffer_left_padding ∧
      sbufGetTotalCapacity b - b.lpad = pool128x64Reused.large.buffers_size) ∧
    (∀ b : SBuf, b.lpad ≤ b.mem.length →
      ∃ pool', bufferpoolReuseBuffer pool128x64Reused b = some pool') ∧
    (∀ n p, (bufferpoolGetBestFit 64 pool128x64Reused n p).isSome ↔
      (n ≤ pool128x64Reused.small.buffers_size ∧
        p ≤ pool128x64Reused.small.buffer_left_padding) ∨
      (n ≤ pool128x64Reused.large.buffers_size ∧
        p ≤ pool128x64Reused.large.buffer_left_padding) ∨
      (sbufTryComputeCapacity 64 n p).isSome) ∧
    (∀ n p b pool', bufferpoolGetBestFit 64 pool128x64Reused n p = some (b, pool') →
      n ≤ sbufGetTotalCapacity b - b.curpos ∧ p ≤ b.curpos) :=
  bufferpool_invariant 64 poolReachable_pool128x64Reused

/-- **A best fit does not always return**: at that pool, a request for `0xFFFFFFFF` bytes, and
one for `65535` bytes of padding, abort in `sbufCreateWithPadding`. -/
theorem bufferpoolGetBestFit_aborts :
    PoolReachable 64 pool128x64Reused ∧
      bufferpoolGetBestFit 64 pool128x64Reused 0xFFFFFFFF 0 = none ∧
      bufferpoolGetBestFit 64 pool128x64Reused 0 65535 = none :=
  ⟨poolReachable_pool128x64Reused,
    bufferpoolGetBestFit_eq_none poolReachable_pool128x64Reused.inv 0 0⟩

end Pool

end WaterWall
