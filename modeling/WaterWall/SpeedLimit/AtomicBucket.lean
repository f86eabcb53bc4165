import WaterWall.SpeedLimit.Bucket
import WaterWall.Concurrent.Interleave

/-!
# SpeedLimit's shared bucket in the all-lines mode

In the all-lines mode every worker's lines draw on one `speedlimit_atomic_bucket_t`, and each
worker reads its own loop's clock.  `speedlimitRefillAtomicBucket` claims the steps elapsed with a
compare-and-swap on `last_refill_ms`, then adds their units with a compare-and-swap loop on
`tokens_units`; a grant takes its units with a compare-and-swap loop of its own.  Any other
worker may run between any two of these operations.

The model is the one of `Interleave`: each worker's local state is where its call stands (`Pc`)
and one step is one atomic operation (`atomicStep`) with the local computation up to the next.  A
worker with no call in progress may start one at any clock reading (`Act.start`).  The
interleavings are those of sequentially consistent memory.

## What is here

* `Shared`: the bucket, with the bytes grants have taken, a bound on the clock readings, and the
  first reading recorded in `last_refill_ms`.
* `BucketInv`: the bucket is never over capacity, and what grants have taken, what is in the bucket
  and what refills in progress have claimed but not added are no more than the full bucket and
  the steps credited.  `BucketInv.step` is one operation of one worker; `AtomicInv.reach` is every
  interleaving.
* `atomicStep_grant_done`: a grant returns what its last load of the bucket makes available.
-/

set_option autoImplicit false

namespace WaterWall.SpeedLimit

open Interleave

/-- `speedlimit_atomic_bucket_t`: two `atomic_ullong`s. -/
structure AtomicBucket where
  tokens_units : Nat
  last_refill_ms : Nat
  deriving DecidableEq, Repr

/-- The bucket `finalizeRateMath` stores: full, never refilled. -/
def AtomicBucket.full (ts : TState) : AtomicBucket := ⟨ts.bucket_capacity_units, 0⟩

/-- Where a worker's call on the shared bucket stands: before which atomic operation, with the
local variables it holds.  The call itself (`Call`) is carried to where its refill returns. -/
inductive Pc
  | idle
  | refillLoad (now_ms : Nat) (k : Call)
  | refillCasZero (now_ms : Nat) (k : Call)
  | refillCasLast (now_ms last_refill_ms : Nat) (k : Call)
  | refillLoadTokens (now_ms added_units : Nat) (k : Call)
  | refillCasTokens (now_ms added_units old_units : Nat) (k : Call)
  | grantLoad (now_ms requested_bytes : Nat) (partial_allowed : Bool)
  | grantCas (now_ms requested_bytes : Nat) (partial_allowed : Bool) (old_units : Nat)
  | peekLoad (now_ms : Nat) (k : Call)
  | retryLoadLast (now_ms tokens_units : Nat)
  | done (result : Nat)
  deriving DecidableEq, Repr

namespace Pc

/-- Whether a call is in progress. -/
def busy : Pc → Bool
  | .idle | .done _ => false
  | _ => true

/-- The clock reading of the call in progress. -/
def now : Pc → Nat
  | .idle | .done _ => 0
  | .refillLoad now_ms _ | .refillCasZero now_ms _ | .refillCasLast now_ms _ _
  | .refillLoadTokens now_ms _ _ | .refillCasTokens now_ms _ _ _ | .grantLoad now_ms _ _
  | .grantCas now_ms _ _ _ | .peekLoad now_ms _ | .retryLoadLast now_ms _ => now_ms

/-- The units a refill has claimed on `last_refill_ms` and not yet added to `tokens_units`. -/
def pending : Pc → Nat
  | .refillLoadTokens _ added_units _ | .refillCasTokens _ added_units _ _ => added_units
  | _ => 0

/-- Whether the call has found a reading recorded in `last_refill_ms`: it is past the refill's
check for zero. -/
def recorded : Pc → Bool
  | .idle | .done _ | .refillLoad .. | .refillCasZero .. => false
  | _ => true

end Pc

/-- Where a call goes once its refill returns: a grant to its loop, a peek to its load. -/
def afterRefill (now_ms : Nat) : Call → Pc
  | .grant requested_bytes partial_allowed => .grantLoad now_ms requested_bytes partial_allowed
  | k => .peekLoad now_ms k

@[simp] theorem Pc.now_afterRefill (now_ms : Nat) (k : Call) : (afterRefill now_ms k).now = now_ms := by
  cases k <;> rfl

@[simp] theorem Pc.pending_afterRefill (now_ms : Nat) (k : Call) : (afterRefill now_ms k).pending = 0 := by
  cases k <;> rfl

@[simp] theorem Pc.recorded_afterRefill (now_ms : Nat) (k : Call) : (afterRefill now_ms k).recorded = true := by
  cases k <;> rfl

/-- How a call starts: `speedlimitGrantBytes` returns at once when nothing is requested, and every
other call reads the clock and refills. -/
def startCall (c : Call) (now_ms : Nat) : Pc :=
  if c.refills then .refillLoad now_ms c else .done 0

/-- The units the refill's compare-and-swap writes over `old_units`: up to the capacity, and nothing
added to a bucket already full. -/
def refillUnits (ts : TState) (old_units added_units : Nat) : Nat :=
  if old_units < ts.bucket_capacity_units then
    if added_units ≥ ts.bucket_capacity_units - old_units then ts.bucket_capacity_units
    else old_units + added_units
  else old_units

/-- One atomic operation of the call at `pc` on the shared bucket, with the local computation up to
the next one: the loads and compare-and-swaps of `speedlimitRefillAtomicBucket`, of the all-lines
branches of `speedlimitGrantBytes` and `speedlimitPeekAvailableUnits`, and the load of
`last_refill_ms` in `speedlimitGetRetryDelayMs`.  A failed compare-and-swap goes back to the load
of its loop. -/
def atomicStep (ts : TState) : Pc → AtomicBucket → Pc × AtomicBucket
  | .refillLoad now_ms k, b =>
    let last_refill_ms := b.last_refill_ms
    if last_refill_ms = 0 then (.refillCasZero now_ms k, b)
    else if now_ms ≤ last_refill_ms then (afterRefill now_ms k, b)
    else if (now_ms - last_refill_ms) / ts.recharge_interval_ms = 0 then (afterRefill now_ms k, b)
    else (.refillCasLast now_ms last_refill_ms k, b)
  | .refillCasZero now_ms k, b =>
    if b.last_refill_ms = 0 then (afterRefill now_ms k, { b with last_refill_ms := now_ms })
    else (.refillLoad now_ms k, b)
  | .refillCasLast now_ms last_refill_ms k, b =>
    let steps := (now_ms - last_refill_ms) / ts.recharge_interval_ms
    if b.last_refill_ms = last_refill_ms then
      (.refillLoadTokens now_ms (speedlimitAddedUnits ts steps) k,
        { b with last_refill_ms := last_refill_ms + steps * ts.recharge_interval_ms })
    else (.refillLoad now_ms k, b)
  | .refillLoadTokens now_ms added_units k, b => (.refillCasTokens now_ms added_units b.tokens_units k, b)
  | .refillCasTokens now_ms added_units old_units k, b =>
    if b.tokens_units = old_units then
      (afterRefill now_ms k, { b with tokens_units := refillUnits ts old_units added_units })
    else (.refillLoadTokens now_ms added_units k, b)
  | .grantLoad now_ms requested_bytes partial_allowed, b =>
    let old_units := b.tokens_units
    if speedlimitGrantOf requested_bytes (old_units / kSpeedLimitUnitsPerByte) partial_allowed = 0 then (.done 0, b)
    else (.grantCas now_ms requested_bytes partial_allowed old_units, b)
  | .grantCas now_ms requested_bytes partial_allowed old_units, b =>
    let grant_bytes := speedlimitGrantOf requested_bytes (old_units / kSpeedLimitUnitsPerByte) partial_allowed
    if b.tokens_units = old_units then
      (.done grant_bytes, { b with tokens_units := old_units - grant_bytes * kSpeedLimitUnitsPerByte })
    else (.grantLoad now_ms requested_bytes partial_allowed, b)
  | .peekLoad now_ms .retry, b => (.retryLoadLast now_ms b.tokens_units, b)
  | .peekLoad _ _, b => (.done b.tokens_units, b)
  | .retryLoadLast now_ms tokens_units, b =>
    (.done (speedlimitRetryDelayOf ts now_ms tokens_units b.last_refill_ms), b)
  | pc, b => (pc, b)

/-- **A grant returns what the bucket makes available** at the operation that ends it: its last
load when nothing is available, its successful compare-and-swap otherwise, both of which see the
bucket as it is. -/
theorem atomicStep_grant_done (ts : TState) {now_ms requested_bytes : Nat} {partial_allowed : Bool}
    {pc : Pc} (hpc : pc = .grantLoad now_ms requested_bytes partial_allowed ∨
      ∃ old_units, pc = .grantCas now_ms requested_bytes partial_allowed old_units)
    (b : AtomicBucket) {result : Nat} (h : (atomicStep ts pc b).1 = .done result) :
    result = speedlimitGrantOf requested_bytes (b.tokens_units / kSpeedLimitUnitsPerByte) partial_allowed := by
  rcases hpc with rfl | ⟨old_units, rfl⟩
  · simp only [atomicStep] at h
    split at h
    · rename_i h0
      cases h
      exact h0.symm
    · cases h
  · simp only [atomicStep] at h
    split at h
    · rename_i hold
      cases h
      rw [hold]
    · cases h

/-! ## The history, and a worker's moves -/

/-- The shared bucket, with the history its accounting is stated over: the bytes grants have
taken, a bound on the clock readings of the calls started, and the first reading recorded in
`last_refill_ms`. -/
structure Shared where
  bucket : AtomicBucket
  granted : Nat
  now_bound : Nat
  first_refill_ms : Option Nat

/-- The bytes an operation takes out of the bucket: a grant's successful compare-and-swap. -/
def grantedBy : Pc → AtomicBucket → Nat
  | .grantCas _ requested_bytes partial_allowed old_units, b =>
    if b.tokens_units = old_units then
      speedlimitGrantOf requested_bytes (old_units / kSpeedLimitUnitsPerByte) partial_allowed
    else 0
  | _, _ => 0

/-- The reading an operation records in `last_refill_ms` over no reading. -/
def recordedBy : Pc → AtomicBucket → Option Nat
  | .refillCasZero now_ms _, b => if b.last_refill_ms = 0 then some now_ms else none
  | _, _ => none

/-- A worker's moves: start a call at any clock reading when none is in progress, or perform the
next atomic operation of the one that is. -/
inductive Act (ts : TState) : Pc → Shared → Pc → Shared → Prop
  | start {pc : Pc} {sh : Shared} (c : Call) (now_ms : Nat) :
      pc.busy = false → Act ts pc sh (startCall c now_ms) { sh with now_bound := max sh.now_bound now_ms }
  | step {pc : Pc} {sh : Shared} :
      pc.busy = true →
      Act ts pc sh (atomicStep ts pc sh.bucket).1
        ⟨(atomicStep ts pc sh.bucket).2, sh.granted + grantedBy pc sh.bucket, sh.now_bound,
          sh.first_refill_ms.or (recordedBy pc sh.bucket)⟩

/-- The workers `W`, none with a call in progress, and the full bucket. -/
def atomicInit (ts : TState) (W : Type) : Config W Pc Shared :=
  ⟨⟨AtomicBucket.full ts, 0, 0, none⟩, fun _ => .idle⟩

/-- The configurations any interleaving of the workers' calls reaches. -/
def AtomicReach (ts : TState) {W : Type} [DecidableEq W] (c : Config W Pc Shared) : Prop :=
  Reach (Act ts) (atomicInit ts W) c

/-! ## The accounting -/

/-- What a worker's call in progress keeps true of the shared state: its reading is within the
bound, once past the zero check it knows a reading is recorded, and the `last_refill_ms` it will
compare against is a recorded one. -/
structure ThreadInv (pc : Pc) (sh : Shared) : Prop where
  now_le : pc.now ≤ sh.now_bound
  recorded : pc.recorded = true → sh.first_refill_ms.isSome
  last_pos : ∀ now_ms last_refill_ms k, pc = .refillCasLast now_ms last_refill_ms k → last_refill_ms ≠ 0

/-- The bucket's invariant, with `pending` the units the workers' refills have claimed on
`last_refill_ms` and not yet added: never over capacity, and what grants took, what is left and
what is pending are no more than the full bucket and the steps credited. -/
structure BucketInv (ts : TState) (sh : Shared) (pending : Nat) : Prop where
  tokens_le : sh.bucket.tokens_units ≤ ts.bucket_capacity_units
  last_le : sh.bucket.last_refill_ms ≤ sh.now_bound
  first_le : ∀ t0, sh.first_refill_ms = some t0 → t0 ≤ sh.bucket.last_refill_ms
  unrecorded : sh.first_refill_ms = none → sh.bucket.last_refill_ms = 0 ∧ sh.granted = 0
  accounting : kSpeedLimitUnitsPerByte * sh.granted + sh.bucket.tokens_units + pending ≤
    ts.bucket_capacity_units +
      ts.refill_units_per_step * creditedSteps ts sh.first_refill_ms sh.bucket.last_refill_ms

theorem ThreadInv.mono {pc : Pc} {sh sh' : Shared} (ht : ThreadInv pc sh) (hnow : sh.now_bound ≤ sh'.now_bound)
    (hfirst : sh.first_refill_ms.isSome → sh'.first_refill_ms.isSome) : ThreadInv pc sh' :=
  ⟨Nat.le_trans ht.now_le hnow, fun h => hfirst (ht.recorded h), ht.last_pos⟩

theorem ThreadInv.afterRefill {sh : Shared} {now_ms : Nat} (hnow : now_ms ≤ sh.now_bound)
    (hrec : sh.first_refill_ms.isSome) (k : Call) : ThreadInv (afterRefill now_ms k) sh := by
  cases k <;> exact ⟨hnow, fun _ => hrec, fun _ _ _ h => by cases h⟩

theorem BucketInv.recorded {ts : TState} {sh : Shared} {pending : Nat} (hi : BucketInv ts sh pending)
    (hL : sh.bucket.last_refill_ms ≠ 0) : sh.first_refill_ms.isSome := by
  cases hf : sh.first_refill_ms with
  | none => exact absurd (hi.unrecorded hf).1 hL
  | some _ => rfl

/-- The first reading recorded: nothing was credited before, and nothing is lost after. -/
theorem BucketInv.record {ts : TState} {sh : Shared} {pending now_ms : Nat} (hi : BucketInv ts sh pending)
    (hL : sh.bucket.last_refill_ms = 0) (hnow : now_ms ≤ sh.now_bound) :
    BucketInv ts ⟨{ sh.bucket with last_refill_ms := now_ms }, sh.granted, sh.now_bound,
      sh.first_refill_ms.or (some now_ms)⟩ pending := by
  have hcredit : creditedSteps ts sh.first_refill_ms sh.bucket.last_refill_ms = 0 := by
    cases hf : sh.first_refill_ms with
    | none => rfl
    | some t0 =>
      have := hi.first_le t0 hf
      simp only [creditedSteps]
      rw [hL, Nat.zero_sub, Nat.zero_div]
  have hacc := hi.accounting
  rw [hcredit, Nat.mul_zero, Nat.add_zero] at hacc
  refine ⟨hi.tokens_le, hnow, ?_, ?_, Nat.le_trans hacc (Nat.le_add_right _ _)⟩
  · intro t0 ht0
    cases hf : sh.first_refill_ms with
    | none => rw [hf] at ht0; cases ht0; exact Nat.le_refl _
    | some x =>
      rw [hf] at ht0
      have hx : x = t0 := Option.some.inj ht0
      have := hi.first_le x hf
      dsimp only
      omega
  · intro h
    cases hf : sh.first_refill_ms <;> rw [hf] at h <;> cases h

/-- Steps claimed: `last_refill_ms` moves on by whole steps, and the units they are worth become
pending. -/
theorem BucketInv.claim {ts : TState} (hts : RateMath ts) {sh : Shared} {rest now_ms : Nat}
    (hi : BucketInv ts sh rest) (hL : sh.bucket.last_refill_ms ≠ 0) (hnow : now_ms ≤ sh.now_bound) :
    BucketInv ts ⟨{ sh.bucket with last_refill_ms := (sh.bucket.last_refill_ms +
        refillSteps ts sh.bucket.last_refill_ms now_ms * ts.recharge_interval_ms) },
      sh.granted, sh.now_bound, sh.first_refill_ms⟩
      (rest + speedlimitAddedUnits ts (refillSteps ts sh.bucket.last_refill_ms now_ms)) := by
  obtain ⟨t0, hf⟩ : ∃ t0, sh.first_refill_ms = some t0 := Option.isSome_iff_exists.1 (hi.recorded hL)
  have ht0 := hi.first_le t0 hf
  have hacc := hi.accounting
  rw [hf] at hacc
  set s := refillSteps ts sh.bucket.last_refill_ms now_ms
  have hadded : speedlimitAddedUnits ts s ≤ s * ts.refill_units_per_step := by
    rw [speedlimitAddedUnits_eq hts.refill_pos]
    exact Nat.min_le_right _ _
  have hcredit : creditedSteps ts (some t0) (sh.bucket.last_refill_ms + s * ts.recharge_interval_ms) =
      creditedSteps ts (some t0) sh.bucket.last_refill_ms + s := by
    simp only [creditedSteps]
    rw [Nat.sub_add_comm ht0, Nat.add_mul_div_right _ _ hts.interval_pos]
  have hstep : sh.bucket.last_refill_ms + s * ts.recharge_interval_ms ≤ max sh.bucket.last_refill_ms now_ms :=
    refillSteps_le ts sh.bucket.last_refill_ms now_ms
  have hlast := hi.last_le
  refine ⟨hi.tokens_le, ?_, ?_, ?_, ?_⟩
  · dsimp only
    omega
  · intro x hx
    rw [hf] at hx
    cases hx
    dsimp only
    omega
  · intro h
    rw [hf] at h
    cases h
  · dsimp only
    rw [hf, hcredit, Nat.mul_add, Nat.mul_comm ts.refill_units_per_step s]
    omega

/-- Claimed units added: the bucket gains at most what was pending, and never passes the
capacity. -/
theorem BucketInv.add {ts : TState} {sh : Shared} {rest added_units : Nat}
    (hi : BucketInv ts sh (rest + added_units)) :
    BucketInv ts ⟨{ sh.bucket with tokens_units := refillUnits ts sh.bucket.tokens_units added_units },
      sh.granted, sh.now_bound, sh.first_refill_ms⟩ rest := by
  have hle : refillUnits ts sh.bucket.tokens_units added_units ≤ ts.bucket_capacity_units ∧
      refillUnits ts sh.bucket.tokens_units added_units ≤ sh.bucket.tokens_units + added_units := by
    have := hi.tokens_le
    unfold refillUnits
    split
    · split <;> omega
    · omega
  have hacc := hi.accounting
  exact ⟨hle.1, hi.last_le, hi.first_le, hi.unrecorded, by dsimp only; omega⟩

/-- Units granted: what the grant takes moves from the bucket to the bytes granted. -/
theorem BucketInv.take {ts : TState} {sh : Shared} {pending n : Nat} (hi : BucketInv ts sh pending)
    (hrec : sh.first_refill_ms.isSome) (hn : n * kSpeedLimitUnitsPerByte ≤ sh.bucket.tokens_units) :
    BucketInv ts ⟨{ sh.bucket with tokens_units := sh.bucket.tokens_units - n * kSpeedLimitUnitsPerByte },
      sh.granted + n, sh.now_bound, sh.first_refill_ms⟩ pending := by
  have hacc := hi.accounting
  refine ⟨Nat.le_trans (Nat.sub_le _ _) hi.tokens_le, hi.last_le, hi.first_le, ?_, ?_⟩
  · intro h
    rw [h] at hrec
    cases hrec
  · dsimp only
    unfold kSpeedLimitUnitsPerByte at hacc hn ⊢
    omega

/-- **One operation of one worker** keeps the bucket's invariant and the worker's own, whatever
the other workers have pending (`rest`). -/
theorem BucketInv.step {ts : TState} (hts : RateMath ts) {pc : Pc} {sh : Shared} {rest : Nat}
    (hi : BucketInv ts sh (rest + pc.pending)) (ht : ThreadInv pc sh) (hbusy : pc.busy = true) :
    BucketInv ts ⟨(atomicStep ts pc sh.bucket).2, sh.granted + grantedBy pc sh.bucket, sh.now_bound,
        sh.first_refill_ms.or (recordedBy pc sh.bucket)⟩ (rest + (atomicStep ts pc sh.bucket).1.pending) ∧
      ThreadInv (atomicStep ts pc sh.bucket).1
        ⟨(atomicStep ts pc sh.bucket).2, sh.granted + grantedBy pc sh.bucket, sh.now_bound,
          sh.first_refill_ms.or (recordedBy pc sh.bucket)⟩ := by
  -- the worker's own facts, for the operations that leave the shared state alone
  have hnow := ht.now_le
  have hrec := ht.recorded
  cases pc with
  | idle => cases hbusy
  | done _ => cases hbusy
  | refillLoad now_ms k =>
    simp only [Pc.pending, Pc.now, Nat.add_zero] at hi hnow
    simp only [atomicStep, grantedBy, recordedBy, Nat.add_zero, Option.or_none]
    split
    · exact ⟨hi, hnow, (fun h => by cases h), (fun _ _ _ h => by cases h)⟩
    · rename_i hL
      split
      · simp only [Pc.pending_afterRefill, Nat.add_zero]
        exact ⟨hi, ThreadInv.afterRefill hnow (hi.recorded hL) k⟩
      · split
        · simp only [Pc.pending_afterRefill, Nat.add_zero]
          exact ⟨hi, ThreadInv.afterRefill hnow (hi.recorded hL) k⟩
        · exact ⟨hi, hnow, (fun _ => hi.recorded hL), (fun _ _ _ h => by cases h; exact hL)⟩
  | refillCasZero now_ms k =>
    simp only [Pc.pending, Pc.now, Nat.add_zero] at hi hnow
    simp only [atomicStep, grantedBy, recordedBy, Nat.add_zero]
    split
    · -- the first reading recorded
      rename_i hL
      simp only [Pc.pending_afterRefill, Nat.add_zero]
      refine ⟨hi.record hL hnow, ThreadInv.afterRefill ?_ ?_ k⟩
      · exact hnow
      · cases sh.first_refill_ms <;> rfl
    · simp only [Option.or_none]
      exact ⟨hi, hnow, (fun h => by cases h), (fun _ _ _ h => by cases h)⟩
  | refillCasLast now_ms last_refill_ms k =>
    simp only [Pc.pending, Pc.now, Nat.add_zero] at hi hnow
    simp only [atomicStep, grantedBy, recordedBy, Nat.add_zero, Option.or_none]
    split
    · -- steps claimed
      rename_i hL
      have hpos : sh.bucket.last_refill_ms ≠ 0 := hL ▸ ht.last_pos now_ms last_refill_ms k rfl
      have hclaim := hi.claim hts hpos hnow
      rw [hL] at hclaim
      exact ⟨hclaim, hnow, (fun _ => hi.recorded hpos), (fun _ _ _ h => by cases h)⟩
    · exact ⟨hi, hnow, (fun h => by cases h), (fun _ _ _ h => by cases h)⟩
  | refillLoadTokens now_ms added_units k =>
    simp only [Pc.now] at hnow
    simp only [atomicStep, grantedBy, recordedBy, Nat.add_zero, Option.or_none]
    exact ⟨hi, hnow, hrec, (fun _ _ _ h => by cases h)⟩
  | refillCasTokens now_ms added_units old_units k =>
    simp only [Pc.pending, Pc.now] at hi hnow
    simp only [atomicStep, grantedBy, recordedBy, Nat.add_zero, Option.or_none]
    split
    · -- the claimed units added
      rename_i hold
      have hadd := hi.add
      rw [hold] at hadd
      simp only [Pc.pending_afterRefill, Nat.add_zero]
      exact ⟨hadd, ThreadInv.afterRefill (by exact hnow) (by exact hrec rfl) k⟩
    · exact ⟨hi, hnow, hrec, (fun _ _ _ h => by cases h)⟩
  | grantLoad now_ms requested_bytes partial_allowed =>
    simp only [Pc.pending, Pc.now, Nat.add_zero] at hi hnow
    simp only [atomicStep, grantedBy, recordedBy, Nat.add_zero, Option.or_none]
    split
    · exact ⟨hi, Nat.zero_le _, (fun h => by cases h), (fun _ _ _ h => by cases h)⟩
    · exact ⟨hi, hnow, hrec, (fun _ _ _ h => by cases h)⟩
  | grantCas now_ms requested_bytes partial_allowed old_units =>
    simp only [Pc.pending, Pc.now, Nat.add_zero] at hi hnow
    simp only [atomicStep, grantedBy, recordedBy, Option.or_none]
    split
    · -- units granted
      rename_i hold
      have hn : speedlimitGrantOf requested_bytes (old_units / kSpeedLimitUnitsPerByte) partial_allowed *
          kSpeedLimitUnitsPerByte ≤ sh.bucket.tokens_units :=
        by rw [hold]; exact units_speedlimitGrantOf_le requested_bytes old_units partial_allowed
      have htake := hi.take (hrec rfl) hn
      rw [hold] at htake
      exact ⟨htake, Nat.zero_le _, (fun h => by cases h), (fun _ _ _ h => by cases h)⟩
    · exact ⟨hi, hnow, hrec, (fun _ _ _ h => by cases h)⟩
  | peekLoad now_ms k =>
    simp only [Pc.pending, Pc.now, Nat.add_zero] at hi hnow
    cases k with
    | retry =>
      simp only [atomicStep, grantedBy, recordedBy, Nat.add_zero, Option.or_none]
      exact ⟨hi, hnow, hrec, (fun _ _ _ h => by cases h)⟩
    | grant _ _ | peek =>
      simp only [atomicStep, grantedBy, recordedBy, Nat.add_zero, Option.or_none]
      exact ⟨hi, Nat.zero_le _, (fun h => by cases h), (fun _ _ _ h => by cases h)⟩
  | retryLoadLast now_ms tokens_units =>
    simp only [Pc.pending, Nat.add_zero] at hi
    simp only [atomicStep, grantedBy, recordedBy, Nat.add_zero, Option.or_none]
    exact ⟨hi, Nat.zero_le _, (fun h => by cases h), (fun _ _ _ h => by cases h)⟩

theorem Pc.pending_of_idle {pc : Pc} (h : pc.busy = false) : pc.pending = 0 := by
  cases pc <;> first | rfl | cases h

theorem ThreadInv.startCall {sh : Shared} (c : Call) (now_ms : Nat) :
    ThreadInv (SpeedLimit.startCall c now_ms) { sh with now_bound := max sh.now_bound now_ms } := by
  unfold SpeedLimit.startCall
  split
  · exact ⟨Nat.le_max_right _ _, (fun h => by cases h), (fun _ _ _ h => by cases h)⟩
  · exact ⟨Nat.zero_le _, (fun h => by cases h), (fun _ _ _ h => by cases h)⟩

/-- A step's account, carried to the sum over all the workers: the others' pending units are as
they were, and the stepping worker's are its new ones. -/
theorem BucketInv.exec_sum {ts : TState} {W : Type} [Fintype W] [DecidableEq W] {c : Config W Pc Shared}
    {w : W} {l : Pc} {s : Shared} {rest : Nat} (hb : BucketInv ts s (rest + l.pending))
    (hrest : ∑ w', (c.locals w').pending = rest + (c.locals w).pending) :
    BucketInv ts (c.exec w l s).shared (∑ w', ((c.exec w l s).locals w').pending) := by
  have hsum := sum_exec Pc.pending c w l s
  have hnew : ∑ w', ((c.exec w l s).locals w').pending = rest + l.pending := by omega
  rw [hnew]
  exact hb

/-- The bucket's invariant over all the workers' pending units, and each worker's own. -/
structure AtomicInv (ts : TState) {W : Type} [Fintype W] (c : Config W Pc Shared) : Prop where
  bucket : BucketInv ts c.shared (∑ w, (c.locals w).pending)
  threads : ∀ w, ThreadInv (c.locals w) c.shared

theorem AtomicInv.init (ts : TState) (W : Type) [Fintype W] : AtomicInv ts (atomicInit ts W) := by
  refine ⟨⟨Nat.le_refl _, Nat.le_refl _, (fun _ h => by cases h), (fun _ => ⟨rfl, rfl⟩), ?_⟩,
    fun _ => ⟨Nat.le_refl _, (fun h => by cases h), (fun _ _ _ h => by cases h)⟩⟩
  simp [atomicInit, AtomicBucket.full, Pc.pending, creditedSteps]

/-- **Every move of every worker** keeps the invariant: a call started only raises the bound on
the readings; an operation keeps the bucket's account with the other workers' pending units as
they were (`Interleave.sum_exec`), and the others' own facts, which only grow with the history. -/
theorem AtomicInv.exec {ts : TState} (hts : RateMath ts) {W : Type} [Fintype W] [DecidableEq W]
    {c : Config W Pc Shared} (hi : AtomicInv ts c) {w : W} {l : Pc} {s : Shared}
    (hact : Act ts (c.locals w) c.shared l s) : AtomicInv ts (c.exec w l s) := by
  have hsum := sum_exec Pc.pending c w l s
  cases hact with
  | start call now_ms hidle =>
    -- nothing pending before or after
    have hzero : (SpeedLimit.startCall call now_ms).pending = 0 := by
      unfold SpeedLimit.startCall
      split <;> rfl
    rw [Pc.pending_of_idle hidle, hzero, Nat.add_zero, Nat.add_zero] at hsum
    have hb := hi.bucket
    refine ⟨⟨hb.tokens_le, Nat.le_trans hb.last_le (Nat.le_max_left _ _), hb.first_le, hb.unrecorded, ?_⟩, ?_⟩
    · simpa [hsum] using hb.accounting
    · intro w'
      by_cases hw : w' = w
      · subst hw
        rw [exec_locals_self]
        exact ThreadInv.startCall call now_ms
      · rw [exec_locals_of_ne c hw]
        exact (hi.threads w').mono (Nat.le_max_left _ _) id
  | step hbusy =>
    -- the other workers' pending units, as they stand before and after
    obtain ⟨rest, hrest⟩ : ∃ rest, ∑ w', (c.locals w').pending = rest + (c.locals w).pending :=
      ⟨∑ w' ∈ Finset.univ.erase w, (c.locals w').pending,
        by rw [← Finset.add_sum_erase _ _ (Finset.mem_univ w), Nat.add_comm]⟩
    have hb := hi.bucket
    rw [hrest] at hb
    obtain ⟨hb', ht'⟩ := hb.step hts (hi.threads w) hbusy
    refine ⟨BucketInv.exec_sum hb' hrest, ?_⟩
    · intro w'
      by_cases hw : w' = w
      · subst hw
        rw [exec_locals_self]
        exact ht'
      · rw [exec_locals_of_ne c hw]
        refine (hi.threads w').mono (Nat.le_refl _) ?_
        intro h
        rw [exec_shared, Option.isSome_or, h, Bool.true_or]

/-- **Every interleaving** of the workers' calls keeps the invariant. -/
theorem AtomicInv.reach {ts : TState} (hts : RateMath ts) {W : Type} [Fintype W] [DecidableEq W]
    {c : Config W Pc Shared} (r : AtomicReach ts c) : AtomicInv ts c :=
  Reach.inv (AtomicInv.init ts W) (fun _ _ _ _ hi hact => hi.exec hts hact) r

/-- The rate, in the all-lines mode: the bucket is never over capacity, nothing is granted before
a reading is recorded, and up to any time that bounds every worker's readings the bytes granted are
at most a bucket and a step for each whole interval since the first recorded reading. -/
theorem AtomicInv.rate {ts : TState} (hts : RateMath ts) {W : Type} [Fintype W] {c : Config W Pc Shared}
    (hi : AtomicInv ts c) {T : Nat} (hT : c.shared.now_bound ≤ T) :
    c.shared.bucket.tokens_units ≤ ts.bucket_capacity_units ∧
    (c.shared.first_refill_ms = none → c.shared.granted = 0) ∧
    ∀ t0, c.shared.first_refill_ms = some t0 →
      kSpeedLimitUnitsPerByte * c.shared.granted ≤
        kSpeedLimitUnitsPerByte * ts.bytes_per_sec +
          (T - t0) / ts.recharge_interval_ms * ts.bytes_per_sec * ts.recharge_interval_ms := by
  have hb := hi.bucket
  refine ⟨hb.tokens_le, fun h => (hb.unrecorded h).2, fun t0 hf => ?_⟩
  have hacc := hb.accounting
  rw [hf] at hacc
  exact granted_le_of_accounting hts (Nat.le_trans hb.last_le hT) (by simp only [creditedSteps] at hacc; omega)

/-! ## The rate the tunnel enforces -/

theorem finalizeRateMath_same {state ts : TState} (h : finalizeRateMath state = some ts) :
    ts.bytes_per_sec = state.bytes_per_sec ∧ ts.recharge_interval_ms = state.recharge_interval_ms := by
  unfold finalizeRateMath at h
  split_ifs at h
  cases h
  exact ⟨rfl, rfl⟩

/-- **The token bucket enforces the configured rate**, for every configuration `finalizeRateMath`
accepts.  In the per-line and per-worker modes over any sequence of calls at any clock readings,
and in the all-lines mode over any interleaving of the workers' atomic operations: the bucket
never holds more than its capacity, and up to any time `T` that bounds the clock readings so far
the bytes granted are at most `B + ⌊(T - t0) / I⌋ * B * I / 1000`, stated here multiplied by a
thousand, `t0` the first reading recorded in `last_refill_ms`.  A grant that may be partial
returns what its refill leaves available up to the request, any other grant all or nothing.  On
a bucket whose clock has not gone back, the retry delay is at least a millisecond, immediate when
a byte is available, and otherwise the exact wait until a refill makes a byte available. -/
theorem speedlimit_bucket_rate {state ts : TState} (hcfg : finalizeRateMath state = some ts)
    (hB : 0 < state.bytes_per_sec) (hI : 0 < state.recharge_interval_ms)
    (hI32 : state.recharge_interval_ms ≤ UINT32_MAX) :
    (∀ b granted now_bound first_refill_ms, LocalReach ts b granted now_bound first_refill_ms →
      b.tokens_units ≤ ts.bucket_capacity_units ∧ (first_refill_ms = none → granted = 0) ∧
      ∀ T t0, now_bound ≤ T → first_refill_ms = some t0 →
        kSpeedLimitUnitsPerByte * granted ≤ kSpeedLimitUnitsPerByte * ts.bytes_per_sec +
          (T - t0) / ts.recharge_interval_ms * ts.bytes_per_sec * ts.recharge_interval_ms) ∧
    (∀ (W : Type) [Fintype W] [DecidableEq W] (c : Config W Pc Shared), AtomicReach ts c →
      c.shared.bucket.tokens_units ≤ ts.bucket_capacity_units ∧
      (c.shared.first_refill_ms = none → c.shared.granted = 0) ∧
      ∀ T t0, c.shared.now_bound ≤ T → c.shared.first_refill_ms = some t0 →
        kSpeedLimitUnitsPerByte * c.shared.granted ≤ kSpeedLimitUnitsPerByte * ts.bytes_per_sec +
          (T - t0) / ts.recharge_interval_ms * ts.bytes_per_sec * ts.recharge_interval_ms) ∧
    (∀ b requested_bytes partial_allowed now_ms,
      (speedlimitGrantBytesLocal ts b requested_bytes partial_allowed now_ms).1 =
        speedlimitGrantOf requested_bytes
          ((speedlimitRefillLocalBucket ts b now_ms).tokens_units / kSpeedLimitUnitsPerByte) partial_allowed) ∧
    (∀ pc b now_ms requested_bytes partial_allowed result,
      (pc = .grantLoad now_ms requested_bytes partial_allowed ∨
        ∃ old_units, pc = .grantCas now_ms requested_bytes partial_allowed old_units) →
      (atomicStep ts pc b).1 = .done result →
      result = speedlimitGrantOf requested_bytes (b.tokens_units / kSpeedLimitUnitsPerByte) partial_allowed) ∧
    (∀ requested_bytes available_bytes,
      speedlimitGrantOf requested_bytes available_bytes true = min requested_bytes available_bytes ∧
      (speedlimitGrantOf requested_bytes available_bytes false = 0 ∨
        speedlimitGrantOf requested_bytes available_bytes false = requested_bytes)) ∧
    (∀ b granted now_bound first_refill_ms now_ms, LocalReach ts b granted now_bound first_refill_ms →
      now_bound ≤ now_ms → 0 < now_ms →
      1 ≤ (speedlimitGetRetryDelayMsLocal ts b now_ms).1 ∧
      (speedlimitGetRetryDelayMsLocal ts b now_ms).1 ≤ UINT32_MAX ∧
      (kSpeedLimitUnitsPerByte ≤ (speedlimitGetRetryDelayMsLocal ts b now_ms).2.tokens_units →
        (speedlimitGetRetryDelayMsLocal ts b now_ms).1 = kSpeedLimitImmediateMs) ∧
      ((speedlimitGetRetryDelayMsLocal ts b now_ms).2.tokens_units < kSpeedLimitUnitsPerByte → ∀ t,
        kSpeedLimitUnitsPerByte ≤
            (speedlimitRefillLocalBucket ts (speedlimitGetRetryDelayMsLocal ts b now_ms).2 t).tokens_units ↔
          now_ms + (speedlimitGetRetryDelayMsLocal ts b now_ms).1 ≤ t)) := by
  have hts := finalizeRateMath_rateMath hcfg hB hI
  have hI32' : ts.recharge_interval_ms ≤ UINT32_MAX := (finalizeRateMath_same hcfg).2 ▸ hI32
  refine ⟨?_, ?_, speedlimitGrantBytesLocal_fst ts, fun _ _ _ _ _ _ hpc h => atomicStep_grant_done ts hpc _ h,
    ?_, ?_⟩
  · intro b granted now_bound first_refill_ms r
    have hi := r.inv hts
    exact ⟨hi.tokens_le, (hi.rate hts (Nat.le_refl _)).1,
      fun T t0 hT hf => (hi.rate hts hT).2 t0 hf⟩
  · intro W _ _ c r
    have hi := AtomicInv.reach hts r
    exact ⟨(hi.rate hts (Nat.le_refl _)).1, (hi.rate hts (Nat.le_refl _)).2.1,
      fun T t0 hT hf => (hi.rate hts hT).2.2 t0 hf⟩
  · intro requested_bytes available_bytes
    exact ⟨(speedlimitGrantOf_spec requested_bytes available_bytes true).1 rfl,
      (speedlimitGrantOf_spec requested_bytes available_bytes false).2 rfl⟩
  · intro b granted now_bound first_refill_ms now_ms r hnow hpos
    have hi := r.inv hts
    obtain ⟨-, h₁, h₂, h₃, h₄⟩ :=
      speedlimitGetRetryDelayMsLocal_spec hts hI32' hi.tokens_le (Nat.le_trans hi.last_le hnow) hpos
    exact ⟨h₁, h₂, h₃, h₄⟩

/-- The witness: one byte a second, refilled every second; a first grant of a byte at 5000 ms. -/
theorem speedlimit_bucket_rate_oneBytePerSecond :
    finalizeRateMath ⟨1, 0, 0, 1000⟩ = some ⟨1, 1000, 1000, 1000⟩ ∧
      (speedlimitCallLocal ⟨1, 1000, 1000, 1000⟩ (Bucket.full ⟨1, 1000, 1000, 1000⟩) (.grant 1 false) 5000).1 = 1 ∧
      kSpeedLimitUnitsPerByte * (0 + Call.granted (.grant 1 false)
          (speedlimitCallLocal ⟨1, 1000, 1000, 1000⟩ (Bucket.full ⟨1, 1000, 1000, 1000⟩) (.grant 1 false) 5000).1) ≤
        kSpeedLimitUnitsPerByte * 1 + (5000 - 5000) / 1000 * 1 * 1000 := by
  have hcfg : finalizeRateMath ⟨1, 0, 0, 1000⟩ = some ⟨1, 1000, 1000, 1000⟩ := by decide
  refine ⟨hcfg, by decide, ?_⟩
  exact ((speedlimit_bucket_rate hcfg (by decide) (by decide) (by decide)).1 _ _ _ _
    (LocalReach.full.call (.grant 1 false) 5000)).2.2 5000 5000 (by decide) (by decide)

/-- Counted by clock reading, as "the bytes granted by calls whose reading is at most `T`", the bound
fails once a worker's clock steps back, which `speedlimitRefillLocalBucket` allows for: after a
grant at 5000 ms and a peek at 6000 ms that credits a step, a grant that reads 5000 ms again takes
that step's byte, and two bytes are granted at readings no later than 5000 ms where the bound at
`T = t0 = 5000` is one. -/
theorem speedlimit_bucket_rate_clockBack :
    finalizeRateMath ⟨1, 0, 0, 1000⟩ = some ⟨1, 1000, 1000, 1000⟩ ∧
      (speedlimitCallLocal ⟨1, 1000, 1000, 1000⟩ (Bucket.full ⟨1, 1000, 1000, 1000⟩) (.grant 1 false) 5000).1 = 1 ∧
      (speedlimitCallLocal ⟨1, 1000, 1000, 1000⟩
        (speedlimitCallLocal ⟨1, 1000, 1000, 1000⟩
          (speedlimitCallLocal ⟨1, 1000, 1000, 1000⟩ (Bucket.full ⟨1, 1000, 1000, 1000⟩) (.grant 1 false) 5000).2
          .peek 6000).2 (.grant 1 false) 5000).1 = 1 ∧
      ¬ kSpeedLimitUnitsPerByte * (1 + 1) ≤ kSpeedLimitUnitsPerByte * 1 + (5000 - 5000) / 1000 * 1 * 1000 := by
  decide

end WaterWall.SpeedLimit
