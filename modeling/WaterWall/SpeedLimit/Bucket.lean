import WaterWall.Bufio.ShiftBuffer

/-!
# SpeedLimit's token bucket

`src/tunnels/SpeedLimit` holds a line, a worker or the whole tunnel to `bytes_per_sec` bytes a
second with a token bucket counted in units, a thousand to the byte (`kSpeedLimitUnitsPerByte`).
The bucket holds one second's worth, `bucket_capacity_units = 1000 * B`, and every
`recharge_interval_ms = I` milliseconds a step of `refill_units_per_step = B * I` units comes
back.  A refill credits whole steps only and moves `last_refill_ms` by whole steps, so what is
left of a step counts towards the next.

This module is the bucket of the per-line and per-worker modes: `speedlimitRefillLocalBucket` of
`common/helpers.c`, the local-bucket branches of `speedlimitPeekAvailableUnits`,
`speedlimitGrantBytes` and `speedlimitGetRetryDelayMs`, and `finalizeRateMath` of
`instance/create.c`.  The shared bucket of the all-lines mode is `WaterWall.SpeedLimit.AtomicBucket`.

## What is here

* `RateMath ts`: what a configuration `finalizeRateMath` accepts satisfies.
* `speedlimitRefillLocalBucket_eq`: a refill adds the units of the whole steps elapsed, up to the
  capacity.
* `LocalReach ts` and `LocalInv`: the buckets any sequence of calls reaches from a full one, and
  what every call keeps: at most a full bucket, and
  `1000 * granted + tokens ≤ capacity + step * steps credited`.
* `LocalInv.rate`: the bytes granted are at most one bucket plus one step per whole interval since
  the first recorded reading.
* `speedlimitGetRetryDelayMsLocal_spec`: the retry delay is exactly the wait until the first
  refill that makes a byte available.

Counters are `uint64_t` in the source and `Nat` here: every sum and product the code forms is
checked against `UINT64_MAX` first or bounded by the capacity, and the one saturating product,
`speedlimitAddedUnits`, is modelled with its saturation.
-/

set_option autoImplicit false

namespace WaterWall.SpeedLimit

def kSpeedLimitUnitsPerByte : Nat := 1000

def kSpeedLimitImmediateMs : Nat := 1

/-- The rate fields of `speedlimit_tstate_t`. -/
structure TState where
  bytes_per_sec : Nat
  bucket_capacity_units : Nat
  refill_units_per_step : Nat
  recharge_interval_ms : Nat
  deriving DecidableEq, Repr

def speedlimitMulOverflowU64 (a b : Nat) : Bool := b != 0 && a > UINT64_MAX / b

/-- `finalizeRateMath`, once `parseRateSettings` and `parseRechargeInterval` have set the rate and
the interval: refuse a rate whose products would wrap, else derive the capacity and the step.  The
buckets it fills are `Bucket.full`. -/
def finalizeRateMath (state : TState) : Option TState :=
  if speedlimitMulOverflowU64 state.bytes_per_sec kSpeedLimitUnitsPerByte then none
  else if speedlimitMulOverflowU64 state.bytes_per_sec state.recharge_interval_ms then none
  else some { state with
    bucket_capacity_units := state.bytes_per_sec * kSpeedLimitUnitsPerByte
    refill_units_per_step := state.bytes_per_sec * state.recharge_interval_ms }

/-- What the bucket code relies on once the tunnel is created: `parseRateSettings` refuses a rate
that rounds to zero, `parseRechargeInterval` an interval that is not positive, and
`finalizeRateMath` products that would wrap. -/
structure RateMath (ts : TState) : Prop where
  bytes_pos : 0 < ts.bytes_per_sec
  interval_pos : 0 < ts.recharge_interval_ms
  capacity_eq : ts.bucket_capacity_units = ts.bytes_per_sec * kSpeedLimitUnitsPerByte
  refill_eq : ts.refill_units_per_step = ts.bytes_per_sec * ts.recharge_interval_ms
  capacity_le : ts.bucket_capacity_units ≤ UINT64_MAX
  refill_le : ts.refill_units_per_step ≤ UINT64_MAX

theorem not_speedlimitMulOverflowU64 {a b : Nat} (h : speedlimitMulOverflowU64 a b = false) :
    a * b ≤ UINT64_MAX := by
  unfold speedlimitMulOverflowU64 at h
  by_cases hb : b = 0
  · simp [hb]
  · have hle : a ≤ UINT64_MAX / b := by simpa [hb] using h
    exact (Nat.le_div_iff_mul_le (Nat.pos_of_ne_zero hb)).1 hle

theorem finalizeRateMath_rateMath {state ts : TState} (h : finalizeRateMath state = some ts)
    (hB : 0 < state.bytes_per_sec) (hI : 0 < state.recharge_interval_ms) : RateMath ts := by
  unfold finalizeRateMath at h
  split_ifs at h with h₁ h₂
  cases h
  exact ⟨hB, hI, rfl, rfl, not_speedlimitMulOverflowU64 (by simpa using h₁),
    not_speedlimitMulOverflowU64 (by simpa using h₂)⟩

namespace RateMath

variable {ts : TState} (hts : RateMath ts)
include hts

theorem byte_le_capacity : kSpeedLimitUnitsPerByte ≤ ts.bucket_capacity_units := by
  rw [hts.capacity_eq]
  exact Nat.le_mul_of_pos_left _ hts.bytes_pos

theorem refill_pos : 0 < ts.refill_units_per_step := by
  rw [hts.refill_eq]
  exact Nat.mul_pos hts.bytes_pos hts.interval_pos

theorem interval_le_refill : ts.recharge_interval_ms ≤ ts.refill_units_per_step := by
  rw [hts.refill_eq]
  exact Nat.le_mul_of_pos_left _ hts.bytes_pos

end RateMath

/-! ## The bucket -/

/-- `speedlimit_bucket_t`. -/
structure Bucket where
  tokens_units : Nat
  last_refill_ms : Nat
  deriving DecidableEq, Repr

/-- The bucket `speedlimitLinestateInitialize` gives a line and `finalizeRateMath` a worker: full,
and never refilled (`last_refill_ms = 0` stands for no reading yet). -/
def Bucket.full (ts : TState) : Bucket := ⟨ts.bucket_capacity_units, 0⟩

/-- The units `steps` refill steps add, saturated at `UINT64_MAX`; both refills compute it so. -/
def speedlimitAddedUnits (ts : TState) (steps : Nat) : Nat :=
  if steps > UINT64_MAX / ts.refill_units_per_step then UINT64_MAX
  else steps * ts.refill_units_per_step

theorem speedlimitAddedUnits_eq {ts : TState} (hR : 0 < ts.refill_units_per_step) (steps : Nat) :
    speedlimitAddedUnits ts steps = min UINT64_MAX (steps * ts.refill_units_per_step) := by
  unfold speedlimitAddedUnits
  split
  · rename_i hgt
    have : UINT64_MAX < steps * ts.refill_units_per_step := (Nat.div_lt_iff_lt_mul hR).1 hgt
    omega
  · rename_i hle
    have : steps * ts.refill_units_per_step ≤ UINT64_MAX :=
      (Nat.le_div_iff_mul_le hR).1 (Nat.le_of_not_lt hle)
    omega

/-- `speedlimitRefillLocalBucket`: record the first reading; after that, credit the whole steps
elapsed since `last_refill_ms`, and move it on by those steps. -/
def speedlimitRefillLocalBucket (ts : TState) (bucket : Bucket) (now_ms : Nat) : Bucket :=
  if bucket.last_refill_ms = 0 then { bucket with last_refill_ms := now_ms }
  else if now_ms ≤ bucket.last_refill_ms then bucket
  else
    let elapsed_ms := now_ms - bucket.last_refill_ms
    let steps := elapsed_ms / ts.recharge_interval_ms
    if steps = 0 then bucket
    else
      let added_units := speedlimitAddedUnits ts steps
      let last_refill_ms := bucket.last_refill_ms + steps * ts.recharge_interval_ms
      if bucket.tokens_units ≥ ts.bucket_capacity_units then
        ⟨ts.bucket_capacity_units, last_refill_ms⟩
      else if added_units ≥ ts.bucket_capacity_units - bucket.tokens_units then
        ⟨ts.bucket_capacity_units, last_refill_ms⟩
      else ⟨bucket.tokens_units + added_units, last_refill_ms⟩

/-- The steps a refill at `now_ms` credits: the whole intervals since `last_refill_ms` (none when
the clock is not past it). -/
def refillSteps (ts : TState) (last_refill_ms now_ms : Nat) : Nat :=
  (now_ms - last_refill_ms) / ts.recharge_interval_ms

theorem refillSteps_le (ts : TState) (last_refill_ms now_ms : Nat) :
    last_refill_ms + refillSteps ts last_refill_ms now_ms * ts.recharge_interval_ms ≤
      max last_refill_ms now_ms := by
  have := Nat.div_mul_le_self (now_ms - last_refill_ms) ts.recharge_interval_ms
  unfold refillSteps
  omega

/-- **A refill, in closed form**: once a reading is recorded, the units of the whole steps elapsed
are added up to the capacity, and `last_refill_ms` moves on by those steps. -/
theorem speedlimitRefillLocalBucket_eq {ts : TState} {b : Bucket} (hL : b.last_refill_ms ≠ 0)
    (hcap : b.tokens_units ≤ ts.bucket_capacity_units) (now_ms : Nat) :
    speedlimitRefillLocalBucket ts b now_ms =
      ⟨min ts.bucket_capacity_units
          (b.tokens_units + speedlimitAddedUnits ts (refillSteps ts b.last_refill_ms now_ms)),
        b.last_refill_ms + refillSteps ts b.last_refill_ms now_ms * ts.recharge_interval_ms⟩ := by
  have hzero : speedlimitAddedUnits ts 0 = 0 := by simp [speedlimitAddedUnits]
  unfold speedlimitRefillLocalBucket refillSteps
  rw [if_neg hL]
  split
  · -- the clock is not past the last refill: no step
    rename_i hnow
    rw [Nat.sub_eq_zero_of_le hnow, Nat.zero_div, hzero]
    simp [Nat.min_eq_right hcap]
  · dsimp only
    split
    · rename_i hs
      rw [hs, hzero]
      simp [Nat.min_eq_right hcap]
    · split
      · rw [Nat.min_eq_left (by omega)]
      · split
        · rw [Nat.min_eq_left (by omega)]
        · rw [Nat.min_eq_right (by omega)]

theorem speedlimitRefillLocalBucket_of_zero {ts : TState} {b : Bucket} (hL : b.last_refill_ms = 0)
    (now_ms : Nat) : speedlimitRefillLocalBucket ts b now_ms = ⟨b.tokens_units, now_ms⟩ := by
  simp [speedlimitRefillLocalBucket, hL]

/-- Under an accepted rate the saturation never binds below the capacity. -/
theorem speedlimitRefillLocalBucket_tokens {ts : TState} (hts : RateMath ts) {b : Bucket}
    (hL : b.last_refill_ms ≠ 0) (hcap : b.tokens_units ≤ ts.bucket_capacity_units) (now_ms : Nat) :
    (speedlimitRefillLocalBucket ts b now_ms).tokens_units =
      min ts.bucket_capacity_units
        (b.tokens_units + refillSteps ts b.last_refill_ms now_ms * ts.refill_units_per_step) := by
  rw [speedlimitRefillLocalBucket_eq hL hcap, speedlimitAddedUnits_eq hts.refill_pos]
  have := hts.capacity_le
  dsimp only
  omega

theorem speedlimitRefillLocalBucket_tokens_le {ts : TState} {b : Bucket}
    (hcap : b.tokens_units ≤ ts.bucket_capacity_units) (now_ms : Nat) :
    (speedlimitRefillLocalBucket ts b now_ms).tokens_units ≤ ts.bucket_capacity_units := by
  by_cases hL : b.last_refill_ms = 0
  · rw [speedlimitRefillLocalBucket_of_zero hL]
    exact hcap
  · rw [speedlimitRefillLocalBucket_eq hL hcap]
    exact Nat.min_le_left _ _

/-! ## The three calls on a local bucket -/

/-- The grant both branches of `speedlimitGrantBytes` compute from the whole bytes available:
as much as there is when partial grants are allowed, else all or nothing. -/
def speedlimitGrantOf (requested_bytes available_bytes : Nat) (partial_allowed : Bool) : Nat :=
  if partial_allowed then min requested_bytes available_bytes
  else if available_bytes ≥ requested_bytes then requested_bytes else 0

/-- What a grant is: a partial grant is what is available up to the request, any other is the
request or nothing. -/
theorem speedlimitGrantOf_spec (requested_bytes available_bytes : Nat) (partial_allowed : Bool) :
    (partial_allowed = true →
        speedlimitGrantOf requested_bytes available_bytes partial_allowed =
          min requested_bytes available_bytes) ∧
      (partial_allowed = false →
        speedlimitGrantOf requested_bytes available_bytes partial_allowed = 0 ∨
          speedlimitGrantOf requested_bytes available_bytes partial_allowed = requested_bytes) := by
  cases partial_allowed with
  | true => simp [speedlimitGrantOf]
  | false =>
    simp only [speedlimitGrantOf, Bool.false_eq_true, if_false]
    split <;> simp

theorem speedlimitGrantOf_le_available (requested_bytes available_bytes : Nat) (partial_allowed : Bool) :
    speedlimitGrantOf requested_bytes available_bytes partial_allowed ≤ available_bytes := by
  unfold speedlimitGrantOf
  split
  · exact Nat.min_le_right _ _
  · split <;> omega

theorem units_speedlimitGrantOf_le (requested_bytes tokens_units : Nat) (partial_allowed : Bool) :
    speedlimitGrantOf requested_bytes (tokens_units / kSpeedLimitUnitsPerByte) partial_allowed *
      kSpeedLimitUnitsPerByte ≤ tokens_units :=
  Nat.le_trans (Nat.mul_le_mul_right _ (speedlimitGrantOf_le_available _ _ _))
    (Nat.div_mul_le_self _ _)

/-- `speedlimitGrantBytes` on a line's or a worker's bucket. -/
def speedlimitGrantBytesLocal (ts : TState) (bucket : Bucket) (requested_bytes : Nat)
    (partial_allowed : Bool) (now_ms : Nat) : Nat × Bucket :=
  if requested_bytes = 0 then (0, bucket)
  else
    let bucket := speedlimitRefillLocalBucket ts bucket now_ms
    let available_bytes := bucket.tokens_units / kSpeedLimitUnitsPerByte
    let grant_bytes := speedlimitGrantOf requested_bytes available_bytes partial_allowed
    if grant_bytes = 0 then (0, bucket)
    else (grant_bytes, { bucket with tokens_units := bucket.tokens_units - grant_bytes * kSpeedLimitUnitsPerByte })

/-- A grant refills, then takes the units of what it grants. -/
theorem speedlimitGrantBytesLocal_eq (ts : TState) (bucket : Bucket) {requested_bytes : Nat}
    (hr : requested_bytes ≠ 0) (partial_allowed : Bool) (now_ms : Nat) :
    let refilled := speedlimitRefillLocalBucket ts bucket now_ms
    let grant_bytes :=
      speedlimitGrantOf requested_bytes (refilled.tokens_units / kSpeedLimitUnitsPerByte) partial_allowed
    speedlimitGrantBytesLocal ts bucket requested_bytes partial_allowed now_ms =
      (grant_bytes,
        { refilled with tokens_units := refilled.tokens_units - grant_bytes * kSpeedLimitUnitsPerByte }) := by
  dsimp only
  unfold speedlimitGrantBytesLocal
  rw [if_neg hr]
  dsimp only
  split
  · rename_i h0
    rw [h0, Nat.zero_mul, Nat.sub_zero]
  · rfl

theorem speedlimitGrantOf_zero (available_bytes : Nat) (partial_allowed : Bool) :
    speedlimitGrantOf 0 available_bytes partial_allowed = 0 := by
  cases partial_allowed <;> simp [speedlimitGrantOf]

/-- What a grant returns: the grant of what its refill leaves available (a grant of nothing, which
does not refill, returns nothing all the same). -/
theorem speedlimitGrantBytesLocal_fst (ts : TState) (bucket : Bucket) (requested_bytes : Nat)
    (partial_allowed : Bool) (now_ms : Nat) :
    (speedlimitGrantBytesLocal ts bucket requested_bytes partial_allowed now_ms).1 =
      speedlimitGrantOf requested_bytes
        ((speedlimitRefillLocalBucket ts bucket now_ms).tokens_units / kSpeedLimitUnitsPerByte) partial_allowed := by
  by_cases hr : requested_bytes = 0
  · subst hr
    rw [speedlimitGrantOf_zero]
    simp [speedlimitGrantBytesLocal]
  · rw [speedlimitGrantBytesLocal_eq ts bucket hr]

/-- `speedlimitPeekAvailableUnits` on a line's or a worker's bucket. -/
def speedlimitPeekAvailableUnitsLocal (ts : TState) (bucket : Bucket) (now_ms : Nat) : Nat × Bucket :=
  let bucket := speedlimitRefillLocalBucket ts bucket now_ms
  (bucket.tokens_units, bucket)

/-- The delay `speedlimitGetRetryDelayMs` computes from the clock, the units its peek returned and
the `last_refill_ms` it read after: the rest of the current step, and a step more for each step
the missing units still need. -/
def speedlimitRetryDelayOf (ts : TState) (now_ms tokens_units last_refill : Nat) : Nat :=
  if tokens_units ≥ kSpeedLimitUnitsPerByte then kSpeedLimitImmediateMs
  else if last_refill = 0 ∨ now_ms < last_refill then ts.recharge_interval_ms
  else
    let phase_ms := (now_ms - last_refill) % ts.recharge_interval_ms
    let wait_ms := if phase_ms = 0 then ts.recharge_interval_ms else ts.recharge_interval_ms - phase_ms
    let wait_ms :=
      if tokens_units < kSpeedLimitUnitsPerByte then
        let missing_units := kSpeedLimitUnitsPerByte - tokens_units
        let steps_needed := (missing_units + ts.refill_units_per_step - 1) / ts.refill_units_per_step
        if steps_needed > 1 then wait_ms + (steps_needed - 1) * ts.recharge_interval_ms else wait_ms
      else wait_ms
    if wait_ms = 0 ∨ wait_ms > UINT32_MAX then ts.recharge_interval_ms else wait_ms

/-- `speedlimitGetRetryDelayMs` on a line's or a worker's bucket. -/
def speedlimitGetRetryDelayMsLocal (ts : TState) (bucket : Bucket) (now_ms : Nat) : Nat × Bucket :=
  let peeked := speedlimitPeekAvailableUnitsLocal ts bucket now_ms
  (speedlimitRetryDelayOf ts now_ms peeked.1 peeked.2.last_refill_ms, peeked.2)

/-! ## The retry delay -/

/-- The steps a refill must credit before `missing_units` are back: the ceiling of the quotient. -/
theorem le_steps_needed_iff {R : Nat} (hR : 0 < R) (missing_units s : Nat) :
    (missing_units + R - 1) / R ≤ s ↔ missing_units ≤ s * R := by
  rw [Nat.div_le_iff_le_mul_add_pred hR]
  constructor <;> intro h
  · rw [Nat.mul_comm] at h
    omega
  · rw [Nat.mul_comm]
    omega

/-- A bucket just refilled at `now_ms`: the reading is recorded, and less than a step has passed
since. -/
structure Fresh (ts : TState) (b : Bucket) (now_ms : Nat) : Prop where
  last_pos : 0 < b.last_refill_ms
  last_le : b.last_refill_ms ≤ now_ms
  phase_lt : now_ms - b.last_refill_ms < ts.recharge_interval_ms
  tokens_le : b.tokens_units ≤ ts.bucket_capacity_units

theorem fresh_speedlimitRefillLocalBucket {ts : TState} (hts : RateMath ts) {b : Bucket}
    (hcap : b.tokens_units ≤ ts.bucket_capacity_units) {now_ms : Nat} (hlast : b.last_refill_ms ≤ now_ms)
    (hnow : 0 < now_ms) : Fresh ts (speedlimitRefillLocalBucket ts b now_ms) now_ms := by
  have hI := hts.interval_pos
  have htok := speedlimitRefillLocalBucket_tokens_le hcap now_ms
  by_cases hL : b.last_refill_ms = 0
  · rw [speedlimitRefillLocalBucket_of_zero hL] at htok ⊢
    exact ⟨hnow, Nat.le_refl _, by simpa using hI, htok⟩
  · rw [speedlimitRefillLocalBucket_eq hL hcap] at htok ⊢
    -- the refill keeps the remainder of the interval elapsed, which is less than a step
    have hdm := Nat.div_add_mod' (now_ms - b.last_refill_ms) ts.recharge_interval_ms
    have hlt := Nat.mod_lt (now_ms - b.last_refill_ms) hI
    refine ⟨?_, ?_, ?_, htok⟩ <;> dsimp only [refillSteps] <;> omega

/-- The steps a byte's missing units need: at least one, and few enough that they fit the delay's
`uint32_t`, since more than one are needed only when a step is worth less than a byte. -/
theorem steps_needed_bounds {ts : TState} (hts : RateMath ts) (hI32 : ts.recharge_interval_ms ≤ UINT32_MAX)
    {tokens_units : Nat} (hlow : tokens_units < kSpeedLimitUnitsPerByte) :
    let steps_needed :=
      (kSpeedLimitUnitsPerByte - tokens_units + ts.refill_units_per_step - 1) / ts.refill_units_per_step
    1 ≤ steps_needed ∧ steps_needed * ts.recharge_interval_ms ≤ UINT32_MAX := by
  intro steps_needed
  have hR := hts.refill_pos
  have hone : ¬ steps_needed ≤ 0 :=
    (le_steps_needed_iff hR (kSpeedLimitUnitsPerByte - tokens_units) 0).not.2 (by omega)
  refine ⟨by omega, ?_⟩
  by_cases hk : steps_needed ≤ 1
  · calc steps_needed * ts.recharge_interval_ms ≤ 1 * ts.recharge_interval_ms := Nat.mul_le_mul_right _ hk
      _ ≤ UINT32_MAX := by rw [Nat.one_mul]; exact hI32
  · -- a step is worth less than the missing units, so less than a byte
    have hstep : ¬ (kSpeedLimitUnitsPerByte - tokens_units ≤ 1 * ts.refill_units_per_step) :=
      (le_steps_needed_iff hR _ 1).not.1 hk
    have hle : steps_needed ≤ 1000 := (le_steps_needed_iff hR _ 1000).2
      (Nat.le_trans (Nat.sub_le _ _) (Nat.le_mul_of_pos_right _ hR))
    have hI : ts.recharge_interval_ms ≤ 1000 := by
      have := hts.interval_le_refill
      unfold kSpeedLimitUnitsPerByte at hstep
      omega
    calc steps_needed * ts.recharge_interval_ms ≤ 1000 * 1000 := Nat.mul_le_mul hle hI
      _ ≤ UINT32_MAX := by decide

/-- On a fresh bucket short of a byte, the delay is the rest of the current step and a whole step
for each further step the missing units need. -/
theorem speedlimitRetryDelayOf_eq {ts : TState} (hts : RateMath ts)
    (hI32 : ts.recharge_interval_ms ≤ UINT32_MAX) {b : Bucket} {now_ms : Nat} (hb : Fresh ts b now_ms)
    (hlow : b.tokens_units < kSpeedLimitUnitsPerByte) :
    speedlimitRetryDelayOf ts now_ms b.tokens_units b.last_refill_ms =
      ts.recharge_interval_ms - (now_ms - b.last_refill_ms) +
        ((kSpeedLimitUnitsPerByte - b.tokens_units + ts.refill_units_per_step - 1) /
          ts.refill_units_per_step - 1) * ts.recharge_interval_ms := by
  obtain ⟨hk, hkI⟩ := steps_needed_bounds hts hI32 hlow
  have hphase := Nat.mod_eq_of_lt hb.phase_lt
  have hpos := hb.last_pos
  have hle := hb.last_le
  have hlt := hb.phase_lt
  unfold speedlimitRetryDelayOf
  rw [if_neg (Nat.not_le.2 hlow), if_neg (by omega), hphase]
  dsimp only
  rw [if_pos hlow]
  -- the rest of the step is the whole step when the clock is on a step boundary
  have hwait : (if now_ms - b.last_refill_ms = 0 then ts.recharge_interval_ms
      else ts.recharge_interval_ms - (now_ms - b.last_refill_ms)) =
      ts.recharge_interval_ms - (now_ms - b.last_refill_ms) := by
    split <;> omega
  rw [hwait]
  generalize (kSpeedLimitUnitsPerByte - b.tokens_units + ts.refill_units_per_step - 1) /
    ts.refill_units_per_step = k at hk hkI ⊢
  have hsplit : k * ts.recharge_interval_ms = (k - 1) * ts.recharge_interval_ms + ts.recharge_interval_ms := by
    rw [← Nat.succ_mul, Nat.succ_eq_add_one, Nat.sub_add_cancel hk]
  split
  · rw [if_neg (by omega)]
  · rename_i hk1
    rw [Nat.sub_eq_zero_of_le (Nat.le_of_not_lt hk1), Nat.zero_mul, Nat.add_zero, if_neg (by omega)]

/-- From a fresh bucket short of a byte, a later refill makes a byte available exactly when the
retry delay has passed. -/
theorem byte_available_iff {ts : TState} (hts : RateMath ts) (hI32 : ts.recharge_interval_ms ≤ UINT32_MAX)
    {b : Bucket} {now_ms : Nat} (hb : Fresh ts b now_ms) (hlow : b.tokens_units < kSpeedLimitUnitsPerByte)
    (t : Nat) :
    kSpeedLimitUnitsPerByte ≤ (speedlimitRefillLocalBucket ts b t).tokens_units ↔
      now_ms + speedlimitRetryDelayOf ts now_ms b.tokens_units b.last_refill_ms ≤ t := by
  obtain ⟨hk, -⟩ := steps_needed_bounds hts hI32 hlow
  rw [speedlimitRetryDelayOf_eq hts hI32 hb hlow,
    speedlimitRefillLocalBucket_tokens hts (Nat.pos_iff_ne_zero.1 hb.last_pos) hb.tokens_le]
  have hcap := hts.byte_le_capacity
  have hI := hts.interval_pos
  have hle := hb.last_le
  have hlt := hb.phase_lt
  -- a byte is back once the steps credited cover the missing units, so once `t` is that many
  -- steps past `last_refill_ms`
  have hsteps : ∀ s, kSpeedLimitUnitsPerByte ≤ b.tokens_units + s * ts.refill_units_per_step ↔
      (kSpeedLimitUnitsPerByte - b.tokens_units + ts.refill_units_per_step - 1) /
        ts.refill_units_per_step ≤ s := by
    intro s
    rw [le_steps_needed_iff hts.refill_pos]
    omega
  have hdiv : ∀ k, 1 ≤ k →
      (k ≤ refillSteps ts b.last_refill_ms t ↔ b.last_refill_ms + k * ts.recharge_interval_ms ≤ t) := by
    intro k hk
    unfold refillSteps
    rw [Nat.le_div_iff_mul_le hI]
    have : ts.recharge_interval_ms ≤ k * ts.recharge_interval_ms := Nat.le_mul_of_pos_left _ hk
    omega
  rw [Nat.le_min, hsteps, hdiv _ hk]
  generalize (kSpeedLimitUnitsPerByte - b.tokens_units + ts.refill_units_per_step - 1) /
    ts.refill_units_per_step = k at hk ⊢
  have hsplit : k * ts.recharge_interval_ms = (k - 1) * ts.recharge_interval_ms + ts.recharge_interval_ms := by
    rw [← Nat.succ_mul, Nat.succ_eq_add_one, Nat.sub_add_cancel hk]
  omega

/-- **The retry delay** is at least a millisecond and fits a `uint32_t`; with a byte available it
is immediate, and otherwise a refill makes a byte available exactly once it has passed, for a
bucket refilled before at a reading the clock has not gone back behind. -/
theorem speedlimitGetRetryDelayMsLocal_spec {ts : TState} (hts : RateMath ts)
    (hI32 : ts.recharge_interval_ms ≤ UINT32_MAX) {b : Bucket}
    (hcap : b.tokens_units ≤ ts.bucket_capacity_units) {now_ms : Nat} (hlast : b.last_refill_ms ≤ now_ms)
    (hnow : 0 < now_ms) :
    let r := speedlimitGetRetryDelayMsLocal ts b now_ms
    r.2 = speedlimitRefillLocalBucket ts b now_ms ∧ 1 ≤ r.1 ∧ r.1 ≤ UINT32_MAX ∧
      (kSpeedLimitUnitsPerByte ≤ r.2.tokens_units → r.1 = kSpeedLimitImmediateMs) ∧
      (r.2.tokens_units < kSpeedLimitUnitsPerByte → ∀ t,
        kSpeedLimitUnitsPerByte ≤ (speedlimitRefillLocalBucket ts r.2 t).tokens_units ↔ now_ms + r.1 ≤ t) := by
  intro r
  set b' := speedlimitRefillLocalBucket ts b now_ms with hb'
  have hb := fresh_speedlimitRefillLocalBucket hts hcap hlast hnow
  have hr : r = (speedlimitRetryDelayOf ts now_ms b'.tokens_units b'.last_refill_ms, b') := rfl
  rw [hr]
  by_cases hlow : b'.tokens_units < kSpeedLimitUnitsPerByte
  · obtain ⟨hk, hkI⟩ := steps_needed_bounds hts hI32 hlow
    have hdelay := speedlimitRetryDelayOf_eq hts hI32 hb hlow
    have hlt := hb.phase_lt
    refine ⟨rfl, ?_, ?_, fun h => absurd h (Nat.not_le.2 hlow), fun _ => byte_available_iff hts hI32 hb hlow⟩
    · rw [hdelay]
      omega
    · rw [hdelay]
      generalize (kSpeedLimitUnitsPerByte - b'.tokens_units + ts.refill_units_per_step - 1) /
        ts.refill_units_per_step = k at hk hkI ⊢
      have hsplit : k * ts.recharge_interval_ms =
          (k - 1) * ts.recharge_interval_ms + ts.recharge_interval_ms := by
        rw [← Nat.succ_mul, Nat.succ_eq_add_one, Nat.sub_add_cancel hk]
      omega
  · have himm : speedlimitRetryDelayOf ts now_ms b'.tokens_units b'.last_refill_ms = kSpeedLimitImmediateMs := by
      unfold speedlimitRetryDelayOf
      rw [if_pos (Nat.le_of_not_lt hlow)]
    rw [himm]
    exact ⟨rfl, Nat.le_refl _, (by decide : kSpeedLimitImmediateMs ≤ UINT32_MAX), fun _ => rfl,
      fun h => absurd h hlow⟩

/-! ## Runs of calls -/

/-- The three calls the payload paths make on a bucket. -/
inductive Call
  | grant (requested_bytes : Nat) (partial_allowed : Bool)
  | peek
  | retry
  deriving DecidableEq, Repr

/-- A call on a line's or a worker's bucket at the clock reading `now_ms`: what it returns, and
the bucket after. -/
def speedlimitCallLocal (ts : TState) (bucket : Bucket) : Call → Nat → Nat × Bucket
  | .grant requested_bytes partial_allowed, now_ms =>
    speedlimitGrantBytesLocal ts bucket requested_bytes partial_allowed now_ms
  | .peek, now_ms => speedlimitPeekAvailableUnitsLocal ts bucket now_ms
  | .retry, now_ms => speedlimitGetRetryDelayMsLocal ts bucket now_ms

/-- The bytes a call grants, given what it returns: a grant's result, nothing for the others. -/
def Call.granted : Call → Nat → Nat
  | .grant .., result => result
  | _, _ => 0

/-- Whether a call refills: every call does but a grant of nothing, which returns first. -/
def Call.refills : Call → Bool
  | .grant requested_bytes _ => requested_bytes != 0
  | _ => true

/-- **What a call does to the bucket**: a grant of nothing leaves it alone; any other call refills
it, then takes the units of the bytes it grants. -/
theorem speedlimitCallLocal_cases (ts : TState) (b : Bucket) (c : Call) (now_ms : Nat) :
    (c.refills = false ∧ speedlimitCallLocal ts b c now_ms = (0, b)) ∨
    (c.refills = true ∧ ∃ n, n * kSpeedLimitUnitsPerByte ≤ (speedlimitRefillLocalBucket ts b now_ms).tokens_units ∧
      c.granted (speedlimitCallLocal ts b c now_ms).1 = n ∧
      (speedlimitCallLocal ts b c now_ms).2 =
        { speedlimitRefillLocalBucket ts b now_ms with
          tokens_units := (speedlimitRefillLocalBucket ts b now_ms).tokens_units - n * kSpeedLimitUnitsPerByte }) := by
  cases c with
  | grant requested_bytes partial_allowed =>
    by_cases hr : requested_bytes = 0
    · left
      simp [Call.refills, speedlimitCallLocal, speedlimitGrantBytesLocal, hr]
    · right
      refine ⟨by simpa [Call.refills] using hr, _,
        units_speedlimitGrantOf_le requested_bytes _ partial_allowed, ?_⟩
      simp [speedlimitCallLocal, speedlimitGrantBytesLocal_eq ts b hr, Call.granted]
  | peek => exact .inr ⟨rfl, 0, Nat.zero_le _, rfl, by simp [speedlimitCallLocal, speedlimitPeekAvailableUnitsLocal]⟩
  | retry =>
    exact .inr ⟨rfl, 0, Nat.zero_le _, rfl,
      by simp [speedlimitCallLocal, speedlimitGetRetryDelayMsLocal, speedlimitPeekAvailableUnitsLocal]⟩

/-- The refill steps credited since `t0`, the first reading recorded in `last_refill_ms`: the
whole intervals from it; none before a reading is recorded. -/
def creditedSteps (ts : TState) (first_refill_ms : Option Nat) (last_refill_ms : Nat) : Nat :=
  match first_refill_ms with
  | none => 0
  | some t0 => (last_refill_ms - t0) / ts.recharge_interval_ms

/-- What every call keeps of a bucket, with the bytes granted so far, a bound on the clock
readings so far and the first reading recorded.  The accounting says that what was granted and
what is left are no more than the full bucket it started as and the steps credited since. -/
structure LocalInv (ts : TState) (b : Bucket) (granted now_bound : Nat) (first_refill_ms : Option Nat) :
    Prop where
  tokens_le : b.tokens_units ≤ ts.bucket_capacity_units
  last_le : b.last_refill_ms ≤ now_bound
  first_le : ∀ t0, first_refill_ms = some t0 → t0 ≤ b.last_refill_ms
  unrecorded : first_refill_ms = none → b.last_refill_ms = 0 ∧ granted = 0
  accounting : kSpeedLimitUnitsPerByte * granted + b.tokens_units ≤
    ts.bucket_capacity_units + ts.refill_units_per_step * creditedSteps ts first_refill_ms b.last_refill_ms

/-- What the accounting gives at any time `T` that `last_refill_ms` has not passed: the bytes
granted are at most a bucket and a step for each whole interval since `t0`. -/
theorem granted_le_of_accounting {ts : TState} (hts : RateMath ts) {granted last_refill_ms t0 T : Nat}
    (hT : last_refill_ms ≤ T)
    (hacc : kSpeedLimitUnitsPerByte * granted ≤
      ts.bucket_capacity_units + ts.refill_units_per_step * ((last_refill_ms - t0) / ts.recharge_interval_ms)) :
    kSpeedLimitUnitsPerByte * granted ≤
      kSpeedLimitUnitsPerByte * ts.bytes_per_sec +
        (T - t0) / ts.recharge_interval_ms * ts.bytes_per_sec * ts.recharge_interval_ms := by
  -- the steps credited so far are at most the whole intervals up to `T`
  have hsteps : (last_refill_ms - t0) / ts.recharge_interval_ms ≤ (T - t0) / ts.recharge_interval_ms :=
    Nat.div_le_div_right (Nat.sub_le_sub_right hT t0)
  calc kSpeedLimitUnitsPerByte * granted
      ≤ ts.bucket_capacity_units + ts.refill_units_per_step * ((last_refill_ms - t0) / ts.recharge_interval_ms) :=
        hacc
    _ ≤ ts.bucket_capacity_units + ts.refill_units_per_step * ((T - t0) / ts.recharge_interval_ms) :=
        Nat.add_le_add_left (Nat.mul_le_mul_left _ hsteps) _
    _ = kSpeedLimitUnitsPerByte * ts.bytes_per_sec +
          (T - t0) / ts.recharge_interval_ms * ts.bytes_per_sec * ts.recharge_interval_ms := by
        rw [hts.capacity_eq, hts.refill_eq]
        ac_rfl

namespace LocalInv

variable {ts : TState} {b : Bucket} {granted now_bound : Nat} {first_refill_ms : Option Nat}

theorem full : LocalInv ts (Bucket.full ts) 0 0 none :=
  ⟨Nat.le_refl _, Nat.le_refl _, (fun _ h => by cases h), (fun _ => ⟨rfl, rfl⟩), by simp [Bucket.full]⟩

theorem mono (hi : LocalInv ts b granted now_bound first_refill_ms) {now_bound' : Nat}
    (h : now_bound ≤ now_bound') : LocalInv ts b granted now_bound' first_refill_ms :=
  { hi with last_le := Nat.le_trans hi.last_le h }

/-- A refill records the first reading, or credits the units of at most the steps it moves
`last_refill_ms` by. -/
theorem refill (hts : RateMath ts) (hi : LocalInv ts b granted now_bound first_refill_ms) (now_ms : Nat) :
    LocalInv ts (speedlimitRefillLocalBucket ts b now_ms) granted (max now_bound now_ms)
      (first_refill_ms.or (some now_ms)) := by
  by_cases hL : b.last_refill_ms = 0
  · -- the first reading: nothing credited before or after
    rw [speedlimitRefillLocalBucket_of_zero hL]
    have hcredit : creditedSteps ts first_refill_ms b.last_refill_ms = 0 := by
      cases hf : first_refill_ms with
      | none => rfl
      | some t0 =>
        have := hi.first_le t0 hf
        simp only [creditedSteps]
        rw [hL, Nat.zero_sub, Nat.zero_div]
    have hacc := hi.accounting
    rw [hcredit, Nat.mul_zero, Nat.add_zero] at hacc
    refine ⟨hi.tokens_le, Nat.le_max_right _ _, ?_, ?_, Nat.le_trans hacc (Nat.le_add_right _ _)⟩
    · intro t0 ht0
      cases hf : first_refill_ms with
      | none => rw [hf] at ht0; cases ht0; exact Nat.le_refl _
      | some x =>
        rw [hf] at ht0
        have hx : x = t0 := Option.some.inj ht0
        have := hi.first_le x hf
        dsimp only
        omega
    · intro h
      cases hf : first_refill_ms <;> rw [hf] at h <;> cases h
  · -- later refills: `last_refill_ms` moves by whole steps, each worth at most a step's units
    obtain ⟨t0, hf⟩ : ∃ t0, first_refill_ms = some t0 := by
      cases hf : first_refill_ms with
      | none => exact absurd (hi.unrecorded hf).1 hL
      | some t0 => exact ⟨t0, rfl⟩
    have ht0 := hi.first_le t0 hf
    have hacc := hi.accounting
    rw [hf] at hacc
    rw [hf, Option.some_or, speedlimitRefillLocalBucket_eq hL hi.tokens_le]
    set s := refillSteps ts b.last_refill_ms now_ms
    have hadded : speedlimitAddedUnits ts s ≤ s * ts.refill_units_per_step := by
      rw [speedlimitAddedUnits_eq hts.refill_pos]
      exact Nat.min_le_right _ _
    have hcredit : creditedSteps ts (some t0) (b.last_refill_ms + s * ts.recharge_interval_ms) =
        creditedSteps ts (some t0) b.last_refill_ms + s := by
      simp only [creditedSteps]
      rw [Nat.sub_add_comm ht0, Nat.add_mul_div_right _ _ hts.interval_pos]
    have hstep : b.last_refill_ms + s * ts.recharge_interval_ms ≤ max b.last_refill_ms now_ms :=
      refillSteps_le ts b.last_refill_ms now_ms
    have hlast := hi.last_le
    refine ⟨Nat.min_le_left _ _, ?_, ?_, (fun h => by cases h), ?_⟩
    · dsimp only
      omega
    · intro x hx
      cases hx
      dsimp only
      omega
    · dsimp only
      rw [hcredit, Nat.mul_add]
      have := Nat.min_le_right ts.bucket_capacity_units (b.tokens_units + speedlimitAddedUnits ts s)
      rw [Nat.mul_comm ts.refill_units_per_step s]
      omega

/-- A grant takes the units of the bytes it grants. -/
theorem take (hi : LocalInv ts b granted now_bound first_refill_ms) (hf : first_refill_ms.isSome)
    {n : Nat} (hn : n * kSpeedLimitUnitsPerByte ≤ b.tokens_units) :
    LocalInv ts { b with tokens_units := b.tokens_units - n * kSpeedLimitUnitsPerByte } (granted + n)
      now_bound first_refill_ms := by
  have hacc := hi.accounting
  refine ⟨Nat.le_trans (Nat.sub_le _ _) hi.tokens_le, hi.last_le, hi.first_le, ?_, ?_⟩
  · intro h
    rw [h] at hf
    cases hf
  · dsimp only
    unfold kSpeedLimitUnitsPerByte at hacc hn ⊢
    omega

/-- Every call keeps the invariant. -/
theorem call (hts : RateMath ts) (hi : LocalInv ts b granted now_bound first_refill_ms) (c : Call)
    (now_ms : Nat) :
    LocalInv ts (speedlimitCallLocal ts b c now_ms).2 (granted + c.granted (speedlimitCallLocal ts b c now_ms).1)
      (max now_bound now_ms) (if c.refills then first_refill_ms.or (some now_ms) else first_refill_ms) := by
  rcases speedlimitCallLocal_cases ts b c now_ms with ⟨hr, hcall⟩ | ⟨hr, n, hn, hgranted, hbucket⟩
  · -- only a grant of nothing does not refill
    cases c with
    | grant requested_bytes partial_allowed =>
      rw [hcall, hr]
      exact hi.mono (Nat.le_max_left _ _)
    | peek => cases hr
    | retry => cases hr
  · rw [hgranted, hbucket, hr, if_pos rfl]
    exact (hi.refill hts now_ms).take (by cases first_refill_ms <;> rfl) hn

/-- **The rate**: up to any time `T` that bounds the clock readings, the bytes granted are at most
a bucket, `B` bytes, and a step of `B * I / 1000` bytes for each whole interval `I` since the first
recorded reading `t0`, counted here in units to stay in whole numbers.  Nothing is granted before a
reading is recorded. -/
theorem rate (hts : RateMath ts) (hi : LocalInv ts b granted now_bound first_refill_ms) {T : Nat}
    (hT : now_bound ≤ T) :
    (first_refill_ms = none → granted = 0) ∧
    ∀ t0, first_refill_ms = some t0 →
      kSpeedLimitUnitsPerByte * granted ≤
        kSpeedLimitUnitsPerByte * ts.bytes_per_sec +
          (T - t0) / ts.recharge_interval_ms * ts.bytes_per_sec * ts.recharge_interval_ms := by
  refine ⟨fun h => (hi.unrecorded h).2, fun t0 hf => ?_⟩
  have hacc := hi.accounting
  rw [hf] at hacc
  exact granted_le_of_accounting hts (Nat.le_trans hi.last_le hT) (Nat.le_trans (Nat.le_add_right _ _) hacc)

end LocalInv

/-- The buckets a line's or a worker's calls reach from the full bucket, any call at any clock
reading, with the bytes granted so far, the largest reading so far and the first reading
recorded in `last_refill_ms`. -/
inductive LocalReach (ts : TState) : Bucket → Nat → Nat → Option Nat → Prop
  | full : LocalReach ts (Bucket.full ts) 0 0 none
  | call {b : Bucket} {granted now_bound : Nat} {first_refill_ms : Option Nat} (c : Call) (now_ms : Nat) :
      LocalReach ts b granted now_bound first_refill_ms →
      LocalReach ts (speedlimitCallLocal ts b c now_ms).2
        (granted + c.granted (speedlimitCallLocal ts b c now_ms).1) (max now_bound now_ms)
        (if c.refills then first_refill_ms.or (some now_ms) else first_refill_ms)

theorem LocalReach.inv {ts : TState} (hts : RateMath ts) {b : Bucket} {granted now_bound : Nat}
    {first_refill_ms : Option Nat} (r : LocalReach ts b granted now_bound first_refill_ms) :
    LocalInv ts b granted now_bound first_refill_ms := by
  induction r with
  | full => exact LocalInv.full
  | call c now_ms _ ih => exact ih.call hts c now_ms

end WaterWall.SpeedLimit
