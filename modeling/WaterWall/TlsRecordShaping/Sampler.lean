import WaterWall.TlsRecordShaping.Config

/-!
# The TLS record shaping sampler

For each application record it pads, a TLS tunnel asks `tlsrecordshapingSample` for a decision:
an outcome picked by a roll in `[1, 100]` against the outcomes' cumulative probabilities, a
padding drawn in the outcome's padding range, and a delay drawn in its delay range when a second
roll is within the delay's probability.  Only the first `first_application_records` records of a
line are considered.  `tlsrecordshapingSelectDeterministic` is the decision given the rolls and
draws, which `tlsrecordshapingSample` makes with `fastRandRange32`.

* `selectOutcome_eq_some_iff`: the scan picks outcome `i` exactly when the cumulative probability
  before it is below the roll and the one through it reaches the roll.
* `tlsrecordshaping_decision_law`: for a configuration the parser accepts, a decision selects by
  that rule, pads and delays within the chosen outcome's ranges and the delay probability, and is
  accepted by the output queue; over a run of calls, `min(n, first_application_records)`
  decisions are considered.
-/

set_option autoImplicit false

namespace WaterWall
namespace TlsRecordShaping

open CJson

/-- `boundedDraw`: a draw clamped into a range. -/
def boundedDraw (supplied : Nat) (range : ShapingRange) : Nat :=
  if supplied < range.minimum then range.minimum
  else if supplied > range.maximum then range.maximum
  else supplied

/-- The fields of `tlsrecordshaping_state_t` the sampler reads and writes. -/
structure ShapingState where
  application_records_seen : Nat
  records_delayed : Nat
  deriving DecidableEq, Repr

/-- `tlsrecordshaping_decision_t`, zeroed by default. -/
structure Decision where
  requested_padding_bytes : Nat := 0
  delay_ms : Nat := 0
  selected_outcome : Nat := 0
  considered : Bool := false
  outcome_selected : Bool := false
  deriving DecidableEq, Repr

/-- The outcomes the sampler's loops visit: `config->outcomes[0 .. outcome_count)`. -/
def Config.slots (config : Config) : List Outcome :=
  (List.range config.outcome_count).map config.outcome

/-- The cumulative scan of the sampler's loops, from outcome `i` on with `cumulative` the sum of
the probabilities before it: the first outcome whose cumulative probability reaches the roll. -/
def selectOutcome (outcome_roll : Nat) : List Outcome → Nat → Nat → Option Nat
  | [], _, _ => none
  | o :: os, i, cumulative =>
    if outcome_roll > cumulative + o.probability then
      selectOutcome outcome_roll os (i + 1) (cumulative + o.probability)
    else some i

def tlsrecordshapingSelectDeterministic (config : Config) (state : ShapingState)
    (outcome_roll padding_draw delay_roll delay_draw : Nat) : Bool × ShapingState × Decision :=
  if config.enabled = false ∨ outcome_roll < 1 ∨ outcome_roll > 100 ∨ delay_roll < 1 ∨
      delay_roll > 100 then (false, state, {})
  else if state.application_records_seen ≥ config.first_application_records then (true, state, {})
  else
    let state := { state with application_records_seen := state.application_records_seen + 1 }
    match selectOutcome outcome_roll config.slots 0 0 with
    | none => (true, state, { considered := true })
    | some i =>
      let outcome := config.outcome i
      let requested_padding_bytes :=
        if outcome.has_padding then boundedDraw padding_draw outcome.padding_bytes else 0
      let delay_ms :=
        if outcome.has_delay ∧ delay_roll ≤ outcome.delay_probability then
          boundedDraw delay_draw outcome.delay_ms
        else 0
      let state :=
        if delay_ms > 0 then { state with records_delayed := state.records_delayed + 1 } else state
      (true, state,
        { requested_padding_bytes := requested_padding_bytes
          delay_ms := delay_ms
          selected_outcome := i
          considered := true
          outcome_selected := true })

/-- `fastRandRange32`, `random` being the value of `fastRand64()` it reduces. -/
def fastRandRange32 (min_value max_value random : Nat) : Nat :=
  if max_value ≤ min_value then min_value
  else min_value + random % (max_value - min_value + 1)

/-- The values of `fastRand64()` behind the four draws of `tlsrecordshapingSample`. -/
structure SampleRandoms where
  outcome_roll : Nat
  delay_roll : Nat
  padding_draw : Nat
  delay_draw : Nat

/-- `tlsrecordshapingSample`: two rolls in `[1, 100]`, then the draws in the ranges of the
outcome the roll picks (its loop breaks at `outcome_roll <= cumulative`, the scan of
`selectOutcome`). -/
def tlsrecordshapingSample (config : Config) (state : ShapingState) (randoms : SampleRandoms) :
    Bool × ShapingState × Decision :=
  if config.enabled = false then (false, state, {})
  else
    let outcome_roll := fastRandRange32 1 100 randoms.outcome_roll
    let delay_roll := fastRandRange32 1 100 randoms.delay_roll
    let draws : Nat × Nat :=
      match selectOutcome outcome_roll config.slots 0 0 with
      | some i =>
        let outcome := config.outcome i
        (if outcome.has_padding then
            fastRandRange32 outcome.padding_bytes.minimum outcome.padding_bytes.maximum
              randoms.padding_draw
          else 0,
          if outcome.has_delay then
            fastRandRange32 outcome.delay_ms.minimum outcome.delay_ms.maximum randoms.delay_draw
          else 0)
      | none => (0, 0)
    tlsrecordshapingSelectDeterministic config state outcome_roll draws.1 delay_roll draws.2

/-! ## Draws and rolls -/

theorem boundedDraw_mem {supplied : Nat} {range : ShapingRange}
    (h : range.minimum ≤ range.maximum) :
    range.minimum ≤ boundedDraw supplied range ∧ boundedDraw supplied range ≤ range.maximum := by
  unfold boundedDraw
  split
  · omega
  · split <;> omega

theorem fastRandRange32_mem (min_value max_value random : Nat) (h : min_value ≤ max_value) :
    min_value ≤ fastRandRange32 min_value max_value random ∧
      fastRandRange32 min_value max_value random ≤ max_value := by
  unfold fastRandRange32
  split
  · omega
  · have := Nat.mod_lt random (show max_value - min_value + 1 > 0 by omega)
    omega

/-! ## The cumulative scan -/

/-- The cumulative probability of the first `k` outcomes. -/
def cumulativeProbability (outcomes : List Outcome) (k : Nat) : Nat :=
  ((outcomes.take k).map Outcome.probability).sum

@[simp] theorem cumulativeProbability_zero (outcomes : List Outcome) :
    cumulativeProbability outcomes 0 = 0 := by
  simp [cumulativeProbability]

@[simp] theorem cumulativeProbability_cons_succ (o : Outcome) (os : List Outcome) (k : Nat) :
    cumulativeProbability (o :: os) (k + 1) = o.probability + cumulativeProbability os k := by
  simp [cumulativeProbability]

theorem cumulativeProbability_mono (outcomes : List Outcome) {j k : Nat} (h : j ≤ k) :
    cumulativeProbability outcomes j ≤ cumulativeProbability outcomes k := by
  induction outcomes generalizing j k with
  | nil => simp [cumulativeProbability]
  | cons o os ih =>
    cases j with
    | zero => simp
    | succ j =>
      obtain ⟨k, rfl⟩ : ∃ k', k = k' + 1 := ⟨k - 1, by omega⟩
      simp only [cumulativeProbability_cons_succ]
      have := ih (show j ≤ k by omega)
      omega

/-- **The scan picks the outcome whose cumulative interval holds the roll.**  Started at index `i`
with the cumulative probability `cumulative` below the roll, the scan returns `i + k` exactly when
the roll lies above the cumulative probability before outcome `k` and at most the one through
it. -/
theorem selectOutcome_eq_some_iff {outcome_roll : Nat} (outcomes : List Outcome) (i cumulative : Nat)
    (hroll : cumulative < outcome_roll) (j : Nat) :
    selectOutcome outcome_roll outcomes i cumulative = some j ↔
      ∃ k, j = i + k ∧ k < outcomes.length ∧
        cumulative + cumulativeProbability outcomes k < outcome_roll ∧
        outcome_roll ≤ cumulative + cumulativeProbability outcomes (k + 1) := by
  induction outcomes generalizing i cumulative with
  | nil => simp [selectOutcome]
  | cons o os ih =>
    rw [selectOutcome]
    split
    · -- the roll is past this outcome: the pick is among the rest, one index on
      rename_i hpast
      rw [ih (i + 1) (cumulative + o.probability) hpast]
      constructor
      · rintro ⟨k, rfl, hk, hlo, hhi⟩
        refine ⟨k + 1, by omega, by simp; omega, ?_, ?_⟩ <;>
          simp only [cumulativeProbability_cons_succ] <;> omega
      · rintro ⟨k, rfl, hk, hlo, hhi⟩
        cases k with
        | zero => simp at hhi; omega
        | succ k =>
          simp only [cumulativeProbability_cons_succ] at hlo hhi
          exact ⟨k, by omega, by simp at hk; omega, by omega, by omega⟩
    · -- the roll is within this outcome: no later outcome has the roll above its start
      rename_i hwithin
      constructor
      · rintro ⟨⟩
        exact ⟨0, rfl, by simp, by simpa using hroll, by simp; omega⟩
      · rintro ⟨k, rfl, -, hlo, -⟩
        cases k with
        | zero => rfl
        | succ k =>
          simp only [cumulativeProbability_cons_succ] at hlo
          omega

theorem selectOutcome_eq_none_iff {outcome_roll : Nat} (outcomes : List Outcome) (i cumulative : Nat)
    (hroll : cumulative < outcome_roll) :
    selectOutcome outcome_roll outcomes i cumulative = none ↔
      cumulative + (outcomes.map Outcome.probability).sum < outcome_roll := by
  induction outcomes generalizing i cumulative with
  | nil => simpa [selectOutcome] using hroll
  | cons o os ih =>
    rw [selectOutcome]
    split
    · rename_i hpast
      rw [ih _ _ hpast]
      simp only [List.map_cons, List.sum_cons]
      omega
    · simp only [reduceCtorEq, false_iff, List.map_cons, List.sum_cons]
      omega

@[simp] theorem length_slots (config : Config) : config.slots.length = config.outcome_count := by
  simp [Config.slots]

/-- The slots of a configuration the parser enabled are its outcomes. -/
theorem ShapingLaw.slots {config : Config} (h : ShapingLaw config) :
    config.slots = config.outcomes := by
  apply List.ext_getElem
  · rw [length_slots, h.count]
  · intro n _ hn
    simp [Config.slots, Config.outcome, List.getD_eq_getElem?_getD, List.getElem?_eq_getElem hn]

theorem ShapingLaw.outcomeLaw {config : Config} (h : ShapingLaw config) {i : Nat}
    (hi : i < config.outcome_count) : OutcomeLaw (config.outcome i) := by
  rw [← h.count] at hi
  have hmem : config.outcome i ∈ config.outcomes := by
    simp only [Config.outcome, List.getD_eq_getElem?_getD, List.getElem?_eq_getElem hi,
      Option.getD_some]
    exact List.getElem_mem hi
  exact h.outcome _ hmem

/-! ## One decision -/

/-- What a decision made from the rolls `outcome_roll` and `delay_roll` satisfies. -/
structure DecisionLaw (config : Config) (outcome_roll delay_roll : Nat) (d : Decision) : Prop where
  /-- Outcome `i` is selected exactly when the roll lies in its cumulative interval. -/
  selects : ∀ i, (d.outcome_selected = true ∧ d.selected_outcome = i) ↔
    (d.considered = true ∧ i < config.outcome_count ∧
      cumulativeProbability config.slots i < outcome_roll ∧
      outcome_roll ≤ cumulativeProbability config.slots (i + 1))
  /-- A considered decision selects nothing exactly when the roll exceeds the probabilities' sum. -/
  selects_none : d.considered = true →
    (d.outcome_selected = false ↔ cumulativeProbability config.slots config.outcome_count < outcome_roll)
  padding : d.outcome_selected = true →
    ((config.outcome d.selected_outcome).has_padding = true →
      (config.outcome d.selected_outcome).padding_bytes.minimum ≤ d.requested_padding_bytes ∧
        d.requested_padding_bytes ≤ (config.outcome d.selected_outcome).padding_bytes.maximum) ∧
    ((config.outcome d.selected_outcome).has_padding = false → d.requested_padding_bytes = 0)
  no_padding : d.outcome_selected = false → d.requested_padding_bytes = 0
  delay : d.outcome_selected = true →
    (delay_roll ≤ (config.outcome d.selected_outcome).delay_probability →
      (config.outcome d.selected_outcome).delay_ms.minimum ≤ d.delay_ms ∧
        d.delay_ms ≤ (config.outcome d.selected_outcome).delay_ms.maximum) ∧
    ((config.outcome d.selected_outcome).delay_probability < delay_roll → d.delay_ms = 0)
  no_delay : d.outcome_selected = false → d.delay_ms = 0
  delay_le : d.delay_ms ≤ kTlsRecordShapingMaxDelayMs

theorem decisionLaw_zero (config : Config) (outcome_roll delay_roll : Nat) :
    DecisionLaw config outcome_roll delay_roll {} where
  selects _ := by simp
  selects_none h := by cases h
  padding h := by cases h
  no_padding _ := rfl
  delay h := by cases h
  no_delay _ := rfl
  delay_le := Nat.zero_le _

/-- A considered decision whose roll is past every outcome. -/
theorem decisionLaw_none {config : Config} {outcome_roll delay_roll : Nat} (hroll : 1 ≤ outcome_roll)
    (hnone : selectOutcome outcome_roll config.slots 0 0 = none) :
    DecisionLaw config outcome_roll delay_roll { considered := true } := by
  have hsum := (selectOutcome_eq_none_iff config.slots 0 0 (by omega)).1 hnone
  have htotal : cumulativeProbability config.slots config.outcome_count =
      (config.slots.map Outcome.probability).sum := by
    rw [cumulativeProbability, ← length_slots, List.take_length]
  refine ⟨fun i => ?_, fun _ => ?_, nofun, fun _ => rfl, nofun, fun _ => rfl, Nat.zero_le _⟩
  · -- no interval holds the roll: the cumulative probability never reaches it
    simp only [Bool.false_eq_true, false_and, true_and, false_iff, not_and, not_le]
    intro hi _
    have := cumulativeProbability_mono config.slots (show i + 1 ≤ config.outcome_count by omega)
    omega
  · simp only [true_iff]
    omega

/-- **One decision.**  For a configuration that is disabled or satisfies `ShapingLaw`, and rolls in
`[1, 100]`, the decision of `tlsrecordshapingSelectDeterministic` satisfies `DecisionLaw`. -/
theorem decisionLaw_selectDeterministic {config : Config}
    (hconfig : config.enabled = false ∨ ShapingLaw config) (state : ShapingState)
    {outcome_roll delay_roll : Nat} (houtcome : 1 ≤ outcome_roll ∧ outcome_roll ≤ 100)
    (hdelay : 1 ≤ delay_roll ∧ delay_roll ≤ 100) (padding_draw delay_draw : Nat) :
    DecisionLaw config outcome_roll delay_roll
      (tlsrecordshapingSelectDeterministic config state outcome_roll padding_draw delay_roll
        delay_draw).2.2 := by
  unfold tlsrecordshapingSelectDeterministic
  split
  · exact decisionLaw_zero _ _ _
  rename_i hvalid
  have hlaw : ShapingLaw config := hconfig.resolve_left fun h => hvalid (Or.inl h)
  split
  · exact decisionLaw_zero _ _ _
  split
  · exact decisionLaw_none houtcome.1 ‹_›
  rename_i i hsome
  -- the scan picked outcome `i`, whose interval holds the roll
  obtain ⟨k, hk, hklen, -, hhi⟩ :=
    (selectOutcome_eq_some_iff config.slots 0 0 (by omega) i).1 hsome
  simp only [Nat.zero_add] at hk hhi
  subst hk
  have hi : i < config.outcome_count := by rwa [length_slots] at hklen
  have ho := hlaw.outcomeLaw hi
  refine ⟨fun j => ?_, fun _ => ?_, fun _ => ⟨?_, ?_⟩, fun h => Bool.noConfusion h,
    fun _ => ⟨?_, ?_⟩, fun h => Bool.noConfusion h, ?_⟩ <;>
    dsimp only
  · -- outcome `j` is the pick exactly when the scan returns `j`
    simp only [true_and]
    rw [← Option.some_inj, ← hsome,
      selectOutcome_eq_some_iff config.slots 0 0 (by omega)]
    simp
  · have := cumulativeProbability_mono config.slots (show i + 1 ≤ config.outcome_count by omega)
    simp only [Bool.true_eq_false, false_iff, not_lt]
    omega
  · intro hp
    rw [if_pos hp]
    exact boundedDraw_mem (ho.padding hp).2.1
  · intro hp
    rw [if_neg (by simp only [hp]; decide)]
  · -- an outcome without a delay has probability zero, below every roll
    intro hd
    by_cases hdel : (config.outcome i).has_delay = true
    · rw [if_pos ⟨hdel, hd⟩]
      exact boundedDraw_mem (ho.delay hdel).2.1
    · have := (ho.no_delay (by simpa using hdel)).1
      omega
  · intro hd
    rw [if_neg (by omega)]
  · split
    · rename_i hdel
      exact (boundedDraw_mem (ho.delay hdel.1).2.1).2.trans (ho.delay hdel.1).2.2
    · exact Nat.zero_le _

/-! ## Runs -/

/-- With rolls in `[1, 100]`, the only early return of `tlsrecordshapingSelectDeterministic` is a
disabled configuration. -/
theorem selectDeterministic_guard {config : Config} {outcome_roll delay_roll : Nat}
    (houtcome : 1 ≤ outcome_roll ∧ outcome_roll ≤ 100) (hdelay : 1 ≤ delay_roll ∧ delay_roll ≤ 100) :
    (config.enabled = false ∨ outcome_roll < 1 ∨ outcome_roll > 100 ∨ delay_roll < 1 ∨
      delay_roll > 100) ↔ config.enabled = false := by
  constructor
  · rintro (h | h | h | h | h) <;> first | exact h | omega
  · exact Or.inl

section Step

variable {config : Config} {outcome_roll delay_roll : Nat} (state : ShapingState)
  (houtcome : 1 ≤ outcome_roll ∧ outcome_roll ≤ 100) (hdelay : 1 ≤ delay_roll ∧ delay_roll ≤ 100)
  (padding_draw delay_draw : Nat)

include houtcome hdelay

/-- A call is considered exactly when shaping is enabled and the line is within its first
records. -/
theorem considered_selectDeterministic :
    (tlsrecordshapingSelectDeterministic config state outcome_roll padding_draw delay_roll
      delay_draw).2.2.considered =
      (config.enabled && decide (state.application_records_seen < config.first_application_records)) := by
  unfold tlsrecordshapingSelectDeterministic
  simp only [selectDeterministic_guard houtcome hdelay]
  cases config.enabled
  · rfl
  · simp only [Bool.true_eq_false, if_false, Bool.true_and]
    split
    · simp only [decide_eq_false (Nat.not_lt.2 ‹_›)]
    · split <;> simp only [decide_eq_true (Nat.lt_of_not_le ‹_›)]

/-- A considered call counts one more record of the line. -/
theorem seen_selectDeterministic :
    (tlsrecordshapingSelectDeterministic config state outcome_roll padding_draw delay_roll
      delay_draw).2.1.application_records_seen = state.application_records_seen +
      if config.enabled && decide (state.application_records_seen < config.first_application_records)
      then 1 else 0 := by
  unfold tlsrecordshapingSelectDeterministic
  simp only [selectDeterministic_guard houtcome hdelay]
  cases config.enabled
  · rfl
  · simp only [Bool.true_eq_false, if_false, Bool.true_and]
    split
    · simp only [decide_eq_false (Nat.not_lt.2 ‹_›)]
      rfl
    · -- both the outcome and the no-outcome branch count the record; a delay touches only
      -- records_delayed
      split
      · simp only [decide_eq_true (Nat.lt_of_not_le ‹_›)]
        rfl
      · simp only [decide_eq_true (Nat.lt_of_not_le ‹_›), apply_ite ShapingState.application_records_seen,
          ite_self]
        rfl

end Step

theorem roll_mem (random : Nat) :
    1 ≤ fastRandRange32 1 100 random ∧ fastRandRange32 1 100 random ≤ 100 :=
  fastRandRange32_mem 1 100 random (by decide)

/-- `tlsrecordshapingSample` is the deterministic decision at its two rolls and some draws. -/
theorem tlsrecordshapingSample_eq_select (config : Config) (state : ShapingState)
    (randoms : SampleRandoms) : ∃ padding_draw delay_draw,
      tlsrecordshapingSample config state randoms =
        tlsrecordshapingSelectDeterministic config state (fastRandRange32 1 100 randoms.outcome_roll)
          padding_draw (fastRandRange32 1 100 randoms.delay_roll) delay_draw := by
  unfold tlsrecordshapingSample
  split
  · -- a disabled configuration returns before the rolls, as the deterministic decision does
    refine ⟨0, 0, ?_⟩
    rw [tlsrecordshapingSelectDeterministic, if_pos (Or.inl ‹_›)]
  · exact ⟨_, _, rfl⟩

/-- The calls a line makes to `tlsrecordshapingSample`, one per application record, threading
the state: the final state and the decisions. -/
def sampleRun (config : Config) : ShapingState → List SampleRandoms → ShapingState × List Decision
  | state, [] => (state, [])
  | state, randoms :: calls =>
    let step := tlsrecordshapingSample config state randoms
    let run := sampleRun config step.2.1 calls
    (run.1, step.2.2 :: run.2)

/-- **The scope of a run.**  Over `n` calls, an enabled configuration considers
`min n (first_application_records - seen)` of them, `seen` the records already counted; a
disabled one considers none. -/
theorem sampleRun_considered (config : Config) (state : ShapingState) (calls : List SampleRandoms) :
    (sampleRun config state calls).2.countP (·.considered) =
      if config.enabled then
        min calls.length (config.first_application_records - state.application_records_seen)
      else 0 := by
  induction calls generalizing state with
  | nil => simp [sampleRun]
  | cons randoms calls ih =>
    obtain ⟨padding_draw, delay_draw, hstep⟩ := tlsrecordshapingSample_eq_select config state randoms
    simp only [sampleRun, List.countP_cons, ih, hstep,
      seen_selectDeterministic state (roll_mem _) (roll_mem _),
      considered_selectDeterministic state (roll_mem _) (roll_mem _)]
    cases config.enabled
    · simp
    · by_cases hlt : state.application_records_seen < config.first_application_records
      · simp [hlt]
        omega
      · simp [hlt]
        omega

/-! ## The law of a parsed configuration -/

theorem DecisionLaw.pushMetadata {config : Config} {outcome_roll delay_roll : Nat} {d : Decision}
    (h : DecisionLaw config outcome_roll delay_roll d) (q : OutputQueue) :
    (tlsrecordshapingOutputQueuePushMetadata q d.delay_ms).1 = true := by
  rw [tlsrecordshapingOutputQueuePushMetadata_of_le h.delay_le]

theorem tlsrecordshaping_decision_law {settings : Json} {sender_role : SenderRole} {config : Config}
    (hparse : tlsrecordshapingParse settings sender_role = .ok config) :
    config.slots = config.outcomes ∧
    (∀ (state : ShapingState) (outcome_roll padding_draw delay_roll delay_draw : Nat),
      1 ≤ outcome_roll ∧ outcome_roll ≤ 100 → 1 ≤ delay_roll ∧ delay_roll ≤ 100 →
      DecisionLaw config outcome_roll delay_roll
          (tlsrecordshapingSelectDeterministic config state outcome_roll padding_draw delay_roll
            delay_draw).2.2 ∧
        ∀ q, (tlsrecordshapingOutputQueuePushMetadata q
          (tlsrecordshapingSelectDeterministic config state outcome_roll padding_draw delay_roll
            delay_draw).2.2.delay_ms).1 = true) ∧
    ∀ (records_delayed : Nat) (calls : List SampleRandoms),
      (sampleRun config ⟨0, records_delayed⟩ calls).2.countP (·.considered) =
        min calls.length config.first_application_records := by
  -- the parser leaves shaping disabled, or enables it under `ShapingLaw`
  have hconfig : config.enabled = false ∨ ShapingLaw config := by
    rcases tlsrecordshapingParse_law hparse with rfl | hlaw
    · exact Or.inl rfl
    · exact Or.inr hlaw
  refine ⟨?_, fun state outcome_roll padding_draw delay_roll delay_draw houtcome hdelay => ?_, fun records_delayed calls => ?_⟩
  · rcases tlsrecordshapingParse_law hparse with rfl | hlaw
    · rfl
    · exact hlaw.slots
  · have hd := decisionLaw_selectDeterministic hconfig state houtcome hdelay padding_draw delay_draw
    exact ⟨hd, hd.pushMetadata⟩
  · rw [sampleRun_considered]
    rcases tlsrecordshapingParse_law hparse with rfl | hlaw
    · simp [Config.zero]
    · simp [hlaw.enabled]

theorem tlsrecordshaping_decision_law_padded :
    DecisionLaw ⟨[{ padding_bytes := ⟨16, 64⟩, probability := 60, has_padding := true }], 4, 1,
        .client, true⟩ 30 50
      (tlsrecordshapingSelectDeterministic
        ⟨[{ padding_bytes := ⟨16, 64⟩, probability := 60, has_padding := true }], 4, 1, .client, true⟩
        ⟨0, 0⟩ 30 20 50 0).2.2 :=
  ((@tlsrecordshaping_decision_law (.object [("tls13-record-shaping", .object [
      ("scope", .object [("first-application-records", .number (some 4))]),
      ("outcomes", .array [.object [("probability", .number (some 60)),
        ("padding-bytes", .array [.number (some 16), .number (some 64)])]])])])
    .client _ (by decide)).2.1 ⟨0, 0⟩ 30 20 50 0 (by decide) (by decide)).1

end TlsRecordShaping
end WaterWall
