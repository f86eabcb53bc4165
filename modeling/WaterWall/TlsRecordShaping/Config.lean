import WaterWall.Json.CJson
import WaterWall.Monad.ExceptSpec
import WaterWall.TlsRecordShaping.OutputQueue

/-!
# The TLS record shaping configuration

`tlsrecordshapingParse` reads the `tls13-record-shaping` setting: a scope (how many application
records to shape) and up to sixteen outcomes, each with a probability, an optional padding range
and an optional delay with its own probability and range.  A setting that is absent leaves
shaping disabled.

`ShapingLaw` is what an enabled configuration the parser accepts satisfies, and
`tlsrecordshapingParse_law` proves it: the outcomes' probabilities are in `[1, 100]` and sum to at
most `100`, every range has its minimum below its maximum within the parser's bounds, and the
fields of an absent padding or delay are zero.

The texts of the errors are the source's, with the format arguments filled in; the configuration
that a failed parse leaves half written is not modelled, since its callers drop it.
-/

set_option autoImplicit false

namespace WaterWall
namespace TlsRecordShaping

open CJson

def kTlsRecordShapingMaxOutcomes : Nat := 16

def kTlsRecordShapingMaxApplicationRecords : Nat := 1024

def kTlsRecordShapingMaxPaddingBytes : Nat := 4096

/-- `tlsrecordshaping_range_t`. -/
structure ShapingRange where
  minimum : Nat
  maximum : Nat
  deriving DecidableEq, Repr

/-- `tlsrecordshaping_outcome_t`, zeroed by default as `memoryZero` leaves it. -/
structure Outcome where
  padding_bytes : ShapingRange := ⟨0, 0⟩
  delay_ms : ShapingRange := ⟨0, 0⟩
  probability : Nat := 0
  delay_probability : Nat := 0
  has_padding : Bool := false
  has_delay : Bool := false
  deriving DecidableEq, Repr

instance : Inhabited Outcome := ⟨{}⟩

/-- `tlsrecordshaping_sender_role_t`. -/
inductive SenderRole where
  | client
  | server
  deriving DecidableEq, Repr

/-- `tlsrecordshaping_config_t`.  `outcomes` holds the slots the parser wrote; a slot past them
reads as zeroed. -/
structure Config where
  outcomes : List Outcome
  first_application_records : Nat
  outcome_count : Nat
  sender_role : SenderRole
  enabled : Bool
  deriving DecidableEq, Repr

/-- `config->outcomes[i]`. -/
def Config.outcome (config : Config) (i : Nat) : Outcome := config.outcomes.getD i {}

/-! ## The parser -/

/-- `rejectUnknownKeys`: every member's name is one of `allowed`. -/
def rejectUnknownKeys (object : Json) (path : String) (allowed : List String) :
    Except String Unit :=
  match object with
  | .object members =>
    match members.find? (fun m => !allowed.contains m.1) with
    | some m => .error (path ++ " contains unknown key \"" ++ m.1 ++ "\"")
    | none => .ok ()
  | _ => .ok ()

/-- `parseRange`: an integer `v` as `[v, v]`, or a pair of integers, each within the bounds, the
first not above the second. -/
def parseRange (item : Option Json) (minimum maximum : Nat) (path : String) :
    Except String ShapingRange :=
  match jsonGetIntegerInRange item minimum maximum with
  | some value => .ok ⟨value.toNat, value.toNat⟩
  | none =>
    match item with
    | some (.array [lo, hi]) =>
      match jsonGetIntegerInRange (some lo) minimum maximum,
          jsonGetIntegerInRange (some hi) minimum maximum with
      | some lower, some upper =>
        if lower > upper then .error (path ++ " minimum must not exceed its maximum")
        else .ok ⟨lower.toNat, upper.toNat⟩
      | _, _ =>
        .error (path ++ " values must be integers in [" ++ toString minimum ++ ", " ++
          toString maximum ++ "]")
    | _ =>
      .error (path ++ " must be an integer or a two-integer range [" ++ toString minimum ++ ", " ++
        toString maximum ++ "]")

/-- `parseDelay`: the delay's probability and its range of milliseconds. -/
def parseDelay (delay : Json) (outcome_index : Nat) (outcome : Outcome) : Except String Outcome :=
  let path := "tls13-record-shaping.outcomes[" ++ toString outcome_index ++ "].delay"
  if !cJSON_IsObject delay then .error (path ++ " must be an object")
  else do
    rejectUnknownKeys delay path ["probability", "ms"]
    match jsonGetIntegerInRange (cJSON_GetObjectItemCaseSensitive delay "probability") 0 100 with
    | none => .error (path ++ ".probability must be an integer in [0, 100]")
    | some probability =>
      let delay_ms ← parseRange (cJSON_GetObjectItemCaseSensitive delay "ms") 0
        kTlsRecordShapingMaxDelayMs "tls13-record-shaping outcome delay.ms"
      .ok { outcome with
        delay_ms := delay_ms
        has_delay := true
        delay_probability := probability.toNat }

/-- The padding of `parseOutcome`: a range of bytes when `padding-bytes` is present. -/
def parseOutcomePadding (item : Json) (outcome : Outcome) : Except String Outcome :=
  match cJSON_GetObjectItemCaseSensitive item "padding-bytes" with
  | some padding => do
    let padding_bytes ← parseRange (some padding) 1 kTlsRecordShapingMaxPaddingBytes
      "tls13-record-shaping outcome padding-bytes"
    pure { outcome with padding_bytes := padding_bytes, has_padding := true }
  | none => pure outcome

/-- The delay of `parseOutcome`, when `delay` is present. -/
def parseOutcomeDelay (item : Json) (index : Nat) (outcome : Outcome) : Except String Outcome :=
  match cJSON_GetObjectItemCaseSensitive item "delay" with
  | some delay => parseDelay delay index outcome
  | none => pure outcome

/-- The last check of `parseOutcome`: an outcome pads, or delays with a chance and a time that
are not zero. -/
def checkOutcomeEffect (path : String) (outcome : Outcome) : Except String Outcome :=
  let effective_delay :=
    outcome.has_delay && decide (outcome.delay_probability > 0) &&
      decide (outcome.delay_ms.maximum > 0)
  if !outcome.has_padding && !effective_delay then
    .error (path ++ " has no effective padding or delay action")
  else .ok outcome

/-- `parseOutcome`: a probability, and a padding range or a delay that has an effect. -/
def parseOutcome (item : Json) (index : Nat) : Except String Outcome :=
  let path := "tls13-record-shaping.outcomes[" ++ toString index ++ "]"
  if !cJSON_IsObject item then .error (path ++ " must be an object")
  else do
    rejectUnknownKeys item path ["probability", "padding-bytes", "delay"]
    match jsonGetIntegerInRange (cJSON_GetObjectItemCaseSensitive item "probability") 1 100 with
    | none => .error (path ++ ".probability must be an integer in [1, 100]")
    | some probability =>
      let outcome ← parseOutcomePadding item { probability := probability.toNat }
      let outcome ← parseOutcomeDelay item index outcome
      checkOutcomeEffect path outcome

/-- The loop of `parseCustom` over the outcomes from index `i` on, `probability_sum` being the sum
of the probabilities before them. -/
def parseOutcomes : List Json → Nat → Nat → Except String (List Outcome)
  | [], _, _ => .ok []
  | item :: items, i, probability_sum => do
    let outcome ← parseOutcome item i
    let probability_sum := probability_sum + outcome.probability
    if probability_sum > 100 then
      .error "tls13-record-shaping outcome probabilities sum to more than 100"
    else
      let outcomes ← parseOutcomes items (i + 1) probability_sum
      .ok (outcome :: outcomes)

/-- The items of an array. -/
def arrayItems : Json → List Json
  | .array items => items
  | _ => []

/-- `parseCustom`: the scope and the outcomes. -/
def parseCustom (shaping : Json) (config : Config) : Except String Config :=
  match cJSON_GetObjectItemCaseSensitive shaping "scope",
      cJSON_GetObjectItemCaseSensitive shaping "outcomes" with
  | some scope, some outcomes =>
    if !cJSON_IsObject scope then .error "tls13-record-shaping.scope must be an object"
    else do
      rejectUnknownKeys scope "tls13-record-shaping.scope" ["first-application-records"]
      match jsonGetIntegerInRange (cJSON_GetObjectItemCaseSensitive scope "first-application-records")
          1 kTlsRecordShapingMaxApplicationRecords with
      | none =>
        .error ("tls13-record-shaping.scope.first-application-records must be an integer in " ++
          "[1, 1024]")
      | some first_records =>
        if !cJSON_IsArray outcomes then
          .error "tls13-record-shaping.outcomes must be a non-empty array with at most 16 items"
        else
          let count := cJSON_GetArraySize outcomes
          if count < 1 ∨ count > kTlsRecordShapingMaxOutcomes then
            .error "tls13-record-shaping.outcomes must contain between 1 and 16 items"
          else do
            let parsed ← parseOutcomes (arrayItems outcomes) 0 0
            .ok { config with
              first_application_records := first_records.toNat
              outcomes := parsed
              enabled := true
              outcome_count := count }
  | _, _ => .error "custom tls13-record-shaping requires both scope and outcomes"

/-- The configuration `memoryZero` leaves, with the sender's role. -/
def Config.zero (sender_role : SenderRole) : Config :=
  ⟨[], 0, 0, sender_role, false⟩

/-- `tlsrecordshapingParse`: shaping stays disabled when the setting is absent. -/
def tlsrecordshapingParse (settings : Json) (sender_role : SenderRole) : Except String Config :=
  match cJSON_GetObjectItemCaseSensitive settings "tls13-record-shaping" with
  | none => .ok (Config.zero sender_role)
  | some shaping =>
    if !cJSON_IsObject shaping then .error "tls13-record-shaping must be an object"
    else do
      rejectUnknownKeys shaping "tls13-record-shaping" ["scope", "outcomes"]
      parseCustom shaping (Config.zero sender_role)

/-! ## What the parser accepts -/

/-- What an outcome the parser accepts satisfies. -/
structure OutcomeLaw (o : Outcome) : Prop where
  probability_pos : 1 ≤ o.probability
  probability_le : o.probability ≤ 100
  padding : o.has_padding = true → 1 ≤ o.padding_bytes.minimum ∧
    o.padding_bytes.minimum ≤ o.padding_bytes.maximum ∧
    o.padding_bytes.maximum ≤ kTlsRecordShapingMaxPaddingBytes
  no_padding : o.has_padding = false → o.padding_bytes = ⟨0, 0⟩
  delay : o.has_delay = true → o.delay_probability ≤ 100 ∧
    o.delay_ms.minimum ≤ o.delay_ms.maximum ∧ o.delay_ms.maximum ≤ kTlsRecordShapingMaxDelayMs
  no_delay : o.has_delay = false → o.delay_probability = 0 ∧ o.delay_ms = ⟨0, 0⟩

/-- What an enabled configuration the parser accepts satisfies: the law the sampler draws from. -/
structure ShapingLaw (config : Config) : Prop where
  enabled : config.enabled = true
  count : config.outcomes.length = config.outcome_count
  count_pos : 1 ≤ config.outcome_count
  count_le : config.outcome_count ≤ kTlsRecordShapingMaxOutcomes
  first_pos : 1 ≤ config.first_application_records
  first_le : config.first_application_records ≤ kTlsRecordShapingMaxApplicationRecords
  sum_le : (config.outcomes.map Outcome.probability).sum ≤ 100
  outcome : ∀ o ∈ config.outcomes, OutcomeLaw o

open Except

theorem rejectUnknownKeys_spec {α : Type} (object : Json) (path : String) (allowed : List String)
    {P : α → Prop} {f : Unit → Except String α} (hf : Spec (f ()) P fun _ => True) :
    Spec (rejectUnknownKeys object path allowed >>= f) P fun _ => True := by
  refine Spec.bind (P := fun _ => True) ?_ fun _ _ => hf
  unfold rejectUnknownKeys
  split
  · split <;> trivial
  · trivial

theorem parseRange_spec (item : Option Json) (minimum maximum : Nat) (path : String) :
    Spec (parseRange item minimum maximum path)
      (fun r => minimum ≤ r.minimum ∧ r.minimum ≤ r.maximum ∧ r.maximum ≤ maximum)
      fun _ => True := by
  unfold parseRange
  split
  · -- an integer: the range of one value
    have := jsonGetIntegerInRange_bounds ‹_›
    simp only [spec_ok]
    omega
  · split
    · split
      · have h1 := jsonGetIntegerInRange_bounds ‹jsonGetIntegerInRange (some _) _ _ = some _›
        split
        · trivial
        · rename_i lower upper hlo hhi hle
          have hl := jsonGetIntegerInRange_bounds hlo
          have hu := jsonGetIntegerInRange_bounds hhi
          simp only [spec_ok]
          omega
      · trivial
    · trivial

theorem parseDelay_spec (delay : Json) (outcome_index : Nat) (outcome : Outcome) :
    Spec (parseDelay delay outcome_index outcome)
      (fun o => ∃ (delay_ms : ShapingRange) (p : Nat), p ≤ 100 ∧
        delay_ms.minimum ≤ delay_ms.maximum ∧ delay_ms.maximum ≤ kTlsRecordShapingMaxDelayMs ∧
        o = { outcome with delay_ms := delay_ms, has_delay := true, delay_probability := p })
      fun _ => True := by
  unfold parseDelay
  split
  · trivial
  · refine rejectUnknownKeys_spec _ _ _ ?_
    split
    · trivial
    · rename_i probability hprob
      have hp := jsonGetIntegerInRange_bounds hprob
      refine Spec.bind (parseRange_spec _ _ _ _) fun r hr => ?_
      exact ⟨r, probability.toNat, by omega, hr.2.1, hr.2.2, rfl⟩

theorem parseOutcomePadding_spec (item : Json) (outcome : Outcome) :
    Spec (parseOutcomePadding item outcome)
      (fun o => o = outcome ∨ ∃ padding_bytes : ShapingRange, 1 ≤ padding_bytes.minimum ∧
        padding_bytes.minimum ≤ padding_bytes.maximum ∧
        padding_bytes.maximum ≤ kTlsRecordShapingMaxPaddingBytes ∧
        o = { outcome with padding_bytes := padding_bytes, has_padding := true })
      fun _ => True := by
  unfold parseOutcomePadding
  split
  · refine Spec.bind (parseRange_spec _ _ _ _) fun r hr => ?_
    exact Or.inr ⟨r, hr.1, hr.2.1, hr.2.2, rfl⟩
  · exact Or.inl rfl

theorem parseOutcomeDelay_spec (item : Json) (index : Nat) (outcome : Outcome) :
    Spec (parseOutcomeDelay item index outcome)
      (fun o => o = outcome ∨ ∃ (delay_ms : ShapingRange) (p : Nat), p ≤ 100 ∧
        delay_ms.minimum ≤ delay_ms.maximum ∧ delay_ms.maximum ≤ kTlsRecordShapingMaxDelayMs ∧
        o = { outcome with delay_ms := delay_ms, has_delay := true, delay_probability := p })
      fun _ => True := by
  unfold parseOutcomeDelay
  split
  · exact (parseDelay_spec _ _ _).mono (fun _ h => Or.inr h) fun _ _ => trivial
  · exact Or.inl rfl

/-- An outcome is parsed with a probability in `[1, 100]`, ranges within the parser's bounds, and
zeros in the fields of an absent padding or delay. -/
theorem parseOutcome_spec (item : Json) (index : Nat) :
    Spec (parseOutcome item index) OutcomeLaw fun _ => True := by
  unfold parseOutcome
  split
  · trivial
  · refine rejectUnknownKeys_spec _ _ _ ?_
    split
    · trivial
    · rename_i probability hprob
      have hp := jsonGetIntegerInRange_bounds hprob
      refine Spec.bind (parseOutcomePadding_spec _ _) fun o₁ h₁ =>
        Spec.bind (parseOutcomeDelay_spec _ _ _) fun o₂ h₂ => ?_
      dsimp only [checkOutcomeEffect]
      split
      · trivial
      -- the padding was parsed or left zero, and then the delay
      rcases h₁ with rfl | ⟨r, hr₁, hr₂, hr₃, rfl⟩ <;>
        rcases h₂ with rfl | ⟨d, p, hp₁, hd₁, hd₂, rfl⟩
      all_goals
        refine ⟨show 1 ≤ probability.toNat by omega, show probability.toNat ≤ 100 by omega,
          ?_, ?_, ?_, ?_⟩ <;> simp_all

theorem parseOutcomes_spec (items : List Json) (i probability_sum : Nat) :
    Spec (parseOutcomes items i probability_sum)
      (fun os => os.length = items.length ∧ (∀ o ∈ os, OutcomeLaw o) ∧
        (probability_sum ≤ 100 → probability_sum + (os.map Outcome.probability).sum ≤ 100))
      fun _ => True := by
  induction items generalizing i probability_sum with
  | nil => exact ⟨rfl, by simp, by simp⟩
  | cons item items ih =>
    refine Spec.bind (parseOutcome_spec item i) fun o ho => ?_
    dsimp only
    split
    · trivial
    · rename_i hsum
      refine Spec.bind (ih (i + 1) (probability_sum + o.probability)) fun os hos => ?_
      obtain ⟨hlen, hlaw, hsum'⟩ := hos
      refine ⟨by simp [hlen], ?_, fun _ => ?_⟩
      · intro o' ho'
        rcases List.mem_cons.1 ho' with rfl | ho'
        · exact ho
        · exact hlaw o' ho'
      · have := hsum' (by omega)
        simp only [List.map_cons, List.sum_cons]
        omega

theorem cJSON_GetArraySize_of_isArray {j : Json} (h : cJSON_IsArray j = true) :
    cJSON_GetArraySize j = (arrayItems j).length := by
  cases j <;> first | rfl | cases h

theorem parseCustom_spec (shaping : Json) (config : Config) :
    Spec (parseCustom shaping config) ShapingLaw fun _ => True := by
  unfold parseCustom
  split
  · split
    · trivial
    · refine rejectUnknownKeys_spec _ _ _ ?_
      split
      · trivial
      · rename_i first_records hfirst
        have hf := jsonGetIntegerInRange_bounds hfirst
        split
        · trivial
        · rename_i harray
          have hsize := cJSON_GetArraySize_of_isArray (by simpa using harray)
          dsimp only
          split
          · trivial
          · rename_i hcount
            refine Spec.bind (parseOutcomes_spec _ 0 0) fun os hos => ?_
            obtain ⟨hlen, hlaw, hsum⟩ := hos
            refine ⟨rfl, ?_, ?_, ?_, ?_, ?_, ?_, hlaw⟩ <;> dsimp only
            · rw [hlen, hsize]
            · omega
            · omega
            · omega
            · simp only [kTlsRecordShapingMaxApplicationRecords] at hf ⊢
              omega
            · have := hsum (Nat.zero_le _)
              omega
  · trivial

/-- **What the parser accepts.**  A configuration `tlsrecordshapingParse` returns is the disabled
one, when the setting is absent, or an enabled one that satisfies `ShapingLaw`. -/
theorem tlsrecordshapingParse_law {settings : Json} {sender_role : SenderRole} {config : Config}
    (h : tlsrecordshapingParse settings sender_role = .ok config) :
    config = Config.zero sender_role ∨ ShapingLaw config := by
  refine Spec.of_eq_ok (P := fun c => c = Config.zero sender_role ∨ ShapingLaw c)
    (S := fun _ => True) ?_ h
  unfold tlsrecordshapingParse
  split
  · exact Or.inl rfl
  · split
    · trivial
    · exact rejectUnknownKeys_spec _ _ _ ((parseCustom_spec _ _).mono (fun _ h => Or.inr h)
        fun _ _ => trivial)

end TlsRecordShaping
end WaterWall
