import Mathlib
import WaterWall.Mux.Wire

/-!
# Connection ids of the children of a MUX parent line

Each child connection that travels over a parent line is named on the wire by its connection id.

* **MuxClient** (`MuxClient/upstream/init.c`, `MuxClient/common/helpers.c`) picks a parent line
  for each new child: the worker's `unsatisfied_lines` slot in the timer and counter modes, the
  least loaded of its fixed slots in the fixed-connections mode.  A parent that
  `muxclientCheckConnectionIsExhausted` calls exhausted is let go (closed, if it has no child) and
  a fresh one is made.  The child's id is one more than the parent's `connection_id`, which then
  becomes that id, after `muxclientTunnelUpStreamInit` asserts it is below `kMuxCidMax`.
* **MuxServer** (`MuxServer/upstream/payload.c`) takes the ids from the Open frames it receives.
  `handleOpenFrame` ignores an Open whose id a child already has, and every other frame goes to
  the child `findChildByConnectionId` finds.

A parent's children are the list its `child_next` chain threads; joining pushes at the front,
leaving erases, and `moveChildToFront` moves a child to the front.  One worker's share of MuxClient
is modelled, and one parent line of MuxServer.  What else the calls do to a child is left to the
environment: any attached child may leave at any time.

* `mux_cid_unique`: on the client, along every run in every mode, the children of each parent have
  distinct ids between 1 and the parent's `connection_id`, and the parent a new child gets is
  fresh or not exhausted, so the assertion never fails.  On the server, along every sequence of
  frames and closes, no two children share an id, and `findChildByConnectionId` finds exactly the
  child the Open for the frame's id created.
-/

set_option autoImplicit false

namespace WaterWall.Mux

/-- `kMuxCidMax`, `UINT32_MAX`: the largest connection id. -/
def kMuxCidMax : Nat := 2 ^ 32 - 1

/-- A child as its parent's list holds it: the child's line and its `connection_id`. -/
structure MuxChild where
  l : Nat
  connection_id : Nat
  deriving DecidableEq

/-- The connection ids of a list of children. -/
def cids (children : List MuxChild) : List Nat := children.map MuxChild.connection_id

/-! ## MuxClient -/

/-- `kConcurrencyModeTimer`, `kConcurrencyModeCounter`, `kConcurrencyModeFixedConnectionsCount`:
`muxclientTunnelCreate` accepts no other. -/
inductive ConcurrencyMode
  | timer
  | counter
  | fixedConnectionsCount
  deriving DecidableEq

/-- The settings of `muxclient_tstate_t` that choose a parent. -/
structure MuxClientConfig where
  concurrency_mode : ConcurrencyMode
  concurrency_duration : Nat
  concurrency_capacity : Nat
  fixed_connections_count : Nat

/-- The fields of a parent's `muxclient_lstate_t` that choosing a parent and joining a child read
and write. -/
structure MuxClientParent where
  connection_id : Nat
  children_count : Nat
  creation_epoch : Nat
  parent_finishing : Bool
  children : List MuxChild

/-- `muxclientLinestateInitialize` of a parent line created at `now_ms`. -/
def MuxClientParent.init (now_ms : Nat) : MuxClientParent := ⟨0, 0, now_ms, false, []⟩

/-- `muxclientJoinConnection`: the child goes to the front of the parent's list. -/
def muxclientJoinConnection (parent : MuxClientParent) (child : MuxChild) : MuxClientParent :=
  { parent with children := child :: parent.children, children_count := parent.children_count + 1 }

/-- `muxclientLeaveConnection`: a child that is not attached is left alone. -/
def muxclientLeaveConnection (parent : MuxClientParent) (child : MuxChild) : MuxClientParent :=
  if child ∈ parent.children then
    { parent with children := parent.children.erase child, children_count := parent.children_count - 1 }
  else parent

/-- One worker's share of MuxClient: the parent state of each of its lines, its
`unsatisfied_lines` entry, its row of `fixed_parent_lines` and its `fixed_next_parent_indexes`
entry.  `next_line` is the line the next `lineCreate` returns. -/
structure MuxClientWorker where
  parents : Nat → Option MuxClientParent
  unsatisfied_line : Option Nat
  fixed_parent_lines : Nat → Option Nat
  fixed_next_parent_index : Nat
  next_line : Nat

/-- The worker before any line exists. -/
def MuxClientWorker.empty : MuxClientWorker := ⟨fun _ => none, none, fun _ => none, 0, 0⟩

/-- Write the parent state of line `parent_l`. -/
def MuxClientWorker.setParent (w : MuxClientWorker) (parent_l : Nat) (ps : MuxClientParent) :
    MuxClientWorker :=
  { w with parents := Function.update w.parents parent_l (some ps) }

@[simp] theorem MuxClientWorker.setParent_parents (w : MuxClientWorker) (parent_l : Nat)
    (ps : MuxClientParent) :
    (w.setParent parent_l ps).parents = Function.update w.parents parent_l (some ps) := rfl

/-- `muxclientCheckConnectionIsExhausted`, with the clock of the parent's worker. -/
def muxclientCheckConnectionIsExhausted (cfg : MuxClientConfig) (ls : MuxClientParent)
    (now_ms : Nat) : Bool :=
  if ls.connection_id = kMuxCidMax then true
  else if ls.children_count = kMuxCidMax then true
  else
    match cfg.concurrency_mode with
    | .timer => !decide (now_ms < cfg.concurrency_duration + ls.creation_epoch)
    | .counter => !decide (ls.connection_id < cfg.concurrency_capacity)
    | .fixedConnectionsCount => false

/-- `muxclientCreateParentLine`: a new line with a fresh parent state.  `init_ok` says, for each
line, whether the next tunnel's Init left it alive; when it did not, no parent is returned. -/
def muxclientCreateParentLine (w : MuxClientWorker) (now_ms : Nat) (init_ok : Nat → Bool) :
    Option Nat × MuxClientWorker :=
  let parent_l := w.next_line
  let w := { w.setParent parent_l (MuxClientParent.init now_ms) with next_line := parent_l + 1 }
  if init_ok parent_l then (some parent_l, w) else (none, w)

/-- The loop of `muxclientForgetParentLine` over the fixed slots: the first holding the line is
emptied. -/
def forgetFixedSlot (slots : Nat → Option Nat) (parent_l : Nat) : List Nat → Nat → Option Nat
  | [] => slots
  | i :: rest =>
    if slots i = some parent_l then Function.update slots i none
    else forgetFixedSlot slots parent_l rest

def muxclientForgetParentLine (cfg : MuxClientConfig) (w : MuxClientWorker) (parent_l : Nat) :
    MuxClientWorker :=
  if cfg.concurrency_mode = .fixedConnectionsCount then
    { w with fixed_parent_lines :=
        forgetFixedSlot w.fixed_parent_lines parent_l (List.range cfg.fixed_connections_count) }
  else if w.unsatisfied_line = some parent_l then { w with unsatisfied_line := none }
  else w

/-- `muxclientCloseIdleExhaustedParentLine`: `none` is its assertion, that the parent has no
child, failing. -/
def muxclientCloseIdleExhaustedParentLine (cfg : MuxClientConfig) (w : MuxClientWorker)
    (parent_l : Nat) (parent_ls : MuxClientParent) : Option MuxClientWorker :=
  if parent_ls.children_count ≠ 0 then none
  else
    let w := muxclientForgetParentLine cfg w parent_l
    some { w with parents := Function.update w.parents parent_l none }

/-- The first loop of `muxclientGetFixedParentLineForNewChild`: every empty slot gets a new
parent line.  A failed creation ends the call, with `false`. -/
def fillFixedSlots (now_ms : Nat) (init_ok : Nat → Bool) :
    List Nat → MuxClientWorker → Bool × MuxClientWorker
  | [], w => (true, w)
  | i :: rest, w =>
    match w.fixed_parent_lines i with
    | some _ => fillFixedSlots now_ms init_ok rest w
    | none =>
      let created := muxclientCreateParentLine w now_ms init_ok
      match created.1 with
      | none => (false, created.2)
      | some parent_l =>
        fillFixedSlots now_ms init_ok rest
          { created.2 with
            fixed_parent_lines := Function.update created.2.fixed_parent_lines i (some parent_l) }

/-- One turn of the second loop of `muxclientGetFixedParentLineForNewChild`, at slot `idx`: its
parent becomes the best so far, with its count, when it is neither finishing nor exhausted and has
fewer children than the best.  `none` is one of the loop's assertions failing: the slot empty, or
its line without a state. -/
def considerFixedSlot (cfg : MuxClientConfig) (w : MuxClientWorker) (now_ms idx : Nat)
    (best : Option (Nat × Nat)) : Option (Option (Nat × Nat)) :=
  match w.fixed_parent_lines idx with
  | none => none
  | some parent_l =>
    match w.parents parent_l with
    | none => none
    | some parent_ls =>
      if parent_ls.parent_finishing || muxclientCheckConnectionIsExhausted cfg parent_ls now_ms then
        some best
      else
        match best with
        | some (_, best_count) =>
          if parent_ls.children_count < best_count then some (some (idx, parent_ls.children_count))
          else some best
        | none => some (some (idx, parent_ls.children_count))

/-- The second loop, over the slots `(start + i) % fixed_connections_count`. -/
def chooseFixedSlot (cfg : MuxClientConfig) (w : MuxClientWorker) (now_ms start : Nat) :
    List Nat → Option (Nat × Nat) → Option (Option (Nat × Nat))
  | [], best => some best
  | i :: rest, best =>
    match considerFixedSlot cfg w now_ms ((start + i) % cfg.fixed_connections_count) best with
    | none => none
    | some best => chooseFixedSlot cfg w now_ms start rest best

/-- `muxclientGetFixedParentLineForNewChild`.  The outer `none` is an assertion failing, the inner
`none` the NULL it returns. -/
def muxclientGetFixedParentLineForNewChild (cfg : MuxClientConfig) (w : MuxClientWorker)
    (now_ms : Nat) (init_ok : Nat → Bool) : Option (Option Nat × MuxClientWorker) :=
  if cfg.fixed_connections_count = 0 then none
  else
    let filled := fillFixedSlots now_ms init_ok (List.range cfg.fixed_connections_count) w
    if !filled.1 then some (none, filled.2)
    else
      let w := filled.2
      let start := w.fixed_next_parent_index % cfg.fixed_connections_count
      match chooseFixedSlot cfg w now_ms start (List.range cfg.fixed_connections_count) none with
      | none => none
      | some none => some (none, w)
      | some (some (best_index, _)) =>
        some (w.fixed_parent_lines best_index,
          { w with fixed_next_parent_index := (best_index + 1) % cfg.fixed_connections_count })

/-- The first half of `muxclientGetParentLineForNewChild` in the timer and counter modes: an
exhausted candidate is let go, and closed if it has no child. -/
def releaseExhaustedCandidate (cfg : MuxClientConfig) (w : MuxClientWorker) (now_ms : Nat) :
    Option MuxClientWorker :=
  match w.unsatisfied_line with
  | none => some w
  | some candidate =>
    match w.parents candidate with
    | none => none
    | some candidate_ls =>
      if muxclientCheckConnectionIsExhausted cfg candidate_ls now_ms then
        if candidate_ls.children_count = 0 then
          muxclientCloseIdleExhaustedParentLine cfg w candidate candidate_ls
        else some { w with unsatisfied_line := none }
      else some w

/-- `muxclientGetParentLineForNewChild`.  The outer `none` is an assertion failing, the inner
`none` the NULL it returns. -/
def muxclientGetParentLineForNewChild (cfg : MuxClientConfig) (w : MuxClientWorker) (now_ms : Nat)
    (init_ok : Nat → Bool) : Option (Option Nat × MuxClientWorker) :=
  if cfg.concurrency_mode = .fixedConnectionsCount then
    muxclientGetFixedParentLineForNewChild cfg w now_ms init_ok
  else
    match releaseExhaustedCandidate cfg w now_ms with
    | none => none
    | some w =>
      match w.unsatisfied_line with
      | some parent_l => some (some parent_l, w)
      | none =>
        let created := muxclientCreateParentLine w now_ms init_ok
        match created.1 with
        | none => some (none, created.2)
        | some parent_l => some (some parent_l, { created.2 with unsatisfied_line := some parent_l })

/-- `muxclientTunnelUpStreamInit` for the child line `child_l`.  `none` is an assertion failing;
the flag says whether the child joined a parent, and otherwise it is finished. -/
def muxclientTunnelUpStreamInit (cfg : MuxClientConfig) (w : MuxClientWorker) (child_l now_ms : Nat)
    (init_ok : Nat → Bool) : Option (Bool × MuxClientWorker) :=
  match muxclientGetParentLineForNewChild cfg w now_ms init_ok with
  | none => none
  | some (none, w) => some (false, w)
  | some (some parent_l, w) =>
    match w.parents parent_l with
    | none => none
    | some parent_ls =>
      if parent_ls.connection_id < kMuxCidMax then
        let new_cid := parent_ls.connection_id + 1
        let parent_ls := muxclientJoinConnection parent_ls ⟨child_l, new_cid⟩
        some (true, w.setParent parent_l { parent_ls with connection_id := new_cid })
      else none

/-- What happens to one worker of MuxClient: a child's Init, and what the rest of the tunnel does
to its parents.  Any attached child may leave (every close path calls
`muxclientLeaveConnection`), a parent may start finishing, and a parent with no child left is
forgotten and its state destroyed (`muxclientTunnelDownStreamFinish`, or the overflow teardown). -/
inductive MuxClientReach (cfg : MuxClientConfig) : MuxClientWorker → Prop
  | empty : MuxClientReach cfg MuxClientWorker.empty
  | upStreamInit {w w' : MuxClientWorker} (child_l now_ms : Nat) (init_ok : Nat → Bool)
      (joined : Bool) :
      MuxClientReach cfg w → muxclientTunnelUpStreamInit cfg w child_l now_ms init_ok = some (joined, w') →
      MuxClientReach cfg w'
  | leave {w : MuxClientWorker} (parent_l : Nat) (parent_ls : MuxClientParent) (child : MuxChild) :
      MuxClientReach cfg w → w.parents parent_l = some parent_ls →
      MuxClientReach cfg (w.setParent parent_l (muxclientLeaveConnection parent_ls child))
  | finishing {w : MuxClientWorker} (parent_l : Nat) (parent_ls : MuxClientParent) :
      MuxClientReach cfg w → w.parents parent_l = some parent_ls →
      MuxClientReach cfg (w.setParent parent_l { parent_ls with parent_finishing := true })
  | destroy {w : MuxClientWorker} (parent_l : Nat) (parent_ls : MuxClientParent) :
      MuxClientReach cfg w → w.parents parent_l = some parent_ls → parent_ls.children = [] →
      MuxClientReach cfg
        { muxclientForgetParentLine cfg w parent_l with
          parents := Function.update w.parents parent_l none }

/-! ### The ids of one parent -/

/-- What each parent keeps: its children have distinct ids, between 1 and its `connection_id`,
which never passes `kMuxCidMax`, and `children_count` counts them. -/
structure ParentInv (ps : MuxClientParent) : Prop where
  connection_id_le : ps.connection_id ≤ kMuxCidMax
  children_count_eq : ps.children_count = ps.children.length
  cids_nodup : (cids ps.children).Nodup
  cid_pos : ∀ c ∈ ps.children, 1 ≤ c.connection_id
  cid_le : ∀ c ∈ ps.children, c.connection_id ≤ ps.connection_id

theorem ParentInv.init (now_ms : Nat) : ParentInv (MuxClientParent.init now_ms) :=
  ⟨Nat.zero_le _, rfl, List.nodup_nil, by simp [MuxClientParent.init], by simp [MuxClientParent.init]⟩

/-- Joining a child with the next id, and making that id the parent's. -/
theorem ParentInv.join {ps : MuxClientParent} (h : ParentInv ps) (hlt : ps.connection_id < kMuxCidMax)
    (child_l : Nat) :
    ParentInv { muxclientJoinConnection ps ⟨child_l, ps.connection_id + 1⟩ with
      connection_id := ps.connection_id + 1 } where
  connection_id_le := hlt
  children_count_eq := by simp [muxclientJoinConnection, h.children_count_eq]
  cids_nodup := by
    -- every id already given out is at most the old `connection_id`
    refine List.nodup_cons.2 ⟨fun hmem => ?_, h.cids_nodup⟩
    obtain ⟨c, hc, hcid⟩ := List.mem_map.1 hmem
    have := h.cid_le c hc
    simp only at hcid
    omega
  cid_pos := by
    intro c hc
    rcases List.mem_cons.1 hc with rfl | hc
    · exact Nat.le_add_left 1 _
    · exact h.cid_pos c hc
  cid_le := by
    intro c hc
    rcases List.mem_cons.1 hc with rfl | hc
    · exact Nat.le_refl _
    · exact Nat.le_succ_of_le (h.cid_le c hc)

theorem ParentInv.leave {ps : MuxClientParent} (h : ParentInv ps) (child : MuxChild) :
    ParentInv (muxclientLeaveConnection ps child) := by
  unfold muxclientLeaveConnection
  split
  · rename_i hmem
    refine ⟨h.connection_id_le, ?_, ?_, ?_, ?_⟩
    · simp only
      rw [List.length_erase_of_mem hmem, h.children_count_eq]
    · exact h.cids_nodup.sublist ((List.erase_sublist).map _)
    · exact fun c hc => h.cid_pos c (List.mem_of_mem_erase hc)
    · exact fun c hc => h.cid_le c (List.mem_of_mem_erase hc)
  · exact h

/-! ### Choosing a parent -/

/-- Every parent of the worker keeps `ParentInv`. -/
def WorkerInv (w : MuxClientWorker) : Prop := ∀ l ps, w.parents l = some ps → ParentInv ps

section Choose

variable {cfg : MuxClientConfig} {w w' : MuxClientWorker} {now_ms : Nat} {init_ok : Nat → Bool}

theorem WorkerInv.setParent (hw : WorkerInv w) {parent_l : Nat} {ps : MuxClientParent}
    (hps : ParentInv ps) : WorkerInv (w.setParent parent_l ps) := by
  intro l ps' h
  by_cases hl : l = parent_l
  · subst hl
    simp only [MuxClientWorker.setParent_parents, Function.update_self, Option.some.injEq] at h
    exact h ▸ hps
  · rw [MuxClientWorker.setParent_parents, Function.update_of_ne hl] at h
    exact hw l ps' h

theorem WorkerInv.remove (hw : WorkerInv w) (parent_l : Nat) (w₀ : MuxClientWorker) :
    WorkerInv { w₀ with parents := Function.update w.parents parent_l none } := by
  intro l ps h
  by_cases hl : l = parent_l
  · subst hl
    simp at h
  · dsimp only at h
    rw [Function.update_of_ne hl] at h
    exact hw l ps h

theorem WorkerInv.of_parents (hw : WorkerInv w) (h : w'.parents = w.parents) : WorkerInv w' :=
  fun l ps hl => hw l ps (h ▸ hl)

theorem WorkerInv.createParentLine (hw : WorkerInv w) :
    WorkerInv (muxclientCreateParentLine w now_ms init_ok).2 := by
  have hset : WorkerInv (w.setParent w.next_line (MuxClientParent.init now_ms)) :=
    hw.setParent (ParentInv.init now_ms)
  unfold muxclientCreateParentLine
  dsimp only
  split <;> exact hset.of_parents rfl

/-- A line the creation returns has the fresh parent state. -/
theorem muxclientCreateParentLine_fst {parent_l : Nat}
    (h : (muxclientCreateParentLine w now_ms init_ok).1 = some parent_l) :
    (muxclientCreateParentLine w now_ms init_ok).2.parents parent_l =
      some (MuxClientParent.init now_ms) := by
  unfold muxclientCreateParentLine at h ⊢
  by_cases hok : init_ok w.next_line = true
  · simp only [hok, if_true, Option.some.injEq] at h ⊢
    subst h
    simp
  · simp [hok] at h

theorem WorkerInv.forget (hw : WorkerInv w) (parent_l : Nat) :
    WorkerInv (muxclientForgetParentLine cfg w parent_l) := by
  unfold muxclientForgetParentLine
  split
  · exact hw.of_parents rfl
  · split
    · exact hw.of_parents rfl
    · exact hw

theorem WorkerInv.fillFixedSlots (slots : List Nat) (hw : WorkerInv w) :
    WorkerInv (fillFixedSlots now_ms init_ok slots w).2 := by
  induction slots generalizing w with
  | nil => exact hw
  | cons i rest ih =>
    unfold fillFixedSlots
    split
    · exact ih hw
    · have hc : WorkerInv (muxclientCreateParentLine w now_ms init_ok).2 := hw.createParentLine
      dsimp only
      split
      · exact hc
      · exact ih (hc.of_parents rfl)

/-- The best slot so far, if any, holds a parent that is not exhausted. -/
def GoodBest (cfg : MuxClientConfig) (w : MuxClientWorker) (now_ms : Nat) (best : Option (Nat × Nat)) :
    Prop :=
  ∀ idx count, best = some (idx, count) → ∃ l ps, w.fixed_parent_lines idx = some l ∧
    w.parents l = some ps ∧ muxclientCheckConnectionIsExhausted cfg ps now_ms = false

theorem considerFixedSlot_good {idx : Nat} {best best' : Option (Nat × Nat)}
    (hbest : GoodBest cfg w now_ms best) (h : considerFixedSlot cfg w now_ms idx best = some best') :
    GoodBest cfg w now_ms best' := by
  unfold considerFixedSlot at h
  split at h
  · cases h
  · rename_i l hl
    split at h
    · cases h
    · rename_i ps hps
      split at h
      · cases h
        exact hbest
      · rename_i hok
        have hex : muxclientCheckConnectionIsExhausted cfg ps now_ms = false := by
          simp only [Bool.or_eq_true, not_or, Bool.not_eq_true] at hok
          exact hok.2
        -- the slot itself, when it becomes the best
        have hnew : GoodBest cfg w now_ms (some (idx, ps.children_count)) := by
          intro idx' count' he
          obtain ⟨rfl, -⟩ := Prod.mk.inj (Option.some.inj he)
          exact ⟨l, ps, hl, hps, hex⟩
        split at h
        · split at h
          · cases h
            exact hnew
          · cases h
            exact hbest
        · cases h
          exact hnew

/-- A slot the choice returns holds a parent that is not exhausted. -/
theorem chooseFixedSlot_good {start : Nat} :
    ∀ (slots : List Nat) {best : Option (Nat × Nat)} {result : Option (Nat × Nat)},
      GoodBest cfg w now_ms best → chooseFixedSlot cfg w now_ms start slots best = some result →
      GoodBest cfg w now_ms result
  | [], best, result, hbest, h => by
    rw [chooseFixedSlot, Option.some.injEq] at h
    exact h ▸ hbest
  | i :: rest, best, result, hbest, h => by
    unfold chooseFixedSlot at h
    split at h
    · cases h
    · rename_i best' hconsider
      exact chooseFixedSlot_good rest (considerFixedSlot_good hbest hconsider) h

theorem muxclientGetFixedParentLineForNewChild_spec (hw : WorkerInv w) {parent_l : Option Nat}
    (h : muxclientGetFixedParentLineForNewChild cfg w now_ms init_ok = some (parent_l, w')) :
    WorkerInv w' ∧ ∀ l, parent_l = some l →
      ∃ ps, w'.parents l = some ps ∧ muxclientCheckConnectionIsExhausted cfg ps now_ms = false := by
  unfold muxclientGetFixedParentLineForNewChild at h
  split at h
  · cases h
  · dsimp only at h
    have hfill : WorkerInv (fillFixedSlots now_ms init_ok (List.range cfg.fixed_connections_count) w).2 :=
      hw.fillFixedSlots _
    split at h
    · obtain ⟨rfl, rfl⟩ := Prod.mk.inj (Option.some.inj h)
      exact ⟨hfill, fun _ h => by cases h⟩
    · split at h
      · cases h
      · obtain ⟨rfl, rfl⟩ := Prod.mk.inj (Option.some.inj h)
        exact ⟨hfill, fun _ h => by cases h⟩
      · rename_i best_index _ hchoose
        obtain ⟨rfl, rfl⟩ := Prod.mk.inj (Option.some.inj h)
        obtain ⟨l, ps, hl, hps, hex⟩ :=
          chooseFixedSlot_good _ (fun _ _ h => by cases h) hchoose best_index _ rfl
        refine ⟨hfill.of_parents rfl, fun l' hl' => ?_⟩
        rw [hl, Option.some.injEq] at hl'
        exact ⟨ps, hl' ▸ hps, hex⟩

theorem releaseExhaustedCandidate_spec (hmode : cfg.concurrency_mode ≠ .fixedConnectionsCount)
    (hw : WorkerInv w) (h : releaseExhaustedCandidate cfg w now_ms = some w') :
    WorkerInv w' ∧ ∀ l, w'.unsatisfied_line = some l →
      ∃ ps, w'.parents l = some ps ∧ muxclientCheckConnectionIsExhausted cfg ps now_ms = false := by
  unfold releaseExhaustedCandidate at h
  split at h
  · rename_i hnone
    cases h
    exact ⟨hw, fun l hl => by rw [hnone] at hl; cases hl⟩
  · rename_i candidate hcand
    split at h
    · cases h
    · rename_i ps hps
      split at h
      · split at h
        · -- closed: the candidate is forgotten, so nothing is left in the slot
          unfold muxclientCloseIdleExhaustedParentLine at h
          rw [if_neg (by simpa using ‹ps.children_count = 0›)] at h
          cases h
          refine ⟨(hw.forget candidate).remove candidate _, fun l hl => ?_⟩
          have hforget : (muxclientForgetParentLine cfg w candidate).unsatisfied_line = none := by
            simp [muxclientForgetParentLine, hmode, hcand]
          dsimp only at hl
          rw [hforget] at hl
          cases hl
        · cases h
          exact ⟨hw.of_parents rfl, fun l hl => by cases hl⟩
      · rename_i hex
        cases h
        refine ⟨hw, fun l hl => ?_⟩
        rw [hcand, Option.some.injEq] at hl
        exact ⟨ps, hl ▸ hps, by simpa using hex⟩

/-- **The parent chosen for a child** is a fresh one or one that is not exhausted. -/
theorem muxclientGetParentLineForNewChild_spec (hw : WorkerInv w) {parent_l : Option Nat}
    (h : muxclientGetParentLineForNewChild cfg w now_ms init_ok = some (parent_l, w')) :
    WorkerInv w' ∧ ∀ l, parent_l = some l → ∃ ps, w'.parents l = some ps ∧
      (ps = MuxClientParent.init now_ms ∨ muxclientCheckConnectionIsExhausted cfg ps now_ms = false) := by
  unfold muxclientGetParentLineForNewChild at h
  split at h
  · obtain ⟨hw', hl⟩ := muxclientGetFixedParentLineForNewChild_spec hw h
    exact ⟨hw', fun l hp => (hl l hp).imp fun _ hps => ⟨hps.1, .inr hps.2⟩⟩
  · split at h
    · cases h
    · rename_i w₁ hrel
      obtain ⟨hw₁, hunsat⟩ := releaseExhaustedCandidate_spec ‹_› hw hrel
      split at h
      · rename_i l₁ hl₁
        obtain ⟨rfl, rfl⟩ := Prod.mk.inj (Option.some.inj h)
        refine ⟨hw₁, fun l hl => ?_⟩
        rw [Option.some.injEq] at hl
        subst hl
        exact (hunsat l₁ hl₁).imp fun _ hps => ⟨hps.1, .inr hps.2⟩
      · -- a fresh parent
        have hc : WorkerInv (muxclientCreateParentLine w₁ now_ms init_ok).2 := hw₁.createParentLine
        dsimp only at h
        split at h
        · obtain ⟨rfl, rfl⟩ := Prod.mk.inj (Option.some.inj h)
          exact ⟨hc, fun _ h => by cases h⟩
        · rename_i l₂ hl₂
          obtain ⟨rfl, rfl⟩ := Prod.mk.inj (Option.some.inj h)
          refine ⟨hc.of_parents rfl, fun l hl => ?_⟩
          rw [Option.some.injEq] at hl
          subst hl
          exact ⟨_, muxclientCreateParentLine_fst hl₂, .inl rfl⟩

/-- A parent that is fresh or not exhausted has an id left to give. -/
theorem connection_id_lt_of_chosen {ps : MuxClientParent} (hps : ParentInv ps)
    (h : ps = MuxClientParent.init now_ms ∨ muxclientCheckConnectionIsExhausted cfg ps now_ms = false) :
    ps.connection_id < kMuxCidMax := by
  rcases h with rfl | h
  · exact (by decide : 0 < kMuxCidMax)
  · unfold muxclientCheckConnectionIsExhausted at h
    have hne : ps.connection_id ≠ kMuxCidMax := fun he => by simp [he] at h
    exact Nat.lt_of_le_of_ne hps.connection_id_le hne

/-- The assertion of `muxclientTunnelUpStreamInit` never fails: Init stops short only where
choosing the parent does. -/
theorem muxclientTunnelUpStreamInit_ne_none (hw : WorkerInv w) {child_l : Nat}
    (h : muxclientTunnelUpStreamInit cfg w child_l now_ms init_ok = none) :
    muxclientGetParentLineForNewChild cfg w now_ms init_ok = none := by
  unfold muxclientTunnelUpStreamInit at h
  split at h
  · assumption
  · cases h
  · rename_i parent_l w₁ hget
    obtain ⟨hw₁, hchosen⟩ := muxclientGetParentLineForNewChild_spec hw hget
    obtain ⟨ps, hps, hfresh⟩ := hchosen parent_l rfl
    rw [hps] at h
    simp only [if_pos (connection_id_lt_of_chosen (hw₁ _ _ hps) hfresh)] at h
    cases h

theorem WorkerInv.upStreamInit (hw : WorkerInv w) {child_l : Nat} {joined : Bool}
    (h : muxclientTunnelUpStreamInit cfg w child_l now_ms init_ok = some (joined, w')) :
    WorkerInv w' := by
  unfold muxclientTunnelUpStreamInit at h
  split at h
  · cases h
  · rename_i w₁ hget
    cases h
    exact (muxclientGetParentLineForNewChild_spec hw hget).1
  · rename_i parent_l w₁ hget
    have hw₁ := (muxclientGetParentLineForNewChild_spec hw hget).1
    split at h
    · cases h
    · rename_i ps hps
      split at h
      · rename_i hlt
        cases h
        exact hw₁.setParent ((hw₁ _ _ hps).join hlt child_l)
      · cases h

end Choose

/-- The invariant holds along every run, by induction on it. -/
theorem WorkerInv.reach {cfg : MuxClientConfig} {w : MuxClientWorker} (r : MuxClientReach cfg w) :
    WorkerInv w := by
  induction r with
  | empty => exact fun _ _ h => by cases h
  | upStreamInit child_l now_ms init_ok joined _ h ih => exact ih.upStreamInit h
  | leave parent_l parent_ls child _ hps ih => exact ih.setParent ((ih _ _ hps).leave child)
  | finishing parent_l parent_ls _ hps ih =>
    have h := ih _ _ hps
    exact ih.setParent ⟨h.connection_id_le, h.children_count_eq, h.cids_nodup, h.cid_pos, h.cid_le⟩
  | destroy parent_l parent_ls _ _ _ ih => exact ih.remove parent_l _

/-! ## MuxServer -/

/-- The fields of a parent's `muxserver_lstate_t` that the frame loop reads and writes;
`next_line` is the line the next `lineCreate` returns. -/
structure MuxServerParent where
  children : List MuxChild
  children_count : Nat
  next_line : Nat

/-- `muxserverJoinConnection`: the child goes to the front of the parent's list. -/
def muxserverJoinConnection (parent : MuxServerParent) (child : MuxChild) : MuxServerParent :=
  { parent with children := child :: parent.children, children_count := parent.children_count + 1 }

/-- `muxserverLeaveConnection`: a child that is not attached is left alone. -/
def muxserverLeaveConnection (parent : MuxServerParent) (child : MuxChild) : MuxServerParent :=
  if child ∈ parent.children then
    { parent with children := parent.children.erase child, children_count := parent.children_count - 1 }
  else parent

/-- `findChildByConnectionId`: the first child along `child_next` with the id. -/
def findChildByConnectionId (parent_ls : MuxServerParent) (cid : Nat) : Option MuxChild :=
  parent_ls.children.find? fun child => child.connection_id == cid

def moveChildToFront (parent_ls : MuxServerParent) (child : MuxChild) : MuxServerParent :=
  if parent_ls.children.head? = some child then parent_ls
  else { parent_ls with children := child :: parent_ls.children.erase child }

/-- `handleOpenFrame`: an Open for an id a child already has is ignored; otherwise a new child
line with that id joins.  `parent_alive` is whether the child's Init left the parent alive, which
is what it returns. -/
def handleOpenFrame (parent_ls : MuxServerParent) (frame : MuxFrame) (parent_alive : Bool) :
    Bool × MuxServerParent :=
  match findChildByConnectionId parent_ls frame.cid.toNat with
  | some _ => (true, parent_ls)
  | none =>
    let child_l := parent_ls.next_line
    let parent_ls := { parent_ls with next_line := child_l + 1 }
    (parent_alive, muxserverJoinConnection parent_ls ⟨child_l, frame.cid.toNat⟩)

/-- What a frame other than an Open does to the list in `muxserverTunnelUpStreamPayload`: its
child, if one has its id, is moved to the front before `processFrameForChild` runs. -/
def routeFrame (parent_ls : MuxServerParent) (frame : MuxFrame) : MuxServerParent :=
  match findChildByConnectionId parent_ls frame.cid.toNat with
  | none => parent_ls
  | some child => moveChildToFront parent_ls child

/-- What happens to one parent line of MuxServer: each frame `muxserverTunnelUpStreamPayload`
reads, and any attached child leaving by any close path (a Close frame, the child's own Finish,
the buffer limit, the overflow teardown).  A child is only ever created by `handleOpenFrame`, with
the id of its Open frame. -/
inductive MuxServerReach : MuxServerParent → Prop
  | init (next_line : Nat) : MuxServerReach ⟨[], 0, next_line⟩
  | openFrame {ps : MuxServerParent} (frame : MuxFrame) (parent_alive : Bool) :
      MuxServerReach ps → frame.flags = kMuxFlagOpen →
      MuxServerReach (handleOpenFrame ps frame parent_alive).2
  | frame {ps : MuxServerParent} (frame : MuxFrame) :
      MuxServerReach ps → frame.flags ≠ kMuxFlagOpen → MuxServerReach (routeFrame ps frame)
  | leave {ps : MuxServerParent} (child : MuxChild) :
      MuxServerReach ps → MuxServerReach (muxserverLeaveConnection ps child)

section Server

variable {ps : MuxServerParent} {cid : Nat}

theorem findChildByConnectionId_eq_none_iff :
    findChildByConnectionId ps cid = none ↔ cid ∉ cids ps.children := by
  simp [findChildByConnectionId, cids]

theorem mem_of_findChildByConnectionId {c : MuxChild} (h : findChildByConnectionId ps cid = some c) :
    c ∈ ps.children ∧ c.connection_id = cid :=
  ⟨List.mem_of_find?_eq_some h, by simpa using List.find?_some h⟩

/-- With distinct ids, the lookup finds exactly the child with the id. -/
theorem findChildByConnectionId_eq_some_iff (hnd : (cids ps.children).Nodup) {c : MuxChild} :
    findChildByConnectionId ps cid = some c ↔ c ∈ ps.children ∧ c.connection_id = cid := by
  refine ⟨mem_of_findChildByConnectionId, fun ⟨hc, hcid⟩ => ?_⟩
  cases hf : findChildByConnectionId ps cid with
  | none =>
    exact absurd (List.mem_map_of_mem hc) (hcid ▸ findChildByConnectionId_eq_none_iff.1 hf)
  | some c' =>
    -- two children with one id are one child
    obtain ⟨hc', hcid'⟩ := mem_of_findChildByConnectionId hf
    exact congrArg some (List.inj_on_of_nodup_map hnd hc' hc (hcid'.trans hcid.symm))

/-- What every parent keeps: no two children share an id, and `children_count` counts them. -/
structure ServerInv (ps : MuxServerParent) : Prop where
  cids_nodup : (cids ps.children).Nodup
  children_count_eq : ps.children_count = ps.children.length

theorem ServerInv.openChild (h : ServerInv ps) (frame : MuxFrame) (parent_alive : Bool) :
    ServerInv (handleOpenFrame ps frame parent_alive).2 := by
  unfold handleOpenFrame
  split
  · exact h
  · -- the id is new: no child has it
    rename_i hnone
    refine ⟨List.nodup_cons.2 ⟨findChildByConnectionId_eq_none_iff.1 hnone, h.cids_nodup⟩, ?_⟩
    simp [muxserverJoinConnection, h.children_count_eq]

theorem ServerInv.moveToFront (h : ServerInv ps) {child : MuxChild} (hc : child ∈ ps.children) :
    ServerInv (moveChildToFront ps child) := by
  unfold moveChildToFront
  split
  · exact h
  · have hperm := List.perm_cons_erase hc
    refine ⟨(hperm.map _).nodup_iff.1 h.cids_nodup, ?_⟩
    rw [h.children_count_eq]
    exact hperm.length_eq

theorem ServerInv.route (h : ServerInv ps) (frame : MuxFrame) : ServerInv (routeFrame ps frame) := by
  unfold routeFrame
  split
  · exact h
  · rename_i child hfind
    exact h.moveToFront (mem_of_findChildByConnectionId hfind).1

theorem ServerInv.leave (h : ServerInv ps) (child : MuxChild) :
    ServerInv (muxserverLeaveConnection ps child) := by
  unfold muxserverLeaveConnection
  split
  · rename_i hmem
    refine ⟨h.cids_nodup.sublist (List.erase_sublist.map _), ?_⟩
    simp only
    rw [List.length_erase_of_mem hmem, h.children_count_eq]
  · exact h

/-- The invariant holds along every sequence of frames and closes, by induction on it. -/
theorem ServerInv.reach (r : MuxServerReach ps) : ServerInv ps := by
  induction r with
  | init next_line => exact ⟨List.nodup_nil, rfl⟩
  | openFrame frame parent_alive _ _ ih => exact ih.openChild frame parent_alive
  | frame frame _ _ ih => exact ih.route frame
  | leave child _ ih => exact ih.leave child

end Server

/-! ## Both ends -/

/-- **Connection ids are unique.**  On the client, along every run of a worker in every mode: the
children of each parent have distinct ids, between 1 and the parent's `connection_id`; the parent
chosen for a new child is fresh or not exhausted, and has an id left; and the assertion of
`muxclientTunnelUpStreamInit` never fails, which stops short only where choosing the parent does.
On the server, along every sequence of frames and closes, no two children share an id, and
`findChildByConnectionId` finds exactly the child with the frame's id. -/
theorem mux_cid_unique :
    (∀ (cfg : MuxClientConfig) (w : MuxClientWorker), MuxClientReach cfg w →
      (∀ parent_l ps, w.parents parent_l = some ps → (cids ps.children).Nodup ∧
        ∀ c ∈ ps.children, 1 ≤ c.connection_id ∧ c.connection_id ≤ ps.connection_id) ∧
      (∀ now_ms init_ok parent_l w',
        muxclientGetParentLineForNewChild cfg w now_ms init_ok = some (some parent_l, w') →
        ∃ ps, w'.parents parent_l = some ps ∧
          (ps = MuxClientParent.init now_ms ∨ muxclientCheckConnectionIsExhausted cfg ps now_ms = false) ∧
          ps.connection_id < kMuxCidMax) ∧
      (∀ child_l now_ms init_ok, muxclientTunnelUpStreamInit cfg w child_l now_ms init_ok = none →
        muxclientGetParentLineForNewChild cfg w now_ms init_ok = none)) ∧
    (∀ ps : MuxServerParent, MuxServerReach ps → (cids ps.children).Nodup ∧
      ∀ cid c, findChildByConnectionId ps cid = some c ↔ c ∈ ps.children ∧ c.connection_id = cid) := by
  refine ⟨fun cfg w r => ?_, fun ps r => ?_⟩
  · have hw := WorkerInv.reach r
    refine ⟨fun parent_l ps hps => ⟨(hw _ _ hps).cids_nodup,
      fun c hc => ⟨(hw _ _ hps).cid_pos c hc, (hw _ _ hps).cid_le c hc⟩⟩, ?_, ?_⟩
    · intro now_ms init_ok parent_l w' h
      obtain ⟨hw', hchosen⟩ := muxclientGetParentLineForNewChild_spec hw h
      obtain ⟨ps, hps, hfresh⟩ := hchosen parent_l rfl
      exact ⟨ps, hps, hfresh, connection_id_lt_of_chosen (hw' _ _ hps) hfresh⟩
    · intro child_l now_ms init_ok h
      exact muxclientTunnelUpStreamInit_ne_none hw h
  · have hs := ServerInv.reach r
    exact ⟨hs.cids_nodup, fun cid c => findChildByConnectionId_eq_some_iff hs.cids_nodup⟩

/-- Two children join a fresh parent on the client and get ids 1 and 2; two Opens for ids 5 and 6
on the server create the two children those ids then find. -/
theorem mux_cid_unique_twoChildren :
    ((cids [(⟨8, 2⟩ : MuxChild), ⟨7, 1⟩]).Nodup ∧
      ∀ c ∈ [(⟨8, 2⟩ : MuxChild), ⟨7, 1⟩], 1 ≤ c.connection_id ∧ c.connection_id ≤ 2) ∧
    findChildByConnectionId (handleOpenFrame (handleOpenFrame ⟨[], 0, 0⟩ ⟨0, kMuxFlagOpen, 0, 5⟩
      true).2 ⟨0, kMuxFlagOpen, 0, 6⟩ true).2 5 = some ⟨0, 5⟩ ∧
    findChildByConnectionId (handleOpenFrame (handleOpenFrame ⟨[], 0, 0⟩ ⟨0, kMuxFlagOpen, 0, 5⟩
      true).2 ⟨0, kMuxFlagOpen, 0, 6⟩ true).2 6 = some ⟨1, 6⟩ :=
  have r₁ : MuxClientReach ⟨.counter, 0, 16, 0⟩ _ :=
    .upStreamInit 7 0 (fun _ => true) true .empty rfl
  have r₂ : MuxClientReach ⟨.counter, 0, 16, 0⟩ _ := .upStreamInit 8 0 (fun _ => true) true r₁ rfl
  have r' : MuxServerReach (handleOpenFrame (handleOpenFrame ⟨[], 0, 0⟩ ⟨0, kMuxFlagOpen, 0, 5⟩
      true).2 ⟨0, kMuxFlagOpen, 0, 6⟩ true).2 :=
    .openFrame _ true (.openFrame _ true (.init 0) rfl) rfl
  ⟨(mux_cid_unique.1 _ _ r₂).1 0 ⟨2, 2, 0, false, [⟨8, 2⟩, ⟨7, 1⟩]⟩ rfl,
    ((mux_cid_unique.2 _ r').2 5 ⟨0, 5⟩).2 ⟨List.mem_cons_of_mem _ (List.mem_singleton_self _), rfl⟩,
    ((mux_cid_unique.2 _ r').2 6 ⟨1, 6⟩).2 ⟨List.mem_cons_self, rfl⟩⟩

end WaterWall.Mux
