import Mathlib

/-!
# ReverseServer: pairing user lines with reverse-client lines

`ReverseServer` joins two kinds of connection.  A reverse client connects from the prev side (a
`d` line), sends the configured handshake bytes and waits; a user connects from the next side (a
`u` line) and sends data.  Every worker keeps, in its `reverseserver_thread_box_t`, the waiting
user lines (`u_root`) and the handshaked reverse-client lines (`d_root`).  A line that speaks
while unpaired pairs with the newest waiting line of the other kind on its own worker.  Only a
reverse-client line looks at the other workers: when another worker has users waiting, it is
piped there (`pipeTo`) and its handshake is replayed on that worker.

`reverseserverStep` runs one line event as the worker owning the line runs it; the events a pipe
carries to another worker wait in `pending` until that worker runs them (`reverseserverDeliver`).
`lines` maps an open line to its worker and its `reverseserver_lstate_t`.

* `reverseserverStep_separated`, `Reachable.separated`: after every event, on every worker, the
  waiting users or the waiting reverse clients are none.
* `reverseserver_userStranded`: across workers a user can wait for ever.  A reverse client
  handshakes on worker 0 and waits; a user then sends data on worker 1, which never looks at other
  workers, so with no event pending the two idle apart.
-/

set_option autoImplicit false

namespace WaterWall
namespace ReverseServer

/-! ## The model -/

def kMaxBuffering : Nat := 65535

/-- `reverseserver_lstate_t`; its list links are the lists of `ThreadBox`. -/
structure LineState where
  u : Option Nat
  d : Option Nat
  buffering : Option (List UInt8)
  paired : Bool
  handshaked : Bool
deriving DecidableEq, Repr

def reverseserverLinestateInitialize (u d : Option Nat) : LineState :=
  ⟨u, d, none, false, false⟩

/-- `reverseserver_thread_box_t`: the waiting user lines and the waiting reverse-client lines of
one worker, newest first. -/
structure ThreadBox where
  u_root : List Nat
  d_root : List Nat
deriving DecidableEq, Repr

def ThreadBox.u_count (box : ThreadBox) : Nat := box.u_root.length

/-- `reverseserverAddConnectionU`: the line becomes the head. -/
def reverseserverAddConnectionU (box : ThreadBox) (con : Nat) : ThreadBox :=
  { box with u_root := con :: box.u_root }

def reverseserverRemoveConnectionU (box : ThreadBox) (con : Nat) : ThreadBox :=
  { box with u_root := box.u_root.erase con }

/-- `reverseserverAddConnectionD`: the line becomes the head. -/
def reverseserverAddConnectionD (box : ThreadBox) (con : Nat) : ThreadBox :=
  { box with d_root := con :: box.d_root }

def reverseserverRemoveConnectionD (box : ThreadBox) (con : Nat) : ThreadBox :=
  { box with d_root := box.d_root.erase con }

/-- What the tunnel hands its neighbours. -/
inductive Output where
  | prevDownStreamEst (d : Nat)
  | nextUpStreamEst (u : Nat)
  | prevDownStreamPayload (d : Nat) (buf : List UInt8)
  | nextUpStreamPayload (u : Nat) (buf : List UInt8)
  | prevDownStreamFinish (d : Nat)
  | nextUpStreamFinish (u : Nat)
deriving DecidableEq, Repr

/-- A line event: a reverse-client line (`upStream`) or a user line (`downStream`) opens, brings
bytes or closes; an opening names the worker that owns the line. -/
inductive Event where
  | upStreamInit (d wid : Nat)
  | upStreamPayload (d : Nat) (buf : List UInt8)
  | upStreamFinish (d : Nat)
  | downStreamInit (u wid : Nat)
  | downStreamPayload (u : Nat) (buf : List UInt8)
  | downStreamFinish (u : Nat)
deriving DecidableEq, Repr

/-- The line an event is on. -/
def Event.line : Event → Nat
  | .upStreamInit d _ | .upStreamPayload d _ | .upStreamFinish d => d
  | .downStreamInit u _ | .downStreamPayload u _ | .downStreamFinish u => u

/-- The same event on another line. -/
def Event.retarget : Event → Nat → Event
  | .upStreamInit _ wid, x => .upStreamInit x wid
  | .upStreamPayload _ buf, x => .upStreamPayload x buf
  | .upStreamFinish _, x => .upStreamFinish x
  | .downStreamInit _ wid, x => .downStreamInit x wid
  | .downStreamPayload _ buf, x => .downStreamPayload x buf
  | .downStreamFinish _, x => .downStreamFinish x

/-- An open line: its worker (`lineGetWID`) and the tunnel's state for it (`lineGetState`). -/
structure Line where
  wid : Nat
  ls : LineState
deriving DecidableEq, Repr

/-- What a line the tunnel holds no state for reads as: `reverseserverLinestateDestroy` zeroes
the state. -/
def zeroLine (wid : Nat) : Line := ⟨wid, reverseserverLinestateInitialize none none⟩

/-- The tunnel over all its workers. -/
structure ServerState where
  handshake_bytes : List UInt8
  /-- `getWorkersCount`. -/
  workers : Nat
  threadlocal_pool : Nat → ThreadBox
  lines : Nat → Option Line
  /-- The pairs `pipeTo` made: the line piped away and the line made for it on the other
  worker. -/
  pipes : List (Nat × Nat)
  /-- The events the pipes carry to other workers, in order. -/
  pending : List Event
  /-- The id `lineCreateForWorker` gives the next line it makes. -/
  next_line : Nat
  sent : List Output

namespace ServerState

def setBox (s : ServerState) (wid : Nat) (box : ThreadBox) : ServerState :=
  { s with threadlocal_pool := Function.update s.threadlocal_pool wid box }

def setLine (s : ServerState) (x : Nat) (line : Option Line) : ServerState :=
  { s with lines := Function.update s.lines x line }

def send (s : ServerState) (out : List Output) : ServerState := { s with sent := s.sent ++ out }

def queue (s : ServerState) (events : List Event) : ServerState :=
  { s with pending := s.pending ++ events }

end ServerState

/-- The tunnel when it starts, with no line open. -/
def reverseserverInit (handshake_bytes : List UInt8) (workers : Nat) : ServerState :=
  ⟨handshake_bytes, workers, fun _ => ⟨[], []⟩, fun _ => none, [], [], 0, []⟩

/-- `reverseserverTunnelUpStreamInit`: a reverse-client line opens on worker `wid`. -/
def reverseserverTunnelUpStreamInit (s : ServerState) (d wid : Nat) : ServerState :=
  (s.setLine d (some ⟨wid, reverseserverLinestateInitialize none (some d)⟩)).send
    [.prevDownStreamEst d]

/-- `reverseserverTunnelDownStreamInit`: a user line opens on worker `wid`. -/
def reverseserverTunnelDownStreamInit (s : ServerState) (u wid : Nat) : ServerState :=
  (s.setLine u (some ⟨wid, reverseserverLinestateInitialize (some u) none⟩)).send
    [.nextUpStreamEst u]

/-- `handleUnpairedConnectionU`, for the unpaired user line `u` of worker `wid`.  The calls into
the neighbours are taken to leave both lines open. -/
def handleUnpairedConnectionU (s : ServerState) (u wid : Nat) (uls : LineState)
    (buf : List UInt8) : ServerState :=
  -- `reverseServerHandleBufferMerging`
  let buf := (uls.buffering.map (· ++ buf)).getD buf
  let uls := { uls with buffering := none }
  let this_tb := s.threadlocal_pool wid
  -- `checkBufferSizeLimitU`
  if buf.length > kMaxBuffering then
    let this_tb := if uls.handshaked then reverseserverRemoveConnectionU this_tb u else this_tb
    ((s.setBox wid this_tb).setLine u none).send [.nextUpStreamFinish u]
  else
    -- `processHandshakeU`: the first bytes put the line on the worker's user list
    let this_tb := if !uls.handshaked then reverseserverAddConnectionU this_tb u else this_tb
    let uls := { uls with handshaked := true }
    -- `pairWithLocalDownstreamConnection`
    match this_tb.d_root with
    | d :: _ =>
      let dline := (s.lines d).getD (zeroLine wid)
      let this_tb := reverseserverRemoveConnectionD (reverseserverRemoveConnectionU this_tb u) d
      let dls := { dline.ls with u := some u, paired := true, buffering := none }
      let uls := { uls with paired := true, d := some d }
      (((s.setBox wid this_tb).setLine d (some { dline with ls := dls })).setLine u
          (some ⟨wid, uls⟩)).send
        (.prevDownStreamPayload d buf :: (dline.ls.buffering.map (.nextUpStreamPayload u ·)).toList)
    | [] =>
      -- no peer on this worker: the line waits with its bytes
      (s.setBox wid this_tb).setLine u (some ⟨wid, { uls with buffering := some buf }⟩)

def reverseserverTunnelDownStreamPayload (s : ServerState) (u : Nat) (buf : List UInt8) :
    ServerState :=
  match s.lines u with
  | none => s
  | some line =>
    if line.ls.paired then
      match line.ls.d with
      | some d => s.send [.prevDownStreamPayload d buf]
      | none => s
    else handleUnpairedConnectionU s u line.wid line.ls buf

/-- `processHandshakeD`: `.inr` with the line's state to go on pairing, `.inl` when the call
stops, the line waiting for more bytes or dropped. -/
def processHandshakeD (s : ServerState) (d wid : Nat) (dls : LineState) (buf : List UInt8) :
    ServerState ⊕ (ServerState × LineState) :=
  if dls.handshaked then .inr (s, { dls with buffering := some buf })
  else if s.handshake_bytes.length ≤ buf.length then
    -- `validateHandshake`
    if buf.take s.handshake_bytes.length ≠ s.handshake_bytes then
      .inl ((s.setLine d none).send [.prevDownStreamFinish d])
    else
      let buf := buf.drop s.handshake_bytes.length
      .inr (s.setBox wid (reverseserverAddConnectionD (s.threadlocal_pool wid) d),
        { dls with handshaked := true, buffering := if buf.length ≤ 0 then none else some buf })
  else .inl (s.setLine d (some ⟨wid, { dls with buffering := some buf }⟩))

/-- `pairWithLocalUpstreamConnection`: `none` when no user waits on the worker. -/
def pairWithLocalUpstreamConnection (s : ServerState) (d wid : Nat) (dls : LineState) :
    Option ServerState :=
  let this_tb := s.threadlocal_pool wid
  match this_tb.u_root with
  | [] => none
  | u :: _ =>
    let uline := (s.lines u).getD (zeroLine wid)
    let this_tb := reverseserverRemoveConnectionU (reverseserverRemoveConnectionD this_tb d) u
    let uls := { uline.ls with d := some d, paired := true, buffering := none }
    let dls' := { dls with paired := true, u := some u, buffering := none }
    some ((((s.setBox wid this_tb).setLine u (some { uline with ls := uls })).setLine d
        (some ⟨wid, dls'⟩)).send
      (.prevDownStreamPayload d (uline.ls.buffering.getD []) ::
        (dls.buffering.map (.nextUpStreamPayload u ·)).toList))

/-- `pipeTo`: a line for worker `wid_to` is made and paired with `d`, and its opening is carried
there.  It fails for a line a pipe already holds, or for a worker that is `d`'s own or none. -/
def pipeTo (s : ServerState) (d wid wid_to : Nat) : Option (ServerState × Nat) :=
  if wid_to = wid ∨ s.workers ≤ wid_to ∨
      s.pipes.any (fun p => p.1 = d ∨ p.2 = d) then none
  else
    let d' := s.next_line
    some ({ s with pipes := s.pipes ++ [(d, d')], next_line := d' + 1 }.queue
      [.upStreamInit d' wid_to], d')

/-- `pipeToRemoteWorker`: the line leaves this worker, and the handshake and the bytes it had
are carried to its new line on worker `wi`. -/
def pipeToRemoteWorker (s : ServerState) (d wid wi : Nat) (buf : Option (List UInt8)) :
    Option ServerState :=
  match pipeTo s d wid wi with
  | none => none
  | some (s, d') =>
    let s := (s.setBox wid (reverseserverRemoveConnectionD (s.threadlocal_pool wid) d)).setLine d none
    some (s.queue (.upStreamPayload d' s.handshake_bytes :: (buf.map (.upStreamPayload d' ·)).toList))

/-- The loop of `tryPairWithRemoteUpstreamConnection` over the workers `wis`. -/
def tryPairLoop (s : ServerState) (d wid : Nat) (dbuf : Option (List UInt8)) :
    List Nat → Option ServerState
  | [] => none
  | wi :: wis =>
    if wi ≠ wid ∧ 0 < (s.threadlocal_pool wi).u_count then
      match pipeToRemoteWorker s d wid wi dbuf with
      | some s => some s
      | none => tryPairLoop s d wid dbuf wis
    else tryPairLoop s d wid dbuf wis

/-- `tryPairWithRemoteUpstreamConnection`: the first other worker with users waiting takes the
line. -/
def tryPairWithRemoteUpstreamConnection (s : ServerState) (d wid : Nat) (dls : LineState) :
    Option ServerState :=
  tryPairLoop s d wid dls.buffering (List.range s.workers)

/-- `handleUnpairedConnectionD`, for the unpaired reverse-client line `d` of worker `wid`. -/
def handleUnpairedConnectionD (s : ServerState) (d wid : Nat) (dls : LineState)
    (buf : List UInt8) : ServerState :=
  -- `reverseclienthandleBufferMerging`
  let buf := (dls.buffering.map (· ++ buf)).getD buf
  let dls := { dls with buffering := none }
  -- `checkBufferSizeLimitD`
  if buf.length > kMaxBuffering then
    let s := if dls.handshaked then
      s.setBox wid (reverseserverRemoveConnectionD (s.threadlocal_pool wid) d) else s
    (s.setLine d none).send [.prevDownStreamFinish d]
  else
    match processHandshakeD s d wid dls buf with
    | .inl s => s
    | .inr (s, dls) =>
      match pairWithLocalUpstreamConnection s d wid dls with
      | some s => s
      | none =>
        match tryPairWithRemoteUpstreamConnection s d wid dls with
        | some s => s
        | none => s.setLine d (some ⟨wid, dls⟩)

def reverseserverTunnelUpStreamPayload (s : ServerState) (d : Nat) (buf : List UInt8) :
    ServerState :=
  match s.lines d with
  | none => s
  | some line =>
    if line.ls.paired then
      match line.ls.u with
      | some u => s.send [.nextUpStreamPayload u buf]
      | none => s
    else handleUnpairedConnectionD s d line.wid line.ls buf

def reverseserverTunnelUpStreamFinish (s : ServerState) (d : Nat) : ServerState :=
  match s.lines d with
  | none => s
  | some line =>
    if line.ls.paired then
      match line.ls.u with
      | some u => ((s.setLine d none).setLine u none).send [.nextUpStreamFinish u]
      | none => s
    else
      let s := if line.ls.handshaked then
        s.setBox line.wid (reverseserverRemoveConnectionD (s.threadlocal_pool line.wid) d) else s
      s.setLine d none

def reverseserverTunnelDownStreamFinish (s : ServerState) (u : Nat) : ServerState :=
  match s.lines u with
  | none => s
  | some line =>
    match line.ls.d with
    | some d => ((s.setLine d none).setLine u none).send [.prevDownStreamFinish d]
    | none =>
      let s := if line.ls.handshaked then
        s.setBox line.wid (reverseserverRemoveConnectionU (s.threadlocal_pool line.wid) u) else s
      s.setLine u none

/-- The line a pipe carries `x`'s events to, when `x` was piped away. -/
def pipedTo (s : ServerState) (x : Nat) : Option Nat := (s.pipes.find? (·.1 = x)).map (·.2)

/-- One line event, run by the worker owning the line; the events of a line piped away go on to
its line on the other worker. -/
def reverseserverStep (s : ServerState) (e : Event) : ServerState :=
  match pipedTo s e.line with
  | some x => s.queue [e.retarget x]
  | none =>
    match e with
    | .upStreamInit d wid => reverseserverTunnelUpStreamInit s d wid
    | .upStreamPayload d buf => reverseserverTunnelUpStreamPayload s d buf
    | .upStreamFinish d => reverseserverTunnelUpStreamFinish s d
    | .downStreamInit u wid => reverseserverTunnelDownStreamInit s u wid
    | .downStreamPayload u buf => reverseserverTunnelDownStreamPayload s u buf
    | .downStreamFinish u => reverseserverTunnelDownStreamFinish s u

/-- The first event a pipe carries runs on its worker. -/
def reverseserverDeliver (s : ServerState) : ServerState :=
  match s.pending with
  | [] => s
  | e :: rest => reverseserverStep { s with pending := rest } e

/-- A run of line events. -/
def reverseserverRun (s : ServerState) (events : List Event) : ServerState :=
  events.foldl reverseserverStep s

/-- The states the tunnel reaches from its start: any line event, and the delivery of what the
pipes carry, in any order. -/
inductive Reachable (handshake_bytes : List UInt8) (workers : Nat) : ServerState → Prop
  | init : Reachable handshake_bytes workers (reverseserverInit handshake_bytes workers)
  | step {s : ServerState} (e : Event) :
      Reachable handshake_bytes workers s →
        Reachable handshake_bytes workers (reverseserverStep s e)
  | deliver {s : ServerState} :
      Reachable handshake_bytes workers s →
        Reachable handshake_bytes workers (reverseserverDeliver s)

/-! ## State updates -/

namespace ServerState

variable (s : ServerState)

@[simp] theorem setBox_threadlocal_pool (wid : Nat) (box : ThreadBox) :
    (s.setBox wid box).threadlocal_pool = Function.update s.threadlocal_pool wid box := rfl

@[simp] theorem setLine_threadlocal_pool (x : Nat) (line : Option Line) :
    (s.setLine x line).threadlocal_pool = s.threadlocal_pool := rfl

@[simp] theorem send_threadlocal_pool (out : List Output) :
    (s.send out).threadlocal_pool = s.threadlocal_pool := rfl

@[simp] theorem queue_threadlocal_pool (events : List Event) :
    (s.queue events).threadlocal_pool = s.threadlocal_pool := rfl

end ServerState

/-! ## What each handler does to the lists -/

section Pool

variable {s s' : ServerState} {d wid : Nat}

theorem pipeTo_threadlocal_pool {wid_to d' : Nat} (h : pipeTo s d wid wid_to = some (s', d')) :
    s'.threadlocal_pool = s.threadlocal_pool := by
  unfold pipeTo at h
  split_ifs at h
  cases h
  rfl

/-- A line piped away leaves its worker's list of waiting reverse clients. -/
theorem pipeToRemoteWorker_threadlocal_pool {wi : Nat} {buf : Option (List UInt8)}
    (h : pipeToRemoteWorker s d wid wi buf = some s') :
    s'.threadlocal_pool = Function.update s.threadlocal_pool wid
      (reverseserverRemoveConnectionD (s.threadlocal_pool wid) d) := by
  unfold pipeToRemoteWorker at h
  split at h
  · cases h
  · rename_i s₁ d' hpipe
    cases h
    simp [pipeTo_threadlocal_pool hpipe]

theorem tryPairLoop_threadlocal_pool {dbuf : Option (List UInt8)} :
    ∀ {wis : List Nat}, tryPairLoop s d wid dbuf wis = some s' →
      s'.threadlocal_pool = Function.update s.threadlocal_pool wid
        (reverseserverRemoveConnectionD (s.threadlocal_pool wid) d)
  | [], h => by cases h
  | wi :: wis, h => by
    unfold tryPairLoop at h
    split_ifs at h
    · split at h
      · cases h
        exact pipeToRemoteWorker_threadlocal_pool ‹_›
      · exact tryPairLoop_threadlocal_pool h
    · exact tryPairLoop_threadlocal_pool h

theorem tryPairWithRemoteUpstreamConnection_threadlocal_pool {dls : LineState}
    (h : tryPairWithRemoteUpstreamConnection s d wid dls = some s') :
    s'.threadlocal_pool = Function.update s.threadlocal_pool wid
      (reverseserverRemoveConnectionD (s.threadlocal_pool wid) d) :=
  tryPairLoop_threadlocal_pool h

/-- Pairing on the worker takes the line and a waiting user off its lists; it fails only when no
user waits. -/
theorem pairWithLocalUpstreamConnection_threadlocal_pool {dls : LineState} :
    (pairWithLocalUpstreamConnection s d wid dls = none →
      (s.threadlocal_pool wid).u_root = []) ∧
    (pairWithLocalUpstreamConnection s d wid dls = some s' →
      ∃ u, s'.threadlocal_pool = Function.update s.threadlocal_pool wid
        (reverseserverRemoveConnectionU
          (reverseserverRemoveConnectionD (s.threadlocal_pool wid) d) u)) := by
  unfold pairWithLocalUpstreamConnection
  dsimp only
  split
  · rename_i hnil
    refine ⟨fun _ => hnil, fun h => ?_⟩
    cases h
  · refine ⟨fun h => ?_, fun h => ?_⟩
    · cases h
    cases h
    exact ⟨_, rfl⟩

/-- The handshake leaves the lists alone, or puts the line on its worker's list. -/
theorem processHandshakeD_threadlocal_pool {dls : LineState} {buf : List UInt8} :
    (∀ s', processHandshakeD s d wid dls buf = .inl s' →
      s'.threadlocal_pool = s.threadlocal_pool) ∧
    (∀ s' dls', processHandshakeD s d wid dls buf = .inr (s', dls') →
      s'.threadlocal_pool = s.threadlocal_pool ∨
        s'.threadlocal_pool = Function.update s.threadlocal_pool wid
          (reverseserverAddConnectionD (s.threadlocal_pool wid) d)) := by
  unfold processHandshakeD
  split_ifs <;> refine ⟨fun s' h => ?_, fun s' dls' h => ?_⟩ <;> cases h <;> simp

end Pool

/-! ## On one worker, never a user beside a waiting reverse client -/

namespace ThreadBox

/-- The worker's waiting users or its waiting reverse clients are none. -/
def Separated (box : ThreadBox) : Prop := box.u_root = [] ∨ box.d_root = []

variable {box : ThreadBox}

theorem Separated.removeU (h : box.Separated) (con : Nat) :
    (reverseserverRemoveConnectionU box con).Separated := by
  rcases h with h | h
  · left
    simp [reverseserverRemoveConnectionU, h]
  · exact Or.inr h

theorem Separated.removeD (h : box.Separated) (con : Nat) :
    (reverseserverRemoveConnectionD box con).Separated := by
  rcases h with h | h
  · exact Or.inl h
  · right
    simp [reverseserverRemoveConnectionD, h]

/-- A user line that speaks on a worker with reverse clients waiting is paired at once: whether
or not it was listed, the worker lists no user after it and its peer leave the lists. -/
theorem Separated.pairU (h : box.Separated) (listed : Bool) {u d : Nat} {rest : List Nat}
    (hd : (if listed then reverseserverAddConnectionU box u else box).d_root = d :: rest) :
    (reverseserverRemoveConnectionD
      (reverseserverRemoveConnectionU
        (if listed then reverseserverAddConnectionU box u else box) u) d).Separated := by
  have hbd : box.d_root ≠ [] := by
    cases listed <;> simp_all [reverseserverAddConnectionU]
  have hbu : box.u_root = [] := h.resolve_right hbd
  left
  cases listed <;> simp [reverseserverRemoveConnectionD, reverseserverRemoveConnectionU,
    reverseserverAddConnectionU, hbu]

/-- A user line that finds no reverse client waiting leaves the worker's reverse clients
as none. -/
theorem Separated.waitU (listed : Bool) {u : Nat}
    (hd : (if listed then reverseserverAddConnectionU box u else box).d_root = []) :
    (if listed then reverseserverAddConnectionU box u else box).Separated :=
  Or.inr hd

end ThreadBox

namespace ServerState

/-- On every worker the waiting users or the waiting reverse clients are none. -/
def Separated (s : ServerState) : Prop := ∀ wid, (s.threadlocal_pool wid).Separated

/-- Separation with one exception: on worker `wid` the reverse-client line `d` may wait beside
users. -/
def SeparatedBut (s : ServerState) (wid d : Nat) : Prop :=
  (∀ w, w ≠ wid → (s.threadlocal_pool w).Separated) ∧
    ((s.threadlocal_pool wid).u_root = [] ∨ (s.threadlocal_pool wid).d_root.erase d = [])

variable {s : ServerState}

theorem Separated.update (hs : s.Separated) {wid : Nat} {box : ThreadBox} (hb : box.Separated) :
    ∀ w, (Function.update s.threadlocal_pool wid box w).Separated := by
  intro w
  by_cases hw : w = wid
  · subst hw
    rw [Function.update_self]
    exact hb
  · rw [Function.update_of_ne hw]
    exact hs w

theorem Separated.separatedBut (hs : s.Separated) (wid d : Nat) : s.SeparatedBut wid d := by
  refine ⟨fun w _ => hs w, ?_⟩
  rcases hs wid with h | h
  · exact Or.inl h
  · right
    simp [h]

/-- Taking `d` off its worker's list ends the exception. -/
theorem SeparatedBut.removeD {wid d : Nat} (hs : s.SeparatedBut wid d) :
    ∀ w, (Function.update s.threadlocal_pool wid
      (reverseserverRemoveConnectionD (s.threadlocal_pool wid) d) w).Separated := by
  intro w
  by_cases hw : w = wid
  · subst hw
    rw [Function.update_self]
    rcases hs.2 with h | h
    · exact Or.inl h
    · exact Or.inr h
  · rw [Function.update_of_ne hw]
    exact hs.1 w hw

/-- Taking `d` and a user off its worker's lists ends the exception. -/
theorem SeparatedBut.removeDU {wid d : Nat} (hs : s.SeparatedBut wid d) (u : Nat) :
    ∀ w, (Function.update s.threadlocal_pool wid
      (reverseserverRemoveConnectionU
        (reverseserverRemoveConnectionD (s.threadlocal_pool wid) d) u) w).Separated := by
  intro w
  have h := hs.removeD w
  by_cases hw : w = wid
  · subst hw
    rw [Function.update_self] at h ⊢
    exact h.removeU u
  · rwa [Function.update_of_ne hw] at h ⊢

/-- With no user waiting on `wid`, the exception is no exception. -/
theorem SeparatedBut.separated {wid d : Nat} (hs : s.SeparatedBut wid d)
    (hu : (s.threadlocal_pool wid).u_root = []) : s.Separated := by
  intro w
  by_cases hw : w = wid
  · subst hw
    exact Or.inl hu
  · exact hs.1 w hw

end ServerState

open ServerState

section Handlers

variable {s : ServerState}

theorem handleUnpairedConnectionU_separated (hs : s.Separated) (u wid : Nat) (uls : LineState)
    (buf : List UInt8) : (handleUnpairedConnectionU s u wid uls buf).Separated := by
  have hb := hs wid
  unfold handleUnpairedConnectionU
  dsimp only
  split
  · -- dropped for buffering too much: the line leaves the user list
    apply hs.update
    split
    · exact hb.removeU u
    · exact hb
  · split
    · rename_i d rest hd
      exact hs.update (hb.pairU _ hd)
    · rename_i hd
      exact hs.update (ThreadBox.Separated.waitU _ hd)

/-- The handshake leaves the tunnel separated except for `d` on its worker. -/
theorem processHandshakeD_separatedBut (hs : s.Separated) {d wid : Nat} {dls : LineState}
    {buf : List UInt8} {s' : ServerState} {dls' : LineState}
    (h : processHandshakeD s d wid dls buf = .inr (s', dls')) : s'.SeparatedBut wid d := by
  rcases processHandshakeD_threadlocal_pool.2 s' dls' h with hpool | hpool
  · have := hs.separatedBut wid d
    unfold SeparatedBut at this ⊢
    rwa [hpool]
  · unfold SeparatedBut
    rw [hpool]
    refine ⟨fun w hw => by rw [Function.update_of_ne hw]; exact hs w, ?_⟩
    rw [Function.update_self]
    -- the line joins a list that was empty, or a worker with no user waiting
    rcases hs wid with h | h
    · exact Or.inl h
    · right
      simp [reverseserverAddConnectionD, h]

theorem handleUnpairedConnectionD_separated (hs : s.Separated) (d wid : Nat) (dls : LineState)
    (buf : List UInt8) : (handleUnpairedConnectionD s d wid dls buf).Separated := by
  have hb := hs wid
  unfold handleUnpairedConnectionD
  dsimp only
  split
  · -- dropped for buffering too much: the line leaves the list
    split
    · exact hs.update (hb.removeD d)
    · exact hs
  · split
    · rename_i s₁ h₁
      intro w
      rw [processHandshakeD_threadlocal_pool.1 s₁ h₁]
      exact hs w
    · rename_i s₁ dls₁ h₁
      have hbut := processHandshakeD_separatedBut hs h₁
      split
      · -- paired on the worker
        rename_i s₂ h₂
        obtain ⟨u, hpool⟩ := pairWithLocalUpstreamConnection_threadlocal_pool.2 h₂
        intro w
        rw [hpool]
        exact hbut.removeDU u w
      · rename_i h₂
        have hu := (@pairWithLocalUpstreamConnection_threadlocal_pool s₁ s₁ _ _ _).1 h₂
        split
        · -- piped to another worker
          rename_i s₃ h₃
          intro w
          rw [tryPairWithRemoteUpstreamConnection_threadlocal_pool h₃]
          exact hbut.removeD w
        · exact hbut.separated hu

theorem reverseserverTunnelDownStreamPayload_separated (hs : s.Separated) (u : Nat)
    (buf : List UInt8) : (reverseserverTunnelDownStreamPayload s u buf).Separated := by
  unfold reverseserverTunnelDownStreamPayload
  split
  · exact hs
  · split
    · split <;> exact hs
    · exact handleUnpairedConnectionU_separated hs _ _ _ _

theorem reverseserverTunnelUpStreamPayload_separated (hs : s.Separated) (d : Nat)
    (buf : List UInt8) : (reverseserverTunnelUpStreamPayload s d buf).Separated := by
  unfold reverseserverTunnelUpStreamPayload
  split
  · exact hs
  · split
    · split <;> exact hs
    · exact handleUnpairedConnectionD_separated hs _ _ _ _

theorem reverseserverTunnelUpStreamFinish_separated (hs : s.Separated) (d : Nat) :
    (reverseserverTunnelUpStreamFinish s d).Separated := by
  unfold reverseserverTunnelUpStreamFinish
  split
  · exact hs
  · rename_i line _
    split
    · split <;> exact hs
    · dsimp only
      split
      · exact hs.update ((hs line.wid).removeD d)
      · exact hs

theorem reverseserverTunnelDownStreamFinish_separated (hs : s.Separated) (u : Nat) :
    (reverseserverTunnelDownStreamFinish s u).Separated := by
  unfold reverseserverTunnelDownStreamFinish
  split
  · exact hs
  · rename_i line _
    split
    · exact hs
    · dsimp only
      split
      · exact hs.update ((hs line.wid).removeU u)
      · exact hs

/-- **Every line event keeps every worker separated.** -/
theorem reverseserverStep_separated (hs : s.Separated) (e : Event) :
    (reverseserverStep s e).Separated := by
  unfold reverseserverStep
  split
  · -- a piped line's event is only carried on
    exact hs
  · cases e with
    | upStreamInit d wid => exact hs
    | upStreamPayload d buf => exact reverseserverTunnelUpStreamPayload_separated hs d buf
    | upStreamFinish d => exact reverseserverTunnelUpStreamFinish_separated hs d
    | downStreamInit u wid => exact hs
    | downStreamPayload u buf => exact reverseserverTunnelDownStreamPayload_separated hs u buf
    | downStreamFinish u => exact reverseserverTunnelDownStreamFinish_separated hs u

theorem reverseserverDeliver_separated (hs : s.Separated) :
    (reverseserverDeliver s).Separated := by
  unfold reverseserverDeliver
  split
  · exact hs
  · rename_i e rest _
    have hs' : ServerState.Separated { s with pending := rest } := hs
    exact reverseserverStep_separated hs' e

end Handlers

theorem reverseserverInit_separated (handshake_bytes : List UInt8) (workers : Nat) :
    (reverseserverInit handshake_bytes workers).Separated :=
  fun _ => Or.inl rfl

/-! ## Reachable states -/

theorem Reachable.run {handshake_bytes : List UInt8} {workers : Nat} {s : ServerState}
    (hs : Reachable handshake_bytes workers s) :
    ∀ events, Reachable handshake_bytes workers (reverseserverRun s events)
  | [] => hs
  | e :: events => (hs.step e).run events

/-- **In every reachable state, on every worker, no user waits beside a waiting reverse
client.** -/
theorem Reachable.separated {handshake_bytes : List UInt8} {workers : Nat} {s : ServerState}
    (hs : Reachable handshake_bytes workers s) (wid : Nat) :
    (s.threadlocal_pool wid).u_root = [] ∨ (s.threadlocal_pool wid).d_root = [] := by
  have hsep : s.Separated := by
    induction hs with
    | init => exact reverseserverInit_separated _ _
    | step e _ ih => exact reverseserverStep_separated ih e
    | deliver _ ih => exact reverseserverDeliver_separated ih
  exact hsep wid

/-! ## Across workers a user can wait next to an idle reverse client -/

/-- **A user line's bytes never reach another worker.**  They change no list but their own
worker's, and queue nothing for a pipe. -/
theorem reverseserverTunnelDownStreamPayload_frame (s : ServerState) (u : Nat)
    (buf : List UInt8) :
    (reverseserverTunnelDownStreamPayload s u buf).pending = s.pending ∧
      ∀ w, (s.lines u).map Line.wid ≠ some w →
        (reverseserverTunnelDownStreamPayload s u buf).threadlocal_pool w =
          s.threadlocal_pool w := by
  unfold reverseserverTunnelDownStreamPayload
  split
  · exact ⟨rfl, fun _ _ => rfl⟩
  · rename_i line hline
    split
    · split <;> exact ⟨rfl, fun _ _ => rfl⟩
    · have hframe : ∀ w, w ≠ line.wid → ∀ box : ThreadBox,
          Function.update s.threadlocal_pool line.wid box w = s.threadlocal_pool w :=
        fun w hw _ => Function.update_of_ne hw _ _
      unfold handleUnpairedConnectionU
      dsimp only
      refine ⟨?_, fun w hw => ?_⟩
      · split
        · rfl
        · split <;> rfl
      · have hw' : w ≠ line.wid := fun h => hw (by rw [hline, h]; rfl)
        split
        · exact hframe w hw' _
        · split
          · exact hframe w hw' _
          · exact hframe w hw' _

/-- A reverse client opens line 0 on worker 0 and sends the handshake `REV`; a user then opens
line 1 on worker 1 and sends `GET`. -/
def strandedRun : ServerState :=
  reverseserverRun (reverseserverInit [82, 69, 86] 2)
    [.upStreamInit 0 0, .upStreamPayload 0 [82, 69, 86], .downStreamInit 1 1,
      .downStreamPayload 1 [71, 69, 84]]

/-- **The user side never looks at other workers.**  After the run of `strandedRun`, with no
event pending, the user line waits with its bytes on worker 1 while the handshaked reverse-client
line waits, with nothing to send, on worker 0. -/
theorem reverseserver_userStranded :
    Reachable [82, 69, 86] 2 strandedRun ∧ strandedRun.pending = [] ∧
      ¬((∀ wid, (strandedRun.threadlocal_pool wid).u_root = []) ∨
        ∀ wid, (strandedRun.threadlocal_pool wid).d_root = []) ∧
      strandedRun.threadlocal_pool 0 = ⟨[], [0]⟩ ∧ strandedRun.threadlocal_pool 1 = ⟨[1], []⟩ ∧
      strandedRun.lines 0 = some ⟨0, ⟨none, some 0, none, false, true⟩⟩ ∧
      strandedRun.lines 1 = some ⟨1, ⟨some 1, none, some [71, 69, 84], false, true⟩⟩ := by
  have hpool₀ : strandedRun.threadlocal_pool 0 = ⟨[], [0]⟩ := by decide
  have hpool₁ : strandedRun.threadlocal_pool 1 = ⟨[1], []⟩ := by decide
  refine ⟨Reachable.init.run _, by decide, ?_, hpool₀, hpool₁, by decide, by decide⟩
  -- worker 1 has a user waiting and worker 0 a reverse client
  rintro (hu | hd)
  · have := hu 1
    rw [hpool₁] at this
    cases this
  · have := hd 0
    rw [hpool₀] at this
    cases this

end ReverseServer
end WaterWall
