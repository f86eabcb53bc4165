import Mathlib

/-!
# Receiver loops that may stop

A control-channel handshake is read by a loop of the same shape as a frame decoder
(`Incremental.Decoder`), with one more way to end: besides waiting for more input, a pass may
reject what it sees and stop for good, the connection closed and whatever was buffered thrown
away.  `Loop σ α β` is one pass of such a loop: in state `s`, looking at the input buffered so far,
it waits, consumes a non-empty prefix and goes on (`Action.next`), or stops (`Action.stop`).

* `Loop.drain` runs the passes until one waits or stops; `Loop.feed` delivers a list of chunks,
  draining after each one and reading nothing once the loop has stopped.
* `Loop.Stable`: a pass that does not wait decides the same on every extension of its input.
  `Loop.drain_append` and `Loop.feed_eq_drain`: a stable loop, fed the same input in any chunks,
  ends exactly as it does on the input delivered at once.
* `Loop.SelfDelimiting`: a pass that consumes `n` items decides the same on those `n` items
  alone, so what follows them is never consumed with them and never changes what they do
  (`Loop.step_take_append`).
-/

set_option autoImplicit false

namespace Incremental

/-- What one pass of a receiver loop does with what is buffered. -/
inductive Action (σ β : Type) where
  /-- Wait for more input, consuming nothing. -/
  | wait
  /-- Consume `n` items, emit `out`, move to `s` and go on. -/
  | next (s : σ) (out : List β) (n : Nat)
  /-- Emit `out`, move to `s` and stop for good, dropping what is buffered. -/
  | stop (s : σ) (out : List β)

/-- One pass of a receiver loop, with its progress guarantee: a pass that goes on consumes at least
one item, and no more than are buffered. -/
structure Loop (σ α β : Type) where
  /-- One pass in state `s` over the buffered input. -/
  step : σ → List α → Action σ β
  /-- A pass that goes on consumes a non-empty part of what is buffered. -/
  consumes : ∀ {s : σ} {xs : List α} {s' : σ} {out : List β} {n : Nat},
    step s xs = .next s' out n → 0 < n ∧ n ≤ xs.length

namespace Loop

variable {σ α β : Type} (L : Loop σ α β)

/-- Run passes until one waits or stops.  Returns the final state, everything emitted, and what is
left buffered: `none` once the loop has stopped. -/
def drain (s : σ) (xs : List α) : σ × List β × Option (List α) :=
  match h : L.step s xs with
  | .wait => (s, [], some xs)
  | .next s' out n =>
    let r := drain s' (xs.drop n)
    (r.1, out ++ r.2.1, r.2.2)
  | .stop s' out => (s', out, none)
termination_by xs.length
decreasing_by
  have := L.consumes h
  simp only [List.length_drop]
  omega

/-- Go on from the end of a run with more input: a stopped run reads nothing more. -/
def resume (r : σ × List β × Option (List α)) (ys : List α) : σ × List β × Option (List α) :=
  match r.2.2 with
  | none => r
  | some rest =>
    let r' := L.drain r.1 (rest ++ ys)
    (r'.1, r.2.1 ++ r'.2.1, r'.2.2)

/-- Deliver chunks one at a time, draining after each, until the loop stops. -/
def feed : σ → List α → List (List α) → σ × List β × Option (List α)
  | s, buf, [] => (s, [], some buf)
  | s, buf, c :: cs =>
    let r := L.drain s (buf ++ c)
    match r.2.2 with
    | none => r
    | some rest =>
      let r' := feed r.1 rest cs
      (r'.1, r.2.1 ++ r'.2.1, r'.2.2)

theorem drain_of_wait {s : σ} {xs : List α} (h : L.step s xs = .wait) :
    L.drain s xs = (s, [], some xs) := by
  rw [drain]
  split <;> simp_all

theorem drain_of_next {s s' : σ} {xs : List α} {out : List β} {n : Nat}
    (h : L.step s xs = .next s' out n) :
    L.drain s xs = ((L.drain s' (xs.drop n)).1, out ++ (L.drain s' (xs.drop n)).2.1,
      (L.drain s' (xs.drop n)).2.2) := by
  rw [drain]
  split
  · simp_all
  · rename_i s₂ out₂ n₂ h'
    rw [h] at h'
    cases h'
    rfl
  · simp_all

theorem drain_of_stop {s s' : σ} {xs : List α} {out : List β} (h : L.step s xs = .stop s' out) :
    L.drain s xs = (s', out, none) := by
  rw [drain]
  split <;> simp_all

@[simp] theorem resume_stopped (s : σ) (out : List β) (ys : List α) :
    L.resume (s, out, none) ys = (s, out, none) := rfl

theorem resume_waiting (s : σ) (out : List β) (rest ys : List α) :
    L.resume (s, out, some rest) ys =
      ((L.drain s (rest ++ ys)).1, out ++ (L.drain s (rest ++ ys)).2.1,
        (L.drain s (rest ++ ys)).2.2) := rfl

/-- A drain that has not stopped ends on a pass that waits. -/
theorem step_drain_of_some (s : σ) (xs : List α) {rest : List α}
    (h : (L.drain s xs).2.2 = some rest) : L.step (L.drain s xs).1 rest = .wait := by
  induction hl : xs.length using Nat.strong_induction_on generalizing s xs with
  | _ len ih =>
    cases hs : L.step s xs with
    | wait =>
      rw [L.drain_of_wait hs] at h ⊢
      cases h
      exact hs
    | next s' out n =>
      have hn := L.consumes hs
      rw [L.drain_of_next hs] at h ⊢
      exact ih _ (by rw [List.length_drop]; omega) s' (xs.drop n) h rfl
    | stop s' out =>
      rw [L.drain_of_stop hs] at h
      cases h

/-- What a drain leaves buffered is what its passes did not consume, a suffix of its input. -/
theorem drain_suffix (s : σ) (xs : List α) {rest : List α} (h : (L.drain s xs).2.2 = some rest) :
    rest <:+ xs := by
  induction hl : xs.length using Nat.strong_induction_on generalizing s xs with
  | _ len ih =>
    cases hs : L.step s xs with
    | wait =>
      rw [L.drain_of_wait hs] at h
      cases h
      exact List.suffix_refl _
    | next s' out n =>
      have hn := L.consumes hs
      rw [L.drain_of_next hs] at h
      exact (ih _ (by rw [List.length_drop]; omega) s' (xs.drop n) h rfl).trans
        (List.drop_suffix n xs)
    | stop s' out =>
      rw [L.drain_of_stop hs] at h
      cases h

/-! ## Stable loops -/

/-- A pass that does not wait decides the same whatever arrives after what it saw. -/
def Stable : Prop :=
  ∀ (s : σ) (xs ys : List α), L.step s xs ≠ .wait → L.step s (xs ++ ys) = L.step s xs

/-- A pass that consumes `n` items decides the same on those items alone. -/
def SelfDelimiting : Prop :=
  ∀ {s : σ} {xs : List α} {s' : σ} {out : List β} {n : Nat},
    L.step s xs = .next s' out n → L.step s (xs.take n) = .next s' out n

variable {L}

/-- **Draining in two parts.**  On a stable loop, draining `xs ++ ys` is draining `xs` and going on
with `ys`. -/
theorem drain_append (hL : L.Stable) (s : σ) (xs ys : List α) :
    L.drain s (xs ++ ys) = L.resume (L.drain s xs) ys := by
  induction hl : xs.length using Nat.strong_induction_on generalizing s xs with
  | _ len ih =>
    cases hs : L.step s xs with
    | wait =>
      rw [L.drain_of_wait hs, resume_waiting, List.nil_append]
    | next s' out n =>
      have hn := L.consumes hs
      -- the pass decides the same on the longer input, and the rest of it is drained after
      have hs' : L.step s (xs ++ ys) = .next s' out n := by
        rw [hL s xs ys (by rw [hs]; nofun)]
        exact hs
      have hdrop : (xs ++ ys).drop n = xs.drop n ++ ys := List.drop_append_of_le_length hn.2
      rw [L.drain_of_next hs', L.drain_of_next hs, hdrop,
        ih _ (by rw [List.length_drop]; omega) s' (xs.drop n) rfl]
      generalize L.drain s' (xs.drop n) = r
      obtain ⟨t, out', rest⟩ := r
      cases rest with
      | none => rfl
      | some rest => simp only [resume_waiting, List.append_assoc]
    | stop s' out =>
      have hs' : L.step s (xs ++ ys) = .stop s' out := by
        rw [hL s xs ys (by rw [hs]; nofun)]
        exact hs
      rw [L.drain_of_stop hs', L.drain_of_stop hs, resume_stopped]

theorem feed_cons (s : σ) (buf c : List α) (cs : List (List α)) :
    L.feed s buf (c :: cs) =
      match (L.drain s (buf ++ c)).2.2 with
      | none => L.drain s (buf ++ c)
      | some rest =>
        ((L.feed (L.drain s (buf ++ c)).1 rest cs).1,
          (L.drain s (buf ++ c)).2.1 ++ (L.feed (L.drain s (buf ++ c)).1 rest cs).2.1,
          (L.feed (L.drain s (buf ++ c)).1 rest cs).2.2) := by
  rfl

/-- **Chunking does not matter.**  From a state waiting on its buffer, a stable loop fed any chunks
ends as it does on the buffer and all the chunks at once. -/
theorem feed_eq_drain (hL : L.Stable) {s : σ} {buf : List α} (hbuf : L.step s buf = .wait)
    (cs : List (List α)) : L.feed s buf cs = L.drain s (buf ++ cs.flatten) := by
  induction cs generalizing s buf with
  | nil => rw [List.flatten_nil, List.append_nil, L.drain_of_wait hbuf]; rfl
  | cons c cs ih =>
    rw [List.flatten_cons, ← List.append_assoc, drain_append hL s (buf ++ c), feed_cons]
    generalize hr : L.drain s (buf ++ c) = r
    obtain ⟨t, out, rest⟩ := r
    cases rest with
    | none => rfl
    | some rest =>
      -- the first chunk's drain waits, so the rest of the chunks go on from where it stopped
      have hwait : L.step t rest = .wait := by
        have := L.step_drain_of_some s (buf ++ c) (show (L.drain s (buf ++ c)).2.2 = some rest by
          rw [hr])
        rwa [hr] at this
      dsimp only
      rw [ih hwait, resume_waiting]

/-- A self-delimiting stable pass that consumes `n` items decides the same on those items followed
by anything at all: nothing after them is consumed with them. -/
theorem step_take_append (hL : L.Stable) (hD : L.SelfDelimiting) {s s' : σ} {xs : List α}
    {out : List β} {n : Nat} (h : L.step s xs = .next s' out n) (ys : List α) :
    L.step s (xs.take n ++ ys) = .next s' out n := by
  have htake := hD h
  rw [hL s (xs.take n) ys (by rw [htake]; nofun), htake]

end Loop

end Incremental
