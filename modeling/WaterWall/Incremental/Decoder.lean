import Mathlib

/-!
# Incremental decoders over chunked input

A receiver that reads a framed byte stream sees it in pieces, as the transport delivers them, and
after each piece decodes whatever has become complete, keeping the rest buffered.  This file is
about that pattern, with nothing of any particular wire format in it.

* `Decoder σ α β` is one step of such a receiver: in state `s`, looking at the input buffered so
  far, it waits (`none`) or consumes a non-empty prefix of the buffer, emits some outputs and
  moves to a new state.  The structure carries that the prefix is non-empty and fits in the
  buffer, so every decoder terminates.
* `Decoder.drain` runs the step until it waits; `Decoder.feed` delivers a list of chunks, draining
  after each one, which is what every receiver loop in the repository does.
* `Decoder.Parses s segs t`: an input is *honest*, the concatenation of segments each of which the
  decoder consumes whole, whatever follows, and none of whose proper prefixes it consumes.

`Decoder.feed_of_parses`: an honest input is decoded the same way however it is cut into chunks.
Its invariant, `Decoder.drain_of_prefix` (after any chunk the receiver holds back a proper prefix
of one segment), is what receivers with an overflow guard between chunks use directly.
-/

set_option autoImplicit false

namespace Incremental

/-- One step of an incremental decoder, together with its progress guarantee: whenever it does
not wait it consumes at least one item, and no more than are buffered. -/
structure Decoder (σ α β : Type) where
  /-- Wait (`none`), or consume `n` items emitting `out` and moving to `s'`. -/
  step : σ → List α → Option (σ × List β × Nat)
  /-- A step consumes a non-empty part of what is buffered. -/
  consumes : ∀ {s : σ} {xs : List α} {s' : σ} {out : List β} {n : Nat},
    step s xs = some (s', out, n) → 0 < n ∧ n ≤ xs.length

namespace Decoder

variable {σ α β : Type} (D : Decoder σ α β)

/-- Step until the decoder waits.  Returns the final state, everything emitted, and what is left
buffered. -/
def drain (s : σ) (xs : List α) : σ × List β × List α :=
  match h : D.step s xs with
  | none => (s, [], xs)
  | some (s', out, n) =>
    let r := drain s' (xs.drop n)
    (r.1, out ++ r.2.1, r.2.2)
termination_by xs.length
decreasing_by
  have := D.consumes h
  simp only [List.length_drop]
  omega

/-- Deliver chunks one at a time, draining after each. -/
def feed : σ → List α → List (List α) → σ × List β × List α
  | s, buf, [] => (s, [], buf)
  | s, buf, c :: cs =>
    let r := D.drain s (buf ++ c)
    let r' := feed r.1 r.2.2 cs
    (r'.1, r.2.1 ++ r'.2.1, r'.2.2)

theorem step_nil (s : σ) : D.step s [] = none := by
  cases h : D.step s [] with
  | none => rfl
  | some r =>
    obtain ⟨s', out, n⟩ := r
    have := D.consumes h
    simp at this
    omega

theorem drain_of_step_none {s : σ} {xs : List α} (h : D.step s xs = none) :
    D.drain s xs = (s, [], xs) := by
  rw [drain]
  split
  · rfl
  · rename_i h'; rw [h] at h'; cases h'

theorem drain_of_step_some {s s' : σ} {xs : List α} {out : List β} {n : Nat}
    (h : D.step s xs = some (s', out, n)) :
    D.drain s xs = ((D.drain s' (xs.drop n)).1, out ++ (D.drain s' (xs.drop n)).2.1,
      (D.drain s' (xs.drop n)).2.2) := by
  rw [drain]
  split
  · rename_i h'; rw [h] at h'; cases h'
  · rename_i s₂ out₂ n₂ h'
    rw [h] at h'
    cases h'
    rfl

/-- A step that emits nothing (a skip) is invisible to the drain. -/
theorem drain_of_step_silent {s s' : σ} {xs : List α} {n : Nat}
    (h : D.step s xs = some (s', [], n)) : D.drain s xs = D.drain s' (xs.drop n) := by
  rw [D.drain_of_step_some h, List.nil_append]

@[simp] theorem drain_nil (s : σ) : D.drain s [] = (s, [], []) :=
  D.drain_of_step_none (D.step_nil s)

@[simp] theorem feed_nil (s : σ) (buf : List α) : D.feed s buf [] = (s, [], buf) := rfl

theorem feed_cons (s : σ) (buf c : List α) (cs : List (List α)) :
    D.feed s buf (c :: cs) =
      ((D.feed (D.drain s (buf ++ c)).1 (D.drain s (buf ++ c)).2.2 cs).1,
        (D.drain s (buf ++ c)).2.1 ++ (D.feed (D.drain s (buf ++ c)).1 (D.drain s (buf ++ c)).2.2 cs).2.1,
        (D.feed (D.drain s (buf ++ c)).1 (D.drain s (buf ++ c)).2.2 cs).2.2) := rfl

theorem drain_rest_suffix (s : σ) (xs : List α) : (D.drain s xs).2.2 <:+ xs := by
  induction h : xs.length using Nat.strong_induction_on generalizing s xs with
  | _ n ih =>
    cases hs : D.step s xs with
    | none => rw [D.drain_of_step_none hs]
    | some r =>
      obtain ⟨s', out, k⟩ := r
      have hk := D.consumes hs
      rw [D.drain_of_step_some hs]
      exact (ih _ (by simp only [List.length_drop]; omega) s' _ rfl).trans (List.drop_suffix k xs)

theorem length_drain_rest_le (s : σ) (xs : List α) : (D.drain s xs).2.2.length ≤ xs.length :=
  (D.drain_rest_suffix s xs).length_le

/-! ## Honest inputs -/

/-- The input an honest trace is made of. -/
def input (segs : List (List α × List β)) : List α := (segs.map Prod.fst).flatten

/-- What an honest trace emits. -/
def output (segs : List (List α × List β)) : List β := (segs.map Prod.snd).flatten

@[simp] theorem input_nil : input ([] : List (List α × List β)) = [] := rfl

@[simp] theorem input_cons (seg : List α) (out : List β) (segs : List (List α × List β)) :
    input ((seg, out) :: segs) = seg ++ input segs := rfl

@[simp] theorem output_nil : output ([] : List (List α × List β)) = [] := rfl

@[simp] theorem output_cons (seg : List α) (out : List β) (segs : List (List α × List β)) :
    output ((seg, out) :: segs) = out ++ output segs := rfl

@[simp] theorem input_append (segs segs' : List (List α × List β)) :
    input (segs ++ segs') = input segs ++ input segs' := by
  simp [input]

/-- The trace of a decoder that emits one output per segment. -/
theorem output_map_singleton {γ : Type} (f : γ → List α) (g : γ → β) (xs : List γ) :
    output (xs.map fun x => (f x, [g x])) = xs.map g := by
  induction xs with
  | nil => rfl
  | cons x xs ih => rw [List.map_cons, output_cons, ih]; rfl

theorem input_map {γ : Type} (f : γ → List α) (g : γ → List β) (xs : List γ) :
    input (xs.map fun x => (f x, g x)) = (xs.map f).flatten := by
  simp [input, Function.comp_def]

@[simp] theorem output_append (segs segs' : List (List α × List β)) :
    output (segs ++ segs') = output segs ++ output segs' := by
  simp [output]

/-- `D.Parses s segs t`: from state `s`, the input `input segs` is decoded segment by segment,
ending in state `t`.  Each segment is consumed whole whatever follows it, emitting its outputs,
and while only a proper prefix of it is buffered the decoder waits. -/
inductive Parses : σ → List (List α × List β) → σ → Prop
  | nil (s : σ) : Parses s [] s
  | cons {s s₁ t : σ} {seg : List α} {out : List β} {rest : List (List α × List β)} :
      (∀ ys, D.step s (seg ++ ys) = some (s₁, out, seg.length)) →
      (∀ p, p <+: seg → p.length < seg.length → D.step s p = none) →
      Parses s₁ rest t → Parses s ((seg, out) :: rest) t

/-- What a receiver holds back in the middle of an honest trace: a proper prefix of the next
segment, and nothing once the trace is exhausted. -/
def Partial (p : List α) : List (List α × List β) → Prop
  | [] => p = []
  | (seg, _) :: _ => p <+: seg ∧ p.length < seg.length

variable {D}

theorem Parses.append {s m t : σ} {segs segs' : List (List α × List β)}
    (h : D.Parses s segs m) (h' : D.Parses m segs' t) : D.Parses s (segs ++ segs') t := by
  induction h with
  | nil => exact h'
  | cons hstep hwait _ ih => exact Parses.cons hstep hwait (ih h')

theorem Parses.seg_length_pos {s t : σ} {seg : List α} {out : List β}
    {rest : List (List α × List β)} (h : D.Parses s ((seg, out) :: rest) t) : 0 < seg.length := by
  cases h with
  | cons hstep _ _ =>
    have := D.consumes (hstep [])
    omega

theorem partial_nil_of_parses {s t : σ} {segs : List (List α × List β)}
    (h : D.Parses s segs t) : Partial ([] : List α) segs := by
  cases segs with
  | nil => rfl
  | cons hd rest =>
    obtain ⟨seg, out⟩ := hd
    exact ⟨List.nil_prefix, h.seg_length_pos⟩

/-- **Draining any prefix of an honest input.**  The complete segments at its front are decoded,
and what is left buffered is a proper prefix of the next one. -/
theorem drain_of_prefix {s t : σ} {segs : List (List α × List β)} (h : D.Parses s segs t)
    {xs : List α} (hxs : xs <+: input segs) :
    ∃ done rest m p, segs = done ++ rest ∧ D.Parses s done m ∧ D.Parses m rest t ∧
      xs = input done ++ p ∧ Partial p rest ∧ D.drain s xs = (m, output done, p) := by
  induction h generalizing xs with
  | nil s =>
    have hxs' : xs = [] := List.prefix_nil.mp hxs
    subst hxs'
    exact ⟨[], [], s, [], rfl, .nil s, .nil s, rfl, rfl, D.drain_nil s⟩
  | @cons s s₁ t seg out rest hstep hwait hrest ih =>
    rw [input_cons] at hxs
    by_cases hlt : xs.length < seg.length
    · -- still inside the first segment: the decoder waits
      have hpre : xs <+: seg :=
        List.prefix_of_prefix_length_le hxs (List.prefix_append seg _) hlt.le
      refine ⟨[], (seg, out) :: rest, s, xs, rfl, .nil s, .cons hstep hwait hrest, rfl,
        ⟨hpre, hlt⟩, ?_⟩
      exact D.drain_of_step_none (hwait xs hpre hlt)
    · -- the first segment is complete: it is consumed, and the rest is a prefix of what follows
      have hseg : seg <+: xs :=
        List.prefix_of_prefix_length_le (List.prefix_append seg _) hxs (Nat.le_of_not_lt hlt)
      obtain ⟨xs', rfl⟩ := hseg
      have hxs' : xs' <+: input rest := (List.prefix_append_right_inj seg).mp hxs
      obtain ⟨done, rest', m, p, hsplit, hdone, hrest', hxp, hp, hdrain⟩ := ih hxs'
      refine ⟨(seg, out) :: done, rest', m, p, by rw [hsplit]; rfl,
        .cons hstep hwait hdone, hrest', by rw [hxp, input_cons, List.append_assoc], hp, ?_⟩
      rw [D.drain_of_step_some (hstep xs'), List.drop_left, hdrain, output_cons]

/-- A receiver in the middle of an honest trace, fed the rest of it in any chunks, decodes the
rest of the trace and ends with nothing buffered. -/
theorem feed_of_partial {s t : σ} {segs : List (List α × List β)} (h : D.Parses s segs t)
    {buf : List α} (hbuf : Partial buf segs) {cs : List (List α)}
    (hcs : buf ++ cs.flatten = input segs) :
    D.feed s buf cs = (t, output segs, []) := by
  induction cs generalizing s segs buf with
  | nil =>
    rw [List.flatten_nil, List.append_nil] at hcs
    subst hcs
    cases segs with
    | nil => cases h; rfl
    | cons hd rest =>
      obtain ⟨seg, out⟩ := hd
      have hlen := hbuf.2
      simp only [input_cons, List.length_append] at hlen
      omega
  | cons c cs ih =>
    have hpre : buf ++ c <+: input segs := ⟨cs.flatten, by rw [← hcs]; simp⟩
    obtain ⟨done, rest, m, p, rfl, hdone, hrest, hxp, hp, hdrain⟩ := drain_of_prefix h hpre
    have hcs' : p ++ cs.flatten = input rest := by
      have h2 : input done ++ (p ++ cs.flatten) = input done ++ input rest := by
        rw [← List.append_assoc, ← hxp, ← input_append, ← hcs]
        simp
      exact List.append_cancel_left h2
    rw [feed_cons, hdrain]
    simp only
    rw [ih hrest hp hcs', output_append]

/-- **An honest input decodes the same way however it is chunked.**  Fed from an empty buffer in
any chunks whose concatenation is the input, the decoder emits exactly the trace's outputs, ends in
the trace's final state, and holds nothing back. -/
theorem feed_of_parses {s t : σ} {segs : List (List α × List β)} (h : D.Parses s segs t)
    {cs : List (List α)} (hcs : cs.flatten = input segs) :
    D.feed s [] cs = (t, output segs, []) :=
  feed_of_partial h (partial_nil_of_parses h) (by rw [List.nil_append, hcs])

/-! ## Decoding that stops

A receiver may stop decoding for good at some point of the stream, at the end of a message body
say.  What follows is never decoded: it stays buffered, or the receiver discards it. -/

/-- A state in which the decoder waits whatever is buffered. -/
def Stuck (D : Decoder σ α β) (t : σ) : Prop := ∀ xs, D.step t xs = none

theorem drain_of_stuck {t : σ} (ht : D.Stuck t) (xs : List α) : D.drain t xs = (t, [], xs) :=
  D.drain_of_step_none (ht xs)

theorem feed_of_stuck {t : σ} (ht : D.Stuck t) (buf : List α) (cs : List (List α)) :
    D.feed t buf cs = (t, [], buf ++ cs.flatten) := by
  induction cs generalizing buf with
  | nil => simp
  | cons c cs ih =>
    rw [feed_cons, drain_of_stuck ht]
    simp only
    rw [ih, List.flatten_cons, List.append_assoc]
    rfl

/-- An honest input that ends in a stuck state, followed by anything, drains to the trace's
outputs and leaves what follows. -/
theorem drain_input_append {s t : σ} {segs : List (List α × List β)} (h : D.Parses s segs t)
    (ht : D.Stuck t) (ys : List α) : D.drain s (input segs ++ ys) = (t, output segs, ys) := by
  induction h with
  | nil s => exact drain_of_stuck ht ys
  | @cons s s₁ t seg out rest hstep hwait hrest ih =>
    rw [input_cons, List.append_assoc, D.drain_of_step_some (hstep _), List.drop_left, ih ht,
      output_cons]

/-- Draining an honest input followed by anything decodes the input's segments, then drains what
follows from the trace's final state. -/
theorem drain_input_append_of_parses {s t : σ} {segs : List (List α × List β)}
    (h : D.Parses s segs t) (ys : List α) :
    D.drain s (input segs ++ ys) =
      ((D.drain t ys).1, output segs ++ (D.drain t ys).2.1, (D.drain t ys).2.2) := by
  induction h with
  | nil s => rfl
  | @cons s s₁ t seg out rest hstep hwait hrest ih =>
    rw [input_cons, List.append_assoc, D.drain_of_step_some (hstep _), List.drop_left, ih,
      output_cons, List.append_assoc]

theorem feed_of_partial_append {s t : σ} {segs : List (List α × List β)} (h : D.Parses s segs t)
    (ht : D.Stuck t) {buf : List α} (hbuf : Partial buf segs) {cs : List (List α)}
    {rest : List α} (hcs : buf ++ cs.flatten = input segs ++ rest) :
    D.feed s buf cs = (t, output segs, rest) := by
  induction cs generalizing s segs buf with
  | nil =>
    rw [List.flatten_nil, List.append_nil] at hcs
    cases segs with
    | nil =>
      cases h
      rw [input_nil, List.nil_append] at hcs
      rw [feed_nil, hcs, output_nil]
    | cons hd segs =>
      -- a proper prefix of the first segment cannot hold all of it
      obtain ⟨seg, out⟩ := hd
      have hlen := congrArg List.length hcs
      have hshort := hbuf.2
      simp only [input_cons, List.length_append] at hlen
      omega
  | cons c cs ih =>
    have hpre : buf ++ c <+: input segs ++ rest := ⟨cs.flatten, by rw [← hcs]; simp⟩
    rcases List.prefix_or_prefix_of_prefix hpre (List.prefix_append _ _) with hin | hout
    · -- the chunk ends inside the honest input
      obtain ⟨done, rest', m, p, rfl, hdone, hrest, hxp, hp, hdrain⟩ := drain_of_prefix h hin
      have hcs' : p ++ cs.flatten = input rest' ++ rest := by
        have h2 : input done ++ (p ++ cs.flatten) = input done ++ (input rest' ++ rest) := by
          rw [← List.append_assoc, ← hxp, ← List.append_assoc, ← input_append, ← hcs]
          simp
        exact List.append_cancel_left h2
      rw [feed_cons, hdrain]
      simp only
      rw [ih hrest hp hcs', output_append]
    · -- the honest input ends inside this chunk: the decoder is stuck from there on
      obtain ⟨ys, hys⟩ := hout
      have hrest : ys ++ cs.flatten = rest := by
        have h2 : input segs ++ (ys ++ cs.flatten) = input segs ++ rest := by
          rw [← List.append_assoc, hys, ← hcs]
          simp
        exact List.append_cancel_left h2
      rw [feed_cons, ← hys, drain_input_append h ht, feed_of_stuck ht]
      simp only
      rw [hrest, List.append_nil]

/-- **Honest input, then anything.**  Fed in any chunks an honest input that ends in a stuck state,
followed by any bytes at all, the decoder emits exactly the trace's outputs and leaves what follows
undecoded. -/
theorem feed_of_parses_append {s t : σ} {segs : List (List α × List β)} (h : D.Parses s segs t)
    (ht : D.Stuck t) {cs : List (List α)} {rest : List α} (hcs : cs.flatten = input segs ++ rest) :
    D.feed s [] cs = (t, output segs, rest) :=
  feed_of_partial_append h ht (partial_nil_of_parses h) (by rw [List.nil_append, hcs])

/-! ## Receivers with an overflow guard

A receiver may refuse to hold more than a fixed number of items: when a chunk would leave more
than `limit` items buffered, it discards everything buffered instead of decoding it.  On an honest
input whose segments are at most `M` long, what a receiver holds back between chunks is shorter
than one segment, so the guard never fires while every chunk is at most `limit - M` long
(`feedGuarded_of_parses`). -/

variable (D) in
/-- `feed` behind an overflow guard of `limit` items. -/
def feedGuarded (limit : Nat) : σ → List α → List (List α) → σ × List β × List α
  | s, buf, [] => (s, [], buf)
  | s, buf, c :: cs =>
    if limit < (buf ++ c).length then feedGuarded limit s [] cs
    else
      let r := D.drain s (buf ++ c)
      let r' := feedGuarded limit r.1 r.2.2 cs
      (r'.1, r.2.1 ++ r'.2.1, r'.2.2)

theorem feedGuarded_cons_of_lt {limit : Nat} {s : σ} {buf c : List α} {cs : List (List α)}
    (h : limit < (buf ++ c).length) :
    D.feedGuarded limit s buf (c :: cs) = D.feedGuarded limit s [] cs := by
  rw [feedGuarded, if_pos h]

theorem feedGuarded_cons_of_le {limit : Nat} {s : σ} {buf c : List α} {cs : List (List α)}
    (h : (buf ++ c).length ≤ limit) :
    D.feedGuarded limit s buf (c :: cs) =
      let r := D.drain s (buf ++ c)
      let r' := D.feedGuarded limit r.1 r.2.2 cs
      (r'.1, r.2.1 ++ r'.2.1, r'.2.2) := by
  rw [feedGuarded, if_neg (Nat.not_lt_of_le h)]

/-- What a receiver holds back in an honest trace is no longer than a segment. -/
theorem Partial.length_le {p : List α} {segs : List (List α × List β)} (hp : Partial p segs)
    {M : Nat} (hM : ∀ seg ∈ segs, seg.1.length ≤ M) : p.length ≤ M := by
  cases segs with
  | nil =>
    rw [show p = [] from hp]
    exact Nat.zero_le M
  | cons seg rest =>
    have hseg := hM seg List.mem_cons_self
    have hlt := hp.2
    omega

theorem feedGuarded_of_partial {s t : σ} {segs : List (List α × List β)} (h : D.Parses s segs t)
    {buf : List α} (hbuf : Partial buf segs) {cs : List (List α)}
    (hcs : buf ++ cs.flatten = input segs) {limit M : Nat}
    (hM : ∀ seg ∈ segs, seg.1.length ≤ M) (hc : ∀ c ∈ cs, M + c.length ≤ limit) :
    D.feedGuarded limit s buf cs = (t, output segs, []) := by
  induction cs generalizing s segs buf with
  | nil =>
    have hfeed := feed_of_partial h hbuf hcs
    rw [feed_nil] at hfeed
    rw [feedGuarded, hfeed]
  | cons c cs ih =>
    -- the guard does not fire: a proper prefix of a segment, then one chunk
    have hle : (buf ++ c).length ≤ limit := by
      have hb := hbuf.length_le hM
      have hcl := hc c List.mem_cons_self
      rw [List.length_append]
      omega
    have hpre : buf ++ c <+: input segs := ⟨cs.flatten, by rw [← hcs]; simp⟩
    obtain ⟨done, rest, m, p, rfl, hdone, hrest, hxp, hp, hdrain⟩ := drain_of_prefix h hpre
    have hcs' : p ++ cs.flatten = input rest := by
      have h2 : input done ++ (p ++ cs.flatten) = input done ++ input rest := by
        rw [← List.append_assoc, ← hxp, ← input_append, ← hcs]
        simp
      exact List.append_cancel_left h2
    have hM' : ∀ seg ∈ rest, seg.1.length ≤ M :=
      fun seg hseg => hM seg (List.mem_append_right done hseg)
    rw [feedGuarded_cons_of_le hle, hdrain]
    simp only
    rw [ih hrest hp hcs' hM' (fun c' hc' => hc c' (List.mem_cons_of_mem c hc')), output_append]

/-- **The guard never fires on honest input cut into short enough chunks**: fed from an empty
buffer in chunks of at most `limit - M` items, an honest input whose segments are at most `M`
long is decoded as `feed` decodes it. -/
theorem feedGuarded_of_parses {s t : σ} {segs : List (List α × List β)} (h : D.Parses s segs t)
    {cs : List (List α)} (hcs : cs.flatten = input segs) {limit M : Nat}
    (hM : ∀ seg ∈ segs, seg.1.length ≤ M) (hc : ∀ c ∈ cs, M + c.length ≤ limit) :
    D.feedGuarded limit s [] cs = (t, output segs, []) :=
  feedGuarded_of_partial h (partial_nil_of_parses h) (by rw [List.nil_append, hcs]) hM hc

/-! ## Where the outputs come from

Whatever the input, everything a receiver emits was emitted by a step on a piece of it, and the
pieces it has consumed lie back to back at the front of what it was given (`feed_trace`).  An
invariant of the steps is then an invariant of everything emitted, with no honesty asked of the
input. -/

variable (D) in
/-- `D.Trace s segs t`: from `s`, steps of `D` consume the segments one after the other, each
emitting its outputs, and end in `t`.  A step saw its segment and possibly more behind it. -/
inductive Trace : σ → List (List α × List β) → σ → Prop
  | nil (s : σ) : Trace s [] s
  | cons {s s₁ t : σ} {seg : List α} {out : List β} {rest : List (List α × List β)}
      (ys : List α) : D.step s (seg ++ ys) = some (s₁, out, seg.length) → Trace s₁ rest t →
      Trace s ((seg, out) :: rest) t

theorem Trace.append {s m t : σ} {segs segs' : List (List α × List β)} (h : D.Trace s segs m)
    (h' : D.Trace m segs' t) : D.Trace s (segs ++ segs') t := by
  induction h with
  | nil => exact h'
  | cons ys hstep _ ih => exact .cons ys hstep (ih h')

/-- A drain is a trace: what it emits comes from the pieces it consumed off the front. -/
theorem drain_trace (s : σ) (xs : List α) :
    ∃ segs, D.Trace s segs (D.drain s xs).1 ∧ xs = input segs ++ (D.drain s xs).2.2 ∧
      (D.drain s xs).2.1 = output segs := by
  induction h : xs.length using Nat.strong_induction_on generalizing s xs with
  | _ len ih =>
    cases hs : D.step s xs with
    | none =>
      rw [D.drain_of_step_none hs]
      exact ⟨[], .nil s, rfl, rfl⟩
    | some r =>
      obtain ⟨s', out, n⟩ := r
      have hn := D.consumes hs
      obtain ⟨segs, htr, hin, hout⟩ := ih _ (by rw [List.length_drop]; omega) s' (xs.drop n) rfl
      have htake : (xs.take n).length = n := by rw [List.length_take]; omega
      -- the step's piece is the first segment
      have hstep : D.step s (xs.take n ++ xs.drop n) = some (s', out, (xs.take n).length) := by
        rw [List.take_append_drop, htake, hs]
      refine ⟨(xs.take n, out) :: segs, .cons (xs.drop n) hstep ?_, ?_, ?_⟩
      · rw [D.drain_of_step_some hs]
        exact htr
      · rw [D.drain_of_step_some hs, input_cons, List.append_assoc, ← hin, List.take_append_drop]
      · rw [D.drain_of_step_some hs, output_cons, ← hout]

theorem step_drain (s : σ) (xs : List α) : D.step (D.drain s xs).1 (D.drain s xs).2.2 = none := by
  induction h : xs.length using Nat.strong_induction_on generalizing s xs with
  | _ len ih =>
    cases hs : D.step s xs with
    | none => rw [D.drain_of_step_none hs]; exact hs
    | some r =>
      obtain ⟨s', out, n⟩ := r
      have hn := D.consumes hs
      rw [D.drain_of_step_some hs]
      exact ih _ (by rw [List.length_drop]; omega) s' (xs.drop n) rfl

/-- **Whatever the chunks, a receiver emits only what steps on pieces of the input emit**, and
the pieces lie back to back at the front of the input, followed by what it holds back. -/
theorem feed_trace (s : σ) (buf : List α) (cs : List (List α)) :
    ∃ segs, D.Trace s segs (D.feed s buf cs).1 ∧
      buf ++ cs.flatten = input segs ++ (D.feed s buf cs).2.2 ∧ (D.feed s buf cs).2.1 = output segs := by
  induction cs generalizing s buf with
  | nil => exact ⟨[], .nil s, by simp, rfl⟩
  | cons c cs ih =>
    obtain ⟨segs₁, htr₁, hin₁, hout₁⟩ := D.drain_trace s (buf ++ c)
    rw [feed_cons]
    dsimp only
    generalize D.drain s (buf ++ c) = r at htr₁ hin₁ hout₁ ⊢
    obtain ⟨segs₂, htr₂, hin₂, hout₂⟩ := ih r.1 r.2.2
    refine ⟨segs₁ ++ segs₂, htr₁.append htr₂, ?_, ?_⟩
    · rw [List.flatten_cons, ← List.append_assoc, hin₁, input_append, List.append_assoc, hin₂,
        List.append_assoc]
    · rw [output_append, hout₁, hout₂]

end Decoder

end Incremental
