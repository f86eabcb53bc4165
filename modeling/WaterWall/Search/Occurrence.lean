import Mathlib

/-!
# Searching a sequence kept in pieces

A byte stream held as a queue of buffers is searched by a loop that walks each buffer in turn
and carries its state across the boundaries.  This file is about that pattern, with nothing of
any particular stream in it.

* `firstOccurrence pat xs` is the specification: the first position of `xs` at which `pat`
  starts.  `firstOccurrence_eq_some_iff` and `firstOccurrence_eq_none_iff` say what "first" means.
* `scan step st pos xs` is a resumable loop over one piece: `step` looks at the item at offset
  `pos` and either stops with a result or moves to a new state.  `scanQueue` runs it over a queue
  of pieces, carrying the state and the offset from one piece to the next.
* `scanQueue_eq`: a queue is scanned as its concatenation is, so where the boundaries fall does
  not matter.
-/

set_option autoImplicit false

namespace Occurrence

variable {α : Type}

/-! ## The first occurrence of a pattern -/

section First

/-- Where the pattern starts at once, `0` is the only position that is first. -/
theorem zero_eq_iff_of_prefix {pat xs : List α} (hp : pat <+: xs) (k : Nat) :
    0 = k ↔ pat <+: xs.drop k ∧ ∀ j < k, ¬pat <+: xs.drop j := by
  constructor
  · rintro rfl
    exact ⟨hp, fun j hj => absurd hj (Nat.not_lt_zero j)⟩
  · rintro ⟨-, hbefore⟩
    by_contra hk
    exact hbefore 0 (by omega) hp

variable [DecidableEq α]

/-- The first position of `xs` at which `pat` starts, if there is one. -/
def firstOccurrence (pat : List α) : List α → Option Nat
  | [] => if pat.isPrefixOf [] then some 0 else none
  | x :: xs => if pat.isPrefixOf (x :: xs) then some 0 else (firstOccurrence pat xs).map (· + 1)

theorem firstOccurrence_nil (pat : List α) :
    firstOccurrence pat [] = if pat <+: [] then some 0 else none := by
  simp only [firstOccurrence, ← List.isPrefixOf_iff_prefix]

theorem firstOccurrence_cons (pat : List α) (x : α) (xs : List α) :
    firstOccurrence pat (x :: xs) =
      if pat <+: x :: xs then some 0 else (firstOccurrence pat xs).map (· + 1) := by
  simp only [firstOccurrence, ← List.isPrefixOf_iff_prefix]

/-- Past a position where the pattern does not start, the search moves on by one. -/
theorem firstOccurrence_cons_of_not_prefix {pat : List α} {x : α} {xs : List α}
    (h : ¬pat <+: x :: xs) : firstOccurrence pat (x :: xs) = (firstOccurrence pat xs).map (· + 1) := by
  rw [firstOccurrence_cons, if_neg h]

/-- Past a stretch at none of whose positions the pattern starts, the search moves on by its
length. -/
theorem firstOccurrence_append_skip {pat : List α} (pre : List α) {xs : List α}
    (h : ∀ i < pre.length, ¬pat <+: (pre ++ xs).drop i) :
    firstOccurrence pat (pre ++ xs) = (firstOccurrence pat xs).map (· + pre.length) := by
  induction pre with
  | nil => simp
  | cons p pre ih =>
    have h0 : ¬pat <+: p :: (pre ++ xs) := h 0 (Nat.succ_pos _)
    rw [List.cons_append, firstOccurrence_cons_of_not_prefix h0,
      ih fun i hi => h (i + 1) (by simp only [List.length_cons]; omega), Option.map_map]
    -- `x + |pre| + 1` is `x + |p :: pre|`
    congr 1

/-- **`firstOccurrence` is the least position at which the pattern starts.** -/
theorem firstOccurrence_eq_some_iff (pat : List α) (xs : List α) (k : Nat) :
    firstOccurrence pat xs = some k ↔ pat <+: xs.drop k ∧ ∀ j < k, ¬pat <+: xs.drop j := by
  induction xs generalizing k with
  | nil =>
    rw [firstOccurrence_nil]
    by_cases hp : pat <+: []
    · rw [if_pos hp, Option.some.injEq]
      exact zero_eq_iff_of_prefix hp k
    · rw [if_neg hp]
      exact ⟨nofun, fun h => absurd (List.drop_nil ▸ h.1) hp⟩
  | cons x xs ih =>
    rw [firstOccurrence_cons]
    by_cases hp : pat <+: x :: xs
    · rw [if_pos hp, Option.some.injEq]
      exact zero_eq_iff_of_prefix hp k
    rw [if_neg hp]
    cases k with
    | zero =>
      -- a shifted position is never `0`, and the pattern does not start there
      constructor
      · intro h
        obtain ⟨a, -, ha⟩ := Option.map_eq_some_iff.mp h
        omega
      · rintro ⟨h0, -⟩
        exact absurd h0 hp
    | succ k =>
      -- the positions of `x :: xs` past `0` are those of `xs`, one further on
      rw [Option.map_eq_some_iff]
      constructor
      · rintro ⟨a, ha, hak⟩
        obtain rfl : a = k := by omega
        obtain ⟨hk, hbefore⟩ := (ih a).mp ha
        refine ⟨hk, fun j hj => ?_⟩
        cases j with
        | zero => exact hp
        | succ j => exact hbefore j (by omega)
      · rintro ⟨hk, hbefore⟩
        exact ⟨k, (ih k).mpr ⟨hk, fun j hj => hbefore (j + 1) (by omega)⟩, rfl⟩

theorem firstOccurrence_eq_none_iff (pat : List α) (xs : List α) :
    firstOccurrence pat xs = none ↔ ∀ k, ¬pat <+: xs.drop k := by
  induction xs with
  | nil =>
    rw [firstOccurrence_nil]
    by_cases hp : pat <+: []
    · rw [if_pos hp]
      exact ⟨nofun, fun h => absurd hp (h 0)⟩
    · rw [if_neg hp]
      exact ⟨fun _ k => by rw [List.drop_nil]; exact hp, fun _ => rfl⟩
  | cons x xs ih =>
    rw [firstOccurrence_cons]
    by_cases hp : pat <+: x :: xs
    · rw [if_pos hp]
      exact ⟨nofun, fun h => absurd hp (h 0)⟩
    · rw [if_neg hp, Option.map_eq_none_iff, ih]
      constructor
      · intro h k
        cases k with
        | zero => exact hp
        | succ k => exact h k
      · intro h k
        exact h (k + 1)

end First

/-! ## A resumable scan over a queue of pieces -/

section Scan

variable {σ β : Type} (step : σ → Nat → α → β ⊕ σ)

/-- The loop over one piece: `step st pos c` looks at the item `c` at offset `pos` in state `st`
and stops with a result (`.inl`) or goes on in a new state (`.inr`).  At the end of the piece the
state is handed back, to be carried into the next one. -/
def scan : σ → Nat → List α → β ⊕ σ
  | st, _, [] => .inr st
  | st, pos, c :: cs =>
    match step st pos c with
    | .inl r => .inl r
    | .inr st' => scan st' (pos + 1) cs

/-- The loop over a queue of pieces: each piece is scanned from the state the previous one
left, at the offset where it starts. -/
def scanQueue : σ → Nat → List (List α) → Option β
  | _, _, [] => none
  | st, off, b :: q =>
    match scan step st off b with
    | .inl r => some r
    | .inr st' => scanQueue st' (off + b.length) q

theorem scan_cons (st : σ) (pos : Nat) (c : α) (cs : List α) :
    scan step st pos (c :: cs) =
      match step st pos c with
      | .inl r => .inl r
      | .inr st' => scan step st' (pos + 1) cs :=
  rfl

theorem scan_append (xs ys : List α) :
    ∀ (st : σ) (pos : Nat),
      scan step st pos (xs ++ ys) =
        match scan step st pos xs with
        | .inl r => .inl r
        | .inr st' => scan step st' (pos + xs.length) ys := by
  induction xs with
  | nil => intro st pos; rfl
  | cons c cs ih =>
    intro st pos
    rw [List.cons_append, scan_cons, scan_cons]
    cases step st pos c with
    | inl r => rfl
    | inr st' =>
      dsimp only
      rw [ih, List.length_cons, Nat.add_assoc, Nat.add_comm 1]

/-- **Where the boundaries fall does not matter**: a queue is scanned as its concatenation. -/
theorem scanQueue_eq (q : List (List α)) :
    ∀ (st : σ) (off : Nat), scanQueue step st off q = (scan step st off q.flatten).getLeft? := by
  induction q with
  | nil => intro st off; rfl
  | cons b q ih =>
    intro st off
    rw [scanQueue, List.flatten_cons, scan_append]
    cases scan step st off b with
    | inl r => rfl
    | inr st' => exact ih st' _

end Scan

end Occurrence
