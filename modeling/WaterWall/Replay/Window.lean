import Mathlib

/-!
# Sliding-window replay filters

A receiver that must accept each sequence number at most once, and only within a window behind
the largest number it has accepted, keeps that largest number and a bitmap of the `W` numbers at
and behind it (RFC 2401, Appendix C).  This file says what such a filter is for, and what its
bitmap has to stand for:

* `Ref` is the reference filter: the numbers accepted so far and the largest of them.  It accepts
  a positive number it has not accepted before that is ahead of the top or fewer than `W` behind.
* `Represents W r bitmap`: bit `k` of `bitmap` is set exactly when `top - k` was accepted.
* One lemma per update a bitmap filter makes: the window moves forward by less than `W`
  (`Represents.advance`), past the whole window (`represents_jump`), or a number behind the top
  is looked up (`Represents.accepts_eq`) and marked (`Represents.mark`).
-/

set_option autoImplicit false

namespace Replay

/-- The reference filter: the numbers accepted so far, newest first, and the largest of them
(`0` before any). -/
structure Ref where
  /-- The numbers accepted so far. -/
  accepted : List ℕ
  /-- The largest number accepted so far. -/
  top : ℕ
deriving DecidableEq, Repr

namespace Ref

variable (W : ℕ)

/-- Nothing accepted yet. -/
def fresh : Ref := ⟨[], 0⟩

/-- Whether an exact window of `W` accepts `x`. -/
def accepts (r : Ref) (x : ℕ) : Bool :=
  decide (0 < x ∧ x ∉ r.accepted ∧ (r.top < x ∨ r.top - x < W))

/-- The reference filter given `x`: the state after, and whether `x` is accepted. -/
def step (r : Ref) (x : ℕ) : Ref × Bool :=
  if r.accepts W x then (⟨x :: r.accepted, max r.top x⟩, true) else (r, false)

/-- The reference filter given the numbers one after the other. -/
def run : Ref → List ℕ → Ref × List Bool
  | r, [] => (r, [])
  | r, x :: xs =>
    let r₁ := r.step W x
    let rest := run r₁.1 xs
    (rest.1, r₁.2 :: rest.2)

/-- What every state of the reference filter satisfies: the accepted numbers are positive, the
top is the largest of them. -/
structure Valid (r : Ref) : Prop where
  pos : ∀ x ∈ r.accepted, 0 < x
  le_top : ∀ x ∈ r.accepted, x ≤ r.top
  top_mem : 0 < r.top → r.top ∈ r.accepted

theorem valid_fresh : fresh.Valid :=
  ⟨fun _ h => absurd h List.not_mem_nil, fun _ h => absurd h List.not_mem_nil, fun h => absurd h (by decide)⟩

variable {W}

theorem step_of_accepts {r : Ref} {x : ℕ} (h : r.accepts W x = true) :
    r.step W x = (⟨x :: r.accepted, max r.top x⟩, true) := by
  rw [step, if_pos h]

theorem step_of_not_accepts {r : Ref} {x : ℕ} (h : r.accepts W x = false) : r.step W x = (r, false) := by
  rw [step, if_neg (by rw [h]; decide)]

theorem Valid.step {r : Ref} (hv : r.Valid) (x : ℕ) : (r.step W x).1.Valid := by
  cases h : r.accepts W x with
  | false => rw [step_of_not_accepts h]; exact hv
  | true =>
    rw [step_of_accepts h]
    have hx : 0 < x := (of_decide_eq_true h).1
    refine ⟨?_, ?_, fun _ => ?_⟩
    · rintro y (_ | ⟨_, hy⟩)
      · exact hx
      · exact hv.pos y hy
    · rintro y (_ | ⟨_, hy⟩)
      · exact le_max_right _ _
      · exact (hv.le_top y hy).trans (le_max_left _ _)
    · -- the new top is the number just accepted or the old top
      by_cases hle : r.top ≤ x
      · rw [max_eq_right hle]
        exact List.mem_cons_self
      · rw [max_eq_left (by omega)]
        exact List.mem_cons_of_mem x (hv.top_mem (by omega))

/-- What a step can do: accept the number, or change nothing. -/
theorem step_cases (r : Ref) (x : ℕ) :
    r.step W x = (⟨x :: r.accepted, max r.top x⟩, true) ∨ r.step W x = (r, false) := by
  cases h : r.accepts W x with
  | true => exact .inl (step_of_accepts h)
  | false => exact .inr (step_of_not_accepts h)

theorem step_of_top_lt {r : Ref} (hv : r.Valid) {x : ℕ} (hx : r.top < x) :
    r.step W x = (⟨x :: r.accepted, x⟩, true) := by
  have hnot : x ∉ r.accepted := fun hmem => absurd (hv.le_top x hmem) (by omega)
  rw [step_of_accepts (decide_eq_true ⟨by omega, hnot, .inl hx⟩), max_eq_right hx.le]

theorem step_of_old {r : Ref} {x : ℕ} (hx : x ≤ r.top) (hd : W ≤ r.top - x) :
    r.step W x = (r, false) :=
  step_of_not_accepts (decide_eq_false fun ⟨_, _, hw⟩ => by omega)

end Ref

/-! ## The bitmap -/

variable (W : ℕ)

/-- `bitmap` stands for the window of `r`: bit `k` is set exactly when `top - k` was accepted. -/
def Represents (r : Ref) (bitmap : ℕ) : Prop :=
  ∀ k < W, bitmap.testBit k = true ↔ k < r.top ∧ r.top - k ∈ r.accepted

variable {W}

theorem testBit_one (k : ℕ) : (1 : ℕ).testBit k = decide (k = 0) := by
  rw [show (1 : ℕ) = 2 ^ 0 from rfl, Nat.testBit_two_pow, decide_eq_decide]
  exact eq_comm

theorem represents_fresh : Represents W Ref.fresh 0 := by
  intro k _
  simp [Ref.fresh]

theorem Represents.eq_zero_of_top {r : Ref} {bitmap : ℕ} (h : Represents W r bitmap)
    (htop : r.top = 0) (hlt : bitmap < 2 ^ W) : bitmap = 0 := by
  apply Nat.eq_of_testBit_eq
  intro k
  rw [Nat.zero_testBit]
  by_cases hk : k < W
  · cases hb : bitmap.testBit k
    · rfl
    · have := ((h k hk).1 hb).1
      omega
  · exact Nat.testBit_lt_two_pow (lt_of_lt_of_le hlt (Nat.pow_le_pow_right (by decide) (by omega)))

section Update

variable {r : Ref} {bitmap x : ℕ} (hv : r.Valid) (h : Represents W r bitmap)
include hv h

/-- **The window moves forward by `x - top < W`**: the bitmap shifted by that, with the bit of
`x` set, stands for the window after `x` is accepted. -/
theorem Represents.advance (hx : r.top < x) :
    Represents W ⟨x :: r.accepted, x⟩ (((bitmap <<< (x - r.top)) % 2 ^ W) ||| 1) := by
  intro k hk
  dsimp only
  rw [Nat.testBit_or, Nat.testBit_mod_two_pow, Nat.testBit_shiftLeft, testBit_one]
  rcases Nat.eq_zero_or_pos k with rfl | hk0
  · -- bit 0 is the number just accepted
    refine ⟨fun _ => ⟨by omega, List.mem_cons_self⟩, fun _ => ?_⟩
    simp
  · have hne : x - k ≠ x := by omega
    simp only [List.mem_cons, hne, false_or, hk, decide_true, Bool.true_and,
      show k ≠ 0 by omega, decide_false, Bool.or_false]
    by_cases hkd : x - r.top ≤ k
    · -- an older bit, moved up by the distance
      rw [decide_eq_true hkd, Bool.true_and, h (k - (x - r.top)) (by omega),
        show r.top - (k - (x - r.top)) = x - k by omega]
      constructor
      · rintro ⟨hlt, hmem⟩
        exact ⟨by omega, hmem⟩
      · rintro ⟨hlt, hmem⟩
        exact ⟨by omega, hmem⟩
    · -- a bit the shift cleared: a number above the old top, never accepted
      rw [decide_eq_false hkd, Bool.false_and, Bool.false_eq_true, false_iff]
      rintro ⟨_, hmem⟩
      have := hv.le_top _ hmem
      omega

omit h in
/-- **The window moves past itself**: only the bit of `x` is left. -/
theorem represents_jump (hx : r.top < x) (hd : W ≤ x - r.top) :
    Represents W ⟨x :: r.accepted, x⟩ 1 := by
  intro k hk
  dsimp only
  rw [testBit_one]
  rcases Nat.eq_zero_or_pos k with rfl | hk0
  · simp only [decide_true, true_iff, Nat.sub_zero]
    exact ⟨by omega, List.mem_cons_self⟩
  · rw [decide_eq_false (by omega), Bool.false_eq_true, false_iff]
    rintro ⟨_, hmem⟩
    rcases List.mem_cons.1 hmem with heq | hmem
    · omega
    · have := hv.le_top _ hmem
      omega

omit hv in
/-- **Behind the top, within the window, a number is accepted exactly when its bit is clear.** -/
theorem Represents.accepts_eq (hx0 : 0 < x) (hx : x ≤ r.top) (hd : r.top - x < W) :
    r.accepts W x = !bitmap.testBit (r.top - x) := by
  have hbit := h (r.top - x) hd
  rw [show r.top - (r.top - x) = x by omega] at hbit
  cases hb : bitmap.testBit (r.top - x)
  · rw [hb] at hbit
    refine decide_eq_true ⟨hx0, fun hmem => ?_, .inr hd⟩
    exact absurd (hbit.2 ⟨by omega, hmem⟩) (by decide)
  · rw [hb] at hbit
    exact decide_eq_false fun ⟨_, hnot, _⟩ => hnot (hbit.1 rfl).2

omit hv in
/-- **Marking a number behind the top** sets its bit and keeps the others. -/
theorem Represents.mark (hx0 : 0 < x) (hx : x ≤ r.top) :
    Represents W ⟨x :: r.accepted, r.top⟩ (bitmap ||| 2 ^ (r.top - x)) := by
  intro k hk
  dsimp only
  rw [Nat.testBit_or, Nat.testBit_two_pow, Bool.or_eq_true, h k hk, decide_eq_true_iff]
  simp only [List.mem_cons]
  constructor
  · rintro (⟨hlt, hmem⟩ | hkx)
    · exact ⟨hlt, .inr hmem⟩
    · exact ⟨by omega, .inl (by omega)⟩
  · rintro ⟨hlt, hkx | hmem⟩
    · exact .inr (by omega)
    · exact .inl ⟨hlt, hmem⟩

end Update

end Replay
