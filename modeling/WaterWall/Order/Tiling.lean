import Mathlib

/-!
# Intervals laid end to end

A planner that cuts a range `[s, e)` into pieces, each starting where the one before ended,
produces a list of `(offset, length)` pairs that tile the range: `Tiles s l e`.  A tiling keeps
every piece inside the range (`Tiles.le_of_mem`), covers every point of it (`Tiles.cover`), and
ends with its last piece at `e` (`Tiles.getLast`).  A loop that emits one piece per round is
proved to tile its range with `tiles_cons`.
-/

set_option autoImplicit false

namespace Tiling

/-- The intervals `[o, o + n)` of `l`, in order, run from `s` to `e` with neither gap nor
overlap. -/
def Tiles : Nat → List (Nat × Nat) → Nat → Prop
  | s, [], e => s = e
  | s, x :: l, e => x.1 = s ∧ Tiles (s + x.2) l e

@[simp] theorem tiles_nil {s e : Nat} : Tiles s [] e ↔ s = e := Iff.rfl

@[simp] theorem tiles_cons {s e : Nat} {x : Nat × Nat} {l : List (Nat × Nat)} :
    Tiles s (x :: l) e ↔ x.1 = s ∧ Tiles (s + x.2) l e := Iff.rfl

variable {s e : Nat} {l : List (Nat × Nat)}

theorem Tiles.le (h : Tiles s l e) : s ≤ e := by
  induction l generalizing s with
  | nil => exact Nat.le_of_eq h
  | cons x l ih =>
    have := ih h.2
    omega

theorem Tiles.le_of_mem (h : Tiles s l e) : ∀ x ∈ l, s ≤ x.1 ∧ x.1 + x.2 ≤ e := by
  induction l generalizing s with
  | nil => simp
  | cons x l ih =>
    obtain ⟨hx, hl⟩ := h
    intro y hy
    rcases List.mem_cons.1 hy with rfl | hy
    · exact ⟨Nat.le_of_eq hx.symm, by have := hl.le; omega⟩
    · have := ih hl y hy
      omega

/-- Every point of the range lies in a piece. -/
theorem Tiles.cover (h : Tiles s l e) : ∀ p, s ≤ p → p < e → ∃ x ∈ l, x.1 ≤ p ∧ p < x.1 + x.2 := by
  induction l generalizing s with
  | nil =>
    intro p hs he
    simp only [tiles_nil] at h
    omega
  | cons x l ih =>
    obtain ⟨hx, hl⟩ := h
    intro p hs he
    -- the point is in the first piece, or in the tiling of the rest
    by_cases hp : p < s + x.2
    · exact ⟨x, List.mem_cons_self, by omega, by omega⟩
    · obtain ⟨y, hy, hy'⟩ := ih hl p (by omega) he
      exact ⟨y, List.mem_cons_of_mem x hy, hy'⟩

theorem Tiles.getLast (h : Tiles s l e) : ∀ x ∈ l.getLast?, x.1 + x.2 = e := by
  induction l generalizing s with
  | nil => simp
  | cons x l ih =>
    obtain ⟨hx, hl⟩ := h
    intro y hy
    cases l with
    | nil =>
      simp only [List.getLast?_singleton, Option.mem_def, Option.some.injEq] at hy
      subst hy
      simp only [tiles_nil] at hl
      omega
    | cons z l => exact ih hl y (by simpa [List.getLast?_cons_cons] using hy)

end Tiling
