import Mathlib

/-!
# Threads interleaving atomic operations

A program that several threads run on shared memory is, at the granularity of its atomic
operations, a transition system on configurations: the shared state, and each thread's local
state.  A step is one thread performing one operation, which reads and writes the shared state
and its own local state and nothing else.

* `Config`, `Config.exec`: a thread's step; the other threads stand still (`exec_locals_of_ne`).
* `Reach act init`: the configurations an interleaving of steps reaches, `act` saying which steps
  a thread may take.  `Reach.inv` is the invariant rule.
* `sum_exec`: a quantity summed over the threads' local states changes by the stepping thread's
  part only, which is how an account kept over all threads is carried from step to step.
* `Reach.sum_eq`, the conservation rule: such a sum, with a part in the shared state, that every
  step moves in step with a ledger, equals the ledger in every configuration reached.
-/

set_option autoImplicit false

namespace Interleave

/-- The shared state and each thread's local state. -/
structure Config (W L S : Type) where
  shared : S
  locals : W → L

variable {W L S : Type} [DecidableEq W]

/-- Thread `w` takes a step to local state `l`, leaving the shared state `s`. -/
def Config.exec (c : Config W L S) (w : W) (l : L) (s : S) : Config W L S :=
  ⟨s, Function.update c.locals w l⟩

@[simp] theorem exec_shared (c : Config W L S) (w : W) (l : L) (s : S) : (c.exec w l s).shared = s :=
  rfl

@[simp] theorem exec_locals_self (c : Config W L S) (w : W) (l : L) (s : S) :
    (c.exec w l s).locals w = l := by
  simp [Config.exec]

@[simp] theorem exec_locals_of_ne (c : Config W L S) {w w' : W} (h : w' ≠ w) (l : L) (s : S) :
    (c.exec w l s).locals w' = c.locals w' := by
  simp [Config.exec, h]

/-- The configurations reached from `init` when, again and again, some thread takes a step that
`act` allows from its own local state and the shared state. -/
inductive Reach (act : L → S → L → S → Prop) (init : Config W L S) : Config W L S → Prop
  | init : Reach act init init
  | step {c : Config W L S} (w : W) {l : L} {s : S} :
      Reach act init c → act (c.locals w) c.shared l s → Reach act init (c.exec w l s)

/-- **The invariant rule.** -/
theorem Reach.inv {act : L → S → L → S → Prop} {init : Config W L S} {P : Config W L S → Prop}
    (h0 : P init)
    (hstep : ∀ c w l s, P c → act (c.locals w) c.shared l s → P (c.exec w l s))
    {c : Config W L S} (r : Reach act init c) : P c := by
  induction r with
  | init => exact h0
  | step w _ hact ih => exact hstep _ w _ _ ih hact

/-- Summed over the threads, a quantity of their local states changes by the stepping thread's
part only. -/
theorem sum_exec {M : Type} [AddCommMonoid M] [Fintype W] (f : L → M) (c : Config W L S) (w : W)
    (l : L) (s : S) :
    (∑ w', f ((c.exec w l s).locals w')) + f (c.locals w) = (∑ w', f (c.locals w')) + f l := by
  -- the threads other than `w` contribute the same before and after
  have hrest : ∑ w' ∈ Finset.univ.erase w, f ((c.exec w l s).locals w') =
      ∑ w' ∈ Finset.univ.erase w, f (c.locals w') :=
    Finset.sum_congr rfl fun w' hw' => by rw [exec_locals_of_ne c (Finset.ne_of_mem_erase hw')]
  rw [← Finset.add_sum_erase _ _ (Finset.mem_univ w), ← Finset.add_sum_erase _ _ (Finset.mem_univ w),
    hrest, exec_locals_self]
  ac_rfl

/-- **The conservation rule.**  A quantity of the shared state and of every thread's local state,
summed, equals a ledger kept in the shared state, when it does so initially and every step from a
configuration reached moves the quantity and the ledger alike. -/
theorem Reach.sum_eq {M : Type} [AddCommMonoid M] [IsRightCancelAdd M] [Fintype W]
    {act : L → S → L → S → Prop} {init : Config W L S} (g : S → M) (f : L → M)
    (total : S → M)
    (h0 : g init.shared + ∑ w, f (init.locals w) = total init.shared)
    (hstep : ∀ {c : Config W L S} (w : W) {l : L} {s : S}, Reach act init c →
      act (c.locals w) c.shared l s →
        g s + f l + total c.shared = g c.shared + f (c.locals w) + total s)
    {c : Config W L S} (r : Reach act init c) :
    g c.shared + ∑ w, f (c.locals w) = total c.shared := by
  induction r with
  | init => exact h0
  | @step c w l s r hact ih =>
    have hsum := sum_exec f c w l s
    have hmove := hstep w r hact
    rw [exec_shared]
    -- add the stepping thread's old part and the old ledger to both sides, then cancel them
    refine add_right_cancel (b := f (c.locals w) + total c.shared) ?_
    calc g s + ∑ w', f ((c.exec w l s).locals w') + (f (c.locals w) + total c.shared)
        = g s + (∑ w', f ((c.exec w l s).locals w') + f (c.locals w)) + total c.shared := by
          simp only [add_assoc]
      _ = (g s + f l + total c.shared) + ∑ w', f (c.locals w') := by rw [hsum]; ac_rfl
      _ = (g c.shared + ∑ w', f (c.locals w')) + f (c.locals w) + total s := by rw [hmove]; ac_rfl
      _ = total s + (f (c.locals w) + total c.shared) := by rw [ih]; ac_rfl

end Interleave
