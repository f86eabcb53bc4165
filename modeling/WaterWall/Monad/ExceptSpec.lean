import Mathlib

/-!
# Specifications of computations that can fail

A model of C code that can go wrong runs in `Except`: the error is the fault (a read past a
buffer, a length past an allocation), and the value what the code returns when nothing went
wrong.  `Except.Spec x P S` says that `x` returns a value satisfying `P` or raises an error
satisfying `S`; it is the Hoare triple of the `Except` monad with a precondition folded into the
hypotheses.  Memory safety is `S` excluding the faults that stand for unsafe accesses, and "no
fault at all" is `S = False`.

* `Spec.bind` is the sequencing rule; `spec_pure` and `spec_error` the axioms, `Spec.mono` the
  consequence rule.  A proof about a `do` block follows the block: one `Spec.bind` per `←`, and a
  `split` where the block branches.
* `Spec.eq_ok`: with no error allowed, the computation returns, and `Spec.of_eq_error`: an error
  it raises satisfies `S`.
-/

set_option autoImplicit false

namespace Except

variable {ε α β : Type}

/-- `x` returns a value satisfying `P` or raises an error satisfying `S`. -/
def Spec (x : Except ε α) (P : α → Prop) (S : ε → Prop) : Prop :=
  match x with
  | .ok a => P a
  | .error e => S e

variable {P : α → Prop} {Q : β → Prop} {S : ε → Prop}

@[simp] theorem spec_ok {a : α} : Spec (.ok a : Except ε α) P S ↔ P a := Iff.rfl

@[simp] theorem spec_error {e : ε} : Spec (.error e : Except ε α) P S ↔ S e := Iff.rfl

theorem spec_pure {a : α} (h : P a) : Spec (pure a : Except ε α) P S := h

theorem spec_throw {e : ε} (h : S e) : Spec (throw e : Except ε α) P S := h

@[simp] theorem ok_bind (a : α) (f : α → Except ε β) : (Except.ok a >>= f) = f a := rfl

theorem Spec.bind {x : Except ε α} {f : α → Except ε β} (hx : Spec x P S)
    (hf : ∀ a, P a → Spec (f a) Q S) : Spec (x >>= f) Q S := by
  cases x with
  | error e => exact hx
  | ok a => exact hf a hx

theorem Spec.mono {x : Except ε α} {P' : α → Prop} {S' : ε → Prop} (h : Spec x P S)
    (hP : ∀ a, P a → P' a) (hS : ∀ e, S e → S' e) : Spec x P' S' := by
  cases x with
  | error e => exact hS e h
  | ok a => exact hP a h

theorem Spec.of_eq_ok {x : Except ε α} {a : α} (h : Spec x P S) (hx : x = .ok a) : P a := by
  subst hx
  exact h

theorem Spec.of_eq_error {x : Except ε α} {e : ε} (h : Spec x P S) (hx : x = .error e) : S e := by
  subst hx
  exact h

theorem Spec.eq_ok {x : Except ε α} (h : Spec x P fun _ => False) : ∃ a, x = .ok a ∧ P a := by
  cases x with
  | error e => exact h.elim
  | ok a => exact ⟨a, rfl, h⟩

end Except
