import Mathlib

/-!
# Prefix masks

A network prefix of `W - k` bits is the mask `2 ^ W - 2 ^ k`: ones in its high `W - k` bits,
zeros in its low `k`.  An address `x` is in the prefix of `y` when the two agree under the mask,
and that is an interval: from `y` with its low `k` bits cleared to `y` with them set
(`and_prefixMask_eq_iff`).  So a table of prefixes can be searched as a table of intervals.

`two_pow_mul_add_and` and `two_pow_mul_add_or` split `&&&` and `|||` of two numbers written as a
high part above `2 ^ k` and a low part below it, as a byte string's value is.
-/

set_option autoImplicit false

namespace Prefix

open Nat

theorem two_pow_mul_add_and {k a b c d : ℕ} (hb : b < 2 ^ k) (hd : d < 2 ^ k) :
    (2 ^ k * a + b) &&& (2 ^ k * c + d) = 2 ^ k * (a &&& c) + (b &&& d) := by
  apply Nat.eq_of_testBit_eq
  intro i
  rw [testBit_and, testBit_two_pow_mul_add _ hb, testBit_two_pow_mul_add _ hd,
    testBit_two_pow_mul_add _ (and_lt_two_pow b hd), testBit_and, testBit_and]
  split <;> rfl

theorem two_pow_mul_add_or {k a b c d : ℕ} (hb : b < 2 ^ k) (hd : d < 2 ^ k) :
    (2 ^ k * a + b) ||| (2 ^ k * c + d) = 2 ^ k * (a ||| c) + (b ||| d) := by
  apply Nat.eq_of_testBit_eq
  intro i
  rw [testBit_or, testBit_two_pow_mul_add _ hb, testBit_two_pow_mul_add _ hd,
    testBit_two_pow_mul_add _ (or_lt_two_pow hb hd), testBit_or, testBit_or]
  split <;> rfl

variable {W k : ℕ}

/-- Under the mask only the bits above `k` are left. -/
theorem and_prefixMask {x : ℕ} (hk : k ≤ W) (hx : x < 2 ^ W) :
    x &&& (2 ^ W - 2 ^ k) = 2 ^ k * (x / 2 ^ k) := by
  have hsplit : x = 2 ^ k * (x / 2 ^ k) + x % 2 ^ k := (Nat.div_add_mod x (2 ^ k)).symm
  have hmask : 2 ^ W - 2 ^ k = 2 ^ k * (2 ^ (W - k) - 1) + 0 := by
    rw [Nat.mul_sub, Nat.mul_one, ← Nat.pow_add, Nat.add_sub_cancel' hk, Nat.add_zero]
  have hhigh : x / 2 ^ k < 2 ^ (W - k) := by
    rw [Nat.div_lt_iff_lt_mul (Nat.two_pow_pos k), ← Nat.pow_add, Nat.sub_add_cancel hk]
    exact hx
  rw [hmask, hsplit, two_pow_mul_add_and (Nat.mod_lt _ (Nat.two_pow_pos k)) (Nat.two_pow_pos k),
    Nat.and_zero, Nat.add_zero, and_two_pow_sub_one_eq_mod, Nat.mod_eq_of_lt]
  rwa [Nat.mul_add_div (Nat.two_pow_pos k), Nat.mod_div_self, Nat.add_zero]

/-- Two numbers agree under the mask exactly when they agree above bit `k`. -/
theorem and_prefixMask_eq_iff_div {x y : ℕ} (hk : k ≤ W) (hx : x < 2 ^ W) (hy : y < 2 ^ W) :
    x &&& (2 ^ W - 2 ^ k) = y &&& (2 ^ W - 2 ^ k) ↔ x / 2 ^ k = y / 2 ^ k := by
  rw [and_prefixMask hk hx, and_prefixMask hk hy, Nat.mul_right_inj (Nat.two_pow_pos k).ne']

/-- The complement of the mask below `2 ^ W` sets the low `k` bits. -/
theorem two_pow_mul_or_complement (hk : k ≤ W) (q : ℕ) :
    2 ^ k * q ||| (2 ^ W - 1 - (2 ^ W - 2 ^ k)) = 2 ^ k * q + (2 ^ k - 1) := by
  have hle : 2 ^ k ≤ 2 ^ W := Nat.pow_le_pow_right (by decide) hk
  have hlow : 2 ^ W - 1 - (2 ^ W - 2 ^ k) = 2 ^ k * 0 + (2 ^ k - 1) := by
    have := Nat.two_pow_pos k
    omega
  have hsplit : 2 ^ k * q = 2 ^ k * q + 0 := rfl
  rw [hlow, hsplit,
    two_pow_mul_add_or (Nat.two_pow_pos k) (Nat.sub_lt (Nat.two_pow_pos k) Nat.one_pos),
    Nat.or_zero, Nat.zero_or, Nat.add_zero]

/-- **A prefix is an interval.**  Below `2 ^ W`, `x` agrees with `y` under the mask of the prefix
exactly when it lies between `y` with its low `k` bits cleared and `y` with them set. -/
theorem and_prefixMask_eq_iff {x y : ℕ} (hk : k ≤ W) (hx : x < 2 ^ W) (hy : y < 2 ^ W) :
    x &&& (2 ^ W - 2 ^ k) = y &&& (2 ^ W - 2 ^ k) ↔
      y &&& (2 ^ W - 2 ^ k) ≤ x ∧ x ≤ y &&& (2 ^ W - 2 ^ k) ||| (2 ^ W - 1 - (2 ^ W - 2 ^ k)) := by
  rw [and_prefixMask hk hx, and_prefixMask hk hy, two_pow_mul_or_complement hk,
    Nat.mul_right_inj (Nat.two_pow_pos k).ne']
  -- both sides say that `x` and `y` have the same quotient by `2 ^ k`
  have hpos := Nat.two_pow_pos k
  constructor
  · intro h
    rw [← h]
    have := Nat.div_add_mod x (2 ^ k)
    have := Nat.mod_lt x hpos
    constructor <;> omega
  · rintro ⟨hlo, hhi⟩
    apply le_antisymm
    · exact (Nat.div_le_iff_le_mul_add_pred hpos).2 hhi
    · exact (Nat.le_div_iff_mul_le hpos).2 (by rw [Nat.mul_comm]; exact hlo)

end Prefix
