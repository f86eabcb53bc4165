import Mathlib

/-!
# Counting the one bits by clearing the lowest

`v &= v - 1` clears the lowest one bit of `v`, so a loop that does it until `v` is zero runs once
per one bit.  The one bits of `n` are `n.bitIndices`, their number its length.

* `length_bitIndices_land_pred`: clearing the lowest bit of a nonzero `n` takes one index away.
* `length_bitIndices_le`: a number below `2 ^ w` has at most `w` one bits, so such a loop over a
  `w`-bit word ends within `w` rounds.
-/

set_option autoImplicit false

namespace Ones

open Nat

theorem length_bitIndices_land_pred {n : ℕ} (hn : n ≠ 0) :
    (n &&& (n - 1)).bitIndices.length + 1 = n.bitIndices.length := by
  induction n using Nat.strong_induction_on with
  | _ n ih =>
    obtain ⟨k, rfl | rfl⟩ := n.even_or_odd'
    · -- an even `2k`: the lowest one bit is that of `k`, one place up
      have hk : k ≠ 0 := by omega
      have hand : 2 * k &&& (2 * k - 1) = 2 * (k &&& (k - 1)) := by
        have := land_bit false k true (k - 1)
        simp only [bit_val, Bool.false_and, Bool.toNat_false, Bool.toNat_true, Nat.add_zero] at this
        rwa [show 2 * (k - 1) + 1 = 2 * k - 1 by omega] at this
      rw [hand, bitIndices_two_mul, bitIndices_two_mul, List.length_map, List.length_map]
      exact ih k (by omega) hk
    · -- an odd `2k + 1`: the lowest bit is bit `0`, and the rest is `2k`
      have hand : (2 * k + 1) &&& (2 * k + 1 - 1) = 2 * k := by
        have := land_bit true k false k
        simp only [bit_val, Bool.true_and, Bool.toNat_false, Bool.toNat_true, Nat.add_zero,
          Nat.and_self] at this
        rwa [show 2 * k + 1 - 1 = 2 * k by omega]
      rw [hand, bitIndices_two_mul, bitIndices_two_mul_add_one]
      simp

theorem length_bitIndices_le {n w : ℕ} (hn : n < 2 ^ w) : n.bitIndices.length ≤ w := by
  -- every index is below `w`, and there is no repeated index
  have hsub : n.bitIndices ⊆ List.range w := fun i hi => by
    have := lt_of_le_of_lt (two_pow_le_of_mem_bitIndices hi) hn
    exact List.mem_range.2 ((Nat.pow_lt_pow_iff_right (by decide)).1 this)
  simpa using (List.subperm_of_subset bitIndices_nodup hsub).length_le

end Ones
