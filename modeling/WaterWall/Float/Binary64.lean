import Mathlib

/-!
# binary64 values and rounding to nearest

What a C program sees of IEEE 754 binary64 when it converts numbers: a value is finite, and then
it is exactly the rational number it denotes (both zeros are `0`, which no comparison tells
apart), or it is an infinity; NaNs are left out, since no conversion of a number produces one.

* `ofRatio neg n d` is `±n / d` rounded to nearest, ties to an even significand: the quantum is
  `2 ^ u` with `u` the binary exponent of `n / d` less 52, but not below `-1074` (the subnormal
  range), and a rounded magnitude of `2 ^ 1024` or more overflows to an infinity.
* `ofInt` is the C conversion of an integer to `double`, `truncToInt` the conversion back, and
  `le` the comparison `<=`.

`ofRatio_ne_inf` bounds the overflow: a magnitude below `2 ^ 1023` stays finite.
-/

set_option autoImplicit false

namespace Ieee754

/-- A binary64 value other than a NaN. -/
inductive Binary64 where
  | finite (x : Rat)
  | inf (neg : Bool)
deriving DecidableEq, Repr

/-- The integer nearest to `n / d`, ties to the even one. -/
def roundHalfEven (n d : Nat) : Nat :=
  let q := n / d
  let r := n % d
  if 2 * r < d then q
  else if d < 2 * r then q + 1
  else if q % 2 = 0 then q else q + 1

/-- `⌊log₂ (n / d)⌋` for positive `n` and `d`: the difference of the two bit lengths, or one
less. -/
def floorLog2Ratio (n d : Nat) : Int :=
  let e : Int := (Nat.log2 n : Int) - (Nat.log2 d : Int)
  if e < 0 then
    if n * 2 ^ (-e).toNat < d then e - 1 else e
  else if n < d * 2 ^ e.toNat then e - 1 else e

namespace Binary64

/-- `±n / d` rounded to nearest binary64, ties to even, for `d` positive. -/
def ofRatio (neg : Bool) (n d : Nat) : Binary64 :=
  if n = 0 then .finite 0
  else
    let u : Int := max (floorLog2Ratio n d - 52) (-1074)
    if 0 ≤ u then
      let m := roundHalfEven n (d * 2 ^ u.toNat)
      if 2 ^ 1024 ≤ m * 2 ^ u.toNat then .inf neg
      else
        .finite (if neg then -((m * 2 ^ u.toNat : Nat) : Rat)
          else ((m * 2 ^ u.toNat : Nat) : Rat))
    else
      -- below the binary point, the quantum is at most a half and nothing overflows
      let m := roundHalfEven (n * 2 ^ (-u).toNat) d
      .finite (if neg then -((m : Rat) / (2 ^ (-u).toNat : Nat))
        else (m : Rat) / (2 ^ (-u).toNat : Nat))

/-- The C conversion `(double) z` of an integer. -/
def ofInt (z : Int) : Binary64 := ofRatio (decide (z < 0)) z.natAbs 1

/-- The C conversion of a finite `double` to an integer type, toward zero.  On an infinity the
conversion is undefined; the callers never make it. -/
def truncToInt : Binary64 → Int
  | .finite x => x.num.tdiv x.den
  | .inf _ => 0

/-- The C comparison `a <= b`, on the extended real line. -/
def le : Binary64 → Binary64 → Bool
  | .inf true, _ => true
  | _, .inf false => true
  | .finite x, .finite y => decide (x ≤ y)
  | _, _ => false

/-- `isinf`. -/
def isInf : Binary64 → Bool
  | .inf _ => true
  | .finite _ => false

end Binary64

/-! ## Bounds on the rounding

The two facts about powers of two are stated at the power of the statements here, so that they
meet `2 ^ 1023` and `2 ^ 970` without an evaluation of the literals. -/

theorem two_pow_le_two_pow {a b : Nat} (h : a ≤ b) : 2 ^ a ≤ 2 ^ b :=
  Nat.pow_le_pow_right (by decide) h

theorem log2_lt_of_lt_two_pow {n k : Nat} (h0 : n ≠ 0) (h : n < 2 ^ k) : Nat.log2 n < k :=
  (Nat.log2_lt h0).2 h

theorem roundHalfEven_le (n d : Nat) : roundHalfEven n d ≤ n / d + 1 := by
  unfold roundHalfEven
  dsimp only
  split_ifs <;> omega

theorem floorLog2Ratio_le_log2 (n d : Nat) : floorLog2Ratio n d ≤ Nat.log2 n := by
  unfold floorLog2Ratio
  dsimp only
  split_ifs <;> omega

namespace Binary64

/-- **No overflow below `2 ^ 1023`.** -/
theorem ofRatio_ne_inf {neg b : Bool} {n d : Nat} (hd : 0 < d) (hn : n < 2 ^ 1023) :
    ofRatio neg n d ≠ .inf b := by
  have he := floorLog2Ratio_le_log2 n d
  unfold ofRatio
  dsimp only
  split_ifs with h0 hu hover
  -- every branch but the overflow answers a finite value
  all_goals try exact Binary64.noConfusion
  -- the quantum is at most `2 ^ 970`, and rounding adds at most one quantum
  exfalso
  have hlog := log2_lt_of_lt_two_pow h0 hn
  generalize hk : (max (floorLog2Ratio n d - 52) (-1074)).toNat = k at hover
  have hk970 : k ≤ 970 := by omega
  have hq : n / (d * 2 ^ k) * 2 ^ k ≤ n :=
    calc n / (d * 2 ^ k) * 2 ^ k ≤ n / (d * 2 ^ k) * (d * 2 ^ k) :=
          Nat.mul_le_mul_left _ (Nat.le_mul_of_pos_left _ hd)
      _ ≤ n := Nat.div_mul_le_self n _
  have hm : roundHalfEven n (d * 2 ^ k) * 2 ^ k ≤ n + 2 ^ k :=
    calc roundHalfEven n (d * 2 ^ k) * 2 ^ k ≤ (n / (d * 2 ^ k) + 1) * 2 ^ k :=
          Nat.mul_le_mul_right _ (roundHalfEven_le n _)
      _ ≤ n + 2 ^ k := by rw [Nat.add_mul, Nat.one_mul]; omega
  have hpow := two_pow_le_two_pow hk970
  omega

theorem ofInt_ne_inf {z : Int} {b : Bool} (hz : z.natAbs < 2 ^ 1023) : ofInt z ≠ .inf b :=
  ofRatio_ne_inf Nat.one_pos hz

end Binary64

end Ieee754
