import Mathlib
import WaterWall.Bytes.BigEndian

/-!
# One's-complement sums

The Internet checksum (RFC 1071) is the one's complement of the one's-complement sum of a byte
string's big-endian 16-bit words.  An implementation adds the words in a wider register, in
wider words, or in another byte order, and then folds the carries back in ("end-around carry")
until the sum fits 16 bits.  This file is the arithmetic all of them rest on, with no
implementation in it:

* `fold k n` reduces `n` to `k` bits by end-around carry.  It keeps `n` modulo `2 ^ k - 1`
  (`fold_modEq`) and is zero only for zero (`fold_eq_zero_iff`), and those two facts determine it
  (`fold_congr`): two sums fold to the same value exactly when they agree modulo `2 ^ k - 1` and
  are both zero or both not.
* `words16` are the 16-bit words of a byte string, and a big-endian number of an even number of
  bytes is their sum modulo `2 ^ 16 - 1` (`value_modEq_words16`), which is why summing 32- or
  64-bit words gives the same checksum.
-/

set_option autoImplicit false

namespace OnesComplement

/-- Folding the bits above `k` back in shortens a number that has any. -/
theorem mod_add_div_lt {k n : ℕ} (hk : 0 < k) (hn : 2 ^ k ≤ n) : n % 2 ^ k + n / 2 ^ k < n := by
  have hpow : 2 ≤ 2 ^ k := Nat.le_self_pow (Nat.pos_iff_ne_zero.1 hk) 2
  have hq : 1 ≤ n / 2 ^ k := (Nat.one_le_div_iff (by omega)).2 hn
  have hsplit := Nat.mod_add_div n (2 ^ k)
  have hmul : 2 * (n / 2 ^ k) ≤ 2 ^ k * (n / 2 ^ k) := Nat.mul_le_mul_right _ hpow
  omega

/-- End-around-carry reduction to `k` bits: while bits above `k` are set, they are added back in
at the bottom. -/
def fold (k n : ℕ) : ℕ :=
  if h : 0 < k ∧ 2 ^ k ≤ n then fold k (n % 2 ^ k + n / 2 ^ k) else n
termination_by n
decreasing_by exact mod_add_div_lt h.1 h.2

theorem fold_of_lt {k n : ℕ} (h : n < 2 ^ k) : fold k n = n := by
  rw [fold, dif_neg (fun h' => absurd h'.2 (by omega))]

theorem fold_of_le {k n : ℕ} (hk : 0 < k) (h : 2 ^ k ≤ n) :
    fold k n = fold k (n % 2 ^ k + n / 2 ^ k) := by
  rw [fold, dif_pos ⟨hk, h⟩]

/-- One fold keeps the number modulo `2 ^ k - 1`, since `2 ^ k` is one there. -/
theorem mod_add_div_modEq (k n : ℕ) : n % 2 ^ k + n / 2 ^ k ≡ n [MOD 2 ^ k - 1] := by
  have hpow : 1 ≤ 2 ^ k := Nat.one_le_two_pow
  have hsplit : n = n % 2 ^ k + n / 2 ^ k + (2 ^ k - 1) * (n / 2 ^ k) := by
    have := Nat.mod_add_div n (2 ^ k)
    rw [Nat.sub_mul, Nat.one_mul]
    have hle : n / 2 ^ k ≤ 2 ^ k * (n / 2 ^ k) := Nat.le_mul_of_pos_left _ (by omega)
    omega
  show (n % 2 ^ k + n / 2 ^ k) % (2 ^ k - 1) = n % (2 ^ k - 1)
  conv_rhs => rw [hsplit]
  rw [Nat.add_mul_mod_self_left]

theorem fold_modEq (k n : ℕ) : fold k n ≡ n [MOD 2 ^ k - 1] := by
  induction n using Nat.strong_induction_on with
  | _ n ih =>
    by_cases h : 0 < k ∧ 2 ^ k ≤ n
    · rw [fold_of_le h.1 h.2]
      exact (ih _ (mod_add_div_lt h.1 h.2)).trans (mod_add_div_modEq k n)
    · rw [fold, dif_neg h]

theorem fold_lt {k : ℕ} (hk : 0 < k) (n : ℕ) : fold k n < 2 ^ k := by
  induction n using Nat.strong_induction_on with
  | _ n ih =>
    by_cases h : 2 ^ k ≤ n
    · rw [fold_of_le hk h]
      exact ih _ (mod_add_div_lt hk h)
    · rw [fold_of_lt (by omega)]
      omega

theorem fold_eq_zero_iff (k n : ℕ) : fold k n = 0 ↔ n = 0 := by
  induction n using Nat.strong_induction_on with
  | _ n ih =>
    by_cases h : 0 < k ∧ 2 ^ k ≤ n
    · rw [fold_of_le h.1 h.2, ih _ (mod_add_div_lt h.1 h.2)]
      -- a number with bits above `k` leaves a non-zero quotient
      have hq : 1 ≤ n / 2 ^ k := (Nat.one_le_div_iff Nat.one_le_two_pow).2 h.2
      have : 1 ≤ 2 ^ k := Nat.one_le_two_pow
      omega
    · rw [fold, dif_neg h]

/-- **Two sums fold alike** when they agree modulo `2 ^ k - 1` and are both zero or both not:
a non-zero fold is the one number of `1, ..., 2 ^ k - 1` in its class. -/
theorem fold_congr {k n m : ℕ} (hk : 0 < k) (hmod : n ≡ m [MOD 2 ^ k - 1]) (hz : n = 0 ↔ m = 0) :
    fold k n = fold k m := by
  have hn := fold_lt hk n
  have hm := fold_lt hk m
  have hfold : fold k n ≡ fold k m [MOD 2 ^ k - 1] :=
    (fold_modEq k n).trans (hmod.trans (fold_modEq k m).symm)
  have hzn := fold_eq_zero_iff k n
  have hzm := fold_eq_zero_iff k m
  generalize fold k n = a at hn hfold hzn
  generalize fold k m = b at hm hfold hzm
  generalize hM : 2 ^ k - 1 = M at hfold
  have hMk : 2 ^ k = M + 1 := by have := @Nat.one_le_two_pow k; omega
  rw [hMk] at hn hm
  unfold Nat.ModEq at hfold
  -- `a` and `b` lie in `0, ..., M`, with `M` and `0` told apart by being zero
  rcases Nat.lt_or_ge a M with ha | ha <;> rcases Nat.lt_or_ge b M with hb | hb
  · rwa [Nat.mod_eq_of_lt ha, Nat.mod_eq_of_lt hb] at hfold
  · rw [Nat.mod_eq_of_lt ha, show b = M by omega, Nat.mod_self] at hfold
    omega
  · rw [Nat.mod_eq_of_lt hb, show a = M by omega, Nat.mod_self] at hfold
    omega
  · omega

theorem fold_eq {k n : ℕ} (hk : 0 < k) (hn : 0 < n) : fold k n = (n - 1) % (2 ^ k - 1) + 1 := by
  have hM : 1 ≤ 2 ^ k - 1 := by
    have := Nat.pow_le_pow_right (show 0 < 2 by decide) hk
    simp only [pow_one] at this
    omega
  have hlt : (n - 1) % (2 ^ k - 1) + 1 < 2 ^ k := by
    have := Nat.mod_lt (n - 1) (show 0 < 2 ^ k - 1 by omega)
    omega
  -- `n` is `(n - 1) + 1`, and `n - 1` is congruent to its residue
  have hmod : n ≡ (n - 1) % (2 ^ k - 1) + 1 [MOD 2 ^ k - 1] := by
    have := (Nat.mod_modEq (n - 1) (2 ^ k - 1)).symm.add_right 1
    rwa [Nat.sub_add_cancel hn] at this
  rw [fold_congr hk hmod (by omega), fold_of_lt hlt]

theorem fold_eq_ite {k : ℕ} (hk : 0 < k) (n : ℕ) :
    fold k n = if n = 0 then 0 else (n - 1) % (2 ^ k - 1) + 1 := by
  split_ifs with hn
  · rw [hn, fold_of_lt (Nat.two_pow_pos k)]
  · exact fold_eq hk (Nat.pos_of_ne_zero hn)

/-! ## Words -/

/-- The big-endian 16-bit words of a byte string, a trailing odd byte padded with a zero low
byte. -/
def words16 : List UInt8 → List ℕ
  | [] => []
  | [a] => [a.toNat * 256]
  | a :: b :: rest => (a.toNat * 256 + b.toNat) :: words16 rest

@[simp] theorem words16_nil : words16 [] = [] := rfl

theorem words16_cons_cons (a b : UInt8) (rest : List UInt8) :
    words16 (a :: b :: rest) = (a.toNat * 256 + b.toNat) :: words16 rest := rfl

theorem words16_append {xs : List UInt8} (h : Even xs.length) (ys : List UInt8) :
    words16 (xs ++ ys) = words16 xs ++ words16 ys := by
  induction xs using words16.induct with
  | case1 => rfl
  | case2 a => exact absurd h (by simp)
  | case3 a b rest ih =>
    rw [List.cons_append, List.cons_append, words16_cons_cons, words16_cons_cons, ih, List.cons_append]
    simpa [Nat.even_add_one] using h

/-- Replacing one aligned word of a byte string changes the sum of its words by the difference of
the two words. -/
theorem sum_words16_replace {xs : List UInt8} (h : Even xs.length) (ys : List UInt8)
    (a b c d : UInt8) :
    (words16 (xs ++ [a, b] ++ ys)).sum + (c.toNat * 256 + d.toNat) =
      (words16 (xs ++ [c, d] ++ ys)).sum + (a.toNat * 256 + b.toNat) := by
  have hpair : ∀ u v : UInt8, Even (xs ++ [u, v]).length := fun u v => by
    rw [List.length_append, List.length_cons, List.length_singleton]
    exact h.add even_two
  rw [words16_append (hpair a b), words16_append (hpair c d), words16_append h, words16_append h]
  simp only [List.sum_append, words16_cons_cons, words16_nil, List.sum_cons, List.sum_nil]
  omega

/-! ## Incremental update (RFC 1624)

A checksum is the complement of a fold, and RFC 1624 updates it for one replaced word without
summing the string again: `HC' = ~(~HC + ~m + m')`.  `update_checksum` says that this is exact:
it is the checksum of the old sum with the old word's complement and the new word added, which
is the new string's sum modulo `2 ^ 16 - 1`.  Whether it is also the checksum the new string
would be given from scratch then depends only on both sums being zero or not (`checksum_congr`):
the `+0` and `-0` of one's complement are the one place where the two can differ. -/

/-- The Internet checksum of a sum of words: the 16-bit complement of its fold. -/
def checksum (S : ℕ) : ℕ := 2 ^ 16 - 1 - fold 16 S

/-- RFC 1624, eqn. 3: the checksum `hc` updated for the word `m` replaced by `m'`, in 16 bits. -/
def update (hc m m' : ℕ) : ℕ := 2 ^ 16 - 1 - fold 16 ((2 ^ 16 - 1 - hc) + (2 ^ 16 - 1 - m) + m')

theorem checksum_congr {S S' : ℕ} (hmod : S ≡ S' [MOD 2 ^ 16 - 1]) (hz : S = 0 ↔ S' = 0) :
    checksum S = checksum S' := by
  rw [checksum, checksum, fold_congr (by decide) hmod hz]

theorem fold_fold_add {k : ℕ} (hk : 0 < k) (S X : ℕ) : fold k (fold k S + X) = fold k (S + X) := by
  have hz := fold_eq_zero_iff k S
  exact fold_congr hk ((fold_modEq k S).add_right X) (by omega)

/-- **RFC 1624, eqn. 3 is exact**: updating a checksum for a replaced word gives the checksum of
the sum with the complement of the old word and the new word added. -/
theorem update_checksum (S m m' : ℕ) :
    update (checksum S) m m' = checksum (S + (2 ^ 16 - 1 - m) + m') := by
  have hlt := fold_lt (show 0 < 16 by decide) S
  have hc : 2 ^ 16 - 1 - checksum S = fold 16 S := by
    unfold checksum
    omega
  rw [update, hc, Nat.add_assoc, fold_fold_add (by decide), ← Nat.add_assoc, checksum]

/-- Adding a word and its complement leaves a nonzero sum's checksum as it was. -/
theorem checksum_add_complement {S : ℕ} (hS : 0 < S) {m : ℕ} (hm : m < 2 ^ 16) :
    checksum (S + (2 ^ 16 - 1 - m) + m) = checksum S := by
  have hsum : S + (2 ^ 16 - 1 - m) + m = S + (2 ^ 16 - 1) := by omega
  rw [hsum]
  exact checksum_congr Nat.add_modEq_right (by omega)

/-- **Two words replaced.**  Updating for two replaced words lands on the checksum of any nonzero
sum that differs from the old one by the replacement. -/
theorem checksum_replace {S S' x₁ x₂ y₁ y₂ : ℕ} (h : S' + x₁ + x₂ = S + y₁ + y₂)
    (hx₁ : x₁ ≤ 2 ^ 16 - 1) (hx₂ : x₂ ≤ 2 ^ 16 - 1) (hS' : 0 < S') :
    checksum (S + (2 ^ 16 - 1 - x₁) + y₁ + (2 ^ 16 - 1 - x₂) + y₂) = checksum S' := by
  have heq : S + (2 ^ 16 - 1 - x₁) + y₁ + (2 ^ 16 - 1 - x₂) + y₂ = S' + (2 ^ 16 - 1) * 2 := by
    omega
  have hmod : S' + (2 ^ 16 - 1) * 2 ≡ S' [MOD 2 ^ 16 - 1] := Nat.add_mul_mod_self_left S' _ 2
  rw [heq]
  exact checksum_congr hmod (by omega)

theorem pow_256_modEq_one {n : ℕ} (h : Even n) : 256 ^ n ≡ 1 [MOD 2 ^ 16 - 1] := by
  obtain ⟨j, rfl⟩ := h
  rw [← two_mul, pow_mul]
  exact (Nat.ModEq.pow j (show 256 ^ 2 ≡ 1 [MOD 2 ^ 16 - 1] by decide)).trans (by rw [one_pow])

/-- **A big-endian number of an even number of bytes is the sum of its 16-bit words** modulo
`2 ^ 16 - 1`. -/
theorem value_modEq_words16 {xs : List UInt8} (h : Even xs.length) :
    BigEndian.value xs ≡ (words16 xs).sum [MOD 2 ^ 16 - 1] := by
  induction xs using words16.induct with
  | case1 => rfl
  | case2 a => exact absurd h (by simp)
  | case3 a b rest ih =>
    have hrest : Even rest.length := by simpa [Nat.even_add_one] using h
    rw [BigEndian.value_cons, BigEndian.value_cons, words16_cons_cons, List.sum_cons,
      List.length_cons, pow_succ]
    -- the pair is worth `(256 a + b) * 256 ^ |rest|`, and `256 ^ |rest|` is one
    have hpow := pow_256_modEq_one hrest
    calc a.toNat * (256 ^ rest.length * 256) + (b.toNat * 256 ^ rest.length + BigEndian.value rest)
        = (a.toNat * 256 + b.toNat) * 256 ^ rest.length + BigEndian.value rest := by ring
      _ ≡ (a.toNat * 256 + b.toNat) * 1 + (words16 rest).sum [MOD 2 ^ 16 - 1] :=
          (hpow.mul_left _).add (ih hrest)
      _ = (a.toNat * 256 + b.toNat) + (words16 rest).sum := by rw [Nat.mul_one]

theorem sum_words16_eq_zero_iff (xs : List UInt8) : (words16 xs).sum = 0 ↔ ∀ b ∈ xs, b = 0 := by
  induction xs using words16.induct with
  | case1 => simp
  | case2 a =>
    simp only [words16, List.sum_cons, List.sum_nil, List.forall_mem_cons, List.not_mem_nil,
      IsEmpty.forall_iff, implies_true, and_true, ← UInt8.toNat_inj, UInt8.toNat_zero]
    omega
  | case3 a b rest ih =>
    rw [words16_cons_cons, List.sum_cons, List.forall_mem_cons, List.forall_mem_cons, ← ih,
      ← UInt8.toNat_inj, ← UInt8.toNat_inj, UInt8.toNat_zero]
    omega

theorem value_eq_zero_iff_sum_words16 (xs : List UInt8) :
    BigEndian.value xs = 0 ↔ (words16 xs).sum = 0 := by
  rw [BigEndian.value_eq_zero_iff, sum_words16_eq_zero_iff]

end OnesComplement
