import Mathlib
import WaterWall.Bits.Prefix

/-!
# Big-endian byte strings

Every wire format in the repository writes its length and identifier fields most significant byte
first (`htobe16`, `htons`, `(x >> 8) & 0xFF` followed by `x & 0xFF`, ...), and reads them back
with `be16toh` or by shifting bytes in.  This file is the arithmetic of that, with no particular
format in it: `BigEndian.bytes k v` is the `k`-byte encoding of `v` (which keeps `v` modulo
`256 ^ k`, as the C casts to a narrower type do) and `BigEndian.value` reads a byte string back as
a number.

* `value_bytes`: reading back an encoding gives the value modulo `256 ^ k`.
* `bytes_value`: every byte string is the encoding of its value, so a decoder that reads a field
  and an encoder that writes it agree on every bit pattern.
* `compare_value_cons`: byte strings of one length compare as their values do exactly when they
  compare byte by byte, first byte first, as `memcmp` does; and `value_zipWith_and`,
  `value_zipWith_or`, `value_map_not` carry the bytewise operations to the values.
-/

set_option autoImplicit false

namespace BigEndian

/-- The `k` low-order bytes of `v`, most significant first. -/
def bytes : Nat → Nat → List UInt8
  | 0, _ => []
  | k + 1, v => bytes k (v / 256) ++ [UInt8.ofNat v]

/-- The number a byte string spells, most significant byte first. -/
def value (xs : List UInt8) : Nat := xs.foldl (fun acc b => acc * 256 + b.toNat) 0

@[simp] theorem length_bytes (k v : Nat) : (bytes k v).length = k := by
  induction k generalizing v with
  | zero => rfl
  | succ k ih => simp [bytes, ih]

theorem value_foldl (xs : List UInt8) (acc : Nat) :
    xs.foldl (fun acc b => acc * 256 + b.toNat) acc = acc * 256 ^ xs.length + value xs := by
  induction xs generalizing acc with
  | nil => simp [value]
  | cons x xs ih =>
    have hx : value (x :: xs) = x.toNat * 256 ^ xs.length + value xs := by
      show xs.foldl _ (0 * 256 + x.toNat) = _
      rw [ih, Nat.zero_mul, Nat.zero_add]
    rw [List.foldl_cons, ih, hx, List.length_cons, Nat.pow_succ]
    ring

@[simp] theorem value_nil : value [] = 0 := rfl

theorem value_cons (x : UInt8) (xs : List UInt8) :
    value (x :: xs) = x.toNat * 256 ^ xs.length + value xs := by
  rw [value, List.foldl_cons, value_foldl]
  simp

theorem value_append_singleton (xs : List UInt8) (x : UInt8) :
    value (xs ++ [x]) = value xs * 256 + x.toNat := by
  rw [value, List.foldl_append]
  rfl

theorem value_append (xs ys : List UInt8) :
    value (xs ++ ys) = value xs * 256 ^ ys.length + value ys := by
  rw [value, List.foldl_append, value_foldl]
  rfl

theorem value_lt (xs : List UInt8) : value xs < 256 ^ xs.length := by
  induction xs with
  | nil => simp
  | cons x xs ih =>
    rw [value_cons, List.length_cons, Nat.pow_succ]
    have hx : x.toNat < 256 := x.toNat_lt
    calc x.toNat * 256 ^ xs.length + value xs
        < x.toNat * 256 ^ xs.length + 256 ^ xs.length := by omega
      _ = (x.toNat + 1) * 256 ^ xs.length := by rw [Nat.add_mul, Nat.one_mul]
      _ ≤ 256 * 256 ^ xs.length := Nat.mul_le_mul_right _ hx
      _ = 256 ^ xs.length * 256 := Nat.mul_comm _ _

/-- **Reading back an encoding** gives the value, modulo what `k` bytes can hold. -/
theorem value_bytes (k v : Nat) : value (bytes k v) = v % 256 ^ k := by
  induction k generalizing v with
  | zero => simp [bytes, Nat.mod_one]
  | succ k ih =>
    -- the low byte is `v % 256`, the rest is `v / 256` reduced modulo `256 ^ k`
    rw [bytes, value_append_singleton, ih, UInt8.toNat_ofNat', show (2 : Nat) ^ 8 = 256 from rfl,
      Nat.pow_succ, Nat.mul_comm (256 ^ k) 256, Nat.mod_mul, Nat.add_comm, Nat.mul_comm]

/-- **Every byte string is the encoding of its value.** -/
theorem bytes_value (xs : List UInt8) : bytes xs.length (value xs) = xs := by
  induction xs using List.reverseRecOn with
  | nil => rfl
  | append_singleton xs x ih =>
    rw [List.length_append, List.length_singleton, bytes, value_append_singleton]
    have hx : x.toNat < 256 := x.toNat_lt
    have hdiv : (value xs * 256 + x.toNat) / 256 = value xs := by omega
    have hmod : UInt8.ofNat (value xs * 256 + x.toNat) = x := by
      apply UInt8.toNat_inj.mp
      rw [UInt8.toNat_ofNat']
      omega
    rw [hdiv, ih, hmod]

theorem value_eq_zero_iff (xs : List UInt8) : value xs = 0 ↔ ∀ b ∈ xs, b = 0 := by
  induction xs with
  | nil => simp
  | cons x xs ih =>
    have hpow : 0 < 256 ^ xs.length := Nat.pow_pos (by decide)
    rw [value_cons, List.forall_mem_cons, ← ih, ← UInt8.toNat_inj, UInt8.toNat_zero,
      Nat.add_eq_zero_iff, Nat.mul_eq_zero]
    constructor
    · rintro ⟨hx | hx, hrest⟩
      · exact ⟨hx, hrest⟩
      · omega
    · rintro ⟨hx, hrest⟩
      exact ⟨.inl hx, hrest⟩

/-! ## Order and bytewise operations -/

theorem value_injective {xs ys : List UInt8} (hlen : xs.length = ys.length)
    (h : value xs = value ys) : xs = ys := by
  rw [← bytes_value xs, ← bytes_value ys, hlen, h]

theorem value_cons_eq_two_pow (x : UInt8) (xs : List UInt8) :
    value (x :: xs) = 2 ^ (8 * xs.length) * x.toNat + value xs := by
  rw [value_cons, Nat.pow_mul, Nat.mul_comm]

theorem value_lt_two_pow (xs : List UInt8) : value xs < 2 ^ (8 * xs.length) := by
  rw [Nat.pow_mul]
  exact value_lt xs

theorem value_cons_lt_of_lt {x y : UInt8} (xs ys : List UInt8) (hlen : xs.length = ys.length)
    (h : x < y) : value (x :: xs) < value (y :: ys) := by
  rw [value_cons, value_cons, ← hlen]
  have hxy : x.toNat + 1 ≤ y.toNat := UInt8.lt_iff_toNat_lt.1 h
  calc x.toNat * 256 ^ xs.length + value xs
      < x.toNat * 256 ^ xs.length + 256 ^ xs.length := by have := value_lt xs; omega
    _ = (x.toNat + 1) * 256 ^ xs.length := by rw [Nat.add_mul, Nat.one_mul]
    _ ≤ y.toNat * 256 ^ xs.length := Nat.mul_le_mul_right _ hxy
    _ ≤ y.toNat * 256 ^ xs.length + value ys := Nat.le_add_right _ _

/-- **Values compare as `memcmp` does**: by the first byte, and on a tie by the rest. -/
theorem compare_value_cons (x y : UInt8) {xs ys : List UInt8} (hlen : xs.length = ys.length) :
    compare (value (x :: xs)) (value (y :: ys)) =
      if x < y then .lt else if y < x then .gt else compare (value xs) (value ys) := by
  split_ifs with hlt hgt
  · exact compare_lt_iff_lt.2 (value_cons_lt_of_lt xs ys hlen hlt)
  · exact compare_gt_iff_gt.2 (value_cons_lt_of_lt ys xs hlen.symm hgt)
  · -- equal first bytes: the high parts cancel
    obtain rfl : x = y :=
      UInt8.toNat_inj.1 (by rw [UInt8.lt_iff_toNat_lt] at hlt hgt; omega)
    rw [value_cons, value_cons, hlen]
    rcases lt_trichotomy (value xs) (value ys) with h | h | h
    · rw [compare_lt_iff_lt.2 h, compare_lt_iff_lt.2 (by omega)]
    · rw [h, compare_eq_iff_eq.2 rfl, compare_eq_iff_eq.2 rfl]
    · rw [compare_gt_iff_gt.2 h, compare_gt_iff_gt.2 (by omega)]

theorem value_zipWith_and : ∀ {xs ys : List UInt8}, xs.length = ys.length →
    value (List.zipWith (· &&& ·) xs ys) = value xs &&& value ys
  | [], [], _ => rfl
  | x :: xs, y :: ys, h => by
    have hlen : xs.length = ys.length := by simpa using h
    rw [List.zipWith_cons_cons, value_cons_eq_two_pow, value_cons_eq_two_pow,
      value_cons_eq_two_pow, List.length_zipWith, hlen, Nat.min_self, value_zipWith_and hlen,
      UInt8.toNat_and, ← hlen,
      Prefix.two_pow_mul_add_and (value_lt_two_pow xs) (hlen ▸ value_lt_two_pow ys)]

theorem value_zipWith_or : ∀ {xs ys : List UInt8}, xs.length = ys.length →
    value (List.zipWith (· ||| ·) xs ys) = value xs ||| value ys
  | [], [], _ => rfl
  | x :: xs, y :: ys, h => by
    have hlen : xs.length = ys.length := by simpa using h
    rw [List.zipWith_cons_cons, value_cons_eq_two_pow, value_cons_eq_two_pow,
      value_cons_eq_two_pow, List.length_zipWith, hlen, Nat.min_self, value_zipWith_or hlen,
      UInt8.toNat_or, ← hlen,
      Prefix.two_pow_mul_add_or (value_lt_two_pow xs) (hlen ▸ value_lt_two_pow ys)]

/-- Complementing every byte complements the value below `256 ^ length`. -/
theorem value_map_not (xs : List UInt8) :
    value (xs.map (~~~·)) = 256 ^ xs.length - 1 - value xs := by
  induction xs with
  | nil => rfl
  | cons x xs ih =>
    rw [List.map_cons, value_cons, value_cons, List.length_map, ih, UInt8.toNat_not,
      List.length_cons, Nat.pow_succ]
    have hx : x.toNat < 256 := x.toNat_lt
    have hv := value_lt xs
    -- the high part of the complement is `255 - x`
    have hmul : (UInt8.size - 1 - x.toNat) * 256 ^ xs.length =
        255 * 256 ^ xs.length - x.toNat * 256 ^ xs.length := by
      rw [show UInt8.size - 1 - x.toNat = 255 - x.toNat from rfl, Nat.sub_mul]
    have hle : x.toNat * 256 ^ xs.length ≤ 255 * 256 ^ xs.length :=
      Nat.mul_le_mul_right _ (by omega)
    rw [hmul]
    omega

theorem value_append_replicate_zero (xs : List UInt8) (n : Nat) :
    value (xs ++ List.replicate n 0) = value xs * 256 ^ n := by
  induction n with
  | zero => simp
  | succ n ih =>
    rw [List.replicate_succ', ← List.append_assoc, value_append_singleton, ih, Nat.pow_succ]
    simp [Nat.mul_assoc]

end BigEndian
