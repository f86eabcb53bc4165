import Mathlib
import WaterWall.Float.Binary64
import WaterWall.Libc.Hex

/-!
# Decimal numbers in C strings

The functions of the C library that print and read decimal numbers, on byte strings, as the
library documents them:

* `printDec` and `printDecInt`, what `snprintf` writes for `"%" PRIu64` and `"%" PRId64`;
* `strtoll10` and `strtoull10`, what `strtoll(s, &endp, 10)` and `strtoull(s, &endp, 10)` return,
  where they leave `endp`, and whether they set `errno` to `ERANGE`;
* `strtod`, what `strtod(s, &endp)` returns and where it leaves `endp`, on the strings `cJSON`
  gives it: digits, signs, points and exponent letters only, so the hexadecimal, infinity and NaN
  forms, which need other letters, never apply.  Its value is the decimal value rounded to
  nearest binary64, as the C library computes it.

`strtoll10_printDec`, `strtoull10_printDec` and `strtod_printDec` read back what `printDec`
writes, up to the first byte that is not a digit.
-/

set_option autoImplicit false

namespace WaterWall
namespace Libc

open Ieee754

def LLONG_MAX : Int := 2 ^ 63 - 1

def LLONG_MIN : Int := -2 ^ 63

/-- `isdigit`. -/
def isDigit (c : UInt8) : Bool := 48 ≤ c && c ≤ 57

/-- The value of a string of decimal digits, most significant first, on top of `acc`. -/
def decValue (acc : Nat) (ds : List UInt8) : Nat :=
  ds.foldl (fun acc c => 10 * acc + (c.toNat - 48)) acc

/-- `snprintf(buf, size, "%" PRIu64, n)` into a large enough buffer: the decimal digits of `n`. -/
def printDec (n : Nat) : List UInt8 := (Nat.toDigits 10 n).map fun c => c.toNat.toUInt8

/-- `snprintf(buf, size, "%" PRId64, z)`: a minus sign, then the digits of the magnitude. -/
def printDecInt (z : Int) : List UInt8 :=
  if z < 0 then 45 :: printDec z.natAbs else printDec z.toNat

/-- The white space, the sign and the digits `strtoll` and `strtoull` read: how many bytes of
white space and sign, whether the sign is a minus, and the digits. -/
def scanSignedDigits (s : List UInt8) : Nat × Bool × List UInt8 :=
  let ws := (s.takeWhile isSpace).length
  let afterWs := s.drop ws
  let sign := if afterWs.head? = some 45 ∨ afterWs.head? = some 43 then 1 else 0
  (ws + sign, decide (afterWs.head? = some 45), (afterWs.drop sign).takeWhile isDigit)

/-- `strtoll(s, &endp, 10)`: the value, how far past `s` the end pointer is left, and whether
`errno` is set to `ERANGE`.  With no digits the value is `0` and `endp` is `s`; out of range, the
value saturates at `LLONG_MAX` or `LLONG_MIN`. -/
def strtoll10 (s : List UInt8) : Int × Nat × Bool :=
  let (skipped, neg, digits) := scanSignedDigits s
  if digits = [] then (0, 0, false)
  else
    let v := decValue 0 digits
    let endp := skipped + digits.length
    if neg then
      if (2 : Nat) ^ 63 < v then (LLONG_MIN, endp, true) else (-(v : Int), endp, false)
    else if (2 : Nat) ^ 63 - 1 < v then (LLONG_MAX, endp, true) else ((v : Int), endp, false)

/-- `strtoull(s, &endp, 10)`: as `strtoll10`, but out of range saturates at `ULLONG_MAX`, and a
minus sign negates in `unsigned long long`. -/
def strtoull10 (s : List UInt8) : Nat × Nat × Bool :=
  let (skipped, neg, digits) := scanSignedDigits s
  if digits = [] then (0, 0, false)
  else
    let v := decValue 0 digits
    let endp := skipped + digits.length
    if ULLONG_MAX < v then (ULLONG_MAX, endp, true)
    else if neg then ((2 ^ 64 - v) % 2 ^ 64, endp, false) else (v, endp, false)

/-- The exponent part of a decimal floating constant: `e` or `E`, an optional sign and at least
one digit; its value and its length, or `(0, 0)` when there is none and `strtod` stops before the
`e`. -/
def strtodExponent : List UInt8 → Int × Nat
  | c :: rest =>
    if c = 101 ∨ c = 69 then
      let sign := if rest.head? = some 45 ∨ rest.head? = some 43 then 1 else 0
      let digits := (rest.drop sign).takeWhile isDigit
      if digits = [] then (0, 0)
      else
        let v : Int := decValue 0 digits
        (if rest.head? = some 45 then -v else v, 1 + sign + digits.length)
    else (0, 0)
  | [] => (0, 0)

/-- `strtod(s, &endp)`: optional white space and sign, digits with at most one `.` among them,
at least one digit, then an optional exponent; the value is `±N · 10 ^ e` rounded to nearest,
with `N` the digits read as one integer and `e` the exponent less the number of digits after the
point.  With no digit, the value is `0` and `endp` is `s`. -/
def strtod (s : List UInt8) : Binary64 × Nat :=
  let ws := (s.takeWhile isSpace).length
  let afterWs := s.drop ws
  let neg := decide (afterWs.head? = some 45)
  let sign := if afterWs.head? = some 45 ∨ afterWs.head? = some 43 then 1 else 0
  let afterSign := afterWs.drop sign
  let intDigits := afterSign.takeWhile isDigit
  let afterInt := afterSign.drop intDigits.length
  let point := if afterInt.head? = some 46 then 1 else 0
  let fracDigits := (afterInt.drop point).takeWhile isDigit
  if intDigits.length + fracDigits.length = 0 then (.finite 0, 0)
  else
    let (exp, expLen) := strtodExponent (afterInt.drop (point + fracDigits.length))
    let N := decValue 0 (intDigits ++ fracDigits)
    let e : Int := exp - fracDigits.length
    (if 0 ≤ e then Binary64.ofRatio neg (N * 10 ^ e.toNat) 1
      else Binary64.ofRatio neg N (10 ^ (-e).toNat),
     ws + sign + intDigits.length + point + fracDigits.length + expLen)

/-! ## What `printDec` writes -/

/-- A digit `Nat.toDigits` writes has its code among `'0'` to `'9'`, and keeps it as a byte. -/
theorem toUInt8_of_mem_toDigits {n : Nat} {c : Char} (hc : c ∈ Nat.toDigits 10 n) :
    48 ≤ c.toNat ∧ c.toNat ≤ 57 ∧ c.toNat.toUInt8.toNat = c.toNat := by
  have h := Nat.isDigit_of_mem_toDigits (by decide) (by decide) hc
  simp only [Char.isDigit, Bool.and_eq_true, decide_eq_true_eq] at h
  have h48 : 48 ≤ c.toNat := UInt32.le_iff_toNat_le.1 h.1
  have h57 : c.toNat ≤ 57 := UInt32.le_iff_toNat_le.1 h.2
  refine ⟨h48, h57, ?_⟩
  rw [Nat.toUInt8, UInt8.toNat_ofNat', Nat.mod_eq_of_lt (by omega)]

theorem isDigit_of_mem_printDec {n : Nat} {c : UInt8} (hc : c ∈ printDec n) :
    isDigit c = true := by
  obtain ⟨d, hd, rfl⟩ := List.mem_map.1 hc
  obtain ⟨h48, h57, hbyte⟩ := toUInt8_of_mem_toDigits hd
  simp only [isDigit, Bool.and_eq_true, decide_eq_true_eq, UInt8.le_iff_toNat_le, hbyte]
  exact ⟨h48, h57⟩

theorem printDec_ne_nil (n : Nat) : printDec n ≠ [] := by
  simp [printDec, Nat.toDigits_ne_nil]

theorem length_printDec_ne_zero (n : Nat) : (printDec n).length ≠ 0 :=
  fun h => printDec_ne_nil n (List.eq_nil_of_length_eq_zero h)

theorem decValue_printDec (n : Nat) : decValue 0 (printDec n) = n := by
  rw [decValue, printDec, List.foldl_map]
  conv_rhs => rw [← Nat.ofDigitChars_toDigits (b := 10) (n := n) (by decide) (by decide)]
  rw [Nat.ofDigitChars]
  -- a digit character keeps its code as a byte
  refine List.foldl_ext _ _ _ fun acc c hc => ?_
  rw [(toUInt8_of_mem_toDigits hc).2.2]
  rfl

theorem length_printDec_le {n k : Nat} (hk : 0 < k) (hn : n < 10 ^ k) :
    (printDec n).length ≤ k := by
  rw [printDec, List.length_map]
  exact (Nat.length_toDigits_le_iff (by omega) hk).mpr hn

/-! ## Reading digits back -/

section Digits

variable {ds : List UInt8}

theorem isSpace_of_isDigit {c : UInt8} (h : isDigit c = true) :
    isSpace c = false ∧ c ≠ 45 ∧ c ≠ 43 ∧ c ≠ 46 := by
  simp only [isDigit, Bool.and_eq_true, decide_eq_true_eq, UInt8.le_iff_toNat_le] at h
  simp only [isSpace, Bool.or_eq_false_iff, beq_eq_false_iff_ne, Bool.and_eq_false_iff,
    decide_eq_false_iff_not, ne_eq, UInt8.le_iff_toNat_le, ← UInt8.toNat_inj]
  simp only [UInt8.reduceToNat] at h ⊢
  omega

/-- A run of digits with nothing before it is read whole, as a positive number. -/
theorem scanSignedDigits_of_digits (hne : ds ≠ []) (hds : ∀ c ∈ ds, isDigit c = true) :
    scanSignedDigits ds = (0, false, ds) := by
  obtain ⟨c, cs, rfl⟩ := List.exists_cons_of_ne_nil hne
  obtain ⟨hspace, h45, h43, -⟩ := isSpace_of_isDigit (hds c List.mem_cons_self)
  have hws : (c :: cs).takeWhile isSpace = [] := by simp [hspace]
  simp only [scanSignedDigits, hws, List.length_nil, List.drop_zero, List.head?_cons,
    Option.some.injEq, h45, h43, or_self, if_false, decide_false, List.takeWhile_eq_self_iff.2 hds]

/-- **`strtoll` reads a run of digits whole**, saturating above `LLONG_MAX`. -/
theorem strtoll10_of_digits (hne : ds ≠ []) (hds : ∀ c ∈ ds, isDigit c = true) :
    strtoll10 ds = if (2 : Nat) ^ 63 - 1 < decValue 0 ds then (LLONG_MAX, ds.length, true)
      else ((decValue 0 ds : Nat), ds.length, false) := by
  rw [strtoll10, scanSignedDigits_of_digits hne hds]
  simp only [hne, if_false, Bool.false_eq_true, Nat.zero_add]

/-- **`strtoull` reads a run of digits whole**, saturating above `ULLONG_MAX`. -/
theorem strtoull10_of_digits (hne : ds ≠ []) (hds : ∀ c ∈ ds, isDigit c = true) :
    strtoull10 ds = if ULLONG_MAX < decValue 0 ds then (ULLONG_MAX, ds.length, true)
      else (decValue 0 ds, ds.length, false) := by
  rw [strtoull10, scanSignedDigits_of_digits hne hds]
  simp only [hne, if_false, Bool.false_eq_true, Nat.zero_add]

/-- **`strtod` reads a run of digits whole**, as an integer rounded to `double`. -/
theorem strtod_of_digits (hne : ds ≠ []) (hds : ∀ c ∈ ds, isDigit c = true) :
    strtod ds = (Binary64.ofRatio false (decValue 0 ds) 1, ds.length) := by
  obtain ⟨c, cs, rfl⟩ := List.exists_cons_of_ne_nil hne
  obtain ⟨hspace, h45, h43, -⟩ := isSpace_of_isDigit (hds c List.mem_cons_self)
  have hws : (c :: cs).takeWhile isSpace = [] := by simp [hspace]
  simp only [strtod, hws, List.length_nil, List.drop_zero, List.head?_cons, Option.some.injEq,
    h45, h43, or_self, if_false, decide_false, List.takeWhile_eq_self_iff.2 hds, List.length_cons,
    strtodExponent]
  simp

end Digits

theorem strtoll10_printDec {n : Nat} (hn : n ≤ 2 ^ 63 - 1) :
    strtoll10 (printDec n) = ((n : Int), (printDec n).length, false) := by
  rw [strtoll10_of_digits (printDec_ne_nil n) (fun c hc => isDigit_of_mem_printDec hc),
    decValue_printDec, if_neg (by omega)]

theorem strtoull10_printDec {n : Nat} (hn : n ≤ ULLONG_MAX) :
    strtoull10 (printDec n) = (n, (printDec n).length, false) := by
  rw [strtoull10_of_digits (printDec_ne_nil n) (fun c hc => isDigit_of_mem_printDec hc),
    decValue_printDec, if_neg (by omega)]

theorem strtod_printDec (n : Nat) :
    strtod (printDec n) = (Binary64.ofInt n, (printDec n).length) := by
  rw [strtod_of_digits (printDec_ne_nil n) (fun c hc => isDigit_of_mem_printDec hc),
    decValue_printDec]
  rfl

end Libc
end WaterWall
