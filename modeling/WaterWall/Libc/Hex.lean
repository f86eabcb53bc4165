import Mathlib

/-!
# Hexadecimal numbers in C strings

Two functions of the C library, on byte strings, as the library documents them:

* `printHex`, what `snprintf` writes for `"%x"`: the lowercase hexadecimal digits of the
  number, without leading zeros (`"0"` for zero);
* `strtoull`, what `strtoull(s, &endp, 16)` returns and where it leaves `endp`: leading white space,
  an optional sign and an optional `0x` are skipped, the longest run of hexadecimal digits is read,
  and a value too large for `unsigned long long` saturates.

`strtoull_printHex` is the round trip: `strtoull` reads back every number `printHex` writes,
and stops exactly at its end.  The digit facts come from the digit-by-digit description of
`Nat.toDigits` in the core library (`Nat.toDigits_append_toDigits`).
-/

set_option autoImplicit false

namespace WaterWall
namespace Libc

def ULLONG_MAX : Nat := 2 ^ 64 - 1

/-- `isspace` in the "C" locale: space, `'\t'`, `'\n'`, `'\v'`, `'\f'` and `'\r'`. -/
def isSpace (c : UInt8) : Bool := c == 32 || (9 ≤ c && c ≤ 13)

/-- The value of a hexadecimal digit, in either case. -/
def hexDigitValue (c : UInt8) : Option Nat :=
  if 48 ≤ c ∧ c ≤ 57 then some (c.toNat - 48)
  else if 97 ≤ c ∧ c ≤ 102 then some (c.toNat - 87)
  else if 65 ≤ c ∧ c ≤ 70 then some (c.toNat - 55)
  else none

/-- `isxdigit`. -/
def isHexDigit (c : UInt8) : Bool := (hexDigitValue c).isSome

/-- The value of a string of hexadecimal digits, most significant first, on top of `acc`. -/
def hexValue (acc : Nat) (ds : List UInt8) : Nat :=
  ds.foldl (fun acc c => acc * 16 + (hexDigitValue c).getD 0) acc

/-- A `0x` or `0X` that `strtoull` takes as the base prefix: only when a digit follows it. -/
def hexPrefixed : List UInt8 → Bool
  | c :: x :: d :: _ => c == 48 && (x == 120 || x == 88) && isHexDigit d
  | _ => false

/-- `strtoull(s, &endp, 16)` on the C string `s`: the value returned, and how far past `s` the
end pointer is left.  With no digits to convert the value is `0` and `endp` is `s`; a `0x` with
no digit behind it converts as the `0` alone. -/
def strtoull (s : List UInt8) : Nat × Nat :=
  let ws := (s.takeWhile isSpace).length
  let afterWs := s.drop ws
  let sign := if afterWs.head? = some 45 ∨ afterWs.head? = some 43 then 1 else 0
  let afterSign := afterWs.drop sign
  let radix := if hexPrefixed afterSign then 2 else 0
  let digits := (afterSign.drop radix).takeWhile isHexDigit
  if digits = [] then (0, 0)
  else
    let v := hexValue 0 digits
    -- out of range saturates; a `-` negates in `unsigned long long`
    (if ULLONG_MAX < v then ULLONG_MAX
      else if afterWs.head? = some 45 then (2 ^ 64 - v) % 2 ^ 64 else v,
     ws + sign + radix + digits.length)

/-- `snprintf(buf, size, "%x", n)` into a large enough buffer: the lowercase hexadecimal digits
of `n`, as character codes. -/
def printHex (n : Nat) : List UInt8 := (Nat.toDigits 16 n).map fun c => c.toNat.toUInt8

/-! ## Digits -/

/-- The character code of the digit `Nat.digitChar d`. -/
def hexDigitByte (d : Nat) : UInt8 := (Nat.digitChar d).toNat.toUInt8

/-- What a digit byte is: its value, and none of the characters `strtoull` and its callers treat
specially (white space, signs, `x`, `;`, CR, LF, NUL). -/
theorem hexDigitByte_spec : ∀ d : Fin 16,
    hexDigitValue (hexDigitByte d) = some d.val ∧ isSpace (hexDigitByte d) = false ∧
      hexDigitByte d ≠ 45 ∧ hexDigitByte d ≠ 43 ∧ hexDigitByte d ≠ 120 ∧ hexDigitByte d ≠ 88 ∧
      hexDigitByte d ≠ 59 ∧ hexDigitByte d ≠ 13 ∧ hexDigitByte d ≠ 0 := by
  decide

theorem printHex_of_lt {d : Nat} (hd : d < 16) : printHex d = [hexDigitByte d] := by
  rw [printHex, Nat.toDigits_of_lt_base hd]
  rfl

/-- The digits of `16 * m + k` are those of `m` followed by the digit `k`. -/
theorem printHex_digit {m k : Nat} (hk : k < 16) (hm : 0 < m) :
    printHex (16 * m + k) = printHex m ++ [hexDigitByte k] := by
  rw [printHex, ← Nat.toDigits_append_toDigits (by omega) hm hk, List.map_append,
    ← printHex, ← printHex, printHex_of_lt hk]

theorem mem_printHex {n : Nat} {c : UInt8} (hc : c ∈ printHex n) :
    ∃ d : Fin 16, c = hexDigitByte d := by
  induction n using Nat.base_induction 16 (by omega) with
  | single m hm =>
    rw [printHex_of_lt hm, List.mem_singleton] at hc
    exact ⟨⟨m, hm⟩, hc⟩
  | digit m k hk hm ih =>
    rw [printHex_digit hk hm, List.mem_append, List.mem_singleton] at hc
    rcases hc with hc | hc
    · exact ih hc
    · exact ⟨⟨k, hk⟩, hc⟩

theorem printHex_ne_nil (n : Nat) : printHex n ≠ [] := by
  simp [printHex]

theorem isHexDigit_of_mem_printHex {n : Nat} {c : UInt8} (hc : c ∈ printHex n) :
    isHexDigit c = true := by
  obtain ⟨d, rfl⟩ := mem_printHex hc
  simp [isHexDigit, (hexDigitByte_spec d).1]

theorem hexValue_append (acc : Nat) (xs ys : List UInt8) :
    hexValue acc (xs ++ ys) = hexValue (hexValue acc xs) ys := by
  simp [hexValue, List.foldl_append]

theorem hexValue_printHex (n : Nat) : hexValue 0 (printHex n) = n := by
  induction n using Nat.base_induction 16 (by omega) with
  | single m hm =>
    rw [printHex_of_lt hm]
    simp [hexValue, (hexDigitByte_spec ⟨m, hm⟩).1]
  | digit m k hk hm ih =>
    rw [printHex_digit hk hm, hexValue_append, ih]
    simp [hexValue, (hexDigitByte_spec ⟨k, hk⟩).1]
    omega

theorem length_printHex_le {n k : Nat} (hk : 0 < k) (hn : n < 16 ^ k) : (printHex n).length ≤ k := by
  rw [printHex, List.length_map]
  exact (Nat.length_toDigits_le_iff (by omega) hk).mpr hn

/-! ## Reading digits back -/

theorem hexPrefixed_of_hexDigit {ds : List UInt8} (hds : ∀ c ∈ ds, isHexDigit c = true) :
    hexPrefixed ds = false := by
  match ds, hds with
  | c :: x :: d :: rest, hds =>
    have hx : isHexDigit x = true := hds x (by simp)
    have hx120 : x ≠ 120 := by rintro rfl; exact absurd hx (by decide)
    have hx88 : x ≠ 88 := by rintro rfl; exact absurd hx (by decide)
    simp [hexPrefixed, hx120, hx88]
  | [], _ => rfl
  | [_], _ => rfl
  | [_, _], _ => rfl

/-- **`strtoull` reads a run of digits whole.**  A non-empty string of hexadecimal digits and
nothing else converts to its value (saturated), with the end pointer at its end. -/
theorem strtoull_hexDigits {ds : List UInt8} (hne : ds ≠ [])
    (hds : ∀ c ∈ ds, isHexDigit c = true) (hsp : ∀ c ∈ ds.head?, isSpace c = false ∧ c ≠ 45 ∧ c ≠ 43) :
    strtoull ds = (min (hexValue 0 ds) ULLONG_MAX, ds.length) := by
  obtain ⟨c, cs, rfl⟩ := List.exists_cons_of_ne_nil hne
  obtain ⟨hspace, h45, h43⟩ := hsp c rfl
  have hws : (c :: cs).takeWhile isSpace = [] := by simp [hspace]
  have hdig : (c :: cs).takeWhile isHexDigit = c :: cs := List.takeWhile_eq_self_iff.mpr hds
  have hpre := hexPrefixed_of_hexDigit hds
  simp only [strtoull, hws, List.length_nil, List.drop_zero, List.head?_cons, Option.some.injEq,
    h45, h43, or_self, if_false, hpre, hdig, reduceCtorEq, if_false, Nat.zero_add]
  by_cases hv : ULLONG_MAX < hexValue 0 (c :: cs)
  · rw [if_pos hv, Nat.min_eq_right (Nat.le_of_lt hv)]
  · rw [if_neg hv, Nat.min_eq_left (Nat.le_of_not_lt hv)]

/-- **`strtoull` reads back what `"%x"` prints**, up to `ULLONG_MAX`. -/
theorem strtoull_printHex {n : Nat} (hn : n ≤ ULLONG_MAX) :
    strtoull (printHex n) = (n, (printHex n).length) := by
  have hhead : ∀ c ∈ (printHex n).head?, isSpace c = false ∧ c ≠ 45 ∧ c ≠ 43 := by
    intro c hc
    obtain ⟨d, rfl⟩ := mem_printHex (List.mem_of_mem_head? hc)
    obtain ⟨-, hspace, h45, h43, -⟩ := hexDigitByte_spec d
    exact ⟨hspace, h45, h43⟩
  rw [strtoull_hexDigits (printHex_ne_nil n) (fun c hc => isHexDigit_of_mem_printHex hc) hhead,
    hexValue_printHex, Nat.min_eq_left hn]

end Libc
end WaterWall
