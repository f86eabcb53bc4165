import WaterWall.Libc.Decimal

/-!
# `cJSON` numbers and the 64-bit helpers

`parse_number` and `print_number` (`ww/vendor/cjson/cJSON.c`), in the project's version of
`cJSON` where `valueint` is an `int64_t` that keeps integer tokens exactly, and the helpers of
`ww/utils/json_helpers.h` that carry `uint64_t` counters through JSON: `jsonAddUint64ToObject`
writes a value up to `INT64_MAX` as a number and a larger one as a decimal string, and
`getUint64FromJson` reads either back.

* `parse_number_printDec`: the digits `print_number` writes for a non-negative integer item parse
  back to it, whatever follows them that cannot continue a number.
* `getUint64FromJson_jsonAddUint64ToObject`: every `uint64_t` comes back from the item
  `jsonAddUint64ToObject` makes, also through its printed text.
* `getUint64FromJson_clampedToken`: a token whose `double` is `2 ^ 63` saturates `valueint` at
  `LLONG_MAX`, whose `double` is `2 ^ 63` again, so the value read is `2 ^ 63 - 1`; and a negative
  token that rounds to zero reads as `0`.
-/

set_option autoImplicit false

namespace WaterWall
namespace CJson

open Ieee754 Libc

def INT64_MAX : Nat := 2 ^ 63 - 1

/-- The fields of a `cJSON` item that the number and string helpers read: a number's `valueint`
and `valuedouble`, a string's `valuestring` up to its terminating NUL. -/
inductive CJsonItem where
  | number (valueint : Int) (valuedouble : Binary64)
  | string (valuestring : List UInt8)
  | other
deriving DecidableEq, Repr

/-- The bytes `parse_number` copies: digits, signs, exponent letters and the point. -/
def isNumberChar (c : UInt8) : Bool :=
  isDigit c || c == 43 || c == 45 || c == 101 || c == 69 || c == 46

/-- `parse_number` on the input from the current offset: the item, and how far the offset moves;
`none` is a parse error.  The copy stops after 63 bytes, at the end of the input or at the first
byte that cannot be in a number, and the point is the "C" locale's. -/
def parse_number (input : List UInt8) : Option (CJsonItem × Nat) :=
  let number_c_string := (input.take 63).takeWhile isNumberChar
  let integer_token := !number_c_string.any fun c => c == 101 || c == 69 || c == 46
  let (number, after_end) := strtod number_c_string
  if after_end = 0 then none
  else
    let item :=
      if integer_token then
        -- strtod cannot keep large integer text exactly; a signed 64-bit token goes to valueint
        let (parsed_integer, integer_end, erange) := strtoll10 number_c_string
        if !erange && integer_end == after_end then
          CJsonItem.number parsed_integer (Binary64.ofInt parsed_integer)
        else .number 0 number
      else if Binary64.le (Binary64.ofInt LLONG_MAX) number then .number LLONG_MAX number
      else if Binary64.le number (Binary64.ofInt LLONG_MIN) then .number LLONG_MIN number
      else .number (Binary64.truncToInt number) number
    some (item, after_end)

/-- `print_number` of a number item: `null` for an infinity, the integer `valueint` when the
`double` is that integer converted, and otherwise `printNonInteger d`, what `"%1.15g"` writes, or
`"%1.17g"` when the first does not read back as `d`: the C library's formatting, a parameter
here.  `none` is a `sprintf` that overran the 26-byte buffer. -/
def print_number (printNonInteger : Binary64 → List UInt8) (valueint : Int)
    (valuedouble : Binary64) : Option (List UInt8) :=
  let d := valuedouble
  let number_buffer :=
    if d.isInf then [110, 117, 108, 108]
    else if d = Binary64.ofInt valueint then printDecInt valueint
    else printNonInteger d
  if number_buffer.length > 26 - 1 then none else some number_buffer

/-- `jsonParseUint64String`: after leading white space, a digit must come; `strtoull` base 10 must
read something without overflow, and only white space may follow it. -/
def jsonParseUint64String (value : List UInt8) : Option Nat :=
  let value := value.drop (value.takeWhile isSpace).length
  match value.head? with
  | none => none
  | some c =>
    if !isDigit c then none
    else
      let (parsed, endp, erange) := strtoull10 value
      if endp = 0 ∨ erange then none
      else if (value.drop endp).all isSpace then some parsed else none

/-- `getUint64FromJson`: a string through `jsonParseUint64String`, a number when `valueint` is
non-negative and `valuedouble` equals it converted to `double`. -/
def getUint64FromJson : CJsonItem → Option Nat
  | .string valuestring => jsonParseUint64String valuestring
  | .number valueint valuedouble =>
    if valueint < 0 ∨ valuedouble ≠ Binary64.ofInt valueint then none else some valueint.toNat
  | .other => none

/-- The item `jsonAddUint64ToObject` adds under its key: a number up to `INT64_MAX`, with
`valueint` the value and `valuedouble` its conversion, and the decimal string of a larger value.
The allocation failures it reports are not modelled. -/
def jsonAddUint64ToObject (value : Nat) : CJsonItem :=
  if value ≤ INT64_MAX then .number value (Binary64.ofInt value)
  else .string (printDec value)

/-! ## Integers through the number printer and parser -/

theorem isNumberChar_of_isDigit {c : UInt8} (h : isDigit c = true) : isNumberChar c = true := by
  simp [isNumberChar, h]

/-- A digit is none of the letters and the point that make a token a floating one. -/
theorem not_float_char_of_isDigit {c : UInt8} (h : isDigit c = true) :
    (c == 101 || c == 69 || c == 46) = false := by
  simp only [isDigit, Bool.and_eq_true, decide_eq_true_eq, UInt8.le_iff_toNat_le] at h
  simp only [Bool.or_eq_false_iff, beq_eq_false_iff_ne, ne_eq, ← UInt8.toNat_inj]
  simp only [UInt8.reduceToNat] at h ⊢
  omega

/-- `parse_number` copies the digits of a value below `10 ^ 63` and stops at the byte after
them. -/
theorem takeWhile_isNumberChar_printDec {n : Nat} (hn : n < 10 ^ 63) {rest : List UInt8}
    (hrest : ∀ c ∈ rest.head?, isNumberChar c = false) :
    ((printDec n ++ rest).take 63).takeWhile isNumberChar = printDec n := by
  have hlen := length_printDec_le (by decide) hn
  have hdig : ∀ c ∈ printDec n, isNumberChar c = true :=
    fun c hc => isNumberChar_of_isDigit (isDigit_of_mem_printDec hc)
  rw [List.take_append, List.take_of_length_le hlen, List.takeWhile_append_of_pos hdig]
  -- what follows the digits starts with a byte that is not in a number
  cases rest with
  | nil => simp
  | cons c cs =>
    cases h : 63 - (printDec n).length with
    | zero => simp
    | succ k =>
      have hc := hrest c rfl
      simp [List.take_succ_cons, hc]

/-- **The printed digits of an integer item parse back to it.** -/
theorem parse_number_printDec {n : Nat} (hn : n ≤ INT64_MAX) {rest : List UInt8}
    (hrest : ∀ c ∈ rest.head?, isNumberChar c = false) :
    parse_number (printDec n ++ rest) =
      some (.number n (Binary64.ofInt n), (printDec n).length) := by
  unfold INT64_MAX at hn
  have hdig : ∀ c ∈ printDec n, isDigit c = true := fun c hc => isDigit_of_mem_printDec hc
  have hint : (printDec n).any (fun c => c == 101 || c == 69 || c == 46) = false :=
    List.any_eq_false.2 fun c hc => by
      rw [not_float_char_of_isDigit (hdig c hc)]
      exact Bool.false_ne_true
  have hpos := length_printDec_ne_zero n
  unfold parse_number
  rw [takeWhile_isNumberChar_printDec (by omega) hrest]
  dsimp only
  rw [hint, strtod_printDec, strtoll10_printDec (by omega)]
  simp [hpos]

theorem print_number_ofInt (printNonInteger : Binary64 → List UInt8) {n : Nat}
    (hn : n ≤ INT64_MAX) :
    print_number printNonInteger n (Binary64.ofInt n) = some (printDec n) := by
  unfold INT64_MAX at hn
  have hfin : (Binary64.ofInt n).isInf = false := by
    cases h : Binary64.ofInt n with
    | finite x => rfl
    | inf b => exact absurd h (Binary64.ofInt_ne_inf (by rw [Int.natAbs_natCast]; omega))
  have hlen := length_printDec_le (n := n) (k := 19) (by decide) (by omega)
  have hdec : printDecInt n = printDec n := by simp [printDecInt]
  simp only [print_number, hfin, if_true, hdec, Bool.false_eq_true, if_false]
  rw [if_neg (by omega)]

theorem getUint64FromJson_number (n : Nat) :
    getUint64FromJson (.number n (Binary64.ofInt n)) = some n := by
  simp [getUint64FromJson]

/-- **The decimal string of a `uint64_t` reads back.** -/
theorem jsonParseUint64String_printDec {n : Nat} (hn : n ≤ ULLONG_MAX) :
    jsonParseUint64String (printDec n) = some n := by
  obtain ⟨c, cs, hcs⟩ := List.exists_cons_of_ne_nil (printDec_ne_nil n)
  have hc : isDigit c = true := isDigit_of_mem_printDec (by rw [hcs]; exact List.mem_cons_self)
  have hws : (printDec n).takeWhile isSpace = [] := by
    rw [hcs, List.takeWhile_cons, (isSpace_of_isDigit hc).1]
    rfl
  have hpos := length_printDec_ne_zero n
  unfold jsonParseUint64String
  rw [hws, List.length_nil, List.drop_zero]
  dsimp only
  rw [hcs, List.head?_cons]
  dsimp only
  rw [← hcs, hc, strtoull10_printDec hn]
  simp [hpos]

/-- **Every `uint64_t` survives `jsonAddUint64ToObject` and `getUint64FromJson`**, and a number
item survives its printing: `print_number` writes digits that `parse_number` reads back to the
same item, whatever byte that cannot continue a number follows them. -/
theorem getUint64FromJson_jsonAddUint64ToObject (printNonInteger : Binary64 → List UInt8)
    {v : Nat} (hv : v ≤ ULLONG_MAX) :
    getUint64FromJson (jsonAddUint64ToObject v) = some v ∧
      ∀ valueint valuedouble, jsonAddUint64ToObject v = .number valueint valuedouble →
        ∃ text, print_number printNonInteger valueint valuedouble = some text ∧
          ∀ rest : List UInt8, (∀ c ∈ rest.head?, isNumberChar c = false) →
            parse_number (text ++ rest) = some (.number valueint valuedouble, text.length) := by
  by_cases h : v ≤ INT64_MAX
  · -- up to `INT64_MAX` the value travels as a JSON number
    rw [jsonAddUint64ToObject, if_pos h]
    refine ⟨getUint64FromJson_number v, fun valueint valuedouble heq => ?_⟩
    obtain ⟨rfl, rfl⟩ := CJsonItem.number.inj heq
    exact ⟨printDec v, print_number_ofInt printNonInteger h, fun rest hrest =>
      parse_number_printDec h hrest⟩
  · -- above it, as the decimal string
    rw [jsonAddUint64ToObject, if_neg h]
    exact ⟨jsonParseUint64String_printDec hv, fun _ _ heq => CJsonItem.noConfusion heq⟩

/-! ## Tokens the check lets through -/

/-- The JSON number token `9223372036854775808.0`, whose value `2 ^ 63` is a `double`. -/
def clampedToken : List UInt8 := "9223372036854775808.0".toList.map fun c => c.toNat.toUInt8

/-- The JSON number token `-1e-400`, negative, whose `double` is zero. -/
def negativeTinyToken : List UInt8 := "-1e-400".toList.map fun c => c.toNat.toUInt8

/-- **Two tokens `getUint64FromJson` reads wrong.**  `9223372036854775808.0` converts to the
`double` `2 ^ 63`, at least `(double) LLONG_MAX`, so `valueint` saturates at `LLONG_MAX`; that
converts back to `2 ^ 63`, the check passes, and the value read is `2 ^ 63 - 1`, which is not the
token's `double`.  `-1e-400` converts to zero, truncates to zero, and is read as `0` although the
token is negative. -/
theorem getUint64FromJson_clampedToken :
    strtod clampedToken = (.finite (2 ^ 63 : Nat), clampedToken.length) ∧
      parse_number clampedToken =
        some (.number LLONG_MAX (.finite (2 ^ 63 : Nat)), clampedToken.length) ∧
      getUint64FromJson (.number LLONG_MAX (.finite (2 ^ 63 : Nat))) = some (2 ^ 63 - 1) ∧
      strtod negativeTinyToken = (.finite 0, negativeTinyToken.length) ∧
      parse_number negativeTinyToken = some (.number 0 (.finite 0), negativeTinyToken.length) ∧
      getUint64FromJson (.number 0 (.finite 0)) = some 0 := by
  decide +kernel

end CJson
end WaterWall
