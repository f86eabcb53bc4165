import Mathlib

/-!
# Base64

The codecs of `ww/utils/base64.c`, and what an encoding is.

* `wwBase64Encode` walks the input with the position modulo three, writing one character for the
  first byte of a group, one for the second and two for the third, then steps back to the last
  byte and patches the tail with its padding.
* `wwBase64Decode` reads four characters at a time; a `'='` in the third or fourth place ends the
  input, and is accepted only in the final block.
* `wwBase64UrlEncodeNoPadding` writes the URL alphabet with no padding, after checking the buffer
  against `wwBase64UrlEncodedSizeNoPadding`; `wwBase64UrlDecode` counts the pads at the end,
  checks them against the length, then decodes whole blocks and a tail.

All four are compared with `encodeGroups`, the encoding as one writes it down: each group of three
bytes is a 24-bit number written as four 6-bit digits, and a last short group is written with the
digits its bits reach, then padded or not.  `wwBase64Encode_eq` and `wwBase64UrlEncodeChars_eq`
say the encoders write it, `wwBase64Decode_encodeGroups` and `wwBase64UrlDecode_encodeGroups`
that the decoders read it back; `wwBase64Decode_accepts` and `wwBase64UrlDecode_written` bound
what any input can make a decoder write.
-/

set_option autoImplicit false

namespace WaterWall
namespace Base64

/-- The code of an ASCII character. -/
def ascii (c : Char) : UInt8 := c.toNat.toUInt8

/-! ## The tables -/

/-- `base64en`, the standard alphabet. -/
def base64en : List UInt8 :=
  ['A', 'B', 'C', 'D', 'E', 'F', 'G', 'H', 'I', 'J', 'K', 'L', 'M', 'N', 'O', 'P',
   'Q', 'R', 'S', 'T', 'U', 'V', 'W', 'X', 'Y', 'Z', 'a', 'b', 'c', 'd', 'e', 'f',
   'g', 'h', 'i', 'j', 'k', 'l', 'm', 'n', 'o', 'p', 'q', 'r', 's', 't', 'u', 'v',
   'w', 'x', 'y', 'z', '0', '1', '2', '3', '4', '5', '6', '7', '8', '9', '+', '/'].map ascii

def BASE64_PAD : UInt8 := ascii '='

/-- `BASE64DE_FIRST`, the first character `base64de` covers. -/
def BASE64DE_FIRST : UInt8 := ascii '+'

/-- `BASE64DE_LAST`, the last character `base64de` covers. -/
def BASE64DE_LAST : UInt8 := ascii 'z'

/-- `base64de`: the value of each character from `'+'` to `'z'`, `-1` where it is none. -/
def base64de : List Int :=
  [62, -1, -1, -1, 63, 52, 53, 54,
   55, 56, 57, 58, 59, 60, 61, -1,
   -1, -1, -1, -1, -1, -1, 0, 1,
   2, 3, 4, 5, 6, 7, 8, 9,
   10, 11, 12, 13, 14, 15, 16, 17,
   18, 19, 20, 21, 22, 23, 24, 25,
   -1, -1, -1, -1, -1, -1, 26, 27,
   28, 29, 30, 31, 32, 33, 34, 35,
   36, 37, 38, 39, 40, 41, 42, 43,
   44, 45, 46, 47, 48, 49, 50, 51]

/-- The test `wwBase64Decode` makes of each character it decodes: in the table's range and not
`-1` there, and the value it then reads. -/
def base64DecodeValue (ch : UInt8) : Option Nat :=
  if ch < BASE64DE_FIRST ∨ ch > BASE64DE_LAST then none
  else
    let c := base64de.getD (ch - BASE64DE_FIRST).toNat (-1)
    if c = -1 then none else some c.toNat

set_option maxRecDepth 1000 in
theorem base64DecodeValue_base64en : ∀ k < 64, base64DecodeValue (base64en.getD k 0) = some k := by
  decide

set_option maxRecDepth 1000 in
theorem base64en_ne_pad : ∀ k < 64, base64en.getD k 0 ≠ BASE64_PAD := by
  decide

theorem base64DecodeValue_pad : base64DecodeValue BASE64_PAD = none := by
  decide

@[simp] theorem base64DecodeValue_digit (v : Nat) :
    base64DecodeValue (base64en.getD (v % 64) 0) = some (v % 64) :=
  base64DecodeValue_base64en _ (Nat.mod_lt _ (by decide))

@[simp] theorem base64en_digit_ne_pad (v : Nat) : base64en.getD (v % 64) 0 ≠ BASE64_PAD :=
  base64en_ne_pad _ (Nat.mod_lt _ (by decide))

theorem base64en_getD_mem {k : Nat} (hk : k < 64) : base64en.getD k 0 ∈ base64en := by
  have hlen : base64en.length = 64 := rfl
  rw [List.getD_eq_getElem?_getD, List.getElem?_eq_getElem (hlen ▸ hk), Option.getD_some]
  exact List.getElem_mem _

/-! ## What an encoding is -/

/-- The 24-bit number a group of three bytes stands for. -/
def groupValue (a b c : UInt8) : Nat := a.toNat * 65536 + b.toNat * 256 + c.toNat

/-- The padding written after a last group of one or two bytes: `n` copies of `pad`, or nothing
for an encoding without padding. -/
def padding (pad : Option UInt8) (n : Nat) : List UInt8 :=
  match pad with
  | some p => List.replicate n p
  | none => []

/-- The encoding of a byte string with the alphabet `table`: each group of three bytes is its
number's four 6-bit digits, high first; a last group of one or two bytes is the number it stands
for with zero bytes after it, cut to the two or three digits its bits reach, then padded. -/
def encodeGroups (table : List UInt8) (pad : Option UInt8) : List UInt8 → List UInt8
  | a :: b :: c :: rest =>
    let v := groupValue a b c
    [table.getD (v / 262144 % 64) 0, table.getD (v / 4096 % 64) 0, table.getD (v / 64 % 64) 0,
      table.getD (v % 64) 0] ++ encodeGroups table pad rest
  | [a] =>
    let v := groupValue a 0 0
    [table.getD (v / 262144 % 64) 0, table.getD (v / 4096 % 64) 0] ++ padding pad 2
  | [a, b] =>
    let v := groupValue a b 0
    [table.getD (v / 262144 % 64) 0, table.getD (v / 4096 % 64) 0, table.getD (v / 64 % 64) 0] ++
      padding pad 1
  | [] => []

section Encoding

variable (table : List UInt8)

@[simp] theorem padding_some (p : UInt8) (n : Nat) : padding (some p) n = List.replicate n p := rfl

@[simp] theorem padding_none (n : Nat) : padding none n = [] := rfl

theorem length_encodeGroups_some (p : UInt8) :
    ∀ x : List UInt8, (encodeGroups table (some p) x).length = 4 * ((x.length + 2) / 3)
  | a :: b :: c :: rest => by
    simp only [encodeGroups, List.length_append, List.length_cons, List.length_nil,
      length_encodeGroups_some p rest]
    omega
  | [_] => by simp [encodeGroups]
  | [_, _] => by simp [encodeGroups]
  | [] => rfl

/-- Without padding a last group of one or two bytes is two or three characters. -/
theorem length_encodeGroups_none : ∀ x : List UInt8, (encodeGroups table none x).length =
    x.length / 3 * 4 + (if x.length % 3 = 0 then 0 else if x.length % 3 = 1 then 2 else 3)
  | a :: b :: c :: rest => by
    simp only [encodeGroups, List.length_append, List.length_cons, List.length_nil,
      length_encodeGroups_none rest]
    have h : (rest.length + 1 + 1 + 1) % 3 = rest.length % 3 := by omega
    simp only [h]
    omega
  | [_] => by simp [encodeGroups]
  | [_, _] => by simp [encodeGroups]
  | [] => rfl

/-- An encoding is a string of digits, each written with the table, then the padding the last
group needs. -/
theorem encodeGroups_eq_digits (pad : Option UInt8) : ∀ x : List UInt8, ∃ ds : List Nat,
    (∀ d ∈ ds, d < 64) ∧
      encodeGroups table pad x = ds.map (table.getD · 0) ++ padding pad ((3 - x.length % 3) % 3)
  | a :: b :: c :: rest => by
    obtain ⟨ds, hds, h⟩ := encodeGroups_eq_digits pad rest
    let v := groupValue a b c
    refine ⟨[v / 262144 % 64, v / 4096 % 64, v / 64 % 64, v % 64] ++ ds, ?_, ?_⟩
    · intro d hd
      simp only [List.mem_append, List.mem_cons, List.not_mem_nil, or_false] at hd
      rcases hd with (rfl | rfl | rfl | rfl) | hd
      any_goals exact Nat.mod_lt _ (by decide)
      exact hds d hd
    · have hlen : (3 - (a :: b :: c :: rest).length % 3) % 3 = (3 - rest.length % 3) % 3 := by
        simp only [List.length_cons]
        omega
      rw [encodeGroups, h, hlen, List.map_append, List.append_assoc]
      rfl
  | [a] => ⟨[groupValue a 0 0 / 262144 % 64, groupValue a 0 0 / 4096 % 64],
      by simp only [List.mem_cons, List.not_mem_nil, or_false]; omega, rfl⟩
  | [a, b] =>
    ⟨[groupValue a b 0 / 262144 % 64, groupValue a b 0 / 4096 % 64, groupValue a b 0 / 64 % 64],
      by simp only [List.mem_cons, List.not_mem_nil, or_false]; omega, rfl⟩
  | [] => ⟨[], nofun, by cases pad <;> rfl⟩

end Encoding

/-! ## The standard encoder -/

/-- The characters the loop of `wwBase64Encode` writes at input position `i`, by `i % 3`. -/
def wwBase64EncodeStep (input : List UInt8) (i : Nat) : List UInt8 :=
  let cur := (input.getD i 0).toNat
  let prev := (input.getD (i - 1) 0).toNat
  match i % 3 with
  | 0 => [base64en.getD ((cur >>> 2) &&& 0x3F) 0]
  | 1 => [base64en.getD (((prev &&& 0x3) <<< 4) + ((cur >>> 4) &&& 0xF)) 0]
  | _ =>
    [base64en.getD (((prev &&& 0xF) <<< 2) + ((cur >>> 6) &&& 0x3)) 0,
      base64en.getD (cur &&& 0x3F) 0]

/-- What `wwBase64Encode` writes after its loop: it moves back to the last position `i` and,
unless that position closes a group, writes the last character and the padding. -/
def wwBase64EncodePad (input : List UInt8) : List UInt8 :=
  let i := input.length - 1
  let cur := (input.getD i 0).toNat
  if i % 3 = 0 then [base64en.getD ((cur &&& 0x3) <<< 4) 0, BASE64_PAD, BASE64_PAD]
  else if i % 3 = 1 then [base64en.getD ((cur &&& 0xF) <<< 2) 0, BASE64_PAD]
  else []

/-- `wwBase64Encode`: the value returned, and the characters written. -/
def wwBase64Encode (input : List UInt8) : Int32 × List UInt8 :=
  if input.length = 0 then (0, [])
  else
    let out :=
      (List.range input.length).flatMap (wwBase64EncodeStep input) ++ wwBase64EncodePad input
    (Int32.ofNat out.length, out)

/-! ## The standard decoder -/

/-- The first byte of a block, from its first two character values. -/
def base64DecodeByte0 (c0 c1 : Nat) : UInt8 := ((c0 <<< 2) ||| ((c1 >>> 4) &&& 0x3)).toUInt8

/-- The second byte of a block, from its second and third character values. -/
def base64DecodeByte1 (c1 c2 : Nat) : UInt8 := (((c1 &&& 0xF) <<< 4) ||| ((c2 >>> 2) &&& 0xF)).toUInt8

/-- The third byte of a block, from its last two character values. -/
def base64DecodeByte2 (c2 c3 : Nat) : UInt8 := (((c2 &&& 0x3) <<< 6) ||| c3).toUInt8

/-- The loop of `wwBase64Decode` from input position `i`, on the characters left and with the
bytes `out` written so far: the value returned, and all the bytes written. -/
def wwBase64DecodeLoop (inlen : Nat) : Nat → List UInt8 → List UInt8 → Int32 × List UInt8
  | i, ch0 :: ch1 :: ch2 :: ch3 :: rest, out =>
    match base64DecodeValue ch0, base64DecodeValue ch1 with
    | some c0, some c1 =>
      if ch2 = BASE64_PAD then
        -- `xx==` is only valid in the final block
        if ch3 ≠ BASE64_PAD ∨ i + 4 ≠ inlen then (-1, out)
        else
          let out := out ++ [base64DecodeByte0 c0 c1]
          (Int32.ofNat out.length, out)
      else
        match base64DecodeValue ch2 with
        | none => (-1, out)
        | some c2 =>
          if ch3 = BASE64_PAD then
            -- `xxx=` is only valid in the final block
            if i + 4 ≠ inlen then (-1, out)
            else
              let out := out ++ [base64DecodeByte0 c0 c1, base64DecodeByte1 c1 c2]
              (Int32.ofNat out.length, out)
          else
            match base64DecodeValue ch3 with
            | none => (-1, out)
            | some c3 =>
              wwBase64DecodeLoop inlen (i + 4) rest
                (out ++ [base64DecodeByte0 c0 c1, base64DecodeByte1 c1 c2,
                  base64DecodeByte2 c2 c3])
    | _, _ => (-1, out)
  | _, _, out => (Int32.ofNat out.length, out)

/-- `wwBase64Decode`: the value returned, and the bytes written. -/
def wwBase64Decode (input : List UInt8) : Int32 × List UInt8 :=
  if input.length % 4 ≠ 0 then (-1, [])
  else wwBase64DecodeLoop input.length 0 input []

/-! ## Shifts and masks as arithmetic -/

theorem and_three_eq_mod (x : Nat) : x &&& 0x3 = x % 4 := Nat.and_two_pow_sub_one_eq_mod x 2

theorem and_fifteen_eq_mod (x : Nat) : x &&& 0xF = x % 16 := Nat.and_two_pow_sub_one_eq_mod x 4

theorem and_sixtyThree_eq_mod (x : Nat) : x &&& 0x3F = x % 64 := Nat.and_two_pow_sub_one_eq_mod x 6

theorem shiftLeft_or_eq_add {x y k : Nat} (h : y < 2 ^ k) : x <<< k ||| y = x <<< k + y :=
  (Nat.shiftLeft_add_eq_or_of_lt h x).symm

theorem base64DecodeByte0_toNat (c0 c1 : Nat) :
    (base64DecodeByte0 c0 c1).toNat = (c0 * 4 + c1 / 16 % 4) % 256 := by
  have h : (c1 >>> 4) &&& 0x3 < 2 ^ 2 := by rw [and_three_eq_mod]; omega
  rw [base64DecodeByte0, shiftLeft_or_eq_add h, Nat.shiftLeft_eq, Nat.toUInt8_eq,
    UInt8.toNat_ofNat', and_three_eq_mod, Nat.shiftRight_eq_div_pow]

theorem base64DecodeByte1_toNat (c1 c2 : Nat) :
    (base64DecodeByte1 c1 c2).toNat = (c1 % 16 * 16 + c2 / 4 % 16) % 256 := by
  have h : (c2 >>> 2) &&& 0xF < 2 ^ 4 := by rw [and_fifteen_eq_mod]; omega
  rw [base64DecodeByte1, shiftLeft_or_eq_add h, Nat.shiftLeft_eq, Nat.toUInt8_eq,
    UInt8.toNat_ofNat', and_fifteen_eq_mod, and_fifteen_eq_mod, Nat.shiftRight_eq_div_pow]

theorem base64DecodeByte2_toNat (c2 c3 : Nat) (h3 : c3 < 64) :
    (base64DecodeByte2 c2 c3).toNat = (c2 % 4 * 64 + c3) % 256 := by
  rw [base64DecodeByte2, shiftLeft_or_eq_add (k := 6) h3, Nat.shiftLeft_eq, Nat.toUInt8_eq,
    UInt8.toNat_ofNat', and_three_eq_mod]

/-- The decoder's three bytes, from the four digits of a group, are the group's bytes. -/
theorem base64DecodeBytes_groupValue (a b c : UInt8) :
    base64DecodeByte0 (groupValue a b c / 262144 % 64) (groupValue a b c / 4096 % 64) = a ∧
      base64DecodeByte1 (groupValue a b c / 4096 % 64) (groupValue a b c / 64 % 64) = b ∧
      base64DecodeByte2 (groupValue a b c / 64 % 64) (groupValue a b c % 64) = c := by
  have ha := a.toNat_lt
  have hb := b.toNat_lt
  have hc := c.toNat_lt
  refine ⟨?_, ?_, ?_⟩
  · apply UInt8.toNat_inj.mp
    rw [base64DecodeByte0_toNat, groupValue]
    omega
  · apply UInt8.toNat_inj.mp
    rw [base64DecodeByte1_toNat, groupValue]
    omega
  · apply UInt8.toNat_inj.mp
    rw [base64DecodeByte2_toNat _ _ (Nat.mod_lt _ (by decide)), groupValue]
    omega

/-! ## The encoder writes the encoding -/

section Encoder

variable (a b c : UInt8)

/-- At the first byte of a group the loop writes the group's first digit. -/
theorem wwBase64EncodeStep_zero (l : List UInt8) :
    wwBase64EncodeStep (a :: l) 0 = [base64en.getD (groupValue a b c / 262144 % 64) 0] := by
  have h : (a.toNat >>> 2) &&& 0x3F = groupValue a b c / 262144 % 64 := by
    have := a.toNat_lt; have := b.toNat_lt; have := c.toNat_lt
    rw [and_sixtyThree_eq_mod, Nat.shiftRight_eq_div_pow, groupValue]
    omega
  show [base64en.getD ((a.toNat >>> 2) &&& 0x3F) 0] = _
  rw [h]

/-- At the second byte of a group it writes the second digit, from the first two bytes. -/
theorem wwBase64EncodeStep_one (l : List UInt8) :
    wwBase64EncodeStep (a :: b :: l) 1 = [base64en.getD (groupValue a b c / 4096 % 64) 0] := by
  have h : ((a.toNat &&& 0x3) <<< 4) + ((b.toNat >>> 4) &&& 0xF) = groupValue a b c / 4096 % 64 := by
    have := a.toNat_lt; have := b.toNat_lt; have := c.toNat_lt
    rw [and_three_eq_mod, and_fifteen_eq_mod, Nat.shiftLeft_eq, Nat.shiftRight_eq_div_pow,
      groupValue]
    omega
  show [base64en.getD (((a.toNat &&& 0x3) <<< 4) + ((b.toNat >>> 4) &&& 0xF)) 0] = _
  rw [h]

/-- At the third byte of a group it writes the last two digits. -/
theorem wwBase64EncodeStep_two (l : List UInt8) :
    wwBase64EncodeStep (a :: b :: c :: l) 2 =
      [base64en.getD (groupValue a b c / 64 % 64) 0, base64en.getD (groupValue a b c % 64) 0] := by
  have h₁ : ((b.toNat &&& 0xF) <<< 2) + ((c.toNat >>> 6) &&& 0x3) = groupValue a b c / 64 % 64 := by
    have := a.toNat_lt; have := b.toNat_lt; have := c.toNat_lt
    rw [and_three_eq_mod, and_fifteen_eq_mod, Nat.shiftLeft_eq, Nat.shiftRight_eq_div_pow,
      groupValue]
    omega
  have h₂ : c.toNat &&& 0x3F = groupValue a b c % 64 := by
    have := a.toNat_lt; have := b.toNat_lt; have := c.toNat_lt
    rw [and_sixtyThree_eq_mod, groupValue]
    omega
  show [base64en.getD (((b.toNat &&& 0xF) <<< 2) + ((c.toNat >>> 6) &&& 0x3)) 0,
    base64en.getD (c.toNat &&& 0x3F) 0] = _
  rw [h₁, h₂]

/-- Three positions on, the loop does on the rest what it did at the start. -/
theorem wwBase64EncodeStep_add_three (rest : List UInt8) (i : Nat) :
    wwBase64EncodeStep (a :: b :: c :: rest) (i + 3) = wwBase64EncodeStep rest i := by
  cases i with
  | zero => rfl
  | succ i =>
    -- the byte before `i + 4` is the byte before `i + 1` in the rest
    have hprev : (a :: b :: c :: rest).getD (i + 1 + 3 - 1) 0 = rest.getD (i + 1 - 1) 0 := by
      simp
    simp only [wwBase64EncodeStep, Nat.add_mod_right, hprev, List.getD_cons_succ]

/-- The loop over a string of at least three bytes: the first group's four digits, then the
loop over the rest. -/
theorem flatMap_range_wwBase64EncodeStep (rest : List UInt8) :
    (List.range (a :: b :: c :: rest).length).flatMap (wwBase64EncodeStep (a :: b :: c :: rest)) =
      [base64en.getD (groupValue a b c / 262144 % 64) 0,
        base64en.getD (groupValue a b c / 4096 % 64) 0,
        base64en.getD (groupValue a b c / 64 % 64) 0, base64en.getD (groupValue a b c % 64) 0] ++
      (List.range rest.length).flatMap (wwBase64EncodeStep rest) := by
  rw [List.length_cons, List.length_cons, List.length_cons,
    show rest.length + 1 + 1 + 1 = 3 + rest.length by omega, List.range_add, List.flatMap_append,
    List.flatMap_map]
  congr 1
  · show wwBase64EncodeStep _ 0 ++ (wwBase64EncodeStep _ 1 ++ (wwBase64EncodeStep _ 2 ++ [])) = _
    rw [wwBase64EncodeStep_zero a b c, wwBase64EncodeStep_one a b c, wwBase64EncodeStep_two]
    rfl
  · congr 1
    funext i
    rw [Nat.add_comm, wwBase64EncodeStep_add_three]

/-- Past a whole group the tail is patched as it is for the rest. -/
theorem wwBase64EncodePad_cons (d : UInt8) (rest : List UInt8) :
    wwBase64EncodePad (a :: b :: c :: d :: rest) = wwBase64EncodePad (d :: rest) := by
  have hi : (a :: b :: c :: d :: rest).length - 1 = (d :: rest).length - 1 + 3 := by simp
  simp only [wwBase64EncodePad, hi, Nat.add_mod_right, List.getD_cons_succ]

/-- A last group of one byte is patched with its second digit and two pads. -/
theorem wwBase64EncodePad_one : wwBase64EncodePad [a] =
    [base64en.getD (groupValue a 0 0 / 4096 % 64) 0, BASE64_PAD, BASE64_PAD] := by
  have h : (a.toNat &&& 0x3) <<< 4 = groupValue a 0 0 / 4096 % 64 := by
    have := a.toNat_lt
    rw [and_three_eq_mod, Nat.shiftLeft_eq, groupValue, UInt8.toNat_zero]
    omega
  show [base64en.getD ((a.toNat &&& 0x3) <<< 4) 0, BASE64_PAD, BASE64_PAD] = _
  rw [h]

/-- A last group of two bytes is patched with its third digit and one pad. -/
theorem wwBase64EncodePad_two : wwBase64EncodePad [a, b] =
    [base64en.getD (groupValue a b 0 / 64 % 64) 0, BASE64_PAD] := by
  have h : (b.toNat &&& 0xF) <<< 2 = groupValue a b 0 / 64 % 64 := by
    have := a.toNat_lt; have := b.toNat_lt
    rw [and_fifteen_eq_mod, Nat.shiftLeft_eq, groupValue, UInt8.toNat_zero]
    omega
  show [base64en.getD ((b.toNat &&& 0xF) <<< 2) 0, BASE64_PAD] = _
  rw [h]

/-- **The encoder writes the encoding**: on a non-empty input the loop and the patched tail are
`encodeGroups` with the standard alphabet and padding. -/
theorem wwBase64Encode_chars : ∀ x : List UInt8, x ≠ [] →
    (List.range x.length).flatMap (wwBase64EncodeStep x) ++ wwBase64EncodePad x =
      encodeGroups base64en (some BASE64_PAD) x
  | [], h => absurd rfl h
  | [a], _ => by
    simp only [List.length_singleton, List.range_succ, List.range_zero, List.nil_append,
      List.flatMap_cons, List.flatMap_nil, List.append_nil]
    rw [wwBase64EncodeStep_zero a 0 0, wwBase64EncodePad_one]
    simp only [encodeGroups, padding_some, List.replicate, List.cons_append, List.nil_append]
  | [a, b], _ => by
    simp only [List.length_cons, List.length_nil, List.range_succ, List.range_zero,
      List.nil_append, List.singleton_append, List.flatMap_cons, List.flatMap_nil,
      List.append_nil]
    rw [wwBase64EncodeStep_zero a b 0, wwBase64EncodeStep_one a b 0, wwBase64EncodePad_two]
    simp only [encodeGroups, padding_some, List.replicate, List.cons_append, List.nil_append]
  | [a, b, c], _ => by
    -- the last position closes the group, so there is nothing to patch
    have hpad : wwBase64EncodePad [a, b, c] = [] := rfl
    rw [flatMap_range_wwBase64EncodeStep, hpad]
    simp only [encodeGroups, List.length_nil, List.range_zero, List.flatMap_nil, List.append_nil]
  | a :: b :: c :: d :: rest, _ => by
    rw [flatMap_range_wwBase64EncodeStep, wwBase64EncodePad_cons, List.append_assoc,
      wwBase64Encode_chars (d :: rest) (List.cons_ne_nil _ _), encodeGroups]

/-- `wwBase64Encode` on a non-empty input writes the encoding and returns its length. -/
theorem wwBase64Encode_eq {x : List UInt8} (hx : x ≠ []) :
    wwBase64Encode x = (Int32.ofNat (encodeGroups base64en (some BASE64_PAD) x).length,
      encodeGroups base64en (some BASE64_PAD) x) := by
  have hlen : x.length ≠ 0 := fun h => hx (List.eq_nil_of_length_eq_zero h)
  simp only [wwBase64Encode, if_neg hlen, wwBase64Encode_chars x hx]



end Encoder

/-! ## The decoder reads the encoding back -/

/-- From any position, the loop reads the rest of an encoding back, whatever it wrote before,
and returns the count of all it wrote. -/
theorem wwBase64DecodeLoop_encodeGroups (inlen : Nat) : ∀ (x : List UInt8) (i : Nat)
    (out : List UInt8), i + (encodeGroups base64en (some BASE64_PAD) x).length = inlen →
    wwBase64DecodeLoop inlen i (encodeGroups base64en (some BASE64_PAD) x) out =
      (Int32.ofNat (out ++ x).length, out ++ x)
  | a :: b :: c :: rest, i, out, h => by
    obtain ⟨h0, h1, h2⟩ := base64DecodeBytes_groupValue a b c
    have hlen : i + 4 + (encodeGroups base64en (some BASE64_PAD) rest).length = inlen := by
      simp only [encodeGroups, List.length_append, List.length_cons, List.length_nil] at h
      omega
    simp only [encodeGroups, List.cons_append, List.nil_append, wwBase64DecodeLoop,
      base64DecodeValue_digit, base64en_digit_ne_pad, if_false, h0, h1, h2]
    rw [wwBase64DecodeLoop_encodeGroups inlen rest (i + 4) _ hlen]
    simp
  | [a], i, out, h => by
    -- `xx==` in the final block
    obtain ⟨h0, -, -⟩ := base64DecodeBytes_groupValue a 0 0
    have hi : i + 4 = inlen := h
    simp only [encodeGroups, padding_some, List.replicate, List.cons_append, List.nil_append,
      wwBase64DecodeLoop, base64DecodeValue_digit, hi, ne_eq, not_true_eq_false, or_self,
      if_true, if_false, h0]
  | [a, b], i, out, h => by
    -- `xxx=` in the final block
    obtain ⟨h0, h1, -⟩ := base64DecodeBytes_groupValue a b 0
    have hi : i + 4 = inlen := h
    simp only [encodeGroups, padding_some, List.replicate, List.cons_append, List.nil_append,
      wwBase64DecodeLoop, base64DecodeValue_digit, base64en_digit_ne_pad, hi, ne_eq,
      not_true_eq_false, if_true, if_false, h0, h1]
  | [], i, out, _ => by
    simp [encodeGroups, wwBase64DecodeLoop]

/-- **The decoder reads an encoding back**: all the bytes, and their count as the value. -/
theorem wwBase64Decode_encodeGroups (x : List UInt8) :
    wwBase64Decode (encodeGroups base64en (some BASE64_PAD) x) = (Int32.ofNat x.length, x) := by
  have hmod : (encodeGroups base64en (some BASE64_PAD) x).length % 4 = 0 := by
    rw [length_encodeGroups_some]
    omega
  rw [wwBase64Decode, if_neg (by omega)]
  exact wwBase64DecodeLoop_encodeGroups _ x 0 [] (by omega)



/-! ## What an accepted input makes the decoder write -/

/-- A character the decoder takes a value from is not the pad. -/
theorem ne_pad_of_base64DecodeValue {ch : UInt8} {c : Nat} (h : base64DecodeValue ch = some c) :
    ch ≠ BASE64_PAD := by
  rintro rfl
  rw [base64DecodeValue_pad] at h
  cases h

/-- What one block of the loop can do: fail; end the input with one or two bytes, which only the
final block may, after two characters that are not the pad; or write three bytes and go on, after
four characters none of which is the pad. -/
theorem wwBase64DecodeLoop_cons_cases (inlen i : Nat) (ch0 ch1 ch2 ch3 : UInt8)
    (rest out : List UInt8) :
    (wwBase64DecodeLoop inlen i (ch0 :: ch1 :: ch2 :: ch3 :: rest) out).1 = -1 ∨
      (ch0 ≠ BASE64_PAD ∧ ch1 ≠ BASE64_PAD ∧ i + 4 = inlen ∧ ∃ new : List UInt8, new.length ≤ 2 ∧
        wwBase64DecodeLoop inlen i (ch0 :: ch1 :: ch2 :: ch3 :: rest) out =
          (Int32.ofNat (out ++ new).length, out ++ new)) ∨
      (ch0 ≠ BASE64_PAD ∧ ch1 ≠ BASE64_PAD ∧ ch2 ≠ BASE64_PAD ∧ ch3 ≠ BASE64_PAD ∧
        ∃ bytes : List UInt8, bytes.length = 3 ∧
          wwBase64DecodeLoop inlen i (ch0 :: ch1 :: ch2 :: ch3 :: rest) out =
            wwBase64DecodeLoop inlen (i + 4) rest (out ++ bytes)) := by
  simp only [wwBase64DecodeLoop]
  cases h0 : base64DecodeValue ch0 with
  | none => exact .inl rfl
  | some c0 =>
  cases h1 : base64DecodeValue ch1 with
  | none => exact .inl rfl
  | some c1 =>
  dsimp only
  by_cases h2 : ch2 = BASE64_PAD
  · -- `xx==`
    rw [if_pos h2]
    by_cases hfin : ch3 ≠ BASE64_PAD ∨ i + 4 ≠ inlen
    · exact .inl (by rw [if_pos hfin])
    · rw [if_neg hfin]
      have hi : i + 4 = inlen := by omega
      exact .inr (.inl ⟨ne_pad_of_base64DecodeValue h0, ne_pad_of_base64DecodeValue h1, hi,
        [base64DecodeByte0 c0 c1], Nat.le_succ 1, rfl⟩)
  rw [if_neg h2]
  cases h2' : base64DecodeValue ch2 with
  | none => exact .inl rfl
  | some c2 =>
  dsimp only
  by_cases h3 : ch3 = BASE64_PAD
  · -- `xxx=`
    rw [if_pos h3]
    by_cases hfin : i + 4 ≠ inlen
    · exact .inl (by rw [if_pos hfin])
    · rw [if_neg hfin]
      exact .inr (.inl ⟨ne_pad_of_base64DecodeValue h0, ne_pad_of_base64DecodeValue h1,
        Decidable.of_not_not hfin, [base64DecodeByte0 c0 c1, base64DecodeByte1 c1 c2],
        Nat.le_refl 2, rfl⟩)
  rw [if_neg h3]
  cases h3' : base64DecodeValue ch3 with
  | none => exact .inl rfl
  | some c3 =>
    exact .inr (.inr ⟨ne_pad_of_base64DecodeValue h0, ne_pad_of_base64DecodeValue h1, h2, h3, _,
      rfl, rfl⟩)

/-- From any position, an accepted run of the loop writes at most three bytes a block, and
meets the pad only in the last four characters. -/
theorem wwBase64DecodeLoop_accepts (inlen : Nat) : ∀ (input : List UInt8) (i : Nat)
    (out : List UInt8), i + input.length = inlen →
    (wwBase64DecodeLoop inlen i input out).1 ≠ -1 →
    ∃ new : List UInt8, (wwBase64DecodeLoop inlen i input out).2 = out ++ new ∧
      new.length ≤ 3 * (input.length / 4) ∧ ∀ k < input.length - 4, input[k]? ≠ some BASE64_PAD
  | ch0 :: ch1 :: ch2 :: ch3 :: rest, i, out, hlen, hacc => by
    simp only [List.length_cons] at hlen ⊢
    rcases wwBase64DecodeLoop_cons_cases inlen i ch0 ch1 ch2 ch3 rest out with
      hfail | ⟨-, -, hi, new, hnew, hr⟩ | ⟨h0, h1, h2, h3, bytes, hbytes, hr⟩
    · exact absurd hfail hacc
    · -- the final block: nothing follows it
      refine ⟨new, by rw [hr], by omega, fun k hk => by omega⟩
    · rw [hr] at hacc ⊢
      obtain ⟨new, hout, hnew, hpads⟩ :=
        wwBase64DecodeLoop_accepts inlen rest (i + 4) (out ++ bytes) (by omega) hacc
      refine ⟨bytes ++ new, by rw [hout, List.append_assoc], ?_, ?_⟩
      · rw [List.length_append]
        omega
      · intro k hk
        match k, hk with
        | 0, _ => simpa using h0
        | 1, _ => simpa using h1
        | 2, _ => simpa using h2
        | 3, _ => simpa using h3
        | j + 4, hj => exact hpads j (by omega)
  | [], _, out, _, _ => ⟨[], by simp [wwBase64DecodeLoop], by simp, nofun⟩
  | [_], _, out, _, _ => ⟨[], by simp [wwBase64DecodeLoop], by simp, nofun⟩
  | [_, _], _, out, _, _ => ⟨[], by simp [wwBase64DecodeLoop], by simp, nofun⟩
  | [_, _, _], _, out, _, _ => ⟨[], by simp [wwBase64DecodeLoop], by simp, nofun⟩

/-- An input `wwBase64Decode` accepts makes it write at most `3 * inlen / 4` bytes, and has no
pad before its final block. -/
theorem wwBase64Decode_accepts {input : List UInt8} (h : (wwBase64Decode input).1 ≠ -1) :
    (wwBase64Decode input).2.length ≤ 3 * input.length / 4 ∧
      ∀ k < input.length - 4, input[k]? ≠ some BASE64_PAD := by
  by_cases hmod : input.length % 4 ≠ 0
  · simp only [wwBase64Decode, if_pos hmod] at h
    exact absurd rfl h
  · simp only [wwBase64Decode, if_neg hmod] at h ⊢
    obtain ⟨new, hout, hnew, hpads⟩ := wwBase64DecodeLoop_accepts input.length input 0 [] (by omega) h
    rw [hout, List.nil_append]
    exact ⟨by omega, hpads⟩

/-! ## The URL-safe codec -/

/-- `SIZE_MAX` of a 64-bit `size_t`. -/
def SIZE_MAX : Nat := 2 ^ 64 - 1

/-- `wwBase64UrlEncodedSizeNoPadding`: the length of the unpadded encoding of `input_len` bytes,
or `none` where it would not fit a `size_t`. -/
def wwBase64UrlEncodedSizeNoPadding (input_len : Nat) : Option Nat :=
  let full_groups := input_len / 3
  let rem := input_len % 3
  let rem_bytes := if rem = 0 then 0 else if rem = 1 then 2 else 3
  if full_groups > (SIZE_MAX - rem_bytes) / 4 then none
  else some (full_groups * 4 + rem_bytes)

/-- The `table` of `wwBase64UrlEncodeNoPadding`. -/
def base64UrlTable : List UInt8 :=
  ['A', 'B', 'C', 'D', 'E', 'F', 'G', 'H', 'I', 'J', 'K', 'L', 'M', 'N', 'O', 'P',
   'Q', 'R', 'S', 'T', 'U', 'V', 'W', 'X', 'Y', 'Z', 'a', 'b', 'c', 'd', 'e', 'f',
   'g', 'h', 'i', 'j', 'k', 'l', 'm', 'n', 'o', 'p', 'q', 'r', 's', 't', 'u', 'v',
   'w', 'x', 'y', 'z', '0', '1', '2', '3', '4', '5', '6', '7', '8', '9', '-', '_'].map ascii

/-- The characters `wwBase64UrlEncodeNoPadding` writes: four for each whole group of its
`while (i + 3U <= input_len)` loop, then two or three for the `rem` bytes left. -/
def wwBase64UrlEncodeChars : List UInt8 → List UInt8
  | a :: b :: c :: rest =>
    let v := (a.toNat <<< 16) ||| (b.toNat <<< 8) ||| c.toNat
    [base64UrlTable.getD ((v >>> 18) &&& 0x3F) 0, base64UrlTable.getD ((v >>> 12) &&& 0x3F) 0,
      base64UrlTable.getD ((v >>> 6) &&& 0x3F) 0, base64UrlTable.getD (v &&& 0x3F) 0] ++
      wwBase64UrlEncodeChars rest
  | [a] =>
    let v := a.toNat <<< 16
    [base64UrlTable.getD ((v >>> 18) &&& 0x3F) 0, base64UrlTable.getD ((v >>> 12) &&& 0x3F) 0]
  | [a, b] =>
    let v := (a.toNat <<< 16) ||| (b.toNat <<< 8)
    [base64UrlTable.getD ((v >>> 18) &&& 0x3F) 0, base64UrlTable.getD ((v >>> 12) &&& 0x3F) 0,
      base64UrlTable.getD ((v >>> 6) &&& 0x3F) 0]
  | [] => []

/-- `wwBase64UrlEncodeNoPadding`: whether it succeeds, the bytes it writes (the characters and,
where the buffer has room past them, a terminating NUL) and `*output_len`. -/
def wwBase64UrlEncodeNoPadding (input : List UInt8) (output_capacity : Nat) :
    Bool × List UInt8 × Nat :=
  match wwBase64UrlEncodedSizeNoPadding input.length with
  | none => (false, [], 0)
  | some req_len =>
    if output_capacity < req_len then (false, [], 0)
    else
      (true, wwBase64UrlEncodeChars input ++ (if output_capacity > req_len then [0] else []),
        req_len)

def base64UrlCharValue (c : UInt8) : Int :=
  if c ≥ ascii 'A' ∧ c ≤ ascii 'Z' then (c - ascii 'A').toNat
  else if c ≥ ascii 'a' ∧ c ≤ ascii 'z' then 26 + (c - ascii 'a').toNat
  else if c ≥ ascii '0' ∧ c ≤ ascii '9' then 52 + (c - ascii '0').toNat
  else if c = ascii '-' then 62
  else if c = ascii '_' then 63
  else -1

/-- The first byte of a URL block.  Unlike `base64DecodeByte0` it does not mask `c1 >> 4`. -/
def base64UrlDecodeByte0 (c0 c1 : Nat) : UInt8 := ((c0 <<< 2) ||| (c1 >>> 4)).toUInt8

/-- The second byte of a URL block.  Unlike `base64DecodeByte1` it does not mask `c2 >> 2`. -/
def base64UrlDecodeByte1 (c1 c2 : Nat) : UInt8 := (((c1 &&& 0xF) <<< 4) ||| (c2 >>> 2)).toUInt8

/-- The decoding loop of `wwBase64UrlDecode` over the characters before the padding, with the
bytes `out` written so far: four characters a block while whole blocks are left, then the two or
three of the `rem` tail.  Whether it succeeds, and all the bytes written. -/
def wwBase64UrlDecodeChars : List UInt8 → List UInt8 → Bool × List UInt8
  | c0 :: c1 :: c2 :: c3 :: rest, out =>
    let v0 := base64UrlCharValue c0
    let v1 := base64UrlCharValue c1
    let v2 := base64UrlCharValue c2
    let v3 := base64UrlCharValue c3
    if v0 < 0 ∨ v1 < 0 ∨ v2 < 0 ∨ v3 < 0 then (false, out)
    else
      wwBase64UrlDecodeChars rest
        (out ++ [base64UrlDecodeByte0 v0.toNat v1.toNat, base64UrlDecodeByte1 v1.toNat v2.toNat,
          base64DecodeByte2 v2.toNat v3.toNat])
  | [c0, c1], out =>
    let v0 := base64UrlCharValue c0
    let v1 := base64UrlCharValue c1
    if v0 < 0 ∨ v1 < 0 then (false, out)
    else (true, out ++ [base64UrlDecodeByte0 v0.toNat v1.toNat])
  | [c0, c1, c2], out =>
    let v0 := base64UrlCharValue c0
    let v1 := base64UrlCharValue c1
    let v2 := base64UrlCharValue c2
    if v0 < 0 ∨ v1 < 0 ∨ v2 < 0 then (false, out)
    else
      (true, out ++ [base64UrlDecodeByte0 v0.toNat v1.toNat, base64UrlDecodeByte1 v1.toNat v2.toNat])
  | _, out => (true, out)

/-- `wwBase64UrlDecode`: whether it succeeds, the bytes it writes, and `*output_len`. -/
def wwBase64UrlDecode (input : List UInt8) (output_capacity : Nat) : Bool × List UInt8 × Nat :=
  if input.length = 0 then (true, [], 0)
  else
    let pad_count := (input.reverse.takeWhile (· == ascii '=')).length
    if pad_count > 2 then (false, [], 0)
    else
      let effective_len := input.length - pad_count
      let effective := input.take effective_len
      if ascii '=' ∈ effective then (false, [], 0)
      else if pad_count > 0 ∧ ((effective_len + pad_count) % 4 ≠ 0 ∨
          (pad_count = 1 ∧ effective_len % 4 ≠ 3) ∨ (pad_count = 2 ∧ effective_len % 4 ≠ 2)) then
        (false, [], 0)
      else
        let rem := effective_len % 4
        if rem = 1 then (false, [], 0)
        else
          let decoded_len :=
            effective_len / 4 * 3 + (if rem = 2 then 1 else if rem = 3 then 2 else 0)
          if output_capacity < decoded_len then (false, [], 0)
          else
            match wwBase64UrlDecodeChars effective [] with
            | (true, out) => (true, out, decoded_len)
            | (false, out) => (false, out, 0)

set_option maxRecDepth 1000 in
theorem base64UrlCharValue_table :
    ∀ k < 64, base64UrlCharValue (base64UrlTable.getD k 0) = k := by
  decide

set_option maxRecDepth 1000 in
theorem base64UrlTable_ne_pad : ∀ k < 64, base64UrlTable.getD k 0 ≠ ascii '=' := by
  decide

@[simp] theorem base64UrlCharValue_digit (v : Nat) :
    base64UrlCharValue (base64UrlTable.getD (v % 64) 0) = ((v % 64 : Nat) : Int) :=
  base64UrlCharValue_table _ (Nat.mod_lt _ (by decide))

@[simp] theorem base64UrlTable_digit_ne_pad (v : Nat) : base64UrlTable.getD (v % 64) 0 ≠ ascii '=' :=
  base64UrlTable_ne_pad _ (Nat.mod_lt _ (by decide))

/-! ### The URL encoder writes the unpadded encoding -/

section UrlEncoder

variable (a b c : UInt8)

/-- The encoder's `v` for a whole group is the group's number. -/
theorem urlValue_eq_groupValue :
    (a.toNat <<< 16) ||| (b.toNat <<< 8) ||| c.toNat = groupValue a b c := by
  have hb := b.toNat_lt
  have hc := c.toNat_lt
  have h16 : a.toNat <<< 16 = a.toNat <<< 8 <<< 8 := Nat.shiftLeft_add _ 8 8
  rw [h16, ← Nat.shiftLeft_or_distrib, shiftLeft_or_eq_add (k := 8) hc,
    shiftLeft_or_eq_add (k := 8) hb, groupValue]
  omega

theorem urlValue_two : (a.toNat <<< 16) ||| (b.toNat <<< 8) = groupValue a b 0 := by
  have hb := b.toNat_lt
  have h16 : a.toNat <<< 16 = a.toNat <<< 8 <<< 8 := Nat.shiftLeft_add _ 8 8
  rw [h16, ← Nat.shiftLeft_or_distrib, shiftLeft_or_eq_add (k := 8) hb, Nat.shiftLeft_eq,
    groupValue, UInt8.toNat_zero]
  omega

theorem urlValue_one : a.toNat <<< 16 = groupValue a 0 0 := by
  rw [Nat.shiftLeft_eq, groupValue, UInt8.toNat_zero]
  omega

/-- **The URL encoder writes the encoding** with the URL table and no padding. -/
theorem wwBase64UrlEncodeChars_eq :
    ∀ x : List UInt8, wwBase64UrlEncodeChars x = encodeGroups base64UrlTable none x
  | a :: b :: c :: rest => by
    simp only [wwBase64UrlEncodeChars, encodeGroups, urlValue_eq_groupValue,
      and_sixtyThree_eq_mod, Nat.shiftRight_eq_div_pow, wwBase64UrlEncodeChars_eq rest]
  | [a] => by
    simp only [wwBase64UrlEncodeChars, encodeGroups, urlValue_one, and_sixtyThree_eq_mod,
      Nat.shiftRight_eq_div_pow, padding_none, List.append_nil]
  | [a, b] => by
    simp only [wwBase64UrlEncodeChars, encodeGroups, urlValue_two, and_sixtyThree_eq_mod,
      Nat.shiftRight_eq_div_pow, padding_none, List.append_nil]
  | [] => rfl

end UrlEncoder

/-! ### The URL decoder reads the encoding back -/

theorem natCast_not_neg (n : Nat) : ¬((n : Int) < 0) := by omega

theorem base64UrlDecodeByte0_toNat (c0 c1 : Nat) (h1 : c1 < 64) :
    (base64UrlDecodeByte0 c0 c1).toNat = (c0 * 4 + c1 / 16) % 256 := by
  have h : c1 >>> 4 < 2 ^ 2 := by rw [Nat.shiftRight_eq_div_pow]; omega
  rw [base64UrlDecodeByte0, shiftLeft_or_eq_add h, Nat.shiftLeft_eq, Nat.toUInt8_eq,
    UInt8.toNat_ofNat', Nat.shiftRight_eq_div_pow]

theorem base64UrlDecodeByte1_toNat (c1 c2 : Nat) (h2 : c2 < 64) :
    (base64UrlDecodeByte1 c1 c2).toNat = (c1 % 16 * 16 + c2 / 4) % 256 := by
  have h : c2 >>> 2 < 2 ^ 4 := by rw [Nat.shiftRight_eq_div_pow]; omega
  rw [base64UrlDecodeByte1, shiftLeft_or_eq_add h, Nat.shiftLeft_eq, Nat.toUInt8_eq,
    UInt8.toNat_ofNat', and_fifteen_eq_mod, Nat.shiftRight_eq_div_pow]

/-- The URL decoder's first two bytes, from the digits of a group, are the group's. -/
theorem base64UrlDecodeBytes_groupValue (a b c : UInt8) :
    base64UrlDecodeByte0 (groupValue a b c / 262144 % 64) (groupValue a b c / 4096 % 64) = a ∧
      base64UrlDecodeByte1 (groupValue a b c / 4096 % 64) (groupValue a b c / 64 % 64) = b := by
  have ha := a.toNat_lt
  have hb := b.toNat_lt
  have hc := c.toNat_lt
  constructor
  · apply UInt8.toNat_inj.mp
    rw [base64UrlDecodeByte0_toNat _ _ (Nat.mod_lt _ (by decide)), groupValue]
    omega
  · apply UInt8.toNat_inj.mp
    rw [base64UrlDecodeByte1_toNat _ _ (Nat.mod_lt _ (by decide)), groupValue]
    omega

/-- One whole group: the decoding loop reads its three bytes back and goes on with the rest. -/
theorem wwBase64UrlDecodeChars_group (a b c : UInt8) (rest out : List UInt8) :
    wwBase64UrlDecodeChars (encodeGroups base64UrlTable none (a :: b :: c :: rest)) out =
      wwBase64UrlDecodeChars (encodeGroups base64UrlTable none rest) (out ++ [a, b, c]) := by
  obtain ⟨h0, h1⟩ := base64UrlDecodeBytes_groupValue a b c
  obtain ⟨-, -, h2⟩ := base64DecodeBytes_groupValue a b c
  simp only [encodeGroups, List.cons_append, List.nil_append, wwBase64UrlDecodeChars,
    base64UrlCharValue_digit]
  rw [if_neg (by simp only [natCast_not_neg, or_self, not_false_eq_true]), Int.toNat_natCast,
    Int.toNat_natCast, Int.toNat_natCast, Int.toNat_natCast, h0, h1, h2]

/-- The decoding loop reads an unpadded encoding back, after whatever it wrote before. -/
theorem wwBase64UrlDecodeChars_encodeGroups : ∀ (x out : List UInt8),
    wwBase64UrlDecodeChars (encodeGroups base64UrlTable none x) out = (true, out ++ x)
  | a :: b :: c :: rest, out => by
    rw [wwBase64UrlDecodeChars_group, wwBase64UrlDecodeChars_encodeGroups rest]
    simp
  | [a], out => by
    obtain ⟨h0, -⟩ := base64UrlDecodeBytes_groupValue a 0 0
    simp only [encodeGroups, padding_none, List.append_nil, wwBase64UrlDecodeChars,
      base64UrlCharValue_digit]
    rw [if_neg (by simp only [natCast_not_neg, or_self, not_false_eq_true]), Int.toNat_natCast,
      Int.toNat_natCast, h0]
  | [a, b], out => by
    obtain ⟨h0, h1⟩ := base64UrlDecodeBytes_groupValue a b 0
    simp only [encodeGroups, padding_none, List.append_nil, wwBase64UrlDecodeChars,
      base64UrlCharValue_digit]
    rw [if_neg (by simp only [natCast_not_neg, or_self, not_false_eq_true]), Int.toNat_natCast,
      Int.toNat_natCast, Int.toNat_natCast, h0, h1]
  | [], out => by simp [encodeGroups, wwBase64UrlDecodeChars]

theorem ne_pad_of_mem_encodeGroups {x : List UInt8} {ch : UInt8}
    (h : ch ∈ encodeGroups base64UrlTable none x) : ch ≠ ascii '=' := by
  obtain ⟨ds, hds, hx⟩ := encodeGroups_eq_digits base64UrlTable none x
  rw [hx, padding_none, List.append_nil] at h
  obtain ⟨d, hd, rfl⟩ := List.mem_map.mp h
  exact base64UrlTable_ne_pad d (hds d hd)

/-- The decoder's pre-scan counts exactly the pads put after an encoding. -/
theorem padCount_encodeGroups (x : List UInt8) (p : Nat) :
    ((encodeGroups base64UrlTable none x ++ List.replicate p (ascii '=')).reverse.takeWhile
      (· == ascii '=')).length = p := by
  have hnil : (encodeGroups base64UrlTable none x).reverse.takeWhile (· == ascii '=') = [] := by
    cases h : (encodeGroups base64UrlTable none x).reverse with
    | nil => rfl
    | cons ch _ =>
      have hch : ch ∈ encodeGroups base64UrlTable none x :=
        List.mem_reverse.mp (h ▸ List.mem_cons_self)
      rw [List.takeWhile_cons, if_neg (by simpa using ne_pad_of_mem_encodeGroups hch)]
  rw [List.reverse_append, List.reverse_replicate, List.takeWhile_append_of_pos (by simp), hnil,
    List.append_nil, List.length_replicate]

/-- **The URL decoder reads an encoding back**, with or without its canonical padding, into any
buffer with room for the bytes. -/
theorem wwBase64UrlDecode_encodeGroups (x : List UInt8) (p cap : Nat)
    (hp : p = 0 ∨ p = (4 - (encodeGroups base64UrlTable none x).length % 4) % 4)
    (hcap : x.length ≤ cap) :
    wwBase64UrlDecode (encodeGroups base64UrlTable none x ++ List.replicate p (ascii '=')) cap =
      (true, x, x.length) := by
  have hL := length_encodeGroups_none base64UrlTable x
  have hcount := padCount_encodeGroups x p
  by_cases hx : x = []
  · subst hx
    obtain rfl : p = 0 := by rcases hp with rfl | rfl <;> rfl
    rfl
  have hn : 0 < x.length := List.length_pos_iff.mpr hx
  set chars := encodeGroups base64UrlTable none x with hchars
  -- the unpadded length by the residue of `x.length`, and what the pad checks then see
  have hshape : (x.length % 3 = 0 ∧ chars.length = x.length / 3 * 4) ∨
      (x.length % 3 = 1 ∧ chars.length = x.length / 3 * 4 + 2) ∨
      (x.length % 3 = 2 ∧ chars.length = x.length / 3 * 4 + 3) := by
    rw [hL]
    split_ifs <;> omega
  have hpads : p ≤ 2 ∧ (p > 0 → (chars.length + p) % 4 = 0 ∧ (p = 1 → chars.length % 4 = 3) ∧
      (p = 2 → chars.length % 4 = 2)) := by
    rcases hp with rfl | rfl <;> omega
  have hdec : chars.length / 4 * 3 +
      (if chars.length % 4 = 2 then 1 else if chars.length % 4 = 3 then 2 else 0) = x.length := by
    rcases hshape with ⟨h₁, h₂⟩ | ⟨h₁, h₂⟩ | ⟨h₁, h₂⟩ <;> split_ifs <;> omega
  have hnopad : ascii '=' ∉ chars := fun h => ne_pad_of_mem_encodeGroups h rfl
  simp only [wwBase64UrlDecode, hcount, List.length_append, List.length_replicate,
    Nat.add_sub_cancel, List.take_left]
  rw [if_neg (by omega), if_neg (by omega), if_neg hnopad, if_neg (by omega), if_neg (by omega),
    hdec, if_neg (by omega), wwBase64UrlDecodeChars_encodeGroups, List.nil_append]



/-! ### The URL codec's lengths and bounds -/

/-- The length `wwBase64UrlEncodedSizeNoPadding` reports, where it reports one: four characters
a whole group, and two or three for a last one of one or two bytes. -/
theorem wwBase64UrlEncodedSizeNoPadding_eq {n L : Nat}
    (h : wwBase64UrlEncodedSizeNoPadding n = some L) :
    L = n / 3 * 4 + (if n % 3 = 0 then 0 else if n % 3 = 1 then 2 else 3) := by
  dsimp only [wwBase64UrlEncodedSizeNoPadding] at h
  generalize (if n % 3 = 0 then 0 else if n % 3 = 1 then 2 else 3) = rem_bytes at h ⊢
  split at h
  · cases h
  · exact (Option.some.inj h).symm

/-- Where the size fits and the buffer holds it, `wwBase64UrlEncodeNoPadding` succeeds: it writes
the unpadded encoding, which is that size, and a NUL after it if there is room. -/
theorem wwBase64UrlEncodeNoPadding_ok {x : List UInt8} {L cap : Nat}
    (hL : wwBase64UrlEncodedSizeNoPadding x.length = some L) (hcap : L ≤ cap) :
    (encodeGroups base64UrlTable none x).length = L ∧
      wwBase64UrlEncodeNoPadding x cap =
        (true, encodeGroups base64UrlTable none x ++ (if cap > L then [0] else []), L) := by
  constructor
  · rw [length_encodeGroups_none, wwBase64UrlEncodedSizeNoPadding_eq hL]
  · simp only [wwBase64UrlEncodeNoPadding, hL, if_neg (Nat.not_lt.mpr hcap),
      wwBase64UrlEncodeChars_eq]



/-- The decoding loop writes no more than the bytes its characters stand for, and all of them
when it succeeds. -/
theorem wwBase64UrlDecodeChars_written : ∀ (cs out : List UInt8), ∃ new : List UInt8,
    (wwBase64UrlDecodeChars cs out).2 = out ++ new ∧
      new.length ≤ cs.length / 4 * 3 +
        (if cs.length % 4 = 2 then 1 else if cs.length % 4 = 3 then 2 else 0) ∧
      ((wwBase64UrlDecodeChars cs out).1 = true → new.length = cs.length / 4 * 3 +
        (if cs.length % 4 = 2 then 1 else if cs.length % 4 = 3 then 2 else 0))
  | c0 :: c1 :: c2 :: c3 :: rest, out => by
    simp only [wwBase64UrlDecodeChars]
    by_cases h : base64UrlCharValue c0 < 0 ∨ base64UrlCharValue c1 < 0 ∨
      base64UrlCharValue c2 < 0 ∨ base64UrlCharValue c3 < 0
    · rw [if_pos h]
      exact ⟨[], by simp, by simp, nofun⟩
    · rw [if_neg h]
      set B : List UInt8 :=
        [base64UrlDecodeByte0 (base64UrlCharValue c0).toNat (base64UrlCharValue c1).toNat,
          base64UrlDecodeByte1 (base64UrlCharValue c1).toNat (base64UrlCharValue c2).toNat,
          base64DecodeByte2 (base64UrlCharValue c2).toNat (base64UrlCharValue c3).toNat]
      have hB : B.length = 3 := rfl
      obtain ⟨new, hout, hle, heq⟩ := wwBase64UrlDecodeChars_written rest (out ++ B)
      refine ⟨B ++ new, by rw [hout, List.append_assoc], ?_, fun hok => ?_⟩
      -- four more characters are three more bytes, whatever the tail
      · simp only [List.length_append, hB, List.length_cons]
        split_ifs at hle ⊢ <;> omega
      · have := heq hok
        simp only [List.length_append, hB, List.length_cons]
        split_ifs at this ⊢ <;> omega
  | [c0, c1], out => by
    simp only [wwBase64UrlDecodeChars]
    by_cases h : base64UrlCharValue c0 < 0 ∨ base64UrlCharValue c1 < 0
    · rw [if_pos h]
      exact ⟨[], by simp, by simp, nofun⟩
    · rw [if_neg h]
      exact ⟨_, rfl, by simp, fun _ => by simp⟩
  | [c0, c1, c2], out => by
    simp only [wwBase64UrlDecodeChars]
    by_cases h : base64UrlCharValue c0 < 0 ∨ base64UrlCharValue c1 < 0 ∨
      base64UrlCharValue c2 < 0
    · rw [if_pos h]
      exact ⟨[], by simp, by simp, nofun⟩
    · rw [if_neg h]
      exact ⟨_, rfl, by simp, fun _ => by simp⟩
  | [], out => ⟨[], by simp [wwBase64UrlDecodeChars], by simp, fun _ => by simp⟩
  | [_], out => ⟨[], by simp [wwBase64UrlDecodeChars], by simp, fun _ => by simp⟩

/-- **`wwBase64UrlDecode` stays in its buffer**: it never writes more than `output_capacity`
bytes, and on success `*output_len` is the number it wrote. -/
theorem wwBase64UrlDecode_written (input : List UInt8) (cap : Nat) :
    (wwBase64UrlDecode input cap).2.1.length ≤ cap ∧
      ((wwBase64UrlDecode input cap).1 = true →
        (wwBase64UrlDecode input cap).2.2 = (wwBase64UrlDecode input cap).2.1.length) := by
  simp only [wwBase64UrlDecode]
  by_cases h0 : input.length = 0
  · rw [if_pos h0]
    exact ⟨Nat.zero_le _, fun _ => rfl⟩
  rw [if_neg h0]
  generalize (input.reverse.takeWhile (· == ascii '=')).length = pad_count
  -- what the decoding loop can write, against `decoded_len`
  obtain ⟨new, hout, hle, heq⟩ :=
    wwBase64UrlDecodeChars_written (input.take (input.length - pad_count)) []
  rw [List.length_take, Nat.min_eq_left (Nat.sub_le _ _)] at hle heq
  generalize (input.length - pad_count) / 4 * 3 + (if (input.length - pad_count) % 4 = 2 then 1
    else if (input.length - pad_count) % 4 = 3 then 2 else 0) = decoded_len at hle heq ⊢
  split_ifs with h1 h2 h3 h4 hcap
  any_goals exact ⟨Nat.zero_le _, nofun⟩
  -- the loop runs only once the buffer is known to hold `decoded_len` bytes
  rw [List.nil_append] at hout
  split
  · next out hD =>
    rw [hD] at hout heq
    subst hout
    dsimp only at hle heq ⊢
    exact ⟨by omega, fun _ => (heq rfl).symm⟩
  · next out hD =>
    rw [hD] at hout
    subst hout
    dsimp only at hle ⊢
    exact ⟨by omega, nofun⟩

/-! ## The codecs round-trip and stay in bounds -/

/-- The codecs of `base64.c`.  For every byte string `x` of `n` bytes, `1 ≤ n < 2 ^ 31`,
`wwBase64Encode` writes `4 * ⌈n / 3⌉` characters of the standard alphabet and then its padding,
and `wwBase64Decode` of that returns `n` and writes `x`.  An input `wwBase64Decode` accepts makes
it write at most `3 * inlen / 4` bytes and has no `'='` before its final block.  Where the size
fits and the buffer holds it, `wwBase64UrlEncodeNoPadding` succeeds with that size, and
`wwBase64UrlDecode` of what it wrote, with or without the canonical padding, succeeds with
`*output_len = n` and writes `x`.  `wwBase64UrlDecode` never writes more than
`output_capacity` bytes, and on success `*output_len` is what it wrote. -/
theorem base64_codecs_roundTrip :
    (∀ x : List UInt8, 1 ≤ x.length → x.length < 2 ^ 31 →
      (wwBase64Encode x).2.length = 4 * ((x.length + 2) / 3) ∧
      (∃ body : List UInt8, (∀ ch ∈ body, ch ∈ base64en) ∧
        (wwBase64Encode x).2 = body ++ List.replicate ((3 - x.length % 3) % 3) BASE64_PAD) ∧
      (wwBase64Decode (wwBase64Encode x).2).1.toInt = x.length ∧
      (wwBase64Decode (wwBase64Encode x).2).2 = x) ∧
    (∀ input : List UInt8, (wwBase64Decode input).1 ≠ -1 →
      (wwBase64Decode input).2.length ≤ 3 * input.length / 4 ∧
      ∀ k < input.length - 4, input[k]? ≠ some BASE64_PAD) ∧
    (∀ (x : List UInt8) (L cap : Nat), wwBase64UrlEncodedSizeNoPadding x.length = some L →
      L ≤ cap → ∃ chars : List UInt8, chars.length = L ∧
        wwBase64UrlEncodeNoPadding x cap = (true, chars ++ (if cap > L then [0] else []), L) ∧
        ∀ cap', x.length ≤ cap' →
          wwBase64UrlDecode chars cap' = (true, x, x.length) ∧
          wwBase64UrlDecode (chars ++ List.replicate ((4 - L % 4) % 4) (ascii '=')) cap' =
            (true, x, x.length)) ∧
    (∀ (input : List UInt8) (cap : Nat),
      (wwBase64UrlDecode input cap).2.1.length ≤ cap ∧
      ((wwBase64UrlDecode input cap).1 = true →
        (wwBase64UrlDecode input cap).2.2 = (wwBase64UrlDecode input cap).2.1.length)) := by
  refine ⟨fun x hn hlt => ?_, fun input h => wwBase64Decode_accepts h, fun x L cap hL hcap => ?_,
    wwBase64UrlDecode_written⟩
  · -- the standard codec: the encoder writes `encodeGroups`, the decoder reads it back
    have hx : x ≠ [] := List.ne_nil_of_length_pos hn
    obtain ⟨ds, hds, hdig⟩ := encodeGroups_eq_digits base64en (some BASE64_PAD) x
    rw [wwBase64Encode_eq hx, wwBase64Decode_encodeGroups]
    refine ⟨length_encodeGroups_some base64en BASE64_PAD x, ⟨ds.map (base64en.getD · 0), ?_, hdig⟩,
      Int32.toInt_ofNat_of_lt hlt, rfl⟩
    intro ch hch
    obtain ⟨d, hd, rfl⟩ := List.mem_map.mp hch
    exact base64en_getD_mem (hds d hd)
  · -- the URL codec: the encoder writes the unpadded encoding, which decodes either way
    obtain ⟨hlen, henc⟩ := wwBase64UrlEncodeNoPadding_ok hL hcap
    refine ⟨_, hlen, henc, fun cap' hcap' => ⟨?_, ?_⟩⟩
    · have h := wwBase64UrlDecode_encodeGroups x 0 cap' (.inl rfl) hcap'
      rwa [List.replicate_zero, List.append_nil] at h
    · exact wwBase64UrlDecode_encodeGroups x _ cap' (.inr (by rw [hlen])) hcap'

end Base64
end WaterWall
