import WaterWall.Checksum.OnesComplement

/-!
# The portable checksum backend

`checksumDefault` sums a buffer as big-endian words, 64 bits at a time while it can, then 32, 16
and a trailing byte, in a 64-bit register that counts the carries out of it.  It then adds the
carries back in, folds the sum to 32 bits, adds the caller's seed (the pseudo-header sum) in 32
bits, folds to 16 bits and complements.  The result is in network order, which on the
little-endian hosts the checksum backends are built for is the byte swap of the host value.

* `checksumRef` is the checksum of RFC 1071 that every backend is to compute.
* `checksumDefault_eq_checksumRef`: the backend computes it whenever neither of its two
  unchecked additions wraps, `sum += carry` in 64 bits and `initial + checksumBuffer` in 32.
* `checksumDefault_lostCarry`: either addition can wrap, and the carry lost makes the checksum
  one off: for eight bytes `ff` with seed 1, and for sixteen bytes `ff` followed by
  `00 00 00 00 00 00 00 01` with seed 0.
-/

set_option autoImplicit false

namespace WaterWall
namespace Net

open OnesComplement

/-! ## The model -/

/-- `readBigEndian64`, `readBigEndian32` and `readBigEndian16`: the first `width` bytes, most
significant first, widened to the `uint64_t` they are added as. -/
def readBigEndian (width : Nat) (data : List UInt8) : UInt64 :=
  UInt64.ofNat (BigEndian.value (data.take width))

def readBigEndian64 (data : List UInt8) : UInt64 := readBigEndian 8 data

def readBigEndian32 (data : List UInt8) : UInt64 := readBigEndian 4 data

def readBigEndian16 (data : List UInt8) : UInt64 := readBigEndian 2 data

/-- The running `sum` of `checksumBuffer` and the count of `carry`s out of it. -/
structure CarrySum where
  sum : UInt64
  carry : UInt64

def addWithCarry (s : CarrySum) (val : UInt64) : CarrySum :=
  let old_sum := s.sum
  let sum := s.sum + val
  { sum := sum, carry := if sum < old_sum then s.carry + 1 else s.carry }

/-- The body of a loop of `checksumBuffer`: `count` words of `width` bytes, one after the other. -/
def addWords (width : Nat) : Nat → CarrySum → List UInt8 → CarrySum
  | 0, s, _ => s
  | count + 1, s, data => addWords width count (addWithCarry s (readBigEndian width data)) (data.drop width)

/-- A loop of `checksumBuffer`: while `count * width` bytes are left, their `count` words of
`width` bytes are added. -/
def checksumLoop (count width : Nat) (s : CarrySum) (data : List UInt8) : CarrySum × List UInt8 :=
  if h : 0 < count * width ∧ count * width ≤ data.length then
    checksumLoop count width (addWords width count s data) (data.drop (count * width))
  else (s, data)
termination_by data.length
decreasing_by simp only [List.length_drop]; omega

theorem checksumLoop_of_lt {count width : Nat} {s : CarrySum} {data : List UInt8}
    (h : data.length < count * width) : checksumLoop count width s data = (s, data) := by
  rw [checksumLoop, dif_neg (fun h' => absurd h'.2 (by omega))]

theorem checksumLoop_of_le {count width : Nat} {s : CarrySum} {data : List UInt8}
    (h0 : 0 < count * width) (h : count * width ≤ data.length) :
    checksumLoop count width s data =
      checksumLoop count width (addWords width count s data) (data.drop (count * width)) := by
  rw [checksumLoop, dif_pos ⟨h0, h⟩]

theorem addWords_add (width a b : Nat) (s : CarrySum) (data : List UInt8) :
    addWords width (a + b) s data =
      addWords width b (addWords width a s data) (data.drop (a * width)) := by
  induction a generalizing s data with
  | zero => simp [addWords]
  | succ a ih =>
    rw [Nat.add_right_comm, addWords, addWords, ih, List.drop_drop, Nat.succ_mul, Nat.add_comm width]

/-- A loop of `checksumBuffer` in closed form: as many blocks of `count` words as the buffer
holds whole. -/
theorem checksumLoop_eq (count width : Nat) (s : CarrySum) (data : List UInt8) :
    checksumLoop count width s data =
      if 0 < count * width then
        (addWords width (count * (data.length / (count * width))) s data,
          data.drop (count * width * (data.length / (count * width))))
      else (s, data) := by
  induction h : data.length using Nat.strong_induction_on generalizing s data with
  | _ n ih =>
    by_cases hcw : 0 < count * width
    · rw [if_pos hcw]
      by_cases hle : count * width ≤ data.length
      · -- one more block: the quotient is one more than the rest's
        have hlt : (data.drop (count * width)).length < n := by
          rw [List.length_drop]; omega
        have hq : n / (count * width) = (n - count * width) / (count * width) + 1 :=
          Nat.div_eq_sub_div hcw (h ▸ hle)
        rw [checksumLoop_of_le hcw hle, ih _ hlt _ _ rfl, if_pos hcw, List.length_drop, h, hq,
          Nat.mul_add, Nat.mul_one, Nat.add_comm (count * _) count, addWords_add, List.drop_drop,
          Nat.mul_add (count * width), Nat.mul_one, Nat.add_comm (count * width * _)]
      · rw [checksumLoop_of_lt (by omega), Nat.div_eq_of_lt (by omega), Nat.mul_zero, Nat.mul_zero]
        simp [addWords]
    · rw [if_neg hcw, checksumLoop, dif_neg (fun h' => hcw h'.1)]

theorem toNat_foldStep64 (sum : UInt64) :
    ((sum &&& (0xFFFFFFFF : UInt64)) + (sum >>> 32)).toNat = sum.toNat % 2 ^ 32 + sum.toNat / 2 ^ 32 := by
  have hlt := sum.toNat_lt
  rw [UInt64.toNat_add, UInt64.toNat_and, UInt64.toNat_shiftRight,
    show (0xFFFFFFFF : UInt64).toNat = 2 ^ 32 - 1 from rfl, Nat.and_two_pow_sub_one_eq_mod,
    show (32 : UInt64).toNat % 64 = 32 from rfl, Nat.shiftRight_eq_div_pow, Nat.mod_eq_of_lt]
  have := Nat.mod_lt sum.toNat (show 0 < 2 ^ 32 by decide)
  have : sum.toNat / 2 ^ 32 < 2 ^ 32 := Nat.div_lt_of_lt_mul (by omega)
  omega

/-- The fold of `checksumBuffer`: `while (sum >> 32) sum = (sum & 0xFFFFFFFF) + (sum >> 32)`. -/
def foldSum64 (sum : UInt64) : UInt64 :=
  if sum >>> 32 ≠ 0 then foldSum64 ((sum &&& (0xFFFFFFFF : UInt64)) + (sum >>> 32)) else sum
termination_by sum.toNat
decreasing_by
  rw [toNat_foldStep64]
  apply mod_add_div_lt (by decide)
  rw [Ne, ← UInt64.toNat_inj, UInt64.toNat_shiftRight, UInt64.toNat_zero,
    show (32 : UInt64).toNat % 64 = 32 from rfl, Nat.shiftRight_eq_div_pow] at *
  have := Nat.div_pos_iff.1 (Nat.pos_of_ne_zero ‹_›)
  omega

/-- The end of `checksumBuffer`'s loops: a byte left over is the high byte of a word. -/
def addOddByte (s : CarrySum) : List UInt8 → CarrySum
  | [] => s
  | b :: _ => addWithCarry s (b.toUInt64 <<< 8)

/-- The loops of `checksumBuffer`: the buffer's big-endian words added up, 64 bits at a time
while eight bytes are left, then 32 and 16 bits, with the carries out of the sum counted. -/
def checksumBufferSum (data : List UInt8) : CarrySum :=
  let r := checksumLoop 8 8 ⟨0, 0⟩ data
  let r := checksumLoop 4 8 r.1 r.2
  let r := checksumLoop 2 8 r.1 r.2
  let r := checksumLoop 1 8 r.1 r.2
  let r := checksumLoop 1 4 r.1 r.2
  let r := checksumLoop 1 2 r.1 r.2
  addOddByte r.1 r.2

/-- `checksumBuffer`: the sum with the carries added back in, folded to 32 bits. -/
def checksumBuffer (data : List UInt8) : UInt32 :=
  let s := checksumBufferSum data
  let sum := s.sum + s.carry
  (foldSum64 sum).toUInt32

theorem toNat_foldStep32 (sum : UInt32) :
    ((sum &&& (0xFFFF : UInt32)) + (sum >>> 16)).toNat = sum.toNat % 2 ^ 16 + sum.toNat / 2 ^ 16 := by
  have hlt := sum.toNat_lt
  rw [UInt32.toNat_add, UInt32.toNat_and, UInt32.toNat_shiftRight,
    show (0xFFFF : UInt32).toNat = 2 ^ 16 - 1 from rfl, Nat.and_two_pow_sub_one_eq_mod,
    show (16 : UInt32).toNat % 32 = 16 from rfl, Nat.shiftRight_eq_div_pow, Nat.mod_eq_of_lt]
  have := Nat.mod_lt sum.toNat (show 0 < 2 ^ 16 by decide)
  have : sum.toNat / 2 ^ 16 < 2 ^ 16 := Nat.div_lt_of_lt_mul (by omega)
  omega

/-- The fold of `finalizeChecksum`: `while (sum >> 16) sum = (sum & 0xFFFF) + (sum >> 16)`. -/
def foldSum32 (sum : UInt32) : UInt32 :=
  if sum >>> 16 ≠ 0 then foldSum32 ((sum &&& (0xFFFF : UInt32)) + (sum >>> 16)) else sum
termination_by sum.toNat
decreasing_by
  rw [toNat_foldStep32]
  apply mod_add_div_lt (by decide)
  rw [Ne, ← UInt32.toNat_inj, UInt32.toNat_shiftRight, UInt32.toNat_zero,
    show (16 : UInt32).toNat % 32 = 16 from rfl, Nat.shiftRight_eq_div_pow] at *
  have := Nat.div_pos_iff.1 (Nat.pos_of_ne_zero ‹_›)
  omega

/-- `finalizeChecksum`: fold the carries and complement. -/
def finalizeChecksum (sum : UInt32) : UInt16 := (~~~(foldSum32 sum)).toUInt16

/-- `lwip_htons` on a little-endian host: the two bytes swapped. -/
def lwip_htons (x : UInt16) : UInt16 := (x <<< 8) ||| (x >>> 8)

/-- `cChecksum`: the buffer's sum, the seed added in 32 bits, finalized, in network order. -/
def cChecksum (data : List UInt8) (initial : UInt32) : UInt16 :=
  let sum := initial
  let sum := sum + checksumBuffer data
  lwip_htons (finalizeChecksum sum)

def checksumDefault (data : List UInt8) (initial : UInt32) : UInt16 := cChecksum data initial

/-- The Internet checksum of RFC 1071 with a seed, in network order: the complement of the
end-around-carry sum of the seed and the buffer's big-endian 16-bit words. -/
def checksumRef (data : List UInt8) (initial : Nat) : UInt16 :=
  lwip_htons (~~~(UInt16.ofNat (fold 16 (initial + (words16 data).sum))))

/-! ## The folds are end-around-carry reduction -/

theorem shiftRight32_ne_zero_iff (sum : UInt64) : sum >>> 32 ≠ 0 ↔ 2 ^ 32 ≤ sum.toNat := by
  rw [Ne, ← UInt64.toNat_inj, UInt64.toNat_shiftRight, UInt64.toNat_zero,
    show (32 : UInt64).toNat % 64 = 32 from rfl, Nat.shiftRight_eq_div_pow, ← Ne,
    ← Nat.pos_iff_ne_zero, Nat.div_pos_iff]
  exact ⟨fun h => h.2, fun h => ⟨by decide, h⟩⟩

theorem shiftRight16_ne_zero_iff (sum : UInt32) : sum >>> 16 ≠ 0 ↔ 2 ^ 16 ≤ sum.toNat := by
  rw [Ne, ← UInt32.toNat_inj, UInt32.toNat_shiftRight, UInt32.toNat_zero,
    show (16 : UInt32).toNat % 32 = 16 from rfl, Nat.shiftRight_eq_div_pow, ← Ne,
    ← Nat.pos_iff_ne_zero, Nat.div_pos_iff]
  exact ⟨fun h => h.2, fun h => ⟨by decide, h⟩⟩

theorem toNat_foldSum64 (sum : UInt64) : (foldSum64 sum).toNat = fold 32 sum.toNat := by
  induction h : sum.toNat using Nat.strong_induction_on generalizing sum with
  | _ n ih =>
    rw [foldSum64]
    split_ifs with hhi
    · rw [shiftRight32_ne_zero_iff, h] at hhi
      rw [ih _ (h ▸ toNat_foldStep64 sum ▸ mod_add_div_lt (by decide) (h ▸ hhi)) _ rfl,
        toNat_foldStep64, h, fold_of_le (by decide) hhi]
    · rw [shiftRight32_ne_zero_iff, not_le, h] at hhi
      rw [fold_of_lt hhi, h]

theorem toNat_foldSum32 (sum : UInt32) : (foldSum32 sum).toNat = fold 16 sum.toNat := by
  induction h : sum.toNat using Nat.strong_induction_on generalizing sum with
  | _ n ih =>
    rw [foldSum32]
    split_ifs with hhi
    · rw [shiftRight16_ne_zero_iff, h] at hhi
      rw [ih _ (h ▸ toNat_foldStep32 sum ▸ mod_add_div_lt (by decide) (h ▸ hhi)) _ rfl,
        toNat_foldStep32, h, fold_of_le (by decide) hhi]
    · rw [shiftRight16_ne_zero_iff, not_le, h] at hhi
      rw [fold_of_lt hhi, h]

/-! ## The loops keep the sum of the words read -/

/-- What a running sum stands for: the sum, and a `2 ^ 64` for each carry out of it. -/
def CarrySum.total (s : CarrySum) : ℕ := s.sum.toNat + s.carry.toNat * 2 ^ 64

/-- **`addWithCarry` adds exactly**, as long as the carry count does not wrap. -/
theorem total_addWithCarry (s : CarrySum) (val : UInt64) (hc : s.carry.toNat + 1 < 2 ^ 64) :
    (addWithCarry s val).total = s.total + val.toNat ∧
      (addWithCarry s val).carry.toNat ≤ s.carry.toNat + 1 := by
  have hv := val.toNat_lt
  have hs := s.sum.toNat_lt
  unfold addWithCarry CarrySum.total
  dsimp only
  by_cases hwrap : s.sum.toNat + val.toNat < 2 ^ 64
  · -- no carry out
    have hsum : (s.sum + val).toNat = s.sum.toNat + val.toNat := by
      rw [UInt64.toNat_add, Nat.mod_eq_of_lt hwrap]
    rw [if_neg (by rw [UInt64.lt_iff_toNat_lt, hsum]; omega), hsum]
    omega
  · -- the sum wraps, and the carry is counted
    have hsum : (s.sum + val).toNat = s.sum.toNat + val.toNat - 2 ^ 64 := by
      rw [UInt64.toNat_add, Nat.mod_eq_sub_mod (by omega), Nat.mod_eq_of_lt (by omega)]
    have hcarry : (s.carry + 1).toNat = s.carry.toNat + 1 := by
      rw [UInt64.toNat_add, UInt64.toNat_one, Nat.mod_eq_of_lt hc]
    rw [if_pos (by rw [UInt64.lt_iff_toNat_lt, hsum]; omega), hsum, hcarry]
    constructor
    · rw [Nat.add_mul, Nat.one_mul]
      omega
    · exact le_refl _

/-- `s` is the running sum of the bytes `xs`: equal to the sum of their words modulo
`2 ^ 16 - 1`, zero exactly when that is, and with at most one carry per byte. -/
structure Tracks (s : CarrySum) (xs : List UInt8) : Prop where
  modEq : s.total ≡ (words16 xs).sum [MOD 2 ^ 16 - 1]
  eq_zero_iff : s.total = 0 ↔ (words16 xs).sum = 0
  carry_le : s.carry.toNat ≤ xs.length

theorem tracks_zero : Tracks ⟨0, 0⟩ [] :=
  ⟨rfl, by simp [CarrySum.total], by simp⟩

theorem toNat_readBigEndian {width : Nat} (hw : width ≤ 8) (data : List UInt8) :
    (readBigEndian width data).toNat = BigEndian.value (data.take width) := by
  rw [readBigEndian, UInt64.toNat_ofNat', Nat.mod_eq_of_lt]
  calc BigEndian.value (data.take width) < 256 ^ (data.take width).length := BigEndian.value_lt _
    _ ≤ 256 ^ 8 := Nat.pow_le_pow_right (by decide) (by rw [List.length_take]; omega)
    _ = 2 ^ 64 := by norm_num

/-- Adding a value that stands for a further even run of bytes keeps the sum tracking them. -/
theorem Tracks.add {s : CarrySum} {xs ys : List UInt8} (h : Tracks s xs) (hxs : Even xs.length)
    (hys : 0 < ys.length) (hbound : xs.length + ys.length < 2 ^ 64) {val : UInt64}
    (hmod : val.toNat ≡ (words16 ys).sum [MOD 2 ^ 16 - 1])
    (hzero : val.toNat = 0 ↔ (words16 ys).sum = 0) :
    Tracks (addWithCarry s val) (xs ++ ys) := by
  obtain ⟨htotal, hcarry⟩ := total_addWithCarry s val (by have := h.carry_le; omega)
  refine ⟨?_, ?_, ?_⟩
  · rw [htotal, words16_append hxs, List.sum_append]
    exact h.modEq.add hmod
  · rw [htotal, words16_append hxs, List.sum_append, Nat.add_eq_zero_iff, Nat.add_eq_zero_iff,
      h.eq_zero_iff, hzero]
  · rw [List.length_append]
    have := h.carry_le
    omega

/-- **One read of `width` bytes** keeps the sum tracking the bytes read. -/
theorem Tracks.addWithCarry_read {s : CarrySum} {xs : List UInt8} (h : Tracks s xs)
    (hxs : Even xs.length) {width : Nat} (hw : Even width) (hw0 : 0 < width) (hw8 : width ≤ 8)
    {data : List UInt8} (hlen : width ≤ data.length) (hbound : xs.length + width < 2 ^ 64) :
    Tracks (addWithCarry s (readBigEndian width data)) (xs ++ data.take width) := by
  have hlen' : (data.take width).length = width := by rw [List.length_take]; omega
  apply h.add hxs (by omega) (by omega)
  · rw [toNat_readBigEndian hw8]
    exact value_modEq_words16 (by rw [hlen']; exact hw)
  · rw [toNat_readBigEndian hw8, value_eq_zero_iff_sum_words16]

theorem Tracks.addWords {width : Nat} (hw : Even width) (hw0 : 0 < width) (hw8 : width ≤ 8)
    (count : Nat) : ∀ {s : CarrySum} {xs data : List UInt8}, Tracks s xs → Even xs.length →
      count * width ≤ data.length → xs.length + count * width < 2 ^ 64 →
      Tracks (addWords width count s data) (xs ++ data.take (count * width)) := by
  induction count with
  | zero =>
    intro s xs data h _ _ _
    rw [Nat.zero_mul, List.take_zero, List.append_nil]
    exact h
  | succ n ih =>
    intro s xs data h hxs hlen hbound
    rw [Nat.succ_mul] at hlen hbound
    have hstep : Tracks (addWithCarry s (readBigEndian width data)) (xs ++ data.take width) :=
      h.addWithCarry_read hxs hw hw0 hw8 (by omega) (by omega)
    have htake : (data.take width).length = width := by rw [List.length_take]; omega
    have heven : Even (xs ++ data.take width).length := by
      rw [List.length_append, htake]
      exact hxs.add hw
    have hrest : Tracks (Net.addWords width n (addWithCarry s (readBigEndian width data))
        (data.drop width)) (xs ++ data.take width ++ (data.drop width).take (n * width)) :=
      ih hstep heven (by rw [List.length_drop]; omega) (by rw [List.length_append, htake]; omega)
    rw [Net.addWords, Nat.succ_mul, Nat.add_comm (n * width), List.take_add, ← List.append_assoc]
    exact hrest

/-- What a loop of `checksumBuffer` leaves: the running sum of an even run read off the front
of the buffer, and the rest. -/
def Consumed (data : List UInt8) (r : CarrySum × List UInt8) : Prop :=
  ∃ xs, data = xs ++ r.2 ∧ Even xs.length ∧ Tracks r.1 xs

theorem consumed_start (data : List UInt8) : Consumed data (⟨0, 0⟩, data) :=
  ⟨[], rfl, ⟨0, rfl⟩, tracks_zero⟩

/-- **A loop of `checksumBuffer`** reads an even run off the front while `count * width` bytes
are left, keeping the sum tracking everything read; it stops short of `count * width` bytes. -/
theorem Consumed.checksumLoop {count width : Nat} (hw : Even width) (hw0 : 0 < width)
    (hw8 : width ≤ 8) (hc : 0 < count) {data : List UInt8} (hbound : data.length < 2 ^ 64) :
    ∀ {r : CarrySum × List UInt8}, Consumed data r →
      Consumed data (Net.checksumLoop count width r.1 r.2) ∧
        (Net.checksumLoop count width r.1 r.2).2.length < count * width := by
  intro r
  obtain ⟨s, rest⟩ := r
  induction hn : rest.length using Nat.strong_induction_on generalizing s rest with
  | _ n ih =>
    rintro ⟨xs, hdata, hxs, h⟩
    dsimp only at hdata h ⊢
    have hlen : xs.length + rest.length = data.length := by rw [hdata, List.length_append]
    rw [Net.checksumLoop]
    split_ifs with hge
    · -- one more pass, over the next `count * width` bytes
      have hstep := h.addWords hw hw0 hw8 count hxs hge.2 (by omega)
      have htake : (rest.take (count * width)).length = count * width := by
        rw [List.length_take]
        omega
      refine ih _ (by rw [List.length_drop]; omega) _ _ rfl ⟨xs ++ rest.take (count * width), ?_, ?_, hstep⟩
      · rw [hdata, List.append_assoc, List.take_append_drop]
      · rw [List.length_append, htake]
        exact hxs.add (hw.mul_left count)
    · -- fewer than `count * width` bytes: the loop is done
      refine ⟨⟨xs, hdata, hxs, h⟩, ?_⟩
      have : 0 < count * width := Nat.mul_pos hc hw0
      dsimp only
      omega

theorem toNat_shiftLeft_byte (b : UInt8) : (b.toUInt64 <<< 8).toNat = b.toNat * 256 := by
  have := b.toNat_lt
  rw [UInt64.toNat_shiftLeft, UInt8.toNat_toUInt64, show (8 : UInt64).toNat % 64 = 8 from rfl,
    Nat.shiftLeft_eq, Nat.mod_eq_of_lt (by omega)]

/-- The byte left over, if any, is added as the high byte of a word, so the sum tracks the
whole buffer. -/
theorem Consumed.tracks_addOddByte {data : List UInt8} {r : CarrySum × List UInt8}
    (h : Consumed data r) (hr : r.2.length < 2) (hbound : data.length < 2 ^ 64) :
    Tracks (addOddByte r.1 r.2) data := by
  obtain ⟨xs, hdata, hxs, ht⟩ := h
  obtain ⟨s, rest⟩ := r
  dsimp only at hdata ht hr ⊢
  match rest, hr with
  | [], _ =>
    rw [hdata, List.append_nil]
    exact ht
  | [b], _ =>
    rw [hdata] at hbound ⊢
    rw [List.length_append, List.length_singleton] at hbound
    have hword : (words16 [b]).sum = b.toNat * 256 := by simp [words16]
    apply ht.add hxs (by simp) (by simpa using hbound)
    · rw [toNat_shiftLeft_byte, hword]
    · rw [toNat_shiftLeft_byte, hword]

/-- **The loops of `checksumBuffer` sum the whole buffer**: the running sum they leave tracks
every byte, the trailing odd one included. -/
theorem tracks_checksumBufferSum {data : List UInt8} (hlen : data.length ≤ 65535) :
    Tracks (checksumBufferSum data) data := by
  have hbound : data.length < 2 ^ 64 := by omega
  have hloop : ∀ {count width : Nat} {r : CarrySum × List UInt8}, Even width → 0 < width →
      width ≤ 8 → 0 < count → Consumed data r → Consumed data (checksumLoop count width r.1 r.2) :=
    fun hw hw0 hw8 hc h => (Consumed.checksumLoop hw hw0 hw8 hc hbound h).1
  -- each loop goes on from where the one before it stopped
  have h₁ := @hloop 8 8 _ (by decide) (by decide) (by decide) (by decide) (consumed_start data)
  have h₂ := @hloop 4 8 _ (by decide) (by decide) (by decide) (by decide) h₁
  have h₃ := @hloop 2 8 _ (by decide) (by decide) (by decide) (by decide) h₂
  have h₄ := @hloop 1 8 _ (by decide) (by decide) (by decide) (by decide) h₃
  have h₅ := @hloop 1 4 _ (by decide) (by decide) (by decide) (by decide) h₄
  have h₆ := @Consumed.checksumLoop 1 2 (by decide) (by decide) (by decide) (by decide) data
    hbound _ h₅
  exact h₆.1.tracks_addOddByte h₆.2 hbound

theorem foldSum64_eq (sum : UInt64) : foldSum64 sum = UInt64.ofNat (fold 32 sum.toNat) := by
  have := fold_lt (show 0 < 32 by decide) sum.toNat
  apply UInt64.toNat_inj.1
  rw [toNat_foldSum64, UInt64.toNat_ofNat', Nat.mod_eq_of_lt (by omega)]

theorem foldSum32_eq (sum : UInt32) : foldSum32 sum = UInt32.ofNat (fold 16 sum.toNat) := by
  have := fold_lt (show 0 < 16 by decide) sum.toNat
  apply UInt32.toNat_inj.1
  rw [toNat_foldSum32, UInt32.toNat_ofNat', Nat.mod_eq_of_lt (by omega)]

theorem finalizeChecksum_eq (sum : UInt32) :
    finalizeChecksum sum = ~~~(UInt16.ofNat (fold 16 sum.toNat)) := by
  have hlt := fold_lt (show 0 < 16 by decide) sum.toNat
  apply UInt16.toNat_inj.1
  rw [finalizeChecksum, UInt32.toNat_toUInt16, UInt32.toNat_not, UInt16.toNat_not,
    UInt16.toNat_ofNat', toNat_foldSum32, Nat.mod_eq_of_lt hlt]
  simp only [UInt32.size, UInt16.size]
  omega

theorem toNat_checksumBuffer (data : List UInt8) :
    (checksumBuffer data).toNat =
      fold 32 ((checksumBufferSum data).sum + (checksumBufferSum data).carry).toNat := by
  rw [checksumBuffer, UInt64.toNat_toUInt32, toNat_foldSum64,
    Nat.mod_eq_of_lt (fold_lt (by decide) _)]

/-- The backend is the reference's formula, applied to its own 32-bit sum. -/
theorem checksumDefault_eq_fold (data : List UInt8) (initial : UInt32) :
    checksumDefault data initial =
      lwip_htons (~~~(UInt16.ofNat (fold 16 (initial + checksumBuffer data).toNat))) := by
  rw [checksumDefault, cChecksum, finalizeChecksum_eq]

/-! ## The backend computes the reference unless a carry is lost -/

/-- `2 ^ 16 - 1` divides `2 ^ 32 - 1`, so a 32-bit fold keeps the 16-bit class. -/
theorem modEq_of_fold32 {a b : ℕ} (h : a ≡ b [MOD 2 ^ 32 - 1]) : a ≡ b [MOD 2 ^ 16 - 1] :=
  Nat.ModEq.of_dvd (by decide) h

/-- Carries added back in at the bottom keep the 16-bit class, `2 ^ 64` being one there. -/
theorem sum_add_carry_modEq (s : CarrySum) :
    s.sum.toNat + s.carry.toNat ≡ s.total [MOD 2 ^ 16 - 1] := by
  unfold CarrySum.total
  have hcarry := Nat.ModEq.mul_left s.carry.toNat (show 1 ≡ 2 ^ 64 [MOD 2 ^ 16 - 1] by decide)
  rw [Nat.mul_one] at hcarry
  exact Nat.ModEq.add_left _ hcarry

/-- **`checksumBuffer` keeps the sum of the words**, modulo `2 ^ 16 - 1` and its being zero, as
long as adding the carries back in does not wrap. -/
theorem checksumBuffer_spec {data : List UInt8} (hlen : data.length ≤ 65535)
    (hcarry : (checksumBufferSum data).sum.toNat + (checksumBufferSum data).carry.toNat < 2 ^ 64) :
    (checksumBuffer data).toNat ≡ (words16 data).sum [MOD 2 ^ 16 - 1] ∧
      ((checksumBuffer data).toNat = 0 ↔ (words16 data).sum = 0) := by
  have ht := tracks_checksumBufferSum hlen
  have hbuf : (checksumBuffer data).toNat =
      fold 32 ((checksumBufferSum data).sum.toNat + (checksumBufferSum data).carry.toNat) := by
    rw [toNat_checksumBuffer, UInt64.toNat_add, Nat.mod_eq_of_lt hcarry]
  rw [hbuf]
  constructor
  · exact (modEq_of_fold32 (fold_modEq 32 _)).trans ((sum_add_carry_modEq _).trans ht.modEq)
  · rw [fold_eq_zero_iff, ← ht.eq_zero_iff, CarrySum.total]
    constructor
    · intro h0
      rw [Nat.add_eq_zero_iff] at h0
      rw [h0.1, h0.2, Nat.zero_mul]
    · intro h0
      have := Nat.add_eq_zero_iff.1 h0
      have hc : (checksumBufferSum data).carry.toNat = 0 := by
        rcases Nat.mul_eq_zero.1 this.2 with h | h
        · exact h
        · exact absurd h (by decide)
      omega

/-- **The portable backend is the Internet checksum** whenever neither of its unchecked additions
wraps: `sum += carry` in 64 bits, and the seed added to the buffer's sum in 32 bits. -/
theorem checksumDefault_eq_checksumRef {data : List UInt8} {initial : UInt32}
    (hlen : data.length ≤ 65535)
    (hcarry : (checksumBufferSum data).sum.toNat + (checksumBufferSum data).carry.toNat < 2 ^ 64)
    (hseed : initial.toNat + (checksumBuffer data).toNat < 2 ^ 32) :
    checksumDefault data initial = checksumRef data initial.toNat := by
  obtain ⟨hmod, hzero⟩ := checksumBuffer_spec hlen hcarry
  -- the two 16-bit folds agree
  have hfold : fold 16 (initial.toNat + (checksumBuffer data).toNat) =
      fold 16 (initial.toNat + (words16 data).sum) :=
    fold_congr (by decide) (hmod.add_left _) (by omega)
  rw [checksumDefault_eq_fold, checksumRef, UInt32.toNat_add, Nat.mod_eq_of_lt hseed, hfold]

/-- **Both additions can wrap.**  Eight bytes `ff` sum to `2 ^ 64 - 1`, which folds to `2 ^ 32 - 1`,
and the seed 1 wraps it to 0.  Sixteen bytes `ff` then `00 .. 00 01` leave the sum at
`2 ^ 64 - 1` with one carry, and `sum += carry` wraps to 0.  Either way the code sums to zero
where the reference's sum is one, and the checksums differ in their low bit. -/
theorem checksumDefault_lostCarry :
    checksumDefault (List.replicate 8 0xFF) 1 = 0xFFFF ∧
      checksumRef (List.replicate 8 0xFF) 1 = 0xFEFF ∧
      checksumDefault (List.replicate 16 0xFF ++ List.replicate 7 0 ++ [1]) 0 = 0xFFFF ∧
      checksumRef (List.replicate 16 0xFF ++ List.replicate 7 0 ++ [1]) 0 = 0xFEFF := by
  -- the loops run on these inputs; the folds are evaluated through their closed form
  have hs₁ : checksumBufferSum (List.replicate 8 0xFF) = ⟨0xFFFFFFFFFFFFFFFF, 0⟩ := by
    unfold checksumBufferSum
    simp (disch := decide) only [checksumLoop_of_lt, checksumLoop_of_le]
    rfl
  have hs₂ : checksumBufferSum (List.replicate 16 0xFF ++ List.replicate 7 0 ++ [1]) =
      ⟨0xFFFFFFFFFFFFFFFF, 1⟩ := by
    unfold checksumBufferSum
    simp (disch := decide) only [checksumLoop_of_lt, checksumLoop_of_le]
    rfl
  have hb₁ : checksumBuffer (List.replicate 8 0xFF) = 0xFFFFFFFF := by
    apply UInt32.toNat_inj.1
    rw [toNat_checksumBuffer, hs₁]
    simp (disch := decide) only [fold_eq]
    decide
  have hb₂ : checksumBuffer (List.replicate 16 0xFF ++ List.replicate 7 0 ++ [1]) = 0 := by
    apply UInt32.toNat_inj.1
    rw [toNat_checksumBuffer, hs₂]
    simp (disch := decide) only [fold_of_lt]
    decide
  refine ⟨?_, ?_, ?_, ?_⟩
  · rw [checksumDefault_eq_fold, hb₁]
    simp (disch := decide) only [fold_of_lt]
    decide
  · unfold checksumRef
    simp (disch := decide) only [fold_eq]
    decide
  · rw [checksumDefault_eq_fold, hb₂]
    simp (disch := decide) only [fold_of_lt]
    decide
  · unfold checksumRef
    simp (disch := decide) only [fold_eq]
    decide

end Net
end WaterWall
