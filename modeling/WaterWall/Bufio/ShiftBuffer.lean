import Mathlib

/-!
# `sbuf_t`: padded, shiftable byte buffers

`ww/bufio/shiftbuffer.h` is the buffer every payload in the repository travels in.  An `sbuf_t`
is one allocation of `capacity` bytes with a cursor `curpos` and a length `len`: the payload is
the `len` bytes at `curpos`, the bytes before the cursor are left padding a tunnel can *shift
into* to prepend a header without copying, and the bytes after the payload are room to grow into.

The model keeps the whole allocation (`SBuf.mem`), so that shifting left exposes bytes the encoder
then has to overwrite, and the branches encoders take on `sbufGetLeftCapacity` and
`sbufGetMaximumWriteableSize` are the code's branches.  An operation whose C version `assert`s a
precondition returns `Option`; uninitialised memory is zero bytes, and no result depends on it.

The lemmas are the ones the encoders need: the payload after a header has been written into
shifted-in padding (`payload_write_shiftLeft`), and after a tail has been written behind it
(`payload_writeAt_setLength`).  `sbufTryComputeCapacityWithin`, the allocation-size check every
buffer creation goes through, is modelled in full, since callers branch on it.
-/

set_option autoImplicit false

namespace WaterWall

def UINT32_MAX : Nat := 4294967295

def UINT16_MAX : Nat := 65535

def UINT64_MAX : Nat := 2 ^ 64 - 1

/-- `kCpuLineCacheSize` on every architecture the build targets but ppc64. -/
def kCpuLineCacheSize : Nat := 64

def kSbufAllocationAlignment : Nat := 32

/-- `sizeof(sbuf_t)`, the header that precedes every allocation (a `static_assert` fixes it). -/
def SIZEOF_STRUCT_SBUF : Nat := 32

/-! ## Writing into a byte region -/

/-- `memoryCopy(mem + pos, src, |src|)`: the bytes of `src` replace those at `pos`. -/
def overwrite (mem : List UInt8) (pos : Nat) (src : List UInt8) : List UInt8 :=
  mem.take pos ++ src ++ mem.drop (pos + src.length)

theorem length_overwrite {mem : List UInt8} {pos : Nat} {src : List UInt8}
    (h : pos + src.length ≤ mem.length) : (overwrite mem pos src).length = mem.length := by
  simp only [overwrite, List.length_append, List.length_take, List.length_drop]
  omega

theorem drop_overwrite {mem : List UInt8} {pos : Nat} {src : List UInt8}
    (h : pos + src.length ≤ mem.length) :
    (overwrite mem pos src).drop pos = src ++ mem.drop (pos + src.length) := by
  have hl : (mem.take pos).length = pos := by simp only [List.length_take]; omega
  rw [overwrite, List.append_assoc, List.drop_append_of_le_length (by omega),
    List.drop_of_length_le (by omega), List.nil_append]

theorem take_overwrite {mem : List UInt8} {pos : Nat} {src : List UInt8}
    (h : pos + src.length ≤ mem.length) :
    (overwrite mem pos src).take pos = mem.take pos := by
  have hl : (mem.take pos).length = pos := by simp only [List.length_take]; omega
  rw [overwrite, List.append_assoc, List.take_append_of_le_length (by omega),
    List.take_of_length_le (by omega)]

theorem overwrite_of_length_eq {mem src : List UInt8} (h : src.length = mem.length) :
    overwrite mem 0 src = src := by
  simp [overwrite, List.drop_of_length_le (Nat.le_of_eq h.symm)]

/-- Overwriting a middle part of a split region. -/
theorem overwrite_append {A B C src : List UInt8} (h : B.length = src.length) :
    overwrite (A ++ B ++ C) A.length src = A ++ src ++ C := by
  simp [overwrite, ← h, List.append_assoc]

/-- A region cut at `pos` and `pos + n`, the shape every `overwrite` lemma below is proved on. -/
theorem exists_split (mem : List UInt8) (pos n : Nat) (h : pos + n ≤ mem.length) :
    ∃ A B C, mem = A ++ B ++ C ∧ A.length = pos ∧ B.length = n := by
  refine ⟨mem.take pos, (mem.drop pos).take n, mem.drop (pos + n), ?_, by simp; omega,
    by simp; omega⟩
  rw [List.append_assoc, ← List.drop_drop, List.take_append_drop, List.take_append_drop]

theorem overwrite_overwrite {mem : List UInt8} {pos : Nat} {a b : List UInt8}
    (h : pos + a.length + b.length ≤ mem.length) :
    overwrite (overwrite mem pos a) (pos + a.length) b = overwrite mem pos (a ++ b) := by
  obtain ⟨A, B, C, rfl, rfl, hB⟩ := exists_split mem pos (a.length + b.length) (by omega)
  obtain ⟨B1, B2, W, rfl, hB1, hB2⟩ := exists_split B a.length b.length (by omega)
  obtain rfl : W = [] := List.eq_nil_of_length_eq_zero (by simp at hB; omega)
  have h1 : overwrite (A ++ (B1 ++ B2 ++ []) ++ C) A.length a = (A ++ a) ++ B2 ++ C := by
    rw [show A ++ (B1 ++ B2 ++ []) ++ C = A ++ B1 ++ (B2 ++ C) by simp, overwrite_append hB1]
    simp
  rw [h1, show A.length + a.length = (A ++ a).length by simp, overwrite_append hB2,
    overwrite_append (by simp [hB1, hB2])]
  simp

theorem take_overwrite_of_le {mem : List UInt8} {n pos : Nat} {src : List UInt8}
    (h : pos + src.length ≤ n) (hn : n ≤ mem.length) :
    (overwrite mem pos src).take n = overwrite (mem.take n) pos src := by
  obtain ⟨A, B, C, rfl, rfl, hB⟩ := exists_split mem pos src.length (by omega)
  have hk : ∀ X : List UInt8, X.length = src.length →
      (A ++ X ++ C).take n = A ++ X ++ C.take (n - A.length - src.length) := by
    intro X hX
    rw [List.take_append, List.take_of_length_le (by simp; omega)]
    simp [hX, Nat.sub_sub]
  rw [overwrite_append hB, hk src rfl, hk B hB, overwrite_append hB]

theorem drop_overwrite_of_le {mem : List UInt8} {k pos : Nat} {src : List UInt8} (hk : k ≤ pos)
    (h : pos + src.length ≤ mem.length) :
    (overwrite mem pos src).drop k = overwrite (mem.drop k) (pos - k) src := by
  obtain ⟨A, B, C, rfl, rfl, hB⟩ := exists_split mem pos src.length (by omega)
  obtain ⟨A1, A2, W, hA, rfl, hA2⟩ := exists_split A k (A.length - k) (by omega)
  obtain rfl : W = [] := List.eq_nil_of_length_eq_zero (by
    have := congrArg List.length hA; simp at this; omega)
  rw [List.append_nil] at hA
  subst hA
  rw [overwrite_append hB]
  have hd : ∀ X : List UInt8, (A1 ++ A2 ++ X ++ C).drop A1.length = A2 ++ X ++ C := by
    intro X; simp [List.append_assoc]
  rw [hd src, hd B, show (A1 ++ A2).length - A1.length = A2.length by simp, overwrite_append hB]

/-! ## The buffer -/

/-- An `sbuf_t`.  `mem` is the whole allocation (its length is `capacity`), the payload is the
`len` bytes at `curpos`, and `lpad` is the left padding the buffer was created with, which only
`sbufReserveSpace` reads. -/
structure SBuf where
  /-- The allocation, padding included. -/
  mem : List UInt8
  /-- Where the payload starts: the left capacity. -/
  curpos : Nat
  /-- The payload length. -/
  len : Nat
  /-- `l_pad`, the left padding requested at creation (after alignment). -/
  lpad : Nat
  /-- The payload lies inside the allocation (`sbufSetLength` asserts it). -/
  fits : curpos + len ≤ mem.length

namespace SBuf

/-- The payload: what `sbufGetRawPtr` points at, `sbufGetLength` bytes of it. -/
def payload (b : SBuf) : List UInt8 := (b.mem.drop b.curpos).take b.len

@[simp] theorem length_payload (b : SBuf) : b.payload.length = b.len := by
  have := b.fits
  simp only [payload, List.length_take, List.length_drop]
  omega

/-- The buffer after an in-bounds shift to the left. -/
def shiftLeft (b : SBuf) (n : Nat) (h : n ≤ b.curpos) : SBuf :=
  { b with curpos := b.curpos - n, len := b.len + n, fits := by have := b.fits; omega }

/-- The buffer after an in-bounds shift to the right. -/
def shiftRight (b : SBuf) (n : Nat) (h : n ≤ b.len) : SBuf :=
  { b with curpos := b.curpos + n, len := b.len - n, fits := by have := b.fits; omega }

/-- The buffer with an in-bounds new length. -/
def setLength (b : SBuf) (n : Nat) (h : b.curpos + n ≤ b.mem.length) : SBuf :=
  { b with len := n, fits := h }

/-- The buffer after an in-bounds write at offset `off` from the cursor. -/
def writeAt (b : SBuf) (off : Nat) (src : List UInt8)
    (h : b.curpos + off + src.length ≤ b.mem.length) : SBuf :=
  { b with mem := overwrite b.mem (b.curpos + off) src,
           fits := by have := b.fits; rw [length_overwrite h]; omega }

@[simp] theorem shiftLeft_mem (b : SBuf) (n : Nat) (h : n ≤ b.curpos) :
    (b.shiftLeft n h).mem = b.mem := rfl
@[simp] theorem shiftLeft_curpos (b : SBuf) (n : Nat) (h : n ≤ b.curpos) :
    (b.shiftLeft n h).curpos = b.curpos - n := rfl
@[simp] theorem shiftLeft_len (b : SBuf) (n : Nat) (h : n ≤ b.curpos) :
    (b.shiftLeft n h).len = b.len + n := rfl
@[simp] theorem shiftLeft_lpad (b : SBuf) (n : Nat) (h : n ≤ b.curpos) :
    (b.shiftLeft n h).lpad = b.lpad := rfl

@[simp] theorem shiftRight_mem (b : SBuf) (n : Nat) (h : n ≤ b.len) :
    (b.shiftRight n h).mem = b.mem := rfl
@[simp] theorem shiftRight_curpos (b : SBuf) (n : Nat) (h : n ≤ b.len) :
    (b.shiftRight n h).curpos = b.curpos + n := rfl
@[simp] theorem shiftRight_len (b : SBuf) (n : Nat) (h : n ≤ b.len) :
    (b.shiftRight n h).len = b.len - n := rfl

@[simp] theorem setLength_mem (b : SBuf) (n : Nat) (h : b.curpos + n ≤ b.mem.length) :
    (b.setLength n h).mem = b.mem := rfl
@[simp] theorem setLength_curpos (b : SBuf) (n : Nat) (h : b.curpos + n ≤ b.mem.length) :
    (b.setLength n h).curpos = b.curpos := rfl
@[simp] theorem setLength_len (b : SBuf) (n : Nat) (h : b.curpos + n ≤ b.mem.length) :
    (b.setLength n h).len = n := rfl
@[simp] theorem setLength_lpad (b : SBuf) (n : Nat) (h : b.curpos + n ≤ b.mem.length) :
    (b.setLength n h).lpad = b.lpad := rfl

@[simp] theorem writeAt_mem (b : SBuf) (off : Nat) (src : List UInt8)
    (h : b.curpos + off + src.length ≤ b.mem.length) :
    (b.writeAt off src h).mem = overwrite b.mem (b.curpos + off) src := rfl
@[simp] theorem writeAt_curpos (b : SBuf) (off : Nat) (src : List UInt8)
    (h : b.curpos + off + src.length ≤ b.mem.length) : (b.writeAt off src h).curpos = b.curpos := rfl
@[simp] theorem writeAt_len (b : SBuf) (off : Nat) (src : List UInt8)
    (h : b.curpos + off + src.length ≤ b.mem.length) : (b.writeAt off src h).len = b.len := rfl
@[simp] theorem writeAt_lpad (b : SBuf) (off : Nat) (src : List UInt8)
    (h : b.curpos + off + src.length ≤ b.mem.length) : (b.writeAt off src h).lpad = b.lpad := rfl

theorem payload_shiftRight (b : SBuf) (n : Nat) (h : n ≤ b.len) :
    (b.shiftRight n h).payload = b.payload.drop n := by
  simp only [payload, shiftRight_mem, shiftRight_curpos, shiftRight_len, List.drop_take,
    List.drop_drop]

theorem payload_setLength_le (b : SBuf) (n : Nat) (h : b.curpos + n ≤ b.mem.length)
    (hn : n ≤ b.len) : (b.setLength n h).payload = b.payload.take n := by
  simp only [payload, setLength_mem, setLength_curpos, setLength_len, List.take_take,
    Nat.min_eq_left hn]

theorem payload_writeAt_of_le (b : SBuf) (off : Nat) (src : List UInt8)
    (h : b.curpos + off + src.length ≤ b.mem.length) (hin : off + src.length ≤ b.len) :
    (b.writeAt off src h).payload = overwrite b.payload off src := by
  have hfit := b.fits
  show ((overwrite b.mem (b.curpos + off) src).drop b.curpos).take b.len = _
  rw [drop_overwrite_of_le (by omega) h, Nat.add_sub_cancel_left,
    take_overwrite_of_le hin (by simp only [List.length_drop]; omega)]
  rfl

/-- Shifting left exposes the padding bytes in front of the payload. -/
theorem payload_shiftLeft (b : SBuf) (n : Nat) (h : n ≤ b.curpos) :
    (b.shiftLeft n h).payload = (b.mem.drop (b.curpos - n)).take n ++ b.payload := by
  have hfit := b.fits
  show (b.mem.drop (b.curpos - n)).take (b.len + n) = _
  rw [Nat.add_comm, List.take_add, List.drop_drop]
  congr 3
  omega

/-- **Prepending a header through the padding.**  Shifting left by `|hdr|` and writing `hdr` at
the new cursor puts `hdr` in front of the payload. -/
theorem payload_writeAt_shiftLeft (b : SBuf) (hdr : List UInt8) (h : hdr.length ≤ b.curpos)
    (hw : (b.shiftLeft hdr.length h).curpos + 0 + hdr.length ≤
      (b.shiftLeft hdr.length h).mem.length) :
    ((b.shiftLeft hdr.length h).writeAt 0 hdr hw).payload = hdr ++ b.payload := by
  have hfit := b.fits
  have hw' : b.curpos - hdr.length + hdr.length ≤ b.mem.length := by omega
  show ((overwrite b.mem (b.curpos - hdr.length + 0) hdr).drop (b.curpos - hdr.length)).take
      (b.len + hdr.length) = hdr ++ (b.mem.drop b.curpos).take b.len
  have hc : b.curpos - hdr.length + hdr.length = b.curpos := by omega
  rw [Nat.add_zero, drop_overwrite hw', hc, Nat.add_comm, List.take_add,
    List.take_append_of_le_length (le_refl _), List.take_of_length_le (le_refl _),
    List.drop_left]

/-- **Appending a tail into the room behind the payload.**  Growing the length by `|tl|` and
writing `tl` at the old end puts `tl` behind the payload. -/
theorem payload_writeAt_setLength (b : SBuf) (tl : List UInt8)
    (h : b.curpos + (b.len + tl.length) ≤ b.mem.length)
    (hw : (b.setLength (b.len + tl.length) h).curpos + b.len + tl.length ≤
      (b.setLength (b.len + tl.length) h).mem.length) :
    ((b.setLength (b.len + tl.length) h).writeAt b.len tl hw).payload = b.payload ++ tl := by
  have hw' : b.curpos + b.len + tl.length ≤ b.mem.length := by omega
  show ((overwrite b.mem (b.curpos + b.len) tl).drop b.curpos).take (b.len + tl.length) =
    (b.mem.drop b.curpos).take b.len ++ tl
  have hpre : ((overwrite b.mem (b.curpos + b.len) tl).drop b.curpos).take b.len =
      (b.mem.drop b.curpos).take b.len := by
    rw [List.take_drop, List.take_drop, take_overwrite hw']
  rw [List.take_add, hpre, List.drop_drop, Nat.add_comm b.curpos b.len, Nat.add_comm b.len,
    drop_overwrite (by omega), List.take_append_of_le_length (le_refl _),
    List.take_of_length_le (le_refl _)]

/-- A buffer whose payload is `p`, behind `pad` bytes of padding. -/
def ofPayload (pad : Nat) (p : List UInt8) : SBuf :=
  { mem := List.replicate pad 0 ++ p, curpos := pad, len := p.length, lpad := pad,
    fits := by simp }

@[simp] theorem payload_ofPayload (pad : Nat) (p : List UInt8) : (ofPayload pad p).payload = p := by
  simp [ofPayload, payload]

@[simp] theorem len_ofPayload (pad : Nat) (p : List UInt8) : (ofPayload pad p).len = p.length :=
  rfl

end SBuf

def sbufGetLength (b : SBuf) : Nat := b.len

/-- `sbufGetLeftCapacity`: how far the payload can still be shifted left. -/
def sbufGetLeftCapacity (b : SBuf) : Nat := b.curpos

/-- `sbufGetMaximumWriteableSize`: the longest payload the cursor can address. -/
def sbufGetMaximumWriteableSize (b : SBuf) : Nat := b.mem.length - b.curpos

def sbufGetLeftPadding (b : SBuf) : Nat := b.lpad

/-- `sbufShiftLeft`: grow the payload to the left, into the padding. -/
def sbufShiftLeft (b : SBuf) (bytes : Nat) : Option SBuf :=
  if h : bytes ≤ b.curpos then some (b.shiftLeft bytes h) else none

/-- `sbufShiftRight`: drop bytes from the front of the payload. -/
def sbufShiftRight (b : SBuf) (bytes : Nat) : Option SBuf :=
  if h : bytes ≤ b.len then some (b.shiftRight bytes h) else none

/-- The condition `sbufSetLength` asserts, `b->curpos + bytes <= b->capacity`.  `curpos` and
`bytes` are `uint32_t`, so the sum is taken modulo `2 ^ 32`. -/
def sbufSetLengthAsserted (b : SBuf) (bytes : Nat) : Bool :=
  decide ((b.curpos + bytes) % 2 ^ 32 ≤ b.mem.length)

/-- `sbufSetLength`: `len = bytes` once the assertion holds.  A length that passes the assertion
only because the sum wrapped is stored by the C as it is, and describes a payload running past
the allocation, which no `SBuf` is: the model answers `none` for it, as for a failed assertion
(`sbufSetLength_wraps` exhibits one). -/
def sbufSetLength (b : SBuf) (bytes : Nat) : Option SBuf :=
  if sbufSetLengthAsserted b bytes then
    if h : b.curpos + bytes ≤ b.mem.length then some (b.setLength bytes h) else none
  else none

/-- `memoryCopy(sbufGetMutablePtr(b) + off, src, |src|)`, a write at an offset from the cursor.
The C code does not check it; writing past the allocation is the `none` case. -/
def sbufWriteAt (b : SBuf) (off : Nat) (src : List UInt8) : Option SBuf :=
  if h : b.curpos + off + src.length ≤ b.mem.length then some (b.writeAt off src h) else none

/-- `sbufWrite`: a write at the cursor. -/
def sbufWrite (b : SBuf) (src : List UInt8) : Option SBuf := sbufWriteAt b 0 src

/-- `sbufWriteZeros`: `len` zeros at the cursor, through the unchecked `memoryZero`. -/
def sbufWriteZeros (b : SBuf) (len : Nat) : Option SBuf := sbufWrite b (List.replicate len 0)

/-- A length that fits passes the wrapped assertion too, so `sbufSetLength` sets exactly the
lengths that fit. -/
theorem sbufSetLength_eq_dite (b : SBuf) (n : Nat) :
    sbufSetLength b n =
      if h : b.curpos + n ≤ b.mem.length then some (b.setLength n h) else none := by
  unfold sbufSetLength
  by_cases h : b.curpos + n ≤ b.mem.length
  · have hmod : sbufSetLengthAsserted b n = true :=
      decide_eq_true (Nat.le_trans (Nat.mod_le _ _) h)
    rw [if_pos hmod, dif_pos h]
  · rw [dif_neg h, ite_self]

theorem sbufSetLength_len (b : SBuf) : sbufSetLength b b.len = some b := by
  rw [sbufSetLength_eq_dite, dif_pos b.fits]
  rfl

theorem sbufSetLength_eq_none {b : SBuf} {n : Nat} (h : b.mem.length < b.curpos + n) :
    sbufSetLength b n = none := by
  rw [sbufSetLength_eq_dite, dif_neg (by omega)]

theorem sbufShiftLeft_eq {b : SBuf} {n : Nat} (h : n ≤ b.curpos) :
    sbufShiftLeft b n = some (b.shiftLeft n h) := by
  rw [sbufShiftLeft, dif_pos h]

theorem sbufShiftRight_eq {b : SBuf} {n : Nat} (h : n ≤ b.len) :
    sbufShiftRight b n = some (b.shiftRight n h) := by
  rw [sbufShiftRight, dif_pos h]

theorem sbufSetLength_eq {b : SBuf} {n : Nat} (h : b.curpos + n ≤ b.mem.length) :
    sbufSetLength b n = some (b.setLength n h) := by
  rw [sbufSetLength_eq_dite, dif_pos h]

theorem sbufWriteAt_eq {b : SBuf} {off : Nat} {src : List UInt8}
    (h : b.curpos + off + src.length ≤ b.mem.length) :
    sbufWriteAt b off src = some (b.writeAt off src h) := by
  rw [sbufWriteAt, dif_pos h]

/-- A write that lands inside the payload, through the unchecked `memoryCopy`: it succeeds,
overwrites the payload and keeps the geometry. -/
theorem sbufWriteAt_inside {b : SBuf} {off : Nat} {src : List UInt8}
    (hin : off + src.length ≤ b.len) :
    ∃ b', sbufWriteAt b off src = some b' ∧ b'.payload = overwrite b.payload off src ∧
      b'.curpos = b.curpos ∧ b'.len = b.len ∧ b'.mem.length = b.mem.length := by
  have hfit := b.fits
  have h : b.curpos + off + src.length ≤ b.mem.length := by omega
  exact ⟨_, sbufWriteAt_eq h, SBuf.payload_writeAt_of_le b off src h hin, rfl, rfl,
    length_overwrite h⟩

/-- **Prepending a header through the padding**, as the encoders write it:
`sbufShiftLeft(b, |hdr|); sbufWrite(b, hdr)`. -/
theorem sbufWrite_sbufShiftLeft {b : SBuf} {hdr : List UInt8} (h : hdr.length ≤ b.curpos) :
    ∃ b', ((sbufShiftLeft b hdr.length).bind fun b₁ => sbufWrite b₁ hdr) = some b' ∧
      b'.payload = hdr ++ b.payload ∧ b'.curpos = b.curpos - hdr.length ∧
      b'.mem.length = b.mem.length := by
  have hfit := b.fits
  have hw : (b.shiftLeft hdr.length h).curpos + 0 + hdr.length ≤
      (b.shiftLeft hdr.length h).mem.length := by
    simp only [SBuf.shiftLeft_curpos, SBuf.shiftLeft_mem]
    omega
  refine ⟨_, by rw [sbufShiftLeft_eq h, Option.bind_some, sbufWrite, sbufWriteAt_eq hw],
    SBuf.payload_writeAt_shiftLeft b hdr h hw, rfl, ?_⟩
  simp only [SBuf.writeAt_mem, SBuf.shiftLeft_mem, SBuf.shiftLeft_curpos]
  exact length_overwrite (by simpa using hw)

/-- **Appending a tail into the room behind the payload**, as the encoders write it:
`sbufSetLength(b, len + |tl|); memoryCopy(ptr + len, tl, |tl|)`. -/
theorem sbufWriteAt_sbufSetLength {b : SBuf} {tl : List UInt8}
    (h : b.curpos + (b.len + tl.length) ≤ b.mem.length) :
    ∃ b', ((sbufSetLength b (b.len + tl.length)).bind fun b₁ => sbufWriteAt b₁ b.len tl) = some b' ∧
      b'.payload = b.payload ++ tl ∧ b'.curpos = b.curpos := by
  have hw : (b.setLength (b.len + tl.length) h).curpos + b.len + tl.length ≤
      (b.setLength (b.len + tl.length) h).mem.length := by
    simp only [SBuf.setLength_curpos, SBuf.setLength_mem]; omega
  exact ⟨_, by rw [sbufSetLength_eq h, Option.bind_some, sbufWriteAt_eq hw],
    SBuf.payload_writeAt_setLength b tl h hw, rfl⟩

/-- **Filling an empty buffer**, as the senders copy a piece into a fresh buffer:
`sbufSetLength(b, |src|); memoryCopy(ptr, src, |src|)`. -/
theorem sbufWrite_sbufSetLength {b : SBuf} {src : List UInt8}
    (h : src.length ≤ sbufGetMaximumWriteableSize b) :
    ∃ b', ((sbufSetLength b src.length).bind fun b₁ => sbufWrite b₁ src) = some b' ∧
      b'.payload = src ∧ b'.curpos = b.curpos ∧ b'.mem.length = b.mem.length := by
  have hfit : b.curpos + src.length ≤ b.mem.length := by
    unfold sbufGetMaximumWriteableSize at h
    have := b.fits
    omega
  have hw : (b.setLength src.length hfit).curpos + 0 + src.length ≤
      (b.setLength src.length hfit).mem.length := by
    simp only [SBuf.setLength_curpos, SBuf.setLength_mem]
    omega
  refine ⟨(b.setLength src.length hfit).writeAt 0 src hw,
    by rw [sbufSetLength_eq hfit, Option.bind_some, sbufWrite, sbufWriteAt_eq hw], ?_, rfl, ?_⟩
  · rw [SBuf.payload_writeAt_of_le _ 0 src hw (by simp), overwrite_of_length_eq (by simp)]
  · simp only [SBuf.writeAt_mem, SBuf.setLength_mem, SBuf.setLength_curpos]
    exact length_overwrite (by omega)

/-- **Writing over the payload's tail**, as a cipher writes its output in place:
`memoryCopy(ptr + off, src, |src|); sbufSetLength(b, off + |src|)`. -/
theorem sbufSetLength_sbufWriteAt {b : SBuf} {off : Nat} {src : List UInt8} (hoff : off ≤ b.len)
    (h : b.curpos + off + src.length ≤ b.mem.length) :
    ∃ b', ((sbufWriteAt b off src).bind fun b₁ => sbufSetLength b₁ (off + src.length)) = some b' ∧
      b'.payload = b.payload.take off ++ src ∧ b'.curpos = b.curpos ∧
      b'.mem.length = b.mem.length := by
  have hmem : (b.writeAt off src h).mem.length = b.mem.length := length_overwrite h
  have hset : (b.writeAt off src h).curpos + (off + src.length) ≤ (b.writeAt off src h).mem.length := by
    rw [hmem, SBuf.writeAt_curpos]
    omega
  refine ⟨(b.writeAt off src h).setLength (off + src.length) hset,
    by rw [sbufWriteAt_eq h, Option.bind_some, sbufSetLength_eq hset], ?_, rfl, hmem⟩
  -- the bytes from the cursor are the old ones with `src` over them from `off` on
  have hfront : (b.mem.drop b.curpos).take off = b.payload.take off := by
    rw [SBuf.payload, List.take_take, Nat.min_eq_left hoff]
  show ((overwrite b.mem (b.curpos + off) src).drop b.curpos).take (off + src.length) = _
  rw [drop_overwrite_of_le (Nat.le_add_right _ _) h, Nat.add_sub_cancel_left,
    take_overwrite_of_le (le_refl _) (by rw [List.length_drop]; omega), overwrite, List.take_take,
    Nat.min_eq_left (Nat.le_add_right _ _), hfront,
    List.drop_of_length_le (by rw [List.length_take]; omega), List.append_nil]

/-! ## Allocation -/

/-- `(x + 31) & ~31` in `uint64_t`: `x` rounded up to a multiple of 32. -/
def alignUp32 (x : Nat) : Nat := (x + 31) - (x + 31) % 32

/-- `sbufTryComputeCapacityWithin`.  `none` is a `false` return; `some total` the capacity
written to `*out_capacity`.  None of its `uint64_t` operations can wrap (the inputs are a
`uint16_t` and values already checked against `UINT32_MAX`), so they are computed in `Nat`. -/
def sbufTryComputeCapacityWithin (minimum_capacity pad_left size_max : Nat) : Option Nat :=
  let aligned_pad := alignUp32 pad_left
  if aligned_pad > UINT16_MAX then none
  else if minimum_capacity > UINT32_MAX then none
  else
    -- round a non-zero capacity up to a whole number of cache lines, and to at least one
    let capacity :=
      if minimum_capacity ≠ 0 ∧ minimum_capacity % kCpuLineCacheSize ≠ 0 then
        let c := max minimum_capacity kCpuLineCacheSize
        (c + (kCpuLineCacheSize - 1)) - (c + (kCpuLineCacheSize - 1)) % kCpuLineCacheSize
      else minimum_capacity
    let total := capacity + aligned_pad
    if total > UINT32_MAX then none
    else
      let allocation_overhead := SIZEOF_STRUCT_SBUF + kSbufAllocationAlignment
      if size_max < allocation_overhead ∨ total > size_max - allocation_overhead then none
      else some total

/-- `SIZE_MAX` on a target whose `size_t` has `w` bits. -/
def sizeMax (w : Nat) : Nat := 2 ^ w - 1

/-- `sbufTryComputeCapacity`, on a target with a `w`-bit `size_t`. -/
def sbufTryComputeCapacity (w : Nat) (minimum_capacity pad_left : Nat) : Option Nat :=
  sbufTryComputeCapacityWithin minimum_capacity pad_left (sizeMax w)

/-- `sbufCreateWithPadding`: a fresh buffer whose payload is empty and starts after the aligned
padding.  Aborts (`none`) when the capacity check fails. -/
def sbufCreateWithPadding (w : Nat) (minimum_capacity pad_left : Nat) : Option SBuf :=
  match sbufTryComputeCapacity w minimum_capacity (alignUp32 pad_left) with
  | none => none
  | some real_cap =>
    if h : alignUp32 pad_left ≤ real_cap then
      some { mem := List.replicate real_cap 0, curpos := alignUp32 pad_left, len := 0,
             lpad := alignUp32 pad_left, fits := by simpa using h }
    else none

/-- `sbufReserveSpace`: make room for a payload of `bytes` from the cursor, moving the payload
to a new, larger buffer (with the same left padding) when there is not enough. -/
def sbufReserveSpace (w : Nat) (b : SBuf) (bytes : Nat) : Option SBuf :=
  if sbufGetMaximumWriteableSize b < bytes then
    (sbufCreateWithPadding w (max b.len bytes) b.lpad).bind fun nb =>
      (sbufSetLength nb b.len).bind fun nb => sbufWrite nb b.payload
  else some b

theorem alignUp32_alignUp32 (x : Nat) : alignUp32 (alignUp32 x) = alignUp32 x := by
  unfold alignUp32
  omega

/-- What a successful capacity computation promises: a whole number of cache lines, at least the
minimum asked for, behind the aligned padding, and all of it within 32 bits. -/
theorem sbufTryComputeCapacityWithin_spec {minimum_capacity pad_left size_max total : Nat}
    (h : sbufTryComputeCapacityWithin minimum_capacity pad_left size_max = some total) :
    ∃ capacity, total = capacity + alignUp32 pad_left ∧ minimum_capacity ≤ capacity ∧
      capacity % kCpuLineCacheSize = 0 ∧ total ≤ UINT32_MAX := by
  unfold sbufTryComputeCapacityWithin at h
  dsimp only at h
  split_ifs at h with h1 h2 hround h3 h4 h5 h6 <;> cases h
  · -- a capacity that is not a whole number of cache lines is rounded up
    simp only [kCpuLineCacheSize] at hround h3 ⊢
    exact ⟨_, rfl, by omega, by omega, by omega⟩
  · simp only [kCpuLineCacheSize] at hround ⊢
    exact ⟨_, rfl, le_refl _, by omega, by omega⟩

theorem sbufTryComputeCapacity_alignUp32 (w minimum_capacity pad_left : Nat) :
    sbufTryComputeCapacity w minimum_capacity (alignUp32 pad_left) =
      sbufTryComputeCapacity w minimum_capacity pad_left := by
  simp only [sbufTryComputeCapacity, sbufTryComputeCapacityWithin, alignUp32_alignUp32]

/-- A buffer is created whenever its capacity can be computed, with the room asked for. -/
theorem sbufCreateWithPadding_eq {w minimum_capacity pad_left cap : Nat}
    (h : sbufTryComputeCapacity w minimum_capacity pad_left = some cap) :
    ∃ b, sbufCreateWithPadding w minimum_capacity pad_left = some b ∧ b.len = 0 ∧
      minimum_capacity ≤ sbufGetMaximumWriteableSize b := by
  obtain ⟨capacity, rfl, hmin, -, -⟩ := sbufTryComputeCapacityWithin_spec h
  have hpad : alignUp32 pad_left ≤ capacity + alignUp32 pad_left := Nat.le_add_left _ _
  refine ⟨⟨List.replicate (capacity + alignUp32 pad_left) 0, alignUp32 pad_left, 0,
    alignUp32 pad_left, by simp⟩, ?_, rfl, ?_⟩
  · rw [sbufCreateWithPadding, sbufTryComputeCapacity_alignUp32, h]
    exact dif_pos hpad
  · simp only [sbufGetMaximumWriteableSize, List.length_replicate]
    omega

theorem le_alignUp32 (x : Nat) : x ≤ alignUp32 x := by
  unfold alignUp32
  omega

theorem sbufCreateWithPadding_curpos {w minimum_capacity pad_left : Nat} {b : SBuf}
    (h : sbufCreateWithPadding w minimum_capacity pad_left = some b) :
    b.curpos = alignUp32 pad_left := by
  unfold sbufCreateWithPadding at h
  split at h
  · cases h
  · split_ifs at h
    cases h
    rfl

/-- **The assertion of `sbufSetLength` wraps.**  The buffer `sbufCreateWithPadding` makes on a
64-bit target with 64 bytes of room behind 32 bytes of padding has its cursor at 32 in a 96-byte
allocation.  The length `0xFFFFFFFF` passes the assertion, `32 + 0xFFFFFFFF` being `31` in
`uint32_t`, and the C stores it, though the payload it describes runs past the allocation. -/
theorem sbufSetLength_wraps :
    ∃ b, sbufCreateWithPadding 64 64 32 = some b ∧ b.curpos = 32 ∧ b.mem.length = 96 ∧
      sbufSetLengthAsserted b 0xFFFFFFFF = true ∧ b.mem.length < b.curpos + 0xFFFFFFFF := by
  refine ⟨⟨List.replicate 96 0, 32, 0, 32, by decide⟩, by rfl, rfl, List.length_replicate, ?_, ?_⟩
  · -- the sum wraps to 31
    decide
  · simp only [List.length_replicate]
    omega

/-- When the room behind the cursor is short, `sbufReserveSpace` moves the payload to a new
buffer, whose payload starts after the aligned left padding. -/
theorem sbufReserveSpace_of_lt {w : Nat} {b : SBuf} {bytes cap : Nat}
    (h : sbufTryComputeCapacity w (max b.len bytes) b.lpad = some cap)
    (hroom : sbufGetMaximumWriteableSize b < bytes) :
    ∃ b', sbufReserveSpace w b bytes = some b' ∧ b'.payload = b.payload ∧
      bytes ≤ sbufGetMaximumWriteableSize b' ∧ b'.curpos = alignUp32 b.lpad := by
  obtain ⟨nb, hnb, hlen, hmax⟩ := sbufCreateWithPadding_eq h
  have hset : nb.curpos + b.len ≤ nb.mem.length := by
    simp only [sbufGetMaximumWriteableSize] at hmax
    omega
  have hin : 0 + b.payload.length ≤ (nb.setLength b.len hset).len := by simp
  obtain ⟨b', hw, hpay, hcur, -, hmem⟩ := sbufWriteAt_inside hin
  refine ⟨b', ?_, ?_, ?_, ?_⟩
  · rw [sbufReserveSpace, if_pos hroom, hnb, Option.bind_some, sbufSetLength_eq hset,
      Option.bind_some, sbufWrite, hw]
  · rw [hpay, overwrite_of_length_eq (by simp)]
  · simp only [sbufGetMaximumWriteableSize, SBuf.setLength_curpos, SBuf.setLength_mem] at hmax hcur hmem ⊢
    omega
  · rw [hcur, SBuf.setLength_curpos, sbufCreateWithPadding_curpos hnb]

/-- **Reserving space keeps the payload** and makes the room asked for, whenever the capacity of
the larger buffer it may have to create can be computed. -/
theorem sbufReserveSpace_eq {w : Nat} {b : SBuf} {bytes cap : Nat}
    (h : sbufTryComputeCapacity w (max b.len bytes) b.lpad = some cap) :
    ∃ b', sbufReserveSpace w b bytes = some b' ∧ b'.payload = b.payload ∧
      bytes ≤ sbufGetMaximumWriteableSize b' := by
  by_cases hroom : sbufGetMaximumWriteableSize b < bytes
  · -- the payload moves to a new buffer, created with room for it and for `bytes`
    obtain ⟨b', hb', hpay, hmax, -⟩ := sbufReserveSpace_of_lt h hroom
    exact ⟨b', hb', hpay, hmax⟩
  · exact ⟨b, by rw [sbufReserveSpace, if_neg hroom], rfl, by omega⟩

/-! ## Buffer pools -/

/-- A capacity is computed for any buffer of at most `2 ^ 24` bytes behind a padding that fits
`uint16_t`, once `size_t` has 32 bits or more. -/
theorem sbufTryComputeCapacity_isSome {w minimum_capacity pad_left : Nat} (hw : 32 ≤ w)
    (hmin : minimum_capacity ≤ 2 ^ 24) (hpad : alignUp32 pad_left ≤ UINT16_MAX) :
    ∃ cap, sbufTryComputeCapacity w minimum_capacity pad_left = some cap := by
  have hsize : 2 ^ 32 ≤ sizeMax w + 1 := by
    have := Nat.pow_le_pow_right (show 0 < 2 by decide) hw
    unfold sizeMax
    omega
  unfold sbufTryComputeCapacity
  cases h : sbufTryComputeCapacityWithin minimum_capacity pad_left (sizeMax w) with
  | some cap => exact ⟨cap, rfl⟩
  | none =>
    -- every check that returns `false` fails on such sizes
    exfalso
    unfold sbufTryComputeCapacityWithin at h
    dsimp only at h
    split_ifs at h with h1 h2 hround h3 h4 <;>
      simp only [UINT16_MAX, UINT32_MAX, kCpuLineCacheSize, SIZEOF_STRUCT_SBUF,
        kSbufAllocationAlignment] at * <;>
      omega

/-- The geometry of a `buffer_pool_t`: the payload capacity and left padding of the small and
large buffers it hands out.  The pool's free lists are not modelled: a buffer taken from the pool
is an empty buffer of the pool's geometry, fresh or recycled. -/
structure BufferPool where
  large_buffers_size : Nat
  large_buffer_left_padding : Nat
  small_buffers_size : Nat
  small_buffer_left_padding : Nat

/-- An empty buffer with `pad` bytes of padding and room for `size` more. -/
def emptyBuffer (size pad : Nat) : SBuf :=
  { mem := List.replicate (pad + size) 0, curpos := pad, len := 0, lpad := pad,
    fits := by simp }

def bufferpoolGetLargeBuffer (pool : BufferPool) : SBuf :=
  emptyBuffer pool.large_buffers_size pool.large_buffer_left_padding

def bufferpoolGetSmallBuffer (pool : BufferPool) : SBuf :=
  emptyBuffer pool.small_buffers_size pool.small_buffer_left_padding

@[simp] theorem payload_emptyBuffer (size pad : Nat) : (emptyBuffer size pad).payload = [] := by
  simp [emptyBuffer, SBuf.payload]

@[simp] theorem emptyBuffer_curpos (size pad : Nat) : (emptyBuffer size pad).curpos = pad := rfl

@[simp] theorem length_emptyBuffer_mem (size pad : Nat) :
    (emptyBuffer size pad).mem.length = pad + size := by
  simp [emptyBuffer]

/-- The buffer a frame sender takes for a frame of `frame_len` bytes, a small or a large buffer of
the pool when the frame fits and a fresh one behind the large buffers' padding otherwise, is empty,
keeps the padding both kinds have in front and has room for the frame. -/
theorem allocFrameBuffer_room {w : Nat} (hw : 32 ≤ w) {pool : BufferPool} {k frame_len : Nat}
    (hsmall : k ≤ pool.small_buffer_left_padding) (hlarge : k ≤ pool.large_buffer_left_padding)
    (hfits : alignUp32 pool.large_buffer_left_padding ≤ UINT16_MAX) (hn : frame_len ≤ 2 ^ 24) :
    ∃ b, (if frame_len ≤ pool.small_buffers_size then some (bufferpoolGetSmallBuffer pool)
      else if frame_len ≤ pool.large_buffers_size then some (bufferpoolGetLargeBuffer pool)
      else sbufCreateWithPadding w frame_len pool.large_buffer_left_padding) = some b ∧
      b.len = 0 ∧ k ≤ b.curpos ∧ frame_len ≤ sbufGetMaximumWriteableSize b := by
  by_cases hs : frame_len ≤ pool.small_buffers_size
  · rw [if_pos hs]
    refine ⟨_, rfl, rfl, hsmall, ?_⟩
    simp only [sbufGetMaximumWriteableSize, bufferpoolGetSmallBuffer, emptyBuffer,
      List.length_replicate]
    omega
  rw [if_neg hs]
  by_cases hl : frame_len ≤ pool.large_buffers_size
  · rw [if_pos hl]
    refine ⟨_, rfl, rfl, hlarge, ?_⟩
    simp only [sbufGetMaximumWriteableSize, bufferpoolGetLargeBuffer, emptyBuffer,
      List.length_replicate]
    omega
  · -- a frame larger than the pool's buffers gets one of its own
    rw [if_neg hl]
    obtain ⟨cap, hcap⟩ := sbufTryComputeCapacity_isSome hw hn hfits
    obtain ⟨b, hb, hlen, hmax⟩ := sbufCreateWithPadding_eq hcap
    have hcur := sbufCreateWithPadding_curpos hb
    have hpad := le_alignUp32 pool.large_buffer_left_padding
    exact ⟨b, hb, hlen, by omega, hmax⟩

end WaterWall
