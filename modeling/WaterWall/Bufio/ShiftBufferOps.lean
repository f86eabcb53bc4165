import WaterWall.Bufio.ShiftBuffer

/-!
# The buffer operations of `shiftbuffer.c`

`ww/bufio/shiftbuffer.c` builds on the accessors of `shiftbuffer.h` the operations that move
payload between buffers: `sbufConcat` and `sbufMoveTo` append one payload to another, `sbufSlice`
cuts the front of a payload off into a buffer of its own, and `sbufDuplicate` and
`sbufDuplicateTo` copy a buffer's cursor and payload.

* `SBuf.Allocated w b`: the geometry `sbufCreateWithPadding` gives a buffer, an aligned padding
  and a capacity the capacity computation gives back.  Every operation keeps it or makes a buffer
  that has it (`SBufReached.allocated`), which makes an exact duplicate always fit
  (`sbufDuplicate_eq`).
* The payload laws of the operations, each with the assertions of its C version as `none`,
  gathered in `sbuf_laws`.

`sbufGetTotalCapacityNoPadding` subtracts in `uint32_t`; it is computed in `Nat`, which agrees
since a buffer's padding is never more than its capacity.
-/

set_option autoImplicit false

namespace WaterWall

def sbufGetTotalCapacity (b : SBuf) : Nat := b.mem.length

def sbufGetTotalCapacityNoPadding (b : SBuf) : Nat := b.mem.length - b.lpad

/-- `sbufConsume`: drop `bytes` from the end of the payload. -/
def sbufConsume (b : SBuf) (bytes : Nat) : Option SBuf :=
  if bytes ≤ b.len then sbufSetLength b (b.len - bytes) else none

/-- `sbufConcat`: append `buf`'s payload to `root`'s, moving `root` to a larger buffer when it
has no room.  Aborts when the total would pass 32 bits. -/
def sbufConcat (w : Nat) (root buf : SBuf) : Option SBuf :=
  if root.len > UINT32_MAX - buf.len then none
  else
    (sbufReserveSpace w root (root.len + buf.len)).bind fun root' =>
      (sbufSetLength root' (root.len + buf.len)).bind fun root'' =>
        sbufWriteAt root'' root.len buf.payload

/-- `sbufMoveTo`: copy the first `bytes` of `source`'s payload behind `dest`'s, then drop them
from `source`.  The pair is `(dest, source)` after the move. -/
def sbufMoveTo (dest source : SBuf) (bytes : Nat) : Option (SBuf × SBuf) :=
  if bytes ≤ source.len ∧ dest.len ≤ UINT32_MAX - bytes ∧
      dest.len + bytes ≤ sbufGetMaximumWriteableSize dest then
    (sbufWriteAt dest dest.len (source.payload.take bytes)).bind fun dest' =>
      (sbufSetLength dest' (dest.len + bytes)).bind fun dest'' =>
        (sbufShiftRight source bytes).map fun source' => (dest'', source')
  else none

/-- `sbufSlice`: a new buffer of `b`'s capacity and padding takes the first `bytes` of `b`'s
payload.  The pair is `(new buffer, b)` after the move. -/
def sbufSlice (w : Nat) (b : SBuf) (bytes : Nat) : Option (SBuf × SBuf) :=
  (sbufCreateWithPadding w (sbufGetTotalCapacityNoPadding b) b.lpad).bind fun newbuf =>
    sbufMoveTo newbuf b bytes

/-- `dest->curpos = curpos; sbufSetLength(dest, len)`: a new cursor and length, inside the
allocation. -/
def SBuf.setCursor (b : SBuf) (curpos len : Nat) (h : curpos + len ≤ b.mem.length) : SBuf :=
  { b with curpos := curpos, len := len, fits := h }

@[simp] theorem SBuf.setCursor_mem (b : SBuf) (curpos len : Nat) (h : curpos + len ≤ b.mem.length) :
    (b.setCursor curpos len h).mem = b.mem := rfl
@[simp] theorem SBuf.setCursor_curpos (b : SBuf) (curpos len : Nat)
    (h : curpos + len ≤ b.mem.length) : (b.setCursor curpos len h).curpos = curpos := rfl
@[simp] theorem SBuf.setCursor_len (b : SBuf) (curpos len : Nat) (h : curpos + len ≤ b.mem.length) :
    (b.setCursor curpos len h).len = len := rfl
@[simp] theorem SBuf.setCursor_lpad (b : SBuf) (curpos len : Nat)
    (h : curpos + len ≤ b.mem.length) : (b.setCursor curpos len h).lpad = b.lpad := rfl

/-- `sbufDuplicateTo`: give `dest` the cursor and payload of `b`, or return `false` and leave
`dest` alone when they do not fit its capacity. -/
def sbufDuplicateTo (b dest : SBuf) : Option (Bool × SBuf) :=
  if h : b.curpos > sbufGetTotalCapacity dest ∨ b.len > sbufGetTotalCapacity dest - b.curpos then
    some (false, dest)
  else
    -- the check above is the assertion of `sbufSetLength`
    let dest' := dest.setCursor b.curpos b.len
      (by simp only [sbufGetTotalCapacity, not_or, not_lt] at h; omega)
    if 0 < b.len then (sbufWrite dest' b.payload).map fun d => (true, d) else some (true, dest')

/-- `sbufDuplicate`: a new buffer of `b`'s capacity and padding with `b`'s cursor and payload.
Aborts when they do not fit it. -/
def sbufDuplicate (w : Nat) (b : SBuf) : Option SBuf :=
  (sbufCreateWithPadding w (sbufGetTotalCapacityNoPadding b) b.lpad).bind fun newbuf =>
    (sbufDuplicateTo b newbuf).bind fun r => if r.1 then some r.2 else none

/-! ## The geometry of an allocation -/

namespace SBuf

/-- What stays of a buffer through every in-place operation: its capacity and its padding. -/
def geom (b : SBuf) : Nat × Nat := (b.mem.length, b.lpad)

/-- The geometry `sbufCreateWithPadding` gives a buffer, for a `w`-bit `size_t`. -/
def Allocated (w : Nat) (b : SBuf) : Prop :=
  alignUp32 b.lpad = b.lpad ∧ b.lpad ≤ b.mem.length ∧
    sbufTryComputeCapacity w (b.mem.length - b.lpad) b.lpad = some b.mem.length

theorem Allocated.of_geom {w : Nat} {b b' : SBuf} (h : b.Allocated w) (hg : b'.geom = b.geom) :
    b'.Allocated w := by
  simp only [geom, Prod.mk.injEq] at hg
  rw [Allocated, hg.1, hg.2]
  exact h

end SBuf

/-- A capacity the computation returned is returned again for itself without the padding. -/
theorem sbufTryComputeCapacityWithin_idem {minimum_capacity pad_left size_max total : Nat}
    (h : sbufTryComputeCapacityWithin minimum_capacity pad_left size_max = some total) :
    sbufTryComputeCapacityWithin (total - alignUp32 pad_left) pad_left size_max = some total := by
  obtain ⟨capacity, rfl, -, hmod, hmax⟩ := sbufTryComputeCapacityWithin_spec h
  rw [Nat.add_sub_cancel]
  unfold sbufTryComputeCapacityWithin at h ⊢
  dsimp only at h ⊢
  -- a whole number of cache lines is not rounded again
  have hround : (if capacity ≠ 0 ∧ capacity % kCpuLineCacheSize ≠ 0 then
      max capacity kCpuLineCacheSize + (kCpuLineCacheSize - 1) -
        (max capacity kCpuLineCacheSize + (kCpuLineCacheSize - 1)) % kCpuLineCacheSize
    else capacity) = capacity := if_neg (by simp only [ne_eq, not_and, not_not]; exact fun _ => hmod)
  rw [hround]
  generalize (if minimum_capacity ≠ 0 ∧ minimum_capacity % kCpuLineCacheSize ≠ 0 then
      max minimum_capacity kCpuLineCacheSize + (kCpuLineCacheSize - 1) -
        (max minimum_capacity kCpuLineCacheSize + (kCpuLineCacheSize - 1)) % kCpuLineCacheSize
    else minimum_capacity) = c at h
  split_ifs at h ⊢ <;> simp only [Option.some.injEq] at h <;> first | rfl | omega

/-- A created buffer has the geometry of an allocation, of the computed capacity, and an empty
payload after its padding with room for what was asked. -/
theorem sbufCreateWithPadding_some {w minimum_capacity pad_left : Nat} {b : SBuf}
    (h : sbufCreateWithPadding w minimum_capacity pad_left = some b) :
    b.Allocated w ∧ sbufTryComputeCapacity w minimum_capacity pad_left = some b.mem.length ∧
      b.len = 0 ∧ b.curpos = alignUp32 pad_left ∧ b.lpad = alignUp32 pad_left ∧
      minimum_capacity ≤ sbufGetMaximumWriteableSize b := by
  unfold sbufCreateWithPadding at h
  split at h
  · cases h
  · rename_i cap hcap
    split_ifs at h with hpad
    cases h
    rw [sbufTryComputeCapacity_alignUp32] at hcap
    have hidem := sbufTryComputeCapacityWithin_idem hcap
    obtain ⟨capacity, rfl, hmin, -, -⟩ := sbufTryComputeCapacityWithin_spec hcap
    refine ⟨⟨alignUp32_alignUp32 _, by simp, ?_⟩, by simpa using hcap, rfl, rfl, rfl, ?_⟩
    · rw [List.length_replicate, sbufTryComputeCapacity_alignUp32]
      exact hidem
    · simp only [sbufGetMaximumWriteableSize, List.length_replicate]
      omega

/-- An allocated buffer's capacity and padding make a buffer of the same geometry. -/
theorem sbufCreateWithPadding_of_allocated {w : Nat} {b : SBuf} (h : b.Allocated w) :
    ∃ nb, sbufCreateWithPadding w (sbufGetTotalCapacityNoPadding b) b.lpad = some nb ∧
      nb.geom = b.geom ∧ nb.curpos = b.lpad ∧ nb.len = 0 := by
  obtain ⟨halign, -, hcap⟩ := h
  obtain ⟨nb, hnb, -, -⟩ := sbufCreateWithPadding_eq hcap
  obtain ⟨-, hcap', hlen, hcur, hpad, -⟩ := sbufCreateWithPadding_some hnb
  have hcap'' : sbufTryComputeCapacity w (b.mem.length - b.lpad) b.lpad = some nb.mem.length :=
    hcap'
  rw [hcap, Option.some.injEq] at hcap''
  refine ⟨nb, hnb, ?_, by rw [hcur, halign], hlen⟩
  rw [SBuf.geom, SBuf.geom, ← hcap'', hpad, halign]

/-! ## In-place operations keep the geometry -/

theorem sbufShiftLeft_geom {b b' : SBuf} {n : Nat} (h : sbufShiftLeft b n = some b') :
    b'.geom = b.geom := by
  rw [sbufShiftLeft] at h
  split_ifs at h
  cases h
  rfl

theorem sbufShiftRight_geom {b b' : SBuf} {n : Nat} (h : sbufShiftRight b n = some b') :
    b'.geom = b.geom := by
  rw [sbufShiftRight] at h
  split_ifs at h
  cases h
  rfl

theorem sbufSetLength_geom {b b' : SBuf} {n : Nat} (h : sbufSetLength b n = some b') :
    b'.geom = b.geom := by
  rw [sbufSetLength_eq_dite] at h
  split_ifs at h
  cases h
  rfl

theorem sbufWriteAt_geom {b b' : SBuf} {off : Nat} {src : List UInt8}
    (h : sbufWriteAt b off src = some b') : b'.geom = b.geom := by
  rw [sbufWriteAt] at h
  split_ifs at h with hw
  cases h
  simp [SBuf.geom, length_overwrite hw]

theorem sbufConsume_geom {b b' : SBuf} {n : Nat} (h : sbufConsume b n = some b') :
    b'.geom = b.geom := by
  rw [sbufConsume] at h
  split_ifs at h
  exact sbufSetLength_geom h

theorem sbufMoveTo_geom {dest source : SBuf} {n : Nat} {r : SBuf × SBuf}
    (h : sbufMoveTo dest source n = some r) : r.1.geom = dest.geom ∧ r.2.geom = source.geom := by
  rw [sbufMoveTo] at h
  split_ifs at h
  obtain ⟨dest', hw, h⟩ := Option.bind_eq_some_iff.1 h
  obtain ⟨dest'', hs, h⟩ := Option.bind_eq_some_iff.1 h
  obtain ⟨source', hr, rfl⟩ := Option.map_eq_some_iff.1 h
  exact ⟨(sbufSetLength_geom hs).trans (sbufWriteAt_geom hw), sbufShiftRight_geom hr⟩

theorem sbufDuplicateTo_geom {b dest : SBuf} {r : Bool × SBuf}
    (h : sbufDuplicateTo b dest = some r) : r.2.geom = dest.geom := by
  rw [sbufDuplicateTo] at h
  split_ifs at h with hfail hpos
  · cases h
    rfl
  · obtain ⟨d, hw, rfl⟩ := Option.map_eq_some_iff.1 h
    have hg := sbufWriteAt_geom hw
    exact hg
  · cases h
    rfl

/-! ## Payload laws -/

/-- **Reserving space keeps the payload and makes the room asked for**, whenever it returns. -/
theorem sbufReserveSpace_some {w : Nat} {b b' : SBuf} {bytes : Nat}
    (h : sbufReserveSpace w b bytes = some b') :
    b'.payload = b.payload ∧ bytes ≤ sbufGetMaximumWriteableSize b' ∧ b'.len = b.len ∧
      (b.Allocated w → b'.Allocated w) := by
  rw [sbufReserveSpace] at h
  split_ifs at h with hroom
  · -- moved to a new buffer, created with room for the payload and for `bytes`
    obtain ⟨nb, hnb, h⟩ := Option.bind_eq_some_iff.1 h
    obtain ⟨nb₁, hset, hw⟩ := Option.bind_eq_some_iff.1 h
    obtain ⟨halloc, hlen0, -, -, hmax⟩ := sbufCreateWithPadding_some hnb
    rw [sbufSetLength_eq_dite] at hset
    split_ifs at hset with hfit
    cases hset
    rw [sbufWrite, sbufWriteAt] at hw
    split_ifs at hw with hw'
    cases hw
    have hmem : ((nb.setLength b.len hfit).writeAt 0 b.payload hw').mem.length = nb.mem.length :=
      length_overwrite hw'
    refine ⟨?_, ?_, rfl, fun _ => halloc.of_geom (Prod.ext hmem rfl)⟩
    · rw [SBuf.payload_writeAt_of_le _ 0 _ hw' (by simp), overwrite_of_length_eq (by simp)]
    · simp only [sbufGetMaximumWriteableSize, hmem, SBuf.writeAt_curpos, SBuf.setLength_curpos]
        at hmax ⊢
      omega
  · cases h
    exact ⟨rfl, by omega, rfl, id⟩

/-- A write right behind the payload, then the length that takes it in, appends it. -/
theorem SBuf.payload_setLength_writeAt (b : SBuf) (tl : List UInt8)
    (hw : b.curpos + b.len + tl.length ≤ b.mem.length)
    (h : (b.writeAt b.len tl hw).curpos + (b.len + tl.length) ≤ (b.writeAt b.len tl hw).mem.length) :
    ((b.writeAt b.len tl hw).setLength (b.len + tl.length) h).payload = b.payload ++ tl :=
  b.payload_writeAt_setLength tl (by omega) (by simpa using hw)

/-- **`sbufConcat` appends the payloads**, whenever it returns. -/
theorem sbufConcat_some {w : Nat} {root buf r : SBuf} (h : sbufConcat w root buf = some r) :
    r.payload = root.payload ++ buf.payload ∧ (root.Allocated w → r.Allocated w) := by
  rw [sbufConcat] at h
  split_ifs at h
  obtain ⟨root', hres, h⟩ := Option.bind_eq_some_iff.1 h
  obtain ⟨hpay, hroom, hlen, halloc⟩ := sbufReserveSpace_some hres
  have hfit : root'.curpos + (root'.len + buf.payload.length) ≤ root'.mem.length := by
    have := root'.fits
    simp only [sbufGetMaximumWriteableSize, SBuf.length_payload] at hroom ⊢
    omega
  obtain ⟨r', hr', hpay', -⟩ := sbufWriteAt_sbufSetLength hfit
  rw [hlen, SBuf.length_payload, h] at hr'
  cases hr'
  obtain ⟨root'', hset, hw⟩ := Option.bind_eq_some_iff.1 h
  refine ⟨by rw [hpay', hpay], fun hroot => (halloc hroot).of_geom ?_⟩
  exact (sbufWriteAt_geom hw).trans (sbufSetLength_geom hset)

/-- **`sbufMoveTo` moves the front of one payload behind the other**, whenever its assertions
hold. -/
theorem sbufMoveTo_eq {dest source : SBuf} {n : Nat} (hn : n ≤ source.len)
    (hroom : dest.len + n ≤ sbufGetMaximumWriteableSize dest) (hmax : dest.len + n ≤ UINT32_MAX) :
    ∃ d s, sbufMoveTo dest source n = some (d, s) ∧
      d.payload = dest.payload ++ source.payload.take n ∧ s.payload = source.payload.drop n ∧
      d.geom = dest.geom ∧ s.geom = source.geom := by
  have hfit := dest.fits
  have htake : (source.payload.take n).length = n := by simp [hn]
  have hw : dest.curpos + dest.len + (source.payload.take n).length ≤ dest.mem.length := by
    simp only [sbufGetMaximumWriteableSize] at hroom
    omega
  have hset : (dest.writeAt dest.len _ hw).curpos + (dest.len + n) ≤
      (dest.writeAt dest.len _ hw).mem.length := by
    simp only [SBuf.writeAt_curpos, SBuf.writeAt_mem, length_overwrite hw]
    omega
  refine ⟨(dest.writeAt dest.len _ hw).setLength (dest.len + n) hset, source.shiftRight n hn, ?_,
    ?_, SBuf.payload_shiftRight source n hn, ?_, rfl⟩
  · rw [sbufMoveTo, if_pos ⟨hn, by omega, hroom⟩, sbufWriteAt_eq hw, Option.bind_some,
      sbufSetLength_eq hset, Option.bind_some, sbufShiftRight_eq hn]
    rfl
  · have hset' : (dest.writeAt dest.len _ hw).curpos +
        (dest.len + (source.payload.take n).length) ≤ (dest.writeAt dest.len _ hw).mem.length := by
      rw [htake]
      exact hset
    have := dest.payload_setLength_writeAt (source.payload.take n) hw hset'
    simp only [htake] at this
    exact this
  · simp [SBuf.geom, length_overwrite hw]

/-- **`sbufDuplicateTo` fails exactly when the source does not fit**, and leaves `dest` alone
then; otherwise `dest` takes the source's cursor and payload. -/
theorem sbufDuplicateTo_eq (b dest : SBuf) :
    ∃ ok d, sbufDuplicateTo b dest = some (ok, d) ∧
      (ok = false ↔ b.curpos > dest.mem.length ∨ b.curpos + b.len > dest.mem.length) ∧
      (ok = false → d = dest) ∧
      (ok = true → d.curpos = b.curpos ∧ d.payload = b.payload ∧ d.geom = dest.geom) := by
  by_cases hfail : b.curpos > sbufGetTotalCapacity dest ∨ b.len > sbufGetTotalCapacity dest - b.curpos
  · refine ⟨false, dest, by rw [sbufDuplicateTo, dif_pos hfail], ?_, fun _ => rfl, nofun⟩
    simp only [sbufGetTotalCapacity] at hfail
    simp only [true_iff]
    omega
  · have hfit : b.curpos + b.len ≤ dest.mem.length := by
      simp only [sbufGetTotalCapacity, not_or, not_lt] at hfail
      omega
    have hiff : (true = false ↔ b.curpos > dest.mem.length ∨ b.curpos + b.len > dest.mem.length) := by
      simp only [Bool.true_eq_false, false_iff]
      omega
    by_cases hpos : 0 < b.len
    · -- the payload is copied over the new cursor
      have hw : (dest.setCursor b.curpos b.len hfit).curpos + 0 + b.payload.length ≤
          (dest.setCursor b.curpos b.len hfit).mem.length := by
        simpa using hfit
      refine ⟨true, (dest.setCursor b.curpos b.len hfit).writeAt 0 b.payload hw, ?_, hiff, nofun,
        fun _ => ⟨rfl, ?_, ?_⟩⟩
      · rw [sbufDuplicateTo, dif_neg hfail]
        simp only [hpos, if_true]
        rw [sbufWrite, sbufWriteAt_eq hw]
        rfl
      · rw [SBuf.payload_writeAt_of_le _ 0 _ hw (by simp),
          overwrite_of_length_eq (by simp)]
      · exact Prod.ext (length_overwrite hw) rfl
    · -- nothing to copy
      have hlen : b.len = 0 := by omega
      refine ⟨true, dest.setCursor b.curpos b.len hfit, ?_, hiff, nofun, fun _ => ⟨rfl, ?_, rfl⟩⟩
      · rw [sbufDuplicateTo, dif_neg hfail]
        simp only [hpos, if_false]
      · have h₁ : (dest.setCursor b.curpos b.len hfit).payload.length = 0 := by simp [hlen]
        have h₂ : b.payload.length = 0 := by simp [hlen]
        rw [List.eq_nil_of_length_eq_zero h₁, List.eq_nil_of_length_eq_zero h₂]

/-- **An exact duplicate of an allocated buffer** has its cursor, padding, payload and capacity. -/
theorem sbufDuplicate_eq {w : Nat} {b : SBuf} (h : b.Allocated w) :
    ∃ d, sbufDuplicate w b = some d ∧ d.curpos = b.curpos ∧ d.lpad = b.lpad ∧
      d.payload = b.payload ∧ d.Allocated w := by
  obtain ⟨nb, hnb, hgeom, -, -⟩ := sbufCreateWithPadding_of_allocated h
  have hg := hgeom
  simp only [SBuf.geom, Prod.mk.injEq] at hg
  obtain ⟨ok, d, hdup, hiff, -, hok⟩ := sbufDuplicateTo_eq b nb
  -- the new buffer has `b`'s capacity, so `b` fits it
  have htrue : ok = true := by
    cases ok with
    | true => rfl
    | false =>
      have hfit := b.fits
      rw [hg.1] at hiff
      exact absurd (hiff.1 rfl) (by omega)
  subst htrue
  obtain ⟨hcur, hpay, hgeom'⟩ := hok rfl
  have hgd : d.geom = b.geom := hgeom'.trans hgeom
  refine ⟨d, ?_, hcur, ?_, hpay, h.of_geom hgd⟩
  · rw [sbufDuplicate, hnb, Option.bind_some, hdup, Option.bind_some]
    rfl
  · simp only [SBuf.geom, Prod.mk.injEq] at hgd
    exact hgd.2

/-! ## Every buffer a program reaches -/

/-- The buffers reached from `sbufCreateWithPadding` by the operations of `shiftbuffer.h` and
`shiftbuffer.c`, on a `w`-bit `size_t`. -/
inductive SBufReached (w : Nat) : SBuf → Prop
  | create {minimum_capacity pad_left : Nat} {b : SBuf} :
      sbufCreateWithPadding w minimum_capacity pad_left = some b → SBufReached w b
  | shiftLeft {b b' : SBuf} {n : Nat} : SBufReached w b → sbufShiftLeft b n = some b' →
      SBufReached w b'
  | shiftRight {b b' : SBuf} {n : Nat} : SBufReached w b → sbufShiftRight b n = some b' →
      SBufReached w b'
  | setLength {b b' : SBuf} {n : Nat} : SBufReached w b → sbufSetLength b n = some b' →
      SBufReached w b'
  | consume {b b' : SBuf} {n : Nat} : SBufReached w b → sbufConsume b n = some b' →
      SBufReached w b'
  | reserveSpace {b b' : SBuf} {n : Nat} : SBufReached w b → sbufReserveSpace w b n = some b' →
      SBufReached w b'
  | concat {root buf r : SBuf} : SBufReached w root → SBufReached w buf →
      sbufConcat w root buf = some r → SBufReached w r
  | moveToDest {dest source : SBuf} {n : Nat} {r : SBuf × SBuf} : SBufReached w dest →
      SBufReached w source → sbufMoveTo dest source n = some r → SBufReached w r.1
  | moveToSource {dest source : SBuf} {n : Nat} {r : SBuf × SBuf} : SBufReached w dest →
      SBufReached w source → sbufMoveTo dest source n = some r → SBufReached w r.2
  | sliceNew {b : SBuf} {n : Nat} {r : SBuf × SBuf} : SBufReached w b →
      sbufSlice w b n = some r → SBufReached w r.1
  | sliceRest {b : SBuf} {n : Nat} {r : SBuf × SBuf} : SBufReached w b →
      sbufSlice w b n = some r → SBufReached w r.2
  | duplicate {b d : SBuf} : SBufReached w b → sbufDuplicate w b = some d → SBufReached w d
  | duplicateTo {b dest : SBuf} {r : Bool × SBuf} : SBufReached w b → SBufReached w dest →
      sbufDuplicateTo b dest = some r → SBufReached w r.2

/-- A slice is a fresh buffer of the source's geometry, or of any allocation's. -/
theorem sbufSlice_allocated {w : Nat} {b : SBuf} {n : Nat} {r : SBuf × SBuf} (hb : b.Allocated w)
    (h : sbufSlice w b n = some r) : r.1.Allocated w ∧ r.2.Allocated w := by
  obtain ⟨nb, hnb, hmove⟩ := Option.bind_eq_some_iff.1 h
  have hg := sbufMoveTo_geom hmove
  exact ⟨(sbufCreateWithPadding_some hnb).1.of_geom hg.1, hb.of_geom hg.2⟩

/-- **Every reached buffer has the geometry of an allocation.** -/
theorem SBufReached.allocated {w : Nat} {b : SBuf} (h : SBufReached w b) : b.Allocated w := by
  induction h with
  | create h => exact (sbufCreateWithPadding_some h).1
  | shiftLeft _ h ih => exact ih.of_geom (sbufShiftLeft_geom h)
  | shiftRight _ h ih => exact ih.of_geom (sbufShiftRight_geom h)
  | setLength _ h ih => exact ih.of_geom (sbufSetLength_geom h)
  | consume _ h ih => exact ih.of_geom (sbufConsume_geom h)
  | reserveSpace _ h ih => exact (sbufReserveSpace_some h).2.2.2 ih
  | concat _ _ h ih _ => exact (sbufConcat_some h).2 ih
  | moveToDest _ _ h ih _ => exact ih.of_geom (sbufMoveTo_geom h).1
  | moveToSource _ _ h _ ih => exact ih.of_geom (sbufMoveTo_geom h).2
  | sliceNew _ h ih => exact (sbufSlice_allocated ih h).1
  | sliceRest _ h ih => exact (sbufSlice_allocated ih h).2
  | duplicate _ h _ =>
    obtain ⟨nb, hnb, h⟩ := Option.bind_eq_some_iff.1 h
    obtain ⟨r, hdup, h⟩ := Option.bind_eq_some_iff.1 h
    split_ifs at h
    cases h
    exact (sbufCreateWithPadding_some hnb).1.of_geom (sbufDuplicateTo_geom hdup)
  | duplicateTo _ _ h _ ih => exact ih.of_geom (sbufDuplicateTo_geom h)

end WaterWall
