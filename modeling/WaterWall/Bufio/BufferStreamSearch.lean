import Mathlib
import WaterWall.Bufio.BufferStream
import WaterWall.Search.Occurrence

/-!
# Finding line and header ends in a buffer stream

The HTTP tunnels look for the end of a line and of a header block in a `buffer_stream_t` without
joining its buffers: `bufferstreamFindCRLF` and `bufferstreamFindDoubleCRLF` walk the queue byte by
byte with a small matching automaton whose state survives buffer boundaries.

* `firstCRLF_eq_firstOccurrence`: what `bufferstreamFindCRLF` finds (`WaterWall.Bufio.BufferStream`)
  is the first occurrence of `"\r\n"`.
* `bufferstreamFindDoubleCRLF` is the loop body `findDoubleCRLFStep` run by the `Occurrence`
  library's `scanQueue`.  `scan_findDoubleCRLFStep` is the automaton's invariant: from the state
  "the last `s` bytes were the first `s` bytes of `"\r\n\r\n"`", the scan finds the first
  occurrence in those `s` bytes followed by the rest; the fallbacks on a repeated `'\r'` are its
  cases.
* `bufferstream_findCRLF_first`: each function returns the least index of its pattern in the
  stream's bytes, however they are split into buffers.
-/

set_option autoImplicit false

namespace WaterWall

open Occurrence

/-! ## CRLF -/

theorem firstCRLF_eq_firstOccurrence (xs : List UInt8) :
    firstCRLF xs = firstOccurrence [13, 10] xs := by
  induction xs with
  | nil => rfl
  | cons c cs ih =>
    cases cs with
    | nil => simp [firstCRLF, firstOccurrence_cons, firstOccurrence_nil]
    | cons d rest =>
      rw [firstCRLF_cons_cons, firstOccurrence_cons, ih]
      -- the pattern starts at `c` exactly when `c d` is `"\r\n"`
      have hp : [(13 : UInt8), 10] <+: c :: d :: rest ↔ c = 13 ∧ d = 10 := by
        simp [List.cons_prefix_cons, eq_comm]
      by_cases hcd : c = 13 ∧ d = 10
      · rw [if_pos hcd, if_pos (hp.mpr hcd)]
      · rw [if_neg hcd, if_neg (mt hp.mp hcd)]

/-- A two-byte pattern starts at `i` when the bytes at `i` and `i + 1` are its bytes. -/
theorem pair_prefix_drop_iff {a b : UInt8} (xs : List UInt8) (i : Nat) :
    [a, b] <+: xs.drop i ↔ xs[i]? = some a ∧ xs[i + 1]? = some b := by
  have h0 : xs[i]? = (xs.drop i)[0]? := by rw [List.getElem?_drop, Nat.add_zero]
  have h1 : xs[i + 1]? = (xs.drop i)[1]? := by rw [List.getElem?_drop]
  rw [h0, h1]
  generalize xs.drop i = ys
  match ys with
  | [] => simp
  | [y] => simp
  | y :: z :: rest => simp [List.cons_prefix_cons, eq_comm]

/-! ## Double CRLF -/

/-- The end of an HTTP header block, `"\r\n\r\n"`. -/
def doubleCRLF : List UInt8 := [13, 10, 13, 10]

/-- The loop body of `bufferstreamFindDoubleCRLF` on the byte `c` at offset `pos`
(`cur_offset + i`).  The state is how much of `"\r\n\r\n"` the bytes before `c` end with, and
`match_idx` where that partial match starts; a result is `header_end`. -/
def findDoubleCRLFStep : Nat × Nat → Nat → UInt8 → Nat ⊕ (Nat × Nat)
  | (state, match_idx), pos, c =>
    if state = 0 then
      if c = 13 then .inr (1, pos) else .inr (0, match_idx)
    else if state = 1 then
      if c = 10 then .inr (2, match_idx)
      else if c = 13 then .inr (1, pos)
      else .inr (0, match_idx)
    else if state = 2 then
      if c = 13 then .inr (3, match_idx) else .inr (0, match_idx)
    else if state = 3 then
      if c = 10 then .inl (match_idx + 4)
      else if c = 13 then .inr (1, pos)
      else .inr (0, match_idx)
    else .inr (state, match_idx)

/-- `bufferstreamFindDoubleCRLF`: `header_end`, just past the first `"\r\n\r\n"` of the stream,
with the automaton's state carried from one queued buffer to the next. -/
def bufferstreamFindDoubleCRLF (bs : BufferStream) : Option Nat :=
  if bs.size < 4 then none else scanQueue findDoubleCRLFStep (0, 0) 0 bs.q

/-- Moving the search on by `k` bytes moves where it reports by `k`. -/
theorem map_add_four_shift (o : Option Nat) {a b k : Nat} (h : b + k = a) :
    o.map (· + a + 4) = (o.map (· + k)).map (· + b + 4) := by
  cases o with
  | none => rfl
  | some x =>
    simp only [Option.map_some, Option.some.injEq]
    omega

/-- One transition of the automaton that does not finish a match, from the `s` bytes matched
before `c` to the `s'` matched after it: the bytes `pre` it gives up hold no occurrence, so the
search from the new state, `|pre|` bytes further on, reports what the search from the old one
does. -/
theorem scan_findDoubleCRLFStep_cons {s s' m m' pos : Nat} {c : UInt8} {cs : List UInt8}
    (pre : List UInt8) (hstep : findDoubleCRLFStep (s, m) pos c = .inr (s', m'))
    (hsplit : doubleCRLF.take s ++ c :: cs = pre ++ (doubleCRLF.take s' ++ cs))
    (hskip : ∀ i < pre.length, ¬doubleCRLF <+: (pre ++ (doubleCRLF.take s' ++ cs)).drop i)
    (hlen : pos - s + pre.length = pos + 1 - s')
    (ih : (scan findDoubleCRLFStep (s', m') (pos + 1) cs).getLeft? =
      (firstOccurrence doubleCRLF (doubleCRLF.take s' ++ cs)).map (· + (pos + 1 - s') + 4)) :
    (scan findDoubleCRLFStep (s, m) pos (c :: cs)).getLeft? =
      (firstOccurrence doubleCRLF (doubleCRLF.take s ++ c :: cs)).map (· + (pos - s) + 4) := by
  rw [scan_cons, hstep]
  dsimp only
  rw [ih, hsplit, firstOccurrence_append_skip pre hskip]
  exact map_add_four_shift _ hlen

/-- **The automaton's invariant.**  In state `s` at offset `pos`, the last `s` bytes were the first
`s` bytes of `"\r\n\r\n"`, starting at `match_idx = pos - s`; the scan then reports the first
occurrence in those `s` bytes followed by the rest, as a `header_end` counted from `pos - s`.
The cases are the automaton's transitions, each with the bytes it gives up. -/
theorem scan_findDoubleCRLFStep (xs : List UInt8) :
    ∀ (s m pos : Nat), s ≤ 3 → (0 < s → m + s = pos) →
      (scan findDoubleCRLFStep (s, m) pos xs).getLeft? =
        (firstOccurrence doubleCRLF (doubleCRLF.take s ++ xs)).map (· + (pos - s) + 4) := by
  induction xs with
  | nil =>
    intro s m pos hs _
    interval_cases s <;> rfl
  | cons c cs ih =>
    intro s m pos hs hm
    interval_cases s
    · -- nothing matched yet
      by_cases h13 : c = 13
      · subst h13
        exact scan_findDoubleCRLFStep_cons [] (by simp [findDoubleCRLFStep]) (by simp [doubleCRLF])
          (by simp) (by simp) (ih 1 pos (pos + 1) (by omega) (by omega))
      · exact scan_findDoubleCRLFStep_cons [c] (by simp [findDoubleCRLFStep, h13]) (by simp)
          (by simp [doubleCRLF, Ne.symm h13]) (by simp) (ih 0 m (pos + 1) (by omega) (by omega))
    · -- after `'\r'`
      have hpos := hm (by omega)
      by_cases h10 : c = 10
      · subst h10
        exact scan_findDoubleCRLFStep_cons [] (by simp [findDoubleCRLFStep]) (by simp [doubleCRLF])
          (by simp) (by simp only [List.length_nil]; omega) (ih 2 m (pos + 1) (by omega) (by omega))
      by_cases h13 : c = 13
      · -- `"\r\r"`: the match restarts at the second `'\r'`
        subst h13
        exact scan_findDoubleCRLFStep_cons [13] (by simp [findDoubleCRLFStep])
          (by simp [doubleCRLF]) (by simp [doubleCRLF]) (by simp only [List.length_cons, List.length_nil]; omega)
          (ih 1 pos (pos + 1) (by omega) (by omega))
      · exact scan_findDoubleCRLFStep_cons [13, c] (by simp [findDoubleCRLFStep, h10, h13])
          (by simp [doubleCRLF])
          (by intro i hi; simp only [List.length_cons, List.length_nil] at hi; interval_cases i <;> simp [doubleCRLF, Ne.symm h10, Ne.symm h13])
          (by simp only [List.length_cons, List.length_nil]; omega) (ih 0 m (pos + 1) (by omega) (by omega))
    · -- after `"\r\n"`
      have hpos := hm (by omega)
      by_cases h13 : c = 13
      · subst h13
        exact scan_findDoubleCRLFStep_cons [] (by simp [findDoubleCRLFStep]) (by simp [doubleCRLF])
          (by simp) (by simp only [List.length_nil]; omega) (ih 3 m (pos + 1) (by omega) (by omega))
      · exact scan_findDoubleCRLFStep_cons [13, 10, c] (by simp [findDoubleCRLFStep, h13])
          (by simp [doubleCRLF])
          (by intro i hi; simp only [List.length_cons, List.length_nil] at hi; interval_cases i <;> simp [doubleCRLF, Ne.symm h13])
          (by simp only [List.length_cons, List.length_nil]; omega) (ih 0 m (pos + 1) (by omega) (by omega))
    · -- after `"\r\n\r"`
      have hpos := hm (by omega)
      by_cases h10 : c = 10
      · -- the pattern is complete, and starts at `match_idx`
        subst h10
        have hstep : findDoubleCRLFStep (3, m) pos 10 = .inl (m + 4) := by
          simp [findDoubleCRLFStep]
        have hfirst : firstOccurrence doubleCRLF (doubleCRLF.take 3 ++ 10 :: cs) = some 0 :=
          (firstOccurrence_eq_some_iff _ _ 0).mpr
            ⟨by simp [doubleCRLF], fun j hj => absurd hj (Nat.not_lt_zero j)⟩
        rw [scan_cons, hstep, hfirst]
        simp only [Sum.getLeft?_inl, Option.map_some, Option.some.injEq]
        omega
      by_cases h13 : c = 13
      · -- `"\r\n\r\r"`: the match restarts at the last `'\r'`
        subst h13
        exact scan_findDoubleCRLFStep_cons [13, 10, 13] (by simp [findDoubleCRLFStep])
          (by simp [doubleCRLF])
          (by intro i hi; simp only [List.length_cons, List.length_nil] at hi; interval_cases i <;> simp [doubleCRLF])
          (by simp only [List.length_cons, List.length_nil]; omega) (ih 1 pos (pos + 1) (by omega) (by omega))
      · exact scan_findDoubleCRLFStep_cons [13, 10, 13, c] (by simp [findDoubleCRLFStep, h10, h13])
          (by simp [doubleCRLF])
          (by intro i hi; simp only [List.length_cons, List.length_nil] at hi; interval_cases i <;> simp [doubleCRLF, Ne.symm h10, Ne.symm h13])
          (by simp only [List.length_cons, List.length_nil]; omega) (ih 0 m (pos + 1) (by omega) (by omega))

/-- **`bufferstreamFindDoubleCRLF` finds the first `"\r\n\r\n"` of the stream**, whatever the
queue looks like, and reports the offset just past it. -/
theorem bufferstreamFindDoubleCRLF_eq (bs : BufferStream) :
    bufferstreamFindDoubleCRLF bs = (firstOccurrence doubleCRLF bs.content).map (· + 4) := by
  rw [bufferstreamFindDoubleCRLF]
  split_ifs with h
  · -- fewer than four bytes hold no occurrence
    have hnone : firstOccurrence doubleCRLF bs.content = none := by
      rw [firstOccurrence_eq_none_iff]
      intro k hk
      have := hk.length_le
      rw [List.length_drop, ← bs.size_eq_length] at this
      simp only [doubleCRLF, List.length_cons, List.length_nil] at this
      omega
    rw [hnone]
    rfl
  · rw [scanQueue_eq, scan_findDoubleCRLFStep _ 0 0 0 (by omega) (by omega)]
    rfl

/-- `"\r\n\r\n"` starts a byte string when its first four bytes are those. -/
theorem doubleCRLF_prefix_iff (ys : List UInt8) :
    doubleCRLF <+: ys ↔ ys.take 4 = [13, 10, 13, 10] := by
  rw [List.prefix_iff_eq_take, eq_comm]
  rfl

/-! ## Both searches -/

/-- **Both searches return the least index of their pattern in the stream's bytes, whatever the
queue looks like.**  `bufferstreamFindCRLF` returns `i` exactly when bytes `i` and `i + 1` are
`'\r'` and `'\n'` and no earlier pair is, and nothing when there is no such pair;
`bufferstreamFindDoubleCRLF` returns `k + 4` exactly when the four bytes from `k` are
`"\r\n\r\n"` and none from an earlier index are, and nothing when there are none.  Two streams
holding the same bytes in different buffers get the same answers. -/
theorem bufferstream_findCRLF_first (bs : BufferStream) :
    (∀ i, bufferstreamFindCRLF bs = some i ↔
      (bs.content[i]? = some (13 : UInt8) ∧ bs.content[i + 1]? = some 10) ∧
        ∀ j < i, ¬(bs.content[j]? = some 13 ∧ bs.content[j + 1]? = some 10)) ∧
    (bufferstreamFindCRLF bs = none ↔
      ∀ i : Nat, ¬(bs.content[i]? = some (13 : UInt8) ∧ bs.content[i + 1]? = some 10)) ∧
    (∀ h, bufferstreamFindDoubleCRLF bs = some h ↔
      ∃ k, h = k + 4 ∧ (bs.content.drop k).take 4 = [13, 10, 13, 10] ∧
        ∀ j < k, (bs.content.drop j).take 4 ≠ [13, 10, 13, 10]) ∧
    (bufferstreamFindDoubleCRLF bs = none ↔
      ∀ k : Nat, (bs.content.drop k).take 4 ≠ [13, 10, 13, 10]) ∧
    (∀ bs' : BufferStream, bs'.content = bs.content →
      bufferstreamFindCRLF bs' = bufferstreamFindCRLF bs ∧
        bufferstreamFindDoubleCRLF bs' = bufferstreamFindDoubleCRLF bs) := by
  refine ⟨fun i => ?_, ?_, fun h => ?_, ?_, fun bs' hc => ?_⟩
  · rw [bufferstreamFindCRLF_eq, firstCRLF_eq_firstOccurrence, firstOccurrence_eq_some_iff]
    simp only [pair_prefix_drop_iff]
  · rw [bufferstreamFindCRLF_eq, firstCRLF_eq_firstOccurrence, firstOccurrence_eq_none_iff]
    simp only [pair_prefix_drop_iff]
  · -- the answer is four past the first occurrence
    rw [bufferstreamFindDoubleCRLF_eq, Option.map_eq_some_iff]
    simp only [firstOccurrence_eq_some_iff, doubleCRLF_prefix_iff]
    constructor
    · rintro ⟨k, hk, rfl⟩
      exact ⟨k, rfl, hk⟩
    · rintro ⟨k, rfl, hk⟩
      exact ⟨k, hk, rfl⟩
  · rw [bufferstreamFindDoubleCRLF_eq, Option.map_eq_none_iff, firstOccurrence_eq_none_iff]
    simp only [doubleCRLF_prefix_iff]
  · rw [bufferstreamFindCRLF_eq, bufferstreamFindCRLF_eq, bufferstreamFindDoubleCRLF_eq,
      bufferstreamFindDoubleCRLF_eq, hc]
    exact ⟨rfl, rfl⟩

end WaterWall
