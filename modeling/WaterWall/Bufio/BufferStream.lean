import WaterWall.Bufio.ShiftBuffer

/-!
# `buffer_stream_t`: a byte stream over a queue of buffers

`ww/bufio/buffer_stream.c` is where every receiver in the repository keeps the bytes that have
arrived but not yet been decoded: a queue of buffers, in the order they were pushed, and a running
`size`.  Reads pull buffers off the front and merge or split them (`bufferstreamReadExact`,
`bufferstreamReadAtLeast`, `bufferstreamIdealRead`), peeks walk the queue
(`bufferstreamViewBytesAt`), and the CRLF search runs a small state machine across buffer
boundaries (`bufferstreamFindCRLF`).

The model keeps the queue as it is, so that each of these loops is the code's loop, and proves
that each operation is described by what it does to `BufferStream.content`, the concatenation of
the queue (`content_bufferstreamPush`, `bufferstreamReadExact_eq`, `bufferstreamViewBytesAt_eq`,
`bufferstreamFindCRLF_eq`): what a receiver sees depends on the bytes only, not on how they were
split.  Over a whole run of calls (`StreamRun`), what leaves the stream and what is still queued
are what was pushed, in order (`bufferstream_fifo`).  The structure carries the invariant that
`size` is the total length of the queue, which makes the code's bounds checks on it sound.

Aborts (`assert`, `abortProgramNow`) are `none`.  The left padding of the slices and the pool
buffers are returned to affect no payload and are not modelled.
-/

set_option autoImplicit false

namespace WaterWall

/-- A `buffer_stream_t`: the queued buffers' payloads, front first, and the running size. -/
structure BufferStream where
  /-- The queue `q`. -/
  q : List (List UInt8)
  size : Nat
  /-- The running size is the total length of the queue. -/
  size_eq : size = (q.map List.length).sum

namespace BufferStream

/-- The bytes buffered: the queue, concatenated. -/
def content (bs : BufferStream) : List UInt8 := bs.q.flatten

theorem size_eq_length (bs : BufferStream) : bs.size = bs.content.length := by
  rw [bs.size_eq, content, List.length_flatten]

/-- A stream holding exactly `xs`, in one buffer. -/
def ofList (xs : List UInt8) : BufferStream := ⟨[xs], xs.length, by simp⟩

@[simp] theorem content_ofList (xs : List UInt8) : (ofList xs).content = xs := by
  simp [ofList, content]

@[simp] theorem size_ofList (xs : List UInt8) : (ofList xs).size = xs.length := rfl

end BufferStream

/-- `bufferstreamCreate`: an empty stream. -/
def bufferstreamCreate : BufferStream := ⟨[], 0, rfl⟩

def bufferstreamGetBufLen (bs : BufferStream) : Nat := bs.size

def bufferstreamIsEmpty (bs : BufferStream) : Bool := bs.size == 0

/-- `bufferstreamEmpty`: every queued buffer goes back to the pool. -/
def bufferstreamEmpty (_bs : BufferStream) : BufferStream := bufferstreamCreate

@[simp] theorem content_bufferstreamCreate : bufferstreamCreate.content = [] := rfl

/-! ## Pushing -/

/-- `bufferstreamPush`: queue a buffer at the back.  Aborts when the buffered total would leave
the 32-bit range `sbuf_t` lengths live in. -/
def bufferstreamPush (bs : BufferStream) (buf : List UInt8) : Option BufferStream :=
  if buf.length > UINT32_MAX then none
  else if bs.size > UINT32_MAX - buf.length then none
  else some ⟨bs.q ++ [buf], bs.size + buf.length, by simp [bs.size_eq]⟩

theorem bufferstreamPush_eq {bs : BufferStream} {buf : List UInt8}
    (h : bs.size + buf.length ≤ UINT32_MAX) :
    bufferstreamPush bs buf = some ⟨bs.q ++ [buf], bs.size + buf.length, by simp [bs.size_eq]⟩ := by
  rw [bufferstreamPush, if_neg (by omega), if_neg (by omega)]

theorem bufferstreamPush_some {bs : BufferStream} {buf : List UInt8}
    (h : bs.size + buf.length ≤ UINT32_MAX) :
    ∃ bs', bufferstreamPush bs buf = some bs' ∧ bs'.content = bs.content ++ buf ∧
      bs'.size = bs.size + buf.length :=
  ⟨_, bufferstreamPush_eq h, by simp [BufferStream.content], rfl⟩

theorem content_bufferstreamPush {bs bs' : BufferStream} {buf : List UInt8}
    (h : bufferstreamPush bs buf = some bs') : bs'.content = bs.content ++ buf := by
  rw [bufferstreamPush] at h
  split_ifs at h
  cases h
  simp [BufferStream.content]

/-! ## Reading -/

/-- The loop of `bufferstreamReadExact`: `container` is what has been pulled off the front so far.
A container longer than the request is split (its tail goes back to the front of the queue), one
of exactly the right length is returned whole, and a shorter one is merged with the next buffer.
Running out of buffers is the assertion that the size accounting is consistent. -/
def readExactLoop (bytes : Nat) : List UInt8 → List (List UInt8) → Option (List UInt8 × List (List UInt8))
  | container, q =>
    if bytes < container.length then some (container.take bytes, container.drop bytes :: q)
    else if container.length = bytes then some (container, q)
    else
      match q with
      | [] => none
      | next :: q' => readExactLoop bytes (container ++ next) q'

/-- Whenever enough is queued, the loop returns the first `bytes` bytes and leaves the rest. -/
theorem readExactLoop_eq (bytes : Nat) (q : List (List UInt8)) :
    ∀ container : List UInt8, bytes ≤ container.length + (q.map List.length).sum →
      ∃ q', readExactLoop bytes container q = some ((container ++ q.flatten).take bytes, q') ∧
        q'.flatten = (container ++ q.flatten).drop bytes := by
  induction q with
  | nil =>
    intro container h
    simp only [List.map_nil, List.sum_nil, Nat.add_zero] at h
    rw [readExactLoop]
    rcases Nat.lt_or_eq_of_le h with hlt | heq
    · exact ⟨[container.drop bytes], by rw [if_pos hlt]; simp, by simp⟩
    · subst heq
      exact ⟨[], by rw [if_neg (Nat.lt_irrefl _), if_pos rfl]; simp, by simp⟩
  | cons next q ih =>
    intro container h
    have hflat : (container ++ (next :: q).flatten) = (container ++ next) ++ q.flatten := by simp
    rw [readExactLoop]
    by_cases hlt : bytes < container.length
    · refine ⟨container.drop bytes :: next :: q, ?_, ?_⟩
      · rw [if_pos hlt, List.take_append_of_le_length hlt.le]
      · simp [List.drop_append_of_le_length hlt.le]
    · by_cases heq : container.length = bytes
      · subst heq
        refine ⟨next :: q, ?_, by rw [List.drop_left' rfl]⟩
        rw [if_neg hlt, if_pos rfl, List.take_left' rfl]
      · rw [if_neg hlt, if_neg heq]
        have h' : bytes ≤ (container ++ next).length + (q.map List.length).sum := by
          simp only [List.map_cons, List.sum_cons] at h
          simp only [List.length_append]
          omega
        rw [hflat]
        exact ih (container ++ next) h'

theorem readExactLoop_sum {bytes : Nat} {container : List UInt8} {q q' : List (List UInt8)}
    {slice : List UInt8} (hle : bytes ≤ container.length + (q.map List.length).sum)
    (h : readExactLoop bytes container q = some (slice, q')) :
    (q'.map List.length).sum = container.length + (q.map List.length).sum - bytes := by
  obtain ⟨q'', h', hq''⟩ := readExactLoop_eq bytes q container hle
  rw [h] at h'
  cases h'
  rw [← List.length_flatten, hq'', List.length_drop, List.length_append, List.length_flatten]

/-- `bufferstreamReadExact`: remove the first `bytes` bytes and return them as one buffer.
Aborts unless `0 < bytes ≤ size` and `bytes` fits in an `sbuf_t`. -/
def bufferstreamReadExact (bs : BufferStream) (bytes : Nat) : Option (List UInt8 × BufferStream) :=
  if hb : bytes ≤ bs.size ∧ 0 < bytes ∧ bytes ≤ UINT32_MAX then
    match hq : bs.q with
    | [] => none
    | container :: q =>
      match h : readExactLoop bytes container q with
      | none => none
      | some (slice, q') =>
        some (slice, ⟨q', bs.size - bytes, by
          have hs := bs.size_eq
          rw [hq, List.map_cons, List.sum_cons] at hs
          rw [readExactLoop_sum (by omega) h]
          omega⟩)
  else none

/-- **`bufferstreamReadExact` reads the stream's first bytes**, whatever the queue looks like. -/
theorem bufferstreamReadExact_eq {bs : BufferStream} {n : Nat} (hn : 0 < n) (hle : n ≤ bs.size)
    (hmax : n ≤ UINT32_MAX) :
    ∃ bs', bufferstreamReadExact bs n = some (bs.content.take n, bs') ∧
      bs'.content = bs.content.drop n ∧ bs'.size = bs.size - n := by
  have hs := bs.size_eq
  unfold bufferstreamReadExact
  rw [dif_pos ⟨hle, hn, hmax⟩]
  split
  · rename_i hq
    rw [hq] at hs
    simp at hs
    omega
  · rename_i container q hq
    rw [hq, List.map_cons, List.sum_cons] at hs
    obtain ⟨q', hloop, hq'⟩ := readExactLoop_eq n q container (by omega)
    split
    · rename_i h; rw [hloop] at h; cases h
    · rename_i slice q'' h
      rw [hloop] at h
      cases h
      have hc : bs.content = container ++ q.flatten := by
        rw [BufferStream.content, hq, List.flatten_cons]
      refine ⟨_, by rw [hc], ?_, rfl⟩
      show q'.flatten = _
      rw [hq', hc]

/-- A read of nothing is the assertion `bytes > 0`. -/
theorem bufferstreamReadExact_zero (bs : BufferStream) : bufferstreamReadExact bs 0 = none := by
  rw [bufferstreamReadExact, dif_neg (by omega)]

/-- What a successful read promises, whatever it was asked: a non-empty request for bytes that were
buffered, and a stream that much shorter. -/
theorem bufferstreamReadExact_some {bs bs' : BufferStream} {n : Nat} {out : List UInt8}
    (h : bufferstreamReadExact bs n = some (out, bs')) :
    0 < n ∧ n ≤ bs.size ∧ bs'.content = bs.content.drop n ∧ bs'.size = bs.size - n := by
  by_cases hok : n ≤ bs.size ∧ 0 < n ∧ n ≤ UINT32_MAX
  · obtain ⟨bs'', h', hc, hs⟩ := bufferstreamReadExact_eq hok.2.1 hok.1 hok.2.2
    rw [h] at h'
    cases h'
    exact ⟨hok.2.1, hok.1, hc, hs⟩
  · rw [bufferstreamReadExact, dif_neg hok] at h
    cases h

/-- The loop of `bufferstreamReadAtLeast`: merge the next buffer into the container until it holds
at least `bytes`.  `sbufAppendMerge` aborts when a merge would pass 32 bits, and running out of
buffers is the assertion that the size accounting is consistent. -/
def readAtLeastLoop (bytes : Nat) : List UInt8 → List (List UInt8) →
    Option (List UInt8 × List (List UInt8))
  | container, q =>
    if bytes ≤ container.length then some (container, q)
    else
      match q with
      | [] => none
      | next :: q' =>
        if container.length > UINT32_MAX - next.length then none
        else readAtLeastLoop bytes (container ++ next) q'

/-- What the loop returns: the container with the next `k` buffers merged in, for the least `k`
that reaches `bytes`, and the queue after them. -/
theorem readAtLeastLoop_some {bytes : Nat} :
    ∀ {q : List (List UInt8)} {container out : List UInt8} {q' : List (List UInt8)},
      readAtLeastLoop bytes container q = some (out, q') →
      ∃ k, out = container ++ (q.take k).flatten ∧ q' = q.drop k ∧ bytes ≤ out.length ∧
        ∀ j < k, (container ++ (q.take j).flatten).length < bytes
  | [], container, out, q', h => by
    rw [readAtLeastLoop] at h
    split_ifs at h with hle
    cases h
    exact ⟨0, by simp, rfl, hle, nofun⟩
  | next :: q, container, out, q', h => by
    rw [readAtLeastLoop] at h
    by_cases hle : bytes ≤ container.length
    · rw [if_pos hle] at h
      cases h
      exact ⟨0, by simp, rfl, hle, nofun⟩
    rw [if_neg hle] at h
    split_ifs at h
    -- merged with `next`: one buffer more than the rest of the loop takes
    obtain ⟨k, hout, hq', hlen, hmin⟩ := readAtLeastLoop_some h
    refine ⟨k + 1, by simp [hout], by simp [hq'], hlen, fun j hj => ?_⟩
    cases j with
    | zero => simpa using hle
    | succ j => simpa using hmin j (by omega)

/-- The loop reaches `bytes` whenever that much is queued within 32 bits. -/
theorem readAtLeastLoop_isSome {bytes : Nat} :
    ∀ {q : List (List UInt8)} {container : List UInt8},
      bytes ≤ container.length + (q.map List.length).sum →
      container.length + (q.map List.length).sum ≤ UINT32_MAX →
      (readAtLeastLoop bytes container q).isSome
  | [], container, hle, _ => by
    rw [readAtLeastLoop, if_pos (by simpa using hle)]
    rfl
  | next :: q, container, hle, hmax => by
    rw [readAtLeastLoop]
    by_cases hc : bytes ≤ container.length
    · rw [if_pos hc]
      rfl
    simp only [List.map_cons, List.sum_cons] at hle hmax
    rw [if_neg hc, if_neg (by omega)]
    exact readAtLeastLoop_isSome (by simp; omega) (by simp; omega)

theorem readAtLeastLoop_sum {bytes : Nat} {container out : List UInt8}
    {q q' : List (List UInt8)} (h : readAtLeastLoop bytes container q = some (out, q')) :
    (q'.map List.length).sum = container.length + (q.map List.length).sum - out.length := by
  obtain ⟨k, rfl, rfl, -, -⟩ := readAtLeastLoop_some h
  have hsplit : (q.take k).flatten.length + (q.drop k).flatten.length = q.flatten.length := by
    rw [← List.length_append, ← List.flatten_append, List.take_append_drop]
  simp only [List.length_append, ← List.length_flatten]
  omega

/-- `bufferstreamReadAtLeast`: remove the leading whole buffers until at least `bytes` bytes are
taken, and return them merged.  Aborts unless `0 < bytes ≤ size` and `bytes` fits in an `sbuf_t`. -/
def bufferstreamReadAtLeast (bs : BufferStream) (bytes : Nat) :
    Option (List UInt8 × BufferStream) :=
  if bytes ≤ bs.size ∧ 0 < bytes ∧ bytes ≤ UINT32_MAX then
    match hq : bs.q with
    | [] => none
    | container :: q =>
      match h : readAtLeastLoop bytes container q with
      | none => none
      | some (out, q') =>
        -- `size -= consumed`, the lengths of the buffers pulled off
        some (out, ⟨q', bs.size - out.length, by
          have hs := bs.size_eq
          rw [hq, List.map_cons, List.sum_cons] at hs
          rw [readAtLeastLoop_sum h, hs]⟩)
  else none

/-- **`bufferstreamReadAtLeast` reads the stream's leading whole buffers**: the fewest that hold
`bytes`, merged into one, and the stream goes on after them. -/
theorem bufferstreamReadAtLeast_eq {bs : BufferStream} {n : Nat} (hn : 0 < n) (hle : n ≤ bs.size)
    (hmax : bs.size ≤ UINT32_MAX) :
    ∃ k out bs', bufferstreamReadAtLeast bs n = some (out, bs') ∧ out = (bs.q.take k).flatten ∧
      bs'.q = bs.q.drop k ∧ n ≤ out.length ∧ ∀ j < k, (bs.q.take j).flatten.length < n := by
  have hs := bs.size_eq
  rw [bufferstreamReadAtLeast, if_pos ⟨hle, hn, by omega⟩]
  split
  · rename_i hq
    rw [hq] at hs
    simp at hs
    omega
  · rename_i container q hq
    rw [hq, List.map_cons, List.sum_cons] at hs
    split
    · rename_i h
      have : (readAtLeastLoop n container q).isSome := readAtLeastLoop_isSome (by omega) (by omega)
      rw [h] at this
      cases this
    · rename_i out q' h
      obtain ⟨k, hout, hq', hlen, hmin⟩ := readAtLeastLoop_some h
      refine ⟨k + 1, out, _, rfl, by simp [hq, hout], by simp [hq, hq'], hlen, fun j hj => ?_⟩
      -- no fewer buffers would do: the first alone is short unless `k = 0`
      cases j with
      | zero => simpa using hn
      | succ j => simpa [hq] using hmin j (by omega)

/-- What a successful read hands back and what it leaves make up the stream. -/
theorem bufferstreamReadAtLeast_some {bs bs' : BufferStream} {n : Nat} {out : List UInt8}
    (h : bufferstreamReadAtLeast bs n = some (out, bs')) : out ++ bs'.content = bs.content := by
  rw [bufferstreamReadAtLeast] at h
  split_ifs at h
  split at h
  · cases h
  · rename_i container q hq
    split at h
    · cases h
    · rename_i out' q' hloop
      cases h
      obtain ⟨k, rfl, rfl, -, -⟩ := readAtLeastLoop_some hloop
      simp only [BufferStream.content, hq, List.flatten_cons, List.append_assoc]
      rw [← List.flatten_append, List.take_append_drop]

/-- `bufferstreamIdealRead`: the front buffer, whole.  Asserts that something is buffered. -/
def bufferstreamIdealRead (bs : BufferStream) : Option (List UInt8 × BufferStream) :=
  if 0 < bs.size then
    match hq : bs.q with
    | [] => none
    | container :: q =>
      some (container, ⟨q, bs.size - container.length, by
        have hs := bs.size_eq
        rw [hq, List.map_cons, List.sum_cons] at hs
        omega⟩)
  else none

theorem bufferstreamIdealRead_some {bs bs' : BufferStream} {out : List UInt8}
    (h : bufferstreamIdealRead bs = some (out, bs')) : out ++ bs'.content = bs.content := by
  rw [bufferstreamIdealRead] at h
  split_ifs at h
  split at h
  · cases h
  · rename_i container q hq
    cases h
    simp [BufferStream.content, hq]

theorem bufferstreamIdealRead_isSome {bs : BufferStream} (h : 0 < bs.size) :
    (bufferstreamIdealRead bs).isSome := by
  rw [bufferstreamIdealRead, if_pos h]
  split
  · rename_i hq
    have hs := bs.size_eq
    rw [hq] at hs
    simp at hs
    omega
  · rfl

/-! ## Peeking -/

/-- The loop of `bufferstreamViewBytesAt`: skip whole buffers before the offset, then copy from
each buffer until `len` bytes have been copied. -/
def viewLoop (len : Nat) : Nat → List UInt8 → List (List UInt8) → List UInt8
  | _, acc, [] => acc
  | off, acc, b :: q =>
    if b.length ≤ off then viewLoop len (off - b.length) acc q
    else
      let acc' := acc ++ (b.drop off).take (len - acc.length)
      if acc'.length = len then acc' else viewLoop len 0 acc' q

theorem viewLoop_eq (len : Nat) (q : List (List UInt8)) :
    ∀ (off : Nat) (acc : List UInt8), acc.length ≤ len →
      viewLoop len off acc q = acc ++ (q.flatten.drop off).take (len - acc.length) := by
  induction q with
  | nil => intro off acc _; simp [viewLoop]
  | cons b q ih =>
    intro off acc hacc
    rw [viewLoop, List.flatten_cons]
    by_cases hoff : b.length ≤ off
    · rw [if_pos hoff, ih _ _ hacc, List.drop_append, List.drop_eq_nil_of_le hoff, List.nil_append]
    · rw [if_neg hoff]
      have hd : (b ++ q.flatten).drop off = b.drop off ++ q.flatten := by
        rw [List.drop_append_of_le_length (by omega)]
      simp only
      by_cases hfull : (acc ++ (b.drop off).take (len - acc.length)).length = len
      · rw [if_pos hfull, hd]
        have hk : len - acc.length ≤ (b.drop off).length := by
          simp only [List.length_append, List.length_take] at hfull
          omega
        rw [List.take_append_of_le_length hk]
      · have hk : (b.drop off).length < len - acc.length := by
          simp only [List.length_append, List.length_take] at hfull
          omega
        have hacc' : (acc ++ b.drop off).length ≤ len := by
          simp only [List.length_append]
          omega
        rw [if_neg hfull, List.take_of_length_le hk.le, ih 0 _ hacc', hd, List.drop_zero,
          List.take_append, List.take_of_length_le hk.le, List.append_assoc, List.length_append,
          show len - (acc.length + (b.drop off).length) = len - acc.length - (b.drop off).length
            by omega]

/-- `bufferstreamViewBytesAt`: copy `len` bytes starting at `at` without consuming them.  Asserts
that they are all buffered. -/
def bufferstreamViewBytesAt (bs : BufferStream) (pos len : Nat) : Option (List UInt8) :=
  if 0 < len ∧ bs.size ≠ 0 ∧ pos ≤ bs.size ∧ len ≤ bs.size - pos then some (viewLoop len pos [] bs.q)
  else none

/-- **`bufferstreamViewBytesAt` reads the stream's bytes**, whatever the queue looks like. -/
theorem bufferstreamViewBytesAt_eq {bs : BufferStream} {pos len : Nat} (hlen : 0 < len)
    (hle : pos + len ≤ bs.size) :
    bufferstreamViewBytesAt bs pos len = some ((bs.content.drop pos).take len) := by
  rw [bufferstreamViewBytesAt, if_pos (by omega), viewLoop_eq len bs.q pos [] (by simp)]
  simp [BufferStream.content]

/-- The loop of `bufferstreamViewByteAt`: skip whole buffers before the offset. -/
def viewByteLoop : Nat → List (List UInt8) → Option UInt8
  | _, [] => none
  | off, b :: q => if off < b.length then b[off]? else viewByteLoop (off - b.length) q

/-- `bufferstreamViewByteAt`: the byte at `pos`, without consuming it.  Aborts past the end. -/
def bufferstreamViewByteAt (bs : BufferStream) (pos : Nat) : Option UInt8 :=
  if pos < bs.size then viewByteLoop pos bs.q else none

theorem viewByteLoop_eq (q : List (List UInt8)) :
    ∀ off : Nat, viewByteLoop off q = q.flatten[off]? := by
  induction q with
  | nil => intro off; rfl
  | cons b q ih =>
    intro off
    rw [viewByteLoop, List.flatten_cons]
    by_cases hoff : off < b.length
    · rw [if_pos hoff, List.getElem?_append_left hoff]
    · rw [if_neg hoff, ih, List.getElem?_append_right (by omega)]

/-- **`bufferstreamViewByteAt` reads the stream's bytes**, whatever the queue looks like; past the
end both are `none`. -/
theorem bufferstreamViewByteAt_eq (bs : BufferStream) (pos : Nat) :
    bufferstreamViewByteAt bs pos = bs.content[pos]? := by
  rw [bufferstreamViewByteAt]
  split_ifs with h
  · rw [viewByteLoop_eq]
    rfl
  · rw [bs.size_eq_length] at h
    exact (List.getElem?_eq_none (by omega)).symm

/-! ## Searching for CRLF -/

/-- The first position of `"
"` in a byte string. -/
def firstCRLF : List UInt8 → Option Nat
  | [] => none
  | [_] => none
  | c :: d :: rest => if c = 13 ∧ d = 10 then some 0 else (firstCRLF (d :: rest)).map (· + 1)

/-- The byte loop of `bufferstreamFindCRLF`: `state` is whether the previous byte was `'
'` (at
`match_idx`), `pos` the absolute offset of the next byte.  Returns the match if there is one, and
otherwise the state to carry into the next buffer. -/
def findCRLFIn : Bool → Nat → Nat → List UInt8 → Option Nat × Bool × Nat
  | state, match_idx, _, [] => (none, state, match_idx)
  | false, match_idx, pos, c :: cs =>
    if c = 13 then findCRLFIn true pos (pos + 1) cs else findCRLFIn false match_idx (pos + 1) cs
  | true, match_idx, pos, c :: cs =>
    if c = 10 then (some match_idx, true, match_idx)
    else if c = 13 then findCRLFIn true pos (pos + 1) cs
    else findCRLFIn false match_idx (pos + 1) cs

/-- The buffer loop of `bufferstreamFindCRLF`: the byte loop over each queued buffer in turn,
with the state carried across buffer boundaries. -/
def findCRLFQueue : Bool → Nat → Nat → List (List UInt8) → Option Nat
  | _, _, _, [] => none
  | state, match_idx, off, b :: q =>
    match findCRLFIn state match_idx off b with
    | (some i, _, _) => some i
    | (none, state', match_idx') => findCRLFQueue state' match_idx' (off + b.length) q

/-- `bufferstreamFindCRLF`: the position of the first `"
"` in the stream. -/
def bufferstreamFindCRLF (bs : BufferStream) : Option Nat :=
  if bs.size < 2 then none else findCRLFQueue false 0 0 bs.q

theorem findCRLFIn_append (xs ys : List UInt8) :
    ∀ (state : Bool) (match_idx pos : Nat),
      findCRLFIn state match_idx pos (xs ++ ys) =
        match findCRLFIn state match_idx pos xs with
        | (some i, s, m) => (some i, s, m)
        | (none, s, m) => findCRLFIn s m (pos + xs.length) ys := by
  induction xs with
  | nil => intro state match_idx pos; rfl
  | cons c cs ih =>
    intro state match_idx pos
    cases state with
    | false =>
      simp only [List.cons_append, findCRLFIn, List.length_cons]
      split_ifs <;> rw [ih] <;> simp only [Nat.add_assoc, Nat.add_comm 1]
    | true =>
      simp only [List.cons_append, findCRLFIn, List.length_cons]
      split_ifs <;> first | rfl | (rw [ih]; simp only [Nat.add_assoc, Nat.add_comm 1])

theorem findCRLFQueue_eq (q : List (List UInt8)) :
    ∀ (state : Bool) (match_idx off : Nat),
      findCRLFQueue state match_idx off q = (findCRLFIn state match_idx off q.flatten).1 := by
  induction q with
  | nil => intro state match_idx off; cases state <;> rfl
  | cons b q ih =>
    intro state match_idx off
    rw [findCRLFQueue, List.flatten_cons, findCRLFIn_append]
    rcases findCRLFIn state match_idx off b with ⟨_ | i, s, m⟩
    · exact ih s m _
    · rfl

theorem findCRLFIn_false_cons (match_idx pos : Nat) (c : UInt8) (cs : List UInt8) :
    findCRLFIn false match_idx pos (c :: cs) =
      if c = 13 then findCRLFIn true pos (pos + 1) cs else findCRLFIn false match_idx (pos + 1) cs :=
  rfl

theorem findCRLFIn_true_cons (match_idx pos : Nat) (c : UInt8) (cs : List UInt8) :
    findCRLFIn true match_idx pos (c :: cs) =
      if c = 10 then (some match_idx, true, match_idx)
      else if c = 13 then findCRLFIn true pos (pos + 1) cs
      else findCRLFIn false match_idx (pos + 1) cs :=
  rfl

theorem firstCRLF_cons_cons (c d : UInt8) (rest : List UInt8) :
    firstCRLF (c :: d :: rest) =
      if c = 13 ∧ d = 10 then some 0 else (firstCRLF (d :: rest)).map (· + 1) :=
  rfl

/-- The byte loop finds the first CRLF, counted from where it starts, and when it starts just
after a `'\r'` a leading `'\n'` completes that one. -/
theorem findCRLFIn_eq (xs : List UInt8) :
    ∀ (match_idx pos : Nat),
      (findCRLFIn false match_idx pos xs).1 = (firstCRLF xs).map (· + pos) ∧
      (findCRLFIn true match_idx pos xs).1 =
        if xs.head? = some 10 then some match_idx else (firstCRLF xs).map (· + pos) := by
  induction xs with
  | nil => intro match_idx pos; simp [findCRLFIn, firstCRLF]
  | cons c cs ih =>
    intro match_idx pos
    cases cs with
    | nil =>
      rw [findCRLFIn_false_cons, findCRLFIn_true_cons]
      constructor
      · split_ifs <;> rfl
      · split_ifs <;> simp_all [findCRLFIn, firstCRLF]
    | cons d rest =>
      -- the loop after the first byte, in either state, from the induction hypothesis
      have hf : ∀ m p, (findCRLFIn false m p (d :: rest)).1 =
          (firstCRLF (d :: rest)).map (· + p) := fun m p => (ih m p).1
      have ht : ∀ m p, (findCRLFIn true m p (d :: rest)).1 =
          if d = 10 then some m else (firstCRLF (d :: rest)).map (· + p) := by
        intro m p; simpa using (ih m p).2
      have hshift : ∀ p, (firstCRLF (d :: rest)).map (· + (p + 1)) =
          ((firstCRLF (d :: rest)).map (· + 1)).map (· + p) := by
        intro p; simp [Option.map_map, Function.comp_def, Nat.add_comm, Nat.add_left_comm]
      refine ⟨?_, ?_⟩
      · rw [findCRLFIn_false_cons, firstCRLF_cons_cons]
        by_cases hc : c = 13
        · rw [if_pos hc, ht, hshift]
          by_cases hd : d = 10 <;> simp [hc, hd]
        · rw [if_neg hc, hf, hshift]
          simp [hc]
      · rw [findCRLFIn_true_cons, firstCRLF_cons_cons, List.head?_cons]
        by_cases hc10 : c = 10
        · simp [hc10]
        · have hs : ¬(some c = some (10 : UInt8)) := by simpa using hc10
          rw [if_neg hc10, if_neg hs]
          by_cases hc : c = 13
          · rw [if_pos hc, ht, hshift]
            by_cases hd : d = 10 <;> simp [hc, hd]
          · rw [if_neg hc, hf, hshift]
            simp [hc]

/-- **`bufferstreamFindCRLF` finds the first CRLF of the stream**, whatever the queue looks like. -/
theorem bufferstreamFindCRLF_eq (bs : BufferStream) :
    bufferstreamFindCRLF bs = firstCRLF bs.content := by
  rw [bufferstreamFindCRLF]
  split_ifs with h
  · rw [bs.size_eq_length] at h
    match hc : bs.content, h with
    | [], _ => rfl
    | [_], _ => rfl
  · rw [findCRLFQueue_eq, (findCRLFIn_eq _ 0 0).1, BufferStream.content]
    simp

/-! ## Runs of calls -/

/-- The calls a receiver makes on its stream. -/
inductive StreamCall
  | push (buf : List UInt8)
  | readExact (bytes : Nat)
  | readAtLeast (bytes : Nat)
  | idealRead
  | empty

namespace StreamCall

/-- One call, with the bytes that leave the stream by it: what a read returns, or what
`bufferstreamEmpty` gives back to the pool. -/
def apply (bs : BufferStream) : StreamCall → Option (List UInt8 × BufferStream)
  | push buf => (bufferstreamPush bs buf).map fun bs' => ([], bs')
  | readExact bytes => bufferstreamReadExact bs bytes
  | readAtLeast bytes => bufferstreamReadAtLeast bs bytes
  | idealRead => bufferstreamIdealRead bs
  | empty => some (bs.content, bufferstreamEmpty bs)

/-- The bytes a call queues. -/
def pushed : StreamCall → List UInt8
  | push buf => buf
  | _ => []

/-- What the code asserts, or checks and aborts on, before a call. -/
def Pre (bs : BufferStream) : StreamCall → Prop
  | push buf => bs.size + buf.length ≤ UINT32_MAX
  | readExact bytes | readAtLeast bytes => 0 < bytes ∧ bytes ≤ bs.size
  | idealRead => 0 < bs.size
  | empty => True

/-- Every call moves bytes from the front of the stream out, or onto its back. -/
theorem apply_content {bs bs' : BufferStream} {out : List UInt8} :
    ∀ {c : StreamCall}, c.apply bs = some (out, bs') → out ++ bs'.content = bs.content ++ c.pushed
  | push buf, h => by
    obtain ⟨bs'', h', hpair⟩ := Option.map_eq_some_iff.1 h
    simp only [Prod.mk.injEq] at hpair
    obtain ⟨rfl, rfl⟩ := hpair
    simp [content_bufferstreamPush h', pushed]
  | readExact bytes, h => by
    obtain ⟨hn, hle, -, -⟩ := bufferstreamReadExact_some h
    by_cases hmax : bytes ≤ UINT32_MAX
    · have h₁ : bufferstreamReadExact bs bytes = some (out, bs') := h
      obtain ⟨bs'', h', hc, -⟩ := bufferstreamReadExact_eq hn hle hmax
      rw [h₁] at h'
      cases h'
      simp [hc, pushed]
    · simp [apply, bufferstreamReadExact, hmax] at h
  | readAtLeast bytes, h => by simpa [pushed] using bufferstreamReadAtLeast_some h
  | idealRead, h => by simpa [pushed] using bufferstreamIdealRead_some h
  | empty, h => by
    cases h
    simp [pushed, bufferstreamEmpty]

/-- A call whose precondition holds on a stream within 32 bits returns, and keeps the stream
within 32 bits. -/
theorem apply_isSome {bs : BufferStream} (hmax : bs.size ≤ UINT32_MAX) :
    ∀ {c : StreamCall}, c.Pre bs →
      ∃ out bs', c.apply bs = some (out, bs') ∧ bs'.size ≤ UINT32_MAX
  | push buf, h => by
    obtain ⟨bs', hp, -, hs⟩ := bufferstreamPush_some h
    exact ⟨[], bs', by simp [apply, hp], hs ▸ h⟩
  | readExact bytes, ⟨hn, hle⟩ => by
    obtain ⟨bs', h, -, hs⟩ := bufferstreamReadExact_eq hn hle (by omega)
    exact ⟨_, bs', h, by omega⟩
  | readAtLeast bytes, ⟨hn, hle⟩ => by
    obtain ⟨-, out, bs', h, -⟩ := bufferstreamReadAtLeast_eq hn hle hmax
    have hc := bufferstreamReadAtLeast_some h
    have hlen : bs'.size ≤ bs.size := by
      rw [bs'.size_eq_length, bs.size_eq_length, ← hc, List.length_append]
      omega
    exact ⟨out, bs', h, by omega⟩
  | idealRead, h => by
    obtain ⟨⟨out, bs'⟩, hr⟩ := Option.isSome_iff_exists.1 (bufferstreamIdealRead_isSome h)
    have hc := bufferstreamIdealRead_some hr
    have hlen : bs'.size ≤ bs.size := by
      rw [bs'.size_eq_length, bs.size_eq_length, ← hc, List.length_append]
      omega
    exact ⟨out, bs', hr, by omega⟩
  | empty, _ => ⟨_, _, rfl, Nat.zero_le _⟩

end StreamCall

/-- The runs of calls whose preconditions hold, from `bs` to `bs'`, with the bytes that leave the
stream by each call. -/
inductive StreamRun : BufferStream → List StreamCall → List (List UInt8) → BufferStream → Prop
  | nil (bs : BufferStream) : StreamRun bs [] [] bs
  | cons {bs bs' bs'' : BufferStream} {c : StreamCall} {cs : List StreamCall} {out : List UInt8}
      {outs : List (List UInt8)} :
      c.Pre bs → c.apply bs = some (out, bs') → StreamRun bs' cs outs bs'' →
      StreamRun bs (c :: cs) (out :: outs) bs''

theorem StreamRun.size_le {bs bs' : BufferStream} {cs : List StreamCall}
    {outs : List (List UInt8)} (h : StreamRun bs cs outs bs') (hmax : bs.size ≤ UINT32_MAX) :
    bs'.size ≤ UINT32_MAX := by
  induction h with
  | nil bs => exact hmax
  | cons hpre happly _ ih =>
    obtain ⟨out, bs₁, h₁, hs₁⟩ := StreamCall.apply_isSome hmax hpre
    rw [happly, Option.some.injEq, Prod.mk.injEq] at h₁
    exact ih (h₁.2 ▸ hs₁)

/-- A run hands the bytes out in the order they were queued. -/
theorem StreamRun.content {bs bs' : BufferStream} {cs : List StreamCall}
    {outs : List (List UInt8)} (h : StreamRun bs cs outs bs') :
    outs.flatten ++ bs'.content = bs.content ++ (cs.map StreamCall.pushed).flatten := by
  induction h with
  | nil bs => simp
  | cons _ happly _ ih =>
    rw [List.flatten_cons, List.append_assoc, ih, ← List.append_assoc,
      StreamCall.apply_content happly, List.map_cons, List.flatten_cons, List.append_assoc]

end WaterWall
