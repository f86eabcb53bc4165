import WaterWall.Replay.Window

/-!
# The WireGuard replay window

`wireguardCheckReplay` is the sliding window of RFC 2401 over the 64-bit counters of transport
data messages, with a 32-bit bitmap.  The counter is moved to start at 1, and both distances to
the largest number accepted are computed in 64 bits and cast to `uint32_t`.

* `wireguardCheckReplay_refines`: the keypair's window is an exact window of 32
  (`Replay.Ref`) for every counter within `2^32` of the largest accepted, whatever the
  gaps between successive counters otherwise; so a run whose counters lie within `2^32` of each
  other is filtered exactly (`wireguardCheckReplays_exact`).
* `wireguardCheckReplays_acceptsTwice`: further apart, the casts wrap.  After counters 0 and 4,
  counter `2^32 + 2` is `2^32 - 2` ahead of the top, which the cast keeps at or above 32, so the
  bitmap is reset; counter 0 is then `2^32 + 2` behind, which the cast makes 2, and its clear bit
  lets it through a second time.
-/

set_option autoImplicit false

namespace WaterWall
namespace WireGuard

open Replay

/-- The replay fields of `wireguard_keypair_s`, all `wireguardCheckReplay` reads and writes. -/
structure ReplayKeypair where
  replay_bitmap : UInt32
  replay_counter : UInt64
deriving DecidableEq, Repr

/-- `ReplayWindowSize`, `sizeof(keypair->replay_bitmap) * CHAR_BIT`. -/
def ReplayWindowSize : Nat := 4 * 8

/-- The window as the handshake leaves a new keypair (`replay_bitmap = 0`, `replay_counter = 0`). -/
def ReplayKeypair.fresh : ReplayKeypair := ⟨0, 0⟩

/-- `wireguardCheckReplay`: the keypair's window after the counter `seq`, and whether the message
is accepted. -/
def wireguardCheckReplay (keypair : ReplayKeypair) (seq : UInt64) : ReplayKeypair × Bool :=
  -- the data packet counter starts from 0, the window's numbers from 1
  let seq := seq + 1
  if seq ≠ 0 then
    if seq > keypair.replay_counter then
      -- a new largest number
      let diff : UInt32 := (seq - keypair.replay_counter).toUInt32
      let replay_bitmap :=
        if diff.toNat < ReplayWindowSize then (keypair.replay_bitmap <<< diff) ||| 1 else 1
      (⟨replay_bitmap, seq⟩, true)
    else
      let diff : UInt32 := (keypair.replay_counter - seq).toUInt32
      if diff.toNat < ReplayWindowSize then
        if keypair.replay_bitmap &&& ((1 : UInt32) <<< diff) ≠ 0 then (keypair, false)
        else ({ keypair with replay_bitmap := keypair.replay_bitmap ||| ((1 : UInt32) <<< diff) }, true)
      -- too old or wrapped
      else (keypair, false)
  -- the counter wrapped
  else (keypair, false)

/-- Counters fed to `wireguardCheckReplay` one after the other, as data messages arrive on a
keypair: the window after, and which were accepted. -/
def wireguardCheckReplays : ReplayKeypair → List UInt64 → ReplayKeypair × List Bool
  | keypair, [] => (keypair, [])
  | keypair, seq :: seqs =>
    let r₁ := wireguardCheckReplay keypair seq
    let rest := wireguardCheckReplays r₁.1 seqs
    (rest.1, r₁.2 :: rest.2)

/-! ## What the window is for -/

/-- The exact window of 32 given the counter `seq`: it sees `seq + 1`, and refuses the counter
whose successor wraps to 0. -/
def replayStep (r : Ref) (seq : UInt64) : Ref × Bool :=
  if seq.toNat + 1 < 2 ^ 64 then r.step ReplayWindowSize (seq.toNat + 1) else (r, false)

/-- The exact window given counters one after the other. -/
def replayRun : Ref → List UInt64 → Ref × List Bool
  | r, [] => (r, [])
  | r, seq :: seqs =>
    let r₁ := replayStep r seq
    let rest := replayRun r₁.1 seqs
    (rest.1, r₁.2 :: rest.2)

/-- A keypair's window stands for a state of the exact window: the counter is the top and the
bitmap the window behind it. -/
structure Models (keypair : ReplayKeypair) (r : Ref) : Prop where
  valid : r.Valid
  counter : keypair.replay_counter.toNat = r.top
  bitmap : Represents ReplayWindowSize r keypair.replay_bitmap.toNat

theorem models_fresh : Models ReplayKeypair.fresh Ref.fresh :=
  ⟨Ref.valid_fresh, rfl, represents_fresh⟩

/-- `seq` is within `2^32` of the top, where casting the distance to `uint32_t` loses nothing. -/
def Near (r : Ref) (seq : UInt64) : Prop :=
  0 < r.top → seq.toNat + 1 < r.top + 2 ^ 32 ∧ r.top < seq.toNat + 1 + 2 ^ 32

/-! ## The bit operations on `uint32_t` -/

theorem toNat_shiftLeft_or_one (bitmap diff : UInt32) (hd : diff.toNat < 32) :
    ((bitmap <<< diff) ||| 1).toNat = ((bitmap.toNat <<< diff.toNat) % 2 ^ 32) ||| 1 := by
  rw [UInt32.toNat_or, UInt32.toNat_shiftLeft, Nat.mod_eq_of_lt hd, UInt32.toNat_one]

theorem toNat_one_shiftLeft (diff : UInt32) (hd : diff.toNat < 32) :
    ((1 : UInt32) <<< diff).toNat = 2 ^ diff.toNat := by
  rw [UInt32.toNat_shiftLeft, Nat.mod_eq_of_lt hd, UInt32.toNat_one, Nat.one_shiftLeft,
    Nat.mod_eq_of_lt (Nat.pow_lt_pow_right (by decide) hd)]

/-- The bit test of `wireguardCheckReplay`. -/
theorem and_one_shiftLeft_ne_zero (bitmap diff : UInt32) (hd : diff.toNat < 32) :
    bitmap &&& ((1 : UInt32) <<< diff) ≠ 0 ↔ bitmap.toNat.testBit diff.toNat = true := by
  rw [Ne, ← UInt32.toNat_inj, UInt32.toNat_and, toNat_one_shiftLeft diff hd, Nat.and_two_pow,
    UInt32.toNat_zero]
  cases bitmap.toNat.testBit diff.toNat <;> simp

theorem toNat_toUInt32_sub {a b : UInt64} (h : b ≤ a) (hd : a.toNat - b.toNat < 2 ^ 32) :
    (a - b).toUInt32.toNat = a.toNat - b.toNat := by
  rw [UInt64.toNat_toUInt32, UInt64.toNat_sub_of_le _ _ h, Nat.mod_eq_of_lt hd]

/-! ## The window is exact near the top -/

section Refines

variable {keypair : ReplayKeypair} {r : Ref} (h : Models keypair r)
include h

/-- **A new largest number** moves the window forward. -/
theorem wireguardCheckReplay_refines_forward {seq : UInt64} (hnear : Near r seq)
    (hwrap : seq.toNat + 1 < 2 ^ 64) (hfwd : keypair.replay_counter < seq + 1) :
    Models (wireguardCheckReplay keypair seq).1 (replayStep r seq).1 ∧
      (wireguardCheckReplay keypair seq).2 = (replayStep r seq).2 := by
  obtain ⟨hv, hc, hb⟩ := h
  have hx : (seq + 1).toNat = seq.toNat + 1 := by
    rw [UInt64.toNat_add, UInt64.toNat_one, Nat.mod_eq_of_lt hwrap]
  have hne : seq + 1 ≠ 0 := fun h0 => by
    have := congrArg UInt64.toNat h0
    rw [hx, UInt64.toNat_zero] at this
    omega
  have hlt : r.top < seq.toNat + 1 := by
    rw [UInt64.lt_iff_toNat_lt, hx, hc] at hfwd
    exact hfwd
  have hstep : r.step ReplayWindowSize (seq.toNat + 1) = _ := Ref.step_of_top_lt hv hlt
  have hv' : (r.step ReplayWindowSize (seq.toNat + 1)).1.Valid := hv.step _
  rw [hstep] at hv'
  -- the distance, as cast: exact unless the window was empty
  have hle : keypair.replay_counter ≤ seq + 1 :=
    UInt64.le_iff_toNat_le.2 (Nat.le_of_lt (UInt64.lt_iff_toNat_lt.1 hfwd))
  have hdiff : (seq + 1 - keypair.replay_counter).toUInt32.toNat =
      (seq.toNat + 1 - r.top) % 2 ^ 32 := by
    rw [UInt64.toNat_toUInt32, UInt64.toNat_sub_of_le _ _ hle, hx, hc]
  have hW : (2 : ℕ) ^ 32 = 2 ^ ReplayWindowSize := rfl
  unfold wireguardCheckReplay replayStep
  dsimp only
  rw [if_pos hne, if_pos (show seq + 1 > keypair.replay_counter from hfwd), if_pos hwrap, hstep]
  refine ⟨⟨hv', by rw [hx], ?_⟩, rfl⟩
  dsimp only
  split_ifs with hsmall
  · rw [toNat_shiftLeft_or_one _ _ hsmall, hdiff]
    rcases Nat.eq_zero_or_pos r.top with htop | htop
    · -- an empty window: the bitmap is zero, and so is anything it is shifted to
      have h0 := hb.eq_zero_of_top htop (hW ▸ UInt32.toNat_lt _)
      have hadv := (h0 ▸ hb).advance hv hlt
      rw [h0]
      simp only [Nat.zero_shiftLeft, Nat.zero_mod, Nat.zero_or] at hadv ⊢
      exact hadv
    · rw [Nat.mod_eq_of_lt (show seq.toNat + 1 - r.top < 2 ^ 32 by have := hnear htop; omega), hW]
      exact hb.advance hv hlt
  · -- the distance is 32 or more: only the new bit is left
    apply represents_jump hv hlt
    rw [hdiff] at hsmall
    have := Nat.mod_le (seq.toNat + 1 - r.top) (2 ^ 32)
    simp only [ReplayWindowSize] at hsmall ⊢
    omega

/-- **A number behind the top** is looked up in the bitmap, and marked if its bit is clear. -/
theorem wireguardCheckReplay_refines_backward {seq : UInt64} (hnear : Near r seq)
    (hwrap : seq.toNat + 1 < 2 ^ 64) (hback : ¬keypair.replay_counter < seq + 1) :
    Models (wireguardCheckReplay keypair seq).1 (replayStep r seq).1 ∧
      (wireguardCheckReplay keypair seq).2 = (replayStep r seq).2 := by
  obtain ⟨hv, hc, hb⟩ := h
  have hx : (seq + 1).toNat = seq.toNat + 1 := by
    rw [UInt64.toNat_add, UInt64.toNat_one, Nat.mod_eq_of_lt hwrap]
  have hne : seq + 1 ≠ 0 := fun h0 => by
    have := congrArg UInt64.toNat h0
    rw [hx, UInt64.toNat_zero] at this
    omega
  have hge : seq.toNat + 1 ≤ r.top := by
    rw [UInt64.lt_iff_toNat_lt, hx, hc] at hback
    omega
  have hdiff : (keypair.replay_counter - (seq + 1)).toUInt32.toNat = r.top - (seq.toNat + 1) := by
    have hclose := hnear (by omega)
    rw [toNat_toUInt32_sub (UInt64.le_iff_toNat_le.2 (by rw [hx, hc]; exact hge))
      (by rw [hx, hc]; omega), hx, hc]
  unfold wireguardCheckReplay replayStep
  dsimp only
  rw [if_pos hne, if_neg (show ¬seq + 1 > keypair.replay_counter from hback), if_pos hwrap]
  split_ifs with hsmall hseen
  · -- already seen: refused
    rw [and_one_shiftLeft_ne_zero _ _ hsmall, hdiff] at hseen
    rw [hdiff] at hsmall
    have hacc := hb.accepts_eq (by omega) hge hsmall
    rw [hseen] at hacc
    rw [Ref.step_of_not_accepts hacc]
    exact ⟨⟨hv, hc, hb⟩, rfl⟩
  · -- a clear bit: accepted and marked
    rw [and_one_shiftLeft_ne_zero _ _ hsmall, hdiff, Bool.not_eq_true] at hseen
    have hmark : (keypair.replay_bitmap ||| (1 : UInt32) <<< (keypair.replay_counter -
        (seq + 1)).toUInt32).toNat = keypair.replay_bitmap.toNat ||| 2 ^ (r.top - (seq.toNat + 1)) := by
      rw [UInt32.toNat_or, toNat_one_shiftLeft _ hsmall, hdiff]
    rw [hdiff] at hsmall
    have hacc := hb.accepts_eq (by omega) hge hsmall
    rw [hseen] at hacc
    have hv' : (r.step ReplayWindowSize (seq.toNat + 1)).1.Valid := hv.step _
    rw [Ref.step_of_accepts hacc, max_eq_left hge] at hv' ⊢
    refine ⟨⟨hv', hc, ?_⟩, rfl⟩
    dsimp only
    rw [hmark]
    exact hb.mark (by omega) hge
  · -- too old
    rw [hdiff] at hsmall
    rw [Ref.step_of_old hge (by omega)]
    exact ⟨⟨hv, hc, hb⟩, rfl⟩

/-- A counter whose successor wraps is refused, by both. -/
theorem wireguardCheckReplay_refines_wrap {seq : UInt64} (hwrap : ¬seq.toNat + 1 < 2 ^ 64) :
    Models (wireguardCheckReplay keypair seq).1 (replayStep r seq).1 ∧
      (wireguardCheckReplay keypair seq).2 = (replayStep r seq).2 := by
  have hzero : seq + 1 = 0 := by
    apply UInt64.toNat_inj.1
    have := UInt64.toNat_lt seq
    rw [UInt64.toNat_add, UInt64.toNat_one, UInt64.toNat_zero, show seq.toNat + 1 = 2 ^ 64 by omega,
      Nat.mod_self]
  unfold wireguardCheckReplay replayStep
  dsimp only
  rw [if_neg (not_not.2 hzero), if_neg hwrap]
  exact ⟨h, rfl⟩

/-- **The keypair's window is an exact window of 32 near its top**: given a counter within `2^32`
of the largest accepted (any counter, while nothing is), it accepts exactly what the exact window
accepts, and goes on standing for it. -/
theorem wireguardCheckReplay_refines {seq : UInt64} (hnear : Near r seq) :
    Models (wireguardCheckReplay keypair seq).1 (replayStep r seq).1 ∧
      (wireguardCheckReplay keypair seq).2 = (replayStep r seq).2 := by
  by_cases hwrap : seq.toNat + 1 < 2 ^ 64
  · by_cases hfwd : keypair.replay_counter < seq + 1
    · exact wireguardCheckReplay_refines_forward h hnear hwrap hfwd
    · exact wireguardCheckReplay_refines_backward h hnear hwrap hfwd
  · exact wireguardCheckReplay_refines_wrap h hwrap

end Refines

/-- Every counter of a run is near the top of the exact window when it arrives. -/
def NearRun : Ref → List UInt64 → Prop
  | _, [] => True
  | r, seq :: seqs => Near r seq ∧ NearRun (replayStep r seq).1 seqs

/-- **Along a run whose counters arrive near the top, the keypair filters exactly.**  By induction
on the run, carrying the abstraction from one counter to the next. -/
theorem wireguardCheckReplays_refines (seqs : List UInt64) :
    ∀ keypair r, Models keypair r → NearRun r seqs →
      Models (wireguardCheckReplays keypair seqs).1 (replayRun r seqs).1 ∧
        (wireguardCheckReplays keypair seqs).2 = (replayRun r seqs).2 := by
  induction seqs with
  | nil => intro keypair r h _; exact ⟨h, rfl⟩
  | cons seq seqs ih =>
    intro keypair r h hnear
    obtain ⟨hstep, hout⟩ := wireguardCheckReplay_refines h hnear.1
    obtain ⟨hrest, hout'⟩ := ih _ _ hstep hnear.2
    exact ⟨hrest, by simp only [wireguardCheckReplays, replayRun, hout, hout']⟩

/-- What the exact window has accepted are successors of counters it was given. -/
theorem replayStep_cases (r : Ref) (seq : UInt64) :
    (replayStep r seq).1 = ⟨(seq.toNat + 1) :: r.accepted, max r.top (seq.toNat + 1)⟩ ∨
      (replayStep r seq).1 = r := by
  unfold replayStep
  split_ifs
  · have hcases : r.step ReplayWindowSize (seq.toNat + 1) = _ ∨
        r.step ReplayWindowSize (seq.toNat + 1) = _ := Ref.step_cases r _
    rcases hcases with h | h <;> rw [h]
    · exact .inl rfl
    · exact .inr rfl
  · exact .inr rfl

/-- Counters that lie within `2^32` of each other always arrive near the top. -/
theorem nearRun_of_close {S : List UInt64} (hclose : ∀ a ∈ S, ∀ b ∈ S, a.toNat < b.toNat + 2 ^ 32)
    (seqs : List UInt64) : ∀ r : Ref, r.Valid → (∀ y ∈ r.accepted, ∃ b ∈ S, y = b.toNat + 1) →
      (∀ seq ∈ seqs, seq ∈ S) → NearRun r seqs := by
  induction seqs with
  | nil => intro _ _ _ _; trivial
  | cons seq seqs ih =>
    intro r hv hacc hseqs
    have hseq := hseqs seq List.mem_cons_self
    refine ⟨fun htop => ?_, ih _ ?_ ?_ fun s hs => hseqs s (List.mem_cons_of_mem seq hs)⟩
    · -- the top is the successor of a counter of the run
      obtain ⟨b, hb, htb⟩ := hacc _ (hv.top_mem htop)
      have h1 := hclose seq hseq b hb
      have h2 := hclose b hb seq hseq
      omega
    · have hv' : (r.step ReplayWindowSize (seq.toNat + 1)).1.Valid := hv.step _
      unfold replayStep
      split_ifs
      · exact hv'
      · exact hv
    · intro y hy
      rcases replayStep_cases r seq with hr | hr <;> rw [hr] at hy
      · rcases List.mem_cons.1 hy with rfl | hy
        · exact ⟨seq, hseq, rfl⟩
        · exact hacc y hy
      · exact hacc y hy

/-- **A run whose counters lie within `2^32` of each other is filtered exactly**: from a fresh
keypair, each counter is accepted exactly when its successor does not wrap, it was not accepted
before, and it is ahead of the largest accepted or fewer than 32 behind. -/
theorem wireguardCheckReplays_exact (seqs : List UInt64)
    (hclose : ∀ a ∈ seqs, ∀ b ∈ seqs, a.toNat < b.toNat + 2 ^ 32) :
    (wireguardCheckReplays ReplayKeypair.fresh seqs).2 = (replayRun Ref.fresh seqs).2 :=
  (wireguardCheckReplays_refines seqs _ _ models_fresh
    (nearRun_of_close hclose seqs _ Ref.valid_fresh (fun _ h => absurd h List.not_mem_nil)
      fun _ h => h)).2

/-- Counters out of order, one of them repeated. -/
theorem wireguardCheckReplays_exact_reordered :
    (wireguardCheckReplays ReplayKeypair.fresh [5, 3, 5]).2 = (replayRun Ref.fresh [5, 3, 5]).2 :=
  wireguardCheckReplays_exact [5, 3, 5] (by simp)

/-- **Counters further apart can be accepted twice.**  From a fresh keypair, counters 0, 4,
`2^32 + 2` and 0 are all accepted; the exact window refuses the second 0. -/
theorem wireguardCheckReplays_acceptsTwice :
    (wireguardCheckReplays ReplayKeypair.fresh [0, 4, 4294967298, 0]).2 = [true, true, true, true] ∧
      (replayRun Ref.fresh [0, 4, 4294967298, 0]).2 = [true, true, true, false] := by
  decide

end WireGuard
end WaterWall
