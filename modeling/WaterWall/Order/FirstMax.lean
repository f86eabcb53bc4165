import Mathlib

/-!
# A running best that moves only on a strictly greater weight

A C loop that keeps the best candidate so far,

    if (result == NULL || weight > best) { result = key; best = weight; }

ends on the first candidate of greatest weight: a later one of equal weight does not displace it.
That is `List.argmax` on the weights, whose fold makes the same comparison
(`foldl_bestStep`).  When the candidates come in order of their keys, the first of greatest weight
is the one of least key among them (`map_fst_argmax_eq_some_iff`).
-/

set_option autoImplicit false

namespace FirstMax

variable {κ β : Type} [LinearOrder β]

/-- One round of the loop: the candidate `(key, weight)` replaces the result when there is none
yet or its weight is strictly greater. -/
def bestStep (acc : Option κ × β) (c : κ × β) : Option κ × β :=
  if acc.1 = none ∨ acc.2 < c.2 then (some c.1, c.2) else acc

/-- **The loop computes `argmax`.**  From no result and any initial best, the result is the key of
`argmax` and the best its weight. -/
theorem foldl_bestStep (b₀ : β) (l : List (κ × β)) :
    l.foldl bestStep (none, b₀) =
      ((l.argmax Prod.snd).map Prod.fst, ((l.argmax Prod.snd).map Prod.snd).getD b₀) := by
  induction l using List.reverseRecOn with
  | nil => rfl
  | append_singleton l c ih =>
    rw [List.foldl_append, List.foldl_cons, List.foldl_nil, ih, List.argmax_concat]
    -- the state before `c` is `argmax` of the prefix, or nothing
    cases h : l.argmax Prod.snd with
    | none => simp [bestStep]
    | some d =>
      by_cases hlt : d.2 < c.2 <;> simp [bestStep, hlt]

variable {l : List (ℕ × β)}

/-- Over candidates in order of their keys, every candidate of the greatest weight has a key at
least that of `argmax`. -/
theorem argmax_fst_le (hl : l.Pairwise fun a b => a.1 ≤ b.1) {m : ℕ × β}
    (hm : l.argmax Prod.snd = some m) {c : ℕ × β} (hc : c ∈ l) (hcm : c.2 = m.2) :
    m.1 ≤ c.1 := by
  induction l generalizing m with
  | nil => simp at hc
  | cons a l ih =>
    rw [List.pairwise_cons] at hl
    rw [List.argmax_cons] at hm
    cases h : l.argmax Prod.snd with
    | none =>
      rw [List.argmax_eq_none.1 h] at hc
      rw [h] at hm
      cases hm
      simp only [List.mem_singleton] at hc
      rw [hc]
    | some d =>
      rw [h] at hm
      dsimp only at hm
      split_ifs at hm with hlt
      · -- a later candidate is strictly heavier than the head, so the head is not of its weight
        cases hm
        rcases List.mem_cons.1 hc with rfl | hc
        · exact absurd hcm (ne_of_lt hlt)
        · exact ih hl.2 h hc hcm
      · -- the head stays, and every key comes at or after it
        cases hm
        rcases List.mem_cons.1 hc with rfl | hc
        · exact le_rfl
        · exact hl.1 c hc

/-- **The first of greatest weight is the least key among those of greatest weight.** -/
theorem map_fst_argmax_eq_some_iff (hl : l.Pairwise fun a b => a.1 ≤ b.1) (x : ℕ) :
    (l.argmax Prod.snd).map Prod.fst = some x ↔
      ∃ w, (x, w) ∈ l ∧ (∀ c ∈ l, c.2 ≤ w) ∧ ∀ c ∈ l, c.2 = w → x ≤ c.1 := by
  constructor
  · rintro hx
    obtain ⟨m, hm, rfl⟩ := Option.map_eq_some_iff.1 hx
    exact ⟨m.2, by simpa using List.argmax_mem hm, fun c hc => List.le_of_mem_argmax hc hm,
      fun c hc hcm => argmax_fst_le hl hm hc hcm⟩
  · rintro ⟨w, hxw, hmax, hleast⟩
    -- `argmax` exists, has weight `w`, and its key is at most `x` and at least `x`
    obtain ⟨m, hm⟩ : ∃ m, l.argmax Prod.snd = some m :=
      Option.ne_none_iff_exists'.1 fun h => by simp [List.argmax_eq_none.1 h] at hxw
    have hmem := List.argmax_mem hm
    have hw : m.2 = w := le_antisymm (hmax m hmem) (List.le_of_mem_argmax hxw hm)
    have hle : m.1 ≤ x := argmax_fst_le hl hm hxw hw.symm
    rw [hm, Option.map_some, le_antisymm hle (hleast m hmem hw)]

end FirstMax
