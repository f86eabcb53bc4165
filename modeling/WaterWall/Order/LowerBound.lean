import Mathlib

/-!
# `lower_bound` on an ordered map

An ordered map holds its entries in the order of their keys.  Seen as that list, `lower_bound`
of a probe is the suffix from the first entry whose key is not below the probe: the entries
before it are exactly those below the probe, and every entry at or above the probe is in it
(`mem_lowerBound`).  An entry inserted between the two parts keeps the map in order when no
entry shares its key (`pairwise_takeWhile_append_cons`).
-/

set_option autoImplicit false

namespace LowerBound

variable {ι K : Type} [LinearOrder K] (key : ι → K)

/-- The entries from the first whose key is not below `p`. -/
def lowerBound (l : List ι) (p : K) : List ι := l.dropWhile fun e => decide (key e < p)

variable {key} {l : List ι} {p : K}

theorem mem_lowerBound {e : ι} (he : e ∈ l) (hp : p ≤ key e) : e ∈ lowerBound key l p := by
  rw [← @List.takeWhile_append_dropWhile _ (fun e => decide (key e < p)) l, List.mem_append] at he
  rcases he with he | he
  · -- the entries dropped are below the probe
    have := List.mem_takeWhile_imp he
    simp only [decide_eq_true_eq] at this
    exact absurd hp (not_le.2 this)
  · exact he

theorem le_key_of_lowerBound_eq_cons {e : ι} {rest : List ι} (h : lowerBound key l p = e :: rest) :
    p ≤ key e := by
  rw [lowerBound] at h
  have := List.head?_dropWhile_not (fun e => decide (key e < p)) l
  simp only [h, List.head?_cons, decide_eq_false_iff_not, not_lt] at this
  exact this

/-- **Inserting where `lower_bound` points.**  In a map strictly ordered by key, an entry put after
the entries a test takes from the front and before the rest keeps the order, when the test holds
exactly of the entries below it and no entry shares its key. -/
theorem pairwise_takeWhile_append_cons {P : ι → Bool} {x : ι}
    (hs : l.Pairwise fun a b => key a < key b) (hP : ∀ e ∈ l, P e = true ↔ key e < key x)
    (hx : ∀ e ∈ l, key e ≠ key x) :
    (l.takeWhile P ++ x :: l.dropWhile P).Pairwise fun a b => key a < key b := by
  have hsplit := hs
  rw [← @List.takeWhile_append_dropWhile _ P l, List.pairwise_append] at hsplit
  obtain ⟨hfront, hback, hcross⟩ := hsplit
  -- what the test takes lies below `x`, and what it leaves lies above
  have hbelow : ∀ a ∈ l.takeWhile P, key a < key x := fun a ha =>
    (hP a ((List.takeWhile_sublist P).subset ha)).1 (List.mem_takeWhile_imp ha)
  have habove : ∀ b ∈ l.dropWhile P, key x < key b := by
    cases hd : l.dropWhile P with
    | nil => simp
    | cons d rest =>
      have hdl : d ∈ l := (List.dropWhile_suffix P).subset (hd ▸ List.mem_cons_self)
      have hnot := List.head?_dropWhile_not P l
      simp only [hd, List.head?_cons] at hnot
      have hxd : key x < key d :=
        lt_of_le_of_ne (not_lt.1 fun h => absurd ((hP d hdl).2 h) (by simp [hnot]))
          (hx d hdl).symm
      rw [hd] at hback
      intro b hb
      rcases List.mem_cons.1 hb with rfl | hb
      · exact hxd
      · exact hxd.trans (List.rel_of_pairwise_cons hback hb)
  refine List.pairwise_append.2 ⟨hfront, List.pairwise_cons.2 ⟨habove, hback⟩, ?_⟩
  intro a ha b hb
  rcases List.mem_cons.1 hb with rfl | hb
  · exact hbelow a ha
  · exact hcross a ha b hb

end LowerBound
