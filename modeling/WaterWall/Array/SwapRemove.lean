import Mathlib

/-!
# Removal by moving the last element into the hole

A C array kept dense behind a count loses its element `i` in constant time: the count is
decremented and, unless `i` was the last slot, the last element is copied over slot `i`.  The order
of the rest is lost.  `swapRemove xs i` is that removal on the list of the live elements, and up to
order it is the erasure of `xs[i]` (`swapRemove_perm`).

An array filtered in place the same way scans `i` upward: an element that passes the test is kept
and `i` moves on; one that fails is swap-removed and `i` stays, to test the element just moved
there.  What the scan has settled at `i` is `kept p xs i`, the elements before `i` and those after
it that pass.  It starts as `xs.filter p` (`kept_zero`), is unchanged by either step up to order
(`kept_succ`, `kept_swapRemove`), and at the end is the array itself (`kept_of_length_le`): the
scan keeps exactly the elements that pass, in some order.
-/

set_option autoImplicit false

namespace SwapRemove

variable {α : Type}

/-- Remove `xs[i]`: the last element takes its slot, unless `i` is the last slot. -/
def swapRemove (xs : List α) (i : Fin xs.length) : List α :=
  if i.val + 1 = xs.length then xs.dropLast
  else (xs.set i (xs.getLast (List.ne_nil_of_length_pos i.pos))).dropLast

@[simp] theorem length_swapRemove (xs : List α) (i : Fin xs.length) :
    (swapRemove xs i).length = xs.length - 1 := by
  unfold swapRemove
  split <;> simp

theorem swapRemove_perm (xs : List α) (i : Fin xs.length) : (swapRemove xs i).Perm (xs.eraseIdx i) := by
  -- split off the last element, which is what moves
  obtain ⟨ys, a, rfl⟩ : ∃ ys a, xs = ys ++ [a] :=
    (List.eq_nil_or_concat' xs).resolve_left (List.ne_nil_of_length_pos i.pos)
  have hi : (i : Nat) < ys.length + 1 := by simpa using i.isLt
  unfold swapRemove
  split
  · rename_i hlast
    have hi' : (i : Nat) = ys.length := by simpa using hlast
    rw [List.dropLast_concat, hi', List.eraseIdx_append_of_length_le (Nat.le_refl _), Nat.sub_self]
    simp
  · rename_i hlast
    have hlt : (i : Nat) < ys.length := by simp at hlast; omega
    rw [List.getLast_append_singleton, List.set_append_left i a hlt, List.dropLast_concat,
      List.eraseIdx_append_of_lt_length hlt, List.set_eq_take_append_cons_drop, if_pos hlt,
      List.eraseIdx_eq_take_drop_succ]
    exact List.perm_middle.trans (List.perm_append_singleton _ _).symm

/-! ## The in-place filter -/

variable (p : α → Bool)

/-- What an in-place filter standing at `i` has settled: the elements before `i`, and those from
`i` on that pass. -/
def kept (xs : List α) (i : Nat) : List α := xs.take i ++ (xs.drop i).filter p

theorem kept_zero (xs : List α) : kept p xs 0 = xs.filter p := by
  simp [kept]

theorem kept_of_length_le {xs : List α} {i : Nat} (h : xs.length ≤ i) : kept p xs i = xs := by
  simp [kept, List.take_of_length_le h, List.drop_of_length_le h]

/-- An element that passes is kept, and the scan moves past it. -/
theorem kept_succ {xs : List α} {i : Nat} (h : i < xs.length) (hp : p xs[i] = true) :
    kept p xs (i + 1) = kept p xs i := by
  rw [kept, kept, List.drop_eq_getElem_cons h, List.filter_cons_of_pos hp, List.take_add_one,
    List.getElem?_eq_getElem h, Option.toList_some, List.append_assoc, List.singleton_append]

/-- An element that fails is swap-removed, and what the scan has settled stays the same up to
order. -/
theorem kept_swapRemove {xs : List α} (i : Fin xs.length) (hp : p xs[i] = false) :
    (kept p (swapRemove xs i) i).Perm (kept p xs i) := by
  set zs := swapRemove xs i
  -- the slots before `i` are untouched
  have htake : zs.take i = xs.take i := by
    have hle : (i : Nat) ≤ xs.length - 1 := by omega
    simp only [zs, swapRemove]
    split
    · rw [List.dropLast_eq_take, List.take_take, Nat.min_eq_left hle]
    · rw [List.dropLast_eq_take, List.take_take, List.length_set, Nat.min_eq_left hle, List.take_set,
        List.set_eq_of_length_le (by simp)]
  -- so the slots from `i` on hold the elements after `xs[i]`, in some order
  have hdrop : (zs.drop i).Perm (xs.drop (i + 1)) := by
    have h : zs.Perm (xs.eraseIdx i) := swapRemove_perm xs i
    rw [← List.take_append_drop i zs, htake, List.eraseIdx_eq_take_drop_succ] at h
    exact (List.perm_append_left_iff _).1 h
  have hfilter : (xs.drop i).filter p = (xs.drop (i + 1)).filter p := by
    have hp' : p xs[(i : Nat)] = false := hp
    rw [List.drop_eq_getElem_cons i.isLt, List.filter_cons_of_neg (by rw [hp']; decide)]
  rw [kept, kept, htake, hfilter]
  exact (List.perm_append_left_iff _).2 (hdrop.filter p)

end SwapRemove
