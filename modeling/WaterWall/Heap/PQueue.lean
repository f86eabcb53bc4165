import Mathlib

/-!
# Priority queues, by what their operations keep

A priority queue kept as a binary heap in an array has its top at index 0; `push`, `pop` and
`make_heap` move elements around until the order a comparison `less` asks for holds again.
Whichever order they restore, they keep the elements: `push` adds one, `pop` takes the top away,
`make_heap` loses none.  `PQueue.Ops` is a queue given by its three operations and these laws.

A program that only relies on *which* elements are queued (that each is queued once, that none is
lost) is then proved correct for every queue that obeys the laws, whatever its sift order.  The
comparison is an argument of every operation, because a program may change the keys it compares
between two calls and expect the next `make_heap` to repair the order.
-/

set_option autoImplicit false

namespace PQueue

/-- A priority queue on lists whose top is the head, given by its operations under a comparison
`less`, and the laws that say they keep the elements. -/
structure Ops (ι : Type) where
  /-- Add an element. -/
  push : (ι → ι → Bool) → List ι → ι → List ι
  /-- Take the top away; only ever applied to a queue that is not empty. -/
  pop : (ι → ι → Bool) → List ι → List ι
  /-- Restore the order, after keys have changed. -/
  makeHeap : (ι → ι → Bool) → List ι → List ι
  push_perm : ∀ less q x, (push less q x).Perm (q ++ [x])
  pop_perm : ∀ less x q, (pop less (x :: q)).Perm q
  makeHeap_perm : ∀ less q, (makeHeap less q).Perm q

namespace Ops

variable {ι : Type} (ops : Ops ι) (less : ι → ι → Bool)

@[simp] theorem mem_push {q : List ι} {x y : ι} : y ∈ ops.push less q x ↔ y ∈ q ∨ y = x := by
  simp [(ops.push_perm less q x).mem_iff]

@[simp] theorem mem_pop {q : List ι} {x y : ι} : y ∈ ops.pop less (x :: q) ↔ y ∈ q :=
  (ops.pop_perm less x q).mem_iff

@[simp] theorem mem_makeHeap {q : List ι} {y : ι} : y ∈ ops.makeHeap less q ↔ y ∈ q :=
  (ops.makeHeap_perm less q).mem_iff

theorem length_pop (x : ι) (q : List ι) : (ops.pop less (x :: q)).length = q.length :=
  (ops.pop_perm less x q).length_eq

theorem nodup_push {q : List ι} {x : ι} (hq : q.Nodup) (hx : x ∉ q) :
    (ops.push less q x).Nodup := by
  refine (ops.push_perm less q x).nodup_iff.2 ?_
  rw [List.nodup_append]
  refine ⟨hq, List.nodup_singleton x, fun a ha b hb hab => hx ?_⟩
  rw [List.mem_singleton] at hb
  rw [← hb, ← hab]
  exact ha

theorem nodup_pop {q : List ι} {x : ι} (hq : (x :: q).Nodup) : (ops.pop less (x :: q)).Nodup :=
  (ops.pop_perm less x q).nodup_iff.2 (List.nodup_cons.1 hq).2

theorem nodup_makeHeap {q : List ι} (hq : q.Nodup) : (ops.makeHeap less q).Nodup :=
  (ops.makeHeap_perm less q).nodup_iff.2 hq

/-- Pop every element of `q` and push those `keep` accepts onto `kept`: how a heap is rebuilt
without some of its elements. -/
def rebuild (keep : ι → Bool) : List ι → List ι → List ι
  | [], kept => kept
  | x :: q, kept =>
    rebuild keep (ops.pop less (x :: q)) (if keep x then ops.push less kept x else kept)
termination_by q => q.length
decreasing_by rw [ops.length_pop]; exact Nat.lt_succ_self _

theorem rebuild_perm (keep : ι → Bool) (q kept : List ι) :
    (ops.rebuild less keep q kept).Perm (kept ++ q.filter keep) := by
  fun_induction ops.rebuild less keep q kept with
  | case1 kept => simp
  | case2 x q kept ih =>
    refine ih.trans ?_
    have hpop := (ops.pop_perm less x q).filter keep
    by_cases hx : keep x
    · simpa [hx] using (ops.push_perm less kept x).append hpop
    · simpa [hx] using (List.Perm.refl kept).append hpop

end Ops

/-- The queue kept as a list sorted so that no element is `less` than one after it: `push`
inserts in order, `pop` drops the head, `makeHeap` sorts again. -/
def sorted {ι : Type} : Ops ι where
  push less q x := q.orderedInsert (fun a b => less a b = false) x
  pop _ q := q.tail
  makeHeap less q := q.insertionSort fun a b => less a b = false
  push_perm _ q x := (List.perm_orderedInsert _ x q).trans (List.perm_append_singleton x q).symm
  pop_perm _ _ _ := List.Perm.refl _
  makeHeap_perm _ q := List.perm_insertionSort _ q

end PQueue
