import Mathlib

/-!
# Binary min-heaps whose elements know their position

An array `arr` holds the heap's elements at `0, …, count - 1`, ordered by a key: the element at
`parent i = (i - 1) / 2` is at or before the one at `i`.  Each element also records the index it
sits at (`pos`), so that an element can be removed or re-keyed where it is.  The operations are
written as C code writes them, with swaps that rewrite both moved elements' positions.

* `UpOrder` and `DownOrder`: what `siftUp` and `siftDown` need of the heap at the index they
  start from; `siftUp_valid` and `siftDown_valid` restore a heap from them.
* `push_valid`, `removeAt_valid`, `rekey_valid`: each operation keeps a valid heap, and changes its
  elements as it should (`mem_push`, `mem_removeAt`).
* `root_le`: the root is at or before every element.
-/

set_option autoImplicit false

namespace BinaryHeap

/-- The parent of index `i`; index `0` has none. -/
def parent (i : Nat) : Nat := (i - 1) / 2

theorem parent_lt {i : Nat} (h : 0 < i) : parent i < i := by
  unfold parent
  omega

theorem parent_eq_iff {c i : Nat} (hc : 0 < c) : parent c = i ↔ c = i * 2 + 1 ∨ c = i * 2 + 2 := by
  unfold parent
  omega

/-- The heap's storage: its elements in `arr` below `count`, and each element's position. -/
structure Heap (ι : Type) where
  arr : Nat → ι
  count : Nat
  pos : ι → Nat

namespace Heap

variable {ι β : Type} [LinearOrder β]

/-- `c` if it is in the heap and its element is before the one at `s`, else `s`. -/
def pick (key : ι → β) (h : Heap ι) (s c : Nat) : Nat :=
  if c < h.count ∧ key (h.arr c) < key (h.arr s) then c else s

/-- The index among `i` and its children whose element is first, `i` on a tie: `i` against the
left child, then the winner against the right one. -/
def smallest (key : ι → β) (h : Heap ι) (i : Nat) : Nat :=
  let left := i * 2 + 1
  let right := left + 1
  h.pick key (h.pick key i left) right

section Smallest

variable (key : ι → β) (h : Heap ι)

theorem pick_le_self (s c : Nat) : key (h.arr (h.pick key s c)) ≤ key (h.arr s) := by
  unfold pick
  split_ifs with hc
  · exact le_of_lt hc.2
  · exact le_rfl

theorem pick_le_of_lt_count (s : Nat) {c : Nat} (hc : c < h.count) :
    key (h.arr (h.pick key s c)) ≤ key (h.arr c) := by
  unfold pick
  split_ifs with hlt
  · exact le_rfl
  · exact not_lt.mp fun hlt' => hlt ⟨hc, hlt'⟩

theorem pick_eq_or (s c : Nat) :
    h.pick key s c = s ∨ (h.pick key s c = c ∧ c < h.count ∧ key (h.arr c) < key (h.arr s)) := by
  unfold pick
  split_ifs with hc
  · exact Or.inr ⟨rfl, hc⟩
  · exact Or.inl rfl

theorem smallest_le_child {i c : Nat} (hc0 : 0 < c) (hci : parent c = i) (hc : c < h.count) :
    key (h.arr (h.smallest key i)) ≤ key (h.arr c) := by
  rcases (parent_eq_iff hc0).mp hci with rfl | rfl
  · exact (h.pick_le_self key _ _).trans (h.pick_le_of_lt_count key _ hc)
  · exact h.pick_le_of_lt_count key _ hc

/-- When `siftDown` moves on, it moves to a child in the heap whose element is before. -/
theorem smallest_of_ne {i : Nat} (hne : h.smallest key i ≠ i) :
    0 < h.smallest key i ∧ parent (h.smallest key i) = i ∧ h.smallest key i < h.count ∧
      key (h.arr (h.smallest key i)) < key (h.arr i) := by
  simp only [smallest] at hne ⊢
  rcases h.pick_eq_or key (h.pick key i (i * 2 + 1)) (i * 2 + 1 + 1) with hr | ⟨hr, hrc, hrlt⟩
  · rw [hr] at hne ⊢
    rcases h.pick_eq_or key i (i * 2 + 1) with hl | ⟨hl, hlc, hllt⟩
    · exact absurd hl hne
    · rw [hl]
      exact ⟨by omega, by unfold parent; omega, hlc, hllt⟩
  · rw [hr]
    exact ⟨by omega, by unfold parent; omega, hrc, hrlt.trans_le (h.pick_le_self key _ _)⟩

theorem smallest_lt_count (i : Nat) (hne : h.smallest key i ≠ i) :
    i < h.smallest key i ∧ h.smallest key i < h.count := by
  obtain ⟨h0, hp, hc, -⟩ := h.smallest_of_ne key hne
  have := parent_lt h0
  exact ⟨by omega, hc⟩

end Smallest

/-! ## Elements, positions and order -/

/-- `x` is one of the heap's elements. -/
def Mem (h : Heap ι) (x : ι) : Prop := ∃ j < h.count, h.arr j = x

instance [DecidableEq ι] (h : Heap ι) (x : ι) : Decidable (h.Mem x) :=
  inferInstanceAs (Decidable (∃ j < h.count, h.arr j = x))

/-- Each element records the index it sits at. -/
def Positioned (h : Heap ι) : Prop := ∀ j < h.count, h.pos (h.arr j) = j

/-- Every element is at or after its parent. -/
def Ordered (key : ι → β) (h : Heap ι) : Prop :=
  ∀ j, 0 < j → j < h.count → key (h.arr (parent j)) ≤ key (h.arr j)

/-- A heap as the operations keep it. -/
structure Valid (key : ι → β) (h : Heap ι) : Prop where
  positioned : Positioned h
  ordered : Ordered key h

/-- What `siftUp` needs at `i`: every edge is in order but the one into `i`, and the parent of
`i` is at or before the children of `i`. -/
structure UpOrder (key : ι → β) (h : Heap ι) (i : Nat) : Prop where
  except : ∀ j, 0 < j → j < h.count → j ≠ i → key (h.arr (parent j)) ≤ key (h.arr j)
  bridge : 0 < i → ∀ c, 0 < c → parent c = i → c < h.count →
    key (h.arr (parent i)) ≤ key (h.arr c)

/-- What `siftDown` needs at `i`: every edge is in order but those out of `i`, and the parent of
`i` is at or before the children of `i`. -/
structure DownOrder (key : ι → β) (h : Heap ι) (i : Nat) : Prop where
  except : ∀ j, 0 < j → j < h.count → parent j ≠ i → key (h.arr (parent j)) ≤ key (h.arr j)
  bridge : 0 < i → ∀ c, 0 < c → parent c = i → c < h.count →
    key (h.arr (parent i)) ≤ key (h.arr c)

section Order

variable {key : ι → β} {h : Heap ι}

theorem Positioned.arr_inj (hp : Positioned h) {a b : Nat} (ha : a < h.count) (hb : b < h.count)
    (he : h.arr a = h.arr b) : a = b := by
  rw [← hp a ha, ← hp b hb, he]

omit [LinearOrder β] in
/-- Changing the key of the element at `i` changes no other index's key. -/
theorem Positioned.key_eq_of_ne {key' : ι → β} (hp : Positioned h) {i : Nat} (hi : i < h.count)
    (hk : ∀ x, x ≠ h.arr i → key' x = key x) : ∀ j < h.count, j ≠ i → key' (h.arr j) = key (h.arr j) :=
  fun j hj hji => hk (h.arr j) fun he => hji (hp.arr_inj hj hi he)

theorem Positioned.mem_iff (hp : Positioned h) {x : ι} :
    Mem h x ↔ h.pos x < h.count ∧ h.arr (h.pos x) = x := by
  constructor
  · rintro ⟨j, hj, rfl⟩
    rw [hp j hj]
    exact ⟨hj, rfl⟩
  · exact fun hx => ⟨h.pos x, hx⟩

theorem Ordered.root_le (ho : Ordered key h) : ∀ j < h.count, key (h.arr 0) ≤ key (h.arr j) := by
  intro j
  induction j using Nat.strongRecOn with
  | ind j ih =>
    intro hj
    rcases Nat.eq_zero_or_pos j with rfl | hj0
    · exact le_rfl
    · have hp := parent_lt hj0
      exact (ih (parent j) hp (by omega)).trans (ho j hj0 hj)

/-- Which elements the order is about: the keys of other values do not matter. -/
theorem Ordered.congr_key {key' : ι → β} (ho : Ordered key h) (hk : ∀ x, Mem h x → key' x = key x) :
    Ordered key' h := by
  intro j hj0 hj
  rw [hk _ ⟨_, by have := parent_lt hj0; omega, rfl⟩, hk _ ⟨j, hj, rfl⟩]
  exact ho j hj0 hj

theorem UpOrder.ordered {i : Nat} (o : UpOrder key h i)
    (hstop : 0 < i → key (h.arr (parent i)) ≤ key (h.arr i)) : Ordered key h := by
  intro j hj0 hj
  by_cases hji : j = i
  · rw [hji] at hj0 ⊢
    exact hstop hj0
  · exact o.except j hj0 hj hji

theorem UpOrder.le_children {i : Nat} (o : UpOrder key h i) :
    ∀ c, 0 < c → parent c = i → c < h.count → key (h.arr i) ≤ key (h.arr c) := by
  intro c hc0 hci hc
  have hic : parent c < c := parent_lt hc0
  have := o.except c hc0 hc (by omega)
  rwa [hci] at this

theorem DownOrder.ordered {i : Nat} (o : DownOrder key h i)
    (hstop : ∀ c, 0 < c → parent c = i → c < h.count → key (h.arr i) ≤ key (h.arr c)) :
    Ordered key h := by
  intro j hj0 hj
  by_cases hji : parent j = i
  · rw [hji]
    exact hstop j hj0 hji hj
  · exact o.except j hj0 hj hji

/-! ### One element replaced

`h'` is `h` with the element at `i` replaced, or with the key of that element changed, and
possibly with its last elements dropped.  Whether the new element is after or before the old one
says which sift puts it in its place. -/

section Replace

variable {key' : ι → β} {h' : Heap ι} {i : Nat} (ho : Ordered key h) (hcount : h'.count ≤ h.count)
  (hsame : ∀ j < h'.count, j ≠ i → key' (h'.arr j) = key (h.arr j))
include ho hcount hsame

theorem bridge_of_replace : 0 < i → ∀ c, 0 < c → parent c = i → c < h'.count →
    key' (h'.arr (parent i)) ≤ key' (h'.arr c) := by
  intro hi0 c hc0 hci hc
  have hpi : parent i < i := parent_lt hi0
  have hic : parent c < c := parent_lt hc0
  rw [hsame (parent i) (by omega) (by omega), hsame c hc (by omega)]
  have hc' := ho c hc0 (by omega)
  rw [hci] at hc'
  exact (ho i hi0 (by omega)).trans hc'

theorem upOrder_of_replace (hle : key' (h'.arr i) ≤ key (h.arr i)) : UpOrder key' h' i where
  except j hj0 hj hji := by
    have hpj : parent j < j := parent_lt hj0
    by_cases hpi : parent j = i
    · -- a child of `i`: the new element is before the old one, which was before the child
      have hj' := ho j hj0 (by omega)
      rw [hpi] at hj' ⊢
      rw [hsame j hj hji]
      exact hle.trans hj'
    · rw [hsame (parent j) (by omega) hpi, hsame j hj hji]
      exact ho j hj0 (by omega)
  bridge := bridge_of_replace ho hcount hsame

theorem downOrder_of_replace (hstop : 0 < i → key' (h'.arr (parent i)) ≤ key' (h'.arr i)) :
    DownOrder key' h' i where
  except j hj0 hj hpi := by
    have hpj : parent j < j := parent_lt hj0
    by_cases hji : j = i
    · rw [hji] at hj0 ⊢
      exact hstop hj0
    · rw [hsame (parent j) (by omega) hpi, hsame j hj hji]
      exact ho j hj0 (by omega)
  bridge := bridge_of_replace ho hcount hsame

end Replace

end Order

/-- `h'` holds the elements of `h`, each at the index it records. -/
structure Rearranges (h h' : Heap ι) : Prop where
  count_eq : h'.count = h.count
  mem_iff : ∀ x, Mem h' x ↔ Mem h x
  positioned : Positioned h'

section Rearranges

variable {key : ι → β} {h h' h'' : Heap ι}

theorem Rearranges.refl (hp : Positioned h) : Rearranges h h := ⟨rfl, fun _ => Iff.rfl, hp⟩

theorem Rearranges.trans (r₁ : Rearranges h h') (r₂ : Rearranges h' h'') : Rearranges h h'' :=
  ⟨r₂.count_eq.trans r₁.count_eq, fun x => (r₂.mem_iff x).trans (r₁.mem_iff x), r₂.positioned⟩

theorem Rearranges.valid (r : Rearranges h h') (ho : Ordered key h') : Valid key h' :=
  ⟨r.positioned, ho⟩

end Rearranges

variable [DecidableEq ι]

/-- Exchange the elements at `a` and `b`, and record their new positions. -/
def swap (h : Heap ι) (a b : Nat) : Heap ι :=
  let tmp := h.arr a
  let arr := Function.update h.arr a (h.arr b)
  let arr := Function.update arr b tmp
  let pos := Function.update h.pos (arr a) a
  let pos := Function.update pos (arr b) b
  { h with arr := arr, pos := pos }

/-- Move the element at `i` up while its parent is after it. -/
def siftUp (key : ι → β) (h : Heap ι) (i : Nat) : Heap ι :=
  if i = 0 then h
  else
    if key (h.arr (parent i)) ≤ key (h.arr i) then h
    else siftUp key (h.swap (parent i) i) (parent i)
termination_by i
decreasing_by exact parent_lt (Nat.pos_of_ne_zero ‹_›)

/-- Move the element at `i` down while a child is before it. -/
def siftDown (key : ι → β) (h : Heap ι) (i : Nat) : Heap ι :=
  if h.smallest key i = i then h
  else siftDown key (h.swap i (h.smallest key i)) (h.smallest key i)
termination_by h.count - i
decreasing_by
  have := smallest_lt_count key h i ‹_›
  show (h.swap i (h.smallest key i)).count - h.smallest key i < h.count - i
  simp only [swap]
  omega

/-- Put `e` at the end and move it up. -/
def push (key : ι → β) (h : Heap ι) (e : ι) : Heap ι :=
  let h := { h with pos := Function.update h.pos e h.count }
  let h := { h with arr := Function.update h.arr (h.pos e) e }
  let h := { h with count := h.count + 1 }
  h.siftUp key (h.pos e)

/-- Remove the element at `i`: the last element takes its place and is moved down, then up. -/
def removeAt (key : ι → β) (h : Heap ι) (i : Nat) : Heap ι :=
  let last := h.count - 1
  let h : Heap ι := if i ≠ last then
      let h : Heap ι := { h with arr := Function.update h.arr i (h.arr last) }
      { h with pos := Function.update h.pos (h.arr i) i }
    else h
  let h : Heap ι := { h with count := last }
  if i < h.count then (h.siftDown key i).siftUp key i else h

/-! ## Swaps -/

section Swap

variable (h : Heap ι) (a b : Nat)

@[simp] theorem swap_count : (h.swap a b).count = h.count := rfl

theorem swap_arr_left : (h.swap a b).arr a = h.arr b := by
  by_cases hab : a = b
  · simp [swap, hab]
  · simp [swap, hab]

theorem swap_arr_right : (h.swap a b).arr b = h.arr a := by
  simp [swap]

theorem swap_arr_of_ne {j : Nat} (ha : j ≠ a) (hb : j ≠ b) : (h.swap a b).arr j = h.arr j := by
  simp [swap, ha, hb]

theorem swap_pos (x : ι) :
    (h.swap a b).pos x = if x = h.arr a then b else if x = h.arr b then a else h.pos x := by
  by_cases hab : a = b
  · subst hab
    by_cases hx : x = h.arr a <;> simp [swap, hx]
  · by_cases hxa : x = h.arr a
    · simp [swap, hxa]
    · by_cases hxb : x = h.arr b <;> simp [swap, Function.update_apply, hab, hxa, hxb]

end Swap

theorem rearranges_swap {h : Heap ι} (hp : Positioned h) {a b : Nat} (ha : a < h.count) (hb : b < h.count) :
    Rearranges h (h.swap a b) where
  count_eq := rfl
  mem_iff x := by
    constructor
    · rintro ⟨j, hj, rfl⟩
      by_cases hjb : j = b
      · rw [hjb, swap_arr_right]
        exact ⟨a, ha, rfl⟩
      by_cases hja : j = a
      · rw [hja, swap_arr_left]
        exact ⟨b, hb, rfl⟩
      · rw [swap_arr_of_ne _ _ _ hja hjb]
        exact ⟨j, hj, rfl⟩
    · rintro ⟨j, hj, rfl⟩
      by_cases hja : j = a
      · rw [hja, ← swap_arr_right h a b]
        exact ⟨b, hb, rfl⟩
      by_cases hjb : j = b
      · rw [hjb, ← swap_arr_left h a b]
        exact ⟨a, ha, rfl⟩
      · rw [← swap_arr_of_ne h a b hja hjb]
        exact ⟨j, hj, rfl⟩
  positioned j hj := by
    have hne : ∀ {k}, k < h.count → k ≠ a → h.arr k ≠ h.arr a := fun hk hka he =>
      hka (hp.arr_inj hk ha he)
    rw [swap_count] at hj
    by_cases hjb : j = b
    · rw [hjb, swap_arr_right, swap_pos, if_pos rfl]
    by_cases hja : j = a
    · rw [hja, swap_arr_left, swap_pos]
      by_cases hab : h.arr b = h.arr a
      · rw [if_pos hab, hp.arr_inj hb ha hab]
      · rw [if_neg hab, if_pos rfl]
    · rw [swap_arr_of_ne _ _ _ hja hjb, swap_pos, if_neg (hne hj hja),
        if_neg fun he => hjb (hp.arr_inj hj hb he), hp j hj]


/-! ## The sifts -/

section Sift

variable {key : ι → β} {h : Heap ι} {i : Nat}

theorem siftUp_zero (key : ι → β) (h : Heap ι) : h.siftUp key 0 = h := by
  rw [siftUp, if_pos rfl]

theorem siftUp_of_le (hle : key (h.arr (parent i)) ≤ key (h.arr i)) : h.siftUp key i = h := by
  rw [siftUp]
  split_ifs <;> rfl

theorem siftUp_of_lt (hi0 : 0 < i) (hlt : key (h.arr i) < key (h.arr (parent i))) :
    h.siftUp key i = (h.swap (parent i) i).siftUp key (parent i) := by
  rw [siftUp, if_neg (by omega), if_neg (not_le.mpr hlt)]

theorem siftDown_of_eq (hs : h.smallest key i = i) : h.siftDown key i = h := by
  rw [siftDown, if_pos hs]

theorem siftDown_of_ne (hs : h.smallest key i ≠ i) :
    h.siftDown key i = (h.swap i (h.smallest key i)).siftDown key (h.smallest key i) := by
  rw [siftDown, if_neg hs]

theorem siftUp_of_ordered (ho : Ordered key h) (hi : i < h.count) : h.siftUp key i = h := by
  rcases Nat.eq_zero_or_pos i with rfl | hi0
  · exact siftUp_zero key h
  · exact siftUp_of_le (ho i hi0 hi)

theorem siftDown_of_le_children
    (hc : ∀ c, 0 < c → parent c = i → c < h.count → key (h.arr i) ≤ key (h.arr c)) :
    h.siftDown key i = h := by
  apply siftDown_of_eq
  by_contra hne
  obtain ⟨hs0, hsp, hsc, hslt⟩ := h.smallest_of_ne key hne
  exact absurd (hc _ hs0 hsp hsc) (not_le.mpr hslt)

theorem UpOrder.swap (o : UpOrder key h i) (hi0 : 0 < i) (hi : i < h.count)
    (hlt : key (h.arr i) < key (h.arr (parent i))) :
    UpOrder key (h.swap (parent i) i) (parent i) := by
  have hpi : parent i < i := parent_lt hi0
  constructor
  · intro j hj0 hj hjp
    rw [swap_count] at hj
    have hpj : parent j < j := parent_lt hj0
    by_cases hji : j = i
    · -- the edge into `i` turns round
      rw [hji, swap_arr_left, swap_arr_right]
      exact le_of_lt hlt
    by_cases hci : parent j = i
    · -- a child of `i` now hangs below the old parent, which was before it
      rw [hci, swap_arr_right, swap_arr_of_ne _ _ _ (by omega) hji]
      exact o.bridge hi0 j hj0 hci hj
    by_cases hsib : parent j = parent i
    · -- a sibling of `i` now hangs below the element that moved up
      have hj' := o.except j hj0 hj hji
      rw [hsib] at hj' ⊢
      rw [swap_arr_left, swap_arr_of_ne _ _ _ hjp hji]
      exact (le_of_lt hlt).trans hj'
    · rw [swap_arr_of_ne _ _ _ hsib hci, swap_arr_of_ne _ _ _ hjp hji]
      exact o.except j hj0 hj hji
  · intro hp0 c hc0 hcp hc
    rw [swap_count] at hc
    have hpp : parent (parent i) < parent i := parent_lt hp0
    have hq := o.except (parent i) hp0 (by omega) (by omega)
    rw [swap_arr_of_ne _ _ _ (by omega) (by omega)]
    by_cases hci : c = i
    · rw [hci, swap_arr_right]
      exact hq
    · have hcgt : parent c < c := parent_lt hc0
      have hc' := o.except c hc0 hc hci
      rw [hcp] at hc'
      rw [swap_arr_of_ne _ _ _ (by omega) hci]
      exact hq.trans hc'

theorem DownOrder.swap (o : DownOrder key h i) (hne : h.smallest key i ≠ i) :
    DownOrder key (h.swap i (h.smallest key i)) (h.smallest key i) := by
  obtain ⟨hs0, hsp, hsc, hslt⟩ := h.smallest_of_ne key hne
  have hmin := fun c => h.smallest_le_child key (i := i) (c := c)
  generalize h.smallest key i = s at hs0 hsp hsc hslt hmin ⊢
  have his : parent s < s := parent_lt hs0
  constructor
  · intro j hj0 hj hjs
    rw [swap_count] at hj
    have hpj : parent j < j := parent_lt hj0
    by_cases hjs' : j = s
    · -- the edge into the child turns round
      rw [hjs', hsp, swap_arr_left, swap_arr_right]
      exact le_of_lt hslt
    by_cases hci : parent j = i
    · -- a sibling of the child: the child's element was the first of them
      rw [hci, swap_arr_left, swap_arr_of_ne _ _ _ (by omega) hjs']
      exact hmin j hj0 hci hj
    by_cases hji : j = i
    · -- the edge into `i` is the bridge
      rw [hji] at hj0 ⊢
      have hpi : parent i < i := parent_lt hj0
      rw [swap_arr_of_ne _ _ _ (by omega) (by omega), swap_arr_left]
      exact o.bridge hj0 s hs0 hsp hsc
    · rw [swap_arr_of_ne _ _ _ hci hjs, swap_arr_of_ne _ _ _ hji hjs']
      exact o.except j hj0 hj hci
  · intro _ c hc0 hcs hc
    rw [swap_count] at hc
    have hcgt : parent c < c := parent_lt hc0
    have hc' := o.except c hc0 hc (by omega)
    rw [hcs] at hc'
    rw [hsp, swap_arr_left, swap_arr_of_ne _ _ _ (by omega) (by omega)]
    exact hc'

theorem rearranges_siftUp (hp : Positioned h) (hi : i < h.count) :
    Rearranges h (h.siftUp key i) := by
  induction h, i using siftUp.induct key with
  | case1 h => rw [siftUp_zero]; exact .refl hp
  | case2 h i _ hle => rw [siftUp_of_le hle]; exact .refl hp
  | case3 h i hi0 hlt ih =>
    have hpi : parent i < i := parent_lt (Nat.pos_of_ne_zero hi0)
    have r := rearranges_swap hp (a := parent i) (b := i) (by omega) hi
    rw [siftUp_of_lt (Nat.pos_of_ne_zero hi0) (not_le.mp hlt)]
    exact r.trans (ih r.positioned (by rw [swap_count]; omega))

theorem ordered_siftUp (o : UpOrder key h i) (hi : i < h.count) : Ordered key (h.siftUp key i) := by
  induction h, i using siftUp.induct key with
  | case1 h =>
    rw [siftUp_zero]
    exact o.ordered fun h0 => absurd h0 (Nat.lt_irrefl 0)
  | case2 h i _ hle =>
    rw [siftUp_of_le hle]
    exact o.ordered fun _ => hle
  | case3 h i hi0 hlt ih =>
    have hpi : parent i < i := parent_lt (Nat.pos_of_ne_zero hi0)
    rw [siftUp_of_lt (Nat.pos_of_ne_zero hi0) (not_le.mp hlt)]
    exact ih (o.swap (Nat.pos_of_ne_zero hi0) hi (not_le.mp hlt)) (by rw [swap_count]; omega)

theorem rearranges_siftDown (hp : Positioned h) : Rearranges h (h.siftDown key i) := by
  induction h, i using siftDown.induct key with
  | case1 h i hs => rw [siftDown_of_eq hs]; exact .refl hp
  | case2 h i hne ih =>
    have hlt := h.smallest_lt_count key i hne
    have r := rearranges_swap hp (a := i) (b := h.smallest key i) (by omega) hlt.2
    rw [siftDown_of_ne hne]
    exact r.trans (ih r.positioned)

theorem ordered_siftDown (o : DownOrder key h i) : Ordered key (h.siftDown key i) := by
  induction h, i using siftDown.induct key with
  | case1 h i hs =>
    rw [siftDown_of_eq hs]
    refine o.ordered fun c hc0 hci hc => ?_
    have := h.smallest_le_child key hc0 hci hc
    rwa [hs] at this
  | case2 h i hne ih =>
    rw [siftDown_of_ne hne]
    exact ih (o.swap hne)

end Sift

/-! ## The operations -/

section Operations

variable {key : ι → β} {h : Heap ι} {i : Nat}

theorem push_eq (key : ι → β) (h : Heap ι) (e : ι) :
    h.push key e = siftUp key
      ⟨Function.update h.arr h.count e, h.count + 1, Function.update h.pos e h.count⟩ h.count := by
  simp [push]

theorem valid_push (hv : Valid key h) {e : ι} (he : ¬ Mem h e) :
    Valid key (h.push key e) ∧ (h.push key e).count = h.count + 1 ∧
      ∀ x, Mem (h.push key e) x ↔ Mem h x ∨ x = e := by
  rw [push_eq]
  set h₁ : Heap ι := ⟨Function.update h.arr h.count e, h.count + 1, Function.update h.pos e h.count⟩
  have harr : ∀ j < h.count, h₁.arr j = h.arr j := fun j hj => Function.update_of_ne (by omega) _ _
  have hp : Positioned h₁ := by
    intro j hj
    by_cases hjc : j = h.count
    · simp [h₁, hjc]
    · have hj' : j < h.count := by
        change j < h.count + 1 at hj
        omega
      have hne : h.arr j ≠ e := fun hje => he ⟨j, hj', hje⟩
      rw [harr j hj']
      simp [h₁, hne, hv.positioned j hj']
  have hm : ∀ x, Mem h₁ x ↔ Mem h x ∨ x = e := by
    intro x
    constructor
    · rintro ⟨j, hj, rfl⟩
      by_cases hjc : j = h.count
      · right
        simp [h₁, hjc]
      · have hj' : j < h.count := by
          change j < h.count + 1 at hj
          omega
        exact Or.inl ⟨j, hj', (harr j hj').symm⟩
    · rintro (⟨j, hj, rfl⟩ | rfl)
      · exact ⟨j, by change j < h.count + 1; omega, harr j hj⟩
      · exact ⟨h.count, by change h.count < h.count + 1; omega, by simp [h₁]⟩
  -- the new element is the only one out of order, and it has no children yet
  have o : UpOrder key h₁ h.count := by
    constructor
    · intro j hj0 hj hjc
      have hj' : j < h.count := by
        change j < h.count + 1 at hj
        omega
      have hpj : parent j < j := parent_lt hj0
      rw [harr j hj', harr (parent j) (by omega)]
      exact hv.ordered j hj0 hj'
    · intro _ c hc0 hcp hc
      change c < h.count + 1 at hc
      have := parent_lt hc0
      omega
  have hlt : h.count < h₁.count := by
    change h.count < h.count + 1
    omega
  have r : Rearranges h₁ (h₁.siftUp key h.count) := rearranges_siftUp hp hlt
  exact ⟨r.valid (ordered_siftUp o hlt), r.count_eq, fun x => (r.mem_iff x).trans (hm x)⟩

theorem removeAt_of_eq (key : ι → β) (h : Heap ι) {i : Nat} (hi : i = h.count - 1) :
    h.removeAt key i = { h with count := h.count - 1 } := by
  simp [removeAt, hi]

theorem removeAt_of_lt (key : ι → β) (h : Heap ι) {i : Nat} (hi : i < h.count - 1) :
    h.removeAt key i = (siftDown key ⟨Function.update h.arr i (h.arr (h.count - 1)), h.count - 1,
      Function.update h.pos (h.arr (h.count - 1)) i⟩ i).siftUp key i := by
  simp [removeAt, Nat.ne_of_lt hi, hi]

theorem valid_removeAt_last (hv : Valid key h) (hi : i = h.count - 1) (hi' : i < h.count) :
    Valid key (h.removeAt key i) ∧ (h.removeAt key i).count = h.count - 1 ∧
      ∀ x, Mem (h.removeAt key i) x ↔ Mem h x ∧ x ≠ h.arr i := by
  rw [removeAt_of_eq key h hi]
  refine ⟨⟨fun j hj => hv.positioned j (by simp at hj; omega),
    fun j hj0 hj => hv.ordered j hj0 (by simp at hj; omega)⟩, rfl, fun x => ⟨?_, ?_⟩⟩
  · rintro ⟨j, hj, rfl⟩
    simp only at hj
    refine ⟨⟨j, by omega, rfl⟩, fun he => ?_⟩
    have := hv.positioned.arr_inj (by omega) hi' he
    omega
  · rintro ⟨⟨j, hj, rfl⟩, hne⟩
    have hji : j ≠ i := fun hji => hne (by rw [hji])
    exact ⟨j, by simp; omega, rfl⟩

/-- Removing an inner element: the last element fills the hole, then sinks or rises. -/
theorem valid_removeAt_inner (hv : Valid key h) (hi : i < h.count - 1) :
    Valid key (h.removeAt key i) ∧ (h.removeAt key i).count = h.count - 1 ∧
      ∀ x, Mem (h.removeAt key i) x ↔ Mem h x ∧ x ≠ h.arr i := by
  rw [removeAt_of_lt key h hi]
  set last := h.count - 1 with hlast
  set h₁ : Heap ι := ⟨Function.update h.arr i (h.arr last), last,
    Function.update h.pos (h.arr last) i⟩
  have hne : ∀ j < h.count, j ≠ last → h.arr j ≠ h.arr last := fun j hj hjl he =>
    hjl (hv.positioned.arr_inj hj (by omega) he)
  have harr : ∀ j, j ≠ i → h₁.arr j = h.arr j := fun j hj => Function.update_of_ne hj _ _
  have hc₁ : h₁.count = last := rfl
  have hp : Positioned h₁ := by
    intro j hj
    rw [hc₁] at hj
    by_cases hji : j = i
    · simp [h₁, hji]
    · rw [harr j hji]
      simp [h₁, hne j (by omega) (by omega), hv.positioned j (by omega)]
  have hm : ∀ x, Mem h₁ x ↔ Mem h x ∧ x ≠ h.arr i := by
    intro x
    constructor
    · rintro ⟨j, hj, rfl⟩
      rw [hc₁] at hj
      by_cases hji : j = i
      · rw [hji]
        simp only [h₁, Function.update_self]
        exact ⟨⟨last, by omega, rfl⟩, fun he => by
          have := hv.positioned.arr_inj (by omega) (by omega) he
          omega⟩
      · rw [harr j hji]
        exact ⟨⟨j, by omega, rfl⟩, fun he => hji (hv.positioned.arr_inj (by omega) (by omega) he)⟩
    · rintro ⟨⟨j, hj, rfl⟩, hx⟩
      have hji : j ≠ i := fun hji => hx (by rw [hji])
      by_cases hjl : j = last
      · exact ⟨i, by omega, by simp [h₁, hjl]⟩
      · exact ⟨j, by omega, harr j hji⟩
  have hsame : ∀ j < h₁.count, j ≠ i → key (h₁.arr j) = key (h.arr j) := fun j _ hji => by
    rw [harr j hji]
  have hi₁ : i < h₁.count := hi
  -- the filler is after the hole's parent and sinks, or it is before it and rises
  by_cases hstop : 0 < i → key (h₁.arr (parent i)) ≤ key (h₁.arr i)
  · have o := downOrder_of_replace hv.ordered (by omega) hsame hstop
    have r : Rearranges h₁ (h₁.siftDown key i) := rearranges_siftDown hp
    have ho := ordered_siftDown o
    rw [siftUp_of_ordered ho (by rw [r.count_eq]; exact hi₁)]
    exact ⟨r.valid ho, r.count_eq, fun x => (r.mem_iff x).trans (hm x)⟩
  · simp only [Classical.not_imp, not_le] at hstop
    obtain ⟨hi0, hlt⟩ := hstop
    have hpi : parent i < i := parent_lt hi0
    have hle : key (h₁.arr i) ≤ key (h.arr i) := by
      have := hv.ordered i hi0 (by omega)
      rw [harr (parent i) (by omega)] at hlt
      exact (le_of_lt hlt).trans this
    have o := upOrder_of_replace hv.ordered (by omega) hsame hle
    have r : Rearranges h₁ (h₁.siftUp key i) := rearranges_siftUp hp hi₁
    rw [siftDown_of_le_children o.le_children]
    exact ⟨r.valid (ordered_siftUp o hi₁), r.count_eq, fun x => (r.mem_iff x).trans (hm x)⟩

theorem valid_removeAt (hv : Valid key h) (hi : i < h.count) :
    Valid key (h.removeAt key i) ∧ (h.removeAt key i).count = h.count - 1 ∧
      ∀ x, Mem (h.removeAt key i) x ↔ Mem h x ∧ x ≠ h.arr i := by
  rcases Nat.lt_or_ge i (h.count - 1) with hlt | hge
  · exact valid_removeAt_inner hv hlt
  · exact valid_removeAt_last hv (by omega) hi

section Rekey

variable {key' : ι → β} (hv : Valid key h) (hi : i < h.count)
  (hk : ∀ x, x ≠ h.arr i → key' x = key x)
include hv hi hk

/-- The element at `i` moves later: `siftDown` puts it in its place. -/
theorem siftDown_of_key_le (hle : key (h.arr i) ≤ key' (h.arr i)) :
    Rearranges h (h.siftDown key' i) ∧ Ordered key' (h.siftDown key' i) := by
  have hsame := hv.positioned.key_eq_of_ne hi hk
  have hstop : 0 < i → key' (h.arr (parent i)) ≤ key' (h.arr i) := fun hi0 => by
    rw [hsame (parent i) (by have := parent_lt hi0; omega) (Nat.ne_of_lt (parent_lt hi0))]
    exact (hv.ordered i hi0 hi).trans hle
  exact ⟨rearranges_siftDown hv.positioned,
    ordered_siftDown (downOrder_of_replace hv.ordered (Nat.le_refl _) hsame hstop)⟩

/-- The element at `i` moves earlier: `siftUp` puts it in its place. -/
theorem siftUp_of_key_le (hle : key' (h.arr i) ≤ key (h.arr i)) :
    Rearranges h (h.siftUp key' i) ∧ Ordered key' (h.siftUp key' i) :=
  ⟨rearranges_siftUp hv.positioned hi,
    ordered_siftUp (upOrder_of_replace hv.ordered (Nat.le_refl _) (hv.positioned.key_eq_of_ne hi hk) hle) hi⟩

end Rekey

end Operations

end Heap

end BinaryHeap
