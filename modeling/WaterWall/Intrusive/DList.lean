import Mathlib

/-!
# Intrusive doubly-linked lists

An intrusive list keeps its links inside the nodes: every node has a `prev` and a `next` field,
and the list itself is a `head` and a `tail`.  Nodes are named by addresses of a type `ι`, and the
two fields are functions over the addresses, one function per field, updated pointwise.

* `Threads lk head tail xs`: the links thread exactly the nodes `xs`, in this order, from `head`
  to `tail`.  It is stated through `after xs x` and `before xs x`, the neighbours of `x` in `xs`.
* `unlink` and `pushTail` are the two operations as C code writes them.  `threads_unlink`: they
  thread `xs.erase e` after `e` is unlinked, and `threads_pushTail`: `xs ++ [e]` after `e` is
  appended.  A node that is moved to the tail (`unlink` then `pushTail`) is the move of an LRU
  list.
-/

set_option autoImplicit false

namespace Intrusive

variable {ι : Type} [DecidableEq ι]

/-! ## Neighbours in a list -/

/-- The element right after `x` in `xs`. -/
def after : List ι → ι → Option ι
  | [], _ => none
  | a :: rest, x => if a = x then rest.head? else after rest x

/-- The element right before `x` in `xs`. -/
def before (xs : List ι) (x : ι) : Option ι := after xs.reverse x

@[simp] theorem after_nil (x : ι) : after [] x = none := rfl

theorem after_cons (a x : ι) (rest : List ι) :
    after (a :: rest) x = if a = x then rest.head? else after rest x := rfl

/-- In a list without repeats, `y` follows `x` exactly when `[x, y]` is a piece of it. -/
theorem after_eq_some_iff {xs : List ι} (hnd : xs.Nodup) {x y : ι} :
    after xs x = some y ↔ [x, y] <:+: xs := by
  induction xs with
  | nil => simp [List.infix_nil]
  | cons a rest ih =>
    rw [after_cons, List.infix_cons_iff, List.cons_prefix_cons]
    obtain ⟨ha, hrest⟩ := List.nodup_cons.1 hnd
    by_cases hax : a = x
    · subst hax
      -- `a` is not in `rest`, so `[a, y]` cannot be a piece of it
      have hnot : ¬ [a, y] <:+: rest := fun h => ha (h.subset (by simp))
      rw [if_pos rfl, List.singleton_prefix_iff_head?_eq_some]
      constructor
      · exact fun h => Or.inl ⟨rfl, h⟩
      · rintro (⟨-, h⟩ | h)
        · exact h
        · exact absurd h hnot
    · rw [if_neg hax, ih hrest]
      constructor
      · exact Or.inr
      · rintro (⟨h, -⟩ | h)
        · exact absurd h.symm hax
        · exact h

theorem before_eq_some_iff {xs : List ι} (hnd : xs.Nodup) {x y : ι} :
    before xs y = some x ↔ [x, y] <:+: xs := by
  rw [before, after_eq_some_iff (List.nodup_reverse.2 hnd), ← List.reverse_infix, List.reverse_reverse]
  rfl

theorem after_eq_some_iff_before {xs : List ι} (hnd : xs.Nodup) {x y : ι} :
    after xs x = some y ↔ before xs y = some x := by
  rw [after_eq_some_iff hnd, before_eq_some_iff hnd]

theorem mem_of_after_eq_some {xs : List ι} (hnd : xs.Nodup) {x y : ι} (h : after xs x = some y) :
    y ∈ xs :=
  ((after_eq_some_iff hnd).1 h).subset (by simp)

/-- Erasing `e` from the front: the new front is what followed `e`. -/
theorem head?_erase (xs : List ι) (e : ι) :
    (xs.erase e).head? = if xs.head? = some e then after xs e else xs.head? := by
  cases xs with
  | nil => rfl
  | cons a rest =>
    by_cases hae : a = e
    · subst hae
      simp [after_cons]
    · rw [List.erase_cons_tail (by simpa using hae)]
      simp [hae]

theorem erase_reverse {xs : List ι} (hnd : xs.Nodup) (e : ι) :
    (xs.erase e).reverse = xs.reverse.erase e := by
  rw [hnd.erase_eq_filter, (List.nodup_reverse.2 hnd).erase_eq_filter, List.filter_reverse]

theorem getLast?_erase {xs : List ι} (hnd : xs.Nodup) (e : ι) :
    (xs.erase e).getLast? = if xs.getLast? = some e then before xs e else xs.getLast? := by
  rw [← List.head?_reverse, erase_reverse hnd, head?_erase, List.head?_reverse, before]

/-- Erasing `e` from the middle: the node before it is followed by the node after it. -/
theorem after_erase {xs : List ι} (hnd : xs.Nodup) {x e : ι} (hx : x ∈ xs) (hxe : x ≠ e) :
    after (xs.erase e) x = if after xs x = some e then after xs e else after xs x := by
  induction xs with
  | nil => simp at hx
  | cons a rest ih =>
    obtain ⟨ha, hrest⟩ := List.nodup_cons.1 hnd
    by_cases hae : a = e
    · -- erasing the front: `x` is further on, and nothing in `rest` is followed by `a`
      subst hae
      have hx' : x ∈ rest := (List.mem_cons.1 hx).resolve_left hxe
      have hnot : after rest x ≠ some a := fun h => ha (mem_of_after_eq_some hrest h)
      rw [List.erase_cons_head, after_cons, if_neg (Ne.symm hxe), if_neg hnot]
    rw [List.erase_cons_tail (by simpa using hae), after_cons, after_cons]
    by_cases hax : a = x
    · subst hax
      rw [if_pos rfl, if_pos rfl, head?_erase, after_cons, if_neg hae]
    · have hx' : x ∈ rest := (List.mem_cons.1 hx).resolve_left (Ne.symm hax)
      rw [if_neg hax, if_neg hax, ih hrest hx', after_cons, if_neg hae]

theorem before_erase {xs : List ι} (hnd : xs.Nodup) {x e : ι} (hx : x ∈ xs) (hxe : x ≠ e) :
    before (xs.erase e) x = if before xs x = some e then before xs e else before xs x := by
  rw [before, erase_reverse hnd]
  exact after_erase (List.nodup_reverse.2 hnd) (List.mem_reverse.2 hx) hxe

theorem after_append_singleton {xs : List ι} (hnd : xs.Nodup) {x e : ι} (hx : x ∈ xs)
    (he : e ∉ xs) :
    after (xs ++ [e]) x = if xs.getLast? = some x then some e else after xs x := by
  induction xs with
  | nil => simp at hx
  | cons a rest ih =>
    obtain ⟨ha, hrest⟩ := List.nodup_cons.1 hnd
    have he' : e ∉ rest := fun h => he (List.mem_cons_of_mem a h)
    rw [List.cons_append, after_cons, after_cons]
    by_cases hax : a = x
    · subst hax
      rw [if_pos rfl, if_pos rfl]
      cases rest with
      | nil => simp
      | cons b rest' =>
        -- the last node is in `rest`, so it is not `a`
        have hlast : (a :: b :: rest').getLast? ≠ some a := by
          rw [List.getLast?_cons_cons]
          intro h
          exact ha (List.mem_of_getLast? h)
        rw [if_neg hlast]
        rfl
    · have hx' : x ∈ rest := (List.mem_cons.1 hx).resolve_left (Ne.symm hax)
      have hne : rest ≠ [] := List.ne_nil_of_mem hx'
      obtain ⟨b, rest', rfl⟩ := List.exists_cons_of_ne_nil hne
      rw [if_neg hax, if_neg hax, ih hrest hx' he', List.getLast?_cons_cons]

theorem after_append_singleton_self {xs : List ι} {e : ι} (he : e ∉ xs) :
    after (xs ++ [e]) e = none := by
  induction xs with
  | nil => simp [after_cons]
  | cons a rest ih =>
    have hae : a ≠ e := fun h => he (h ▸ List.mem_cons_self)
    rw [List.cons_append, after_cons, if_neg hae, ih (fun h => he (List.mem_cons_of_mem a h))]

theorem before_append_singleton {xs : List ι} {x e : ι} (hxe : x ≠ e) :
    before (xs ++ [e]) x = before xs x := by
  rw [before, List.reverse_append, List.reverse_singleton, List.singleton_append, after_cons,
    if_neg (Ne.symm hxe)]
  rfl

theorem before_append_singleton_self (xs : List ι) (e : ι) :
    before (xs ++ [e]) e = xs.getLast? := by
  rw [before, List.reverse_append, List.reverse_singleton, List.singleton_append, after_cons,
    if_pos rfl, List.head?_reverse]

theorem after_eq_none_of_getLast {xs : List ι} (hnd : xs.Nodup) {e : ι} (h : xs.getLast? = some e) :
    after xs e = none := by
  obtain ⟨ys, rfl⟩ := List.getLast?_eq_some_iff.1 h
  have he : e ∉ ys := fun hy => (List.nodup_append.1 hnd).2.2 e hy e (List.mem_singleton_self e) rfl
  exact after_append_singleton_self he

theorem getLast_of_after_eq_none {xs : List ι} {e : ι} (he : e ∈ xs) (h : after xs e = none) :
    xs.getLast? = some e := by
  induction xs with
  | nil => simp at he
  | cons a rest ih =>
    rw [after_cons] at h
    by_cases hae : a = e
    · rw [if_pos hae, List.head?_eq_none_iff] at h
      subst h hae
      rfl
    · rw [if_neg hae] at h
      have he' : e ∈ rest := (List.mem_cons.1 he).resolve_left (Ne.symm hae)
      rw [List.getLast?_cons, ih he' h]
      rfl

theorem before_eq_none_of_head {xs : List ι} (hnd : xs.Nodup) {e : ι} (h : xs.head? = some e) :
    before xs e = none :=
  after_eq_none_of_getLast (List.nodup_reverse.2 hnd) (by rw [List.getLast?_reverse, h])

theorem head_of_before_eq_none {xs : List ι} {e : ι} (he : e ∈ xs) (h : before xs e = none) :
    xs.head? = some e := by
  rw [← List.getLast?_reverse]
  exact getLast_of_after_eq_none (List.mem_reverse.2 he) h

/-- Moving the last node to the back leaves the list as it is. -/
theorem erase_append_getLast {xs : List ι} (hnd : xs.Nodup) {e : ι} (h : xs.getLast? = some e) :
    xs.erase e ++ [e] = xs := by
  obtain ⟨ys, rfl⟩ := List.getLast?_eq_some_iff.1 h
  have he : e ∉ ys := fun hy => (List.nodup_append.1 hnd).2.2 e hy e (List.mem_singleton_self e) rfl
  rw [List.erase_append_right _ he, List.erase_cons_head, List.append_nil]

/-! ## Links -/

/-- The pointer fields of an intrusive list: its `head` and `tail`, and the `prev` and `next` field
of every node. -/
structure Links (ι : Type) where
  head : Option ι
  tail : Option ι
  prev : ι → Option ι
  next : ι → Option ι

namespace Links

/-- Take `e` out of the list, as C code does it: its neighbours (or the list's ends) are pointed
past it, then its own links are cleared. -/
def unlink (l : Links ι) (e : ι) : Links ι :=
  let l := match l.prev e with
    | some p => { l with next := Function.update l.next p (l.next e) }
    | none => { l with head := l.next e }
  let l := match l.next e with
    | some n => { l with prev := Function.update l.prev n (l.prev e) }
    | none => { l with tail := l.prev e }
  { l with prev := Function.update l.prev e none, next := Function.update l.next e none }

/-- Append `e` at the tail. -/
def pushTail (l : Links ι) (e : ι) : Links ι :=
  let l := { l with prev := Function.update l.prev e l.tail, next := Function.update l.next e none }
  let l := match l.tail with
    | some t => { l with next := Function.update l.next t (some e) }
    | none => { l with head := some e }
  { l with tail := some e }

end Links

/-- The links thread exactly the nodes `xs`, each once, in this order. -/
structure Threads (l : Links ι) (xs : List ι) : Prop where
  nodup : xs.Nodup
  head_eq : l.head = xs.head?
  tail_eq : l.tail = xs.getLast?
  next_eq : ∀ x ∈ xs, l.next x = after xs x
  prev_eq : ∀ x ∈ xs, l.prev x = before xs x

theorem threads_nil (prev next : ι → Option ι) : Threads ⟨none, none, prev, next⟩ [] :=
  ⟨List.nodup_nil, rfl, rfl, by simp, by simp⟩

namespace Links

variable (l : Links ι) (e : ι)

/-! What each operation leaves in each field. -/

theorem unlink_head : (l.unlink e).head = if l.prev e = none then l.next e else l.head := by
  cases hp : l.prev e <;> cases hn : l.next e <;> simp [unlink, hp, hn, Function.update_apply]

theorem unlink_tail : (l.unlink e).tail = if l.next e = none then l.prev e else l.tail := by
  cases hp : l.prev e <;> cases hn : l.next e <;> simp [unlink, hp, hn, Function.update_apply]

theorem unlink_next_of_ne {x : ι} (hxe : x ≠ e) :
    (l.unlink e).next x = if l.prev e = some x then l.next e else l.next x := by
  cases hp : l.prev e <;> cases hn : l.next e <;> simp [unlink, hp, hn, Function.update_apply, hxe, eq_comm]

theorem unlink_prev_of_ne {x : ι} (hxe : x ≠ e) :
    (l.unlink e).prev x = if l.next e = some x then l.prev e else l.prev x := by
  cases hp : l.prev e <;> cases hn : l.next e <;> simp [unlink, hp, hn, Function.update_apply, hxe, eq_comm]

theorem pushTail_head : (l.pushTail e).head = if l.tail = none then some e else l.head := by
  unfold pushTail
  cases l.tail <;> rfl

@[simp] theorem pushTail_tail : (l.pushTail e).tail = some e := by
  unfold pushTail
  cases l.tail <;> rfl

theorem pushTail_prev (x : ι) : (l.pushTail e).prev x = if x = e then l.tail else l.prev x := by
  unfold pushTail
  cases l.tail <;> simp [Function.update_apply]

theorem pushTail_next (x : ι) :
    (l.pushTail e).next x = if l.tail = some x then some e else if x = e then none else l.next x := by
  unfold pushTail
  cases l.tail <;> simp [Function.update_apply, eq_comm]

end Links

section Operations

variable {l : Links ι} {xs : List ι} {e : ι}

/-- **Unlinking.**  Taking a node out of a threaded list leaves the rest threaded. -/
theorem threads_unlink (ht : Threads l xs) (he : e ∈ xs) : Threads (l.unlink e) (xs.erase e) where
  nodup := ht.nodup.erase e
  head_eq := by
    rw [l.unlink_head, ht.prev_eq e he, ht.next_eq e he, ht.head_eq, head?_erase]
    by_cases hb : before xs e = none
    · rw [if_pos hb, if_pos (head_of_before_eq_none he hb)]
    · -- something comes before `e`, so `e` is not the first node
      have hh : xs.head? ≠ some e := fun h => hb (before_eq_none_of_head ht.nodup h)
      rw [if_neg hb, if_neg hh]
  tail_eq := by
    rw [l.unlink_tail, ht.prev_eq e he, ht.next_eq e he, ht.tail_eq, getLast?_erase ht.nodup]
    by_cases ha : after xs e = none
    · rw [if_pos ha, if_pos (getLast_of_after_eq_none he ha)]
    · have ht' : xs.getLast? ≠ some e := fun h => ha (after_eq_none_of_getLast ht.nodup h)
      rw [if_neg ha, if_neg ht']
  next_eq := by
    intro x hx
    obtain ⟨hxe, hx⟩ := (ht.nodup.mem_erase_iff).1 hx
    rw [l.unlink_next_of_ne e hxe, ht.prev_eq e he, ht.next_eq e he, ht.next_eq x hx,
      after_erase ht.nodup hx hxe]
    -- `x` is before `e` exactly when `e` is after `x`
    by_cases hxa : after xs x = some e
    · rw [if_pos hxa, if_pos ((after_eq_some_iff_before ht.nodup).1 hxa)]
    · rw [if_neg hxa, if_neg (mt (after_eq_some_iff_before ht.nodup).2 hxa)]
  prev_eq := by
    intro x hx
    obtain ⟨hxe, hx⟩ := (ht.nodup.mem_erase_iff).1 hx
    rw [l.unlink_prev_of_ne e hxe, ht.next_eq e he, ht.prev_eq e he, ht.prev_eq x hx,
      before_erase ht.nodup hx hxe]
    by_cases hxb : before xs x = some e
    · rw [if_pos hxb, if_pos ((after_eq_some_iff_before ht.nodup).2 hxb)]
    · rw [if_neg hxb, if_neg (mt (after_eq_some_iff_before ht.nodup).1 hxb)]

/-- **Appending.**  A node not in a threaded list, pushed at its tail, is threaded after it. -/
theorem threads_pushTail (ht : Threads l xs) (he : e ∉ xs) : Threads (l.pushTail e) (xs ++ [e]) where
  nodup := List.nodup_append.2 ⟨ht.nodup, List.nodup_singleton e,
    fun a ha b hb => by rw [List.mem_singleton.1 hb]; exact fun h => he (h ▸ ha)⟩
  head_eq := by
    rw [l.pushTail_head, ht.tail_eq, ht.head_eq, List.head?_append]
    cases xs with
    | nil => rfl
    | cons a rest => simp
  tail_eq := by simp
  next_eq := by
    intro x hx
    rw [l.pushTail_next, ht.tail_eq]
    rcases List.mem_append.1 hx with hx | hx
    · have hxe : x ≠ e := fun h => he (h ▸ hx)
      rw [if_neg hxe, ht.next_eq x hx, after_append_singleton ht.nodup hx he]
    · -- `e` itself: it was not the old last node, and nothing follows it now
      rw [List.mem_singleton.1 hx, after_append_singleton_self he]
      have hlast : xs.getLast? ≠ some e := fun h => he (List.mem_of_getLast? h)
      rw [if_neg hlast, if_pos rfl]
  prev_eq := by
    intro x hx
    rw [l.pushTail_prev]
    rcases List.mem_append.1 hx with hx | hx
    · have hxe : x ≠ e := fun h => he (h ▸ hx)
      rw [if_neg hxe, ht.prev_eq x hx, before_append_singleton hxe]
    · rw [List.mem_singleton.1 hx, if_pos rfl, ht.tail_eq, before_append_singleton_self]

/-- **Moving to the tail.**  Unlinking a node and pushing it at the tail, unless it is the tail
already, moves it to the back of the list. -/
theorem threads_moveToTail (ht : Threads l xs) (he : e ∈ xs) :
    Threads (if l.tail = some e then l else (l.unlink e).pushTail e) (xs.erase e ++ [e]) := by
  by_cases htail : l.tail = some e
  · rw [if_pos htail, erase_append_getLast ht.nodup (ht.tail_eq ▸ htail)]
    exact ht
  · rw [if_neg htail]
    exact threads_pushTail (threads_unlink ht he) (ht.nodup.not_mem_erase)

end Operations

end Intrusive
