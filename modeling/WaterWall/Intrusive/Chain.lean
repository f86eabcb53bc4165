import Mathlib

/-!
# Intrusive singly-linked chains, as hash buckets keep them

A table of buckets keeps one chain per bucket: the bucket holds a pointer to the first node, and
every node a pointer to the next one, in a field of its own.  Nodes are addresses of a type `ι`,
buckets are indices of a type `κ`, and both kinds of pointer are functions, updated pointwise.

* `Chain next start xs`: following `next` from `start` visits exactly `xs` and ends at a null
  pointer.  `Buckets.Holds l chain`: bucket `b` threads `chain b`, and no node is in two chains
  or twice in one.
* `pushFront`, `find` and `unlinkFrom` are the operations as C code writes them; `find` and
  `unlinkFrom` are loops, given a bound on their steps that `Chain.find` and
  `unlinkFrom_chain` show is enough when it is the chain's length.
* `holds_pushFront` and `holds_unlinkFrom`: the chains after the operations.
-/

set_option autoImplicit false

namespace Intrusive

variable {κ ι : Type}

/-- Following `next` from `start` visits exactly `xs`, then reaches a null pointer. -/
inductive Chain (next : ι → Option ι) : Option ι → List ι → Prop
  | nil : Chain next none []
  | cons {x : ι} {xs : List ι} : Chain next (next x) xs → Chain next (some x) (x :: xs)

namespace Chain

variable {next next' : ι → Option ι}

theorem cons_inv {x : ι} {s : Option ι} {xs : List ι} (h : Chain next s (x :: xs)) :
    s = some x ∧ Chain next (next x) xs := by
  cases h with
  | cons h' => exact ⟨rfl, h'⟩

/-- A chain only depends on the links of the nodes it visits. -/
theorem congr {s : Option ι} {xs : List ι} (h : Chain next s xs)
    (hc : ∀ x ∈ xs, next' x = next x) : Chain next' s xs := by
  induction h with
  | nil => exact .nil
  | @cons x xs _ ih =>
    refine .cons ?_
    rw [hc x List.mem_cons_self]
    exact ih fun y hy => hc y (List.mem_cons_of_mem _ hy)

/-- The first node of the chain that satisfies `p`, visiting at most `fuel` nodes. -/
def find (next : ι → Option ι) (p : ι → Bool) : Nat → Option ι → Option ι
  | 0, _ => none
  | _ + 1, none => none
  | fuel + 1, some x => if p x then some x else find next p fuel (next x)

/-- A walk as long as the chain finds what the chain's list finds. -/
theorem find_eq {s : Option ι} {xs : List ι} (h : Chain next s xs) (p : ι → Bool) {fuel : Nat}
    (hf : xs.length ≤ fuel) : find next p fuel s = xs.find? p := by
  induction h generalizing fuel with
  | nil =>
    cases fuel <;> rfl
  | @cons x xs _ ih =>
    obtain ⟨fuel, rfl⟩ : ∃ f, fuel = f + 1 := ⟨fuel - 1, by simp at hf; omega⟩
    rw [find, List.find?_cons]
    cases hp : p x with
    | true => rfl
    | false =>
      simp only [Bool.false_eq_true, if_false]
      exact ih (by simp at hf; omega)

end Chain

/-- Bucket heads and node links: one chain per bucket. -/
structure Buckets (κ ι : Type) where
  heads : κ → Option ι
  next : ι → Option ι

/-- A place that holds a pointer: a bucket's head, or a node's link. -/
inductive Cell (κ ι : Type)
  | head (b : κ)
  | next (x : ι)
  deriving DecidableEq

namespace Buckets

/-- The pointer a cell holds. -/
def read (l : Buckets κ ι) : Cell κ ι → Option ι
  | .head b => l.heads b
  | .next x => l.next x

/-- Bucket `b` threads `chain b`, and every node is in at most one chain, once. -/
structure Holds (l : Buckets κ ι) (chain : κ → List ι) : Prop where
  chain_eq : ∀ b, Chain l.next (l.heads b) (chain b)
  nodup : ∀ b, (chain b).Nodup
  disjoint : ∀ b b' x, x ∈ chain b → x ∈ chain b' → b = b'

variable {l : Buckets κ ι}

@[simp] theorem read_head (b : κ) : l.read (.head b) = l.heads b := rfl

@[simp] theorem read_next (x : ι) : l.read (.next x) = l.next x := rfl

theorem holds_empty (next : ι → Option ι) : (⟨fun _ => none, next⟩ : Buckets κ ι).Holds fun _ => [] :=
  ⟨fun _ => .nil, fun _ => List.nodup_nil, fun _ _ _ h => absurd h List.not_mem_nil⟩

variable [DecidableEq κ] [DecidableEq ι]

/-- Store a pointer into a cell. -/
def write (l : Buckets κ ι) : Cell κ ι → Option ι → Buckets κ ι
  | .head b, v => { l with heads := Function.update l.heads b v }
  | .next x, v => { l with next := Function.update l.next x v }

/-- Put `e` first in bucket `b`. -/
def pushFront (l : Buckets κ ι) (b : κ) (e : ι) : Buckets κ ι :=
  { heads := Function.update l.heads b (some e), next := Function.update l.next e (l.heads b) }

/-- Walk the cells from `c` until one holds `e`, then store `e`'s link there and clear `e`'s
link; at most `fuel` steps. -/
def unlinkFrom (l : Buckets κ ι) (e : ι) : Nat → Cell κ ι → Buckets κ ι
  | 0, _ => l
  | fuel + 1, c =>
    match l.read c with
    | none => l
    | some x =>
      if x = e then (l.write c (l.next e)).write (.next e) none
      else l.unlinkFrom e fuel (.next x)

theorem read_write (c d : Cell κ ι) (v : Option ι) :
    (l.write c v).read d = if d = c then v else l.read d := by
  cases c <;> cases d <;> simp [write, read, Function.update_apply]

@[simp] theorem pushFront_heads_self (b : κ) (e : ι) : (l.pushFront b e).heads b = some e :=
  Function.update_self ..

@[simp] theorem pushFront_next_self (b : κ) (e : ι) : (l.pushFront b e).next e = l.heads b :=
  Function.update_self ..

theorem pushFront_heads_of_ne {b b' : κ} (e : ι) (hb : b' ≠ b) :
    (l.pushFront b e).heads b' = l.heads b' :=
  Function.update_of_ne hb ..

theorem pushFront_next_of_ne (b : κ) {e x : ι} (hx : x ≠ e) : (l.pushFront b e).next x = l.next x :=
  Function.update_of_ne hx ..

omit [DecidableEq ι] in
theorem mem_update_cons (chain : κ → List ι) (b : κ) (e : ι) {b' : κ} {x : ι} :
    x ∈ Function.update chain b (e :: chain b) b' ↔ x ∈ chain b' ∨ (b' = b ∧ x = e) := by
  by_cases hb : b' = b
  · subst hb
    rw [Function.update_self, List.mem_cons]
    exact ⟨fun h => h.elim (fun h => Or.inr ⟨rfl, h⟩) Or.inl,
      fun h => h.elim Or.inr fun h => Or.inl h.2⟩
  · rw [Function.update_of_ne hb]
    exact ⟨Or.inl, fun h => h.resolve_right fun h' => hb h'.1⟩

/-- The chains with `e` taken out of the chain of bucket `b`, which holds it. -/
theorem Holds.mem_update_erase {chain : κ → List ι} (hl : l.Holds chain) {b : κ} {e : ι}
    (he : e ∈ chain b) {b' : κ} {x : ι} :
    x ∈ Function.update chain b ((chain b).erase e) b' ↔ x ∈ chain b' ∧ x ≠ e := by
  by_cases hb : b' = b
  · subst hb
    rw [Function.update_self, (hl.nodup b').mem_erase_iff]
    exact And.comm
  · rw [Function.update_of_ne hb]
    -- `e` is in bucket `b` only, so no other bucket's node is `e`
    exact ⟨fun hx => ⟨hx, fun hxe => hb (hl.disjoint _ _ _ (hxe ▸ hx) he)⟩, And.left⟩

theorem holds_pushFront {chain : κ → List ι} (hl : l.Holds chain) (b : κ) {e : ι}
    (he : ∀ b', e ∉ chain b') :
    (l.pushFront b e).Holds (Function.update chain b (e :: chain b)) where
  chain_eq b' := by
    have hc : ∀ b', ∀ x ∈ chain b', (l.pushFront b e).next x = l.next x := fun b' x hx =>
      pushFront_next_of_ne b fun hxe : x = e => he b' (hxe ▸ hx)
    by_cases hb : b' = b
    · subst hb
      rw [Function.update_self, pushFront_heads_self]
      refine .cons ?_
      rw [pushFront_next_self]
      exact (hl.chain_eq b').congr (hc b')
    · rw [Function.update_of_ne hb, pushFront_heads_of_ne e hb]
      exact (hl.chain_eq b').congr (hc b')
  nodup b' := by
    by_cases hb : b' = b
    · subst hb
      rw [Function.update_self]
      exact List.nodup_cons.mpr ⟨he b', hl.nodup b'⟩
    · rw [Function.update_of_ne hb]
      exact hl.nodup b'
  disjoint b₁ b₂ x h₁ h₂ := by
    rcases (mem_update_cons chain b e).mp h₁ with h₁ | ⟨hb₁, hx₁⟩ <;>
      rcases (mem_update_cons chain b e).mp h₂ with h₂ | ⟨hb₂, hx₂⟩
    · exact hl.disjoint _ _ _ h₁ h₂
    · exact absurd (hx₂ ▸ h₁) (he b₁)
    · exact absurd (hx₁ ▸ h₂) (he b₂)
    · exact hb₁.trans hb₂.symm

/-- The walk from a cell that reads a chain `ys` holding `e`: the cell then reads `ys` without
`e`, and no cell changes but that one and the links of `ys`. -/
theorem unlinkFrom_chain {e : ι} {fuel : Nat} {c : Cell κ ι} {ys : List ι}
    (hys : Chain l.next (l.read c) ys) (hnd : ys.Nodup) (he : e ∈ ys) (hf : ys.length ≤ fuel)
    (hc : ∀ y ∈ ys, c ≠ .next y) :
    Chain (l.unlinkFrom e fuel c).next ((l.unlinkFrom e fuel c).read c) (ys.erase e) ∧
      ∀ d, d ≠ c → (∀ y ∈ ys, d ≠ .next y) → (l.unlinkFrom e fuel c).read d = l.read d := by
  induction ys generalizing l c fuel with
  | nil => exact absurd he List.not_mem_nil
  | cons x zs ih =>
    obtain ⟨hx, hzs⟩ := hys.cons_inv
    obtain ⟨hxz, hndz⟩ := List.nodup_cons.mp hnd
    obtain ⟨fuel, rfl⟩ : ∃ f, fuel = f + 1 := ⟨fuel - 1, by simp at hf; omega⟩
    rw [unlinkFrom, hx]
    by_cases hxe : x = e
    · -- the cell reads `e`: it takes `e`'s link, and `e`'s own link is cleared
      subst hxe
      simp only [if_true, List.erase_cons_head]
      have hcx : c ≠ .next x := hc x List.mem_cons_self
      refine ⟨?_, fun d hdc hdy => ?_⟩
      · rw [read_write, if_neg hcx, read_write, if_pos rfl]
        refine hzs.congr fun y hy => ?_
        have hyx : y ≠ x := fun h => hxz (h ▸ hy)
        have h1 : (Cell.next y : Cell κ ι) ≠ .next x := by simpa using hyx
        have h2 : (Cell.next y : Cell κ ι) ≠ c := (hc y (List.mem_cons_of_mem _ hy)).symm
        have := read_write (l := l.write c (l.next x)) (.next x) (.next y) none
        rw [if_neg h1, read_write c (.next y), if_neg h2] at this
        simpa using this
      · rw [read_write, if_neg (hdy x List.mem_cons_self), read_write, if_neg hdc]
    · -- the walk moves on to `x`'s link
      simp only [hxe, if_false]
      have hez : e ∈ zs := (List.mem_cons.mp he).resolve_left (Ne.symm hxe)
      have hcz : ∀ y ∈ zs, (Cell.next x : Cell κ ι) ≠ .next y := fun y hy h =>
        hxz (by cases h; exact hy)
      obtain ⟨ih₁, ih₂⟩ := @ih l fuel (.next x) hzs hndz hez (by simp at hf; omega) hcz
      have hread : (l.unlinkFrom e fuel (.next x)).read c = some x := by
        rw [ih₂ c (hc x List.mem_cons_self) fun y hy => hc y (List.mem_cons_of_mem _ hy), hx]
      refine ⟨?_, fun d hdc hdy => ?_⟩
      · rw [hread, List.erase_cons_tail (by simpa using hxe)]
        exact .cons ih₁
      · exact ih₂ d (hdy x List.mem_cons_self) fun y hy => hdy y (List.mem_cons_of_mem _ hy)

/-- Unlinking a node from its bucket's chain, with a bound of at least the chain's length. -/
theorem holds_unlinkFrom {chain : κ → List ι} (hl : l.Holds chain) {b : κ} {e : ι}
    (he : e ∈ chain b) {fuel : Nat} (hf : (chain b).length ≤ fuel) :
    (l.unlinkFrom e fuel (.head b)).Holds (Function.update chain b ((chain b).erase e)) := by
  obtain ⟨hb, hframe⟩ := unlinkFrom_chain (c := .head b) (hl.chain_eq b) (hl.nodup b) he hf
    (fun _ _ h => by cases h)
  refine ⟨fun b' => ?_, fun b' => ?_, fun b₁ b₂ x h₁ h₂ => ?_⟩
  · by_cases hb' : b' = b
    · subst hb'
      simpa using hb
    · -- another bucket: its head and its nodes' links are not cells the walk writes
      have hnot : ∀ x ∈ chain b', x ∉ chain b := fun x hx hxb => hb' (hl.disjoint _ _ _ hx hxb)
      have hhead := hframe (.head b') (by simpa using hb') (fun _ _ h => by cases h)
      rw [Function.update_of_ne hb']
      simp only [read_head] at hhead
      rw [hhead]
      refine (hl.chain_eq b').congr fun x hx => ?_
      have := hframe (.next x) (fun h => by cases h) fun y hy h => by
        cases h
        exact hnot x hx hy
      simpa using this
  · by_cases hb' : b' = b
    · subst hb'
      simpa using (hl.nodup b').erase e
    · simpa [Function.update_of_ne hb'] using hl.nodup b'
  · exact hl.disjoint _ _ _ ((hl.mem_update_erase he).mp h₁).1 ((hl.mem_update_erase he).mp h₂).1

end Buckets

end Intrusive
