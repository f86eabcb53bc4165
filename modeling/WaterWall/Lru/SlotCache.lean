import Mathlib

/-!
# LRU caches of numbered slots

A slot cache holds at most `capacity` keys, each in its own slot `0, 1, …, capacity - 1`.  A key
that is asked for and not cached takes the next unused slot while there is one; once every slot is
used it takes the slot of the least recently used key, which is evicted.  Asking for a key, or for
the key in a slot, makes it the most recently used.

* `SlotCache.Wf`: keys are distinct, the slots in use are exactly `0, …, n - 1` for `n` keys, and
  `n ≤ capacity`.  A request keeps it (`wf_getOrCreate`).
* `getOrCreate_lookup`: the slot handed out for a key holds that key.
-/

set_option autoImplicit false

namespace Lru

/-- Mapping `f` over `l` commutes with erasing an element of `l`, when `f` tells the elements of
`l` apart. -/
theorem map_erase_of_inj_on {α β : Type} [BEq α] [LawfulBEq α] [BEq β] [LawfulBEq β] {f : α → β}
    {l : List α} (hf : ∀ x ∈ l, ∀ y ∈ l, f x = f y → x = y) {a : α} (ha : a ∈ l) :
    (l.erase a).map f = (l.map f).erase (f a) := by
  induction l with
  | nil => simp at ha
  | cons b rest ih =>
    by_cases hba : b = a
    · subst hba
      rw [List.erase_cons_head, List.map_cons, List.erase_cons_head]
    · have ha' : a ∈ rest := (List.mem_cons.1 ha).resolve_left (Ne.symm hba)
      have hfb : f b ≠ f a := fun h => hba (hf b List.mem_cons_self a ha h)
      rw [List.erase_cons_tail (by simpa using hba), List.map_cons, List.map_cons,
        List.erase_cons_tail (by simpa using hfb),
        ih (fun x hx y hy => hf x (List.mem_cons_of_mem b hx) y (List.mem_cons_of_mem b hy)) ha']

/-- A cache of keys in numbered slots, the least recently used entry first. -/
structure SlotCache (κ : Type) where
  capacity : Nat
  entries : List (κ × Nat)

namespace SlotCache

variable {κ : Type} (c : SlotCache κ)

/-- Keys are distinct, the slots in use are `0, …, n - 1` for `n` entries, and `n ≤ capacity`. -/
structure Wf : Prop where
  keys_nodup : (c.entries.map Prod.fst).Nodup
  slots_perm : (c.entries.map Prod.snd).Perm (List.range c.entries.length)
  length_le : c.entries.length ≤ c.capacity

variable {c}

theorem Wf.slots_nodup (hw : c.Wf) : (c.entries.map Prod.snd).Nodup :=
  hw.slots_perm.nodup_iff.2 List.nodup_range

theorem Wf.slot_lt_length (hw : c.Wf) {e : κ × Nat} (he : e ∈ c.entries) : e.2 < c.entries.length :=
  List.mem_range.1 (hw.slots_perm.subset (List.mem_map_of_mem he))

theorem Wf.slot_lt (hw : c.Wf) {e : κ × Nat} (he : e ∈ c.entries) : e.2 < c.capacity :=
  Nat.lt_of_lt_of_le (hw.slot_lt_length he) hw.length_le

theorem Wf.of_perm {c' : SlotCache κ} (hw : c.Wf) (hp : c'.entries.Perm c.entries)
    (hcap : c'.capacity = c.capacity) : c'.Wf where
  keys_nodup := (hp.map Prod.fst).nodup_iff.2 hw.keys_nodup
  slots_perm := by
    rw [hp.length_eq]
    exact (hp.map Prod.snd).trans hw.slots_perm
  length_le := by
    rw [hp.length_eq, hcap]
    exact hw.length_le

/-- Evicting the first entry and caching `k` in its slot at the back. -/
theorem Wf.evict (hw : c.Wf) {k₀ k : κ} {i : Nat} {rest : List (κ × Nat)}
    (hc : c.entries = (k₀, i) :: rest) (hk : k ∉ rest.map Prod.fst) :
    ({ c with entries := rest ++ [(k, i)] } : SlotCache κ).Wf := by
  have hkeys := hw.keys_nodup
  have hslots := hw.slots_perm
  have hlen := hw.length_le
  rw [hc] at hkeys hslots hlen
  refine ⟨?_, ?_, ?_⟩
  · rw [List.map_append, List.map_singleton, List.nodup_append]
    refine ⟨(List.nodup_cons.1 hkeys).2, List.nodup_singleton k, fun a ha b hb => ?_⟩
    rw [List.mem_singleton.1 hb]
    rintro rfl
    exact hk ha
  · -- the slots are the old ones, the reused slot moved from the front to the back
    rw [List.map_append, List.map_singleton, List.length_append, List.length_singleton]
    exact (List.perm_append_singleton i _).trans hslots
  · rw [List.length_append, List.length_singleton]
    exact hlen

variable (c) in
/-- Cache a key that is not cached: in the next unused slot while there is one, else in the slot of
the least recently used key, evicting it.  A cache of no slots caches nothing. -/
def insert (k : κ) : SlotCache κ × Option Nat :=
  if c.capacity = 0 then (c, none)
  else if c.entries.length < c.capacity then
    ({ c with entries := c.entries ++ [(k, c.entries.length)] }, some c.entries.length)
  else
    match c.entries with
    | [] => (c, none)
    | (_, i) :: rest => ({ c with entries := rest ++ [(k, i)] }, some i)

theorem insert_of_zero (hcap : c.capacity = 0) (k : κ) : c.insert k = (c, none) := by
  rw [insert, if_pos hcap]

theorem insert_of_lt (hcap : c.capacity ≠ 0) (hlt : c.entries.length < c.capacity) (k : κ) :
    c.insert k =
      ({ c with entries := c.entries ++ [(k, c.entries.length)] }, some c.entries.length) := by
  rw [insert, if_neg hcap, if_pos hlt]

theorem insert_of_full (hcap : c.capacity ≠ 0) (hle : c.capacity ≤ c.entries.length) {k₀ : κ}
    {i : Nat} {rest : List (κ × Nat)} (hc : c.entries = (k₀, i) :: rest) (k : κ) :
    c.insert k = ({ c with entries := rest ++ [(k, i)] }, some i) := by
  rw [insert, if_neg hcap, if_neg (Nat.not_lt.2 hle), hc]

/-- What `insert` can do: nothing in a cache of no slots, take the next slot, or evict the first
entry and take its slot. -/
theorem insert_cases (c : SlotCache κ) (k : κ) :
    (c.capacity = 0 ∧ c.insert k = (c, none)) ∨
    (c.entries.length < c.capacity ∧
      c.insert k = ({ c with entries := c.entries ++ [(k, c.entries.length)] }, some c.entries.length)) ∨
    (∃ k₀ i rest, c.capacity ≤ c.entries.length ∧ c.entries = (k₀, i) :: rest ∧
      c.insert k = ({ c with entries := rest ++ [(k, i)] }, some i)) := by
  by_cases hcap : c.capacity = 0
  · exact Or.inl ⟨hcap, insert_of_zero hcap k⟩
  by_cases hlen : c.entries.length < c.capacity
  · exact Or.inr (Or.inl ⟨hlen, insert_of_lt hcap hlen k⟩)
  have hle : c.capacity ≤ c.entries.length := Nat.le_of_not_lt hlen
  rcases hc : c.entries with _ | ⟨⟨k₀, i⟩, rest⟩
  · -- a full cache of some slots has entries
    rw [hc, List.length_nil] at hle
    omega
  · exact Or.inr (Or.inr ⟨k₀, i, rest, hc ▸ hle, rfl, insert_of_full hcap hle hc k⟩)

variable (c) in
/-- The entry in slot `i`. -/
def findSlot (i : Nat) : Option (κ × Nat) := c.entries.find? fun e => decide (e.2 = i)

theorem findSlot_eq_none_iff {i : Nat} : c.findSlot i = none ↔ ∀ e ∈ c.entries, e.2 ≠ i := by
  simp [findSlot, List.find?_eq_none]

theorem findSlot_eq_some_iff (hw : c.Wf) {i : Nat} {e : κ × Nat} :
    c.findSlot i = some e ↔ e ∈ c.entries ∧ e.2 = i := by
  constructor
  · intro h
    exact ⟨List.mem_of_find?_eq_some h, by simpa using List.find?_some h⟩
  · rintro ⟨he, rfl⟩
    cases hf : c.findSlot e.2 with
    | none => exact absurd rfl ((findSlot_eq_none_iff.1 hf) e he)
    | some e' =>
      have he' := List.mem_of_find?_eq_some hf
      have hi : e'.2 = e.2 := by simpa using List.find?_some hf
      rw [List.inj_on_of_nodup_map hw.slots_nodup he' he hi]

variable [DecidableEq κ] (c)

/-- The entry of key `k`. -/
def find (k : κ) : Option (κ × Nat) := c.entries.find? fun e => decide (e.1 = k)

/-- Make entry `e` the most recently used. -/
def touch (e : κ × Nat) : SlotCache κ := { c with entries := c.entries.erase e ++ [e] }

/-- The slot of key `k`, caching it if it is not. -/
def getOrCreate (k : κ) : SlotCache κ × Option Nat :=
  match c.find k with
  | some e => (c.touch e, some e.2)
  | none => c.insert k

/-- The key in slot `i`, if any. -/
def lookup (i : Nat) : SlotCache κ × Option κ :=
  match c.findSlot i with
  | some e => (c.touch e, some e.1)
  | none => (c, none)

variable {c}

theorem getOrCreate_of_find_some {k : κ} {e : κ × Nat} (hf : c.find k = some e) :
    c.getOrCreate k = (c.touch e, some e.2) := by
  rw [getOrCreate, hf]

theorem getOrCreate_of_find_none {k : κ} (hf : c.find k = none) : c.getOrCreate k = c.insert k := by
  rw [getOrCreate, hf]

theorem lookup_of_findSlot_some {i : Nat} {e : κ × Nat} (hf : c.findSlot i = some e) :
    c.lookup i = (c.touch e, some e.1) := by
  rw [lookup, hf]

theorem lookup_of_findSlot_none {i : Nat} (hf : c.findSlot i = none) : c.lookup i = (c, none) := by
  rw [lookup, hf]

theorem find_eq_none_iff {k : κ} : c.find k = none ↔ ∀ e ∈ c.entries, e.1 ≠ k := by
  simp [find, List.find?_eq_none]

theorem find_eq_some_iff (hw : c.Wf) {k : κ} {e : κ × Nat} :
    c.find k = some e ↔ e ∈ c.entries ∧ e.1 = k := by
  constructor
  · intro h
    exact ⟨List.mem_of_find?_eq_some h, by simpa using List.find?_some h⟩
  · rintro ⟨he, rfl⟩
    cases hf : c.find e.1 with
    | none => exact absurd rfl ((find_eq_none_iff.1 hf) e he)
    | some e' =>
      -- two entries of one key are one entry
      have he' := List.mem_of_find?_eq_some hf
      have hk : e'.1 = e.1 := by simpa using List.find?_some hf
      rw [List.inj_on_of_nodup_map hw.keys_nodup he' he hk]

/-! ## Every operation keeps the cache well formed -/

theorem touch_perm {e : κ × Nat} (he : e ∈ c.entries) : (c.touch e).entries.Perm c.entries :=
  (List.perm_append_singleton e _).trans (List.perm_cons_erase he).symm

/-- Touching an entry of a cache decoded from a list is decoding the list with that element moved
to the back. -/
theorem touch_map {α : Type} [BEq α] [LawfulBEq α] {f : α → κ × Nat} {l : List α}
    (hf : ∀ x ∈ l, ∀ y ∈ l, f x = f y → x = y) {a : α} (ha : a ∈ l) (cap : Nat) :
    (⟨cap, (l.erase a ++ [a]).map f⟩ : SlotCache κ) = (⟨cap, l.map f⟩ : SlotCache κ).touch (f a) := by
  rw [List.map_append, List.map_singleton, map_erase_of_inj_on hf ha]
  rfl

theorem wf_touch (hw : c.Wf) {e : κ × Nat} (he : e ∈ c.entries) : (c.touch e).Wf :=
  hw.of_perm (touch_perm he) rfl

theorem wf_insert (hw : c.Wf) {k : κ} (hk : c.find k = none) : (c.insert k).1.Wf := by
  have hk' : k ∉ c.entries.map Prod.fst := by
    intro h
    obtain ⟨e, he, rfl⟩ := List.mem_map.1 h
    exact (find_eq_none_iff.1 hk) e he rfl
  rcases insert_cases c k with ⟨-, heq⟩ | ⟨hlen, heq⟩ | ⟨k₀, i, rest, -, hc, heq⟩ <;> rw [heq]
  · exact hw
  · -- a fresh slot: the slots in use grow by the next number
    refine ⟨?_, ?_, ?_⟩
    · rw [List.map_append, List.map_singleton, List.nodup_append]
      refine ⟨hw.keys_nodup, List.nodup_singleton k, fun a ha b hb => ?_⟩
      rw [List.mem_singleton.1 hb]
      rintro rfl
      exact hk' ha
    · rw [List.map_append, List.length_append, List.length_singleton, List.range_succ]
      exact hw.slots_perm.append_right _
    · rw [List.length_append, List.length_singleton]
      exact hlen
  · rw [hc, List.map_cons, List.mem_cons, not_or] at hk'
    exact hw.evict hc hk'.2

theorem wf_getOrCreate (hw : c.Wf) (k : κ) : (c.getOrCreate k).1.Wf := by
  cases hf : c.find k with
  | none => rw [getOrCreate_of_find_none hf]; exact wf_insert hw hf
  | some e => rw [getOrCreate_of_find_some hf]; exact wf_touch hw ((find_eq_some_iff hw).1 hf).1

@[simp] theorem capacity_getOrCreate (k : κ) : (c.getOrCreate k).1.capacity = c.capacity := by
  cases hf : c.find k with
  | some e => rw [getOrCreate_of_find_some hf]; rfl
  | none =>
    rw [getOrCreate_of_find_none hf]
    rcases insert_cases c k with ⟨-, heq⟩ | ⟨-, heq⟩ | ⟨k₀, j, rest, -, -, heq⟩ <;> rw [heq]

@[simp] theorem capacity_lookup (i : Nat) : (c.lookup i).1.capacity = c.capacity := by
  cases hf : c.findSlot i with
  | some e => rw [lookup_of_findSlot_some hf]; rfl
  | none => rw [lookup_of_findSlot_none hf]

/-! ## What the cache is for -/

theorem mem_getOrCreate_of_eq_some (hw : c.Wf) {k : κ} {i : Nat}
    (h : (c.getOrCreate k).2 = some i) : (k, i) ∈ (c.getOrCreate k).1.entries := by
  cases hf : c.find k with
  | some e =>
    rw [getOrCreate_of_find_some hf] at h ⊢
    obtain ⟨-, rfl⟩ := (find_eq_some_iff hw).1 hf
    cases h
    simp [touch]
  | none =>
    rw [getOrCreate_of_find_none hf] at h ⊢
    rcases insert_cases c k with ⟨-, heq⟩ | ⟨-, heq⟩ | ⟨k₀, j, rest, -, -, heq⟩ <;>
      rw [heq] at h ⊢ <;> cases h
    · simp
    · simp

/-- **A handed-out slot is found again.**  Looking up the slot a request for `k` handed out gives
`k`. -/
theorem lookup_getOrCreate (hw : c.Wf) {k : κ} {i : Nat} (h : (c.getOrCreate k).2 = some i) :
    ((c.getOrCreate k).1.lookup i).2 = some k := by
  have hmem := mem_getOrCreate_of_eq_some hw h
  have hfind := (findSlot_eq_some_iff (wf_getOrCreate hw k)).2 ⟨hmem, rfl⟩
  rw [lookup_of_findSlot_some hfind]

end SlotCache

end Lru
