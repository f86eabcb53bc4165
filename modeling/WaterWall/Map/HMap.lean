import Mathlib

/-!
# Hash maps, by their entries

A hash map with open addressing keeps each key at most once.  What a program sees of it is
`find`, an `insert` that leaves a key already there alone and reports whether it inserted,
`erase`, and a walk over the entries in the table's order.  `HMap κ ν` is the list of entries in
that order, with the distinctness of the keys as a field, so that a map with a key twice cannot
be built.  Where the walk starts and how erasing reorders the table are not modelled: `insert`
appends and `erase` keeps the order of the rest, and what is proved of a program from them does
not depend on the order.

* `find_eq_some_iff`: `find` returns the value of the entry of the key.
* `insert_of_find_none`, `insert_of_find_some`, `mem_erase`, `mem_set`: the entries after an
  update, where `set` writes the value of a key that has an entry, in place.
-/

set_option autoImplicit false

/-- The entries of a hash map in the table's order, each key at most once. -/
structure HMap (κ ν : Type) where
  entries : List (κ × ν)
  nodup : (entries.map Prod.fst).Nodup

namespace HMap

variable {κ ν : Type}

/-- The map with no entries. -/
def empty : HMap κ ν := ⟨[], List.nodup_nil⟩

@[simp] theorem entries_empty : (empty : HMap κ ν).entries = [] := rfl

theorem eq_of_mem {m : HMap κ ν} {k : κ} {v v' : ν} (h : (k, v) ∈ m.entries)
    (h' : (k, v') ∈ m.entries) : v = v' := by
  have := List.inj_on_of_nodup_map m.nodup h h' rfl
  exact (Prod.mk.inj this).2

variable [DecidableEq κ]

/-- The value of the entry of `k`. -/
def find (m : HMap κ ν) (k : κ) : Option ν := m.entries.lookup k

theorem nodup_append_of_find_none {m : HMap κ ν} {k : κ} (h : m.find k = none) (v : ν) :
    ((m.entries ++ [(k, v)]).map Prod.fst).Nodup := by
  rw [List.map_append, List.nodup_append]
  refine ⟨m.nodup, List.nodup_singleton _, fun a ha b hb hab => ?_⟩
  rw [find, List.lookup_eq_none_iff] at h
  obtain ⟨e, he, rfl⟩ := List.mem_map.1 ha
  simp only [List.map_cons, List.map_nil, List.mem_singleton] at hb
  have := h e he
  simp_all

/-- Add an entry for `k` unless there is one; the flag says whether the entry was added. -/
def insert (m : HMap κ ν) (k : κ) (v : ν) : HMap κ ν × Bool :=
  match h : m.find k with
  | some _ => (m, false)
  | none => (⟨m.entries ++ [(k, v)], nodup_append_of_find_none h v⟩, true)

/-- Drop the entry of `k`, if any. -/
def erase (m : HMap κ ν) (k : κ) : HMap κ ν :=
  ⟨m.entries.filter (fun e => e.1 ≠ k),
    m.nodup.sublist (List.Sublist.map Prod.fst List.filter_sublist)⟩

/-- The entry `e`, with the value `v` if it is the entry of `k`. -/
def setEntry (k : κ) (v : ν) (e : κ × ν) : κ × ν := if e.1 = k then (k, v) else e

theorem map_fst_setEntry (entries : List (κ × ν)) (k : κ) (v : ν) :
    (entries.map (setEntry k v)).map Prod.fst = entries.map Prod.fst := by
  rw [List.map_map]
  apply List.map_congr_left
  intro e _
  by_cases h : e.1 = k <;> simp [setEntry, h]

/-- Write `v` as the value of the entry of `k`, as a program writes through the reference that
`find` gave it; a key without an entry gets none. -/
def set (m : HMap κ ν) (k : κ) (v : ν) : HMap κ ν :=
  ⟨m.entries.map (setEntry k v), by rw [map_fst_setEntry]; exact m.nodup⟩

variable {m : HMap κ ν} {k : κ} {v : ν}

theorem find_eq_some_iff : m.find k = some v ↔ (k, v) ∈ m.entries := by
  constructor
  · intro h
    obtain ⟨l₁, l₂, he, -⟩ := List.lookup_eq_some_iff.1 h
    rw [he]
    exact List.mem_append_right _ List.mem_cons_self
  · intro h
    obtain ⟨e, he, hk⟩ : ∃ e ∈ m.entries, (k == e.1) = true := by
      exact ⟨(k, v), h, beq_self_eq_true k⟩
    have hs : (m.find k).isSome := List.lookup_isSome_iff.2 ⟨e, he, hk⟩
    obtain ⟨v', hv'⟩ := Option.isSome_iff_exists.1 hs
    obtain ⟨l₁, l₂, hl, -⟩ := List.lookup_eq_some_iff.1 hv'
    have hmem : (k, v') ∈ m.entries := by
      rw [hl]
      exact List.mem_append_right _ List.mem_cons_self
    rw [hv', eq_of_mem hmem h]

theorem find_eq_none_iff : m.find k = none ↔ ∀ v, (k, v) ∉ m.entries := by
  rw [Option.eq_none_iff_forall_ne_some]
  simp only [ne_eq, find_eq_some_iff]

theorem insert_of_find_some (h : m.find k = some v) (v' : ν) : m.insert k v' = (m, false) := by
  rw [insert]
  split
  · rfl
  · simp_all

theorem insert_of_find_none (h : m.find k = none) :
    (m.insert k v).2 = true ∧ (m.insert k v).1.entries = m.entries ++ [(k, v)] := by
  rw [insert]
  split
  · simp_all
  · exact ⟨rfl, rfl⟩

@[simp] theorem mem_erase {e : κ × ν} : e ∈ (m.erase k).entries ↔ e ∈ m.entries ∧ e.1 ≠ k := by
  simp [erase]

/-- After a write, the entries are the other keys' and the written one. -/
theorem mem_set {e : κ × ν} (h : e ∈ (m.set k v).entries) : (e ∈ m.entries ∧ e.1 ≠ k) ∨ e = (k, v) := by
  obtain ⟨e', he', rfl⟩ := List.mem_map.1 h
  by_cases hk : e'.1 = k
  · exact .inr (by simp [setEntry, hk])
  · exact .inl (by simp [setEntry, hk, he'])

end HMap
