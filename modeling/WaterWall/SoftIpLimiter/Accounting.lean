import WaterWall.SoftIpLimiter.Table

/-!
# What SoftIpLimiter's table guarantees, and what it does not

Each call of the table runs inside one section of its lock, and `TableReach` is every table an
empty one can become by any sequence of such sections, with any identity, key and clock reading
in each: every interleaving of the line calls of any number of workers is one of them
(`TableReach.admitLine`, `TableReach.touchLine`, `TableReach.releaseLine`).

* `TableInv.reach`: with a limit of at least one, every entry has between one and `limit` rows,
  with pairwise distinct keys; Touch and Release erase an entry rather than leave it empty.
* `softiplimiterTableAdmit_eq_false_iff`: an admission is refused exactly when, among the rows of
  the identity not expired, none is the IP's and there are at least `limit`: in a reachable table,
  `limit` distinct other IPs (`softiplimiterTableAdmit_refused`).
* `softiplimiterReleaseLine_removesLaterRow`: a release finds its row by IP only.  A line whose
  row was pruned while it was idle takes away the row of a later line from the same IP, which
  stays admitted with no row: the limit no longer counts its IP, and its next touch fails.
-/

set_option autoImplicit false

namespace WaterWall.SoftIpLimiter

open SwapRemove

/-! ## The invariant -/

/-- The rows of an entry fit the limit and no IP has two. -/
structure RowsInv (limit : Nat) (entry : IdentityEntry) : Prop where
  ip_count_le : entry.ip_count ≤ limit
  keys_nodup : (entry.ips.map IpRow.ip_key).Nodup

/-- What every entry of the table keeps between two sections: its rows fit, and there is one. -/
structure EntryInv (limit : Nat) (entry : IdentityEntry) : Prop extends RowsInv limit entry where
  ip_count_pos : 0 < entry.ip_count

/-- Every entry of the table keeps `EntryInv`. -/
def TableInv (limit : Nat) (table : IdentityMap) : Prop := ∀ e ∈ table.entries, EntryInv limit e.2

section Rows

variable {limit : Nat} {entry : IdentityEntry}

theorem RowsInv.empty : RowsInv limit ⟨[]⟩ := ⟨Nat.zero_le _, List.nodup_nil⟩

/-- Pruning keeps the rows fitting and distinct; it may leave none. -/
theorem RowsInv.prune (h : RowsInv limit entry) (tolerance_ms now_ms : UInt64) :
    RowsInv limit (softiplimiterPruneEntry entry tolerance_ms now_ms) where
  ip_count_le := by
    rw [softiplimiterPruneEntry_ip_count]
    exact Nat.le_trans (List.length_filter_le _ _) h.ip_count_le
  keys_nodup := by
    have hperm := (softiplimiterPruneEntry_perm tolerance_ms now_ms entry).map IpRow.ip_key
    exact hperm.nodup_iff.2 (h.keys_nodup.sublist (List.filter_sublist.map _))

/-- Writing a row's counters keeps the rows as they were. -/
theorem RowsInv.set (h : RowsInv limit entry) (i : Fin entry.ips.length) {row : IpRow}
    (hkey : row.ip_key = (entry.ips.get i).ip_key) : RowsInv limit ⟨entry.ips.set i row⟩ where
  ip_count_le := by simpa [IdentityEntry.ip_count] using h.ip_count_le
  keys_nodup := by rw [keys_set_row _ i hkey]; exact h.keys_nodup

/-- A row added for a new IP below the limit. -/
theorem RowsInv.append (h : RowsInv limit entry) (hlt : entry.ip_count < limit) {row : IpRow}
    (hnew : row.ip_key ∉ entry.ips.map IpRow.ip_key) : RowsInv limit ⟨entry.ips ++ [row]⟩ where
  ip_count_le := by
    simp only [IdentityEntry.ip_count, List.length_append, List.length_singleton]
    exact hlt
  keys_nodup := by
    rw [List.map_append, List.map_singleton, List.nodup_append]
    refine ⟨h.keys_nodup, List.nodup_singleton _, fun a ha b hb => ?_⟩
    rw [List.mem_singleton.1 hb]
    exact fun hab => hnew (hab ▸ ha)

theorem RowsInv.removeAt (h : RowsInv limit entry) (i : Fin entry.ips.length) :
    RowsInv limit (softiplimiterEntryRemoveAt entry i) where
  ip_count_le := by
    simp only [softiplimiterEntryRemoveAt, IdentityEntry.ip_count, length_swapRemove]
    exact Nat.le_trans (Nat.sub_le _ _) h.ip_count_le
  keys_nodup := by
    have hperm := (swapRemove_perm entry.ips i).map IpRow.ip_key
    exact hperm.nodup_iff.2 (h.keys_nodup.sublist ((List.eraseIdx_sublist _ _).map _))

theorem RowsInv.release (h : RowsInv limit entry) (ip_key : IpKey) :
    RowsInv limit (releaseRow entry ip_key) := by
  unfold releaseRow
  split
  · dsimp only
    split
    · exact h.set _ rfl
    · exact h.removeAt _
  · exact h

/-- An entry whose rows fit, with one row at least, keeps the invariant. -/
theorem RowsInv.entryInv (h : RowsInv limit entry) (hpos : entry.ip_count ≠ 0) : EntryInv limit entry :=
  { h with ip_count_pos := Nat.pos_of_ne_zero hpos }

end Rows

section Table

variable {limit : Nat} {table : IdentityMap} {identifier : UInt64}

theorem TableInv.empty : TableInv limit HMap.empty := by
  intro e he
  simp at he

/-- The rows of the identity's entry, or of the empty one it would get. -/
theorem TableInv.rows_find (ht : TableInv limit table) (identifier : UInt64) :
    RowsInv limit ((table.find identifier).getD ⟨[]⟩) := by
  cases hf : table.find identifier with
  | none => exact RowsInv.empty
  | some entry => exact (ht _ (HMap.find_eq_some_iff.1 hf)).toRowsInv

theorem TableInv.set (ht : TableInv limit table) {entry : IdentityEntry} (he : EntryInv limit entry) :
    TableInv limit (table.set identifier entry) := by
  intro e hmem
  rcases HMap.mem_set hmem with ⟨hmem, -⟩ | rfl
  · exact ht e hmem
  · exact he

theorem TableInv.erase (ht : TableInv limit table) : TableInv limit (table.erase identifier) :=
  fun e hmem => ht e (HMap.mem_erase.1 hmem).1

/-- The entry an admission writes replaces the empty one it may have inserted. -/
theorem TableInv.set_findOrInsert (ht : TableInv limit table) {entry : IdentityEntry}
    (he : EntryInv limit entry) : TableInv limit ((findOrInsert table identifier).1.set identifier entry) := by
  intro e hmem
  rcases HMap.mem_set hmem with ⟨hmem, hne⟩ | rfl
  · exact ht e ((mem_findOrInsert hmem).resolve_right hne)
  · exact he

/-- An entry written back, or erased once it has no row. -/
theorem TableInv.writeBack (ht : TableInv limit table) {entry : IdentityEntry} (he : RowsInv limit entry) :
    TableInv limit (if entry.ip_count = 0 then table.erase identifier else table.set identifier entry) := by
  split
  · exact ht.erase
  · rename_i hpos
    exact ht.set (he.entryInv hpos)

end Table

/-! ## Each section keeps the invariant -/

section Steps

variable {limit : UInt8} {table : IdentityMap} (identifier : UInt64) (ip_key : IpKey)
  (tolerance_ms now_ms : UInt64)

theorem TableInv.admit (hlimit : 0 < limit.toNat) (ht : TableInv limit.toNat table) :
    TableInv limit.toNat (softiplimiterTableAdmit table identifier ip_key limit tolerance_ms now_ms).2.1 := by
  have hrows : RowsInv limit.toNat
      (softiplimiterPruneEntry (findOrInsert table identifier).2 tolerance_ms now_ms) := by
    rw [findOrInsert_snd]
    exact (ht.rows_find identifier).prune tolerance_ms now_ms
  unfold softiplimiterTableAdmit
  dsimp only
  split
  · -- the IP has a row: it counts one more line
    rename_i i _
    refine ht.set_findOrInsert ((hrows.set i (by rfl)).entryInv ?_)
    simpa [IdentityEntry.ip_count] using Nat.pos_iff_ne_zero.1 i.pos
  · rename_i hnone
    split
    · -- refused: the pruned entry has at least `limit` rows, so one at least
      rename_i hge
      exact ht.set_findOrInsert (hrows.entryInv (by omega))
    · rename_i hlt
      have hnew := softiplimiterFindIpRow_eq_none_iff.1 hnone
      exact ht.set_findOrInsert ((hrows.append (by omega) hnew).entryInv (by simp [IdentityEntry.ip_count]))

theorem TableInv.touch {limit' : Nat} (ht : TableInv limit' table) :
    TableInv limit' (softiplimiterTableTouch table identifier ip_key limit tolerance_ms now_ms).2.1 := by
  unfold softiplimiterTableTouch
  split
  · exact ht
  · rename_i entry hfind
    dsimp only
    have hrows := (ht _ (HMap.find_eq_some_iff.1 hfind)).toRowsInv.prune tolerance_ms now_ms
    split
    · exact ht.writeBack hrows
    · rename_i i _
      refine ht.set ((hrows.set i (by rfl)).entryInv ?_)
      simpa [IdentityEntry.ip_count] using Nat.pos_iff_ne_zero.1 i.pos

theorem TableInv.touchShared {limit' : Nat} (ht : TableInv limit' table) :
    TableInv limit' (softiplimiterTableTouchShared table identifier ip_key tolerance_ms now_ms).2 := by
  unfold softiplimiterTableTouchShared
  split
  · exact ht
  · rename_i entry hfind
    have he := ht _ (HMap.find_eq_some_iff.1 hfind)
    split
    · exact ht
    · rename_i i _
      split
      · exact ht
      · refine ht.set ((he.toRowsInv.set i (by rfl)).entryInv ?_)
        simpa [IdentityEntry.ip_count] using Nat.pos_iff_ne_zero.1 he.ip_count_pos

theorem TableInv.release {limit' : Nat} (ht : TableInv limit' table) :
    TableInv limit' (softiplimiterTableRelease table identifier ip_key tolerance_ms now_ms) := by
  unfold softiplimiterTableRelease
  split
  · exact ht
  · rename_i entry hfind
    have hrows := (ht _ (HMap.find_eq_some_iff.1 hfind)).toRowsInv.prune tolerance_ms now_ms
    exact ht.writeBack (hrows.release ip_key)

end Steps

/-! ## Runs -/

/-- The tables an empty one becomes by any sequence of the table's lock sections, each with any
identity, key and clock reading. -/
inductive TableReach (limit : UInt8) (tolerance_ms : UInt64) : IdentityMap → Prop
  | empty : TableReach limit tolerance_ms HMap.empty
  | admitIp {table : IdentityMap} (identifier : UInt64) (ip_key : IpKey) (now_ms : UInt64) :
      TableReach limit tolerance_ms table →
      TableReach limit tolerance_ms
        (softiplimiterTableAdmit table identifier ip_key limit tolerance_ms now_ms).2.1
  | touchShared {table : IdentityMap} (identifier : UInt64) (ip_key : IpKey) (now_ms : UInt64) :
      TableReach limit tolerance_ms table →
      TableReach limit tolerance_ms
        (softiplimiterTableTouchShared table identifier ip_key tolerance_ms now_ms).2
  | touch {table : IdentityMap} (identifier : UInt64) (ip_key : IpKey) (now_ms : UInt64) :
      TableReach limit tolerance_ms table →
      TableReach limit tolerance_ms
        (softiplimiterTableTouch table identifier ip_key limit tolerance_ms now_ms).2.1
  | release {table : IdentityMap} (identifier : UInt64) (ip_key : IpKey) (now_ms : UInt64) :
      TableReach limit tolerance_ms table →
      TableReach limit tolerance_ms (softiplimiterTableRelease table identifier ip_key tolerance_ms now_ms)

/-- The invariant holds along every run, by induction on it. -/
theorem TableInv.reach {limit : UInt8} {tolerance_ms : UInt64} {table : IdentityMap}
    (hlimit : 0 < limit.toNat) (r : TableReach limit tolerance_ms table) : TableInv limit.toNat table := by
  induction r with
  | empty => exact TableInv.empty
  | admitIp identifier ip_key now_ms _ ih => exact ih.admit identifier ip_key tolerance_ms now_ms hlimit
  | touchShared identifier ip_key now_ms _ ih => exact ih.touchShared identifier ip_key tolerance_ms now_ms
  | touch identifier ip_key now_ms _ ih => exact ih.touch identifier ip_key tolerance_ms now_ms
  | release identifier ip_key now_ms _ ih => exact ih.release identifier ip_key tolerance_ms now_ms

section Lines

variable {ts : TState} (ls : LineState) (now_ms : UInt64)

/-- The line calls run the table's sections on the limiter's table. -/
theorem TableReach.admitLine (r : TableReach ts.simultaneous_user_limit ts.tolerance_ms ts.table)
    (source : Option IpKey) :
    TableReach ts.simultaneous_user_limit ts.tolerance_ms (softiplimiterAdmitLine ts ls source now_ms).2.1.table := by
  unfold softiplimiterAdmitLine
  dsimp only
  split
  · exact r
  · exact r.admitIp _ _ now_ms

theorem TableReach.touchLine (r : TableReach ts.simultaneous_user_limit ts.tolerance_ms ts.table) :
    TableReach ts.simultaneous_user_limit ts.tolerance_ms (softiplimiterTouchLine ts ls now_ms).2.1.table := by
  unfold softiplimiterTouchLine
  dsimp only
  split
  · exact r
  · split
    · exact r.touchShared _ _ now_ms
    · exact (r.touchShared _ _ now_ms).touch _ _ now_ms

theorem TableReach.releaseLine (r : TableReach ts.simultaneous_user_limit ts.tolerance_ms ts.table) :
    TableReach ts.simultaneous_user_limit ts.tolerance_ms (softiplimiterReleaseLine ts ls now_ms).1.table := by
  unfold softiplimiterReleaseLine
  split
  · exact r
  · exact r.release _ _ now_ms

end Lines

/-! ## When an admission is refused -/

section Admit

variable (table : IdentityMap) (identifier : UInt64) (ip_key : IpKey) (limit : UInt8)
  (tolerance_ms now_ms : UInt64)

/-- An admission is refused exactly when the IP has no row among the identity's rows not expired,
and those are at least `limit`. -/
theorem softiplimiterTableAdmit_eq_false_iff :
    (softiplimiterTableAdmit table identifier ip_key limit tolerance_ms now_ms).1 = false ↔
      let live := liveRows ((table.find identifier).getD ⟨[]⟩) tolerance_ms now_ms
      ip_key ∉ live.map IpRow.ip_key ∧ limit.toNat ≤ live.length := by
  -- the admission looks at the rows of the entry `findOrInsert` gives, pruned
  rw [← findOrInsert_snd]
  set entry := (findOrInsert table identifier).2
  have hperm := softiplimiterPruneEntry_perm tolerance_ms now_ms entry
  have hkeys := (hperm.map IpRow.ip_key).mem_iff (a := ip_key)
  have hcount := hperm.length_eq
  unfold softiplimiterTableAdmit
  dsimp only
  split
  · -- the IP's row is among those not expired
    rename_i i hi
    have hmem : ip_key ∈ (softiplimiterPruneEntry entry tolerance_ms now_ms).ips.map IpRow.ip_key :=
      List.mem_map.2 ⟨_, List.getElem_mem i.isLt, softiplimiterFindIpRow_key hi⟩
    simp only [Bool.true_eq_false, false_iff, not_and]
    exact fun hnot => absurd (hkeys.1 hmem) hnot
  · rename_i hnone
    have hnot := softiplimiterFindIpRow_eq_none_iff.1 hnone
    rw [hkeys] at hnot
    split
    · rename_i hge
      rw [IdentityEntry.ip_count, hcount] at hge
      exact iff_of_true rfl ⟨hnot, hge⟩
    · rename_i hlt
      rw [IdentityEntry.ip_count, hcount] at hlt
      simp only [Bool.true_eq_false, false_iff, not_and]
      exact fun _ hge => hlt hge

/-- In a table that keeps the invariant, a refused admission found `limit` distinct other IPs with
rows not expired. -/
theorem softiplimiterTableAdmit_refused (ht : TableInv limit.toNat table)
    (h : (softiplimiterTableAdmit table identifier ip_key limit tolerance_ms now_ms).1 = false) :
    let keys := (liveRows ((table.find identifier).getD ⟨[]⟩) tolerance_ms now_ms).map IpRow.ip_key
    keys.Nodup ∧ ip_key ∉ keys ∧ limit.toNat ≤ keys.length := by
  obtain ⟨hnot, hge⟩ := (softiplimiterTableAdmit_eq_false_iff table identifier ip_key limit
    tolerance_ms now_ms).1 h
  refine ⟨?_, hnot, by rwa [List.length_map]⟩
  exact (ht.rows_find identifier).keys_nodup.sublist (List.filter_sublist.map _)

end Admit

/-- **Table accounting.**  With a limit of at least one, along every interleaving of the table's
sections: every entry has one row at least and `limit` at most, with distinct IPs, and every
refused admission found `limit` distinct other IPs with rows not expired. -/
theorem softiplimiter_table_accounting {limit : UInt8} {tolerance_ms : UInt64} {table : IdentityMap}
    (hlimit : 0 < limit.toNat) (r : TableReach limit tolerance_ms table) :
    (∀ e ∈ table.entries,
      0 < e.2.ip_count ∧ e.2.ip_count ≤ limit.toNat ∧ (e.2.ips.map IpRow.ip_key).Nodup) ∧
    ∀ identifier ip_key now_ms,
      (softiplimiterTableAdmit table identifier ip_key limit tolerance_ms now_ms).1 = false →
      let keys := (liveRows ((table.find identifier).getD ⟨[]⟩) tolerance_ms now_ms).map IpRow.ip_key
      keys.Nodup ∧ ip_key ∉ keys ∧ limit.toNat ≤ keys.length := by
  have ht := TableInv.reach hlimit r
  refine ⟨fun e he => ⟨(ht e he).ip_count_pos, (ht e he).ip_count_le, (ht e he).keys_nodup⟩, ?_⟩
  intro identifier ip_key now_ms h
  exact softiplimiterTableAdmit_refused table identifier ip_key limit tolerance_ms now_ms ht h

/-! ## A release by IP takes a later line's row -/

/-- Limit 1 and a tolerance of 1 ms; lines A and B of identity 7 come from 10.0.0.1, line C from
10.0.0.2.  A is admitted at 0 and stays idle; B is admitted at 2, which prunes A's row and creates
its own; A is released at 3 and removes B's row.  B stays admitted, C is admitted at 3 although B
was active at 2, and B's next touch, at 3, fails. -/
theorem softiplimiterReleaseLine_removesLaterRow :
    let ts₀ : TState := ⟨HMap.empty, 1, 1⟩
    let k : IpKey := ⟨4, [10, 0, 0, 1] ++ List.replicate 12 0⟩
    let k' : IpKey := ⟨4, [10, 0, 0, 2] ++ List.replicate 12 0⟩
    let line : LineState := ⟨7, ⟨0, List.replicate 16 0⟩, false, false⟩
    let a := softiplimiterAdmitLine ts₀ line (some k) 0
    let b := softiplimiterAdmitLine a.2.1 line (some k) 2
    let r := softiplimiterReleaseLine b.2.1 a.2.2.1 3
    let c := softiplimiterAdmitLine r.1 line (some k') 3
    a.1 = true ∧ b.1 = true ∧ b.2.1.table.find 7 = some ⟨[⟨k, 1, 2⟩]⟩ ∧
      r.1.table.find 7 = none ∧ b.2.2.1.admitted = true ∧ c.1 = true ∧
      (softiplimiterTouchLine c.2.1 b.2.2.1 3).1 = false := by
  decide

end WaterWall.SoftIpLimiter
