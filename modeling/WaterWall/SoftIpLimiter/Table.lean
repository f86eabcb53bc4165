import WaterWall.Array.SwapRemove
import WaterWall.Map.HMap

/-!
# SoftIpLimiter's table of identities and their source IPs

`src/tunnels/SoftIpLimiter/common/helpers.c` bounds how many source IPs may use one identity (a
hashed VLESS UUID or Trojan password) at once.  A hash map takes each identity to an entry of at
most `kSoftIpLimiterMaxIps` rows, one per source IP, each with a reference count and the time it
was last seen.  A row idle for more than the tolerance is pruned whenever its entry is looked at
under the write lock.

Each table call is one section of the table's lock, so each is one function here:
`softiplimiterTableAdmit`, `softiplimiterTableTouch` and `softiplimiterTableRelease` under the
write lock, and `softiplimiterTableTouchShared` under the read lock.  The line calls
`softiplimiterAdmitLine`, `softiplimiterTouchLine` and `softiplimiterReleaseLine` wrap them.

An entry is the list of its live rows.  A row is removed by moving the last one into its slot
(`SwapRemove.swapRemove`), and pruning leaves exactly the rows not expired, in some order
(`softiplimiterPruneEntry_perm`).
-/

set_option autoImplicit false

namespace WaterWall.SoftIpLimiter

open SwapRemove

/-- `kSoftIpLimiterMaxIps`: the rows an entry has room for, and the largest limit accepted. -/
def kSoftIpLimiterMaxIps : Nat := 6

/-- `softiplimiter_ip_key_t`: the address family (4 or 6) and the 16 address bytes. -/
structure IpKey where
  type : UInt8
  bytes : List UInt8
  deriving DecidableEq

/-- `softiplimiterIpKeyEqual`: the family and every byte. -/
def softiplimiterIpKeyEqual (a b : IpKey) : Bool := a.type == b.type && a.bytes == b.bytes

theorem softiplimiterIpKeyEqual_iff {a b : IpKey} : softiplimiterIpKeyEqual a b = true ↔ a = b := by
  cases a
  cases b
  simp [softiplimiterIpKeyEqual]

/-- `softiplimiter_ip_row_t`. -/
structure IpRow where
  ip_key : IpKey
  refs : UInt32
  last_seen_ms : UInt64
  deriving DecidableEq

/-- `softiplimiter_identity_entry_t`: its rows `ips[0 .. ip_count)`. -/
structure IdentityEntry where
  ips : List IpRow
  deriving DecidableEq

def IdentityEntry.ip_count (entry : IdentityEntry) : Nat := entry.ips.length

/-- `softiplimiter_table_reason_t`. -/
inductive TableReason
  | ok
  | limitReached
  | missingRow
  | missingIp
  deriving DecidableEq

/-- `softiplimiter_table_result_t`: what a call reports, for the log. -/
structure TableResult where
  reason : TableReason
  count : Nat
  limit : UInt8
  deriving DecidableEq

/-- `softiplimiter_identity_map_t`, keyed by the identity's `hash_t`. -/
abbrev IdentityMap := HMap UInt64 IdentityEntry

/-! ## Rows -/

/-- `softiplimiterRowExpired`: seen more than `tolerance_ms` before `now_ms`.  A clock reading
behind the row's, from another worker, never expires it. -/
def softiplimiterRowExpired (row : IpRow) (tolerance_ms now_ms : UInt64) : Bool :=
  now_ms > row.last_seen_ms && now_ms - row.last_seen_ms > tolerance_ms

/-- The rows of an entry that are not expired at `now_ms`, in order. -/
def liveRows (entry : IdentityEntry) (tolerance_ms now_ms : UInt64) : List IpRow :=
  entry.ips.filter fun row => !softiplimiterRowExpired row tolerance_ms now_ms

/-- `softiplimiterEntryRemoveAt`: the last row moves into the slot.  Its assertion
`index < ip_count` is the type of `index`. -/
def softiplimiterEntryRemoveAt (entry : IdentityEntry) (index : Fin entry.ips.length) :
    IdentityEntry :=
  ⟨swapRemove entry.ips index⟩

/-- The loop of `softiplimiterPruneEntry` at slot `i`.  An expired row is removed and the slot is
tested again, since the last row moved into it.  `n` bounds the slots left to test,
`ip_count - i`, which every turn lowers by one. -/
def pruneFrom (tolerance_ms now_ms : UInt64) : Nat → IdentityEntry → Nat → IdentityEntry
  | 0, entry, _ => entry
  | n + 1, entry, i =>
    if h : i < entry.ips.length then
      if softiplimiterRowExpired entry.ips[i] tolerance_ms now_ms then
        pruneFrom tolerance_ms now_ms n (softiplimiterEntryRemoveAt entry ⟨i, h⟩) i
      else pruneFrom tolerance_ms now_ms n entry (i + 1)
    else entry

def softiplimiterPruneEntry (entry : IdentityEntry) (tolerance_ms now_ms : UInt64) : IdentityEntry :=
  pruneFrom tolerance_ms now_ms entry.ips.length entry 0

/-- `softiplimiterFindIpRow`: the first row with the key; `-1` is `none`. -/
def softiplimiterFindIpRow (entry : IdentityEntry) (ip_key : IpKey) : Option (Fin entry.ips.length) :=
  entry.ips.findFinIdx? fun row => softiplimiterIpKeyEqual row.ip_key ip_key

/-! ## The table's calls -/

/-- The entry of `identifier` and the table that holds it: `find`, or the insert of an empty
entry when there is none. -/
def findOrInsert (table : IdentityMap) (identifier : UInt64) : IdentityMap × IdentityEntry :=
  match table.find identifier with
  | none => ((table.insert identifier ⟨[]⟩).1, ⟨[]⟩)
  | some entry => (table, entry)

/-- `softiplimiterTableAdmit`: prune the identity's rows, then count one more line on the IP's
row, or add a row while there are fewer than `limit`. -/
def softiplimiterTableAdmit (table : IdentityMap) (identifier : UInt64) (ip_key : IpKey)
    (limit : UInt8) (tolerance_ms now_ms : UInt64) : Bool × IdentityMap × TableResult :=
  let found := findOrInsert table identifier
  let table := found.1
  let entry := softiplimiterPruneEntry found.2 tolerance_ms now_ms
  match softiplimiterFindIpRow entry ip_key with
  | some row_index =>
    let row := entry.ips[row_index]
    let entry : IdentityEntry :=
      ⟨entry.ips.set row_index { row with refs := row.refs + 1, last_seen_ms := now_ms }⟩
    (true, table.set identifier entry, ⟨.ok, entry.ip_count, limit⟩)
  | none =>
    if entry.ip_count ≥ limit.toNat then
      (false, table.set identifier entry, ⟨.limitReached, entry.ip_count, limit⟩)
    else
      let entry : IdentityEntry := ⟨entry.ips ++ [⟨ip_key, 1, now_ms⟩]⟩
      (true, table.set identifier entry, ⟨.ok, entry.ip_count, limit⟩)

/-- `softiplimiterTableTouch`, the write-locked touch: prune, then refresh the IP's row; an entry
left with no row at all is erased. -/
def softiplimiterTableTouch (table : IdentityMap) (identifier : UInt64) (ip_key : IpKey)
    (limit : UInt8) (tolerance_ms now_ms : UInt64) : Bool × IdentityMap × TableResult :=
  match table.find identifier with
  | none => (false, table, ⟨.missingRow, 0, limit⟩)
  | some entry =>
    let entry := softiplimiterPruneEntry entry tolerance_ms now_ms
    match softiplimiterFindIpRow entry ip_key with
    | none =>
      let count := entry.ip_count
      (false, if entry.ip_count = 0 then table.erase identifier else table.set identifier entry,
        ⟨.missingRow, count, limit⟩)
    | some row_index =>
      let entry : IdentityEntry :=
        ⟨entry.ips.set row_index { entry.ips[row_index] with last_seen_ms := now_ms }⟩
      (true, table.set identifier entry, ⟨.ok, entry.ip_count, limit⟩)

/-- `softiplimiterTableTouchShared`, the read-locked touch: refresh the IP's row unless it is
missing or expired, and change nothing else.  Its loop stops at the first row with the key, which
is `softiplimiterFindIpRow`'s. -/
def softiplimiterTableTouchShared (table : IdentityMap) (identifier : UInt64) (ip_key : IpKey)
    (tolerance_ms now_ms : UInt64) : Bool × IdentityMap :=
  match table.find identifier with
  | none => (false, table)
  | some entry =>
    match softiplimiterFindIpRow entry ip_key with
    | none => (false, table)
    | some i =>
      if softiplimiterRowExpired entry.ips[i] tolerance_ms now_ms then (false, table)
      else (true, table.set identifier ⟨entry.ips.set i { entry.ips[i] with last_seen_ms := now_ms }⟩)

/-- The entry after `softiplimiterTableRelease` gave back one reference of the IP's row. -/
def releaseRow (entry : IdentityEntry) (ip_key : IpKey) : IdentityEntry :=
  match softiplimiterFindIpRow entry ip_key with
  | some row_index =>
    let row := entry.ips[row_index]
    if row.refs > 1 then ⟨entry.ips.set row_index { row with refs := row.refs - 1 }⟩
    else softiplimiterEntryRemoveAt entry row_index
  | none => entry

/-- `softiplimiterTableRelease`: prune, give back one reference of the row of the IP, whichever
line created it, and erase an entry left with no row. -/
def softiplimiterTableRelease (table : IdentityMap) (identifier : UInt64) (ip_key : IpKey)
    (tolerance_ms now_ms : UInt64) : IdentityMap :=
  match table.find identifier with
  | none => table
  | some entry =>
    let entry := releaseRow (softiplimiterPruneEntry entry tolerance_ms now_ms) ip_key
    if entry.ip_count = 0 then table.erase identifier else table.set identifier entry

/-! ## The line's calls -/

/-- The fields of `softiplimiter_tstate_t` that the table calls use. -/
structure TState where
  table : IdentityMap
  tolerance_ms : UInt64
  simultaneous_user_limit : UInt8

/-- The fields of `softiplimiter_lstate_t` that the table calls use. -/
structure LineState where
  identifier : UInt64
  ip_key : IpKey
  admitted : Bool
  ip_key_valid : Bool

/-- `softiplimiterBuildIpKey`, from the key of the line's source address, `none` when that is not
an IP address; the key is zeroed first. -/
def softiplimiterBuildIpKey (source : Option IpKey) : Bool × IpKey :=
  match source with
  | some key => (true, key)
  | none => (false, ⟨0, List.replicate 16 0⟩)

def softiplimiterAdmitLine (ts : TState) (ls : LineState) (source : Option IpKey) (now_ms : UInt64) :
    Bool × TState × LineState × TableResult :=
  let built := softiplimiterBuildIpKey source
  let ls := { ls with ip_key := built.2 }
  if !built.1 then
    (false, ts, { ls with ip_key_valid := false }, ⟨.missingIp, 0, ts.simultaneous_user_limit⟩)
  else
    let ls := { ls with ip_key_valid := true }
    let r := softiplimiterTableAdmit ts.table ls.identifier ls.ip_key ts.simultaneous_user_limit
      ts.tolerance_ms now_ms
    (r.1, { ts with table := r.2.1 }, if r.1 then { ls with admitted := true } else ls, r.2.2)

/-- `softiplimiterTouchLine`: the read-locked touch, and the write-locked one when that did not
refresh the row.  Other lines' sections may run between the two; `TableReach` has every such
interleaving. -/
def softiplimiterTouchLine (ts : TState) (ls : LineState) (now_ms : UInt64) :
    Bool × TState × TableResult :=
  if !ls.admitted || !ls.ip_key_valid then (false, ts, ⟨.missingRow, 0, ts.simultaneous_user_limit⟩)
  else
    let fast := softiplimiterTableTouchShared ts.table ls.identifier ls.ip_key ts.tolerance_ms now_ms
    if fast.1 then (true, { ts with table := fast.2 }, ⟨.ok, 0, ts.simultaneous_user_limit⟩)
    else
      let r := softiplimiterTableTouch fast.2 ls.identifier ls.ip_key ts.simultaneous_user_limit
        ts.tolerance_ms now_ms
      (r.1, { ts with table := r.2.1 }, r.2.2)

/-- `softiplimiterReleaseLine`, with the clock reading `softiplimiterNowMs` gives it. -/
def softiplimiterReleaseLine (ts : TState) (ls : LineState) (now_ms : UInt64) : TState × LineState :=
  if !ls.admitted || !ls.ip_key_valid then (ts, ls)
  else
    ({ ts with table := softiplimiterTableRelease ts.table ls.identifier ls.ip_key ts.tolerance_ms now_ms },
      { ls with admitted := false })

/-! ## Pruning keeps exactly the rows not expired -/

section Prune

variable (tolerance_ms now_ms : UInt64)

theorem pruneFrom_perm :
    ∀ (n : Nat) (entry : IdentityEntry) (i : Nat), entry.ips.length - i ≤ n →
      (pruneFrom tolerance_ms now_ms n entry i).ips.Perm
        (kept (fun row => !softiplimiterRowExpired row tolerance_ms now_ms) entry.ips i)
  | 0, entry, i, hn => by
    rw [pruneFrom, kept_of_length_le _ (by omega)]
  | n + 1, entry, i, hn => by
    rw [pruneFrom]
    split
    · rename_i hi
      split
      · rename_i hexp
        -- the row at `i` goes, the last one takes its slot, and the scan stays at `i`
        have ih := pruneFrom_perm n (softiplimiterEntryRemoveAt entry ⟨i, hi⟩) i
          (by simp only [softiplimiterEntryRemoveAt, length_swapRemove]; omega)
        exact ih.trans (kept_swapRemove _ ⟨i, hi⟩ (by simpa using hexp))
      · rename_i hexp
        have ih := pruneFrom_perm n entry (i + 1) (by omega)
        rwa [kept_succ _ hi (by simpa using hexp)] at ih
    · rename_i hi
      rw [kept_of_length_le _ (by omega)]

theorem softiplimiterPruneEntry_perm (entry : IdentityEntry) :
    (softiplimiterPruneEntry entry tolerance_ms now_ms).ips.Perm (liveRows entry tolerance_ms now_ms) := by
  have h := pruneFrom_perm tolerance_ms now_ms entry.ips.length entry 0 (Nat.sub_le _ _)
  rwa [kept_zero] at h

theorem softiplimiterPruneEntry_ip_count (entry : IdentityEntry) :
    (softiplimiterPruneEntry entry tolerance_ms now_ms).ip_count =
      (liveRows entry tolerance_ms now_ms).length :=
  (softiplimiterPruneEntry_perm tolerance_ms now_ms entry).length_eq

end Prune

/-! ## Finding a row -/

theorem softiplimiterFindIpRow_eq_none_iff {entry : IdentityEntry} {ip_key : IpKey} :
    softiplimiterFindIpRow entry ip_key = none ↔ ip_key ∉ entry.ips.map IpRow.ip_key := by
  rw [softiplimiterFindIpRow, List.findFinIdx?_eq_none_iff]
  simp [softiplimiterIpKeyEqual_iff]

theorem softiplimiterFindIpRow_key {entry : IdentityEntry} {ip_key : IpKey}
    {i : Fin entry.ips.length} (h : softiplimiterFindIpRow entry ip_key = some i) :
    entry.ips[i].ip_key = ip_key :=
  softiplimiterIpKeyEqual_iff.1 (List.findFinIdx?_eq_some_iff.1 h).1

theorem keys_set_row (ips : List IpRow) (i : Fin ips.length) {row : IpRow}
    (h : row.ip_key = ips[i].ip_key) :
    (ips.set i row).map IpRow.ip_key = ips.map IpRow.ip_key := by
  have hlt : (i : Nat) < (ips.map IpRow.ip_key).length := by simp
  have hkey : ips[i].ip_key = (ips.map IpRow.ip_key)[(i : Nat)] := by simp
  rw [List.map_set, h, hkey, List.set_getElem_self]

/-! ## The entry of an identity -/

theorem findOrInsert_snd (table : IdentityMap) (identifier : UInt64) :
    (findOrInsert table identifier).2 = (table.find identifier).getD ⟨[]⟩ := by
  unfold findOrInsert
  split <;> simp_all

theorem mem_findOrInsert {table : IdentityMap} {identifier : UInt64} {e : UInt64 × IdentityEntry}
    (h : e ∈ (findOrInsert table identifier).1.entries) : e ∈ table.entries ∨ e.1 = identifier := by
  unfold findOrInsert at h
  split at h
  · rename_i hnone
    rw [(HMap.insert_of_find_none hnone).2, List.mem_append, List.mem_singleton] at h
    exact h.imp_right fun he => by rw [he]
  · exact .inl h

end WaterWall.SoftIpLimiter
