import WaterWall.Intrusive.DList
import WaterWall.Lru.SlotCache
import WaterWall.Net.Ipv4PacketView

/-!
# The fake-DNS store of PacketsToConnection

`ptc_fake_dns_t` answers every DNS `A` question with an address of a configured network and
remembers which domain it gave each address.  It keeps three structures in step: `names`, a hash
map from domain to entry; `records`, the entries by slot (`records[i]->index = i`); and an
intrusive LRU list from `lru_head` (least recently used) to `lru_tail`.  Once every slot is used, a
new domain evicts the entry at `lru_head` and takes its slot.  The address of slot `i` is
`htonl(network_host | i)`.

* The bottom layer is `ptcFakeDnsGetOrCreate`, `ptcFakeDnsLookupByIp` and their helpers, with the
  entries as one function per field, and the checks of `ptcFakeDnsLoadSettings`.
* `FakeDns.Inv dns xs`: the LRU list threads `xs`, and `records`, `names`, the entries' fields and
  `used` agree with it; then the store stands for the slot cache `dns.cacheOf xs`
  (`Lru.SlotCache`).  `Inv.getOrCreate`, `Inv.lookupByIp`: each call keeps the invariant and does
  to that cache what `SlotCache` does; `Inv.run`: so does every run, and no assertion fails.
* An address handed out is looked up to its domain when the slots have no bit of the netmask
  (`Inv.lookupByIp_getOrCreate`).  The loader checks `cache-size <= ~netmask` as numbers, which
  says so only for a netmask of leading ones (`lookupByIp_getOrCreate_of_contiguous`);
  `ptcFakeDnsLookupByIp_misses_split_netmask` is a configuration it accepts where lookups fail.
-/

set_option autoImplicit false

namespace WaterWall
namespace PacketsToConnection

open Intrusive Lru Net

/-- Address of a `ptc_fake_dns_entry_t`. -/
abbrev EntryPtr := Nat

/-- `ptc_fake_dns_t` and the entries it owns.  An entry's fields are functions over entry
addresses (`domain` holds the `domain_len` bytes of the name, or `NULL`), the LRU list's ends and
the entries' `prev` and `next` are `lru`, and `allocated` is the allocator: entries allocated so far,
the next one at that address. -/
structure FakeDns where
  names : List UInt8 → Option EntryPtr
  records : Nat → Option EntryPtr
  lru : Links EntryPtr
  domain : EntryPtr → Option (List UInt8)
  fake_addr_network : EntryPtr → UInt32
  index : EntryPtr → UInt32
  listen_addr : UInt32
  network_host : UInt32
  netmask_host : UInt32
  capacity : UInt32
  used : UInt32
  ttl : UInt32
  listen_port : UInt16
  enabled : Bool
  allocated : Nat

/-! ## The name map

`ptc_fake_dns_name_map_t` is an STC hash map; its `_insert` leaves a key that is already present
as it is, and `_erase` removes a key. -/

/-- `ptc_fake_dns_name_map_t_insert`. -/
def nameMapInsert (names : List UInt8 → Option EntryPtr) (key : List UInt8) (entry : EntryPtr) :
    List UInt8 → Option EntryPtr :=
  match names key with
  | some _ => names
  | none => Function.update names key (some entry)

/-- `ptc_fake_dns_name_map_t_erase`. -/
def nameMapErase (names : List UInt8 → Option EntryPtr) (key : List UInt8) :
    List UInt8 → Option EntryPtr :=
  Function.update names key none

/-! ## The store -/

def ptcFakeDnsLruUnlink (dns : FakeDns) (entry : EntryPtr) : FakeDns :=
  { dns with lru := dns.lru.unlink entry }

def ptcFakeDnsLruPushTail (dns : FakeDns) (entry : EntryPtr) : FakeDns :=
  { dns with lru := dns.lru.pushTail entry }

def ptcFakeDnsTouch (dns : FakeDns) (entry : EntryPtr) : FakeDns :=
  if dns.lru.tail = some entry then dns
  else ptcFakeDnsLruPushTail (ptcFakeDnsLruUnlink dns entry) entry

def ptcFakeDnsClearEntryName (dns : FakeDns) (entry : EntryPtr) : FakeDns :=
  match dns.domain entry with
  | none => dns
  | some name =>
    { dns with
      names := nameMapErase dns.names name
      domain := Function.update dns.domain entry none }

def ptcFakeDnsFindByName (dns : FakeDns) (domain : List UInt8) : Option EntryPtr :=
  dns.names domain

/-- `entry = memoryAllocateZero(sizeof(*entry)); entry->index = dns->used++;`: a new entry, at the
next address.  The fields the allocator zeroes are all written before they are read. -/
def ptcFakeDnsAllocateEntry (dns : FakeDns) : FakeDns :=
  { dns with
    index := Function.update dns.index dns.allocated dns.used
    used := dns.used + 1
    allocated := dns.allocated + 1 }

/-- The first half of `ptcFakeDnsGetOrCreate` for a domain not in the map: the entry it fills in.
While slots are left it is a new one, else the entry at `lru_head`, unlinked and its name dropped.
`none` is the failed `assert(entry != NULL)`. -/
def ptcFakeDnsTakeEntry (dns : FakeDns) : Option (FakeDns × EntryPtr) :=
  if dns.used < dns.capacity then some (ptcFakeDnsAllocateEntry dns, dns.allocated)
  else
    match dns.lru.head with
    | none => none
    | some entry => some (ptcFakeDnsClearEntryName (ptcFakeDnsLruUnlink dns entry) entry, entry)

/-- The second half of `ptcFakeDnsGetOrCreate`: `entry` gets the domain and the address of its
slot, goes into `records` and at the LRU tail, and its name into the map. -/
def ptcFakeDnsStoreEntry (dns : FakeDns) (entry : EntryPtr) (domain : List UInt8) : FakeDns :=
  let fake_host := dns.network_host ||| dns.index entry
  let dns := { dns with
    domain := Function.update dns.domain entry (some domain)
    fake_addr_network := Function.update dns.fake_addr_network entry (lwip_htonl fake_host)
    records := Function.update dns.records (dns.index entry).toNat (some entry) }
  let dns := ptcFakeDnsLruPushTail dns entry
  { dns with names := nameMapInsert dns.names domain entry }

/-- The address for `domain`, a new or reused entry made for it if it has none; `0` when the store
has no slots.  `none` is the failed assertion of `ptcFakeDnsTakeEntry`. -/
def ptcFakeDnsGetOrCreate (dns : FakeDns) (domain : List UInt8) : Option (FakeDns × UInt32) :=
  match ptcFakeDnsFindByName dns domain with
  | some entry =>
    let dns := ptcFakeDnsTouch dns entry
    some (dns, dns.fake_addr_network entry)
  | none =>
    if dns.capacity = 0 then some (dns, 0)
    else
      (ptcFakeDnsTakeEntry dns).map fun (dns, entry) =>
        let dns := ptcFakeDnsStoreEntry dns entry domain
        (dns, dns.fake_addr_network entry)

/-- The entry whose address is `ip` (in network order).  The source also returns `NULL` when
`records` is `NULL`, which happens exactly when the store is not enabled. -/
def ptcFakeDnsLookupByIp (dns : FakeDns) (ip : UInt32) : FakeDns × Option EntryPtr :=
  if !dns.enabled then (dns, none)
  else
    let host := lwip_ntohl ip
    if host &&& dns.netmask_host ≠ dns.network_host then (dns, none)
    else
      let index := host &&& ~~~dns.netmask_host
      if index ≥ dns.capacity then (dns, none)
      else
        match dns.records index.toNat with
        | none => (dns, none)
        | some entry =>
          if dns.fake_addr_network entry ≠ ip then (dns, none)
          else (ptcFakeDnsTouch dns entry, some entry)

/-- What `ptcFakeDnsLoadSettings` does with the fake-DNS settings once they are read (addresses in
network order, as `ipaddr_aton` gives them): its checks, with the error it logs, and the store it
sets up in the zeroed tunnel state. -/
def ptcFakeDnsLoadSettings (listen_addr network netmask : UInt32) (port ttl cache_size : Int32) :
    Except String FakeDns :=
  if port < 1 ∨ port > 65535 then
    .error "JSON Error: PacketsToConnection->settings->fake-dns->port must be in range [1, 65535]"
  else if ttl < 0 then
    .error "JSON Error: PacketsToConnection->settings->fake-dns->ttl must be zero or greater"
  else if cache_size < 1 then
    .error "JSON Error: PacketsToConnection->settings->fake-dns->cache-size must be at least 1"
  else
    let netmask_host := lwip_ntohl netmask
    let network_host := lwip_ntohl network &&& netmask_host
    let host_mask := ~~~netmask_host
    if host_mask = 0 ∨ cache_size.toUInt32 > host_mask then
      .error ("JSON Error: PacketsToConnection->settings->fake-dns->cache-size does not fit in " ++
        "configured network")
    else
      .ok { names := fun _ => none
            records := fun _ => none
            lru := ⟨none, none, fun _ => none, fun _ => none⟩
            domain := fun _ => none
            fake_addr_network := fun _ => 0
            index := fun _ => 0
            listen_addr := listen_addr
            network_host := network_host
            netmask_host := netmask_host
            capacity := cache_size.toUInt32
            used := 0
            ttl := ttl.toUInt32
            listen_port := port.toUInt32.toUInt16
            enabled := true
            allocated := 0 }

/-! ## Equations of the steps -/

section Equations

variable (dns : FakeDns) (p : EntryPtr)

theorem ptcFakeDnsTouch_eq :
    ptcFakeDnsTouch dns p =
      { dns with lru := if dns.lru.tail = some p then dns.lru else (dns.lru.unlink p).pushTail p } := by
  unfold ptcFakeDnsTouch ptcFakeDnsLruPushTail ptcFakeDnsLruUnlink
  by_cases h : dns.lru.tail = some p
  · rw [if_pos h, if_pos h]
  · rw [if_neg h, if_neg h]

theorem ptcFakeDnsTakeEntry_of_lt (h : dns.used < dns.capacity) :
    ptcFakeDnsTakeEntry dns = some (ptcFakeDnsAllocateEntry dns, dns.allocated) := by
  rw [ptcFakeDnsTakeEntry, if_pos h]

theorem ptcFakeDnsTakeEntry_of_head (h : ¬ dns.used < dns.capacity) (hp : dns.lru.head = some p) :
    ptcFakeDnsTakeEntry dns = some (ptcFakeDnsClearEntryName (ptcFakeDnsLruUnlink dns p) p, p) := by
  rw [ptcFakeDnsTakeEntry, if_neg h, hp]

theorem ptcFakeDnsGetOrCreate_of_find {domain : List UInt8} (h : dns.names domain = some p) :
    ptcFakeDnsGetOrCreate dns domain =
      some (ptcFakeDnsTouch dns p, (ptcFakeDnsTouch dns p).fake_addr_network p) := by
  rw [ptcFakeDnsGetOrCreate, ptcFakeDnsFindByName, h]

theorem ptcFakeDnsGetOrCreate_of_not_find {domain : List UInt8} (h : dns.names domain = none)
    (hcap : dns.capacity ≠ 0) :
    ptcFakeDnsGetOrCreate dns domain =
      (ptcFakeDnsTakeEntry dns).map fun (dns, entry) =>
        (ptcFakeDnsStoreEntry dns entry domain,
          (ptcFakeDnsStoreEntry dns entry domain).fake_addr_network entry) := by
  rw [ptcFakeDnsGetOrCreate, ptcFakeDnsFindByName, h]
  exact if_neg hcap

section Fields

variable (dns : FakeDns) (p : EntryPtr)

@[simp] theorem ptcFakeDnsLruUnlink_lru : (ptcFakeDnsLruUnlink dns p).lru = dns.lru.unlink p := rfl

/-- Dropping an entry's name changes the name map and that entry's domain only. -/
theorem ptcFakeDnsClearEntryName_eq :
    ∃ names domain, ptcFakeDnsClearEntryName dns p = { dns with names := names, domain := domain } := by
  unfold ptcFakeDnsClearEntryName
  split
  · exact ⟨dns.names, dns.domain, rfl⟩
  · exact ⟨_, _, rfl⟩

@[simp] theorem ptcFakeDnsClearEntryName_lru : (ptcFakeDnsClearEntryName dns p).lru = dns.lru := by
  obtain ⟨names, domain, h⟩ := ptcFakeDnsClearEntryName_eq dns p
  rw [h]

@[simp] theorem ptcFakeDnsClearEntryName_records :
    (ptcFakeDnsClearEntryName dns p).records = dns.records := by
  obtain ⟨names, domain, h⟩ := ptcFakeDnsClearEntryName_eq dns p
  rw [h]

@[simp] theorem ptcFakeDnsClearEntryName_index : (ptcFakeDnsClearEntryName dns p).index = dns.index := by
  obtain ⟨names, domain, h⟩ := ptcFakeDnsClearEntryName_eq dns p
  rw [h]

@[simp] theorem ptcFakeDnsClearEntryName_used : (ptcFakeDnsClearEntryName dns p).used = dns.used := by
  obtain ⟨names, domain, h⟩ := ptcFakeDnsClearEntryName_eq dns p
  rw [h]

@[simp] theorem ptcFakeDnsClearEntryName_fake_addr_network :
    (ptcFakeDnsClearEntryName dns p).fake_addr_network = dns.fake_addr_network := by
  obtain ⟨names, domain, h⟩ := ptcFakeDnsClearEntryName_eq dns p
  rw [h]

@[simp] theorem ptcFakeDnsClearEntryName_allocated :
    (ptcFakeDnsClearEntryName dns p).allocated = dns.allocated := by
  obtain ⟨names, domain, h⟩ := ptcFakeDnsClearEntryName_eq dns p
  rw [h]

@[simp] theorem ptcFakeDnsClearEntryName_enabled :
    (ptcFakeDnsClearEntryName dns p).enabled = dns.enabled := by
  obtain ⟨names, domain, h⟩ := ptcFakeDnsClearEntryName_eq dns p
  rw [h]

@[simp] theorem ptcFakeDnsClearEntryName_network_host :
    (ptcFakeDnsClearEntryName dns p).network_host = dns.network_host := by
  obtain ⟨names, domain, h⟩ := ptcFakeDnsClearEntryName_eq dns p
  rw [h]

@[simp] theorem ptcFakeDnsClearEntryName_netmask_host :
    (ptcFakeDnsClearEntryName dns p).netmask_host = dns.netmask_host := by
  obtain ⟨names, domain, h⟩ := ptcFakeDnsClearEntryName_eq dns p
  rw [h]

@[simp] theorem ptcFakeDnsClearEntryName_capacity :
    (ptcFakeDnsClearEntryName dns p).capacity = dns.capacity := by
  obtain ⟨names, domain, h⟩ := ptcFakeDnsClearEntryName_eq dns p
  rw [h]

theorem ptcFakeDnsClearEntryName_names {name : List UInt8} (h : dns.domain p = some name) :
    (ptcFakeDnsClearEntryName dns p).names = nameMapErase dns.names name := by
  rw [ptcFakeDnsClearEntryName, h]

theorem ptcFakeDnsClearEntryName_domain {name : List UInt8} (h : dns.domain p = some name) :
    (ptcFakeDnsClearEntryName dns p).domain = Function.update dns.domain p none := by
  rw [ptcFakeDnsClearEntryName, h]

@[simp] theorem ptcFakeDnsAllocateEntry_index :
    (ptcFakeDnsAllocateEntry dns).index = Function.update dns.index dns.allocated dns.used := rfl

@[simp] theorem ptcFakeDnsAllocateEntry_used : (ptcFakeDnsAllocateEntry dns).used = dns.used + 1 := rfl

@[simp] theorem ptcFakeDnsAllocateEntry_allocated :
    (ptcFakeDnsAllocateEntry dns).allocated = dns.allocated + 1 := rfl

end Fields

section StoreEntry

variable (dns : FakeDns) (p : EntryPtr) (d : List UInt8)

@[simp] theorem ptcFakeDnsStoreEntry_lru : (ptcFakeDnsStoreEntry dns p d).lru = dns.lru.pushTail p :=
  rfl

@[simp] theorem ptcFakeDnsStoreEntry_names :
    (ptcFakeDnsStoreEntry dns p d).names = nameMapInsert dns.names d p := rfl

@[simp] theorem ptcFakeDnsStoreEntry_records :
    (ptcFakeDnsStoreEntry dns p d).records =
      Function.update dns.records (dns.index p).toNat (some p) := rfl

@[simp] theorem ptcFakeDnsStoreEntry_domain :
    (ptcFakeDnsStoreEntry dns p d).domain = Function.update dns.domain p (some d) := rfl

@[simp] theorem ptcFakeDnsStoreEntry_fake_addr_network :
    (ptcFakeDnsStoreEntry dns p d).fake_addr_network =
      Function.update dns.fake_addr_network p (lwip_htonl (dns.network_host ||| dns.index p)) := rfl

@[simp] theorem ptcFakeDnsStoreEntry_index : (ptcFakeDnsStoreEntry dns p d).index = dns.index := rfl

@[simp] theorem ptcFakeDnsStoreEntry_used : (ptcFakeDnsStoreEntry dns p d).used = dns.used := rfl

@[simp] theorem ptcFakeDnsStoreEntry_allocated :
    (ptcFakeDnsStoreEntry dns p d).allocated = dns.allocated := rfl

@[simp] theorem ptcFakeDnsStoreEntry_enabled : (ptcFakeDnsStoreEntry dns p d).enabled = dns.enabled :=
  rfl

@[simp] theorem ptcFakeDnsStoreEntry_network_host :
    (ptcFakeDnsStoreEntry dns p d).network_host = dns.network_host := rfl

@[simp] theorem ptcFakeDnsStoreEntry_netmask_host :
    (ptcFakeDnsStoreEntry dns p d).netmask_host = dns.netmask_host := rfl

@[simp] theorem ptcFakeDnsStoreEntry_capacity :
    (ptcFakeDnsStoreEntry dns p d).capacity = dns.capacity := rfl

end StoreEntry

theorem nameMapInsert_of_none {names : List UInt8 → Option EntryPtr} {key : List UInt8}
    (h : names key = none) (entry : EntryPtr) :
    nameMapInsert names key entry = Function.update names key (some entry) := by
  rw [nameMapInsert, h]

end Equations

/-! ## The invariant -/

namespace FakeDns

/-- The cache entry an entry stands for: its domain and its slot. -/
def entryOf (dns : FakeDns) (p : EntryPtr) : List UInt8 × Nat :=
  ((dns.domain p).getD [], (dns.index p).toNat)

/-- The slot cache the store stands for, its LRU list being `xs`. -/
def cacheOf (dns : FakeDns) (xs : List EntryPtr) : SlotCache (List UInt8) :=
  ⟨dns.capacity.toNat, xs.map dns.entryOf⟩

@[simp] theorem entryOf_setLru (dns : FakeDns) (l : Links EntryPtr) :
    ({ dns with lru := l } : FakeDns).entryOf = dns.entryOf := rfl

/-- The LRU list threads `xs`, and every other structure of the store agrees with it: `used` is its
length, `records[i]` is the entry of `xs` with index `i`, `names` maps exactly the domains of the
entries of `xs` to them, and each entry of `xs` has the address of its slot. -/
structure Tracks (dns : FakeDns) (xs : List EntryPtr) : Prop where
  lru : Threads dns.lru xs
  enabled : dns.enabled = true
  network_host_and : dns.network_host &&& ~~~dns.netmask_host = 0
  used_eq : dns.used.toNat = xs.length
  records_eq : ∀ i p, dns.records i = some p ↔ p ∈ xs ∧ (dns.index p).toNat = i
  names_eq : ∀ k p, dns.names k = some p ↔ p ∈ xs ∧ dns.domain p = some k
  domain_isSome : ∀ p ∈ xs, (dns.domain p).isSome
  fake_addr_eq : ∀ p ∈ xs, dns.fake_addr_network p = lwip_htonl (dns.network_host ||| dns.index p)
  lt_allocated : ∀ p ∈ xs, p < dns.allocated

/-- The store tracks `xs`, and the slot cache it stands for is well formed. -/
structure Inv (dns : FakeDns) (xs : List EntryPtr) : Prop extends dns.Tracks xs where
  cache_wf : (dns.cacheOf xs).Wf

variable {dns : FakeDns} {xs : List EntryPtr}

theorem Tracks.index_inj (h : dns.Tracks xs) {p q : EntryPtr} (hp : p ∈ xs) (hq : q ∈ xs)
    (hpq : dns.index p = dns.index q) : p = q := by
  have hrp := (h.records_eq _ p).2 ⟨hp, rfl⟩
  have hrq := (h.records_eq _ q).2 ⟨hq, rfl⟩
  rw [hpq, hrq] at hrp
  exact (Option.some.inj hrp).symm

theorem Tracks.entryOf_inj (h : dns.Tracks xs) :
    ∀ p ∈ xs, ∀ q ∈ xs, dns.entryOf p = dns.entryOf q → p = q := by
  intro p hp q hq hpq
  exact h.index_inj hp hq (UInt32.toNat_inj.1 (congrArg Prod.snd hpq))

theorem Tracks.domain_eq (h : dns.Tracks xs) {p : EntryPtr} (hp : p ∈ xs) :
    dns.domain p = some (dns.entryOf p).1 := by
  obtain ⟨k, hk⟩ := Option.isSome_iff_exists.1 (h.domain_isSome p hp)
  rw [entryOf, hk, Option.getD_some]

theorem Inv.find_cacheOf (h : dns.Inv xs) (k : List UInt8) :
    (dns.cacheOf xs).find k = (dns.names k).map dns.entryOf := by
  cases hn : dns.names k with
  | some p =>
    obtain ⟨hp, hk⟩ := (h.names_eq k p).1 hn
    refine (SlotCache.find_eq_some_iff h.cache_wf).2 ⟨List.mem_map_of_mem hp, ?_⟩
    rw [h.domain_eq hp] at hk
    exact Option.some.inj hk
  | none =>
    refine SlotCache.find_eq_none_iff.2 fun e he hk => ?_
    obtain ⟨p, hp, rfl⟩ := List.mem_map.1 he
    have := (h.names_eq k p).2 ⟨hp, by rw [h.domain_eq hp, hk]⟩
    rw [hn] at this
    cases this

theorem Inv.findSlot_cacheOf (h : dns.Inv xs) (i : Nat) :
    (dns.cacheOf xs).findSlot i = (dns.records i).map dns.entryOf := by
  cases hr : dns.records i with
  | some p =>
    obtain ⟨hp, hi⟩ := (h.records_eq i p).1 hr
    exact (SlotCache.findSlot_eq_some_iff h.cache_wf).2 ⟨List.mem_map_of_mem hp, hi⟩
  | none =>
    refine SlotCache.findSlot_eq_none_iff.2 fun e he hi => ?_
    obtain ⟨p, hp, rfl⟩ := List.mem_map.1 he
    have := (h.records_eq i p).2 ⟨hp, hi⟩
    rw [hr] at this
    cases this

/-- Re-threading the same entries in another order keeps everything but the list. -/
theorem Tracks.of_perm (h : dns.Tracks xs) {xs' : List EntryPtr} (hperm : xs'.Perm xs)
    {lru' : Links EntryPtr} (ht : Threads lru' xs') : ({ dns with lru := lru' } : FakeDns).Tracks xs' where
  lru := ht
  enabled := h.enabled
  network_host_and := h.network_host_and
  used_eq := by rw [hperm.length_eq]; exact h.used_eq
  records_eq i p := by rw [hperm.mem_iff]; exact h.records_eq i p
  names_eq k p := by rw [hperm.mem_iff]; exact h.names_eq k p
  domain_isSome p hp := h.domain_isSome p (hperm.mem_iff.1 hp)
  fake_addr_eq p hp := h.fake_addr_eq p (hperm.mem_iff.1 hp)
  lt_allocated p hp := h.lt_allocated p (hperm.mem_iff.1 hp)

/-! ## Touching an entry -/

theorem inv_touch (h : dns.Inv xs) {p : EntryPtr} (hp : p ∈ xs) :
    (ptcFakeDnsTouch dns p).Inv (xs.erase p ++ [p]) ∧
      (ptcFakeDnsTouch dns p).cacheOf (xs.erase p ++ [p]) = (dns.cacheOf xs).touch (dns.entryOf p) := by
  have hperm : (xs.erase p ++ [p]).Perm xs :=
    (List.perm_append_singleton p _).trans (List.perm_cons_erase hp).symm
  -- the cache's entries are moved the same way, the entries being told apart by their slots
  have hcache : (ptcFakeDnsTouch dns p).cacheOf (xs.erase p ++ [p]) =
      (dns.cacheOf xs).touch (dns.entryOf p) := by
    rw [ptcFakeDnsTouch_eq, cacheOf, entryOf_setLru]
    exact SlotCache.touch_map h.entryOf_inj hp _
  refine ⟨⟨?_, ?_⟩, hcache⟩
  · rw [ptcFakeDnsTouch_eq]
    exact h.of_perm hperm (threads_moveToTail h.lru hp)
  · rw [hcache]
    exact SlotCache.wf_touch h.cache_wf (List.mem_map_of_mem hp)

/-! ## Filling in an entry -/

/-- A store with entry `p` out of the list `xs` and ready to be filled in: `p` is not threaded, its
slot is counted in `used` and is no other entry's, and everything else tracks `xs`. -/
structure Vacant (dns : FakeDns) (xs : List EntryPtr) (p : EntryPtr) : Prop where
  lru : Threads dns.lru xs
  not_mem : p ∉ xs
  enabled : dns.enabled = true
  network_host_and : dns.network_host &&& ~~~dns.netmask_host = 0
  used_eq : dns.used.toNat = xs.length + 1
  records_eq : ∀ i q, i ≠ (dns.index p).toNat →
    (dns.records i = some q ↔ q ∈ xs ∧ (dns.index q).toNat = i)
  index_ne : ∀ q ∈ xs, dns.index q ≠ dns.index p
  names_eq : ∀ k q, dns.names k = some q ↔ q ∈ xs ∧ dns.domain q = some k
  domain_isSome : ∀ q ∈ xs, (dns.domain q).isSome
  fake_addr_eq : ∀ q ∈ xs, dns.fake_addr_network q = lwip_htonl (dns.network_host ||| dns.index q)
  lt_allocated : ∀ q ∈ xs, q < dns.allocated
  p_lt_allocated : p < dns.allocated

theorem Vacant.ne_of_mem {p q : EntryPtr} (h : dns.Vacant xs p) (hq : q ∈ xs) : q ≠ p :=
  fun hqp => h.not_mem (hqp ▸ hq)

/-- **Filling in.**  The entry, stored with a domain that has none, joins the list at the back. -/
theorem Vacant.tracks_storeEntry {p : EntryPtr} (h : dns.Vacant xs p) {d : List UInt8}
    (hd : dns.names d = none) : (ptcFakeDnsStoreEntry dns p d).Tracks (xs ++ [p]) where
  lru := by
    rw [ptcFakeDnsStoreEntry_lru]
    exact threads_pushTail h.lru h.not_mem
  enabled := h.enabled
  network_host_and := h.network_host_and
  used_eq := by
    rw [ptcFakeDnsStoreEntry_used, h.used_eq, List.length_append, List.length_singleton]
  records_eq i q := by
    rw [ptcFakeDnsStoreEntry_records, ptcFakeDnsStoreEntry_index, List.mem_append,
      List.mem_singleton]
    by_cases hi : i = (dns.index p).toNat
    · -- `p`'s slot now holds `p`, and no entry of `xs` has that slot
      subst hi
      rw [Function.update_self, Option.some_inj]
      constructor
      · rintro rfl
        exact ⟨Or.inr rfl, rfl⟩
      · rintro ⟨hq | rfl, hqi⟩
        · exact absurd (UInt32.toNat_inj.1 hqi) (h.index_ne q hq)
        · rfl
    · rw [Function.update_of_ne hi, h.records_eq i q hi]
      constructor
      · exact fun ⟨hq, hqi⟩ => ⟨Or.inl hq, hqi⟩
      · rintro ⟨hq | rfl, hqi⟩
        · exact ⟨hq, hqi⟩
        · exact absurd hqi.symm hi
  names_eq k q := by
    rw [ptcFakeDnsStoreEntry_names, nameMapInsert_of_none hd, ptcFakeDnsStoreEntry_domain,
      List.mem_append, List.mem_singleton]
    by_cases hk : k = d
    · -- the domain was in no entry, so only `p` has it now
      subst hk
      rw [Function.update_self, Option.some_inj]
      constructor
      · rintro rfl
        exact ⟨Or.inr rfl, Function.update_self _ _ _⟩
      · rintro ⟨hq | rfl, hqk⟩
        · rw [Function.update_of_ne (h.ne_of_mem hq)] at hqk
          have := (h.names_eq k q).2 ⟨hq, hqk⟩
          rw [hd] at this
          cases this
        · rfl
    · rw [Function.update_of_ne hk, h.names_eq k q]
      constructor
      · rintro ⟨hq, hqk⟩
        exact ⟨Or.inl hq, by rw [Function.update_of_ne (h.ne_of_mem hq)]; exact hqk⟩
      · rintro ⟨hq | rfl, hqk⟩
        · exact ⟨hq, by rwa [Function.update_of_ne (h.ne_of_mem hq)] at hqk⟩
        · rw [Function.update_self, Option.some_inj] at hqk
          exact absurd hqk.symm hk
  domain_isSome q hq := by
    rw [ptcFakeDnsStoreEntry_domain]
    rcases List.mem_append.1 hq with hq | hq
    · rw [Function.update_of_ne (h.ne_of_mem hq)]
      exact h.domain_isSome q hq
    · rw [List.mem_singleton.1 hq, Function.update_self]
      rfl
  fake_addr_eq q hq := by
    rw [ptcFakeDnsStoreEntry_fake_addr_network, ptcFakeDnsStoreEntry_network_host,
      ptcFakeDnsStoreEntry_index]
    rcases List.mem_append.1 hq with hq | hq
    · rw [Function.update_of_ne (h.ne_of_mem hq)]
      exact h.fake_addr_eq q hq
    · rw [List.mem_singleton.1 hq, Function.update_self]
  lt_allocated q hq := by
    rw [ptcFakeDnsStoreEntry_allocated]
    rcases List.mem_append.1 hq with hq | hq
    · exact h.lt_allocated q hq
    · rw [List.mem_singleton.1 hq]
      exact h.p_lt_allocated

/-- The cache the filled-in store stands for: the old entries, and the domain in `p`'s slot. -/
theorem Vacant.cacheOf_storeEntry {p : EntryPtr} (h : dns.Vacant xs p) (d : List UInt8) :
    (ptcFakeDnsStoreEntry dns p d).cacheOf (xs ++ [p]) =
      ⟨dns.capacity.toNat, xs.map dns.entryOf ++ [(d, (dns.index p).toNat)]⟩ := by
  have hold : ∀ q ∈ xs, (ptcFakeDnsStoreEntry dns p d).entryOf q = dns.entryOf q := by
    intro q hq
    rw [entryOf, entryOf, ptcFakeDnsStoreEntry_domain, ptcFakeDnsStoreEntry_index,
      Function.update_of_ne (h.ne_of_mem hq)]
  rw [cacheOf, List.map_append, List.map_congr_left hold, List.map_singleton, entryOf,
    ptcFakeDnsStoreEntry_domain, ptcFakeDnsStoreEntry_index, Function.update_self,
    ptcFakeDnsStoreEntry_capacity]
  rfl

/-! ## Taking an entry -/

theorem Inv.slot_lt_used (h : dns.Inv xs) {q : EntryPtr} (hq : q ∈ xs) :
    (dns.index q).toNat < dns.used.toNat := by
  have := h.cache_wf.slot_lt_length (List.mem_map_of_mem (f := dns.entryOf) hq)
  rw [h.used_eq]
  simpa [cacheOf, entryOf] using this

/-- A new entry, while slots are left, is vacant: it is at an address no entry has, and its slot is
`used`, which no entry has. -/
theorem Inv.vacant_allocateEntry (h : dns.Inv xs) (hlt : dns.used < dns.capacity) :
    (ptcFakeDnsAllocateEntry dns).Vacant xs dns.allocated where
  lru := h.lru
  not_mem hm := Nat.lt_irrefl _ (h.lt_allocated _ hm)
  enabled := h.enabled
  network_host_and := h.network_host_and
  used_eq := by
    have hlt' := UInt32.lt_iff_toNat_lt.1 hlt
    have hcap := dns.capacity.toNat_lt
    rw [ptcFakeDnsAllocateEntry_used, UInt32.toNat_add, ← h.used_eq, UInt32.toNat_one,
      Nat.mod_eq_of_lt (by omega)]
  records_eq i q hi := by
    rw [ptcFakeDnsAllocateEntry_index, Function.update_self] at hi
    rw [ptcFakeDnsAllocateEntry_index]
    constructor
    · intro hr
      obtain ⟨hq, hqi⟩ := (h.records_eq i q).1 hr
      exact ⟨hq, by rw [Function.update_of_ne (ne_of_lt (h.lt_allocated q hq))]; exact hqi⟩
    · rintro ⟨hq, hqi⟩
      rw [Function.update_of_ne (ne_of_lt (h.lt_allocated q hq))] at hqi
      exact (h.records_eq i q).2 ⟨hq, hqi⟩
  index_ne q hq := by
    rw [ptcFakeDnsAllocateEntry_index, Function.update_self,
      Function.update_of_ne (ne_of_lt (h.lt_allocated q hq))]
    intro hqi
    exact absurd (h.slot_lt_used hq) (by rw [hqi]; exact Nat.lt_irrefl _)
  names_eq := h.names_eq
  domain_isSome := h.domain_isSome
  fake_addr_eq q hq := by
    rw [ptcFakeDnsAllocateEntry_index, Function.update_of_ne (ne_of_lt (h.lt_allocated q hq))]
    exact h.fake_addr_eq q hq
  lt_allocated q hq := Nat.lt_succ_of_lt (h.lt_allocated q hq)
  p_lt_allocated := Nat.lt_succ_self _

/-- The least recently used entry, unlinked and its name dropped, is vacant. -/
theorem Inv.vacant_evict (h : dns.Inv xs) {p : EntryPtr} {rest : List EntryPtr}
    (hxs : xs = p :: rest) : (ptcFakeDnsClearEntryName (ptcFakeDnsLruUnlink dns p) p).Vacant rest p := by
  have hp : p ∈ xs := hxs ▸ List.mem_cons_self
  have hnd : (p :: rest).Nodup := hxs ▸ h.lru.nodup
  have hmem : ∀ {q}, q ∈ rest → q ≠ p := fun hq hqp => (List.nodup_cons.1 hnd).1 (hqp ▸ hq)
  have hxs' : ∀ {q}, q ∈ rest → q ∈ xs := fun hq => hxs ▸ List.mem_cons_of_mem p hq
  have hnames := ptcFakeDnsClearEntryName_names (ptcFakeDnsLruUnlink dns p) p (h.domain_eq hp)
  have hdomain := ptcFakeDnsClearEntryName_domain (ptcFakeDnsLruUnlink dns p) p (h.domain_eq hp)
  exact {
    lru := by
      have := threads_unlink h.lru hp
      rwa [hxs, List.erase_cons_head, ← ptcFakeDnsLruUnlink_lru,
        ← ptcFakeDnsClearEntryName_lru _ p] at this
    not_mem := (List.nodup_cons.1 hnd).1
    enabled := by rw [ptcFakeDnsClearEntryName_enabled]; exact h.enabled
    network_host_and := by
      rw [ptcFakeDnsClearEntryName_network_host, ptcFakeDnsClearEntryName_netmask_host]
      exact h.network_host_and
    used_eq := by
      rw [ptcFakeDnsClearEntryName_used, ptcFakeDnsLruUnlink, h.used_eq, hxs, List.length_cons]
    records_eq := fun i q hi => by
      rw [ptcFakeDnsClearEntryName_index] at hi ⊢
      rw [ptcFakeDnsClearEntryName_records]
      change dns.records i = some q ↔ q ∈ rest ∧ (dns.index q).toNat = i
      rw [h.records_eq i q, hxs, List.mem_cons]
      constructor
      · rintro ⟨rfl | hq, hqi⟩
        · exact absurd hqi.symm hi
        · exact ⟨hq, hqi⟩
      · exact fun ⟨hq, hqi⟩ => ⟨Or.inr hq, hqi⟩
    index_ne := fun q hq hqi => by
      rw [ptcFakeDnsClearEntryName_index] at hqi
      exact hmem hq (h.index_inj (hxs' hq) hp hqi)
    names_eq := fun k q => by
      rw [hnames, hdomain]
      by_cases hk : k = (dns.entryOf p).1
      · -- the evicted entry's domain is no entry's now
        subst hk
        rw [nameMapErase, Function.update_self]
        refine ⟨nofun, fun ⟨hq, hqk⟩ => ?_⟩
        rw [Function.update_of_ne (hmem hq)] at hqk
        have hnq := (h.names_eq _ q).2 ⟨hxs' hq, hqk⟩
        have hnp := (h.names_eq _ p).2 ⟨hp, h.domain_eq hp⟩
        rw [hnp, Option.some_inj] at hnq
        exact (hmem hq hnq.symm).elim
      · rw [nameMapErase, Function.update_of_ne hk]
        change dns.names k = some q ↔ _
        rw [h.names_eq k q, hxs, List.mem_cons]
        constructor
        · rintro ⟨rfl | hq, hqk⟩
          · rw [h.domain_eq hp, Option.some_inj] at hqk
            exact absurd hqk.symm hk
          · exact ⟨hq, by rwa [Function.update_of_ne (hmem hq)]⟩
        · rintro ⟨hq, hqk⟩
          exact ⟨Or.inr hq, by rwa [Function.update_of_ne (hmem hq)] at hqk⟩
    domain_isSome := fun q hq => by
      rw [hdomain, Function.update_of_ne (hmem hq)]
      exact h.domain_isSome q (hxs' hq)
    fake_addr_eq := fun q hq => by
      rw [ptcFakeDnsClearEntryName_fake_addr_network, ptcFakeDnsClearEntryName_network_host,
        ptcFakeDnsClearEntryName_index]
      exact h.fake_addr_eq q (hxs' hq)
    lt_allocated := fun q hq => by
      rw [ptcFakeDnsClearEntryName_allocated]
      exact h.lt_allocated q (hxs' hq)
    p_lt_allocated := by
      rw [ptcFakeDnsClearEntryName_allocated]
      exact h.lt_allocated p hp }

/-! ## `ptcFakeDnsGetOrCreate` refines the slot cache -/

/-- The address of a slot, in network order, as `ptcFakeDnsGetOrCreate` makes it; `0` for none. -/
def slotAddress (dns : FakeDns) : Option Nat → UInt32
  | none => 0
  | some i => lwip_htonl (dns.network_host ||| UInt32.ofNat i)

/-- `dns'` has the configuration of `dns`. -/
def SameConfig (dns' dns : FakeDns) : Prop :=
  dns'.network_host = dns.network_host ∧ dns'.netmask_host = dns.netmask_host ∧
    dns'.capacity = dns.capacity ∧ dns'.enabled = dns.enabled

/-- `ptcFakeDnsGetOrCreate dns d` does what the cache's request `r` does: the assertion holds, the
address returned is that of the slot handed out, and the store keeps the invariant and stands for
the cache after the request. -/
def GetOrCreateRefines (dns : FakeDns) (d : List UInt8) (r : SlotCache (List UInt8) × Option Nat) :
    Prop :=
  ∃ dns' xs', ptcFakeDnsGetOrCreate dns d = some (dns', dns.slotAddress r.2) ∧ dns'.Inv xs' ∧
    dns'.cacheOf xs' = r.1 ∧ dns'.SameConfig dns

theorem slotAddress_index (dns : FakeDns) (p : EntryPtr) :
    dns.slotAddress (some (dns.index p).toNat) = lwip_htonl (dns.network_host ||| dns.index p) := by
  rw [slotAddress, UInt32.ofNat_toNat]

/-- A domain with an entry: the entry is touched and its address returned. -/
theorem Inv.getOrCreate_of_find (h : dns.Inv xs) {d : List UInt8} {p : EntryPtr}
    (hn : dns.names d = some p) : GetOrCreateRefines dns d ((dns.cacheOf xs).getOrCreate d) := by
  have hp := ((h.names_eq d p).1 hn).1
  have hfind : (dns.cacheOf xs).find d = some (dns.entryOf p) := by rw [h.find_cacheOf, hn]; rfl
  obtain ⟨hinv, hcache⟩ := inv_touch h hp
  have haddr : (ptcFakeDnsTouch dns p).fake_addr_network p = dns.slotAddress (some (dns.entryOf p).2) := by
    rw [ptcFakeDnsTouch_eq, entryOf, slotAddress_index]
    exact h.fake_addr_eq p hp
  rw [SlotCache.getOrCreate_of_find_some hfind]
  refine ⟨_, _, ?_, hinv, hcache, ?_⟩
  · rw [ptcFakeDnsGetOrCreate_of_find dns p hn, haddr]
  · rw [ptcFakeDnsTouch_eq]
    exact ⟨rfl, rfl, rfl, rfl⟩

/-- A new domain while slots are left: a new entry takes the next slot. -/
theorem Inv.getOrCreate_fresh (h : dns.Inv xs) {d : List UInt8} (hn : dns.names d = none)
    (hcap : dns.capacity ≠ 0) (hlt : dns.used < dns.capacity) :
    GetOrCreateRefines dns d ((dns.cacheOf xs).insert d) := by
  have hv := h.vacant_allocateEntry hlt
  have hlen : (dns.cacheOf xs).entries.length = dns.used.toNat := by
    rw [cacheOf, List.length_map, h.used_eq]
  have hlt' : (dns.cacheOf xs).entries.length < (dns.cacheOf xs).capacity := by
    rw [hlen]
    exact UInt32.lt_iff_toNat_lt.1 hlt
  have hcap' : (dns.cacheOf xs).capacity ≠ 0 := fun h0 => hcap (UInt32.toNat_inj.1 h0)
  -- the new entry is the new domain in slot `used`, and the old entries are as they were
  have hcache : (ptcFakeDnsStoreEntry (ptcFakeDnsAllocateEntry dns) dns.allocated d).cacheOf
      (xs ++ [dns.allocated]) = ((dns.cacheOf xs).insert d).1 := by
    have hold : ∀ q ∈ xs, (ptcFakeDnsAllocateEntry dns).entryOf q = dns.entryOf q := by
      intro q hq
      rw [entryOf, entryOf, ptcFakeDnsAllocateEntry_index,
        Function.update_of_ne (ne_of_lt (h.lt_allocated q hq))]
      rfl
    rw [hv.cacheOf_storeEntry d, SlotCache.insert_of_lt hcap' hlt', List.map_congr_left hold,
      ptcFakeDnsAllocateEntry_index, Function.update_self, hlen]
    rfl
  rw [SlotCache.insert_of_lt hcap' hlt'] at hcache ⊢
  refine ⟨_, _, ?_, ⟨hv.tracks_storeEntry hn, ?_⟩, hcache, ⟨rfl, rfl, rfl, rfl⟩⟩
  · rw [ptcFakeDnsGetOrCreate_of_not_find dns hn hcap, ptcFakeDnsTakeEntry_of_lt dns hlt,
      Option.map_some]
    dsimp only
    rw [ptcFakeDnsStoreEntry_fake_addr_network, Function.update_self, ptcFakeDnsAllocateEntry_index,
      Function.update_self, slotAddress, hlen, UInt32.ofNat_toNat]
    rfl
  · rw [hcache]
    exact SlotCache.wf_insert h.cache_wf (by rw [h.find_cacheOf, hn]; rfl) |>
      fun hw => by rwa [SlotCache.insert_of_lt hcap' hlt'] at hw

/-- A new domain in a full store: the least recently used entry is evicted and its slot reused. -/
theorem Inv.getOrCreate_evict (h : dns.Inv xs) {d : List UInt8} (hn : dns.names d = none)
    (hcap : dns.capacity ≠ 0) (hlt : ¬ dns.used < dns.capacity) :
    GetOrCreateRefines dns d ((dns.cacheOf xs).insert d) := by
  have hfull : (dns.cacheOf xs).capacity ≤ (dns.cacheOf xs).entries.length := by
    rw [cacheOf, List.length_map, ← h.used_eq]
    exact Nat.le_of_not_lt fun hl => hlt (UInt32.lt_iff_toNat_lt.2 hl)
  have hcap' : (dns.cacheOf xs).capacity ≠ 0 := fun h0 => hcap (UInt32.toNat_inj.1 h0)
  -- a full store of some slots has a least recently used entry
  obtain ⟨p, rest, hxs⟩ : ∃ p rest, xs = p :: rest := by
    cases xs with
    | nil => exact absurd (Nat.le_zero.1 (by simpa [cacheOf] using hfull)) hcap'
    | cons p rest => exact ⟨p, rest, rfl⟩
  have hp : p ∈ xs := hxs ▸ List.mem_cons_self
  have hhead : dns.lru.head = some p := by rw [h.lru.head_eq, hxs]; rfl
  have hv := h.vacant_evict hxs
  have hdomain := ptcFakeDnsClearEntryName_domain (ptcFakeDnsLruUnlink dns p) p (h.domain_eq hp)
  have hd : (ptcFakeDnsClearEntryName (ptcFakeDnsLruUnlink dns p) p).names d = none := by
    rw [ptcFakeDnsClearEntryName_names (ptcFakeDnsLruUnlink dns p) p (h.domain_eq hp), nameMapErase]
    by_cases hk : d = (dns.entryOf p).1
    · rw [hk, Function.update_self]
    · rw [Function.update_of_ne hk]
      exact hn
  have hentries : (dns.cacheOf xs).entries = dns.entryOf p :: rest.map dns.entryOf := by
    rw [cacheOf, hxs, List.map_cons]
  have hins := SlotCache.insert_of_full hcap' hfull hentries d
  -- the evicted entry is the new domain in its old slot, and the others are as they were
  have hcache : (ptcFakeDnsStoreEntry (ptcFakeDnsClearEntryName (ptcFakeDnsLruUnlink dns p) p) p d).cacheOf
      (rest ++ [p]) = ((dns.cacheOf xs).insert d).1 := by
    have hold : ∀ q ∈ rest,
        (ptcFakeDnsClearEntryName (ptcFakeDnsLruUnlink dns p) p).entryOf q = dns.entryOf q := by
      intro q hq
      rw [entryOf, entryOf, hdomain, ptcFakeDnsClearEntryName_index,
        Function.update_of_ne (hv.ne_of_mem hq)]
      rfl
    rw [hv.cacheOf_storeEntry d, hins, List.map_congr_left hold, ptcFakeDnsClearEntryName_index,
      ptcFakeDnsClearEntryName_capacity]
    rfl
  refine ⟨_, _, ?_, ⟨hv.tracks_storeEntry hd, ?_⟩, hcache, ?_⟩
  · rw [ptcFakeDnsGetOrCreate_of_not_find dns hn hcap, ptcFakeDnsTakeEntry_of_head dns p hlt hhead,
      Option.map_some, hins]
    dsimp only
    rw [ptcFakeDnsStoreEntry_fake_addr_network, Function.update_self, ptcFakeDnsClearEntryName_index,
      ptcFakeDnsClearEntryName_network_host, slotAddress_index]
    rfl
  · rw [hcache]
    exact SlotCache.wf_insert h.cache_wf (by rw [h.find_cacheOf, hn]; rfl)
  · refine ⟨?_, ?_, ?_, ?_⟩ <;>
      simp only [ptcFakeDnsStoreEntry_network_host, ptcFakeDnsStoreEntry_netmask_host,
        ptcFakeDnsStoreEntry_capacity, ptcFakeDnsStoreEntry_enabled, ptcFakeDnsClearEntryName_network_host,
        ptcFakeDnsClearEntryName_netmask_host, ptcFakeDnsClearEntryName_capacity,
        ptcFakeDnsClearEntryName_enabled] <;> rfl

/-- **`ptcFakeDnsGetOrCreate` refines `SlotCache.getOrCreate`.** -/
theorem Inv.getOrCreate (h : dns.Inv xs) (d : List UInt8) :
    GetOrCreateRefines dns d ((dns.cacheOf xs).getOrCreate d) := by
  cases hn : dns.names d with
  | some p => exact h.getOrCreate_of_find hn
  | none =>
    have hfind : (dns.cacheOf xs).find d = none := by rw [h.find_cacheOf, hn]; rfl
    rw [SlotCache.getOrCreate_of_find_none hfind]
    by_cases hcap : dns.capacity = 0
    · -- no slots: nothing is stored and the address is `0`
      have hcap' : (dns.cacheOf xs).capacity = 0 := by rw [cacheOf, hcap]; rfl
      rw [SlotCache.insert_of_zero hcap']
      refine ⟨dns, xs, ?_, h, rfl, ⟨rfl, rfl, rfl, rfl⟩⟩
      rw [ptcFakeDnsGetOrCreate, ptcFakeDnsFindByName, hn]
      exact if_pos hcap
    · by_cases hlt : dns.used < dns.capacity
      · exact h.getOrCreate_fresh hn hcap hlt
      · exact h.getOrCreate_evict hn hcap hlt

/-! ## `ptcFakeDnsLookupByIp` refines the slot cache -/

/-- The slot `ptcFakeDnsLookupByIp` reads for `ip`: the host bits of the address, when its network
bits are the configured network and the slot is below the capacity. -/
def ipSlot (dns : FakeDns) (ip : UInt32) : Option Nat :=
  let host := lwip_ntohl ip
  if host &&& dns.netmask_host ≠ dns.network_host then none
  else if host &&& ~~~dns.netmask_host ≥ dns.capacity then none
  else some (host &&& ~~~dns.netmask_host).toNat

theorem ipSlot_eq_some_iff {ip : UInt32} {i : Nat} :
    dns.ipSlot ip = some i ↔
      lwip_ntohl ip &&& dns.netmask_host = dns.network_host ∧
        lwip_ntohl ip &&& ~~~dns.netmask_host < dns.capacity ∧
        (lwip_ntohl ip &&& ~~~dns.netmask_host).toNat = i := by
  simp only [ipSlot]
  by_cases hnet : lwip_ntohl ip &&& dns.netmask_host = dns.network_host
  · by_cases hcap : lwip_ntohl ip &&& ~~~dns.netmask_host < dns.capacity
    · simp [hnet, hcap, UInt32.not_le.2 hcap]
    · simp [hnet, hcap, UInt32.not_lt.1 hcap]
  · simp [hnet]

theorem ptcFakeDnsLookupByIp_of_ipSlot_none (hen : dns.enabled = true) {ip : UInt32}
    (hs : dns.ipSlot ip = none) : ptcFakeDnsLookupByIp dns ip = (dns, none) := by
  simp only [ipSlot] at hs
  simp only [ptcFakeDnsLookupByIp, hen, Bool.not_true, Bool.false_eq_true, if_false]
  by_cases hnet : lwip_ntohl ip &&& dns.netmask_host = dns.network_host
  · by_cases hcap : lwip_ntohl ip &&& ~~~dns.netmask_host ≥ dns.capacity
    · simp [hnet, hcap]
    · simp [hnet, hcap] at hs
  · simp [hnet]

theorem ptcFakeDnsLookupByIp_of_ipSlot_some (hen : dns.enabled = true) {ip : UInt32} {i : Nat}
    (hs : dns.ipSlot ip = some i) :
    ptcFakeDnsLookupByIp dns ip =
      match dns.records i with
      | none => (dns, none)
      | some entry =>
        if dns.fake_addr_network entry ≠ ip then (dns, none) else (ptcFakeDnsTouch dns entry, some entry) := by
  obtain ⟨hnet, hcap, rfl⟩ := ipSlot_eq_some_iff.1 hs
  simp only [ptcFakeDnsLookupByIp, hen, Bool.not_true, Bool.false_eq_true, if_false, hnet, ne_eq,
    not_true_eq_false, ge_iff_le, UInt32.not_le.2 hcap, if_false]

theorem and_or_and_not (x m : UInt32) : (x &&& m) ||| (x &&& ~~~m) = x := by
  apply UInt32.toBitVec_inj.1
  simp only [UInt32.toBitVec_or, UInt32.toBitVec_and, UInt32.toBitVec_not]
  ext i
  simp only [BitVec.getElem_or, BitVec.getElem_and, BitVec.getElem_not]
  cases x.toBitVec[i] <;> cases m.toBitVec[i] <;> rfl

/-- A word with bits only under a mask, or'ed with one with bits only outside it, splits back into
the two. -/
theorem or_and_mask {n j m : UInt32} (hn : n &&& ~~~m = 0) (hj : j &&& m = 0) :
    (n ||| j) &&& m = n ∧ (n ||| j) &&& ~~~m = j := by
  have hn' := congrArg UInt32.toBitVec hn
  have hj' := congrArg UInt32.toBitVec hj
  simp only [UInt32.toBitVec_and, UInt32.toBitVec_not, UInt32.toBitVec_zero] at hn' hj'
  -- bit by bit: `n` has no bit outside `m` and `j` none inside
  constructor <;> apply UInt32.toBitVec_inj.1 <;>
    simp only [UInt32.toBitVec_or, UInt32.toBitVec_and, UInt32.toBitVec_not] <;> ext i hi <;>
    have h1 := congrArg (fun v => v[i]) hn' <;> have h2 := congrArg (fun v => v[i]) hj' <;>
    simp only [BitVec.getElem_and, BitVec.getElem_not, BitVec.getElem_zero] at h1 h2 <;>
    simp only [BitVec.getElem_or, BitVec.getElem_and, BitVec.getElem_not] <;>
    cases hnb : n.toBitVec[i] <;> cases hjb : j.toBitVec[i] <;> cases hmb : m.toBitVec[i] <;> simp_all

/-- **Decoding an address.**  The address of slot `i` is read back as slot `i` when `i` has no bit
of the netmask. -/
theorem ipSlot_slotAddress (hnet : dns.network_host &&& ~~~dns.netmask_host = 0) {i : Nat}
    (hi : i < dns.capacity.toNat) (hbits : UInt32.ofNat i &&& dns.netmask_host = 0) :
    dns.ipSlot (dns.slotAddress (some i)) = some i := by
  obtain ⟨hnet', hslot⟩ := or_and_mask hnet hbits
  have hi' : i < 2 ^ 32 := Nat.lt_trans hi dns.capacity.toNat_lt
  have hlt : UInt32.ofNat i < dns.capacity := by
    rw [UInt32.lt_iff_toNat_lt, UInt32.toNat_ofNat_of_lt' hi']
    exact hi
  rw [ipSlot, slotAddress, lwip_ntohl, lwip_htonl_lwip_htonl]
  simp only [hnet', hslot, ne_eq, not_true_eq_false, if_false, ge_iff_le, UInt32.not_le.2 hlt,
    UInt32.toNat_ofNat_of_lt' hi']

/-- The entry of a slot has the address of that slot, so the address check never fails. -/
theorem Tracks.fake_addr_of_ipSlot (h : dns.Tracks xs) {ip : UInt32} {i : Nat}
    (hs : dns.ipSlot ip = some i) {p : EntryPtr} (hp : p ∈ xs) (hpi : (dns.index p).toNat = i) :
    dns.fake_addr_network p = ip := by
  obtain ⟨hnet, -, rfl⟩ := ipSlot_eq_some_iff.1 hs
  have hidx : dns.index p = lwip_ntohl ip &&& ~~~dns.netmask_host := UInt32.toNat_inj.1 hpi
  rw [h.fake_addr_eq p hp, hidx, ← hnet, and_or_and_not, lwip_htonl_lwip_ntohl]

/-- `ptcFakeDnsLookupByIp dns ip` does what the cache's lookup `r` does: the store keeps the
invariant and stands for the cache after it, and the entry returned has the key it returns. -/
def LookupRefines (dns : FakeDns) (ip : UInt32) (r : SlotCache (List UInt8) × Option (List UInt8)) :
    Prop :=
  ∃ xs', (ptcFakeDnsLookupByIp dns ip).1.Inv xs' ∧ (ptcFakeDnsLookupByIp dns ip).1.cacheOf xs' = r.1 ∧
    (ptcFakeDnsLookupByIp dns ip).2.bind dns.domain = r.2 ∧
    (ptcFakeDnsLookupByIp dns ip).1.SameConfig dns

/-- **`ptcFakeDnsLookupByIp` refines `SlotCache.lookup`** at the slot it reads. -/
theorem Inv.lookupByIp (h : dns.Inv xs) {ip : UInt32} {i : Nat} (hs : dns.ipSlot ip = some i) :
    LookupRefines dns ip ((dns.cacheOf xs).lookup i) := by
  rw [LookupRefines, ptcFakeDnsLookupByIp_of_ipSlot_some h.enabled hs]
  cases hr : dns.records i with
  | none =>
    have hfind : (dns.cacheOf xs).findSlot i = none := by rw [h.findSlot_cacheOf, hr]; rfl
    rw [SlotCache.lookup_of_findSlot_none hfind]
    exact ⟨xs, h, rfl, rfl, ⟨rfl, rfl, rfl, rfl⟩⟩
  | some p =>
    obtain ⟨hp, hpi⟩ := (h.records_eq i p).1 hr
    have hfind : (dns.cacheOf xs).findSlot i = some (dns.entryOf p) := by
      rw [h.findSlot_cacheOf, hr]; rfl
    rw [SlotCache.lookup_of_findSlot_some hfind]
    dsimp only
    rw [if_neg (not_not.2 (h.fake_addr_of_ipSlot hs hp hpi))]
    obtain ⟨hinv, hcache⟩ := inv_touch h hp
    refine ⟨_, hinv, hcache, ?_, ?_⟩
    · rw [Option.bind_some, h.domain_eq hp]
    · rw [ptcFakeDnsTouch_eq]
      exact ⟨rfl, rfl, rfl, rfl⟩

/-! ## The address law -/

theorem SameConfig.refl (dns : FakeDns) : dns.SameConfig dns := ⟨rfl, rfl, rfl, rfl⟩

theorem SameConfig.trans {dns₁ dns₂ dns₃ : FakeDns} (h₁ : dns₁.SameConfig dns₂)
    (h₂ : dns₂.SameConfig dns₃) : dns₁.SameConfig dns₃ :=
  ⟨h₁.1.trans h₂.1, h₁.2.1.trans h₂.2.1, h₁.2.2.1.trans h₂.2.2.1, h₁.2.2.2.trans h₂.2.2.2⟩

theorem SameConfig.ipSlot_eq {dns' : FakeDns} (hc : dns'.SameConfig dns) : dns'.ipSlot = dns.ipSlot := by
  obtain ⟨hnet, hmask, hcap, -⟩ := hc
  funext ip
  simp only [ipSlot, hnet, hmask, hcap]

/-- **An address handed out is looked up to its domain**, when no slot has a bit of the netmask:
right after `ptcFakeDnsGetOrCreate` returns a non-zero address for `d`, `ptcFakeDnsLookupByIp`
of that address returns an entry whose domain is `d`. -/
theorem Inv.lookupByIp_getOrCreate (h : dns.Inv xs)
    (hbits : ∀ i < dns.capacity.toNat, UInt32.ofNat i &&& dns.netmask_host = 0) {d : List UInt8}
    {dns' : FakeDns} {a : UInt32} (hg : ptcFakeDnsGetOrCreate dns d = some (dns', a)) (ha : a ≠ 0) :
    ∃ p, (ptcFakeDnsLookupByIp dns' a).2 = some p ∧ dns'.domain p = some d := by
  obtain ⟨dns'', xs', hg', hinv, hcache, hcfg⟩ := h.getOrCreate d
  rw [hg, Option.some_inj, Prod.mk.injEq] at hg'
  obtain ⟨rfl, rfl⟩ := hg'
  cases hr : ((dns.cacheOf xs).getOrCreate d).2 with
  | none =>
    rw [hr] at ha
    exact absurd rfl ha
  | some i =>
    -- the cache handed out slot `i`, whose address decodes back to `i`
    have hmem := SlotCache.mem_getOrCreate_of_eq_some h.cache_wf hr
    have hi : i < dns.capacity.toNat := by
      have := (SlotCache.wf_getOrCreate h.cache_wf d).slot_lt hmem
      rwa [SlotCache.capacity_getOrCreate] at this
    have hslot : dns'.ipSlot (dns.slotAddress (some i)) = some i := by
      rw [hcfg.ipSlot_eq]
      exact ipSlot_slotAddress h.network_host_and hi (hbits i hi)
    obtain ⟨-, -, -, hres, -⟩ := hinv.lookupByIp hslot
    rw [hcache, SlotCache.lookup_getOrCreate h.cache_wf hr] at hres
    cases hp : (ptcFakeDnsLookupByIp dns' (dns.slotAddress (some i))).2 with
    | none =>
      rw [hp] at hres
      cases hres
    | some p => exact ⟨p, rfl, by rwa [hp, Option.bind_some] at hres⟩

/-- Slots below the capacity have no netmask bit when the host bits are the low bits of the
address and the capacity fits in them, as the loader checks. -/
theorem slot_and_netmask_of_contiguous {netmask capacity : UInt32} {k : Nat}
    (hmask : (~~~netmask).toNat = 2 ^ k - 1) (hcap : capacity ≤ ~~~netmask) {i : Nat}
    (hi : i < capacity.toNat) : UInt32.ofNat i &&& netmask = 0 := by
  have hcap' := UInt32.le_iff_toNat_le.1 hcap
  have hi' : i < 2 ^ 32 := Nat.lt_trans hi capacity.toNat_lt
  have hik : i < 2 ^ k := by omega
  -- `i` is all host bits, and the host bits and the netmask have none in common
  have hhost : UInt32.ofNat i &&& ~~~netmask = UInt32.ofNat i := by
    apply UInt32.toNat_inj.1
    rw [UInt32.toNat_and, hmask, Nat.and_two_pow_sub_one_eq_mod, UInt32.toNat_ofNat_of_lt' hi',
      Nat.mod_eq_of_lt hik]
  rw [← hhost, UInt32.and_assoc, UInt32.not_and_self, UInt32.and_zero]

/-! ## Runs -/

/-- The loader sets up an empty store that keeps the invariant. -/
theorem inv_loadSettings {listen_addr network netmask : UInt32} {port ttl cache_size : Int32}
    (h : ptcFakeDnsLoadSettings listen_addr network netmask port ttl cache_size = .ok dns) :
    dns.Inv [] := by
  simp only [ptcFakeDnsLoadSettings] at h
  split_ifs at h
  cases h
  refine ⟨⟨threads_nil _ _, rfl, ?_, rfl, ?_, ?_, nofun, nofun, nofun⟩, ⟨List.nodup_nil, ?_, Nat.zero_le _⟩⟩
  · rw [UInt32.and_assoc, UInt32.and_not_self, UInt32.and_zero]
  · intro i p
    simp
  · intro k p
    simp
  · exact List.Perm.refl _

/-- What the loader checks of the cache size: it fits in the host bits, read as a number. -/
theorem capacity_le_of_loadSettings {listen_addr network netmask : UInt32} {port ttl cache_size : Int32}
    (h : ptcFakeDnsLoadSettings listen_addr network netmask port ttl cache_size = .ok dns) :
    dns.capacity ≤ ~~~dns.netmask_host ∧ dns.netmask_host = lwip_ntohl netmask := by
  simp only [ptcFakeDnsLoadSettings] at h
  split_ifs at h with h₁ h₂ h₃ h₄
  cases h
  exact ⟨UInt32.not_lt.1 fun hlt => h₄ (Or.inr hlt), rfl⟩

/-- A call into the store: `ptcFakeDnsGetOrCreate`, which `ptcFakeDnsBuildResponse` makes for each
`A` question of a query, or `ptcFakeDnsLookupByIp`, which `ptcFakeDnsApplyMappedDestination` makes
for a connection to an address. -/
inductive Call where
  | getOrCreate (domain : List UInt8)
  | lookupByIp (ip : UInt32)

/-- One call; `none` is the failed assertion. -/
def call (dns : FakeDns) : Call → Option FakeDns
  | .getOrCreate domain => (ptcFakeDnsGetOrCreate dns domain).map Prod.fst
  | .lookupByIp ip => some (ptcFakeDnsLookupByIp dns ip).1

/-- Calls one after another, until an assertion fails. -/
def run (dns : FakeDns) : List Call → Option FakeDns
  | [] => some dns
  | c :: cs => (dns.call c).bind fun dns' => dns'.run cs

/-- What a call does to the slot cache, on a store of this configuration. -/
def cacheCall (dns : FakeDns) (c : SlotCache (List UInt8)) : Call → SlotCache (List UInt8)
  | .getOrCreate domain => (c.getOrCreate domain).1
  | .lookupByIp ip =>
    match dns.ipSlot ip with
    | none => c
    | some i => (c.lookup i).1

theorem SameConfig.cacheCall_eq {dns' : FakeDns} (hc : dns'.SameConfig dns) :
    dns'.cacheCall = dns.cacheCall := by
  funext c call
  cases call with
  | getOrCreate d => rfl
  | lookupByIp ip => simp only [cacheCall, hc.ipSlot_eq]

/-- **One call** keeps the invariant, never fails its assertion, and does to the slot cache what the
cache's operation does. -/
theorem Inv.call (h : dns.Inv xs) (c : Call) :
    ∃ dns' xs', dns.call c = some dns' ∧ dns'.Inv xs' ∧
      dns'.cacheOf xs' = dns.cacheCall (dns.cacheOf xs) c ∧ dns'.SameConfig dns := by
  cases c with
  | getOrCreate d =>
    obtain ⟨dns', xs', hg, hinv, hcache, hcfg⟩ := h.getOrCreate d
    exact ⟨dns', xs', by rw [FakeDns.call, hg]; rfl, hinv, hcache, hcfg⟩
  | lookupByIp ip =>
    cases hs : dns.ipSlot ip with
    | none =>
      refine ⟨dns, xs, ?_, h, by rw [cacheCall, hs], SameConfig.refl dns⟩
      rw [FakeDns.call, ptcFakeDnsLookupByIp_of_ipSlot_none h.enabled hs]
    | some i =>
      obtain ⟨xs', hinv, hcache, -, hcfg⟩ := h.lookupByIp hs
      exact ⟨_, xs', rfl, hinv, by rw [hcache, cacheCall, hs], hcfg⟩

/-- **Every run** from a store keeping the invariant keeps it, never fails an assertion, and is the
slot cache's run of the same calls. -/
theorem Inv.run (h : dns.Inv xs) (cs : List Call) :
    ∃ dns' xs', dns.run cs = some dns' ∧ dns'.Inv xs' ∧
      dns'.cacheOf xs' = cs.foldl dns.cacheCall (dns.cacheOf xs) ∧ dns'.SameConfig dns := by
  induction cs generalizing dns xs with
  | nil => exact ⟨dns, xs, rfl, h, rfl, SameConfig.refl dns⟩
  | cons c cs ih =>
    obtain ⟨dns₁, xs₁, hc, h₁, hcache₁, hcfg₁⟩ := h.call c
    obtain ⟨dns₂, xs₂, hr, h₂, hcache₂, hcfg₂⟩ := ih h₁
    refine ⟨dns₂, xs₂, ?_, h₂, ?_, hcfg₂.trans hcfg₁⟩
    · rw [FakeDns.run, hc, Option.bind_some, hr]
    · rw [hcache₂, hcfg₁.cacheCall_eq, hcache₁, List.foldl_cons]

/-! ## What the invariant says -/

/-- **The address law on a contiguous netmask.**  For settings the loader accepts whose netmask is
a run of leading ones, after any run of calls, a non-zero address `ptcFakeDnsGetOrCreate` returns
for `d` is looked up to an entry whose domain is `d`. -/
theorem lookupByIp_getOrCreate_of_contiguous {listen_addr network netmask : UInt32}
    {port ttl cache_size : Int32} {k : Nat} (hmask : (~~~(lwip_ntohl netmask)).toNat = 2 ^ k - 1)
    (hload : ptcFakeDnsLoadSettings listen_addr network netmask port ttl cache_size = .ok dns)
    (cs : List Call) {dns₁ dns₂ : FakeDns} (hrun : dns.run cs = some dns₁) {d : List UInt8}
    {a : UInt32} (hg : ptcFakeDnsGetOrCreate dns₁ d = some (dns₂, a)) (ha : a ≠ 0) :
    ∃ p, (ptcFakeDnsLookupByIp dns₂ a).2 = some p ∧ dns₂.domain p = some d := by
  obtain ⟨dns', xs', hr, hinv, -, hcfg⟩ := (inv_loadSettings hload).run cs
  rw [hrun, Option.some_inj] at hr
  subst hr
  obtain ⟨hcap, hmask'⟩ := capacity_le_of_loadSettings hload
  refine hinv.lookupByIp_getOrCreate (fun i hi => ?_) hg ha
  rw [hcfg.2.1, hmask']
  rw [hcfg.2.2.1] at hi
  rw [hmask'] at hcap
  exact slot_and_netmask_of_contiguous hmask hcap hi

end FakeDns

/-- **A split netmask loses the addresses it hands out.**  The loader accepts network 100.64.0.0
with netmask 255.255.0.255, whose host bits `0x0000FF00` are not the low bits, and a cache of 2.
The second domain gets slot 1 and the address 100.64.0.1, which is outside the configured network:
`ptcFakeDnsLookupByIp` of it returns no entry. -/
theorem ptcFakeDnsLookupByIp_misses_split_netmask :
    ((ptcFakeDnsLoadSettings 0x020012C6 0x00004064 0xFF00FFFF 53 1 2).toOption.bind fun dns =>
      (dns.run [.getOrCreate [97]]).bind fun dns₁ =>
        (ptcFakeDnsGetOrCreate dns₁ [98]).map fun r =>
          (r.2, decide (lwip_ntohl r.2 &&& r.1.netmask_host = r.1.network_host),
            (ptcFakeDnsLookupByIp r.1 r.2).2)) =
      some (0x01004064, false, none) := by
  decide

end PacketsToConnection
end WaterWall
