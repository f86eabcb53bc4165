import WaterWall.WireGuard.AllowedIps

/-!
# Handing an accepted TCP socket to a listener

`socketacceptorRegister` puts every listener's filter in `filters[priority]`, its priority
counting what it pins down: its ports, a whitelist, a blacklist.  `distributeTcpSocket` hands
each accepted socket to one filter in up to three passes, from the most specific match of the
local address (`kDispatchTierExact`) to the least (`kDispatchTierWildcardDual`), each scanning the
levels from the highest down.  A plain filter that matches takes the socket at once; a
balance-group filter that matches takes it only through a sticky entry of its group's idle table,
and is otherwise collected while the scan goes on.  A random collected filter takes the socket
when the scan ends without a taker.

* `distributeTcpSocket_noConsumer_iff`: the socket is refused exactly when no filter is eligible
  at any tier.
* `distributeTcpSocket_least_tier`: the filter that takes the socket is eligible at the least
  tier any filter is, and the socket is closed exactly when applying its options fails.
* `distributeTcpSocket_balancePassedOver`: the levels do not order a pass.  An eligible
  balance-group filter with a whitelist (level 2) loses the socket to a plain filter of level 1
  eligible at the same tier.
-/

set_option autoImplicit false

namespace WaterWall
namespace SocketManager

open WireGuard

/-! ## The model -/

def IPPROTO_TCP : UInt8 := 6

def kFilterLevels : Nat := 4

def kMaxBalanceSelections : Nat := 64

def kDispatchTierExact : Nat := 0

def kDispatchTierWildcardFamily : Nat := 1

def kDispatchTierWildcardDual : Nat := 2

def kDispatchTierCount : Nat := 3

/-- `multiport_backend_t`. -/
inductive MultiportBackend
  | none
  | default
  | iptables
  | sockets
deriving DecidableEq, Repr

/-- `AF_INET` and `AF_INET6`, the families a listener binds. -/
inductive AddressFamily
  | inet
  | inet6
deriving DecidableEq, Repr

/-- `ipmask_t`. -/
structure IpMask where
  ip : IpAddr
  mask : IpAddr
deriving DecidableEq, Repr

/-- The fields of `socket_filter_option_t` the dispatch reads.  `shared_balance_table` names the
balance group's idle table. -/
structure FilterOption where
  protocol : UInt8
  multiport_backend : MultiportBackend
  port_min : UInt16
  port_max : UInt16
  ports : List UInt16
  white_list : List IpMask
  black_list : List IpMask
  shared_balance_table : Option Nat
deriving DecidableEq, Repr

/-- The fields of `socket_filter_t` the dispatch reads. -/
structure SocketFilter where
  option : FilterOption
  bind_addr : IpAddr
  bind_family : AddressFamily
  bind_is_wildcard : Bool
deriving DecidableEq, Repr

def calculateFilterPriority (option : FilterOption) : Nat :=
  (if option.multiport_backend = .none ∨ option.ports.length > 0 then 1 else 0) +
    (if option.white_list.length > 0 then 1 else 0) +
    (if option.black_list.length > 0 then 1 else 0)

/-- `socketmanager_gstate->filters`: the filters of each level in the order they registered. -/
structure FilterTable where
  filters : Nat → List SocketFilter
  /-- A filter sits at the level of its priority. -/
  level_eq : ∀ ri, ∀ f ∈ filters ri, calculateFilterPriority f.option = ri

/-- No listener registered. -/
def FilterTable.empty : FilterTable := ⟨fun _ => [], fun _ _ h => by cases h⟩

/-- `socketacceptorRegister`: `filters_t_push(&filters[priority], filter)`. -/
def socketacceptorRegister (t : FilterTable) (filter : SocketFilter) : FilterTable where
  filters := Function.update t.filters (calculateFilterPriority filter.option)
    (t.filters (calculateFilterPriority filter.option) ++ [filter])
  level_eq := by
    intro ri f hf
    by_cases hri : ri = calculateFilterPriority filter.option
    · subst hri
      rw [Function.update_self, List.mem_append, List.mem_singleton] at hf
      rcases hf with hf | rfl
      · exact t.level_eq _ f hf
      · rfl
    · rw [Function.update_of_ne hri] at hf
      exact t.level_eq ri f hf

/-- The filters in the order a pass visits them: the levels from `kFilterLevels - 1` down. -/
def scanOrder (t : FilterTable) : List SocketFilter :=
  (List.range kFilterLevels).reverse.flatMap t.filters

/-- `needsV4SocketStrategy`: an IPv4-mapped IPv6 address, `::ffff:a.b.c.d`. -/
def needsV4SocketStrategy (addr : List UInt8) : Bool :=
  (List.range 10).all (fun i => addr.getD i 0 == 0) && addr.getD 10 0 == 0xFF &&
    addr.getD 11 0 == 0xFF

/-- `normalizeIpAddr`: an IPv4-mapped IPv6 address becomes the IPv4 address. -/
def normalizeIpAddr : IpAddr → IpAddr
  | .v6 addr => if needsV4SocketStrategy addr then .v4 ((addr.drop 12).take 4) else .v6 addr
  | .v4 addr => .v4 addr

/-- `mappedAclRangeToV4`: a range inside `::ffff:0:0/96`, as an IPv4 range. -/
def mappedAclRangeToV4 (range : IpMask) : Option (List UInt8 × List UInt8) :=
  match range.ip, range.mask with
  | .v6 ip, .v6 mask =>
    if needsV4SocketStrategy ip && (List.range 12).all (fun i => mask.getD i 0 == 0xFF) then
      some ((ip.drop 12).take 4, (mask.drop 12).take 4)
    else none
  | _, _ => none

/-- `socketManagerIpMatchesAcl`: `checkIPRange4` and `checkIPRange6` compare the words under the
mask, which agree exactly when their bytes do (`addrNetcmp`). -/
def socketManagerIpMatchesAcl (addr : IpAddr) (acl : List IpMask) : Bool :=
  acl.any fun range =>
    match normalizeIpAddr addr with
    | .v4 a =>
      (match range.ip, range.mask with
        | .v4 ip, .v4 mask => addrNetcmp 4 a ip mask
        | _, _ => false) ||
      (match mappedAclRangeToV4 range with
        | some (ip, mask) => addrNetcmp 4 a ip mask
        | none => false)
    | .v6 a =>
      match range.ip, range.mask with
      | .v6 ip, .v6 mask => addrNetcmp 16 a ip mask
      | _, _ => false

/-- `processFilterMatch`: the protocol, the port, the whitelist and the blacklist. -/
def processFilterMatch (option : FilterOption) (local_port : UInt16) (paddr : IpAddr) : Bool :=
  if option.protocol ≠ IPPROTO_TCP then false
  else if option.ports.length > 0 ∧ local_port ∉ option.ports then false
  else if option.ports.length = 0 ∧ (option.port_min > local_port ∨ option.port_max < local_port) then
    false
  else if option.white_list.length > 0 ∧ !socketManagerIpMatchesAcl paddr option.white_list then
    false
  else if option.black_list.length > 0 ∧ socketManagerIpMatchesAcl paddr option.black_list then
    false
  else true

def ipAddrEqualsExact : IpAddr → IpAddr → Bool
  | .v4 a, .v4 b => (List.range 4).all fun i => a.getD i 0 == b.getD i 0
  | .v6 a, .v6 b => (List.range 16).all fun i => a.getD i 0 == b.getD i 0
  | _, _ => false

/-- Whether an address is IPv4 (`type == IPADDR_TYPE_V4`). -/
def isIpv4 : IpAddr → Bool
  | .v4 _ => true
  | .v6 _ => false

def socketManagerWildcardMatchesTier (bind_is_v6_wildcard dest_is_v4 : Bool) (tier : Nat) : Bool :=
  if tier = kDispatchTierWildcardFamily then
    -- `0.0.0.0` serves IPv4, `::` serves IPv6
    if dest_is_v4 then !bind_is_v6_wildcard else bind_is_v6_wildcard
  else if tier = kDispatchTierWildcardDual then dest_is_v4 && bind_is_v6_wildcard
  else false

def addrMatchesFilter (filter : SocketFilter) (local_addr : IpAddr) (tier : Nat) : Bool :=
  if tier = kDispatchTierExact then
    if filter.bind_is_wildcard then false else ipAddrEqualsExact filter.bind_addr local_addr
  else if !filter.bind_is_wildcard then false
  else socketManagerWildcardMatchesTier (filter.bind_family = .inet6) (isIpv4 local_addr) tier

def socketManagerCombineBalanceLocalHash (src_hash local_hash : UInt64) (local_port : UInt16)
    (match_tier : Nat) : UInt64 :=
  let golden : UInt64 := 0x9E3779B97F4A7C15
  let scope := local_hash
  let scope := scope ^^^ (local_port.toUInt64 + golden + (scope <<< (6 : UInt64)) +
    (scope >>> (2 : UInt64)))
  let scope := scope ^^^ ((UInt64.ofNat match_tier + 1) + golden + (scope <<< (6 : UInt64)) +
    (scope >>> (2 : UInt64)))
  src_hash ^^^ (scope + golden + (src_hash <<< (6 : UInt64)) + (src_hash >>> (2 : UInt64)))

/-- What a dispatch reads besides the filters. -/
structure DispatchEnv where
  ipaddrCalcHashNoPort : IpAddr → UInt64
  /-- The filter of the sticky entry `idletableGetIdleItemByHash` finds in a balance table. -/
  idle : Nat → UInt64 → Option SocketFilter
  /-- Whether `applyAcceptedTcpSocketOptions` succeeds on this socket. -/
  applyAcceptedTcpSocketOptions : FilterOption → Bool
  /-- `fastRand()`. -/
  fastRand : Nat

/-- How a dispatch ends: `distributeSocket` to a filter, `wioClose` after applying the filter's
options failed, or `noTcpSocketConsumerFound`. -/
inductive Outcome
  | distributed (filter : SocketFilter)
  | closed (filter : SocketFilter)
  | noConsumer
deriving DecidableEq, Repr

/-- A dispatch's end, with the sticky entry `finalizeTcpDistribution` creates. -/
structure DispatchResult where
  outcome : Outcome
  created : Option (Nat × UInt64 × SocketFilter)
deriving DecidableEq, Repr

/-- The locals of `distributeTcpSocketPass`. -/
structure PassState where
  balance_selection_filters : List SocketFilter
  selected_balance_table : Option Nat
  src_hash : UInt64
  src_hashed : Bool
deriving DecidableEq, Repr

/-- A pass before its scan. -/
def PassState.init : PassState := ⟨[], none, 0, false⟩

/-- The socket goes to `filter`, or is closed when its options fail. -/
def handOver (env : DispatchEnv) (filter : SocketFilter) : Outcome :=
  if env.applyAcceptedTcpSocketOptions filter.option then .distributed filter else .closed filter

/-- `balanceTargetStillMatches`, for TCP. -/
def balanceTargetStillMatches (target : SocketFilter) (local_port : UInt16) (paddr : IpAddr)
    (local_addr : IpAddr) (match_tier : Nat) : Bool :=
  processFilterMatch target.option local_port paddr && addrMatchesFilter target local_addr match_tier

/-- `handleBalancedFilter`, for a filter of the balance table `table`: `.inr` when it hands the
socket over, `.inl` with the pass's locals when the scan goes on. -/
def handleBalancedFilter (env : DispatchEnv) (filter : SocketFilter) (table : Nat)
    (local_port : UInt16) (local_addr paddr : IpAddr) (match_tier : Nat) (st : PassState) :
    PassState ⊕ DispatchResult :=
  if st.selected_balance_table ≠ none ∧ st.selected_balance_table ≠ some table then .inl st
  else
    let src_hash := if !st.src_hashed then
      socketManagerCombineBalanceLocalHash (env.ipaddrCalcHashNoPort paddr)
        (env.ipaddrCalcHashNoPort local_addr) local_port match_tier
      else st.src_hash
    let st := { st with src_hash := src_hash, src_hashed := true }
    match env.idle table src_hash with
    | some target =>
      if balanceTargetStillMatches target local_port paddr local_addr match_tier then
        .inr ⟨handOver env target, none⟩
      else collect st
    | none => collect st
where
  /-- The filter joins the candidates, unless there are `kMaxBalanceSelections` already. -/
  collect (st : PassState) : PassState ⊕ DispatchResult :=
    if st.balance_selection_filters.length ≥ kMaxBalanceSelections then .inl st
    else .inl { st with balance_selection_filters := st.balance_selection_filters ++ [filter],
                        selected_balance_table := some table }

/-- The scan of `distributeTcpSocketPass` over `filters`. -/
def distributeTcpSocketPassLoop (env : DispatchEnv) (local_port : UInt16) (local_addr paddr : IpAddr)
    (match_tier : Nat) : PassState → List SocketFilter → PassState ⊕ DispatchResult
  | st, [] => .inl st
  | st, filter :: filters =>
    if !processFilterMatch filter.option local_port paddr then
      distributeTcpSocketPassLoop env local_port local_addr paddr match_tier st filters
    else if !addrMatchesFilter filter local_addr match_tier then
      distributeTcpSocketPassLoop env local_port local_addr paddr match_tier st filters
    else
      match filter.option.shared_balance_table with
      | some table =>
        match handleBalancedFilter env filter table local_port local_addr paddr match_tier st with
        | .inr result => .inr result
        | .inl st => distributeTcpSocketPassLoop env local_port local_addr paddr match_tier st filters
      | none => .inr ⟨handOver env filter, none⟩

/-- `finalizeTcpDistribution`: a random candidate takes the socket, and its group remembers the
source. -/
def finalizeTcpDistribution (env : DispatchEnv) (st : PassState) : Option DispatchResult :=
  match st.balance_selection_filters with
  | [] => none
  | f :: fs =>
    let filter := (f :: fs).getD (env.fastRand % (fs.length + 1)) f
    if env.applyAcceptedTcpSocketOptions filter.option then
      some ⟨.distributed filter, filter.option.shared_balance_table.map (·, st.src_hash, filter)⟩
    else some ⟨.closed filter, none⟩

/-- `distributeTcpSocketPass`: `some` when the pass hands the socket over. -/
def distributeTcpSocketPass (env : DispatchEnv) (t : FilterTable) (local_port : UInt16)
    (local_addr paddr : IpAddr) (match_tier : Nat) : Option DispatchResult :=
  match distributeTcpSocketPassLoop env local_port local_addr paddr match_tier PassState.init
      (scanOrder t) with
  | .inr result => some result
  | .inl st => finalizeTcpDistribution env st

/-- `distributeTcpSocket`: the passes from the most specific tier on, then
`noTcpSocketConsumerFound`. -/
def distributeTcpSocket (env : DispatchEnv) (t : FilterTable) (local_port : UInt16)
    (local_addr paddr : IpAddr) : DispatchResult :=
  match (List.range kDispatchTierCount).findSome?
      (distributeTcpSocketPass env t local_port local_addr paddr) with
  | some result => result
  | none => ⟨.noConsumer, none⟩

/-! ## The passes -/

theorem getD_mem_of_mem {α : Type} {l : List α} {d : α} (hd : d ∈ l) (i : Nat) : l.getD i d ∈ l := by
  rw [List.getD_eq_getElem?_getD]
  cases h : l[i]? with
  | none => exact hd
  | some x => exact List.mem_of_getElem? h

/-- The first tier whose pass succeeds, and every tier before it fails. -/
theorem findSome?_range_eq_some {α : Type} {f : Nat → Option α} {r : α} :
    ∀ {n : Nat}, (List.range n).findSome? f = some r →
      ∃ a < n, f a = some r ∧ ∀ b < a, f b = none
  | 0, h => by cases h
  | n + 1, h => by
    rw [List.range_succ, List.findSome?_append] at h
    cases hn : (List.range n).findSome? f with
    | some r' =>
      rw [hn, Option.some_or] at h
      cases h
      obtain ⟨a, ha, hfa, hbefore⟩ := findSome?_range_eq_some hn
      exact ⟨a, by omega, hfa, hbefore⟩
    | none =>
      rw [hn, Option.none_or, List.findSome?_singleton] at h
      refine ⟨n, by omega, h, fun b hb => ?_⟩
      exact List.findSome?_eq_none_iff.1 hn b (List.mem_range.2 hb)

section Pass

variable (local_port : UInt16) (local_addr paddr : IpAddr) (tier : Nat)

/-- A filter is eligible at a tier: `processFilterMatch` and `addrMatchesFilter` both hold. -/
def Eligible (f : SocketFilter) : Prop :=
  processFilterMatch f.option local_port paddr = true ∧ addrMatchesFilter f local_addr tier = true

/-- What the scan keeps of its locals: every candidate is eligible, and a balance table is chosen
exactly when there is a candidate. -/
def PassInv (st : PassState) : Prop :=
  (∀ f ∈ st.balance_selection_filters, Eligible local_port local_addr paddr tier f) ∧
    (st.selected_balance_table = none ↔ st.balance_selection_filters = [])

variable {local_port local_addr paddr tier} {env : DispatchEnv}

theorem PassInv.init : PassInv local_port local_addr paddr tier PassState.init :=
  ⟨fun _ h => (by simp [PassState.init] at h), ⟨fun _ => rfl, fun _ => rfl⟩⟩

/-- Collecting an eligible filter keeps the locals' invariant, and leaves a candidate. -/
theorem collect_inl {filter : SocketFilter} {table : Nat} {st st' : PassState}
    (hinv : PassInv local_port local_addr paddr tier st)
    (hf : Eligible local_port local_addr paddr tier filter)
    (h : handleBalancedFilter.collect filter table st = .inl st') :
    PassInv local_port local_addr paddr tier st' ∧ st'.balance_selection_filters ≠ [] ∧
      ∀ g ∈ st'.balance_selection_filters, g ∈ st.balance_selection_filters ∨ g = filter := by
  unfold handleBalancedFilter.collect at h
  split_ifs at h with hfull
  · -- already `kMaxBalanceSelections` candidates
    cases h
    refine ⟨hinv, fun hnil => ?_, fun g hg => Or.inl hg⟩
    rw [hnil] at hfull
    exact absurd hfull (by decide)
  · cases h
    refine ⟨⟨fun g hg => ?_, ?_⟩, by simp, fun g hg => ?_⟩
    · rcases List.mem_append.1 hg with hg | hg
      · exact hinv.1 g hg
      · rw [List.mem_singleton.1 hg]
        exact hf
    · simp
    · simpa using hg

/-- `handleBalancedFilter` hands the socket to an eligible filter: its sticky target. -/
theorem handleBalancedFilter_inr {filter : SocketFilter} {table : Nat} {st : PassState}
    {result : DispatchResult}
    (h : handleBalancedFilter env filter table local_port local_addr paddr tier st = .inr result) :
    ∃ g, (∃ table h, env.idle table h = some g) ∧ Eligible local_port local_addr paddr tier g ∧
      result = ⟨handOver env g, none⟩ := by
  unfold handleBalancedFilter at h
  split at h
  · cases h
  dsimp only at h
  generalize (if !st.src_hashed then _ else st.src_hash) = src_hash at h
  split at h
  · rename_i target htarget
    split_ifs at h with hmatch
    · cases h
      unfold balanceTargetStillMatches at hmatch
      exact ⟨target, ⟨_, _, htarget⟩, Bool.and_eq_true_iff.1 hmatch, rfl⟩
    · unfold handleBalancedFilter.collect at h
      split_ifs at h
  · unfold handleBalancedFilter.collect at h
    split_ifs at h

/-- When the scan goes on past an eligible balance filter, a candidate is left. -/
theorem handleBalancedFilter_inl {filter : SocketFilter} {table : Nat} {st st' : PassState}
    (hinv : PassInv local_port local_addr paddr tier st)
    (hf : Eligible local_port local_addr paddr tier filter)
    (h : handleBalancedFilter env filter table local_port local_addr paddr tier st = .inl st') :
    PassInv local_port local_addr paddr tier st' ∧ st'.balance_selection_filters ≠ [] ∧
      ∀ g ∈ st'.balance_selection_filters, g ∈ st.balance_selection_filters ∨ g = filter := by
  unfold handleBalancedFilter at h
  split at h
  · -- another group was chosen first, so there is a candidate
    rename_i hother
    cases h
    exact ⟨hinv, fun hnil => hother.1 (hinv.2.2 hnil), fun g hg => Or.inl hg⟩
  · dsimp only at h
    generalize (if !st.src_hashed then _ else st.src_hash) = src_hash at h
    -- the hash is the only local the lookup changes
    have hinv' : PassInv local_port local_addr paddr tier
        { st with src_hash := src_hash, src_hashed := true } := hinv
    split at h
    · split_ifs at h
      have hres := collect_inl hinv' hf h
      exact hres
    · have hres := collect_inl hinv' hf h
      exact hres

theorem distributeTcpSocketPassLoop_skip {filter : SocketFilter} (filters : List SocketFilter)
    (st : PassState) (hf : ¬Eligible local_port local_addr paddr tier filter) :
    distributeTcpSocketPassLoop env local_port local_addr paddr tier st (filter :: filters) =
      distributeTcpSocketPassLoop env local_port local_addr paddr tier st filters := by
  unfold Eligible at hf
  rw [distributeTcpSocketPassLoop]
  by_cases hp : processFilterMatch filter.option local_port paddr = true
  · have ha : addrMatchesFilter filter local_addr tier = false := by
      simpa [hp] using hf
    simp [hp, ha]
  · simp [hp]

/-- **The scan hands the socket only to an eligible filter.** -/
theorem distributeTcpSocketPassLoop_inr :
    ∀ {filters : List SocketFilter} {st : PassState} {result : DispatchResult},
      distributeTcpSocketPassLoop env local_port local_addr paddr tier st filters = .inr result →
      ∃ g, (g ∈ filters ∨ ∃ table h, env.idle table h = some g) ∧
        Eligible local_port local_addr paddr tier g ∧ result = ⟨handOver env g, none⟩
  | [], _, _, h => by cases h
  | filter :: filters, st, result, h => by
    by_cases hf : Eligible local_port local_addr paddr tier filter
    · rw [distributeTcpSocketPassLoop, if_neg (by simp [hf.1]), if_neg (by simp [hf.2])] at h
      split at h
      · split at h
        · rename_i hbal
          cases h
          obtain ⟨g, hg, hgel, rfl⟩ := handleBalancedFilter_inr hbal
          exact ⟨g, Or.inr hg, hgel, rfl⟩
        · obtain ⟨g, hg, hgel, rfl⟩ := distributeTcpSocketPassLoop_inr h
          exact ⟨g, hg.imp (List.mem_cons_of_mem _) id, hgel, rfl⟩
      · -- a plain filter takes the socket at once
        cases h
        exact ⟨filter, Or.inl List.mem_cons_self, hf, rfl⟩
    · rw [distributeTcpSocketPassLoop_skip filters st hf] at h
      obtain ⟨g, hg, hgel, rfl⟩ := distributeTcpSocketPassLoop_inr h
      exact ⟨g, hg.imp (List.mem_cons_of_mem _) id, hgel, rfl⟩

/-- **A scan that ends without a taker keeps its locals' invariant, and has no candidate only
when no filter it saw was eligible.** -/
theorem distributeTcpSocketPassLoop_inl :
    ∀ {filters : List SocketFilter} {st st' : PassState},
      PassInv local_port local_addr paddr tier st →
      distributeTcpSocketPassLoop env local_port local_addr paddr tier st filters = .inl st' →
      PassInv local_port local_addr paddr tier st' ∧
        (st'.balance_selection_filters = [] →
          st.balance_selection_filters = [] ∧
            ∀ f ∈ filters, ¬Eligible local_port local_addr paddr tier f) ∧
        ∀ g ∈ st'.balance_selection_filters, g ∈ st.balance_selection_filters ∨ g ∈ filters
  | [], st, st', hinv, h => by
    cases h
    exact ⟨hinv, fun hnil => ⟨hnil, fun _ h => (by simp at h)⟩, fun g hg => Or.inl hg⟩
  | filter :: filters, st, st', hinv, h => by
    by_cases hf : Eligible local_port local_addr paddr tier filter
    · rw [distributeTcpSocketPassLoop, if_neg (by simp [hf.1]), if_neg (by simp [hf.2])] at h
      split at h
      · split at h
        · cases h
        · -- the balance filter leaves a candidate, and candidates only accumulate
          rename_i st₁ hbal
          obtain ⟨hinv₁, hsel₁, hmem₁⟩ := handleBalancedFilter_inl hinv hf hbal
          obtain ⟨hinv', hnil', hmem'⟩ := distributeTcpSocketPassLoop_inl hinv₁ h
          refine ⟨hinv', fun hnil => absurd (hnil' hnil).1 hsel₁, fun g hg => ?_⟩
          rcases hmem' g hg with hg | hg
          · rcases hmem₁ g hg with hg | rfl
            · exact Or.inl hg
            · exact Or.inr List.mem_cons_self
          · exact Or.inr (List.mem_cons_of_mem _ hg)
      · cases h
    · rw [distributeTcpSocketPassLoop_skip filters st hf] at h
      obtain ⟨hinv', hnil', hmem'⟩ := distributeTcpSocketPassLoop_inl hinv h
      refine ⟨hinv', fun hnil => ⟨(hnil' hnil).1, fun g hg => ?_⟩,
        fun g hg => (hmem' g hg).imp id (List.mem_cons_of_mem _)⟩
      rcases List.mem_cons.1 hg with rfl | hg
      · exact hf
      · exact (hnil' hnil).2 g hg

/-- A scan over filters none of which is eligible changes nothing. -/
theorem distributeTcpSocketPassLoop_none_eligible :
    ∀ {filters : List SocketFilter} (st : PassState),
      (∀ f ∈ filters, ¬Eligible local_port local_addr paddr tier f) →
      distributeTcpSocketPassLoop env local_port local_addr paddr tier st filters = .inl st
  | [], _, _ => rfl
  | filter :: filters, st, h => by
    rw [distributeTcpSocketPassLoop_skip filters st (h filter List.mem_cons_self)]
    exact distributeTcpSocketPassLoop_none_eligible st fun f hf => h f (List.mem_cons_of_mem _ hf)

/-- `finalizeTcpDistribution` hands the socket to one of the candidates. -/
theorem finalizeTcpDistribution_some {st : PassState} {result : DispatchResult}
    (h : finalizeTcpDistribution env st = some result) :
    ∃ g ∈ st.balance_selection_filters, result.outcome = handOver env g := by
  unfold finalizeTcpDistribution at h
  split at h
  · cases h
  · rename_i f fs hsel
    have hmem : (f :: fs).getD (env.fastRand % (fs.length + 1)) f ∈ st.balance_selection_filters := by
      rw [hsel]
      exact getD_mem_of_mem List.mem_cons_self _
    refine ⟨_, hmem, ?_⟩
    dsimp only at h
    split_ifs at h with happly
    · cases h
      exact (if_pos happly).symm
    · cases h
      exact (if_neg happly).symm

theorem finalizeTcpDistribution_eq_none {st : PassState} :
    finalizeTcpDistribution env st = none ↔ st.balance_selection_filters = [] := by
  unfold finalizeTcpDistribution
  split
  · rename_i hsel
    exact ⟨fun _ => hsel, fun _ => rfl⟩
  · rename_i f fs hsel
    refine ⟨fun h => ?_, fun h => by rw [hsel] at h; cases h⟩
    dsimp only at h
    split_ifs at h

variable (t : FilterTable)

/-- **A pass finds no taker exactly when no filter is eligible at its tier.** -/
theorem distributeTcpSocketPass_eq_none :
    distributeTcpSocketPass env t local_port local_addr paddr tier = none ↔
      ∀ f ∈ scanOrder t, ¬Eligible local_port local_addr paddr tier f := by
  unfold distributeTcpSocketPass
  constructor
  · intro h
    split at h
    · cases h
    · rename_i st hloop
      exact ((distributeTcpSocketPassLoop_inl PassInv.init hloop).2.1
        (finalizeTcpDistribution_eq_none.1 h)).2
  · intro h
    rw [distributeTcpSocketPassLoop_none_eligible PassState.init h]
    exact finalizeTcpDistribution_eq_none.2 rfl

/-- **A pass hands the socket to a filter eligible at its tier.** -/
theorem distributeTcpSocketPass_eq_some {result : DispatchResult}
    (h : distributeTcpSocketPass env t local_port local_addr paddr tier = some result) :
    ∃ g, (g ∈ scanOrder t ∨ ∃ table h, env.idle table h = some g) ∧
      Eligible local_port local_addr paddr tier g ∧ result.outcome = handOver env g := by
  unfold distributeTcpSocketPass at h
  split at h
  · rename_i result' hloop
    cases h
    obtain ⟨g, hg, hgel, rfl⟩ := distributeTcpSocketPassLoop_inr hloop
    exact ⟨g, hg, hgel, rfl⟩
  · rename_i st hloop
    obtain ⟨g, hg, hout⟩ := finalizeTcpDistribution_some h
    obtain ⟨hinv, -, hmem⟩ := distributeTcpSocketPassLoop_inl PassInv.init hloop
    -- a candidate is a filter the scan saw and found eligible
    have hgmem : g ∈ scanOrder t := (hmem g hg).resolve_left (fun h => by cases h)
    exact ⟨g, Or.inl hgmem, hinv.1 g hg, hout⟩

end Pass

/-! ## The dispatch -/

section Dispatch

variable (env : DispatchEnv) (t : FilterTable) (local_port : UInt16) (local_addr paddr : IpAddr)

theorem handOver_ne_noConsumer (g : SocketFilter) : handOver env g ≠ .noConsumer := by
  unfold handOver
  split <;> nofun

/-- **The socket is refused exactly when no filter is eligible at any tier.** -/
theorem distributeTcpSocket_noConsumer_iff :
    (distributeTcpSocket env t local_port local_addr paddr).outcome = .noConsumer ↔
      ∀ tier < kDispatchTierCount, ∀ f ∈ scanOrder t,
        ¬Eligible local_port local_addr paddr tier f := by
  unfold distributeTcpSocket
  constructor
  · intro h tier htier
    split at h
    · -- a pass that succeeds hands the socket over
      rename_i result hfind
      obtain ⟨a, -, ha, -⟩ := findSome?_range_eq_some hfind
      obtain ⟨g, -, -, hout⟩ := distributeTcpSocketPass_eq_some t ha
      exact absurd (hout.symm.trans h) (handOver_ne_noConsumer env g)
    · rename_i hfind
      exact (distributeTcpSocketPass_eq_none t).1
        (List.findSome?_eq_none_iff.1 hfind tier (List.mem_range.2 htier))
  · intro h
    rw [List.findSome?_eq_none_iff.2 fun tier htier =>
      (distributeTcpSocketPass_eq_none t).2 (h tier (List.mem_range.1 htier))]

/-- **The socket goes to a filter eligible at the least tier at which any filter is**: a
registered filter or a balance group's sticky target, and it is closed exactly when applying that
filter's options fails (`handOver`). -/
theorem distributeTcpSocket_least_tier :
    (distributeTcpSocket env t local_port local_addr paddr).outcome = .noConsumer ∨
      ∃ g tier, (g ∈ scanOrder t ∨ ∃ table h, env.idle table h = some g) ∧
        tier < kDispatchTierCount ∧ Eligible local_port local_addr paddr tier g ∧
        (∀ tier' < tier, ∀ f ∈ scanOrder t, ¬Eligible local_port local_addr paddr tier' f) ∧
        (distributeTcpSocket env t local_port local_addr paddr).outcome = handOver env g := by
  unfold distributeTcpSocket
  split
  · rename_i result hfind
    obtain ⟨a, ha, hpass, hbefore⟩ := findSome?_range_eq_some hfind
    obtain ⟨g, hg, hgel, hout⟩ := distributeTcpSocketPass_eq_some t hpass
    exact Or.inr ⟨g, a, hg, ha, hgel,
      fun b hb => (distributeTcpSocketPass_eq_none t).1 (hbefore b hb), hout⟩
  · exact Or.inl rfl

end Dispatch

/-! ## A balance group passed over for a plain listener -/

/-- A balance-group listener on port 443 for `10.0.0.0/8`, bound to `0.0.0.0`. -/
def balancedFilter : SocketFilter :=
  ⟨⟨IPPROTO_TCP, .none, 443, 443, [], [⟨.v4 [10, 0, 0, 0], .v4 [255, 0, 0, 0]⟩], [], some 0⟩,
    .v4 [0, 0, 0, 0], .inet, true⟩

/-- A plain listener on port 443 for every peer, bound to `0.0.0.0`. -/
def plainFilter : SocketFilter :=
  ⟨⟨IPPROTO_TCP, .none, 443, 443, [], [], [], none⟩, .v4 [0, 0, 0, 0], .inet, true⟩

/-- The two registered, the balance group first. -/
def sharedPortFilters : FilterTable :=
  socketacceptorRegister (socketacceptorRegister FilterTable.empty balancedFilter) plainFilter

/-- No sticky entry yet, and every socket option applies. -/
def firstConnectionEnv : DispatchEnv := ⟨fun _ => 0, fun _ _ => none, fun _ => true, 0⟩

/-- **A plain listener of a lower level takes the socket from an eligible balance group.**  A
peer `10.1.2.3` connects to `192.0.2.1:443`.  Both listeners are eligible at the tier
`kDispatchTierWildcardFamily`, the balance group at level 2 and the plain listener at level 1, and
no listener is eligible at `kDispatchTierExact`; the plain listener gets the socket. -/
theorem distributeTcpSocket_balancePassedOver :
    (distributeTcpSocket firstConnectionEnv sharedPortFilters 443 (.v4 [192, 0, 2, 1])
        (.v4 [10, 1, 2, 3])).outcome = .distributed plainFilter ∧
      calculateFilterPriority balancedFilter.option = 2 ∧
      calculateFilterPriority plainFilter.option = 1 ∧
      balancedFilter ∈ scanOrder sharedPortFilters ∧
      processFilterMatch balancedFilter.option 443 (.v4 [10, 1, 2, 3]) = true ∧
      addrMatchesFilter balancedFilter (.v4 [192, 0, 2, 1]) kDispatchTierWildcardFamily = true ∧
      ∀ f ∈ scanOrder sharedPortFilters,
        addrMatchesFilter f (.v4 [192, 0, 2, 1]) kDispatchTierExact = false := by
  refine ⟨by decide, by decide, by decide, by decide, by decide, by decide, by decide⟩

end SocketManager
end WaterWall
