import WaterWall.Socks5.Control

/-!
# The SOCKS5 address codec

`socks5serverWriteAddress` puts an address on the wire (its type, the address, the port) and
`socks5serverParseAddressBytes` reads one back from the request phase's buffer: `1` with the
target and the bytes it took, `0` to wait for more bytes, `-1` to refuse an address type it does
not know.

* `socks5serverParseAddressBytes_writeAddress`: what is written is read back, whatever follows it;
  and `socks5serverWriteAddress_of_parsed`: what is read is written back as the bytes it took.
* `socks5serverParseAddressBytes_needMore_iff`: the parser waits exactly on the strict prefixes of
  what `socks5serverWriteAddress` writes, and on a domain whose length byte is `0`, which no
  extension completes; `socks5serverParseAddressBytes_unsupported_iff`: it refuses exactly an
  unknown address type.
* `socks5serverControl_zeroDomain_stalls`: a request whose domain length byte is `0` keeps the
  control line waiting in the request phase, whatever the client sends after it.
-/

set_option autoImplicit false

namespace WaterWall
namespace Socks5

open Incremental

variable {υ : Type}

/-! ## The parser's branches -/

theorem getD_zero_of_cons {a : UInt8} {rest : List UInt8} : (a :: rest).getD 0 0 = a := rfl

theorem socks5serverParseAddressBytes_ipv4 {buf : List UInt8}
    (hatyp : buf.getD 0 0 = kSocks5AddrTypeIpv4) (hlen : 1 + 4 + 2 ≤ buf.length) :
    ∃ target, socks5serverParseAddressBytes buf = .parsed target (1 + 4 + 2) := by
  rw [socks5serverParseAddressBytes, if_neg (by omega)]
  simp only [hatyp, if_true]
  rw [dif_neg (by omega)]
  exact ⟨_, rfl⟩

theorem socks5serverParseAddressBytes_ipv6 {buf : List UInt8}
    (hatyp : buf.getD 0 0 = kSocks5AddrTypeIpv6) (hlen : 1 + 16 + 2 ≤ buf.length) :
    ∃ target, socks5serverParseAddressBytes buf = .parsed target (1 + 16 + 2) := by
  rw [socks5serverParseAddressBytes, if_neg (by omega)]
  simp only [hatyp, if_true, show kSocks5AddrTypeIpv6 ≠ kSocks5AddrTypeIpv4 by decide, if_false]
  rw [dif_neg (by omega)]
  exact ⟨_, rfl⟩

theorem socks5serverParseAddressBytes_domain {buf : List UInt8}
    (hatyp : buf.getD 0 0 = kSocks5AddrTypeDomain) (hzero : buf.getD 1 0 ≠ 0)
    (hlen : 2 + (buf.getD 1 0).toNat + 2 ≤ buf.length) :
    ∃ target,
      socks5serverParseAddressBytes buf = .parsed target (2 + (buf.getD 1 0).toNat + 2) := by
  rw [socks5serverParseAddressBytes, if_neg (by omega)]
  simp only [hatyp, if_true, show kSocks5AddrTypeDomain ≠ kSocks5AddrTypeIpv4 by decide,
    show kSocks5AddrTypeDomain ≠ kSocks5AddrTypeIpv6 by decide, if_false]
  rw [if_neg (by omega), if_neg (not_or.2 ⟨by omega, hzero⟩)]
  exact ⟨_, rfl⟩

/-- A domain whose length byte is `0` is waited on, whatever follows it. -/
theorem socks5serverParseAddressBytes_zeroDomain (rest : List UInt8) :
    socks5serverParseAddressBytes (kSocks5AddrTypeDomain :: 0 :: rest) = .needMore := by
  rw [socks5serverParseAddressBytes, if_neg (by simp)]
  simp only [getD_zero_of_cons, if_true,
    show kSocks5AddrTypeDomain ≠ kSocks5AddrTypeIpv4 by decide,
    show kSocks5AddrTypeDomain ≠ kSocks5AddrTypeIpv6 by decide, if_false]
  rw [if_neg (by simp)]
  exact if_pos (Or.inr rfl)

/-- An address type other than IPv4, a domain and IPv6 is refused at once. -/
theorem socks5serverParseAddressBytes_unknown {atyp : UInt8} (rest : List UInt8)
    (hv4 : atyp ≠ kSocks5AddrTypeIpv4) (hdom : atyp ≠ kSocks5AddrTypeDomain)
    (hv6 : atyp ≠ kSocks5AddrTypeIpv6) :
    socks5serverParseAddressBytes (atyp :: rest) = .unsupported := by
  rw [socks5serverParseAddressBytes, if_neg (by simp)]
  simp only [getD_zero_of_cons]
  rw [if_neg hv4, if_neg hv6, if_neg hdom]

/-! ## Writing, then reading back -/

/-- **What is written is read back.**  Whatever follows it, the parser reads an address written by
`socks5serverWriteAddress` as that address, and takes exactly the bytes written. -/
theorem socks5serverParseAddressBytes_writeAddress {ctx : AddressContext} {bytes : List UInt8}
    (h : socks5serverWriteAddress ctx = some bytes) (rest : List UInt8) :
    socks5serverParseAddressBytes (bytes ++ rest) = .parsed ctx bytes.length := by
  obtain ⟨host, port⟩ := ctx
  have hport := portOfBytes_portBytes port rest
  cases host with
  | ipv4 addr haddr =>
    simp only [socks5serverWriteAddress, Option.some.injEq] at h
    subst h
    simp [socks5serverParseAddressBytes, haddr, kSocks5AddrTypeIpv4, hport]
    rw [dif_neg (by omega)]
  | ipv6 addr haddr =>
    simp only [socks5serverWriteAddress, Option.some.injEq] at h
    subst h
    simp [socks5serverParseAddressBytes, haddr, kSocks5AddrTypeIpv6, kSocks5AddrTypeIpv4, hport]
    rw [dif_neg (by omega)]
  | domain name hname =>
    by_cases hpos : 0 < name.length
    · simp only [socks5serverWriteAddress, addresscontextIsDomain, hpos, decide_true, if_true,
        Option.some.injEq] at h
      subst h
      -- the length byte spells the name's length, which is not `0`
      have hlen : (UInt8.ofNat name.length).toNat = name.length := UInt8.toNat_ofNat_of_lt' hname
      have hzero : UInt8.ofNat name.length ≠ 0 := fun hz => by
        rw [hz] at hlen
        simp at hlen
        omega
      have hdrop : (name ++ (portBytes port ++ rest)).drop name.length = portBytes port ++ rest :=
        List.drop_left
      simp [socks5serverParseAddressBytes, kSocks5AddrTypeIpv6, kSocks5AddrTypeIpv4,
        kSocks5AddrTypeDomain, hlen, hzero, Nat.add_comm 2, hdrop, hport]
    · simp [socks5serverWriteAddress, addresscontextIsDomain, hpos] at h
  | unset => simp [socks5serverWriteAddress] at h

/-- The first `1 + a + 2` bytes: the type byte, `a` bytes, and two bytes after them. -/
theorem take_cons_add {x : UInt8} {xs : List UInt8} (a : Nat) :
    (x :: xs).take (1 + a + 2) = x :: (xs.take a ++ (xs.drop a).take 2) := by
  rw [Nat.add_comm 1, Nat.add_right_comm, List.take_succ_cons, List.take_add]

/-- **What is read is written back.**  An address the parser reads is written by
`socks5serverWriteAddress` as the bytes the parser took. -/
theorem socks5serverWriteAddress_of_parsed {buf : List UInt8} {target : AddressContext}
    {consumed : Nat} (h : socks5serverParseAddressBytes buf = .parsed target consumed) :
    socks5serverWriteAddress target = some (buf.take consumed) := by
  rw [socks5serverParseAddressBytes] at h
  have h1 : ¬ buf.length < 1 := fun hl => by rw [if_pos hl] at h; cases h
  rw [if_neg h1] at h
  obtain ⟨atyp, xs, rfl⟩ : ∃ atyp xs, buf = atyp :: xs := List.exists_cons_of_ne_nil
    (by rintro rfl; exact h1 (by simp))
  simp only [getD_zero_of_cons] at h
  by_cases hv4 : atyp = kSocks5AddrTypeIpv4
  · -- an IPv4 address: the type, four bytes and the port
    subst hv4
    rw [if_pos rfl] at h
    have h7 : ¬ (kSocks5AddrTypeIpv4 :: xs).length < 1 + 4 + 2 := fun hl => by
      rw [dif_pos hl] at h
      cases h
    rw [dif_neg h7] at h
    cases h
    have hport : 2 ≤ (xs.drop 4).length := by simp only [List.length_cons] at h7; simp; omega
    rw [take_cons_add]
    simp only [socks5serverWriteAddress, List.drop_succ_cons, List.drop_zero,
      portBytes_portOfBytes hport, List.cons_append]
  rw [if_neg hv4] at h
  by_cases hv6 : atyp = kSocks5AddrTypeIpv6
  · -- an IPv6 address: the type, sixteen bytes and the port
    subst hv6
    rw [if_pos rfl] at h
    have h19 : ¬ (kSocks5AddrTypeIpv6 :: xs).length < 1 + 16 + 2 := fun hl => by
      rw [dif_pos hl] at h
      cases h
    rw [dif_neg h19] at h
    cases h
    have hport : 2 ≤ (xs.drop 16).length := by simp only [List.length_cons] at h19; simp; omega
    rw [take_cons_add]
    simp only [socks5serverWriteAddress, List.drop_succ_cons, List.drop_zero,
      portBytes_portOfBytes hport, List.cons_append]
  rw [if_neg hv6] at h
  by_cases hdom : atyp = kSocks5AddrTypeDomain
  · -- a domain: the type, the length byte, the name and the port
    subst hdom
    rw [if_pos rfl] at h
    obtain ⟨d, ys, rfl⟩ : ∃ d ys, xs = d :: ys := List.exists_cons_of_ne_nil
      (by rintro rfl; simp at h)
    simp only [List.getD_cons_succ, List.getD_cons_zero, List.length_cons] at h
    have hshort : ¬ (ys.length + 1 + 1 < 2 + d.toNat + 2 ∨ d = 0) := fun hl => by
      rw [if_pos hl] at h
      cases h
    rw [if_neg hshort] at h
    cases h
    have hpos : 0 < d.toNat :=
      Nat.pos_of_ne_zero fun h0 => hshort (Or.inr (UInt8.toNat_inj.1 h0))
    have hdlen : d.toNat ≤ ys.length := by omega
    have hport : 2 ≤ (ys.drop d.toNat).length := by rw [List.length_drop]; omega
    have hdrop : (kSocks5AddrTypeDomain :: d :: ys).drop (2 + d.toNat) = ys.drop d.toNat := by
      rw [Nat.add_comm]
      rfl
    have htake : (kSocks5AddrTypeDomain :: d :: ys).take (2 + d.toNat + 2) =
        kSocks5AddrTypeDomain :: d :: (ys.take d.toNat ++ (ys.drop d.toNat).take 2) := by
      rw [show 2 + d.toNat + 2 = d.toNat + 2 + 1 + 1 by omega, List.take_succ_cons,
        List.take_succ_cons, List.take_add]
    simp only [socks5serverWriteAddress, addresscontextIsDomain, List.drop_succ_cons,
      List.drop_zero, List.length_take, Nat.min_eq_left hdlen, hpos, decide_true, if_true,
      UInt8.ofNat_toNat, hdrop, portBytes_portOfBytes hport, htake, List.cons_append]
  rw [if_neg hdom] at h
  cases h

/-! ## When the parser waits, and when it refuses -/

/-- No address is written with a domain length byte of `0`. -/
theorem socks5serverWriteAddress_not_zeroDomain {ctx : AddressContext} {bytes : List UInt8}
    (h : socks5serverWriteAddress ctx = some bytes) (rest : List UInt8) :
    ¬ (kSocks5AddrTypeDomain :: 0 :: rest) <+: bytes := by
  rintro ⟨t, rfl⟩
  have hread := socks5serverParseAddressBytes_writeAddress h []
  rw [List.append_nil, List.cons_append, List.cons_append,
    socks5serverParseAddressBytes_zeroDomain] at hread
  cases hread

/-- A buffer the parser waits on, other than a domain of length `0`, is completed by some bytes
into an address the parser reads whole. -/
theorem socks5serverParseAddressBytes_complete {buf : List UInt8}
    (h : socks5serverParseAddressBytes buf = .needMore)
    (hzero : ∀ rest, buf ≠ kSocks5AddrTypeDomain :: 0 :: rest) :
    ∃ ext target, ext ≠ [] ∧
      socks5serverParseAddressBytes (buf ++ ext) = .parsed target (buf ++ ext).length := by
  cases buf with
  | nil =>
    obtain ⟨target, ht⟩ := @socks5serverParseAddressBytes_ipv4
      ([kSocks5AddrTypeIpv4, 0, 0, 0, 0, 0, 0]) rfl (by simp)
    exact ⟨_, target, by simp, ht⟩
  | cons atyp xs =>
    -- a buffer long enough for its type would have been read, so the zeros that fill it up to
    -- that length complete it
    have hgetD : ∀ (ext : List UInt8) (i : Nat), i < (atyp :: xs).length →
        ((atyp :: xs) ++ ext).getD i 0 = (atyp :: xs).getD i 0 :=
      fun ext i hi => List.getD_append _ _ _ _ hi
    by_cases hv4 : atyp = kSocks5AddrTypeIpv4
    · have hshort : (atyp :: xs).length < 1 + 4 + 2 := Nat.lt_of_not_le fun hl => by
        obtain ⟨_, ht⟩ := socks5serverParseAddressBytes_ipv4 (by rw [getD_zero_of_cons, hv4]) hl
        rw [ht] at h
        cases h
      obtain ⟨target, ht⟩ := @socks5serverParseAddressBytes_ipv4
        ((atyp :: xs) ++ List.replicate (1 + 4 + 2 - (atyp :: xs).length) 0)
        (by rw [hgetD _ 0 (by simp), getD_zero_of_cons, hv4])
        (by rw [List.length_append, List.length_replicate]; omega)
      refine ⟨List.replicate (1 + 4 + 2 - (atyp :: xs).length) 0, target, ?_, ?_⟩
      · rw [Ne, List.replicate_eq_nil_iff]
        omega
      rw [ht]
      simp only [List.length_append, List.length_replicate]
      congr 1
      omega
    by_cases hv6 : atyp = kSocks5AddrTypeIpv6
    · have hshort : (atyp :: xs).length < 1 + 16 + 2 := Nat.lt_of_not_le fun hl => by
        obtain ⟨_, ht⟩ := socks5serverParseAddressBytes_ipv6 (by rw [getD_zero_of_cons, hv6]) hl
        rw [ht] at h
        cases h
      obtain ⟨target, ht⟩ := @socks5serverParseAddressBytes_ipv6
        ((atyp :: xs) ++ List.replicate (1 + 16 + 2 - (atyp :: xs).length) 0)
        (by rw [hgetD _ 0 (by simp), getD_zero_of_cons, hv6])
        (by rw [List.length_append, List.length_replicate]; omega)
      refine ⟨List.replicate (1 + 16 + 2 - (atyp :: xs).length) 0, target, ?_, ?_⟩
      · rw [Ne, List.replicate_eq_nil_iff]
        omega
      rw [ht]
      simp only [List.length_append, List.length_replicate]
      congr 1
      omega
    by_cases hdom : atyp = kSocks5AddrTypeDomain
    · cases xs with
      | nil =>
        -- the type alone: a one-byte name and the port complete it
        obtain ⟨target, ht⟩ := @socks5serverParseAddressBytes_domain
          ([atyp, 1, 0, 0, 0]) (by rw [getD_zero_of_cons, hdom]) (by simp) (by simp)
        exact ⟨[1, 0, 0, 0], target, by simp, ht⟩
      | cons d ys =>
        have hd : d ≠ 0 := fun hd => hzero ys (by rw [hdom, hd])
        have hshort : (atyp :: d :: ys).length < 2 + d.toNat + 2 := Nat.lt_of_not_le fun hl => by
          obtain ⟨_, ht⟩ := @socks5serverParseAddressBytes_domain (atyp :: d :: ys)
            (by rw [getD_zero_of_cons, hdom]) hd hl
          rw [ht] at h
          cases h
        have hlen1 : ((atyp :: d :: ys) ++
            List.replicate (2 + d.toNat + 2 - (atyp :: d :: ys).length) 0).getD 1 0 = d :=
          hgetD _ 1 (by simp)
        obtain ⟨target, ht⟩ := @socks5serverParseAddressBytes_domain
          ((atyp :: d :: ys) ++
            List.replicate (2 + d.toNat + 2 - (atyp :: d :: ys).length) 0)
          (by rw [hgetD _ 0 (by simp), getD_zero_of_cons, hdom]) (by rw [hlen1]; exact hd)
          (by rw [hlen1, List.length_append, List.length_replicate]; omega)
        refine ⟨List.replicate (2 + d.toNat + 2 - (atyp :: d :: ys).length) 0, target, ?_, ?_⟩
        · rw [Ne, List.replicate_eq_nil_iff]
          omega
        rw [ht, hlen1]
        simp only [List.length_append, List.length_replicate]
        congr 1
        omega
    rw [socks5serverParseAddressBytes_unknown xs hv4 hdom hv6] at h
    cases h

/-- **The parser waits exactly on what more bytes can complete, and on a domain of length `0`.**
`socks5serverParseAddressBytes` returns `0` exactly on the strict prefixes of what
`socks5serverWriteAddress` writes, and on a domain whose length byte is `0`, which no bytes
complete. -/
theorem socks5serverParseAddressBytes_needMore_iff (buf : List UInt8) :
    socks5serverParseAddressBytes buf = .needMore ↔
      (∃ ctx bytes, socks5serverWriteAddress ctx = some bytes ∧ buf <+: bytes ∧
        buf.length < bytes.length) ∨
      ∃ rest, buf = kSocks5AddrTypeDomain :: 0 :: rest := by
  constructor
  · intro h
    by_cases hzero : ∃ rest, buf = kSocks5AddrTypeDomain :: 0 :: rest
    · exact Or.inr hzero
    obtain ⟨ext, target, hext, ht⟩ := socks5serverParseAddressBytes_complete h
      (fun rest hr => hzero ⟨rest, hr⟩)
    have hwrite := socks5serverWriteAddress_of_parsed ht
    rw [List.take_length] at hwrite
    refine Or.inl ⟨target, buf ++ ext, hwrite, List.prefix_append _ _, ?_⟩
    rw [List.length_append]
    have := List.length_pos_of_ne_nil hext
    omega
  · rintro (⟨ctx, bytes, hw, ⟨t, rfl⟩, hlt⟩ | ⟨rest, rfl⟩)
    · -- a prefix the parser decided on would decide the whole encoding, short of its end
      by_contra hne
      have hread := socks5serverParseAddressBytes_writeAddress hw []
      rw [List.append_nil, socks5serverParseAddressBytes_append t hne] at hread
      have := (socks5serverParseAddressBytes_take hread).1
      omega
    · exact socks5serverParseAddressBytes_zeroDomain rest

/-- The request pass waits on a request for a domain of length `0`, whatever follows. -/
theorem waitRequestPass_zeroDomain (env : Socks5Env υ) (ls : ControlState υ) (cmd : UInt8)
    (rest : List UInt8) :
    waitRequestPass env ls (kSocks5Version :: cmd :: 0 :: kSocks5AddrTypeDomain :: 0 :: rest) =
      .wait := by
  have hcopy : min kSocks5RequestBufSize (rest.length + 5) = min (kSocks5RequestBufSize - 5)
      rest.length + 5 := by
    simp only [kSocks5RequestBufSize]
    omega
  simp only [waitRequestPass, List.length_cons, hcopy, List.take_succ_cons, List.drop_succ_cons,
    List.drop_zero, socks5serverParseAddressBytes_zeroDomain]
  rw [if_neg (by omega), if_neg (by simp [kSocks5Version])]

/-- **A request for a domain of length `0` stalls the control line.**  No address
`socks5serverWriteAddress` writes starts with a domain length byte of `0`, yet
`socks5serverParseAddressBytes` waits on such a start whatever follows it, never refusing it; so
a control line in the request phase that receives such a request, in any chunks and followed by
anything at all, sends nothing, stays in the request phase and keeps every byte buffered. -/
theorem socks5serverControl_zeroDomain_stalls (env : Socks5Env υ) (ls : ControlState υ)
    (cmd : UInt8) (rest : List UInt8) (cs : List (List UInt8)) :
    (∀ ctx bytes, socks5serverWriteAddress ctx = some bytes →
      ¬ (kSocks5AddrTypeDomain :: 0 :: rest) <+: bytes) ∧
      socks5serverParseAddressBytes (kSocks5AddrTypeDomain :: 0 :: rest) = .needMore ∧
      (socks5serverControl env).feed { ls with phase := .waitRequest } []
          ((kSocks5Version :: cmd :: 0 :: kSocks5AddrTypeDomain :: 0 :: rest) :: cs) =
        ({ ls with phase := .waitRequest }, [],
          some (kSocks5Version :: cmd :: 0 :: kSocks5AddrTypeDomain :: 0 ::
            (rest ++ cs.flatten))) := by
  refine ⟨fun _ _ hw => socks5serverWriteAddress_not_zeroDomain hw rest,
    socks5serverParseAddressBytes_zeroDomain rest, ?_⟩
  have hwait : (socks5serverControl env).step { ls with phase := .waitRequest }
      (kSocks5Version :: cmd :: 0 :: kSocks5AddrTypeDomain :: 0 :: (rest ++ cs.flatten)) = .wait :=
    waitRequestPass_zeroDomain env _ cmd _
  rw [Loop.feed_eq_drain (socks5serverControlStep_stable env) (socks5serverControlStep_nil env _),
    List.flatten_cons, List.nil_append]
  simp only [List.cons_append]
  exact Loop.drain_of_wait _ hwait

end Socks5
end WaterWall
