import WaterWall.Net.Checksum
import WaterWall.Bufio.ShiftBuffer

/-!
# IPv4 packets in a byte buffer

The packet helpers work on a buffer that starts with an IPv4 header.  They read and write the
fields of lwIP's `struct ip_hdr`, `struct tcp_hdr` and `struct udp_hdr` in place, as a
little-endian host does, and convert them with `lwip_ntohs` and `lwip_ntohl`.

* **Memory.**  `load16` and `load32` read a field, `store16` and `store32` write one.  A store is
  read back by a load of the same field and leaves every other byte alone
  (`byteAt_store16_of_lt`, `byteAt_store16_of_le`, and the same for 32 bits).
* **Byte order.**  `lwip_ntohs (load16 buf i)` is the big-endian number of the two bytes at `i`
  (`toNat_ntohs_load16`); `lwip_ntohl` swaps the halves of a word and the bytes of each.
* **The views.**  `ipv4packetviewParse` checks the version and the header and total lengths
  against the buffer and reads the header into an `Ipv4PacketView`; `ipv4packetviewParseTcp` and
  `ipv4packetviewParseUdp` also read a transport header.  A store to a checksum leaves all three
  results as they were, and a store to an address field changes only that address
  (`ipv4packetviewParse_store32_source`, `ipv4packetviewParseTcp_store16`, ...).
-/

set_option autoImplicit false

namespace WaterWall
namespace Net

/-! ## Memory -/

/-- The byte at offset `i`. -/
def byteAt (buf : List UInt8) (i : Nat) : UInt8 := buf.getD i 0

/-- A two-byte field, loaded by a little-endian host. -/
def load16 (buf : List UInt8) (i : Nat) : UInt16 :=
  UInt16.ofNat ((byteAt buf i).toNat + (byteAt buf (i + 1)).toNat * 2 ^ 8)

/-- A four-byte field, loaded by a little-endian host. -/
def load32 (buf : List UInt8) (i : Nat) : UInt32 :=
  UInt32.ofNat ((byteAt buf i).toNat + (byteAt buf (i + 1)).toNat * 2 ^ 8 +
    (byteAt buf (i + 2)).toNat * 2 ^ 16 + (byteAt buf (i + 3)).toNat * 2 ^ 24)

/-- The bytes a little-endian host stores for a two-byte value. -/
def bytes16 (v : UInt16) : List UInt8 := [v.toUInt8, (v >>> 8).toUInt8]

/-- The bytes a little-endian host stores for a four-byte value. -/
def bytes32 (v : UInt32) : List UInt8 :=
  [v.toUInt8, (v >>> 8).toUInt8, (v >>> 16).toUInt8, (v >>> 24).toUInt8]

/-- A two-byte field written in place. -/
def store16 (buf : List UInt8) (i : Nat) (v : UInt16) : List UInt8 := overwrite buf i (bytes16 v)

/-- A four-byte field written in place. -/
def store32 (buf : List UInt8) (i : Nat) (v : UInt32) : List UInt8 := overwrite buf i (bytes32 v)

@[simp] theorem length_bytes16 (v : UInt16) : (bytes16 v).length = 2 := rfl

@[simp] theorem length_bytes32 (v : UInt32) : (bytes32 v).length = 4 := rfl

theorem byteAt_overwrite_of_lt {buf src : List UInt8} {i j : Nat} (h : j < i)
    (hlen : i + src.length ≤ buf.length) : byteAt (overwrite buf i src) j = byteAt buf j := by
  have hl : (buf.take i).length = i := by simp only [List.length_take]; omega
  unfold byteAt overwrite
  rw [List.append_assoc, List.getD_eq_getElem?_getD, List.getElem?_append_left (by omega),
    List.getElem?_take_of_lt h, ← List.getD_eq_getElem?_getD]

theorem byteAt_overwrite_of_le {buf src : List UInt8} {i j : Nat} (h : i + src.length ≤ j)
    (hlen : i + src.length ≤ buf.length) : byteAt (overwrite buf i src) j = byteAt buf j := by
  have hl : (buf.take i ++ src).length = i + src.length := by
    simp only [List.length_append, List.length_take]; omega
  unfold byteAt overwrite
  rw [List.getD_eq_getElem?_getD, List.getElem?_append_right (by omega), hl, List.getElem?_drop,
    Nat.add_sub_cancel' h, ← List.getD_eq_getElem?_getD]

theorem byteAt_overwrite_inside {buf src : List UInt8} {i k : Nat} (hk : k < src.length)
    (hlen : i + src.length ≤ buf.length) :
    byteAt (overwrite buf i src) (i + k) = byteAt src k := by
  have hl : (buf.take i).length = i := by simp only [List.length_take]; omega
  unfold byteAt overwrite
  rw [List.append_assoc, List.getD_eq_getElem?_getD, List.getElem?_append_right (by omega), hl,
    Nat.add_sub_cancel_left, List.getElem?_append_left hk, ← List.getD_eq_getElem?_getD]

theorem length_store16 {buf : List UInt8} {i : Nat} (h : i + 2 ≤ buf.length) (v : UInt16) :
    (store16 buf i v).length = buf.length :=
  length_overwrite h

theorem length_store32 {buf : List UInt8} {i : Nat} (h : i + 4 ≤ buf.length) (v : UInt32) :
    (store32 buf i v).length = buf.length :=
  length_overwrite h

section Frame

variable {buf : List UInt8} {i j : Nat}

theorem byteAt_store16_of_lt (h : j < i) (hlen : i + 2 ≤ buf.length) (v : UInt16) :
    byteAt (store16 buf i v) j = byteAt buf j :=
  byteAt_overwrite_of_lt h hlen

theorem byteAt_store16_of_le (h : i + 2 ≤ j) (hlen : i + 2 ≤ buf.length) (v : UInt16) :
    byteAt (store16 buf i v) j = byteAt buf j :=
  byteAt_overwrite_of_le h hlen

theorem byteAt_store32_of_lt (h : j < i) (hlen : i + 4 ≤ buf.length) (v : UInt32) :
    byteAt (store32 buf i v) j = byteAt buf j :=
  byteAt_overwrite_of_lt h hlen

theorem byteAt_store32_of_le (h : i + 4 ≤ j) (hlen : i + 4 ≤ buf.length) (v : UInt32) :
    byteAt (store32 buf i v) j = byteAt buf j :=
  byteAt_overwrite_of_le h hlen

theorem load16_store16_of_disjoint (h : j + 2 ≤ i ∨ i + 2 ≤ j) (hlen : i + 2 ≤ buf.length)
    (v : UInt16) : load16 (store16 buf i v) j = load16 buf j := by
  unfold load16
  rcases h with h | h
  · rw [byteAt_store16_of_lt (by omega) hlen, byteAt_store16_of_lt (by omega) hlen]
  · rw [byteAt_store16_of_le (by omega) hlen, byteAt_store16_of_le (by omega) hlen]

theorem load32_store16_of_disjoint (h : j + 4 ≤ i ∨ i + 2 ≤ j) (hlen : i + 2 ≤ buf.length)
    (v : UInt16) : load32 (store16 buf i v) j = load32 buf j := by
  unfold load32
  rcases h with h | h
  · rw [byteAt_store16_of_lt (by omega) hlen, byteAt_store16_of_lt (by omega) hlen,
      byteAt_store16_of_lt (by omega) hlen, byteAt_store16_of_lt (by omega) hlen]
  · rw [byteAt_store16_of_le (by omega) hlen, byteAt_store16_of_le (by omega) hlen,
      byteAt_store16_of_le (by omega) hlen, byteAt_store16_of_le (by omega) hlen]

theorem load32_store32_of_disjoint (h : j + 4 ≤ i ∨ i + 4 ≤ j) (hlen : i + 4 ≤ buf.length)
    (v : UInt32) : load32 (store32 buf i v) j = load32 buf j := by
  unfold load32
  rcases h with h | h
  · rw [byteAt_store32_of_lt (by omega) hlen, byteAt_store32_of_lt (by omega) hlen,
      byteAt_store32_of_lt (by omega) hlen, byteAt_store32_of_lt (by omega) hlen]
  · rw [byteAt_store32_of_le (by omega) hlen, byteAt_store32_of_le (by omega) hlen,
      byteAt_store32_of_le (by omega) hlen, byteAt_store32_of_le (by omega) hlen]

theorem store16_store16 (hlen : i + 2 ≤ buf.length) (v w : UInt16) :
    store16 (store16 buf i v) i w = store16 buf i w := by
  obtain ⟨A, B, C, rfl, rfl, hB⟩ := exists_split buf i 2 hlen
  unfold store16
  rw [overwrite_append (by simp [hB]), overwrite_append (by simp), overwrite_append (by simp [hB])]

theorem ext_byteAt {l l' : List UInt8} (hlen : l.length = l'.length)
    (h : ∀ j < l.length, byteAt l j = byteAt l' j) : l = l' := by
  apply List.ext_getElem hlen
  intro j hj hj'
  have := h j hj
  simp only [byteAt, List.getD_eq_getElem?_getD, List.getElem?_eq_getElem hj,
    List.getElem?_eq_getElem hj', Option.getD_some] at this
  exact this

theorem byteAt_append_left {l l' : List UInt8} {j : Nat} (h : j < l.length) :
    byteAt (l ++ l') j = byteAt l j := by
  simp only [byteAt, List.getD_eq_getElem?_getD, List.getElem?_append_left h]

theorem byteAt_append_right (l l' : List UInt8) (j : Nat) :
    byteAt (l ++ l') (l.length + j) = byteAt l' j := by
  simp only [byteAt, List.getD_eq_getElem?_getD, List.getElem?_append_right (Nat.le_add_right _ _),
    Nat.add_sub_cancel_left]

theorem byteAt_drop (l : List UInt8) (k j : Nat) : byteAt (l.drop k) j = byteAt l (k + j) := by
  simp only [byteAt, List.getD_eq_getElem?_getD, List.getElem?_drop]

theorem byteAt_take {l : List UInt8} {k j : Nat} (h : j < k) : byteAt (l.take k) j = byteAt l j := by
  simp only [byteAt, List.getD_eq_getElem?_getD, List.getElem?_take_of_lt h]

theorem load16_take {l : List UInt8} {k i : Nat} (h : i + 2 ≤ k) :
    load16 (l.take k) i = load16 l i := by
  unfold load16
  rw [byteAt_take (by omega), byteAt_take (by omega)]

theorem drop_store16_of_le {buf : List UInt8} {i k : Nat} (h : i + 2 ≤ k)
    (hlen : i + 2 ≤ buf.length) (v : UInt16) : (store16 buf i v).drop k = buf.drop k := by
  refine ext_byteAt (by simp [length_store16 hlen]) fun j hj => ?_
  rw [byteAt_drop, byteAt_drop, byteAt_store16_of_le (by omega) hlen]

theorem drop_store32_of_le {buf : List UInt8} {i k : Nat} (h : i + 4 ≤ k)
    (hlen : i + 4 ≤ buf.length) (v : UInt32) : (store32 buf i v).drop k = buf.drop k := by
  refine ext_byteAt (by simp [length_store32 hlen]) fun j hj => ?_
  rw [byteAt_drop, byteAt_drop, byteAt_store32_of_le (by omega) hlen]

theorem byteAt_overwrite {buf src : List UInt8} {i : Nat} (hlen : i + src.length ≤ buf.length)
    (k : Nat) : byteAt (overwrite buf i src) k =
      if i ≤ k ∧ k < i + src.length then byteAt src (k - i) else byteAt buf k := by
  split_ifs with hk
  · obtain ⟨m, rfl⟩ : ∃ m, k = i + m := ⟨k - i, by omega⟩
    rw [Nat.add_sub_cancel_left, byteAt_overwrite_inside (by omega) hlen]
  · rcases Nat.lt_or_ge k i with h | h
    · exact byteAt_overwrite_of_lt h hlen
    · exact byteAt_overwrite_of_le (by omega) hlen

theorem store16_comm {buf : List UInt8} {i j : Nat} (h : i + 2 ≤ j ∨ j + 2 ≤ i)
    (hi : i + 2 ≤ buf.length) (hj : j + 2 ≤ buf.length) (v w : UInt16) :
    store16 (store16 buf i v) j w = store16 (store16 buf j w) i v := by
  have hi' : i + (bytes16 v).length ≤ (overwrite buf j (bytes16 w)).length := by
    rw [length_overwrite (by simpa using hj)]; simpa using hi
  have hj' : j + (bytes16 w).length ≤ (overwrite buf i (bytes16 v)).length := by
    rw [length_overwrite (by simpa using hi)]; simpa using hj
  refine ext_byteAt (by rw [store16, store16, store16, store16, length_overwrite hj',
    length_overwrite hi', length_overwrite (by simpa using hi), length_overwrite (by simpa using hj)])
    fun k _ => ?_
  have hi₀ : i + (bytes16 v).length ≤ buf.length := by simpa using hi
  have hj₀ : j + (bytes16 w).length ≤ buf.length := by simpa using hj
  unfold store16
  rw [byteAt_overwrite hj', byteAt_overwrite hi₀, byteAt_overwrite hi', byteAt_overwrite hj₀]
  simp only [length_bytes16]
  -- a byte is in at most one of the two fields
  by_cases h₁ : i ≤ k ∧ k < i + 2 <;> by_cases h₂ : j ≤ k ∧ k < j + 2
  · omega
  all_goals simp only [h₁, h₂, ↓reduceIte]

end Frame

/-! ## Byte order -/

/-- `lwip_ntohs` is `lwip_htons`. -/
def lwip_ntohs (x : UInt16) : UInt16 := lwip_htons x

/-- `lwip_htonl` on a little-endian host: the four bytes reversed, as the two halves swapped and
the two bytes of each. -/
def lwip_htonl (x : UInt32) : UInt32 :=
  ((lwip_htons x.toUInt16).toUInt32 <<< 16) ||| (lwip_htons (x >>> 16).toUInt16).toUInt32

/-- `lwip_ntohl` is `lwip_htonl`. -/
def lwip_ntohl (x : UInt32) : UInt32 := lwip_htonl x

theorem toNat_lwip_htons (x : UInt16) :
    (lwip_htons x).toNat = x.toNat % 2 ^ 8 * 2 ^ 8 + x.toNat / 2 ^ 8 := by
  have hx := x.toNat_lt
  have hlow : x.toNat >>> 8 < 2 ^ 8 := by
    rw [Nat.shiftRight_eq_div_pow]
    exact Nat.div_lt_of_lt_mul (by simpa using hx)
  -- the low byte moves up, and what falls off the top is the high byte
  have hhigh : (x.toNat <<< 8) % 2 ^ 16 = (x.toNat % 2 ^ 8) <<< 8 := by
    rw [Nat.shiftLeft_eq, Nat.shiftLeft_eq, show 2 ^ 16 = 2 ^ 8 * 2 ^ 8 by norm_num,
      Nat.mul_mod_mul_right]
  rw [lwip_htons, UInt16.toNat_or, UInt16.toNat_shiftLeft, UInt16.toNat_shiftRight,
    show (8 : UInt16).toNat % 16 = 8 from rfl, hhigh, ← Nat.shiftLeft_add_eq_or_of_lt hlow,
    Nat.shiftLeft_eq, Nat.shiftRight_eq_div_pow]

theorem lwip_htons_lwip_htons (x : UInt16) : lwip_htons (lwip_htons x) = x := by
  have hx := x.toNat_lt
  apply UInt16.toNat_inj.1
  rw [toNat_lwip_htons, toNat_lwip_htons]
  omega

theorem lwip_ntohs_lwip_htons (x : UInt16) : lwip_ntohs (lwip_htons x) = x :=
  lwip_htons_lwip_htons x

theorem lwip_ntohs_inj {x y : UInt16} : lwip_ntohs x = lwip_ntohs y ↔ x = y :=
  ⟨fun h => by rw [← lwip_htons_lwip_htons x, ← lwip_htons_lwip_htons y]; exact congrArg lwip_htons h,
    congrArg lwip_ntohs⟩

theorem toNat_lwip_htonl (x : UInt32) :
    (lwip_htonl x).toNat = (lwip_htons x.toUInt16).toNat * 2 ^ 16 + (lwip_htons (x >>> 16).toUInt16).toNat := by
  have hlo := (lwip_htons (x >>> 16).toUInt16).toNat_lt
  have hhi := (lwip_htons x.toUInt16).toNat_lt
  rw [lwip_htonl, UInt32.toNat_or, UInt32.toNat_shiftLeft, UInt16.toNat_toUInt32,
    UInt16.toNat_toUInt32, show (16 : UInt32).toNat % 32 = 16 from rfl, Nat.mod_eq_of_lt,
    ← Nat.shiftLeft_add_eq_or_of_lt hlo, Nat.shiftLeft_eq]
  rw [Nat.shiftLeft_eq]
  calc (lwip_htons x.toUInt16).toNat * 2 ^ 16 < 2 ^ 16 * 2 ^ 16 :=
        Nat.mul_lt_mul_of_pos_right hhi (by decide)
    _ = 2 ^ 32 := by decide

/-- The high half of a host word is the swapped low half of the network word. -/
theorem lwip_ntohl_shiftRight (x : UInt32) :
    ((lwip_ntohl x) >>> 16).toUInt16 = lwip_htons x.toUInt16 := by
  have hlo := (lwip_htons (x >>> 16).toUInt16).toNat_lt
  apply UInt16.toNat_inj.1
  rw [UInt32.toNat_toUInt16, UInt32.toNat_shiftRight, lwip_ntohl, toNat_lwip_htonl,
    show (16 : UInt32).toNat % 32 = 16 from rfl, Nat.shiftRight_eq_div_pow]
  have := (lwip_htons x.toUInt16).toNat_lt
  omega

/-- The low half of a host word is the swapped high half of the network word. -/
theorem lwip_ntohl_and (x : UInt32) :
    ((lwip_ntohl x) &&& 0xFFFF).toUInt16 = lwip_htons (x >>> 16).toUInt16 := by
  have hlo := (lwip_htons (x >>> 16).toUInt16).toNat_lt
  apply UInt16.toNat_inj.1
  rw [UInt32.toNat_toUInt16, UInt32.toNat_and, lwip_ntohl, toNat_lwip_htonl,
    show (0xFFFF : UInt32).toNat = 2 ^ 16 - 1 from rfl, Nat.and_two_pow_sub_one_eq_mod]
  omega

theorem lwip_htonl_lwip_htonl (x : UInt32) : lwip_htonl (lwip_htonl x) = x := by
  have hhi : ((lwip_htonl x) >>> 16).toUInt16 = lwip_htons x.toUInt16 := lwip_ntohl_shiftRight x
  have hlo : (lwip_htonl x).toUInt16 = lwip_htons (x >>> 16).toUInt16 := by
    rw [← lwip_ntohl_and x]
    apply UInt16.toNat_inj.1
    rw [UInt32.toNat_toUInt16, UInt32.toNat_toUInt16, UInt32.toNat_and, lwip_ntohl,
      show (0xFFFF : UInt32).toNat = 2 ^ 16 - 1 from rfl, Nat.and_two_pow_sub_one_eq_mod, Nat.mod_mod]
  have hx := x.toNat_lt
  apply UInt32.toNat_inj.1
  rw [toNat_lwip_htonl, hlo, hhi, lwip_htons_lwip_htons, lwip_htons_lwip_htons, UInt32.toNat_toUInt16,
    UInt32.toNat_toUInt16, UInt32.toNat_shiftRight, show (16 : UInt32).toNat % 32 = 16 from rfl,
    Nat.shiftRight_eq_div_pow]
  omega

theorem lwip_htonl_lwip_ntohl (x : UInt32) : lwip_htonl (lwip_ntohl x) = x :=
  lwip_htonl_lwip_htonl x

theorem toNat_load16 (buf : List UInt8) (i : Nat) :
    (load16 buf i).toNat = (byteAt buf i).toNat + (byteAt buf (i + 1)).toNat * 2 ^ 8 := by
  have h0 := (byteAt buf i).toNat_lt
  have h1 := (byteAt buf (i + 1)).toNat_lt
  rw [load16, UInt16.toNat_ofNat', Nat.mod_eq_of_lt (by omega)]

/-- A two-byte field in host order is the big-endian number of its bytes. -/
theorem toNat_ntohs_load16 (buf : List UInt8) (i : Nat) :
    (lwip_ntohs (load16 buf i)).toNat = (byteAt buf i).toNat * 2 ^ 8 + (byteAt buf (i + 1)).toNat := by
  have h0 := (byteAt buf i).toNat_lt
  have h1 := (byteAt buf (i + 1)).toNat_lt
  rw [lwip_ntohs, toNat_lwip_htons, toNat_load16]
  omega

/-! ## A store is read back -/

section ReadBack

variable {buf : List UInt8} {i : Nat}

theorem byteAt_store16_self (hlen : i + 2 ≤ buf.length) (v : UInt16) :
    byteAt (store16 buf i v) i = v.toUInt8 :=
  @byteAt_overwrite_inside buf (bytes16 v) i 0 (by simp) hlen

theorem byteAt_store16_succ (hlen : i + 2 ≤ buf.length) (v : UInt16) :
    byteAt (store16 buf i v) (i + 1) = (v >>> 8).toUInt8 :=
  @byteAt_overwrite_inside buf (bytes16 v) i 1 (by simp) hlen

theorem toNat_byteAt_store32 (hlen : i + 4 ≤ buf.length) (v : UInt32) :
    (byteAt (store32 buf i v) i).toNat = v.toNat % 2 ^ 8 ∧
      (byteAt (store32 buf i v) (i + 1)).toNat = v.toNat / 2 ^ 8 % 2 ^ 8 ∧
      (byteAt (store32 buf i v) (i + 2)).toNat = v.toNat / 2 ^ 16 % 2 ^ 8 ∧
      (byteAt (store32 buf i v) (i + 3)).toNat = v.toNat / 2 ^ 24 % 2 ^ 8 := by
  have h0 := @byteAt_overwrite_inside buf (bytes32 v) i 0 (by simp) hlen
  have h1 := @byteAt_overwrite_inside buf (bytes32 v) i 1 (by simp) hlen
  have h2 := @byteAt_overwrite_inside buf (bytes32 v) i 2 (by simp) hlen
  have h3 := @byteAt_overwrite_inside buf (bytes32 v) i 3 (by simp) hlen
  simp only [Nat.add_zero] at h0
  unfold store32
  rw [h0, h1, h2, h3]
  have h8 : (8 : UInt32).toNat % 32 = 8 := rfl
  have h16 : (16 : UInt32).toNat % 32 = 16 := rfl
  have h24 : (24 : UInt32).toNat % 32 = 24 := rfl
  simp only [byteAt, bytes32, List.getD_cons_zero, List.getD_cons_succ, UInt32.toNat_toUInt8,
    UInt32.toNat_shiftRight, Nat.shiftRight_eq_div_pow, h8, h16, h24, and_self]

theorem load16_store16 (hlen : i + 2 ≤ buf.length) (v : UInt16) :
    load16 (store16 buf i v) i = v := by
  have hv := v.toNat_lt
  apply UInt16.toNat_inj.1
  rw [toNat_load16, byteAt_store16_self hlen, byteAt_store16_succ hlen, UInt16.toNat_toUInt8,
    UInt16.toNat_toUInt8, UInt16.toNat_shiftRight, show (8 : UInt16).toNat % 16 = 8 from rfl,
    Nat.shiftRight_eq_div_pow]
  omega

theorem store16_load16 (hlen : i + 2 ≤ buf.length) : store16 buf i (load16 buf i) = buf := by
  have h0 := (byteAt buf i).toNat_lt
  have h1 := (byteAt buf (i + 1)).toNat_lt
  refine ext_byteAt (length_store16 hlen _) fun j _ => ?_
  rcases Nat.lt_or_ge j i with hj | hj
  · exact byteAt_store16_of_lt hj hlen _
  rcases Nat.lt_or_ge j (i + 2) with hj' | hj'
  · -- the two bytes of the field are written back as they were
    apply UInt8.toNat_inj.1
    rcases (show j = i ∨ j = i + 1 by omega) with rfl | rfl
    · rw [byteAt_store16_self hlen, UInt16.toNat_toUInt8, toNat_load16]
      omega
    · rw [byteAt_store16_succ hlen, UInt16.toNat_toUInt8, UInt16.toNat_shiftRight,
        show (8 : UInt16).toNat % 16 = 8 from rfl, Nat.shiftRight_eq_div_pow, toNat_load16]
      omega
  · exact byteAt_store16_of_le hj' hlen _

theorem load32_store32 (hlen : i + 4 ≤ buf.length) (v : UInt32) :
    load32 (store32 buf i v) i = v := by
  obtain ⟨h0, h1, h2, h3⟩ := toNat_byteAt_store32 hlen v
  have hv := v.toNat_lt
  apply UInt32.toNat_inj.1
  rw [load32, h0, h1, h2, h3, UInt32.toNat_ofNat', Nat.mod_eq_of_lt (by omega)]
  omega

end ReadBack

/-! ## Stores and the sum of the words -/

section Words

open OnesComplement

variable {buf : List UInt8} {i : Nat}

theorem store32_eq_store16 (hlen : i + 4 ≤ buf.length) (v : UInt32) :
    store32 buf i v = store16 (store16 buf i v.toUInt16) (i + 2) (v >>> 16).toUInt16 := by
  have hbytes : bytes32 v = bytes16 v.toUInt16 ++ bytes16 (v >>> 16).toUInt16 := by
    have h8 : (8 : UInt16).toNat % 16 = 8 := rfl
    have h8' : (8 : UInt32).toNat % 32 = 8 := rfl
    have h16 : (16 : UInt32).toNat % 32 = 16 := rfl
    have h24 : (24 : UInt32).toNat % 32 = 24 := rfl
    simp only [bytes32, bytes16, List.cons_append, List.nil_append, List.cons.injEq, and_true]
    refine ⟨?_, ?_, ?_, ?_⟩ <;> apply UInt8.toNat_inj.1 <;>
      simp only [UInt32.toNat_toUInt8, UInt16.toNat_toUInt8, UInt16.toNat_shiftRight,
        UInt32.toNat_toUInt16, UInt32.toNat_shiftRight, Nat.shiftRight_eq_div_pow, h8, h8', h16,
        h24] <;> omega
  have h := @overwrite_overwrite buf i (bytes16 v.toUInt16) (bytes16 (v >>> 16).toUInt16)
    (by simp only [length_bytes16]; omega)
  rw [length_bytes16] at h
  unfold store16 store32
  rw [h, hbytes]

theorem toNat_load32 (buf : List UInt8) (i : Nat) :
    (load32 buf i).toNat = (byteAt buf i).toNat + (byteAt buf (i + 1)).toNat * 2 ^ 8 +
      (byteAt buf (i + 2)).toNat * 2 ^ 16 + (byteAt buf (i + 3)).toNat * 2 ^ 24 := by
  have h0 := (byteAt buf i).toNat_lt
  have h1 := (byteAt buf (i + 1)).toNat_lt
  have h2 := (byteAt buf (i + 2)).toNat_lt
  have h3 := (byteAt buf (i + 3)).toNat_lt
  have hlt : (byteAt buf i).toNat + (byteAt buf (i + 1)).toNat * 2 ^ 8 +
      (byteAt buf (i + 2)).toNat * 2 ^ 16 + (byteAt buf (i + 3)).toNat * 2 ^ 24 < 2 ^ 32 := by
    omega
  rw [load32, UInt32.toNat_ofNat', Nat.mod_eq_of_lt hlt]

theorem load16_eq_toUInt16_load32 (buf : List UInt8) (i : Nat) :
    load16 buf i = (load32 buf i).toUInt16 := by
  apply UInt16.toNat_inj.1
  rw [toNat_load16, UInt32.toNat_toUInt16, toNat_load32]
  have := (byteAt buf (i + 1)).toNat_lt
  have := (byteAt buf i).toNat_lt
  omega

theorem load16_add_two_eq_load32 (buf : List UInt8) (i : Nat) :
    load16 buf (i + 2) = (load32 buf i >>> 16).toUInt16 := by
  have h0 := (byteAt buf i).toNat_lt
  have h1 := (byteAt buf (i + 1)).toNat_lt
  have h2 := (byteAt buf (i + 2)).toNat_lt
  have h3 := (byteAt buf (i + 3)).toNat_lt
  apply UInt16.toNat_inj.1
  rw [toNat_load16, UInt32.toNat_toUInt16, UInt32.toNat_shiftRight, toNat_load32,
    show (16 : UInt32).toNat % 32 = 16 from rfl, Nat.shiftRight_eq_div_pow,
    show i + 2 + 1 = i + 3 from rfl]
  omega

/-- Replacing an aligned field of two bytes changes the sum of the words by the difference of
the field's old and new host values. -/
theorem sum_words16_store16 (hi : Even i) (hlen : i + 2 ≤ buf.length) (v : UInt16) :
    (words16 (store16 buf i v)).sum + (lwip_ntohs (load16 buf i)).toNat =
      (words16 buf).sum + (lwip_ntohs v).toNat := by
  obtain ⟨A, B, C, rfl, rfl, hB⟩ := exists_split buf i 2 hlen
  match B, hB with
  | [c, d], _ =>
    have hload : (lwip_ntohs (load16 (A ++ [c, d] ++ C) A.length)).toNat = c.toNat * 256 + d.toNat := by
      rw [toNat_ntohs_load16]
      have hc : byteAt (A ++ [c, d] ++ C) A.length = c := by
        simp [byteAt, List.getD_eq_getElem?_getD]
      have hd : byteAt (A ++ [c, d] ++ C) (A.length + 1) = d := by
        simp [byteAt, List.getD_eq_getElem?_getD]
      rw [hc, hd]
      rfl
    have hv : (lwip_ntohs v).toNat = v.toUInt8.toNat * 256 + (v >>> 8).toUInt8.toNat := by
      have := v.toNat_lt
      rw [lwip_ntohs, toNat_lwip_htons, UInt16.toNat_toUInt8, UInt16.toNat_toUInt8,
        UInt16.toNat_shiftRight, show (8 : UInt16).toNat % 16 = 8 from rfl,
        Nat.shiftRight_eq_div_pow]
      omega
    unfold store16
    rw [overwrite_append (by simp), hload, hv]
    exact sum_words16_replace hi C _ _ c d

/-- Replacing an aligned word, as its two fields. -/
theorem sum_words16_store32 (hi : Even i) (hlen : i + 4 ≤ buf.length) (v : UInt32) :
    (words16 (store32 buf i v)).sum + (lwip_ntohs (load16 buf i)).toNat +
        (lwip_ntohs (load16 buf (i + 2))).toNat =
      (words16 buf).sum + (lwip_ntohs v.toUInt16).toNat +
        (lwip_ntohs (v >>> 16).toUInt16).toNat := by
  have h₁ := sum_words16_store16 hi (by omega : i + 2 ≤ buf.length) v.toUInt16
  have hlen' : i + 2 + 2 ≤ (store16 buf i v.toUInt16).length := by
    rw [length_store16 (by omega)]; omega
  have h₂ := sum_words16_store16 (hi.add even_two) hlen' (v >>> 16).toUInt16
  rw [load16_store16_of_disjoint (by omega) (by omega)] at h₂
  rw [store32_eq_store16 hlen]
  omega

end Words

/-! ## More frame lemmas -/

theorem take_store16_of_lt {buf : List UInt8} {i k : Nat} (h : i + 2 ≤ k)
    (hlen : k ≤ buf.length) (v : UInt16) : (store16 buf i v).take k = store16 (buf.take k) i v := by
  have hlen' : i + 2 ≤ (buf.take k).length := by simp; omega
  refine ext_byteAt (by simp [length_store16 (show i + 2 ≤ buf.length by omega),
    length_store16 hlen']) fun j hj => ?_
  have hjk : j < k := by simp at hj; omega
  rw [byteAt_take hjk]
  rcases Nat.lt_or_ge j i with h₁ | h₁
  · rw [byteAt_store16_of_lt h₁ (by omega), byteAt_store16_of_lt h₁ hlen', byteAt_take hjk]
  rcases Nat.lt_or_ge j (i + 2) with h₂ | h₂
  · obtain ⟨m, rfl⟩ : ∃ m, j = i + m := ⟨j - i, by omega⟩
    unfold store16
    rw [byteAt_overwrite_inside (by simp; omega) (by simpa using (show i + 2 ≤ buf.length by omega)),
      byteAt_overwrite_inside (by simp; omega) (by simpa using hlen')]
  · rw [byteAt_store16_of_le h₂ (by omega), byteAt_store16_of_le h₂ hlen', byteAt_take hjk]

theorem take_store32_of_lt {buf : List UInt8} {i k : Nat} (h : i + 4 ≤ k)
    (hlen : k ≤ buf.length) (v : UInt32) : (store32 buf i v).take k = store32 (buf.take k) i v := by
  have hlen' : i + 4 ≤ (buf.take k).length := by simp; omega
  rw [store32_eq_store16 (by omega), store32_eq_store16 hlen',
    take_store16_of_lt (by omega) (by rw [length_store16 (by omega)]; exact hlen),
    take_store16_of_lt (by omega) hlen]

theorem store32_load32 {buf : List UInt8} {i : Nat} (hlen : i + 4 ≤ buf.length) :
    store32 buf i (load32 buf i) = buf := by
  refine ext_byteAt (length_store32 hlen _) fun j _ => ?_
  obtain ⟨h0, h1, h2, h3⟩ := toNat_byteAt_store32 hlen (load32 buf i)
  rcases Nat.lt_or_ge j i with hj | hj
  · exact byteAt_store32_of_lt hj hlen _
  rcases Nat.lt_or_ge j (i + 4) with hj' | hj'
  · have hv := toNat_load32 buf i
    have b0 := (byteAt buf i).toNat_lt
    have b1 := (byteAt buf (i + 1)).toNat_lt
    have b2 := (byteAt buf (i + 2)).toNat_lt
    have b3 := (byteAt buf (i + 3)).toNat_lt
    apply UInt8.toNat_inj.1
    obtain ⟨m, rfl⟩ : ∃ m, j = i + m := ⟨j - i, by omega⟩
    -- each byte of the word read back is the byte it was read from
    have hm : m = 0 ∨ m = 1 ∨ m = 2 ∨ m = 3 := by omega
    rcases hm with rfl | rfl | rfl | rfl
    · rw [Nat.add_zero, h0, hv]; omega
    · rw [h1, hv]; omega
    · rw [h2, hv]; omega
    · rw [h3, hv]; omega
  · exact byteAt_store32_of_le hj' hlen _

theorem store16_store32_comm {buf : List UInt8} {i j : Nat} (h : i + 2 ≤ j ∨ j + 4 ≤ i)
    (hi : i + 2 ≤ buf.length) (hj : j + 4 ≤ buf.length) (v : UInt16) (w : UInt32) :
    store16 (store32 buf j w) i v = store32 (store16 buf i v) j w := by
  have hj' : j + 4 ≤ (store16 buf i v).length := by rw [length_store16 hi]; exact hj
  rw [store32_eq_store16 hj, store32_eq_store16 hj',
    ← store16_comm (by omega) (by rw [length_store16 (by omega)]; exact hi)
      (by rw [length_store16 (by omega)]; omega),
    ← store16_comm (by omega) hi (by omega)]

/-! ## The headers -/

/-- `IP_HLEN`: an IPv4 header without options. -/
def IP_HLEN : Nat := 20

/-- `IP_HLEN_MAX`: an IPv4 header with all the options it can have. -/
def IP_HLEN_MAX : Nat := 60

/-- `IP_MF`: the more-fragments flag of the fragment field. -/
def IP_MF : Nat := 0x2000

/-- `IP_OFFMASK`: the fragment offset of the fragment field. -/
def IP_OFFMASK : Nat := 0x1fff

/-- `TCP_HLEN`: a TCP header without options. -/
def TCP_HLEN : Nat := 20

def UDP_HLEN : Nat := 8

def IP_PROTO_ICMP : UInt8 := 1

/-- `IP_PROTO_TCP` (and `IPPROTO_TCP`). -/
def IP_PROTO_TCP : UInt8 := 6

/-- `IP_PROTO_UDP` (and `IPPROTO_UDP`). -/
def IP_PROTO_UDP : UInt8 := 17

def TCP_FIN : UInt8 := 0x01

def TCP_SYN : UInt8 := 0x02

/-- `IPH_V`: the version, the high nibble of the first byte. -/
def IPH_V (buf : List UInt8) : UInt8 := byteAt buf 0 >>> 4

/-- `IPH_HL_BYTES`: the header length, the low nibble of the first byte in 32-bit words. -/
def IPH_HL_BYTES (buf : List UInt8) : Nat := (byteAt buf 0 &&& 0x0f).toNat * 4

/-- `IPH_LEN`: the total length field, in network order. -/
def IPH_LEN (buf : List UInt8) : UInt16 := load16 buf 2

def IPH_ID (buf : List UInt8) : UInt16 := load16 buf 4

/-- `IPH_OFFSET`: the flags and fragment offset field, in network order. -/
def IPH_OFFSET (buf : List UInt8) : UInt16 := load16 buf 6

/-- `ipheader->_ttl`. -/
def IPH_TTL (buf : List UInt8) : UInt8 := byteAt buf 8

def IPH_PROTO (buf : List UInt8) : UInt8 := byteAt buf 9

/-- `IPH_CHKSUM`: the header checksum, in network order. -/
def IPH_CHKSUM (buf : List UInt8) : UInt16 := load16 buf 10

def IPH_CHKSUM_SET (buf : List UInt8) (v : UInt16) : List UInt8 := store16 buf 10 v

/-- `ipheader->src.addr`, in network order. -/
def IPH_SRC (buf : List UInt8) : UInt32 := load32 buf 12

/-- `ipheader->dest.addr`, in network order. -/
def IPH_DEST (buf : List UInt8) : UInt32 := load32 buf 16

/-- `TCPH_HDRLEN_BYTES` of the TCP header at `off`: the data offset, the high nibble of the
flags field, in 32-bit words. -/
def TCPH_HDRLEN_BYTES (buf : List UInt8) (off : Nat) : Nat :=
  ((lwip_ntohs (load16 buf (off + 12))).toNat >>> 12) * 4

/-! ## The views -/

/-- `ipv4_packet_view_t`.  Every field starts at zero, as the C initializers leave the ones they
do not name; the lengths and offsets are the `uint16_t` fields as numbers. -/
structure Ipv4PacketView where
  source_address : UInt32 := 0
  destination_address : UInt32 := 0
  tcp_sequence : UInt32 := 0
  tcp_acknowledgment : UInt32 := 0
  tcp_sequence_span : UInt32 := 0
  ip_total_length : Nat := 0
  ip_header_length : Nat := 0
  transport_offset : Nat := 0
  transport_length : Nat := 0
  transport_header_length : Nat := 0
  payload_offset : Nat := 0
  payload_length : Nat := 0
  fragment_state : Nat := 0
  fragment_offset : Nat := 0
  source_port : Nat := 0
  destination_port : Nat := 0
  ip_identification : Nat := 0
  udp_datagram_length : Nat := 0
  protocol : UInt8 := 0
  ttl : UInt8 := 0
  tcp_flags : UInt8 := 0
  more_fragments : Bool := false
  fragmented : Bool := false
deriving DecidableEq, Repr

/-- `ipv4packetviewParse`: a complete IPv4 packet of version 4 whose header and total lengths fit
the buffer, read into a view with the transport fields left at zero.  (The null checks of the
pointers have nothing to check here.) -/
def ipv4packetviewParse (packet : List UInt8) : Option Ipv4PacketView :=
  if packet.length < IP_HLEN then none
  else if IPH_V packet ≠ 4 then none
  else
    let ip_header_length := IPH_HL_BYTES packet
    let ip_total_length := (lwip_ntohs (IPH_LEN packet)).toNat
    if ip_header_length < IP_HLEN ∨ ip_header_length > IP_HLEN_MAX ∨
        ip_header_length > packet.length ∨ ip_total_length < ip_header_length ∨
        ip_total_length > packet.length then none
    else
      let fragment_state := (lwip_ntohs (IPH_OFFSET packet)).toNat
      some {
        source_address := IPH_SRC packet
        destination_address := IPH_DEST packet
        ip_total_length := ip_total_length
        ip_header_length := ip_header_length
        transport_offset := ip_header_length
        transport_length := ip_total_length - ip_header_length
        payload_offset := ip_header_length
        payload_length := ip_total_length - ip_header_length
        fragment_state := fragment_state
        fragment_offset := fragment_state &&& IP_OFFMASK
        ip_identification := (lwip_ntohs (IPH_ID packet)).toNat
        protocol := IPH_PROTO packet
        ttl := IPH_TTL packet
        more_fragments := fragment_state &&& IP_MF != 0
        fragmented := fragment_state &&& (IP_MF ||| IP_OFFMASK) != 0 }

/-- `ipv4packetviewParseTcp`: a TCP packet that is not a later fragment and carries its whole TCP
header, with the header read into the view. -/
def ipv4packetviewParseTcp (packet : List UInt8) : Option Ipv4PacketView :=
  match ipv4packetviewParse packet with
  | none => none
  | some parsed =>
    if parsed.protocol ≠ IP_PROTO_TCP ∨ parsed.fragment_offset ≠ 0 ∨
        parsed.transport_length < TCP_HLEN then none
    else
      let off := parsed.transport_offset
      let tcp_header_length := TCPH_HDRLEN_BYTES packet off
      if tcp_header_length < TCP_HLEN ∨ tcp_header_length > parsed.transport_length then none
      else
        let payload_length := parsed.transport_length - tcp_header_length
        let tcp_flags : UInt8 := ((lwip_ntohs (load16 packet (off + 12))) &&& 0x00FF).toUInt8
        some { parsed with
          transport_header_length := tcp_header_length
          payload_offset := off + tcp_header_length
          payload_length := payload_length
          source_port := (lwip_ntohs (load16 packet off)).toNat
          destination_port := (lwip_ntohs (load16 packet (off + 2))).toNat
          tcp_sequence := lwip_ntohl (load32 packet (off + 4))
          tcp_acknowledgment := lwip_ntohl (load32 packet (off + 8))
          tcp_flags := tcp_flags
          tcp_sequence_span := payload_length.toUInt32 +
            (if tcp_flags &&& TCP_SYN ≠ 0 then 1 else 0) +
            (if tcp_flags &&& TCP_FIN ≠ 0 then 1 else 0) }

/-- `ipv4packetviewParseUdp`: a UDP packet that is not a later fragment and carries its UDP
header, whose length field is at least the header and, unless the packet is a fragment, at most
what the packet holds. -/
def ipv4packetviewParseUdp (packet : List UInt8) : Option Ipv4PacketView :=
  match ipv4packetviewParse packet with
  | none => none
  | some parsed =>
    if parsed.protocol ≠ IP_PROTO_UDP ∨ parsed.fragment_offset ≠ 0 ∨
        parsed.transport_length < UDP_HLEN then none
    else
      let off := parsed.transport_offset
      let udp_length := (lwip_ntohs (load16 packet (off + 4))).toNat
      if udp_length < UDP_HLEN ∨ (!parsed.fragmented ∧ udp_length > parsed.transport_length) then
        none
      else
        some { parsed with
          transport_header_length := UDP_HLEN
          payload_offset := off + UDP_HLEN
          payload_length := (if parsed.fragmented then parsed.transport_length else udp_length) -
            UDP_HLEN
          source_port := (lwip_ntohs (load16 packet off)).toNat
          destination_port := (lwip_ntohs (load16 packet (off + 2))).toNat
          udp_datagram_length := udp_length }

/-! ## What the views read

A store elsewhere leaves a view as it was: the header fields other than the addresses are in
the first ten bytes, and a transport header is read in its first fourteen. -/

/-- Two buffers of one length that agree on every byte outside the positions `S`. -/
def AgreeExcept (S : Nat → Prop) (buf buf' : List UInt8) : Prop :=
  buf'.length = buf.length ∧ ∀ j, ¬ S j → byteAt buf' j = byteAt buf j

theorem agreeExcept_store32 {buf : List UInt8} {i : Nat} (hlen : i + 4 ≤ buf.length) (v : UInt32) :
    AgreeExcept (fun j => i ≤ j ∧ j < i + 4) buf (store32 buf i v) := by
  refine ⟨length_store32 hlen v, fun j hj => ?_⟩
  rcases Nat.lt_or_ge j i with h | h
  · exact byteAt_store32_of_lt h hlen v
  · exact byteAt_store32_of_le (by omega) hlen v

section Agree

variable {S : Nat → Prop} {buf buf' : List UInt8}

theorem AgreeExcept.refl (buf : List UInt8) : AgreeExcept S buf buf := ⟨rfl, fun _ _ => rfl⟩

/-- A store inside the positions `S` keeps the agreement. -/
theorem AgreeExcept.store16 (h : AgreeExcept S buf buf') {i : Nat}
    (hi : ∀ j, i ≤ j → j < i + 2 → S j) (hlen : i + 2 ≤ buf'.length) (v : UInt16) :
    AgreeExcept S buf (store16 buf' i v) := by
  refine ⟨(length_store16 hlen v).trans h.1, fun j hj => ?_⟩
  rw [← h.2 j hj]
  rcases Nat.lt_or_ge j i with hji | hji
  · exact byteAt_store16_of_lt hji hlen v
  · exact byteAt_store16_of_le (Nat.not_lt.1 fun hj' => hj (hi j hji hj')) hlen v

theorem AgreeExcept.load16 (h : AgreeExcept S buf buf') {i : Nat} (hi : ¬ S i) (hi' : ¬ S (i + 1)) :
    load16 buf' i = load16 buf i := by
  rw [Net.load16, Net.load16, h.2 i hi, h.2 (i + 1) hi']

theorem AgreeExcept.load32 (h : AgreeExcept S buf buf') {i : Nat} (hi : ∀ k < 4, ¬ S (i + k)) :
    load32 buf' i = load32 buf i := by
  have h0 := h.2 i (by simpa using hi 0 (by decide))
  rw [Net.load32, Net.load32, h0, h.2 (i + 1) (hi 1 (by decide)), h.2 (i + 2) (hi 2 (by decide)),
    h.2 (i + 3) (hi 3 (by decide))]

/-- **The header view reads the first ten bytes** and the two addresses. -/
theorem ipv4packetviewParse_congr (h : AgreeExcept S buf buf') (hS : ∀ j < 10, ¬ S j) :
    ipv4packetviewParse buf' = (ipv4packetviewParse buf).map fun v =>
      { v with source_address := IPH_SRC buf', destination_address := IPH_DEST buf' } := by
  have hv : IPH_V buf' = IPH_V buf := by rw [IPH_V, IPH_V, h.2 0 (hS 0 (by decide))]
  have hhl : IPH_HL_BYTES buf' = IPH_HL_BYTES buf := by
    rw [IPH_HL_BYTES, IPH_HL_BYTES, h.2 0 (hS 0 (by decide))]
  have hl : IPH_LEN buf' = IPH_LEN buf := h.load16 (hS 2 (by decide)) (hS 3 (by decide))
  have hid : IPH_ID buf' = IPH_ID buf := h.load16 (hS 4 (by decide)) (hS 5 (by decide))
  have hoff : IPH_OFFSET buf' = IPH_OFFSET buf := h.load16 (hS 6 (by decide)) (hS 7 (by decide))
  have httl : IPH_TTL buf' = IPH_TTL buf := h.2 8 (hS 8 (by decide))
  have hproto : IPH_PROTO buf' = IPH_PROTO buf := h.2 9 (hS 9 (by decide))
  unfold ipv4packetviewParse
  rw [hv, hhl, hl, hid, hoff, httl, hproto, h.1]
  dsimp only
  split_ifs <;> rfl

/-- The transport view of TCP reads its header's first fourteen bytes. -/
theorem ipv4packetviewParseTcp_congr (h : AgreeExcept S buf buf') (hS : ∀ j < 10, ¬ S j)
    (hT : ∀ p, ipv4packetviewParse buf = some p → ∀ k < 14, ¬ S (p.transport_offset + k)) :
    ipv4packetviewParseTcp buf' = (ipv4packetviewParseTcp buf).map fun v =>
      { v with source_address := IPH_SRC buf', destination_address := IPH_DEST buf' } := by
  unfold ipv4packetviewParseTcp
  rw [ipv4packetviewParse_congr h hS]
  cases hp : ipv4packetviewParse buf with
  | none => rfl
  | some p =>
    have hk := hT p hp
    have hhdr : load16 buf' (p.transport_offset + 12) = load16 buf (p.transport_offset + 12) :=
      h.load16 (hk 12 (by decide)) (hk 13 (by decide))
    have hsrc : load16 buf' p.transport_offset = load16 buf p.transport_offset :=
      h.load16 (by simpa using hk 0 (by decide)) (hk 1 (by decide))
    have hdst : load16 buf' (p.transport_offset + 2) = load16 buf (p.transport_offset + 2) :=
      h.load16 (hk 2 (by decide)) (by simpa [Nat.add_assoc] using hk 3 (by decide))
    have hseq : load32 buf' (p.transport_offset + 4) = load32 buf (p.transport_offset + 4) :=
      h.load32 fun k hk4 => by simpa [Nat.add_assoc] using hk (4 + k) (by omega)
    have hack : load32 buf' (p.transport_offset + 8) = load32 buf (p.transport_offset + 8) :=
      h.load32 fun k hk4 => by simpa [Nat.add_assoc] using hk (8 + k) (by omega)
    dsimp only [Option.map_some]
    rw [TCPH_HDRLEN_BYTES, TCPH_HDRLEN_BYTES, hhdr, hsrc, hdst, hseq, hack]
    split_ifs <;> rfl

end Agree

/-! ## What a view says about the buffer -/

/-- What a header view read from a buffer says about it. -/
structure ViewOf (buf : List UInt8) (v : Ipv4PacketView) : Prop where
  version : IPH_V buf = 4
  header_length : v.ip_header_length = IPH_HL_BYTES buf
  header_ge : IP_HLEN ≤ v.ip_header_length
  header_le_total : v.ip_header_length ≤ v.ip_total_length
  total_le : v.ip_total_length ≤ buf.length
  transport_offset : v.transport_offset = v.ip_header_length
  transport_length : v.transport_length = v.ip_total_length - v.ip_header_length
  protocol : v.protocol = IPH_PROTO buf
  source : v.source_address = IPH_SRC buf
  destination : v.destination_address = IPH_DEST buf
  fragment_state : v.fragment_state = (lwip_ntohs (IPH_OFFSET buf)).toNat
  fragment_offset : v.fragment_offset = v.fragment_state &&& IP_OFFMASK
  fragmented : v.fragmented = (v.fragment_state &&& (IP_MF ||| IP_OFFMASK) != 0)

theorem ipv4packetviewParse_viewOf {buf : List UInt8} {v : Ipv4PacketView}
    (h : ipv4packetviewParse buf = some v) : ViewOf buf v := by
  unfold ipv4packetviewParse at h
  dsimp only at h
  split_ifs at h with h₁ h₂ h₃
  simp only [Option.some.injEq] at h
  subst h
  refine ⟨by simpa using h₂, rfl, ?_, ?_, ?_, rfl, rfl, rfl, rfl, rfl, rfl, rfl, rfl⟩ <;>
    simp only [IP_HLEN, IP_HLEN_MAX, not_or, not_lt, gt_iff_lt] at h₃ ⊢ <;> omega

/-- A TCP view is the header view with a TCP header that fits the packet. -/
theorem ipv4packetviewParseTcp_eq_some {buf : List UInt8} {t : Ipv4PacketView}
    (h : ipv4packetviewParseTcp buf = some t) :
    ∃ p, ipv4packetviewParse buf = some p ∧ p.protocol = IP_PROTO_TCP ∧ p.fragment_offset = 0 ∧
      TCP_HLEN ≤ p.transport_length ∧ t.transport_offset = p.transport_offset := by
  unfold ipv4packetviewParseTcp at h
  cases hp : ipv4packetviewParse buf with
  | none => rw [hp] at h; cases h
  | some p =>
    rw [hp] at h
    dsimp only at h
    -- only the two checks matter; the flags are read after them
    split at h
    · cases h
    rename_i h₁
    split at h
    · cases h
    simp only [Option.some.injEq] at h
    subst h
    simp only [not_or, not_lt, Decidable.not_not] at h₁
    exact ⟨p, rfl, h₁.1, h₁.2.1, h₁.2.2, rfl⟩

/-- A UDP view is the header view with a UDP header that the packet carries. -/
theorem ipv4packetviewParseUdp_eq_some {buf : List UInt8} {t : Ipv4PacketView}
    (h : ipv4packetviewParseUdp buf = some t) :
    ∃ p, ipv4packetviewParse buf = some p ∧ p.protocol = IP_PROTO_UDP ∧ p.fragment_offset = 0 ∧
      UDP_HLEN ≤ p.transport_length ∧ t.transport_offset = p.transport_offset ∧
      UDP_HLEN ≤ (lwip_ntohs (load16 buf (p.transport_offset + 4))).toNat ∧
      (p.fragmented = false →
        (lwip_ntohs (load16 buf (p.transport_offset + 4))).toNat ≤ p.transport_length) := by
  unfold ipv4packetviewParseUdp at h
  cases hp : ipv4packetviewParse buf with
  | none => rw [hp] at h; cases h
  | some p =>
    rw [hp] at h
    dsimp only at h
    split at h
    · cases h
    rename_i h₁
    split at h
    · cases h
    rename_i h₂
    simp only [Option.some.injEq] at h
    subst h
    simp only [not_or, not_lt, Decidable.not_not] at h₁
    simp only [not_or, not_lt, not_and, Bool.not_eq_true', gt_iff_lt] at h₂
    refine ⟨p, rfl, h₁.1, h₁.2.1, h₁.2.2, rfl, h₂.1, fun hf => ?_⟩
    have := h₂.2 (by simp [hf])
    omega

end Net
end WaterWall
