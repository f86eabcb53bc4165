import WaterWall.Net.Ipv4PacketView
import WaterWall.Order.Tiling
import WaterWall.Bits.Prefix

/-!
# IPv4 fragments

What a sender writes into the header of a fragment (`IPH_LEN_SET`, `IPH_ID_SET`,
`IPH_OFFSET_SET`, `IPH_VHL_SET`), and how a receiver reads a fragment back (RFC 791, 3.2): its
payload starts after its header and runs to its total length, its fragment offset counts 8-byte
units, and the more-fragments flag is clear on the last one.

* `Ipv4Reassembles frags data`: reassembling `frags`, in whatever order they arrive, gives the
  payload `data`.  Each fragment's payload sits in `data` at its offset, every byte of `data`
  comes from some fragment, and the fragment without more-fragments ends it.  The fragments
  determine the payload (`Ipv4Reassembles.unique`) and their order does not matter
  (`Ipv4Reassembles.of_perm`).
* `Ipv4Fragmentation orig data frags`: `frags` cut `data` as RFC 791 has a sender cut a datagram,
  each fragment carrying the header of `orig`.  Such fragments reassemble to `data` and to
  nothing else (`Ipv4Fragmentation.reassembles_iff`).
-/

set_option autoImplicit false

namespace WaterWall
namespace Net

open Tiling
open scoped List

/-! ## Writing the fragment fields -/

/-- `IPH_VHL_SET`: the version and the header length in 32-bit words. -/
def IPH_VHL_SET (buf : List UInt8) (v hl : Nat) : List UInt8 :=
  overwrite buf 0 [UInt8.ofNat ((v <<< 4) ||| hl)]

/-- `IPH_LEN_SET`: the total length field, in network order. -/
def IPH_LEN_SET (buf : List UInt8) (len : UInt16) : List UInt8 := store16 buf 2 len

def IPH_ID_SET (buf : List UInt8) (id : UInt16) : List UInt8 := store16 buf 4 id

/-- `IPH_OFFSET_SET`: the flags and fragment offset field, in network order. -/
def IPH_OFFSET_SET (buf : List UInt8) (off : UInt16) : List UInt8 := store16 buf 6 off

/-- The header bytes a fragmenter rewrites: the total length, the flags and fragment offset, and
the header checksum. -/
def ipv4FragmentFields : List Nat := [2, 3, 6, 7, 10, 11]

theorem overwrite_byteAt_self {buf : List UInt8} {i : Nat} (hi : i < buf.length) :
    overwrite buf i [byteAt buf i] = buf := by
  have hlen : i + [byteAt buf i].length ≤ buf.length := by
    simp only [List.length_singleton]; omega
  refine ext_byteAt (length_overwrite hlen) fun j _ => ?_
  rw [byteAt_overwrite hlen]
  split_ifs with hj
  · obtain rfl : j = i := by simp only [List.length_singleton] at hj; omega
    simp [byteAt]
  · rfl

theorem IPH_VHL_SET_self {buf : List UInt8} (hv : IPH_V buf = 4) (h0 : 0 < buf.length) :
    IPH_VHL_SET buf 4 (IPH_HL_BYTES buf / 4) = buf := by
  have hb := (byteAt buf 0).toNat_lt
  -- the version is the high nibble, so the byte is 64 plus its low nibble
  have hhigh : (byteAt buf 0).toNat / 16 = 4 := by
    have := congrArg UInt8.toNat hv
    rwa [IPH_V, UInt8.toNat_shiftRight, show (4 : UInt8).toNat % 8 = 4 from rfl,
      Nat.shiftRight_eq_div_pow] at this
  have hlow : IPH_HL_BYTES buf / 4 = (byteAt buf 0).toNat % 2 ^ 4 := by
    rw [IPH_HL_BYTES, Nat.mul_div_cancel _ (by decide), UInt8.toNat_and,
      show (0x0f : UInt8).toNat = 2 ^ 4 - 1 from rfl, Nat.and_two_pow_sub_one_eq_mod]
  have hbyte : UInt8.ofNat ((4 <<< 4) ||| IPH_HL_BYTES buf / 4) = byteAt buf 0 := by
    apply UInt8.toNat_inj.1
    rw [hlow, ← Nat.shiftLeft_add_eq_or_of_lt (Nat.mod_lt _ (by decide)), UInt8.toNat_ofNat',
      Nat.shiftLeft_eq]
    omega
  rw [IPH_VHL_SET, hbyte, overwrite_byteAt_self h0]

theorem IPH_ID_SET_self {buf : List UInt8} (hlen : 6 ≤ buf.length) :
    IPH_ID_SET buf (IPH_ID buf) = buf :=
  store16_load16 hlen

/-- The flags and fragment offset field holds the offset in its low thirteen bits and the
more-fragments flag above them. -/
theorem fragField_decode {a : Nat} (ha : a < 2 ^ 13) (more : Bool) :
    (if more then a ||| IP_MF else a) &&& IP_OFFMASK = a ∧
      ((if more then a ||| IP_MF else a) &&& IP_MF != 0) = more := by
  have hmf : IP_MF = 2 ^ 13 := rfl
  have hoff : IP_OFFMASK = 2 ^ 13 - 1 := rfl
  -- the field is `2 ^ 13 * q + a`, with the flag `q` above the offset
  have hand : ∀ q, (2 ^ 13 * q + a) &&& 2 ^ 13 = 2 ^ 13 * (q &&& 1) := fun q => by
    have h := Prefix.two_pow_mul_add_and (a := q) (c := 1) ha (Nat.two_pow_pos 13)
    rwa [Nat.mul_one, Nat.add_zero, Nat.and_zero, Nat.add_zero] at h
  cases more with
  | true =>
    have hor : a ||| IP_MF = 2 ^ 13 * 1 + a := by
      have h := Nat.shiftLeft_add_eq_or_of_lt (a := 1) ha
      rw [Nat.shiftLeft_eq, Nat.one_mul] at h
      rw [hmf, Nat.or_comm, ← h, Nat.mul_one]
    rw [if_pos rfl, hor, hoff, Nat.and_two_pow_sub_one_eq_mod, hmf, hand 1]
    exact ⟨by omega, by decide⟩
  | false =>
    have h0 := hand 0
    rw [Nat.mul_zero, Nat.zero_add] at h0
    rw [if_neg Bool.false_ne_true, hoff, Nat.and_two_pow_sub_one_of_lt_two_pow ha, hmf, h0]
    exact ⟨rfl, by decide⟩

/-! ## Reading a fragment -/

/-- The total length of a fragment. -/
def fragTotalLen (f : List UInt8) : Nat := (lwip_ntohs (IPH_LEN f)).toNat

/-- The length of a fragment's payload. -/
def fragPayloadLen (f : List UInt8) : Nat := fragTotalLen f - IPH_HL_BYTES f

/-- The flags and fragment offset field, in host order. -/
def fragField (f : List UInt8) : Nat := (lwip_ntohs (IPH_OFFSET f)).toNat

/-- Where the fragment's payload starts in the datagram's: the offset field, in bytes. -/
def fragOffsetBytes (f : List UInt8) : Nat := (fragField f &&& IP_OFFMASK) * 8

/-- The more-fragments flag. -/
def fragMore (f : List UInt8) : Bool := fragField f &&& IP_MF != 0

/-- The part of the datagram's payload a fragment carries, as an offset and a length. -/
def fragSpan (f : List UInt8) : Nat × Nat := (fragOffsetBytes f, fragPayloadLen f)

/-! ## Reassembly -/

/-- Reassembling the fragments `frags` gives the payload `data` (RFC 791, 3.2): each fragment's
payload is the bytes of `data` at its offset, every byte of `data` is in some fragment, and a
fragment without more-fragments ends `data`. -/
structure Ipv4Reassembles (frags : List (List UInt8)) (data : List UInt8) : Prop where
  placed : ∀ f ∈ frags, fragOffsetBytes f + fragPayloadLen f ≤ data.length ∧
    ∀ k < fragPayloadLen f, byteAt f (IPH_HL_BYTES f + k) = byteAt data (fragOffsetBytes f + k)
  covered : ∀ p < data.length, ∃ f ∈ frags,
    fragOffsetBytes f ≤ p ∧ p < fragOffsetBytes f + fragPayloadLen f
  ends : ∃ f ∈ frags, fragMore f = false ∧ fragOffsetBytes f + fragPayloadLen f = data.length

section Reassembly

variable {frags frags' : List (List UInt8)} {data data' : List UInt8}

/-- **The fragments determine the payload.**  The last fragment fixes the length, and each byte
is read from a fragment that covers it. -/
theorem Ipv4Reassembles.unique (h : Ipv4Reassembles frags data)
    (h' : Ipv4Reassembles frags data') : data = data' := by
  obtain ⟨f, hf, -, hfe⟩ := h.ends
  obtain ⟨f', hf', -, hfe'⟩ := h'.ends
  have hlen : data.length = data'.length := by
    have h₁ := (h.placed f' hf').1
    have h₂ := (h'.placed f hf).1
    omega
  refine ext_byteAt hlen fun p hp => ?_
  obtain ⟨g, hg, hgp, hgp'⟩ := h.covered p hp
  have e₁ := (h.placed g hg).2 (p - fragOffsetBytes g) (by omega)
  have e₂ := (h'.placed g hg).2 (p - fragOffsetBytes g) (by omega)
  rw [Nat.add_sub_cancel' hgp] at e₁ e₂
  rw [← e₁, e₂]

theorem Ipv4Reassembles.of_perm (hp : frags ~ frags') (h : Ipv4Reassembles frags data) :
    Ipv4Reassembles frags' data where
  placed f hf := h.placed f (hp.mem_iff.2 hf)
  covered p hp' := by
    obtain ⟨f, hf, hfp⟩ := h.covered p hp'
    exact ⟨f, hp.mem_iff.1 hf, hfp⟩
  ends := by
    obtain ⟨f, hf, hfe⟩ := h.ends
    exact ⟨f, hp.mem_iff.1 hf, hfe⟩

end Reassembly

/-! ## Fragmentation -/

/-- `frags` cut the payload `data` of the packet `orig` as RFC 791 has a sender cut it: each
fragment a whole packet with `orig`'s header but for the fields a fragmenter rewrites, the
payloads laid end to end from offset 0 to the end of `data`, every fragment but the last with
more-fragments set and a nonempty payload of whole 8-byte units, and the last without. -/
structure Ipv4Fragmentation (orig data : List UInt8) (frags : List (List UInt8)) : Prop where
  ne_nil : frags ≠ []
  header_ge : IP_HLEN ≤ IPH_HL_BYTES orig
  complete : ∀ f ∈ frags, f.length = fragTotalLen f
  header_length : ∀ f ∈ frags, IPH_HL_BYTES f = IPH_HL_BYTES orig
  header : ∀ f ∈ frags, ∀ j < IPH_HL_BYTES orig, j ∉ ipv4FragmentFields →
    byteAt f j = byteAt orig j
  tiles : Tiles 0 (frags.map fragSpan) data.length
  payload : ∀ f ∈ frags, ∀ k < fragPayloadLen f,
    byteAt f (IPH_HL_BYTES f + k) = byteAt data (fragOffsetBytes f + k)
  more : ∀ f ∈ frags.dropLast, fragMore f = true ∧ 0 < fragPayloadLen f ∧ fragPayloadLen f % 8 = 0
  last : ∀ f ∈ frags.getLast?, fragMore f = false

section Fragmentation

variable {orig data : List UInt8} {frags : List (List UInt8)}

theorem Ipv4Fragmentation.iph_id (h : Ipv4Fragmentation orig data frags) :
    ∀ f ∈ frags, IPH_ID f = IPH_ID orig := by
  intro f hf
  have hge := h.header_ge
  unfold IP_HLEN at hge
  unfold IPH_ID load16
  rw [h.header f hf 4 (by omega) (by decide), h.header f hf 5 (by omega) (by decide)]

/-- **A fragmentation reassembles to its payload.** -/
theorem Ipv4Fragmentation.reassembles (h : Ipv4Fragmentation orig data frags) :
    Ipv4Reassembles frags data where
  placed f hf := by
    have := h.tiles.le_of_mem (fragSpan f) (List.mem_map_of_mem hf)
    exact ⟨this.2, h.payload f hf⟩
  covered p hp := by
    obtain ⟨x, hx, hxp⟩ := h.tiles.cover p (Nat.zero_le p) hp
    obtain ⟨f, hf, rfl⟩ := List.mem_map.1 hx
    exact ⟨f, hf, hxp⟩
  ends := by
    -- the last fragment is the one without more-fragments, and the tiling ends with it
    obtain ⟨f, hf⟩ := Option.isSome_iff_exists.1 (List.getLast?_isSome.2 h.ne_nil)
    have hend := h.tiles.getLast (fragSpan f) (by simp [List.getLast?_map, hf])
    exact ⟨f, List.mem_of_getLast? hf, h.last f hf, hend⟩

/-- Fragments cut as RFC 791 says reassemble to their payload and to nothing else. -/
theorem Ipv4Fragmentation.reassembles_iff (h : Ipv4Fragmentation orig data frags)
    (data' : List UInt8) : Ipv4Reassembles frags data' ↔ data' = data :=
  ⟨fun h' => h'.unique h.reassembles, fun e => e ▸ h.reassembles⟩

/-- A fragmentation of a packet is one of any packet that differs from it only in the header
checksum and past the header. -/
theorem Ipv4Fragmentation.of_agree {orig' : List UInt8} (h20 : IP_HLEN ≤ IPH_HL_BYTES orig)
    (hagree : AgreeExcept (fun j => j = 10 ∨ j = 11 ∨ IPH_HL_BYTES orig ≤ j) orig orig')
    (h : Ipv4Fragmentation orig' data frags) : Ipv4Fragmentation orig data frags := by
  unfold IP_HLEN at h20
  have hhl : IPH_HL_BYTES orig' = IPH_HL_BYTES orig := by
    rw [IPH_HL_BYTES, IPH_HL_BYTES, hagree.2 0 (by omega)]
  refine ⟨h.ne_nil, by unfold IP_HLEN; omega, h.complete,
    fun f hf => (h.header_length f hf).trans hhl, fun f hf j hj hjS => ?_, h.tiles, h.payload,
    h.more, h.last⟩
  have hj10 : j ≠ 10 ∧ j ≠ 11 := by simp only [ipv4FragmentFields, List.mem_cons] at hjS; omega
  rw [h.header f hf j (hhl ▸ hj) hjS, hagree.2 j (by omega)]

end Fragmentation

end Net
end WaterWall
