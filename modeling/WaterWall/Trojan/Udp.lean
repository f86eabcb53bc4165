import WaterWall.Net.AddressContext
import WaterWall.Bufio.BufferStream

/-!
# Trojan UDP framing

Once a Trojan client has sent `UDP ASSOCIATE`, every datagram travels on the carrier stream as a
frame: the address (`ATYP`, address, port), the payload length in two bytes, CRLF, and the
payload.  TrojanClient frames outgoing datagrams with `wrapUdpPayload` and TrojanServer reads them
with `trojanserverDrainUdpPackets`; TrojanServer frames the replies with
`trojanserverWrapUdpPayload` and TrojanClient reads them with `drainUdpFrames`.  The two sides
share the frame layout but not the code.

* `parseUdpPacket_udpFrame`, `udpHeaderLength_udpFrame`: each reader recognises the frames the
  writers produce; `trojanserverDrainUdpPackets_frames` and `drainUdpFrames_frames`: a stream of
  whole frames is read back as the datagrams, each with its address.
* The client waits when a frame's header is not all buffered (`full_len == 0`); the server goes
  on to read `full_len = 0` bytes (`trojanserverDrainUdpPackets_of_short`), which
  `bufferstreamReadExact` asserts against.
* The server frames replies of up to `UINT16_MAX` bytes, the client reads frames of at most
  `kTrojanClientUdpMaxPacket` (`drainUdpFrames_of_large`).
-/

set_option autoImplicit false

namespace WaterWall
namespace Trojan

def kTrojanAtypIpv4 : UInt8 := 0x01

def kTrojanAtypDomain : UInt8 := 0x03

def kTrojanAtypIpv6 : UInt8 := 0x04

def kTrojanClientUdpMaxPacket : Nat := 8192

def kTrojanServerUdpMaxPacket : Nat := 8192

/-! ## Addresses -/

/-- The address as both sides write it (`trojanclientWriteAddress`, `trojanserverWriteAddress`):
the address type, the address (a domain behind its length) and the port in network order.
`none` is the `false` return for a context that is neither an IP address nor a valid domain. -/
def trojanWriteAddress (ctx : AddressContext) : Option (List UInt8) :=
  match ctx.host with
  | .ipv4 addr _ => some (kTrojanAtypIpv4 :: addr ++ portBytes ctx.port)
  | .ipv6 addr _ => some (kTrojanAtypIpv6 :: addr ++ portBytes ctx.port)
  | .domain name _ =>
    if 0 < name.length then some (kTrojanAtypDomain :: name.length.toUInt8 :: name ++ portBytes ctx.port)
    else none
  | .unset => none

def trojanclientWriteAddress (ctx : AddressContext) : Option (List UInt8) := trojanWriteAddress ctx

def trojanserverWriteAddress (ctx : AddressContext) : Option (List UInt8) := trojanWriteAddress ctx

/-- `trojanclientAddressLength`: how many bytes `trojanclientWriteAddress` writes. -/
def trojanclientAddressLength (ctx : AddressContext) : Option Nat :=
  match ctx.host with
  | .ipv4 .. => some (1 + 4 + 2)
  | .ipv6 .. => some (1 + 16 + 2)
  | .domain name _ => if 0 < name.length then some (1 + 1 + name.length + 2) else none
  | .unset => none

/-- What an address parser returns: `0` (more bytes are needed), `-1` (not an address), or `1`
with the address and how many bytes it took. -/
inductive AddressParse where
  | needMore
  | invalid
  | parsed (ctx : AddressContext) (consumed : Nat)
  deriving DecidableEq

/-- An address of `n` bytes taken from a buffer that holds `n + k`. -/
theorem length_take_of_not_lt {l : List UInt8} {n k : Nat} (h : ¬l.length < n + k) :
    (l.take n).length = n :=
  List.length_take_of_le (by omega)

/-- A domain behind its length byte is shorter than 256 bytes. -/
theorem length_take_toNat_lt (l : List UInt8) (b : UInt8) : (l.take b.toNat).length < 256 := by
  have := b.toNat_lt
  simp only [List.length_take]
  omega

/-- The address parser of both sides (`trojanclientParseAddressBytes`,
`trojanserverParseAddressBytes`). -/
def trojanParseAddressBytes (buf : List UInt8) : AddressParse :=
  match _hbuf : buf with
  | [] => .needMore
  | atyp :: rest =>
    if atyp = kTrojanAtypIpv4 then
      if h : rest.length < 4 + 2 then .needMore
      else .parsed ⟨.ipv4 (rest.take 4) (length_take_of_not_lt h), portOfBytes (rest.drop 4)⟩ (1 + 4 + 2)
    else if atyp = kTrojanAtypIpv6 then
      if h : rest.length < 16 + 2 then .needMore
      else .parsed ⟨.ipv6 (rest.take 16) (length_take_of_not_lt h), portOfBytes (rest.drop 16)⟩ (1 + 16 + 2)
    else if atyp = kTrojanAtypDomain then
      match _hrest : rest with
      | [] => .needMore
      | domain_len :: name =>
        if domain_len = 0 then .invalid
        else if name.length < domain_len.toNat + 2 then .needMore
        else
          .parsed ⟨.domain (name.take domain_len.toNat) (length_take_toNat_lt name domain_len),
            portOfBytes (name.drop domain_len.toNat)⟩ (1 + 1 + domain_len.toNat + 2)
    else .invalid

def trojanclientParseAddressBytes (buf : List UInt8) : AddressParse := trojanParseAddressBytes buf

def trojanserverParseAddressBytes (buf : List UInt8) : AddressParse := trojanParseAddressBytes buf

/-! ## Frames -/

/-- A datagram on the carrier stream behind the address `addr`: the address, the payload length in
network order, CRLF, and the payload. -/
def udpFrame (addr payload : List UInt8) : List UInt8 :=
  addr ++ BigEndian.bytes 2 payload.length ++ [13, 10] ++ payload

/-- TrojanClient's `wrapUdpPayload`: the frame of an outgoing datagram for `target`.  Whether the
header goes into the payload's padding or the payload is copied behind it, the bytes are the
same.  `none` is the `false` return. -/
def wrapUdpPayload (target : AddressContext) (payload : List UInt8) : Option (List UInt8) :=
  if payload.length > kTrojanClientUdpMaxPacket then none
  else
    match trojanclientAddressLength target with
    | none => none
    | some _ => (trojanclientWriteAddress target).map fun addr => udpFrame addr payload

/-- `trojanserverWrapUdpPayload`: the frame of a reply from the line's destination `addr_ctx`. -/
def trojanserverWrapUdpPayload (addr_ctx : AddressContext) (payload : List UInt8) :
    Option (List UInt8) :=
  if payload.length > UINT16_MAX then none
  else (trojanserverWriteAddress addr_ctx).map fun addr => udpFrame addr payload

/-- What a header check found: not a frame (`false`), not all buffered yet (`true`, with
`packet_size` and `full_len` left as they were), or a header of a frame of `full_len` bytes. -/
inductive HeaderScan where
  | bad
  | short
  | complete (packet_size full_len : Nat)

/-- `packet_size` after the check, starting from `0`. -/
def HeaderScan.packetSize : HeaderScan → Nat
  | .complete packet_size _ => packet_size
  | _ => 0

/-- `full_len` after the check, starting from `0`. -/
def HeaderScan.fullLen : HeaderScan → Nat
  | .complete _ full_len => full_len
  | _ => 0

/-- The end of the header check, once `header_len` is known: wait for the header, then read the
payload length and check it against `max_packet` and the CRLF after it. -/
def udpHeaderTail (max_packet : Nat) (stream : BufferStream) (header_len : Nat) :
    Option HeaderScan :=
  if bufferstreamGetBufLen stream < header_len then some .short
  else
    (bufferstreamViewByteAt stream (header_len - 4)).bind fun hi =>
    (bufferstreamViewByteAt stream (header_len - 3)).bind fun lo =>
    let packet_size := hi.toNat * 256 + lo.toNat
    if packet_size > max_packet then some .bad
    else
      (bufferstreamViewByteAt stream (header_len - 2)).bind fun cr =>
      (bufferstreamViewByteAt stream (header_len - 1)).bind fun lf =>
      if cr ≠ 13 ∨ lf ≠ 10 then some .bad
      else some (.complete packet_size (header_len + packet_size))

/-- The header check shared by `trojanserverUdpPacketHeaderLength` and `udpFrameHeaderLength`,
with the payload limit of each side.  The length of the header depends on the address type, and
for a domain on its length byte.  The server keeps `header_len` and `full_len` in `uint16_t`;
with the payload limit checked, they never wrap. -/
def udpHeaderLength (max_packet : Nat) (stream : BufferStream) : Option HeaderScan :=
  if bufferstreamGetBufLen stream = 0 then some .short
  else
    (bufferstreamViewByteAt stream 0).bind fun atyp =>
    if atyp = kTrojanAtypIpv4 then udpHeaderTail max_packet stream (1 + 4 + 2 + 2 + 2)
    else if atyp = kTrojanAtypDomain then
      if bufferstreamGetBufLen stream < 1 + 1 then some .short
      else
        (bufferstreamViewByteAt stream 1).bind fun domain_len =>
        if domain_len = 0 then some .bad
        else udpHeaderTail max_packet stream (1 + 1 + domain_len.toNat + 2 + 2 + 2)
    else if atyp = kTrojanAtypIpv6 then udpHeaderTail max_packet stream (1 + 16 + 2 + 2 + 2)
    else some .bad

def trojanserverUdpPacketHeaderLength (stream : BufferStream) : Option HeaderScan :=
  udpHeaderLength kTrojanServerUdpMaxPacket stream

/-- TrojanClient's `udpFrameHeaderLength`. -/
def udpFrameHeaderLength (stream : BufferStream) : Option HeaderScan :=
  udpHeaderLength kTrojanClientUdpMaxPacket stream

/-- The frame parser shared by `trojanserverParseUdpPacketTarget` and `parseUdpFrame`: the
address, the header length and the payload length of a whole frame, or `none` when it is not one. -/
def parseUdpPacket (max_packet : Nat) (packet : List UInt8) : Option (AddressContext × Nat × Nat) :=
  match trojanParseAddressBytes packet with
  | .parsed target addr_len =>
    if packet.length < addr_len + 4 then none
    else
      let packet_size := BigEndian.value ((packet.drop addr_len).take 2)
      if packet_size > max_packet ∨ packet.getD (addr_len + 2) 0 ≠ 13 ∨
          packet.getD (addr_len + 3) 0 ≠ 10 ∨ packet.length ≠ addr_len + 4 + packet_size then none
      else some (target, addr_len + 4, packet_size)
  | _ => none

def trojanserverParseUdpPacketTarget (packet : List UInt8) : Option (AddressContext × Nat × Nat) :=
  parseUdpPacket kTrojanServerUdpMaxPacket packet

/-- TrojanClient's `parseUdpFrame`. -/
def parseUdpFrame (packet : List UInt8) : Option (AddressContext × Nat × Nat) :=
  parseUdpPacket kTrojanClientUdpMaxPacket packet

/-! ## The two drain loops -/

/-- `trojanserverDrainUdpPackets`, with every remote line taking its datagram: frames are read
while the stream is not empty.  Whether the line stays open (`false` when it is closed), the
datagrams forwarded with their targets, and the stream left.  When the header is not all there,
`full_len` is still `0`, and the loop goes on to read that many bytes. -/
def trojanserverDrainUdpPackets (stream : BufferStream) :
    Option (Bool × List (AddressContext × List UInt8) × BufferStream) :=
  if bufferstreamIsEmpty stream then some (true, [], stream)
  else
    match trojanserverUdpPacketHeaderLength stream with
    | none => none
    | some .bad => some (false, [], stream)
    | some scan =>
      if bufferstreamGetBufLen stream < scan.fullLen then some (true, [], stream)
      else
        match h : bufferstreamReadExact stream scan.fullLen with
        | none => none
        | some (packet, stream') =>
          match trojanserverParseUdpPacketTarget packet with
          | some (target, header_len, parsed_packet_size) =>
            if parsed_packet_size = scan.packetSize ∧ addresscontextHasPort target then
              (trojanserverDrainUdpPackets stream').map fun r =>
                (r.1, (target, packet.drop header_len) :: r.2.1, r.2.2)
            else some (false, [], stream')
          | none => some (false, [], stream')
termination_by stream.size
decreasing_by
  obtain ⟨hpos, hle, -, hsize⟩ := bufferstreamReadExact_some h
  omega

/-- TrojanClient's `drainUdpFrames`, with the application line taking every datagram: the same
loop, except that it waits while `full_len` is `0`, and forwards the payloads only. -/
def drainUdpFrames (stream : BufferStream) : Option (Bool × List (List UInt8) × BufferStream) :=
  if bufferstreamIsEmpty stream then some (true, [], stream)
  else
    match udpFrameHeaderLength stream with
    | none => none
    | some .bad => some (false, [], stream)
    | some scan =>
      if scan.fullLen = 0 ∨ bufferstreamGetBufLen stream < scan.fullLen then some (true, [], stream)
      else
        match h : bufferstreamReadExact stream scan.fullLen with
        | none => none
        | some (packet, stream') =>
          match parseUdpFrame packet with
          | some (source, header_len, parsed_packet_size) =>
            if parsed_packet_size = scan.packetSize ∧ addresscontextHasPort source then
              (drainUdpFrames stream').map fun r => (r.1, packet.drop header_len :: r.2.1, r.2.2)
            else some (false, [], stream')
          | none => some (false, [], stream')
termination_by stream.size
decreasing_by
  obtain ⟨hpos, hle, -, hsize⟩ := bufferstreamReadExact_some h
  omega

/-- TrojanServer's `trojanserverTunnelUpStreamPayload` on a line in one of the UDP phases: the
payload is pushed onto `in_stream` and the packets drained (`trojanserverDrainInput`). -/
def trojanserverUdpUpStreamPayload (in_stream : BufferStream) (buf : List UInt8) :
    Option (Bool × List (AddressContext × List UInt8) × BufferStream) :=
  (bufferstreamPush in_stream buf).bind trojanserverDrainUdpPackets

def kTrojanClientMaxBufferedBytes : Nat := 1024 * 1024

/-- `trojanclientHandleUdpCarrierPayload` on an established carrier: the payload is pushed, a
buffer over `kTrojanClientMaxBufferedBytes` closes the carrier, and the frames are drained. -/
def trojanclientHandleUdpCarrierPayload (in_stream : BufferStream) (buf : List UInt8) :
    Option (Bool × List (List UInt8) × BufferStream) :=
  (bufferstreamPush in_stream buf).bind fun in_stream =>
    if bufferstreamGetBufLen in_stream > kTrojanClientMaxBufferedBytes then some (false, [], in_stream)
    else drainUdpFrames in_stream

/-! ## Reading back what is written -/

theorem toNat_toUInt8_of_lt {n : Nat} (h : n < 256) : n.toUInt8.toNat = n := by
  simp [Nat.toUInt8, Nat.mod_eq_of_lt h]

/-- The length byte of a domain the writers accept is not the `0` the parsers reject. -/
theorem toUInt8_length_ne_zero {name : List UInt8} (hn : name.length < 256) (hpos : 0 < name.length) :
    name.length.toUInt8 ≠ 0 := by
  intro h0
  have h1 : name.length.toUInt8.toNat = 0 := by rw [h0]; rfl
  have h2 := toNat_toUInt8_of_lt hn
  omega

/-- **The address parser reads back every address the writers write**, whatever follows it. -/
theorem trojanParseAddressBytes_write {ctx : AddressContext} {addr : List UInt8}
    (h : trojanWriteAddress ctx = some addr) (rest : List UInt8) :
    trojanParseAddressBytes (addr ++ rest) = .parsed ctx addr.length := by
  obtain ⟨host, port⟩ := ctx
  cases host with
  | ipv4 a ha =>
    simp only [trojanWriteAddress, Option.some.injEq] at h
    subst h
    have htake : (a ++ portBytes port ++ rest).take 4 = a := by
      rw [List.append_assoc, List.take_left' ha]
    have hdrop : (a ++ portBytes port ++ rest).drop 4 = portBytes port ++ rest := by
      rw [List.append_assoc, List.drop_left' ha]
    simp only [List.cons_append, trojanParseAddressBytes, ↓reduceIte, htake, hdrop,
      portOfBytes_portBytes, List.length_cons, List.length_append, ha, length_portBytes]
    rw [dif_neg (by omega)]
  | ipv6 a ha =>
    simp only [trojanWriteAddress, Option.some.injEq] at h
    subst h
    have htake : (a ++ portBytes port ++ rest).take 16 = a := by
      rw [List.append_assoc, List.take_left' ha]
    have hdrop : (a ++ portBytes port ++ rest).drop 16 = portBytes port ++ rest := by
      rw [List.append_assoc, List.drop_left' ha]
    simp only [List.cons_append, trojanParseAddressBytes, kTrojanAtypIpv6, kTrojanAtypIpv4,
      show ¬((4 : UInt8) = 1) by decide, ↓reduceIte, htake, hdrop, portOfBytes_portBytes,
      List.length_cons, List.length_append, ha, length_portBytes]
    rw [dif_neg (by omega)]
  | domain name hn =>
    simp only [trojanWriteAddress] at h
    split_ifs at h with hpos
    simp only [Option.some.injEq] at h
    subst h
    have hlen : name.length.toUInt8.toNat = name.length := toNat_toUInt8_of_lt hn
    have hne : name.length.toUInt8 ≠ 0 := toUInt8_length_ne_zero hn hpos
    have htake : (name ++ portBytes port ++ rest).take name.length = name := by
      rw [List.append_assoc, List.take_left]
    have hdrop : (name ++ portBytes port ++ rest).drop name.length = portBytes port ++ rest := by
      rw [List.append_assoc, List.drop_left]
    simp only [List.cons_append, trojanParseAddressBytes, kTrojanAtypDomain, kTrojanAtypIpv6,
      kTrojanAtypIpv4, show ¬((3 : UInt8) = 1) by decide, show ¬((3 : UInt8) = 4) by decide,
      ↓reduceIte, if_neg hne, hlen, htake, hdrop, portOfBytes_portBytes,
      List.length_cons, List.length_append, length_portBytes]
    rw [if_neg (by omega)]
    congr 1
    omega
  | unset => simp [trojanWriteAddress] at h

theorem length_udpFrame (addr payload : List UInt8) :
    (udpFrame addr payload).length = addr.length + 4 + payload.length := by
  simp [udpFrame]
  omega

/-- The four bytes between the address and the payload: the length, high byte first, and CRLF. -/
theorem udpFrame_append (addr payload rest : List UInt8) :
    ∃ hi lo : UInt8, hi.toNat * 256 + lo.toNat = payload.length % 65536 ∧
      udpFrame addr payload ++ rest = addr ++ (hi :: lo :: 13 :: 10 :: (payload ++ rest)) := by
  obtain ⟨hi, lo, hb⟩ : ∃ hi lo, BigEndian.bytes 2 payload.length = [hi, lo] := by
    match h : BigEndian.bytes 2 payload.length, BigEndian.length_bytes 2 payload.length with
    | [hi, lo], _ => exact ⟨hi, lo, rfl⟩
  refine ⟨hi, lo, ?_, by simp [udpFrame, hb]⟩
  have hv := BigEndian.value_bytes 2 payload.length
  rw [hb, BigEndian.value_cons, BigEndian.value_cons] at hv
  simp only [List.length_cons, List.length_nil, BigEndian.value_nil] at hv
  omega

/-- The end of the header check on a stream that starts with a frame. -/
theorem udpHeaderTail_udpFrame (max_packet : Nat) {stream : BufferStream}
    {addr payload rest : List UInt8} (hc : stream.content = udpFrame addr payload ++ rest)
    (hlen : payload.length ≤ UINT16_MAX) :
    udpHeaderTail max_packet stream (addr.length + 4) =
      some (if payload.length > max_packet then .bad
        else .complete payload.length (addr.length + 4 + payload.length)) := by
  obtain ⟨hi, lo, hv, happ⟩ := udpFrame_append addr payload rest
  have hsize : ¬bufferstreamGetBufLen stream < addr.length + 4 := by
    rw [bufferstreamGetBufLen, stream.size_eq_length, hc, List.length_append, length_udpFrame]
    omega
  have hbyte : ∀ k, stream.content[addr.length + k]? = (hi :: lo :: 13 :: 10 :: (payload ++ rest))[k]? := by
    intro k
    rw [hc, happ, List.getElem?_append_right (by omega), Nat.add_sub_cancel_left]
  have h0 : stream.content[addr.length]? = some hi := hbyte 0
  have hsz : hi.toNat * 256 + lo.toNat = payload.length := by
    simp only [UINT16_MAX] at hlen
    omega
  simp only [udpHeaderTail, if_neg hsize, bufferstreamViewByteAt_eq, Nat.add_sub_cancel,
    show addr.length + 4 - 3 = addr.length + 1 by omega,
    show addr.length + 4 - 2 = addr.length + 2 by omega,
    show addr.length + 4 - 1 = addr.length + 3 by omega]
  rw [h0, hbyte 1, hbyte 2, hbyte 3]
  simp only [List.getElem?_cons_zero, List.getElem?_cons_succ, Option.bind_some, hsz, ne_eq,
    not_true_eq_false, or_self, if_false]
  split_ifs <;> rfl

theorem udpHeaderTail_of_lt (max_packet : Nat) {stream : BufferStream} {header_len : Nat}
    (h : stream.size < header_len) : udpHeaderTail max_packet stream header_len = some .short := by
  rw [udpHeaderTail, if_pos (show bufferstreamGetBufLen stream < header_len from h)]

/-- The bytes at the front of a stream that holds (a prefix of) `addr ++ tail` are those of `addr`. -/
theorem viewByteAt_of_front {stream : BufferStream} {addr tail more : List UInt8}
    (hc : stream.content ++ more = addr ++ tail) {k : Nat} (hk : k < stream.size)
    (ha : k < addr.length) : bufferstreamViewByteAt stream k = addr[k]? := by
  have hk' : k < stream.content.length := by rw [← stream.size_eq_length]; exact hk
  have happ : (stream.content ++ more)[k]? = stream.content[k]? := List.getElem?_append_left hk'
  rw [bufferstreamViewByteAt_eq, ← happ, hc, List.getElem?_append_left ha]

/-- Where the header check looks for the payload length: right behind the address, for every
address the writers write at the front of the stream.  A stream holding only the type byte of a
domain is short for that header too. -/
theorem udpHeaderLength_eq_tail (max_packet : Nat) {ctx : AddressContext} {stream : BufferStream}
    {addr tail more : List UInt8} (haddr : trojanWriteAddress ctx = some addr)
    (hc : stream.content ++ more = addr ++ tail) (hpos : 0 < stream.size) :
    udpHeaderLength max_packet stream = udpHeaderTail max_packet stream (addr.length + 4) := by
  have hne : ¬bufferstreamGetBufLen stream = 0 := Nat.pos_iff_ne_zero.mp hpos
  obtain ⟨host, port⟩ := ctx
  cases host with
  | ipv4 a ha =>
    simp only [trojanWriteAddress, Option.some.injEq] at haddr
    subst haddr
    rw [udpHeaderLength, if_neg hne, viewByteAt_of_front hc hpos (by simp)]
    simp only [List.cons_append, List.getElem?_cons_zero, Option.bind_some, ↓reduceIte,
      List.length_cons, List.length_append, ha, length_portBytes]
  | ipv6 a ha =>
    simp only [trojanWriteAddress, Option.some.injEq] at haddr
    subst haddr
    rw [udpHeaderLength, if_neg hne, viewByteAt_of_front hc hpos (by simp)]
    simp only [List.cons_append, List.getElem?_cons_zero, Option.bind_some,
      show ¬kTrojanAtypIpv6 = kTrojanAtypIpv4 by decide,
      show ¬kTrojanAtypIpv6 = kTrojanAtypDomain by decide, ↓reduceIte, List.length_cons,
      List.length_append, ha, length_portBytes]
  | domain name hn =>
    simp only [trojanWriteAddress] at haddr
    split_ifs at haddr with hname
    simp only [Option.some.injEq] at haddr
    subst haddr
    have hlen : name.length.toUInt8.toNat = name.length := toNat_toUInt8_of_lt hn
    rw [udpHeaderLength, if_neg hne, viewByteAt_of_front hc hpos (by simp)]
    simp only [List.cons_append, List.getElem?_cons_zero, Option.bind_some,
      show ¬kTrojanAtypDomain = kTrojanAtypIpv4 by decide, ↓reduceIte, List.length_cons,
      List.length_append, length_portBytes]
    by_cases h2 : bufferstreamGetBufLen stream < 1 + 1
    · -- only the type byte is buffered: short before the length byte is read
      have hlt : stream.size < name.length + 2 + 1 + 1 + 4 := by
        simp only [bufferstreamGetBufLen] at h2
        omega
      rw [if_pos h2, udpHeaderTail_of_lt max_packet hlt]
    · have h1 : 1 < stream.size := by
        simp only [bufferstreamGetBufLen] at h2
        omega
      rw [if_neg h2, viewByteAt_of_front hc h1 (by simp)]
      simp only [List.cons_append, List.getElem?_cons_succ, List.getElem?_cons_zero,
        Option.bind_some, if_neg (toUInt8_length_ne_zero hn hname), hlen]
      congr 1
      omega
  | unset => simp [trojanWriteAddress] at haddr

/-- **The header check recognises every frame**: a frame whose address the writers write, at the
front of the stream, is reported whole with its payload length, or `false` over the limit. -/
theorem udpHeaderLength_udpFrame (max_packet : Nat) {ctx : AddressContext} {stream : BufferStream}
    {addr payload rest : List UInt8} (haddr : trojanWriteAddress ctx = some addr)
    (hc : stream.content = udpFrame addr payload ++ rest) (hlen : payload.length ≤ UINT16_MAX) :
    udpHeaderLength max_packet stream =
      some (if payload.length > max_packet then .bad
        else .complete payload.length (addr.length + 4 + payload.length)) := by
  have hc' : stream.content ++ [] =
      addr ++ (BigEndian.bytes 2 payload.length ++ [13, 10] ++ payload ++ rest) := by
    rw [List.append_nil, hc, udpFrame]
    simp only [List.append_assoc]
  have hpos : 0 < stream.size := by
    rw [stream.size_eq_length, hc, List.length_append, length_udpFrame]
    omega
  rw [udpHeaderLength_eq_tail max_packet haddr hc' hpos, udpHeaderTail_udpFrame max_packet hc hlen]

/-- A stream that holds part of a frame's header, and nothing more, is short. -/
theorem udpHeaderLength_of_partialHeader (max_packet : Nat) {ctx : AddressContext} {stream : BufferStream}
    {addr payload more : List UInt8} (haddr : trojanWriteAddress ctx = some addr)
    (hc : stream.content ++ more = udpFrame addr payload) (hpos : 0 < stream.size)
    (hshort : stream.size < addr.length + 4) : udpHeaderLength max_packet stream = some .short := by
  have hc' : stream.content ++ more =
      addr ++ (BigEndian.bytes 2 payload.length ++ [13, 10] ++ payload) := by
    rw [hc, udpFrame]
    simp only [List.append_assoc]
  rw [udpHeaderLength_eq_tail max_packet haddr hc' hpos, udpHeaderTail_of_lt max_packet hshort]

theorem drop_udpFrame (addr payload : List UInt8) :
    (udpFrame addr payload).drop (addr.length + 4) = payload := by
  have hhead : (addr ++ BigEndian.bytes 2 payload.length ++ [13, 10]).length = addr.length + 4 := by
    simp
  rw [udpFrame, ← hhead, List.drop_left]

/-- **The frame parser reads back every frame** within its limit: the address, the header length
and the payload length. -/
theorem parseUdpPacket_udpFrame {max_packet : Nat} {ctx : AddressContext} {addr payload : List UInt8}
    (haddr : trojanWriteAddress ctx = some addr) (hlen : payload.length ≤ max_packet)
    (hmax : max_packet ≤ UINT16_MAX) :
    parseUdpPacket max_packet (udpFrame addr payload) = some (ctx, addr.length + 4, payload.length) := by
  obtain ⟨hi, lo, hv, happ⟩ := udpFrame_append addr payload []
  simp only [List.append_nil] at happ
  have hval : BigEndian.value [hi, lo] = payload.length := by
    simp only [BigEndian.value_cons, List.length_cons, List.length_nil, BigEndian.value_nil]
    simp only [UINT16_MAX] at hmax
    omega
  have hget : ∀ k, (addr ++ hi :: lo :: 13 :: 10 :: payload).getD (addr.length + k) 0 =
      (hi :: lo :: 13 :: 10 :: payload).getD k 0 := by
    intro k
    simp only [List.getD_eq_getElem?_getD, List.getElem?_append_right (Nat.le_add_right _ _),
      Nat.add_sub_cancel_left]
  rw [parseUdpPacket, happ, trojanParseAddressBytes_write haddr]
  dsimp only
  rw [List.drop_left, hget 2, hget 3]
  simp [hval, Nat.not_lt_of_le, hlen]
  omega

/-! ## The drain loops, frame by frame -/

theorem wrapUdpPayload_eq {target : AddressContext} {payload frame : List UInt8}
    (h : wrapUdpPayload target payload = some frame) :
    payload.length ≤ kTrojanClientUdpMaxPacket ∧
      ∃ addr, trojanWriteAddress target = some addr ∧ frame = udpFrame addr payload := by
  rw [wrapUdpPayload] at h
  split_ifs at h with hlen
  split at h
  · cases h
  · obtain ⟨addr, haddr, rfl⟩ := Option.map_eq_some_iff.mp h
    exact ⟨by omega, addr, haddr, rfl⟩

theorem trojanserverWrapUdpPayload_eq {addr_ctx : AddressContext} {payload frame : List UInt8}
    (h : trojanserverWrapUdpPayload addr_ctx payload = some frame) :
    payload.length ≤ UINT16_MAX ∧
      ∃ addr, trojanWriteAddress addr_ctx = some addr ∧ frame = udpFrame addr payload := by
  rw [trojanserverWrapUdpPayload] at h
  split_ifs at h with hlen
  obtain ⟨addr, haddr, rfl⟩ := Option.map_eq_some_iff.mp h
  exact ⟨by omega, addr, haddr, rfl⟩

/-- What both loops find at the front of a stream that starts with a frame within their limit:
the header check's result, the read of the whole frame, and its parse. -/
theorem udpFrame_front (max_packet : Nat) {ctx : AddressContext} {stream : BufferStream}
    {addr payload rest : List UInt8} (haddr : trojanWriteAddress ctx = some addr)
    (hc : stream.content = udpFrame addr payload ++ rest) (hlen : payload.length ≤ max_packet)
    (hmax : max_packet ≤ UINT16_MAX) (hsize : stream.size ≤ UINT32_MAX) :
    udpHeaderLength max_packet stream =
        some (.complete payload.length (addr.length + 4 + payload.length)) ∧
      addr.length + 4 + payload.length ≤ stream.size ∧
      ∃ stream', bufferstreamReadExact stream (addr.length + 4 + payload.length) =
          some (udpFrame addr payload, stream') ∧ stream'.content = rest ∧
        stream'.size ≤ UINT32_MAX ∧
        parseUdpPacket max_packet (udpFrame addr payload) =
          some (ctx, addr.length + 4, payload.length) := by
  have hsz : stream.size = addr.length + 4 + payload.length + rest.length := by
    rw [stream.size_eq_length, hc, List.length_append, length_udpFrame]
  have hhead := udpHeaderLength_udpFrame max_packet haddr hc (by omega)
  rw [if_neg (by omega)] at hhead
  obtain ⟨stream', hread, hc', hs'⟩ :=
    bufferstreamReadExact_eq (show 0 < addr.length + 4 + payload.length by omega)
      (show addr.length + 4 + payload.length ≤ stream.size by omega) (by omega)
  have htake : stream.content.take (addr.length + 4 + payload.length) = udpFrame addr payload := by
    rw [hc, ← length_udpFrame, List.take_left]
  have hdrop : stream.content.drop (addr.length + 4 + payload.length) = rest := by
    rw [hc, ← length_udpFrame, List.drop_left]
  rw [htake] at hread
  exact ⟨hhead, by omega, stream', hread, by rw [hc', hdrop], by omega,
    parseUdpPacket_udpFrame haddr hlen hmax⟩

/-! ### TrojanServer -/

theorem trojanserverDrainUdpPackets_of_empty {stream : BufferStream} (h : stream.size = 0) :
    trojanserverDrainUdpPackets stream = some (true, [], stream) := by
  rw [trojanserverDrainUdpPackets, if_pos (by simp [bufferstreamIsEmpty, h])]

/-- **The server's loop aborts on a partly buffered header.**  `full_len` is still `0`, so the
length check passes and `bufferstreamReadExact` is asked for no bytes, which it asserts against. -/
theorem trojanserverDrainUdpPackets_of_short {stream : BufferStream} (hpos : 0 < stream.size)
    (hs : trojanserverUdpPacketHeaderLength stream = some .short) :
    trojanserverDrainUdpPackets stream = none := by
  rw [trojanserverDrainUdpPackets, if_neg (by simp [bufferstreamIsEmpty]; omega)]
  simp only [hs, HeaderScan.fullLen, Nat.not_lt_zero, if_false]
  split
  · rfl
  · rename_i packet stream' hread
    rw [bufferstreamReadExact_zero] at hread
    cases hread

/-- One frame through the server's loop: its payload goes to its target, and the loop goes on
behind it. -/
theorem trojanserverDrainUdpPackets_udpFrame {ctx : AddressContext} {stream : BufferStream}
    {addr payload rest : List UInt8} (haddr : trojanWriteAddress ctx = some addr)
    (hc : stream.content = udpFrame addr payload ++ rest)
    (hlen : payload.length ≤ kTrojanServerUdpMaxPacket) (hport : addresscontextHasPort ctx = true)
    (hsize : stream.size ≤ UINT32_MAX) :
    ∃ stream', stream'.content = rest ∧ stream'.size ≤ UINT32_MAX ∧
      trojanserverDrainUdpPackets stream =
        (trojanserverDrainUdpPackets stream').map fun r => (r.1, (ctx, payload) :: r.2.1, r.2.2) := by
  obtain ⟨hhead, hle, stream', hread, hc', hs', hparse⟩ :=
    udpFrame_front kTrojanServerUdpMaxPacket haddr hc hlen (by decide) hsize
  refine ⟨stream', hc', hs', ?_⟩
  rw [trojanserverDrainUdpPackets, if_neg (by simp [bufferstreamIsEmpty]; omega)]
  simp only [trojanserverUdpPacketHeaderLength, hhead]
  dsimp only [HeaderScan.fullLen, HeaderScan.packetSize]
  have hnlt : ¬bufferstreamGetBufLen stream < addr.length + 4 + payload.length :=
    Nat.not_lt_of_le hle
  simp only [hnlt, ↓reduceIte]
  split
  · rename_i hnone
    rw [hread] at hnone
    cases hnone
  · rename_i packet stream'' hsome
    rw [hread] at hsome
    cases hsome
    simp only [trojanserverParseUdpPacketTarget, hparse, hport, and_self, ↓reduceIte,
      drop_udpFrame]

/-- **A stream of whole client frames is forwarded exactly**: every datagram framed by the
client's `wrapUdpPayload` goes to its own target, in order, and the line stays open. -/
theorem trojanserverDrainUdpPackets_frames {ds : List (AddressContext × List UInt8)}
    {frames : List (List UInt8)}
    (hwrap : List.Forall₂ (fun d frame => wrapUdpPayload d.1 d.2 = some frame) ds frames)
    (hport : ∀ d ∈ ds, addresscontextHasPort d.1 = true) {stream : BufferStream}
    (hc : stream.content = frames.flatten) (hsize : stream.size ≤ UINT32_MAX) :
    ∃ stream', trojanserverDrainUdpPackets stream = some (true, ds, stream') ∧
      stream'.content = [] := by
  induction hwrap generalizing stream with
  | nil =>
    refine ⟨stream, trojanserverDrainUdpPackets_of_empty ?_, hc⟩
    rw [stream.size_eq_length, hc]
    rfl
  | @cons d frame ds frames hd _ ih =>
    obtain ⟨hlen, addr, haddr, rfl⟩ := wrapUdpPayload_eq hd
    obtain ⟨stream', hc', hs', hdrain⟩ := trojanserverDrainUdpPackets_udpFrame haddr
      (by rw [hc, List.flatten_cons]) hlen (hport d List.mem_cons_self) hsize
    obtain ⟨stream'', hdrain', hc''⟩ :=
      ih (fun d' hd' => hport d' (List.mem_cons_of_mem d hd')) hc' hs'
    refine ⟨stream'', ?_, hc''⟩
    rw [hdrain, hdrain']
    rfl

/-! ### TrojanClient -/

theorem drainUdpFrames_of_empty {stream : BufferStream} (h : stream.size = 0) :
    drainUdpFrames stream = some (true, [], stream) := by
  rw [drainUdpFrames, if_pos (by simp [bufferstreamIsEmpty, h])]

theorem drainUdpFrames_of_short {stream : BufferStream}
    (hs : udpFrameHeaderLength stream = some .short) :
    drainUdpFrames stream = some (true, [], stream) := by
  rw [drainUdpFrames]
  split_ifs with hempty
  · rfl
  · simp only [hs, HeaderScan.fullLen, true_or, if_true]

/-- The client's loop closes the carrier on a header it rejects, before reading anything. -/
theorem drainUdpFrames_of_bad {stream : BufferStream} (hpos : 0 < stream.size)
    (hs : udpFrameHeaderLength stream = some .bad) :
    drainUdpFrames stream = some (false, [], stream) := by
  rw [drainUdpFrames, if_neg (by simp [bufferstreamIsEmpty]; omega)]
  simp only [hs]

/-- One frame through the client's loop: its payload goes to the application line, and the loop
goes on behind it. -/
theorem drainUdpFrames_udpFrame {ctx : AddressContext} {stream : BufferStream}
    {addr payload rest : List UInt8} (haddr : trojanWriteAddress ctx = some addr)
    (hc : stream.content = udpFrame addr payload ++ rest)
    (hlen : payload.length ≤ kTrojanClientUdpMaxPacket) (hport : addresscontextHasPort ctx = true)
    (hsize : stream.size ≤ UINT32_MAX) :
    ∃ stream', stream'.content = rest ∧ stream'.size ≤ UINT32_MAX ∧
      drainUdpFrames stream =
        (drainUdpFrames stream').map fun r => (r.1, payload :: r.2.1, r.2.2) := by
  obtain ⟨hhead, hle, stream', hread, hc', hs', hparse⟩ :=
    udpFrame_front kTrojanClientUdpMaxPacket haddr hc hlen (by decide) hsize
  refine ⟨stream', hc', hs', ?_⟩
  rw [drainUdpFrames, if_neg (by simp [bufferstreamIsEmpty]; omega)]
  simp only [udpFrameHeaderLength, hhead]
  dsimp only [HeaderScan.fullLen, HeaderScan.packetSize]
  have hwait : ¬(addr.length + 4 + payload.length = 0 ∨
      bufferstreamGetBufLen stream < addr.length + 4 + payload.length) := by
    simp only [bufferstreamGetBufLen]
    omega
  simp only [hwait, ↓reduceIte]
  split
  · rename_i hnone
    rw [hread] at hnone
    cases hnone
  · rename_i packet stream'' hsome
    rw [hread] at hsome
    cases hsome
    simp only [parseUdpFrame, hparse, hport, and_self, ↓reduceIte, drop_udpFrame]

/-- **A stream of whole server frames within the client's limit is delivered exactly**, in order,
and the carrier stays open. -/
theorem drainUdpFrames_frames {ds : List (AddressContext × List UInt8)} {frames : List (List UInt8)}
    (hwrap : List.Forall₂ (fun d frame => trojanserverWrapUdpPayload d.1 d.2 = some frame) ds frames)
    (hds : ∀ d ∈ ds, addresscontextHasPort d.1 = true ∧ d.2.length ≤ kTrojanClientUdpMaxPacket)
    {stream : BufferStream} (hc : stream.content = frames.flatten) (hsize : stream.size ≤ UINT32_MAX) :
    ∃ stream', drainUdpFrames stream = some (true, ds.map Prod.snd, stream') ∧
      stream'.content = [] := by
  induction hwrap generalizing stream with
  | nil =>
    refine ⟨stream, drainUdpFrames_of_empty ?_, hc⟩
    rw [stream.size_eq_length, hc]
    rfl
  | @cons d frame ds frames hd _ ih =>
    obtain ⟨-, addr, haddr, rfl⟩ := trojanserverWrapUdpPayload_eq hd
    obtain ⟨hport, hlen⟩ := hds d List.mem_cons_self
    obtain ⟨stream', hc', hs', hdrain⟩ := drainUdpFrames_udpFrame haddr
      (by rw [hc, List.flatten_cons]) hlen hport hsize
    obtain ⟨stream'', hdrain', hc''⟩ := ih (fun d' hd' => hds d' (List.mem_cons_of_mem d hd')) hc' hs'
    refine ⟨stream'', ?_, hc''⟩
    rw [hdrain, hdrain']
    rfl

/-- **The client rejects the server's larger replies.**  A reply the server frames with a
payload over `kTrojanClientUdpMaxPacket` (it frames up to `UINT16_MAX`) closes the carrier when it
reaches the front of the client's stream. -/
theorem drainUdpFrames_of_large {addr_ctx : AddressContext} {payload frame rest : List UInt8}
    (hwrap : trojanserverWrapUdpPayload addr_ctx payload = some frame)
    (hlarge : kTrojanClientUdpMaxPacket < payload.length) {stream : BufferStream}
    (hc : stream.content = frame ++ rest) :
    drainUdpFrames stream = some (false, [], stream) := by
  obtain ⟨hlen, addr, haddr, rfl⟩ := trojanserverWrapUdpPayload_eq hwrap
  have hpos : 0 < stream.size := by
    rw [stream.size_eq_length, hc, List.length_append, length_udpFrame]
    omega
  have hhead := udpHeaderLength_udpFrame kTrojanClientUdpMaxPacket haddr hc hlen
  rw [if_pos hlarge] at hhead
  exact drainUdpFrames_of_bad hpos hhead

/-! ### The two loops on a split header -/

/-- A client frame whose first byte arrives on its own: TrojanServer aborts, although the frame
arriving whole is forwarded and TrojanClient, reading the same bytes as a reply, waits. -/
theorem trojanserverUdpUpStreamPayload_splitHeader :
    ∃ frame, wrapUdpPayload ⟨.ipv4 [1, 2, 3, 4] rfl, 53⟩ [7] = some frame ∧
      trojanserverWrapUdpPayload ⟨.ipv4 [1, 2, 3, 4] rfl, 53⟩ [7] = some frame ∧
      trojanserverUdpUpStreamPayload bufferstreamCreate (frame.take 1) = none ∧
      (∃ in_stream, trojanserverUdpUpStreamPayload bufferstreamCreate frame =
        some (true, [(⟨.ipv4 [1, 2, 3, 4] rfl, 53⟩, [7])], in_stream)) ∧
      ∃ in_stream, trojanclientHandleUdpCarrierPayload bufferstreamCreate (frame.take 1) =
        some (true, [], in_stream) := by
  have haddr : trojanWriteAddress ⟨.ipv4 [1, 2, 3, 4] rfl, 53⟩ = some [1, 1, 2, 3, 4, 0, 53] := rfl
  have hwrap : wrapUdpPayload ⟨.ipv4 [1, 2, 3, 4] rfl, 53⟩ [7] =
      some (udpFrame [1, 1, 2, 3, 4, 0, 53] [7]) := rfl
  -- the first byte alone: a stream short of an IPv4 frame's header
  obtain ⟨bs, hpush, hc, hsize⟩ :=
    bufferstreamPush_some (show bufferstreamCreate.size + [(1 : UInt8)].length ≤ UINT32_MAX by decide)
  have hprefix : bs.content ++ (udpFrame [1, 1, 2, 3, 4, 0, 53] [7]).drop 1 =
      udpFrame [1, 1, 2, 3, 4, 0, 53] [7] := by
    rw [hc]
    rfl
  have hpos : 0 < bs.size := by rw [hsize]; decide
  have hshort : bs.size < [1, 1, 2, 3, 4, 0, 53].length + 4 := by rw [hsize]; decide
  -- the whole frame
  obtain ⟨bs', hpush', hc', hsize'⟩ := bufferstreamPush_some
    (show bufferstreamCreate.size + (udpFrame [1, 1, 2, 3, 4, 0, 53] [7]).length ≤ UINT32_MAX by
      decide)
  have hframes : List.Forall₂ (fun d frame => wrapUdpPayload d.1 d.2 = some frame)
      [(⟨.ipv4 [1, 2, 3, 4] rfl, 53⟩, [7])] [udpFrame [1, 1, 2, 3, 4, 0, 53] [7]] :=
    .cons hwrap .nil
  obtain ⟨in_stream, hdrain, -⟩ := trojanserverDrainUdpPackets_frames hframes
    (by simp [addresscontextHasPort]) (by rw [hc']; rfl) (by rw [hsize']; decide)
  refine ⟨udpFrame [1, 1, 2, 3, 4, 0, 53] [7], hwrap, rfl, ?_, ⟨in_stream, ?_⟩, ⟨bs, ?_⟩⟩
  · show ((bufferstreamPush bufferstreamCreate [1]).bind trojanserverDrainUdpPackets) = none
    rw [hpush, Option.bind_some]
    exact trojanserverDrainUdpPackets_of_short hpos
      (udpHeaderLength_of_partialHeader kTrojanServerUdpMaxPacket haddr hprefix hpos hshort)
  · rw [trojanserverUdpUpStreamPayload, hpush', Option.bind_some, hdrain]
  · show (bufferstreamPush bufferstreamCreate [1]).bind _ = _
    rw [hpush, Option.bind_some]
    have hbuf : ¬bufferstreamGetBufLen bs > kTrojanClientMaxBufferedBytes := by
      rw [bufferstreamGetBufLen, hsize]
      decide
    rw [if_neg hbuf]
    exact drainUdpFrames_of_short
      (udpHeaderLength_of_partialHeader kTrojanClientUdpMaxPacket haddr hprefix hpos hshort)

end Trojan
end WaterWall
