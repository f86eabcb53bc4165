import WaterWall.Bytes.BigEndian
import WaterWall.Encryption.Frame
import WaterWall.Monad.ExceptSpec
import WaterWall.WireGuard.Replay

/-!
# The WireGuard receive path

`wireguardifNetworkRx` is handed every UDP datagram that arrives on the device's port.  It
classifies the datagram by its first four bytes and its length (`wireguardGetMessageType`); a
transport data message goes to the peer one of whose keypairs carries the receiver index, and
`wireguardifProcessDataMessage` decrypts it into a small pooled buffer, checks its counter
against the replay window, updates the peer's endpoint and keypairs, and forwards the inner IP
packet cut to the length its header gives.

A read past the bytes a buffer holds is the fault `Fault.readPastData`; an `sbuf_t` length or
write past the buffer's allocation, which the C code only `assert`s, is `Fault.pastCapacity`.

* `wireguardifNetworkRx_ne_readPastData`: no datagram, for any device state, makes the receive
  path read outside it or outside the plaintext it decrypted.
* `wireguardifNetworkRx_ok_of_le`: a datagram whose plaintext fits the small buffer is received
  with no fault; `wireguardifNetworkRx_spec`: what is forwarded is the plaintext cut to the
  length the inner IPv4 or IPv6 header gives.
* `wireguardifNetworkRx_oversized`: the plaintext's length is set on the small buffer before it
  is known to fit, so a transport datagram for a live keypair more than 32 bytes longer than
  that buffer sets a length past the allocation, before the message is authenticated.

The handshake messages go to paths this file does not model (`RxOutcome.handshake`).
-/

set_option autoImplicit false

namespace WaterWall
namespace WireGuard

open Crypto

/-! ## Faults and reads -/

/-- What the model treats as a fault of the C code. -/
inductive Fault
  /-- A read past the bytes a buffer holds. -/
  | readPastData
  /-- An `sbuf_t` length or write past the buffer's allocation: `sbufSetLength` only asserts
  against it, and `sbufWriteZeros` then writes there. -/
  | pastCapacity
deriving DecidableEq, Repr

/-- `n` bytes at `off` of `data`. -/
def readBytes (data : List UInt8) (off n : Nat) : Except Fault (List UInt8) :=
  if off + n ≤ data.length then .ok ((data.drop off).take n) else .error .readPastData

/-- The byte at `off` of `data`. -/
def readByte (data : List UInt8) (off : Nat) : Except Fault UInt8 :=
  match data[off]? with
  | some b => .ok b
  | none => .error .readPastData

/-- A buffer operation that asserts it stays inside the allocation. -/
def sbufChecked (b : Option SBuf) : Except Fault SBuf :=
  match b with
  | some b => .ok b
  | none => .error .pastCapacity

/-- The number bytes spell least significant first: a field read by a little-endian host, and
`U8TO64_LITTLE`. -/
def littleEndian (b : List UInt8) : Nat := BigEndian.value b.reverse

def U64TO8_LITTLE (v : UInt64) : List UInt8 := (BigEndian.bytes 8 v.toNat).reverse

/-! ## Constants -/

def WIREGUARD_AUTHTAG_LEN : Nat := 16

def WIREGUARD_SESSION_KEY_LEN : Nat := 32

def MESSAGE_INVALID : UInt8 := 0

def MESSAGE_HANDSHAKE_INITIATION : UInt8 := 1

def MESSAGE_HANDSHAKE_RESPONSE : UInt8 := 2

def MESSAGE_COOKIE_REPLY : UInt8 := 3

def MESSAGE_TRANSPORT_DATA : UInt8 := 4

/-- `sizeof(message_handshake_initiation_t)`. -/
def SIZEOF_MESSAGE_HANDSHAKE_INITIATION : Nat := 148

/-- `sizeof(message_handshake_response_t)`. -/
def SIZEOF_MESSAGE_HANDSHAKE_RESPONSE : Nat := 92

/-- `sizeof(message_cookie_reply_t)`. -/
def SIZEOF_MESSAGE_COOKIE_REPLY : Nat := 64

/-- `sizeof(message_transport_data_t)`: type, reserved bytes, receiver and counter. -/
def SIZEOF_MESSAGE_TRANSPORT_DATA : Nat := 16

def REJECT_AFTER_MESSAGES : UInt64 := (0xFFFFFFFFFFFFFFFF : UInt64) - ((1 : UInt64) <<< 13)

/-- `REJECT_AFTER_TIME`, in seconds. -/
def REJECT_AFTER_TIME : UInt32 := 180

/-- `REKEY_TIMEOUT`, in seconds. -/
def REKEY_TIMEOUT : UInt32 := 1

/-- `sizeof(ip4_hdr_t)`. -/
def SIZEOF_IP4_HDR : Nat := 20

/-- `sizeof(ip6_hdr_t)`. -/
def SIZEOF_IP6_HDR : Nat := 40

/-! ## The device state -/

/-- `ip_addr_t`: an IPv4 or IPv6 address, its bytes in network order. -/
inductive IpAddr
  | v4 (addr : List UInt8)
  | v6 (addr : List UInt8)
deriving DecidableEq, Repr

/-- The fields of `wireguard_keypair_s` the receive path reads or writes. -/
structure Keypair where
  valid : Bool
  /-- `initiator`: this end sent the initiation. -/
  initiator : Bool
  /-- `keypair_millis`: when the keypair was made. -/
  keypair_millis : UInt32
  receiving_key : List UInt8
  receiving_valid : Bool
  last_rx : UInt32
  /-- `replay_bitmap` and `replay_counter`. -/
  replay : ReplayKeypair
  /-- `local_index`: the index this end gave the keypair, which data messages carry. -/
  local_index : UInt32
deriving DecidableEq, Repr

/-- `keypairDestroy`: every field zeroed, so `valid` false. -/
def keypairDestroy (_keypair : Keypair) : Keypair :=
  { valid := false, initiator := false, keypair_millis := 0,
    receiving_key := List.replicate WIREGUARD_SESSION_KEY_LEN 0, receiving_valid := false,
    last_rx := 0, replay := ⟨0, 0⟩, local_index := 0 }

/-- The fields of `wireguard_pending_handshake_t` the receive path reads. -/
structure PendingHandshake where
  valid : Bool
  message_type : UInt8
  sender : UInt32
deriving DecidableEq, Repr

/-- The fields of `wireguard_peer_s` the receive path reads or writes. -/
structure Peer where
  /-- `valid`: the slot holds a peer. -/
  valid : Bool
  /-- `ip`: the endpoint the last authenticated datagram came from. -/
  ip : IpAddr
  port : UInt16
  /-- `keepalive_interval`, in seconds. -/
  keepalive_interval : UInt16
  curr_keypair : Keypair
  prev_keypair : Keypair
  next_keypair : Keypair
  pending_handshake : PendingHandshake
  last_rx : UInt32
  send_handshake : Bool
deriving DecidableEq, Repr

/-- The fields of `wireguard_device_s` the receive path reads or writes. -/
structure Device where
  peers : List Peer
  status_connected : Bool
deriving DecidableEq, Repr

/-- Which of a peer's keypairs a `wireguard_keypair_t *` points at. -/
inductive KeypairSlot
  | curr
  | next
  | prev
deriving DecidableEq, Repr

/-- The keypair in a slot. -/
def Peer.keypair (peer : Peer) : KeypairSlot → Keypair
  | .curr => peer.curr_keypair
  | .next => peer.next_keypair
  | .prev => peer.prev_keypair

/-- A write through the pointer to a slot. -/
def Peer.setKeypair (peer : Peer) (slot : KeypairSlot) (keypair : Keypair) : Peer :=
  match slot with
  | .curr => { peer with curr_keypair := keypair }
  | .next => { peer with next_keypair := keypair }
  | .prev => { peer with prev_keypair := keypair }

/-- What the receive path depends on besides the device: the buffer pool it takes the decrypt
buffer from, the cipher `wCryptoChaCha20Poly1305Decrypt` computes, the clock `getTickMS`
reads, and `wireguarddeviceCheckPeerAllowedIp`. -/
structure RxEnv where
  /-- The worker's buffer pool. -/
  pool : BufferPool
  /-- ChaCha20-Poly1305. -/
  cipher : Aead (List UInt8) (List UInt8)
  /-- `getTickMS()`. -/
  now : UInt32
  /-- `wireguarddeviceCheckPeerAllowedIp`. -/
  allowedIp : Peer → IpAddr → Bool

/-! ## The model -/

/-- `wireguardGetMessageType`: the type of a datagram whose reserved bytes are zero and whose
length is the one its type has (at least that, for transport data), else `MESSAGE_INVALID`. -/
def wireguardGetMessageType (data : List UInt8) : Except Fault UInt8 := do
  let len := data.length
  if len ≥ 4 then
    let b1 ← readByte data 1
    if b1 = 0 then
      let b2 ← readByte data 2
      if b2 = 0 then
        let b3 ← readByte data 3
        if b3 = 0 then
          let type ← readByte data 0
          if type = MESSAGE_HANDSHAKE_INITIATION then
            return if len = SIZEOF_MESSAGE_HANDSHAKE_INITIATION then type else MESSAGE_INVALID
          else if type = MESSAGE_HANDSHAKE_RESPONSE then
            return if len = SIZEOF_MESSAGE_HANDSHAKE_RESPONSE then type else MESSAGE_INVALID
          else if type = MESSAGE_COOKIE_REPLY then
            return if len = SIZEOF_MESSAGE_COOKIE_REPLY then type else MESSAGE_INVALID
          else if type = MESSAGE_TRANSPORT_DATA then
            return if len ≥ SIZEOF_MESSAGE_TRANSPORT_DATA + WIREGUARD_AUTHTAG_LEN then type
              else MESSAGE_INVALID
          else return MESSAGE_INVALID
        else return MESSAGE_INVALID
      else return MESSAGE_INVALID
    else return MESSAGE_INVALID
  else return MESSAGE_INVALID

/-- The peer test of `peerLookupByReceiver`: a valid peer with a valid keypair of that index. -/
def peerHasReceiver (receiver : UInt32) (peer : Peer) : Bool :=
  peer.valid &&
    ((peer.curr_keypair.valid && peer.curr_keypair.local_index == receiver) ||
      (peer.next_keypair.valid && peer.next_keypair.local_index == receiver) ||
      (peer.prev_keypair.valid && peer.prev_keypair.local_index == receiver))

/-- `peerLookupByReceiver`: the first such peer, by its position. -/
def peerLookupByReceiver (device : Device) (receiver : UInt32) : Option Nat :=
  device.peers.findIdx? (peerHasReceiver receiver)

def getPeerKeypairForIdx (peer : Peer) (idx : UInt32) : Option KeypairSlot :=
  if peer.curr_keypair.valid ∧ peer.curr_keypair.local_index = idx then some .curr
  else if peer.next_keypair.valid ∧ peer.next_keypair.local_index = idx then some .next
  else if peer.prev_keypair.valid ∧ peer.prev_keypair.local_index = idx then some .prev
  else none

/-- `wireguardExpired`: `valid_seconds` have passed since `created_millis`, in `uint32_t`. -/
def wireguardExpired (now created_millis valid_seconds : UInt32) : Bool :=
  now - created_millis ≥ valid_seconds * 1000

/-- `keypairUpdate`: a message received on the next keypair makes it the current one. -/
def keypairUpdate (peer : Peer) (received : KeypairSlot) : Peer :=
  if received = .next then
    { peer with prev_keypair := peer.curr_keypair, curr_keypair := peer.next_keypair,
                next_keypair := keypairDestroy peer.next_keypair }
  else peer

def wireguardClearPendingHandshake (peer : Peer) : Peer :=
  { peer with pending_handshake := ⟨false, 0, 0⟩ }

/-- `wCryptoChaCha20Poly1305Decrypt` behind `wCryptoValidateAeadDecrypt`: `none` is a failing
status, a tag that does not check included. -/
def wCryptoChaCha20Poly1305Decrypt (cipher : Aead (List UInt8) (List UInt8)) (dst_capacity : Nat)
    (src ad nonce key : List UInt8) : Option (List UInt8) :=
  if src.length > Encryption.WCRYPTO_AEAD_MAX_INPUT_SIZE ∨
      ad.length > Encryption.WCRYPTO_AEAD_MAX_INPUT_SIZE then none
  else if src.length < Encryption.WCRYPTO_AEAD_TAG_SIZE then none
  else if dst_capacity < src.length - Encryption.WCRYPTO_AEAD_TAG_SIZE then none
  else cipher.decrypt key nonce ad src

/-- `wireguardDecryptPacket`: under the keypair's receiving key, with no associated data, and
the counter little-endian in the last eight bytes of the nonce. -/
def wireguardDecryptPacket (cipher : Aead (List UInt8) (List UInt8)) (dst_capacity : Nat)
    (src : List UInt8) (counter : UInt64) (keypair : Keypair) : Option (List UInt8) :=
  wCryptoChaCha20Poly1305Decrypt cipher dst_capacity src []
    (List.replicate 4 0 ++ U64TO8_LITTLE counter) keypair.receiving_key

/-- `wireguarddeviceGetPlaintextPacketMetadata`: the source address and the length of the IPv4
or IPv6 packet at the start of the plaintext, when its header says one fits. -/
def wireguarddeviceGetPlaintextPacketMetadata (data : List UInt8) :
    Except Fault (Option (IpAddr × UInt16)) := do
  let len := data.length
  if len < SIZEOF_IP4_HDR then return none
  let version := (← readByte data 0) >>> 4
  if version = 4 then
    let total_len := UInt16.ofNat (BigEndian.value (← readBytes data 2 2))
    let minimum_header := UInt16.ofNat (((← readByte data 0) &&& 0x0f).toNat * 4)
    if minimum_header.toNat < SIZEOF_IP4_HDR ∨ total_len < minimum_header ∨ total_len.toNat > len then
      return none
    return some (.v4 (← readBytes data 12 4), total_len)
  if version = 6 then
    if len < SIZEOF_IP6_HDR then return none
    let total_len := UInt16.ofNat SIZEOF_IP6_HDR + UInt16.ofNat (BigEndian.value (← readBytes data 4 2))
    if total_len.toNat < SIZEOF_IP6_HDR ∨ total_len.toNat > len then return none
    return some (.v6 (← readBytes data 8 16), total_len)
  return none

/-- What became of a transport data message. -/
inductive DataOutcome
  /-- The buffer is released and nothing is forwarded. -/
  | dropped
  /-- An authenticated empty plaintext: a keepalive. -/
  | keepalive
  /-- The inner packet `wireguarddeviceForwardInnerPacket` is handed. -/
  | forwarded (packet : List UInt8)
deriving DecidableEq, Repr

/-- What `wireguardifProcessDataMessage` leaves: the peer, the device's `status_connected`, and
what became of the message. -/
structure DataResult where
  /-- The peer. -/
  peer : Peer
  /-- `device->status_connected`. -/
  status_connected : Bool
  /-- What became of the message. -/
  outcome : DataOutcome
deriving DecidableEq, Repr

/-- What an authenticated data message does to the peer, in `wireguardifProcessDataMessage`:
its endpoint and receive times, a pending response that this keypair answers cleared, the
keypairs rotated, and a rekey asked for when an initiator's keypair is old.  Returns the peer,
the device's `status_connected`, and the keypair the index names after the rotation. -/
def wireguardifAuthenticatedPeer (env : RxEnv) (status_connected : Bool) (peer : Peer)
    (slot : KeypairSlot) (idx : UInt32) (addr : IpAddr) (port : UInt16) :
    Peer × Bool × Option KeypairSlot :=
  -- the source of an authenticated packet is the peer's endpoint from now on
  let peer := { peer with ip := addr, port := port, last_rx := env.now }
  let peer := peer.setKeypair slot { peer.keypair slot with last_rx := env.now }
  let peer :=
    if peer.pending_handshake.valid ∧ peer.pending_handshake.message_type = MESSAGE_HANDSHAKE_RESPONSE ∧
        peer.pending_handshake.sender = idx then wireguardClearPendingHandshake peer
    else peer
  let peer := keypairUpdate peer slot
  let current := getPeerKeypairForIdx peer idx
  match current with
  | none => (peer, status_connected, current)
  | some slot' =>
    let keypair := peer.keypair slot'
    if keypair.initiator ∧ wireguardExpired env.now keypair.keypair_millis
        (REJECT_AFTER_TIME - peer.keepalive_interval.toUInt32 - REKEY_TIMEOUT) then
      ({ peer with send_handshake := true }, true, current)
    else (peer, true, current)

/-- The part of `wireguardifProcessDataMessage` after the packet has authenticated and passed
the replay check: the peer updated, and the inner packet forwarded or the keepalive taken. -/
def wireguardifAcceptDataMessage (env : RxEnv) (status_connected : Bool) (peer : Peer)
    (slot : KeypairSlot) (idx : UInt32) (buf : SBuf) (addr : IpAddr) (port : UInt16) :
    Except Fault DataResult := do
  let (peer, status_connected, current) :=
    wireguardifAuthenticatedPeer env status_connected peer slot idx addr port
  if sbufGetLength buf > 0 then
    match current with
    | none => return ⟨peer, status_connected, .dropped⟩
    | some _ =>
      match ← wireguarddeviceGetPlaintextPacketMetadata buf.payload with
      | none => return ⟨peer, status_connected, .dropped⟩
      | some (source, packet_len) =>
        if env.allowedIp peer source then
          let buf ← sbufChecked (sbufSetLength buf packet_len.toNat)
          return ⟨peer, status_connected, .forwarded buf.payload⟩
        else return ⟨peer, status_connected, .dropped⟩
  else return ⟨peer, status_connected, .keepalive⟩

/-- `wireguardifProcessDataMessage`, for the datagram `data` of which `data_len` bytes follow
the 16-byte header. -/
def wireguardifProcessDataMessage (env : RxEnv) (status_connected : Bool) (peer : Peer)
    (data : List UInt8) (data_len : Nat) (addr : IpAddr) (port : UInt16) :
    Except Fault DataResult := do
  let idx := UInt32.ofNat (littleEndian (← readBytes data 4 4))
  match getPeerKeypairForIdx peer idx with
  | none => return ⟨peer, status_connected, .dropped⟩
  | some slot =>
    let keypair := peer.keypair slot
    let nonce := UInt64.ofNat (littleEndian (← readBytes data 8 8))
    let src_len := data_len % 2 ^ 32
    if src_len < WIREGUARD_AUTHTAG_LEN then return ⟨peer, status_connected, .dropped⟩
    if !keypair.receiving_valid || wireguardExpired env.now keypair.keypair_millis REJECT_AFTER_TIME then
      -- Reject-After-Time has passed: the keypair is dropped and a new handshake forced
      return ⟨peer.setKeypair slot (keypairDestroy keypair), status_connected, .dropped⟩
    if nonce ≥ REJECT_AFTER_MESSAGES then return ⟨peer, status_connected, .dropped⟩
    -- the plaintext's length is set, and zeroed, before it is known to fit
    let buf := bufferpoolGetSmallBuffer env.pool
    let buf ← sbufChecked (sbufSetLength buf (src_len - WIREGUARD_AUTHTAG_LEN))
    let buf ← sbufChecked (sbufWriteZeros buf (sbufGetLength buf))
    let src ← readBytes data SIZEOF_MESSAGE_TRANSPORT_DATA src_len
    match wireguardDecryptPacket env.cipher (sbufGetMaximumWriteableSize buf) src nonce keypair with
    | none => return ⟨peer, status_connected, .dropped⟩
    | some plaintext =>
      let buf ← sbufChecked (sbufWrite buf plaintext)
      let (replay, fresh) := wireguardCheckReplay keypair.replay nonce
      let peer := peer.setKeypair slot { keypair with replay := replay }
      if !fresh then return ⟨peer, status_connected, .dropped⟩
      wireguardifAcceptDataMessage env status_connected peer slot idx buf addr port

/-- What `wireguardifNetworkRx` did with a datagram. -/
inductive RxOutcome
  /-- Not a WireGuard message, or one of the wrong length: released. -/
  | invalid
  /-- A handshake message, handed to the handshake paths, which are not modelled here. -/
  | handshake (type : UInt8)
  /-- A transport data message for no peer: released. -/
  | unknownReceiver
  /-- A transport data message for a peer, and what became of it. -/
  | data (outcome : DataOutcome)
deriving DecidableEq, Repr

/-- `wireguardifNetworkRx` on the datagram `p`, from `addr` and `port`. -/
def wireguardifNetworkRx (env : RxEnv) (device : Device) (p : List UInt8) (addr : IpAddr)
    (port : UInt16) : Except Fault (Device × RxOutcome) := do
  let len := p.length
  let type ← wireguardGetMessageType p
  if type = MESSAGE_TRANSPORT_DATA then
    let receiver := UInt32.ofNat (littleEndian (← readBytes p 4 4))
    match peerLookupByReceiver device receiver with
    | none => return (device, .unknownReceiver)
    | some i =>
      match device.peers[i]? with
      | none => return (device, .unknownReceiver)
      | some peer =>
        -- the header is 16 bytes long, so that is taken off the length
        let r ← wireguardifProcessDataMessage env device.status_connected peer p (len - 16) addr port
        return ({ device with peers := device.peers.set i r.peer,
                              status_connected := r.status_connected }, .data r.outcome)
  else if type = MESSAGE_INVALID then return (device, .invalid)
  else return (device, .handshake type)

/-! ## Reads -/

open Except

theorem readBytes_of_le {data : List UInt8} {off n : Nat} (h : off + n ≤ data.length) :
    readBytes data off n = .ok ((data.drop off).take n) :=
  if_pos h

theorem readByte_of_lt {data : List UInt8} {off : Nat} (h : off < data.length) :
    readByte data off = .ok data[off] := by
  simp [readByte, List.getElem?_eq_getElem h]

theorem length_take_drop_of_le {data : List UInt8} {off n : Nat} (h : off + n ≤ data.length) :
    ((data.drop off).take n).length = n := by
  simp only [List.length_take, List.length_drop]
  omega

/-! ## Classifying a datagram -/

/-- `wireguardGetMessageType` reads only the four bytes it has checked are there. -/
theorem wireguardGetMessageType_spec (data : List UInt8) :
    Spec (wireguardGetMessageType data)
      (fun type => type = MESSAGE_TRANSPORT_DATA →
        SIZEOF_MESSAGE_TRANSPORT_DATA + WIREGUARD_AUTHTAG_LEN ≤ data.length)
      fun _ => False := by
  unfold wireguardGetMessageType
  dsimp only
  split
  · next hlen =>
    rw [readByte_of_lt (by omega), readByte_of_lt (by omega), readByte_of_lt (by omega),
      readByte_of_lt (by omega)]
    simp only [bind, Except.bind, pure, Except.pure]
    split_ifs <;> simp_all [MESSAGE_TRANSPORT_DATA, MESSAGE_INVALID, MESSAGE_HANDSHAKE_INITIATION,
      MESSAGE_HANDSHAKE_RESPONSE, MESSAGE_COOKIE_REPLY]
  · exact spec_pure fun h => absurd h (by decide)

/-- A datagram of at least 32 bytes that starts `04 00 00 00` is a transport data message. -/
theorem wireguardGetMessageType_of_transport {data : List UInt8}
    (hlen : SIZEOF_MESSAGE_TRANSPORT_DATA + WIREGUARD_AUTHTAG_LEN ≤ data.length)
    (hhead : data.take 4 = [MESSAGE_TRANSPORT_DATA, 0, 0, 0]) :
    wireguardGetMessageType data = .ok MESSAGE_TRANSPORT_DATA := by
  obtain ⟨rest, rfl⟩ : ∃ rest, data = MESSAGE_TRANSPORT_DATA :: 0 :: 0 :: 0 :: rest := by
    rw [← List.take_append_drop 4 data, hhead]
    exact ⟨_, rfl⟩
  have hrest : 28 ≤ rest.length := by
    simp only [List.length_cons, SIZEOF_MESSAGE_TRANSPORT_DATA, WIREGUARD_AUTHTAG_LEN] at hlen
    omega
  simp [wireguardGetMessageType, readByte, MESSAGE_TRANSPORT_DATA, MESSAGE_HANDSHAKE_INITIATION,
    MESSAGE_HANDSHAKE_RESPONSE, MESSAGE_COOKIE_REPLY, SIZEOF_MESSAGE_TRANSPORT_DATA,
    WIREGUARD_AUTHTAG_LEN, hrest]
  rfl

/-! ## The inner packet -/

/-- What `wireguarddeviceGetPlaintextPacketMetadata` accepts: an IPv4 packet of the total length
its header gives, which is at least its header, or an IPv6 packet of its fixed header and payload
length; either way no longer than the plaintext. -/
def InnerPacket (data : List UInt8) (source : IpAddr) (packet_len : UInt16) : Prop :=
  packet_len.toNat ≤ data.length ∧
    ((data.headD 0 >>> 4 = 4 ∧ SIZEOF_IP4_HDR ≤ packet_len.toNat ∧
        packet_len.toNat = BigEndian.value ((data.drop 2).take 2) ∧
        source = .v4 ((data.drop 12).take 4)) ∨
      (data.headD 0 >>> 4 = 6 ∧
        packet_len.toNat = SIZEOF_IP6_HDR + BigEndian.value ((data.drop 4).take 2) ∧
        source = .v6 ((data.drop 8).take 16)))

/-- A two-byte field read big-endian fits `uint16_t`. -/
theorem toNat_ofNat_value_of_length_two {v : List UInt8} (h : v.length = 2) :
    (UInt16.ofNat (BigEndian.value v)).toNat = BigEndian.value v := by
  have hv := BigEndian.value_lt v
  rw [h] at hv
  rw [UInt16.toNat_ofNat', Nat.mod_eq_of_lt (by omega)]

theorem wireguarddeviceGetPlaintextPacketMetadata_spec (data : List UInt8) :
    Spec (wireguarddeviceGetPlaintextPacketMetadata data)
      (fun r => ∀ source packet_len, r = some (source, packet_len) →
        InnerPacket data source packet_len)
      fun _ => False := by
  unfold wireguarddeviceGetPlaintextPacketMetadata
  dsimp only
  split
  · exact spec_pure (by simp)
  next hlen =>
  obtain ⟨b, rest, rfl⟩ : ∃ b rest, data = b :: rest := by
    cases data with
    | nil => simp [SIZEOF_IP4_HDR] at hlen
    | cons b rest => exact ⟨b, rest, rfl⟩
  unfold SIZEOF_IP4_HDR at hlen
  rw [readByte_of_lt (by simp)]
  simp only [bind, Except.bind, pure, Except.pure, List.getElem_cons_zero]
  split_ifs with hv4 hv6 hlen6
  · -- IPv4: the total length read from bytes 2 and 3
    rw [readBytes_of_le (by omega)]
    dsimp only
    have hfield := toNat_ofNat_value_of_length_two
      (length_take_drop_of_le (show 2 + 2 ≤ (b :: rest).length by omega))
    split_ifs with hbad
    · exact spec_ok.2 (by simp)
    rw [readBytes_of_le (by omega)]
    rintro source packet_len h
    simp only [Option.some.injEq, Prod.mk.injEq] at h
    obtain ⟨rfl, rfl⟩ := h
    simp only [UInt16.lt_iff_toNat_lt, not_or, not_lt, gt_iff_lt, SIZEOF_IP4_HDR] at hbad
    refine ⟨by omega, Or.inl ⟨hv4, by unfold SIZEOF_IP4_HDR; omega, hfield, rfl⟩⟩
  · exact spec_ok.2 (by simp)
  · -- IPv6: the fixed header and the payload length read from bytes 4 and 5
    rw [readBytes_of_le (by simp [SIZEOF_IP6_HDR] at hlen6 ⊢; omega)]
    dsimp only
    have hfield := toNat_ofNat_value_of_length_two
      (length_take_drop_of_le (show 4 + 2 ≤ (b :: rest).length by
        simp [SIZEOF_IP6_HDR] at hlen6 ⊢; omega))
    split_ifs with hbad
    · exact spec_ok.2 (by simp)
    rw [readBytes_of_le (by simp [SIZEOF_IP6_HDR] at hlen6 ⊢; omega)]
    rintro source packet_len h
    simp only [Option.some.injEq, Prod.mk.injEq] at h
    obtain ⟨rfl, rfl⟩ := h
    -- the sum is taken in sixteen bits, and a wrapped one is below the fixed header
    have hv : BigEndian.value ((List.drop 4 (b :: rest)).take 2) < 2 ^ 16 := by
      have := BigEndian.value_lt ((List.drop 4 (b :: rest)).take 2)
      rwa [length_take_drop_of_le (by simp [SIZEOF_IP6_HDR] at hlen6 ⊢; omega)] at this
    have htotal : (UInt16.ofNat SIZEOF_IP6_HDR +
        UInt16.ofNat (BigEndian.value ((List.drop 4 (b :: rest)).take 2))).toNat =
        (SIZEOF_IP6_HDR + BigEndian.value ((List.drop 4 (b :: rest)).take 2)) % 2 ^ 16 := by
      rw [UInt16.toNat_add, hfield, UInt16.toNat_ofNat', Nat.mod_add_mod]
    unfold InnerPacket
    rw [htotal]
    rw [htotal, not_or, not_lt, gt_iff_lt, not_lt] at hbad
    unfold SIZEOF_IP6_HDR at *
    refine ⟨by omega, Or.inr ⟨hv6, by omega, rfl⟩⟩
  · exact spec_ok.2 (by simp)

/-! ## Processing a transport data message -/

theorem sbufSetLength_of_le {b : SBuf} {n : Nat} (hn : n ≤ b.len) :
    ∃ b', sbufSetLength b n = some b' ∧ b'.payload = b.payload.take n := by
  have hfit := b.fits
  exact ⟨_, sbufSetLength_eq (by omega), SBuf.payload_setLength_le b n (by omega) hn⟩

/-- After authentication nothing can fault: the header read is checked against the plaintext's
length, and the packet it gives is cut out of the plaintext. -/
theorem wireguardifAcceptDataMessage_spec (env : RxEnv) (status_connected : Bool) (peer : Peer)
    (slot : KeypairSlot) (idx : UInt32) (buf : SBuf) (addr : IpAddr) (port : UInt16) :
    Spec (wireguardifAcceptDataMessage env status_connected peer slot idx buf addr port)
      (fun r => ∀ packet, r.outcome = .forwarded packet →
        ∃ source n, InnerPacket buf.payload source n ∧ packet = buf.payload.take n.toNat)
      fun _ => False := by
  unfold wireguardifAcceptDataMessage
  obtain ⟨peer', status', current⟩ :=
    wireguardifAuthenticatedPeer env status_connected peer slot idx addr port
  dsimp only
  split
  · split
    · exact spec_pure (by simp)
    refine Spec.bind (wireguarddeviceGetPlaintextPacketMetadata_spec buf.payload) fun r hr => ?_
    split
    · exact spec_pure (by simp)
    next source packet_len =>
    split
    · -- the length the header gives is at most the plaintext's, so the cut stays inside
      have hinner := hr source packet_len rfl
      have hle : packet_len.toNat ≤ buf.len := by simpa using hinner.1
      obtain ⟨b', hb', hpay⟩ := sbufSetLength_of_le hle
      rw [hb']
      exact spec_pure fun packet h => ⟨source, packet_len, hinner, by
        simp only [DataOutcome.forwarded.injEq] at h
        rw [← h, hpay]⟩
    · exact spec_pure (by simp)
  · exact spec_pure (by simp)

/-- The receiver index of a transport data message: bytes 4 to 7, as the host reads them. -/
def messageReceiver (data : List UInt8) : UInt32 :=
  UInt32.ofNat (littleEndian ((data.drop 4).take 4))

/-- The counter of a transport data message: bytes 8 to 15, little-endian. -/
def messageCounter (data : List UInt8) : UInt64 :=
  UInt64.ofNat (littleEndian ((data.drop 8).take 8))

/-- The ciphertext of a transport data message `data_len` bytes past its header. -/
def messageCiphertext (data : List UInt8) (data_len : Nat) : List UInt8 :=
  (data.drop SIZEOF_MESSAGE_TRANSPORT_DATA).take (data_len % 2 ^ 32)

/-- A plaintext that decrypts and passes the capacity check is the cipher's. -/
theorem wCryptoChaCha20Poly1305Decrypt_eq_some {cipher : Aead (List UInt8) (List UInt8)}
    {dst_capacity : Nat} {src ad nonce key plaintext : List UInt8}
    (h : wCryptoChaCha20Poly1305Decrypt cipher dst_capacity src ad nonce key = some plaintext) :
    cipher.decrypt key nonce ad src = some plaintext := by
  unfold wCryptoChaCha20Poly1305Decrypt at h
  split_ifs at h
  exact h

theorem wireguardifProcessDataMessage_pastCapacity {env : RxEnv} {status_connected : Bool}
    {peer : Peer} {data : List UInt8} {data_len : Nat} {slot : KeypairSlot} (addr : IpAddr)
    (port : UInt16) (hdata : SIZEOF_MESSAGE_TRANSPORT_DATA ≤ data.length)
    (hslot : getPeerKeypairForIdx peer (messageReceiver data) = some slot)
    (hvalid : (peer.keypair slot).receiving_valid = true)
    (hlive : wireguardExpired env.now (peer.keypair slot).keypair_millis REJECT_AFTER_TIME = false)
    (hnonce : messageCounter data < REJECT_AFTER_MESSAGES)
    (hlong : env.pool.small_buffers_size + WIREGUARD_AUTHTAG_LEN < data_len % 2 ^ 32) :
    wireguardifProcessDataMessage env status_connected peer data data_len addr port =
      .error .pastCapacity := by
  unfold SIZEOF_MESSAGE_TRANSPORT_DATA at hdata
  unfold wireguardifProcessDataMessage
  rw [readBytes_of_le (by omega), readBytes_of_le (by omega)]
  simp only [bind, Except.bind, pure, Except.pure]
  rw [show UInt32.ofNat (littleEndian ((data.drop 4).take 4)) = messageReceiver data from rfl, hslot,
    show UInt64.ofNat (littleEndian ((data.drop 8).take 8)) = messageCounter data from rfl]
  dsimp only
  have hshort : ¬data_len % 2 ^ 32 < WIREGUARD_AUTHTAG_LEN := by omega
  -- the small buffer cannot hold the plaintext's length
  have hset : sbufSetLength (bufferpoolGetSmallBuffer env.pool)
      (data_len % 2 ^ 32 - WIREGUARD_AUTHTAG_LEN) = none := by
    apply sbufSetLength_eq_none
    simp only [bufferpoolGetSmallBuffer, emptyBuffer_curpos, length_emptyBuffer_mem]
    unfold WIREGUARD_AUTHTAG_LEN at hlong ⊢
    omega
  rw [if_neg hshort, hvalid, hlive, if_neg (by decide),
    if_neg (show ¬messageCounter data ≥ REJECT_AFTER_MESSAGES from UInt64.not_le.2 hnonce), hset]
  rfl

/-- A packet forwarded for the transport data message `data`: the front of the plaintext that
the peer's keypair for the message's index authenticates, cut to the length the plaintext's IP
header gives. -/
def ForwardedFrom (env : RxEnv) (peer : Peer) (data : List UInt8) (data_len : Nat)
    (packet : List UInt8) : Prop :=
  ∃ slot plaintext source n, getPeerKeypairForIdx peer (messageReceiver data) = some slot ∧
    env.cipher.decrypt (peer.keypair slot).receiving_key
      (List.replicate 4 0 ++ U64TO8_LITTLE (messageCounter data)) []
      (messageCiphertext data data_len) = some plaintext ∧
    InnerPacket plaintext source n ∧ packet = plaintext.take n.toNat

/-- **What a transport data message can do.**  With a cipher that has the AEAD laws, the only
fault is the decrypt buffer's length set past its allocation, which happens exactly when the
ciphertext less its tag is longer than the small buffer; and a forwarded packet is the front of
an authenticated plaintext, cut to the length its IPv4 or IPv6 header gives. -/
theorem wireguardifProcessDataMessage_spec {env : RxEnv} (hL : env.cipher.Laws)
    (htag : env.cipher.tagSize = WIREGUARD_AUTHTAG_LEN) (status_connected : Bool) (peer : Peer)
    {data : List UInt8} {data_len : Nat}
    (hdata : SIZEOF_MESSAGE_TRANSPORT_DATA + data_len ≤ data.length) (addr : IpAddr)
    (port : UInt16) :
    Spec (wireguardifProcessDataMessage env status_connected peer data data_len addr port)
      (fun r => ∀ packet, r.outcome = .forwarded packet →
        ForwardedFrom env peer data data_len packet)
      fun e => e = .pastCapacity ∧
        env.pool.small_buffers_size + WIREGUARD_AUTHTAG_LEN < data_len % 2 ^ 32 := by
  have hmod : data_len % 2 ^ 32 ≤ data_len := Nat.mod_le _ _
  unfold SIZEOF_MESSAGE_TRANSPORT_DATA at hdata
  unfold wireguardifProcessDataMessage
  rw [readBytes_of_le (by omega), readBytes_of_le (by omega)]
  simp only [bind, Except.bind, pure, Except.pure]
  rw [show UInt32.ofNat (littleEndian ((data.drop 4).take 4)) = messageReceiver data from rfl,
    show UInt64.ofNat (littleEndian ((data.drop 8).take 8)) = messageCounter data from rfl]
  split
  · exact spec_ok.2 (by simp)
  next slot hslot =>
  -- a short ciphertext, a dead keypair and an exhausted counter are dropped
  split
  · exact spec_ok.2 (by simp)
  next hshort =>
  split
  · exact spec_ok.2 (by simp)
  split
  · exact spec_ok.2 (by simp)
  by_cases hfit : data_len % 2 ^ 32 - WIREGUARD_AUTHTAG_LEN ≤ env.pool.small_buffers_size
  swap
  · -- the one fault: the plaintext's length does not fit the small buffer
    rw [sbufSetLength_eq_none (by
      simp only [bufferpoolGetSmallBuffer, emptyBuffer_curpos, length_emptyBuffer_mem]; omega)]
    exact ⟨rfl, by omega⟩
  have hset : (bufferpoolGetSmallBuffer env.pool).curpos + (data_len % 2 ^ 32 - WIREGUARD_AUTHTAG_LEN) ≤
      (bufferpoolGetSmallBuffer env.pool).mem.length := by
    simp only [bufferpoolGetSmallBuffer, emptyBuffer_curpos, length_emptyBuffer_mem]; omega
  rw [sbufSetLength_eq hset]
  dsimp only [sbufChecked]
  -- the zeros fill the payload just set, and the plaintext then replaces them
  obtain ⟨b₂, hb₂, -, hcur₂, hlen₂, hmem₂⟩ :=
    @sbufWriteAt_inside ((bufferpoolGetSmallBuffer env.pool).setLength _ hset) 0
      (List.replicate (data_len % 2 ^ 32 - WIREGUARD_AUTHTAG_LEN) 0) (by simp)
  rw [sbufWriteZeros, sbufWrite, sbufGetLength, SBuf.setLength_len, hb₂]
  dsimp only
  rw [readBytes_of_le (by unfold SIZEOF_MESSAGE_TRANSPORT_DATA; omega)]
  dsimp only
  split
  · exact spec_ok.2 (by simp)
  next plaintext hdec =>
  have hdec' := wCryptoChaCha20Poly1305Decrypt_eq_some hdec
  have hplen : plaintext.length = data_len % 2 ^ 32 - WIREGUARD_AUTHTAG_LEN := by
    have := hL.length_decrypt hdec'
    rw [htag, length_take_drop_of_le (by unfold SIZEOF_MESSAGE_TRANSPORT_DATA; omega)] at this
    omega
  obtain ⟨b₃, hb₃, hpay₃, -, -, -⟩ := @sbufWriteAt_inside b₂ 0 plaintext
    (by rw [hlen₂]; simp [hplen])
  rw [sbufWrite, hb₃]
  dsimp only
  have hpay : b₃.payload = plaintext := by
    rw [hpay₃, overwrite_of_length_eq (by rw [SBuf.length_payload, hlen₂]; simp [hplen])]
  split_ifs
  · exact spec_ok.2 (by simp)
  refine (wireguardifAcceptDataMessage_spec _ _ _ _ _ _ _ _).mono ?_ fun _ h => h.elim
  intro r hr packet hpacket
  obtain ⟨source, n, hinner, rfl⟩ := hr packet hpacket
  rw [hpay] at hinner ⊢
  exact ⟨slot, plaintext, source, n, hslot, hdec', hinner, rfl⟩

/-! ## Receiving a datagram -/

/-- **The receive path, for every datagram and every device state.**  With a cipher that has the
AEAD laws, the only fault is a decrypt buffer length past the allocation, for a datagram more
than 32 bytes longer than the small buffer; and a forwarded packet comes from one of the
device's peers, as `ForwardedFrom` describes. -/
theorem wireguardifNetworkRx_spec {env : RxEnv} (hL : env.cipher.Laws)
    (htag : env.cipher.tagSize = WIREGUARD_AUTHTAG_LEN) (device : Device) (p : List UInt8)
    (addr : IpAddr) (port : UInt16) :
    Spec (wireguardifNetworkRx env device p addr port)
      (fun r => ∀ packet, r.2 = .data (.forwarded packet) →
        ∃ peer ∈ device.peers,
          ForwardedFrom env peer p (p.length - SIZEOF_MESSAGE_TRANSPORT_DATA) packet)
      fun e => e = .pastCapacity ∧
        env.pool.small_buffers_size + SIZEOF_MESSAGE_TRANSPORT_DATA + WIREGUARD_AUTHTAG_LEN <
          p.length := by
  unfold wireguardifNetworkRx
  refine ((wireguardGetMessageType_spec p).mono (fun _ h => h) fun _ h => h.elim).bind
    fun type htype => ?_
  dsimp only
  split
  · next ht =>
    have hlen := htype ht
    unfold SIZEOF_MESSAGE_TRANSPORT_DATA WIREGUARD_AUTHTAG_LEN at hlen
    rw [readBytes_of_le (by omega), ok_bind]
    split
    · exact spec_pure (by simp)
    next i hi =>
    split
    · exact spec_pure (by simp)
    next peer hpeer =>
    -- the data length handed on is what follows the header, so the ciphertext is inside `p`
    have hdata := wireguardifProcessDataMessage_spec hL htag device.status_connected peer
      (show SIZEOF_MESSAGE_TRANSPORT_DATA + (p.length - 16) ≤ p.length by
        unfold SIZEOF_MESSAGE_TRANSPORT_DATA; omega) addr port
    refine (hdata.mono (fun _ h => h) fun e he => ⟨he.1, by
      have := Nat.mod_le (p.length - 16) (2 ^ 32)
      have := he.2
      unfold SIZEOF_MESSAGE_TRANSPORT_DATA WIREGUARD_AUTHTAG_LEN at *
      omega⟩).bind fun r hr => ?_
    exact spec_pure fun packet h =>
      ⟨peer, List.mem_of_getElem? hpeer, hr packet (by simpa using h)⟩
  · split <;> exact spec_pure (by simp)

/-- No datagram makes the receive path read outside it or outside its plaintext. -/
theorem wireguardifNetworkRx_ne_readPastData {env : RxEnv} (hL : env.cipher.Laws)
    (htag : env.cipher.tagSize = WIREGUARD_AUTHTAG_LEN) (device : Device) (p : List UInt8)
    (addr : IpAddr) (port : UInt16) :
    wireguardifNetworkRx env device p addr port ≠ .error .readPastData := fun h =>
  Fault.noConfusion ((wireguardifNetworkRx_spec hL htag device p addr port).of_eq_error h).1

/-- A datagram whose plaintext fits the small buffer is received with no fault. -/
theorem wireguardifNetworkRx_ok_of_le {env : RxEnv} (hL : env.cipher.Laws)
    (htag : env.cipher.tagSize = WIREGUARD_AUTHTAG_LEN) (device : Device) {p : List UInt8}
    (hp : p.length ≤
      env.pool.small_buffers_size + SIZEOF_MESSAGE_TRANSPORT_DATA + WIREGUARD_AUTHTAG_LEN)
    (addr : IpAddr) (port : UInt16) :
    ∃ r, wireguardifNetworkRx env device p addr port = .ok r ∧
      ∀ packet, r.2 = .data (.forwarded packet) →
        ∃ peer ∈ device.peers,
          ForwardedFrom env peer p (p.length - SIZEOF_MESSAGE_TRANSPORT_DATA) packet :=
  ((wireguardifNetworkRx_spec hL htag device p addr port).mono (fun _ h => h)
    fun _ he => absurd he.2 (by omega)).eq_ok

/-- A transport datagram for a live keypair whose plaintext does not fit the small buffer sets
the decrypt buffer's length past its allocation. -/
theorem wireguardifNetworkRx_pastCapacity {env : RxEnv} {device : Device} {p : List UInt8}
    {i : Nat} {peer : Peer} {slot : KeypairSlot} (addr : IpAddr) (port : UInt16)
    (htype : wireguardGetMessageType p = .ok MESSAGE_TRANSPORT_DATA)
    (hlookup : peerLookupByReceiver device (messageReceiver p) = some i)
    (hpeer : device.peers[i]? = some peer)
    (hslot : getPeerKeypairForIdx peer (messageReceiver p) = some slot)
    (hvalid : (peer.keypair slot).receiving_valid = true)
    (hlive : wireguardExpired env.now (peer.keypair slot).keypair_millis REJECT_AFTER_TIME = false)
    (hnonce : messageCounter p < REJECT_AFTER_MESSAGES)
    (hlong : env.pool.small_buffers_size + SIZEOF_MESSAGE_TRANSPORT_DATA + WIREGUARD_AUTHTAG_LEN <
      p.length)
    (hudp : p.length ≤ UINT16_MAX) :
    wireguardifNetworkRx env device p addr port = .error .pastCapacity := by
  have hlen := (wireguardGetMessageType_spec p).of_eq_ok htype rfl
  unfold SIZEOF_MESSAGE_TRANSPORT_DATA WIREGUARD_AUTHTAG_LEN at hlen hlong
  unfold UINT16_MAX at hudp
  unfold wireguardifNetworkRx
  rw [htype, ok_bind]
  dsimp only
  rw [if_pos rfl, readBytes_of_le (by omega), ok_bind]
  rw [show UInt32.ofNat (littleEndian ((p.drop 4).take 4)) = messageReceiver p from rfl, hlookup]
  dsimp only
  rw [hpeer]
  dsimp only
  rw [wireguardifProcessDataMessage_pastCapacity addr port
    (by unfold SIZEOF_MESSAGE_TRANSPORT_DATA; omega) hslot hvalid hlive hnonce
    (by rw [Nat.mod_eq_of_lt (by omega)]; unfold WIREGUARD_AUTHTAG_LEN; omega)]
  rfl

/-! ## A datagram longer than the small buffer -/

/-- `SMALL_BUFFER_SIZE`, the payload capacity of a worker's small buffers. -/
def SMALL_BUFFER_SIZE : Nat := 4096

/-- `LARGE_BUFFER_SIZE_RAM_HIGH`, that of its large buffers, which UDP datagrams are read into. -/
def LARGE_BUFFER_SIZE_RAM_HIGH : Nat := 32768

/-- A keypair of index 1, made at time 0, that receives. -/
def liveKeypair : Keypair :=
  { valid := true, initiator := false, keypair_millis := 0,
    receiving_key := List.replicate WIREGUARD_SESSION_KEY_LEN 0, receiving_valid := true,
    last_rx := 0, replay := ReplayKeypair.fresh, local_index := 1 }

/-- A peer whose current keypair is `liveKeypair`, its other slots empty. -/
def livePeer : Peer :=
  { valid := true, ip := .v4 [0, 0, 0, 0], port := 0, keepalive_interval := 0,
    curr_keypair := liveKeypair, prev_keypair := keypairDestroy liveKeypair,
    next_keypair := keypairDestroy liveKeypair, pending_handshake := ⟨false, 0, 0⟩, last_rx := 0,
    send_handshake := false }

/-- A transport data message for index 1 with counter 0, as long as a UDP datagram can be. -/
def oversizedDatagram : List UInt8 :=
  [MESSAGE_TRANSPORT_DATA, 0, 0, 0, 1, 0, 0, 0, 0, 0, 0, 0, 0, 0, 0, 0] ++ List.replicate 65519 0

theorem wireguardifNetworkRx_oversized :
    wireguardifNetworkRx
        ⟨⟨LARGE_BUFFER_SIZE_RAM_HIGH, 0, SMALL_BUFFER_SIZE, 0⟩, Aead.tagged (List.replicate 16 0), 0,
          fun _ _ => true⟩
        ⟨[livePeer], false⟩ oversizedDatagram (.v4 [192, 0, 2, 1]) 51820 =
      .error .pastCapacity := by
  have hlen : oversizedDatagram.length = 65535 := by
    rw [oversizedDatagram, List.length_append, List.length_replicate]
    rfl
  have hreceiver : messageReceiver oversizedDatagram = 1 := by decide
  refine wireguardifNetworkRx_pastCapacity _ _
    (wireguardGetMessageType_of_transport (by rw [hlen]; decide) rfl)
    (show peerLookupByReceiver ⟨[livePeer], false⟩ (messageReceiver oversizedDatagram) = some 0 by
      rw [hreceiver]; decide)
    (show [livePeer][0]? = some livePeer from rfl)
    (show getPeerKeypairForIdx livePeer (messageReceiver oversizedDatagram) = some .curr by
      rw [hreceiver]; decide)
    rfl (by decide) (by decide) (by rw [hlen]; decide) (by rw [hlen]; decide)

end WireGuard
end WaterWall
