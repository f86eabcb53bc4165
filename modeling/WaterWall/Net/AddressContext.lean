import WaterWall.Bytes.BigEndian

/-!
# Destination addresses

`ww/net/address_context.h` describes where a line goes: an IPv4 or IPv6 address or a domain name,
and a port.  The proxy protocols of the repository (Trojan, VLESS, SOCKS) write it onto the wire
as an address type, the address and the port, and read it back on the other side.  This file is
the part of `address_context_t` they read and write, with the checks the code makes on it.

A domain's length is a `uint8_t` in the C structure, so a `Host.domain` carries the fact that it
is shorter than 256 bytes; a domain is only *valid* (`addresscontextIsDomain`) when it is not
empty.
-/

set_option autoImplicit false

namespace WaterWall

/-- The address of an `address_context_t`. -/
inductive Host where
  /-- An IPv4 address, network order. -/
  | ipv4 (addr : List UInt8) (h : addr.length = 4)
  /-- An IPv6 address, network order. -/
  | ipv6 (addr : List UInt8) (h : addr.length = 16)
  /-- A domain name of `domain_len` bytes. -/
  | domain (name : List UInt8) (h : name.length < 256)
  /-- Neither: the context is not set. -/
  | unset
  deriving DecidableEq

/-- The part of an `address_context_t` the proxy protocols put on the wire. -/
structure AddressContext where
  /-- The address. -/
  host : Host
  /-- `port`, in host order. -/
  port : UInt16
  deriving DecidableEq

def addresscontextIsIpType (ctx : AddressContext) : Bool :=
  match ctx.host with
  | .ipv4 .. | .ipv6 .. => true
  | _ => false

def addresscontextIsIpv4 (ctx : AddressContext) : Bool :=
  match ctx.host with
  | .ipv4 .. => true
  | _ => false

def addresscontextIsIpv6 (ctx : AddressContext) : Bool :=
  match ctx.host with
  | .ipv6 .. => true
  | _ => false

/-- `addresscontextIsDomain`: a domain, and not an empty one. -/
def addresscontextIsDomain (ctx : AddressContext) : Bool :=
  match ctx.host with
  | .domain name _ => 0 < name.length
  | _ => false

def addresscontextHasPort (ctx : AddressContext) : Bool := ctx.port != 0

/-- A port in network order (`htobe16`). -/
def portBytes (port : UInt16) : List UInt8 := BigEndian.bytes 2 port.toNat

/-- The port two bytes spell in network order (`be16toh`). -/
def portOfBytes (xs : List UInt8) : UInt16 := UInt16.ofNat (BigEndian.value (xs.take 2))

@[simp] theorem length_portBytes (port : UInt16) : (portBytes port).length = 2 := by
  simp [portBytes]

theorem portOfBytes_portBytes (port : UInt16) (rest : List UInt8) :
    portOfBytes (portBytes port ++ rest) = port := by
  have hlt : port.toNat < 256 ^ 2 := port.toNat_lt
  rw [portOfBytes, List.take_left' (length_portBytes port), portBytes, BigEndian.value_bytes,
    Nat.mod_eq_of_lt hlt, UInt16.ofNat_toNat]

/-- The port is read from the first two bytes: what follows them does not change it. -/
theorem portOfBytes_append {xs : List UInt8} (ys : List UInt8) (h : 2 ≤ xs.length) :
    portOfBytes (xs ++ ys) = portOfBytes xs := by
  rw [portOfBytes, portOfBytes, List.take_append_of_le_length h]

theorem portOfBytes_take {xs : List UInt8} {n : Nat} (h : 2 ≤ n) :
    portOfBytes (xs.take n) = portOfBytes xs := by
  rw [portOfBytes, portOfBytes, List.take_take, Nat.min_eq_left h]

/-- Two bytes spell a port that is written back as those two bytes. -/
theorem portBytes_portOfBytes {xs : List UInt8} (h : 2 ≤ xs.length) :
    portBytes (portOfBytes xs) = xs.take 2 := by
  have hlen : (xs.take 2).length = 2 := by rw [List.length_take]; omega
  have hlt : BigEndian.value (xs.take 2) < UInt16.size := by
    have := BigEndian.value_lt (xs.take 2)
    rw [hlen] at this
    exact this
  have hback := BigEndian.bytes_value (xs.take 2)
  rw [hlen] at hback
  rw [portBytes, portOfBytes, UInt16.toNat_ofNat_of_lt' hlt, hback]

end WaterWall
