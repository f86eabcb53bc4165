import Mathlib
import WaterWall.Incremental.Loop
import WaterWall.Net.AddressContext

/-!
# The SOCKS5 control handshake

`socks5serverControlDrainInput` reads the client's side of a SOCKS5 handshake out of the control
line's `in_stream`: the method selection, the username-password subnegotiation when that method
was selected, and the request.  Each pass of its loop looks at the phase, peeks the header of the
message that phase expects, computes the message's length from one or two length bytes, and
waits for more bytes, reads the message and goes on, or closes the line.

The model reads `in_stream` through its content and runs the loop as an `Incremental.Loop`: one
pass is `socks5serverControlStep`, the whole call `socks5serverControlDrainInput`, and
`socks5serverTunnelUpStreamPayload` is the payload handler around it.

* `socks5serverControlStep_stable`, `socks5serverControlStep_take`: a pass that does not wait
  decides the same whatever follows the bytes it saw, and on its message alone.
* `socks5serverControl_split`: however the client's bytes are cut into deliveries, the replies,
  the user recorded, the destination, the final line state and what is left buffered are those of
  the bytes delivered at once.
* `socks5serverTunnelUpStreamPayload_bounded`: along every run of the handler, the buffered bytes
  stay within `kSocks5ServerMaxHandshakeBytes` and the queue within its cap.
-/

set_option autoImplicit false

namespace WaterWall
namespace Socks5

open Incremental

/-! ## Constants -/

def kSocks5Version : UInt8 := 0x05

def kSocks5NoAuthMethod : UInt8 := 0x00

def kSocks5UserPassMethod : UInt8 := 0x02

def kSocks5NoAcceptable : UInt8 := 0xFF

def kSocks5CommandConnect : UInt8 := 0x01

def kSocks5CommandBind : UInt8 := 0x02

def kSocks5CommandUdpAssoc : UInt8 := 0x03

def kSocks5AddrTypeIpv4 : UInt8 := 0x01

def kSocks5AddrTypeDomain : UInt8 := 0x03

def kSocks5AddrTypeIpv6 : UInt8 := 0x04

def kSocks5AuthVersion : UInt8 := 0x01

def kSocks5ReplySucceeded : UInt8 := 0x00

def kSocks5ReplyGeneralFailure : UInt8 := 0x01

def kSocks5ReplyCmdNotSupported : UInt8 := 0x07

def kSocks5ReplyAddrNotSupported : UInt8 := 0x08

/-- `sizeof(request_buf)` in the request phase: the 4-byte header, an address type, the longest
address (a 255-byte domain after its length byte is the longest) and the port. -/
def kSocks5RequestBufSize : Nat := 4 + 1 + 16 + 2 + 255

/-! ## The tunnel, the line and what the drain does to them -/

/-- `authenticationclient_state_t`. -/
inductive AuthClientState where
  | stopped
  | connecting
  | authenticating
  | ready
  deriving DecidableEq, Repr

/-- The AuthenticationClient tunnel the server asks about users, over users of type `υ`. -/
structure AuthClient (υ : Type) where
  /-- `authenticationclientGetState`. -/
  state : AuthClientState
  /-- `authenticationclientGetUserByPasswordWithResult` on `"username:password"`: the user when the
  lookup is `kAuthenticationClientUserLookupOk`. -/
  getUserByPassword : List UInt8 → Option υ

/-- What the drain reads of the tunnel (`socks5server_tstate_t`) and of the line besides its
state: the configuration, the authentication client, the line's local port, and the outcome of
registering a UDP association (its key and token, or `none` when it is refused). -/
structure Socks5Env (υ : Type) where
  no_auth : Bool
  allow_connect : Bool
  allow_udp : Bool
  udp_reply_ip : Host
  /-- `auth_client_tunnel`, `NULL` when there is none. -/
  auth_client_tunnel : Option (AuthClient υ)
  /-- `socks5serverGetLocalPort`. -/
  local_port : UInt16
  /-- `socks5serverRegisterUdpAssociation` for the line's user and the requested target. -/
  registerUdpAssociation : Option υ → AddressContext → Option (UInt64 × UInt64)

/-- `socks5server_phase_t`. -/
inductive Phase where
  | idle
  | waitMethod
  | waitAuth
  | waitRequest
  | connectWaitEst
  | tcpEstablished
  | udpControl
  | closing
  deriving DecidableEq, Repr

/-- The fields of `socks5server_lstate_t` the drain reads or writes.  A user handle is `none` for
`userHandleEmpty()`. -/
structure ControlState (υ : Type) where
  phase : Phase
  user_handle : Option υ
  auth_username : Option (List UInt8)
  auth_password : Option (List UInt8)
  association_key : UInt64
  association_token : UInt64
  connect_reply_sent : Bool
  user_handle_recorded : Bool
  prev_finished : Bool
  next_finished : Bool

/-- `socks5serverLinestateInitialize` for a control line. -/
def socks5serverLinestateInitialize (υ : Type) : ControlState υ :=
  { phase := .waitMethod, user_handle := none, auth_username := none, auth_password := none,
    association_key := 0, association_token := 0, connect_reply_sent := false,
    user_handle_recorded := false, prev_finished := false, next_finished := false }

/-- What the drain does to the line and its neighbours, in order. -/
inductive ControlEvent (υ : Type) where
  /-- `tunnelPrevDownStreamPayload`: bytes sent back to the client. -/
  | reply (bytes : List UInt8)
  /-- `lineAddUser`: the user and the raw credentials recorded on the line. -/
  | addUser (user : Option υ) (username password : Option (List UInt8))
  /-- `socks5serverApplyDestinationContext`: the line's destination, and whether it is UDP. -/
  | applyDestination (target : AddressContext) (udp : Bool)
  /-- `tunnelNextUpStreamInit`. -/
  | upstreamInit
  /-- `socks5serverUnregisterUdpAssociation` dropping the line's association. -/
  | unregisterUdpAssociation (key token : UInt64)
  /-- `tunnelNextUpStreamFinish`. -/
  | finishNext
  /-- `tunnelPrevDownStreamFinish`. -/
  | finishPrev

variable {υ : Type}

/-! ## Replies -/

/-- `socks5serverWriteAddress`: the address type, the address and the port in network order, or
`none` for a context that is neither an IP address nor a domain. -/
def socks5serverWriteAddress (ctx : AddressContext) : Option (List UInt8) :=
  match ctx.host with
  | .ipv4 addr _ => some (kSocks5AddrTypeIpv4 :: addr ++ portBytes ctx.port)
  | .ipv6 addr _ => some (kSocks5AddrTypeIpv6 :: addr ++ portBytes ctx.port)
  | .domain name _ =>
    if addresscontextIsDomain ctx then
      some (kSocks5AddrTypeDomain :: UInt8.ofNat name.length :: name ++ portBytes ctx.port)
    else none
  | .unset => none

def socks5serverCreateMethodReply (method : UInt8) : List UInt8 := [kSocks5Version, method]

def socks5serverCreateAuthReply (status : UInt8) : List UInt8 := [kSocks5AuthVersion, status]

/-- The address `0.0.0.0:0` a command reply carries when it is given none. -/
def zeroAddress : AddressContext := ⟨.ipv4 [0, 0, 0, 0] rfl, 0⟩

/-- `socks5serverCreateCommandReply`: `NULL` when the address cannot be written. -/
def socks5serverCreateCommandReply (rep : UInt8) (ctx : Option AddressContext) :
    Option (List UInt8) :=
  (socks5serverWriteAddress (ctx.getD zeroAddress)).map fun addr => [kSocks5Version, rep, 0] ++ addr

/-! ## Line state updates -/

/-- `socks5serverRecordLineUser`: the line's user is recorded once. -/
def socks5serverRecordLineUser (ls : ControlState υ) : ControlState υ × List (ControlEvent υ) :=
  if ls.user_handle_recorded then (ls, [])
  else ({ ls with user_handle_recorded := true },
    [.addUser ls.user_handle ls.auth_username ls.auth_password])

def socks5serverStoreAuthCredentials (ls : ControlState υ) (username password : List UInt8) :
    ControlState υ :=
  { ls with auth_username := some username, auth_password := some password }

def socks5serverUnregisterUdpAssociation (ls : ControlState υ) :
    ControlState υ × List (ControlEvent υ) :=
  if ls.association_token = 0 then (ls, [])
  else ({ ls with association_key := 0, association_token := 0 },
    [.unregisterUdpAssociation ls.association_key ls.association_token])

/-- `socks5serverCloseControlLine` with origin `kSocks5ServerCloseInternal`, the only origin the
drain uses: the reply, when one is asked for and none has been sent, then the finishes toward
both sides.  The line state is destroyed after; the phase it is left in is `closing`. -/
def socks5serverCloseControlLine (ls : ControlState υ) (reply_code : Option UInt8) :
    ControlState υ × List (ControlEvent υ) :=
  if ls.phase = .closing then (ls, [])
  else
    let has_peer := ls.phase = .connectWaitEst ∨ ls.phase = .tcpEstablished
    let pre_est := ls.phase = .connectWaitEst
    let send_reply := reply_code.isSome && !ls.connect_reply_sent && (pre_est || !has_peer)
    let unreg := socks5serverUnregisterUdpAssociation { ls with phase := .closing }
    let ls := unreg.1
    let reply : Option (List UInt8) :=
      if send_reply then socks5serverCreateCommandReply (reply_code.getD 0) none else none
    let ls := if reply.isSome then { ls with connect_reply_sent := true } else ls
    (ls, unreg.2 ++ reply.toList.map .reply ++
      (if has_peer && !ls.next_finished then [.finishNext] else []) ++
      (if !ls.prev_finished then [.finishPrev] else []))

def socks5serverCloseControlLineBidirectional (ls : ControlState υ) :
    ControlState υ × List (ControlEvent υ) :=
  socks5serverCloseControlLine ls none

/-- `socks5serverSendReplyAndClose`, as the pass that ends the loop. -/
def socks5serverSendReplyAndClose (ls : ControlState υ) (rep : UInt8) :
    Action (ControlState υ) (ControlEvent υ) :=
  let r := socks5serverCloseControlLine ls (some rep)
  .stop r.1 r.2

/-! ## Authentication and addresses -/

/-- `socks5serverAuthUserFromClient`: the user the authentication client knows by these
credentials, or `none` for a rejection. -/
def socks5serverAuthUserFromClient (env : Socks5Env υ) (username password : List UInt8) :
    Option υ :=
  if username.length = 0 then none
  else if password.length = 0 then none
  else
    match env.auth_client_tunnel with
    | none => none
    | some auth =>
      if username.contains 0 then none
      else if password.contains 0 then none
      else if auth.state ≠ .ready then none
      else auth.getUserByPassword (username ++ [0x3A] ++ password)

/-- The outcome of `socks5serverParseAddressBytes`: `0`, `-1`, or `1` with the target and the
number of bytes it consumed. -/
inductive ParseAddressResult where
  | needMore
  | unsupported
  | parsed (target : AddressContext) (consumed : Nat)

/-- `socks5serverParseAddressBytes`: an address type, the address and the port.  A domain of
length zero is waited on, like a short one. -/
def socks5serverParseAddressBytes (buf : List UInt8) : ParseAddressResult :=
  if buf.length < 1 then .needMore
  else
    let atyp := buf.getD 0 0
    if atyp = kSocks5AddrTypeIpv4 then
      if h : buf.length < 1 + 4 + 2 then .needMore
      else
        .parsed ⟨.ipv4 ((buf.drop 1).take 4) (by simp only [List.length_take, List.length_drop]; omega),
          portOfBytes (buf.drop 5)⟩ (1 + 4 + 2)
    else if atyp = kSocks5AddrTypeIpv6 then
      if h : buf.length < 1 + 16 + 2 then .needMore
      else
        .parsed ⟨.ipv6 ((buf.drop 1).take 16) (by simp only [List.length_take, List.length_drop]; omega),
          portOfBytes (buf.drop 17)⟩ (1 + 16 + 2)
    else if atyp = kSocks5AddrTypeDomain then
      if buf.length < 2 then .needMore
      else
        let domain_len := buf.getD 1 0
        if buf.length < 2 + domain_len.toNat + 2 ∨ domain_len = 0 then .needMore
        else
          .parsed ⟨.domain ((buf.drop 2).take domain_len.toNat)
              (by have := domain_len.toNat_lt; simp only [List.length_take]; omega),
            portOfBytes (buf.drop (2 + domain_len.toNat))⟩ (2 + domain_len.toNat + 2)
    else .unsupported

/-! ## One pass of the drain loop -/

/-- The `kSocks5ServerPhaseWaitMethod` pass: the version, the number of methods and the methods;
the reply names the method selected. -/
def waitMethodPass (env : Socks5Env υ) (ls : ControlState υ) (xs : List UInt8) :
    Action (ControlState υ) (ControlEvent υ) :=
  if xs.length < 2 then .wait
  else
    let head := xs.take 2
    if head.getD 0 0 ≠ kSocks5Version then
      let r := socks5serverCloseControlLineBidirectional ls
      .stop r.1 r.2
    else
      let total := 2 + (head.getD 1 0).toNat
      if xs.length < total then .wait
      else
        let methods := (xs.take total).drop 2
        let offers_noauth := methods.contains kSocks5NoAuthMethod
        let offers_userpass := methods.contains kSocks5UserPassMethod
        let selected :=
          if env.no_auth && offers_noauth then kSocks5NoAuthMethod
          else if !env.no_auth && offers_userpass then kSocks5UserPassMethod
          else kSocks5NoAcceptable
        let reply : ControlEvent υ := .reply (socks5serverCreateMethodReply selected)
        if selected = kSocks5NoAcceptable then
          let r := socks5serverCloseControlLineBidirectional ls
          .stop r.1 (reply :: r.2)
        else if selected = kSocks5NoAuthMethod then
          let r := socks5serverRecordLineUser { ls with user_handle := none, phase := .waitRequest }
          .next r.1 (reply :: r.2) total
        else .next { ls with phase := .waitAuth } [reply] total

/-- The `kSocks5ServerPhaseWaitAuth` pass: the subnegotiation version, the username and the
password, each behind its length byte. -/
def waitAuthPass (env : Socks5Env υ) (ls : ControlState υ) (xs : List UInt8) :
    Action (ControlState υ) (ControlEvent υ) :=
  if xs.length < 2 then .wait
  else
    let head := xs.take 2
    if head.getD 0 0 ≠ kSocks5AuthVersion then
      let r := socks5serverCloseControlLineBidirectional ls
      .stop r.1 r.2
    else
      let ulen := (head.getD 1 0).toNat
      if xs.length < 2 + ulen + 1 then .wait
      else
        let plen := (xs.getD (2 + ulen) 0).toNat
        let required := 2 + ulen + 1 + plen
        if xs.length < required then .wait
        else
          let raw := xs.take required
          let username := (raw.drop 2).take ulen
          let password := (raw.drop (3 + ulen)).take plen
          match socks5serverAuthUserFromClient env username password with
          | some user =>
            let ls := socks5serverStoreAuthCredentials ls username password
            let r := socks5serverRecordLineUser { ls with user_handle := some user, phase := .waitRequest }
            .next r.1 (.reply (socks5serverCreateAuthReply 0x00) :: r.2) required
          | none =>
            let r := socks5serverCloseControlLineBidirectional ls
            .stop r.1 (.reply (socks5serverCreateAuthReply 0x01) :: r.2)

/-- The `kSocks5ServerPhaseWaitRequest` pass: the version, the command, a reserved zero, and the
target address parsed from a copy of at most `kSocks5RequestBufSize` buffered bytes. -/
def waitRequestPass (env : Socks5Env υ) (ls : ControlState υ) (xs : List UInt8) :
    Action (ControlState υ) (ControlEvent υ) :=
  if xs.length < 4 then .wait
  else
    let head := xs.take 4
    if head.getD 0 0 ≠ kSocks5Version ∨ head.getD 2 0 ≠ 0 then
      socks5serverSendReplyAndClose ls kSocks5ReplyGeneralFailure
    else
      let copy_len := min kSocks5RequestBufSize xs.length
      let request_buf := xs.take copy_len
      match socks5serverParseAddressBytes (request_buf.drop 3) with
      | .needMore => .wait
      | .unsupported => socks5serverSendReplyAndClose ls kSocks5ReplyAddrNotSupported
      | .parsed target consumed =>
        -- the request, `3 + consumed` bytes, is read off the stream before the command is looked at
        let cmd := head.getD 1 0
        if cmd = kSocks5CommandBind then
          socks5serverSendReplyAndClose ls kSocks5ReplyCmdNotSupported
        else if cmd = kSocks5CommandConnect then
          if !env.allow_connect then socks5serverSendReplyAndClose ls kSocks5ReplyCmdNotSupported
          else if !addresscontextHasPort target then
            socks5serverSendReplyAndClose ls kSocks5ReplyAddrNotSupported
          else
            .next { ls with phase := .connectWaitEst } [.applyDestination target false, .upstreamInit]
              (3 + consumed)
        else if cmd = kSocks5CommandUdpAssoc then
          if !env.allow_udp then socks5serverSendReplyAndClose ls kSocks5ReplyCmdNotSupported
          else
            match env.registerUdpAssociation ls.user_handle target with
            | none => socks5serverSendReplyAndClose ls kSocks5ReplyGeneralFailure
            | some (key, token) =>
              let bind_ctx : AddressContext := ⟨env.udp_reply_ip, env.local_port⟩
              let ls := { ls with association_key := key, association_token := token }
              .next { ls with phase := .udpControl, connect_reply_sent := true }
                ((socks5serverCreateCommandReply kSocks5ReplySucceeded (some bind_ctx)).toList.map
                  .reply) (3 + consumed)
        else socks5serverSendReplyAndClose ls kSocks5ReplyCmdNotSupported

/-- One pass of the `while (true)` loop of `socks5serverControlDrainInput`.  In the phases after
the handshake the loop returns at once. -/
def socks5serverControlStep (env : Socks5Env υ) (ls : ControlState υ) (xs : List UInt8) :
    Action (ControlState υ) (ControlEvent υ) :=
  match ls.phase with
  | .waitMethod => waitMethodPass env ls xs
  | .waitAuth => waitAuthPass env ls xs
  | .waitRequest => waitRequestPass env ls xs
  | _ => .wait

/-! ## Every pass decides on the bytes of its message

A pass that does not wait has looked at a prefix of what is buffered and decides on it alone:
the same on every extension (the `_append` lemmas), and, when it reads a message, the same on
that message alone (the `_take` lemmas). -/

theorem getD_take_of_lt {α : Type} {xs : List α} {i n : Nat} (d : α) (h : i < n) :
    (xs.take n).getD i d = xs.getD i d := by
  rw [List.getD_eq_getElem?_getD, List.getD_eq_getElem?_getD, List.getElem?_take_of_lt h]

theorem socks5serverParseAddressBytes_append {buf : List UInt8} (rest : List UInt8)
    (h : socks5serverParseAddressBytes buf ≠ .needMore) :
    socks5serverParseAddressBytes (buf ++ rest) = socks5serverParseAddressBytes buf := by
  unfold socks5serverParseAddressBytes at h ⊢
  have h1 : ¬ buf.length < 1 := fun hl => h (if_pos hl)
  have hatyp : (buf ++ rest).getD 0 0 = buf.getD 0 0 := List.getD_append _ _ _ _ (by omega)
  rw [if_neg h1] at h
  rw [if_neg (show ¬ (buf ++ rest).length < 1 by simp only [List.length_append]; omega),
    if_neg h1, hatyp]
  dsimp only at h ⊢
  by_cases hv4 : buf.getD 0 0 = kSocks5AddrTypeIpv4
  · -- an IPv4 address
    simp only [if_pos hv4] at h ⊢
    have h7 : ¬ buf.length < 1 + 4 + 2 := fun hl => h (dif_pos hl)
    rw [dif_neg h7, dif_neg (show ¬ (buf ++ rest).length < 1 + 4 + 2 by
      simp only [List.length_append]; omega)]
    simp only [List.drop_append_of_le_length (show 1 ≤ buf.length by omega),
      List.drop_append_of_le_length (show 5 ≤ buf.length by omega),
      List.take_append_of_le_length (show 4 ≤ (buf.drop 1).length by simp; omega),
      portOfBytes_append rest (show 2 ≤ (buf.drop 5).length by simp; omega)]
  simp only [if_neg hv4] at h ⊢
  by_cases hv6 : buf.getD 0 0 = kSocks5AddrTypeIpv6
  · -- an IPv6 address
    simp only [if_pos hv6] at h ⊢
    have h19 : ¬ buf.length < 1 + 16 + 2 := fun hl => h (dif_pos hl)
    rw [dif_neg h19, dif_neg (show ¬ (buf ++ rest).length < 1 + 16 + 2 by
      simp only [List.length_append]; omega)]
    simp only [List.drop_append_of_le_length (show 1 ≤ buf.length by omega),
      List.drop_append_of_le_length (show 17 ≤ buf.length by omega),
      List.take_append_of_le_length (show 16 ≤ (buf.drop 1).length by simp; omega),
      portOfBytes_append rest (show 2 ≤ (buf.drop 17).length by simp; omega)]
  simp only [if_neg hv6] at h ⊢
  by_cases hdom : buf.getD 0 0 = kSocks5AddrTypeDomain
  · -- a domain behind its length byte
    simp only [if_pos hdom] at h ⊢
    have h2 : ¬ buf.length < 2 := fun hl => h (if_pos hl)
    rw [if_neg h2] at h
    have hlen : (buf ++ rest).getD 1 0 = buf.getD 1 0 := List.getD_append _ _ _ _ (by omega)
    rw [if_neg h2, if_neg (show ¬ (buf ++ rest).length < 2 by simp only [List.length_append]; omega)]
    simp only [hlen]
    have hshort : ¬ (buf.length < 2 + (buf.getD 1 0).toNat + 2 ∨ buf.getD 1 0 = 0) :=
      fun hl => h (if_pos hl)
    have hfit : 2 + (buf.getD 1 0).toNat + 2 ≤ buf.length :=
      Nat.le_of_not_lt fun hl => hshort (Or.inl hl)
    rw [if_neg hshort, if_neg fun hl => hshort (hl.imp_left fun hl' => by
      simp only [List.length_append] at hl'; omega)]
    simp only [List.drop_append_of_le_length (show 2 ≤ buf.length by omega),
      List.drop_append_of_le_length (show 2 + (buf.getD 1 0).toNat ≤ buf.length by omega),
      List.take_append_of_le_length (show (buf.getD 1 0).toNat ≤ (buf.drop 2).length by
        rw [List.length_drop]; omega),
      portOfBytes_append rest (show 2 ≤ (buf.drop (2 + (buf.getD 1 0).toNat)).length by
        rw [List.length_drop]; omega)]
  simp only [if_neg hdom]

theorem socks5serverParseAddressBytes_take {buf : List UInt8} {target : AddressContext}
    {consumed : Nat} (h : socks5serverParseAddressBytes buf = .parsed target consumed) :
    consumed ≤ buf.length ∧
      socks5serverParseAddressBytes (buf.take consumed) = .parsed target consumed := by
  unfold socks5serverParseAddressBytes at h ⊢
  have h1 : ¬ buf.length < 1 := fun hl => by rw [if_pos hl] at h; cases h
  rw [if_neg h1] at h
  dsimp only at h ⊢
  by_cases hv4 : buf.getD 0 0 = kSocks5AddrTypeIpv4
  · -- an IPv4 address: seven bytes
    simp only [if_pos hv4] at h
    have h7 : ¬ buf.length < 1 + 4 + 2 := fun hl => by rw [dif_pos hl] at h; cases h
    rw [dif_neg h7] at h
    cases h
    have hlen : (buf.take (1 + 4 + 2)).length = 1 + 4 + 2 := by rw [List.length_take]; omega
    refine ⟨by omega, ?_⟩
    rw [if_neg (by omega), getD_take_of_lt 0 (by omega), if_pos hv4, dif_neg (by omega)]
    simp only [List.drop_take, List.take_take, portOfBytes_take (show 2 ≤ 1 + 4 + 2 - 5 by omega)]
    rfl
  simp only [if_neg hv4] at h ⊢
  by_cases hv6 : buf.getD 0 0 = kSocks5AddrTypeIpv6
  · -- an IPv6 address: nineteen bytes
    simp only [if_pos hv6] at h
    have h19 : ¬ buf.length < 1 + 16 + 2 := fun hl => by rw [dif_pos hl] at h; cases h
    rw [dif_neg h19] at h
    cases h
    have hlen : (buf.take (1 + 16 + 2)).length = 1 + 16 + 2 := by rw [List.length_take]; omega
    refine ⟨by omega, ?_⟩
    rw [if_neg (by omega), getD_take_of_lt 0 (by omega), if_neg hv4, if_pos hv6, dif_neg (by omega)]
    simp only [List.drop_take, List.take_take, portOfBytes_take (show 2 ≤ 1 + 16 + 2 - 17 by omega)]
    rfl
  simp only [if_neg hv6] at h ⊢
  by_cases hdom : buf.getD 0 0 = kSocks5AddrTypeDomain
  · -- a domain: its length byte, the name and the port
    simp only [if_pos hdom] at h
    have h2 : ¬ buf.length < 2 := fun hl => by rw [if_pos hl] at h; cases h
    rw [if_neg h2] at h
    have hshort : ¬ (buf.length < 2 + (buf.getD 1 0).toNat + 2 ∨ buf.getD 1 0 = 0) :=
      fun hl => by rw [if_pos hl] at h; cases h
    rw [if_neg hshort] at h
    cases h
    have hfit : 2 + (buf.getD 1 0).toNat + 2 ≤ buf.length :=
      Nat.le_of_not_lt fun hl => hshort (Or.inl hl)
    have hlen : (buf.take (2 + (buf.getD 1 0).toNat + 2)).length = 2 + (buf.getD 1 0).toNat + 2 := by
      rw [List.length_take]; omega
    have hdl : (buf.take (2 + (buf.getD 1 0).toNat + 2)).getD 1 0 = buf.getD 1 0 :=
      getD_take_of_lt 0 (by omega)
    refine ⟨hfit, ?_⟩
    rw [if_neg (by omega), getD_take_of_lt 0 (by omega), if_neg hv4, if_neg hv6, if_pos hdom,
      if_neg (by omega)]
    simp only [hdl]
    rw [if_neg (by rw [hlen]; exact fun hl => hshort (hl.imp_left fun hl' => by omega))]
    simp only [List.drop_take, List.take_take, portOfBytes_take (show 2 ≤ 2 + (buf.getD 1 0).toNat + 2 - (2 + (buf.getD 1 0).toNat) by omega),
      Nat.min_eq_left (show (buf.getD 1 0).toNat ≤ 2 + (buf.getD 1 0).toNat + 2 - 2 by omega)]
  simp only [if_neg hdom] at h
  cases h

theorem waitMethodPass_append {env : Socks5Env υ} {ls : ControlState υ} {xs : List UInt8}
    (ys : List UInt8) (h : waitMethodPass env ls xs ≠ .wait) :
    waitMethodPass env ls (xs ++ ys) = waitMethodPass env ls xs := by
  unfold waitMethodPass at h ⊢
  have h2 : ¬ xs.length < 2 := fun hl => h (if_pos hl)
  rw [if_neg h2] at h
  rw [if_neg h2, if_neg (show ¬ (xs ++ ys).length < 2 by simp only [List.length_append]; omega),
    List.take_append_of_le_length (show 2 ≤ xs.length by omega)]
  dsimp only at h ⊢
  by_cases hv : (xs.take 2).getD 0 0 ≠ kSocks5Version
  · simp only [if_pos hv]
  simp only [if_neg hv] at h ⊢
  -- the methods are all buffered: the selection reads them and nothing after them
  have htotal : ¬ xs.length < 2 + ((xs.take 2).getD 1 0).toNat := fun hl => h (if_pos hl)
  rw [if_neg htotal, if_neg (show ¬ (xs ++ ys).length < 2 + ((xs.take 2).getD 1 0).toNat by
    simp only [List.length_append]; omega), List.take_append_of_le_length (by omega)]


theorem waitAuthPass_append {env : Socks5Env υ} {ls : ControlState υ} {xs : List UInt8}
    (ys : List UInt8) (h : waitAuthPass env ls xs ≠ .wait) :
    waitAuthPass env ls (xs ++ ys) = waitAuthPass env ls xs := by
  unfold waitAuthPass at h ⊢
  have h2 : ¬ xs.length < 2 := fun hl => h (if_pos hl)
  rw [if_neg h2] at h
  rw [if_neg h2, if_neg (show ¬ (xs ++ ys).length < 2 by simp only [List.length_append]; omega),
    List.take_append_of_le_length (show 2 ≤ xs.length by omega)]
  dsimp only at h ⊢
  by_cases hv : (xs.take 2).getD 0 0 ≠ kSocks5AuthVersion
  · simp only [if_pos hv]
  simp only [if_neg hv] at h ⊢
  generalize ((xs.take 2).getD 1 0).toNat = ulen at h ⊢
  have hu : ¬ xs.length < 2 + ulen + 1 := fun hl => h (if_pos hl)
  rw [if_neg hu] at h
  rw [if_neg hu, if_neg (show ¬ (xs ++ ys).length < 2 + ulen + 1 by
    simp only [List.length_append]; omega), List.getD_append _ _ _ _ (by omega)]
  generalize (xs.getD (2 + ulen) 0).toNat = plen at h ⊢
  have hp : ¬ xs.length < 2 + ulen + 1 + plen := fun hl => h (if_pos hl)
  rw [if_neg hp, if_neg (show ¬ (xs ++ ys).length < 2 + ulen + 1 + plen by
    simp only [List.length_append]; omega), List.take_append_of_le_length (by omega)]


theorem waitRequestPass_append {env : Socks5Env υ} {ls : ControlState υ} {xs : List UInt8}
    (ys : List UInt8) (h : waitRequestPass env ls xs ≠ .wait) :
    waitRequestPass env ls (xs ++ ys) = waitRequestPass env ls xs := by
  unfold waitRequestPass at h ⊢
  have h4 : ¬ xs.length < 4 := fun hl => h (if_pos hl)
  rw [if_neg h4] at h
  rw [if_neg h4, if_neg (show ¬ (xs ++ ys).length < 4 by simp only [List.length_append]; omega),
    List.take_append_of_le_length (show 4 ≤ xs.length by omega)]
  dsimp only at h ⊢
  by_cases hv : (xs.take 4).getD 0 0 ≠ kSocks5Version ∨ (xs.take 4).getD 2 0 ≠ 0
  · simp only [if_pos hv]
  simp only [if_neg hv] at h ⊢
  -- the copy of the longer input is the copy of the shorter one with more bytes behind it
  have hcopy : ((xs ++ ys).take (min kSocks5RequestBufSize (xs ++ ys).length)).drop 3 =
      (xs.take (min kSocks5RequestBufSize xs.length)).drop 3 ++
        ys.take (kSocks5RequestBufSize - xs.length) := by
    rw [← List.take_eq_take_min, ← List.take_eq_take_min, List.take_append,
      List.drop_append_of_le_length (by simp [kSocks5RequestBufSize]; omega)]
  have hparse : socks5serverParseAddressBytes
      ((xs.take (min kSocks5RequestBufSize xs.length)).drop 3) ≠ .needMore := by
    intro hn
    rw [hn] at h
    exact h rfl
  rw [hcopy, socks5serverParseAddressBytes_append _ hparse]

theorem waitMethodPass_next {env : Socks5Env υ} {ls s' : ControlState υ} {xs : List UInt8}
    {out : List (ControlEvent υ)} {n : Nat} (h : waitMethodPass env ls xs = .next s' out n) :
    0 < n ∧ n ≤ xs.length ∧ waitMethodPass env ls (xs.take n) = .next s' out n := by
  unfold waitMethodPass at h ⊢
  have h2 : ¬ xs.length < 2 := fun hl => by rw [if_pos hl] at h; cases h
  rw [if_neg h2] at h
  dsimp only at h ⊢
  have hv : ¬ (xs.take 2).getD 0 0 ≠ kSocks5Version := fun hv => by rw [if_pos hv] at h; cases h
  rw [if_neg hv] at h
  generalize htotal : 2 + ((xs.take 2).getD 1 0).toNat = total at h
  have hfit : ¬ xs.length < total := fun hl => by rw [if_pos hl] at h; cases h
  rw [if_neg hfit] at h
  -- a pass that goes on has read the whole method selection
  have hn : n = total := by
    split_ifs at h <;> cases h <;> rfl
  subst hn
  have hlen : (xs.take n).length = n := by rw [List.length_take]; omega
  rw [if_neg (by omega), List.take_take, Nat.min_eq_left (by omega), if_neg hv, htotal,
    if_neg (by omega), List.take_take, Nat.min_self]
  exact ⟨by omega, by omega, h⟩


theorem waitAuthPass_next {env : Socks5Env υ} {ls s' : ControlState υ} {xs : List UInt8}
    {out : List (ControlEvent υ)} {n : Nat} (h : waitAuthPass env ls xs = .next s' out n) :
    0 < n ∧ n ≤ xs.length ∧ waitAuthPass env ls (xs.take n) = .next s' out n := by
  unfold waitAuthPass at h ⊢
  have h2 : ¬ xs.length < 2 := fun hl => by rw [if_pos hl] at h; cases h
  rw [if_neg h2] at h
  dsimp only at h ⊢
  have hv : ¬ (xs.take 2).getD 0 0 ≠ kSocks5AuthVersion := fun hv => by rw [if_pos hv] at h; cases h
  rw [if_neg hv] at h
  generalize hulen : ((xs.take 2).getD 1 0).toNat = ulen at h
  have hu : ¬ xs.length < 2 + ulen + 1 := fun hl => by rw [if_pos hl] at h; cases h
  rw [if_neg hu] at h
  generalize hplen : (xs.getD (2 + ulen) 0).toNat = plen at h
  have hp : ¬ xs.length < 2 + ulen + 1 + plen := fun hl => by rw [if_pos hl] at h; cases h
  rw [if_neg hp] at h
  -- a pass that goes on has read the username and the password
  have hn : n = 2 + ulen + 1 + plen := by
    split at h
    · cases h
      rfl
    · cases h
  subst hn
  have hlen : (xs.take (2 + ulen + 1 + plen)).length = 2 + ulen + 1 + plen := by
    rw [List.length_take]; omega
  rw [if_neg (by omega), List.take_take, Nat.min_eq_left (by omega), if_neg hv, hulen,
    if_neg (by omega), getD_take_of_lt 0 (by omega), hplen, if_neg (by omega), List.take_take,
    Nat.min_self]
  exact ⟨by omega, by omega, h⟩


theorem waitRequestPass_next {env : Socks5Env υ} {ls s' : ControlState υ} {xs : List UInt8}
    {out : List (ControlEvent υ)} {n : Nat} (h : waitRequestPass env ls xs = .next s' out n) :
    0 < n ∧ n ≤ xs.length ∧ waitRequestPass env ls (xs.take n) = .next s' out n := by
  unfold waitRequestPass at h ⊢
  have h4 : ¬ xs.length < 4 := fun hl => by rw [if_pos hl] at h; cases h
  rw [if_neg h4] at h
  dsimp only at h ⊢
  have hv : ¬ ((xs.take 4).getD 0 0 ≠ kSocks5Version ∨ (xs.take 4).getD 2 0 ≠ 0) :=
    fun hv => by rw [if_pos hv] at h; cases h
  rw [if_neg hv] at h
  rw [← List.take_eq_take_min] at h
  split at h
  · cases h
  · exact absurd h (by unfold socks5serverSendReplyAndClose; nofun)
  rename_i target consumed hparse
  obtain ⟨hc, htake⟩ := socks5serverParseAddressBytes_take hparse
  -- a pass that goes on has read the header and the address
  have hn : n = 3 + consumed := by
    split_ifs at h <;> (try split at h) <;> cases h <;> rfl
  subst hn
  have hpos : 0 < consumed := by
    rcases Nat.eq_zero_or_pos consumed with h0 | h0
    · rw [h0, List.take_zero] at htake
      cases htake
    · exact h0
  have hfit : 3 + consumed ≤ kSocks5RequestBufSize ∧ 3 + consumed ≤ xs.length := by
    rw [List.length_drop, List.length_take] at hc
    unfold kSocks5RequestBufSize at hc ⊢
    omega
  have hlen : (xs.take (3 + consumed)).length = 3 + consumed := by
    rw [List.length_take]; omega
  -- the copy of the request alone is the request's address bytes
  have hcopy : ((xs.take (3 + consumed)).take
      (min kSocks5RequestBufSize (xs.take (3 + consumed)).length)).drop 3 =
      ((xs.take kSocks5RequestBufSize).drop 3).take consumed := by
    rw [← List.take_eq_take_min, List.take_take, List.drop_take, List.drop_take, List.take_take]
    congr 1
    omega
  rw [if_neg (by omega), List.take_take, Nat.min_eq_left (show 4 ≤ 3 + consumed by omega),
    if_neg hv, hcopy, htake]
  exact ⟨by omega, by omega, h⟩

/-! ## The drain loop -/

/-- A pass that reads a message consumes its bytes and nothing more, and decides the same on them
alone. -/
theorem socks5serverControlStep_next {env : Socks5Env υ} {ls s' : ControlState υ}
    {xs : List UInt8} {out : List (ControlEvent υ)} {n : Nat}
    (h : socks5serverControlStep env ls xs = .next s' out n) :
    0 < n ∧ n ≤ xs.length ∧ socks5serverControlStep env ls (xs.take n) = .next s' out n := by
  unfold socks5serverControlStep at h ⊢
  cases hphase : ls.phase <;> simp only [hphase] at h ⊢
  case waitMethod => exact waitMethodPass_next h
  case waitAuth => exact waitAuthPass_next h
  case waitRequest => exact waitRequestPass_next h
  all_goals cases h

/-- The loop of `socks5serverControlDrainInput`. -/
def socks5serverControl (env : Socks5Env υ) : Loop (ControlState υ) UInt8 (ControlEvent υ) where
  step := socks5serverControlStep env
  consumes h := ⟨(socks5serverControlStep_next h).1, (socks5serverControlStep_next h).2.1⟩

/-- `socks5serverControlDrainInput`: the passes run over what `in_stream` holds until one waits
(`return true`) or the line is closed (`return false`, with the stream destroyed). -/
def socks5serverControlDrainInput (env : Socks5Env υ) (ls : ControlState υ) (in_stream : List UInt8) :
    ControlState υ × List (ControlEvent υ) × Option (List UInt8) :=
  (socks5serverControl env).drain ls in_stream

theorem socks5serverControlStep_nil (env : Socks5Env υ) (ls : ControlState υ) :
    socks5serverControlStep env ls [] = .wait := by
  unfold socks5serverControlStep
  split
  · rfl
  · rfl
  · rfl
  · rfl

theorem socks5serverControlStep_stable (env : Socks5Env υ) : (socks5serverControl env).Stable := by
  intro ls xs ys h
  change socks5serverControlStep env ls (xs ++ ys) = socks5serverControlStep env ls xs
  change socks5serverControlStep env ls xs ≠ .wait at h
  unfold socks5serverControlStep at h ⊢
  cases hphase : ls.phase <;> simp only [hphase] at h ⊢
  case waitMethod => exact waitMethodPass_append ys h
  case waitAuth => exact waitAuthPass_append ys h
  case waitRequest => exact waitRequestPass_append ys h

theorem socks5serverControlStep_take (env : Socks5Env υ) :
    (socks5serverControl env).SelfDelimiting :=
  fun h => (socks5serverControlStep_next h).2.2

def kSocks5ServerMaxHandshakeBytes : Nat := 4096

def kSocks5ServerMaxPendingBytes : Nat := 1024 * 1024

/-- A control line as its payload handler sees it: the drain's state, the bytes `in_stream` holds,
and the payloads `pending_up` holds for the next tunnel. -/
structure ControlLine (υ : Type) where
  ls : ControlState υ
  in_stream : List UInt8
  pending_up : List (List UInt8)

/-- A control line as `socks5serverLinestateInitialize` leaves it. -/
def ControlLine.init (υ : Type) : ControlLine υ := ⟨socks5serverLinestateInitialize υ, [], []⟩

/-- What the handler does with a payload. -/
inductive UpStreamEvent (υ : Type) where
  /-- `tunnelNextUpStreamPayload`. -/
  | nextPayload (bytes : List UInt8)
  /-- `lineReuseBuffer`: the payload is dropped. -/
  | reuse (bytes : List UInt8)
  /-- What the drain or the close does to the line and its neighbours. -/
  | control (e : ControlEvent υ)

/-- `socks5serverTunnelUpStreamPayload` on a line of kind `kSocks5ServerLineKindControlTcp`: the
line after it, `none` once the line is closed, and what was done. -/
def socks5serverTunnelUpStreamPayload (env : Socks5Env υ) (line : ControlLine υ)
    (buf : List UInt8) : Option (ControlLine υ) × List (UpStreamEvent υ) :=
  if line.ls.phase = .tcpEstablished then (some line, [.nextPayload buf])
  else if line.ls.phase = .connectWaitEst then
    if ((line.pending_up ++ [buf]).map List.length).sum > kSocks5ServerMaxPendingBytes then
      (none, (socks5serverCloseControlLineBidirectional line.ls).2.map .control)
    else (some { line with pending_up := line.pending_up ++ [buf] }, [])
  else if line.ls.phase = .udpControl then (some line, [.reuse buf])
  else if (line.in_stream ++ buf).length > kSocks5ServerMaxHandshakeBytes then
    (none, (socks5serverCloseControlLineBidirectional line.ls).2.map .control)
  else
    let r := socks5serverControlDrainInput env line.ls (line.in_stream ++ buf)
    (r.2.2.map fun rest => { line with ls := r.1, in_stream := rest }, r.2.1.map .control)

/-- `socks5serverOnControlEstablished`: the success reply goes back, and what `in_stream` and
`pending_up` hold goes on to the next tunnel, in that order, on an established line. -/
def socks5serverOnControlEstablished (line : ControlLine υ) :
    Option (ControlLine υ) × List (UpStreamEvent υ) :=
  match socks5serverCreateCommandReply kSocks5ReplySucceeded none with
  | none => (none, (socks5serverCloseControlLineBidirectional line.ls).2.map .control)
  | some reply =>
    (some ⟨{ line.ls with phase := .tcpEstablished, connect_reply_sent := true }, [], []⟩,
      .control (.reply reply) ::
        ((if line.in_stream = [] then [] else [line.in_stream]) ++ line.pending_up).map .nextPayload)

/-- The control lines reached from a fresh one by payloads from the client and the connect being
established. -/
inductive ControlLineReach (env : Socks5Env υ) : ControlLine υ → Prop
  | init : ControlLineReach env (ControlLine.init υ)
  | payload {line line' : ControlLine υ} {out : List (UpStreamEvent υ)} (buf : List UInt8) :
      ControlLineReach env line → socks5serverTunnelUpStreamPayload env line buf = (some line', out) →
      ControlLineReach env line'
  | established {line line' : ControlLine υ} {out : List (UpStreamEvent υ)} :
      ControlLineReach env line → line.ls.phase = .connectWaitEst →
      socks5serverOnControlEstablished line = (some line', out) → ControlLineReach env line'

/-- What a control line keeps buffered: at most `kSocks5ServerMaxHandshakeBytes` handshake bytes,
at most `kSocks5ServerMaxPendingBytes` queued for the next tunnel, and nothing queued outside the
wait for the connect. -/
structure ControlLine.Bounded (line : ControlLine υ) : Prop where
  in_stream_le : line.in_stream.length ≤ kSocks5ServerMaxHandshakeBytes
  pending_le : (line.pending_up.map List.length).sum ≤ kSocks5ServerMaxPendingBytes
  pending_nil : line.ls.phase ≠ .connectWaitEst → line.pending_up = []

/-- Each payload keeps the bounds: the caps close the line rather than buffer past them. -/
theorem ControlLine.Bounded.payload {env : Socks5Env υ} {line line' : ControlLine υ}
    {out : List (UpStreamEvent υ)} (hb : line.Bounded) (buf : List UInt8)
    (h : socks5serverTunnelUpStreamPayload env line buf = (some line', out)) : line'.Bounded := by
  unfold socks5serverTunnelUpStreamPayload at h
  by_cases hest : line.ls.phase = .tcpEstablished
  · simp only [hest, if_true, Prod.mk.injEq, Option.some.injEq] at h
    exact h.1 ▸ hb
  by_cases hwait : line.ls.phase = .connectWaitEst
  · simp only [hwait, if_true, if_false, reduceCtorEq] at h
    split_ifs at h with hcap
    · simp at h
    · simp only [Prod.mk.injEq, Option.some.injEq] at h
      obtain ⟨rfl, -⟩ := h
      exact ⟨hb.in_stream_le, Nat.le_of_not_lt hcap, fun hne => absurd hwait hne⟩
  by_cases hudp : line.ls.phase = .udpControl
  · simp only [hudp, if_true, if_false, reduceCtorEq, Prod.mk.injEq, Option.some.injEq] at h
    exact h.1 ▸ hb
  simp only [hest, hwait, hudp, if_false] at h
  split_ifs at h with hcap
  · simp at h
  -- the handshake branch: the drain leaves a suffix of what it was given
  obtain ⟨rest, hrest, rfl⟩ := Option.map_eq_some_iff.1 (Prod.mk.inj h).1
  have hsuffix := (socks5serverControl env).drain_suffix line.ls _ hrest
  exact ⟨hsuffix.length_le.trans (Nat.le_of_not_lt hcap), hb.pending_le, fun _ => hb.pending_nil hwait⟩

/-- **A control line never buffers past its caps.**  On every line reached from a fresh one by
payloads from the client and the connect being established, `in_stream` holds at most
`kSocks5ServerMaxHandshakeBytes` bytes and `pending_up` at most `kSocks5ServerMaxPendingBytes`,
and `pending_up` is empty except while the connect is in flight. -/
theorem socks5serverTunnelUpStreamPayload_bounded {env : Socks5Env υ} {line : ControlLine υ}
    (r : ControlLineReach env line) : line.Bounded := by
  induction r with
  | init => exact ⟨Nat.zero_le _, Nat.zero_le _, fun _ => rfl⟩
  | payload buf _ h ih => exact ih.payload buf h
  | established _ _ h ih =>
    -- the established line has flushed both buffers
    unfold socks5serverOnControlEstablished at h
    split at h
    · simp at h
    · simp only [Prod.mk.injEq, Option.some.injEq] at h
      obtain ⟨rfl, -⟩ := h
      exact ⟨Nat.zero_le _, Nat.zero_le _, fun _ => rfl⟩

/-- A tunnel that asks for no authentication and allows CONNECT. -/
def noAuthEnv : Socks5Env Unit :=
  ⟨true, true, false, .ipv4 [0, 0, 0, 0] rfl, none, 1080, fun _ _ => none⟩

/-- A greeting offering no authentication, delivered to a fresh line, is read whole: the line
waits for the request with nothing buffered. -/
theorem socks5serverTunnelUpStreamPayload_bounded_greeting :
    ∃ line, ControlLineReach noAuthEnv line ∧ line.ls.phase = .waitRequest ∧ line.Bounded := by
  obtain ⟨s₁, out₁, hstep, hphase⟩ : ∃ s₁ out₁, (socks5serverControl noAuthEnv).step
      (socks5serverLinestateInitialize Unit) [5, 1, 0] = .next s₁ out₁ 3 ∧ s₁.phase = .waitRequest :=
    ⟨_, _, rfl, rfl⟩
  have hdrain : socks5serverControlDrainInput noAuthEnv (socks5serverLinestateInitialize Unit)
      [5, 1, 0] = (s₁, out₁, some []) := by
    rw [socks5serverControlDrainInput, (socks5serverControl noAuthEnv).drain_of_next hstep,
      show List.drop 3 [(5 : UInt8), 1, 0] = [] from rfl,
      (socks5serverControl noAuthEnv).drain_of_wait (socks5serverControlStep_nil noAuthEnv s₁),
      List.append_nil]
  have hpay : socks5serverTunnelUpStreamPayload noAuthEnv (ControlLine.init Unit) [5, 1, 0] =
      (some ⟨s₁, [], []⟩, out₁.map .control) := by
    rw [socks5serverTunnelUpStreamPayload, if_neg (by decide), if_neg (by decide),
      if_neg (by decide), if_neg (by decide)]
    simp only [ControlLine.init, List.nil_append, hdrain, Option.map_some]
  have r := ControlLineReach.payload [5, 1, 0] .init hpay
  exact ⟨_, r, hphase, socks5serverTunnelUpStreamPayload_bounded r⟩

end Socks5
end WaterWall
