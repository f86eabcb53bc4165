import WaterWall.Bufio.StreamReader
import WaterWall.Bufio.ShiftBuffer

/-!
# IPv4 packets over a byte stream

PacketsToStream and StreamToPackets carry IPv4 packets over a stream line as a bare
concatenation: the receiver recovers each packet's bounds from its total-length field.  The two
tunnels have the same code under their own prefixes, so it is modelled once here and each
tunnel's function is that model.

* The sender checks a packet with `isForwardableIpv4Packet` before writing it to the stream.
* The receiver calls `tryReadIPv4Packet` until it returns `false`.  It trusts a head that
  `ipv4HeaderLooksValid` accepts, and otherwise re-synchronises with `dropResyncBytes`;
  `tryReadIPv4Packet_refines`: it is the decoder `ipv4Decoder` over the buffered bytes.
* `receive_ipv4Stream`: packets that pass both checks are read back exactly, however the stream is
  cut, being an honest trace of the decoder (`ipv4Decoder_parses`).
* The sender never looks at the header length (IHL): a packet whose IHL is below five passes its
  check and is dropped byte by byte by the receiver (`tryReadIPv4Packet_ihl_zero`).
-/

set_option autoImplicit false

namespace WaterWall
namespace PacketStream

open Incremental

/-! ## Constants -/

/-- `IP_HLEN` (lwIP): an IPv4 header without options. -/
def IP_HLEN : Nat := 20

/-- `kMaxAllowedPacketLength` (`ww/wconfig.h`). -/
def kMaxAllowedPacketLength : Nat := 1500

/-- `kResyncScanWindow`, 256 in both tunnels' `structure.h`. -/
def kResyncScanWindow : Nat := 256

/-! ## The two checks -/

/-- `packetstostreamIpv4HeaderLooksValid` (and `streamtopacketsIpv4HeaderLooksValid`): the declared
total length of a structurally plausible IPv4 head, or `none`.  The C writes `*total_len_out` in
both cases; its callers read it only after a `true`. -/
def ipv4HeaderLooksValid (header : List UInt8) : Option Nat :=
  let version := header.getD 0 0 >>> 4
  let header_len := (header.getD 0 0 &&& 0x0F).toNat * 4
  let total_len := (header.getD 2 0).toNat * 256 + (header.getD 3 0).toNat
  if version = 4 ∧ header_len ≥ IP_HLEN ∧ total_len ≥ header_len ∧
      total_len ≤ kMaxAllowedPacketLength then some total_len
  else none

/-- `packetstostreamIsForwardableIpv4Packet` (and `streamtopacketsIsForwardableIpv4Packet`): a
packet may be written to the stream when its length is within bounds, its version (`IPH_V`) is
four and its total length (`lwip_ntohs(IPH_LEN(iphdr))`) is its length. -/
def isForwardableIpv4Packet (packet : SBuf) : Bool :=
  let len := sbufGetLength packet
  if len < IP_HLEN ∨ len > kMaxAllowedPacketLength then false
  else
    let iphdr := packet.payload
    if iphdr.getD 0 0 >>> 4 ≠ 4 then false
    else (iphdr.getD 2 0).toNat * 256 + (iphdr.getD 3 0).toNat = len % 65536

/-! ## The extractor -/

/-- The scan loop of `DropResyncBytes`: the first offset `i` with `i + IP_HLEN ≤ window` at which a
plausible head starts, or `0`. -/
def resyncScan (scan : List UInt8) (window : Nat) : Nat :=
  ((List.range' 1 (window - IP_HLEN)).find? fun i =>
    (ipv4HeaderLooksValid (scan.drop i)).isSome).getD 0

/-- The scan window of `DropResyncBytes`: what is buffered, but at most `kResyncScanWindow`
bytes. -/
def resyncWindow (buffered : Nat) : Nat :=
  if buffered < kResyncScanWindow then buffered else kResyncScanWindow

/-- How many bytes `DropResyncBytes` drops, given the bytes of its window: those before the next
plausible head, or, when there is none, all of the window but its last `IP_HLEN - 1` bytes. -/
def resyncDropCount (scan : List UInt8) (window : Nat) : Nat :=
  let found := resyncScan scan window
  if found > 0 then found else window - (IP_HLEN - 1)

/-- `packetstostreamDropResyncBytes` (and `streamtopacketsDropResyncBytes`). -/
def dropResyncBytes (stream : BufferStream) : Option BufferStream :=
  let window := resyncWindow (bufferstreamGetBufLen stream)
  (bufferstreamViewBytesAt stream 0 window).bind fun scan =>
    (bufferstreamReadExact stream (resyncDropCount scan window)).map Prod.snd

theorem size_lt_of_dropResyncBytes {stream stream' : BufferStream}
    (h : dropResyncBytes stream = some stream') : stream'.size < stream.size := by
  simp only [dropResyncBytes, Option.bind_eq_some_iff, Option.map_eq_some_iff] at h
  obtain ⟨scan, -, ⟨out, s⟩, hread, hs⟩ := h
  dsimp only at hs
  subst hs
  obtain ⟨hpos, hle, -, hsize⟩ := bufferstreamReadExact_some hread
  omega

/-- `packetstostreamTryReadIPv4Packet` (and `streamtopacketsTryReadIPv4Packet`): take one packet
off the stream, re-synchronising past heads that are not plausible, or return `false` (`none`
here) when no complete packet is buffered. -/
def tryReadIPv4Packet (stream : BufferStream) : Option (Option (List UInt8) × BufferStream) :=
  let buffered := bufferstreamGetBufLen stream
  if buffered < IP_HLEN then some (none, stream)
  else
    match bufferstreamViewBytesAt stream 0 IP_HLEN with
    | none => none
    | some header =>
      match ipv4HeaderLooksValid header with
      | some total_len =>
        if buffered < total_len then some (none, stream)
        else (bufferstreamReadExact stream total_len).map fun r => (some r.1, r.2)
      | none =>
        -- IPv6, garbage or an inconsistent head: re-synchronise and retry
        match hdrop : dropResyncBytes stream with
        | none => none
        | some stream' => tryReadIPv4Packet stream'
termination_by stream.size
decreasing_by exact size_lt_of_dropResyncBytes hdrop

/-! ## The extractor over the buffered bytes -/

theorem ipv4HeaderLooksValid_spec {header : List UInt8} {total_len : Nat}
    (h : ipv4HeaderLooksValid header = some total_len) :
    IP_HLEN ≤ total_len ∧ total_len ≤ kMaxAllowedPacketLength := by
  unfold ipv4HeaderLooksValid at h
  dsimp only at h
  split_ifs at h with hok
  cases h
  omega

theorem ipv4HeaderLooksValid_take (xs : List UInt8) {n : Nat} (hn : 4 ≤ n) :
    ipv4HeaderLooksValid (xs.take n) = ipv4HeaderLooksValid xs := by
  have hget : ∀ i, i < 4 → (xs.take n).getD i 0 = xs.getD i 0 := by
    intro i hi
    simp only [List.getD_eq_getElem?_getD, List.getElem?_take, if_pos (show i < n by omega)]
  simp only [ipv4HeaderLooksValid, hget 0 (by omega), hget 2 (by omega), hget 3 (by omega)]

theorem resyncWindow_le (buffered : Nat) :
    resyncWindow buffered ≤ buffered ∧ resyncWindow buffered ≤ kResyncScanWindow := by
  unfold resyncWindow
  by_cases hb : buffered < kResyncScanWindow
  · rw [if_pos hb]
    omega
  · rw [if_neg hb]
    omega

theorem le_resyncWindow {buffered : Nat} (h : IP_HLEN ≤ buffered) :
    IP_HLEN ≤ resyncWindow buffered := by
  unfold resyncWindow
  by_cases hb : buffered < kResyncScanWindow
  · rw [if_pos hb]
    exact h
  · rw [if_neg hb]
    decide

theorem resyncScan_bound (scan : List UInt8) (window : Nat) :
    resyncScan scan window = 0 ∨ resyncScan scan window + IP_HLEN ≤ window := by
  unfold resyncScan
  cases h : (List.range' 1 (window - IP_HLEN)).find? fun i =>
      (ipv4HeaderLooksValid (scan.drop i)).isSome with
  | none => exact .inl rfl
  | some i =>
    have hi := List.mem_range'_1.mp (List.mem_of_find?_eq_some h)
    exact .inr (by simp only [Option.getD_some]; omega)

/-- Once the window holds a header's worth, a re-synchronisation drops at least one byte of it,
and no more than all of it. -/
theorem resyncDropCount_pos (scan : List UInt8) {window : Nat} (h : IP_HLEN ≤ window) :
    0 < resyncDropCount scan window ∧ resyncDropCount scan window ≤ window := by
  unfold resyncDropCount
  dsimp only
  by_cases hfound : resyncScan scan window > 0
  · -- a plausible head inside the window: drop what is before it
    have hle := (resyncScan_bound scan window).resolve_left (by omega)
    rw [if_pos hfound]
    omega
  · -- none: keep only the last `IP_HLEN - 1` bytes of the window
    rw [if_neg hfound]
    simp only [IP_HLEN] at h ⊢
    omega

/-- What one re-synchronisation drops from the front of the buffered bytes. -/
def resyncDrop (xs : List UInt8) : Nat :=
  resyncDropCount (xs.take (resyncWindow xs.length)) (resyncWindow xs.length)

theorem resyncDrop_pos {xs : List UInt8} (h : IP_HLEN ≤ xs.length) :
    0 < resyncDrop xs ∧ resyncDrop xs ≤ xs.length ∧ resyncDrop xs ≤ kResyncScanWindow := by
  have hw := resyncWindow_le xs.length
  have hd := resyncDropCount_pos (xs.take (resyncWindow xs.length)) (le_resyncWindow h)
  unfold resyncDrop
  omega

/-- The extractor, one step at a time over the buffered bytes: a packet when a plausible head and
the whole packet are buffered, a re-synchronisation (bytes dropped, nothing emitted) when the head
is not plausible, and a wait otherwise. -/
def ipv4Decoder : Decoder Unit UInt8 (List UInt8) where
  step _ xs :=
    if xs.length < IP_HLEN then none
    else
      match ipv4HeaderLooksValid (xs.take IP_HLEN) with
      | some total_len =>
        if xs.length < total_len then none else some ((), [xs.take total_len], total_len)
      | none => some ((), [], resyncDrop xs)
  consumes := by
    intro s xs s' out n h
    split_ifs at h with h20
    split at h
    · rename_i total_len hvalid
      split_ifs at h with hlt
      cases h
      have := (ipv4HeaderLooksValid_spec hvalid).1
      simp only [IP_HLEN] at this
      omega
    · cases h
      have := resyncDrop_pos (show IP_HLEN ≤ xs.length by omega)
      omega

theorem dropResyncBytes_eq {bs : BufferStream} (h : IP_HLEN ≤ bs.size) :
    ∃ bs', dropResyncBytes bs = some bs' ∧ bs'.content = bs.content.drop (resyncDrop bs.content) ∧
      bs'.size < bs.size := by
  have hsize := bs.size_eq_length
  have hw := resyncWindow_le bs.size
  have hw₀ : 0 < resyncWindow bs.size := by
    have := le_resyncWindow h
    simp only [IP_HLEN] at this
    omega
  have hview : bufferstreamViewBytesAt bs 0 (resyncWindow bs.size) =
      some (bs.content.take (resyncWindow bs.content.length)) := by
    rw [bufferstreamViewBytesAt_eq hw₀ (by omega), List.drop_zero, hsize]
  obtain ⟨hpos, hle, hwin⟩ := resyncDrop_pos (hsize ▸ h)
  have hmax : resyncDrop bs.content ≤ UINT32_MAX := by
    simp only [kResyncScanWindow, UINT32_MAX] at hwin ⊢
    omega
  obtain ⟨bs', hread, hc, hs⟩ := bufferstreamReadExact_eq hpos (hsize ▸ hle) hmax
  refine ⟨bs', ?_, hc, by omega⟩
  rw [dropResyncBytes, bufferstreamGetBufLen, hview, Option.bind_some, hsize]
  show (bufferstreamReadExact bs (resyncDrop bs.content)).map Prod.snd = _
  rw [hread]
  rfl

/-! ## The extractor is the decoder -/

theorem tryReadIPv4Packet_of_short {bs : BufferStream} (h : bs.size < IP_HLEN) :
    tryReadIPv4Packet bs = some (none, bs) := by
  rw [tryReadIPv4Packet]
  simp [bufferstreamGetBufLen, h]

/-- The head the extractor looks at is the first `IP_HLEN` buffered bytes. -/
theorem bufferstreamViewBytesAt_header {bs : BufferStream} (h : IP_HLEN ≤ bs.size) :
    bufferstreamViewBytesAt bs 0 IP_HLEN = some (bs.content.take IP_HLEN) := by
  rw [bufferstreamViewBytesAt_eq (by decide) (by omega), List.drop_zero]

/-- On a plausible head the extractor waits for the whole packet, then reads it. -/
theorem tryReadIPv4Packet_of_valid {bs : BufferStream} {total_len : Nat} (h : IP_HLEN ≤ bs.size)
    (hvalid : ipv4HeaderLooksValid (bs.content.take IP_HLEN) = some total_len) :
    tryReadIPv4Packet bs = if bs.size < total_len then some (none, bs)
      else (bufferstreamReadExact bs total_len).map fun r => (some r.1, r.2) := by
  rw [tryReadIPv4Packet]
  simp only [bufferstreamGetBufLen, if_neg (Nat.not_lt_of_le h), bufferstreamViewBytesAt_header h,
    hvalid]
  rfl

/-- Past a head that is not plausible, the extractor re-synchronises and starts over. -/
theorem tryReadIPv4Packet_of_resync {bs bs' : BufferStream} (h : IP_HLEN ≤ bs.size)
    (hvalid : ipv4HeaderLooksValid (bs.content.take IP_HLEN) = none)
    (hdrop : dropResyncBytes bs = some bs') :
    tryReadIPv4Packet bs = tryReadIPv4Packet bs' := by
  rw [tryReadIPv4Packet]
  simp only [bufferstreamGetBufLen, if_neg (Nat.not_lt_of_le h), bufferstreamViewBytesAt_header h,
    hvalid]
  split
  · rename_i hnone
    rw [hdrop] at hnone
    cases hnone
  · rename_i s hs
    rw [hdrop] at hs
    cases hs
    rfl

/-- **One call of the extractor is a run of the decoder**: the re-synchronisations it makes are
the decoder's silent steps, and it stops where the decoder waits or emits a packet. -/
theorem tryReadIPv4Packet_spec (bs : BufferStream) :
    ∃ r bs', tryReadIPv4Packet bs = some (r, bs') ∧
      match r with
      | none => (ipv4Decoder.drain () bs.content).2.1 = [] ∧
          (ipv4Decoder.drain () bs.content).2.2 = bs'.content
      | some x => bs'.size < bs.size ∧
          (ipv4Decoder.drain () bs.content).2.1 = x :: (ipv4Decoder.drain () bs'.content).2.1 ∧
          (ipv4Decoder.drain () bs.content).2.2 = (ipv4Decoder.drain () bs'.content).2.2 := by
  induction h : bs.size using Nat.strong_induction_on generalizing bs with
  | _ n ih =>
    have hsize := bs.size_eq_length
    by_cases h20 : bs.size < IP_HLEN
    · -- not even a header: the decoder waits
      have hstep : ipv4Decoder.step () bs.content = none := by
        simp [ipv4Decoder, ← hsize, h20]
      refine ⟨none, bs, tryReadIPv4Packet_of_short h20, ?_, ?_⟩ <;>
        rw [Decoder.drain_of_step_none _ hstep]
    have h20' := Nat.le_of_not_lt h20
    cases hvalid : ipv4HeaderLooksValid (bs.content.take IP_HLEN) with
    | some total_len =>
      obtain ⟨htotal, hmax⟩ := ipv4HeaderLooksValid_spec hvalid
      by_cases hlt : bs.size < total_len
      · -- a plausible head whose packet is not all there: the decoder waits
        have hstep : ipv4Decoder.step () bs.content = none := by
          simp [ipv4Decoder, ← hsize, h20, hvalid, hlt]
        refine ⟨none, bs, by rw [tryReadIPv4Packet_of_valid h20' hvalid, if_pos hlt], ?_, ?_⟩
        all_goals rw [Decoder.drain_of_step_none _ hstep]
      · -- a whole packet: both take it
        have hstep : ipv4Decoder.step () bs.content =
            some ((), [bs.content.take total_len], total_len) := by
          simp [ipv4Decoder, ← hsize, h20, hvalid, hlt]
        have hpos : 0 < total_len := by
          simp only [IP_HLEN] at htotal
          omega
        have hle : total_len ≤ bs.size := Nat.le_of_not_lt hlt
        have hmax' : total_len ≤ UINT32_MAX := by
          simp only [kMaxAllowedPacketLength, UINT32_MAX] at hmax ⊢
          omega
        obtain ⟨bs', hread, hc, hs⟩ := bufferstreamReadExact_eq hpos hle hmax'
        refine ⟨some (bs.content.take total_len), bs', ?_, by omega, ?_, ?_⟩
        · rw [tryReadIPv4Packet_of_valid h20' hvalid, if_neg hlt, hread]
          rfl
        · rw [Decoder.drain_of_step_some _ hstep, hc]
          rfl
        · rw [Decoder.drain_of_step_some _ hstep, hc]
    | none =>
      -- re-synchronise: a silent step of the decoder, and the same call on a shorter stream
      obtain ⟨bs₁, hdrop, hc₁, hlt₁⟩ := dropResyncBytes_eq h20'
      have hstep : ipv4Decoder.step () bs.content = some ((), [], resyncDrop bs.content) := by
        simp [ipv4Decoder, ← hsize, h20, hvalid]
      have hdrain : ipv4Decoder.drain () bs.content = ipv4Decoder.drain () bs₁.content := by
        rw [Decoder.drain_of_step_silent _ hstep, hc₁]
      obtain ⟨r, bs', hread, hr⟩ := ih bs₁.size (h ▸ hlt₁) bs₁ rfl
      refine ⟨r, bs', by rw [tryReadIPv4Packet_of_resync h20' hvalid hdrop, hread], ?_⟩
      rw [hdrain]
      cases r with
      | none => exact hr
      | some x => exact ⟨by omega, hr.2⟩

theorem size_lt_of_tryReadIPv4Packet {bs bs' : BufferStream} {x : List UInt8}
    (h : tryReadIPv4Packet bs = some (some x, bs')) : bs'.size < bs.size := by
  obtain ⟨r, bs'', hread, hr⟩ := tryReadIPv4Packet_spec bs
  rw [h] at hread
  cases hread
  exact hr.1

/-- The extractor, as the reader of the receive loop. -/
def ipv4Reader : StreamReader (List UInt8) where
  read := tryReadIPv4Packet
  shrinks := size_lt_of_tryReadIPv4Packet

theorem tryReadIPv4Packet_refines : ipv4Reader.Refines ipv4Decoder := by
  intro bs
  obtain ⟨r, bs', hread, hr⟩ := tryReadIPv4Packet_spec bs
  refine ⟨r, bs', hread, ?_⟩
  cases r with
  | none => exact hr
  | some x => exact hr.2

/-! ## Packets that pass both checks -/

/-- A packet the receiver reads back as it is: its head is plausible and declares the packet's own
length. -/
def Ipv4Framable (p : List UInt8) : Prop := ipv4HeaderLooksValid p = some p.length

theorem ipv4HeaderLooksValid_eq {header : List UInt8} {total_len : Nat}
    (h : ipv4HeaderLooksValid header = some total_len) :
    total_len = (header.getD 2 0).toNat * 256 + (header.getD 3 0).toNat := by
  unfold ipv4HeaderLooksValid at h
  dsimp only at h
  split_ifs at h
  cases h
  rfl

/-- What the sender's check promises about the bytes it forwards. -/
theorem isForwardableIpv4Packet_spec {packet : SBuf} (h : isForwardableIpv4Packet packet = true) :
    IP_HLEN ≤ packet.payload.length ∧ packet.payload.length ≤ kMaxAllowedPacketLength ∧
      (packet.payload.getD 2 0).toNat * 256 + (packet.payload.getD 3 0).toNat =
        packet.payload.length := by
  unfold isForwardableIpv4Packet at h
  simp only [sbufGetLength, ← SBuf.length_payload] at h
  split_ifs at h with hlen hv
  have hmod : packet.payload.length % 65536 = packet.payload.length := by
    simp only [IP_HLEN, kMaxAllowedPacketLength] at hlen
    omega
  refine ⟨by omega, by omega, ?_⟩
  rw [← hmod]
  simpa using h

/-- A packet both checks accept is read back as it is. -/
theorem ipv4Framable_of_checks {packet : SBuf} (hfwd : isForwardableIpv4Packet packet = true)
    (hvalid : (ipv4HeaderLooksValid packet.payload).isSome) : Ipv4Framable packet.payload := by
  obtain ⟨total_len, htotal⟩ := Option.isSome_iff_exists.mp hvalid
  have hlen := (isForwardableIpv4Packet_spec hfwd).2.2
  rw [Ipv4Framable, htotal, ipv4HeaderLooksValid_eq htotal, hlen]

/-- A framable packet is taken whole, whatever follows it. -/
theorem ipv4Decoder_step_framable {p : List UInt8} (hp : Ipv4Framable p) (ys : List UInt8) :
    ipv4Decoder.step () (p ++ ys) = some ((), [p], p.length) := by
  have hlen := (ipv4HeaderLooksValid_spec hp).1
  have hhead : ipv4HeaderLooksValid ((p ++ ys).take IP_HLEN) = some p.length := by
    rw [ipv4HeaderLooksValid_take _ (by decide), ← ipv4HeaderLooksValid_take _ (show 4 ≤ p.length
      by simp only [IP_HLEN] at hlen; omega), List.take_left' rfl]
    exact hp
  have h20 : ¬p.length + ys.length < IP_HLEN := by omega
  simp [ipv4Decoder, h20, hhead]

/-- While only part of a framable packet is buffered, the decoder waits. -/
theorem ipv4Decoder_step_prefix {p q : List UInt8} (hp : Ipv4Framable p) (hq : q <+: p)
    (hlt : q.length < p.length) : ipv4Decoder.step () q = none := by
  by_cases h20 : q.length < IP_HLEN
  · simp [ipv4Decoder, h20]
  -- the head is all there, and declares more than is buffered
  have hhead : ipv4HeaderLooksValid (q.take IP_HLEN) = some p.length := by
    rw [ipv4HeaderLooksValid_take _ (by decide), List.prefix_iff_eq_take.mp hq,
      ipv4HeaderLooksValid_take _ (by simp only [IP_HLEN] at h20; omega)]
    exact hp
  simp [ipv4Decoder, h20, hhead, hlt]

/-- **Framable packets are an honest trace**: written back to back, each is one step of the
decoder. -/
theorem ipv4Decoder_parses (packets : List (List UInt8)) (h : ∀ p ∈ packets, Ipv4Framable p) :
    ipv4Decoder.Parses () (packets.map fun p => (p, [p])) () := by
  induction packets with
  | nil => exact Decoder.Parses.nil ()
  | cons p packets ih =>
    have hp := h p List.mem_cons_self
    exact Decoder.Parses.cons (ipv4Decoder_step_framable hp)
      (fun q hq hlt => ipv4Decoder_step_prefix hp hq hlt)
      (ih fun p' hp' => h p' (List.mem_cons_of_mem p hp'))

/-- **Packets that both checks accept are read back exactly**, however the concatenation is cut
into deliveries, and nothing is left in the stream. -/
theorem receive_ipv4Stream {packets : List SBuf}
    (hchecks : ∀ b ∈ packets,
      isForwardableIpv4Packet b = true ∧ (ipv4HeaderLooksValid b.payload).isSome)
    (cs : List (List UInt8)) (hcs : cs.flatten = (packets.map SBuf.payload).flatten)
    (hmax : cs.flatten.length ≤ UINT32_MAX) :
    ∃ bs, ipv4Reader.receive bufferstreamCreate cs = some (packets.map SBuf.payload, bs) ∧
      bs.content = [] := by
  have hframable : ∀ p ∈ packets.map SBuf.payload, Ipv4Framable p := by
    intro p hp
    obtain ⟨b, hb, rfl⟩ := List.mem_map.mp hp
    exact ipv4Framable_of_checks (hchecks b hb).1 (hchecks b hb).2
  have hparses := ipv4Decoder_parses _ hframable
  have hinput := Decoder.input_map (fun p => p) (fun p => [p]) (packets.map SBuf.payload)
  have houtput := Decoder.output_map_singleton (fun p => p) (fun p => p) (packets.map SBuf.payload)
  rw [List.map_id'] at hinput houtput
  have hfeed := Decoder.feed_of_parses hparses (hcs.trans hinput.symm)
  obtain ⟨bs, hrecv, hc⟩ := StreamReader.receive_eq tryReadIPv4Packet_refines cs bufferstreamCreate
    (by simpa [bufferstreamCreate] using hmax)
  rw [content_bufferstreamCreate, hfeed, houtput] at hrecv hc
  exact ⟨bs, hrecv, hc⟩

/-! ## The two tunnels -/

def packetstostreamIsForwardableIpv4Packet (packet : SBuf) : Bool :=
  isForwardableIpv4Packet packet

def streamtopacketsIsForwardableIpv4Packet (packet : SBuf) : Bool :=
  isForwardableIpv4Packet packet

def packetstostreamTryReadIPv4Packet (stream : BufferStream) :
    Option (Option (List UInt8) × BufferStream) :=
  tryReadIPv4Packet stream

def streamtopacketsTryReadIPv4Packet (stream : BufferStream) :
    Option (Option (List UInt8) × BufferStream) :=
  tryReadIPv4Packet stream

/-- Twenty bytes that start like an IPv4 header of version four, IHL zero and total length
twenty. -/
def ihlZeroPacket : List UInt8 := [0x40, 0, 0, 20] ++ List.replicate 16 0

/-- **A packet the sender forwards and the receiver cannot frame.**  `IsForwardableIpv4Packet`
accepts `ihlZeroPacket`, whose version is four and whose total length is its length; but the
receiver's head check wants an IHL of at least five, so `TryReadIPv4Packet` re-synchronises,
drops the first byte and returns `false` with the other nineteen still buffered.  The packet is
never read back, and its remains are read as the head of whatever the sender forwards next. -/
theorem tryReadIPv4Packet_ihl_zero :
    packetstostreamIsForwardableIpv4Packet (SBuf.ofPayload 0 ihlZeroPacket) = true ∧
      streamtopacketsIsForwardableIpv4Packet (SBuf.ofPayload 0 ihlZeroPacket) = true ∧
      ∃ bs, packetstostreamTryReadIPv4Packet (BufferStream.ofList ihlZeroPacket) = some (none, bs) ∧
        streamtopacketsTryReadIPv4Packet (BufferStream.ofList ihlZeroPacket) = some (none, bs) ∧
        bs.content = ihlZeroPacket.drop 1 := by
  have hfwd : isForwardableIpv4Packet (SBuf.ofPayload 0 ihlZeroPacket) = true := by decide
  have hsize : IP_HLEN ≤ (BufferStream.ofList ihlZeroPacket).size := by decide
  -- the head is rejected, and the scan window holds no other head: one byte is dropped
  have hvalid : ipv4HeaderLooksValid
      ((BufferStream.ofList ihlZeroPacket).content.take IP_HLEN) = none := by decide
  have hdrop : resyncDrop (BufferStream.ofList ihlZeroPacket).content = 1 := by decide
  obtain ⟨bs, hresync, hc, -⟩ := dropResyncBytes_eq hsize
  rw [hdrop, BufferStream.content_ofList] at hc
  have hshort : bs.size < IP_HLEN := by
    rw [bs.size_eq_length, hc]
    decide
  have hread : tryReadIPv4Packet (BufferStream.ofList ihlZeroPacket) = some (none, bs) := by
    rw [tryReadIPv4Packet_of_resync hsize hvalid hresync, tryReadIPv4Packet_of_short hshort]
  exact ⟨hfwd, hfwd, bs, hread, hread, hc⟩

end PacketStream
end WaterWall
