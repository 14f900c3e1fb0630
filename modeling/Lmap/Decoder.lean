import Lmap.Bucket
import Lmap.DecoderTable
import Lmap.Library.Loop

/-!
The decoders, one for each header the program knows. All addresses are offsets
from the first captured byte, except in the end pointer of the TCP options,
which the code computes through an `int`.
-/

set_option autoImplicit false

namespace Lmap

/-- What a decoder reads besides its arguments: the host, the address at which
the capture library put the packet, the bytes from there on, and the table. -/
structure Env where
  host : Host
  addr : Nat
  mem : Memory
  table : List DecEntry

structure World where
  stats : Stats
  bucket : Bucket
  deriving DecidableEq, Repr

/-- The pointer a decoder returns, `*len`, and the state it leaves. -/
structure Ret where
  next : Option Decoder
  len : Nat
  world : World
  deriving DecidableEq, Repr

def IP_DF : Nat := 0x4000
def IP6_HDR_LEN : Nat := 40

def TH_SYN : UInt8 := 0x02
def TH_ACK : UInt8 := 0x10

def TCPOPT_EOL : UInt8 := 0
def TCPOPT_NOP : UInt8 := 1
def TCPOPT_MAXSEG : UInt8 := 2
def TCPOPT_WSCALE : UInt8 := 3
def TCPOPT_SACKOK : UInt8 := 4
def TCPOPT_TIMESTAMP : UInt8 := 8

/-- `ihl:4; version:4`, the other way round under `WORDS_BIGENDIAN`. -/
def ipIhl (h : Host) (b : UInt8) : Nat := if h.bigEndian then secondField h b else firstField h b

/-- `x2:4; off:4`, the other way round under `WORDS_BIGENDIAN`. -/
def tcpOff (h : Host) (b : UInt8) : Nat := if h.bigEndian then firstField h b else secondField h b

@[simp] theorem ipIhl_eq (h : Host) (b : UInt8) : ipIhl h b = b.toNat % 16 := by
  unfold ipIhl firstField secondField
  cases h.bigEndian <;> rfl

@[simp] theorem tcpOff_eq (h : Host) (b : UInt8) : tcpOff h b = b.toNat / 16 := by
  unfold tcpOff firstField secondField
  cases h.bigEndian <;> rfl

def decodeEth (e : Env) (buf _buflen : Nat) (w : World) : Except Fault Ret := do
  let stats := updateStat w.stats "TOTAL" 1
  let sha ← readBytes e.mem (buf + 6) ETH_ADDR_LEN
  let dha ← readBytes e.mem buf ETH_ADDR_LEN
  let proto ← readU16 e.host e.mem (buf + 12)
  let L2 := { w.bucket.L2 with macSrc := sha, macDst := dha }
  pure ⟨getDecoder e.table NET_LAYER (ntohs e.host proto), 14, stats, { w.bucket with L2 := L2 }⟩

def WIFI_DATA : Nat := 0x0802
def WIFI_BACON : Nat := 0x0800

def decodeWifi (e : Env) (buf buflen : Nat) (w : World) : Except Fault Ret := do
  let stats := updateStat w.stats "TOTAL" 1
  let sha ← readBytes e.mem (buf + 10) ETH_ADDR_LEN
  let dha ← readBytes e.mem (buf + 4) ETH_ADDR_LEN
  let L2 := { w.bucket.L2 with macSrc := sha, macDst := dha }
  let w : World := ⟨stats, { w.bucket with L2 := L2 }⟩
  let type ← readU16 e.host e.mem buf
  if ntohs e.host type = WIFI_DATA then do
    let llType ← readU16 e.host e.mem (buf + 24 + 6)
    pure ⟨getDecoder e.table NET_LAYER (ntohs e.host llType), 24 + 8, w⟩
  else if ntohs e.host type = WIFI_BACON then
    pure ⟨none, buflen, w⟩
  else
    pure ⟨none, 24, w⟩

/-- The two addresses of `struct arp_eth_header`. The same struct is laid over the
longer addresses, so these overlap. -/
def arpAddrs (e : Env) (earp : Nat) (type : Int) (L3 : L3Info) : Except Fault L3Info := do
  let (ipSrc, _) ← ipAddrInit e.mem L3.ipSrc type (earp + 6)
  let (ipDst, _) ← ipAddrInit e.mem L3.ipDst type (earp + 16)
  pure { L3 with ipSrc := ipSrc, ipDst := ipDst }

def decodeArp (e : Env) (buf _buflen : Nat) (w : World) : Except Fault Ret := do
  let stats := updateStat w.stats "ARP" 1
  let hln ← readU8 e.mem (buf + 4)
  let pln ← readU8 e.mem (buf + 5)
  let L3 := { w.bucket.L3 with proto := htons e.host LL_TYPE_ARP, ttl := 1 }
  let L3 ← (if hln.toNat = ETH_ADDR_LEN ∧ pln.toNat = IP_ADDR_LEN then
      arpAddrs e (buf + 8) AF_INET L3
    else .ok L3)
  let L3 ← (if hln.toNat = ETH_ADDR_LEN ∧ pln.toNat = IP6_ADDR_LEN then
      arpAddrs e (buf + 8) AF_INET6 L3
    else .ok L3)
  pure ⟨none, 8 + 2 * (hln.toNat + pln.toNat), stats, { w.bucket with L3 := L3 }⟩

/-- What the IP header contributes to the fingerprint of a TCP segment. -/
def ipFinger (e : Env) (buf : Nat) (ttl : UInt8) (ihl : Nat) : Except Fault Finger := do
  let f ← fingerprintPush (some fingerprintAlloc) .ttl ttl.toNat
  let fragOff ← readU16 e.host e.mem (buf + 6)
  let f ← fingerprintPush (some f) .df ((ntohs e.host fragOff &&& IP_DF : Nat) : Int)
  fingerprintPush (some f) .lt ((ihl * 4 : Nat) : Int)

def decodeIp (e : Env) (buf _buflen : Nat) (w : World) : Except Fault Ret := do
  let stats := updateStat w.stats "IP" 1
  let ihl := ipIhl e.host (← readU8 e.mem buf)
  let (ipSrc, _) ← ipAddrInit e.mem w.bucket.L3.ipSrc AF_INET (buf + 12)
  let (ipDst, _) ← ipAddrInit e.mem w.bucket.L3.ipDst AF_INET (buf + 16)
  let ttl ← readU8 e.mem (buf + 8)
  let L3 : L3Info := ⟨ipSrc, ipDst, htons e.host LL_TYPE_IP, ttl⟩
  let protocol ← readU8 e.mem (buf + 9)
  let finger ← (if protocol.toNat = LN_TYPE_TCP then (ipFinger e buf ttl ihl).map some
    else .ok w.bucket.L4.fingerprint)
  let L4 := { w.bucket.L4 with fingerprint := finger }
  pure ⟨getDecoder e.table PROTO_LAYER protocol.toNat, ihl * 4, stats,
    { w.bucket with L3 := L3, L4 := L4 }⟩

/-- The switch on the extension headers only prints, and the lookup of a decoder
for them is commented out in the source. -/
def decodeIp6 (e : Env) (buf _buflen : Nat) (w : World) : Except Fault Ret := do
  let stats := updateStat w.stats "IP" 1
  -- the length is taken as the host loads it
  let payloadLen ← readU16 e.host e.mem (buf + 4)
  let len := if payloadLen = 0 then 0 else payloadLen + IP6_HDR_LEN
  let (ipSrc, _) ← ipAddrInit e.mem w.bucket.L3.ipSrc AF_INET6 (buf + 8)
  let (ipDst, _) ← ipAddrInit e.mem w.bucket.L3.ipDst AF_INET6 (buf + 24)
  let hopLimit ← readU8 e.mem (buf + 7)
  let L3 : L3Info := ⟨ipSrc, ipDst, htons e.host LL_TYPE_IP6, hopLimit⟩
  let nextHdr ← readU8 e.mem (buf + 6)
  pure ⟨getDecoder e.table PROTO_LAYER nextHdr.toNat, len, stats, { w.bucket with L3 := L3 }⟩

def decodeIcmp (e : Env) (buf _buflen : Nat) (w : World) : Except Fault Ret := do
  let stats := updateStat w.stats "ICMP" 1
  let _type ← readU8 e.mem buf
  pure ⟨none, 8, stats, w.bucket⟩

def decodeIcmp6 (e : Env) (buf _buflen : Nat) (w : World) : Except Fault Ret := do
  let stats := updateStat w.stats "ICMP" 1
  let _type ← readU8 e.mem buf
  pure ⟨none, 8, stats, w.bucket⟩

def decodeUdp (e : Env) (buf _buflen : Nat) (w : World) : Except Fault Ret := do
  let stats := updateStat w.stats "UDP" 1
  let sport ← readU16 e.host e.mem buf
  let dport ← readU16 e.host e.mem (buf + 2)
  let L4 := { w.bucket.L4 with portSrc := sport, portDst := dport, proto := LN_TYPE_UDP }
  pure ⟨getDecoder e.table APP_LAYER (ntohs e.host dport), 8, stats, { w.bucket with L4 := L4 }⟩

/-- `(u_char *)((int)tcp + tcp->off * 4)`, as an offset: the address goes through an
`int`, and what lies below the packet counts as its start. -/
def optEnd (e : Env) (tcp off : Nat) : Nat :=
  (int32 (int32 ((e.addr + tcp : Nat) : Int) + (off * 4 : Nat)) % 2 ^ e.host.ptrBits).toNat - e.addr

structure Walk where
  optStart : Nat
  finger : Option Finger
  deriving DecidableEq, Repr

def optSwitch (h : Host) (m : Memory) (optEnd : Nat) (w : Walk) : Except Fault Walk := do
  let kind ← readU8 m w.optStart
  if kind = TCPOPT_EOL then
    pure { w with optStart := optEnd }
  else if kind = TCPOPT_NOP then do
    let f ← fingerprintPush w.finger .nop 1
    pure ⟨w.optStart + 1, some f⟩
  else if kind = TCPOPT_SACKOK then do
    let f ← fingerprintPush w.finger .sack 1
    pure ⟨w.optStart + 2, some f⟩
  else if kind = TCPOPT_MAXSEG then do
    let a ← readU8 m (w.optStart + 2)
    let b ← readU8 m (w.optStart + 3)
    let f ← fingerprintPush w.finger .mss (ntohs h (ptohs h a b))
    pure ⟨w.optStart + 2 + 2, some f⟩
  else if kind = TCPOPT_WSCALE then do
    let b ← readU8 m (w.optStart + 2)
    let f ← fingerprintPush w.finger .ws b.toNat
    pure ⟨w.optStart + 2 + 1, some f⟩
  else if kind = TCPOPT_TIMESTAMP then do
    let f ← fingerprintPush w.finger .timestamp 1
    let len ← readU8 m (w.optStart + 1)
    pure ⟨w.optStart + 1 + len.toNat - 1, some f⟩
  else do
    let len ← readU8 m (w.optStart + 1)
    pure { w with optStart := w.optStart + 1 + len.toNat - 1 }

def optBody (h : Host) (m : Memory) (optEnd : Nat) (w : Walk) :
    Loop.Step Walk (Except Fault (Option Finger)) :=
  if w.optStart < optEnd then
    match optSwitch h m optEnd w with
    | .ok w => .again w
    | .error f => .leave (.error f)
  else .leave (.ok w.finger)

/-- The option loop. No amount of fuel beyond this one changes the answer, so
running out of it means that the loop never ends. -/
def optLoop (h : Host) (m : Memory) (optStart optEnd : Nat) (finger : Option Finger) :
    Except Fault (Option Finger) :=
  match Loop.run (optBody h m optEnd) (optEnd - optStart + 1) ⟨optStart, finger⟩ with
  | some r => r
  | none => .error .hang

/-- The completion of the fingerprint for a SYN or SYN+ACK. -/
def tcpSyn (e : Env) (buf off : Nat) (flags : UInt8) (finger : Option Finger) :
    Except Fault (Option Finger) := do
  let win ← readU16 e.host e.mem (buf + 14)
  let f ← fingerprintPush finger .window (ntohs e.host win)
  let f ← fingerprintPush (some f) .tcpflag (if flags &&& TH_ACK ≠ 0 then 1 else 0)
  -- this is added to the length of the IP header
  let f ← fingerprintPush (some f) .lt ((off * 4 : Nat) : Int)
  optLoop e.host e.mem (buf + 20) (optEnd e buf off) (some f)

def decodeTcp (e : Env) (buf _buflen : Nat) (w : World) : Except Fault Ret := do
  let stats := updateStat w.stats "TCP" 1
  let off := tcpOff e.host (← readU8 e.mem (buf + 12))
  let sport ← readU16 e.host e.mem buf
  let dport ← readU16 e.host e.mem (buf + 2)
  let flags ← readU8 e.mem (buf + 13)
  let finger ← (if flags &&& TH_SYN ≠ 0 then tcpSyn e buf off flags w.bucket.L4.fingerprint
    else .ok none)
  let L4 : L4Info := ⟨sport, dport, LN_TYPE_TCP, finger⟩
  pure ⟨getDecoder e.table APP_LAYER (ntohs e.host dport), off * 4, stats,
    { w.bucket with L4 := L4 }⟩

def decodeDhcpd (_e : Env) (_buf _buflen : Nat) (w : World) : Except Fault Ret :=
  .ok ⟨none, 0, w⟩

def decodeDhcpc (_e : Env) (_buf _buflen : Nat) (w : World) : Except Fault Ret :=
  .ok ⟨none, 0, w⟩

def Decoder.call : Decoder → Env → Nat → Nat → World → Except Fault Ret
  | .arp => decodeArp
  | .dhcpd => decodeDhcpd
  | .dhcpc => decodeDhcpc
  | .eth => decodeEth
  | .icmp => decodeIcmp
  | .icmp6 => decodeIcmp6
  | .ip => decodeIp
  | .ip6 => decodeIp6
  | .tcp => decodeTcp
  | .udp => decodeUdp
  | .wifi => decodeWifi

end Lmap
