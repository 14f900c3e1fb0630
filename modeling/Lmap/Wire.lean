import Lmap.Decoder

/-!
The headers as their senders write them, each with its length field true to its
options.
-/

set_option autoImplicit false

namespace Lmap

abbrev Octets (n : Nat) := { bs : List UInt8 // bs.length = n }

/-- The option bytes that a 4 bit header length can account for. -/
abbrev OptionBytes := { bs : List UInt8 // bs.length % 4 = 0 ∧ bs.length ≤ 40 }

def highByte (x : UInt16) : UInt8 := UInt8.ofNat (x.toNat / 256)

def lowByte (x : UInt16) : UInt8 := UInt8.ofNat (x.toNat % 256)

def be16 (x : UInt16) : List UInt8 := [highByte x, lowByte x]

@[simp] theorem be16_length (x : UInt16) : (be16 x).length = 2 := rfl

@[simp] theorem highByte_toNat (x : UInt16) : (highByte x).toNat = x.toNat / 256 := by
  have hx := x.toNat_lt
  exact UInt8.toNat_ofNat_of_lt' (by simp only [UInt8.size]; omega)

@[simp] theorem lowByte_toNat (x : UInt16) : (lowByte x).toNat = x.toNat % 256 :=
  UInt8.toNat_ofNat_of_lt' (Nat.mod_lt _ (by decide))

@[simp] theorem net16_be16 (x : UInt16) : net16 (highByte x) (lowByte x) = x.toNat := by
  rw [net16, highByte_toNat, lowByte_toNat]
  omega

theorem load16_be16 (h : Host) (x : UInt16) :
    load16 h (highByte x) (lowByte x) = htons h x.toNat := by
  have hx := x.toNat_lt
  rw [load16, htons, swap16, highByte_toNat, lowByte_toNat]
  cases h.bigEndian with
  | true =>
    simp only [if_true]
    omega
  | false =>
    simp only [Bool.false_eq_true, if_false]
    omega

structure EthHeader where
  dha : Octets 6
  sha : Octets 6

def EthHeader.encode (eth : EthHeader) (proto : UInt16) : List UInt8 :=
  eth.dha.val ++ (eth.sha.val ++ be16 proto)

@[simp] theorem EthHeader.encode_length (eth : EthHeader) (proto : UInt16) :
    (eth.encode proto).length = 14 := by simp [encode, eth.dha.property, eth.sha.property]

structure Ip4Header where
  tos : UInt8
  totLen : UInt16
  id : UInt16
  fragOff : UInt16
  ttl : UInt8
  check : UInt16
  saddr : Octets 4
  daddr : Octets 4
  options : OptionBytes

namespace Ip4Header

def ihl (ip : Ip4Header) : Nat := 5 + ip.options.val.length / 4

def encode (ip : Ip4Header) (protocol : UInt8) : List UInt8 :=
  UInt8.ofNat (4 * 16 + ip.ihl) :: ip.tos :: (be16 ip.totLen ++ (be16 ip.id ++ (be16 ip.fragOff ++
    (ip.ttl :: protocol :: (be16 ip.check ++
      (ip.saddr.val ++ (ip.daddr.val ++ ip.options.val)))))))

theorem ihl_le (ip : Ip4Header) : 5 ≤ ip.ihl ∧ ip.ihl ≤ 15 := by
  have := ip.options.property.2
  unfold ihl
  omega

@[simp] theorem encode_length (ip : Ip4Header) (protocol : UInt8) :
    (ip.encode protocol).length = ip.ihl * 4 := by
  have := ip.options.property.1
  simp [encode, ihl, ip.saddr.property, ip.daddr.property]
  omega

end Ip4Header

structure Ip6Header where
  flow : Octets 4
  hopLimit : UInt8
  saddr : Octets 16
  daddr : Octets 16

def Ip6Header.encode (ip : Ip6Header) (payloadLen : UInt16) (nextHdr : UInt8) : List UInt8 :=
  ip.flow.val ++ (be16 payloadLen ++ (nextHdr :: ip.hopLimit :: (ip.saddr.val ++ ip.daddr.val)))

@[simp] theorem Ip6Header.encode_length (ip : Ip6Header) (payloadLen : UInt16) (nextHdr : UInt8) :
    (ip.encode payloadLen nextHdr).length = 40 := by
  simp [encode, ip.flow.property, ip.saddr.property, ip.daddr.property]

structure UdpHeader where
  sport : UInt16
  dport : UInt16
  len : UInt16
  check : UInt16

def UdpHeader.encode (udp : UdpHeader) : List UInt8 :=
  be16 udp.sport ++ (be16 udp.dport ++ (be16 udp.len ++ be16 udp.check))

structure TcpHeader where
  sport : UInt16
  dport : UInt16
  seq : Octets 4
  ackSeq : Octets 4
  x2 : Fin 16
  flags : UInt8
  win : UInt16
  sum : UInt16
  urp : UInt16
  options : OptionBytes

namespace TcpHeader

def off (tcp : TcpHeader) : Nat := 5 + tcp.options.val.length / 4

def encode (tcp : TcpHeader) : List UInt8 :=
  be16 tcp.sport ++ (be16 tcp.dport ++ (tcp.seq.val ++ (tcp.ackSeq.val ++
    (UInt8.ofNat (tcp.off * 16 + tcp.x2) :: tcp.flags :: (be16 tcp.win ++ (be16 tcp.sum ++
      (be16 tcp.urp ++ tcp.options.val)))))))

def Syn (tcp : TcpHeader) : Prop := tcp.flags &&& TH_SYN ≠ 0

instance (tcp : TcpHeader) : Decidable tcp.Syn := inferInstanceAs (Decidable (_ ≠ _))

theorem off_le (tcp : TcpHeader) : 5 ≤ tcp.off ∧ tcp.off ≤ 15 := by
  have := tcp.options.property.2
  unfold off
  omega

theorem options_length (tcp : TcpHeader) : 20 + tcp.options.val.length = tcp.off * 4 := by
  have := tcp.options.property.1
  unfold off
  omega

@[simp] theorem encode_length (tcp : TcpHeader) : tcp.encode.length = tcp.off * 4 := by
  simp [encode, tcp.seq.property, tcp.ackSeq.property, ← tcp.options_length]
  omega

end TcpHeader

inductive Segment where
  | udp (header : UdpHeader)
  | tcp (header : TcpHeader)

namespace Segment

def protocol : Segment → UInt8
  | udp _ => UInt8.ofNat LN_TYPE_UDP
  | tcp _ => UInt8.ofNat LN_TYPE_TCP

def encode : Segment → List UInt8
  | udp header => header.encode
  | tcp header => header.encode

def sport : Segment → UInt16
  | udp header => header.sport
  | tcp header => header.sport

def dport : Segment → UInt16
  | udp header => header.dport
  | tcp header => header.dport

def decoder : Segment → Decoder
  | udp _ => .udp
  | tcp _ => .tcp

def Syn : Segment → Prop
  | udp _ => False
  | tcp header => header.Syn

end Segment

def ip4Frame (eth : EthHeader) (ip : Ip4Header) (protocol : UInt8) (body : List UInt8) :
    List UInt8 :=
  eth.encode (UInt16.ofNat LL_TYPE_IP) ++ (ip.encode protocol ++ body)

def ip6Frame (eth : EthHeader) (ip : Ip6Header) (nextHdr : UInt8) (body : List UInt8) :
    List UInt8 :=
  eth.encode (UInt16.ofNat LL_TYPE_IP6) ++ (ip.encode (UInt16.ofNat body.length) nextHdr ++ body)

inductive TcpOption where
  | nop
  | mss (size : UInt16)
  | wscale (shift : UInt8)
  | sackPermitted
  | timestamp (values : Octets 8)
  | other (kind : UInt8) (data : List UInt8)
      (kind_other : kind ∉ [TCPOPT_EOL, TCPOPT_NOP, TCPOPT_MAXSEG, TCPOPT_WSCALE, TCPOPT_SACKOK,
        TCPOPT_TIMESTAMP])
      (data_lt : data.length + 2 < 256)

def TcpOption.encode : TcpOption → List UInt8
  | nop => [TCPOPT_NOP]
  | mss size => TCPOPT_MAXSEG :: 4 :: be16 size
  | wscale shift => [TCPOPT_WSCALE, 3, shift]
  | sackPermitted => [TCPOPT_SACKOK, 2]
  | timestamp values => TCPOPT_TIMESTAMP :: 10 :: values.val
  | other kind data _ _ => kind :: UInt8.ofNat (data.length + 2) :: data

/-- A list of options that fills its area, or is ended by an end-of-list option before
whatever pads the area. -/
structure OptionArea where
  options : List TcpOption
  padding : List UInt8
  padding_eol : padding = [] ∨ padding.head? = some TCPOPT_EOL

def OptionArea.encode (area : OptionArea) : List UInt8 :=
  area.options.flatMap TcpOption.encode ++ area.padding

def Segment.WellFormed : Segment → Prop
  | udp _ => True
  | tcp header => header.Syn → ∃ area : OptionArea, header.options.val = area.encode

end Lmap
