import Lmap.Outcome
import Lmap.Wire

/-!
What the decoders make of headers as their senders write them, and how far a frame
is carried by the chain.
-/

set_option autoImplicit false

namespace Lmap

variable {e : Env} {caplen p n : Nat} {w : World} {d : Decoder} {r : Ret}

theorem more_of_lt (hlt : p < caplen) (hcap : caplen < 2 ^ 31) : More caplen p := by
  rw [More, int32_of_range (by omega) (by omega)]
  omega

theorem not_more_of_le (hle : caplen ≤ p) (hp : p < 2 ^ 31) : ¬ More caplen p := by
  rw [More, int32_of_range (by omega) (by omega)]
  omega

theorem decodeEth_encode (he : e.Registered) {eth : EthHeader} {proto : UInt16}
    (hm : e.mem.Holds p (eth.encode proto)) :
    decodeEth e p n w = .ok ⟨netDecoder proto.toNat, 14, updateStat w.stats "TOTAL" 1,
      { w.bucket with
        L2 := { w.bucket.L2 with macSrc := eth.sha.val, macDst := eth.dha.val } }⟩ :=
  (decodeEth_ok_iff he).mpr ⟨eth.dha.val, eth.sha.val, _, _, eth.dha.property, eth.sha.property,
    hm, by rw [net16_be16]⟩

def IpAddr.inet (addr : Octets 4) : IpAddr := ⟨AF_INET, 4, addr.val ++ List.replicate 12 0⟩

def Ip4Header.fields (ip : Ip4Header) : FingerFields := ipFields ip.ttl ip.fragOff.toNat ip.ihl

def Ip4Header.fill (h : Host) (ip : Ip4Header) (protocol : UInt8) (b : Bucket) : Bucket :=
  { b with
    L3 := ⟨⟨AF_INET, 4, ip.saddr.val ++ b.L3.ipSrc.addr.drop 4⟩,
      ⟨AF_INET, 4, ip.daddr.val ++ b.L3.ipDst.addr.drop 4⟩, htons h LL_TYPE_IP, ip.ttl⟩
    L4 := { b.L4 with fingerprint := if protocol.toNat = LN_TYPE_TCP then some ip.fields.buffer
      else b.L4.fingerprint } }

theorem Ip4Header.first_mod (ip : Ip4Header) :
    (UInt8.ofNat (4 * 16 + ip.ihl)).toNat % 16 = ip.ihl := by
  have := ip.ihl_le
  rw [UInt8.toNat_ofNat_of_lt' (by simp only [UInt8.size]; omega)]
  omega

theorem decodeIp_encode (he : e.Registered) {ip : Ip4Header} {protocol : UInt8}
    (hm : e.mem.Holds p (ip.encode protocol)) :
    decodeIp e p n w = .ok ⟨protoDecoder protocol.toNat, ip.ihl * 4, updateStat w.stats "IP" 1,
      ip.fill e.host protocol w.bucket⟩ := by
  simp only [Ip4Header.encode, Memory.holds_cons, Memory.holds_append, be16_length,
    ip.saddr.property] at hm
  obtain ⟨h0, -, -, -, hfrag, httl, hproto, -, hsaddr, hdaddr, -⟩ := hm
  refine (decodeIp_ok_iff he).mpr ⟨_, ip.ttl, protocol, ip.saddr.val, ip.daddr.val,
    (if protocol.toNat = LN_TYPE_TCP then some ip.fields.buffer
      else w.bucket.L4.fingerprint), h0, ⟨httl, hproto, trivial⟩, ip.saddr.property,
    ip.daddr.property, ?_, ?_, ?_⟩
  · rw [Memory.holds_append, ip.saddr.property]
    exact ⟨hsaddr, hdaddr⟩
  · split
    · refine ⟨_, _, hfrag, ?_⟩
      rw [ip.first_mod, net16_be16, Ip4Header.fields]
    · rfl
  · rw [ip.first_mod]
    rfl

theorem decodeIp6_encode (he : e.Registered) {ip : Ip6Header} {payloadLen : UInt16}
    {nextHdr : UInt8} (hm : e.mem.Holds p (ip.encode payloadLen nextHdr)) :
    ∃ r, decodeIp6 e p n w = .ok r ∧ r.next = protoDecoder nextHdr.toNat ∧
      r.len = ip6Len e.host (highByte payloadLen) (lowByte payloadLen) ∧
      r.world.stats = updateStat w.stats "IP" 1 ∧ r.world.bucket.L4 = w.bucket.L4 := by
  simp only [Ip6Header.encode, Memory.holds_cons, Memory.holds_append, be16_length,
    ip.flow.property] at hm
  obtain ⟨-, hlen, hnext, hhop, haddrs⟩ := hm
  refine ⟨_, (decodeIp6_ok_iff he).mpr ⟨_, _, nextHdr, ip.hopLimit, ip.saddr.val, ip.daddr.val,
    ?_, ip.saddr.property, ip.daddr.property, ?_, rfl⟩, rfl, rfl, rfl, rfl⟩
  · rw [be16, Memory.holds_cons, Memory.holds_cons] at hlen
    exact ⟨hlen.1, hlen.2.1, hnext, hhop, trivial⟩
  · rw [Memory.holds_append, ip.saddr.property]
    rw [ip.saddr.property] at haddrs
    exact haddrs

theorem decodeUdp_encode (he : e.Registered) {udp : UdpHeader}
    (hm : e.mem.Holds p udp.encode) :
    decodeUdp e p n w = .ok ⟨appDecoder udp.dport.toNat, 8, updateStat w.stats "UDP" 1,
      { w.bucket with L4 := { w.bucket.L4 with
        portSrc := htons e.host udp.sport.toNat, portDst := htons e.host udp.dport.toNat,
        proto := LN_TYPE_UDP } }⟩ := by
  simp only [UdpHeader.encode, Memory.holds_append, be16_length] at hm
  obtain ⟨hsport, hdport, -⟩ := hm
  refine (decodeUdp_ok_iff he).mpr ⟨_, _, _, _, ⟨hsport.1, hsport.2.1, hdport⟩, ?_⟩
  rw [net16_be16, load16_be16, load16_be16]

theorem TcpHeader.holds_encode {m : Memory} (tcp : TcpHeader) (hm : m.Holds p tcp.encode) :
    m.Holds p [highByte tcp.sport, lowByte tcp.sport, highByte tcp.dport, lowByte tcp.dport] ∧
      m.Holds (p + 12) [UInt8.ofNat (tcp.off * 16 + tcp.x2), tcp.flags, highByte tcp.win,
        lowByte tcp.win] ∧ m.Holds (p + 20) tcp.options.val := by
  simp only [encode, be16, Memory.holds_append, Memory.holds_cons, Memory.holds_nil,
    tcp.seq.property, tcp.ackSeq.property, List.length_cons, List.length_nil] at hm
  obtain ⟨hsport, hdport, -, -, hoff, hflags, hwin, -, -, hopts⟩ := hm
  exact ⟨⟨hsport.1, hsport.2.1, hdport.1, hdport.2⟩, ⟨hoff, hflags, hwin.1, hwin.2.1, trivial⟩,
    hopts⟩

theorem TcpHeader.offByte_div (tcp : TcpHeader) :
    (UInt8.ofNat (tcp.off * 16 + tcp.x2)).toNat / 16 = tcp.off := by
  have hoff := tcp.off_le
  have hx2 := tcp.x2.isLt
  rw [UInt8.toNat_ofNat_of_lt' (by simp only [UInt8.size]; omega)]
  omega

theorem decodeTcp_encode (he : e.Registered) {tcp : TcpHeader}
    (hm : e.mem.Holds p tcp.encode) : decodeTcp e p n w =
      (if tcp.flags &&& TH_SYN ≠ 0 then tcpSyn e p tcp.off tcp.flags w.bucket.L4.fingerprint
        else .ok none).map fun finger =>
          ⟨appDecoder tcp.dport.toNat, tcp.off * 4, updateStat w.stats "TCP" 1,
            { w.bucket with L4 := ⟨htons e.host tcp.sport.toNat, htons e.host tcp.dport.toNat,
              LN_TYPE_TCP, finger⟩ }⟩ := by
  obtain ⟨⟨hs0, hs1, hd0, hd1, -⟩, ⟨ho, hfl, -⟩, -⟩ := tcp.holds_encode hm
  have hs := readU16_of_some e.host hs0 hs1
  have hd := readU16_of_some e.host hd0 hd1
  simp only [decodeTcp, readU8_of_some ho, hs, hd, readU8_of_some hfl, ok_bind, tcpOff_eq,
    tcp.offByte_div, ← load16_be16, ntohs_load16, net16_be16, he.app]
  split
  · cases tcpSyn e p tcp.off tcp.flags w.bucket.L4.fingerprint <;> rfl
  · rfl

theorem decodeTcp_encode_ok_iff (he : e.Registered) {tcp : TcpHeader}
    (hm : e.mem.Holds p tcp.encode) :
    decodeTcp e p n w = .ok r ↔ ∃ finger,
      (if tcp.flags &&& TH_SYN ≠ 0 then
          tcpSyn e p tcp.off tcp.flags w.bucket.L4.fingerprint = .ok finger
        else finger = none) ∧
      r = ⟨appDecoder tcp.dport.toNat, tcp.off * 4, updateStat w.stats "TCP" 1,
        { w.bucket with L4 :=
          ⟨htons e.host tcp.sport.toNat, htons e.host tcp.dport.toNat, LN_TYPE_TCP, finger⟩ }⟩ := by
  rw [decodeTcp_encode he hm, map_ok_iff]
  by_cases hsyn : tcp.flags &&& TH_SYN ≠ 0
  · simp only [if_pos hsyn, eq_comm]
  · simp only [if_neg hsyn, Except.ok.injEq, eq_comm]

theorem tcpSyn_isSome {off : Nat} {flags : UInt8} {finger : Option Finger}
    (hends : OptionsReadable e.mem (p + 20) (optEnd e p off) ∧
      Tlv.Advancing (optWidth e.mem) (p + 20) (optEnd e p off)) {f : Finger}
    (h : tcpSyn e p off flags (some f) = .ok finger) : finger.isSome := by
  obtain ⟨f', hf'⟩ := @tcpSyn_some e p off flags f
  rw [hf'] at h
  split at h
  · obtain ⟨f'', hf''⟩ := optLoop_ok (h := e.host) hends.1 hends.2 f'
    rw [hf''] at h
    cases h
    rfl
  · cases h

theorem Packet.holds_of_bytes (pkt : Packet) {bytes : List UInt8} (h : pkt.bytes = bytes) :
    pkt.mem.Holds 0 bytes := h ▸ Memory.holds_append_left pkt.bytes pkt.beyond

def Ip4Header.after (ip : Ip4Header) : Nat := 14 + ip.ihl * 4

def Ip4Header.fillFrame (h : Host) (eth : EthHeader) (ip : Ip4Header) (protocol : UInt8)
    (b : Bucket) : Bucket :=
  ip.fill h protocol
    { b with L2 := { b.L2 with macSrc := eth.sha.val, macDst := eth.dha.val } }

theorem outcome_ip4Frame (he : e.Registered) {eth : EthHeader} {ip : Ip4Header}
    {protocol : UInt8} {body : List UInt8}
    (hm : e.mem.Holds 0 (ip4Frame eth ip protocol body)) (hbody : body ≠ [])
    (hcap : caplen = (ip4Frame eth ip protocol body).length) (hlt : caplen < 2 ^ 31)
    (hd : protoDecoder protocol.toNat = some d) :
    outcome e caplen .eth 0 w = outcome e caplen d ip.after
      ⟨updateStat (updateStat w.stats "TOTAL" 1) "IP" 1,
        ip.fillFrame e.host eth protocol w.bucket⟩ := by
  have hpos := List.length_pos_iff.mpr hbody
  have hlen : caplen = 14 + (ip.ihl * 4 + body.length) := by simp [hcap, ip4Frame]
  simp only [ip4Frame, Memory.holds_append, EthHeader.encode_length, Ip4Header.encode_length,
    Nat.zero_add] at hm
  obtain ⟨hm0, hm1, -⟩ := hm
  have heth := decodeEth_encode (n := leftAt caplen 0) (w := w) he hm0
  refine (outcome_hand (d := .eth) he heth rfl (more_of_lt (by simp only; omega) hlt)).trans ?_
  have hip := fun w => decodeIp_encode (n := leftAt caplen 14) (w := w) he hm1
  exact outcome_hand (d := .ip) (p := 14) he (hip _) hd (more_of_lt (by simp only; omega) hlt)

theorem holds_segment {eth : EthHeader} {ip : Ip4Header} {protocol : UInt8}
    {body : List UInt8} (hm : e.mem.Holds 0 (ip4Frame eth ip protocol body)) :
    e.mem.Holds ip.after body := by
  simp only [ip4Frame, Memory.holds_append, EthHeader.encode_length, Ip4Header.encode_length,
    Nat.zero_add] at hm
  exact hm.2.2

end Lmap
