import Lmap.RoundTrip

/-!
One segment, carried over IPv4 and over IPv6. `decode_ip6` adds the payload length to
the length of its header, and takes it in the order of the host.
-/

set_option autoImplicit false

namespace Lmap

inductive Transport where
  | udp | tcp
  deriving DecidableEq, Repr

namespace Transport

def number : Transport → Nat
  | udp => LN_TYPE_UDP
  | tcp => LN_TYPE_TCP

def decoder : Transport → Decoder
  | udp => .udp
  | tcp => .tcp

def stat : Transport → String
  | udp => "UDP"
  | tcp => "TCP"

def headerLen : Transport → Nat
  | udp => 8
  | tcp => 20

def Plain (m : Memory) (p : Nat) : Transport → Prop
  | udp => m.Readable p 4
  | tcp => TcpReadable m p ∧ ¬ SynAt m p

theorem protoDecoder_number (t : Transport) :
    protoDecoder (UInt8.ofNat t.number).toNat = some t.decoder := by cases t <;> rfl

theorem decoder_mem (t : Transport) : t.decoder ∈ Decoder.ip.successors := by
  cases t <;> decide

end Transport

variable {e : Env} {caplen p : Nat} {w : World} {t : Transport}

theorem transport_ok (caplen : Nat) (w : World) (he : e.Registered) (h : t.Plain e.mem p) :
    ∃ ret, callAt e caplen t.decoder p w = .ok ret := by
  cases t with
  | udp => exact (decodeUdp_needs (n := leftAt caplen p)).ok h
  | tcp =>
    exact (decodeTcp_isOk_iff (n := leftAt caplen p) he).mpr ⟨h.1, fun hsyn => absurd hsyn h.2⟩

theorem transport_plain (he : e.Registered) (hw : w.bucket.L4.fingerprint = none) {ret : Ret}
    (h : callAt e caplen t.decoder p w = .ok ret) : t.Plain e.mem p := by
  cases t with
  | udp => exact (decodeUdp_needs (n := leftAt caplen p)).of_ok h
  | tcp =>
    obtain ⟨hread, hsyn⟩ := (decodeTcp_isOk_iff (n := leftAt caplen p) he).mp ⟨ret, h⟩
    refine ⟨hread, fun hs => ?_⟩
    have hsome := (hsyn hs).2.1
    rw [hw] at hsome
    cases hsome

theorem transport_fills (he : e.Registered) {ret : Ret}
    (h : callAt e caplen t.decoder p w = .ok ret) :
    ret.world.stats = updateStat w.stats t.stat 1 ∧
      ret.world.bucket.L4.portSrc = load16 e.host (e.mem.byte p) (e.mem.byte (p + 1)) ∧
      ret.world.bucket.L4.portDst = load16 e.host (e.mem.byte (p + 2)) (e.mem.byte (p + 3)) ∧
      ret.world.bucket.L4.proto = t.number := by
  have hbytes : ∀ s0 s1 d0 d1, e.mem.Holds p [s0, s1, d0, d1] → e.mem.byte p = s0 ∧
      e.mem.byte (p + 1) = s1 ∧ e.mem.byte (p + 2) = d0 ∧ e.mem.byte (p + 3) = d1 :=
    fun s0 s1 d0 d1 hm => ⟨hm.byte_eq (i := 0) rfl, hm.byte_eq (i := 1) rfl,
      hm.byte_eq (i := 2) rfl, hm.byte_eq (i := 3) rfl⟩
  cases t with
  | udp =>
    obtain ⟨s0, s1, d0, d1, hports, rfl⟩ := (decodeUdp_ok_iff (n := leftAt caplen p) he).mp h
    obtain ⟨rfl, rfl, rfl, rfl⟩ := hbytes _ _ _ _ hports
    exact ⟨rfl, rfl, rfl, rfl⟩
  | tcp =>
    obtain ⟨s0, s1, d0, d1, _, _, _, hports, -, -, rfl⟩ :=
      (decodeTcp_ok_iff (n := leftAt caplen p) he).mp h
    obtain ⟨rfl, rfl, rfl, rfl⟩ := hbytes _ _ _ _ hports
    exact ⟨rfl, rfl, rfl, rfl⟩

/-- A UDP segment, or a TCP segment without SYN, with all of its fixed header. -/
structure PlainSegment where
  transport : Transport
  bytes : List UInt8
  complete : transport.headerLen ≤ bytes.length
  no_syn : transport = .tcp → bytes.getD 13 0 &&& TH_SYN = 0
  len_le : bytes.length ≤ 65535

namespace PlainSegment

def protocol (S : PlainSegment) : UInt8 := UInt8.ofNat S.transport.number

theorem length_pos (S : PlainSegment) : 8 ≤ S.bytes.length := by
  have := S.complete
  cases ht : S.transport <;> rw [ht, Transport.headerLen] at this <;> omega

theorem bytes_ports (S : PlainSegment) :
    ∃ s0 s1 d0 d1 rest, S.bytes = s0 :: s1 :: d0 :: d1 :: rest := by
  have hlen := S.length_pos
  match hS : S.bytes with
  | s0 :: s1 :: d0 :: d1 :: rest => exact ⟨s0, s1, d0, d1, rest, rfl⟩
  | [] | [_] | [_, _] | [_, _, _] => simp [hS] at hlen

theorem plain_of_holds (S : PlainSegment) {m : Memory} (hm : m.Holds p S.bytes) :
    S.transport.Plain m p := by
  have hread := hm.readable
  have hlen := S.complete
  cases ht : S.transport with
  | udp =>
    rw [ht, Transport.headerLen] at hlen
    exact hread.mono (Nat.le_refl _) (by omega)
  | tcp =>
    rw [ht, Transport.headerLen] at hlen
    have hflags : m.byte (p + 13) = S.bytes.getD 13 0 := by
      refine hm.byte_eq ?_
      rw [List.getD_eq_getElem?_getD, List.getElem?_eq_getElem (by omega)]
      rfl
    exact ⟨⟨hread.mono (Nat.le_refl _) (by omega), hread.mono (by omega) (by omega)⟩,
      by rw [SynAt, hflags, S.no_syn ht]; simp⟩

end PlainSegment

theorem lmapDecode_ip4 (h : Host) (r : Running) (pkt : Packet) (hlink : r.link = .eth)
    {eth : EthHeader} {ip : Ip4Header} {S : PlainSegment}
    (hbytes : pkt.bytes = ip4Frame eth ip S.protocol S.bytes) {s0 s1 d0 d1 : UInt8}
    {rest : List UInt8} (hS : S.bytes = s0 :: s1 :: d0 :: d1 :: rest) :
    ∃ b g, lmapDecode h r.globals pkt = .ok (b, g) ∧ b.L4.portSrc = load16 h s0 s1 ∧
      b.L4.portDst = load16 h d0 d1 ∧ b.L4.proto = S.transport.number ∧ g.stats =
        updateStat (updateStat (updateStat r.stats "TOTAL" 1) "IP" 1) S.transport.stat 1 := by
  have he := r.env_registered h pkt
  have hlen := S.len_le
  have hihl := ip.ihl_le
  have hm : (lmapEnv h r.globals pkt).mem.Holds 0 (ip4Frame eth ip S.protocol S.bytes) :=
    pkt.holds_of_bytes hbytes
  have hseg := holds_segment hm
  have hout := outcome_ip4Frame (w := ⟨r.stats, dbBucketAlloc⟩) he hm
    (by rw [hS]; exact List.cons_ne_nil _ _) rfl (by simp [ip4Frame]; omega)
    S.transport.protoDecoder_number
  rw [← hbytes] at hout
  obtain ⟨ret, hret⟩ := transport_ok pkt.bytes.length
    ⟨updateStat (updateStat r.stats "TOTAL" 1) "IP" 1,
      ip.fillFrame h eth S.protocol dbBucketAlloc⟩ he (S.plain_of_holds hseg)
  obtain ⟨hstats, hsport, hdport, hproto⟩ := transport_fills he hret
  have hend := hout.trans (outcome_proto_ok he S.transport.decoder_mem hret)
  refine ⟨ret.world.bucket, { r.globals with stats := ret.world.stats }, ?_, ?_, ?_, hproto, hstats⟩
  · rw [r.lmapDecode_outcome, hlink]
    exact congrArg (Except.map _) hend
  · rw [hsport, hseg.byte_eq (i := 1) (b := s1) (by rw [hS]; rfl)]
    congr 1
    exact hseg.byte_eq (i := 0) (by rw [hS]; rfl)
  · rw [hdport, hseg.byte_eq (i := 2) (b := d0) (by rw [hS]; rfl),
      hseg.byte_eq (i := 3) (b := d1) (by rw [hS]; rfl)]
    rfl

def PlainSegment.lookedFor (S : PlainSegment) : Nat := 54 + swap16 S.bytes.length

theorem PlainSegment.lookedFor_lt (S : PlainSegment) : S.lookedFor < 2 ^ 31 := by
  have := swap16_lt S.bytes.length
  unfold lookedFor
  omega

theorem ip6Len_length (h : Host) {n : Nat} (h0 : 0 < n) (hn : n ≤ 65535) :
    ip6Len h (highByte (UInt16.ofNat n)) (lowByte (UInt16.ofNat n)) =
      if h.bigEndian then n + 40 else swap16 n + 40 := by
  have hnat : (UInt16.ofNat n).toNat = n :=
    UInt16.toNat_ofNat_of_lt' (by simp only [UInt16.size]; omega)
  have hswap : swap16 n ≠ 0 := by
    intro hzero
    have hback := swap16_swap16 (x := n) (by omega)
    rw [hzero] at hback
    revert hback
    unfold swap16
    omega
  rw [ip6Len, load16_be16, hnat, htons, IP6_HDR_LEN]
  cases h.bigEndian with
  | true => simp [h0.ne']
  | false => simp [hswap]

theorem outcome_ip6Frame (he : e.Registered) {eth : EthHeader} {ip : Ip6Header}
    {S : PlainSegment} (hm : e.mem.Holds 0 (ip6Frame eth ip S.protocol S.bytes))
    (hcap : caplen = 54 + S.bytes.length) :
    ∃ w', w'.stats = updateStat (updateStat w.stats "TOTAL" 1) "IP" 1 ∧
      w'.bucket.L4 = w.bucket.L4 ∧ outcome e caplen .eth 0 w =
        if e.host.bigEndian = false ∧ swap16 S.bytes.length < S.bytes.length then
          outcome e caplen S.transport.decoder S.lookedFor w'
        else .ok w' := by
  have hpos := S.length_pos
  have hlen := S.len_le
  have hlooked := S.lookedFor_lt
  simp only [ip6Frame, Memory.holds_append, EthHeader.encode_length, Ip6Header.encode_length,
    Nat.zero_add] at hm
  obtain ⟨hm0, hm1, -⟩ := hm
  have heth := decodeEth_encode (n := leftAt caplen 0) (w := w) he hm0
  have hmore : More caplen (0 + 14) := more_of_lt (by omega) (by omega)
  have hhand := outcome_hand (d := .eth) he heth rfl hmore
  obtain ⟨ret, hret, hnext, hretlen, hstats, hL4⟩ := decodeIp6_encode (n := leftAt caplen 14)
    (w := ⟨updateStat w.stats "TOTAL" 1, { w.bucket with
      L2 := { w.bucket.L2 with macSrc := eth.sha.val, macDst := eth.dha.val } }⟩) he hm1
  refine ⟨ret.world, hstats, hL4, hhand.trans ?_⟩
  rw [ip6Len_length e.host (by omega) (by omega)] at hretlen
  refine (outcome_ok (d := .ip6) (p := 14) he hret).trans ?_
  have hproto : ret.next = some S.transport.decoder := hnext.trans S.transport.protoDecoder_number
  rw [hproto, hretlen]
  cases hbig : e.host.bigEndian with
  | true =>
    simp only [if_true, Bool.true_eq_false, false_and, if_false]
    rw [if_neg (not_more_of_le (by omega) (by omega))]
  | false =>
    simp only [Bool.false_eq_true, if_false, true_and]
    have hat : 14 + (swap16 S.bytes.length + 40) = S.lookedFor := by
      unfold PlainSegment.lookedFor
      omega
    rw [hat]
    by_cases hlt : swap16 S.bytes.length < S.bytes.length
    · rw [if_pos hlt, if_pos (more_of_lt (by unfold PlainSegment.lookedFor; omega) (by omega))]
    · rw [if_neg hlt, if_neg (not_more_of_le (by unfold PlainSegment.lookedFor; omega) hlooked)]

/-- The two packets leave the same ports and transport protocol, and the same counts. -/
def Parity (h : Host) (r : Running) (pkt4 pkt6 : Packet) : Prop :=
  ∃ b4 g4 b6 g6, lmapDecode h r.globals pkt4 = .ok (b4, g4) ∧
    lmapDecode h r.globals pkt6 = .ok (b6, g6) ∧ b6.L4.portSrc = b4.L4.portSrc ∧
    b6.L4.portDst = b4.L4.portDst ∧ b6.L4.proto = b4.L4.proto ∧
    getStat g6.stats "TCP" = getStat g4.stats "TCP" ∧
    getStat g6.stats "UDP" = getStat g4.stats "UDP"

/-- The bytes at `p` pass for the segment: the same ports, and no SYN. -/
def PlainSegment.RepeatedAt (S : PlainSegment) (m : Memory) (p : Nat) : Prop :=
  m.Holds p (S.bytes.take 4) ∧ S.transport.Plain m p

theorem load16_inj (h : Host) {a b c d : UInt8} (heq : load16 h a b = load16 h c d) :
    a = c ∧ b = d := by
  have ha := a.toNat_lt
  have hb := b.toNat_lt
  have hc := c.toNat_lt
  have hd := d.toNat_lt
  unfold load16 at heq
  rw [← UInt8.toNat_inj, ← UInt8.toNat_inj]
  split at heq <;> omega

theorem repeatedAt_iff (S : PlainSegment) (h : Host) {m : Memory} {s0 s1 d0 d1 : UInt8}
    {rest : List UInt8} (hS : S.bytes = s0 :: s1 :: d0 :: d1 :: rest)
    (hplain : S.transport.Plain m p) :
    S.RepeatedAt m p ↔ load16 h (m.byte p) (m.byte (p + 1)) = load16 h s0 s1 ∧
      load16 h (m.byte (p + 2)) (m.byte (p + 3)) = load16 h d0 d1 := by
  have hread : m.Readable p 4 := by
    cases ht : S.transport with
    | udp => rwa [ht] at hplain
    | tcp =>
      rw [ht] at hplain
      exact hplain.1.1
  have htake : S.bytes.take 4 = [s0, s1, d0, d1] := by rw [hS]; rfl
  rw [PlainSegment.RepeatedAt, htake]
  constructor
  · rintro ⟨hm, -⟩
    rw [← hm.byte_eq (i := 0) rfl, ← hm.byte_eq (i := 1) rfl, ← hm.byte_eq (i := 2) rfl,
      ← hm.byte_eq (i := 3) rfl]
    exact ⟨rfl, rfl⟩
  · rintro ⟨hsport, hdport⟩
    obtain ⟨rfl, rfl⟩ := load16_inj h hsport
    obtain ⟨rfl, rfl⟩ := load16_inj h hdport
    exact ⟨⟨hread.get (i := 0) (by decide), hread.get (i := 1) (by decide),
      hread.get (i := 2) (by decide), hread.get (i := 3) (by decide), trivial⟩, hplain⟩

/-- A segment comes out of IPv6 as it does out of IPv4 exactly if the host is little endian,
its length read the wrong way round is less than the length, and the bytes that far into it
pass for its header. -/
theorem lmapDecode_parity_iff (h : Host) (r : Running) (pkt4 pkt6 : Packet) (S : PlainSegment)
    (eth4 eth6 : EthHeader) (ip4 : Ip4Header) (ip6 : Ip6Header) (hlink : r.link = .eth)
    (h4 : pkt4.bytes = ip4Frame eth4 ip4 S.protocol S.bytes)
    (h6 : pkt6.bytes = ip6Frame eth6 ip6 S.protocol S.bytes) :
    Parity h r pkt4 pkt6 ↔ h.bigEndian = false ∧ swap16 S.bytes.length < S.bytes.length ∧
      S.RepeatedAt pkt6.mem S.lookedFor := by
  obtain ⟨s0, s1, d0, d1, rest, hS⟩ := S.bytes_ports
  obtain ⟨b4, g4, hok4, hsport4, hdport4, hproto4, hstats4⟩ := lmapDecode_ip4 h r pkt4 hlink h4 hS
  have he := r.env_registered h pkt6
  have hm : (lmapEnv h r.globals pkt6).mem.Holds 0 (ip6Frame eth6 ip6 S.protocol S.bytes) :=
    pkt6.holds_of_bytes h6
  have hcap : pkt6.caplen = 54 + S.bytes.length := by
    rw [Packet.caplen, h6, ip6Frame]
    simp
    omega
  obtain ⟨w', hstats', hL4', hout⟩ := outcome_ip6Frame (w := ⟨r.stats, dbBucketAlloc⟩) he hm hcap
  have hhost : (lmapEnv h r.globals pkt6).host = h := rfl
  have hrun := r.lmapDecode_outcome h pkt6
  rw [hlink, Link.decoder, hout, hhost] at hrun
  have hnumber : S.transport.number ≠ 0 := by cases S.transport <;> decide
  constructor
  · rintro ⟨b4', g4', b6, g6, hok4', hok6, hsport, hdport, hproto, -, -⟩
    cases hok4.symm.trans hok4'
    rw [hok6] at hrun
    by_cases hcase : h.bigEndian = false ∧ swap16 S.bytes.length < S.bytes.length
    · refine ⟨hcase.1, hcase.2, ?_⟩
      rw [if_pos hcase] at hrun
      obtain ⟨w6, hw6, heq⟩ := map_ok_iff.mp hrun.symm
      cases hcall : callAt (lmapEnv h r.globals pkt6) pkt6.caplen S.transport.decoder S.lookedFor
          w' with
      | error f =>
        rw [outcome_error hcall] at hw6
        cases hw6
      | ok ret =>
        rw [outcome_proto_ok he S.transport.decoder_mem hcall] at hw6
        cases hw6
        cases heq
        obtain ⟨-, hsport6, hdport6, -⟩ := transport_fills he hcall
        have hplain := transport_plain he (by rw [hL4']; rfl) hcall
        refine (repeatedAt_iff S h hS hplain).mpr ⟨?_, ?_⟩
        · exact hsport6.symm.trans (hsport.trans hsport4)
        · exact hdport6.symm.trans (hdport.trans hdport4)
    · rw [if_neg hcase] at hrun
      cases hrun
      rw [hL4', hproto4] at hproto
      exact absurd hproto.symm hnumber
  · rintro ⟨hbig, hlt, hrep⟩
    rw [if_pos ⟨hbig, hlt⟩] at hrun
    obtain ⟨ret, hcall⟩ := transport_ok pkt6.caplen w' he hrep.2
    obtain ⟨hstats6, hsport6, hdport6, hproto6⟩ := transport_fills he hcall
    obtain ⟨hsport, hdport⟩ := (repeatedAt_iff S h hS hrep.2).mp hrep
    rw [outcome_proto_ok he S.transport.decoder_mem hcall] at hrun
    have hstats : ret.world.stats = g4.stats := by rw [hstats6, hstats', hstats4]
    refine ⟨b4, g4, _, _, hok4, hrun, ?_, ?_, ?_, ?_, ?_⟩
    · exact (hsport6.trans hsport).trans hsport4.symm
    · exact (hdport6.trans hdport).trans hdport4.symm
    · exact hproto6.trans hproto4.symm
    · exact congrArg (getStat · "TCP") hstats
    · exact congrArg (getStat · "UDP") hstats

def sampleIp6 : Ip6Header :=
  ⟨⟨[0x60, 0, 0, 0], rfl⟩, 64, ⟨List.replicate 16 1, rfl⟩, ⟨List.replicate 16 2, rfl⟩⟩

def evenSegment : PlainSegment where
  transport := .udp
  bytes := List.replicate 256 0
  complete := by
    rw [List.length_replicate]
    decide
  no_syn := nofun
  len_le := by
    rw [List.length_replicate]
    decide

def evenPacket4 : Packet :=
  ⟨0, ip4Frame sampleEth sampleIp evenSegment.protocol evenSegment.bytes, by decide +kernel,
    fun _ => none⟩

def evenPacket6 : Packet :=
  ⟨0, ip6Frame sampleEth sampleIp6 evenSegment.protocol evenSegment.bytes, by decide +kernel,
    fun _ => none⟩

theorem lmapDecode_parity_even :
    Parity ⟨false, 64⟩ (Running.listed .eth) evenPacket4 evenPacket6 := by
  have hread : evenPacket6.mem.Readable evenSegment.lookedFor 4 := by decide +kernel
  have hzero : evenPacket6.mem.bytes evenSegment.lookedFor 4 = evenSegment.bytes.take 4 := by
    decide +kernel
  exact (lmapDecode_parity_iff ⟨false, 64⟩ (Running.listed .eth) evenPacket4 evenPacket6
    evenSegment sampleEth sampleEth sampleIp sampleIp6 rfl rfl rfl).mpr
      ⟨rfl, by decide +kernel, hzero ▸ hread.holds_bytes, hread⟩

/-- A datagram of 8 bytes, which over IPv6 is taken for one of 2048. -/
def dnsSegment : PlainSegment := ⟨.udp, [4, 0, 0, 53, 0, 8, 0, 0], by decide, by decide, by decide⟩

def dnsPacket4 : Packet :=
  ⟨0, ip4Frame sampleEth sampleIp dnsSegment.protocol dnsSegment.bytes, by decide, fun _ => none⟩

def dnsPacket6 : Packet :=
  ⟨0, ip6Frame sampleEth sampleIp6 dnsSegment.protocol dnsSegment.bytes, by decide, fun _ => none⟩

theorem dnsSegment_not_parity :
    ¬ Parity ⟨false, 64⟩ (Running.listed .eth) dnsPacket4 dnsPacket6 := by
  have hrun4 : (lmapDecode ⟨false, 64⟩ (Running.listed .eth).globals dnsPacket4).map
      (fun res => res.1.L4.proto) = .ok LN_TYPE_UDP := by decide +kernel
  have hrun6 : (lmapDecode ⟨false, 64⟩ (Running.listed .eth).globals dnsPacket6).map
      (fun res => res.1.L4.proto) = .ok 0 := by decide +kernel
  rintro ⟨b4, g4, b6, g6, h4, h6, -, -, hproto, -, -⟩
  rw [h4] at hrun4
  rw [h6] at hrun6
  simp only [Except.map, Except.ok.injEq] at hrun4 hrun6
  rw [hrun4, hrun6] at hproto
  cases hproto

end Lmap
