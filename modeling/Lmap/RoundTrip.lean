import Lmap.Encoded
import Lmap.OptionArea

/-!
What the bucket of a UDP or TCP segment over IPv4 tells about the frame it came in.
-/

set_option autoImplicit false

namespace Lmap

variable {e : Env} {p n : Nat} {w : World} {r : Ret}

/-- The walk over the options of the segment comes to an end, where the code has it end. -/
def Segment.WalkEnds (e : Env) (p : Nat) : Segment → Prop
  | udp _ => True
  | tcp header => header.Syn → OptionsReadable e.mem (p + 20) (optEnd e p header.off) ∧
      Tlv.Advancing (optWidth e.mem) (p + 20) (optEnd e p header.off)

theorem decodeTcp_encode_isOk (he : e.Registered) {tcp : TcpHeader}
    (hm : e.mem.Holds p tcp.encode) (hw : w.bucket.L4.fingerprint.isSome) :
    (∃ r, decodeTcp e p n w = .ok r) ↔ (Segment.tcp tcp).WalkEnds e p := by
  obtain ⟨hports, hflags, -⟩ := tcp.holds_encode hm
  have hoff : e.mem.byte (p + 12) = _ := hflags.byte_eq (i := 0) rfl
  have hsyn : e.mem.byte (p + 13) = _ := hflags.byte_eq (i := 1) rfl
  have hread : TcpReadable e.mem p :=
    ⟨hports.readable, hflags.readable.mono (Nat.le_refl _) (by simp)⟩
  have hwin : e.mem.Readable (p + 14) 2 := hflags.readable.mono (by omega) (by simp)
  rw [decodeTcp_isOk_iff he, SynAt, hsyn, optArea, offAt, hoff, tcp.offByte_div]
  simp [hread, hwin, hw, Segment.WalkEnds, TcpHeader.Syn]

theorem decodeTcp_encode_finger (he : e.Registered) {tcp : TcpHeader}
    (hm : e.mem.Holds p tcp.encode) (hw : w.bucket.L4.fingerprint.isSome)
    (hr : decodeTcp e p n w = .ok r) : r.world.bucket.L4.fingerprint.isSome ↔ tcp.Syn := by
  have hends := (decodeTcp_encode_isOk he hm hw).mp ⟨r, hr⟩
  obtain ⟨finger, hfinger, rfl⟩ := (decodeTcp_encode_ok_iff he hm).mp hr
  split at hfinger
  · rename_i hsyn
    obtain ⟨f, hf⟩ := Option.isSome_iff_exists.mp hw
    rw [hf] at hfinger
    exact iff_of_true (tcpSyn_isSome (hends hsyn) hfinger) hsyn
  · rename_i hsyn
    subst hfinger
    exact iff_of_false (by simp) hsyn

def Segment.frame (seg : Segment) (eth : EthHeader) (ip : Ip4Header) (payload : List UInt8) :
    List UInt8 :=
  ip4Frame eth ip seg.protocol (seg.encode ++ payload)

/-- The bucket tells who sent the segment to whom. -/
structure Bucket.Tells (h : Host) (eth : EthHeader) (ip : Ip4Header) (seg : Segment)
    (b : Bucket) : Prop where
  macSrc : b.L2.macSrc = eth.sha.val
  macDst : b.L2.macDst = eth.dha.val
  ipSrc : b.L3.ipSrc = IpAddr.inet ip.saddr
  ipDst : b.L3.ipDst = IpAddr.inet ip.daddr
  ttl : b.L3.ttl = ip.ttl
  portSrc : b.L4.portSrc = htons h seg.sport.toNat
  portDst : b.L4.portDst = htons h seg.dport.toNat
  fingerprint : b.L4.fingerprint.isSome ↔ seg.Syn

theorem Segment.protoDecoder_protocol (seg : Segment) :
    protoDecoder seg.protocol.toNat = some seg.decoder := by cases seg <;> rfl

theorem Segment.encode_ne_nil (seg : Segment) : seg.encode ≠ [] := by
  cases seg <;> simp [encode, UdpHeader.encode, TcpHeader.encode, be16]

theorem Segment.decoder_mem (seg : Segment) : seg.decoder ∈ Decoder.ip.successors :=
  protoDecoder_mem seg.protoDecoder_protocol

theorem tells_of_fill {h : Host} {eth : EthHeader} {ip : Ip4Header} {seg : Segment}
    {L4 : L4Info} (hsport : L4.portSrc = htons h seg.sport.toNat)
    (hdport : L4.portDst = htons h seg.dport.toNat) (hfinger : L4.fingerprint.isSome ↔ seg.Syn) :
    Bucket.Tells h eth ip seg
      { ip.fillFrame h eth seg.protocol dbBucketAlloc with L4 := L4 } where
  macSrc := rfl
  macDst := rfl
  ipSrc := rfl
  ipDst := rfl
  ttl := rfl
  portSrc := hsport
  portDst := hdport
  fingerprint := hfinger

theorem lmapDecode_frame_eq (h : Host) (r : Running) (pkt : Packet) (hlink : r.link = .eth)
    {eth : EthHeader} {ip : Ip4Header} {seg : Segment} {payload : List UInt8}
    (hbytes : pkt.bytes = seg.frame eth ip payload) (hlen : pkt.bytes.length < 2 ^ 31) :
    lmapDecode h r.globals pkt =
      (callAt (lmapEnv h r.globals pkt) pkt.caplen seg.decoder ip.after
        ⟨updateStat (updateStat r.stats "TOTAL" 1) "IP" 1,
          ip.fillFrame h eth seg.protocol dbBucketAlloc⟩).map
        fun ret => (ret.world.bucket, { r.globals with stats := ret.world.stats }) := by
  have he := r.env_registered h pkt
  have hm : (lmapEnv h r.globals pkt).mem.Holds 0
      (ip4Frame eth ip seg.protocol (seg.encode ++ payload)) :=
    pkt.holds_of_bytes hbytes
  have hcap : pkt.caplen = (seg.frame eth ip payload).length := congrArg List.length hbytes
  have hout := outcome_ip4Frame (w := ⟨r.stats, dbBucketAlloc⟩) he hm
    (by simp [seg.encode_ne_nil]) hcap hlen seg.protoDecoder_protocol
  rw [r.lmapDecode_outcome, hlink, Link.decoder, hout]
  cases hcall : callAt (lmapEnv h r.globals pkt) pkt.caplen seg.decoder ip.after
      ⟨updateStat (updateStat r.stats "TOTAL" 1) "IP" 1,
        ip.fillFrame h eth seg.protocol dbBucketAlloc⟩ with
  | error f => exact congrArg _ (outcome_error hcall)
  | ok ret => exact congrArg _ (outcome_proto_ok he seg.decoder_mem hcall)

theorem lmapDecode_frame (h : Host) (r : Running) (pkt : Packet) (hlink : r.link = .eth)
    {eth : EthHeader} {ip : Ip4Header} {seg : Segment} {payload : List UInt8}
    (hbytes : pkt.bytes = seg.frame eth ip payload) (hlen : pkt.bytes.length < 2 ^ 31)
    {b : Bucket} :
    (∃ g, lmapDecode h r.globals pkt = .ok (b, g)) ↔
      ∃ ret, callAt (lmapEnv h r.globals pkt) pkt.caplen seg.decoder ip.after
        ⟨updateStat (updateStat r.stats "TOTAL" 1) "IP" 1,
          ip.fillFrame h eth seg.protocol dbBucketAlloc⟩ = .ok ret ∧ ret.world.bucket = b := by
  rw [lmapDecode_frame_eq h r pkt hlink hbytes hlen]
  simp only [map_ok_iff, Prod.mk.injEq]
  grind

theorem segment_tells_iff (he : e.Registered) (caplen : Nat) {stats : Stats} {eth : EthHeader}
    {ip : Ip4Header} {seg : Segment} (hm : e.mem.Holds ip.after seg.encode) :
    (∃ ret, callAt e caplen seg.decoder ip.after
        ⟨stats, ip.fillFrame e.host eth seg.protocol dbBucketAlloc⟩ = .ok ret ∧
        ret.world.bucket.Tells e.host eth ip seg) ↔ seg.WalkEnds e ip.after := by
  cases seg with
  | udp header =>
    have hret := decodeUdp_encode (n := leftAt caplen ip.after)
      (w := ⟨stats, ip.fillFrame e.host eth (Segment.udp header).protocol dbBucketAlloc⟩) he hm
    refine iff_of_true ⟨_, hret, ?_⟩ trivial
    exact tells_of_fill rfl rfl (iff_of_false Bool.false_ne_true id)
  | tcp header =>
    have hw : (ip.fillFrame e.host eth (Segment.tcp header).protocol
        dbBucketAlloc).L4.fingerprint.isSome := rfl
    have hok := decodeTcp_encode_isOk (n := leftAt caplen ip.after) (w := ⟨stats, _⟩) he hm hw
    constructor
    · rintro ⟨ret, hret, -⟩
      exact hok.mp ⟨ret, hret⟩
    · intro hends
      obtain ⟨ret, hret⟩ := hok.mpr hends
      have hfinger := decodeTcp_encode_finger he hm hw hret
      obtain ⟨finger, -, rfl⟩ := (decodeTcp_encode_ok_iff he hm).mp hret
      exact ⟨_, hret, tells_of_fill rfl rfl hfinger⟩

theorem lmapDecode_tells_iff (h : Host) (r : Running) (pkt : Packet) (hlink : r.link = .eth)
    {eth : EthHeader} {ip : Ip4Header} {seg : Segment} {payload : List UInt8}
    (hbytes : pkt.bytes = seg.frame eth ip payload) (hlen : pkt.bytes.length < 2 ^ 31) :
    (∃ b g, lmapDecode h r.globals pkt = .ok (b, g) ∧ b.Tells h eth ip seg) ↔
      seg.WalkEnds (lmapEnv h r.globals pkt) ip.after := by
  have hm : (lmapEnv h r.globals pkt).mem.Holds 0
      (ip4Frame eth ip seg.protocol (seg.encode ++ payload)) :=
    pkt.holds_of_bytes hbytes
  have hseg := (Memory.holds_append _ _ _).mp (holds_segment hm)
  rw [← segment_tells_iff (r.env_registered h pkt) pkt.caplen hseg.1]
  constructor
  · rintro ⟨b, g, hok, htells⟩
    obtain ⟨ret, hret, rfl⟩ := (lmapDecode_frame h r pkt hlink hbytes hlen).mp ⟨g, hok⟩
    exact ⟨ret, hret, htells⟩
  · rintro ⟨ret, hret, htells⟩
    obtain ⟨g, hok⟩ := (lmapDecode_frame h r pkt hlink hbytes hlen).mpr ⟨ret, hret, rfl⟩
    exact ⟨_, g, hok, htells⟩

def Segment.EndsInside (e : Env) (p : Nat) : Segment → Prop
  | udp _ => True
  | tcp header => optEnd e p header.off ≤ p + header.off * 4

instance (e : Env) (p : Nat) (seg : Segment) : Decidable (seg.EndsInside e p) :=
  match seg with
  | .udp _ => isTrue trivial
  | .tcp _ => inferInstanceAs (Decidable (_ ≤ _))

theorem walkEnds_of_inside {seg : Segment} (hm : e.mem.Holds p seg.encode)
    (hwell : seg.WellFormed) (hin : seg.EndsInside e p) : seg.WalkEnds e p := by
  cases seg with
  | udp header => trivial
  | tcp header =>
    intro hsyn
    obtain ⟨area, harea⟩ := hwell hsyn
    obtain ⟨-, -, hopts⟩ := header.holds_encode hm
    have hlen := header.options_length
    rw [harea] at hopts hlen
    exact area_walkable area hopts (by simp only [Segment.EndsInside] at hin; omega)

/-- Every UDP and TCP frame over IPv4 comes out as it went in exactly if, on a SYN, the walk
from the fixed header to the end pointer finds readable options that take room. That is so
whenever the end pointer stays within the header. -/
theorem lmapDecode_round_trip_iff (h : Host) (r : Running) (pkt : Packet) (eth : EthHeader)
    (ip : Ip4Header) (seg : Segment) (payload : List UInt8) (hlink : r.link = .eth)
    (hbytes : pkt.bytes = seg.frame eth ip payload) (hlen : pkt.bytes.length ≤ 65535)
    (hwell : seg.WellFormed) :
    ((∃ b g, lmapDecode h r.globals pkt = .ok (b, g) ∧ b.Tells h eth ip seg) ↔
      seg.WalkEnds (lmapEnv h r.globals pkt) ip.after) ∧
    (seg.EndsInside (lmapEnv h r.globals pkt) ip.after →
      ∃ b g, lmapDecode h r.globals pkt = .ok (b, g) ∧ b.Tells h eth ip seg) := by
  have htells := lmapDecode_tells_iff h r pkt hlink hbytes (by omega)
  refine ⟨htells, fun hin => htells.mpr ?_⟩
  have hm : (lmapEnv h r.globals pkt).mem.Holds 0
      (ip4Frame eth ip seg.protocol (seg.encode ++ payload)) :=
    pkt.holds_of_bytes hbytes
  exact walkEnds_of_inside ((Memory.holds_append _ _ _).mp (holds_segment hm)).1 hwell hin

def sampleEth : EthHeader := ⟨⟨List.replicate 6 2, rfl⟩, ⟨List.replicate 6 4, rfl⟩⟩

def sampleIp : Ip4Header :=
  ⟨0, 44, 0, 0x4000, 64, 0, ⟨[192, 0, 2, 1], rfl⟩, ⟨[192, 0, 2, 2], rfl⟩, ⟨[], by decide⟩⟩

def synHeader (options : OptionBytes) : TcpHeader :=
  ⟨1024, 80, ⟨List.replicate 4 0, rfl⟩, ⟨List.replicate 4 0, rfl⟩, 0, TH_SYN, 512, 0, 0, options⟩

def bareArea : OptionArea := ⟨[], [], .inl rfl⟩

def bareHeader : TcpHeader := synHeader ⟨bareArea.encode, by decide⟩

def mssArea : OptionArea := ⟨[.mss 1460], [], .inl rfl⟩

def mssHeader : TcpHeader := synHeader ⟨mssArea.encode, by decide⟩

def mssSegment : Segment := .tcp mssHeader

def mssPacket : Packet := ⟨0x1000, mssSegment.frame sampleEth sampleIp [], by decide, fun _ => none⟩

theorem lmapDecode_round_trip_mss :
    ∃ b g, lmapDecode ⟨false, 64⟩ (Running.listed .eth).globals mssPacket = .ok (b, g) ∧
      b.Tells ⟨false, 64⟩ sampleEth sampleIp mssSegment :=
  (lmapDecode_round_trip_iff ⟨false, 64⟩ (Running.listed .eth) mssPacket sampleEth sampleIp
    mssSegment [] rfl rfl (by decide) (fun _ => ⟨mssArea, rfl⟩)).2 (by decide)

/-- A SYN without options, at an address with bit 31 set: the end pointer is sign-extended,
and the walk goes on into the payload, where the first option says that its length is 0. -/
def highPacket : Packet :=
  ⟨0x5581C0DE0010, (Segment.tcp bareHeader).frame sampleEth sampleIp [5, 0], by decide,
    fun _ => none⟩

theorem highPacket_lost :
    ¬ ∃ b g, lmapDecode ⟨false, 64⟩ (Running.listed .eth).globals highPacket = .ok (b, g) ∧
      b.Tells ⟨false, 64⟩ sampleEth sampleIp (.tcp bareHeader) := by
  rw [lmapDecode_tells_iff ⟨false, 64⟩ (Running.listed .eth) highPacket rfl rfl (by decide)]
  intro hends
  obtain ⟨-, hadv⟩ := hends (by decide)
  exact hadv 0 _ .first (by decide) (by decide)

end Lmap
