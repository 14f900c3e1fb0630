import Lmap.SynFinger

/-!
Which captures hold every byte that is looked at. Nothing is readable here but the
captured bytes, and no decoder compares `buflen` with what it reads.
-/

set_option autoImplicit false

namespace Lmap

def Packet.captured (addr : Nat) (bytes : List UInt8) (h : bytes.length < 2 ^ 32) : Packet :=
  ⟨addr, bytes, h, fun _ => none⟩

/-- The fixed part up to the flags; on a SYN also the window, and the options if there is a
fingerprint to note them in. -/
def TcpFits (e : Env) (caplen p : Nat) (finger : Bool) : Prop :=
  p + 14 ≤ caplen ∧ (SynAt e.mem p → p + 16 ≤ caplen ∧
    (finger = true → OptionsReadable e.mem (p + 20) (optArea e p)))

def ProtoFits (e : Env) (caplen p : Nat) (finger : Bool) : Option Decoder → Prop
  | some .tcp => TcpFits e caplen p finger
  | some .udp => p + 4 ≤ caplen
  | some .icmp | some .icmp6 => p + 1 ≤ caplen
  | _ => True

def IpFits (e : Env) (caplen p : Nat) : Prop :=
  p + 20 ≤ caplen ∧ (More caplen (p + ihlAt e.mem p * 4) →
    ProtoFits e caplen (p + ihlAt e.mem p * 4) true (protoDecoder (e.mem.byte (p + 9)).toNat))

def Ip6Fits (e : Env) (caplen p : Nat) : Prop :=
  p + 40 ≤ caplen ∧ (More caplen (p + ip6LenAt e p) →
    ProtoFits e caplen (p + ip6LenAt e p) false (protoDecoder (e.mem.byte (p + 6)).toNat))

/-- The addresses of a mapping of Ethernet addresses to IPv4 or to 16 byte addresses. -/
def ArpFits (e : Env) (caplen p : Nat) : Prop :=
  p + 6 ≤ caplen ∧
    ((e.mem.byte (p + 4)).toNat = 6 ∧ (e.mem.byte (p + 5)).toNat = 4 → p + 28 ≤ caplen) ∧
    ((e.mem.byte (p + 4)).toNat = 6 ∧ (e.mem.byte (p + 5)).toNat = 16 → p + 40 ≤ caplen)

def NetFits (e : Env) (caplen p : Nat) : Option Decoder → Prop
  | some .ip => IpFits e caplen p
  | some .ip6 => Ip6Fits e caplen p
  | some .arp => ArpFits e caplen p
  | _ => True

def EthFits (e : Env) (caplen : Nat) : Prop :=
  14 ≤ caplen ∧ (More caplen 14 →
    NetFits e caplen 14 (netDecoder (net16 (e.mem.byte 12) (e.mem.byte 13))))

/-- A frame that is not a data frame ends with its own header. -/
def WifiFits (e : Env) (caplen : Nat) : Prop :=
  16 ≤ caplen ∧ (net16 (e.mem.byte 0) (e.mem.byte 1) = WIFI_DATA → 32 ≤ caplen ∧
    (More caplen 32 → NetFits e caplen 32 (netDecoder (net16 (e.mem.byte 30) (e.mem.byte 31)))))

def FrameFits (e : Env) (caplen : Nat) : Link → Prop
  | .eth => EthFits e caplen
  | .wifi => WifiFits e caplen

variable {e : Env} {bytes : List UInt8} {p : Nat} {w : World}

theorem readable_captured (hm : e.mem = Memory.ofList bytes) {q n : Nat} (hn : 0 < n) :
    e.mem.Readable q n ↔ q + n ≤ bytes.length := by
  rw [hm, Memory.readable_ofList hn]

theorem outcome_next_iff (he : e.Registered) {caplen : Nat} {d : Decoder} {r : Ret}
    (hcall : callAt e caplen d p w = .ok r) {f : Fault} :
    outcome e caplen d p w = .error f ↔ ∃ d', r.next = some d' ∧ More caplen (p + r.len) ∧
      outcome e caplen d' (p + r.len) r.world = .error f := by
  rw [outcome_error_iff he, hcall]
  simp

theorem proto_outOfRange_iff (he : e.Registered) (hm : e.mem = Memory.ofList bytes) {d : Decoder}
    (hd : d ∈ Decoder.ip.successors) :
    outcome e bytes.length d p w = .error .outOfRange ↔
      ¬ ProtoFits e bytes.length p w.bucket.L4.fingerprint.isSome (some d) := by
  rw [outcome_proto he hd]
  rcases proto_cases hd with rfl | rfl | rfl | rfl
  · have hcall := @decodeTcp_outOfRange_iff e p (leftAt bytes.length p) w he
    refine hcall.trans ?_
    rw [TcpReadable, readable_captured hm (by decide), readable_captured hm (by decide),
      readable_captured hm (by decide), ProtoFits, TcpFits]
    by_cases hfix : p + 14 ≤ bytes.length
    · have h4 : p + 4 ≤ bytes.length := by omega
      by_cases hwin : p + 14 + 2 ≤ bytes.length <;> simp [hfix, h4, hwin]
    · simp [hfix]
  · refine (decodeUdp_needs (n := leftAt bytes.length p)).outOfRange_iff.trans ?_
    rw [readable_captured hm (by decide), ProtoFits]
  · refine (decodeIcmp_needs (n := leftAt bytes.length p)).outOfRange_iff.trans ?_
    rw [readable_captured hm (by decide), ProtoFits]
  · refine (decodeIcmp6_needs (n := leftAt bytes.length p)).outOfRange_iff.trans ?_
    rw [readable_captured hm (by decide), ProtoFits]

theorem proto_next_outOfRange_iff (he : e.Registered) (hm : e.mem = Memory.ofList bytes)
    {finger : Bool} {proto : Nat}
    (hf : proto = LN_TYPE_TCP → w.bucket.L4.fingerprint.isSome = finger) :
    (∃ d, protoDecoder proto = some d ∧ More bytes.length p ∧
        outcome e bytes.length d p w = .error .outOfRange) ↔
      ¬ (More bytes.length p → ProtoFits e bytes.length p finger (protoDecoder proto)) := by
  cases hp : protoDecoder proto with
  | none => simp [ProtoFits]
  | some d =>
    have hfits : ProtoFits e bytes.length p finger (some d) ↔
        ProtoFits e bytes.length p w.bucket.L4.fingerprint.isSome (some d) := by
      by_cases htcp : proto = LN_TYPE_TCP
      · rw [hf htcp]
      · have hd : d ≠ .tcp := fun h => htcp (protoDecoder_tcp.mp (h ▸ hp))
        cases d <;> first | exact Iff.rfl | exact absurd rfl hd
    rw [hfits]
    simp [proto_outOfRange_iff he hm (protoDecoder_mem hp)]

theorem net_outOfRange_iff (he : e.Registered) (hm : e.mem = Memory.ofList bytes) {d : Decoder}
    (hd : d ∈ Decoder.eth.successors) (hw : w.bucket.L4.fingerprint = none) :
    outcome e bytes.length d p w = .error .outOfRange ↔
      ¬ NetFits e bytes.length p (some d) := by
  rcases net_cases hd with rfl | rfl | rfl
  · have hneeds := @decodeIp_needs e p (leftAt bytes.length p) w
    have hfix : IpReadable e.mem p ↔ p + 20 ≤ bytes.length := by
      rw [IpReadable, readable_captured hm (by decide), readable_captured hm (by decide),
        readable_captured hm (by decide), readable_captured hm (by decide)]
      omega
    by_cases hr : IpReadable e.mem p
    · obtain ⟨r, hcall⟩ := hneeds.ok hr
      obtain ⟨hnext, hlen, hf⟩ := decodeIp_steers he hcall
      rw [outcome_next_iff he (d := .ip) hcall, hnext, hlen, proto_next_outOfRange_iff he hm hf]
      simp [NetFits, IpFits, hfix.mp hr]
    · have hshort : ¬ p + 20 ≤ bytes.length := fun h => hr (hfix.mpr h)
      have herr : outcome e bytes.length .ip p w = .error .outOfRange :=
        outcome_error (hneeds.short hr)
      simp [herr, NetFits, IpFits, hshort]
  · have hneeds := @decodeIp6_needs e p (leftAt bytes.length p) w
    have hfix : e.mem.Readable (p + 4) 36 ↔ p + 40 ≤ bytes.length :=
      readable_captured hm (by decide)
    by_cases hr : e.mem.Readable (p + 4) 36
    · obtain ⟨r, hcall⟩ := hneeds.ok hr
      obtain ⟨hnext, hlen, hL4⟩ := decodeIp6_steers he hcall
      have hf : r.world.bucket.L4.fingerprint.isSome = false := by rw [hL4, hw]; rfl
      rw [outcome_next_iff he (d := .ip6) hcall, hnext, hlen,
        proto_next_outOfRange_iff he hm (fun _ => hf)]
      simp [NetFits, Ip6Fits, hfix.mp hr]
    · have hshort : ¬ p + 40 ≤ bytes.length := fun h => hr (hfix.mpr h)
      have herr : outcome e bytes.length .ip6 p w = .error .outOfRange :=
        outcome_error (hneeds.short hr)
      simp [herr, NetFits, Ip6Fits, hshort]
  · have hneeds := @decodeArp_needs e p (leftAt bytes.length p) w
    have hfix : ArpReadable e.mem p ↔ ArpFits e bytes.length p := by
      rw [ArpReadable, ArpFits, readable_captured hm (by decide), readable_captured hm (by decide),
        readable_captured hm (by decide), readable_captured hm (by decide),
        readable_captured hm (by decide)]
      omega
    rw [NetFits, ← hfix, ← hneeds.outOfRange_iff, outcome_error_iff he]
    refine or_iff_left ?_
    rintro ⟨r, d', hcall, hnext, -⟩
    have hnone := (decodeArp_ok (n := leftAt bytes.length p) hcall).1
    rw [hnone] at hnext
    cases hnext

theorem net_next_outOfRange_iff (he : e.Registered) (hm : e.mem = Memory.ofList bytes)
    (hw : w.bucket.L4.fingerprint = none) {proto : Nat} :
    (∃ d, netDecoder proto = some d ∧ More bytes.length p ∧
        outcome e bytes.length d p w = .error .outOfRange) ↔
      ¬ (More bytes.length p → NetFits e bytes.length p (netDecoder proto)) := by
  cases hp : netDecoder proto with
  | none => simp [NetFits]
  | some d => simp [net_outOfRange_iff he hm (netDecoder_mem hp) hw]

theorem link_outOfRange_iff (he : e.Registered) (hm : e.mem = Memory.ofList bytes) {link : Link}
    (hw : w.bucket.L4.fingerprint = none) :
    outcome e bytes.length link.decoder 0 w = .error .outOfRange ↔
      ¬ FrameFits e bytes.length link := by
  cases link with
  | eth =>
    have hneeds := @decodeEth_needs e 0 (leftAt bytes.length 0) w
    have hfix : e.mem.Readable 0 14 ↔ 14 ≤ bytes.length := by
      rw [readable_captured hm (by decide), Nat.zero_add]
    by_cases hr : e.mem.Readable 0 14
    · obtain ⟨r, hcall⟩ := hneeds.ok hr
      obtain ⟨hnext, hlen, hL4⟩ := decodeEth_steers he hcall
      rw [outcome_next_iff he (d := Link.eth.decoder) hcall, hnext, hlen,
        net_next_outOfRange_iff he hm (by rw [hL4, hw])]
      simp [FrameFits, EthFits, hfix.mp hr]
    · have hshort : ¬ 14 ≤ bytes.length := fun h => hr (hfix.mpr h)
      have herr : outcome e bytes.length Link.eth.decoder 0 w = .error .outOfRange :=
        outcome_error (hneeds.short hr)
      simp only [herr, FrameFits, EthFits, hshort, false_and, not_false_eq_true]
  | wifi =>
    have hneeds := @decodeWifi_needs e 0 (leftAt bytes.length 0) w
    have hfix : WifiReadable e.mem 0 ↔ 16 ≤ bytes.length ∧
        (net16 (e.mem.byte 0) (e.mem.byte 1) = WIFI_DATA → 32 ≤ bytes.length) := by
      rw [WifiReadable, readable_captured hm (by decide), readable_captured hm (by decide),
        readable_captured hm (by decide)]
      simp only [Nat.zero_add]
      omega
    by_cases hr : WifiReadable e.mem 0
    · obtain ⟨r, hcall⟩ := hneeds.ok hr
      obtain ⟨hL4, hkind⟩ := decodeWifi_steers he hcall
      rw [outcome_next_iff he (d := Link.wifi.decoder) hcall]
      obtain ⟨h16, h32⟩ := hfix.mp hr
      by_cases hdata : net16 (e.mem.byte 0) (e.mem.byte 1) = WIFI_DATA
      · rw [if_pos hdata] at hkind
        rw [hkind.1, hkind.2, net_next_outOfRange_iff he hm (by rw [hL4, hw])]
        simp [FrameFits, WifiFits, h16, hdata, h32 hdata]
      · rw [if_neg hdata] at hkind
        simp [hkind, FrameFits, WifiFits, h16, hdata]
    · have hshort : ¬ FrameFits e bytes.length .wifi := by
        rintro ⟨h16, hdata⟩
        exact hr (hfix.mpr ⟨h16, fun hd => (hdata hd).1⟩)
      have herr : outcome e bytes.length Link.wifi.decoder 0 w = .error .outOfRange :=
        outcome_error (hneeds.short hr)
      simp only [herr, hshort, not_false_eq_true]

/-- No byte outside the capture is looked at exactly if the capture holds the headers that
its own fields announce, as long as the loop counts any data left. -/
theorem lmapDecode_in_range_iff (h : Host) (r : Running) (addr : Nat) (bytes : List UInt8)
    (hlt : bytes.length < 2 ^ 32) :
    lmapDecode h r.globals (Packet.captured addr bytes hlt) ≠ .error .outOfRange ↔
      FrameFits (lmapEnv h r.globals (Packet.captured addr bytes hlt)) bytes.length r.link := by
  have hm : (lmapEnv h r.globals (Packet.captured addr bytes hlt)).mem = Memory.ofList bytes :=
    Memory.append_none bytes
  have he := r.env_registered h (Packet.captured addr bytes hlt)
  have hlink := @link_outOfRange_iff _ _ ⟨r.stats, dbBucketAlloc⟩ he hm r.link rfl
  rw [Ne, r.lmapDecode_error_iff]
  exact (not_congr hlink).trans not_not

theorem lmapDecode_in_range_udp :
    FrameFits (lmapEnv ⟨false, 64⟩ (Running.listed .eth).globals
      (Packet.captured 0 udpFrame (by decide))) udpFrame.length .eth :=
  (lmapDecode_in_range_iff ⟨false, 64⟩ (Running.listed .eth) 0 udpFrame (by decide)).mp
    (by decide +kernel)

def cutFrame : List UInt8 := List.replicate 12 2 ++ [8, 0] ++ [0x45, 0, 0, 28, 0, 0]

theorem cutFrame_outOfRange : lmapDecode ⟨false, 64⟩ (Running.listed .eth).globals
    (Packet.captured 0 cutFrame (by decide)) = .error .outOfRange := by decide +kernel

end Lmap
