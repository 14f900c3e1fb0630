import Lmap.Reads
import Lmap.ChainBound

/-!
Whether a layer can be handed bytes of the header before it: what a decoder reports
as its length is taken from the packet, and nothing holds it to the fixed header.
-/

set_option autoImplicit false

namespace Lmap

def Decoder.headerLen : Decoder → Nat
  | .eth => 14
  | .wifi => 32
  | .ip => 20
  | .ip6 => 40
  | .tcp => 20
  | .udp => 8
  | .arp | .icmp | .icmp6 | .dhcpd | .dhcpc => 0

/-- The calls of `decode_tcp` that return: no SYN, or a fingerprint to complete and options
that come to an end. -/
def TcpReturns (e : Env) (c : Chain) : Prop :=
  TcpReadable e.mem c.data ∧ (SynAt e.mem c.data →
    e.mem.Readable (c.data + 14) 2 ∧ c.world.bucket.L4.fingerprint.isSome ∧
    OptionsReadable e.mem (c.data + 20) (optArea e c.data) ∧
    Tlv.Advancing (optWidth e.mem) (c.data + 20) (optArea e c.data))

/-- Before the call: the length field of a header that another decoder follows is not less
than the header itself. -/
def LongEnough (e : Env) (c : Chain) : Prop :=
  match c.decoder with
  | .ip => IpReadable e.mem c.data →
      (protoDecoder (e.mem.byte (c.data + 9)).toNat).isSome → 5 ≤ ihlAt e.mem c.data
  | .ip6 => e.mem.Readable (c.data + 4) 36 →
      (protoDecoder (e.mem.byte (c.data + 6)).toNat).isSome →
      load16 e.host (e.mem.byte (c.data + 4)) (e.mem.byte (c.data + 5)) ≠ 0
  | .tcp => TcpReturns e c →
      (appDecoder (net16 (e.mem.byte (c.data + 2)) (e.mem.byte (c.data + 3)))).isSome →
      5 ≤ offAt e.mem c.data
  | _ => True

def CoversHeader (e : Env) (c : Chain) : Prop :=
  ∀ r, c.call e = .ok r → r.next.isSome → c.decoder.headerLen ≤ r.len

theorem coversHeader_iff {e : Env} (he : e.Registered) (c : Chain) :
    CoversHeader e c ↔ LongEnough e c := by
  obtain ⟨d, p, left, w⟩ := c
  unfold CoversHeader Chain.call LongEnough
  simp only
  generalize Chain.buflen ⟨d, p, left, w⟩ = n
  cases d with
  | eth =>
    simp only [Decoder.headerLen, iff_true]
    intro r hcall _
    exact Nat.le_of_eq (decodeEth_steers (n := n) he hcall).2.1.symm
  | wifi =>
    simp only [Decoder.headerLen, iff_true]
    intro r hcall hnext
    obtain ⟨-, hkind⟩ := decodeWifi_steers he hcall
    split at hkind
    · exact Nat.le_of_eq hkind.2.symm
    · rw [hkind] at hnext
      cases hnext
  | ip =>
    have hneeds := @decodeIp_needs e p n w
    simp only [Decoder.headerLen]
    constructor
    · intro hcov hr hproto
      obtain ⟨r, hcall⟩ := hneeds.ok hr
      obtain ⟨hnext, hlen, -⟩ := decodeIp_steers (n := n) he hcall
      have := hcov r hcall (hnext ▸ hproto)
      omega
    · intro hlong r hcall hnext
      obtain ⟨hn, hlen, -⟩ := decodeIp_steers (n := n) he hcall
      have := hlong (hneeds.of_ok hcall) (hn ▸ hnext)
      omega
  | ip6 =>
    have hneeds := @decodeIp6_needs e p n w
    simp only [Decoder.headerLen]
    constructor
    · intro hcov hr hproto hzero
      obtain ⟨r, hcall⟩ := hneeds.ok hr
      obtain ⟨hnext, hlen, -⟩ := decodeIp6_steers (n := n) he hcall
      have := hcov r hcall (hnext ▸ hproto)
      rw [hlen, ip6LenAt, ip6Len, if_pos hzero] at this
      omega
    · intro hlong r hcall hnext
      obtain ⟨hn, hlen, -⟩ := decodeIp6_steers (n := n) he hcall
      have hne := hlong (hneeds.of_ok hcall) (hn ▸ hnext)
      rw [hlen, ip6LenAt, ip6Len, if_neg hne, IP6_HDR_LEN]
      omega
  | tcp =>
    have hreturns : (∃ r, decodeTcp e p n w = .ok r) ↔
        TcpReturns e ⟨.tcp, p, left, w⟩ := decodeTcp_isOk_iff he
    simp only [Decoder.headerLen]
    constructor
    · intro hcov hr happ
      obtain ⟨r, hcall⟩ := hreturns.mpr hr
      obtain ⟨hnext, hlen⟩ := decodeTcp_steers (n := n) he hcall
      have := hcov r hcall (hnext ▸ happ)
      omega
    · intro hlong r hcall hnext
      obtain ⟨hn, hlen⟩ := decodeTcp_steers (n := n) he hcall
      have := hlong (hreturns.mp ⟨r, hcall⟩) (hn ▸ hnext)
      omega
  | udp =>
    simp only [Decoder.headerLen, iff_true]
    intro r hcall _
    obtain ⟨_, _, _, _, -, rfl⟩ :=
      (decodeUdp_ok_iff (n := n) he).mp hcall
    exact Nat.le_refl 8
  | arp | icmp | icmp6 | dhcpd | dhcpc => simp [Decoder.headerLen]

/-- Each decoder is given bytes that begin behind the header before them. -/
def LayersApart (e : Env) (calls : List Chain) : Prop :=
  (∀ c ∈ calls, CoversHeader e c) ∧
    calls.IsChain (fun c c' => c.data + c.decoder.headerLen ≤ c'.data)

theorem apart_step {e : Env} {c c' : Chain} (hcov : CoversHeader e c)
    (hb : chainBody e c = .again c') : c.data + c.decoder.headerLen ≤ c'.data := by
  obtain ⟨r, d, hcall, hnext, -, rfl⟩ := chainBody_again_iff.mp hb
  have := hcov r hcall (by simp [hnext])
  simp only
  omega

/-- In a run, the layers stay apart exactly if every header that another decoder follows
gives itself its own length at least. -/
theorem lmapDecode_layers_apart_iff (h : Host) (r : Running) (pkt : Packet) (n : Nat) :
    LayersApart (lmapEnv h r.globals pkt) (lmapCalls n h r.globals pkt) ↔
      ∀ c ∈ lmapCalls n h r.globals pkt, LongEnough (lmapEnv h r.globals pkt) c := by
  have he := r.env_registered h pkt
  simp only [← coversHeader_iff he]
  refine ⟨And.left, fun hcov => ⟨hcov, ?_⟩⟩
  have hrounds : (lmapCalls n h r.globals pkt).IsChain
      (fun c c' => chainBody (lmapEnv h r.globals pkt) c = .again c') := by
    rw [Running.lmapCalls_eq]
    exact Loop.visits_chain n _
  exact hrounds.imp_of_mem_imp (fun c c' hc _ hb => apart_step (hcov c hc) hb)

/-- An IPv4 header that gives its length as 0: it is read again as the UDP header. -/
def shortHeaderFrame : List UInt8 :=
  List.replicate 12 2 ++ [8, 0] ++ [0x40, 0, 0, 28, 0, 0, 0, 0, 64, 17, 0, 0] ++
    List.replicate 8 1 ++ [4, 0, 0, 53, 0, 8, 0, 0]

def shortHeaderPacket : Packet := ⟨0, shortHeaderFrame, by decide, fun _ => none⟩

theorem shortHeader_not_apart :
    ¬ LayersApart (lmapEnv ⟨false, 64⟩ (Running.listed .eth).globals shortHeaderPacket)
      (lmapCalls 4 ⟨false, 64⟩ (Running.listed .eth).globals shortHeaderPacket) := by
  rintro ⟨-, hchain⟩
  have hoffsets : ((lmapCalls 4 ⟨false, 64⟩ (Running.listed .eth).globals
      shortHeaderPacket).map fun c => (c.decoder, c.data)) =
      [(.eth, 0), (.ip, 14), (.udp, 14)] := by decide +kernel
  have hmap : ((lmapCalls 4 ⟨false, 64⟩ (Running.listed .eth).globals
      shortHeaderPacket).map fun c => (c.decoder, c.data)).IsChain
      (fun c c' => c.2 + c.1.headerLen ≤ c'.2) := (List.isChain_map _).mpr hchain
  rw [hoffsets] at hmap
  revert hmap
  decide

end Lmap
