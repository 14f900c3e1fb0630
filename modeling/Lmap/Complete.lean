import Lmap.Captured
import Lmap.OptionFields

/-!
The fingerprints that reach the database. `decode_ip` leaves one half filled, for
`decode_tcp` to complete or destroy; but the chain can end between the two.
-/

set_option autoImplicit false

namespace Lmap
open CString

def SynDecoded (e : Env) (calls : List Chain) : Prop :=
  ∃ c ∈ calls, c.decoder = .tcp ∧ SynAt e.mem c.data

/-- The placeholders of the flag and of the TTL are gone. -/
structure Complete (f : Finger) : Prop where
  flag : ((cstr f).drop 24).take 1 = lit "S" ∨ ((cstr f).drop 24).take 1 = lit "A"
  ttl : ((cstr f).drop 10).take 2 ≠ lit "TT"

theorem complete_buffer {F : FingerFields} (hF : F.Bounded) :
    Complete F.buffer ↔ F.flag.isSome ∧ F.ttl.isSome := by
  have hflag : F.flagText = lit "S" ∨ F.flagText = lit "A" ↔ F.flag.isSome := by
    unfold FingerFields.flagText
    rcases F.flag with - | - | -
    · decide
    · decide
    · decide
  have httl : FingerFields.number .upper (lit "TT") F.ttl ≠ lit "TT" ↔ F.ttl.isSome := by
    have hall : ∀ i : Fin 256, hex2 .upper i.val ≠ lit "TT" := by decide +kernel
    cases hv : F.ttl with
    | none => simp [FingerFields.number]
    | some v => exact iff_of_true (hall ⟨v, hF.ttl v hv⟩) rfl
  rw [← hflag, ← httl]
  constructor
  · rintro ⟨h1, h2⟩
    rw [FingerFields.flag_cut hF] at h1
    rw [FingerFields.ttl_cut hF] at h2
    exact ⟨h1, h2⟩
  · rintro ⟨h1, h2⟩
    rw [← FingerFields.flag_cut hF] at h1
    rw [← FingerFields.ttl_cut hF] at h2
    exact ⟨h1, h2⟩

structure Begun (F : FingerFields) : Prop where
  bounded : F.Bounded
  ttl : F.ttl.isSome
  flag : F.flag = none
  lt : F.lt.getD 0 ≤ 60

theorem begun_ipFields (ttl : UInt8) (frag : Nat) {ihl : Nat} (h : ihl < 16) :
    Begun (ipFields ttl frag ihl) where
  bounded :=
    { window := (by decide : 0 < 65536)
      mss := by simp [ipFields, FingerFields.push, FingerFields.initial]
      ttl := by
        intro v hv
        obtain rfl := Option.some.inj hv
        exact ttlPredictor_lt (by simpa using ttl.toNat_lt)
      ws := by simp [ipFields, FingerFields.push, FingerFields.initial]
      lt := by
        intro v hv
        obtain rfl := Option.some.inj hv
        simp only [FingerFields.push, FingerFields.initial, Option.getD_none, Int.toNat_natCast]
        omega }
  ttl := rfl
  flag := rfl
  lt := by
    simp only [ipFields, FingerFields.push, FingerFields.initial, Option.getD_none,
      Option.getD_some, Int.toNat_natCast]
    omega

variable {e : Env} {caplen p : Nat} {link : Link} {d : Decoder} {w v : World} {r : Ret}

theorem tcpSyn_complete {F : FingerFields} (hF : Begun F) {off : Nat} (hoff : off < 16)
    {flags : UInt8} {finger : Option Finger} {f : Finger}
    (h : tcpSyn e p off flags (some F.buffer) = .ok finger) (hf : finger = some f) :
    Complete f := by
  have hlt : F.lt.getD 0 + off * 4 < 256 := by
    have := hF.lt
    omega
  cases hwin : readU16 e.host e.mem (p + 14) with
  | error fault =>
    rw [tcpSyn, hwin] at h
    cases h
  | ok x =>
    obtain ⟨a, b, ha, hb, rfl⟩ := readU16_ok_iff.mp hwin
    have hnet : net16 a b < 65536 := by
      have := a.toNat_lt
      have := b.toNat_lt
      rw [net16]
      omega
    rw [tcpSyn_note flags ha hb hlt] at h
    obtain ⟨G, hG, hwalk⟩ := optLoop_walked h
    obtain rfl := Option.some.inj (hf.symm.trans hG)
    refine (complete_buffer (hwalk.bounded (F.synNote_bounded hF.bounded hnet flags hlt))).mpr ?_
    rw [hwalk.flag, hwalk.ttl]
    exact ⟨rfl, hF.ttl⟩

theorem proto_complete (he : e.Registered) (hd : d ∈ Decoder.ip.successors)
    (hw : ∀ f, w.bucket.L4.fingerprint = some f → d = .tcp ∧ ∃ F, f = F.buffer ∧ Begun F)
    (hcall : callAt e caplen d p w = .ok r) {f : Finger}
    (hf : r.world.bucket.L4.fingerprint = some f) :
    d = .tcp ∧ SynAt e.mem p ∧ Complete f := by
  rcases proto_cases hd with rfl | rfl | rfl | rfl
  · obtain ⟨_, _, _, _, o, flags, finger, -, hflags, hfinger, rfl⟩ :=
      (decodeTcp_ok_iff (n := leftAt caplen p) he).mp hcall
    have hbyte : e.mem.byte (p + 13) = flags := hflags.byte_eq (i := 1) rfl
    split at hfinger
    · rename_i hsyn
      cases hw0 : w.bucket.L4.fingerprint with
      | none =>
        rw [hw0, tcpSyn_none] at hfinger
        split at hfinger <;> cases hfinger
      | some f0 =>
        obtain ⟨-, F, rfl, hF⟩ := hw f0 hw0
        rw [hw0] at hfinger
        have ho : o.toNat / 16 < 16 := by
          have := o.toNat_lt
          omega
        exact ⟨rfl, by rwa [SynAt, hbyte], tcpSyn_complete hF ho hfinger hf⟩
    · subst hfinger
      cases hf
  · obtain ⟨_, _, _, _, -, rfl⟩ := (decodeUdp_ok_iff (n := leftAt caplen p) he).mp hcall
    obtain ⟨htcp, -⟩ := hw f hf
    cases htcp
  · obtain ⟨_, -, rfl⟩ := (decodeIcmp_ok_iff (n := leftAt caplen p)).mp hcall
    obtain ⟨htcp, -⟩ := hw f hf
    cases htcp
  · obtain ⟨_, -, rfl⟩ := (decodeIcmp6_ok_iff (n := leftAt caplen p)).mp hcall
    obtain ⟨htcp, -⟩ := hw f hf
    cases htcp

/-- The IPv4 header of a TCP packet at `p` is the last thing that is decoded. -/
def EndsAtIp (e : Env) (caplen p : Nat) : Prop :=
  IpReadable e.mem p ∧ (e.mem.byte (p + 9)).toNat = LN_TYPE_TCP ∧
    ¬ More caplen (p + ihlAt e.mem p * 4)

theorem decodeIp_begun (he : e.Registered) (hcall : callAt e caplen .ip p w = .ok r) :
    if (e.mem.byte (p + 9)).toNat = LN_TYPE_TCP then
      ∃ F, r.world.bucket.L4.fingerprint = some F.buffer ∧ Begun F
    else r.world.bucket.L4.fingerprint = w.bucket.L4.fingerprint := by
  obtain ⟨b0, ttl, protocol, _, _, finger, -, hproto, -, -, -, hfinger, rfl⟩ :=
    (decodeIp_ok_iff (n := leftAt caplen p) he).mp hcall
  have hbyte : e.mem.byte (p + 9) = protocol := hproto.byte_eq (i := 1) rfl
  rw [hbyte]
  split at hfinger
  · rename_i htcp
    obtain ⟨f0, f1, -, rfl⟩ := hfinger
    rw [if_pos htcp]
    exact ⟨_, rfl, begun_ipFields ttl _ (Nat.mod_lt _ (by decide))⟩
  · rename_i htcp
    rw [if_neg htcp]
    exact hfinger

theorem net_complete (he : e.Registered) (hd : d ∈ Decoder.eth.successors)
    (hw : w.bucket.L4.fingerprint = none) (hout : outcome e caplen d p w = .ok v) {f : Finger}
    (hf : v.bucket.L4.fingerprint = some f) :
    (SynDecoded e (callsFrom e caplen d p w) ∧ Complete f) ∨
      (d = .ip ∧ EndsAtIp e caplen p) := by
  obtain ⟨r, hcall, hend⟩ := outcome_ok_cases he hout
  have hbegun : ∀ f, r.world.bucket.L4.fingerprint = some f →
      d = .ip ∧ (e.mem.byte (p + 9)).toNat = LN_TYPE_TCP ∧ ∃ F, f = F.buffer ∧ Begun F := by
    intro f hf
    rcases net_cases hd with rfl | rfl | rfl
    · have hip := decodeIp_begun he hcall
      split at hip
      · rename_i htcp
        obtain ⟨F, hF, hbegun⟩ := hip
        exact ⟨rfl, htcp, F, Option.some.inj (hf.symm.trans hF), hbegun⟩
      · rw [hip, hw] at hf
        cases hf
    · have hL4 := (decodeIp6_steers (n := leftAt caplen p) he hcall).2.2
      rw [hL4, hw] at hf
      cases hf
    · have hL4 := decodeArp_L4 (n := leftAt caplen p) hcall
      rw [hL4, hw] at hf
      cases hf
  rcases hend with ⟨rfl, hstop⟩ | ⟨d', hnext, hmore, hout'⟩
  · obtain ⟨rfl, htcp, -⟩ := hbegun f hf
    obtain ⟨hnext, hlen, -⟩ := decodeIp_steers (n := leftAt caplen p) he hcall
    refine .inr ⟨rfl, (decodeIp_needs (n := leftAt caplen p)).of_ok hcall, htcp, fun hmore => ?_⟩
    rw [← hlen] at hmore
    have hnone := hstop hmore
    rw [hnext, protoDecoder_tcp.mpr htcp] at hnone
    cases hnone
  · have hd' : d' ∈ d.successors := (call_spec he hcall).2 d' hnext
    have hproto : d' ∈ Decoder.ip.successors := net_successor hd hd'
    obtain ⟨r', hcall', -⟩ := outcome_ok_cases he hout'
    have hv := outcome_proto_ok he hproto hcall'
    cases hout'.symm.trans hv
    obtain ⟨rfl, hsyn, hcomplete⟩ := proto_complete he hproto (fun f hf => by
      obtain ⟨rfl, htcp, hF⟩ := hbegun f hf
      have hip := (decodeIp_steers (n := leftAt caplen p) he hcall).1
      rw [hip, protoDecoder_tcp.mpr htcp] at hnext
      exact ⟨(Option.some.inj hnext).symm, hF⟩) hcall' hf
    have hmem := (mem_callsFrom_iff he).mpr
      (.inr ⟨r, .tcp, hcall, hnext, hmore, mem_callsFrom_self he⟩)
    exact .inl ⟨⟨_, hmem, rfl, hsyn⟩, hcomplete⟩

theorem link_complete (he : e.Registered) (hw : w.bucket.L4.fingerprint = none)
    (hout : outcome e caplen link.decoder 0 w = .ok v) {f : Finger}
    (hf : v.bucket.L4.fingerprint = some f) :
    (SynDecoded e (callsFrom e caplen link.decoder 0 w) ∧ Complete f) ∨
      ∃ hdr, LinkNames e.mem link LL_TYPE_IP hdr ∧ More caplen hdr ∧ EndsAtIp e caplen hdr := by
  obtain ⟨r, hcall, hend⟩ := outcome_ok_cases he hout
  have hL4 := link_L4 he hcall
  rcases hend with ⟨rfl, -⟩ | ⟨d, hnext, hmore, hout'⟩
  · rw [hL4, hw] at hf
    cases hf
  · obtain ⟨proto, hproto, hlink, -⟩ := link_steers he hcall hnext
    rw [Nat.zero_add] at hmore hout'
    rcases net_complete he (netDecoder_mem hproto) (by rw [hL4, hw]) hout' hf with
      ⟨⟨c, hc, htcp, hsyn⟩, hcomplete⟩ | ⟨rfl, hends⟩
    · exact .inl ⟨⟨c, mem_callsFrom_link he hcall hnext hmore hc, htcp, hsyn⟩, hcomplete⟩
    · rw [netDecoder_ip] at hproto
      subst hproto
      exact .inr ⟨r.len, hlink, hmore, hends⟩

/-- A packet that ends with the IPv4 header leaves the fingerprint as `decode_ip` began it. -/
theorem link_halfFilled (he : e.Registered) {hdr : Nat}
    (hlink : LinkNames e.mem link LL_TYPE_IP hdr) (hmore : More caplen hdr)
    (hends : EndsAtIp e caplen hdr) :
    ∃ v F, outcome e caplen link.decoder 0 w = .ok v ∧
      v.bucket.L4.fingerprint = some F.buffer ∧ Begun F := by
  obtain ⟨hread, htcp, hstop⟩ := hends
  obtain ⟨r, hcall, hnext, rfl, -⟩ := @link_reaches e caplen link w he _ _ hlink
  rw [netDecoder_ip.mpr rfl] at hnext
  obtain ⟨r', hcall'⟩ := (decodeIp_needs (n := leftAt caplen r.len) (w := r.world)).ok hread
  have hlen := (decodeIp_steers he hcall').2.1
  have hip := @decodeIp_begun e caplen _ _ _ he hcall'
  rw [if_pos htcp] at hip
  obtain ⟨F, hf, hF⟩ := hip
  rw [← hlen] at hstop
  refine ⟨r'.world, F, ?_, hf, hF⟩
  rw [outcome_hand he hcall hnext (by rwa [Nat.zero_add]), Nat.zero_add,
    outcome_ok he (d := .ip) hcall', if_neg hstop]

/-- Only complete fingerprints are sent, but for the packets that end with the IPv4 header of
a TCP packet. -/
theorem lmapDecode_complete_iff (h : Host) (r : Running) (pkt : Packet) :
    (∀ b g f, lmapDecode h r.globals pkt = .ok (b, g) → b.L4.fingerprint = some f →
      SynDecoded (lmapEnv h r.globals pkt) (lmapCalls ROUNDS h r.globals pkt) ∧ Complete f) ↔
    ¬ ∃ hdr, LinkNames pkt.mem r.link LL_TYPE_IP hdr ∧ More pkt.caplen hdr ∧
      EndsAtIp (lmapEnv h r.globals pkt) pkt.caplen hdr := by
  have he := r.env_registered h pkt
  rw [r.lmapCalls_from, r.lmapDecode_outcome]
  simp only [map_ok_iff, Prod.mk.injEq]
  constructor
  · rintro hall ⟨hdr, hlink, hmore, hends⟩
    obtain ⟨v, F, hv, hf, hF⟩ :=
      link_halfFilled (w := ⟨r.stats, dbBucketAlloc⟩) he hlink hmore hends
    obtain ⟨-, hcomplete⟩ := hall _ _ _ ⟨v, hv, rfl, rfl⟩ hf
    have hsome := ((complete_buffer hF.bounded).mp hcomplete).1
    rw [hF.flag] at hsome
    cases hsome
  · rintro hno b g f ⟨v, hv, rfl, -⟩ hf
    exact (link_complete he rfl hv hf).resolve_right hno

/-- A TCP packet over IPv4 of which only the IP header was captured. -/
def headerOnlyFrame : List UInt8 :=
  List.replicate 12 2 ++ [8, 0] ++ [0x45, 0, 0, 40, 0, 0, 0x40, 0, 64, 6, 0, 0] ++
    List.replicate 8 1

theorem headerOnly_halfFilled : ¬ ∀ b g f, lmapDecode ⟨false, 64⟩ (Running.listed .eth).globals
    (Packet.captured 0 headerOnlyFrame (by decide)) = .ok (b, g) → b.L4.fingerprint = some f →
      SynDecoded (lmapEnv ⟨false, 64⟩ (Running.listed .eth).globals
        (Packet.captured 0 headerOnlyFrame (by decide)))
        (lmapCalls ROUNDS ⟨false, 64⟩ (Running.listed .eth).globals
          (Packet.captured 0 headerOnlyFrame (by decide))) ∧ Complete f := by
  have hrun : (lmapDecode ⟨false, 64⟩ (Running.listed .eth).globals
      (Packet.captured 0 headerOnlyFrame (by decide))).map
        (fun res => res.1.L4.fingerprint.map cstr) =
      .ok (some (lit "0000:_MSS:40:WS:0:0:1:0:F:14")) := by decide +kernel
  intro hall
  obtain ⟨⟨b, g⟩, hok, hf⟩ := map_ok_iff.mp hrun
  obtain ⟨f, hf, hcstr⟩ := Option.map_eq_some_iff.mp hf
  obtain ⟨hflag, -⟩ := (hall b g f hok hf).2
  rw [hcstr] at hflag
  revert hflag
  decide

end Lmap
