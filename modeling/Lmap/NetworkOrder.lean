import Lmap.Captured

/-!
What `db_bucket_send` prints of a bucket. It takes every 16 bit field to be in network
order; the decoders that fill them have to put it there.
-/

set_option autoImplicit false

namespace Lmap

structure Report where
  macSrc : List UInt8
  macDst : List UInt8
  essid : Option (List UInt8)
  ipSrc : IpAddr
  ipDst : IpAddr
  l3Proto : Nat
  ttl : UInt8
  portSrc : Nat
  portDst : Nat
  l4Proto : Nat
  fingerprint : Option Finger
  deriving DecidableEq, Repr

def dbBucketSend (h : Host) (b : Bucket) : Report where
  macSrc := b.L2.macSrc
  macDst := b.L2.macDst
  essid := b.L2.essid
  ipSrc := b.L3.ipSrc
  ipDst := b.L3.ipDst
  l3Proto := ntohs h b.L3.proto
  ttl := b.L3.ttl
  portSrc := ntohs h b.L4.portSrc
  portDst := ntohs h b.L4.portDst
  l4Proto := ntohs h b.L4.proto
  fingerprint := b.L4.fingerprint

def wire16 (m : Memory) (p : Nat) : Nat := net16 (m.byte p) (m.byte (p + 1))

def Chain.etherType (m : Memory) (c : Chain) : Nat :=
  match c.decoder with
  | .wifi => wire16 m (c.data + 30)
  | _ => wire16 m (c.data + 12)

def Chain.ipProtocol (m : Memory) (c : Chain) : Nat :=
  match c.decoder with
  | .ip6 => (m.byte (c.data + 6)).toNat
  | _ => (m.byte (c.data + 9)).toNat

def Decoder.HasPorts (d : Decoder) : Prop := d = .tcp ∨ d = .udp

/-- Every field that the calls have set comes out as the headers have it. -/
structure NetworkOrder (e : Env) (calls : List Chain) (rep : Report) : Prop where
  etherType : ∀ c ∈ calls, ∀ c', chainBody e c = .again c' → c'.decoder.layer = NET_LAYER →
    rep.l3Proto = c.etherType e.mem
  ports : ∀ c ∈ calls, c.decoder.HasPorts →
    rep.portSrc = wire16 e.mem c.data ∧ rep.portDst = wire16 e.mem (c.data + 2)
  protocol : ∀ c ∈ calls, ∀ c', chainBody e c = .again c' → c'.decoder.HasPorts →
    rep.l4Proto = c.ipProtocol e.mem

variable {e : Env} {caplen p n : Nat} {link : Link} {d : Decoder} {w v : World} {r : Ret}

theorem ntohs_htons (h : Host) {x : Nat} (hx : x < 65536) : ntohs h (htons h x) = x := by
  unfold ntohs htons
  cases h.bigEndian with
  | true => rfl
  | false => exact swap16_swap16 hx

def Decoder.linkType : Decoder → Nat
  | .ip => LL_TYPE_IP
  | .ip6 => LL_TYPE_IP6
  | _ => LL_TYPE_ARP

theorem netDecoder_linkType {proto : Nat} (h : netDecoder proto = some d) : proto = d.linkType := by
  unfold netDecoder at h
  grind [Decoder.linkType]

theorem linkType_lt (d : Decoder) : d.linkType < 65536 := by cases d <;> decide

theorem net_sets_proto (he : e.Registered) (hd : d ∈ Decoder.eth.successors)
    (hcall : callAt e caplen d p w = .ok r) :
    r.world.bucket.L3.proto = htons e.host d.linkType := by
  rcases net_cases hd with rfl | rfl | rfl
  · obtain ⟨_, _, _, _, _, _, -, -, -, -, -, -, rfl⟩ :=
      (decodeIp_ok_iff (n := leftAt caplen p) he).mp hcall
    rfl
  · obtain ⟨_, _, _, _, _, _, -, -, -, -, rfl⟩ :=
      (decodeIp6_ok_iff (n := leftAt caplen p) he).mp hcall
    rfl
  · exact decodeArp_L3_proto (n := leftAt caplen p) hcall

theorem proto_keeps_L3 (he : e.Registered) (hd : d ∈ Decoder.ip.successors)
    (hcall : callAt e caplen d p w = .ok r) : r.world.bucket.L3 = w.bucket.L3 := by
  rcases proto_cases hd with rfl | rfl | rfl | rfl
  · obtain ⟨_, _, _, _, _, _, _, -, -, -, rfl⟩ :=
      (decodeTcp_ok_iff (n := leftAt caplen p) he).mp hcall
    rfl
  · obtain ⟨_, _, _, _, -, rfl⟩ := (decodeUdp_ok_iff (n := leftAt caplen p) he).mp hcall
    rfl
  · obtain ⟨_, -, rfl⟩ := (decodeIcmp_ok_iff (n := leftAt caplen p)).mp hcall
    rfl
  · obtain ⟨_, -, rfl⟩ := (decodeIcmp6_ok_iff (n := leftAt caplen p)).mp hcall
    rfl

def Decoder.number : Decoder → Nat
  | .tcp => LN_TYPE_TCP
  | _ => LN_TYPE_UDP

theorem proto_sets_ports (he : e.Registered) (hd : d.HasPorts)
    (hcall : callAt e caplen d p w = .ok r) :
    ntohs e.host r.world.bucket.L4.portSrc = wire16 e.mem p ∧
      ntohs e.host r.world.bucket.L4.portDst = wire16 e.mem (p + 2) ∧
      r.world.bucket.L4.proto = d.number := by
  have hbytes : ∀ {s0 s1 d0 d1 : UInt8}, e.mem.Holds p [s0, s1, d0, d1] →
      net16 s0 s1 = wire16 e.mem p ∧ net16 d0 d1 = wire16 e.mem (p + 2) := by
    intro s0 s1 d0 d1 hm
    have h0 : e.mem.byte p = s0 := hm.byte_eq (i := 0) rfl
    have h1 : e.mem.byte (p + 1) = s1 := hm.byte_eq (i := 1) rfl
    have h2 : e.mem.byte (p + 2) = d0 := hm.byte_eq (i := 2) rfl
    have h3 : e.mem.byte (p + 3) = d1 := hm.byte_eq (i := 3) rfl
    simp only [wire16, h0, h1, h2, h3, and_self]
  rcases hd with rfl | rfl
  · obtain ⟨_, _, _, _, _, _, _, hm, -, -, rfl⟩ :=
      (decodeTcp_ok_iff (n := leftAt caplen p) he).mp hcall
    rw [ntohs_load16, ntohs_load16]
    exact ⟨(hbytes hm).1, (hbytes hm).2, rfl⟩
  · obtain ⟨_, _, _, _, hm, rfl⟩ := (decodeUdp_ok_iff (n := leftAt caplen p) he).mp hcall
    rw [ntohs_load16, ntohs_load16]
    exact ⟨(hbytes hm).1, (hbytes hm).2, rfl⟩

theorem outcome_net_proto (he : e.Registered) (hd : d ∈ Decoder.eth.successors)
    (hout : outcome e caplen d p w = .ok v) :
    v.bucket.L3.proto = htons e.host d.linkType := by
  obtain ⟨r, hcall, ⟨rfl, -⟩ | ⟨d', hnext, -, hout'⟩⟩ := outcome_ok_cases he hout
  · exact net_sets_proto he hd hcall
  · have hd' := net_successor hd ((call_spec he hcall).2 d' hnext)
    obtain ⟨r', hcall', -⟩ := outcome_ok_cases he hout'
    cases hout'.symm.trans (outcome_proto_ok he hd' hcall')
    rw [proto_keeps_L3 he hd' hcall']
    exact net_sets_proto he hd hcall

theorem hasPorts_mem (hd : d.HasPorts) : d ∈ Decoder.ip.successors := by
  rcases hd with rfl | rfl <;> simp [Decoder.successors]

theorem outcome_ports (he : e.Registered) (hd : d.HasPorts)
    (hout : outcome e caplen d p w = .ok v) :
    ntohs e.host v.bucket.L4.portSrc = wire16 e.mem p ∧
      ntohs e.host v.bucket.L4.portDst = wire16 e.mem (p + 2) ∧
      v.bucket.L4.proto = d.number := by
  obtain ⟨r, hcall, -⟩ := outcome_ok_cases he hout
  cases hout.symm.trans (outcome_proto_ok he (hasPorts_mem hd) hcall)
  exact proto_sets_ports he hd hcall

theorem link_step (he : e.Registered) {c c' : Chain} (hb : chainBody e c = .again c')
    (hlayer : c'.decoder.layer = NET_LAYER) :
    netDecoder (c.etherType e.mem) = some c'.decoder ∧ c.decoder.layer = LINK_LAYER := by
  have hsucc := layer_successor (chain_successor he hb)
  have hlink : c.decoder.layer = LINK_LAYER := by
    rw [hlayer] at hsucc
    unfold NET_LAYER at hsucc
    unfold LINK_LAYER
    omega
  refine ⟨?_, hlink⟩
  obtain ⟨r, d, hcall, hnext, -, rfl⟩ := chainBody_again_iff.mp hb
  obtain ⟨d0, p, left, w⟩ := c
  cases d0 with
  | eth =>
    have hsteers := (decodeEth_steers (n := uint16 left) he hcall).1
    exact hsteers.symm.trans hnext
  | wifi =>
    obtain ⟨-, hkind⟩ := decodeWifi_steers he hcall
    split at hkind
    · exact hkind.1.symm.trans hnext
    · rw [hkind] at hnext
      cases hnext
  | arp | ip | ip6 | icmp | icmp6 | tcp | udp | dhcpd | dhcpc => cases hlink

theorem protoDecoder_ports {proto : Nat} (hd : d.HasPorts) :
    protoDecoder proto = some d ↔ proto = d.number := by
  have hne : LN_TYPE_UDP ≠ LN_TYPE_TCP := by decide
  unfold protoDecoder
  rcases hd with rfl | rfl <;> grind [Decoder.number]

theorem net_step (he : e.Registered) {c c' : Chain} (hb : chainBody e c = .again c')
    (hports : c'.decoder.HasPorts) :
    c.ipProtocol e.mem = c'.decoder.number ∧ (c.decoder = .ip ∨ c.decoder = .ip6) := by
  have hsucc := chain_successor he hb
  obtain ⟨r, d, hcall, hnext, -, rfl⟩ := chainBody_again_iff.mp hb
  obtain ⟨d0, p, left, w⟩ := c
  rw [← protoDecoder_ports hports]
  have hd0 : d0 = .ip ∨ d0 = .ip6 := by
    revert hsucc
    rcases hports with hd | hd <;> simp only at hd <;> subst hd <;>
      cases d0 <;> simp [Decoder.successors]
  rcases hd0 with rfl | rfl
  · have hsteers := (decodeIp_steers (n := uint16 left) he hcall).1
    exact ⟨hsteers.symm.trans hnext, .inl rfl⟩
  · have hsteers := (decodeIp6_steers (n := uint16 left) he hcall).1
    exact ⟨hsteers.symm.trans hnext, .inr rfl⟩

/-- Every field is in order, but the one that holds the protocol of a transport header. -/
theorem networkOrder_iff (he : e.Registered) (hle : e.host.bigEndian = false)
    (hout : outcome e caplen link.decoder 0 w = .ok v) :
    NetworkOrder e (callsFrom e caplen link.decoder 0 w) (dbBucketSend e.host v.bucket) ↔
      ∀ c ∈ callsFrom e caplen link.decoder 0 w, ¬ c.decoder.HasPorts := by
  have hend : ∀ c ∈ callsFrom e caplen link.decoder 0 w,
      outcome e caplen c.decoder c.data c.world = .ok v := fun c hc =>
    (outcome_of_call he hc).2.trans hout
  constructor
  · intro horder c hc hports
    rcases Loop.visits_pred hc with rfl | ⟨c0, hc0, hb⟩
    · rcases hports with h | h <;> cases link <;> cases h
    · have hproto := horder.protocol c0 hc0 c hb hports
      rw [(net_step he hb hports).1] at hproto
      have hset := (outcome_ports he hports (hend c hc)).2.2
      simp only [dbBucketSend, hset, ntohs, hle] at hproto
      revert hproto
      rcases hports with h | h <;> rw [h] <;> decide
  · intro hno
    refine ⟨fun c hc c' hb hlayer => ?_, fun c hc hports => absurd hports (hno c hc),
      fun c hc c' hb hports => absurd hports (hno c' (call_next he hc hb))⟩
    obtain ⟨hnet, -⟩ := link_step he hb hlayer
    have hset := outcome_net_proto he (netDecoder_mem hnet) (hend c' (call_next he hc hb))
    rw [dbBucketSend, hset, ntohs_htons _ (linkType_lt _), netDecoder_linkType hnet]

def PortsNumber (proto : Nat) : Prop := proto = LN_TYPE_TCP ∨ proto = LN_TYPE_UDP

/-- The packet is taken for TCP or UDP over IPv4 or IPv6, and data is left where the transport
header is looked for. -/
def CarriesPorts (e : Env) (link : Link) (caplen : Nat) : Prop :=
  ∃ hdr, More caplen hdr ∧
    ((LinkNames e.mem link LL_TYPE_IP hdr ∧ PortsNumber (e.mem.byte (hdr + 9)).toNat ∧
        More caplen (hdr + ihlAt e.mem hdr * 4)) ∨
      (LinkNames e.mem link LL_TYPE_IP6 hdr ∧ PortsNumber (e.mem.byte (hdr + 6)).toNat ∧
        More caplen (hdr + ip6LenAt e hdr)))

def PortsAt (e : Env) (link : Link) (caplen : Nat) (d : Decoder) (seg : Nat) : Prop :=
  ∃ hdr, More caplen hdr ∧
    ((LinkNames e.mem link LL_TYPE_IP hdr ∧ (e.mem.byte (hdr + 9)).toNat = d.number ∧
        seg = hdr + ihlAt e.mem hdr * 4) ∨
      (LinkNames e.mem link LL_TYPE_IP6 hdr ∧ (e.mem.byte (hdr + 6)).toNat = d.number ∧
        seg = hdr + ip6LenAt e hdr)) ∧
    More caplen seg

theorem portsNumber_iff {proto : Nat} :
    PortsNumber proto ↔ ∃ d : Decoder, d.HasPorts ∧ proto = d.number := by
  constructor
  · rintro (rfl | rfl)
    · exact ⟨.tcp, .inl rfl, rfl⟩
    · exact ⟨.udp, .inr rfl, rfl⟩
  · rintro ⟨d, rfl | rfl, rfl⟩
    · exact .inl rfl
    · exact .inr rfl

theorem carriesPorts_at :
    CarriesPorts e link caplen ↔ ∃ d seg, d.HasPorts ∧ PortsAt e link caplen d seg := by
  simp only [CarriesPorts, portsNumber_iff]
  constructor
  · rintro ⟨hdr, hmore, ⟨hlink, ⟨d, hd, hnumber⟩, hseg⟩ | ⟨hlink, ⟨d, hd, hnumber⟩, hseg⟩⟩
    · exact ⟨d, _, hd, hdr, hmore, .inl ⟨hlink, hnumber, rfl⟩, hseg⟩
    · exact ⟨d, _, hd, hdr, hmore, .inr ⟨hlink, hnumber, rfl⟩, hseg⟩
  · rintro ⟨d, seg, hd, hdr, hmore, ⟨hlink, hnumber, rfl⟩ | ⟨hlink, hnumber, rfl⟩, hseg⟩
    · exact ⟨hdr, hmore, .inl ⟨hlink, ⟨d, hd, hnumber⟩, hseg⟩⟩
    · exact ⟨hdr, hmore, .inr ⟨hlink, ⟨d, hd, hnumber⟩, hseg⟩⟩

theorem net_ports_iff (he : e.Registered) {proto : Nat} (hnet : netDecoder proto = some d)
    (hd : d = .ip ∨ d = .ip6) {x len : Nat} (hcall : callAt e caplen d p w = .ok r)
    (hnext : r.next = protoDecoder x) (hlen : r.len = len) {d' : Decoder} (hports : d'.HasPorts)
    {seg : Nat} :
    (∃ c ∈ callsFrom e caplen d p w, c.decoder = d' ∧ c.data = seg) ↔
      x = d'.number ∧ seg = p + len ∧ More caplen seg := by
  subst hlen
  constructor
  · rintro ⟨c, hc, rfl, rfl⟩
    rcases (mem_callsFrom_iff he).mp hc with rfl | ⟨r', d', hcall', hn, hmore, hc⟩
    · rcases hd with rfl | rfl <;> rcases hports with h | h <;> cases h
    · cases hcall.symm.trans hcall'
      have hproto := net_successor (netDecoder_mem hnet) ((call_spec he hcall).2 d' hn)
      rcases (mem_callsFrom_iff he).mp hc with rfl | ⟨r3, d3, hcall3, hn3, -, hc⟩
      · exact ⟨(protoDecoder_ports hports).mp (hnext.symm.trans hn), rfl, hmore⟩
      · have happ := proto_successor hproto ((call_spec he hcall3).2 d3 hn3)
        have hlayer := layer_of_call he hc
        rcases happ with rfl | rfl <;> rcases hports with h | h <;> rw [h] at hlayer <;>
          exact absurd hlayer (by decide)
  · rintro ⟨hx, rfl, hmore⟩
    have hproto := (protoDecoder_ports hports).mpr hx
    exact ⟨_, (mem_callsFrom_iff he).mpr
      (.inr ⟨r, d', hcall, hnext.trans hproto, hmore, mem_callsFrom_self he⟩), rfl, rfl⟩

theorem ports_call_iff (he : e.Registered) (hout : outcome e caplen link.decoder 0 w = .ok v)
    {d' : Decoder} (hports : d'.HasPorts) {seg : Nat} :
    (∃ c ∈ callsFrom e caplen link.decoder 0 w, c.decoder = d' ∧ c.data = seg) ↔
      PortsAt e link caplen d' seg := by
  constructor
  · rintro ⟨c, hc, hdec, hdata⟩
    rcases (mem_callsFrom_iff he).mp hc with rfl | ⟨r, d, hcall, hnext, hmore, hc⟩
    · subst hdec
      rcases hports with h | h <;> cases link <;> cases h
    · obtain ⟨proto, hnet, hlink, -⟩ := link_steers he hcall hnext
      rw [outcome_hand he hcall hnext hmore] at hout
      rw [Nat.zero_add] at hmore hc hout
      obtain ⟨r', hcall', -⟩ := outcome_ok_cases he hout
      have hd := netDecoder_mem hnet
      rcases net_cases hd with rfl | rfl | rfl
      · obtain ⟨hn, hlen, -⟩ := decodeIp_steers (n := leftAt caplen r.len) he hcall'
        rw [netDecoder_ip] at hnet
        subst hnet
        obtain ⟨hx, hseg, hmore'⟩ := (net_ports_iff he (netDecoder_ip.mpr rfl) (.inl rfl) hcall' hn
          hlen hports).mp ⟨c, hc, hdec, hdata⟩
        exact ⟨r.len, hmore, .inl ⟨hlink, hx, hseg⟩, hmore'⟩
      · obtain ⟨hn, hlen, -⟩ := decodeIp6_steers (n := leftAt caplen r.len) he hcall'
        rw [netDecoder_ip6] at hnet
        subst hnet
        obtain ⟨hx, hseg, hmore'⟩ := (net_ports_iff he (netDecoder_ip6.mpr rfl) (.inr rfl) hcall' hn
          hlen hports).mp ⟨c, hc, hdec, hdata⟩
        exact ⟨r.len, hmore, .inr ⟨hlink, hx, hseg⟩, hmore'⟩
      · rcases (mem_callsFrom_iff he).mp hc with rfl | ⟨r3, d3, hcall3, hn3, -, -⟩
        · subst hdec
          rcases hports with h | h <;> cases h
        · have hnone := (decodeArp_ok (n := leftAt caplen r.len) hcall3).1
          rw [hnone] at hn3
          cases hn3
  · rintro ⟨hdr, hmore, hcase, hseg⟩
    have hreach : ∀ {proto x len : Nat} {d : Decoder}, LinkNames e.mem link proto hdr →
        netDecoder proto = some d → (d = .ip ∨ d = .ip6) →
        (∀ {w r'}, callAt e caplen d hdr w = .ok r' → r'.next = protoDecoder x ∧ r'.len = len) →
        x = d'.number → seg = hdr + len →
        ∃ c ∈ callsFrom e caplen link.decoder 0 w, c.decoder = d' ∧ c.data = seg := by
      intro proto x len d hlink hnet hd hsteers hx hlen
      obtain ⟨r, hcall, hnext, rfl, -⟩ := @link_reaches e caplen link w he _ _ hlink
      rw [hnet] at hnext
      rw [outcome_hand he hcall hnext (by rwa [Nat.zero_add]), Nat.zero_add] at hout
      obtain ⟨r', hcall', -⟩ := outcome_ok_cases he hout
      obtain ⟨hn, hlen'⟩ := hsteers hcall'
      obtain ⟨c, hc, hat⟩ := (net_ports_iff he hnet hd hcall' hn hlen' hports).mpr ⟨hx, hlen, hseg⟩
      exact ⟨c, mem_callsFrom_link he hcall hnext hmore hc, hat⟩
    rcases hcase with ⟨hlink, hx, hlen⟩ | ⟨hlink, hx, hlen⟩
    · refine hreach hlink (netDecoder_ip.mpr rfl) (.inl rfl) (fun hcall => ?_) hx hlen
      obtain ⟨hn, hlen, -⟩ := decodeIp_steers (n := leftAt caplen hdr) he hcall
      exact ⟨hn, hlen⟩
    · refine hreach hlink (netDecoder_ip6.mpr rfl) (.inr rfl) (fun hcall => ?_) hx hlen
      obtain ⟨hn, hlen, -⟩ := decodeIp6_steers (n := leftAt caplen hdr) he hcall
      exact ⟨hn, hlen⟩

theorem carriesPorts_iff (he : e.Registered) (hout : outcome e caplen link.decoder 0 w = .ok v) :
    (∃ c ∈ callsFrom e caplen link.decoder 0 w, c.decoder.HasPorts) ↔
      CarriesPorts e link caplen := by
  rw [carriesPorts_at]
  constructor
  · rintro ⟨c, hc, hports⟩
    exact ⟨_, _, hports, (ports_call_iff he hout hports).mp ⟨c, hc, rfl, rfl⟩⟩
  · rintro ⟨d, seg, hports, hat⟩
    obtain ⟨c, hc, rfl, -⟩ := (ports_call_iff he hout hports).mpr hat
    exact ⟨c, hc, hports⟩

theorem Running.networkOrder_iff (r : Running) {h : Host} (hle : h.bigEndian = false)
    {pkt : Packet} {b : Bucket} {g : Globals} (hok : lmapDecode h r.globals pkt = .ok (b, g)) :
    NetworkOrder (lmapEnv h r.globals pkt) (lmapCalls ROUNDS h r.globals pkt)
        (dbBucketSend h b) ↔
      ∀ c ∈ lmapCalls ROUNDS h r.globals pkt, ¬ c.decoder.HasPorts := by
  rw [r.lmapDecode_outcome, map_ok_iff] at hok
  obtain ⟨v, hout, heq⟩ := hok
  cases heq
  rw [r.lmapCalls_from]
  exact Lmap.networkOrder_iff (r.env_registered h pkt) hle hout

/-- The bucket of a packet comes out as its headers read exactly if no TCP or UDP header is
among them: their number is kept in the order of the host. -/
theorem lmapDecode_network_order_iff (h : Host) (hle : h.bigEndian = false) (r : Running)
    (pkt : Packet) {b : Bucket} {g : Globals} (hok : lmapDecode h r.globals pkt = .ok (b, g)) :
    NetworkOrder (lmapEnv h r.globals pkt) (lmapCalls ROUNDS h r.globals pkt)
        (dbBucketSend h b) ↔
      ¬ CarriesPorts (lmapEnv h r.globals pkt) r.link pkt.caplen := by
  rw [r.networkOrder_iff hle hok]
  rw [r.lmapDecode_outcome, map_ok_iff] at hok
  obtain ⟨v, hout, -⟩ := hok
  rw [← carriesPorts_iff (r.env_registered h pkt) hout, r.lmapCalls_from]
  simp only [not_exists, not_and]

def arpPacket : Packet :=
  Packet.captured 0 (List.replicate 12 2 ++ [8, 6] ++ [0, 1, 8, 0, 6, 4, 0, 1] ++
    List.replicate 20 1) (by decide)

theorem lmapDecode_network_order_arp : ∃ b g,
    lmapDecode ⟨false, 64⟩ (Running.listed .eth).globals arpPacket = .ok (b, g) ∧
    NetworkOrder (lmapEnv ⟨false, 64⟩ (Running.listed .eth).globals arpPacket)
      (lmapCalls ROUNDS ⟨false, 64⟩ (Running.listed .eth).globals arpPacket)
      (dbBucketSend ⟨false, 64⟩ b) := by
  have hok : (lmapDecode ⟨false, 64⟩ (Running.listed .eth).globals arpPacket).isOk = true := by
    decide +kernel
  cases hrun : lmapDecode ⟨false, 64⟩ (Running.listed .eth).globals arpPacket with
  | error f =>
    rw [hrun] at hok
    cases hok
  | ok out =>
    refine ⟨out.1, out.2, rfl,
      (lmapDecode_network_order_iff ⟨false, 64⟩ rfl (Running.listed .eth) arpPacket hrun).mpr ?_⟩
    rintro ⟨hdr, -, ⟨⟨-, hnames, -⟩, -⟩ | ⟨⟨-, hnames, -⟩, -⟩⟩ <;> revert hnames <;> decide

theorem udpPacket_not_network_order :
    ¬ ∀ b g, lmapDecode ⟨false, 64⟩ (Running.listed .eth).globals udpPacket = .ok (b, g) →
      NetworkOrder (lmapEnv ⟨false, 64⟩ (Running.listed .eth).globals udpPacket)
        (lmapCalls ROUNDS ⟨false, 64⟩ (Running.listed .eth).globals udpPacket)
        (dbBucketSend ⟨false, 64⟩ b) := by
  intro hall
  have hcalls : Decoder.udp ∈ (lmapCalls ROUNDS ⟨false, 64⟩ (Running.listed .eth).globals
      udpPacket).map Chain.decoder := by decide +kernel
  obtain ⟨c, hc, hudp⟩ := List.mem_map.mp hcalls
  have hrun : (lmapDecode ⟨false, 64⟩ (Running.listed .eth).globals udpPacket).map
      (fun res => res.1.L4.proto) = .ok 0x11 := by decide +kernel
  obtain ⟨⟨b, g⟩, hok, -⟩ := map_ok_iff.mp hrun
  exact ((Running.listed .eth).networkOrder_iff rfl hok).mp (hall b g hok) c hc (.inr hudp)

end Lmap
