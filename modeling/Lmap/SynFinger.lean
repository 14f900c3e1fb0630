import Lmap.Outcome

/-!
The fingerprint that `decode_tcp` completes must have been begun by the network
layer. `decode_ip` begins one for every TCP packet; `decode_ip6` does not.
-/

set_option autoImplicit false

namespace Lmap

def LinkNames (m : Memory) (link : Link) (proto hdr : Nat) : Prop :=
  match link with
  | .eth => m.Readable 0 14 ∧ net16 (m.byte 12) (m.byte 13) = proto ∧ hdr = 14
  | .wifi => WifiReadable m 0 ∧ net16 (m.byte 0) (m.byte 1) = WIFI_DATA ∧
      net16 (m.byte 30) (m.byte 31) = proto ∧ hdr = 32

variable {e : Env} {caplen : Nat} {link : Link} {w : World} {r : Ret}

theorem link_L4 (he : e.Registered) (hcall : callAt e caplen link.decoder 0 w = .ok r) :
    r.world.bucket.L4 = w.bucket.L4 := by
  cases link with
  | eth => exact (decodeEth_steers (n := leftAt caplen 0) he hcall).2.2
  | wifi => exact (decodeWifi_steers he hcall).1

theorem link_steers (he : e.Registered) {d : Decoder}
    (h : callAt e caplen link.decoder 0 w = .ok r) (hn : r.next = some d) :
    ∃ proto, netDecoder proto = some d ∧ LinkNames e.mem link proto r.len ∧
      r.world.bucket.L4 = w.bucket.L4 := by
  cases link with
  | eth =>
    obtain ⟨hnext, hlen, hL4⟩ := decodeEth_steers (n := leftAt caplen 0) he h
    rw [Nat.zero_add, Nat.zero_add] at hnext
    exact ⟨_, hnext.symm.trans hn, ⟨(decodeEth_needs (n := leftAt caplen 0)).of_ok h, rfl, hlen⟩,
      hL4⟩
  | wifi =>
    obtain ⟨hL4, hkind⟩ := decodeWifi_steers he h
    split at hkind
    · rename_i hdata
      obtain ⟨hnext, hlen⟩ := hkind
      rw [Nat.zero_add] at hdata
      rw [Nat.zero_add, Nat.zero_add] at hnext
      exact ⟨_, hnext.symm.trans hn, ⟨decodeWifi_needs.of_ok h, hdata, rfl, hlen⟩, hL4⟩
    · rw [hkind] at hn
      cases hn

theorem link_reaches (he : e.Registered) {proto hdr : Nat} (h : LinkNames e.mem link proto hdr) :
    ∃ r, callAt e caplen link.decoder 0 w = .ok r ∧ r.next = netDecoder proto ∧ r.len = hdr ∧
      r.world.bucket.L4 = w.bucket.L4 := by
  cases link with
  | eth =>
    obtain ⟨hr, rfl, rfl⟩ := h
    obtain ⟨r, hcall⟩ := (decodeEth_needs (n := leftAt caplen 0)).ok hr
    obtain ⟨hnext, hlen, hL4⟩ := decodeEth_steers (n := leftAt caplen 0) he hcall
    rw [Nat.zero_add, Nat.zero_add] at hnext
    exact ⟨r, hcall, hnext, hlen, hL4⟩
  | wifi =>
    obtain ⟨hr, hdata, rfl, rfl⟩ := h
    obtain ⟨r, hcall⟩ := decodeWifi_needs.ok hr
    obtain ⟨hL4, hkind⟩ := decodeWifi_steers he hcall
    simp only [Nat.zero_add] at hkind
    rw [if_pos hdata] at hkind
    exact ⟨r, hcall, hkind.1, hkind.2, hL4⟩

theorem netDecoder_ip {proto : Nat} : netDecoder proto = some .ip ↔ proto = LL_TYPE_IP := by
  unfold netDecoder
  grind

theorem netDecoder_ip6 {proto : Nat} : netDecoder proto = some .ip6 ↔ proto = LL_TYPE_IP6 := by
  have hne : LL_TYPE_IP6 ≠ LL_TYPE_IP := by decide
  unfold netDecoder
  grind

theorem protoDecoder_tcp {proto : Nat} : protoDecoder proto = some .tcp ↔ proto = LN_TYPE_TCP := by
  unfold protoDecoder
  grind

def Ip6Tcp (e : Env) (link : Link) (caplen tcp : Nat) : Prop :=
  ∃ hdr, LinkNames e.mem link LL_TYPE_IP6 hdr ∧ More caplen hdr ∧ e.mem.Readable (hdr + 4) 36 ∧
    (e.mem.byte (hdr + 6)).toNat = LN_TYPE_TCP ∧ tcp = hdr + ip6LenAt e hdr ∧ More caplen tcp

theorem tcp_call_origin (he : e.Registered) {c : Chain}
    (hc : c ∈ callsFrom e caplen link.decoder 0 w) (htcp : c.decoder = .tcp) :
    c.world.bucket.L4.fingerprint.isSome ∨ Ip6Tcp e link caplen c.data := by
  rcases (mem_callsFrom_iff he).mp hc with rfl | ⟨r, d, hcall, hnext, hmore, hc⟩
  · cases link <;> cases htcp
  rw [Nat.zero_add] at hmore hc
  obtain ⟨proto, hproto, hlink, -⟩ := link_steers he hcall hnext
  rcases (mem_callsFrom_iff he).mp hc with rfl | ⟨r', d', hcall', hnext', hmore', hc⟩
  · have hd : d ∈ Decoder.eth.successors := netDecoder_mem hproto
    cases htcp
    exact absurd hd (by decide)
  have hd' : d' ∈ d.successors := (call_spec he hcall').2 d' hnext'
  rcases (mem_callsFrom_iff he).mp hc with rfl | ⟨r'', d'', hcall'', hnext'', -, hc⟩
  · cases htcp
    have hd : d = .ip ∨ d = .ip6 := by
      revert hd'
      cases d <;> decide
    rcases hd with rfl | rfl
    · obtain ⟨hn, -, hfinger⟩ := decodeIp_steers (n := leftAt caplen r.len) he hcall'
      rw [hn, protoDecoder_tcp] at hnext'
      exact .inl (hfinger hnext')
    · obtain ⟨hn, hlen, -⟩ := decodeIp6_steers (n := leftAt caplen r.len) he hcall'
      rw [hn, protoDecoder_tcp] at hnext'
      rw [netDecoder_ip6] at hproto
      subst hproto
      rw [hlen] at hmore'
      exact .inr ⟨r.len, hlink, hmore, (decodeIp6_needs (n := leftAt caplen r.len)).of_ok hcall',
        hnext', by rw [hlen]; rfl, by rw [hlen]; exact hmore'⟩
  · have hpath : d ∈ Decoder.eth.successors := netDecoder_mem hproto
    have hd'' := (call_spec he hcall'').2 d'' hnext''
    rcases (mem_callsFrom_iff he).mp hc with rfl | ⟨r3, d3, hcall3, hnext3, -, -⟩
    · cases htcp
      have hno : ∀ d ∈ Decoder.eth.successors, ∀ d' ∈ d.successors,
          Decoder.tcp ∉ d'.successors := by decide
      exact absurd hd'' (hno d hpath d' hd')
    · have hno : ∀ d ∈ Decoder.eth.successors, ∀ d' ∈ d.successors, ∀ d'' ∈ d'.successors,
          d''.successors = [] := by decide
      have hd3 := (call_spec he hcall3).2 d3 hnext3
      rw [hno d hpath d' hd' d'' hd''] at hd3
      cases hd3

theorem tcp_call_ip6 (he : e.Registered) {tcp : Nat} (h : Ip6Tcp e link caplen tcp) :
    ∃ c ∈ callsFrom e caplen link.decoder 0 w, c.decoder = .tcp ∧ c.data = tcp ∧
      c.world.bucket.L4.fingerprint = w.bucket.L4.fingerprint := by
  obtain ⟨hdr, hlink, hmore, hread, hproto, rfl, hmore'⟩ := h
  obtain ⟨r, hcall, hnext, hlen, hL4⟩ := @link_reaches e caplen link w he _ _ hlink
  rw [netDecoder_ip6.mpr rfl] at hnext
  subst hlen
  obtain ⟨r', hcall'⟩ := (decodeIp6_needs (n := leftAt caplen r.len) (w := r.world)).ok hread
  obtain ⟨hnext', hlen', hL4'⟩ := decodeIp6_steers he hcall'
  rw [hproto, protoDecoder_tcp.mpr rfl] at hnext'
  rw [← hlen'] at hmore'
  refine ⟨Chain.at caplen .tcp (r.len + r'.len) r'.world, ?_, rfl, by rw [← hlen']; rfl, ?_⟩
  · refine mem_callsFrom_link he hcall hnext hmore ?_
    exact (mem_callsFrom_iff he).mpr
      (.inr ⟨r', .tcp, hcall', hnext', hmore', mem_callsFrom_self he⟩)
  · simp only [Chain.at, hL4', hL4]

/-- Only `decode_tcp` calls `ON_ERROR`. -/
theorem fatal_is_tcp {d : Decoder} {p n : Nat} {msg : String}
    (h : d.call e p n w = .error (.error msg)) : d = .tcp := by
  cases d with
  | tcp => rfl
  | eth => cases (decodeEth_needs (n := n)).eq_outOfRange h
  | wifi => cases (decodeWifi_needs (n := n)).eq_outOfRange h
  | arp => cases (decodeArp_needs (n := n)).eq_outOfRange h
  | ip => cases (decodeIp_needs (n := n)).eq_outOfRange h
  | ip6 => cases (decodeIp6_needs (n := n)).eq_outOfRange h
  | icmp => cases (decodeIcmp_needs (n := n)).eq_outOfRange h
  | icmp6 => cases (decodeIcmp6_needs (n := n)).eq_outOfRange h
  | udp => cases (decodeUdp_needs (n := n)).eq_outOfRange h
  | dhcpd => cases h
  | dhcpc => cases h

theorem outcome_error_call (he : e.Registered) {d : Decoder} {p : Nat} {f : Fault}
    (h : outcome e caplen d p w = .error f) :
    ∃ c ∈ callsFrom e caplen d p w, c.call e = .error f := by
  have hrank := rank_le (Chain.at caplen d p w)
  obtain ⟨res, hres⟩ := Option.isSome_iff_exists.mp
    (chain_isSome he (n := ROUNDS) (c := Chain.at caplen d p w) (by unfold ROUNDS; omega))
  rw [outcome, hres] at h
  obtain ⟨c, hc, hleave⟩ := Loop.run_visits hres
  simp only at h
  exact ⟨c, hc, chainBody_error_iff.mp (h ▸ hleave)⟩

/-- Every call of `decode_tcp` that sees the SYN flag finds a fingerprint. -/
def SynAllocated (e : Env) (calls : List Chain) : Prop :=
  ∀ c ∈ calls, c.decoder = .tcp → TcpReadable e.mem c.data → SynAt e.mem c.data →
    c.world.bucket.L4.fingerprint.isSome

theorem not_fatal_of_synAllocated (he : e.Registered) {d : Decoder} {p : Nat}
    (h : SynAllocated e (callsFrom e caplen d p w)) (msg : String) :
    outcome e caplen d p w ≠ .error (.error msg) := by
  intro herr
  obtain ⟨c, hc, hcall⟩ := outcome_error_call he herr
  have htcp : c.decoder = .tcp := fatal_is_tcp hcall
  rw [Chain.call, htcp] at hcall
  obtain ⟨-, hread, hsyn, -, hnone⟩ := (decodeTcp_fatal_iff (n := c.buflen) he msg).mp hcall
  have hsome := h c hc htcp hread hsyn
  rw [hnone] at hsome
  cases hsome

theorem Running.lmapCalls_from (r : Running) (h : Host) (pkt : Packet) :
    lmapCalls ROUNDS h r.globals pkt = callsFrom (lmapEnv h r.globals pkt) pkt.caplen
      r.link.decoder 0 ⟨r.stats, dbBucketAlloc⟩ := by
  rw [Running.lmapCalls_eq, callsFrom]
  congr 1

/-- No packet is fatal, and every SYN finds its fingerprint, but for the packets taken for
TCP over IPv6 with the SYN bit set where the TCP header is looked for. -/
theorem lmapDecode_fingerprint_iff (h : Host) (r : Running) (pkt : Packet) :
    ((∀ msg, lmapDecode h r.globals pkt ≠ .error (.error msg)) ∧
      SynAllocated (lmapEnv h r.globals pkt) (lmapCalls ROUNDS h r.globals pkt)) ↔
    ¬ ∃ tcp, Ip6Tcp (lmapEnv h r.globals pkt) r.link pkt.caplen tcp ∧
      TcpReadable pkt.mem tcp ∧ SynAt pkt.mem tcp := by
  have he := r.env_registered h pkt
  rw [r.lmapCalls_from]
  simp only [Ne, r.lmapDecode_error_iff]
  constructor
  · rintro ⟨-, halloc⟩ ⟨tcp, hip6, hread, hsyn⟩
    obtain ⟨c, hc, htcp, rfl, hnone⟩ := tcp_call_ip6 he hip6
    have hsome := halloc c hc htcp hread hsyn
    rw [hnone] at hsome
    cases hsome
  · intro hno
    have halloc : SynAllocated (lmapEnv h r.globals pkt)
        (callsFrom (lmapEnv h r.globals pkt) pkt.caplen r.link.decoder 0
          ⟨r.stats, dbBucketAlloc⟩) := by
      intro c hc htcp hread hsyn
      rcases tcp_call_origin he hc htcp with hsome | hip6
      · exact hsome
      · exact absurd ⟨c.data, hip6, hread, hsyn⟩ hno
    exact ⟨not_fatal_of_synAllocated he halloc, halloc⟩

/-- An IPv6 header that announces a jumbogram and TCP: the header itself is then read as
the TCP header, with a byte of the source address as its flags. -/
def jumboFrame : List UInt8 :=
  List.replicate 12 2 ++ [0x86, 0xDD] ++ [0x60, 0, 0, 0, 0, 0, 6, 64] ++
    [0xfe, 0x80, 0, 0, 0, 2] ++ List.replicate 26 1

theorem jumboFrame_fatal : lmapDecode ⟨false, 64⟩ (Running.listed .eth).globals
    ⟨0, jumboFrame, by decide, fun _ => none⟩ = .error NULL_FINGER := by decide +kernel

end Lmap
