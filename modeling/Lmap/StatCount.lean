import Lmap.NetworkOrder

/-!
The counters against the calls of the decoders whose init functions registered them, over any
sequence of packets.
-/

set_option autoImplicit false

namespace Lmap

def Decoder.initFn : Decoder → InitFn
  | .arp => .arp
  | .dhcpd | .dhcpc => .dhcp
  | .eth => .eth
  | .icmp => .icmp
  | .icmp6 => .icmp6
  | .ip => .ip
  | .ip6 => .ip6
  | .tcp => .tcp
  | .udp => .udp
  | .wifi => .wifi

def Decoder.registered (d : Decoder) : String := d.initFn.stat

def Decoder.IsDhcp (d : Decoder) : Prop := d = .dhcpd ∨ d = .dhcpc

instance (d : Decoder) : Decidable d.IsDhcp := inferInstanceAs (Decidable (_ ∨ _))

def lmapCallsAll (h : Host) : Globals → List Packet → List Decoder
  | _, [] => []
  | g, pkt :: pkts =>
    (lmapCalls ROUNDS h g pkt).map Chain.decoder ++
      match lmapDecode h g pkt with
      | .ok (_, g) => lmapCallsAll h g pkts
      | .error _ => []

/-- Every counter holds, modulo 2^32, the number of calls of the decoders it was registered for. -/
def StatsCount (s : Stats) (calls : List Decoder) : Prop :=
  ∀ a ∈ InitFn.all.map InitFn.stat,
    (getStat s a).toNat = calls.countP (fun d => d.registered = a) % 2 ^ 32

theorem stat_registered (d : Decoder) :
    d.stat = if d.registered = "DHCP" then none else some d.registered := by
  cases d <;> decide

theorem registered_dhcp (d : Decoder) : d.registered = "DHCP" ↔ d.IsDhcp := by
  cases d <;> decide

theorem countOf_registered (a : String) (ds : List Decoder) :
    countOf a ds = if a = "DHCP" then 0 else ds.countP fun d => d.registered = a := by
  have htest : ∀ d : Decoder, d.stat = some a ↔ a ≠ "DHCP" ∧ d.registered = a := by
    intro d
    rw [stat_registered]
    by_cases hd : d.registered = "DHCP"
    · rw [if_pos hd]
      refine iff_of_false nofun ?_
      rintro ⟨hne, ha⟩
      exact hne (ha.symm.trans hd)
    · rw [if_neg hd, Option.some.injEq]
      exact ⟨fun ha => ⟨fun hdhcp => hd (ha.trans hdhcp), ha⟩, And.right⟩
  by_cases ha : a = "DHCP"
  · rw [if_pos ha, countOf, List.countP_eq_zero]
    intro d _
    rw [decide_eq_true_eq, htest]
    exact fun h => h.1 ha
  · rw [if_neg ha, countOf]
    simp only [htest, ha, ne_eq, not_false_eq_true, true_and]

section Packets

variable {e : Env} {caplen : Nat} {link : Link} {w v : World}

def segLen (m : Memory) (seg : Nat) : Decoder → Nat
  | .tcp => offAt m seg * 4
  | _ => 8

/-- The packet is taken for TCP or UDP, to the server or the client port of DHCP, and data is left
after the length reported of that header. -/
def CarriesDhcp (e : Env) (link : Link) (caplen : Nat) : Prop :=
  ∃ d seg, d.HasPorts ∧ PortsAt e link caplen d seg ∧
    (wire16 e.mem (seg + 2) = LP_TYPE_DHCPD ∨ wire16 e.mem (seg + 2) = LP_TYPE_DHCPC) ∧
    More caplen (seg + segLen e.mem seg d)

theorem appDecoder_dhcp {port : Nat} {d : Decoder} (h : appDecoder port = some d) :
    d.IsDhcp ∧ (port = LP_TYPE_DHCPD ∨ port = LP_TYPE_DHCPC) := by
  unfold appDecoder at h
  split at h
  · cases h
    exact ⟨.inl rfl, .inl ‹_›⟩
  split at h
  · cases h
    exact ⟨.inr rfl, .inr ‹_›⟩
  · cases h

theorem appDecoder_of_dhcp {port : Nat} (h : port = LP_TYPE_DHCPD ∨ port = LP_TYPE_DHCPC) :
    ∃ d : Decoder, d.IsDhcp ∧ appDecoder port = some d := by
  rcases h with rfl | rfl
  · exact ⟨.dhcpd, .inl rfl, rfl⟩
  · exact ⟨.dhcpc, .inr rfl, rfl⟩

theorem ports_steers (he : e.Registered) {d : Decoder} (hd : d.HasPorts) {p : Nat} {r : Ret}
    (hcall : callAt e caplen d p w = .ok r) :
    r.next = appDecoder (wire16 e.mem (p + 2)) ∧ r.len = segLen e.mem p d := by
  rcases hd with rfl | rfl
  · exact decodeTcp_steers (n := leftAt caplen p) he hcall
  · obtain ⟨s0, s1, d0, d1, hm, rfl⟩ := (decodeUdp_ok_iff (n := leftAt caplen p) he).mp hcall
    have h2 : e.mem.byte (p + 2) = d0 := hm.byte_eq (i := 2) rfl
    have h3 : e.mem.byte (p + 3) = d1 := hm.byte_eq (i := 3) rfl
    rw [wire16, h2, h3]
    exact ⟨rfl, rfl⟩

theorem dhcp_predecessor {d d' : Decoder} (h : d' ∈ d.successors) (hd : d'.IsDhcp) :
    d.HasPorts := by
  unfold Decoder.HasPorts
  revert h
  rcases hd with rfl | rfl <;> cases d <;> decide

theorem dhcp_call_iff (he : e.Registered) (hout : outcome e caplen link.decoder 0 w = .ok v) :
    (∃ c ∈ callsFrom e caplen link.decoder 0 w, c.decoder.IsDhcp) ↔ CarriesDhcp e link caplen := by
  constructor
  · rintro ⟨c, hc, hdhcp⟩
    rcases Loop.visits_pred hc with rfl | ⟨u, hu, hb⟩
    · rcases hdhcp with h | h <;> cases link <;> cases h
    · have hports := dhcp_predecessor (chain_successor he hb) hdhcp
      obtain ⟨hat, -⟩ := outcome_of_call he hu
      rw [hat] at hb
      obtain ⟨r, d', hcall, hnext, hmore, rfl⟩ := chainBody_at_iff.mp hb
      obtain ⟨hn, hlen⟩ := ports_steers he hports hcall
      rw [hlen] at hmore
      exact ⟨_, _, hports, (ports_call_iff he hout hports).mp ⟨u, hu, rfl, rfl⟩,
        (appDecoder_dhcp (hn.symm.trans hnext)).2, hmore⟩
  · rintro ⟨d, seg, hports, hat, hport, hmore⟩
    obtain ⟨u, hu, rfl, rfl⟩ := (ports_call_iff he hout hports).mpr hat
    obtain ⟨hat, hsame⟩ := outcome_of_call he hu
    obtain ⟨r, hcall, -⟩ := outcome_ok_cases he (hsame.trans hout)
    obtain ⟨hn, hlen⟩ := ports_steers he hports hcall
    obtain ⟨d', hdhcp, happ⟩ := appDecoder_of_dhcp hport
    rw [← hlen] at hmore
    have hb : chainBody e u = .again (Chain.at caplen d' (u.data + r.len) r.world) := by
      rw [hat]
      exact chainBody_at_iff.mpr ⟨r, d', hcall, hn.trans happ, hmore, rfl⟩
    exact ⟨_, call_next he hu hb, hdhcp⟩

end Packets

namespace Running

variable {r : Running} {h : Host} {pkts : List Packet} {bs : List Bucket} {g : Globals}

theorem lmapDecodeAll_stats (hrun : lmapDecodeAll h r.globals pkts = .ok (bs, g)) :
    g.stats.names = r.stats.names ∧ ∀ a ∈ r.stats.names,
      getStat g.stats a =
        getStat r.stats a + UInt32.ofNat (countOf a (lmapCallsAll h r.globals pkts)) := by
  induction pkts generalizing r bs with
  | nil =>
    cases hrun
    exact ⟨rfl, fun a _ => by simp [lmapCallsAll, countOf]; rfl⟩
  | cons pkt pkts ih =>
    simp only [lmapDecodeAll, bind_ok_iff] at hrun
    obtain ⟨⟨b, g1⟩, hd, ⟨bs', g2⟩, hrest, heq⟩ := hrun
    cases heq
    obtain ⟨r1, rfl, -, hstats⟩ := lmapDecode_ok hd
    obtain ⟨hnames, hget⟩ := ih hrest
    obtain ⟨hnames1, hget1⟩ := getStat_foldl_counted
      ((lmapCalls ROUNDS h r.globals pkt).map Chain.decoder) r.stats
    rw [← hstats] at hnames1 hget1
    refine ⟨hnames.trans hnames1, fun a ha => ?_⟩
    have happ : lmapCallsAll h r.globals (pkt :: pkts) =
        (lmapCalls ROUNDS h r.globals pkt).map Chain.decoder ++ lmapCallsAll h r1.globals pkts := by
      rw [lmapCallsAll, hd]
    rw [happ, hget a (hnames1 ▸ ha), hget1 a ha, countOf, countOf, countOf, List.countP_append,
      UInt32.ofNat_add, UInt32.add_assoc]

theorem countP_dhcp (r : Running) (h : Host) (pkt : Packet) :
    ((lmapCalls ROUNDS h r.globals pkt).map Chain.decoder).countP (fun d => d.IsDhcp) ≤ 1 := by
  have hlayers : ((lmapCalls ROUNDS h r.globals pkt).map fun c => c.decoder.layer).Nodup := by
    rw [List.nodup_iff_pairwise_ne, List.pairwise_map]
    exact (r.calls_layer h pkt ROUNDS).imp fun hlt => Int.ne_of_lt hlt
  have hcount := List.nodup_iff_count.mp hlayers APP_LAYER
  rw [List.count, List.countP_map] at hcount
  rw [List.countP_map]
  refine Nat.le_trans (List.countP_mono_left fun c _ hc => ?_) hcount
  simp only [Function.comp_apply, decide_eq_true_eq] at hc
  rcases hc with hc | hc <;> rw [Function.comp_apply, hc] <;> decide

end Running

def packetEnv (h : Host) (pkt : Packet) : Env := ⟨h, pkt.addr, pkt.mem, registrations⟩

open Classical in
noncomputable def dhcpPackets (h : Host) (link : Link) (pkts : List Packet) : Nat :=
  pkts.countP fun pkt => CarriesDhcp (packetEnv h pkt) link pkt.caplen

namespace Running

variable {r : Running} {h : Host} {pkt : Packet} {pkts : List Packet} {b : Bucket}
  {bs : List Bucket} {g : Globals}

open Classical in
theorem countP_dhcp_packet (hok : lmapDecode h r.globals pkt = .ok (b, g)) :
    ((lmapCalls ROUNDS h r.globals pkt).map Chain.decoder).countP (fun d => d.IsDhcp) =
      if CarriesDhcp (packetEnv h pkt) r.link pkt.caplen then 1 else 0 := by
  rw [r.lmapDecode_outcome, map_ok_iff] at hok
  obtain ⟨v, hout, -⟩ := hok
  have hiff : (∃ c ∈ lmapCalls ROUNDS h r.globals pkt, c.decoder.IsDhcp) ↔
      CarriesDhcp (packetEnv h pkt) r.link pkt.caplen := by
    rw [r.lmapCalls_from]
    exact dhcp_call_iff (r.env_registered h pkt) hout
  have hle := r.countP_dhcp h pkt
  split
  · rename_i hdhcp
    obtain ⟨c, hc, hd⟩ := hiff.mpr hdhcp
    have hpos : 0 < ((lmapCalls ROUNDS h r.globals pkt).map Chain.decoder).countP
        (fun d => d.IsDhcp) :=
      List.countP_pos_iff.mpr ⟨c.decoder, List.mem_map_of_mem hc, decide_eq_true hd⟩
    omega
  · rename_i hdhcp
    rw [List.countP_map, List.countP_eq_zero]
    intro c hc hd
    exact hdhcp (hiff.mp ⟨c, hc, of_decide_eq_true hd⟩)

open Classical in
theorem countP_dhcp_all (hrun : lmapDecodeAll h r.globals pkts = .ok (bs, g)) :
    (lmapCallsAll h r.globals pkts).countP (fun d => d.IsDhcp) = dhcpPackets h r.link pkts := by
  induction pkts generalizing r bs with
  | nil => rfl
  | cons pkt pkts ih =>
    simp only [lmapDecodeAll, bind_ok_iff] at hrun
    obtain ⟨⟨b, g1⟩, hd, ⟨bs', g2⟩, hrest, heq⟩ := hrun
    cases heq
    obtain ⟨r1, rfl, hlink, -⟩ := lmapDecode_ok hd
    have hrest' := ih hrest
    rw [hlink] at hrest'
    rw [lmapCallsAll, hd, List.countP_append, countP_dhcp_packet hd]
    dsimp only
    rw [hrest', dhcpPackets, dhcpPackets, List.countP_cons, Nat.add_comm]
    exact congrArg _ (if_congr decide_eq_true_iff.symm rfl rfl)

end Running

/-- The counters count the calls of their decoders if and only if the number of packets that
carry DHCP is a multiple of 2^32: no packet is counted as DHCP. -/
theorem stats_count_iff (h : Host) (boot : Boot) (raw : Bool) (link : Link) (pkts : List Packet)
    (bs : List Bucket) (g : Globals)
    (hrun : lmapDecodeAll h (Running.fresh boot raw link).globals pkts = .ok (bs, g)) :
    StatsCount g.stats (lmapCallsAll h (Running.fresh boot raw link).globals pkts) ↔
      2 ^ 32 ∣ dhcpPackets h link pkts := by
  obtain ⟨-, hget⟩ := Running.lmapDecodeAll_stats hrun
  have hcount : _ = dhcpPackets h link pkts := Running.countP_dhcp_all hrun
  have hstat : ∀ a ∈ InitFn.all.map InitFn.stat, (getStat g.stats a).toNat =
      countOf a (lmapCallsAll h (Running.fresh boot raw link).globals pkts) % 2 ^ 32 := by
    intro a ha
    have hzero : getStat (Running.fresh boot raw link).stats a = 0 := boot.getStat_zero a
    rw [hget a ((boot.mem_names a).mpr ha), hzero, UInt32.zero_add, UInt32.toNat_ofNat']
  have hdhcp : (lmapCallsAll h (Running.fresh boot raw link).globals pkts).countP
      (fun d => d.registered = "DHCP") = dhcpPackets h link pkts := by
    simp only [registered_dhcp]
    exact hcount
  constructor
  · intro hall
    have heq := hall "DHCP" (by decide)
    rw [hstat "DHCP" (by decide), countOf_registered, if_pos rfl, hdhcp] at heq
    exact Nat.dvd_of_mod_eq_zero heq.symm
  · intro hdvd a ha
    rw [hstat a ha, countOf_registered]
    split
    · rename_i hname
      subst hname
      rw [hdhcp, Nat.mod_eq_zero_of_dvd hdvd, Nat.zero_mod]
    · rfl

def dhcpFrame : List UInt8 :=
  List.replicate 12 2 ++ [8, 0] ++ ([0x45, 0, 0, 29, 0, 0, 0, 0, 64, 17, 0, 0] ++
    List.replicate 8 1) ++ [0, 68, 0, 67, 0, 9, 0, 0] ++ [1]

def dhcpPacket : Packet := ⟨0, dhcpFrame, by decide, fun _ => none⟩

theorem dhcpPacket_run :
    ((lmapDecodeAll ⟨false, 64⟩ (Running.listed .eth).globals [dhcpPacket]).map
        fun res => getStat res.2.stats "DHCP") = .ok 0 ∧
      lmapCallsAll ⟨false, 64⟩ (Running.listed .eth).globals [dhcpPacket] =
        [.eth, .ip, .udp, .dhcpd] := by
  decide +kernel

theorem dhcpPacket_not_counted : ∃ bs g,
    lmapDecodeAll ⟨false, 64⟩ (Running.listed .eth).globals [dhcpPacket] = .ok (bs, g) ∧
      ¬ StatsCount g.stats
        (lmapCallsAll ⟨false, 64⟩ (Running.listed .eth).globals [dhcpPacket]) := by
  obtain ⟨hstat, hcalls⟩ := dhcpPacket_run
  obtain ⟨⟨bs, g⟩, hrun, hzero⟩ := map_ok_iff.mp hstat
  refine ⟨bs, g, hrun, fun hall => ?_⟩
  have heq := hall "DHCP" (by decide)
  rw [hcalls, hzero] at heq
  revert heq
  decide

theorem stats_count_dhcp : ∃ bs g,
    lmapDecodeAll ⟨false, 64⟩ (Running.listed .eth).globals [dhcpPacket] = .ok (bs, g) ∧
      (StatsCount g.stats
          (lmapCallsAll ⟨false, 64⟩ (Running.listed .eth).globals [dhcpPacket]) ↔
        2 ^ 32 ∣ dhcpPackets ⟨false, 64⟩ .eth [dhcpPacket]) := by
  obtain ⟨⟨bs, g⟩, hrun, -⟩ := map_ok_iff.mp dhcpPacket_run.1
  exact ⟨bs, g, hrun, stats_count_iff ⟨false, 64⟩ Boot.listed false .eth [dhcpPacket] bs g hrun⟩

end Lmap
