import Lmap.DecoderSpec
import Lmap.Library.Agree
import Mathlib.Data.List.Chain

/-!
The decoding loop over whole runs: which decoder can follow which, how many are
called, what they count, and which part of the packet each of them is given.
-/

set_option autoImplicit false

namespace Lmap

section Round

variable {e : Env} {c c' : Chain} {w : World} {f : Fault}

theorem chainBody_again_iff : chainBody e c = .again c' ↔ ∃ r d, c.call e = .ok r ∧
    r.next = some d ∧ 0 < int32 (c.datalen - r.len) ∧
    c' = ⟨d, c.data + r.len, int32 (c.datalen - r.len), r.world⟩ := by
  unfold chainBody
  cases hc : c.call e with
  | error f => simp
  | ok r =>
    cases hn : r.next with
    | none =>
      by_cases hpos : 0 < int32 (c.datalen - r.len) <;> simp [hn, hpos]
    | some d =>
      by_cases hpos : 0 < int32 (c.datalen - r.len) <;> simp [hn, hpos, eq_comm]

theorem chainBody_ok_iff : chainBody e c = .leave (.ok w) ↔ ∃ r, c.call e = .ok r ∧ r.world = w ∧
    (0 < int32 (c.datalen - r.len) → r.next = none) := by
  unfold chainBody
  cases hc : c.call e with
  | error f => simp
  | ok r =>
    cases hn : r.next with
    | none =>
      by_cases hpos : 0 < int32 (c.datalen - r.len) <;> simp [hn, hpos]
    | some d =>
      by_cases hpos : 0 < int32 (c.datalen - r.len) <;> simp [hn, hpos]

theorem chainBody_error_iff : chainBody e c = .leave (.error f) ↔ c.call e = .error f := by
  unfold chainBody
  cases hc : c.call e with
  | error f' => simp
  | ok r =>
    cases hn : r.next with
    | none =>
      by_cases hpos : 0 < int32 (c.datalen - r.len) <;> simp [hn, hpos]
    | some d =>
      by_cases hpos : 0 < int32 (c.datalen - r.len) <;> simp [hn, hpos]

end Round

def Chain.after (c : Chain) (r : Ret) (d : Decoder) : Chain :=
  ⟨d, c.data + r.len, int32 (c.datalen - r.len), r.world⟩

structure Hands (R : Chain → Chain → Prop) (W : World → World → Prop) (c c' : Chain)
    (r r' : Ret) : Prop where
  next : r.next = r'.next
  len : r.len = r'.len
  world : W r.world r'.world
  again : ∀ d, r.next = some d → R (c.after r d) (c'.after r' d)

theorem chainBody_agree {R : Chain → Chain → Prop} {W : World → World → Prop}
    {F : Fault → Fault → Prop} {e e' : Env} {c c' : Chain} (hlen : c.datalen = c'.datalen)
    (h : Agree F (Hands R W c c') (c.call e) (c'.call e')) :
    Loop.StepRel R (Agree F W) (chainBody e c) (chainBody e' c') := by
  unfold chainBody
  cases hc : c.call e with
  | error f =>
    cases hc' : c'.call e' with
    | error f' =>
      rw [hc, hc'] at h
      exact .leave h
    | ok r' =>
      rw [hc, hc'] at h
      exact h.elim
  | ok r =>
    cases hc' : c'.call e' with
    | error f' =>
      rw [hc, hc'] at h
      exact h.elim
    | ok r' =>
      rw [hc, hc'] at h
      obtain ⟨hnext, hrlen, hworld, hagain⟩ := h
      simp only [← hnext, ← hlen, ← hrlen]
      by_cases hmore : 0 < int32 (c.datalen - r.len)
      · rw [if_pos hmore, if_pos hmore]
        cases hn : r.next with
        | none => exact .leave hworld
        | some d =>
          have hd := hagain d hn
          simp only [Chain.after, ← hlen, ← hrlen] at hd
          exact .again hd
      · rw [if_neg hmore, if_neg hmore]
        exact .leave hworld

def Decoder.layer : Decoder → Int
  | .eth | .wifi => LINK_LAYER
  | .arp | .ip | .ip6 => NET_LAYER
  | .icmp | .icmp6 | .tcp | .udp => PROTO_LAYER
  | .dhcpd | .dhcpc => APP_LAYER

def Decoder.successors : Decoder → List Decoder
  | .eth | .wifi => [.ip, .ip6, .arp]
  | .ip | .ip6 => [.tcp, .udp, .icmp, .icmp6]
  | .tcp | .udp => [.dhcpd, .dhcpc]
  | .arp | .icmp | .icmp6 | .dhcpd | .dhcpc => []

/-- The counter that a call of the decoder advances. -/
def Decoder.stat : Decoder → Option String
  | .eth | .wifi => some "TOTAL"
  | .ip | .ip6 => some "IP"
  | .arp => some "ARP"
  | .icmp | .icmp6 => some "ICMP"
  | .tcp => some "TCP"
  | .udp => some "UDP"
  | .dhcpd | .dhcpc => none

def Decoder.counted (d : Decoder) (s : Stats) : Stats :=
  match d.stat with
  | some a => updateStat s a 1
  | none => s

theorem layer_successor {d d' : Decoder} (h : d' ∈ d.successors) : d'.layer = d.layer + 1 := by
  revert h
  cases d <;> cases d' <;> decide

theorem net_cases {d : Decoder} (h : d ∈ Decoder.eth.successors) :
    d = .ip ∨ d = .ip6 ∨ d = .arp := by
  simpa [Decoder.successors] using h

theorem proto_cases {d : Decoder} (h : d ∈ Decoder.ip.successors) :
    d = .tcp ∨ d = .udp ∨ d = .icmp ∨ d = .icmp6 := by
  simpa [Decoder.successors] using h

theorem layer_le (d : Decoder) : d.layer ≤ 5 := by cases d <;> decide

theorem layer_ge (d : Decoder) : 2 ≤ d.layer := by cases d <;> decide

theorem netDecoder_mem {n : Nat} {d : Decoder} (h : netDecoder n = some d) :
    d ∈ Decoder.eth.successors := by
  unfold netDecoder at h
  grind [Decoder.successors]

theorem protoDecoder_mem {n : Nat} {d : Decoder} (h : protoDecoder n = some d) :
    d ∈ Decoder.ip.successors := by
  unfold protoDecoder at h
  grind [Decoder.successors]

theorem appDecoder_mem {n : Nat} {d : Decoder} (h : appDecoder n = some d) :
    d ∈ Decoder.tcp.successors := by
  unfold appDecoder at h
  grind [Decoder.successors]

/-- Every decoder counts its call once, and hands over to the next layer or to none. -/
theorem call_spec {e : Env} (he : e.Registered) {d : Decoder} {buf n : Nat} {w : World} {r : Ret}
    (h : d.call e buf n w = .ok r) :
    r.world.stats = d.counted w.stats ∧ ∀ d', r.next = some d' → d' ∈ d.successors := by
  cases d with
  | eth =>
    obtain ⟨_, _, a, b, -, -, -, rfl⟩ := (decodeEth_ok_iff (n := n) he).mp h
    exact ⟨rfl, fun d' hd => netDecoder_mem hd⟩
  | wifi =>
    obtain ⟨t0, t1, _, _, -, -, -, -, hw, hn⟩ := (decodeWifi_ok_iff he).mp h
    refine ⟨by rw [hw]; rfl, fun d' hd => ?_⟩
    split at hn
    · obtain ⟨a, b, -, hnext, -⟩ := hn
      exact netDecoder_mem (hnext ▸ hd)
    · split at hn
      · simp [hn.1] at hd
      · simp [hn.1] at hd
  | arp =>
    obtain ⟨hnext, hstats, -⟩ := decodeArp_ok (n := n) h
    exact ⟨hstats, fun d' hd => by simp [hnext] at hd⟩
  | ip =>
    obtain ⟨_, _, protocol, _, _, _, -, -, -, -, -, -, rfl⟩ := (decodeIp_ok_iff (n := n) he).mp h
    exact ⟨rfl, fun d' hd => protoDecoder_mem hd⟩
  | ip6 =>
    obtain ⟨_, _, nextHdr, _, _, _, -, -, -, -, rfl⟩ := (decodeIp6_ok_iff (n := n) he).mp h
    exact ⟨rfl, fun d' hd => protoDecoder_mem hd⟩
  | icmp =>
    obtain ⟨_, -, rfl⟩ := (decodeIcmp_ok_iff (n := n)).mp h
    exact ⟨rfl, fun d' hd => by simp at hd⟩
  | icmp6 =>
    obtain ⟨_, -, rfl⟩ := (decodeIcmp6_ok_iff (n := n)).mp h
    exact ⟨rfl, fun d' hd => by simp at hd⟩
  | tcp =>
    obtain ⟨_, _, _, _, _, _, _, -, -, -, rfl⟩ := (decodeTcp_ok_iff (n := n) he).mp h
    exact ⟨rfl, fun d' hd => appDecoder_mem hd⟩
  | udp =>
    obtain ⟨_, _, _, _, -, rfl⟩ := (decodeUdp_ok_iff (n := n) he).mp h
    exact ⟨rfl, fun d' hd => appDecoder_mem hd⟩
  | dhcpd =>
    cases h
    exact ⟨rfl, fun d' hd => by simp at hd⟩
  | dhcpc =>
    cases h
    exact ⟨rfl, fun d' hd => by simp at hd⟩

theorem chain_successor {e : Env} (he : e.Registered) {c c' : Chain}
    (h : chainBody e c = .again c') : c'.decoder ∈ c.decoder.successors := by
  obtain ⟨r, d, hcall, hnext, -, rfl⟩ := chainBody_again_iff.mp h
  exact (call_spec he hcall).2 d hnext

def Chain.rank (c : Chain) : Nat := (5 - c.decoder.layer).toNat

theorem chain_rank {e : Env} (he : e.Registered) {c c' : Chain}
    (h : chainBody e c = .again c') : c'.rank < c.rank := by
  have hl := layer_successor (chain_successor he h)
  have hle := layer_le c'.decoder
  unfold Chain.rank
  omega

theorem chain_isSome {e : Env} (he : e.Registered) {n : Nat} {c : Chain} (hn : c.rank < n) :
    (Loop.run (chainBody e) n c).isSome :=
  Loop.run_isSome (P := fun _ => True) (fun _ _ _ h => ⟨trivial, chain_rank he h⟩) trivial hn

theorem chain_length {e : Env} (he : e.Registered) (n : Nat) (c : Chain) :
    (Loop.visits (chainBody e) n c).length ≤ c.rank + 1 :=
  Loop.visits_length_le (P := fun _ => True) (fun _ _ _ h => ⟨trivial, chain_rank he h⟩) n trivial

theorem chain_path {e : Env} (he : e.Registered) (n : Nat) (c : Chain) :
    (Loop.visits (chainBody e) n c).IsChain (fun c c' => c'.decoder ∈ c.decoder.successors) :=
  (Loop.visits_chain n c).imp (fun _ _ h => chain_successor he h)

namespace Running

variable (r : Running) (h : Host) (pkt : Packet)

theorem lmapCalls_eq (n : Nat) : lmapCalls n h r.globals pkt =
    Loop.visits (chainBody (lmapEnv h r.globals pkt)) n
      (lmapStart r.globals pkt r.link.decoder) := by
  simp only [lmapCalls, l2Decoder_globals]

theorem lmapDecode_eq : lmapDecode h r.globals pkt =
    match Loop.run (chainBody (lmapEnv h r.globals pkt)) ROUNDS
      (lmapStart r.globals pkt r.link.decoder) with
    | some (.ok w) => .ok (w.bucket, { r.globals with stats := w.stats })
    | some (.error f) => .error f
    | none => .error .hang := by
  cases hrun : Loop.run (chainBody (lmapEnv h r.globals pkt)) ROUNDS
      (lmapStart r.globals pkt r.link.decoder) with
  | none => simp only [lmapDecode, l2Decoder_globals, hrun]
  | some res => cases res <;> simp only [lmapDecode, l2Decoder_globals, hrun]

theorem rank_lmapStart : (lmapStart r.globals pkt r.link.decoder).rank = 3 := by
  cases r.link <;> simp [Chain.rank, lmapStart, Link.decoder, Decoder.layer, LINK_LAYER]

theorem calls_length (n : Nat) : (lmapCalls n h r.globals pkt).length ≤ 4 := by
  have hlen := chain_length (r.env_registered h pkt) n (lmapStart r.globals pkt r.link.decoder)
  rw [rank_lmapStart] at hlen
  rwa [lmapCalls_eq]

theorem calls_path (n : Nat) : (lmapCalls n h r.globals pkt).IsChain
    (fun c c' => c'.decoder ∈ c.decoder.successors) := by
  rw [lmapCalls_eq]
  exact chain_path (r.env_registered h pkt) n _

theorem calls_layer (n : Nat) : (lmapCalls n h r.globals pkt).Pairwise
    (fun c c' => c.decoder.layer < c'.decoder.layer) := by
  have hstep : (lmapCalls n h r.globals pkt).IsChain
      (fun c c' => c.decoder.layer < c'.decoder.layer) := by
    refine (r.calls_path h pkt n).imp (fun c c' hsucc => ?_)
    have := layer_successor hsucc
    omega
  have htrans : IsTrans Chain (fun c c' => c.decoder.layer < c'.decoder.layer) :=
    ⟨fun _ _ _ => lt_trans⟩
  exact List.isChain_iff_pairwise.mp hstep

theorem lmapDecode_returns
    (hret : ∀ c ∈ lmapCalls ROUNDS h r.globals pkt,
      ∃ ret, c.call (lmapEnv h r.globals pkt) = .ok ret) :
    ∃ out, lmapDecode h r.globals pkt = .ok out := by
  rw [lmapCalls_eq] at hret
  rw [lmapDecode_eq]
  have hsome := chain_isSome (r.env_registered h pkt) (n := ROUNDS)
    (c := lmapStart r.globals pkt r.link.decoder) (by rw [rank_lmapStart]; decide)
  obtain ⟨res, hres⟩ := Option.isSome_iff_exists.mp hsome
  cases res with
  | ok w => exact ⟨_, by rw [hres]⟩
  | error f =>
    obtain ⟨c, hc, hleave⟩ := Loop.run_visits hres
    obtain ⟨ret, hcall⟩ := hret c hc
    rw [chainBody_error_iff] at hleave
    cases hcall.symm.trans hleave

end Running

def countOf (a : String) (ds : List Decoder) : Nat := ds.countP (fun d => d.stat = some a)

theorem counted_names (d : Decoder) (s : Stats) : (d.counted s).names = s.names := by
  unfold Decoder.counted
  cases d.stat <;> simp

theorem getStat_counted (d : Decoder) {s : Stats} {a : String} (ha : a ∈ s.names) :
    getStat (d.counted s) a = getStat s a + (if d.stat = some a then 1 else 0) := by
  unfold Decoder.counted
  cases hd : d.stat with
  | none => simp
  | some b =>
    by_cases hb : b = a <;> simp [getStat_updateStat, hb, ha]

theorem getStat_foldl_counted (ds : List Decoder) (s : Stats) :
    (ds.foldl (fun s d => d.counted s) s).names = s.names ∧ ∀ a ∈ s.names,
      getStat (ds.foldl (fun s d => d.counted s) s) a =
        getStat s a + UInt32.ofNat (countOf a ds) := by
  induction ds generalizing s with
  | nil => simp [countOf]
  | cons d ds ih =>
    obtain ⟨hnames, hget⟩ := ih (d.counted s)
    rw [counted_names] at hnames hget
    refine ⟨hnames, fun a ha => ?_⟩
    rw [List.foldl_cons, hget a ha, getStat_counted d ha]
    by_cases hd : d.stat = some a
    · have hcount : countOf a (d :: ds) = 1 + countOf a ds := by simp [countOf, hd, Nat.add_comm]
      rw [hcount, UInt32.ofNat_add, if_pos hd, UInt32.add_assoc]
      rfl
    · have hcount : countOf a (d :: ds) = countOf a ds := by simp [countOf, hd]
      rw [hcount, if_neg hd, UInt32.add_zero]

theorem run_stats {e : Env} (he : e.Registered) {n : Nat} {c : Chain} {w : World}
    (h : Loop.run (chainBody e) n c = some (.ok w)) :
    w.stats = ((Loop.visits (chainBody e) n c).map Chain.decoder).foldl
      (fun s d => d.counted s) c.world.stats := by
  induction n generalizing c with
  | zero => simp [Loop.run] at h
  | succ n ih =>
    cases hb : chainBody e c with
    | again c' =>
      rw [Loop.run_again hb] at h
      obtain ⟨r, d, hcall, -, -, rfl⟩ := chainBody_again_iff.mp hb
      rw [ih h, Loop.visits_again hb, List.map_cons, List.foldl_cons, (call_spec he hcall).1]
    | leave res =>
      rw [Loop.run_leave hb, Option.some.injEq] at h
      subst h
      obtain ⟨r, hcall, rfl, -⟩ := chainBody_ok_iff.mp hb
      rw [Loop.visits_leave hb, (call_spec he hcall).1]
      rfl

theorem path_counts (ds : List Decoder) (d : Decoder)
    (h : (d :: ds).IsChain (fun d d' => d' ∈ d.successors)) :
    countOf "TOTAL" (d :: ds) = (if d.layer = 2 then 1 else 0) ∧
    countOf "IP" (d :: ds) + countOf "ARP" (d :: ds) ≤ (if d.layer ≤ 3 then 1 else 0) ∧
    countOf "TCP" (d :: ds) + countOf "UDP" (d :: ds) + countOf "ICMP" (d :: ds) ≤
      countOf "IP" (d :: ds) + (if d.layer = 4 then 1 else 0) := by
  induction ds generalizing d with
  | nil => cases d <;> decide
  | cons d' ds ih =>
    rw [List.isChain_cons_cons] at h
    obtain ⟨hsucc, hrest⟩ := h
    have := ih d' hrest
    have hcons : ∀ a, countOf a (d :: d' :: ds) =
        countOf a (d' :: ds) + (if d.stat = some a then 1 else 0) := by
      intro a
      simp [countOf, List.countP_cons]
    simp only [hcons]
    cases d <;> cases d' <;> simp [Decoder.successors] at hsucc <;>
      simp [Decoder.layer, Decoder.stat, LINK_LAYER, NET_LAYER, PROTO_LAYER, APP_LAYER] at * <;>
      omega

/-- The books of a run: the counters hold the number of calls, and these are in order. -/
structure Ledger (s : Stats) (packets : Nat) (count : String → Nat) : Prop where
  stat : ∀ a ∈ s.names, getStat s a = UInt32.ofNat (count a)
  total : count "TOTAL" = packets
  net : count "IP" + count "ARP" ≤ count "TOTAL"
  proto : count "TCP" + count "UDP" + count "ICMP" ≤ count "IP"

namespace Running

variable {r : Running} {h : Host} {pkt : Packet} {b : Bucket} {g : Globals}

theorem lmapDecode_ok (hd : lmapDecode h r.globals pkt = .ok (b, g)) :
    ∃ r' : Running, r'.globals = g ∧ r'.link = r.link ∧
      r'.stats = ((lmapCalls ROUNDS h r.globals pkt).map Chain.decoder).foldl
        (fun s d => d.counted s) r.stats := by
  rw [lmapDecode_eq] at hd
  split at hd
  · rename_i w hw
    have hstats := run_stats (r.env_registered h pkt) hw
    rw [← lmapCalls_eq] at hstats
    have hnames := (getStat_foldl_counted
      ((lmapCalls ROUNDS h r.globals pkt).map Chain.decoder) r.stats).1
    have hreg : ∀ a, a ∈ w.stats.names ↔ a ∈ r.boot.globals.stats.names := by
      intro a
      rw [hstats, ← r.registered]
      exact iff_of_eq (congrArg (a ∈ ·) hnames)
    cases hd
    exact ⟨⟨r.boot, r.raw, r.link, w.stats, hreg⟩, rfl, rfl, hstats⟩
  · cases hd
  · cases hd

theorem ledger_step {r' : Running} {n : Nat} {count : String → Nat}
    (hl : Ledger r.stats n count)
    (hs : r'.stats = ((lmapCalls ROUNDS h r.globals pkt).map Chain.decoder).foldl
      (fun s d => d.counted s) r.stats) :
    ∃ count', Ledger r'.stats (n + 1) count' := by
  obtain ⟨c, cs, hcalls, hlink⟩ : ∃ c cs, lmapCalls ROUNDS h r.globals pkt = c :: cs ∧
      c.decoder.layer = 2 := by
    refine ⟨_, _, r.lmapCalls_eq h pkt ROUNDS, ?_⟩
    cases r.link <;> rfl
  have hpath := r.calls_path h pkt ROUNDS
  rw [hcalls] at hs hpath
  have hchain : (c.decoder :: cs.map Chain.decoder).IsChain (fun d d' => d' ∈ d.successors) :=
    (List.isChain_cons_map Chain.decoder).mpr hpath
  obtain ⟨htotal, hnet, hproto⟩ := path_counts _ _ hchain
  rw [hlink] at htotal hnet hproto
  obtain ⟨hnames, hget⟩ := getStat_foldl_counted ((c :: cs).map Chain.decoder) r.stats
  have hl1 := hl.total
  have hl2 := hl.net
  have hl3 := hl.proto
  refine ⟨fun a => count a + countOf a ((c :: cs).map Chain.decoder), ?_, ?_, ?_, ?_⟩
  · intro a ha
    rw [hs, hnames] at ha
    rw [hs, hget a ha, hl.stat a ha, UInt32.ofNat_add]
  all_goals
    simp only [List.map_cons] at *
    norm_num at htotal hnet hproto
    omega

theorem ledger_run {pkts : List Packet} {bs : List Bucket} {n : Nat} {count : String → Nat}
    (hl : Ledger r.stats n count) (hrun : lmapDecodeAll h r.globals pkts = .ok (bs, g)) :
    ∃ (r' : Running) (count' : String → Nat), r'.globals = g ∧
      Ledger r'.stats (n + pkts.length) count' := by
  induction pkts generalizing r n count bs with
  | nil =>
    cases hrun
    exact ⟨r, count, rfl, hl⟩
  | cons pkt pkts ih =>
    simp only [lmapDecodeAll, bind_ok_iff] at hrun
    obtain ⟨⟨b, g1⟩, hd, ⟨bs', g2⟩, hrest, heq⟩ := hrun
    cases heq
    obtain ⟨r1, rfl, -, hstats⟩ := lmapDecode_ok hd
    obtain ⟨count1, hl1⟩ := ledger_step hl hstats
    obtain ⟨r', count', hr', hl'⟩ := ih hl1 hrest
    exact ⟨r', count', hr', by rwa [List.length_cons, Nat.add_comm pkts.length, ← Nat.add_assoc]⟩

end Running

/-- Whatever the packets hold, at most four decoders run on each, of rising layers, and the
counters of any run of fewer than 2^32 packets agree with each other. -/
theorem lmapDecode_layers_counters :
    (∀ (h : Host) (r : Running) (pkt : Packet),
      (∀ n, (lmapCalls n h r.globals pkt).length ≤ 4 ∧
        (lmapCalls n h r.globals pkt).Pairwise (fun c c' => c.decoder.layer < c'.decoder.layer)) ∧
      ((∀ c ∈ lmapCalls ROUNDS h r.globals pkt,
          ∃ ret, c.call (lmapEnv h r.globals pkt) = .ok ret) →
        ∃ out, lmapDecode h r.globals pkt = .ok out)) ∧
    (∀ (h : Host) (boot : Boot) (raw : Bool) (link : Link) (pkts : List Packet)
      (bs : List Bucket) (g : Globals), pkts.length < 2 ^ 32 →
      lmapDecodeAll h (Running.fresh boot raw link).globals pkts = .ok (bs, g) →
      (getStat g.stats "TOTAL").toNat = pkts.length ∧
      (getStat g.stats "IP").toNat + (getStat g.stats "ARP").toNat ≤
        (getStat g.stats "TOTAL").toNat ∧
      (getStat g.stats "TCP").toNat + (getStat g.stats "UDP").toNat +
          (getStat g.stats "ICMP").toNat ≤ (getStat g.stats "IP").toNat) := by
  refine ⟨fun h r pkt => ⟨fun n => ⟨r.calls_length h pkt n, r.calls_layer h pkt n⟩,
    r.lmapDecode_returns h pkt⟩, ?_⟩
  intro h boot raw link pkts bs g hlen hrun
  have hstart : Ledger (Running.fresh boot raw link).stats 0 (fun _ => 0) :=
    ⟨fun a _ => boot.getStat_zero a, rfl, Nat.le_refl _, Nat.le_refl _⟩
  obtain ⟨r', count, rfl, hl⟩ := Running.ledger_run hstart hrun
  have htotal := hl.total
  have hnet := hl.net
  have hproto := hl.proto
  have hcount : ∀ a ∈ InitFn.all.map InitFn.stat, count a < 2 ^ 32 →
      (getStat r'.globals.stats a).toNat = count a := by
    intro a ha hlt
    have hreg : a ∈ r'.stats.names := (r'.registered a).mpr ((r'.boot.mem_names a).mpr ha)
    have hstat : getStat r'.globals.stats a = UInt32.ofNat (count a) := hl.stat a hreg
    rw [hstat, UInt32.toNat_ofNat_of_lt' hlt]
  rw [hcount "TOTAL" (by decide) (by omega), hcount "IP" (by decide) (by omega),
    hcount "ARP" (by decide) (by omega), hcount "TCP" (by decide) (by omega),
    hcount "UDP" (by decide) (by omega), hcount "ICMP" (by decide) (by omega)]
  omega

def udpFrame : List UInt8 :=
  List.replicate 12 2 ++ [8, 0] ++ ([0x45, 0, 0, 28, 0, 0, 0, 0, 64, 17, 0, 0] ++
    List.replicate 8 1) ++ [4, 0, 0, 53, 0, 8, 0, 0]

def udpPacket : Packet := ⟨0, udpFrame, by decide, fun _ => none⟩

theorem lmapDecode_layers_counters_udp : ∃ bs g,
    lmapDecodeAll ⟨false, 64⟩ (Running.listed .eth).globals [udpPacket] = .ok (bs, g) ∧
    (getStat g.stats "TOTAL").toNat = 1 ∧
    (getStat g.stats "IP").toNat + (getStat g.stats "ARP").toNat ≤
      (getStat g.stats "TOTAL").toNat ∧
    (getStat g.stats "TCP").toNat + (getStat g.stats "UDP").toNat +
      (getStat g.stats "ICMP").toNat ≤ (getStat g.stats "IP").toNat := by
  have hok : (lmapDecodeAll ⟨false, 64⟩ (Running.listed .eth).globals [udpPacket]).isOk = true := by
    decide +kernel
  cases hrun : lmapDecodeAll ⟨false, 64⟩ (Running.listed .eth).globals [udpPacket] with
  | error f =>
    rw [hrun] at hok
    cases hok
  | ok out =>
    exact ⟨out.1, out.2, rfl, lmapDecode_layers_counters.2 _ _ _ _ _ _ _ (by decide) hrun⟩

end Lmap
