import Lmap.Captured
import Lmap.InitOrder
import Lmap.Library.Settled
import Lmap.Address
import Lmap.StatCount

/-!
Two captures of the same bytes. As long as the decoders stay inside the capture, neither what lies
behind it in memory, nor where it is, nor the program that runs makes a difference.
-/

set_option autoImplicit false

namespace Lmap

section Memory

variable {m m' : Memory}

theorem readU8_settled (h : m.Below m') (p : Nat) :
    Settled .outOfRange (readU8 m p) (readU8 m' p) := by
  cases hp : m p with
  | none => exact .inl (readU8_of_none hp)
  | some b => exact .inr ((readU8_of_some hp).trans (readU8_of_some (h p b hp)).symm)

theorem readU16_settled (h : m.Below m') (host : Host) (p : Nat) :
    Settled .outOfRange (readU16 host m p) (readU16 host m' p) :=
  .bind (readU8_settled h p) fun _ => .bind (readU8_settled h (p + 1)) fun _ => .refl _

theorem readBytes_settled (h : m.Below m') (p n : Nat) :
    Settled .outOfRange (readBytes m p n) (readBytes m' p n) := by
  unfold readBytes
  cases hp : m.slice p n with
  | none => exact .inl rfl
  | some bs =>
    rw [h.slice hp]
    exact .refl _

theorem ipAddrInit_settled (h : m.Below m') (sa : IpAddr) (type : Int) (p : Nat) :
    Settled .outOfRange (ipAddrInit m sa type p) (ipAddrInit m' sa type p) :=
  .ite (.bind (readBytes_settled h p _) fun _ => .refl _)
    (.ite (.bind (readBytes_settled h p _) fun _ => .refl _) (.refl _))

theorem optSwitch_settled (h : m.Below m') (host : Host) (stop : Nat) (w : Walk) :
    Settled .outOfRange (optSwitch host m stop w) (optSwitch host m' stop w) := by
  refine .bind (readU8_settled h _) fun kind => ?_
  refine .ite (.refl _) (.ite (.refl _) (.ite (.refl _) (.ite ?_ (.ite ?_ (.ite ?_ ?_)))))
  · exact .bind (readU8_settled h _) fun _ => .bind (readU8_settled h _) fun _ => .refl _
  · exact .bind (readU8_settled h _) fun _ => .refl _
  · exact .bind_same _ fun _ => .bind (readU8_settled h _) fun _ => .refl _
  · exact .bind (readU8_settled h _) fun _ => .refl _

theorem optLoop_settled (h : m.Below m') (host : Host) (start stop : Nat)
    (finger : Option Finger) :
    Settled .outOfRange (optLoop host m start stop finger) (optLoop host m' start stop finger) := by
  have hbody : ∀ w, optBody host m stop w = .leave (.error .outOfRange) ∨
      optBody host m stop w = optBody host m' stop w := by
    intro w
    unfold optBody
    split
    · rcases optSwitch_settled h host stop w with hw | hw
      · rw [hw]
        exact .inl rfl
      · rw [hw]
        exact .inr rfl
    · exact .inr rfl
  unfold optLoop
  rcases Settled.loop hbody (stop - start + 1) ⟨start, finger⟩ with hrun | hrun
  · rw [hrun]
    exact .inl rfl
  · rw [hrun]
    exact .refl _

end Memory

section Call

variable {e : Env} {m : Memory}

def Env.widen (e : Env) (m : Memory) : Env := { e with mem := m }

theorem arpAddrs_settled (h : e.mem.Below m) (earp : Nat) (type : Int) (L3 : L3Info) :
    Settled .outOfRange (arpAddrs e earp type L3) (arpAddrs (e.widen m) earp type L3) :=
  .bind (ipAddrInit_settled h _ _ _) fun _ => .bind (ipAddrInit_settled h _ _ _) fun _ => .refl _

theorem ipFinger_settled (h : e.mem.Below m) (buf : Nat) (ttl : UInt8) (ihl : Nat) :
    Settled .outOfRange (ipFinger e buf ttl ihl) (ipFinger (e.widen m) buf ttl ihl) :=
  .bind_same _ fun _ => .bind (readU16_settled h _ _) fun _ => .refl _

theorem tcpSyn_settled (h : e.mem.Below m) (buf off : Nat) (flags : UInt8)
    (finger : Option Finger) :
    Settled .outOfRange (tcpSyn e buf off flags finger)
      (tcpSyn (e.widen m) buf off flags finger) := by
  refine .bind (readU16_settled h _ _) fun _ => .bind_same _ fun _ => .bind_same _ fun _ => ?_
  exact .bind_same _ fun _ => optLoop_settled h _ _ _ _

theorem call_settled (h : e.mem.Below m) (d : Decoder) (buf n : Nat) (w : World) :
    Settled .outOfRange (d.call e buf n w) (d.call (e.widen m) buf n w) := by
  cases d with
  | arp =>
    refine .bind (readU8_settled h _) fun _ => .bind (readU8_settled h _) fun _ => ?_
    refine .bind (.ite (arpAddrs_settled h _ _ _) (.refl _)) fun _ => ?_
    exact .bind (.ite (arpAddrs_settled h _ _ _) (.refl _)) fun _ => .refl _
  | dhcpd | dhcpc => exact .refl _
  | eth =>
    refine .bind (readBytes_settled h _ _) fun _ => .bind (readBytes_settled h _ _) fun _ => ?_
    exact .bind (readU16_settled h _ _) fun _ => .refl _
  | icmp | icmp6 => exact .bind (readU8_settled h _) fun _ => .refl _
  | ip =>
    refine .bind (readU8_settled h _) fun _ => .bind (ipAddrInit_settled h _ _ _) fun _ => ?_
    refine .bind (ipAddrInit_settled h _ _ _) fun _ => .bind (readU8_settled h _) fun _ => ?_
    refine .bind (readU8_settled h _) fun _ => ?_
    exact .bind (.ite ((ipFinger_settled h _ _ _).map some) (.refl _)) fun _ => .refl _
  | ip6 =>
    refine .bind (readU16_settled h _ _) fun _ => .bind (ipAddrInit_settled h _ _ _) fun _ => ?_
    refine .bind (ipAddrInit_settled h _ _ _) fun _ => .bind (readU8_settled h _) fun _ => ?_
    exact .bind (readU8_settled h _) fun _ => .refl _
  | tcp =>
    refine .bind (readU8_settled h _) fun _ => .bind (readU16_settled h _ _) fun _ => ?_
    refine .bind (readU16_settled h _ _) fun _ => .bind (readU8_settled h _) fun _ => ?_
    exact .bind (.ite (tcpSyn_settled h _ _ _ _) (.refl _)) fun _ => .refl _
  | udp =>
    exact .bind (readU16_settled h _ _) fun _ => .bind (readU16_settled h _ _) fun _ => .refl _
  | wifi =>
    refine .bind (readBytes_settled h _ _) fun _ => .bind (readBytes_settled h _ _) fun _ => ?_
    refine .bind (readU16_settled h _ _) fun _ => .ite ?_ (.refl _)
    exact .bind (readU16_settled h _ _) fun _ => .refl _

theorem chainBody_settled (h : e.mem.Below m) (c : Chain) :
    chainBody e c = .leave (.error .outOfRange) ∨ chainBody e c = chainBody (e.widen m) c := by
  have hcall : Settled .outOfRange (c.call e) (c.call (e.widen m)) :=
    call_settled h c.decoder c.data c.buflen c.world
  unfold chainBody
  rcases hcall with hc | hc
  · rw [hc]
    exact .inl rfl
  · rw [hc]
    exact .inr rfl

end Call

section Alike

variable {h : Host} {addr : Nat} {m : Memory} {t t' : List DecEntry} {p n : Nat}
  {s s' : Stats} {b : Bucket}

structure Ret.Alike (r r' : Ret) : Prop where
  next : r.next = r'.next
  len : r.len = r'.len
  bucket : r.world.bucket = r'.world.bucket

theorem call_alike (ht : ∀ level type, getDecoder t level type = getDecoder t' level type)
    (d : Decoder) :
    Agree Eq Ret.Alike (d.call ⟨h, addr, m, t⟩ p n ⟨s, b⟩)
      (d.call ⟨h, addr, m, t'⟩ p n ⟨s', b⟩) := by
  cases d with
  | arp =>
    refine Agree.bind_same fun hln => Agree.bind_same fun pln => ?_
    exact Agree.bind_same fun L3 => Agree.bind_same fun L3' => ⟨rfl, rfl, rfl⟩
  | dhcpd | dhcpc => exact ⟨rfl, rfl, rfl⟩
  | eth =>
    refine Agree.bind_same fun sha => Agree.bind_same fun dha => Agree.bind_same fun proto => ?_
    exact ⟨ht _ _, rfl, rfl⟩
  | icmp | icmp6 => exact Agree.bind_same fun type => ⟨rfl, rfl, rfl⟩
  | ip =>
    refine Agree.bind_same fun first => Agree.bind_same fun src => Agree.bind_same fun dst => ?_
    refine Agree.bind_same fun ttl => Agree.bind_same fun protocol => ?_
    exact Agree.bind_same fun finger => ⟨ht _ _, rfl, rfl⟩
  | ip6 =>
    refine Agree.bind_same fun len => Agree.bind_same fun src => Agree.bind_same fun dst => ?_
    exact Agree.bind_same fun hopLimit => Agree.bind_same fun nextHdr => ⟨ht _ _, rfl, rfl⟩
  | tcp =>
    refine Agree.bind_same fun off => Agree.bind_same fun sport => Agree.bind_same fun dport => ?_
    exact Agree.bind_same fun flags => Agree.bind_same fun finger => ⟨ht _ _, rfl, rfl⟩
  | udp =>
    exact Agree.bind_same fun sport => Agree.bind_same fun dport => ⟨ht _ _, rfl, rfl⟩
  | wifi =>
    refine Agree.bind_same fun sha => Agree.bind_same fun dha => Agree.bind_same fun type => ?_
    dsimp only
    split
    · exact Agree.bind_same fun llType => ⟨ht _ _, rfl, rfl⟩
    split
    · exact ⟨rfl, rfl, rfl⟩
    · exact ⟨rfl, rfl, rfl⟩

structure Chain.Alike (c c' : Chain) : Prop where
  decoder : c.decoder = c'.decoder
  data : c.data = c'.data
  datalen : c.datalen = c'.datalen
  bucket : c.world.bucket = c'.world.bucket

theorem chainBody_alike (ht : ∀ level type, getDecoder t level type = getDecoder t' level type)
    (c c' : Chain) (hc : c.Alike c') :
    Loop.StepRel Chain.Alike (Agree Eq fun w w' => w.bucket = w'.bucket)
      (chainBody ⟨h, addr, m, t⟩ c) (chainBody ⟨h, addr, m, t'⟩ c') := by
  obtain ⟨d, p, left, s, b⟩ := c
  obtain ⟨d', p', left', s', b'⟩ := c'
  obtain ⟨rfl, rfl, rfl, hb⟩ := hc
  cases hb
  refine chainBody_agree rfl (Agree.mono (call_alike ht d) (fun _ _ => id) ?_)
  intro r r' hr
  refine ⟨hr.next, hr.len, hr.bucket, fun d hd => ?_⟩
  exact ⟨rfl, congrArg (p + ·) hr.len, by simp only [Chain.after, hr.len], hr.bucket⟩

end Alike

def Packet.alone (pkt : Packet) : Packet := Packet.captured pkt.addr pkt.bytes pkt.bytes_lt

namespace Running

variable {r r' : Running} {h : Host} {pkt pkt' : Packet}

theorem calls_alike (hlink : r.link = r'.link) (h : Host) (pkt : Packet) :
    List.Forall₂ Chain.Alike (lmapCalls ROUNDS h r.globals pkt)
      (lmapCalls ROUNDS h r'.globals pkt) := by
  have ht : ∀ level type, getDecoder r.globals.decodersTable level type =
      getDecoder r'.globals.decodersTable level type := fun level type =>
    (r.getDecoder_globals level type).trans (r'.getDecoder_globals level type).symm
  rw [r.lmapCalls_eq, r'.lmapCalls_eq]
  exact Loop.visits_rel (chainBody_alike ht) ROUNDS ⟨congrArg Link.decoder hlink, rfl, rfl, rfl⟩

theorem lmapDecode_alike (hlink : r.link = r'.link) (h : Host) (pkt : Packet) :
    (lmapDecode h r.globals pkt).map Prod.fst = (lmapDecode h r'.globals pkt).map Prod.fst := by
  have ht : ∀ level type, getDecoder r.globals.decodersTable level type =
      getDecoder r'.globals.decodersTable level type := fun level type =>
    (r.getDecoder_globals level type).trans (r'.getDecoder_globals level type).symm
  have hstart : (lmapStart r.globals pkt r.link.decoder).Alike
      (lmapStart r'.globals pkt r'.link.decoder) := ⟨congrArg Link.decoder hlink, rfl, rfl, rfl⟩
  have hbody : ∀ c c' : Chain, c.Alike c' →
      Loop.StepRel Chain.Alike (Agree Eq fun w w' => w.bucket = w'.bucket)
        (chainBody (lmapEnv h r.globals pkt) c) (chainBody (lmapEnv h r'.globals pkt) c') :=
    chainBody_alike ht
  have hrun := Loop.run_rel hbody ROUNDS hstart
  rw [r.lmapDecode_eq, r'.lmapDecode_eq]
  generalize Loop.run _ ROUNDS (lmapStart r.globals pkt r.link.decoder) = x at hrun ⊢
  generalize Loop.run _ ROUNDS (lmapStart r'.globals pkt r'.link.decoder) = y at hrun ⊢
  cases hrun with
  | none => rfl
  | @some res res' hres =>
    cases res with
    | error f =>
      cases res' with
      | error f' => exact congrArg Except.error (hres : f = f')
      | ok w' => exact hres.elim
    | ok w =>
      cases res' with
      | error f' => exact hres.elim
      | ok w' => exact congrArg Except.ok (hres : w.bucket = w'.bucket)

theorem lmapDecode_alone (hin : lmapDecode h r.globals pkt.alone ≠ .error .outOfRange) :
    lmapDecode h r.globals pkt = lmapDecode h r.globals pkt.alone ∧
      lmapCalls ROUNDS h r.globals pkt = lmapCalls ROUNDS h r.globals pkt.alone := by
  have hbelow : pkt.alone.mem.Below pkt.mem := Memory.below_append pkt.bytes pkt.beyond
  have hsome := chain_isSome (r.env_registered h pkt.alone) (n := ROUNDS)
    (c := lmapStart r.globals pkt.alone r.link.decoder) (by rw [rank_lmapStart]; decide)
  obtain ⟨res, hres⟩ := Option.isSome_iff_exists.mp hsome
  have hne : res ≠ .error .outOfRange := by
    rintro rfl
    rw [r.lmapDecode_eq, hres] at hin
    exact hin rfl
  have hbody : ∀ c ∈ Loop.visits (chainBody (lmapEnv h r.globals pkt.alone)) ROUNDS
      (lmapStart r.globals pkt.alone r.link.decoder),
      chainBody (lmapEnv h r.globals pkt.alone) c = chainBody (lmapEnv h r.globals pkt) c := by
    intro c hc
    refine (chainBody_settled (e := lmapEnv h r.globals pkt.alone) hbelow c).resolve_left ?_
    intro hleave
    obtain ⟨m, -, hrun⟩ := Loop.run_of_visit hc hres
    cases m with
    | zero => cases hrun
    | succ m =>
      rw [Loop.run_leave hleave] at hrun
      exact hne (Option.some.inj hrun).symm
  obtain ⟨hrun, hvisits⟩ := Loop.run_congr ROUNDS hbody
  constructor
  · rw [r.lmapDecode_eq, r.lmapDecode_eq, hrun]
    rfl
  · rw [r.lmapCalls_eq, r.lmapCalls_eq, hvisits]
    rfl

end Running

/-- The capture holds what its headers announce, and the ends of its TCP options come back whole
from an `int`. -/
structure Contained (h : Host) (link : Link) (pkt : Packet) : Prop where
  fits : FrameFits (packetEnv h pkt.alone) pkt.caplen link
  ends : EndsExact h (Running.listed link).globals pkt.alone

namespace Running

variable {r r' : Running} {h : Host} {pkt pkt' : Packet}

theorem link_listed (link : Link) : (listed link).link = link := rfl

theorem frameFits_iff (r : Running) (h : Host) (pkt : Packet) (caplen : Nat) (link : Link) :
    FrameFits (lmapEnv h r.globals pkt) caplen link ↔ FrameFits (packetEnv h pkt) caplen link := by
  cases link <;> exact Iff.rfl

theorem exists_alike (hlink : r.link = r'.link) {c' : Chain}
    (hc' : c' ∈ lmapCalls ROUNDS h r'.globals pkt) :
    ∃ c ∈ lmapCalls ROUNDS h r.globals pkt, c.Alike c' := by
  have hcalls := calls_alike hlink h pkt
  generalize lmapCalls ROUNDS h r.globals pkt = xs at hcalls ⊢
  generalize lmapCalls ROUNDS h r'.globals pkt = ys at hcalls hc'
  induction hcalls with
  | nil => cases hc'
  | cons hsame _ ih =>
    rcases List.mem_cons.mp hc' with rfl | hmem
    · exact ⟨_, List.mem_cons_self, hsame⟩
    · obtain ⟨c, hc, hrel⟩ := ih hmem
      exact ⟨c, List.mem_cons_of_mem _ hc, hrel⟩

theorem endsExact_alike (hlink : r.link = r'.link) (hends : EndsExact h r.globals pkt) :
    EndsExact h r'.globals pkt := by
  intro c' hc' hsyn
  obtain ⟨c, hc, hsame⟩ := exists_alike hlink hc'
  have hend := hends c hc
  rw [SynCall, hsame.decoder, hsame.data] at hend
  have hexact := hend hsyn
  rw [ExactEnd, hsame.data] at hexact
  exact hexact

theorem in_range_alone_iff (r : Running) (h : Host) (pkt : Packet) :
    lmapDecode h r.globals pkt.alone ≠ .error .outOfRange ↔
      FrameFits (packetEnv h pkt.alone) pkt.caplen r.link := by
  have hmem : (lmapEnv h r.globals pkt.alone).mem = Memory.ofList pkt.bytes :=
    Memory.append_none pkt.bytes
  have hshort : outcome (lmapEnv h r.globals pkt.alone) pkt.bytes.length r.link.decoder 0
      ⟨r.stats, dbBucketAlloc⟩ = .error .outOfRange ↔
        ¬ FrameFits (lmapEnv h r.globals pkt.alone) pkt.bytes.length r.link :=
    link_outOfRange_iff (r.env_registered h pkt.alone) hmem rfl
  rw [Ne, r.lmapDecode_error_iff, ← r.frameFits_iff h pkt.alone]
  exact (not_congr hshort).trans not_not

theorem endsExact_of_no_tcp
    (htcp : Decoder.tcp ∉ (lmapCalls ROUNDS h r.globals pkt).map Chain.decoder) :
    EndsExact h r.globals pkt :=
  fun _ hc hsyn => absurd (List.mem_map.mpr ⟨_, hc, hsyn.1⟩) htcp

/-- The decoders are called one after the other and come to the same bucket, or to the same
fault. -/
theorem same_bytes (hlink : r.link = r'.link) (hbytes : pkt.bytes = pkt'.bytes)
    (hpkt : Contained h r.link pkt) (hpkt' : Contained h r.link pkt') :
    (lmapDecode h r.globals pkt).map Prod.fst = (lmapDecode h r'.globals pkt').map Prod.fst ∧
      (lmapCalls ROUNDS h r.globals pkt).map Chain.decoder =
        (lmapCalls ROUNDS h r'.globals pkt').map Chain.decoder := by
  have hends : EndsExact h r.globals pkt.alone := endsExact_alike (link_listed r.link) hpkt.ends
  have hends' : EndsExact h r.globals pkt'.alone := endsExact_alike (link_listed r.link) hpkt'.ends
  have hmoved : pkt'.alone = pkt.alone.moved pkt'.addr := by
    simp only [Packet.alone, Packet.moved, Packet.captured, hbytes]
  rw [hmoved] at hends'
  have hsame := sameDecode_moved r hends hends'
  rw [← hmoved] at hsame
  obtain ⟨hresult, hcalls⟩ := lmapDecode_alone ((r.in_range_alone_iff h pkt).mpr hpkt.fits)
  obtain ⟨hresult', hcalls'⟩ :=
    lmapDecode_alone ((r'.in_range_alone_iff h pkt').mpr (hlink ▸ hpkt'.fits))
  constructor
  · rw [hresult, hsame.result, lmapDecode_alike hlink, ← hresult']
  · rw [hcalls, hsame.calls, hcalls']
    have hdecoders : List.Forall₂ (fun c c' => Chain.decoder c = Chain.decoder c')
        (lmapCalls ROUNDS h r.globals pkt'.alone) (lmapCalls ROUNDS h r'.globals pkt'.alone) :=
      (calls_alike hlink h pkt'.alone).imp fun _ _ hc => hc.decoder
    exact List.forall₂_eq_eq_eq ▸
      List.forall₂_map_left_iff.mpr (List.forall₂_map_right_iff.mpr hdecoders)

theorem same_bytes_all {pkts pkts' : List Packet} (hlink : r.link = r'.link)
    (hbytes : pkts.map Packet.bytes = pkts'.map Packet.bytes)
    (hpkts : ∀ pkt ∈ pkts, Contained h r.link pkt)
    (hpkts' : ∀ pkt ∈ pkts', Contained h r.link pkt) :
    (lmapDecodeAll h r.globals pkts).map Prod.fst =
        (lmapDecodeAll h r'.globals pkts').map Prod.fst ∧
      lmapCallsAll h r.globals pkts = lmapCallsAll h r'.globals pkts' := by
  induction pkts generalizing pkts' r r' with
  | nil =>
    rw [List.map_nil, eq_comm, List.map_eq_nil_iff] at hbytes
    subst hbytes
    exact ⟨rfl, rfl⟩
  | cons pkt pkts ih =>
    cases pkts' with
    | nil => cases hbytes
    | cons pkt' pkts' =>
      obtain ⟨hfirst, hrest⟩ := List.cons.inj hbytes
      obtain ⟨hpkt, hpkts⟩ := List.forall_mem_cons.mp hpkts
      obtain ⟨hpkt', hpkts'⟩ := List.forall_mem_cons.mp hpkts'
      obtain ⟨hresult, hcalls⟩ := same_bytes hlink hfirst hpkt hpkt'
      rw [lmapDecodeAll, lmapDecodeAll, lmapCallsAll, lmapCallsAll, hcalls]
      cases hok : lmapDecode h r.globals pkt with
      | error f =>
        rw [hok, Except.map, eq_comm, map_error_iff] at hresult
        rw [hresult]
        exact ⟨rfl, rfl⟩
      | ok res =>
        obtain ⟨b, g⟩ := res
        rw [hok, Except.map, eq_comm, map_ok_iff] at hresult
        obtain ⟨⟨b', g'⟩, hok', hb⟩ := hresult
        cases hb
        obtain ⟨r₁, rfl, hlink₁, -⟩ := lmapDecode_ok hok
        obtain ⟨r₁', rfl, hlink₁', -⟩ := lmapDecode_ok hok'
        rw [← hlink₁] at hpkts hpkts'
        obtain ⟨hall, hmore⟩ :=
          ih (hlink₁.trans (hlink.trans hlink₁'.symm)) hrest hpkts hpkts'
        rw [hok', ok_bind, ok_bind]
        refine ⟨?_, congrArg _ hmore⟩
        dsimp only
        cases hleft : lmapDecodeAll h r₁.globals pkts with
        | error f =>
          rw [hleft, Except.map, eq_comm, map_error_iff] at hall
          rw [hall]
        | ok rest =>
          rw [hleft, Except.map, eq_comm, map_ok_iff] at hall
          obtain ⟨rest', hright, hsame⟩ := hall
          rw [hright]
          exact congrArg (fun bs => Except.ok (b :: bs)) hsame.symm

end Running

end Lmap
