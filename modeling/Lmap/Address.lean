import Lmap.RoundTrip

/-!
The address of the packet. The only place where it can show is the end pointer of the
TCP options, which goes through an `int`.
-/

set_option autoImplicit false

namespace Lmap

def optEndPtr (e : Env) (tcp off : Nat) : Nat :=
  (int32 (int32 ((e.addr + tcp : Nat) : Int) + (off * 4 : Nat)) % 2 ^ e.host.ptrBits).toNat

theorem optEnd_eq_ptr (e : Env) (tcp off : Nat) : optEnd e tcp off = optEndPtr e tcp off - e.addr :=
  rfl

/-- The addresses that come back whole from an `int`, by sign extension: the lowest and
the highest 2 GiB. -/
def IntAddress (a : Nat) : Prop := a < 2 ^ 31 ∨ 2 ^ 64 - 2 ^ 31 ≤ a ∧ a < 2 ^ 64

instance (a : Nat) : Decidable (IntAddress a) := inferInstanceAs (Decidable (_ ∨ _))

variable {e : Env} {caplen p n off addr : Nat} {d : Decoder} {w : World} {c : Chain}

/-- Sign extension of the low 32 bits gives back the small and the large addresses only. -/
theorem int32_extend (a : Nat) : (int32 a % 2 ^ 64).toNat = a ↔ IntAddress a := by
  have hdef : int32 a = if (a : Int) % 2 ^ 32 < 2 ^ 31 then (a : Int) % 2 ^ 32
      else (a : Int) % 2 ^ 32 - 2 ^ 32 := Int.bmod_def _ _
  rw [hdef, IntAddress]
  split <;> omega

theorem optEndPtr_exact_iff (hbits : e.host.ptrBits = 64) :
    optEndPtr e p off = e.addr + p + off * 4 ↔ IntAddress (e.addr + p + off * 4) := by
  have hsum : ((e.addr + p : Nat) : Int) + (off * 4 : Nat) =
      ((e.addr + p + off * 4 : Nat) : Int) := by omega
  rw [optEndPtr, hbits, int32_add, hsum]
  exact int32_extend _

def Packet.moved (pkt : Packet) (addr : Nat) : Packet := { pkt with addr := addr }

def Env.moved (e : Env) (addr : Nat) : Env := { e with addr := addr }

def SynCall (m : Memory) (c : Chain) : Prop :=
  c.decoder = .tcp ∧ TcpReadable m c.data ∧ SynAt m c.data

def ExactEnd (e : Env) (c : Chain) : Prop :=
  optEndPtr e c.data (offAt e.mem c.data) = e.addr + c.data + offAt e.mem c.data * 4

theorem tcpSyn_moved (flags : UInt8) (finger : Option Finger)
    (hend : optEnd e p off = optEnd (e.moved addr) p off) :
    tcpSyn e p off flags finger = tcpSyn (e.moved addr) p off flags finger := by
  unfold tcpSyn
  rw [hend]
  rfl

theorem decodeTcp_moved (hend : TcpReadable e.mem p → SynAt e.mem p →
      optEnd e p (offAt e.mem p) = optEnd (e.moved addr) p (offAt e.mem p)) :
    decodeTcp e p n w = decodeTcp (e.moved addr) p n w := by
  by_cases hr : TcpReadable e.mem p
  · obtain ⟨hports, hflags⟩ := hr
    have hs := readU16_of_some e.host (hports.get (i := 0) (by decide))
      (hports.get (i := 1) (by decide))
    have hd := readU16_of_some e.host (hports.get (i := 2) (by decide))
      (hports.get (i := 3) (by decide))
    have ho := readU8_of_some (hflags.get (i := 0) (by decide))
    have hf := readU8_of_some (hflags.get (i := 1) (by decide))
    simp only [Nat.add_zero] at hs ho
    simp only [decodeTcp, Env.moved, ho, hs, hd, hf, tcpOff_eq, ok_bind]
    by_cases hsyn : SynAt e.mem p
    · have hbit : e.mem.byte (p + 12 + 1) &&& TH_SYN ≠ 0 := hsyn
      have htcp := tcpSyn_moved (e.mem.byte (p + 12 + 1)) w.bucket.L4.fingerprint
        (hend ⟨hports, hflags⟩ hsyn)
      simp only [offAt, Env.moved] at htcp
      rw [if_pos hbit, if_pos hbit, htcp]
    · have hbit : ¬ e.mem.byte (p + 12 + 1) &&& TH_SYN ≠ 0 := hsyn
      rw [if_neg hbit, if_neg hbit]
  · rw [decodeTcp_short hr]
    exact (decodeTcp_short (e := e.moved addr) hr).symm

theorem call_moved (hend : SynCall e.mem c →
      optEnd e c.data (offAt e.mem c.data) = optEnd (e.moved addr) c.data (offAt e.mem c.data)) :
    c.call e = c.call (e.moved addr) := by
  obtain ⟨d, p, left, w⟩ := c
  cases d with
  | tcp => exact decodeTcp_moved (n := uint16 left) (fun hr hsyn => hend ⟨rfl, hr, hsyn⟩)
  | arp | dhcpd | dhcpc | eth | icmp | icmp6 | ip | ip6 | udp | wifi => rfl

theorem chainBody_moved (hend : SynCall e.mem c →
      optEnd e c.data (offAt e.mem c.data) = optEnd (e.moved addr) c.data (offAt e.mem c.data)) :
    chainBody e c = chainBody (e.moved addr) c := by
  rw [chainBody, call_moved hend]
  rfl

theorem synCall_moved (he : e.Registered) (n : Nat) {s t : Chain}
    (ht : t ∈ Loop.visits (chainBody e) n s) (htcp : t.decoder = .tcp) :
    t ∈ Loop.visits (chainBody (e.moved addr)) n s := by
  induction n generalizing s with
  | zero => simp [Loop.visits] at ht
  | succ n ih =>
    rcases Loop.mem_visits_succ.mp ht with rfl | ⟨s', hb, ht⟩
    · exact Loop.mem_visits_succ.mpr (.inl rfl)
    · have hlayer : s.decoder.layer < t.decoder.layer := by
        have hle := Loop.visits_invariant (P := fun c => s'.decoder.layer ≤ c.decoder.layer)
          (fun c c' hc hb => by
            have := layer_successor (chain_successor he hb)
            omega) n (Int.le_refl _) t ht
        have := layer_successor (chain_successor he hb)
        omega
      have hne : ¬ SynCall e.mem s := by
        rintro ⟨hs, -⟩
        rw [hs, htcp] at hlayer
        exact absurd hlayer (by decide)
      rw [chainBody_moved (fun h => absurd h hne)] at hb
      exact Loop.mem_visits_succ.mpr (.inr ⟨s', hb, ih ht⟩)

def optWalk (e : Env) (c : Chain) (n : Nat) (f : Finger) : List Walk :=
  Loop.visits (optBody e.host e.mem (optEnd e c.data (offAt e.mem c.data))) n
    ⟨c.data + 20, some f⟩

def EndsExact (h : Host) (g : Globals) (pkt : Packet) : Prop :=
  ∀ c ∈ lmapCalls ROUNDS h g pkt, SynCall pkt.mem c → ExactEnd (lmapEnv h g pkt) c

/-- Every TCP header with SYN set ends at an address that an `int` can carry. -/
def EndsInt (h : Host) (g : Globals) (pkt : Packet) : Prop :=
  ∀ c ∈ lmapCalls ROUNDS h g pkt, SynCall pkt.mem c →
    IntAddress (pkt.addr + c.data + offAt pkt.mem c.data * 4)

theorem endsExact_iff {h : Host} (hbits : h.ptrBits = 64) (g : Globals) (pkt : Packet) :
    EndsExact h g pkt ↔ EndsInt h g pkt := by
  have hiff : ∀ c, ExactEnd (lmapEnv h g pkt) c ↔
      IntAddress (pkt.addr + c.data + offAt pkt.mem c.data * 4) :=
    fun c => optEndPtr_exact_iff hbits
  simp only [EndsExact, EndsInt, hiff]

theorem optEnd_of_exact (h : ExactEnd e c) :
    optEnd e c.data (offAt e.mem c.data) = c.data + offAt e.mem c.data * 4 := by
  rw [optEnd_eq_ptr, h]
  omega

/-- What the two addresses have in common: the calls, the option walk of each of them that
has one, and what comes out of the packet. -/
structure SameDecode (h : Host) (g : Globals) (pkt pkt' : Packet) : Prop where
  calls : lmapCalls ROUNDS h g pkt = lmapCalls ROUNDS h g pkt'
  walks : ∀ c ∈ lmapCalls ROUNDS h g pkt, SynCall pkt.mem c → ∀ n f,
    optWalk (lmapEnv h g pkt) c n f = optWalk (lmapEnv h g pkt') c n f
  result : lmapDecode h g pkt = lmapDecode h g pkt'

theorem sameDecode_moved {h : Host} (r : Running) {pkt : Packet}
    (hpkt : EndsExact h r.globals pkt) (hmoved : EndsExact h r.globals (pkt.moved addr)) :
    SameDecode h r.globals pkt (pkt.moved addr) := by
  have he := r.env_registered h pkt
  have hcalls : ∀ pkt, lmapCalls ROUNDS h r.globals pkt = Loop.visits
      (chainBody (lmapEnv h r.globals pkt)) ROUNDS
        (lmapStart r.globals pkt r.link.decoder) := by
    intro pkt
    simp only [lmapCalls, r.l2Decoder_globals]
  have hend : ∀ c ∈ lmapCalls ROUNDS h r.globals pkt, SynCall pkt.mem c →
      optEnd (lmapEnv h r.globals pkt) c.data (offAt pkt.mem c.data) =
        optEnd (lmapEnv h r.globals (pkt.moved addr)) c.data (offAt pkt.mem c.data) := by
    intro c hc hsyn
    have hc' : c ∈ lmapCalls ROUNDS h r.globals (pkt.moved addr) := by
      rw [hcalls] at hc ⊢
      exact synCall_moved he ROUNDS hc hsyn.1
    exact (optEnd_of_exact (hpkt c hc hsyn)).trans (optEnd_of_exact (hmoved c hc' hsyn)).symm
  have hbody : ∀ c ∈ lmapCalls ROUNDS h r.globals pkt,
      chainBody (lmapEnv h r.globals pkt) c =
        chainBody (lmapEnv h r.globals (pkt.moved addr)) c :=
    fun c hc => chainBody_moved (hend c hc)
  obtain ⟨hrun, hvisits⟩ := Loop.run_congr ROUNDS
    (fun c hc => hbody c (by rw [hcalls]; exact hc))
  exact
    { calls := by
        rw [hcalls, hcalls]
        exact hvisits
      walks := by
        intro c hc hsyn n f
        rw [optWalk, optWalk]
        exact congrArg (fun stop => Loop.visits (optBody h pkt.mem stop) n ⟨c.data + 20, some f⟩)
          (hend c hc hsyn)
      result := by
        simp only [lmapDecode, r.l2Decoder_globals]
        rw [hrun]
        rfl }

/-- With 64 bit pointers the address of a packet shows exactly where a SYN header of it
does not end in the lowest or the highest 2 GiB. -/
theorem lmapDecode_address_iff (bigEndian : Bool) (r : Running) (pkt : Packet) (addr : Nat) :
    EndsExact ⟨bigEndian, 64⟩ r.globals pkt ∧
      EndsExact ⟨bigEndian, 64⟩ r.globals (pkt.moved addr) ∧
      SameDecode ⟨bigEndian, 64⟩ r.globals pkt (pkt.moved addr) ↔
    EndsInt ⟨bigEndian, 64⟩ r.globals pkt ∧
      EndsInt ⟨bigEndian, 64⟩ r.globals (pkt.moved addr) := by
  constructor
  · intro h
    exact ⟨(endsExact_iff rfl _ _).mp h.1, (endsExact_iff rfl _ _).mp h.2.1⟩
  · intro h
    have hpkt := (endsExact_iff rfl _ _).mpr h.1
    have hmoved := (endsExact_iff rfl _ _).mpr h.2
    exact ⟨hpkt, hmoved, sameDecode_moved r hpkt hmoved⟩

/-- Just below the stack of a 64 bit process the MSS of the sample packet is lost: the
end pointer comes out below the options. -/
theorem mssPacket_moved_differs :
    ¬ SameDecode ⟨false, 64⟩ (Running.listed .eth).globals mssPacket
        (mssPacket.moved 0x7ffc00001000) := by
  intro h
  have hne : lmapDecode ⟨false, 64⟩ (Running.listed .eth).globals mssPacket ≠
      lmapDecode ⟨false, 64⟩ (Running.listed .eth).globals (mssPacket.moved 0x7ffc00001000) := by
    decide +kernel
  exact hne h.result

end Lmap
