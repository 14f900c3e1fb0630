import Lmap.Outcome

/-!
Headers in front of the bytes a decoder is called at. It reads only from there on, so that
it does the same when the memory is taken to start there.
-/

set_option autoImplicit false

namespace Lmap

def Env.shift (e : Env) (s : Nat) : Env :=
  { e with addr := e.addr + s, mem := fun i => e.mem (s + i) }

variable {e : Env} {m : Memory} {s q n caplen : Nat} {w : World} {d : Decoder}

theorem readU8_shift (m : Memory) (s q : Nat) :
    readU8 (fun i => m (s + i)) q = readU8 m (s + q) := rfl

theorem readU16_shift (h : Host) (m : Memory) (s q : Nat) :
    readU16 h (fun i => m (s + i)) q = readU16 h m (s + q) := rfl

theorem slice_shift (m : Memory) (s q n : Nat) :
    Memory.slice (fun i => m (s + i)) q n = m.slice (s + q) n := by
  induction n generalizing q with
  | zero => rfl
  | succ n ih =>
    rw [Memory.slice, Memory.slice, ih]
    rfl

theorem readBytes_shift (m : Memory) (s q n : Nat) :
    readBytes (fun i => m (s + i)) q n = readBytes m (s + q) n := by
  rw [readBytes, readBytes, slice_shift]

theorem ipAddrInit_shift (m : Memory) (sa : IpAddr) (type : Int) (s q : Nat) :
    ipAddrInit (fun i => m (s + i)) sa type q = ipAddrInit m sa type (s + q) := by
  simp only [ipAddrInit, readBytes_shift]

theorem optEnd_shift (e : Env) (s q off : Nat) :
    optEnd (e.shift s) q off = optEnd e (s + q) off - s := by
  have haddr : (e.shift s).addr + q = e.addr + (s + q) := Nat.add_assoc _ _ _
  rw [optEnd, optEnd, haddr, Nat.sub_sub]
  rfl

theorem map_ok {α β : Type} (a : α) (f : α → β) :
    (Except.ok a : Except Fault α).map f = .ok (f a) := rfl

theorem map_ite {α β : Type} (c : Prop) [Decidable c] (x y : Except Fault α) (f : α → β) :
    (if c then x else y).map f = if c then x.map f else y.map f := by
  split <;> rfl

theorem optSwitch_shift (h : Host) {stop : Nat} {f : Option Finger} (hlt : s + q < stop) :
    optSwitch h m stop ⟨s + q, f⟩ =
      (optSwitch h (fun i => m (s + i)) (stop - s) ⟨q, f⟩).map
        fun w => { w with optStart := s + w.optStart } := by
  have hstop : s + (stop - s) = stop := by omega
  have hlong : ∀ len : Nat, s + (q + 1 + len - 1) = s + q + 1 + len - 1 := by
    intro len
    omega
  simp only [optSwitch, readU8_shift, map_bind, map_ite, map_ok, pure, Except.pure, hstop,
    hlong, ← Nat.add_assoc]

theorem optLoop_shift (h : Host) (stop : Nat) (f : Option Finger) :
    optLoop h (fun i => m (s + i)) q (stop - s) f = optLoop h m (s + q) stop f := by
  have hfuel : stop - s - q + 1 = stop - (s + q) + 1 := by omega
  have hstep : ∀ u v : Walk, v = ⟨s + u.optStart, u.finger⟩ →
      Loop.StepRel (fun u v : Walk => v = ⟨s + u.optStart, u.finger⟩) Eq
        (optBody h (fun i => m (s + i)) (stop - s) u) (optBody h m stop v) := by
    rintro ⟨q, f⟩ _ rfl
    by_cases hlt : s + q < stop
    · have hlt' : q < stop - s := by omega
      simp only [optBody, hlt, hlt', if_true, optSwitch_shift h hlt]
      cases optSwitch h (fun i => m (s + i)) (stop - s) ⟨q, f⟩ with
      | error e => exact .leave rfl
      | ok u => exact .again rfl
    · have hlt' : ¬ q < stop - s := by omega
      simp only [optBody, hlt, hlt', if_false]
      exact .leave rfl
  rw [optLoop, optLoop, ← hfuel, Loop.run_eq hstep _ rfl]

theorem tcpSyn_shift (off : Nat) (flags : UInt8) (f : Option Finger) :
    tcpSyn (e.shift s) q off flags f = tcpSyn e (s + q) off flags f := by
  simp only [tcpSyn, optEnd_shift]
  simp only [Env.shift, readU16_shift, optLoop_shift, ← Nat.add_assoc]

theorem call_shift : d.call (e.shift s) q n w = d.call e (s + q) n w := by
  cases d with
  | eth =>
    simp only [Decoder.call, decodeEth, Env.shift, readBytes_shift, readU16_shift, ← Nat.add_assoc]
  | wifi =>
    simp only [Decoder.call, decodeWifi, Env.shift, readBytes_shift, readU16_shift,
      ← Nat.add_assoc]
    rfl
  | arp =>
    simp only [Decoder.call, decodeArp, arpAddrs, Env.shift, readU8_shift, ipAddrInit_shift,
      ← Nat.add_assoc]
  | ip =>
    simp only [Decoder.call, decodeIp, ipFinger, Env.shift, readU8_shift, readU16_shift,
      ipAddrInit_shift, ← Nat.add_assoc]
  | ip6 =>
    simp only [Decoder.call, decodeIp6, Env.shift, readU8_shift, readU16_shift, ipAddrInit_shift,
      ← Nat.add_assoc]
  | icmp => simp only [Decoder.call, decodeIcmp, Env.shift, readU8_shift]
  | icmp6 => simp only [Decoder.call, decodeIcmp6, Env.shift, readU8_shift]
  | udp => simp only [Decoder.call, decodeUdp, Env.shift, readU16_shift, ← Nat.add_assoc]
  | tcp =>
    simp only [Decoder.call, decodeTcp, tcpSyn_shift]
    simp only [Env.shift, readU8_shift, readU16_shift, ← Nat.add_assoc]
  | dhcpd | dhcpc => rfl

/-- The chain from `s + q` on is that of the bytes from `s` on. -/
theorem outcome_shift (hs : s ≤ caplen) :
    outcome (e.shift s) (caplen - s) d q w = outcome e caplen d (s + q) w := by
  have hleft : ((caplen - s : Nat) : Int) - q = (caplen : Int) - ((s + q : Nat) : Int) := by omega
  have hstep : ∀ c c' : Chain, c' = { c with data := s + c.data } →
      Loop.StepRel (fun c c' : Chain => c' = { c with data := s + c.data }) Eq
        (chainBody (e.shift s) c) (chainBody e c') := by
    rintro c _ rfl
    have hcall : c.call (e.shift s) = Chain.call e { c with data := s + c.data } := call_shift
    simp only [chainBody, hcall]
    cases Chain.call e { c with data := s + c.data } with
    | error f => exact .leave rfl
    | ok r =>
      dsimp only
      split
      · cases r.next with
        | none => exact .leave rfl
        | some d => exact .again (by rw [Nat.add_assoc])
      · exact .leave rfl
  have hstart : Chain.at caplen d (s + q) w =
      { Chain.at (caplen - s) d q w with data := s + q } := by
    simp only [Chain.at, hleft]
  rw [outcome, outcome, hstart, Loop.run_eq hstep ROUNDS rfl]
  rfl

end Lmap
