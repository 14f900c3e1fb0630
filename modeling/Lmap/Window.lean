import Lmap.ChainBound

/-!
The part of the packet each decoder is given. The cursor and the count of bytes
left never lose each other, but the count reaches the decoder as a `u_int16`.
-/

set_option autoImplicit false

namespace Lmap

theorem uint16_int32 (x : Int) : uint16 (int32 x) = (x % 2 ^ 16).toNat := by
  unfold uint16 int32
  have hdvd : (2 ^ 16 : Int) ∣ ((2 ^ 32 : Nat) : Int) := by decide
  rw [← Int.emod_emod_of_dvd (Int.bmod x (2 ^ 32)) hdvd, Int.bmod_emod,
    Int.emod_emod_of_dvd x hdvd]

theorem pos_of_int32_pos {x : Int} (hlow : -2 ^ 31 ≤ x) (h : 0 < int32 x) : 0 < x := by
  by_contra hneg
  rw [int32_of_range hlow (by omega)] at h
  omega

/-- The most that one call can report: an IPv6 payload of 65535 bytes. -/
def DECODED_MAX : Nat := 65575

theorem call_len_le {e : Env} (he : e.Registered) {d : Decoder} {buf n : Nat} {w : World} {r : Ret}
    (hn : n < 65536) (h : d.call e buf n w = .ok r) : r.len ≤ DECODED_MAX := by
  unfold DECODED_MAX
  cases d with
  | eth =>
    obtain ⟨_, _, _, _, -, -, -, rfl⟩ := (decodeEth_ok_iff (n := n) he).mp h
    simp
  | wifi =>
    obtain ⟨_, _, _, _, -, -, -, -, -, hn'⟩ := (decodeWifi_ok_iff he).mp h
    split at hn'
    · obtain ⟨_, _, -, -, hlen⟩ := hn'
      omega
    · split at hn' <;> omega
  | arp =>
    obtain ⟨-, -, hln, pln, -, hlen⟩ := decodeArp_ok (n := n) h
    have hh := hln.toNat_lt
    have hp := pln.toNat_lt
    omega
  | ip =>
    obtain ⟨b0, _, _, _, _, _, -, -, -, -, -, -, rfl⟩ := (decodeIp_ok_iff (n := n) he).mp h
    simp only
    omega
  | ip6 =>
    obtain ⟨l0, l1, _, _, _, _, -, -, -, -, rfl⟩ := (decodeIp6_ok_iff (n := n) he).mp h
    have hl := load16_lt e.host l0 l1
    simp only [ip6Len, IP6_HDR_LEN]
    split <;> omega
  | icmp =>
    obtain ⟨_, -, rfl⟩ := (decodeIcmp_ok_iff (n := n)).mp h
    simp
  | icmp6 =>
    obtain ⟨_, -, rfl⟩ := (decodeIcmp6_ok_iff (n := n)).mp h
    simp
  | tcp =>
    obtain ⟨_, _, _, _, o, _, _, -, -, -, rfl⟩ := (decodeTcp_ok_iff (n := n) he).mp h
    have ho := o.toNat_lt
    simp only
    omega
  | udp =>
    obtain ⟨_, _, _, _, -, rfl⟩ := (decodeUdp_ok_iff (n := n) he).mp h
    simp
  | dhcpd =>
    cases h
    simp
  | dhcpc =>
    cases h
    simp

theorem buflen_lt (c : Chain) : c.buflen < 65536 := by
  unfold Chain.buflen uint16
  omega

structure Windowed (caplen : Nat) (c : Chain) : Prop where
  datalen : c.datalen = int32 (caplen - c.data)
  data : (c.data : Int) ≤ DECODED_MAX * (c.decoder.layer - 2)

theorem windowed_start (g : Globals) (pkt : Packet) (d : Decoder) :
    Windowed pkt.caplen (lmapStart g pkt d) where
  datalen := by simp [lmapStart]
  data := by
    have := layer_ge d
    simp only [lmapStart]
    unfold DECODED_MAX
    omega

theorem windowed_step {e : Env} (he : e.Registered) {caplen : Nat} {c c' : Chain}
    (hw : Windowed caplen c) (h : chainBody e c = .again c') :
    Windowed caplen c' ∧ c'.data < caplen := by
  have hlayer := layer_successor (chain_successor he h)
  have hmax := layer_le c'.decoder
  obtain ⟨r, d, hcall, -, hpos, rfl⟩ := chainBody_again_iff.mp h
  have hlen := call_len_le he (buflen_lt c) hcall
  have hdata := hw.data
  simp only at hlayer hmax ⊢
  have hd : ((c.data + r.len : Nat) : Int) ≤ DECODED_MAX * (d.layer - 2) := by
    unfold DECODED_MAX at *
    omega
  have heq : int32 (c.datalen - r.len) = int32 (caplen - ((c.data + r.len : Nat) : Int)) := by
    rw [hw.datalen, int32_sub]
    congr 1
    omega
  refine ⟨⟨heq, hd⟩, ?_⟩
  have hlow : -2 ^ 31 ≤ (caplen : Int) - ((c.data + r.len : Nat) : Int) := by
    unfold DECODED_MAX at hd
    omega
  rw [heq] at hpos
  have := pos_of_int32_pos hlow hpos
  omega

theorem windowed_buflen {caplen : Nat} {c : Chain} (hw : Windowed caplen c) :
    (c.buflen : Int) = (caplen - c.data) % 2 ^ 16 := by
  rw [Chain.buflen, hw.datalen, uint16_int32]
  omega

def Chain.decodedLen (e : Env) (c : Chain) : Nat :=
  match c.call e with
  | .ok r => r.len
  | .error _ => 0

theorem visits_window {e : Env} (he : e.Registered) {caplen : Nat} (n : Nat) {c : Chain}
    (hw : Windowed caplen c) (i : Nat) {c' : Chain}
    (hc : (Loop.visits (chainBody e) n c)[i]? = some c') :
    c'.data = c.data + (((Loop.visits (chainBody e) n c).take i).map (Chain.decodedLen e)).sum ∧
      (0 < i → c'.data < caplen) ∧ (c'.buflen : Int) = (caplen - c'.data) % 2 ^ 16 := by
  induction n generalizing c i with
  | zero => simp [Loop.visits] at hc
  | succ n ih =>
    cases i with
    | zero =>
      have heq : c = c' := by simpa [Loop.visits] using hc
      subst heq
      exact ⟨by simp, by simp, windowed_buflen hw⟩
    | succ i =>
      cases hb : chainBody e c with
      | leave res => simp [Loop.visits_leave hb] at hc
      | again c1 =>
        rw [Loop.visits_again hb] at hc ⊢
        rw [List.getElem?_cons_succ] at hc
        obtain ⟨hw1, hin⟩ := windowed_step he hw hb
        obtain ⟨hsum, hlt, hbuf⟩ := ih hw1 i hc
        obtain ⟨r, d, hcall, -, -, rfl⟩ := chainBody_again_iff.mp hb
        have hlen : c.decodedLen e = r.len := by simp [Chain.decodedLen, hcall]
        simp only at hin
        refine ⟨?_, fun _ => ?_, hbuf⟩
        · rw [hsum, List.take_succ_cons, List.map_cons, List.sum_cons, hlen]
          exact Nat.add_assoc _ _ _
        · cases i with
          | zero =>
            simp only [List.take_zero, List.map_nil, List.sum_nil] at hsum
            omega
          | succ i => exact hlt (by omega)

/-- Every call is given the packet from the end of what was decoded before it, inside
the packet, and the number of bytes from there to its end. -/
def ExactWindows (e : Env) (caplen : Nat) (calls : List Chain) : Prop :=
  ∀ i c, calls[i]? = some c →
    c.data = ((calls.take i).map (Chain.decodedLen e)).sum ∧
    (0 < i → c.data < caplen) ∧ (c.buflen : Int) = caplen - c.data

/-- For a capture of any size, all of this holds but the count, which is short by a
multiple of 65536. -/
theorem lmapCalls_window (h : Host) (r : Running) (pkt : Packet) (n i : Nat) {c : Chain}
    (hc : (lmapCalls n h r.globals pkt)[i]? = some c) :
    c.data = (((lmapCalls n h r.globals pkt).take i).map
      (Chain.decodedLen (lmapEnv h r.globals pkt))).sum ∧
    (0 < i → c.data < pkt.caplen) ∧ (c.buflen : Int) = (pkt.caplen - c.data) % 2 ^ 16 := by
  rw [Running.lmapCalls_eq] at hc ⊢
  have hw := windowed_start r.globals pkt r.link.decoder
  have := visits_window (r.env_registered h pkt) n hw i hc
  simpa [lmapStart] using this

theorem firstCall_window (h : Host) (r : Running) (pkt : Packet) :
    ∃ c, (lmapCalls 1 h r.globals pkt)[0]? = some c ∧ c.data = 0 ∧
      (c.buflen : Int) = pkt.caplen % 2 ^ 16 := by
  refine ⟨lmapStart r.globals pkt r.link.decoder, ?_, rfl, ?_⟩
  · rw [Running.lmapCalls_eq]
    rfl
  · have hbuf := windowed_buflen (windowed_start r.globals pkt r.link.decoder)
    have hdata : (lmapStart r.globals pkt r.link.decoder).data = 0 := rfl
    rwa [hdata, Nat.cast_zero, sub_zero] at hbuf

/-- The windows are exact for the captures that a `u_int16` can count, and for no other. -/
theorem lmapDecode_windows_exact_iff (h : Host) (r : Running) (pkt : Packet) :
    (∀ n, ExactWindows (lmapEnv h r.globals pkt) pkt.caplen (lmapCalls n h r.globals pkt)) ↔
      pkt.caplen < 65536 := by
  constructor
  · intro hx
    obtain ⟨c, hc, hdata, hbuf⟩ := firstCall_window h r pkt
    obtain ⟨-, -, hexact⟩ := hx 1 0 c hc
    rw [hdata] at hexact
    omega
  · intro hlt n i c hc
    obtain ⟨hsum, hin, hbuf⟩ := lmapCalls_window h r pkt n i hc
    refine ⟨hsum, hin, ?_⟩
    by_cases hi : 0 < i
    · have := hin hi
      omega
    · have hzero : i = 0 := by omega
      subst hzero
      simp only [List.take_zero, List.map_nil, List.sum_nil] at hsum
      omega

/-- The smallest capture whose size a `u_int16` cannot hold. -/
def longPacket : Packet :=
  ⟨0, List.replicate 65536 0, by rw [List.length_replicate]; decide, fun _ => none⟩

theorem longPacket_window : ¬ ∀ n,
    ExactWindows (lmapEnv ⟨false, 64⟩ (Running.listed .eth).globals longPacket) longPacket.caplen
      (lmapCalls n ⟨false, 64⟩ (Running.listed .eth).globals longPacket) := by
  intro hx
  obtain ⟨c, hc, hdata, hbuf⟩ := firstCall_window ⟨false, 64⟩ (Running.listed .eth) longPacket
  obtain ⟨-, -, hexact⟩ := hx 1 0 c hc
  have hcaplen : longPacket.caplen = 65536 := List.length_replicate
  rw [hdata, hcaplen] at hexact
  rw [hcaplen] at hbuf
  omega

end Lmap
