import Lmap.ChainBound
import Lmap.Reads

/-!
The end of the chain, told layer by layer: what becomes of a packet from the
point where some decoder is called at some offset.
-/

set_option autoImplicit false

namespace Lmap

def Chain.at (caplen : Nat) (d : Decoder) (p : Nat) (w : World) : Chain :=
  ⟨d, p, int32 ((caplen : Int) - p), w⟩

def More (caplen p : Nat) : Prop := 0 < int32 ((caplen : Int) - p)

instance (caplen p : Nat) : Decidable (More caplen p) := inferInstanceAs (Decidable (_ < _))

def outcome (e : Env) (caplen : Nat) (d : Decoder) (p : Nat) (w : World) : Except Fault World :=
  match Loop.run (chainBody e) ROUNDS (Chain.at caplen d p w) with
  | some r => r
  | none => .error .hang

def leftAt (caplen p : Nat) : Nat := uint16 (int32 ((caplen : Int) - p))

def callAt (e : Env) (caplen : Nat) (d : Decoder) (p : Nat) (w : World) : Except Fault Ret :=
  d.call e p (leftAt caplen p) w

variable {e : Env} {caplen p : Nat} {d : Decoder} {w : World}

theorem call_at : (Chain.at caplen d p w).call e = callAt e caplen d p w := rfl

theorem rank_le (c : Chain) : c.rank ≤ 3 := by
  have := layer_ge c.decoder
  unfold Chain.rank
  omega

theorem outcome_spare (he : e.Registered) {n : Nat} (hn : 4 ≤ n) : outcome e caplen d p w =
    match Loop.run (chainBody e) n (Chain.at caplen d p w) with
    | some r => r
    | none => .error .hang := by
  have hrank := rank_le (Chain.at caplen d p w)
  obtain ⟨r, hr⟩ := Option.isSome_iff_exists.mp
    (chain_isSome he (n := 4) (c := Chain.at caplen d p w) (by omega))
  rw [outcome, Loop.run_mono hr hn, Loop.run_mono hr (by decide : 4 ≤ ROUNDS)]

theorem outcome_error {f : Fault} (h : callAt e caplen d p w = .error f) :
    outcome e caplen d p w = .error f := by
  have hleave : chainBody e (Chain.at caplen d p w) = .leave (.error f) :=
    chainBody_error_iff.mpr (call_at.trans h)
  rw [outcome, ROUNDS, Loop.run_leave hleave]

theorem datalen_at (len : Nat) : int32 (int32 ((caplen : Int) - p) - len) =
    int32 ((caplen : Int) - ((p + len : Nat) : Int)) := by
  rw [int32_sub]
  congr 1
  omega

theorem at_after (r : Ret) (d' : Decoder) : (Chain.at caplen d p w).after r d' =
    Chain.at caplen d' (p + r.len) r.world := by
  simp only [Chain.after, Chain.at, datalen_at]

theorem more_at (len : Nat) :
    0 < int32 (int32 ((caplen : Int) - p) - len) ↔ More caplen (p + len) := by
  rw [More, datalen_at]

theorem chainBody_at_iff {c' : Chain} : chainBody e (Chain.at caplen d p w) = .again c' ↔
    ∃ r d', callAt e caplen d p w = .ok r ∧ r.next = some d' ∧ More caplen (p + r.len) ∧
      c' = Chain.at caplen d' (p + r.len) r.world := by
  rw [chainBody_again_iff, call_at]
  simp only [Chain.at, datalen_at, More]

theorem outcome_ok (he : e.Registered) {r : Ret} (h : callAt e caplen d p w = .ok r) :
    outcome e caplen d p w =
      if More caplen (p + r.len) then
        match r.next with
        | some d' => outcome e caplen d' (p + r.len) r.world
        | none => .ok r.world
      else .ok r.world := by
  have hcall : (Chain.at caplen d p w).call e = .ok r := h
  have hstop : (More caplen (p + r.len) → r.next = none) →
      outcome e caplen d p w = .ok r.world := by
    intro hnone
    have hleave : chainBody e (Chain.at caplen d p w) = .leave (.ok r.world) :=
      chainBody_ok_iff.mpr ⟨r, hcall, rfl, fun hpos => hnone ((more_at _).mp hpos)⟩
    rw [outcome, ROUNDS, Loop.run_leave hleave]
  by_cases hmore : More caplen (p + r.len)
  · rw [if_pos hmore]
    cases hn : r.next with
    | none => exact hstop (fun _ => hn)
    | some d' =>
      have hagain := chainBody_at_iff.mpr ⟨r, d', h, hn, hmore, rfl⟩
      rw [outcome, ROUNDS, Loop.run_again hagain]
      exact (outcome_spare he (by decide : 4 ≤ 7)).symm
  · rw [if_neg hmore]
    exact hstop (fun hpos => absurd hpos hmore)

theorem outcome_error_iff (he : e.Registered) {f : Fault} :
    outcome e caplen d p w = .error f ↔ callAt e caplen d p w = .error f ∨
      ∃ r d', callAt e caplen d p w = .ok r ∧ r.next = some d' ∧ More caplen (p + r.len) ∧
        outcome e caplen d' (p + r.len) r.world = .error f := by
  cases h : callAt e caplen d p w with
  | error f' => simp [outcome_error h]
  | ok r =>
    rw [outcome_ok he h]
    by_cases hmore : More caplen (p + r.len)
    · cases hn : r.next with
      | none => simp [hmore, hn]
      | some d' => simp [hmore, hn]
    · simp [hmore]

theorem outcome_hand (he : e.Registered) {r : Ret} {d' : Decoder}
    (hcall : callAt e caplen d p w = .ok r) (hnext : r.next = some d')
    (hmore : More caplen (p + r.len)) :
    outcome e caplen d p w = outcome e caplen d' (p + r.len) r.world := by
  rw [outcome_ok he hcall, if_pos hmore, hnext]

theorem outcome_ok_cases (he : e.Registered) {v : World} (h : outcome e caplen d p w = .ok v) :
    ∃ r, callAt e caplen d p w = .ok r ∧
      ((v = r.world ∧ (More caplen (p + r.len) → r.next = none)) ∨
        ∃ d', r.next = some d' ∧ More caplen (p + r.len) ∧
          outcome e caplen d' (p + r.len) r.world = .ok v) := by
  cases hcall : callAt e caplen d p w with
  | error f => simp [outcome_error hcall] at h
  | ok r =>
    rw [outcome_ok he hcall] at h
    refine ⟨r, rfl, ?_⟩
    by_cases hmore : More caplen (p + r.len)
    · rw [if_pos hmore] at h
      cases hn : r.next with
      | none =>
        rw [hn] at h
        cases h
        exact .inl ⟨rfl, fun _ => rfl⟩
      | some d' =>
        rw [hn] at h
        exact .inr ⟨d', rfl, hmore, h⟩
    · rw [if_neg hmore] at h
      cases h
      exact .inl ⟨rfl, fun hm => absurd hm hmore⟩

def callsFrom (e : Env) (caplen : Nat) (d : Decoder) (p : Nat) (w : World) : List Chain :=
  Loop.visits (chainBody e) ROUNDS (Chain.at caplen d p w)

theorem mem_callsFrom_iff (he : e.Registered) {c : Chain} : c ∈ callsFrom e caplen d p w ↔
    c = Chain.at caplen d p w ∨ ∃ r d', callAt e caplen d p w = .ok r ∧ r.next = some d' ∧
      More caplen (p + r.len) ∧ c ∈ callsFrom e caplen d' (p + r.len) r.world := by
  have hspare : ∀ c', Loop.visits (chainBody e) ROUNDS c' = Loop.visits (chainBody e) 7 c' := by
    intro c'
    have hrank := rank_le c'
    exact Loop.visits_fuel (chain_isSome he (by omega)) (by decide)
  unfold callsFrom
  rw [ROUNDS, Loop.mem_visits_succ]
  constructor
  · rintro (rfl | ⟨c', hb, hc⟩)
    · exact .inl rfl
    · obtain ⟨r, d', hcall, hnext, hmore, rfl⟩ := chainBody_at_iff.mp hb
      refine .inr ⟨r, d', hcall, hnext, hmore, ?_⟩
      have := hspare (Chain.at caplen d' (p + r.len) r.world)
      rw [ROUNDS] at this
      rwa [this]
  · rintro (rfl | ⟨r, d', hcall, hnext, hmore, hc⟩)
    · exact .inl rfl
    · refine .inr ⟨_, chainBody_at_iff.mpr ⟨r, d', hcall, hnext, hmore, rfl⟩, ?_⟩
      have := hspare (Chain.at caplen d' (p + r.len) r.world)
      rw [ROUNDS] at this
      rwa [this] at hc

theorem mem_callsFrom_self (he : e.Registered) :
    Chain.at caplen d p w ∈ callsFrom e caplen d p w :=
  (mem_callsFrom_iff he).mpr (.inl rfl)

theorem mem_callsFrom_link (he : e.Registered) {d d' : Decoder} {r : Ret} {c : Chain}
    (hcall : callAt e caplen d 0 w = .ok r) (hnext : r.next = some d') (hmore : More caplen r.len)
    (hc : c ∈ callsFrom e caplen d' r.len r.world) : c ∈ callsFrom e caplen d 0 w := by
  rw [← Nat.zero_add r.len] at hmore hc
  exact (mem_callsFrom_iff he).mpr (.inr ⟨r, d', hcall, hnext, hmore, hc⟩)

theorem outcome_of_call (he : e.Registered) {c : Chain} (hc : c ∈ callsFrom e caplen d p w) :
    c = Chain.at caplen c.decoder c.data c.world ∧
      outcome e caplen c.decoder c.data c.world = outcome e caplen d p w := by
  have hat : c = Chain.at caplen c.decoder c.data c.world := by
    refine Loop.visits_invariant (P := fun c => c = Chain.at caplen c.decoder c.data c.world) ?_
      ROUNDS rfl c hc
    intro c c' hat hb
    rw [hat] at hb
    obtain ⟨r, d', -, -, -, rfl⟩ := chainBody_at_iff.mp hb
    rfl
  have hrank := rank_le (Chain.at caplen d p w)
  obtain ⟨res, hres⟩ := Option.isSome_iff_exists.mp
    (chain_isSome he (n := ROUNDS) (c := Chain.at caplen d p w) (by unfold ROUNDS; omega))
  obtain ⟨m, hm, hrun⟩ := Loop.run_of_visit hc hres
  rw [hat] at hrun
  exact ⟨hat, by rw [outcome, outcome, Loop.run_mono hrun hm, hres]⟩

theorem call_next (he : e.Registered) {c c' : Chain} (hc : c ∈ callsFrom e caplen d p w)
    (hb : chainBody e c = .again c') : c' ∈ callsFrom e caplen d p w := by
  have hrank := rank_le (Chain.at caplen d p w)
  exact Loop.visits_next (chain_isSome he (by unfold ROUNDS; omega)) hc hb

theorem layer_of_call (he : e.Registered) {c : Chain} (hc : c ∈ callsFrom e caplen d p w) :
    d.layer ≤ c.decoder.layer := by
  refine Loop.visits_invariant (P := fun c => d.layer ≤ c.decoder.layer) ?_ ROUNDS (Int.le_refl _)
    c hc
  intro c c' hle hb
  have := layer_successor (chain_successor he hb)
  omega

theorem Running.lmapDecode_outcome (r : Running) (h : Host) (pkt : Packet) :
    lmapDecode h r.globals pkt =
      (outcome (lmapEnv h r.globals pkt) pkt.caplen r.link.decoder 0 ⟨r.stats, dbBucketAlloc⟩).map
        (fun w => (w.bucket, { r.globals with stats := w.stats })) := by
  have hstart : lmapStart r.globals pkt r.link.decoder =
      Chain.at pkt.caplen r.link.decoder 0 ⟨r.stats, dbBucketAlloc⟩ := by
    simp [lmapStart, Chain.at, Running.globals]
  rw [Running.lmapDecode_eq, hstart, outcome]
  cases Loop.run (chainBody (lmapEnv h r.globals pkt)) ROUNDS
      (Chain.at pkt.caplen r.link.decoder 0 ⟨r.stats, dbBucketAlloc⟩) with
  | none => rfl
  | some res => cases res <;> rfl

theorem Running.lmapDecode_error_iff (r : Running) (h : Host) (pkt : Packet) (f : Fault) :
    lmapDecode h r.globals pkt = .error f ↔
      outcome (lmapEnv h r.globals pkt) pkt.caplen r.link.decoder 0 ⟨r.stats, dbBucketAlloc⟩ =
        .error f := by
  rw [r.lmapDecode_outcome, map_error_iff]

theorem net_successor {d d' : Decoder} (hd : d ∈ Decoder.eth.successors) (hd' : d' ∈ d.successors) :
    d' ∈ Decoder.ip.successors := by
  rcases net_cases hd with rfl | rfl | rfl
  · exact hd'
  · exact hd'
  · cases hd'

theorem proto_successor {d d' : Decoder} (hd : d ∈ Decoder.ip.successors)
    (hd' : d' ∈ d.successors) : d' = .dhcpd ∨ d' = .dhcpc := by
  have hall : ∀ d ∈ Decoder.ip.successors, ∀ d' ∈ d.successors, d' = .dhcpd ∨ d' = .dhcpc := by
    decide
  exact hall d hd d' hd'

theorem outcome_app {d : Decoder} (h : d = .dhcpd ∨ d = .dhcpc) :
    outcome e caplen d p w = .ok w := by
  have hcall : callAt e caplen d p w = .ok ⟨none, 0, w⟩ := by
    rcases h with rfl | rfl <;> rfl
  have hleave : chainBody e (Chain.at caplen d p w) = .leave (.ok w) :=
    chainBody_ok_iff.mpr ⟨_, hcall, rfl, fun _ => rfl⟩
  rw [outcome, ROUNDS, Loop.run_leave hleave]

theorem outcome_proto_ok (he : e.Registered) {d : Decoder} (hd : d ∈ Decoder.ip.successors)
    {r : Ret} (hcall : callAt e caplen d p w = .ok r) :
    outcome e caplen d p w = .ok r.world := by
  rw [outcome_ok he hcall]
  split
  · cases hnext : r.next with
    | none => rfl
    | some d' =>
      have happ := proto_successor hd ((call_spec he hcall).2 d' hnext)
      exact outcome_app happ
  · rfl

/-- Nothing goes wrong after the transport header. -/
theorem outcome_proto (he : e.Registered) {d : Decoder} (hd : d ∈ Decoder.ip.successors)
    (f : Fault) : outcome e caplen d p w = .error f ↔ callAt e caplen d p w = .error f := by
  cases hcall : callAt e caplen d p w with
  | error f' => simp [outcome_error hcall]
  | ok r =>
    rw [outcome_proto_ok he hd hcall]
    simp

end Lmap
