import Lmap.Decode
import Lmap.Library.Tlv

/-!
The walk over the options of a SYN segment: how wide the code takes each option
to be, where that leads it, and when it comes to an end.
-/

set_option autoImplicit false

namespace Lmap

def pushed (f : Finger) (param : FingerParam) (value : Int) : Finger :=
  match fingerprintPush (some f) param value with
  | .ok f' => f'
  | .error _ => f

theorem fingerprintPush_pushed (f : Finger) (param : FingerParam) (value : Int) :
    fingerprintPush (some f) param value = .ok (pushed f param value) := by
  obtain ⟨f', hf⟩ := fingerprintPush_some f param value
  rw [pushed, hf]

/-- The room the option at `p` is taken to fill. There is none at an end of list, nor at an
option of which a byte that is looked at cannot be read. -/
def optWidth (m : Memory) (p : Nat) : Option Nat :=
  match m p with
  | none => none
  | some kind =>
    if kind = TCPOPT_EOL then none
    else if kind = TCPOPT_NOP then some 1
    else if kind = TCPOPT_SACKOK then some 2
    else if kind = TCPOPT_MAXSEG then (m (p + 2)).bind (fun _ => (m (p + 3)).map (fun _ => 4))
    else if kind = TCPOPT_WSCALE then (m (p + 2)).map (fun _ => 3)
    else (m (p + 1)).map UInt8.toNat

def FIXED_KINDS : List UInt8 :=
  [TCPOPT_EOL, TCPOPT_NOP, TCPOPT_MAXSEG, TCPOPT_WSCALE, TCPOPT_SACKOK]

section Width

variable {m : Memory} {p : Nat}

theorem optWidth_nop (h : m p = some TCPOPT_NOP) : optWidth m p = some 1 := by
  simp [optWidth, h, TCPOPT_NOP, TCPOPT_EOL]

theorem optWidth_sack (h : m p = some TCPOPT_SACKOK) : optWidth m p = some 2 := by
  simp [optWidth, h, TCPOPT_NOP, TCPOPT_EOL, TCPOPT_SACKOK]

theorem optWidth_mss {a b : UInt8} (h : m p = some TCPOPT_MAXSEG) (ha : m (p + 2) = some a)
    (hb : m (p + 3) = some b) : optWidth m p = some 4 := by
  simp [optWidth, h, ha, hb, TCPOPT_NOP, TCPOPT_EOL, TCPOPT_MAXSEG, TCPOPT_SACKOK]

theorem optWidth_wscale {b : UInt8} (h : m p = some TCPOPT_WSCALE) (hb : m (p + 2) = some b) :
    optWidth m p = some 3 := by
  simp [optWidth, h, hb, TCPOPT_NOP, TCPOPT_EOL, TCPOPT_MAXSEG, TCPOPT_SACKOK, TCPOPT_WSCALE]

theorem optWidth_sized {kind len : UInt8} (hkind : kind ∉ FIXED_KINDS) (h : m p = some kind)
    (hlen : m (p + 1) = some len) : optWidth m p = some len.toNat := by
  simp only [FIXED_KINDS, List.mem_cons, List.not_mem_nil, or_false, not_or] at hkind
  simp only [optWidth, h, hlen, hkind, if_false, Option.map_some]

end Width

def OptReadable (m : Memory) (p : Nat) : Prop := m p = some TCPOPT_EOL ∨ (optWidth m p).isSome

def optPush (h : Host) (m : Memory) (p : Nat) (f : Finger) : Finger :=
  match m p with
  | none => f
  | some kind =>
    if kind = TCPOPT_NOP then pushed f .nop 1
    else if kind = TCPOPT_SACKOK then pushed f .sack 1
    else if kind = TCPOPT_MAXSEG then
      pushed f .mss (ntohs h (ptohs h ((m (p + 2)).getD 0) ((m (p + 3)).getD 0)))
    else if kind = TCPOPT_WSCALE then pushed f .ws ((m (p + 2)).getD 0).toNat
    else if kind = TCPOPT_TIMESTAMP then pushed f .timestamp 1
    else f

variable {h : Host} {m : Memory} {start stop : Nat} {f : Finger}

theorem optSwitch_eol {p : Nat} (hp : m p = some TCPOPT_EOL) :
    optSwitch h m stop ⟨p, some f⟩ = .ok ⟨stop, some f⟩ := by
  simp [optSwitch, readU8_of_some hp, bind, Except.bind, pure, Except.pure]

theorem optSwitch_width {p n : Nat} (hn : optWidth m p = some n) :
    optSwitch h m stop ⟨p, some f⟩ = .ok ⟨p + n, some (optPush h m p f)⟩ := by
  cases hk : m p with
  | none => simp [optWidth, hk] at hn
  | some kind =>
    simp only [optWidth, hk] at hn
    simp only [optSwitch, optPush, hk, readU8_of_some hk, fingerprintPush_pushed, bind, Except.bind,
      pure, Except.pure]
    split at hn
    · cases hn
    rename_i h0
    simp only [h0, if_false]
    split at hn
    · rename_i h1
      cases hn
      simp [h1]
    rename_i h1
    simp only [h1, if_false]
    split at hn
    · rename_i h4
      cases hn
      simp [h4]
    rename_i h4
    simp only [h4, if_false]
    split at hn
    · rename_i h2
      simp only [Option.bind_eq_some_iff, Option.map_eq_some_iff] at hn
      obtain ⟨a, ha, b, hb, rfl⟩ := hn
      simp [h2, readU8_of_some ha, readU8_of_some hb, ha, hb]
    rename_i h2
    simp only [h2, if_false]
    split at hn
    · rename_i h3
      obtain ⟨b, hb, rfl⟩ := Option.map_eq_some_iff.mp hn
      simp [h3, readU8_of_some hb, hb]
    rename_i h3
    obtain ⟨len, hlen, rfl⟩ := Option.map_eq_some_iff.mp hn
    have hsum : p + 1 + len.toNat - 1 = p + len.toNat := by omega
    simp only [h3, if_false, readU8_of_some hlen, hsum]
    split <;> rfl

theorem optReadable_of_total (htotal : ∀ p, (m p).isSome) (p : Nat) : OptReadable m p := by
  obtain ⟨kind, hk⟩ := Option.isSome_iff_exists.mp (htotal p)
  obtain ⟨b1, h1⟩ := Option.isSome_iff_exists.mp (htotal (p + 1))
  obtain ⟨b2, h2⟩ := Option.isSome_iff_exists.mp (htotal (p + 2))
  obtain ⟨b3, h3⟩ := Option.isSome_iff_exists.mp (htotal (p + 3))
  by_cases heol : kind = TCPOPT_EOL
  · exact .inl (heol ▸ hk)
  · right
    simp only [optWidth, hk, h1, h2, h3, heol, if_false]
    split <;> try rfl
    split <;> try rfl
    split <;> try rfl
    split <;> rfl

theorem optSwitch_unreadable {p : Nat} (hp : ¬ OptReadable m p) :
    optSwitch h m stop ⟨p, some f⟩ = .error .outOfRange := by
  simp only [OptReadable, not_or, Option.not_isSome_iff_eq_none] at hp
  obtain ⟨heol, hn⟩ := hp
  cases hk : m p with
  | none => simp [optSwitch, readU8_of_none hk, bind, Except.bind]
  | some kind =>
    have h0 : ¬ kind = TCPOPT_EOL := fun h => heol (by rw [hk, h])
    simp only [optWidth, hk, h0, if_false] at hn
    simp only [optSwitch, readU8_of_some hk, fingerprintPush_pushed, bind, Except.bind, h0,
      if_false]
    split at hn
    · cases hn
    rename_i h1
    simp only [h1, if_false]
    split at hn
    · cases hn
    rename_i h4
    simp only [h4, if_false]
    split at hn
    · rename_i h2
      cases ha : m (p + 2) with
      | none => simp [h2, readU8_of_none ha]
      | some a =>
        have hb : m (p + 3) = none := by simpa [ha] using hn
        simp [h2, readU8_of_some ha, readU8_of_none hb]
    rename_i h2
    simp only [h2, if_false]
    split at hn
    · rename_i h3
      have hb : m (p + 2) = none := by simpa using hn
      simp [h3, readU8_of_none hb]
    rename_i h3
    have hlen : m (p + 1) = none := by simpa using hn
    simp only [h3, if_false, readU8_of_none hlen]
    split <;> rfl

theorem optBody_done {p : Nat} {finger : Option Finger} (hp : stop ≤ p) :
    optBody h m stop ⟨p, finger⟩ = .leave (.ok finger) := by
  simp [optBody, Nat.not_lt.mpr hp]

theorem optBody_eol {p : Nat} (hlt : p < stop) (hp : m p = some TCPOPT_EOL) :
    optBody h m stop ⟨p, some f⟩ = .again ⟨stop, some f⟩ := by
  simp [optBody, hlt, optSwitch_eol hp]

theorem optBody_width {p n : Nat} (hlt : p < stop) (hn : optWidth m p = some n) :
    optBody h m stop ⟨p, some f⟩ = .again ⟨p + n, some (optPush h m p f)⟩ := by
  simp [optBody, hlt, optSwitch_width hn]

theorem optBody_unreadable {p : Nat} (hlt : p < stop) (hp : ¬ OptReadable m p) :
    optBody h m stop ⟨p, some f⟩ = .leave (.error .outOfRange) := by
  simp [optBody, hlt, optSwitch_unreadable hp]

theorem optBody_again {p : Nat} {w : Walk} (hb : optBody h m stop ⟨p, some f⟩ = .again w) :
    p < stop ∧ ((m p = some TCPOPT_EOL ∧ w = ⟨stop, some f⟩) ∨
      ∃ n, optWidth m p = some n ∧ w = ⟨p + n, some (optPush h m p f)⟩) := by
  by_cases hlt : p < stop
  · refine ⟨hlt, ?_⟩
    by_cases hr : OptReadable m p
    · rcases hr with heol | hn
      · rw [optBody_eol hlt heol] at hb
        cases hb
        exact .inl ⟨heol, rfl⟩
      · obtain ⟨n, hn⟩ := Option.isSome_iff_exists.mp hn
        rw [optBody_width hlt hn] at hb
        cases hb
        exact .inr ⟨n, hn, rfl⟩
    · rw [optBody_unreadable hlt hr] at hb
      cases hb
  · rw [optBody_done (Nat.le_of_not_lt hlt)] at hb
    cases hb

theorem run_item {k p : Nat} (hitem : Tlv.ItemAt (optWidth m) start stop k p) (f : Finger) :
    ∃ f', ∀ n, Loop.run (optBody h m stop) (n + k) ⟨start, some f⟩ =
      Loop.run (optBody h m stop) n ⟨p, some f'⟩ := by
  induction hitem with
  | first => exact ⟨f, fun n => rfl⟩
  | @next k p n _ hlt hn ih =>
    obtain ⟨f', hrun⟩ := ih
    refine ⟨optPush h m p f', fun i => ?_⟩
    calc
      Loop.run (optBody h m stop) (i + (k + 1)) ⟨start, some f⟩
        = Loop.run (optBody h m stop) (i + 1 + k) ⟨start, some f⟩ := by
          rw [Nat.add_comm k 1, Nat.add_assoc]
      _ = Loop.run (optBody h m stop) (i + 1) ⟨p, some f'⟩ := hrun (i + 1)
      _ = Loop.run (optBody h m stop) i ⟨p + n, some (optPush h m p f')⟩ :=
          Loop.run_again (optBody_width hlt hn) i

theorem run_zero_width {p : Nat} (hlt : p < stop) (hn : optWidth m p = some 0) (f : Finger)
    (n : Nat) : Loop.run (optBody h m stop) n ⟨p, some f⟩ = none := by
  refine Loop.run_stuck (P := fun w => w.optStart = p ∧ ∃ f, w.finger = some f) ?_ n ⟨rfl, f, rfl⟩
  rintro ⟨_, _⟩ ⟨rfl, f, rfl⟩
  exact ⟨_, optBody_width hlt hn, rfl, _, rfl⟩

theorem optLoop_fuel {n : Nat} (hn : stop - start < n) (f : Finger) :
    optLoop h m start stop (some f) =
      match Loop.run (optBody h m stop) n ⟨start, some f⟩ with
      | some r => r
      | none => .error .hang := by
  have hfuel : Loop.run (optBody h m stop) (stop - start + 1) ⟨start, some f⟩ =
      Loop.run (optBody h m stop) n ⟨start, some f⟩ := by
    refine Loop.run_fuel (I := fun w => ∃ f, w.finger = some f) (μ := fun w => stop - w.optStart)
      (P := fun w => w.optStart < stop ∧ (∃ f, w.finger = some f) ∧
        optWidth m w.optStart = some 0) ?_ ?_ ⟨f, rfl⟩ (Nat.lt_succ_self _) hn
    · rintro ⟨p, _⟩ ⟨hlt, ⟨f, rfl⟩, hzero⟩
      exact ⟨_, optBody_width hlt hzero, hlt, ⟨_, rfl⟩, hzero⟩
    · rintro ⟨p, _⟩ w' ⟨f, rfl⟩ hb
      obtain ⟨hlt, ⟨-, rfl⟩ | ⟨n, hn, rfl⟩⟩ := optBody_again hb
      · exact ⟨⟨f, rfl⟩, .inl (by simp only; omega)⟩
      · refine ⟨⟨_, rfl⟩, ?_⟩
        by_cases hzero : n = 0
        · subst hzero
          exact .inr ⟨hlt, ⟨f, rfl⟩, hn⟩
        · exact .inl (by simp only; omega)
  unfold optLoop
  cases hrun : Loop.run (optBody h m stop) n ⟨start, some f⟩ with
  | none => simp only [hfuel, hrun]
  | some r => simp only [hfuel, hrun]

theorem optLoop_hang {k p : Nat} (hitem : Tlv.ItemAt (optWidth m) start stop k p) (hlt : p < stop)
    (hn : optWidth m p = some 0) (f : Finger) :
    optLoop h m start stop (some f) = .error .hang := by
  obtain ⟨f', hrun⟩ := run_item (h := h) hitem f
  rw [optLoop_fuel (n := stop - start + 1 + k) (by omega), hrun, run_zero_width hlt hn]

theorem optLoop_outOfRange {k p : Nat} (hitem : Tlv.ItemAt (optWidth m) start stop k p)
    (hlt : p < stop) (hp : ¬ OptReadable m p) (f : Finger) :
    optLoop h m start stop (some f) = .error .outOfRange := by
  obtain ⟨f', hrun⟩ := run_item (h := h) hitem f
  rw [optLoop_fuel (n := stop - start + 1 + k) (by omega), hrun,
    Loop.run_leave (optBody_unreadable hlt hp)]

def OptionsReadable (m : Memory) (start stop : Nat) : Prop :=
  ∀ k p, Tlv.ItemAt (optWidth m) start stop k p → p < stop → OptReadable m p

def Walk.Stands (m : Memory) (start stop : Nat) (w : Walk) : Prop :=
  (∃ f, w.finger = some f) ∧
    (stop ≤ w.optStart ∨ ∃ k, Tlv.ItemAt (optWidth m) start stop k w.optStart)

theorem walk_step {w w' : Walk} (hw : w.Stands m start stop)
    (hb : optBody h m stop w = .again w') : w'.Stands m start stop := by
  obtain ⟨p, _⟩ := w
  obtain ⟨⟨f, rfl⟩, hat⟩ := hw
  obtain ⟨hlt, ⟨-, rfl⟩ | ⟨n, hn, rfl⟩⟩ := optBody_again hb
  · exact ⟨⟨f, rfl⟩, .inl (Nat.le_refl _)⟩
  · rcases hat with hle | ⟨k, hitem⟩
    · exact absurd hlt (Nat.not_lt.mpr hle)
    · exact ⟨⟨_, rfl⟩, .inr ⟨k + 1, .next hitem hlt hn⟩⟩

theorem walk_advances (hadv : Tlv.Advancing (optWidth m) start stop) {w w' : Walk}
    (hw : w.Stands m start stop) (hb : optBody h m stop w = .again w') :
    w.optStart < w'.optStart ∧ w.optStart < stop := by
  obtain ⟨p, _⟩ := w
  obtain ⟨⟨f, rfl⟩, hat⟩ := hw
  obtain ⟨hlt, ⟨-, rfl⟩ | ⟨n, hn, rfl⟩⟩ := optBody_again hb
  · exact ⟨hlt, hlt⟩
  · rcases hat with hle | ⟨k, hitem⟩
    · exact absurd hlt (Nat.not_lt.mpr hle)
    · have hne := hadv k p hitem hlt
      rw [hn] at hne
      have hpos : n ≠ 0 := fun h => hne (h ▸ rfl)
      exact ⟨by simp only; omega, hlt⟩

theorem stands_start (f : Finger) : Walk.Stands m start stop ⟨start, some f⟩ :=
  ⟨⟨f, rfl⟩, .inr ⟨0, .first⟩⟩

theorem optLoop_ok (hread : OptionsReadable m start stop)
    (hadv : Tlv.Advancing (optWidth m) start stop) (f : Finger) :
    ∃ f', optLoop h m start stop (some f) = .ok (some f') := by
  have hsome : (Loop.run (optBody h m stop) (stop - start + 1) ⟨start, some f⟩).isSome :=
    Loop.run_isSome (P := Walk.Stands m start stop) (μ := fun w => stop - w.optStart)
      (fun w w' hw hb => ⟨walk_step hw hb, by have := walk_advances hadv hw hb; omega⟩)
      (stands_start f) (Nat.lt_succ_self (stop - start))
  obtain ⟨r, hr⟩ := Option.isSome_iff_exists.mp hsome
  have hok : ∃ f', r = .ok (some f') := by
    refine Loop.run_invariant (Q := fun r => ∃ f', r = .ok (some f'))
      (fun w w' hw hb => walk_step hw hb) ?_ (stands_start f) hr
    rintro ⟨p, _⟩ r ⟨⟨f, rfl⟩, hat⟩ hb
    by_cases hlt : p < stop
    · rcases hat with hle | ⟨k, hitem⟩
      · exact absurd hlt (Nat.not_lt.mpr hle)
      · rcases hread k p hitem hlt with heol | hn
        · rw [optBody_eol hlt heol] at hb
          cases hb
        · obtain ⟨n, hn⟩ := Option.isSome_iff_exists.mp hn
          rw [optBody_width hlt hn] at hb
          cases hb
    · rw [optBody_done (Nat.le_of_not_lt hlt)] at hb
      cases hb
      exact ⟨f, rfl⟩
  obtain ⟨f', rfl⟩ := hok
  exact ⟨f', by rw [optLoop_fuel (Nat.lt_succ_self _), hr]⟩

/-- The three ends of the walk: at the end of the options, beyond what can be read, and never. -/
theorem optLoop_ok_iff (f : Finger) :
    (∃ r, optLoop h m start stop (some f) = .ok r) ↔
      OptionsReadable m start stop ∧ Tlv.Advancing (optWidth m) start stop := by
  constructor
  · rintro ⟨r, hr⟩
    constructor
    · intro k p hitem hlt
      by_contra hp
      rw [optLoop_outOfRange hitem hlt hp] at hr
      cases hr
    · intro k p hitem hlt hn
      rw [optLoop_hang hitem hlt hn] at hr
      cases hr
  · rintro ⟨hread, hadv⟩
    obtain ⟨f', hf⟩ := optLoop_ok (h := h) hread hadv f
    exact ⟨_, hf⟩

theorem optLoop_outOfRange_iff (f : Finger) :
    optLoop h m start stop (some f) = .error .outOfRange ↔ ¬ OptionsReadable m start stop := by
  constructor
  · intro herr hread
    by_cases hadv : Tlv.Advancing (optWidth m) start stop
    · obtain ⟨f', hf⟩ := optLoop_ok (h := h) hread hadv f
      cases herr.symm.trans hf
    · obtain ⟨k, p, hitem, hlt, hn⟩ := Tlv.not_advancing_iff.mp hadv
      cases herr.symm.trans (optLoop_hang hitem hlt hn f)
  · intro hread
    simp only [OptionsReadable, not_forall] at hread
    obtain ⟨k, p, hitem, hlt, hp⟩ := hread
    exact optLoop_outOfRange hitem hlt hp f

theorem optLoop_ne_error (f : Finger) (msg : String) :
    optLoop h m start stop (some f) ≠ .error (.error msg) := by
  by_cases hread : OptionsReadable m start stop
  · by_cases hadv : Tlv.Advancing (optWidth m) start stop
    · obtain ⟨f', hf⟩ := optLoop_ok (h := h) hread hadv f
      simp [hf]
    · obtain ⟨k, p, hitem, hlt, hn⟩ := Tlv.not_advancing_iff.mp hadv
      simp [optLoop_hang hitem hlt hn f]
  · simp [(optLoop_outOfRange_iff f).mpr hread]

theorem optEnd_of_ptr32 {e : Env} {tcp off : Nat} (hbits : e.host.ptrBits = 32)
    (hlow : e.addr + tcp + off * 4 < 2 ^ 32) : optEnd e tcp off = tcp + off * 4 := by
  have hmod : int32 (int32 ((e.addr + tcp : Nat) : Int) + (off * 4 : Nat)) % 2 ^ 32 =
      (((e.addr + tcp : Nat) : Int) + (off * 4 : Nat)) % 2 ^ 32 := by
    unfold int32
    rw [Int.bmod_add_bmod]
    exact Int.bmod_emod
  rw [optEnd, hbits, hmod, Int.emod_eq_of_lt (by omega) (by omega)]
  omega

/-- The data offset leaves room for 40 bytes of options. -/
def OPTIONS_MAX : Nat := 40

/-- Every iteration advances `opt_start`, and no more than 40 of them are made. -/
def WalkEnds (h : Host) (m : Memory) (start stop : Nat) (f : Finger) : Prop :=
  (∀ n, ∀ w ∈ Loop.visits (optBody h m stop) n ⟨start, some f⟩,
    ∀ w', optBody h m stop w = .again w' → w.optStart < w'.optStart) ∧
  (Loop.run (optBody h m stop) (OPTIONS_MAX + 1) ⟨start, some f⟩).isSome

theorem run_or_item (j : Nat) (f : Finger) :
    (Loop.run (optBody h m stop) (j + 1) ⟨start, some f⟩).isSome ∨
      ∃ p, Tlv.ItemAt (optWidth m) start stop j p ∧ p < stop := by
  induction j with
  | zero =>
    by_cases hlt : start < stop
    · exact .inr ⟨start, .first, hlt⟩
    · left
      rw [Loop.run_leave (optBody_done (Nat.le_of_not_lt hlt))]
      rfl
  | succ j ih =>
    rcases ih with hrun | ⟨p, hitem, hlt⟩
    · obtain ⟨r, hr⟩ := Option.isSome_iff_exists.mp hrun
      left
      rw [Loop.run_mono hr (Nat.le_succ _)]
      rfl
    · obtain ⟨f', hrun⟩ := run_item (h := h) hitem f
      have hrun2 := hrun 2
      rw [Nat.add_comm] at hrun2
      by_cases hr : OptReadable m p
      · rcases hr with heol | hn
        · left
          rw [hrun2, Loop.run_again (optBody_eol hlt heol),
            Loop.run_leave (optBody_done (Nat.le_refl _))]
          rfl
        · obtain ⟨n, hn⟩ := Option.isSome_iff_exists.mp hn
          by_cases hend : p + n < stop
          · exact .inr ⟨p + n, .next hitem hlt hn, hend⟩
          · left
            rw [hrun2, Loop.run_again (optBody_width hlt hn),
              Loop.run_leave (optBody_done (Nat.le_of_not_lt hend))]
            rfl
      · left
        rw [hrun2, Loop.run_leave (optBody_unreadable hlt hr)]
        rfl

theorem walkEnds_of_advancing (hadv : Tlv.Advancing (optWidth m) start stop)
    (hmost : Tlv.AtMost OPTIONS_MAX (optWidth m) start stop) (f : Finger) :
    WalkEnds h m start stop f := by
  constructor
  · intro n w hw w' hb
    have hat := Loop.visits_invariant (P := Walk.Stands m start stop)
      (fun w w' hw hb => walk_step hw hb) n (stands_start f) w hw
    exact (walk_advances hadv hat hb).1
  · rcases @run_or_item h m start stop OPTIONS_MAX f with hrun | ⟨p, hitem, hlt⟩
    · exact hrun
    · have := hmost _ _ hitem hlt
      omega

theorem advancing_of_walkEnds {f : Finger} (hw : WalkEnds h m start stop f) :
    Tlv.Advancing (optWidth m) start stop := by
  obtain ⟨-, hrun⟩ := hw
  obtain ⟨r, hr⟩ := Option.isSome_iff_exists.mp hrun
  intro k p hitem hlt hn
  obtain ⟨f', hitemRun⟩ := run_item (h := h) hitem f
  have hmore := Loop.run_mono hr (Nat.le_add_right (OPTIONS_MAX + 1) k)
  rw [hitemRun, run_zero_width hlt hn] at hmore
  cases hmore

theorem atMost_of_walkEnds (htotal : ∀ p, (m p).isSome) {f : Finger}
    (hw : WalkEnds h m start stop f) : Tlv.AtMost OPTIONS_MAX (optWidth m) start stop := by
  obtain ⟨-, hrun⟩ := hw
  obtain ⟨r, hr⟩ := Option.isSome_iff_exists.mp hrun
  intro k p hitem hlt
  by_contra hk
  obtain ⟨f', hitemRun⟩ := run_item (h := h) hitem f
  have hmore := Loop.run_mono hr (m := 1 + k) (by omega)
  rw [hitemRun] at hmore
  rcases optReadable_of_total htotal p with heol | hn
  · rw [Loop.run_again (optBody_eol hlt heol)] at hmore
    cases hmore
  · obtain ⟨n, hn⟩ := Option.isSome_iff_exists.mp hn
    rw [Loop.run_again (optBody_width hlt hn)] at hmore
    cases hmore

/-- No option before `stop` has a length byte that counts and says 0. -/
def NoZeroLength (opts : Nat → UInt8) (start stop : Nat) : Prop :=
  ∀ k p, Tlv.ItemAt (optWidth (fun i => some (opts i))) start stop k p → p < stop →
    opts p ∉ FIXED_KINDS → opts (p + 1) ≠ 0

theorem advancing_iff_noZeroLength (opts : Nat → UInt8) :
    Tlv.Advancing (optWidth (fun i => some (opts i))) start stop ↔
      NoZeroLength opts start stop := by
  have hzero : ∀ p, optWidth (fun i => some (opts i)) p = some 0 ↔
      opts p ∉ FIXED_KINDS ∧ opts (p + 1) = 0 := by
    intro p
    have hnat : (opts (p + 1)).toNat = 0 ↔ opts (p + 1) = 0 := by
      rw [← UInt8.toNat_inj]
      rfl
    simp only [optWidth, FIXED_KINDS, List.mem_cons, List.not_mem_nil, or_false, not_or]
    grind
  simp only [Tlv.Advancing, NoZeroLength, hzero, Ne]
  grind

/-- The walk of `decode_tcp` over any bytes ends, by rights, exactly if no option gives its
length as 0 and there are no more than 40, as is so whenever the end pointer is the one the
data offset gives. -/
theorem decodeTcp_walk_ends_iff (h : Host) (addr : Nat) (table : List DecEntry)
    (opts : Nat → UInt8) (tcp : Nat) (o : UInt8) (f : Finger) :
    (WalkEnds h (fun i => some (opts i)) (tcp + 20)
        (optEnd ⟨h, addr, fun i => some (opts i), table⟩ tcp (tcpOff h o)) f ↔
      NoZeroLength opts (tcp + 20)
        (optEnd ⟨h, addr, fun i => some (opts i), table⟩ tcp (tcpOff h o)) ∧
      Tlv.AtMost OPTIONS_MAX (optWidth (fun i => some (opts i))) (tcp + 20)
        (optEnd ⟨h, addr, fun i => some (opts i), table⟩ tcp (tcpOff h o))) ∧
    (optEnd ⟨h, addr, fun i => some (opts i), table⟩ tcp (tcpOff h o) = tcp + tcpOff h o * 4 →
      (WalkEnds h (fun i => some (opts i)) (tcp + 20) (tcp + tcpOff h o * 4) f ↔
        NoZeroLength opts (tcp + 20) (tcp + tcpOff h o * 4))) := by
  have hends : ∀ stop, WalkEnds h (fun i => some (opts i)) (tcp + 20) stop f ↔
      NoZeroLength opts (tcp + 20) stop ∧
        Tlv.AtMost OPTIONS_MAX (optWidth (fun i => some (opts i))) (tcp + 20) stop := by
    intro stop
    rw [← advancing_iff_noZeroLength]
    constructor
    · intro hw
      exact ⟨advancing_of_walkEnds hw, atMost_of_walkEnds (fun _ => rfl) hw⟩
    · rintro ⟨hadv, hmost⟩
      exact walkEnds_of_advancing hadv hmost f
  refine ⟨hends _, fun _ => ?_⟩
  rw [hends]
  refine and_iff_left_of_imp (fun hz => ?_)
  have ho := o.toNat_lt
  refine ((advancing_iff_noZeroLength opts).mpr hz).atMost ?_
  rw [tcpOff_eq]
  unfold OPTIONS_MAX
  omega

theorem decodeTcp_walk_ends_nops :
    WalkEnds ⟨false, 32⟩ (fun _ => some TCPOPT_NOP) 20 24 fingerprintAlloc := by
  have hnops : NoZeroLength (fun _ => TCPOPT_NOP) 20 24 := by
    intro k p _ _ hk
    exact absurd (by decide : TCPOPT_NOP ∈ FIXED_KINDS) hk
  exact ((decodeTcp_walk_ends_iff ⟨false, 32⟩ 0 [] (fun _ => TCPOPT_NOP) 0 0x60
    fingerprintAlloc).2 (by decide)).mpr hnops

def zeroLengthOption (i : Nat) : UInt8 := if i = 20 then 5 else 0

theorem zeroLengthOption_walk :
    optEnd ⟨⟨false, 32⟩, 0, fun i => some (zeroLengthOption i), []⟩ 0
        (tcpOff ⟨false, 32⟩ 0x60) = 24 ∧
      ¬ WalkEnds ⟨false, 32⟩ (fun i => some (zeroLengthOption i)) 20 24 fingerprintAlloc := by
  refine ⟨by decide, fun hends => ?_⟩
  have hzero : optWidth (fun i => some (zeroLengthOption i)) 20 = some 0 := by decide
  exact advancing_of_walkEnds hends 0 20 .first (by decide) hzero

end Lmap
