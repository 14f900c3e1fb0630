import Lmap.FingerFields
import Lmap.TcpOptions

/-!
The walk over the options, told on the fields of the fingerprint instead of its bytes.
-/

set_option autoImplicit false

namespace Lmap

theorem pushed_buffer (F : FingerFields) {param : FingerParam} {v : Int} (h : F.Fits param v) :
    pushed F.buffer param v = (F.push param v).buffer := by
  have hpush := F.fingerprintPush_buffer h
  rw [fingerprintPush_pushed] at hpush
  exact Except.ok.inj hpush

theorem fits_one (F : FingerFields) {param : FingerParam}
    (h : param ∈ [FingerParam.sack, .nop, .timestamp]) : F.Fits param 1 := by
  simp only [List.mem_cons, List.not_mem_nil, or_false] at h
  rcases h with rfl | rfl | rfl <;> exact .inr rfl

def sizeRead (h : Host) (a b : UInt8) : Nat := ntohs h (ptohs h a b)

theorem sizeRead_little {h : Host} (hle : h.bigEndian = false) (a b : UInt8) :
    sizeRead h a b = net16 a b := ntohs_ptohs h hle a b

theorem sizeRead_big {h : Host} (hbe : h.bigEndian = true) (a b : UInt8) :
    sizeRead h a b = net16 b a := by
  simp [sizeRead, ntohs, ptohs, net16, hbe]

theorem sizeRead_lt (h : Host) (a b : UInt8) : sizeRead h a b < 65536 := by
  have ha := a.toNat_lt
  have hb := b.toNat_lt
  cases hh : h.bigEndian with
  | true =>
    rw [sizeRead_big hh, net16]
    omega
  | false =>
    rw [sizeRead_little hh, net16]
    omega

def sizeBytes (m : Memory) (p : Nat) : UInt8 × UInt8 := (m.byte (p + 2), m.byte (p + 3))

def optNote (h : Host) (m : Memory) (p : Nat) (F : FingerFields) : FingerFields :=
  match m p with
  | none => F
  | some kind =>
    if kind = TCPOPT_NOP then F.push .nop 1
    else if kind = TCPOPT_SACKOK then F.push .sack 1
    else if kind = TCPOPT_MAXSEG then
      F.push .mss (sizeRead h (sizeBytes m p).1 (sizeBytes m p).2)
    else if kind = TCPOPT_WSCALE then F.push .ws (m.byte (p + 2)).toNat
    else if kind = TCPOPT_TIMESTAMP then F.push .timestamp 1
    else F

variable {h : Host} {m : Memory} {p start stop : Nat} {F G : FingerFields}

theorem optPush_buffer : optPush h m p F.buffer = (optNote h m p F).buffer := by
  unfold optPush optNote
  cases m p with
  | none => rfl
  | some kind =>
    dsimp only
    split
    · exact pushed_buffer F (fits_one F (by simp))
    split
    · exact pushed_buffer F (fits_one F (by simp))
    split
    · have hlt := sizeRead_lt h (sizeBytes m p).1 (sizeBytes m p).2
      have hfits : F.Fits .mss (sizeRead h (sizeBytes m p).1 (sizeBytes m p).2) :=
        And.intro (by omega) (by omega)
      exact pushed_buffer F hfits
    split
    · have hlt := (m.byte (p + 2)).toNat_lt
      have hfits : F.Fits .ws (m.byte (p + 2)).toNat := And.intro (by omega) (by omega)
      exact pushed_buffer F hfits
    split
    · exact pushed_buffer F (fits_one F (by simp))
    · rfl

structure Walked (F G : FingerFields) : Prop where
  window : G.window = F.window
  ttl : G.ttl = F.ttl
  df : G.df = F.df
  flag : G.flag = F.flag
  lt : G.lt = F.lt
  bounded : F.Bounded → G.Bounded

theorem Walked.refl (F : FingerFields) : Walked F F := ⟨rfl, rfl, rfl, rfl, rfl, id⟩

theorem Walked.trans {H : FingerFields} (hFG : Walked F G) (hGH : Walked G H) : Walked F H where
  window := hGH.window.trans hFG.window
  ttl := hGH.ttl.trans hFG.ttl
  df := hGH.df.trans hFG.df
  flag := hGH.flag.trans hFG.flag
  lt := hGH.lt.trans hFG.lt
  bounded := fun hF => hGH.bounded (hFG.bounded hF)

theorem walked_optNote : Walked F (optNote h m p F) := by
  unfold optNote
  split
  · exact .refl F
  split
  · exact ⟨rfl, rfl, rfl, rfl, rfl, fun hF => ⟨hF.1, hF.2, hF.3, hF.4, hF.5⟩⟩
  split
  · exact ⟨rfl, rfl, rfl, rfl, rfl, fun hF => ⟨hF.1, hF.2, hF.3, hF.4, hF.5⟩⟩
  split
  · refine ⟨rfl, rfl, rfl, rfl, rfl, fun hF => ⟨hF.1, ?_, hF.3, hF.4, hF.5⟩⟩
    rintro _ ⟨⟩
    simpa using sizeRead_lt h (sizeBytes m p).1 (sizeBytes m p).2
  split
  · refine ⟨rfl, rfl, rfl, rfl, rfl, fun hF => ⟨hF.1, hF.2, hF.3, ?_, hF.5⟩⟩
    rintro _ ⟨⟩
    simpa using (m.byte (p + 2)).toNat_lt
  split
  · exact ⟨rfl, rfl, rfl, rfl, rfl, fun hF => ⟨hF.1, hF.2, hF.3, hF.4, hF.5⟩⟩
  · exact .refl F

/-- A walk that comes to an end leaves a string that spells some fields, with nothing changed
but what options say. -/
theorem optLoop_walked {r : Option Finger} (hr : optLoop h m start stop (some F.buffer) = .ok r) :
    ∃ G, r = some G.buffer ∧ Walked F G := by
  rw [optLoop_fuel (Nat.lt_succ_self _)] at hr
  cases hrun : Loop.run (optBody h m stop) (stop - start).succ ⟨start, some F.buffer⟩ with
  | none => simp [hrun] at hr
  | some res =>
    rw [hrun] at hr
    have hall : ∀ r, res = .ok r → ∃ G, r = some G.buffer ∧ Walked F G := by
      refine Loop.run_invariant (P := fun w : Walk => ∃ G, w.finger = some G.buffer ∧ Walked F G)
        (Q := fun res => ∀ r, res = .ok r → ∃ G, r = some G.buffer ∧ Walked F G) ?_ ?_
        ⟨F, rfl, .refl F⟩ hrun
      · rintro ⟨p, _⟩ w' ⟨G, rfl, hG⟩ hb
        obtain ⟨-, ⟨-, rfl⟩ | ⟨n, -, rfl⟩⟩ := optBody_again hb
        · exact ⟨G, rfl, hG⟩
        · exact ⟨optNote h m p G, congrArg some optPush_buffer, hG.trans walked_optNote⟩
      · rintro ⟨p, _⟩ res ⟨G, rfl, hG⟩ hb r rfl
        refine ⟨G, ?_, hG⟩
        by_cases hlt : p < stop
        · simp only [optBody, hlt, if_true] at hb
          split at hb <;> cases hb
        · rw [optBody_done (Nat.le_of_not_lt hlt)] at hb
          cases hb
          rfl
    exact hall r hr

namespace FingerFields

def synNote (F : FingerFields) (win : Nat) (flags : UInt8) (off : Nat) : FingerFields :=
  ((F.push .window win).push .tcpflag (if flags &&& TH_ACK ≠ 0 then 1 else 0)).push .lt
    ((off * 4 : Nat) : Int)

theorem synNote_bounded (hF : F.Bounded) {win : Nat} (hwin : win < 65536) (flags : UInt8)
    {off : Nat} (hlt : F.lt.getD 0 + off * 4 < 256) : (F.synNote win flags off).Bounded where
  window := by simpa [synNote, push] using hwin
  mss := hF.mss
  ttl := hF.ttl
  ws := hF.ws
  lt := by
    intro v hv
    obtain rfl := Option.some.inj hv
    exact hlt

end FingerFields

theorem tcpSyn_note {e : Env} {p off : Nat} (flags : UInt8) {a b : UInt8}
    (ha : e.mem (p + 14) = some a) (hb : e.mem (p + 15) = some b)
    (hlt : F.lt.getD 0 + off * 4 < 256) :
    tcpSyn e p off flags (some F.buffer) = optLoop e.host e.mem (p + 20) (optEnd e p off)
      (some (F.synNote (net16 a b) flags off).buffer) := by
  have hwin := readU16_of_some e.host ha hb
  have ha' := a.toNat_lt
  have hb' := b.toNat_lt
  have hfits1 : F.Fits .window (net16 a b) := And.intro (by omega) (by rw [net16]; omega)
  have hpush1 := F.fingerprintPush_buffer hfits1
  have hfits2 : (F.push .window (net16 a b)).Fits .tcpflag
      (if flags &&& TH_ACK ≠ 0 then 1 else 0) := trivial
  have hpush2 := FingerFields.fingerprintPush_buffer _ hfits2
  have hfits3 : ((F.push .window (net16 a b)).push .tcpflag
      (if flags &&& TH_ACK ≠ 0 then 1 else 0)).Fits .lt ((off * 4 : Nat) : Int) :=
    And.intro (by omega) (by simp only [FingerFields.push, Int.toNat_natCast]; exact hlt)
  have hpush3 := FingerFields.fingerprintPush_buffer _ hfits3
  rw [tcpSyn, hwin, ok_bind, ntohs_load16, hpush1, ok_bind, hpush2, ok_bind, hpush3, ok_bind]
  rfl

end Lmap
