import Lmap.TcpOptions
import Lmap.Wire

/-!
The walk over options that are well formed: it takes each for as long as it is, up
to the end of its area.
-/

set_option autoImplicit false

namespace Lmap

variable {h : Host} {m : Memory} {p start stop : Nat} {f : Finger}

namespace TcpOption

def push (h : Host) (f : Finger) : TcpOption → Finger
  | nop => pushed f .nop 1
  | mss size => pushed f .mss (ntohs h (ptohs h (highByte size) (lowByte size)))
  | wscale shift => pushed f .ws shift.toNat
  | sackPermitted => pushed f .sack 1
  | timestamp _ => pushed f .timestamp 1
  | other _ _ _ _ => f

theorem optWidth_encode (o : TcpOption) (hm : m.Holds p o.encode) :
    optWidth m p = some o.encode.length := by
  cases o with
  | nop => exact optWidth_nop hm.1
  | mss size =>
    obtain ⟨h0, -, h2, h3, -⟩ := hm
    exact optWidth_mss h0 h2 h3
  | wscale shift =>
    obtain ⟨h0, -, h2, -⟩ := hm
    exact optWidth_wscale h0 h2
  | sackPermitted => exact optWidth_sack hm.1
  | timestamp values =>
    obtain ⟨h0, h1, -⟩ := hm
    rw [optWidth_sized (by decide) h0 h1, encode, List.length_cons, List.length_cons,
      values.property]
    rfl
  | other kind data hkind hlen =>
    obtain ⟨h0, h1, -⟩ := hm
    have hsized : kind ∉ FIXED_KINDS := fun hfixed =>
      hkind (List.mem_append_left [TCPOPT_TIMESTAMP] hfixed)
    rw [optWidth_sized hsized h0 h1, UInt8.toNat_ofNat_of_lt' hlen]
    rfl

theorem optPush_encode (o : TcpOption) (hm : m.Holds p o.encode) :
    optPush h m p f = o.push h f := by
  cases o with
  | nop => simp [push, optPush, hm.1]
  | mss size =>
    obtain ⟨h0, -, h2, h3, -⟩ := hm
    simp [push, optPush, h0, h2, h3, TCPOPT_NOP, TCPOPT_MAXSEG, TCPOPT_SACKOK]
  | wscale shift =>
    obtain ⟨h0, -, h2, -⟩ := hm
    simp [push, optPush, h0, h2, TCPOPT_NOP, TCPOPT_MAXSEG, TCPOPT_SACKOK, TCPOPT_WSCALE]
  | sackPermitted => simp [push, optPush, hm.1, TCPOPT_NOP, TCPOPT_SACKOK]
  | timestamp values =>
    simp [push, optPush, hm.1, TCPOPT_NOP, TCPOPT_MAXSEG, TCPOPT_SACKOK, TCPOPT_WSCALE,
      TCPOPT_TIMESTAMP]
  | other kind data hkind hlen =>
    simp only [List.mem_cons, List.not_mem_nil, or_false, not_or] at hkind
    simp only [push, optPush, hm.1, hkind, if_false]

theorem encode_pos (o : TcpOption) : 0 < o.encode.length := by
  cases o <;> simp [encode]

end TcpOption

def pushAll (h : Host) (options : List TcpOption) (f : Finger) : Finger :=
  options.foldl (fun f o => o.push h f) f

theorem run_options (options : List TcpOption) (hm : m.Holds p (options.flatMap TcpOption.encode))
    (hle : p + (options.flatMap TcpOption.encode).length ≤ stop) (n : Nat) :
    Loop.run (optBody h m stop) (n + options.length) ⟨p, some f⟩ =
      Loop.run (optBody h m stop) n
        ⟨p + (options.flatMap TcpOption.encode).length, some (pushAll h options f)⟩ := by
  induction options generalizing p f with
  | nil => rfl
  | cons o options ih =>
    simp only [List.flatMap_cons, Memory.holds_append, List.length_append] at hm hle
    have hpos := o.encode_pos
    have hround := optBody_width (h := h) (f := f) (show p < stop by omega)
      (o.optWidth_encode hm.1)
    rw [o.optPush_encode hm.1] at hround
    calc
      Loop.run (optBody h m stop) (n + (options.length + 1)) ⟨p, some f⟩
        = Loop.run (optBody h m stop) (n + options.length)
            ⟨p + o.encode.length, some (o.push h f)⟩ := Loop.run_again hround _
      _ = Loop.run (optBody h m stop) n ⟨p + o.encode.length +
            (options.flatMap TcpOption.encode).length,
              some (pushAll h options (o.push h f))⟩ := ih hm.2 (by omega)
      _ = Loop.run (optBody h m stop) n ⟨p + ((o :: options).flatMap TcpOption.encode).length,
            some (pushAll h (o :: options) f)⟩ := by
          rw [List.flatMap_cons, List.length_append, Nat.add_assoc]
          rfl

theorem optLoop_area (area : OptionArea) (hm : m.Holds start area.encode)
    (hstop : stop = start + area.encode.length) (f : Finger) :
    optLoop h m start stop (some f) = .ok (some (pushAll h area.options f)) := by
  simp only [OptionArea.encode, Memory.holds_append] at hm
  simp only [OptionArea.encode, List.length_append] at hstop
  have hle : start + (area.options.flatMap TcpOption.encode).length ≤ stop := by omega
  have hrun := run_options (h := h) (f := f) area.options hm.1 hle (stop - start + 2)
  rw [optLoop_fuel (n := stop - start + 2 + area.options.length) (by omega), hrun]
  rcases area.padding_eol with hnil | heol
  · rw [hnil, List.length_nil] at hstop
    rw [Loop.run_leave (optBody_done (by omega))]
  · obtain ⟨rest, hrest⟩ := List.head?_eq_some_iff.mp heol
    rw [hrest] at hm hstop
    rw [List.length_cons] at hstop
    rw [Loop.run_again (optBody_eol (by omega) hm.2.1),
      Loop.run_leave (optBody_done (Nat.le_refl _))]

theorem area_walkable (area : OptionArea) (hm : m.Holds start area.encode)
    (hstop : stop ≤ start + area.encode.length) :
    OptionsReadable m start stop ∧ Tlv.Advancing (optWidth m) start stop := by
  have hall := (optLoop_ok_iff (h := ⟨false, 32⟩) fingerprintAlloc).mp
    ⟨_, optLoop_area area hm rfl fingerprintAlloc⟩
  exact ⟨fun k p hp hlt => hall.1 k p (hp.mono hstop) (by omega),
    fun k p hp hlt => hall.2 k p (hp.mono hstop) (by omega)⟩

end Lmap
