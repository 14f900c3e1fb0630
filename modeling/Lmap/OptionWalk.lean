import Lmap.Address
import Lmap.OptionReads

/-!
The option walk over options that are well formed, each with the length it has: it stops
at each of them, and pushes each that says something once.
-/

set_option autoImplicit false

namespace Lmap

/-- An option as it is encoded. All kinds but four have a length byte that counts. -/
inductive EncodedOption where
  | nop
  | mss (size : UInt16)
  | wscale (shift : UInt8)
  | sackPermitted
  | sized (kind : UInt8) (data : List UInt8) (kind_sized : kind ∉ FIXED_KINDS)
      (data_lt : data.length + 2 < 256)

namespace EncodedOption

def encode : EncodedOption → List UInt8
  | nop => [TCPOPT_NOP]
  | mss size => TCPOPT_MAXSEG :: 4 :: be16 size
  | wscale shift => [TCPOPT_WSCALE, 3, shift]
  | sackPermitted => [TCPOPT_SACKOK, 2]
  | sized kind data _ _ => kind :: UInt8.ofNat (data.length + 2) :: data

def calls : EncodedOption → List Push
  | nop => [(.nop, 1)]
  | mss size => [(.mss, size.toNat)]
  | wscale shift => [(.ws, shift.toNat)]
  | sackPermitted => [(.sack, 1)]
  | sized kind _ _ _ => if kind = TCPOPT_TIMESTAMP then [(.timestamp, 1)] else []

end EncodedOption

/-- Options that fill their area, or are followed by an end-of-list option and padding. -/
structure EncodedArea where
  options : List EncodedOption
  padding : List UInt8
  padding_eol : padding = [] ∨ padding.head? = some TCPOPT_EOL

namespace EncodedArea

def optionBytes (area : EncodedArea) : List UInt8 := area.options.flatMap EncodedOption.encode

def encode (area : EncodedArea) : List UInt8 := area.optionBytes ++ area.padding

end EncodedArea

theorem EncodedArea.unpadded : ([] : List UInt8) = [] ∨
    ([] : List UInt8).head? = some TCPOPT_EOL := .inl rfl

def optionStarts : Nat → List EncodedOption → List Nat
  | _, [] => []
  | p, o :: os => p :: optionStarts (p + o.encode.length) os

def EncodedArea.boundaries (area : EncodedArea) (start : Nat) : List Nat :=
  optionStarts start area.options ++
    if area.padding = [] then [] else [start + area.optionBytes.length]

/-- The loop ends, at `opt_end`; it has been entered at the options, has looked at no byte
that is not theirs, and has pushed each in turn. -/
def WalksOptions (h : Host) (opts : Nat → UInt8) (start optEnd : Nat) (area : EncodedArea) :
    Prop :=
  ∃ n t, Loop.run (traceBody h opts optEnd) n ⟨start, []⟩ = some t ∧ t.optStart = optEnd ∧
    (Loop.visits (traceBody h opts optEnd) n ⟨start, []⟩).map Traced.optStart =
      area.boundaries start ++ [optEnd] ∧
    (∀ i, Event.read i ∈ t.events → start ≤ i ∧ i < start + area.encode.length) ∧
    pushCalls t.events = area.options.flatMap EncodedOption.calls

variable {ptrBits : Nat} {opts : Nat → UInt8} {start stop p : Nat} {es : List Event}

namespace EncodedOption

theorem optWidth_encode (o : EncodedOption)
    (hm : Memory.Holds (fun i => some (opts i)) p o.encode) :
    optWidth (fun i => some (opts i)) p = some o.encode.length := by
  cases o with
  | nop => exact optWidth_nop hm.1
  | mss size =>
    obtain ⟨h0, -, h2, h3, -⟩ := hm
    exact optWidth_mss h0 h2 h3
  | wscale shift =>
    obtain ⟨h0, -, h2, -⟩ := hm
    exact optWidth_wscale h0 h2
  | sackPermitted => exact optWidth_sack hm.1
  | sized kind data hkind hlen =>
    obtain ⟨h0, h1, -⟩ := hm
    rw [optWidth_sized hkind h0 h1, UInt8.toNat_ofNat_of_lt' hlen]
    rfl

theorem optEvents_encode {h : Host} (hle : h.bigEndian = false) (o : EncodedOption)
    (hm : Memory.Holds (fun i => some (opts i)) p o.encode) :
    pushCalls (optEvents h opts p) = o.calls := by
  cases o with
  | nop =>
    have h0 : opts p = TCPOPT_NOP := Option.some.inj hm.1
    simp [optEvents, h0, TCPOPT_NOP, TCPOPT_EOL, pushCalls, calls]
  | mss size =>
    have h0 : opts p = TCPOPT_MAXSEG := Option.some.inj hm.1
    have h2 : opts (p + 2) = highByte size := Option.some.inj hm.2.2.1
    have h3 : opts (p + 3) = lowByte size := Option.some.inj hm.2.2.2.1
    simp [optEvents, h0, h2, h3, TCPOPT_NOP, TCPOPT_EOL, TCPOPT_MAXSEG, TCPOPT_SACKOK, pushCalls,
      calls, ntohs_ptohs h hle]
  | wscale shift =>
    have h0 : opts p = TCPOPT_WSCALE := Option.some.inj hm.1
    have h2 : opts (p + 2) = shift := Option.some.inj hm.2.2.1
    simp [optEvents, h0, h2, TCPOPT_NOP, TCPOPT_EOL, TCPOPT_MAXSEG, TCPOPT_SACKOK, TCPOPT_WSCALE,
      pushCalls, calls]
  | sackPermitted =>
    have h0 : opts p = TCPOPT_SACKOK := Option.some.inj hm.1
    simp [optEvents, h0, TCPOPT_NOP, TCPOPT_EOL, TCPOPT_SACKOK, pushCalls, calls]
  | sized kind data hkind hlen =>
    have h0 : opts p = kind := Option.some.inj hm.1
    simp only [FIXED_KINDS, List.mem_cons, List.not_mem_nil, or_false, not_or] at hkind
    simp only [optEvents, h0, hkind, if_false, calls]
    split <;> rfl

theorem lookEnd_encode (o : EncodedOption)
    (hm : Memory.Holds (fun i => some (opts i)) p o.encode) :
    lookEnd opts p ≤ p + o.encode.length := by
  have h0 : ∀ b bs, o.encode = b :: bs → opts p = b := by
    intro b bs hbs
    rw [hbs] at hm
    exact Option.some.inj hm.1
  cases o with
  | nop => simp [lookEnd, h0 _ _ rfl, encode]
  | mss size =>
    simp [lookEnd, h0 _ _ rfl, encode, be16, TCPOPT_NOP, TCPOPT_EOL, TCPOPT_MAXSEG, TCPOPT_SACKOK]
  | wscale shift =>
    simp [lookEnd, h0 _ _ rfl, encode, TCPOPT_NOP, TCPOPT_EOL, TCPOPT_MAXSEG, TCPOPT_SACKOK,
      TCPOPT_WSCALE]
  | sackPermitted => simp [lookEnd, h0 _ _ rfl, encode]
  | sized kind data hkind hlen =>
    simp only [FIXED_KINDS, List.mem_cons, List.not_mem_nil, or_false, not_or] at hkind
    simp only [lookEnd, h0 _ _ rfl, hkind, or_false, if_false, encode, List.length_cons]
    omega

theorem encode_pos (o : EncodedOption) : 0 < o.encode.length := by
  cases o <;> simp [encode]

end EncodedOption

theorem pushCalls_append (es more : List Event) :
    pushCalls (es ++ more) = pushCalls es ++ pushCalls more := List.filterMap_append

theorem trace_options {h : Host} (hle : h.bigEndian = false) (os : List EncodedOption)
    (hm : Memory.Holds (fun i => some (opts i)) p (os.flatMap EncodedOption.encode))
    (hend : p + (os.flatMap EncodedOption.encode).length ≤ stop) (es : List Event) :
    ∃ es', (∀ n, Loop.run (traceBody h opts stop) (n + os.length) ⟨p, es⟩ =
          Loop.run (traceBody h opts stop) n
            ⟨p + (os.flatMap EncodedOption.encode).length, es ++ es'⟩) ∧
      (∀ n, (Loop.visits (traceBody h opts stop) (n + os.length) ⟨p, es⟩).map
          Traced.optStart = optionStarts p os ++
            (Loop.visits (traceBody h opts stop) n
              ⟨p + (os.flatMap EncodedOption.encode).length, es ++ es'⟩).map Traced.optStart) ∧
      (∀ i, Event.read i ∈ es' →
        p ≤ i ∧ i < p + (os.flatMap EncodedOption.encode).length) ∧
      pushCalls es' = os.flatMap EncodedOption.calls := by
  induction os generalizing p es with
  | nil =>
    refine ⟨[], fun n => ?_, fun n => ?_, fun i hi => absurd hi List.not_mem_nil, rfl⟩
    · simp
    · simp [optionStarts]
  | cons o os ih =>
    simp only [List.flatMap_cons, Memory.holds_append, List.length_append] at hm hend ⊢
    have hpos := o.encode_pos
    have hround : traceBody h opts stop ⟨p, es⟩ =
        .again ⟨p + o.encode.length, es ++ optEvents h opts p⟩ := by
      rw [traceBody, if_pos (by simp only; omega), traceSwitch_width (o.optWidth_encode hm.1)]
    obtain ⟨es', hrun, hvisits, hreads, hcalls⟩ := ih hm.2 (by omega) (es ++ optEvents h opts p)
    have hlook := o.lookEnd_encode hm.1
    simp only [List.append_assoc, Nat.add_assoc] at hrun hvisits hround
    refine ⟨optEvents h opts p ++ es', fun n => ?_, fun n => ?_, fun i hi => ?_, ?_⟩
    · rw [List.length_cons, ← Nat.add_assoc, Loop.run_again hround]
      exact hrun n
    · rw [List.length_cons, ← Nat.add_assoc, Loop.visits_again hround, List.map_cons, optionStarts,
        List.cons_append]
      exact congrArg (List.cons p) (hvisits n)
    · rcases List.mem_append.mp hi with hi | hi
      · obtain ⟨hfirst, hlast⟩ := read_mem_optEvents hi
        omega
      · obtain ⟨hfirst, hlast⟩ := hreads i hi
        omega
    · rw [pushCalls_append, o.optEvents_encode hle hm.1, hcalls]

/-- Conversely, a loop that is entered at all of them gets to their end. -/
theorem trace_starts {h : Host} (os : List EncodedOption)
    (hm : Memory.Holds (fun i => some (opts i)) p (os.flatMap EncodedOption.encode))
    {n : Nat} {es : List Event} {rest : List Nat} (hrest : rest ≠ [])
    (hvisits : (Loop.visits (traceBody h opts stop) n ⟨p, es⟩).map Traced.optStart =
      optionStarts p os ++ rest) :
    ∃ n es', (Loop.visits (traceBody h opts stop) n
      ⟨p + (os.flatMap EncodedOption.encode).length, es'⟩).map Traced.optStart = rest := by
  induction os generalizing p n es with
  | nil => exact ⟨n, es, hvisits⟩
  | cons o os ih =>
    simp only [List.flatMap_cons, Memory.holds_append, List.length_append, optionStarts,
      List.cons_append] at hm hvisits ⊢
    cases n with
    | zero => simp [Loop.visits] at hvisits
    | succ n =>
      by_cases hlt : p < stop
      · have hround : traceBody h opts stop ⟨p, es⟩ =
            .again ⟨p + o.encode.length, es ++ optEvents h opts p⟩ := by
          rw [traceBody, if_pos hlt, traceSwitch_width (o.optWidth_encode hm.1)]
        rw [Loop.visits_again hround, List.map_cons, List.cons.injEq] at hvisits
        obtain ⟨n', es', hfound⟩ := ih hm.2 hvisits.2
        rw [Nat.add_assoc] at hfound
        exact ⟨n', es', hfound⟩
      · rw [Loop.visits_leave (traceBody_done (Nat.le_of_not_lt hlt)), List.map_singleton,
          List.cons.injEq] at hvisits
        exact absurd (List.append_eq_nil_iff.mp hvisits.2.symm).2 hrest

theorem EncodedArea.length_encode (area : EncodedArea) :
    area.encode.length = area.optionBytes.length + area.padding.length := List.length_append

theorem end_of_walks {h : Host} (area : EncodedArea)
    (hm : Memory.Holds (fun i => some (opts i)) start area.encode)
    (hwalks : WalksOptions h opts start stop area) : stop = start + area.encode.length ∨
      area.padding ≠ [] ∧ start + area.optionBytes.length < stop := by
  obtain ⟨hoptions, -⟩ := (Memory.holds_append _ _ _).mp hm
  have hbytes : area.options.flatMap EncodedOption.encode = area.optionBytes := rfl
  obtain ⟨n, t, hrun, rfl, hvisits, -, -⟩ := hwalks
  rw [EncodedArea.boundaries, List.append_assoc] at hvisits
  obtain ⟨n', es, hrest⟩ := trace_starts area.options hoptions (by simp) hvisits
  rw [hbytes] at hrest
  cases n' with
  | zero =>
    have hnil := congrArg List.length hrest
    simp [Loop.visits] at hnil
  | succ n' =>
    by_cases hnone : area.padding = []
    · rw [if_pos hnone, List.nil_append, Loop.visits, List.map_cons, List.cons.injEq] at hrest
      refine .inl (hrest.1.symm.trans ?_)
      rw [area.length_encode, hnone, List.length_nil, Nat.add_zero]
    · refine .inr ⟨hnone, ?_⟩
      by_contra hge
      rw [if_neg hnone, Loop.visits_leave (traceBody_done (Nat.le_of_not_lt hge))] at hrest
      simp at hrest

theorem walks_filled {h : Host} (hle : h.bigEndian = false) (area : EncodedArea)
    (hm : Memory.Holds (fun i => some (opts i)) start area.encode) (hnone : area.padding = [])
    (hstop : start + area.optionBytes.length = stop) : WalksOptions h opts start stop area := by
  obtain ⟨hoptions, -⟩ := (Memory.holds_append _ _ _).mp hm
  have hbytes : area.options.flatMap EncodedOption.encode = area.optionBytes := rfl
  obtain ⟨es, hrun, hvisits, hreads, hcalls⟩ :=
    trace_options hle area.options hoptions hstop.le []
  simp only [hbytes, List.nil_append] at hrun hvisits hreads
  have hdone : traceBody h opts stop ⟨start + area.optionBytes.length, es⟩ =
      .leave ⟨start + area.optionBytes.length, es⟩ := traceBody_done hstop.symm.le
  refine ⟨1 + area.options.length, ⟨start + area.optionBytes.length, es⟩, ?_, hstop, ?_, ?_,
    hcalls⟩
  · exact (hrun 1).trans (Loop.run_leave hdone 0)
  · have hlast := Loop.visits_leave hdone 0
    refine (hvisits 1).trans ?_
    rw [hlast, EncodedArea.boundaries, if_pos hnone, List.append_nil, ← hstop]
    rfl
  · intro i hi
    obtain ⟨hfirst, hlast⟩ := hreads i hi
    exact ⟨hfirst, Nat.lt_of_lt_of_le hlast (by rw [area.length_encode]; omega)⟩

theorem walks_padded {h : Host} (hle : h.bigEndian = false) (area : EncodedArea)
    (hm : Memory.Holds (fun i => some (opts i)) start area.encode) {rest : List UInt8}
    (hrest : area.padding = TCPOPT_EOL :: rest)
    (hlt : start + area.optionBytes.length < stop) : WalksOptions h opts start stop area := by
  obtain ⟨hoptions, hpadding⟩ := (Memory.holds_append _ _ _).mp hm
  have hbytes : area.options.flatMap EncodedOption.encode = area.optionBytes := rfl
  obtain ⟨es, hrun, hvisits, hreads, hcalls⟩ :=
    trace_options hle area.options hoptions hlt.le []
  simp only [hbytes, List.nil_append] at hrun hvisits hreads
  rw [hrest] at hpadding
  have hkind : opts (start + area.optionBytes.length) = TCPOPT_EOL :=
    Option.some.inj hpadding.1
  have hagain : traceBody h opts stop ⟨start + area.optionBytes.length, es⟩ =
      .again ⟨stop, es ++ [.read (start + area.optionBytes.length)]⟩ := by
    rw [traceBody, if_pos hlt, traceSwitch_eol hkind, optEvents, if_pos hkind]
  have hdone : traceBody h opts stop ⟨stop, es ++ [.read (start + area.optionBytes.length)]⟩ =
      .leave ⟨stop, es ++ [.read (start + area.optionBytes.length)]⟩ :=
    traceBody_done (Nat.le_refl stop)
  refine ⟨2 + area.options.length, ⟨stop, es ++ [.read (start + area.optionBytes.length)]⟩, ?_,
    rfl, ?_, ?_, ?_⟩
  · exact (hrun 2).trans ((Loop.run_again hagain 1).trans (Loop.run_leave hdone 0))
  · have hlast := Loop.visits_again hagain 1
    refine (hvisits 2).trans ?_
    rw [hlast, Loop.visits_leave hdone, EncodedArea.boundaries, if_neg (by simp [hrest]),
      List.append_assoc]
    rfl
  · intro i hi
    rcases List.mem_append.mp hi with hi | hi
    · obtain ⟨hfirst, hlast⟩ := hreads i hi
      exact ⟨hfirst, Nat.lt_of_lt_of_le hlast (by rw [area.length_encode]; omega)⟩
    · rw [List.mem_singleton] at hi
      cases hi
      rw [area.length_encode, hrest, List.length_cons]
      omega
  · rw [pushCalls_append, hcalls]
    exact List.append_nil _

theorem walksOptions_iff {h : Host} (hle : h.bigEndian = false) (area : EncodedArea)
    (hm : Memory.Holds (fun i => some (opts i)) start area.encode) :
    WalksOptions h opts start stop area ↔ stop = start + area.encode.length ∨
      area.padding ≠ [] ∧ start + area.optionBytes.length < stop := by
  refine ⟨end_of_walks area hm, fun hend => ?_⟩
  rw [area.length_encode] at hend
  rcases area.padding_eol with hnone | heol
  · have hstop : stop = start + area.optionBytes.length := by
      simpa [hnone] using hend
    exact walks_filled hle area hm hnone hstop.symm
  · obtain ⟨rest, hrest⟩ := List.head?_eq_some_iff.mp heol
    have hlt : start + area.optionBytes.length < stop := by
      rw [hrest, List.length_cons] at hend
      omega
    exact walks_padded hle area hm hrest hlt

/-- The end pointer is the end of the header, or the list ends below it. -/
def EndSeen (area : EncodedArea) (start stop optEnd : Nat) : Prop :=
  optEnd = stop ∨ area.padding ≠ [] ∧ start + area.optionBytes.length < optEnd

/-- On a little endian host, options that fill the header are walked over one by one exactly
if `opt_end`, which goes through an `int`, is the end of the header or lies behind an
end-of-list option. With 32 bit pointers it is the end of the header, with 64 bit pointers only
in the lowest and the highest 2 GiB. -/
theorem decodeTcp_options_iff (ptrBits addr : Nat) (table : List DecEntry) (area : EncodedArea)
    (opts : Nat → UInt8) (tcp : Nat) (o : UInt8)
    (hm : Memory.Holds (fun i => some (opts i)) (tcp + 20) area.encode)
    (hlen : 20 + area.encode.length = tcpOff ⟨false, ptrBits⟩ o * 4) :
    let stop := tcp + tcpOff ⟨false, ptrBits⟩ o * 4
    let bound := optEnd ⟨⟨false, ptrBits⟩, addr, fun i => some (opts i), table⟩ tcp
      (tcpOff ⟨false, ptrBits⟩ o)
    (WalksOptions ⟨false, ptrBits⟩ opts (tcp + 20) bound area ↔
        EndSeen area (tcp + 20) stop bound) ∧
      (ptrBits = 64 → (bound = stop ↔ IntAddress (addr + stop))) ∧
      (ptrBits = 32 → addr + stop < 2 ^ 32 → bound = stop) := by
  intro stop bound
  have hstop : stop = tcp + 20 + area.encode.length := by omega
  refine ⟨?_, ?_, ?_⟩
  · rw [EndSeen, hstop]
    exact walksOptions_iff rfl area hm
  · rintro rfl
    have hptr := @optEndPtr_exact_iff ⟨⟨false, 64⟩, addr, fun i => some (opts i), table⟩ tcp
      (tcpOff ⟨false, 64⟩ o) rfl
    have heq := optEnd_eq_ptr ⟨⟨false, 64⟩, addr, fun i => some (opts i), table⟩ tcp
      (tcpOff ⟨false, 64⟩ o)
    simp only at hptr heq
    rw [show addr + stop = addr + tcp + tcpOff ⟨false, 64⟩ o * 4 from (Nat.add_assoc _ _ _).symm,
      ← hptr]
    omega
  · rintro rfl hlow
    exact optEnd_of_ptr32 rfl (by simp only; omega)

def scaledArea : EncodedArea := ⟨[.mss 1460, .nop, .wscale 7], [], EncodedArea.unpadded⟩

def scaledOpts (i : Nat) : UInt8 := scaledArea.encode.getD (i - 20) 0

theorem decodeTcp_options_scaled :
    WalksOptions ⟨false, 32⟩ scaledOpts 20 28 scaledArea := by
  have hm : Memory.Holds (fun i => some (scaledOpts i)) 20 scaledArea.encode :=
    ⟨rfl, rfl, rfl, rfl, rfl, rfl, rfl, rfl, trivial⟩
  exact (decodeTcp_options_iff 32 0x1000 [] scaledArea scaledOpts 0 0x70 hm rfl).1.mpr
    (.inl (by decide))

/-- Just below the stack of a 64 bit process the end pointer comes out below the options. -/
theorem scaledArea_not_walked :
    Memory.Holds (fun i => some (scaledOpts i)) 20 scaledArea.encode ∧
      20 + scaledArea.encode.length = tcpOff ⟨false, 64⟩ 0x70 * 4 ∧
      ¬ WalksOptions ⟨false, 64⟩ scaledOpts 20
        (optEnd ⟨⟨false, 64⟩, 0x7ffc00001000, fun i => some (scaledOpts i), []⟩ 0
          (tcpOff ⟨false, 64⟩ 0x70)) scaledArea := by
  refine ⟨⟨rfl, rfl, rfl, rfl, rfl, rfl, rfl, rfl, trivial⟩, rfl, ?_⟩
  have hzero : optEnd ⟨⟨false, 64⟩, 0x7ffc00001000, fun i => some (scaledOpts i), []⟩ 0
      (tcpOff ⟨false, 64⟩ 0x70) = 0 := by decide
  rw [hzero]
  rintro ⟨n, t, hrun, hend, -⟩
  cases n with
  | zero => cases hrun
  | succ n =>
    rw [Loop.run_leave (traceBody_done (Nat.zero_le 20))] at hrun
    cases hrun
    cases hend

end Lmap
