import Lmap.OptionTrace

/-!
Where the option loop looks, whatever the bytes: an option that is cut off by the end of
the area is looked at beyond it.
-/

set_option autoImplicit false

namespace Lmap

def lookEnd (opts : Nat → UInt8) (p : Nat) : Nat :=
  if opts p = TCPOPT_EOL ∨ opts p = TCPOPT_NOP ∨ opts p = TCPOPT_SACKOK then p + 1
  else if opts p = TCPOPT_MAXSEG then p + 4
  else if opts p = TCPOPT_WSCALE then p + 3
  else p + 2

/-- No option is cut off: what is looked at of each one that begins before `stop` lies before
`stop`. -/
def NoneCutOff (opts : Nat → UInt8) (start stop : Nat) : Prop :=
  ∀ k p, Tlv.ItemAt (optWidth (fun i => some (opts i))) start stop k p → p < stop →
    lookEnd opts p ≤ stop

/-- Every byte that any round of the loop reads is one of the area. -/
def ReadsInside (h : Host) (opts : Nat → UInt8) (start stop : Nat) : Prop :=
  ∀ n, ∀ t ∈ Loop.visits (traceBody h opts stop) n ⟨start, []⟩,
    ∀ i, Event.read i ∈ t.events → start ≤ i ∧ i < stop

variable {h : Host} {opts : Nat → UInt8} {start stop p : Nat} {es : List Event}

theorem read_mem_optEvents {i : Nat} (hi : Event.read i ∈ optEvents h opts p) :
    p ≤ i ∧ i < lookEnd opts p := by
  unfold optEvents at hi
  unfold lookEnd
  grind

theorem lookEnd_read (h : Host) (opts : Nat → UInt8) (p : Nat) :
    Event.read (lookEnd opts p - 1) ∈ optEvents h opts p := by
  unfold optEvents lookEnd
  grind

theorem traceBody_again (h : Host) (opts : Nat → UInt8) (es : List Event) (hlt : p < stop) :
    (opts p = TCPOPT_EOL ∧
        traceBody h opts stop ⟨p, es⟩ = .again ⟨stop, es ++ optEvents h opts p⟩) ∨
      ∃ n, optWidth (fun i => some (opts i)) p = some n ∧
        traceBody h opts stop ⟨p, es⟩ = .again ⟨p + n, es ++ optEvents h opts p⟩ := by
  rcases optReadable_of_total (m := fun i => some (opts i)) (fun _ => rfl) p with heol | hn
  · have hp : opts p = TCPOPT_EOL := Option.some.inj heol
    exact .inl ⟨hp, by rw [traceBody, if_pos hlt, traceSwitch_eol hp]⟩
  · obtain ⟨n, hn⟩ := Option.isSome_iff_exists.mp hn
    exact .inr ⟨n, hn, by rw [traceBody, if_pos hlt, traceSwitch_width hn]⟩

theorem traceBody_done (hle : stop ≤ p) :
    traceBody h opts stop ⟨p, es⟩ = .leave ⟨p, es⟩ := if_neg (Nat.not_lt.mpr hle)

theorem trace_item {k : Nat}
    (hitem : Tlv.ItemAt (optWidth (fun i => some (opts i))) start stop k p) :
    ∃ es n, ⟨p, es⟩ ∈ Loop.visits (traceBody h opts stop) n ⟨start, []⟩ := by
  induction hitem with
  | first => exact ⟨[], 1, Loop.mem_visits_succ.mpr (.inl rfl)⟩
  | @next k p n _ hlt hn ih =>
    obtain ⟨es, i, hvisit⟩ := ih
    refine ⟨es ++ optEvents h opts p, i + 1, Loop.visits_step hvisit ?_⟩
    rw [traceBody, if_pos hlt, traceSwitch_width hn]

/-- At an option or behind the end, having read bytes of the area only. -/
structure Traced.Inside (opts : Nat → UInt8) (start stop : Nat) (t : Traced) : Prop where
  stands : stop ≤ t.optStart ∨
    ∃ k, Tlv.ItemAt (optWidth (fun i => some (opts i))) start stop k t.optStart
  reads : ∀ i, Event.read i ∈ t.events → start ≤ i ∧ i < stop

theorem inside_step (hcut : NoneCutOff opts start stop) {t t' : Traced}
    (ht : t.Inside opts start stop) (hb : traceBody h opts stop t = .again t') :
    t'.Inside opts start stop := by
  obtain ⟨p, es⟩ := t
  by_cases hlt : p < stop
  · obtain ⟨k, hitem⟩ := ht.stands.resolve_left (Nat.not_le.mpr hlt)
    have hstart : start ≤ p := hitem.start_le
    have hend : lookEnd opts p ≤ stop := hcut k p hitem hlt
    have hreads : ∀ i, Event.read i ∈ es ++ optEvents h opts p → start ≤ i ∧ i < stop := by
      intro i hi
      rcases List.mem_append.mp hi with hi | hi
      · exact ht.reads i hi
      · obtain ⟨hfirst, hlast⟩ := read_mem_optEvents hi
        omega
    rcases traceBody_again h opts es hlt with ⟨-, hagain⟩ | ⟨n, hn, hagain⟩
    · rw [hagain] at hb
      cases hb
      exact ⟨.inl (Nat.le_refl stop), hreads⟩
    · rw [hagain] at hb
      cases hb
      exact ⟨.inr ⟨k + 1, .next hitem hlt hn⟩, hreads⟩
  · rw [traceBody_done (Nat.le_of_not_lt hlt)] at hb
    cases hb

theorem readsInside_iff (h : Host) (opts : Nat → UInt8) (start stop : Nat) :
    ReadsInside h opts start stop ↔ NoneCutOff opts start stop := by
  constructor
  · intro hinside k p hitem hlt
    obtain ⟨es, n, hvisit⟩ := trace_item (h := h) hitem
    have hlook := lookEnd_read h opts p
    have hlast : lookEnd opts p - 1 < stop := by
      rcases traceBody_again h opts es hlt with
        ⟨-, hagain⟩ | ⟨w, -, hagain⟩
      · exact (hinside _ _ (Loop.visits_step hvisit hagain) _
          (List.mem_append_right es hlook)).2
      · exact (hinside _ _ (Loop.visits_step hvisit hagain) _
          (List.mem_append_right es hlook)).2
    omega
  · intro hcut n t ht
    have hbegin : Traced.Inside opts start stop ⟨start, []⟩ :=
      ⟨.inr ⟨0, .first⟩, fun i hi => absurd hi List.not_mem_nil⟩
    exact (Loop.visits_invariant (P := Traced.Inside opts start stop)
      (fun t t' ht hb => inside_step hcut ht hb) n hbegin t ht).reads

/-- Over any bytes and for any data offset, the option loop of `decode_tcp` reads between the
fixed header and `opt_end` exactly if no option is cut off by `opt_end`. -/
theorem decodeTcp_reads_inside_iff (h : Host) (addr : Nat) (table : List DecEntry)
    (opts : Nat → UInt8) (tcp : Nat) (o : UInt8) :
    ReadsInside h opts (tcp + 20)
        (optEnd ⟨h, addr, fun i => some (opts i), table⟩ tcp (tcpOff h o)) ↔
      NoneCutOff opts (tcp + 20)
        (optEnd ⟨h, addr, fun i => some (opts i), table⟩ tcp (tcpOff h o)) :=
  readsInside_iff h opts _ _

/-- Three NOPs and the kind byte of an MSS, which is then looked for behind the area. -/
def cutOffMss (i : Nat) : UInt8 := if i = 23 then TCPOPT_MAXSEG else TCPOPT_NOP

theorem cutOffMss_reads_outside :
    optEnd ⟨⟨false, 32⟩, 0, fun i => some (cutOffMss i), []⟩ 0 (tcpOff ⟨false, 32⟩ 0x60) = 24 ∧
      ¬ ReadsInside ⟨false, 32⟩ cutOffMss 20 24 := by
  refine ⟨by decide, fun hinside => ?_⟩
  have hread : ∃ t ∈ Loop.visits (traceBody ⟨false, 32⟩ cutOffMss 24) 6 ⟨20, []⟩,
      Event.read 26 ∈ t.events := by decide
  obtain ⟨t, ht, hmem⟩ := hread
  have hlt := (hinside 6 t ht 26 hmem).2
  omega

end Lmap
