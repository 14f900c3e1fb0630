import Lmap.FingerAlgebra
import Lmap.TcpOptions

/-!
What the option loop does in each round, step by step: the bytes it looks at and the calls
of `fingerprint_push` it makes. The switch is written once more over any way to read and to
push; with the memory and the fingerprint it is the switch of the decoder, with a list of
events it is the trace.
-/

set_option autoImplicit false

namespace Lmap

def optSwitchIn {M : Type → Type} [Monad M] (read : Nat → M UInt8)
    (push : FingerParam → Int → M Unit) (h : Host) (optEnd optStart : Nat) : M Nat := do
  let kind ← read optStart
  if kind = TCPOPT_EOL then
    pure optEnd
  else if kind = TCPOPT_NOP then do
    push .nop 1
    pure (optStart + 1)
  else if kind = TCPOPT_SACKOK then do
    push .sack 1
    pure (optStart + 2)
  else if kind = TCPOPT_MAXSEG then do
    let a ← read (optStart + 2)
    let b ← read (optStart + 3)
    push .mss (ntohs h (ptohs h a b))
    pure (optStart + 2 + 2)
  else if kind = TCPOPT_WSCALE then do
    let b ← read (optStart + 2)
    push .ws b.toNat
    pure (optStart + 2 + 1)
  else if kind = TCPOPT_TIMESTAMP then do
    push .timestamp 1
    let len ← read (optStart + 1)
    pure (optStart + 1 + len.toNat - 1)
  else do
    let len ← read (optStart + 1)
    pure (optStart + 1 + len.toNat - 1)

abbrev FingerM := StateT (Option Finger) (Except Fault)

namespace FingerM

def read (m : Memory) (p : Nat) : FingerM UInt8 := fun f => (readU8 m p).map (fun b => (b, f))

def push (param : FingerParam) (value : Int) : FingerM Unit :=
  fun f => (fingerprintPush f param value).map (fun f => ((), some f))

variable {α : Type} {m : Memory} {p : Nat} {f : Option Finger}

theorem read_bind (k : UInt8 → FingerM α) :
    (read m p >>= k) f = (readU8 m p >>= fun b => k b f) := by
  simp only [read, bind, StateT.bind]
  cases readU8 m p <;> rfl

theorem push_bind (param : FingerParam) (value : Int) (k : Unit → FingerM α) :
    (push param value >>= k) f = (fingerprintPush f param value >>= fun f => k () (some f)) := by
  simp only [push, bind, StateT.bind]
  cases fingerprintPush f param value <;> rfl

theorem pure_apply (a : α) : (pure a : FingerM α) f = .ok (a, f) := rfl

end FingerM

theorem optSwitch_in (h : Host) (m : Memory) (optEnd : Nat) (w : Walk) :
    optSwitch h m optEnd w =
      (optSwitchIn (FingerM.read m) FingerM.push h optEnd w.optStart w.finger).map
        (fun r => ⟨r.1, r.2⟩) := by
  rw [optSwitchIn, FingerM.read_bind, map_bind, optSwitch]
  refine congrArg (bind (readU8 m w.optStart)) (funext fun kind => ?_)
  by_cases h0 : kind = TCPOPT_EOL
  · rw [if_pos h0, if_pos h0]
    rfl
  rw [if_neg h0, if_neg h0]
  by_cases h1 : kind = TCPOPT_NOP
  · rw [if_pos h1, if_pos h1, FingerM.push_bind, map_bind]
    rfl
  rw [if_neg h1, if_neg h1]
  by_cases h4 : kind = TCPOPT_SACKOK
  · rw [if_pos h4, if_pos h4, FingerM.push_bind, map_bind]
    rfl
  rw [if_neg h4, if_neg h4]
  by_cases h2 : kind = TCPOPT_MAXSEG
  · rw [if_pos h2, if_pos h2]
    simp only [FingerM.read_bind, FingerM.push_bind, map_bind]
    rfl
  rw [if_neg h2, if_neg h2]
  by_cases h3 : kind = TCPOPT_WSCALE
  · rw [if_pos h3, if_pos h3]
    simp only [FingerM.read_bind, FingerM.push_bind, map_bind]
    rfl
  rw [if_neg h3, if_neg h3]
  by_cases h8 : kind = TCPOPT_TIMESTAMP
  · rw [if_pos h8, if_pos h8]
    simp only [FingerM.read_bind, FingerM.push_bind, map_bind]
    rfl
  · rw [if_neg h8, if_neg h8]
    simp only [FingerM.read_bind, map_bind]
    rfl

inductive Event where
  | read (p : Nat)
  | push (param : FingerParam) (value : Int)
  deriving DecidableEq, Repr

abbrev TraceM := StateM (List Event)

namespace TraceM

def read (opts : Nat → UInt8) (p : Nat) : TraceM UInt8 := fun es => (opts p, es ++ [.read p])

def push (param : FingerParam) (value : Int) : TraceM Unit :=
  fun es => ((), es ++ [.push param value])

variable {α : Type} {opts : Nat → UInt8} {p : Nat} {es : List Event}

theorem read_bind (k : UInt8 → TraceM α) :
    (read opts p >>= k) es = k (opts p) (es ++ [.read p]) := rfl

theorem push_bind (param : FingerParam) (value : Int) (k : Unit → TraceM α) :
    (push param value >>= k) es = k () (es ++ [.push param value]) := rfl

theorem pure_apply (a : α) : (pure a : TraceM α) es = (a, es) := rfl

end TraceM

structure Traced where
  optStart : Nat
  events : List Event
  deriving DecidableEq, Repr

def traceSwitch (h : Host) (opts : Nat → UInt8) (optEnd : Nat) (t : Traced) : Traced :=
  let r := optSwitchIn (TraceM.read opts) TraceM.push h optEnd t.optStart t.events
  ⟨r.1, r.2⟩

def traceBody (h : Host) (opts : Nat → UInt8) (optEnd : Nat) (t : Traced) :
    Loop.Step Traced Traced :=
  if t.optStart < optEnd then .again (traceSwitch h opts optEnd t) else .leave t

def optEvents (h : Host) (opts : Nat → UInt8) (p : Nat) : List Event :=
  if opts p = TCPOPT_EOL then [.read p]
  else if opts p = TCPOPT_NOP then [.read p, .push .nop 1]
  else if opts p = TCPOPT_SACKOK then [.read p, .push .sack 1]
  else if opts p = TCPOPT_MAXSEG then
    [.read p, .read (p + 2), .read (p + 3),
      .push .mss (ntohs h (ptohs h (opts (p + 2)) (opts (p + 3))))]
  else if opts p = TCPOPT_WSCALE then
    [.read p, .read (p + 2), .push .ws (opts (p + 2)).toNat]
  else if opts p = TCPOPT_TIMESTAMP then [.read p, .push .timestamp 1, .read (p + 1)]
  else [.read p, .read (p + 1)]

variable {h : Host} {opts : Nat → UInt8} {stop p : Nat} {es : List Event}

theorem traceSwitch_eol (hp : opts p = TCPOPT_EOL) :
    traceSwitch h opts stop ⟨p, es⟩ = ⟨stop, es ++ optEvents h opts p⟩ := by
  rw [traceSwitch, optSwitchIn, TraceM.read_bind, optEvents, if_pos hp, if_pos hp]
  rfl

theorem traceSwitch_width {n : Nat} (hn : optWidth (fun i => some (opts i)) p = some n) :
    traceSwitch h opts stop ⟨p, es⟩ = ⟨p + n, es ++ optEvents h opts p⟩ := by
  simp only [optWidth] at hn
  simp only [traceSwitch, optSwitchIn, TraceM.read_bind, optEvents]
  split at hn
  · cases hn
  rename_i h0
  rw [if_neg h0, if_neg h0]
  split at hn
  · rename_i h1
    cases hn
    rw [if_pos h1, if_pos h1]
    simp only [TraceM.push_bind, TraceM.pure_apply, List.append_assoc]
    rfl
  rename_i h1
  rw [if_neg h1, if_neg h1]
  split at hn
  · rename_i h4
    cases hn
    rw [if_pos h4, if_pos h4]
    simp only [TraceM.push_bind, TraceM.pure_apply, List.append_assoc]
    rfl
  rename_i h4
  rw [if_neg h4, if_neg h4]
  split at hn
  · rename_i h2
    cases hn
    rw [if_pos h2, if_pos h2]
    simp only [TraceM.read_bind, TraceM.push_bind, TraceM.pure_apply, List.append_assoc]
    rfl
  rename_i h2
  rw [if_neg h2, if_neg h2]
  split at hn
  · rename_i h3
    cases hn
    rw [if_pos h3, if_pos h3]
    simp only [TraceM.read_bind, TraceM.push_bind, TraceM.pure_apply, List.append_assoc]
    rfl
  rename_i h3
  rw [if_neg h3, if_neg h3]
  cases hn
  have hsum : p + 1 + (opts (p + 1)).toNat - 1 = p + (opts (p + 1)).toNat := by omega
  by_cases h8 : opts p = TCPOPT_TIMESTAMP
  · rw [if_pos h8, if_pos h8]
    simp only [TraceM.read_bind, TraceM.push_bind, TraceM.pure_apply, List.append_assoc, hsum]
    rfl
  · rw [if_neg h8, if_neg h8]
    simp only [TraceM.read_bind, TraceM.pure_apply, List.append_assoc, hsum]
    rfl

def pushCalls (es : List Event) : List Push :=
  es.filterMap fun
    | .read _ => none
    | .push param value => some (param, value)

def Plays (f₀ : Finger) (finger : Option Finger) (es : List Event) : Prop :=
  ∃ f, finger = some f ∧ pushEach f₀ (pushCalls es) = .ok f

def Follows (f₀ : Finger) {α : Type} (x : FingerM α) (y : TraceM α) : Prop :=
  ∀ finger es, Plays f₀ finger es →
    ∃ finger', x finger = .ok ((y es).1, finger') ∧ Plays f₀ finger' (y es).2

theorem pushEach_append (f : Finger) (pushes more : List Push) :
    pushEach f (pushes ++ more) = pushEach f pushes >>= fun f => pushEach f more :=
  List.foldlM_append

namespace Follows

variable {f₀ : Finger} {α β : Type}

theorem pure (a : α) : Follows f₀ (Pure.pure a) (Pure.pure a) :=
  fun finger _ hp => ⟨finger, rfl, hp⟩

theorem bind {x : FingerM α} {y : TraceM α} {k : α → FingerM β} {l : α → TraceM β}
    (hx : Follows f₀ x y) (hk : ∀ a, Follows f₀ (k a) (l a)) :
    Follows f₀ (x >>= k) (y >>= l) := by
  intro finger es hp
  obtain ⟨finger', hrun, hp'⟩ := hx finger es hp
  obtain ⟨finger'', hrest, hp''⟩ := hk (y es).1 finger' (y es).2 hp'
  refine ⟨finger'', ?_, hp''⟩
  calc
    (x >>= k) finger = (x finger >>= fun r => k r.1 r.2) := rfl
    _ = k (y es).1 finger' := by rw [hrun, ok_bind]
    _ = .ok (((y >>= l) es).1, finger'') := hrest

theorem read (opts : Nat → UInt8) (p : Nat) :
    Follows f₀ (FingerM.read (fun i => some (opts i)) p) (TraceM.read opts p) := by
  rintro finger es ⟨f, rfl, hp⟩
  refine ⟨some f, rfl, f, rfl, ?_⟩
  simpa [TraceM.read, pushCalls] using hp

theorem push (param : FingerParam) (value : Int) :
    Follows f₀ (FingerM.push param value) (TraceM.push param value) := by
  rintro finger es ⟨f, rfl, hp⟩
  obtain ⟨f', hf⟩ := fingerprintPush_some f param value
  refine ⟨some f', by simp only [FingerM.push, hf]; rfl, f', rfl, ?_⟩
  have hcalls : pushCalls (TraceM.push param value es).2 = pushCalls es ++ [(param, value)] := by
    simp [TraceM.push, pushCalls]
  rw [hcalls, pushEach_append, hp, ok_bind]
  exact bind_ok_iff.mpr ⟨f', hf, rfl⟩

theorem optSwitchIn (h : Host) (opts : Nat → UInt8) (optEnd p : Nat) :
    Follows f₀ (Lmap.optSwitchIn (FingerM.read (fun i => some (opts i))) FingerM.push h optEnd p)
      (Lmap.optSwitchIn (TraceM.read opts) TraceM.push h optEnd p) := by
  unfold Lmap.optSwitchIn
  refine (read opts p).bind fun kind => ?_
  split
  · exact pure optEnd
  split
  · exact (push .nop 1).bind fun _ => pure _
  split
  · exact (push .sack 1).bind fun _ => pure _
  split
  · exact (read opts _).bind fun _ => (read opts _).bind fun _ => (push .mss _).bind fun _ => pure _
  split
  · exact (read opts _).bind fun _ => (push .ws _).bind fun _ => pure _
  split
  · exact (push .timestamp 1).bind fun _ => (read opts _).bind fun _ => pure _
  · exact (read opts _).bind fun _ => pure _

end Follows

theorem optBody_trace {f₀ : Finger} {w : Walk} {t : Traced}
    (hstart : w.optStart = t.optStart) (hp : Plays f₀ w.finger t.events) :
    Loop.StepRel (fun w t => w.optStart = t.optStart ∧ Plays f₀ w.finger t.events)
      (fun r t => ∃ f, r = .ok (some f) ∧ pushEach f₀ (pushCalls t.events) = .ok f)
      (optBody h (fun i => some (opts i)) stop w) (traceBody h opts stop t) := by
  unfold optBody traceBody
  rw [hstart]
  split
  · obtain ⟨finger', hrun, hp'⟩ :=
      Follows.optSwitchIn h opts stop t.optStart w.finger t.events hp
    rw [optSwitch_in, hstart, hrun]
    exact .again ⟨rfl, hp'⟩
  · obtain ⟨f, hf, hpush⟩ := hp
    exact .leave ⟨f, by rw [hf], hpush⟩

/-- The option loop over any bytes is the trace: it is at the same places, and leaves the
fingerprint that the pushes of the trace make. -/
theorem optLoop_trace (h : Host) (opts : Nat → UInt8) (start stop : Nat) (f₀ : Finger) (n : Nat) :
    List.Forall₂ (fun (w : Walk) (t : Traced) =>
        w.optStart = t.optStart ∧ Plays f₀ w.finger t.events)
      (Loop.visits (optBody h (fun i => some (opts i)) stop) n ⟨start, some f₀⟩)
      (Loop.visits (traceBody h opts stop) n ⟨start, []⟩) ∧
    Option.Rel (fun r (t : Traced) => ∃ f, r = .ok (some f) ∧
        pushEach f₀ (pushCalls t.events) = .ok f)
      (Loop.run (optBody h (fun i => some (opts i)) stop) n ⟨start, some f₀⟩)
      (Loop.run (traceBody h opts stop) n ⟨start, []⟩) := by
  have hbegin : Plays f₀ (some f₀) [] := ⟨f₀, rfl, rfl⟩
  exact ⟨Loop.visits_rel (fun w t hr => optBody_trace hr.1 hr.2) n ⟨rfl, hbegin⟩,
    Loop.run_rel (fun w t hr => optBody_trace hr.1 hr.2) n ⟨rfl, hbegin⟩⟩

end Lmap
