import Lmap.FingerFields
import Mathlib.Data.List.Induction

/-!
Any number of pushes in any order: what the string looks like after them, which of them
each field remembers, and that pushes to different fields do not disturb each other.
-/

set_option autoImplicit false

namespace Lmap
open CString

abbrev Push := FingerParam × Int

def pushEach (f : Finger) (pushes : List Push) : Except Fault Finger :=
  pushes.foldlM (fun f x => fingerprintPush (some f) x.1 x.2) f

def COLONS : List Nat := [4, 9, 12, 15, 17, 19, 21, 23, 25]

structure FingerShape (f : Finger) : Prop where
  text : ∃ s : List UInt8, f = s ++ [0] ∧ s.length = FINGER_LEN ∧ ∀ b ∈ s, b ≠ 0
  colons : ∀ i ∈ COLONS, f[i]? = some 58

namespace FingerParam

def pos : FingerParam → Nat
  | window => 0
  | mss => 5
  | ttl => 10
  | ws => 13
  | sack => 16
  | nop => 18
  | df => 20
  | timestamp => 22
  | tcpflag => 24
  | lt => 26

def width : FingerParam → Nat
  | window | mss => 4
  | ttl | ws | lt => 2
  | sack | nop | df | timestamp | tcpflag => 1

def index : FingerParam → Nat
  | window => 0
  | mss => 2
  | ttl => 4
  | ws => 6
  | sack => 8
  | nop => 10
  | df => 12
  | timestamp => 14
  | tcpflag => 16
  | lt => 18

def field (param : FingerParam) (f : Finger) : List UInt8 := (f.drop param.pos).take param.width

/-- The values the decoders pass. -/
def InRange : FingerParam → Int → Prop
  | window, v | mss, v => 0 ≤ v ∧ v < 65536
  | ttl, v | ws, v => 0 ≤ v ∧ v < 256
  | sack, v | nop, v | timestamp, v | tcpflag, v => v = 0 ∨ v = 1
  | df, v => v = 0 ∨ v = 0x4000
  | lt, v => 0 ≤ v

instance (param : FingerParam) (v : Int) : Decidable (param.InRange v) := by
  cases param <;> unfold InRange <;> infer_instance

def spell : FingerParam → Int → List UInt8
  | window, v | mss, v => hex4 .upper v.toNat
  | ttl, v => hex2 .upper (ttlPredictor v.toNat)
  | ws, v => hex2 .upper v.toNat
  | sack, v | nop, v | df, v | timestamp, v => FingerFields.digit (v ≠ 0)
  | tcpflag, v => if v = 1 then lit "A" else lit "S"
  | lt, v => hex2 .lower v.toNat

end FingerParam

/-- The value of the last push to `param`. -/
def lastPush (pushes : List Push) (param : FingerParam) : Option Int :=
  (pushes.reverse.find? (fun x => x.1 = param)).map Prod.snd

def lengths (pushes : List Push) : Int :=
  ((pushes.filter (fun x => x.1 = .lt)).map Prod.snd).sum

/-- Calls that the decoders can make, with a total length that two digits can hold. -/
structure InRange (pushes : List Push) : Prop where
  each : ∀ x ∈ pushes, x.1.InRange x.2
  total : lengths pushes ≤ 255

theorem lengths_append (pushes more : List Push) :
    lengths (pushes ++ more) = lengths pushes + lengths more := by
  simp [lengths]

theorem lengths_cons (x : Push) (pushes : List Push) :
    lengths (x :: pushes) = (if x.1 = .lt then x.2 else 0) + lengths pushes := by
  by_cases hx : x.1 = .lt
  · simp [lengths, hx]
  · simp [lengths, hx]

theorem lengths_nonneg {pushes : List Push} (h : ∀ x ∈ pushes, x.1.InRange x.2) :
    0 ≤ lengths pushes := by
  induction pushes with
  | nil => exact Int.le_refl 0
  | cons x pushes ih =>
    have hrest := ih (fun y hy => h y (List.mem_cons_of_mem x hy))
    have hx := h x List.mem_cons_self
    rw [lengths_cons]
    split
    · rename_i hlt
      rw [hlt] at hx
      have hpos : 0 ≤ x.2 := hx
      omega
    · omega

theorem InRange.swap {before after : List Push} {x y : Push}
    (h : InRange (before ++ x :: y :: after)) : InRange (before ++ y :: x :: after) where
  each := by
    have hperm : (before ++ x :: y :: after).Perm (before ++ y :: x :: after) :=
      List.Perm.append_left before (List.Perm.swap y x after)
    exact fun z hz => h.each z (hperm.mem_iff.mpr hz)
  total := by
    have htotal := h.total
    simp only [lengths_append, lengths_cons] at htotal ⊢
    omega

theorem lastPush_append (pushes : List Push) (x : Push) (param : FingerParam) :
    lastPush (pushes ++ [x]) param = if x.1 = param then some x.2 else lastPush pushes param := by
  by_cases hx : x.1 = param
  · simp [lastPush, hx]
  · simp [lastPush, hx]

namespace FingerFields

def pushAll (F : FingerFields) (pushes : List Push) : FingerFields :=
  pushes.foldl (fun F x => F.push x.1 x.2) F

def fieldText (F : FingerFields) : FingerParam → List UInt8
  | .window => hex4 .upper F.window
  | .mss => F.mssText
  | .ttl => number .upper (lit "TT") F.ttl
  | .ws => number .upper (lit "WS") F.ws
  | .sack => digit F.sack
  | .nop => digit F.nop
  | .df => digit F.df
  | .timestamp => digit F.timestamp
  | .tcpflag => F.flagText
  | .lt => number .lower (lit "LT") F.lt

theorem pieces_get {i : Nat} {s : List UInt8} (F : FingerFields)
    (h : (F.pieces .lower)[i]? = some s) :
    (F.buffer.drop ((F.pieces .lower).take i).flatten.length).take s.length = s := by
  obtain ⟨hi, rfl⟩ := List.getElem?_eq_some_iff.mp h
  rw [buffer, text, flatten_split [0] hi, List.drop_left, List.take_left]

theorem field_buffer (F : FingerFields) (param : FingerParam) :
    param.field F.buffer = F.fieldText param := by
  have hget : (F.pieces .lower)[param.index]? = some (F.fieldText param) := by
    cases param <;> rfl
  have hpos : ((F.pieces .lower).take param.index).flatten.length = param.pos := by
    cases param <;> simp [pieces, FingerParam.index, FingerParam.pos]
  have hwidth : (F.fieldText param).length = param.width := by
    cases param <;> simp [fieldText, FingerParam.width]
  have hcut := F.pieces_get hget
  rw [hpos, hwidth] at hcut
  exact hcut

theorem colon_buffer (F : FingerFields) {i : Nat} (hi : i ∈ COLONS) : F.buffer[i]? = some 58 := by
  have hpiece : ∃ k, (F.pieces .lower)[k]? = some (lit ":") ∧
      ((F.pieces .lower).take k).flatten.length = i := by
    simp only [COLONS, List.mem_cons, List.not_mem_nil, or_false] at hi
    rcases hi with rfl | rfl | rfl | rfl | rfl | rfl | rfl | rfl | rfl
    · exact ⟨1, rfl, by simp [pieces]⟩
    · exact ⟨3, rfl, by simp [pieces]⟩
    · exact ⟨5, rfl, by simp [pieces]⟩
    · exact ⟨7, rfl, by simp [pieces]⟩
    · exact ⟨9, rfl, by simp [pieces]⟩
    · exact ⟨11, rfl, by simp [pieces]⟩
    · exact ⟨13, rfl, by simp [pieces]⟩
    · exact ⟨15, rfl, by simp [pieces]⟩
    · exact ⟨17, rfl, by simp [pieces]⟩
  obtain ⟨k, hget, rfl⟩ := hpiece
  have hcut := F.pieces_get hget
  have hlit : lit ":" = [58] := rfl
  rw [hlit] at hcut
  have hhead := congrArg List.head? hcut
  rw [List.head?_take, List.head?_drop] at hhead
  exact hhead

theorem shape_buffer {F : FingerFields} (hF : F.Bounded) : FingerShape F.buffer where
  text := ⟨F.text .lower, rfl, F.text_length .lower, text_ne_zero hF .lower⟩
  colons := fun _ hi => F.colon_buffer hi

theorem fits_of_inRange {F : FingerFields} {param : FingerParam} {v : Int}
    (h : param.InRange v) (hlt : param = .lt → F.lt.getD 0 + v ≤ 255) : F.Fits param v := by
  cases param with
  | lt =>
    have hpos : 0 ≤ v := h
    have hsum := hlt rfl
    exact ⟨hpos, by omega⟩
  | tcpflag => trivial
  | window | mss | ttl | ws | sack | nop | df | timestamp => exact h

theorem push_bounded {F : FingerFields} (hF : F.Bounded) {param : FingerParam} {v : Int}
    (h : F.Fits param v) : (F.push param v).Bounded := by
  cases param with
  | window =>
    obtain ⟨h0, hv⟩ : 0 ≤ v ∧ v < 65536 := h
    exact { hF with window := by simp only [push]; omega }
  | mss =>
    obtain ⟨h0, hv⟩ : 0 ≤ v ∧ v < 65536 := h
    exact { hF with mss := by simp only [push, Option.mem_some_iff, forall_eq']; omega }
  | ttl =>
    obtain ⟨h0, hv⟩ : 0 ≤ v ∧ v < 256 := h
    have hround : ttlPredictor v.toNat < 256 := ttlPredictor_lt (by omega)
    exact { hF with ttl := by simpa only [push, Option.mem_some_iff, forall_eq'] using hround }
  | ws =>
    obtain ⟨h0, hv⟩ : 0 ≤ v ∧ v < 256 := h
    exact { hF with ws := by simp only [push, Option.mem_some_iff, forall_eq']; omega }
  | lt =>
    obtain ⟨h0, hsum⟩ : 0 ≤ v ∧ F.lt.getD 0 + v.toNat < 256 := h
    exact { hF with lt := by simpa only [push, Option.mem_some_iff, forall_eq'] using hsum }
  | sack | nop | df | timestamp | tcpflag => exact { hF with }

theorem push_lt (F : FingerFields) (param : FingerParam) (v : Int) :
    ((F.push param v).lt.getD 0 : Nat) =
      F.lt.getD 0 + if param = .lt then v.toNat else 0 := by
  cases param <;> rfl

theorem fieldText_push (F : FingerFields) {param : FingerParam} (other : FingerParam) (v : Int)
    (hparam : param ≠ .lt) :
    (F.push other v).fieldText param =
      if other = param then param.spell v else F.fieldText param := by
  by_cases hother : other = param
  · subst hother
    rw [if_pos rfl]
    cases other with
    | lt => exact absurd rfl hparam
    | tcpflag =>
      by_cases hv : v = 1
      · simp [push, fieldText, FingerParam.spell, flagText, hv]
      · simp [push, fieldText, FingerParam.spell, flagText, hv]
    | window | mss | ttl | ws | sack | nop | df | timestamp => rfl
  · rw [if_neg hother]
    cases other <;> cases param <;> first | rfl | exact absurd rfl hother

theorem push_push (F : FingerFields) {param other : FingerParam} (v u : Int)
    (h : param ≠ other) : (F.push param v).push other u = (F.push other u).push param v := by
  cases param <;> cases other <;> first | rfl | exact absurd rfl h

theorem pushEach_buffer {pushes : List Push} (h : ∀ x ∈ pushes, x.1.InRange x.2)
    {F : FingerFields} (hF : F.Bounded) (htotal : F.lt.getD 0 + lengths pushes ≤ 255) :
    pushEach F.buffer pushes = .ok (F.pushAll pushes).buffer ∧ (F.pushAll pushes).Bounded := by
  induction pushes generalizing F with
  | nil => exact ⟨rfl, hF⟩
  | cons x pushes ih =>
    have hrest : ∀ y ∈ pushes, y.1.InRange y.2 := fun y hy => h y (List.mem_cons_of_mem x hy)
    have hpos := lengths_nonneg hrest
    have hx := h x List.mem_cons_self
    rw [lengths_cons] at htotal
    have hfits : F.Fits x.1 x.2 := by
      refine fits_of_inRange hx (fun hlt => ?_)
      rw [if_pos hlt] at htotal
      omega
    have hsum : ((F.push x.1 x.2).lt.getD 0 : Nat) + lengths pushes ≤ 255 := by
      rw [push_lt]
      split at htotal
      · rename_i hlt
        have hnonneg : 0 ≤ x.2 := by
          rw [hlt] at hx
          exact hx
        rw [if_pos hlt]
        omega
      · rename_i hlt
        rw [if_neg hlt]
        omega
    obtain ⟨hrun, hbounded⟩ := ih hrest (push_bounded hF hfits) hsum
    refine ⟨?_, hbounded⟩
    calc
      pushEach F.buffer (x :: pushes)
        = (fingerprintPush (some F.buffer) x.1 x.2 >>= fun f => pushEach f pushes) := rfl
      _ = pushEach (F.push x.1 x.2).buffer pushes := by
        rw [fingerprintPush_buffer F hfits]
        rfl
      _ = .ok (F.pushAll (x :: pushes)).buffer := hrun

theorem pushAll_append (F : FingerFields) (pushes more : List Push) :
    F.pushAll (pushes ++ more) = (F.pushAll pushes).pushAll more := List.foldl_append

theorem pushAll_lt {pushes : List Push} (h : ∀ x ∈ pushes, x.1.InRange x.2) (F : FingerFields) :
    ((F.pushAll pushes).lt.getD 0 : Int) = F.lt.getD 0 + lengths pushes := by
  induction pushes generalizing F with
  | nil => simp [pushAll, lengths]
  | cons x pushes ih =>
    have hx := h x List.mem_cons_self
    have hrest := ih (fun y hy => h y (List.mem_cons_of_mem x hy)) (F.push x.1 x.2)
    rw [push_lt] at hrest
    rw [lengths_cons]
    refine hrest.trans ?_
    split
    · rename_i hlt
      rw [hlt] at hx
      have hnonneg : 0 ≤ x.2 := hx
      omega
    · omega

theorem fieldText_pushAll (F : FingerFields) (pushes : List Push) {param : FingerParam}
    (hparam : param ≠ .lt) :
    (F.pushAll pushes).fieldText param =
      match lastPush pushes param with
      | some v => param.spell v
      | none => F.fieldText param := by
  induction pushes using List.reverseRecOn with
  | nil => rfl
  | append_singleton pushes x ih =>
    have hlast : (F.pushAll (pushes ++ [x])).fieldText param =
        ((F.pushAll pushes).push x.1 x.2).fieldText param := by
      rw [pushAll_append]
      rfl
    rw [hlast, fieldText_push _ _ _ hparam, lastPush_append, ih]
    by_cases hx : x.1 = param
    · rw [if_pos hx, if_pos hx]
    · rw [if_neg hx, if_neg hx]

theorem pushAll_swap (F : FingerFields) (before after : List Push) {x y : Push}
    (h : x.1 ≠ y.1) :
    F.pushAll (before ++ x :: y :: after) = F.pushAll (before ++ y :: x :: after) := by
  rw [pushAll_append, pushAll_append]
  exact congrArg (fun G => pushAll G after) (push_push _ x.2 y.2 h)

end FingerFields

open FingerFields in
theorem initial_bounded : initial.Bounded where
  window := by decide
  mss := by simp [initial]
  ttl := by simp [initial]
  ws := by simp [initial]
  lt := by simp [initial]

theorem pushEach_alloc {pushes : List Push} (h : InRange pushes) :
    pushEach fingerprintAlloc pushes = .ok (FingerFields.initial.pushAll pushes).buffer ∧
      (FingerFields.initial.pushAll pushes).Bounded := by
  rw [← FingerFields.initial_buffer]
  refine FingerFields.pushEach_buffer h.each initial_bounded ?_
  have htotal := h.total
  simpa [FingerFields.initial] using htotal

/-- The fingerprint string after any calls of `fingerprint_push` that the decoders can make. -/
theorem fingerprint_algebra (pushes : List Push) (h : InRange pushes) :
    ∃ f, pushEach fingerprintAlloc pushes = .ok f ∧ FingerShape f ∧
      (∀ param, param ≠ .lt → param.field f =
        match lastPush pushes param with
        | some v => param.spell v
        | none => param.field fingerprintAlloc) ∧
      strtoul16 (FingerParam.lt.field f) = lengths pushes ∧
      ∀ before x y after, pushes = before ++ x :: y :: after → x.1 ≠ y.1 →
        pushEach fingerprintAlloc (before ++ y :: x :: after) = .ok f := by
  obtain ⟨hrun, hbounded⟩ := pushEach_alloc h
  refine ⟨_, hrun, FingerFields.shape_buffer hbounded, ?_, ?_, ?_⟩
  · intro param hparam
    rw [FingerFields.field_buffer, FingerFields.fieldText_pushAll _ _ hparam,
      ← FingerFields.initial_buffer, FingerFields.field_buffer]
  · have hsum := FingerFields.pushAll_lt h.each FingerFields.initial
    have htotal := h.total
    have hzero : (FingerFields.initial.lt.getD 0 : Int) = 0 := rfl
    rw [hzero, Int.zero_add] at hsum
    rw [FingerFields.field_buffer, ← hsum]
    exact FingerFields.strtoul16_lt (by omega)
  · rintro before x y after rfl hne
    rw [(pushEach_alloc h.swap).1, FingerFields.pushAll_swap _ _ _ hne]

/-- The calls for a SYN with an MSS: the length is 20 and 24, as `2c`. -/
theorem fingerprint_algebra_syn :
    ∃ f, pushEach fingerprintAlloc
        [(.ttl, 64), (.df, 0x4000), (.lt, 20), (.window, 5840), (.tcpflag, 0), (.lt, 24),
          (.mss, 1460)] = .ok f ∧ FingerShape f ∧ strtoul16 (FingerParam.lt.field f) = 44 := by
  have hrange : InRange [(.ttl, 64), (.df, 0x4000), (.lt, 20), (.window, 5840), (.tcpflag, 0),
      (.lt, 24), (.mss, 1460)] := ⟨by decide, by decide⟩
  obtain ⟨f, hrun, hshape, -, hlt, -⟩ := fingerprint_algebra _ hrange
  exact ⟨f, hrun, hshape, hlt⟩

end Lmap
