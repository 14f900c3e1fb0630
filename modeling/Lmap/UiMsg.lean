import Lmap.Library.CString
import Lmap.Library.Loop

/-!
The loop of `ui_msg`: it prints a message into a buffer, and makes the buffer larger until the
message is in it, whatever `vsnprintf` returns of one that is not.
-/

set_option autoImplicit false

namespace Lmap
namespace Ui
open CString

def INT_MAX : Int := 2 ^ 31 - 1

/-- What `vsnprintf` returns of a text that does not fit. -/
inductive Convention where
  /-- glibc 2.1: the length of the text, where that is an `int`. -/
  | needed
  | minusOne
  deriving DecidableEq, Repr

def Convention.unfit (c : Convention) (length : Nat) : Int :=
  match c with
  | .needed => if length ≤ INT_MAX then length else -1
  | .minusOne => -1

/-- `vsnprintf (message, size, fmt, ap)`, for the text that the format and the arguments make. -/
def vsnprintf (c : Convention) (message : List UInt8) (size : Int) (text : List UInt8) :
    Int × List UInt8 :=
  (if text.length < size then text.length else c.unfit text.length,
    strcpy message (snprintf size.toNat text))

/-- The bytes that are new hold whatever was in memory. -/
def realloc (junk : Nat → UInt8) (message : List UInt8) (size : Int) : List UInt8 :=
  message.take size.toNat ++
    (List.range' message.length (size.toNat - message.length)).map junk

structure Msg where
  message : List UInt8
  size : Int
  deriving DecidableEq, Repr

def Msg.initial : Msg := ⟨List.replicate 50 0, 50⟩

def newSize (n size : Int) : Int := if -1 < n then n + 1 else size * 2

/-- It leaves with nothing where the new size is no `int`. -/
def msgBody (c : Convention) (junk : Nat → UInt8) (text : List UInt8) (w : Msg) :
    Loop.Step Msg (Option (List UInt8)) :=
  let (n, message) := vsnprintf c w.message w.size text
  if -1 < n ∧ n < w.size then .leave (some message)
  else
    let size := newSize n w.size
    if size ≤ INT_MAX then .again ⟨realloc junk message size, size⟩ else .leave none

/-- A round that does not leave makes the buffer larger, so these rounds are enough. -/
def uiMsg (c : Convention) (junk : Nat → UInt8) (text : List UInt8) :
    Option (Option (List UInt8)) :=
  Loop.run (msgBody c junk text) (text.length + 1) Msg.initial

variable {c : Convention} {junk : Nat → UInt8} {text : List UInt8} {w w' : Msg}

theorem realloc_length (junk : Nat → UInt8) (message : List UInt8) (size : Int) :
    (realloc junk message size).length = size.toNat := by
  simp only [realloc, List.length_append, List.length_take, List.length_map, List.length_range']
  omega

theorem vsnprintf_length (h : (w.message.length : Int) = w.size) (hsize : 0 < w.size) :
    (vsnprintf c w.message w.size text).2.length = w.message.length := by
  simp only [vsnprintf, strcpy, snprintf, List.length_append, List.length_cons, List.length_drop,
    List.length_take]
  omega

structure Msg.Inv (w : Msg) : Prop where
  large : 50 ≤ w.size
  sized : (w.message.length : Int) = w.size

theorem Msg.inv_initial : Msg.initial.Inv := ⟨Int.le_refl _, rfl⟩

theorem msgBody_fit (hfit : text.length < w.size) :
    msgBody c junk text w = .leave (some (strcpy w.message text)) := by
  have htake : snprintf w.size.toNat text = text := List.take_of_length_le (by omega)
  have hn : (-1 : Int) < text.length ∧ text.length < w.size := ⟨by omega, hfit⟩
  simp only [msgBody, vsnprintf, if_pos hfit, htake, if_pos hn]

theorem newSize_unfit (hw : 50 ≤ w.size) (hunfit : w.size ≤ text.length) :
    w.size < newSize (c.unfit text.length) w.size ∧
      newSize (c.unfit text.length) w.size ≤ 2 * text.length := by
  have hlength : (0 : Int) ≤ text.length := Int.natCast_nonneg _
  unfold newSize Convention.unfit
  cases c with
  | needed =>
    by_cases hmax : text.length ≤ INT_MAX
    · have hn : (-1 : Int) < text.length := by omega
      simp only [if_pos hmax, if_pos hn]
      omega
    · simp only [if_neg hmax, Int.lt_irrefl, if_false]
      omega
  | minusOne =>
    simp only [Int.lt_irrefl, if_false]
    omega

theorem msgBody_unfit (hunfit : w.size ≤ text.length) :
    msgBody c junk text w =
      if newSize (c.unfit text.length) w.size ≤ INT_MAX then
        .again ⟨realloc junk (vsnprintf c w.message w.size text).2
            (newSize (c.unfit text.length) w.size), newSize (c.unfit text.length) w.size⟩
      else .leave none := by
  have hlt : ¬ text.length < w.size := by omega
  have hn : ¬ (-1 < c.unfit text.length ∧ c.unfit text.length < w.size) := by
    cases c with
    | needed =>
      simp only [Convention.unfit]
      split <;> omega
    | minusOne => simp [Convention.unfit]
  simp only [msgBody, vsnprintf, if_neg hlt, if_neg hn]

theorem msgBody_again (hw : w.Inv) (h : msgBody c junk text w = .again w') :
    w.size ≤ text.length ∧ w.size < w'.size ∧ w'.Inv := by
  have hunfit : w.size ≤ text.length := by
    by_contra hfit
    rw [msgBody_fit (by omega)] at h
    cases h
  obtain ⟨hlt, -⟩ := newSize_unfit (c := c) hw.large hunfit
  rw [msgBody_unfit hunfit] at h
  split at h
  · cases h
    have hlarge := hw.large
    refine ⟨hunfit, hlt, ⟨by show 50 ≤ newSize _ _; omega, ?_⟩⟩
    rw [realloc_length]
    exact Int.toNat_of_nonneg (by omega)
  · cases h

theorem msgBody_leave {message : List UInt8} (h : msgBody c junk text w = .leave (some message)) :
    message = strcpy w.message text := by
  by_cases hfit : text.length < w.size
  · rw [msgBody_fit hfit] at h
    cases h
    rfl
  · rw [msgBody_unfit (by omega)] at h
    split at h <;> cases h

theorem msgBody_inv (hw : w.Inv) (h : msgBody c junk text w = .again w') : w'.Inv :=
  (msgBody_again hw h).2.2

/-- No round writes behind its buffer. -/
theorem uiMsg_inBounds (c : Convention) (junk : Nat → UInt8) (text : List UInt8) (n : Nat) :
    ∀ w ∈ Loop.visits (msgBody c junk text) n Msg.initial,
      (vsnprintf c w.message w.size text).2.length = w.message.length := by
  intro w hw
  have hinv := Loop.visits_invariant (fun _ _ => msgBody_inv) n Msg.inv_initial w hw
  have hlarge := hinv.large
  exact vsnprintf_length hinv.sized (by omega)

theorem uiMsg_isSome (c : Convention) (junk : Nat → UInt8) (text : List UInt8) :
    (uiMsg c junk text).isSome := by
  have hstep : ∀ w w', w.Inv → msgBody c junk text w = .again w' →
      w'.Inv ∧ (text.length + 1 - w'.size).toNat < (text.length + 1 - w.size).toNat := by
    intro w w' hw h
    obtain ⟨hunfit, hlt, hinv⟩ := msgBody_again hw h
    exact ⟨hinv, by omega⟩
  refine Loop.run_isSome hstep Msg.inv_initial ?_
  simp only [Msg.initial]
  omega

theorem uiMsg_stored {message : List UInt8} (h : uiMsg c junk text = some (some message)) :
    ∃ rest, message = text ++ 0 :: rest := by
  have hleave : ∀ w r, w.Inv → msgBody c junk text w = .leave r →
      ∀ message ∈ r, ∃ rest, message = text ++ 0 :: rest := by
    rintro w r - hr message rfl
    exact ⟨_, msgBody_leave hr⟩
  exact Loop.run_invariant (fun _ _ => msgBody_inv) hleave Msg.inv_initial h message rfl

/-- For every text of less than `2 ^ 29` bytes the loop ends without an overflow of `size`, and
with all of the text in the buffer. -/
theorem uiMsg_complete (c : Convention) (junk : Nat → UInt8) {text : List UInt8}
    (h : text.length < 2 ^ 29) :
    ∃ message, uiMsg c junk text = some (some message) ∧
      message.take (text.length + 1) = text ++ [0] := by
  have hleave : ∀ w r, w.Inv → msgBody c junk text w = .leave r → r ≠ none := by
    rintro w r hw hr rfl
    by_cases hfit : text.length < w.size
    · rw [msgBody_fit hfit] at hr
      cases hr
    · obtain ⟨-, hle⟩ := newSize_unfit (c := c) hw.large (by omega : w.size ≤ text.length)
      have hmax : newSize (c.unfit text.length) w.size ≤ INT_MAX := by
        unfold INT_MAX
        omega
      rw [msgBody_unfit (by omega), if_pos hmax] at hr
      cases hr
  obtain ⟨r, hr⟩ := Option.isSome_iff_exists.mp (uiMsg_isSome c junk text)
  obtain ⟨message, rfl⟩ := Option.ne_none_iff_exists'.mp
    (Loop.run_invariant (fun _ _ => msgBody_inv) hleave Msg.inv_initial hr)
  obtain ⟨rest, rfl⟩ := uiMsg_stored hr
  refine ⟨_, hr, ?_⟩
  rw [List.take_append, List.take_of_length_le (Nat.le_succ _)]
  simp

theorem uiMsg_complete_hundred :
    ∃ message, uiMsg .minusOne (fun _ => 0) (List.replicate 100 97) = some (some message) ∧
      message.take 101 = List.replicate 100 97 ++ [0] :=
  uiMsg_complete .minusOne (fun _ => 0) (by decide)

end Ui
end Lmap
