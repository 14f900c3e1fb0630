import Lmap.Transcript
import Lmap.UiHook

/-!
What is in the system window after any run of the threads that post and of those that flush: whole
messages, one under the other, those of each thread in the order in which it has posted them.
-/

set_option autoImplicit false

namespace Lmap
namespace Ui
open CString Format PlainText SimpleQueue

variable {T : Type} [DecidableEq T]

structure History (T : Type) where
  pending : T → Option Message
  posted : List (T × Message)

def History.initial (T : Type) : History T := ⟨fun _ => none, []⟩

def History.next (k : History T) : Action T → History T
  | .prepare t _ message => { k with pending := Function.update k.pending t (some message) }
  | .insert t =>
    match k.pending t with
    | some message => ⟨Function.update k.pending t none, k.posted ++ [(t, message)]⟩
    | none => k
  | .test _ _ | .flush _ => k

def History.of (k : History T) (t : T) : List Message :=
  (k.posted.filter fun e => e.1 = t).map Prod.snd

def Action.thread : Action T → T
  | .prepare t _ _ | .insert t | .test t _ | .flush t => t

section Step

variable {s s' : State T} {a : Action T} {items : List (Nat × Message)} {k : History T}
  {u : T} {msg : Nat}

def Posts (s : State T) (t : T) (message : Message) : Prop :=
  ∃ msg node, s.pc t = .posting msg ∧ s.queue.heap msg = some node ∧ node.message = message

structure Recorded (k : History T) (s : State T) : Prop where
  pending : ∀ t message, k.pending t = some message ↔ Posts s t message
  posted : k.posted.map Prod.snd = s.enqueued

inductive Moves (s s' : State T) : Action T → Prop where
  | prepare {t : T} {msg : Nat} {message : Message} (hidle : s.pc t = .idle)
      (hposts : ∀ m, Posts s' t m ↔ message = m) (henqueued : s'.enqueued = s.enqueued) :
      Moves s s' (.prepare t msg message)
  | insert {t : T} {message : Message} (hposts : ∀ m, Posts s t m ↔ message = m)
      (hdone : ∀ m, ¬ Posts s' t m) (henqueued : s'.enqueued = s.enqueued ++ [message]) :
      Moves s s' (.insert t)
  | test {t : T} {max : Int} (hbefore : ∀ m, ¬ Posts s t m) (hafter : ∀ m, ¬ Posts s' t m)
      (henqueued : s'.enqueued = s.enqueued) : Moves s s' (.test t max)
  | flush {t : T} (hbefore : ∀ m, ¬ Posts s t m) (hafter : ∀ m, ¬ Posts s' t m)
      (henqueued : s'.enqueued = s.enqueued) : Moves s s' (.flush t)

omit [DecidableEq T] in
theorem Recorded.idle (h : Recorded k s) (hidle : ∀ m, ¬ Posts s u m) : k.pending u = none :=
  Option.eq_none_iff_forall_ne_some.mpr fun m hm => hidle m ((h.pending u m).mp hm)

end Step

section Run

variable {s s' : State T} {actions : List (Action T)} {items : List (Nat × Message)}
  {k : History T} {t : T}

def shown (win : Pad) (msgs : List Message) : Option (Option Pad) :=
  msgs.foldlM ncursesMsg (some win)

def Follows (c : Convention) (texts : List (List UInt8)) (msgs : List Message) : Prop :=
  ∃ done, done <+: texts ∧ List.Forall₂ (Stored c) done msgs

variable {c : Convention} {texts : T → List (List UInt8)}

end Run

end Ui
end Lmap
