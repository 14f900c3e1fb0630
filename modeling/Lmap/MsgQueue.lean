import Lmap.Machine
import Lmap.Library.Loop
import Lmap.Library.SimpleQueue
import Lmap.Library.Transition

/-!
The queue of messages of the user interface: any number of threads post, and any of them
flush. A thread takes a step at a time: what it does on its own, the test without the lock,
and what it does under the lock.
-/

set_option autoImplicit false

namespace Lmap
namespace Ui
open SimpleQueue

abbrev Message := List UInt8

inductive Stop where
  | disabled
  | fault (f : Fault)
  deriving DecidableEq, Repr

inductive Pc where
  | idle
  /-- In `ui_msg`, before the lock, with its message written. -/
  | posting (msg : Nat)
  /-- In `ui_msg_flush`, before the lock, past the test. -/
  | flushing (max : Int)
  deriving DecidableEq, Repr

structure State (T : Type) where
  queue : Queue Message
  pc : T → Pc
  result : T → Option Int
  displayed : List Message
  enqueued : List Message

def State.initial (T : Type) : State T := ⟨.initial, fun _ => .idle, fun _ => none, [], []⟩

inductive Action (T : Type) where
  /-- `ui_msg` up to the lock; the node is given the address `msg`. -/
  | prepare (t : T) (msg : Nat) (message : Message)
  | insert (t : T)
  | test (t : T) (max : Int)
  | flush (t : T)

structure Flush where
  queue : Queue Message
  displayed : List Message
  i : Int

/-- One message; its text and its node are freed together here. -/
def flushBody (max : Int) (w : Flush) : Loop.Step Flush (Except Fault Flush) :=
  match w.queue.first with
  | none => .leave (.ok w)
  | some msg =>
    match w.queue.heap msg, w.queue.removeHead msg with
    | some node, some queue =>
      let w : Flush := ⟨queue.free msg, w.displayed ++ [node.message], int32 (w.i + 1)⟩
      if w.i = max then .leave (.ok w) else .again w
    | _, _ => .leave (.error .outOfRange)

variable {T : Type} [DecidableEq T]

/-- No queue is longer than what was ever put in it, so the fuel of the loop is enough. -/
def step (s : State T) : Action T → Except Stop (State T)
  | .prepare t msg message =>
    if s.pc t = .idle ∧ (s.queue.heap msg).isNone then
      .ok { s with
        queue := s.queue.write msg (some ⟨message, none⟩)
        pc := Function.update s.pc t (.posting msg) }
    else .error .disabled
  | .insert t =>
    match s.pc t with
    | .posting msg =>
      match s.queue.heap msg, s.queue.insertTail msg with
      | some node, some queue => .ok { s with
          queue := queue
          pc := Function.update s.pc t .idle
          enqueued := s.enqueued ++ [node.message] }
      | _, _ => .error (.fault .outOfRange)
    | _ => .error .disabled
  | .test t max =>
    if s.pc t = .idle then
      if s.queue.first = none then
        .ok { s with result := Function.update s.result t (some 0) }
      else .ok { s with pc := Function.update s.pc t (.flushing max) }
    else .error .disabled
  | .flush t =>
    match s.pc t with
    | .flushing max =>
      match Loop.run (flushBody max) (s.enqueued.length + 1) ⟨s.queue, s.displayed, 0⟩ with
      | some (.ok w) => .ok { s with
          queue := w.queue
          displayed := w.displayed
          result := Function.update s.result t (some w.i)
          pc := Function.update s.pc t .idle }
      | some (.error f) => .error (.fault f)
      | none => .error (.fault .hang)
    | _ => .error .disabled

/-- What was displayed and what is queued make up what was enqueued. -/
structure Intact (queue : Queue Message) (displayed enqueued : List Message)
    (items : List (Nat × Message)) : Prop where
  linked : Linked queue items
  content : displayed ++ items.map Prod.snd = enqueued

/-- The messages that are being posted are in memory and not yet in the queue, and no two
threads post the same one. -/
structure Posted (heap : Nat → Option (Node Message)) (pc : T → Pc)
    (items : List (Nat × Message)) : Prop where
  apart : ∀ t msg, pc t = .posting msg → msg ∉ addresses items ∧ (heap msg).isSome
  own : ∀ t u msg, pc t = .posting msg → pc u = .posting msg → t = u

structure State.Inv (s : State T) (items : List (Nat × Message)) : Prop where
  intact : Intact s.queue s.displayed s.enqueued items
  posted : Posted s.queue.heap s.pc items

omit [DecidableEq T] in
theorem inv_initial : (State.initial T).Inv [] where
  intact := ⟨linked_initial, rfl⟩
  posted :=
    { apart := fun _ _ h => nomatch h
      own := fun _ _ _ h => nomatch h }

section Step

variable {s : State T} {t : T} {items : List (Nat × Message)}
  {heap heap' : Nat → Option (Node Message)} {pc : T → Pc} {msg : Nat} {max : Int}

theorem Posted.leave (h : Posted heap pc items) {p : Pc} (hp : ∀ msg, p ≠ .posting msg) :
    Posted heap (Function.update pc t p) items := by
  have hsame : ∀ u msg, Function.update pc t p u = .posting msg → pc u = .posting msg := by
    intro u msg hu
    by_cases hut : u = t
    · subst hut
      rw [Function.update_self] at hu
      exact absurd hu (hp msg)
    · rwa [Function.update_of_ne hut] at hu
  exact
    { apart := fun u msg hu => h.apart u msg (hsame u msg hu)
      own := fun u v msg hu hv => h.own u v msg (hsame u msg hu) (hsame v msg hv) }

omit [DecidableEq T] in
theorem Posted.keep (h : Posted heap pc items) {items' : List (Nat × Message)}
    (hkeep : ∀ t msg, pc t = .posting msg → msg ∉ addresses items → (heap msg).isSome →
      msg ∉ addresses items' ∧ (heap' msg).isSome) : Posted heap' pc items' where
  apart := by
    intro t msg ht
    obtain ⟨hout, hsome⟩ := h.apart t msg ht
    exact hkeep t msg ht hout hsome
  own := h.own

theorem Posted.prepare (h : Posted heap pc items) (hnew : heap msg = none)
    (hout : msg ∉ addresses items) (node : Node Message) :
    Posted (Function.update heap msg (some node)) (Function.update pc t (.posting msg)) items := by
  have hfresh : ∀ u, pc u ≠ .posting msg := by
    intro u hu
    have hsome := (h.apart u msg hu).2
    rw [hnew] at hsome
    cases hsome
  have hposts : ∀ u m, Function.update pc t (.posting msg) u = .posting m →
      (u = t ∧ m = msg) ∨ (m ≠ msg ∧ pc u = .posting m) := by
    intro u m hu
    by_cases hut : u = t
    · subst hut
      rw [Function.update_self] at hu
      exact .inl ⟨rfl, (Pc.posting.inj hu).symm⟩
    · rw [Function.update_of_ne hut] at hu
      refine .inr ⟨?_, hu⟩
      rintro rfl
      exact hfresh u hu
  exact
    { apart := by
        intro u m hu
        rcases hposts u m hu with ⟨-, rfl⟩ | ⟨hne, hu⟩
        · exact ⟨hout, by simp⟩
        · obtain ⟨hout', hsome⟩ := h.apart u m hu
          exact ⟨hout', by simpa [hne] using hsome⟩
      own := by
        intro u v m hu hv
        rcases hposts u m hu with ⟨rfl, rfl⟩ | ⟨hne, hu⟩
        · rcases hposts v m hv with ⟨rfl, -⟩ | ⟨hne, -⟩
          · rfl
          · exact absurd rfl hne
        · rcases hposts v m hv with ⟨-, rfl⟩ | ⟨-, hv⟩
          · exact absurd rfl hne
          · exact h.own u v m hu hv }

theorem inv_prepare (h : s.Inv items) (hnew : s.queue.heap msg = none) (message : Message) :
    State.Inv { s with
      queue := s.queue.write msg (some ⟨message, none⟩)
      pc := Function.update s.pc t (.posting msg) } items := by
  have hout : msg ∉ addresses items := by
    intro hmem
    have hsome := h.intact.linked.chain.allocated hmem
    rw [hnew] at hsome
    cases hsome
  exact
    { intact := ⟨h.intact.linked.write hout _, h.intact.content⟩
      posted := h.posted.prepare hnew hout _ }

theorem inv_insert (h : s.Inv items) (hpc : s.pc t = .posting msg) :
    ∃ s', step s (.insert t) = .ok s' ∧ ∃ items', s'.Inv items' := by
  obtain ⟨hout, hsome⟩ := h.posted.apart t msg hpc
  obtain ⟨node, hnode⟩ := Option.isSome_iff_exists.mp hsome
  obtain ⟨queue, hinsert, hlinked, hframe⟩ := h.intact.linked.insertTail hout hnode
  have hstep : step s (.insert t) = .ok { s with
      queue := queue
      pc := Function.update s.pc t .idle
      enqueued := s.enqueued ++ [node.message] } := by
    simp only [step, hpc, hnode, hinsert]
  refine ⟨_, hstep, items ++ [(msg, node.message)], ?_⟩
  have hleave := h.posted.leave (t := t) (p := .idle) (fun _ => nofun)
  exact
    { intact := ⟨hlinked, by rw [List.map_append, ← List.append_assoc, h.intact.content]; rfl⟩
      posted := by
        refine hleave.keep (fun u m hu hm hsome => ?_)
        have hut : u ≠ t := by
          rintro rfl
          rw [Function.update_self] at hu
          cases hu
        rw [Function.update_of_ne hut] at hu
        have hne : m ≠ msg := by
          rintro rfl
          exact hut (h.posted.own u t m hu hpc)
        have hout' : m ∉ addresses (items ++ [(msg, node.message)]) := by
          simp only [addresses, List.map_append, List.mem_append, not_or] at hm ⊢
          exact ⟨hm, by simpa using hne⟩
        exact ⟨hout', by rwa [hframe m hout']⟩ }

theorem flushBody_nil {w : Flush} (h : Linked w.queue []) (max : Int) :
    flushBody max w = .leave (.ok w) := by
  have hfirst : w.queue.first = none := h.chain
  simp only [flushBody, hfirst]

/-- A round takes the first message off, touches no other node, and ends at the limit. -/
theorem flushBody_next {w : Flush} {a : Nat} {m : Message}
    (h : Linked w.queue ((a, m) :: items)) (max : Int) :
    ∃ w', flushBody max w = (if w'.i = max then .leave (.ok w') else .again w') ∧
      w'.i = int32 (w.i + 1) ∧ Linked w'.queue items ∧ w'.displayed = w.displayed ++ [m] ∧
      ∀ b, b ∉ addresses ((a, m) :: items) →
        b ∉ addresses items ∧ w'.queue.heap b = w.queue.heap b := by
  obtain ⟨hfirst, next, hnode, -⟩ := h.chain
  obtain ⟨queue, hremove, hheap, hlinked⟩ := h.removeHead
  have hout : a ∉ addresses items := (List.nodup_cons.mp h.nodup).1
  refine ⟨⟨queue.free a, w.displayed ++ [m], int32 (w.i + 1)⟩, ?_, rfl, hlinked.write hout none,
    rfl, fun b hb => ?_⟩
  · simp only [flushBody, hfirst, hnode, hremove]
  · have hba : b ≠ a := fun hba => hb (hba ▸ List.mem_cons_self)
    refine ⟨fun hmem => hb (List.mem_cons_of_mem _ hmem), ?_⟩
    rw [← hheap]
    exact Function.update_of_ne hba _ _

theorem flushBody_cons {w : Flush} {a : Nat} {m : Message}
    (h : Linked w.queue ((a, m) :: items)) (max : Int) :
    ∃ w', (flushBody max w = .leave (.ok w') ∨ flushBody max w = .again w') ∧
      Linked w'.queue items ∧ w'.displayed = w.displayed ++ [m] ∧
      ∀ b, b ∉ addresses ((a, m) :: items) →
        b ∉ addresses items ∧ w'.queue.heap b = w.queue.heap b := by
  obtain ⟨w', hround, -, hrest⟩ := flushBody_next h max
  refine ⟨w', ?_, hrest⟩
  rw [hround]
  split
  · exact .inl rfl
  · exact .inr rfl

theorem run_flush (max : Int) {enqueued : List Message} {w : Flush} {n : Nat}
    (h : Intact w.queue w.displayed enqueued items) (hn : items.length < n) :
    ∃ w' items', Loop.run (flushBody max) n w = some (.ok w') ∧
      Intact w'.queue w'.displayed enqueued items' ∧
      ∀ b, b ∉ addresses items → b ∉ addresses items' ∧ w'.queue.heap b = w.queue.heap b := by
  induction items generalizing n w with
  | nil =>
    obtain ⟨n, rfl⟩ : ∃ k, n = k + 1 := ⟨n - 1, by simp at hn; omega⟩
    exact ⟨w, [], Loop.run_leave (flushBody_nil h.linked max) n, h, fun b hb => ⟨hb, rfl⟩⟩
  | cons e items ih =>
    obtain ⟨n, rfl⟩ : ∃ k, n = k + 1 := ⟨n - 1, by simp at hn; omega⟩
    obtain ⟨w', hround, hlinked, hdisplayed, hframe⟩ := flushBody_cons h.linked max
    have hintact : Intact w'.queue w'.displayed enqueued items :=
      ⟨hlinked, by rw [hdisplayed, ← h.content]; simp⟩
    rcases hround with hb | hb
    · exact ⟨w', items, Loop.run_leave hb n, hintact, hframe⟩
    · obtain ⟨w'', items', hrun, hintact', hframe'⟩ := ih (n := n) hintact (by simpa using hn)
      refine ⟨w'', items', by rw [Loop.run_again hb, hrun], hintact', fun b hb => ?_⟩
      obtain ⟨hbout, hbheap⟩ := hframe b hb
      obtain ⟨hbout', hbheap'⟩ := hframe' b hbout
      exact ⟨hbout', hbheap'.trans hbheap⟩

theorem inv_flush (h : s.Inv items) (hpc : s.pc t = .flushing max) :
    ∃ s', step s (.flush t) = .ok s' ∧ ∃ items', s'.Inv items' := by
  have hlen : items.length < s.enqueued.length + 1 := by
    rw [← h.intact.content, List.length_append, List.length_map]
    omega
  obtain ⟨w, items', hrun, hintact, hframe⟩ := run_flush (w := ⟨s.queue, s.displayed, 0⟩) max
    h.intact hlen
  have hstep : step s (.flush t) = .ok { s with
      queue := w.queue
      displayed := w.displayed
      result := Function.update s.result t (some w.i)
      pc := Function.update s.pc t .idle } := by
    simp only [step, hpc, hrun]
  refine ⟨_, hstep, items', hintact, ?_⟩
  have hkeep : Posted w.queue.heap s.pc items' :=
    h.posted.keep (fun u m _ hm hsome => ⟨(hframe m hm).1, by rwa [(hframe m hm).2]⟩)
  exact hkeep.leave (fun _ => nofun)

/-- Every action that a thread can take is taken without a fault, and keeps the invariant. -/
theorem step_inv (h : s.Inv items) (a : Action T) :
    step s a = .error .disabled ∨ ∃ s', step s a = .ok s' ∧ ∃ items', s'.Inv items' := by
  cases a with
  | prepare t msg message =>
    by_cases hpc : s.pc t = .idle ∧ (s.queue.heap msg).isNone
    · have hinv := inv_prepare (t := t) h (Option.isNone_iff_eq_none.mp hpc.2) message
      exact .inr ⟨_, if_pos hpc, items, hinv⟩
    · exact .inl (if_neg hpc)
  | insert t =>
    cases hpc : s.pc t with
    | posting msg => exact .inr (inv_insert h hpc)
    | idle | flushing max => exact .inl (by simp only [step, hpc])
  | test t max =>
    by_cases hpc : s.pc t = .idle
    · by_cases hfirst : s.queue.first = none
      · exact .inr ⟨_, (if_pos hpc).trans (if_pos hfirst), items, h.intact, h.posted⟩
      · exact .inr ⟨_, (if_pos hpc).trans (if_neg hfirst), items, h.intact,
          h.posted.leave (fun _ => nofun)⟩
    · exact .inl (if_neg hpc)
  | flush t =>
    cases hpc : s.pc t with
    | flushing max => exact .inr (inv_flush h hpc)
    | idle | posting msg => exact .inl (by simp only [step, hpc])

end Step

/-- What a run comes to: a state with everything in place, unless it asked a thread for an
action that the thread was not at. -/
def Safe : Except Stop (State T) → Prop
  | .ok s => ∃ items, Intact s.queue s.displayed s.enqueued items
  | .error e => e = .disabled

/-- However the threads take turns, what was displayed and what is still queued are the
messages in the order of their insertion, and the tail pointer designates the last link. -/
theorem msg_queue_safe (T : Type) [DecidableEq T] (actions : List (Action T)) :
    Safe (Transition.exec step (State.initial T) actions) := by
  have hstep : ∀ s a s', (∃ items, s.Inv items) → step s a = .ok s' →
      ∃ items, State.Inv (T := T) s' items := by
    rintro s a s' ⟨items, h⟩ hok
    rcases step_inv h a with herr | ⟨s'', hok', hinv⟩
    · cases herr.symm.trans hok
    · cases hok'.symm.trans hok
      exact hinv
  have hfail : ∀ s a e, (∃ items, State.Inv (T := T) s items) → step s a = .error e →
      e = .disabled := by
    rintro s a e ⟨items, h⟩ herr
    rcases step_inv h a with herr' | ⟨s'', hok', -⟩
    · cases herr'.symm.trans herr
      rfl
    · cases hok'.symm.trans herr
  cases hrun : Transition.exec step (State.initial T) actions with
  | error e => exact Transition.exec_error hstep hfail ⟨[], inv_initial⟩ hrun
  | ok s =>
    obtain ⟨items, hinv⟩ := Transition.exec_invariant hstep ⟨[], inv_initial⟩ hrun
    exact ⟨items, hinv.intact⟩

end Ui
end Lmap
