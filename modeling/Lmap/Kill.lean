import Lmap.MsgQueue

/-!
Threads that post messages and can be killed, by `lmap_thread_destroy`, between any two of their
steps: `lmap_thread_init` has them cancelled as soon as it is asked for. The thread of the user
interface, which displays the messages, is not one of them.
-/

set_option autoImplicit false

namespace Lmap
namespace Kill
open SimpleQueue
open Ui (Message Stop Posted flushBody)

inductive Who (T : Type) where
  | ui
  | poster (t : T)
  deriving DecidableEq, Repr

inductive Pc where
  | idle
  /-- `UI_MSG_LOCK`, with the message written. -/
  | lock (msg : Nat)
  /-- The three assignments of `SIMPLEQ_INSERT_TAIL`. -/
  | setNext (msg : Nat)
  | storeLast (msg : Nat)
  | setLast (msg : Nat)
  | unlock
  | dead
  deriving DecidableEq, Repr

inductive UiPc where
  | idle
  | lock (max : Int)
  | round (max i : Int)
  | unlock (i : Int)
  deriving DecidableEq, Repr

structure State (T : Type) where
  queue : Queue Message
  mutex : Option (Who T)
  pc : T → Pc
  /-- `PTHREAD_CANCEL_ASYNCHRONOUS` was set. -/
  asynchronous : T → Bool
  ui : UiPc
  displayed : List Message
  result : Option Int

def State.initial (T : Type) : State T :=
  ⟨.initial, none, fun _ => .idle, fun _ => false, .idle, [], none⟩

inductive Action (T : Type) where
  | init (t : T)
  /-- `ui_msg` up to the lock; the node is given the address `msg`. -/
  | prepare (t : T) (msg : Nat) (message : Message)
  | go (t : T)
  /-- `lmap_thread_destroy` of `t`: the cancellation, when it takes effect. -/
  | destroy (t : T)
  /-- The test of `ui_msg_flush` for an empty queue. -/
  | test (max : Int)
  | goUi
  deriving DecidableEq, Repr

section Step

variable {T : Type} [DecidableEq T]

def State.move (s : State T) (t : T) (pc : Pc) : State T :=
  { s with pc := Function.update s.pc t pc }

def goStep (s : State T) (t : T) : Except Stop (State T) :=
  match s.pc t with
  | .idle | .dead => .error .disabled
  | .lock msg =>
    if s.mutex = none then .ok ({ s with mutex := some (.poster t) }.move t (.setNext msg))
    else .error .disabled
  | .setNext msg =>
    match s.queue.setNext msg none with
    | some queue => .ok ({ s with queue := queue }.move t (.storeLast msg))
    | none => .error (.fault .outOfRange)
  | .storeLast msg =>
    match s.queue.storeLast (some msg) with
    | some queue => .ok ({ s with queue := queue }.move t (.setLast msg))
    | none => .error (.fault .outOfRange)
  | .setLast msg => .ok ({ s with queue := s.queue.setLast (.next msg) }.move t .unlock)
  | .unlock => .ok ({ s with mutex := none }.move t .idle)

def uiStep (s : State T) : Except Stop (State T) :=
  match s.ui with
  | .idle => .error .disabled
  | .lock max =>
    if s.mutex = none then .ok { s with mutex := some .ui, ui := .round max 0 }
    else .error .disabled
  | .round max i =>
    match flushBody max ⟨s.queue, s.displayed, i⟩ with
    | .again w => .ok { s with queue := w.queue, displayed := w.displayed, ui := .round max w.i }
    | .leave (.ok w) =>
      .ok { s with queue := w.queue, displayed := w.displayed, ui := .unlock w.i }
    | .leave (.error f) => .error (.fault f)
  | .unlock i => .ok { s with mutex := none, ui := .idle, result := some i }

def step (s : State T) : Action T → Except Stop (State T)
  | .init t =>
    if s.pc t = .idle then
      .ok { s with asynchronous := Function.update s.asynchronous t true }
    else .error .disabled
  | .prepare t msg message =>
    if s.pc t = .idle ∧ (s.queue.heap msg).isNone then
      .ok ({ s with queue := s.queue.write msg (some ⟨message, none⟩) }.move t (.lock msg))
    else .error .disabled
  | .go t => goStep s t
  | .destroy t =>
    if s.asynchronous t ∧ s.pc t ≠ .dead then .ok (s.move t .dead) else .error .disabled
  | .test max =>
    if s.ui = .idle then
      if s.queue.first = none then .ok { s with result := some 0 }
      else .ok { s with ui := .lock max }
    else .error .disabled
  | .goUi => uiStep s

end Step

/-- Between `UI_MSG_LOCK` and `UI_MSG_UNLOCK`. -/
def Pc.Inside : Pc → Prop
  | .setNext _ | .storeLast _ | .setLast _ | .unlock => True
  | .idle | .lock _ | .dead => False

def UiPc.Inside : UiPc → Prop
  | .round _ _ | .unlock _ => True
  | .idle | .lock _ => False

section Run

variable {T : Type}

def State.Inside (s : State T) : Who T → Prop
  | .ui => s.ui.Inside
  | .poster t => (s.pc t).Inside

/-- No thread that is gone holds the mutex, and with nobody at it the queue is well formed. -/
structure Safe (s : State T) : Prop where
  living : ∀ t, s.mutex = some (.poster t) → s.pc t ≠ .dead
  formed : (∀ w, ¬ s.Inside w) → ∃ items, Linked s.queue items

/-- The step does not kill a thread between its lock and its unlock. -/
def Spares (s : State T) (a : Action T) (_ : State T) : Prop :=
  ∀ t, a = .destroy t → ¬ (s.pc t).Inside

variable [DecidableEq T] {s s' : State T} {a : Action T} {t : T} {p : Pc}

structure Turns (s : State T) (a : Action T) (s' : State T) (w : Who T) : Prop where
  off : ∀ v, v ≠ w → (s'.Inside v ↔ s.Inside v)
  turn : Lock.Turn s.mutex s'.mutex w (s.Inside w) (s'.Inside w) (s.Inside w)
    (∃ t, a = .destroy t ∧ w = .poster t)

theorem poster_turns (dies : Prop) (hpc : s'.pc = Function.update s.pc t p)
    (hui : s'.ui = s.ui)
    (hturn : Lock.Turn s.mutex s'.mutex (.poster t) (s.pc t).Inside p.Inside (s.pc t).Inside dies)
    (hdies : dies → a = .destroy t) : ∃ w, Turns s a s' w := by
  have hin : s'.Inside (.poster t) ↔ p.Inside := by
    simp only [State.Inside, hpc, Function.update_self]
  refine ⟨.poster t, fun v hv => ?_, ?_⟩
  · cases v with
    | ui => simp only [State.Inside, hui]
    | poster u =>
      have hu : u ≠ t := fun hu => hv (by rw [hu])
      simp only [State.Inside, hpc, Function.update_of_ne hu]
  · cases hturn with
    | lock hfree hholder h => exact .lock hfree hholder (hin.mpr h)
    | unlock h hholder hout => exact .unlock h hholder (hin.not.mpr hout)
    | stay hholder h => exact .stay hholder (hin.trans h)
    | die h hholder hout => exact .die ⟨t, hdies h, rfl⟩ hholder (hin.not.mpr hout)

omit [DecidableEq T] in
theorem ui_turns (hpc : s'.pc = s.pc)
    (hturn : Lock.Turn s.mutex s'.mutex (.ui : Who T) s.ui.Inside s'.ui.Inside s.ui.Inside False) :
    ∃ w, Turns s a s' w := by
  refine ⟨.ui, fun v hv => ?_, ?_⟩
  · cases v with
    | ui => exact absurd rfl hv
    | poster u => simp only [State.Inside, hpc]
  · cases hturn with
    | lock hfree hholder h => exact .lock hfree hholder h
    | unlock h hholder hout => exact .unlock h hholder hout
    | stay hholder h => exact .stay hholder h
    | die h => cases h

theorem go_turns (h : goStep s t = .ok s') : ∃ w, Turns s (.go t) s' w := by
  cases hpc : s.pc t with
  | idle | dead => simp [goStep, hpc] at h
  | lock msg =>
    by_cases hfree : s.mutex = none
    · simp only [goStep, hpc, hfree, if_true, Except.ok.injEq] at h
      subst h
      exact poster_turns False rfl rfl (.lock hfree rfl trivial) nofun
    · simp [goStep, hpc, hfree] at h
  | setNext msg =>
    cases hq : s.queue.setNext msg none with
    | none => simp [goStep, hpc, hq] at h
    | some queue =>
      simp only [goStep, hpc, hq, Except.ok.injEq] at h
      subst h
      exact poster_turns False rfl rfl (.stay rfl (by rw [hpc]; exact Iff.rfl)) nofun
  | storeLast msg =>
    cases hq : s.queue.storeLast (some msg) with
    | none => simp [goStep, hpc, hq] at h
    | some queue =>
      simp only [goStep, hpc, hq, Except.ok.injEq] at h
      subst h
      exact poster_turns False rfl rfl (.stay rfl (by rw [hpc]; exact Iff.rfl)) nofun
  | setLast msg =>
    simp only [goStep, hpc, Except.ok.injEq] at h
    subst h
    exact poster_turns False rfl rfl (.stay rfl (by rw [hpc]; exact Iff.rfl)) nofun
  | unlock =>
    simp only [goStep, hpc, Except.ok.injEq] at h
    subst h
    exact poster_turns False rfl rfl
      (.unlock (by rw [hpc]; trivial) rfl nofun) nofun

omit [DecidableEq T] in
theorem goUi_turns (h : uiStep s = .ok s') : ∃ w, Turns s .goUi s' w := by
  cases hui : s.ui with
  | idle => simp [uiStep, hui] at h
  | lock max =>
    by_cases hfree : s.mutex = none
    · simp only [uiStep, hui, hfree, if_true, Except.ok.injEq] at h
      subst h
      exact ui_turns rfl (.lock hfree rfl trivial)
    · simp [uiStep, hui, hfree] at h
  | round max i =>
    have hstay : s'.pc = s.pc → s'.mutex = s.mutex → s'.ui.Inside → ∃ w, Turns s .goUi s' w :=
      fun hpc hmutex hin =>
        ui_turns hpc (.stay hmutex (iff_of_true hin (by rw [hui]; trivial)))
    cases hbody : flushBody max ⟨s.queue, s.displayed, i⟩ with
    | again w =>
      simp only [uiStep, hui, hbody, Except.ok.injEq] at h
      subst h
      exact hstay rfl rfl trivial
    | leave r =>
      cases r with
      | error f => simp [uiStep, hui, hbody] at h
      | ok w =>
        simp only [uiStep, hui, hbody, Except.ok.injEq] at h
        subst h
        exact hstay rfl rfl trivial
  | unlock i =>
    simp only [uiStep, hui, Except.ok.injEq] at h
    subst h
    exact ui_turns rfl (.unlock (by rw [hui]; trivial) rfl nofun)

theorem step_turns (h : step s a = .ok s') : ∃ w, Turns s a s' w := by
  cases a with
  | init t =>
    by_cases hpc : s.pc t = .idle
    · simp only [step, hpc, if_true, Except.ok.injEq] at h
      subst h
      exact ui_turns rfl (.stay rfl Iff.rfl)
    · simp [step, hpc] at h
  | prepare t msg message =>
    by_cases hprepare : s.pc t = .idle ∧ (s.queue.heap msg).isNone
    · rw [step, if_pos hprepare] at h
      cases h
      exact poster_turns False rfl rfl
        (.stay rfl (by rw [hprepare.1]; exact Iff.rfl)) nofun
    · rw [step, if_neg hprepare] at h
      cases h
  | go t => exact go_turns h
  | destroy t =>
    by_cases hdestroy : s.asynchronous t ∧ s.pc t ≠ .dead
    · rw [step, if_pos hdestroy] at h
      cases h
      exact poster_turns True rfl rfl (.die trivial rfl nofun) (fun _ => rfl)
    · rw [step, if_neg hdestroy] at h
      cases h
  | test max =>
    by_cases hui : s.ui = .idle
    · by_cases hfirst : s.queue.first = none
      · simp only [step, hui, hfirst, if_true, Except.ok.injEq] at h
        subst h
        exact ui_turns rfl (.stay rfl (by rw [hui]))
      · simp only [step, hui, hfirst, if_true, if_false, Except.ok.injEq] at h
        subst h
        exact ui_turns rfl (.stay rfl (by rw [hui]; exact Iff.rfl))
    · simp [step, hui] at h
  | goUi => exact goUi_turns h

omit [DecidableEq T] in
theorem Turns.covers {w : Who T} (h : Turns s a s' w) (hcovers : Lock.Covers s.mutex s.Inside) :
    Lock.Covers s'.mutex s'.Inside :=
  h.turn.covers hcovers h.off id

omit [DecidableEq T] in
theorem Turns.guards {w : Who T} (h : Turns s a s' w) (hspares : Spares s a s')
    (hguards : Lock.Guards s.mutex s.Inside) : Lock.Guards s'.mutex s'.Inside := by
  refine h.turn.guards hguards h.off id ?_
  rintro ⟨t, ha, rfl⟩
  exact hspares t ha

def Shape (q : Queue Message) (items : List (Nat × Message)) : Pc → Prop
  | .storeLast msg => Linked q items ∧ ∃ m, q.heap msg = some ⟨m, none⟩
  | .setLast msg => ∃ m, Hung q items msg m
  | .idle | .lock _ | .setNext _ | .unlock | .dead => Linked q items

def State.holder (s : State T) : Pc :=
  match s.mutex with
  | some (.poster t) => s.pc t
  | some .ui | none => .idle

def Pc.posting : Pc → Ui.Pc
  | .lock msg | .setNext msg | .storeLast msg | .setLast msg => .posting msg
  | .idle | .unlock | .dead => .idle

structure State.Inv (s : State T) (items : List (Nat × Message)) : Prop where
  shape : Shape s.queue items s.holder
  posted : Posted s.queue.heap (fun t => (s.pc t).posting) items

variable {items : List (Nat × Message)} {q : Queue Message} {msg : Nat}

theorem posting_update (pc : T → Pc) (t : T) (p : Pc) :
    (fun u => (Function.update pc t p u).posting) =
      Function.update (fun u => (pc u).posting) t p.posting := by
  funext u
  by_cases hu : u = t
  · subst hu
    rw [Function.update_self, Function.update_self]
  · rw [Function.update_of_ne hu, Function.update_of_ne hu]

theorem posted_same {heap : Nat → Option (Node Message)} {pc : T → Pc}
    (h : Posted heap (fun u => (pc u).posting) items) (hp : p.posting = (pc t).posting) :
    Posted heap (fun u => (Function.update pc t p u).posting) items := by
  rw [posting_update, hp]
  rwa [Function.update_eq_self t (fun u => (pc u).posting)]

theorem posted_leave {heap : Nat → Option (Node Message)} {pc : T → Pc}
    (h : Posted heap (fun u => (pc u).posting) items) (hp : p.posting = .idle) :
    Posted heap (fun u => (Function.update pc t p u).posting) items := by
  rw [posting_update, hp]
  exact h.leave (fun _ => nofun)

theorem Shape.allocated (h : Shape q items p) {b : Nat} (hb : b ∈ addresses items) :
    (q.heap b).isSome := by
  cases p with
  | setLast msg =>
    obtain ⟨m, hhung⟩ := h
    have hmem : b ∈ addresses (items ++ [(msg, m)]) := by
      rw [addresses, List.map_append]
      exact List.mem_append_left _ hb
    exact hhung.chain.allocated hmem
  | storeLast msg => exact h.1.chain.allocated hb
  | idle | lock msg | setNext msg | unlock | dead => exact Linked.chain h |>.allocated hb

theorem Shape.write (h : Shape q items p) (hnew : q.heap msg = none)
    (node : Option (Node Message)) : Shape (q.write msg node) items p := by
  have hout : ∀ {items' : List (Nat × Message)}, Chain q.heap q.first items' →
      msg ∉ addresses items' := by
    intro items' hchain hmem
    have hsome := hchain.allocated hmem
    rw [hnew] at hsome
    cases hsome
  cases p with
  | setLast b =>
    obtain ⟨m, hhung⟩ := h
    exact ⟨m, hhung.write (hout hhung.chain) node⟩
  | storeLast b =>
    obtain ⟨hlinked, m, hb⟩ := h
    have hne : b ≠ msg := by
      rintro rfl
      rw [hnew] at hb
      cases hb
    exact ⟨hlinked.write (hout hlinked.chain) node, m, (Function.update_of_ne hne _ _).trans hb⟩
  | idle | lock b | setNext b | unlock | dead => exact Linked.write h (hout h.chain) node

omit [DecidableEq T] in
theorem holder_inside (hguards : Lock.Guards s.mutex s.Inside) (hin : (s.pc t).Inside) :
    s.mutex = some (.poster t) ∧ s.holder = s.pc t := by
  have hmutex : s.mutex = some (.poster t) := (hguards (.poster t)).mpr hin
  exact ⟨hmutex, by simp only [State.holder, hmutex]⟩

theorem holder_move (hmutex : s.mutex = some (.poster t)) : (s.move t p).holder = p := by
  simp only [State.move, State.holder, hmutex, Function.update_self]

theorem holder_off (hguards : Lock.Guards s.mutex s.Inside) (hout : ¬ (s.pc t).Inside)
    (hmutex : s'.mutex = s.mutex) (hpc : s'.pc = Function.update s.pc t p) :
    s'.holder = s.holder := by
  simp only [State.holder, hmutex, hpc]
  cases hholder : s.mutex with
  | none => rfl
  | some w =>
    cases w with
    | ui => rfl
    | poster u =>
      have hut : u ≠ t := by
        rintro rfl
        exact hout ((hguards (.poster u)).mp hholder)
      exact Function.update_of_ne hut _ _

theorem inv_prepare (hguards : Lock.Guards s.mutex s.Inside) (h : s.Inv items)
    (hpc : s.pc t = .idle) (hnew : s.queue.heap msg = none) (node : Node Message) :
    State.Inv ({ s with queue := s.queue.write msg (some node) }.move t (.lock msg)) items := by
  have hholder : State.holder ({ s with queue := s.queue.write msg (some node) }.move t
      (.lock msg)) = s.holder := by
    exact holder_off hguards (by rw [hpc]; nofun) rfl rfl
  have hout : msg ∉ addresses items := by
    intro hmem
    have hsome := h.shape.allocated hmem
    rw [hnew] at hsome
    cases hsome
  refine ⟨?_, ?_⟩
  · rw [hholder]
    exact h.shape.write hnew (some node)
  · simp only [State.move, posting_update]
    exact h.posted.prepare hnew hout node

theorem inv_destroy (hguards : Lock.Guards s.mutex s.Inside) (h : s.Inv items)
    (hout : ¬ (s.pc t).Inside) : (s.move t .dead).Inv items where
  shape := by
    have hholder : (s.move t .dead).holder = s.holder := holder_off hguards hout rfl rfl
    rw [hholder]
    exact h.shape
  posted := posted_leave h.posted rfl

theorem inv_setNext (hguards : Lock.Guards s.mutex s.Inside) (h : s.Inv items)
    (hpc : s.pc t = .setNext msg) : ∃ s', goStep s t = .ok s' ∧ s'.Inv items := by
  obtain ⟨hmutex, hholder⟩ := holder_inside hguards (t := t) (by rw [hpc]; trivial)
  have hlinked : Linked s.queue items := by
    have hshape := h.shape
    rwa [hholder, hpc] at hshape
  obtain ⟨hout, hsome⟩ := h.posted.apart t msg (by simp only [hpc, Pc.posting])
  obtain ⟨node, hnode⟩ := Option.isSome_iff_exists.mp hsome
  obtain ⟨hset, hlinked'⟩ := hlinked.setNext hout hnode
  have hkeep : Posted (s.queue.write msg (some ⟨node.message, none⟩)).heap
      (fun u => (s.pc u).posting) items := by
    refine h.posted.keep (fun u b _ hb hsome => ⟨hb, ?_⟩)
    by_cases hbm : b = msg
    · simp [Queue.write, hbm]
    · simpa [Queue.write, hbm] using hsome
  refine ⟨_, by simp only [goStep, hpc, hset]; rfl, ?_, ?_⟩
  · rw [holder_move (by exact hmutex)]
    exact ⟨hlinked', node.message, Function.update_self _ _ _⟩
  · exact posted_same hkeep (by rw [hpc]; rfl)

theorem inv_storeLast (hguards : Lock.Guards s.mutex s.Inside) (h : s.Inv items)
    (hpc : s.pc t = .storeLast msg) : ∃ s', goStep s t = .ok s' ∧ s'.Inv items := by
  obtain ⟨hmutex, hholder⟩ := holder_inside hguards (t := t) (by rw [hpc]; trivial)
  obtain ⟨hlinked, m, hnode⟩ : Linked s.queue items ∧ ∃ m, s.queue.heap msg = some ⟨m, none⟩ := by
    have hshape := h.shape
    rwa [hholder, hpc] at hshape
  obtain ⟨hout, -⟩ := h.posted.apart t msg (by simp only [hpc, Pc.posting])
  obtain ⟨queue, hstore, hhung, hframe⟩ := hlinked.storeLast hout hnode
  refine ⟨_, by simp only [goStep, hpc, hstore]; rfl, ?_, ?_⟩
  · rw [holder_move (by exact hmutex)]
    exact ⟨m, hhung⟩
  · refine posted_same (h.posted.keep (fun u b _ hb hsome => ⟨hb, ?_⟩)) (by rw [hpc]; rfl)
    exact (hframe b hb).symm ▸ hsome

theorem inv_setLast (hguards : Lock.Guards s.mutex s.Inside) (h : s.Inv items)
    (hpc : s.pc t = .setLast msg) :
    ∃ s', goStep s t = .ok s' ∧ ∃ items', s'.Inv items' := by
  obtain ⟨hmutex, hholder⟩ := holder_inside hguards (t := t) (by rw [hpc]; trivial)
  obtain ⟨m, hhung⟩ : ∃ m, Hung s.queue items msg m := by
    have hshape := h.shape
    rwa [hholder, hpc] at hshape
  have hposts : (fun u => (s.pc u).posting) t = .posting msg := by simp only [hpc, Pc.posting]
  refine ⟨_, by simp only [goStep, hpc]; rfl, items ++ [(msg, m)], ?_, ?_⟩
  · rw [holder_move (by exact hmutex)]
    exact hhung.setLast
  · have hleave := posted_leave (t := t) (p := .unlock) h.posted rfl
    refine hleave.keep (fun u b hu hb hsome => ⟨?_, hsome⟩)
    have hut : u ≠ t := by
      rintro rfl
      simp only [Function.update_self, Pc.posting] at hu
      cases hu
    simp only [Function.update_of_ne hut] at hu
    have hne : b ≠ msg := by
      rintro rfl
      exact hut (h.posted.own u t b hu hposts)
    simp only [addresses, List.map_append, List.mem_append, not_or] at hb ⊢
    exact ⟨hb, by simpa using hne⟩

theorem inv_unlock (hguards : Lock.Guards s.mutex s.Inside) (h : s.Inv items)
    (hpc : s.pc t = .unlock) : ∃ s', goStep s t = .ok s' ∧ s'.Inv items := by
  obtain ⟨hmutex, hholder⟩ := holder_inside hguards (t := t) (by rw [hpc]; trivial)
  have hlinked : Linked s.queue items := by
    have hshape := h.shape
    rwa [hholder, hpc] at hshape
  refine ⟨_, by simp only [goStep, hpc]; rfl, ?_, posted_leave h.posted rfl⟩
  exact hlinked

theorem inv_lock (h : s.Inv items) (hpc : s.pc t = .lock msg) (hfree : s.mutex = none) :
    ∃ s', goStep s t = .ok s' ∧ s'.Inv items := by
  have hlinked : Linked s.queue items := by
    have hshape := h.shape
    rwa [State.holder, hfree] at hshape
  refine ⟨_, by simp only [goStep, hpc, hfree, if_true]; rfl, ?_, ?_⟩
  · rw [holder_move rfl]
    exact hlinked
  · exact posted_same h.posted (by rw [hpc]; rfl)

theorem inv_go (hguards : Lock.Guards s.mutex s.Inside) (h : s.Inv items) (t : T) :
    goStep s t = .error .disabled ∨
      ∃ s', goStep s t = .ok s' ∧ ∃ items', s'.Inv items' := by
  have hsame : (∃ s', goStep s t = .ok s' ∧ s'.Inv items) →
      ∃ s', goStep s t = .ok s' ∧ ∃ items', s'.Inv items' :=
    fun ⟨s', hok, hinv⟩ => ⟨s', hok, items, hinv⟩
  cases hpc : s.pc t with
  | idle | dead => exact .inl (by simp only [goStep, hpc])
  | lock msg =>
    by_cases hfree : s.mutex = none
    · exact .inr (hsame (inv_lock h hpc hfree))
    · exact .inl (by simp only [goStep, hpc, hfree, if_false])
  | setNext msg => exact .inr (hsame (inv_setNext hguards h hpc))
  | storeLast msg => exact .inr (hsame (inv_storeLast hguards h hpc))
  | setLast msg => exact .inr (inv_setLast hguards h hpc)
  | unlock => exact .inr (hsame (inv_unlock hguards h hpc))

omit [DecidableEq T] in
theorem inv_ui (hguards : Lock.Guards s.mutex s.Inside) (h : s.Inv items) :
    uiStep s = .error .disabled ∨ ∃ s', uiStep s = .ok s' ∧ ∃ items', s'.Inv items' := by
  have hlinked : s.ui.Inside → s.mutex = some .ui ∧ Linked s.queue items := by
    intro hin
    have hmutex : s.mutex = some .ui := (hguards .ui).mpr hin
    have hshape := h.shape
    rw [State.holder, hmutex] at hshape
    exact ⟨hmutex, hshape⟩
  cases hui : s.ui with
  | idle => exact .inl (by simp only [uiStep, hui])
  | lock max =>
    by_cases hfree : s.mutex = none
    · have hshape := h.shape
      rw [State.holder, hfree] at hshape
      refine .inr ⟨_, by simp only [uiStep, hui, hfree, if_true]; rfl, items, ?_, ?_⟩
      · exact hshape
      · exact h.posted
    · exact .inl (by simp only [uiStep, hui, hfree, if_false])
  | round max i =>
    obtain ⟨hmutex, hlinked⟩ := hlinked (by rw [hui]; trivial)
    refine .inr ?_
    cases items with
    | nil =>
      have hbody := Ui.flushBody_nil (w := ⟨s.queue, s.displayed, i⟩) hlinked max
      refine ⟨_, by simp only [uiStep, hui, hbody]; rfl, [], ?_, ?_⟩
      · simp only [State.holder, hmutex]
        exact hlinked
      · exact h.posted
    | cons e items =>
      obtain ⟨a, m⟩ := e
      obtain ⟨w, hbody, hlinked', -, hframe⟩ :=
        Ui.flushBody_cons (w := ⟨s.queue, s.displayed, i⟩) hlinked max
      have hposted : Posted w.queue.heap (fun t => (s.pc t).posting) items := by
        refine h.posted.keep (fun u b _ hb hsome => ?_)
        obtain ⟨hout, hsame⟩ := hframe b hb
        exact ⟨hout, hsame.symm ▸ hsome⟩
      rcases hbody with hbody | hbody
      · refine ⟨_, by simp only [uiStep, hui, hbody]; rfl, items, ?_, ?_⟩
        · simp only [State.holder, hmutex]
          exact hlinked'
        · exact hposted
      · refine ⟨_, by simp only [uiStep, hui, hbody]; rfl, items, ?_, ?_⟩
        · simp only [State.holder, hmutex]
          exact hlinked'
        · exact hposted
  | unlock i =>
    obtain ⟨-, hlinked⟩ := hlinked (by rw [hui]; trivial)
    refine .inr ⟨_, by simp only [uiStep, hui]; rfl, items, ?_, ?_⟩
    · exact hlinked
    · exact h.posted

/-- Every step is taken without a fault, and keeps the invariant if it kills nobody inside. -/
theorem step_inv (hguards : Lock.Guards s.mutex s.Inside) (h : s.Inv items) (a : Action T) :
    step s a = .error .disabled ∨
      ∃ s', step s a = .ok s' ∧ (Spares s a s' → ∃ items', s'.Inv items') := by
  have hwhole : ∀ {r : Except Stop (State T)},
      (r = .error .disabled ∨ ∃ s', r = .ok s' ∧ ∃ items', s'.Inv items') →
      r = .error .disabled ∨ ∃ s', r = .ok s' ∧ (Spares s a s' → ∃ items', s'.Inv items') := by
    rintro r (herr | ⟨s', hok, hinv⟩)
    · exact .inl herr
    · exact .inr ⟨s', hok, fun _ => hinv⟩
  cases a with
  | init t =>
    by_cases hpc : s.pc t = .idle
    · exact .inr ⟨_, if_pos hpc, fun _ => ⟨items, h.shape, h.posted⟩⟩
    · exact .inl (if_neg hpc)
  | prepare t msg message =>
    by_cases hprepare : s.pc t = .idle ∧ (s.queue.heap msg).isNone
    · have hnew := Option.isNone_iff_eq_none.mp hprepare.2
      exact .inr ⟨_, if_pos hprepare, fun _ => ⟨items, inv_prepare hguards h hprepare.1 hnew _⟩⟩
    · exact .inl (if_neg hprepare)
  | go t => exact hwhole (inv_go hguards h t)
  | destroy t =>
    by_cases hdestroy : s.asynchronous t ∧ s.pc t ≠ .dead
    · exact .inr ⟨_, if_pos hdestroy,
        fun hspares => ⟨items, inv_destroy hguards h (hspares t rfl)⟩⟩
    · exact .inl (if_neg hdestroy)
  | test max =>
    by_cases hui : s.ui = .idle
    · by_cases hfirst : s.queue.first = none
      · exact .inr ⟨_, (if_pos hui).trans (if_pos hfirst), fun _ => ⟨items, h.shape, h.posted⟩⟩
      · exact .inr ⟨_, (if_pos hui).trans (if_neg hfirst), fun _ => ⟨items, h.shape, h.posted⟩⟩
    · exact .inl (if_neg hui)
  | goUi => exact hwhole (inv_ui hguards h)

structure Whole (s : State T) : Prop where
  guards : Lock.Guards s.mutex s.Inside
  inv : ∃ items, s.Inv items

omit [DecidableEq T] in
theorem whole_initial : Whole (State.initial T) where
  guards := by
    rintro (_ | t)
    · exact iff_of_false nofun nofun
    · exact iff_of_false nofun nofun
  inv := ⟨[], linked_initial,
    { apart := fun _ _ h => nomatch h
      own := fun _ _ _ h => nomatch h }⟩

theorem Whole.step (h : Whole s) (hstep : step s a = .ok s') (hspares : Spares s a s') :
    Whole s' := by
  obtain ⟨items, hinv⟩ := h.inv
  obtain ⟨w, hturns⟩ := step_turns hstep
  refine ⟨hturns.guards hspares h.guards, ?_⟩
  rcases step_inv h.guards hinv a with herr | ⟨s'', hok, hinv'⟩
  · cases herr.symm.trans hstep
  · cases hok.symm.trans hstep
    exact hinv' hspares

theorem Whole.fail (h : Whole s) {e : Stop} (hstep : Kill.step s a = .error e) :
    e = .disabled := by
  obtain ⟨items, hinv⟩ := h.inv
  rcases step_inv h.guards hinv a with herr | ⟨s'', hok, -⟩
  · cases herr.symm.trans hstep
    rfl
  · cases hok.symm.trans hstep

omit [DecidableEq T] in
theorem Whole.safe (h : Whole s) : Safe s where
  living := by
    intro t hmutex hdead
    have hin : (s.pc t).Inside := (h.guards (.poster t)).mp hmutex
    rw [hdead] at hin
    cases hin
  formed := by
    intro hout
    obtain ⟨items, hinv⟩ := h.inv
    have hfree : s.mutex = none := by
      cases hmutex : s.mutex with
      | none => rfl
      | some w => exact absurd ((h.guards w).mp hmutex) (hout w)
    have hshape := hinv.shape
    rw [State.holder, hfree] at hshape
    exact ⟨items, hshape⟩

/-- A thread that is killed inside leaves the mutex locked for good. -/
theorem spares_of_safe (hcovers : Lock.Covers s.mutex s.Inside) (hstep : step s a = .ok s')
    (hsafe : Safe s') : Spares s a s' := by
  rintro t rfl hin
  have hmutex : s.mutex = some (.poster t) := hcovers (.poster t) hin
  by_cases hdestroy : s.asynchronous t ∧ s.pc t ≠ .dead
  · rw [step, if_pos hdestroy] at hstep
    cases hstep
    exact hsafe.living t hmutex (Function.update_self _ _ _)
  · rw [step, if_neg hdestroy] at hstep
    cases hstep

/-- In a run, the mutex and the queue stay as they should if and only if the run kills no thread
between its lock and its unlock; and then no thread goes through a pointer to nothing. -/
theorem kill_safe_iff (T : Type) [DecidableEq T] (actions : List (Action T)) :
    (Transition.Along step (fun _ _ s' => Safe s') (State.initial T) actions ↔
      Transition.Along step Spares (State.initial T) actions) ∧
    (Transition.Along step Spares (State.initial T) actions →
      ∀ f, Transition.exec step (State.initial T) actions ≠ .error (.fault f)) := by
  refine ⟨⟨fun hsafe => ?_, fun hspares => ?_⟩, fun hspares f herr => ?_⟩
  · refine Transition.along_of (I := fun s : State T => Lock.Covers s.mutex s.Inside) ?_ ?_ hsafe
    · intro s a s' hcovers hstep hsafe
      obtain ⟨w, hturns⟩ := step_turns hstep
      exact ⟨hturns.covers hcovers, spares_of_safe hcovers hstep hsafe⟩
    · intro w hin
      exact absurd ((whole_initial.guards w).mpr hin) nofun
  · refine Transition.along_of (I := Whole) (fun s a s' h hstep hspares => ?_) whole_initial
      hspares
    have hwhole := h.step hstep hspares
    exact ⟨hwhole, hwhole.safe⟩
  · have hdisabled : Stop.fault f = .disabled :=
      Transition.exec_error_of_along (I := Whole) (E := fun e => e = .disabled)
        (fun _ _ _ h => h.step) (fun _ _ _ h => h.fail) whole_initial hspares herr
    cases hdisabled

end Run

def killedInside : List (Action Unit) :=
  [.init (), .prepare () 1 [112], .go (), .go (), .go (), .destroy ()]

theorem killedInside_state :
    ∃ s, Transition.exec step (State.initial Unit) killedInside = .ok s ∧
      s.mutex = some (.poster ()) ∧ s.pc () = .dead ∧ ∀ items, ¬ Linked s.queue items := by
  refine ⟨_, rfl, rfl, rfl, fun items h => ?_⟩
  cases items with
  | nil => cases h.chain
  | cons e items =>
    have hlast : lastLink (e :: items) = .head := h.last.symm
    cases hend : (e :: items).getLast? with
    | none => simp at hend
    | some last => simp [lastLink, hend] at hlast

theorem killedInside_not_safe :
    ¬ Transition.Along step (fun _ _ s' => Safe s') (State.initial Unit) killedInside := by
  intro halong
  obtain ⟨s, hexec, hmutex, hdead, -⟩ := killedInside_state
  have hsafe : Safe s :=
    Transition.exec_of_along (I := Safe) (fun _ _ _ _ _ hsafe => hsafe) whole_initial.safe halong
      hexec
  exact hsafe.living () hmutex hdead

end Kill
end Lmap
