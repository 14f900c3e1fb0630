import Lmap.Library.Transition

/-!
The list of the threads, behind a mutex: any number of threads register, destroy, and ask for
the name or the description of one another. A thread takes a step at a time.
-/

set_option autoImplicit false

namespace Lmap
namespace Threads

inductive Stop where
  | disabled
  | exit
  | freed
  deriving DecidableEq, Repr

/-- `struct lmap_thread`; the `pthread_t`s are of a type `T`. -/
structure Thread (T : Type) where
  name : String
  description : String
  id : T
  deriving DecidableEq, Repr

inductive Caller (T : Type) where
  | user
  | registering (id : T) (name desc : String)
  /-- `lmap_thread_destroy`, for an argument of its message. -/
  | argument (id : T)
  | destroying (id : T)
  deriving DecidableEq, Repr

inductive Task (T : Type) where
  | name (caller : Caller T) (id : T)
  | desc (id : T)
  | register (newelem : Nat) (id : T)
  | destroy (id : T)
  deriving DecidableEq, Repr

/-- `lmap_thread_getname` has no `THREADS_LOCK`. -/
def Task.locks {T : Type} : Task T → Bool
  | .name _ _ => false
  | .desc _ | .register _ _ | .destroy _ => true

/-- Where `LIST_FOREACH` is: before the list, or at the test of `current`. -/
inductive Cursor where
  | head
  | node (current : Option Nat)
  deriving DecidableEq, Repr

inductive Pc (T : Type) where
  | idle
  | lock (task : Task T) (locks : task.locks)
  | scan (task : Task T) (cursor : Cursor)
  | edit (task : Task T) (found : Option Nat)
  | unlock (task : Task T) (found : Option Nat)
  | leave (task : Task T) (found : Option Nat)
  | alloc (id : T) (name desc : String)
  | cancel (id : T)
  | join (id : T)
  | dead
  deriving DecidableEq, Repr

structure State (T : Type) where
  pc : T → Pc T
  mutex : Option T
  heap : Nat → Option (Thread T)
  /-- The nodes of the list, by their addresses. -/
  list : List Nat
  cancelled : T → Bool
  result : T → Option String

def State.initial (T : Type) : State T :=
  ⟨fun _ => .idle, none, fun _ => none, [], fun _ => false, fun _ => none⟩

/-- An id that is `none` is `LMAP_SELF`. -/
inductive Action (T : Type) where
  | getname (t : T) (id : Option T)
  | getdesc (t : T) (id : Option T)
  | register (t : T) (id : Option T) (name desc : String)
  | destroy (t : T) (id : T)
  /-- The next step of a thread; `alloc` is what an allocation in it gives. -/
  | go (t : T) (alloc : Option Nat)
  | die (t : T)
  deriving DecidableEq, Repr

section Step

variable {T : Type}

def Task.id : Task T → T
  | .name _ id | .desc id | .register _ id | .destroy id => id

def Task.found (task : Task T) (found : Option Nat) : Pc T :=
  match task with
  | .name _ _ | .desc _ => .unlock task found
  | .register _ _ | .destroy _ => .edit task found

def lmap_thread_getname (caller : Caller T) (t : T) (id : Option T) : Pc T :=
  .scan (.name caller (id.getD t)) .head

def lmap_thread_getdesc (t : T) (id : Option T) : Pc T := .lock (.desc (id.getD t)) rfl

/-- `DEBUG_MSG` is nothing unless the program was built to be debugged. -/
def lmap_thread_register (debug : Bool) (t : T) (id : Option T) (name desc : String) : Pc T :=
  let id := id.getD t
  if debug then lmap_thread_getname (.registering id name desc) t none else .alloc id name desc

def lmap_thread_destroy (debug : Bool) (t id : T) : Pc T :=
  if debug then lmap_thread_getname (.argument id) t (some id) else .cancel id

def Caller.resume (t : T) : Caller T → Pc T
  | .user => .idle
  | .registering id name desc => .alloc id name desc
  | .argument id => lmap_thread_getname (.destroying id) t none
  | .destroying id => .cancel id

/-- The node after `current`; one that is in no list has none. -/
def follow (list : List Nat) (current : Nat) : Option Nat :=
  (list.dropWhile (· != current)).tail.head?

variable [DecidableEq T]

def State.move (s : State T) (t : T) (pc : Pc T) : State T :=
  { s with pc := Function.update s.pc t pc }

def State.free (s : State T) (a : Nat) : State T :=
  { s with heap := Function.update s.heap a none }

def editStep (s : State T) : Task T → Option Nat → State T
  | .register newelem _, some current =>
    { s with list := s.list.replace current newelem }.free current
  | .register newelem _, none => { s with list := newelem :: s.list }
  | .destroy _, some current => { s with list := s.list.erase current }.free current
  | .destroy _, none | .name _ _, _ | .desc _, _ => s

def leaveStep (s : State T) (t : T) : Task T → Option Nat → Except Stop (State T)
  | .name caller _, none =>
    .ok ({ s with result := Function.update s.result t (some "NR_THREAD") }.move t
      (caller.resume t))
  | .name caller _, some current =>
    match s.heap current with
    | none => .error .freed
    | some thread =>
      .ok ({ s with result := Function.update s.result t (some thread.name) }.move t
        (caller.resume t))
  | .desc _, none => .ok ({ s with result := Function.update s.result t (some "") }.move t .idle)
  | .desc _, some current =>
    match s.heap current with
    | none => .error .freed
    | some thread =>
      .ok ({ s with result := Function.update s.result t (some thread.description) }.move t .idle)
  | .register _ _, _ | .destroy _, _ => .ok (s.move t .idle)

def goStep (s : State T) (t : T) (alloc : Option Nat) : Except Stop (State T) :=
  match s.pc t with
  | .idle | .dead => .error .disabled
  | .lock task _ =>
    if s.mutex = none then .ok ({ s with mutex := some t }.move t (.scan task .head))
    else .error .disabled
  | .scan task .head => .ok (s.move t (.scan task (.node s.list.head?)))
  | .scan task (.node none) => .ok (s.move t (task.found none))
  | .scan task (.node (some current)) =>
    match s.heap current with
    | none => .error .freed
    | some thread =>
      if thread.id = task.id then .ok (s.move t (task.found (some current)))
      else .ok (s.move t (.scan task (.node (follow s.list current))))
  | .edit task found => .ok ((editStep s task found).move t (.unlock task found))
  | .unlock task found => .ok ({ s with mutex := none }.move t (.leave task found))
  | .leave task found => leaveStep s t task found
  | .alloc id name desc =>
    match alloc with
    | none => .error .exit
    | some newelem =>
      if s.heap newelem = none then
        .ok ({ s with heap := Function.update s.heap newelem (some ⟨name, desc, id⟩) }.move t
          (.lock (.register newelem id) rfl))
      else .error .disabled
  | .cancel id =>
    .ok ({ s with cancelled := Function.update s.cancelled id true }.move t (.join id))
  -- a thread that joins itself is told so at once
  | .join id =>
    if s.pc id = .dead ∨ id = t then .ok (s.move t (.lock (.destroy id) rfl)) else .error .disabled

def State.call (s : State T) (t : T) (pc : Pc T) : Except Stop (State T) :=
  if s.pc t = .idle then .ok (s.move t pc) else .error .disabled

/-- A cancelled thread can end at any step that it comes to. -/
def step (debug : Bool) (s : State T) : Action T → Except Stop (State T)
  | .getname t id => s.call t (lmap_thread_getname .user t id)
  | .getdesc t id => s.call t (lmap_thread_getdesc t id)
  | .register t id name desc => s.call t (lmap_thread_register debug t id name desc)
  | .destroy t id => s.call t (lmap_thread_destroy debug t id)
  | .go t alloc => goStep s t alloc
  | .die t =>
    if s.cancelled t ∧ s.pc t ≠ .dead then .ok (s.move t .dead) else .error .disabled

end Step

section Discipline

variable {T : Type}

/-- Between `THREADS_LOCK` and `THREADS_UNLOCK`. -/
def Pc.Inside : Pc T → Prop
  | .scan task _ | .edit task _ | .unlock task _ => task.locks
  | .idle | .lock _ _ | .leave _ _ | .alloc _ _ _ | .cancel _ | .join _ | .dead => False

instance (p : Pc T) : Decidable p.Inside :=
  match p with
  | .scan task _ | .edit task _ | .unlock task _ => inferInstanceAs (Decidable (task.locks = true))
  | .idle | .lock _ _ | .leave _ _ | .alloc _ _ _ | .cancel _ | .join _ | .dead =>
    inferInstanceAs (Decidable False)

def Unlocks (s : State T) (a : Action T) (t : T) (task : Task T) : Prop :=
  (∃ alloc, a = .go t alloc) ∧ ∃ found, s.pc t = .unlock task found

variable [DecidableEq T] {s s' : State T} {a : Action T} {t : T} {p : Pc T}

omit [DecidableEq T] in
theorem found_inside (task : Task T) (found : Option Nat) :
    (task.found found).Inside ↔ task.locks := by
  cases task with
  | name caller id | desc id | register newelem id | destroy id => exact Iff.rfl

omit [DecidableEq T] in
theorem resume_outside (caller : Caller T) (t : T) : ¬ (caller.resume t).Inside := by
  cases caller with
  | user | registering id name desc | argument id | destroying id => exact nofun

omit [DecidableEq T] in
theorem editStep_frame (s : State T) (task : Task T) (found : Option Nat) :
    (editStep s task found).mutex = s.mutex ∧ (editStep s task found).pc = s.pc := by
  cases task with
  | name caller id | desc id => exact ⟨rfl, rfl⟩
  | register newelem id | destroy id =>
    cases found with
    | none => exact ⟨rfl, rfl⟩
    | some current => exact ⟨rfl, rfl⟩

structure Turns (s : State T) (a : Action T) (s' : State T) (t : T) (p : Pc T) : Prop where
  alive : s.pc t ≠ .dead
  pc : s'.pc = Function.update s.pc t p
  turn : Lock.Turn s.mutex s'.mutex t (s.pc t).Inside p.Inside (∃ task, Unlocks s a t task)
    (p = .dead)

theorem turns_stay (hpc : s.pc t ≠ .dead) (hs : s'.pc = Function.update s.pc t p)
    (hmutex : s'.mutex = s.mutex) (hin : p.Inside ↔ (s.pc t).Inside) :
    ∃ t p, Turns s a s' t p :=
  ⟨t, p, hpc, hs, .stay hmutex hin⟩

theorem call_turns (h : s.call t p = .ok s') (hout : ¬ p.Inside) : ∃ t p, Turns s a s' t p := by
  by_cases hpc : s.pc t = .idle
  · simp only [State.call, hpc, if_true, Except.ok.injEq] at h
    subst h
    exact turns_stay (t := t) (by rw [hpc]; nofun) rfl rfl (iff_of_false hout (by rw [hpc]; nofun))
  · simp [State.call, hpc] at h

theorem leave_turns {task : Task T} {found : Option Nat} (hpc : s.pc t = .leave task found)
    (h : leaveStep s t task found = .ok s') : ∃ t p, Turns s a s' t p := by
  have halive : s.pc t ≠ .dead := by rw [hpc]; nofun
  have hstay : ∀ {s'' : State T} {p : Pc T}, s''.pc = Function.update s.pc t p →
      s''.mutex = s.mutex → ¬ p.Inside → ∃ t p, Turns s a s'' t p :=
    fun hs hmutex hout =>
      turns_stay halive hs hmutex (iff_of_false hout (by rw [hpc]; nofun))
  cases task with
  | name caller id =>
    cases found with
    | none =>
      cases h
      exact hstay rfl rfl (resume_outside caller t)
    | some current =>
      cases hnode : s.heap current with
      | none => simp [leaveStep, hnode] at h
      | some thread =>
        simp only [leaveStep, hnode, Except.ok.injEq] at h
        subst h
        exact hstay rfl rfl (resume_outside caller t)
  | desc id =>
    cases found with
    | none =>
      cases h
      exact hstay rfl rfl nofun
    | some current =>
      cases hnode : s.heap current with
      | none => simp [leaveStep, hnode] at h
      | some thread =>
        simp only [leaveStep, hnode, Except.ok.injEq] at h
        subst h
        exact hstay rfl rfl nofun
  | register newelem id | destroy id =>
    cases h
    exact hstay rfl rfl nofun

theorem scan_turns {task : Task T} {cursor : Cursor} (hpc : s.pc t = .scan task cursor)
    {alloc : Option Nat} (h : goStep s t alloc = .ok s') : ∃ t p, Turns s a s' t p := by
  have halive : s.pc t ≠ .dead := by rw [hpc]; nofun
  have hside : (s.pc t).Inside ↔ task.locks := by rw [hpc]; exact Iff.rfl
  have hfound : ∀ found, (task.found found).Inside ↔ (s.pc t).Inside :=
    fun found => (found_inside task found).trans hside.symm
  cases cursor with
  | head =>
    simp only [goStep, hpc, Except.ok.injEq] at h
    subst h
    exact turns_stay halive rfl rfl hside.symm
  | node current =>
    cases current with
    | none =>
      simp only [goStep, hpc, Except.ok.injEq] at h
      subst h
      exact turns_stay halive rfl rfl (hfound none)
    | some current =>
      cases hnode : s.heap current with
      | none => simp [goStep, hpc, hnode] at h
      | some thread =>
        by_cases hid : thread.id = task.id
        · simp only [goStep, hpc, hnode, hid, if_true, Except.ok.injEq] at h
          subst h
          exact turns_stay halive rfl rfl (hfound (some current))
        · simp only [goStep, hpc, hnode, hid, if_false, Except.ok.injEq] at h
          subst h
          exact turns_stay halive rfl rfl hside.symm

theorem go_turns {alloc : Option Nat} (h : goStep s t alloc = .ok s') :
    ∃ u p, Turns s (.go t alloc) s' u p := by
  cases hpc : s.pc t with
  | idle | dead => simp [goStep, hpc] at h
  | lock task locks =>
    by_cases hfree : s.mutex = none
    · simp only [goStep, hpc, hfree, if_true, Except.ok.injEq] at h
      subst h
      exact ⟨t, _, by rw [hpc]; nofun, rfl, .lock hfree rfl locks⟩
    · simp [goStep, hpc, hfree] at h
  | scan task cursor => exact scan_turns hpc h
  | edit task found =>
    simp only [goStep, hpc, Except.ok.injEq] at h
    subst h
    obtain ⟨hmutex, hpcs⟩ := editStep_frame s task found
    refine turns_stay (t := t) (p := .unlock task found) (by rw [hpc]; nofun) ?_ hmutex ?_
    · simp only [State.move, hpcs]
    · rw [hpc]
      exact Iff.rfl
  | unlock task found =>
    simp only [goStep, hpc, Except.ok.injEq] at h
    subst h
    exact ⟨t, _, by rw [hpc]; nofun, rfl,
      .unlock ⟨task, ⟨alloc, rfl⟩, found, hpc⟩ rfl nofun⟩
  | leave task found =>
    simp only [goStep, hpc] at h
    exact leave_turns hpc h
  | alloc id name desc =>
    cases alloc with
    | none => simp [goStep, hpc] at h
    | some newelem =>
      by_cases hnew : s.heap newelem = none
      · simp only [goStep, hpc, hnew, if_true, Except.ok.injEq] at h
        subst h
        exact turns_stay (by rw [hpc]; nofun) rfl rfl (by rw [hpc]; exact Iff.rfl)
      · simp [goStep, hpc, hnew] at h
  | cancel id =>
    simp only [goStep, hpc, Except.ok.injEq] at h
    subst h
    exact turns_stay (by rw [hpc]; nofun) rfl rfl (by rw [hpc]; exact Iff.rfl)
  | join id =>
    by_cases hjoin : s.pc id = .dead ∨ id = t
    · simp only [goStep, hpc, hjoin, if_true, Except.ok.injEq] at h
      subst h
      exact turns_stay (by rw [hpc]; nofun) rfl rfl (by rw [hpc]; exact Iff.rfl)
    · simp [goStep, hpc, hjoin] at h

theorem step_turns {debug : Bool} (h : step debug s a = .ok s') : ∃ t p, Turns s a s' t p := by
  cases a with
  | getname t id => exact call_turns h nofun
  | getdesc t id => exact call_turns h nofun
  | register t id name desc =>
    cases debug with
    | true => exact call_turns h nofun
    | false => exact call_turns h nofun
  | destroy t id =>
    cases debug with
    | true => exact call_turns h nofun
    | false => exact call_turns h nofun
  | go t alloc => exact go_turns h
  | die t =>
    by_cases hdie : s.cancelled t ∧ s.pc t ≠ .dead
    · rw [step, if_pos hdie] at h
      cases h
      exact ⟨t, .dead, hdie.2, rfl, .die rfl rfl nofun⟩
    · simp [step, hdie] at h

/-- The mutex is unlocked by its holder, and no two threads are inside. -/
structure Disciplined (s : State T) (a : Action T) (s' : State T) : Prop where
  owner : ∀ t task, Unlocks s a t task → s.mutex = some t
  alone : ∀ t u, (s'.pc t).Inside → (s'.pc u).Inside → t = u

def Unnamed (s : State T) (a : Action T) (_ : State T) : Prop :=
  ∀ t caller id, ¬ Unlocks s a t (.name caller id)

theorem Turns.off (h : Turns s a s' t p) {u : T} (hu : u ≠ t) : s'.pc u = s.pc u := by
  rw [h.pc, Function.update_of_ne hu]

theorem Turns.on (h : Turns s a s' t p) : s'.pc t = p := by rw [h.pc, Function.update_self]

omit [DecidableEq T] in
theorem Unnamed.inside {task : Task T} (h : Unnamed s a s') (hunlocks : Unlocks s a t task) :
    (s.pc t).Inside := by
  obtain ⟨found, hpc⟩ := hunlocks.2
  rw [hpc]
  cases task with
  | name caller id => exact absurd hunlocks (h t caller id)
  | desc id | register newelem id | destroy id => rfl

theorem Turns.covers (h : Turns s a s' t p) (hunnamed : Unnamed s a s')
    (hcovers : Lock.Covers s.mutex (fun t => (s.pc t).Inside)) :
    Lock.Covers s'.mutex (fun t => (s'.pc t).Inside) := by
  have hturn := h.turn
  rw [← h.on] at hturn
  refine hturn.covers hcovers (fun u hu => by rw [h.off hu]) ?_
  rintro ⟨task, hunlocks⟩
  exact hunnamed.inside hunlocks

/-- The holder of the mutex is inside, or it is dead. -/
def Kept (s : State T) : Prop := ∀ t, s.mutex = some t → (s.pc t).Inside ∨ s.pc t = .dead

theorem Turns.kept (h : Turns s a s' t p) (hkept : Kept s) : Kept s' := by
  intro u hu
  have hoff : ∀ v, v ≠ t → s.mutex = some v → (s'.pc v).Inside ∨ s'.pc v = .dead := by
    intro v hv hmutex
    rw [h.off hv]
    exact hkept v hmutex
  cases h.turn with
  | lock hfree hmutex hin =>
    obtain rfl := Option.some.inj (hmutex.symm.trans hu)
    exact .inl (h.on ▸ hin)
  | unlock _ hmutex _ => cases hmutex.symm.trans hu
  | stay hmutex hin =>
    rw [hmutex] at hu
    by_cases hut : u = t
    · subst hut
      rw [h.on]
      exact .inl (hin.mpr ((hkept u hu).resolve_right h.alive))
    · exact hoff u hut hu
  | die hp hmutex _ =>
    rw [hmutex] at hu
    by_cases hut : u = t
    · subst hut
      exact .inr (h.on.trans hp)
    · exact hoff u hut hu

omit [DecidableEq T] in
theorem Kept.unnamed (hkept : Kept s) (h : Disciplined s a s') : Unnamed s a s' := by
  intro t caller id hunlocks
  have hholder := hkept t (h.owner t _ hunlocks)
  obtain ⟨_, found, hpc⟩ := hunlocks
  rw [hpc] at hholder
  rcases hholder with hin | hdead
  · cases hin
  · cases hdead

/-- The list is guarded along a run if and only if no `lmap_thread_getname` of the run comes to
its unlock. -/
theorem lock_discipline_iff (T : Type) [DecidableEq T] (debug : Bool)
    (actions : List (Action T)) :
    Transition.Along (step debug) Disciplined (State.initial T) actions ↔
      Transition.Along (step debug) Unnamed (State.initial T) actions := by
  constructor
  · refine Transition.along_of (I := Kept) ?_ ?_
    · intro s a s' hkept hstep hdisciplined
      obtain ⟨t, p, hturns⟩ := step_turns hstep
      exact ⟨hturns.kept hkept, hkept.unnamed hdisciplined⟩
    · exact fun _ => nofun
  · refine Transition.along_of
      (I := fun s : State T => Lock.Covers s.mutex (fun t => (s.pc t).Inside)) ?_ ?_
    · intro s a s' hcovers hstep hunnamed
      obtain ⟨t, p, hturns⟩ := step_turns hstep
      have hcovers' := hturns.covers hunnamed hcovers
      exact ⟨hcovers', fun t task h => hcovers t (hunnamed.inside h),
        fun t u ht hu => hcovers'.unique ht hu⟩
    · exact fun _ => nofun

end Discipline

def nameInside : List (Action (Fin 3)) :=
  [.getdesc 0 none, .go 0 none,
    .getname 1 none, .go 1 none, .go 1 none, .go 1 none, .go 1 none,
    .register 2 none "probe" "", .go 2 (some 1), .go 2 none]

theorem nameInside_two :
    ∃ s, Transition.exec (step false) (State.initial (Fin 3)) nameInside = .ok s ∧
      (s.pc 0).Inside ∧ (s.pc 2).Inside :=
  ⟨_, rfl, rfl, rfl⟩

theorem nameInside_not_disciplined :
    ¬ Transition.Along (step false) Disciplined (State.initial (Fin 3)) nameInside := by
  intro halong
  obtain ⟨s, hexec, h0, h2⟩ := nameInside_two
  have hout : ∀ t, ¬ ((State.initial (Fin 3)).pc t).Inside := fun _ => nofun
  have halone : ∀ t u, (s.pc t).Inside → (s.pc u).Inside → t = u :=
    Transition.exec_of_along
      (I := fun s : State (Fin 3) => ∀ t u, (s.pc t).Inside → (s.pc u).Inside → t = u)
      (fun _ _ _ _ _ h => h.alone) (fun t _ ht => absurd ht (hout t)) halong hexec
  exact absurd (halone 0 2 h0 h2) (by decide)

end Threads
end Lmap
