import Lmap.RecursiveMutex

/-!
The lock that cannot allocate its entry. It returns with the list locked, and nobody comes
into the list after it.
-/

set_option autoImplicit false

namespace Lmap
namespace RecursiveMutex

section Turns

variable {T M : Type} {s s' : State T M} {t u : T}

structure ListTurn (s s' : State T M) (t : T) : Prop where
  turn : Lock.Turn s.listMx s'.listMx t (s.pc t).InList (s'.pc t).InList (s.pc t).InList
    (s.pc t).InList
  others : ∀ u, u ≠ t → s'.pc u = s.pc u

def State.Covered (s : State T M) : Prop := Lock.Covers s.listMx (fun u => (s.pc u).InList)

/-- The list is locked, and no thread is at a place from where it would be unlocked. -/
structure Stuck (s : State T M) (t : T) : Prop where
  locked : s.listMx = some t
  outside : ∀ u, ¬ (s.pc u).InList

theorem ListTurn.covered (h : ListTurn s s' t) (hs : s.Covered) : s'.Covered :=
  h.turn.covers hs (fun u hu => by rw [h.others u hu]) id

theorem ListTurn.not_locked (h : ListTurn s s' t) (hne : t ≠ u)
    (hs : s.listMx ≠ some u) : s'.listMx ≠ some u := by
  cases h.turn with
  | lock _ hholder _ =>
    rw [hholder]
    exact fun heq => hne (Option.some.inj heq)
  | unlock _ hholder _ =>
    rw [hholder]
    nofun
  | stay hholder _ | die _ hholder _ =>
    rw [hholder]
    exact hs

theorem ListTurn.locked (h : ListTurn s s' t) (hne : t ≠ u) (hs : s.Covered)
    (hlocked : s.listMx = some u) : s'.listMx = some u := by
  cases h.turn with
  | lock hfree _ _ =>
    rw [hfree] at hlocked
    cases hlocked
  | unlock hin _ _ =>
    have ht := hs t hin
    rw [hlocked] at ht
    exact absurd (Option.some.inj ht).symm hne
  | stay hholder _ | die _ hholder _ => rw [hholder, hlocked]

theorem ListTurn.stuck (h : ListTurn s s' t) (hs : Stuck s u) : Stuck s' u := by
  cases h.turn with
  | lock hfree _ _ =>
    rw [hs.locked] at hfree
    cases hfree
  | unlock hin _ _ | die hin _ _ => exact absurd hin (hs.outside t)
  | stay hholder hin =>
    refine ⟨hholder.trans hs.locked, fun v hv => ?_⟩
    by_cases hvt : v = t
    · subst hvt
      exact hs.outside v (hin.mp hv)
    · rw [h.others v hvt] at hv
      exact hs.outside v hv

variable [DecidableEq T]

theorem listTurn_move {p : Pc M} {s₀ : State T M} (hpc : s₀.pc = s.pc)
    (hturn : Lock.Turn s.listMx s₀.listMx t (s.pc t).InList p.InList (s.pc t).InList
      (s.pc t).InList) : ListTurn s (s₀.move t p) t where
  turn := by
    have hp : (s₀.move t p).pc t = p := by simp [State.move]
    rw [hp]
    exact hturn
  others := by
    intro u hu
    rw [← hpc]
    exact Function.update_of_ne hu p s₀.pc

theorem call_listTurn {p : Pc M} (hpc : s.pc t = .idle) (hp : ¬ p.InList) :
    ListTurn s (s.move t p) t :=
  listTurn_move rfl (.stay rfl (iff_of_false hp (by rw [hpc]; nofun)))

variable [DecidableEq M] {longBits : Nat}

theorem go_listTurn {malloc : Bool} (hgo : goStep longBits s t malloc = .ok s') :
    ListTurn s s' t := by
  cases hpc : s.pc t with
  | idle => simp [goStep, hpc] at hgo
  | lock m | unlock m =>
    by_cases hfree : s.listMx = none
    · simp only [goStep, hpc, hfree, if_true, Except.ok.injEq] at hgo
      subst hgo
      exact listTurn_move rfl (.lock hfree rfl trivial)
    · simp [goStep, hpc, hfree] at hgo
  | lockSearch m =>
    have hin : (s.pc t).InList := by
      rw [hpc]
      trivial
    cases hcount : countUp longBits m t s.list with
    | some list =>
      simp only [goStep, hpc, hcount, Except.ok.injEq] at hgo
      subst hgo
      exact listTurn_move rfl (.stay rfl (iff_of_true trivial hin))
    | none =>
      cases malloc with
      | true =>
        simp only [goStep, hpc, hcount, if_true, Except.ok.injEq] at hgo
        subst hgo
        exact listTurn_move rfl (.stay rfl (iff_of_true trivial hin))
      | false =>
        simp only [goStep, hpc, hcount, Bool.false_eq_true, if_false, Except.ok.injEq] at hgo
        subst hgo
        exact listTurn_move rfl (.die hin rfl not_false)
  | lockAgain m | lockFirst m | unlockDone =>
    simp only [goStep, hpc, Except.ok.injEq] at hgo
    subst hgo
    exact listTurn_move rfl (.unlock (by rw [hpc]; trivial) rfl not_false)
  | wait m =>
    by_cases hfree : s.mutex m = none
    · simp only [goStep, hpc, hfree, if_true, Except.ok.injEq] at hgo
      subst hgo
      exact listTurn_move rfl (.stay rfl (iff_of_false not_false (by rw [hpc]; exact not_false)))
    · simp [goStep, hpc, hfree] at hgo
  | unlockSearch m =>
    have hin : (s.pc t).InList := by
      rw [hpc]
      trivial
    simp only [goStep, hpc, Except.ok.injEq] at hgo
    subst hgo
    refine listTurn_move rfl (.stay rfl (iff_of_true ?_ hin))
    split <;> trivial
  | release m =>
    simp only [goStep, hpc, Except.ok.injEq] at hgo
    subst hgo
    exact listTurn_move rfl (.stay rfl (iff_of_true trivial (by rw [hpc]; trivial)))

def Action.thread : Action T M → T
  | .callLock t _ | .callUnlock t _ | .go t _ => t

theorem step_listTurn {a : Action T M} (hstep : step longBits s a = .ok s') :
    ListTurn s s' a.thread := by
  cases a with
  | callLock t m | callUnlock t m =>
    by_cases hpc : s.pc t = .idle
    · simp only [step, hpc, if_true, Except.ok.injEq] at hstep
      subst hstep
      exact call_listTurn hpc not_false
    · simp [step, hpc] at hstep
  | go t malloc => exact go_listTurn hstep

end Turns

section Failed

variable {T M : Type} [DecidableEq T] [DecidableEq M]

/-- Also in runs with allocations that fail. -/
def Reachable (longBits : Nat) (s : State T M) : Prop :=
  ∃ as, Transition.exec (step longBits) (State.initial T M) as = .ok s

/-- One call of `recursive_mutex_lock`, from `s` to its return: what the other threads do until
it has the list, and from there to its failed allocation. Only with -1 it returns from the
search. -/
structure FailedLock (longBits : Nat) (s : State T M) (t : T) (m : M)
    (before during : List (Action T M)) (s' : State T M) : Prop where
  before_other : ∀ a ∈ before, a.thread ≠ t
  during_other : ∀ a ∈ during, a.thread ≠ t
  run : Transition.exec (step longBits) s
    (.callLock t m :: (before ++ .go t true :: (during ++ [.go t false]))) = .ok s'
  failed : s'.pc t = .idle

/-- `s'` is as `r` for every later lock or unlock. -/
structure LeftFree (longBits : Nat) (m : M) (r s' : State T M) : Prop where
  list : s'.list = r.list
  mutex : s'.mutex m = r.mutex m
  listMx : s'.listMx = r.listMx
  later : ∀ as, Transition.exec (step longBits) s' as = Transition.exec (step longBits) r as

variable {longBits : Nat} {s s' : State T M} {t : T} {m : M} {as : List (Action T M)}

theorem Reachable.covered (h : Reachable longBits s) : s.Covered := by
  obtain ⟨as, hrun⟩ := h
  exact Transition.exec_invariant (fun _ _ _ hs hstep => (step_listTurn hstep).covered hs)
    (fun u hin => by simp [State.initial, Pc.InList] at hin) hrun

structure Undisturbed (s s' : State T M) (t : T) : Prop where
  pc : s'.pc t = s.pc t
  locked : s.listMx = some t → s'.listMx = some t
  not_locked : s.listMx ≠ some t → s'.listMx ≠ some t

theorem exec_others (hs : s.Covered) (hother : ∀ a ∈ as, a.thread ≠ t)
    (hrun : Transition.exec (step longBits) s as = .ok s') :
    s'.Covered ∧ Undisturbed s s' t := by
  induction as generalizing s with
  | nil =>
    cases hrun
    exact ⟨hs, rfl, id, id⟩
  | cons a as ih =>
    have hne : a.thread ≠ t := hother a List.mem_cons_self
    obtain ⟨s₁, hstep, hrest⟩ := Transition.exec_cons_ok hrun
    have hturn := step_listTurn hstep
    obtain ⟨hcovered, hsame⟩ := ih (hturn.covered hs)
      (fun b hb => hother b (List.mem_cons_of_mem a hb)) hrest
    exact ⟨hcovered, hsame.pc.trans (hturn.others t hne.symm),
      fun hlocked => hsame.locked (hturn.locked hne hs hlocked),
      fun hnot => hsame.not_locked (hturn.not_locked hne hnot)⟩

theorem Stuck.exec (h : Stuck s t) (hrun : Transition.exec (step longBits) s as = .ok s') :
    Stuck s' t :=
  Transition.exec_invariant (fun _ _ _ hs hstep => (step_listTurn hstep).stuck hs) h hrun

/-- The calls wait for the list, and there they stay. -/
theorem Stuck.blocked (h : Stuck s t) {u : T} {k : M} {malloc : Bool}
    (hpc : s.pc u = .lock k ∨ s.pc u = .unlock k) :
    step longBits s (.go u malloc) = .error () := by
  have hlocked := h.locked
  rcases hpc with hpc | hpc
  · simp [step, goStep, hpc, hlocked]
  · simp [step, goStep, hpc, hlocked]

theorem lock_ok {malloc : Bool} (hpc : s.pc t = .lock m)
    (h : step longBits s (.go t malloc) = .ok s') :
    s.listMx = none ∧ s'.listMx = some t ∧ s'.pc t = .lockSearch m := by
  by_cases hfree : s.listMx = none
  · simp only [step, goStep, hpc, hfree, if_true, Except.ok.injEq] at h
    subst h
    exact ⟨hfree, rfl, by simp [State.move]⟩
  · simp [step, goStep, hpc, hfree] at h

theorem lockSearch_failed (hpc : s.pc t = .lockSearch m)
    (h : step longBits s (.go t false) = .ok s') (hfailed : s'.pc t = .idle) :
    s' = s.move t .idle := by
  cases hcount : countUp longBits m t s.list with
  | some list =>
    simp only [step, goStep, hpc, hcount, Except.ok.injEq] at h
    subst h
    simp [State.move] at hfailed
  | none =>
    simp only [step, goStep, hpc, hcount, Bool.false_eq_true, if_false, Except.ok.injEq] at h
    exact h.symm

variable {before during : List (Action T M)}

theorem FailedLock.stuck (h : FailedLock longBits s t m before during s') (hs : s.Covered) :
    s.listMx ≠ some t ∧ Stuck s' t := by
  obtain ⟨s₁, hcall, hrun⟩ := Transition.exec_cons_ok h.run
  obtain ⟨s₂, hbefore, hrun⟩ := Transition.exec_append_ok hrun
  obtain ⟨s₃, hlock, hrun⟩ := Transition.exec_cons_ok hrun
  obtain ⟨s₄, hduring, hrun⟩ := Transition.exec_append_ok hrun
  obtain ⟨s₅, hlast, hend⟩ := Transition.exec_cons_ok hrun
  cases hend
  have hs₁ : s₁ = s.move t (.lock m) := by
    by_cases hpc : s.pc t = .idle
    · simpa [step, hpc, eq_comm] using hcall
    · simp [step, hpc] at hcall
  have hpc₁ : s₁.pc t = .lock m := by simp [hs₁, State.move]
  obtain ⟨hcovered₂, hsame₂⟩ :=
    exec_others ((step_listTurn hcall).covered hs) h.before_other hbefore
  obtain ⟨hfree, hlocked₃, hpc₃⟩ := lock_ok (hsame₂.pc.trans hpc₁) hlock
  obtain ⟨hcovered₄, hsame₄⟩ :=
    exec_others ((step_listTurn hlock).covered hcovered₂) h.during_other hduring
  have hlocked₄ := hsame₄.locked hlocked₃
  have hs' := lockSearch_failed (hsame₄.pc.trans hpc₃) hlast h.failed
  constructor
  · intro hlocked
    have hlocked₁ : s₁.listMx = some t := by simpa [hs₁, State.move] using hlocked
    rw [hsame₂.locked hlocked₁] at hfree
    cases hfree
  · refine ⟨by rw [hs']; exact hlocked₄, fun u hu => ?_⟩
    by_cases hut : u = t
    · subst hut
      rw [h.failed] at hu
      exact hu
    · rw [(step_listTurn hlast).others u hut] at hu
      have hholder := hcovered₄ u hu
      rw [hlocked₄] at hholder
      exact hut (Option.some.inj hholder).symm

/-- After the call everything is as the other threads alone would have left it. -/
def LeavesFree (longBits : Nat) (s : State T M) (m : M) (others : List (Action T M))
    (s' : State T M) : Prop :=
  ∃ r, Transition.exec (step longBits) s others = .ok r ∧ LeftFree longBits m r s'

/-- No call that cannot allocate its entry leaves things as they were: it keeps the list
locked, and no later lock or unlock of any thread comes further than to its lock. -/
theorem failedLock_never (hreach : Reachable longBits s)
    (h : FailedLock longBits s t m before during s') :
    ¬ LeavesFree longBits s m (before ++ during) s' ∧
      ∀ as s'', Transition.exec (step longBits) s' as = .ok s'' → Stuck s'' t ∧
        ∀ u k malloc, s''.pc u = .lock k ∨ s''.pc u = .unlock k →
          step longBits s'' (.go u malloc) = .error () := by
  obtain ⟨hnot, hstuck⟩ := h.stuck hreach.covered
  constructor
  · rintro ⟨r, hothers, hfree⟩
    have hother : ∀ a ∈ before ++ during, a.thread ≠ t := by
      intro a ha
      rcases List.mem_append.mp ha with hb | hd
      · exact h.before_other a hb
      · exact h.during_other a hd
    have hr := (exec_others hreach.covered hother hothers).2.not_locked hnot
    rw [← hfree.listMx] at hr
    exact hr hstuck.locked
  · intro as s'' hrun
    have hlater := hstuck.exec hrun
    exact ⟨hlater, fun _ _ _ hpc => hlater.blocked hpc⟩

end Failed

def failing : State Bool Bool :=
  { State.initial Bool Bool with
    pc := Function.update (Function.update (Function.update (Function.update
      (fun _ => .idle) false (.lock true)) true (.lock true)) false (.lockSearch true)) false .idle
    listMx := some false }

theorem failedLock_failing :
    FailedLock 32 (State.initial Bool Bool) false true [.callLock true true] [] failing where
  before_other := by decide
  during_other := nofun
  run := rfl
  failed := rfl

theorem failedLock_never_failing :
    ¬ LeavesFree 32 (State.initial Bool Bool) true [.callLock true true] failing ∧
      ∀ as s'', Transition.exec (step 32) failing as = .ok s'' → Stuck s'' false ∧
        ∀ u k malloc, s''.pc u = .lock k ∨ s''.pc u = .unlock k →
          step 32 s'' (.go u malloc) = .error () :=
  failedLock_never ⟨[], rfl⟩ failedLock_failing

/-- From the first state there is: the list is free before the call, and not after it. -/
theorem not_leavesFree_failing : ¬ ∀ (s s' : State Bool Bool) (t m : Bool)
    (before during : List (Action Bool Bool)), Reachable 32 s →
      FailedLock 32 s t m before during s' → LeavesFree 32 s m (before ++ during) s' := by
  intro hall
  obtain ⟨r, hothers, hfree⟩ := hall _ _ _ _ _ _ ⟨[], rfl⟩ failedLock_failing
  cases hothers
  exact absurd hfree.listMx (by decide)

end RecursiveMutex
end Lmap
