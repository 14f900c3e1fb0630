import Lmap.Library.Transition
import Mathlib.Algebra.Group.Nat.Defs

/-!
Recursive mutexes, made of a list of who has locked what and how often, of plain mutexes,
and of one more mutex for the list.
-/

set_option autoImplicit false

namespace Lmap
namespace RecursiveMutex

inductive Pc (M : Type) where
  | idle
  /-- `pthread_mutex_lock (&recursive_mutex_list_mx)`. -/
  | lock (m : M)
  /-- The search for an entry of its own, with the list locked. -/
  | lockSearch (m : M)
  /-- `pthread_mutex_unlock (&recursive_mutex_list_mx)`, and the return. -/
  | lockAgain (m : M)
  /-- The same, with the mutex itself still to be locked. -/
  | lockFirst (m : M)
  | wait (m : M)
  | unlock (m : M)
  | unlockSearch (m : M)
  | release (m : M)
  | unlockDone
  deriving DecidableEq, Repr

structure Entry (T M : Type) where
  mx : M
  id : T
  count : Nat
  deriving DecidableEq, Repr

structure State (T M : Type) where
  pc : T → Pc M
  listMx : Option T
  list : List (Entry T M)
  mutex : M → Option T
  /-- The calls of `recursive_mutex_lock` that have returned. -/
  returned : T × M → Nat
  /-- The calls of `recursive_mutex_unlock` that took one of them back. -/
  unlocked : T × M → Nat

def State.initial (T M : Type) : State T M :=
  ⟨fun _ => .idle, none, [], fun _ => none, fun _ => 0, fun _ => 0⟩

inductive Action (T M : Type) where
  | callLock (t : T) (m : M)
  | callUnlock (t : T) (m : M)
  /-- The next step of a thread; `malloc` says whether an allocation in it succeeds. -/
  | go (t : T) (malloc : Bool)
  deriving DecidableEq, Repr

section Step

variable {T M : Type} [DecidableEq T]

def State.move (s : State T M) (t : T) (pc : Pc M) : State T M :=
  { s with pc := Function.update s.pc t pc }

@[simp] theorem move_list (s : State T M) (t : T) (p : Pc M) : (s.move t p).list = s.list := rfl

@[simp] theorem move_returned (s : State T M) (t : T) (p : Pc M) :
    (s.move t p).returned = s.returned := rfl

@[simp] theorem move_unlocked (s : State T M) (t : T) (p : Pc M) :
    (s.move t p).unlocked = s.unlocked := rfl

variable [DecidableEq M]

/-- `current->count++` of the first entry of the thread for the mutex. -/
def countUp (longBits : Nat) (m : M) (t : T) : List (Entry T M) → Option (List (Entry T M))
  | [] => none
  | e :: es =>
    if e.mx = m ∧ e.id = t then some ({ e with count := (e.count + 1) % 2 ^ longBits } :: es)
    else (countUp longBits m t es).map (e :: ·)

/-- `--current->count` of the entries, up to one that comes to 0 and is removed. -/
def countDown (longBits : Nat) (m : M) (t : T) : List (Entry T M) → List (Entry T M) × Bool
  | [] => ([], false)
  | e :: es =>
    let rest := countDown longBits m t es
    if e.mx = m ∧ e.id = t then
      let count := (e.count + (2 ^ longBits - 1)) % 2 ^ longBits
      if count = 0 then (es, true)
      else ({ e with count := count } :: rest.1, rest.2)
    else (e :: rest.1, rest.2)

def countCall (calls : T × M → Nat) (t : T) (m : M) : T × M → Nat :=
  Function.update calls (t, m) (calls (t, m) + 1)

def goStep (longBits : Nat) (s : State T M) (t : T) (malloc : Bool) :
    Except Unit (State T M) :=
  match s.pc t with
  | .idle => .error ()
  | .lock m =>
    if s.listMx = none then .ok ({ s with listMx := some t }.move t (.lockSearch m))
    else .error ()
  | .lockSearch m =>
    match countUp longBits m t s.list with
    | some list => .ok ({ s with list := list }.move t (.lockAgain m))
    | none =>
      if malloc then .ok ({ s with list := ⟨m, t, 1⟩ :: s.list }.move t (.lockFirst m))
      -- it returns -1 and leaves the list locked
      else .ok (s.move t .idle)
  | .lockAgain m =>
    .ok ({ s with listMx := none, returned := countCall s.returned t m }.move t .idle)
  | .lockFirst m => .ok ({ s with listMx := none }.move t (.wait m))
  | .wait m =>
    if s.mutex m = none then
      .ok ({ s with
        mutex := Function.update s.mutex m (some t)
        returned := countCall s.returned t m }.move t .idle)
    else .error ()
  | .unlock m =>
    if s.listMx = none then .ok ({ s with listMx := some t }.move t (.unlockSearch m))
    else .error ()
  | .unlockSearch m =>
    let (list, gone) := countDown longBits m t s.list
    let unlocked := if s.unlocked (t, m) < s.returned (t, m) then countCall s.unlocked t m
      else s.unlocked
    .ok ({ s with list := list, unlocked := unlocked }.move t
      (if gone then .release m else .unlockDone))
  | .release m => .ok ({ s with mutex := Function.update s.mutex m none }.move t .unlockDone)
  | .unlockDone => .ok ({ s with listMx := none }.move t .idle)

def step (longBits : Nat) (s : State T M) : Action T M → Except Unit (State T M)
  | .callLock t m => if s.pc t = .idle then .ok (s.move t (.lock m)) else .error ()
  | .callUnlock t m => if s.pc t = .idle then .ok (s.move t (.unlock m)) else .error ()
  | .go t malloc => goStep longBits s t malloc

/-- `t` has returned from more locks of `m` than it has taken back. -/
def State.Holds (s : State T M) (t : T) (m : M) : Prop := s.unlocked (t, m) < s.returned (t, m)

def counts (list : List (Entry T M)) (t : T) (m : M) : List Nat :=
  (list.filter (fun e => e.mx = m ∧ e.id = t)).map Entry.count

def single : Nat → List Nat
  | 0 => []
  | d + 1 => [d + 1]

inductive Stage where
  | outside
  | again
  | waiting
  | releasing
  deriving DecidableEq, Repr

def Pc.stage : Pc M → M → Stage
  | .lockAgain m, k => if m = k then .again else .outside
  | .lockFirst m, k | .wait m, k => if m = k then .waiting else .outside
  | .release m, k => if m = k then .releasing else .outside
  | _, _ => .outside

/-- The calls of `recursive_mutex_lock` that have their entry and have not returned. -/
def Stage.pending : Stage → Nat
  | .again | .waiting => 1
  | .outside | .releasing => 0

structure View where
  stage : Stage
  counts : List Nat
  returned : Nat
  unlocked : Nat

def State.view (s : State T M) (t : T) (m : M) : View :=
  ⟨(s.pc t).stage m, counts s.list t m, s.returned (t, m), s.unlocked (t, m)⟩

def View.depth (v : View) : Nat := v.returned - v.unlocked + v.stage.pending

/-- How deep `t` is in `m`, with a lock that it still waits for. -/
def State.depth (s : State T M) (t : T) (m : M) : Nat := (s.view t m).depth

section List

variable {longBits : Nat} {list list' : List (Entry T M)} {t u : T} {m k : M}

theorem counts_cons (e : Entry T M) (es : List (Entry T M)) (t : T) (m : M) :
    counts (e :: es) t m =
      if e.mx = m ∧ e.id = t then e.count :: counts es t m else counts es t m := by
  by_cases he : e.mx = m ∧ e.id = t
  · simp [counts, he]
  · simp [counts, he]

theorem counts_cons_off {e : Entry T M} (he : e.mx = m ∧ e.id = t) (hne : (u, k) ≠ (t, m))
    (es : List (Entry T M)) : counts (e :: es) u k = counts es u k := by
  have hoff : ¬ (e.mx = k ∧ e.id = u) := by
    rintro ⟨hk, hu⟩
    exact hne (by rw [← hk, ← hu, he.1, he.2])
  rw [counts_cons, if_neg hoff]

theorem countUp_none (h : countUp longBits m t list = none) : counts list t m = [] := by
  induction list with
  | nil => rfl
  | cons e es ih =>
    by_cases he : e.mx = m ∧ e.id = t
    · simp [countUp, he] at h
    · simp only [countUp, he, if_false, Option.map_eq_none_iff] at h
      rw [counts_cons, if_neg he, ih h]

theorem countUp_some (h : countUp longBits m t list = some list') :
    ∃ d ds, counts list t m = d :: ds ∧ counts list' t m = (d + 1) % 2 ^ longBits :: ds := by
  induction list generalizing list' with
  | nil => cases h
  | cons e es ih =>
    by_cases he : e.mx = m ∧ e.id = t
    · simp only [countUp, he, and_self, if_true, Option.some.injEq] at h
      subst h
      exact ⟨e.count, counts es t m, by simp [counts_cons, he]⟩
    · simp only [countUp, he, if_false, Option.map_eq_some_iff] at h
      obtain ⟨es', hes, rfl⟩ := h
      obtain ⟨d, ds, hd, hd'⟩ := ih hes
      exact ⟨d, ds, by rw [counts_cons, if_neg he, hd], by rw [counts_cons, if_neg he, hd']⟩

theorem countUp_off (h : countUp longBits m t list = some list') (hne : (u, k) ≠ (t, m)) :
    counts list' u k = counts list u k := by
  induction list generalizing list' with
  | nil => cases h
  | cons e es ih =>
    by_cases he : e.mx = m ∧ e.id = t
    · simp only [countUp, he, and_self, if_true, Option.some.injEq] at h
      subst h
      rw [counts_cons_off ⟨rfl, rfl⟩ hne, counts_cons_off he hne]
    · simp only [countUp, he, if_false, Option.map_eq_some_iff] at h
      obtain ⟨es', hes, rfl⟩ := h
      rw [counts_cons, counts_cons, ih hes]

theorem countDown_nil (h : counts list t m = []) : countDown longBits m t list = (list, false) := by
  induction list with
  | nil => rfl
  | cons e es ih =>
    by_cases he : e.mx = m ∧ e.id = t
    · simp [counts_cons, he] at h
    · rw [counts_cons, if_neg he] at h
      simp only [countDown, he, if_false, ih h]

theorem countDown_single (longBits : Nat) {d : Nat} (h : counts list t m = [d]) :
    let count := (d + (2 ^ longBits - 1)) % 2 ^ longBits
    counts (countDown longBits m t list).1 t m = (if count = 0 then [] else [count]) ∧
      (countDown longBits m t list).2 = decide (count = 0) := by
  intro count
  induction list with
  | nil => cases h
  | cons e es ih =>
    by_cases he : e.mx = m ∧ e.id = t
    · rw [counts_cons, if_pos he] at h
      obtain ⟨hd, hes⟩ := List.cons.inj h
      have hcount : (e.count + (2 ^ longBits - 1)) % 2 ^ longBits = count := by rw [hd]
      by_cases hzero : count = 0
      · simp [countDown, he, hcount, hzero, hes]
      · simp [countDown, he, hcount, hzero, countDown_nil hes, counts_cons, hes]
    · rw [counts_cons, if_neg he] at h
      simp only [countDown, he, if_false, counts_cons]
      exact ih h

theorem countDown_off (hne : (u, k) ≠ (t, m)) :
    counts (countDown longBits m t list).1 u k = counts list u k := by
  induction list with
  | nil => rfl
  | cons e es ih =>
    by_cases he : e.mx = m ∧ e.id = t
    · by_cases hzero : (e.count + (2 ^ longBits - 1)) % 2 ^ longBits = 0
      · simp only [countDown, he, and_self, if_true, hzero]
        rw [counts_cons_off he hne]
      · simp only [countDown, he, and_self, if_true, hzero, if_false]
        rw [counts_cons_off ⟨rfl, rfl⟩ hne, counts_cons_off he hne, ih]
    · simp only [countDown, he, if_false]
      rw [counts_cons, counts_cons, ih]

end List

section View

variable {v v' : View} {longBits : Nat}

structure View.Ok (v : View) : Prop where
  entry : v.counts = single v.depth
  le : v.unlocked ≤ v.returned
  again : v.stage = .again → v.unlocked < v.returned
  settled : v.stage = .waiting ∨ v.stage = .releasing → v.unlocked = v.returned

def View.Owns (v : View) : Prop := v.unlocked < v.returned ∨ v.stage = .releasing

structure View.Turn (v v' : View) : Prop where
  ok : v'.Ok
  comes : v.stage ≠ .releasing ∧ v'.stage = .releasing ↔ 0 < v.depth ∧ v'.depth = 0
  releases : v.Owns ∧ ¬ v'.Owns ↔ v.stage = .releasing ∧ v'.stage ≠ .releasing

theorem single_pos {d : Nat} (h : 0 < d) : single d = [d] := by
  cases d with
  | zero => cases h
  | succ d => rfl

theorem View.depth_outside (hstage : v.stage = .outside) : v.depth = v.returned - v.unlocked := by
  simp only [View.depth, hstage, Stage.pending, Nat.add_zero]

theorem View.Owns.lt_of_ne (h : v.Owns) (hstage : v.stage ≠ .releasing) :
    v.unlocked < v.returned :=
  h.resolve_right hstage

theorem View.not_comes (hstage : v'.stage ≠ .releasing) (hdepth : 0 < v.depth → 0 < v'.depth) :
    v.stage ≠ .releasing ∧ v'.stage = .releasing ↔ 0 < v.depth ∧ v'.depth = 0 := by
  refine iff_of_false (fun h => hstage h.2) (fun h => ?_)
  have hpos := hdepth h.1
  omega

theorem View.not_releases (hstage : v.stage ≠ .releasing) (howns : v.Owns → v'.Owns) :
    v.Owns ∧ ¬ v'.Owns ↔ v.stage = .releasing ∧ v'.stage ≠ .releasing :=
  iff_of_false (fun h => h.2 (howns h.1)) (fun h => hstage h.1)

theorem View.Ok.turn_refl (h : v.Ok) : v.Turn v where
  ok := h
  comes := iff_of_false (fun h => h.1 h.2) (fun h => Nat.ne_of_gt h.1 h.2)
  releases := iff_of_false (fun h => h.2 h.1) (fun h => h.2 h.1)

theorem View.Ok.depth_pos (h : v.Ok) {d : Nat} {ds : List Nat} (hd : v.counts = d :: ds) :
    v.depth = d ∧ ds = [] ∧ 0 < d := by
  have hentry := h.entry
  cases hdepth : v.depth with
  | zero =>
    rw [hdepth, hd] at hentry
    cases hentry
  | succ k =>
    rw [hdepth, hd] at hentry
    obtain ⟨rfl, rfl⟩ := List.cons.inj hentry
    exact ⟨rfl, rfl, Nat.succ_pos k⟩

theorem View.Ok.depth_zero (h : v.Ok) (hd : v.counts = []) : v.depth = 0 := by
  have hentry := h.entry
  cases hdepth : v.depth with
  | zero => rfl
  | succ k =>
    rw [hdepth, hd] at hentry
    cases hentry

theorem View.Ok.turn_again (h : v.Ok) (hstage : v.stage = .outside) {d : Nat} {ds : List Nat}
    (hd : v.counts = d :: ds)
    (hfit : View.depth ⟨.again, (d + 1) % 2 ^ longBits :: ds, v.returned, v.unlocked⟩ <
      2 ^ longBits) :
    v.Turn ⟨.again, (d + 1) % 2 ^ longBits :: ds, v.returned, v.unlocked⟩ := by
  obtain ⟨hdepth, rfl, hpos⟩ := h.depth_pos hd
  rw [View.depth_outside hstage] at hdepth
  simp only [View.depth, Stage.pending] at hfit
  have hmod : (d + 1) % 2 ^ longBits = d + 1 := Nat.mod_eq_of_lt (by omega)
  have hlt : v.unlocked < v.returned := by omega
  have hne : v.stage ≠ .releasing := by rw [hstage]; nofun
  exact
    { ok :=
        { entry := by
            simp only [View.depth, Stage.pending]
            rw [hmod, single_pos (Nat.succ_pos _), hdepth]
          le := h.le
          again := fun _ => hlt
          settled := nofun }
      comes := View.not_comes nofun (fun _ => Nat.succ_pos _)
      releases := View.not_releases hne (fun _ => .inl hlt) }

theorem View.Ok.turn_first (h : v.Ok) (hstage : v.stage = .outside) (hd : v.counts = []) :
    v.Turn ⟨.waiting, [1], v.returned, v.unlocked⟩ := by
  have hdepth := h.depth_zero hd
  have hle := h.le
  rw [View.depth_outside hstage] at hdepth
  have heq : v.unlocked = v.returned := by omega
  have hne : v.stage ≠ .releasing := by rw [hstage]; nofun
  exact
    { ok :=
        { entry := by
            simp only [View.depth, Stage.pending, heq, Nat.sub_self]
            rfl
          le := hle
          again := nofun
          settled := fun _ => heq }
      comes := View.not_comes nofun (fun _ => Nat.succ_pos _)
      releases := View.not_releases hne (fun howns => .inl (howns.lt_of_ne hne)) }

theorem View.Ok.turn_return (h : v.Ok) (hstage : v.stage = .again ∨ v.stage = .waiting) :
    v.Turn ⟨.outside, v.counts, v.returned + 1, v.unlocked⟩ := by
  have hle := h.le
  have hpending : v.stage.pending = 1 ∧ v.stage ≠ .releasing := by
    rcases hstage with hs | hs
    · rw [hs]
      exact ⟨rfl, nofun⟩
    · rw [hs]
      exact ⟨rfl, nofun⟩
  have hdepth : View.depth ⟨.outside, v.counts, v.returned + 1, v.unlocked⟩ = v.depth := by
    rw [View.depth_outside rfl, View.depth, hpending.1]
    exact Nat.succ_sub hle
  have hlt : v.unlocked < v.returned + 1 := Nat.lt_succ_of_le hle
  exact
    { ok :=
        { entry := by rw [hdepth]; exact h.entry
          le := Nat.le_of_lt hlt
          again := nofun
          settled := nofun }
      comes := View.not_comes nofun (fun hpos => hdepth.symm ▸ hpos)
      releases := View.not_releases hpending.2 (fun _ => .inl hlt) }

theorem View.Ok.turn_down (h : v.Ok) (hstage : v.stage = .outside) {d : Nat}
    (hd : v.counts = [d]) :
    v.Turn ⟨if d - 1 = 0 then .releasing else .outside, if d - 1 = 0 then [] else [d - 1],
      v.returned, v.unlocked + 1⟩ := by
  obtain ⟨hdepth, -, hpos⟩ := h.depth_pos hd
  have hne : v.stage ≠ .releasing := by rw [hstage]; nofun
  rw [View.depth_outside hstage] at hdepth
  by_cases hone : d - 1 = 0
  · have heq : v.unlocked + 1 = v.returned := by omega
    have hzero : View.depth ⟨.releasing, [], v.returned, v.unlocked + 1⟩ = 0 := by
      simp only [View.depth, Stage.pending, heq, Nat.sub_self]
    rw [if_pos hone, if_pos hone]
    exact
      { ok :=
          { entry := by rw [hzero]; rfl
            le := Nat.le_of_eq heq
            again := nofun
            settled := fun _ => heq }
        comes := iff_of_true ⟨hne, rfl⟩ ⟨by rw [View.depth_outside hstage]; omega, hzero⟩
        releases := View.not_releases hne (fun _ => .inr rfl) }
  · have hlt : v.unlocked + 1 < v.returned := by omega
    have hsub : View.depth ⟨.outside, [d - 1], v.returned, v.unlocked + 1⟩ = d - 1 := by
      simp only [View.depth, Stage.pending]
      omega
    have hpred : 0 < d - 1 := Nat.pos_of_ne_zero hone
    rw [if_neg hone, if_neg hone]
    exact
      { ok :=
          { entry := by rw [hsub, single_pos hpred]
            le := Nat.le_of_lt hlt
            again := nofun
            settled := nofun }
        comes := View.not_comes nofun (fun _ => hsub.symm ▸ hpred)
        releases := View.not_releases hne (fun _ => .inl hlt) }

theorem View.Ok.turn_release (h : v.Ok) (hstage : v.stage = .releasing) :
    v.Turn ⟨.outside, v.counts, v.returned, v.unlocked⟩ := by
  have heq := h.settled (.inr hstage)
  have hdepth : View.depth ⟨.outside, v.counts, v.returned, v.unlocked⟩ = v.depth := by
    rw [View.depth_outside rfl, View.depth, hstage]
    rfl
  have hout : ¬ View.Owns ⟨.outside, v.counts, v.returned, v.unlocked⟩ := by
    simp [View.Owns, heq]
  exact
    { ok :=
        { entry := by rw [hdepth]; exact h.entry
          le := h.le
          again := nofun
          settled := nofun }
      comes := View.not_comes nofun (fun hpos => hdepth.symm ▸ hpos)
      releases := iff_of_true ⟨.inr hstage, hout⟩ ⟨hstage, nofun⟩ }

end View

def Pc.InList : Pc M → Prop
  | .lockSearch _ | .lockAgain _ | .lockFirst _ | .unlockSearch _ | .release _ | .unlockDone =>
    True
  | .idle | .lock _ | .wait _ | .unlock _ => False

structure State.Inv (s : State T M) : Prop where
  list : Lock.Guards s.listMx (fun t => (s.pc t).InList)
  pair : ∀ t m, (s.view t m).Ok
  mutex : ∀ m, Lock.Guards (s.mutex m) (fun t => (s.view t m).Owns)

theorem inv_initial : (State.initial T M).Inv where
  list := fun t => by simp [State.initial, Pc.InList]
  pair := fun t m =>
    { entry := rfl
      le := Nat.le_refl _
      again := nofun
      settled := fun _ => rfl }
  mutex := fun m t => by simp [State.initial, State.view, View.Owns, Pc.stage]

section Steps

variable {s s' : State T M} {t : T} {m : M} {p : Pc M} {longBits : Nat}

/-- After a step: it keeps the invariant, and turns each view as it may. -/
structure Kept (s s' : State T M) : Prop where
  inv : s'.Inv
  turn : ∀ t m, (s.view t m).Turn (s'.view t m)

theorem State.Inv.quiet (h : s.Inv) (hpc : s'.pc = Function.update s.pc t p)
    (hstage : p.stage = (s.pc t).stage)
    (hsame : s'.list = s.list ∧ s'.mutex = s.mutex ∧ s'.returned = s.returned ∧
      s'.unlocked = s.unlocked)
    (hlist : Lock.Guards s'.listMx (fun t => (s'.pc t).InList)) : Kept s s' := by
  obtain ⟨hentries, hmutex, hreturned, hunlocked⟩ := hsame
  have hview : s'.view = s.view := by
    funext u k
    simp only [State.view, hentries, hreturned, hunlocked, hpc, View.mk.injEq, and_true]
    by_cases hu : u = t
    · rw [hu, Function.update_self, hstage]
    · rw [Function.update_of_ne hu]
  exact
    { inv :=
        { list := hlist
          pair := by rw [hview]; exact h.pair
          mutex := by rw [hview, hmutex]; exact h.mutex }
      turn := by
        intro u k
        rw [hview]
        exact (h.pair u k).turn_refl }

structure Moves (s s' : State T M) (t : T) (m : M) (p : Pc M) : Prop where
  pc : s'.pc = Function.update s.pc t p
  before : ∀ k, k ≠ m → (s.pc t).stage k = .outside
  after : ∀ k, k ≠ m → p.stage k = .outside
  list : ∀ u k, (u, k) ≠ (t, m) → counts s'.list u k = counts s.list u k
  returned : ∀ x, x ≠ (t, m) → s'.returned x = s.returned x
  unlocked : ∀ x, x ≠ (t, m) → s'.unlocked x = s.unlocked x
  mutex : ∀ k, k ≠ m → s'.mutex k = s.mutex k

theorem Moves.view_off (hm : Moves s s' t m p) {u : T} {k : M} (hne : (u, k) ≠ (t, m)) :
    s'.view u k = s.view u k := by
  have hstage : (s'.pc u).stage k = (s.pc u).stage k := by
    rw [hm.pc]
    by_cases hu : u = t
    · subst hu
      have hk : k ≠ m := fun hk => hne (by rw [hk])
      rw [Function.update_self, hm.before k hk, hm.after k hk]
    · rw [Function.update_of_ne hu]
  simp only [State.view, hstage, hm.list u k hne, hm.returned _ hne, hm.unlocked _ hne]

theorem Moves.view_on (hm : Moves s s' t m p) :
    s'.view t m = ⟨p.stage m, counts s'.list t m, s'.returned (t, m), s'.unlocked (t, m)⟩ := by
  rw [State.view, hm.pc, Function.update_self]

theorem Moves.kept (hm : Moves s s' t m p) (h : s.Inv)
    (hturn : (s.view t m).Turn (s'.view t m))
    (hlist : Lock.Guards s'.listMx (fun t => (s'.pc t).InList))
    (hmutex : Lock.Guards (s'.mutex m) (fun t => (s'.view t m).Owns)) : Kept s s' := by
  have hturns : ∀ u k, (s.view u k).Turn (s'.view u k) := by
    intro u k
    by_cases hne : (u, k) = (t, m)
    · cases hne
      exact hturn
    · rw [hm.view_off hne]
      exact (h.pair u k).turn_refl
  refine ⟨⟨hlist, fun u k => (hturns u k).ok, fun k => ?_⟩, hturns⟩
  by_cases hk : k = m
  · subst hk
    exact hmutex
  · have hview : ∀ u, s'.view u k = s.view u k :=
      fun u => hm.view_off (fun hne => hk (congrArg Prod.snd hne))
    rw [hm.mutex k hk]
    simpa only [hview] using h.mutex k

theorem Moves.owns_off (hm : Moves s s' t m p) :
    ∀ u, u ≠ t → ((s'.view u m).Owns ↔ (s.view u m).Owns) := by
  intro u hu
  rw [hm.view_off (fun hne => hu (congrArg Prod.fst hne))]

theorem countCall_off {calls : T × M → Nat} {x : T × M} (hx : x ≠ (t, m)) :
    countCall calls t m x = calls x := Function.update_of_ne hx _ _

theorem countCall_on (calls : T × M → Nat) (t : T) (m : M) :
    countCall calls t m (t, m) = calls (t, m) + 1 := Function.update_self _ _ _

theorem State.Inv.list_turn (h : s.Inv) {listMx : Option T}
    (hturn : Lock.Turn s.listMx listMx t (s.pc t).InList p.InList (s.pc t).InList False) :
    Lock.Guards listMx (fun u => (Function.update s.pc t p u).InList) := by
  rw [← Function.update_self t p s.pc] at hturn
  exact hturn.guards h.list (fun u hu => by rw [Function.update_of_ne hu]) id nofun

theorem Moves.kept_same (hm : Moves s s' t m p) (h : s.Inv)
    (hturn : (s.view t m).Turn (s'.view t m))
    (hlist : Lock.Guards s'.listMx (fun t => (s'.pc t).InList))
    (hmutex : s'.mutex m = s.mutex m) (howns : (s'.view t m).Owns ↔ (s.view t m).Owns) :
    Kept s s' := by
  refine hm.kept h hturn hlist ?_
  rw [hmutex]
  exact (h.mutex m).stay hm.owns_off howns

theorem kept_lockSearch (h : s.Inv) (hpc : s.pc t = .lockSearch m)
    (hgo : goStep longBits s t true = .ok s') (hfit : s'.depth t m < 2 ^ longBits) :
    Kept s s' := by
  have hstage : (s.view t m).stage = .outside := by simp only [State.view, hpc, Pc.stage]
  have hin : (s.pc t).InList := by rw [hpc]; trivial
  cases hup : countUp longBits m t s.list with
  | none =>
    simp only [goStep, hpc, hup, if_true, Except.ok.injEq] at hgo
    have hm : Moves s s' t m (.lockFirst m) := by
      subst hgo
      exact
        { pc := rfl
          before := fun k _ => by rw [hpc]; rfl
          after := fun k hk => if_neg (Ne.symm hk)
          list := fun u k hne => counts_cons_off ⟨rfl, rfl⟩ hne _
          returned := fun _ _ => rfl
          unlocked := fun _ _ => rfl
          mutex := fun _ _ => rfl }
    have hnil := countUp_none hup
    have hview := hm.view_on
    subst hgo
    simp only [Pc.stage, if_true, counts_cons, hnil, and_self, move_list, move_returned,
      move_unlocked] at hview
    refine hm.kept_same h ?_ (h.list_turn (.stay rfl (iff_of_true trivial hin))) rfl ?_
    · rw [hview]
      exact (h.pair t m).turn_first hstage hnil
    · rw [hview]
      simp only [View.Owns, hstage, reduceCtorEq, or_false]
      exact Iff.rfl
  | some list =>
    simp only [goStep, hpc, hup, Except.ok.injEq] at hgo
    have hm : Moves s s' t m (.lockAgain m) := by
      subst hgo
      exact
        { pc := rfl
          before := fun k _ => by rw [hpc]; rfl
          after := fun k hk => if_neg (Ne.symm hk)
          list := fun u k hne => countUp_off hup hne
          returned := fun _ _ => rfl
          unlocked := fun _ _ => rfl
          mutex := fun _ _ => rfl }
    obtain ⟨d, ds, hd, hd'⟩ := countUp_some hup
    have hview := hm.view_on
    subst hgo
    simp only [Pc.stage, if_true, hd', move_list, move_returned, move_unlocked] at hview
    refine hm.kept_same h ?_ (h.list_turn (.stay rfl (iff_of_true trivial hin))) rfl ?_
    · rw [State.depth, hview] at hfit
      rw [hview]
      exact (h.pair t m).turn_again hstage hd hfit
    · rw [hview]
      simp only [View.Owns, hstage, reduceCtorEq, or_false]
      exact Iff.rfl

theorem kept_lockAgain (h : s.Inv) (hpc : s.pc t = .lockAgain m)
    (hgo : goStep longBits s t true = .ok s') : Kept s s' := by
  have hstage : (s.view t m).stage = .again := by simp only [State.view, hpc, Pc.stage, if_true]
  have hin : (s.pc t).InList := by rw [hpc]; trivial
  simp only [goStep, hpc, Except.ok.injEq] at hgo
  have hm : Moves s s' t m .idle := by
    subst hgo
    exact
      { pc := rfl
        before := fun k hk => by rw [hpc]; exact if_neg (Ne.symm hk)
        after := fun _ _ => rfl
        list := fun _ _ _ => rfl
        returned := fun _ hx => countCall_off hx
        unlocked := fun _ _ => rfl
        mutex := fun _ _ => rfl }
  have hview := hm.view_on
  subst hgo
  simp only [Pc.stage, countCall_on, move_list, move_returned, move_unlocked] at hview
  refine hm.kept_same h ?_ (h.list_turn (.unlock hin rfl nofun)) rfl ?_
  · rw [hview]
    exact (h.pair t m).turn_return (.inl hstage)
  · rw [hview]
    have hlt := (h.pair t m).again hstage
    exact iff_of_true (.inl (Nat.lt_succ_of_lt hlt)) (.inl hlt)

theorem kept_wait (h : s.Inv) (hpc : s.pc t = .wait m) (hfree : s.mutex m = none)
    (hgo : goStep longBits s t true = .ok s') : Kept s s' := by
  have hstage : (s.view t m).stage = .waiting := by
    simp only [State.view, hpc, Pc.stage, if_true]
  have hout : ¬ (s.pc t).InList := by rw [hpc]; nofun
  simp only [goStep, hpc, hfree, if_true, Except.ok.injEq] at hgo
  have hm : Moves s s' t m .idle := by
    subst hgo
    exact
      { pc := rfl
        before := fun k hk => by rw [hpc]; exact if_neg (Ne.symm hk)
        after := fun _ _ => rfl
        list := fun _ _ _ => rfl
        returned := fun _ hx => countCall_off hx
        unlocked := fun _ _ => rfl
        mutex := fun _ hk => Function.update_of_ne hk _ _ }
  have hview : s'.view t m =
      ⟨.outside, counts s.list t m, s.returned (t, m) + 1, s.unlocked (t, m)⟩ := by
    rw [hm.view_on, ← hgo]
    simp only [Pc.stage, countCall_on, move_list, move_returned, move_unlocked]
  have howns : (s'.view t m).Owns := by
    rw [hview]
    exact .inl (Nat.lt_succ_of_le (h.pair t m).le)
  have hmutex : s'.mutex m = some t := by
    subst hgo
    exact Function.update_self _ _ _
  refine hm.kept h ?_ ?_ ?_
  · rw [hview]
    exact (h.pair t m).turn_return (.inr hstage)
  · subst hgo
    exact h.list_turn (.stay rfl (iff_of_false nofun hout))
  · rw [hmutex]
    exact (hfree ▸ h.mutex m).enter hm.owns_off howns

theorem kept_release (h : s.Inv) (hpc : s.pc t = .release m)
    (hgo : goStep longBits s t true = .ok s') : Kept s s' := by
  have hstage : (s.view t m).stage = .releasing := by
    simp only [State.view, hpc, Pc.stage, if_true]
  have hin : (s.pc t).InList := by rw [hpc]; trivial
  simp only [goStep, hpc, Except.ok.injEq] at hgo
  have hm : Moves s s' t m .unlockDone := by
    subst hgo
    exact
      { pc := rfl
        before := fun k hk => by rw [hpc]; exact if_neg (Ne.symm hk)
        after := fun _ _ => rfl
        list := fun _ _ _ => rfl
        returned := fun _ _ => rfl
        unlocked := fun _ _ => rfl
        mutex := fun _ hk => Function.update_of_ne hk _ _ }
  have hview : s'.view t m =
      ⟨.outside, counts s.list t m, s.returned (t, m), s.unlocked (t, m)⟩ := by
    rw [hm.view_on, ← hgo]
    simp only [Pc.stage, move_list, move_returned, move_unlocked]
  have howns : ¬ (s'.view t m).Owns := by
    have hsettled : s.unlocked (t, m) = s.returned (t, m) :=
      (h.pair t m).settled (.inr hstage)
    rw [hview]
    simp [View.Owns, hsettled]
  have hmutex : s'.mutex m = none := by
    subst hgo
    exact Function.update_self _ _ _
  refine hm.kept h ?_ ?_ ?_
  · rw [hview]
    exact (h.pair t m).turn_release hstage
  · subst hgo
    exact h.list_turn (.stay rfl (iff_of_true trivial hin))
  · rw [hmutex]
    exact (h.mutex m).exit hm.owns_off (.inr hstage) howns

theorem State.Inv.unlock_ignored (h : s.Inv) (hpc : s.pc t = .unlockSearch m)
    (hnot : ¬ s.Holds t m) (malloc : Bool) :
    goStep longBits s t malloc = .ok (s.move t .unlockDone) := by
  have hstage : (s.view t m).stage = .outside := by simp only [State.view, hpc, Pc.stage]
  have hdepth : (s.view t m).depth = 0 := by
    rw [View.depth_outside hstage]
    exact Nat.sub_eq_zero_of_le (Nat.le_of_not_lt hnot)
  have hnil : counts s.list t m = [] := by
    have hentry := (h.pair t m).entry
    rwa [hdepth] at hentry
  simp only [State.Holds] at hnot
  simp [goStep, hpc, countDown_nil hnil, hnot]

theorem count_pred {d : Nat} (hpos : 0 < d) (hfit : d < 2 ^ longBits) :
    (d + (2 ^ longBits - 1)) % 2 ^ longBits = d - 1 := by
  have hsum : d + (2 ^ longBits - 1) = d - 1 + 2 ^ longBits := by omega
  rw [hsum, Nat.add_mod_right, Nat.mod_eq_of_lt (by omega)]

theorem kept_unlockSearch (h : s.Inv) (hpc : s.pc t = .unlockSearch m)
    (hgo : goStep longBits s t true = .ok s') (hfit : s.depth t m < 2 ^ longBits) :
    Kept s s' := by
  have hstage : (s.view t m).stage = .outside := by simp only [State.view, hpc, Pc.stage]
  have hin : (s.pc t).InList := by rw [hpc]; trivial
  by_cases hholds : s.Holds t m
  · have hdepth : (s.view t m).depth = s.returned (t, m) - s.unlocked (t, m) :=
      View.depth_outside hstage
    have hpos : 0 < (s.view t m).depth := hdepth ▸ Nat.sub_pos_of_lt hholds
    have hcounts : (s.view t m).counts = [(s.view t m).depth] := by
      rw [(h.pair t m).entry, single_pos hpos]
    obtain ⟨hlist, hgone⟩ := countDown_single longBits hcounts
    rw [count_pred hpos hfit] at hlist hgone
    have hunlocked : s.unlocked (t, m) < s.returned (t, m) := hholds
    simp only [goStep, hpc, hgone, decide_eq_true_eq, if_pos hunlocked, Except.ok.injEq] at hgo
    have hm : Moves s s' t m
        (if (s.view t m).depth - 1 = 0 then .release m else .unlockDone) := by
      subst hgo
      exact
        { pc := rfl
          before := fun k _ => by rw [hpc]; rfl
          after := by
            intro k hk
            split
            · exact if_neg (Ne.symm hk)
            · rfl
          list := fun u k hne => countDown_off hne
          returned := fun _ _ => rfl
          unlocked := fun _ hx => countCall_off hx
          mutex := fun _ _ => rfl }
    have hview : s'.view t m =
        ⟨if (s.view t m).depth - 1 = 0 then .releasing else .outside,
          if (s.view t m).depth - 1 = 0 then [] else [(s.view t m).depth - 1],
          s.returned (t, m), s.unlocked (t, m) + 1⟩ := by
      rw [hm.view_on, ← hgo]
      simp only [move_list, move_returned, move_unlocked, hlist, countCall_on, View.mk.injEq,
        and_true]
      split
      · exact if_pos rfl
      · rfl
    have howns : (s'.view t m).Owns := by
      rw [hview]
      simp only [View.Owns]
      split
      · exact .inr rfl
      · exact .inl (by omega)
    refine hm.kept_same h ?_ ?_ (by rw [← hgo]; rfl) (iff_of_true howns (.inl hholds))
    · rw [hview]
      exact (h.pair t m).turn_down hstage hcounts
    · subst hgo
      refine h.list_turn (.stay rfl (iff_of_true ?_ hin))
      split
      · trivial
      · trivial
  · rw [h.unlock_ignored hpc hholds, Except.ok.injEq] at hgo
    subst hgo
    exact h.quiet rfl (by rw [hpc]; rfl) ⟨rfl, rfl, rfl, rfl⟩
      (h.list_turn (.stay rfl (iff_of_true trivial hin)))

def Within (longBits : Nat) (_ : State T M) (a : Action T M) (s' : State T M) : Prop :=
  (∀ t, a ≠ .go t false) ∧ ∀ t m, s'.depth t m < 2 ^ longBits

instance (longBits : Nat) (s : State Bool Bool) (a : Action Bool Bool) (s' : State Bool Bool) :
    Decidable (Within longBits s a s') :=
  inferInstanceAs (Decidable (_ ∧ _))

theorem go_kept (h : s.Inv) (hfit : ∀ t m, s.depth t m < 2 ^ longBits)
    (hfit' : ∀ t m, s'.depth t m < 2 ^ longBits) (hgo : goStep longBits s t true = .ok s') :
    Kept s s' := by
  cases hpc : s.pc t with
  | idle => simp [goStep, hpc] at hgo
  | lock m =>
    by_cases hfree : s.listMx = none
    · simp only [goStep, hpc, hfree, if_true, Except.ok.injEq] at hgo
      subst hgo
      exact h.quiet rfl (by rw [hpc]; rfl) ⟨rfl, rfl, rfl, rfl⟩
        (h.list_turn (.lock hfree rfl trivial))
    · simp [goStep, hpc, hfree] at hgo
  | lockSearch m => exact kept_lockSearch h hpc hgo (hfit' t m)
  | lockAgain m => exact kept_lockAgain h hpc hgo
  | lockFirst m =>
    simp only [goStep, hpc, Except.ok.injEq] at hgo
    subst hgo
    exact h.quiet rfl (by rw [hpc]; rfl) ⟨rfl, rfl, rfl, rfl⟩
      (h.list_turn (.unlock (by rw [hpc]; trivial) rfl nofun))
  | wait m =>
    by_cases hfree : s.mutex m = none
    · exact kept_wait h hpc hfree hgo
    · simp [goStep, hpc, hfree] at hgo
  | unlock m =>
    by_cases hfree : s.listMx = none
    · simp only [goStep, hpc, hfree, if_true, Except.ok.injEq] at hgo
      subst hgo
      exact h.quiet rfl (by rw [hpc]; rfl) ⟨rfl, rfl, rfl, rfl⟩
        (h.list_turn (.lock hfree rfl trivial))
    · simp [goStep, hpc, hfree] at hgo
  | unlockSearch m => exact kept_unlockSearch h hpc hgo (hfit t m)
  | release m => exact kept_release h hpc hgo
  | unlockDone =>
    simp only [goStep, hpc, Except.ok.injEq] at hgo
    subst hgo
    exact h.quiet rfl (by rw [hpc]; rfl) ⟨rfl, rfl, rfl, rfl⟩
      (h.list_turn (.unlock (by rw [hpc]; trivial) rfl nofun))

theorem step_kept {a : Action T M} (h : s.Inv) (hfit : ∀ t m, s.depth t m < 2 ^ longBits)
    (hwithin : Within longBits s a s') (hstep : step longBits s a = .ok s') : Kept s s' := by
  cases a with
  | callLock t m =>
    by_cases hpc : s.pc t = .idle
    · simp only [step, hpc, if_true, Except.ok.injEq] at hstep
      subst hstep
      exact h.quiet rfl (by rw [hpc]; rfl) ⟨rfl, rfl, rfl, rfl⟩
        (h.list_turn (.stay rfl (iff_of_false nofun (by rw [hpc]; nofun))))
    · simp [step, hpc] at hstep
  | callUnlock t m =>
    by_cases hpc : s.pc t = .idle
    · simp only [step, hpc, if_true, Except.ok.injEq] at hstep
      subst hstep
      exact h.quiet rfl (by rw [hpc]; rfl) ⟨rfl, rfl, rfl, rfl⟩
        (h.list_turn (.stay rfl (iff_of_false nofun (by rw [hpc]; nofun))))
    · simp [step, hpc] at hstep
  | go t malloc =>
    cases malloc with
    | false => exact absurd rfl (hwithin.1 t)
    | true => exact go_kept h hfit hwithin.2 hstep

end Steps

/-- A step that keeps the promises of the two calls. -/
structure Correct (longBits : Nat) (s : State T M) (a : Action T M) (s' : State T M) :
    Prop where
  exclusive : ∀ m t u, s'.Holds t m → s'.Holds u m → t = u
  counted : ∀ t m, counts s'.list t m = single (s'.depth t m)
  mutex : ∀ t m, s'.mutex m = some t ↔ s'.Holds t m ∨ s'.pc t = .release m
  /-- A thread comes to the unlock of the mutex when its depth comes back to 0, -/
  comes : ∀ t m, s.pc t ≠ .release m ∧ s'.pc t = .release m ↔
    0 < s.depth t m ∧ s'.depth t m = 0
  /-- that unlock is its next step, -/
  next : ∀ t m malloc, s'.pc t = .release m →
    ∃ s'', step longBits s' (.go t malloc) = .ok s'' ∧ s''.mutex m = none
  /-- and no other step takes the mutex from it. -/
  releases : ∀ t m, s.mutex m = some t ∧ s'.mutex m ≠ some t ↔
    s.pc t = .release m ∧ s'.pc t ≠ .release m
  ignored : ∀ t m malloc, a = .go t malloc → s.pc t = .unlockSearch m → ¬ s.Holds t m →
    s' = s.move t .unlockDone

theorem stage_releasing (p : Pc M) (m : M) : p.stage m = .releasing ↔ p = .release m := by
  cases p with
  | release k => simp [Pc.stage]
  | lockAgain k | lockFirst k | wait k =>
    by_cases hk : k = m
    · simp [Pc.stage, hk]
    · simp [Pc.stage, hk]
  | idle | lock k | lockSearch k | unlock k | unlockSearch k | unlockDone => simp [Pc.stage]

theorem owns_iff (s : State T M) (t : T) (m : M) :
    (s.view t m).Owns ↔ s.Holds t m ∨ s.pc t = .release m := by
  rw [← stage_releasing]
  exact Iff.rfl

theorem Kept.correct {longBits : Nat} {s s' : State T M} {a : Action T M} (hk : Kept s s')
    (h : s.Inv) (hstep : step longBits s a = .ok s') : Correct longBits s a s' where
  exclusive := by
    intro m t u ht hu
    exact (hk.inv.mutex m).unique (t := t) (.inl ht) (.inl hu)
  counted := fun t m => (hk.inv.pair t m).entry
  mutex := fun t m => (hk.inv.mutex m t).trans (owns_iff s' t m)
  comes := by
    intro t m
    have hcomes := (hk.turn t m).comes
    simp only [State.view, ne_eq, stage_releasing] at hcomes
    exact hcomes
  next := by
    intro t m malloc hpc
    exact ⟨_, by simp only [step, goStep, hpc]; rfl, Function.update_self _ _ _⟩
  releases := by
    intro t m
    have hbefore : s.mutex m = some t ↔ (s.view t m).Owns := h.mutex m t
    have hafter : s'.mutex m = some t ↔ (s'.view t m).Owns := hk.inv.mutex m t
    rw [ne_eq, hbefore, hafter, (hk.turn t m).releases]
    simp only [State.view, ne_eq, stage_releasing]
  ignored := by
    rintro t m malloc rfl hpc hnot
    rw [step, h.unlock_ignored hpc hnot] at hstep
    exact (Except.ok.inj hstep).symm

theorem depth_initial (t : T) (m : M) : (State.initial T M).depth t m = 0 := rfl

/-- In every run whose allocations succeed, and in which no thread nests more locks of one
mutex than an `unsigned long` counts. -/
theorem recursive_mutex_correct (T M : Type) [DecidableEq T] [DecidableEq M] (longBits : Nat)
    (actions : List (Action T M))
    (hwithin : Transition.Along (step longBits) (Within longBits) (State.initial T M) actions) :
    Transition.Along (step longBits) (Correct longBits) (State.initial T M) actions := by
  refine Transition.along_of
    (I := fun s => s.Inv ∧ ∀ t m, s.depth t m < 2 ^ longBits) ?_ ?_ hwithin
  · rintro s a s' ⟨h, hfit⟩ hstep hwithin
    have hk := step_kept h hfit hwithin hstep
    exact ⟨⟨hk.inv, hwithin.2⟩, hk.correct h hstep⟩
  · refine ⟨inv_initial, fun t m => ?_⟩
    rw [depth_initial]
    exact Nat.two_pow_pos longBits

/-- A thread locks twice. Another unlocks what it does not have, then waits for the mutex, and
gets it after the second unlock of the first. -/
def turns : List (Action Bool Bool) :=
  [[.callLock false true], List.replicate 4 (.go false true),
    [.callLock false true], List.replicate 3 (.go false true),
    [.callUnlock true true], List.replicate 3 (.go true true),
    [.callLock true true], List.replicate 3 (.go true true),
    [.callUnlock false true], List.replicate 3 (.go false true),
    [.callUnlock false true], List.replicate 4 (.go false true),
    [.go true true]].flatten

theorem recursive_mutex_correct_turns :
    Transition.Along (step 32) (Correct 32) (State.initial Bool Bool) turns ∧
      ((Transition.exec (step 32) (State.initial Bool Bool) turns).toOption.map
        fun s => (s.list, s.mutex true)) = some ([⟨true, true, 1⟩], some true) :=
  ⟨recursive_mutex_correct Bool Bool 32 turns (by decide), by decide⟩

def lockCall : List (Action Unit Unit) := [.callLock () (), .go () true, .go () true, .go () true]

def nested : Nat → List (Action Unit Unit)
  | 0 => lockCall ++ [.go () true]
  | k + 1 => nested k ++ lockCall

def deep (longBits k : Nat) : State Unit Unit :=
  ⟨fun _ => .idle, none, [⟨(), (), (k + 1) % 2 ^ longBits⟩], fun _ => some (),
    fun _ => k + 1, fun _ => 0⟩

theorem exec_nested {longBits : Nat} (hbits : 1 < 2 ^ longBits) (k : Nat) :
    Transition.exec (step longBits) (State.initial Unit Unit) (nested k) =
      .ok (deep longBits k) := by
  induction k with
  | zero =>
    rw [deep, Nat.mod_eq_of_lt hbits]
    rfl
  | succ k ih =>
    rw [nested, Transition.exec_append ih]
    simp only [deep]
    rw [← Nat.mod_add_mod (k + 1) (2 ^ longBits) 1]
    rfl

theorem nested_allocates (k : Nat) : ∀ t, Action.go t false ∉ nested k := by
  induction k with
  | zero => simp [nested, lockCall]
  | succ k ih => simpa [nested, lockCall] using ih

theorem nested_overflows {longBits k : Nat} (hbits : 1 < 2 ^ longBits)
    (hk : (k + 1) % 2 ^ longBits ≠ k + 1) :
    ¬ Transition.Along (step longBits) (Correct longBits) (State.initial Unit Unit)
      (nested k) := by
  intro halong
  have hcounted : ∀ t m, counts (deep longBits k).list t m = single ((deep longBits k).depth t m) :=
    Transition.exec_of_along
      (I := fun s : State Unit Unit => ∀ t m, counts s.list t m = single (s.depth t m))
      (fun _ _ _ _ _ hcorrect => hcorrect.counted) (fun _ _ => rfl) halong
      (exec_nested hbits k)
  exact hk (List.cons.inj (hcounted () ())).1

theorem nested_not_correct :
    (∀ t, Action.go t false ∉ nested (2 ^ 32 - 1)) ∧
      ¬ Transition.Along (step 32) (Correct 32) (State.initial Unit Unit)
        (nested (2 ^ 32 - 1)) :=
  ⟨nested_allocates _, nested_overflows (by decide) (by decide)⟩

end Step

end RecursiveMutex
end Lmap
