import Mathlib.Logic.Function.Basic
import Mathlib.Tactic.Common

/-!
Machines that take one action after the other, each of which can fail, and locks of which
one of many threads is inside. A run is the list of its actions. An invariant of the steps
holds wherever a run comes to; a condition on the steps of one run makes it an invariant of
that run.
-/

set_option autoImplicit false

namespace Transition

universe u v w

variable {σ : Type u} {α : Type v} {ε : Type w}

/-- The first action that fails ends the run. -/
def exec (step : σ → α → Except ε σ) : σ → List α → Except ε σ
  | s, [] => .ok s
  | s, a :: as =>
    match step s a with
    | .ok s' => exec step s' as
    | .error e => .error e

def Along (step : σ → α → Except ε σ) (P : σ → α → σ → Prop) : σ → List α → Prop
  | _, [] => True
  | s, a :: as =>
    match step s a with
    | .ok s' => P s a s' ∧ Along step P s' as
    | .error _ => True

variable {step : σ → α → Except ε σ}

theorem exec_cons {s s' : σ} {a : α} (h : step s a = .ok s') (as : List α) :
    exec step s (a :: as) = exec step s' as := by simp [exec, h]

theorem exec_append {s s' : σ} {as : List α} (h : exec step s as = .ok s') (bs : List α) :
    exec step s (as ++ bs) = exec step s' bs := by
  induction as generalizing s with
  | nil =>
    cases h
    rfl
  | cons a as ih =>
    cases hs : step s a with
    | error e => simp [exec, hs] at h
    | ok t =>
      rw [exec_cons hs] at h
      rw [List.cons_append, exec_cons hs, ih h]

theorem exec_cons_ok {s s' : σ} {a : α} {as : List α} (h : exec step s (a :: as) = .ok s') :
    ∃ t, step s a = .ok t ∧ exec step t as = .ok s' := by
  cases ha : step s a with
  | error e => simp [exec, ha] at h
  | ok t => exact ⟨t, rfl, (exec_cons ha as).symm.trans h⟩

theorem exec_append_ok {s s' : σ} {as bs : List α} (h : exec step s (as ++ bs) = .ok s') :
    ∃ t, exec step s as = .ok t ∧ exec step t bs = .ok s' := by
  induction as generalizing s with
  | nil => exact ⟨s, rfl, h⟩
  | cons a as ih =>
    obtain ⟨t, ha, hrest⟩ := exec_cons_ok h
    obtain ⟨u, has, hbs⟩ := ih hrest
    exact ⟨u, (exec_cons ha as).trans has, hbs⟩

theorem along_cons {P : σ → α → σ → Prop} {s s' : σ} {a : α} (h : step s a = .ok s')
    (as : List α) : Along step P s (a :: as) ↔ P s a s' ∧ Along step P s' as := by
  simp [Along, h]

instance decidableAlong {P : σ → α → σ → Prop} [∀ s a s', Decidable (P s a s')] :
    ∀ s as, Decidable (Along step P s as)
  | _, [] => isTrue trivial
  | s, a :: as =>
    match h : step s a with
    | .ok s' =>
      have := decidableAlong (P := P) s' as
      decidable_of_iff _ (along_cons h as).symm
    | .error _ => isTrue (by simp [Along, h])

theorem along_true (s : σ) (as : List α) : Along step (fun _ _ _ => True) s as := by
  induction as generalizing s with
  | nil => trivial
  | cons a as ih =>
    cases ha : step s a with
    | error e => simp [Along, ha]
    | ok t =>
      rw [along_cons ha]
      exact ⟨trivial, ih t⟩

/-- The rule for runs whose steps all meet a condition `G`. -/
theorem along_of {I : σ → Prop} {G Q : σ → α → σ → Prop}
    (hstep : ∀ s a s', I s → step s a = .ok s' → G s a s' → I s' ∧ Q s a s')
    {s : σ} {as : List α} (hs : I s) (hG : Along step G s as) : Along step Q s as := by
  induction as generalizing s with
  | nil => trivial
  | cons a as ih =>
    cases ha : step s a with
    | error e => simp [Along, ha]
    | ok t =>
      rw [along_cons ha] at hG ⊢
      obtain ⟨ht, hq⟩ := hstep s a t hs ha hG.1
      exact ⟨hq, ih ht hG.2⟩

theorem exec_of_along {I : σ → Prop} {G : σ → α → σ → Prop}
    (hstep : ∀ s a s', I s → step s a = .ok s' → G s a s' → I s')
    {s s' : σ} {as : List α} (hs : I s) (hG : Along step G s as) (h : exec step s as = .ok s') :
    I s' := by
  induction as generalizing s with
  | nil =>
    cases h
    exact hs
  | cons a as ih =>
    cases ha : step s a with
    | error e => simp [exec, ha] at h
    | ok t =>
      rw [along_cons ha] at hG
      rw [exec_cons ha] at h
      exact ih (hstep s a t hs ha hG.1) hG.2 h

/-- `J` holds at the end of such a run if at some step of it `P` does not. -/
theorem exec_of_not_along {I J : σ → Prop} {G P : σ → α → σ → Prop}
    (hstep : ∀ s a s', I s → step s a = .ok s' → G s a s' → I s' ∧ (¬ P s a s' → J s'))
    (hkept : ∀ s a s', J s → step s a = .ok s' → J s')
    {s s' : σ} {as : List α} (hs : I s) (hG : Along step G s as) (hP : ¬ Along step P s as)
    (h : exec step s as = .ok s') : J s' := by
  have hrest : ∀ {t} (bs : List α), J t → exec step t bs = .ok s' → J s' := fun bs ht hbs =>
    exec_of_along (fun s a s' hs ha _ => hkept s a s' hs ha) ht (along_true _ bs) hbs
  induction as generalizing s with
  | nil => exact absurd trivial hP
  | cons a as ih =>
    obtain ⟨t, ha, has⟩ := exec_cons_ok h
    rw [along_cons ha] at hG hP
    obtain ⟨ht, hbroken⟩ := hstep s a t hs ha hG.1
    by_cases hp : P s a t
    · exact ih ht hG.2 (fun halong => hP ⟨hp, halong⟩) has
    · exact hrest as (hbroken hp) has

theorem exec_error_of_along {I : σ → Prop} {G : σ → α → σ → Prop} {E : ε → Prop}
    (hstep : ∀ s a s', I s → step s a = .ok s' → G s a s' → I s')
    (hfail : ∀ s a e, I s → step s a = .error e → E e)
    {s : σ} {as : List α} {e : ε} (hs : I s) (hG : Along step G s as)
    (h : exec step s as = .error e) : E e := by
  induction as generalizing s with
  | nil => cases h
  | cons a as ih =>
    cases ha : step s a with
    | error e' =>
      simp only [exec, ha, Except.error.injEq] at h
      exact h ▸ hfail s a e' hs ha
    | ok t =>
      rw [along_cons ha] at hG
      rw [exec_cons ha] at h
      exact ih (hstep s a t hs ha hG.1) hG.2 h

theorem exec_invariant {I : σ → Prop} (hstep : ∀ s a s', I s → step s a = .ok s' → I s')
    {s s' : σ} {as : List α} (hs : I s) (h : exec step s as = .ok s') : I s' :=
  exec_of_along (fun s a s' hs ha _ => hstep s a s' hs ha) hs (along_true s as) h

theorem exec_error {I : σ → Prop} {E : ε → Prop}
    (hstep : ∀ s a s', I s → step s a = .ok s' → I s')
    (hfail : ∀ s a e, I s → step s a = .error e → E e)
    {s : σ} {as : List α} {e : ε} (hs : I s) (h : exec step s as = .error e) : E e :=
  exec_error_of_along (fun s a s' hs ha _ => hstep s a s' hs ha) hfail hs (along_true s as) h

end Transition

namespace Lock

universe u

variable {T : Type u}

/-- The holder of the lock is the one thread inside. -/
def Guards (holder : Option T) (inside : T → Prop) : Prop := ∀ t, holder = some t ↔ inside t

variable {holder : Option T} {inside inside' : T → Prop} {t : T}

theorem Guards.unique (h : Guards holder inside) {u : T} (ht : inside t) (hu : inside u) :
    t = u :=
  Option.some.inj (((h t).mpr ht).symm.trans ((h u).mpr hu))

theorem Guards.enter (h : Guards none inside) (hoff : ∀ u, u ≠ t → (inside' u ↔ inside u))
    (ht : inside' t) : Guards (some t) inside' := by
  intro u
  rw [Option.some.injEq]
  constructor
  · rintro rfl
    exact ht
  · intro hu
    by_contra hne
    exact nomatch (h u).mpr ((hoff u (Ne.symm hne)).mp hu)

theorem Guards.exit (h : Guards holder inside) (hoff : ∀ u, u ≠ t → (inside' u ↔ inside u))
    (ht : inside t) (ht' : ¬ inside' t) : Guards none inside' := by
  intro u
  refine iff_of_false (Option.some_ne_none u).symm (fun hu => ?_)
  by_cases hut : u = t
  · subst hut
    exact ht' hu
  · exact hut (h.unique ((hoff u hut).mp hu) ht)

theorem Guards.stay (h : Guards holder inside) (hoff : ∀ u, u ≠ t → (inside' u ↔ inside u))
    (ht : inside' t ↔ inside t) : Guards holder inside' := by
  intro u
  rw [h u]
  by_cases hut : u = t
  · subst hut
    exact ht.symm
  · exact (hoff u hut).symm

def Covers (holder : Option T) (inside : T → Prop) : Prop := ∀ t, inside t → holder = some t

theorem Covers.unique (h : Covers holder inside) {u : T} (ht : inside t) (hu : inside u) :
    t = u :=
  Option.some.inj ((h t ht).symm.trans (h u hu))

theorem Covers.enter (h : Covers none inside) (hoff : ∀ u, u ≠ t → inside' u → inside u) :
    Covers (some t) inside' := by
  intro u hu
  by_cases hut : u = t
  · rw [hut]
  · exact nomatch h u (hoff u hut hu)

theorem Covers.exit (h : Covers holder inside) (hoff : ∀ u, u ≠ t → inside' u → inside u)
    (ht : inside t) (ht' : ¬ inside' t) : Covers none inside' := by
  intro u hu
  by_cases hut : u = t
  · subst hut
    exact absurd hu ht'
  · exact absurd (h.unique (hoff u hut hu) ht) hut

theorem Covers.stay (h : Covers holder inside) (hoff : ∀ u, u ≠ t → inside' u → inside u)
    (ht : inside' t → inside t) : Covers holder inside' := by
  intro u hu
  by_cases hut : u = t
  · subst hut
    exact h u (ht hu)
  · exact h u (hoff u hut hu)

/-- `before` and `after` say whether `t` is inside. -/
inductive Turn (holder holder' : Option T) (t : T) (before after unlocks dies : Prop) : Prop where
  | lock (hfree : holder = none) (hholder : holder' = some t) (hin : after)
  | unlock (h : unlocks) (hholder : holder' = none) (hout : ¬ after)
  | stay (hholder : holder' = holder) (hin : after ↔ before)
  | die (h : dies) (hholder : holder' = holder) (hout : ¬ after)

variable {holder' : Option T} {unlocks dies : Prop}

theorem Turn.covers (h : Turn holder holder' t (inside t) (inside' t) unlocks dies)
    (hcovers : Covers holder inside) (hoff : ∀ u, u ≠ t → (inside' u ↔ inside u))
    (hunlock : unlocks → inside t) : Covers holder' inside' := by
  have hoff' : ∀ u, u ≠ t → inside' u → inside u := fun u hu => (hoff u hu).mp
  cases h with
  | lock hfree hholder _ =>
    rw [hholder]
    exact (hfree ▸ hcovers).enter hoff'
  | unlock h hholder hout =>
    rw [hholder]
    exact hcovers.exit hoff' (hunlock h) hout
  | stay hholder hin =>
    rw [hholder]
    exact hcovers.stay hoff' hin.mp
  | die _ hholder hout =>
    rw [hholder]
    exact hcovers.stay hoff' (fun hin => absurd hin hout)

/-- Where, besides, no thread is gone while it is inside. -/
theorem Turn.guards (h : Turn holder holder' t (inside t) (inside' t) unlocks dies)
    (hguards : Guards holder inside) (hoff : ∀ u, u ≠ t → (inside' u ↔ inside u))
    (hunlock : unlocks → inside t) (hdie : dies → ¬ inside t) : Guards holder' inside' := by
  cases h with
  | lock hfree hholder hin =>
    rw [hholder]
    exact (hfree ▸ hguards).enter hoff hin
  | unlock h hholder hout =>
    rw [hholder]
    exact hguards.exit hoff (hunlock h) hout
  | stay hholder hin =>
    rw [hholder]
    exact hguards.stay hoff hin
  | die h hholder hout =>
    rw [hholder]
    exact hguards.stay hoff (iff_of_false hout (hdie h))

end Lock
