import Mathlib.Data.Nat.Notation
import Mathlib.Tactic.Common

/-!
Loops whose body either goes round again or leaves with a result.
The rules below are what a proof about such a loop needs: more fuel never
changes an answer, an invariant, a variant, a set of states that the body
never leaves, and two loops that go round side by side.
-/

set_option autoImplicit false

namespace Loop

universe u v

inductive Step (σ : Type u) (ρ : Type v) where
  | again : σ → Step σ ρ
  | leave : ρ → Step σ ρ

variable {σ : Type u} {ρ : Type v}

/-- `none` means that the fuel ran out before the body left. -/
def run (body : σ → Step σ ρ) : Nat → σ → Option ρ
  | 0, _ => none
  | n + 1, s =>
    match body s with
    | .again s' => run body n s'
    | .leave r => some r

/-- The states in which the body is entered, in order. -/
def visits (body : σ → Step σ ρ) : Nat → σ → List σ
  | 0, _ => []
  | n + 1, s =>
    s :: match body s with
      | .again s' => visits body n s'
      | .leave _ => []

variable {body : σ → Step σ ρ}

theorem run_again {s s' : σ} (h : body s = .again s') (n : Nat) :
    run body (n + 1) s = run body n s' := by simp [run, h]

theorem run_leave {s : σ} {r : ρ} (h : body s = .leave r) (n : Nat) :
    run body (n + 1) s = some r := by simp [run, h]

theorem visits_again {s s' : σ} (h : body s = .again s') (n : Nat) :
    visits body (n + 1) s = s :: visits body n s' := by simp [visits, h]

theorem visits_leave {s : σ} {r : ρ} (h : body s = .leave r) (n : Nat) :
    visits body (n + 1) s = [s] := by simp [visits, h]

theorem mem_visits_succ {n : Nat} {s t : σ} : t ∈ visits body (n + 1) s ↔
    t = s ∨ ∃ s', body s = .again s' ∧ t ∈ visits body n s' := by
  cases hb : body s with
  | again s' => simp [visits_again hb]
  | leave r => simp [visits_leave hb]

theorem run_mono {n m : Nat} {s : σ} {r : ρ} (h : run body n s = some r) (hm : n ≤ m) :
    run body m s = some r := by
  induction n generalizing m s with
  | zero => simp [run] at h
  | succ n ih =>
    obtain ⟨m, rfl⟩ : ∃ k, m = k + 1 := ⟨m - 1, by omega⟩
    cases hb : body s with
    | again s' =>
      rw [run_again hb] at h ⊢
      exact ih h (by omega)
    | leave r' =>
      rw [run_leave hb] at h ⊢
      exact h

theorem visits_invariant {P : σ → Prop}
    (hstep : ∀ s s', P s → body s = .again s' → P s')
    (n : Nat) {s : σ} (hs : P s) : ∀ t ∈ visits body n s, P t := by
  induction n generalizing s with
  | zero => simp [visits]
  | succ n ih =>
    intro t ht
    cases hb : body s with
    | again s' =>
      rw [visits_again hb, List.mem_cons] at ht
      rcases ht with rfl | ht
      · exact hs
      · exact ih (hstep s s' hs hb) t ht
    | leave r =>
      rw [visits_leave hb, List.mem_singleton] at ht
      exact ht ▸ hs

theorem run_invariant {P : σ → Prop} {Q : ρ → Prop}
    (hstep : ∀ s s', P s → body s = .again s' → P s')
    (hleave : ∀ s r, P s → body s = .leave r → Q r)
    {n : Nat} {s : σ} {r : ρ} (hs : P s) (h : run body n s = some r) : Q r := by
  induction n generalizing s with
  | zero => simp [run] at h
  | succ n ih =>
    cases hb : body s with
    | again s' =>
      rw [run_again hb] at h
      exact ih (hstep s s' hs hb) h
    | leave r' =>
      rw [run_leave hb, Option.some.injEq] at h
      exact hleave s r hs (h ▸ hb)

theorem run_visits {n : Nat} {s : σ} {r : ρ} (h : run body n s = some r) :
    ∃ t ∈ visits body n s, body t = .leave r := by
  induction n generalizing s with
  | zero => simp [run] at h
  | succ n ih =>
    cases hb : body s with
    | again s' =>
      rw [run_again hb] at h
      obtain ⟨t, ht, hleave⟩ := ih h
      exact ⟨t, by simp [visits_again hb, ht], hleave⟩
    | leave r' =>
      rw [run_leave hb, Option.some.injEq] at h
      exact ⟨s, by simp [visits_leave hb], h ▸ hb⟩

theorem visits_pred {n : Nat} {s t : σ} (ht : t ∈ visits body n s) :
    t = s ∨ ∃ u ∈ visits body n s, body u = .again t := by
  induction n generalizing s with
  | zero => simp [visits] at ht
  | succ n ih =>
    rcases mem_visits_succ.mp ht with rfl | ⟨s', hb, ht⟩
    · exact .inl rfl
    · rw [visits_again hb]
      rcases ih ht with rfl | ⟨u, hu, hbody⟩
      · exact .inr ⟨s, by simp, hb⟩
      · exact .inr ⟨u, List.mem_cons_of_mem _ hu, hbody⟩

theorem visits_step {n : Nat} {s t t' : σ} (ht : t ∈ visits body n s) (hb : body t = .again t') :
    t' ∈ visits body (n + 1) s := by
  induction n generalizing s with
  | zero => simp [visits] at ht
  | succ n ih =>
    rcases mem_visits_succ.mp ht with rfl | ⟨s', hs, ht⟩
    · exact mem_visits_succ.mpr (.inr ⟨t', hb, mem_visits_succ.mpr (.inl rfl)⟩)
    · exact mem_visits_succ.mpr (.inr ⟨s', hs, ih ht⟩)

theorem visits_next {n : Nat} {s t t' : σ} (h : (run body n s).isSome) (ht : t ∈ visits body n s)
    (hb : body t = .again t') : t' ∈ visits body n s := by
  induction n generalizing s with
  | zero => simp [visits] at ht
  | succ n ih =>
    rcases mem_visits_succ.mp ht with rfl | ⟨s', hs, ht⟩
    · rw [run_again hb] at h
      cases n with
      | zero => simp [run] at h
      | succ n => exact mem_visits_succ.mpr (.inr ⟨t', hb, mem_visits_succ.mpr (.inl rfl)⟩)
    · rw [run_again hs] at h
      exact mem_visits_succ.mpr (.inr ⟨s', hs, ih h ht⟩)

theorem run_of_visit {n : Nat} {s t : σ} {r : ρ} (ht : t ∈ visits body n s)
    (h : run body n s = some r) : ∃ m, m ≤ n ∧ run body m t = some r := by
  induction n generalizing s with
  | zero => simp [run] at h
  | succ n ih =>
    cases hb : body s with
    | again s' =>
      rw [visits_again hb, List.mem_cons] at ht
      rcases ht with rfl | ht
      · exact ⟨n + 1, Nat.le_refl _, h⟩
      · rw [run_again hb] at h
        obtain ⟨m, hm, hrun⟩ := ih ht h
        exact ⟨m, by omega, hrun⟩
    | leave r' =>
      rw [visits_leave hb, List.mem_singleton] at ht
      subst ht
      exact ⟨n + 1, Nat.le_refl _, h⟩

/-- The variant rule: a measure that every round lowers bounds the rounds. -/
theorem run_isSome {P : σ → Prop} {μ : σ → Nat}
    (hstep : ∀ s s', P s → body s = .again s' → P s' ∧ μ s' < μ s)
    {n : Nat} {s : σ} (hs : P s) (hn : μ s < n) : (run body n s).isSome := by
  induction n generalizing s with
  | zero => omega
  | succ n ih =>
    cases hb : body s with
    | again s' =>
      rw [run_again hb]
      obtain ⟨hp, hlt⟩ := hstep s s' hs hb
      exact ih hp (by omega)
    | leave r => simp [run_leave hb]

theorem visits_length_le {P : σ → Prop} {μ : σ → Nat}
    (hstep : ∀ s s', P s → body s = .again s' → P s' ∧ μ s' < μ s)
    (n : Nat) {s : σ} (hs : P s) : (visits body n s).length ≤ μ s + 1 := by
  induction n generalizing s with
  | zero => simp [visits]
  | succ n ih =>
    cases hb : body s with
    | again s' =>
      obtain ⟨hp, hlt⟩ := hstep s s' hs hb
      have := ih hp
      simp only [visits_again hb, List.length_cons]
      omega
    | leave r => simp [visits_leave hb]

/-- A set of states in which the body goes round and stays in the set. -/
theorem run_stuck {P : σ → Prop} (hstep : ∀ s, P s → ∃ s', body s = .again s' ∧ P s')
    (n : Nat) {s : σ} (hs : P s) : run body n s = none := by
  induction n generalizing s with
  | zero => rfl
  | succ n ih =>
    obtain ⟨s', hb, hp⟩ := hstep s hs
    rw [run_again hb]
    exact ih hp

/-- Where every round lowers the measure or enters such a set, the measure is
enough fuel to know the answer: no larger fuel gives another one. -/
theorem run_fuel {I P : σ → Prop} {μ : σ → Nat}
    (hstuck : ∀ s, P s → ∃ s', body s = .again s' ∧ P s')
    (hstep : ∀ s s', I s → body s = .again s' → I s' ∧ (μ s' < μ s ∨ P s))
    {n m : Nat} {s : σ} (hs : I s) (hn : μ s < n) (hm : μ s < m) :
    run body n s = run body m s := by
  induction n generalizing m s with
  | zero => omega
  | succ n ih =>
    obtain ⟨m, rfl⟩ : ∃ k, m = k + 1 := ⟨m - 1, by omega⟩
    cases hb : body s with
    | leave r => rw [run_leave hb, run_leave hb]
    | again s' =>
      obtain ⟨hi, hlt | hp⟩ := hstep s s' hs hb
      · rw [run_again hb, run_again hb]
        exact ih hi (by omega) (by omega)
      · rw [run_stuck hstuck _ hp, run_stuck hstuck _ hp]

theorem visits_fuel {n m : Nat} {s : σ} (h : (run body n s).isSome) (hm : n ≤ m) :
    visits body m s = visits body n s := by
  induction n generalizing m s with
  | zero => simp [run] at h
  | succ n ih =>
    obtain ⟨m, rfl⟩ : ∃ k, m = k + 1 := ⟨m - 1, by omega⟩
    cases hb : body s with
    | leave r => rw [visits_leave hb, visits_leave hb]
    | again s' =>
      rw [run_again hb] at h
      rw [visits_again hb, visits_again hb, ih h (by omega)]

theorem visits_chain (n : Nat) (s : σ) :
    (visits body n s).IsChain (fun t t' => body t = .again t') := by
  induction n generalizing s with
  | zero => simp [visits]
  | succ n ih =>
    cases hb : body s with
    | leave r => simp [visits_leave hb]
    | again s' =>
      rw [visits_again hb]
      cases n with
      | zero => simp [visits]
      | succ n =>
        have hs : visits body (n + 1) s' = s' :: (visits body (n + 1) s').tail := by simp [visits]
        have h := ih s'
        rw [hs] at h ⊢
        exact List.isChain_cons_cons.mpr ⟨hb, h⟩

section Side

universe u' v'

variable {σ' : Type u'} {ρ' : Type v'} {body' : σ' → Step σ' ρ'}

inductive StepRel (R : σ → σ' → Prop) (Q : ρ → ρ' → Prop) : Step σ ρ → Step σ' ρ' → Prop where
  | again {s : σ} {s' : σ'} : R s s' → StepRel R Q (.again s) (.again s')
  | leave {r : ρ} {r' : ρ'} : Q r r' → StepRel R Q (.leave r) (.leave r')

variable {R : σ → σ' → Prop} {Q : ρ → ρ' → Prop}

theorem run_rel (hstep : ∀ s s', R s s' → StepRel R Q (body s) (body' s'))
    (n : Nat) {s : σ} {s' : σ'} (h : R s s') : Option.Rel Q (run body n s) (run body' n s') := by
  induction n generalizing s s' with
  | zero => exact .none
  | succ n ih =>
    have hrel := hstep s s' h
    cases hb : body s with
    | again t =>
      rw [hb] at hrel
      cases hb' : body' s' with
      | leave r' =>
        rw [hb'] at hrel
        cases hrel
      | again t' =>
        rw [hb'] at hrel
        cases hrel with
        | again ht =>
          rw [run_again hb, run_again hb']
          exact ih ht
    | leave r =>
      rw [hb] at hrel
      cases hb' : body' s' with
      | again t' =>
        rw [hb'] at hrel
        cases hrel
      | leave r' =>
        rw [hb'] at hrel
        cases hrel with
        | leave hr =>
          rw [run_leave hb, run_leave hb']
          exact .some hr

theorem run_eq {body' : σ' → Step σ' ρ} (hstep : ∀ s s', R s s' → StepRel R Eq (body s) (body' s'))
    (n : Nat) {s : σ} {s' : σ'} (h : R s s') : run body n s = run body' n s' := by
  have hrel := run_rel hstep n h
  generalize run body n s = x at hrel ⊢
  generalize run body' n s' = y at hrel ⊢
  cases hrel with
  | none => rfl
  | some heq => rw [heq]

theorem visits_rel (hstep : ∀ s s', R s s' → StepRel R Q (body s) (body' s'))
    (n : Nat) {s : σ} {s' : σ'} (h : R s s') :
    List.Forall₂ R (visits body n s) (visits body' n s') := by
  induction n generalizing s s' with
  | zero => exact .nil
  | succ n ih =>
    have hrel := hstep s s' h
    cases hb : body s with
    | again t =>
      rw [hb] at hrel
      cases hb' : body' s' with
      | leave r' =>
        rw [hb'] at hrel
        cases hrel
      | again t' =>
        rw [hb'] at hrel
        cases hrel with
        | again ht =>
          rw [visits_again hb, visits_again hb']
          exact .cons h (ih ht)
    | leave r =>
      rw [hb] at hrel
      cases hb' : body' s' with
      | again t' =>
        rw [hb'] at hrel
        cases hrel
      | leave r' =>
        rw [visits_leave hb, visits_leave hb']
        exact .cons h .nil

end Side

/-- Bodies that agree where the first loop goes make the same loop. -/
theorem run_congr {body' : σ → Step σ ρ} (n : Nat) {s : σ}
    (h : ∀ t ∈ visits body n s, body t = body' t) :
    run body n s = run body' n s ∧ visits body n s = visits body' n s := by
  induction n generalizing s with
  | zero => exact ⟨rfl, rfl⟩
  | succ n ih =>
    have hs : body s = body' s := h s (by simp [visits])
    cases hb : body s with
    | again t =>
      have hb' : body' s = .again t := by rw [← hs, hb]
      have hrest : ∀ u ∈ visits body n t, body u = body' u := by
        intro u hu
        exact h u (by rw [visits_again hb]; exact List.mem_cons_of_mem _ hu)
      obtain ⟨hrun, hvisits⟩ := ih hrest
      rw [run_again hb, run_again hb', visits_again hb, visits_again hb', hrun, hvisits]
      exact ⟨rfl, rfl⟩
    | leave r =>
      have hb' : body' s = .leave r := by rw [← hs, hb]
      rw [run_leave hb, run_leave hb', visits_leave hb, visits_leave hb']
      exact ⟨rfl, rfl⟩

end Loop
