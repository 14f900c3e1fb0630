import Lmap.Library.Loop
import Lmap.Library.Memory

/-!
Computations that fail in one particular way where they know too little, and what they answer once
more is known: what was answered otherwise stays.
-/

set_option autoImplicit false

universe u v

/-- The first one fails for want of knowledge, or the second one is the same. -/
def Settled {ε : Type u} {α : Type v} (bad : ε) (x y : Except ε α) : Prop := x = .error bad ∨ x = y

namespace Settled

variable {ε : Type u} {α β σ : Type v} {bad : ε}

protected theorem refl (x : Except ε α) : Settled bad x x := .inr rfl

theorem bind {x y : Except ε α} {k l : α → Except ε β} (h : Settled bad x y)
    (hk : ∀ a, Settled bad (k a) (l a)) : Settled bad (x >>= k) (y >>= l) := by
  rcases h with rfl | rfl
  · exact .inl rfl
  · cases x with
    | error f => exact .inr rfl
    | ok a => exact hk a

theorem bind_same (x : Except ε α) {k l : α → Except ε β} (hk : ∀ a, Settled bad (k a) (l a)) :
    Settled bad (x >>= k) (x >>= l) := (Settled.refl x).bind hk

theorem map {x y : Except ε α} (h : Settled bad x y) (f : α → β) :
    Settled bad (x.map f) (y.map f) := by
  rcases h with rfl | rfl
  · exact .inl rfl
  · exact .inr rfl

theorem ite {c : Prop} [Decidable c] {x y x' y' : Except ε α} (hx : Settled bad x x')
    (hy : Settled bad y y') : Settled bad (if c then x else y) (if c then x' else y') := by
  split
  · exact hx
  · exact hy

theorem loop {body body' : σ → Loop.Step σ (Except ε α)}
    (h : ∀ s, body s = .leave (.error bad) ∨ body s = body' s) (n : Nat) (s : σ) :
    Loop.run body n s = some (.error bad) ∨ Loop.run body n s = Loop.run body' n s := by
  induction n generalizing s with
  | zero => exact .inr rfl
  | succ n ih =>
    rcases h s with hb | hb
    · exact .inl (Loop.run_leave hb n)
    · cases hs : body s with
      | again s' =>
        rw [Loop.run_again hs, Loop.run_again (hb ▸ hs)]
        exact ih s'
      | leave r => exact .inr ((Loop.run_leave hs n).trans (Loop.run_leave (hb ▸ hs) n).symm)

end Settled

namespace Memory

def Below (m m' : Memory) : Prop := ∀ p b, m p = some b → m' p = some b

theorem Below.slice {m m' : Memory} (h : m.Below m') {p n : Nat} {bs : List UInt8}
    (hs : m.slice p n = some bs) : m'.slice p n = some bs := by
  rw [slice_eq_some_iff, holds_iff_getElem?] at hs ⊢
  refine ⟨hs.1, fun i hi => ?_⟩
  have hread := hs.2 i hi
  rw [List.getElem?_eq_getElem hi] at hread ⊢
  exact h _ _ hread

theorem below_append (bs : List UInt8) (m : Memory) :
    (append bs fun _ => none).Below (append bs m) := by
  intro p b hp
  by_cases hlt : p < bs.length
  · simpa only [append, if_pos hlt] using hp
  · simp only [append, if_neg hlt] at hp
    cases hp

end Memory
