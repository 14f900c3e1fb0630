import Mathlib.Tactic.Common

/-! Two computations that can fail, side by side. -/

set_option autoImplicit false

universe u v w

/-- Both fail with related faults, or both give related results. -/
def Agree {ε ε' : Type u} {α β : Type v} (F : ε → ε' → Prop) (R : α → β → Prop) :
    Except ε α → Except ε' β → Prop
  | .error f, .error f' => F f f'
  | .ok a, .ok b => R a b
  | _, _ => False

namespace Agree

variable {ε ε' : Type u} {α β γ δ : Type v} {F : ε → ε' → Prop} {Q : α → β → Prop}
  {R : γ → δ → Prop}

theorem mono {F' : ε → ε' → Prop} {Q' : α → β → Prop} {x : Except ε α} {y : Except ε' β}
    (h : Agree F Q x y) (hF : ∀ f f', F f f' → F' f f') (hQ : ∀ a b, Q a b → Q' a b) :
    Agree F' Q' x y := by
  cases x with
  | error f =>
    cases y with
    | error f' => exact hF f f' h
    | ok b => exact h
  | ok a =>
    cases y with
    | error f' => exact h
    | ok b => exact hQ a b h

theorem bind {x : Except ε α} {y : Except ε' β} {k : α → Except ε γ} {l : β → Except ε' δ}
    (h : Agree F Q x y) (hk : ∀ a b, Q a b → Agree F R (k a) (l b)) :
    Agree F R (x >>= k) (y >>= l) := by
  cases x with
  | error f =>
    cases y with
    | error f' => exact h
    | ok b => exact h.elim
  | ok a =>
    cases y with
    | error f' => exact h.elim
    | ok b => exact hk a b h

theorem refl_eq (x : Except ε α) : Agree Eq Eq x x := by
  cases x <;> rfl

theorem bind_same {x : Except ε α} {k : α → Except ε γ} {l : α → Except ε δ}
    (hk : ∀ a, Agree Eq R (k a) (l a)) : Agree Eq R (x >>= k) (x >>= l) :=
  (refl_eq x).bind (fun a b hab => by
    subst hab
    exact hk a)

end Agree
