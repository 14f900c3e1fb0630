import Mathlib.Tactic.Common

/-!
Code without jumps, checked before it runs: what an operation needs is asked of a view of the
state, which is carried through the code from one operation to the next.
-/

set_option autoImplicit false

namespace Ahead

universe u v

variable {V : Type u} {O : Type v}

/-- Each operation is allowed where the code comes to it. What is allowed can depend on the code
that is left behind the operation. -/
def Checked (effect : V → O → V) (Allowed : V → O → List O → Prop) : V → List O → Prop
  | _, [] => True
  | v, op :: code => Allowed v op code ∧ Checked effect Allowed (effect v op) code

variable {effect : V → O → V} {Allowed : V → O → List O → Prop} {v v' : V}
  {code : List O}

instance decidableChecked [∀ v op code, Decidable (Allowed v op code)] :
    ∀ v code, Decidable (Checked effect Allowed v code)
  | _, [] => isTrue trivial
  | v, op :: code =>
    have := decidableChecked (effect v op) code
    inferInstanceAs (Decidable (Allowed v op code ∧ Checked effect Allowed (effect v op) code))

theorem Checked.mono {Better : V → V → Prop}
    (hallowed : ∀ {v v' op code}, Better v v' → Allowed v op code → Allowed v' op code)
    (heffect : ∀ {v v' op}, Better v v' → Better (effect v op) (effect v' op))
    (h : Checked effect Allowed v code) (hv : Better v v') : Checked effect Allowed v' code := by
  induction code generalizing v v' with
  | nil => trivial
  | cons op code ih =>
    obtain ⟨hop, hcode⟩ := h
    exact ⟨hallowed hv hop, ih hcode (heffect hv)⟩

end Ahead
