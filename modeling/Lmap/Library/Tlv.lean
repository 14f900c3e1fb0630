import Mathlib.Tactic.Common

/-!
Lists of items laid out one after another, each saying how wide it is. The
items of such a list begin at the positions reached from the start of the
area by stepping over whole items.
-/

set_option autoImplicit false

namespace Tlv

/-- The position of item number `k`. `span p` is the width of the item at `p`, or `none`
where the list ends. -/
inductive ItemAt (span : Nat → Option Nat) (start stop : Nat) : Nat → Nat → Prop where
  | first : ItemAt span start stop 0 start
  | next {k p n : Nat} : ItemAt span start stop k p → p < stop → span p = some n →
      ItemAt span start stop (k + 1) (p + n)

def Advancing (span : Nat → Option Nat) (start stop : Nat) : Prop :=
  ∀ k p, ItemAt span start stop k p → p < stop → span p ≠ some 0

def AtMost (n : Nat) (span : Nat → Option Nat) (start stop : Nat) : Prop :=
  ∀ k p, ItemAt span start stop k p → p < stop → k < n

variable {span : Nat → Option Nat} {start stop : Nat}

theorem ItemAt.mono {stop' k p : Nat} (hle : stop ≤ stop') (h : ItemAt span start stop k p) :
    ItemAt span start stop' k p := by
  induction h with
  | first => exact .first
  | next _ hlt hspan ih => exact .next ih (by omega) hspan

theorem ItemAt.start_le {k p : Nat} (h : ItemAt span start stop k p) : start ≤ p := by
  induction h with
  | first => exact Nat.le_refl _
  | next _ _ _ ih => omega

theorem ItemAt.index_le (hadv : Advancing span start stop) {k p : Nat}
    (h : ItemAt span start stop k p) : start + k ≤ p := by
  induction h with
  | first => exact Nat.le_refl _
  | @next k p n hitem hlt hspan ih =>
    have hne := hadv k p hitem hlt
    rw [hspan] at hne
    have hpos : n ≠ 0 := fun h => hne (h ▸ rfl)
    omega

theorem not_advancing_iff : ¬ Advancing span start stop ↔
    ∃ k p, ItemAt span start stop k p ∧ p < stop ∧ span p = some 0 := by
  simp [Advancing]

theorem Advancing.atMost (hadv : Advancing span start stop) {n : Nat} (hroom : stop ≤ start + n) :
    AtMost n span start stop := by
  intro k p h hlt
  have := h.index_le hadv
  omega

end Tlv
