import Mathlib.Algebra.BigOperators.Group.List.Basic
import Mathlib.Algebra.Order.Group.Multiset
import Mathlib.Tactic.Common

/-!
Blocks of memory that are allocated and freed. A program is described by the blocks that it is
given and by those that it leaves, whatever other blocks there are. To free a block that is not
allocated is an error, so a program that can be described so frees nothing twice.
-/

set_option autoImplicit false

namespace Ownership

inductive Stop where
  | unallocated (a : Nat)
  deriving DecidableEq, Repr

abbrev Prog := StateT (Multiset Nat) (Except Stop)

structure Allocator where
  block : Multiset Nat → Nat
  unused : ∀ live, block live ∉ live

variable {α β : Type}

def each (f : α → Prog Unit) : List α → Prog Unit
  | [] => pure ()
  | a :: as => do
    f a
    each f as

def fold (f : β → α → Prog β) : β → List α → Prog β
  | b, [] => pure b
  | b, a :: as => do
    let b ← f b a
    fold f b as

def Allocator.malloc (A : Allocator) : Prog Nat := fun live =>
  .ok (A.block live, A.block live ::ₘ live)

def free (a : Nat) : Prog Unit := fun live =>
  if a ∈ live then .ok ((), live.erase a) else .error (.unallocated a)

def release : Option Nat → Prog Unit
  | none => pure ()
  | some a => free a

def behind : Option Nat → Multiset Nat
  | none => 0
  | some a => {a}

/-- From `own`, and whatever else is allocated, to blocks that meet `post`. No address is that of
two blocks. -/
def Triple (own : Multiset Nat) (x : Prog α) (post : α → Multiset Nat → Prop) : Prop :=
  ∀ frame, (own + frame).Nodup → ∃ a own', x.run (own + frame) = .ok (a, own' + frame) ∧
    (own' + frame).Nodup ∧ post a own'

variable {own own' rest : Multiset Nat} {x : Prog α} {f : α → Prog β}
  {mid : α → Multiset Nat → Prop} {post : β → Multiset Nat → Prop}

theorem triple_pure {post : α → Multiset Nat → Prop} {a : α} (h : post a own) :
    Triple own (pure a) post := fun _ hnodup => ⟨a, own, rfl, hnodup, h⟩

/-- What the second program does not need is left alone by the first. -/
theorem Triple.bind (hx : Triple own x mid) (rest : Multiset Nat)
    (hf : ∀ a own', mid a own' → Triple (own' + rest) (f a) post) :
    Triple (own + rest) (x >>= f) post := by
  intro frame hnodup
  rw [add_assoc] at hnodup ⊢
  obtain ⟨a, own', hrun, hnodup', hmid⟩ := hx (rest + frame) hnodup
  rw [← add_assoc] at hnodup'
  obtain ⟨b, own'', hrun', hnodup'', hpost⟩ := hf a own' hmid frame hnodup'
  refine ⟨b, own'', ?_, hnodup'', hpost⟩
  rw [StateT.run_bind, hrun]
  rw [add_assoc] at hrun'
  exact hrun'

theorem Triple.next (hx : Triple own x mid) (hf : ∀ a own', mid a own' → Triple own' (f a) post) :
    Triple own (x >>= f) post := by
  have hbind := hx.bind 0 fun a own' hmid => by
    rw [add_zero]
    exact hf a own' hmid
  rwa [add_zero] at hbind

theorem Triple.frame (hx : Triple own x mid) (rest : Multiset Nat) :
    Triple (own + rest) x fun a own' => ∃ own'', own' = own'' + rest ∧ mid a own'' := by
  intro frame hnodup
  rw [add_assoc] at hnodup
  obtain ⟨a, own', hrun, hnodup', hmid⟩ := hx (rest + frame) hnodup
  rw [← add_assoc] at hnodup'
  exact ⟨a, own' + rest, by rw [add_assoc, hrun, add_assoc], hnodup', own', rfl, hmid⟩

theorem triple_malloc (A : Allocator) : Triple 0 A.malloc fun a own => own = {a} := by
  intro frame hnodup
  rw [zero_add] at hnodup
  refine ⟨A.block frame, {A.block frame}, ?_, ?_, rfl⟩
  · rw [zero_add, Multiset.singleton_add]
    rfl
  · rw [Multiset.singleton_add]
    exact Multiset.nodup_cons.mpr ⟨A.unused frame, hnodup⟩

theorem triple_free (a : Nat) : Triple {a} (free a) fun _ own => own = 0 := by
  intro frame hnodup
  rw [Multiset.singleton_add] at hnodup
  refine ⟨(), 0, ?_, by rw [zero_add]; exact (Multiset.nodup_cons.mp hnodup).2, rfl⟩
  have hmem : a ∈ ({a} : Multiset Nat) + frame := by simp
  have herase : (({a} : Multiset Nat) + frame).erase a = frame := by
    rw [Multiset.singleton_add, Multiset.erase_cons_head]
  rw [zero_add]
  exact (if_pos hmem).trans (by rw [herase])

theorem triple_release (p : Option Nat) : Triple (behind p) (release p) fun _ own => own = 0 := by
  cases p with
  | none => exact triple_pure rfl
  | some a => exact triple_free a

theorem Triple.malloc (A : Allocator) {f : Nat → Prog β}
    (h : ∀ a, Triple ({a} + own) (f a) post) : Triple own (A.malloc >>= f) post := by
  have hbind := (triple_malloc A).bind own fun a own' hown => by
    rw [hown]
    exact h a
  rwa [zero_add] at hbind

theorem Triple.free {a : Nat} {f : Unit → Prog β} (h : Triple own (f ()) post) :
    Triple ({a} + own) (free a >>= f) post := by
  refine (triple_free a).bind _ fun _ own' hown => ?_
  rw [hown, zero_add]
  exact h

theorem Triple.release {p : Option Nat} {f : Unit → Prog β} (h : Triple own (f ()) post) :
    Triple (behind p + own) (release p >>= f) post := by
  refine (triple_release p).bind _ fun _ own' hown => ?_
  rw [hown, zero_add]
  exact h

theorem Triple.of_eq (h : Triple own x mid) (heq : own = own') : Triple own' x mid := heq ▸ h

theorem Triple.mono (h : Triple own x mid) {mid' : α → Multiset Nat → Prop}
    (hmid : ∀ a own', mid a own' → mid' a own') : Triple own x mid' := by
  intro frame hnodup
  obtain ⟨a, own', hrun, hnodup', ha⟩ := h frame hnodup
  exact ⟨a, own', hrun, hnodup', hmid a own' ha⟩

/-- Each round has its own blocks, and uses them up. -/
theorem triple_each {f : α → Prog Unit} {blocks : α → Multiset Nat} {as : List α}
    (h : ∀ a ∈ as, Triple (blocks a) (f a) fun _ own => own = 0) :
    Triple (as.map blocks).sum (each f as) fun _ own => own = 0 := by
  induction as with
  | nil => exact triple_pure rfl
  | cons a as ih =>
    obtain ⟨ha, has⟩ := List.forall_mem_cons.mp h
    rw [List.map_cons, List.sum_cons]
    refine ha.bind _ fun _ own' hown => ?_
    rw [hown, zero_add]
    exact ih has

theorem triple_fold {f : β → α → Prog β} {as : List α} {I : List α → β → Multiset Nat → Prop}
    (h : ∀ done a todo b own, as = done ++ a :: todo → I done b own →
      Triple own (f b a) (I (done ++ [a])))
    {b : β} (hb : I [] b own) : Triple own (fold f b as) (I as) := by
  suffices hfrom : ∀ todo done b own, as = done ++ todo → I done b own →
      Triple own (fold f b todo) (I as) from hfrom as [] b own rfl hb
  intro todo
  induction todo with
  | nil =>
    intro done b own has hb
    rw [List.append_nil] at has
    exact triple_pure (has ▸ hb)
  | cons a todo ih =>
    intro done b own has hb
    refine (h done a todo b own has hb).next fun b' own' hb' => ?_
    exact ih (done ++ [a]) b' own' (by rw [has, List.append_assoc]; rfl) hb'

end Ownership
