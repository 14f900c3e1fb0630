import Mathlib.Data.List.Nodup
import Mathlib.Logic.Function.Basic
import Mathlib.Tactic.Common

/-!
The simple queue of `queue.h`: nodes with a link to the next one, a pointer to the first
and a pointer to the last link. Every assignment of the macros is one operation here; where
it goes through a pointer to no node, there is no result.
-/

set_option autoImplicit false

namespace SimpleQueue

universe u

structure Node (M : Type u) where
  message : M
  next : Option Nat

/-- What `sqh_last` points to: the pointer `sqh_first` of the head, or the link of a node. -/
inductive Link where
  | head
  | next (a : Nat)
  deriving DecidableEq, Repr

structure Queue (M : Type u) where
  heap : Nat → Option (Node M)
  first : Option Nat
  last : Link

variable {M : Type u}

namespace Queue

def initial : Queue M := ⟨fun _ => none, none, .head⟩

def write (q : Queue M) (a : Nat) (node : Option (Node M)) : Queue M :=
  { q with heap := Function.update q.heap a node }

def setNext (q : Queue M) (a : Nat) (v : Option Nat) : Option (Queue M) :=
  (q.heap a).map fun node => q.write a (some { node with next := v })

/-- `*head->sqh_last = v`. -/
def storeLast (q : Queue M) (v : Option Nat) : Option (Queue M) :=
  match q.last with
  | .head => some { q with first := v }
  | .next b => q.setNext b v

/-- `head->sqh_last = l`. -/
def setLast (q : Queue M) (l : Link) : Queue M := { q with last := l }

def insertTail (q : Queue M) (a : Nat) : Option (Queue M) := do
  let q ← q.setNext a none
  let q ← q.storeLast (some a)
  pure (q.setLast (.next a))

def removeHead (q : Queue M) (a : Nat) : Option (Queue M) :=
  (q.heap a).map fun node =>
    if node.next = none then { q with first := node.next, last := .head }
    else { q with first := node.next }

def free (q : Queue M) (a : Nat) : Queue M := q.write a none

end Queue

open Queue

def Chain (heap : Nat → Option (Node M)) : Option Nat → List (Nat × M) → Prop
  | p, [] => p = none
  | p, (a, m) :: items => p = some a ∧ ∃ next, heap a = some ⟨m, next⟩ ∧ Chain heap next items

def addresses (items : List (Nat × M)) : List Nat := items.map Prod.fst

def lastLink (items : List (Nat × M)) : Link :=
  match items.getLast? with
  | none => .head
  | some (a, _) => .next a

/-- The queue holds these items, and its tail pointer designates the last link. -/
structure Linked (q : Queue M) (items : List (Nat × M)) : Prop where
  chain : Chain q.heap q.first items
  nodup : (addresses items).Nodup
  last : q.last = lastLink items

/-- The last item is reached, but the tail pointer still designates the link before it. -/
structure Hung (q : Queue M) (items : List (Nat × M)) (a : Nat) (m : M) : Prop where
  chain : Chain q.heap q.first (items ++ [(a, m)])
  nodup : (addresses (items ++ [(a, m)])).Nodup
  last : q.last = lastLink items

variable {heap heap' : Nat → Option (Node M)} {q : Queue M} {items : List (Nat × M)}
  {p : Option Nat} {a b : Nat} {m : M} {node : Node M}

theorem linked_initial : Linked (initial : Queue M) [] := ⟨rfl, List.nodup_nil, rfl⟩

@[simp] theorem lastLink_snoc (items : List (Nat × M)) (a : Nat) (m : M) :
    lastLink (items ++ [(a, m)]) = .next a := by simp [lastLink]

theorem lastLink_cons (a : Nat) (m : M) (e : Nat × M) (items : List (Nat × M)) :
    lastLink ((a, m) :: e :: items) = lastLink (e :: items) := by
  simp [lastLink, List.getLast?_cons_cons]

theorem Chain.frame (h : Chain heap p items) (hsame : ∀ b ∈ addresses items, heap' b = heap b) :
    Chain heap' p items := by
  induction items generalizing p with
  | nil => exact h
  | cons e items ih =>
    obtain ⟨a, m⟩ := e
    obtain ⟨hp, next, hnode, hrest⟩ := h
    refine ⟨hp, next, ?_, ih hrest (fun b hb => hsame b (List.mem_cons_of_mem _ hb))⟩
    rw [hsame a List.mem_cons_self, hnode]

theorem Chain.allocated (h : Chain heap p items) (ha : a ∈ addresses items) :
    (heap a).isSome := by
  induction items generalizing p with
  | nil => cases ha
  | cons e items ih =>
    obtain ⟨b, m⟩ := e
    obtain ⟨-, next, hnode, hrest⟩ := h
    rcases List.mem_cons.mp ha with rfl | ha
    · simp [hnode]
    · exact ih hrest ha

theorem Chain.unique {items' : List (Nat × M)} (h : Chain heap p items)
    (h' : Chain heap p items') : items = items' := by
  induction items generalizing p items' with
  | nil =>
    cases items' with
    | nil => rfl
    | cons e' items' => cases h.symm.trans h'.1
  | cons e items ih =>
    obtain ⟨a, m⟩ := e
    obtain ⟨hp, next, hnode, hrest⟩ := h
    cases items' with
    | nil => cases hp.symm.trans h'
    | cons e' items' =>
      obtain ⟨a', m'⟩ := e'
      obtain ⟨hp', next', hnode', hrest'⟩ := h'
      cases hp.symm.trans hp'
      cases hnode.symm.trans hnode'
      rw [ih hrest hrest']

theorem Linked.write (h : Linked q items) (ha : a ∉ addresses items) (node : Option (Node M)) :
    Linked (q.write a node) items where
  chain := by
    refine h.chain.frame (fun b hb => Function.update_of_ne ?_ _ _)
    rintro rfl
    exact ha hb
  nodup := h.nodup
  last := h.last

theorem Hung.write (h : Hung q items a m) (hb : b ∉ addresses (items ++ [(a, m)]))
    (node : Option (Node M)) : Hung (q.write b node) items a m where
  chain := by
    refine h.chain.frame (fun c hc => Function.update_of_ne ?_ _ _)
    rintro rfl
    exact hb hc
  nodup := h.nodup
  last := h.last

theorem Linked.removeHead (h : Linked q ((a, m) :: items)) :
    ∃ q', q.removeHead a = some q' ∧ q'.heap = q.heap ∧ Linked q' items := by
  obtain ⟨⟨-, next, hnode, hrest⟩, hnodup, hlast⟩ := h
  have hnodup' : (addresses items).Nodup := (List.nodup_cons.mp hnodup).2
  cases items with
  | nil =>
    have hnone : next = none := hrest
    subst hnone
    exact ⟨{ q with first := none, last := .head },
      by simp only [Queue.removeHead, hnode, Option.map_some, if_true], rfl, rfl, hnodup', rfl⟩
  | cons e items =>
    have hsome : next ≠ none := by
      obtain ⟨b, m'⟩ := e
      rw [hrest.1]
      exact Option.some_ne_none b
    exact ⟨{ q with first := next },
      by simp only [Queue.removeHead, hnode, Option.map_some, hsome, if_false], rfl, hrest,
      hnodup', hlast.trans (lastLink_cons a m e items)⟩

theorem Linked.setNext (h : Linked q items) (ha : a ∉ addresses items)
    (hnode : q.heap a = some node) :
    q.setNext a none = some (q.write a (some ⟨node.message, none⟩)) ∧
      Linked (q.write a (some ⟨node.message, none⟩)) items :=
  ⟨by simp only [Queue.setNext, hnode, Option.map_some], h.write ha _⟩

theorem Chain.extend {m' : M} (h : Chain heap p (items ++ [(b, m)]))
    (hnodup : (addresses (items ++ [(b, m)])).Nodup) (ha : a ∉ addresses (items ++ [(b, m)]))
    (hnode : heap a = some ⟨m', none⟩) :
    heap b = some ⟨m, none⟩ ∧ Chain (Function.update heap b (some ⟨m, some a⟩)) p
      (items ++ [(b, m)] ++ [(a, m')]) := by
  induction items generalizing p with
  | nil =>
    obtain ⟨hp, next, hb, hnone⟩ := h
    have hnone : next = none := hnone
    subst hnone
    have hab : a ≠ b := fun hab => ha (by simp [addresses, hab])
    refine ⟨hb, hp, some a, Function.update_self _ _ _, rfl, none, ?_, rfl⟩
    rw [Function.update_of_ne hab, hnode]
  | cons e items ih =>
    obtain ⟨c, mc⟩ := e
    obtain ⟨hp, next, hc, hrest⟩ := h
    have hcons := List.nodup_cons.mp hnodup
    have hcb : c ≠ b := by
      rintro rfl
      exact hcons.1 (by simp)
    have ha' : a ∉ addresses (items ++ [(b, m)]) := fun hmem => ha (List.mem_cons_of_mem _ hmem)
    obtain ⟨hb, hchain⟩ := ih hrest hcons.2 ha'
    exact ⟨hb, hp, next, by rw [Function.update_of_ne hcb, hc], hchain⟩

/-- The store goes through the tail pointer, to the link of the last item or to the head. -/
theorem Linked.storeLast (h : Linked q items) (ha : a ∉ addresses items)
    (hnode : q.heap a = some ⟨m, none⟩) :
    ∃ q', q.storeLast (some a) = some q' ∧ Hung q' items a m ∧
      ∀ b, b ∉ addresses items → q'.heap b = q.heap b := by
  obtain ⟨hchain, hnodup, hlast⟩ := h
  have hnodup' : (addresses (items ++ [(a, m)])).Nodup := by
    rw [addresses, List.map_append, List.nodup_append]
    refine ⟨hnodup, List.nodup_singleton a, fun b hb c hc => ?_⟩
    rintro rfl
    obtain rfl := List.mem_singleton.mp hc
    exact ha hb
  rcases List.eq_nil_or_concat items with rfl | ⟨init, ⟨b, mb⟩, rfl⟩
  · have hhead : q.last = .head := hlast
    exact ⟨{ q with first := some a }, by simp only [Queue.storeLast, hhead],
      ⟨⟨rfl, none, hnode, rfl⟩, hnodup', hlast⟩, fun _ _ => rfl⟩
  · rw [List.concat_eq_append] at *
    obtain ⟨hb, hext⟩ := hchain.extend hnodup ha hnode
    have hnext : q.last = .next b := by rw [hlast, lastLink_snoc]
    refine ⟨q.write b (some ⟨mb, some a⟩), ?_, ⟨hext, hnodup', hlast⟩, fun c hc => ?_⟩
    · simp only [Queue.storeLast, hnext, Queue.setNext, hb, Option.map_some]
    · have hcb : c ≠ b := by
        rintro rfl
        exact hc (by simp [addresses])
      exact Function.update_of_ne hcb _ _

theorem Hung.setLast (h : Hung q items a m) : Linked (q.setLast (.next a)) (items ++ [(a, m)]) where
  chain := h.chain
  nodup := h.nodup
  last := (lastLink_snoc items a m).symm

theorem Linked.insertTail (h : Linked q items) (ha : a ∉ addresses items)
    (hnode : q.heap a = some node) :
    ∃ q', q.insertTail a = some q' ∧ Linked q' (items ++ [(a, node.message)]) ∧
      ∀ b, b ∉ addresses (items ++ [(a, node.message)]) → q'.heap b = q.heap b := by
  obtain ⟨hset, hlinked⟩ := h.setNext ha hnode
  obtain ⟨q', hstore, hhung, hframe⟩ := hlinked.storeLast (m := node.message) ha
    (Function.update_self _ _ _)
  refine ⟨q'.setLast (.next a), ?_, hhung.setLast, fun b hb => ?_⟩
  · simp only [Queue.insertTail, hset, hstore, Option.bind_eq_bind, Option.bind_some,
      Option.pure_def]
  · have hbitems : b ∉ addresses items := fun hmem => hb (by simp [addresses] at hmem ⊢; tauto)
    have hba : b ≠ a := by
      rintro rfl
      exact hb (by simp [addresses])
    exact (hframe b hbitems).trans (Function.update_of_ne hba _ _)

end SimpleQueue
