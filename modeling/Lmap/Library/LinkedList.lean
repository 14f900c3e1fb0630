import Mathlib.Data.List.Nodup
import Mathlib.Logic.Function.Basic
import Mathlib.Tactic.Common

/-!
The doubly linked list of `queue.h`: a pointer to the first element, and in each element a
link to the next one and a pointer back to the link that leads to it. Every assignment of the
macros is one operation here; where it goes through a pointer to no element, there is no
result.
-/

set_option autoImplicit false

namespace LinkedList

universe u

/-- What `le_prev` points to: the pointer `lh_first` of the head, or the link of an element. -/
inductive Link where
  | head
  | next (a : Nat)
  deriving DecidableEq, Repr

structure Node (M : Type u) where
  data : M
  next : Option Nat
  prev : Link

structure Store (M : Type u) where
  heap : Nat → Option (Node M)
  first : Option Nat

variable {M : Type u}

namespace Store

def initial : Store M := ⟨fun _ => none, none⟩

def write (s : Store M) (a : Nat) (node : Option (Node M)) : Store M :=
  { s with heap := Function.update s.heap a node }

def free (s : Store M) (a : Nat) : Store M := s.write a none

/-- `if (p != NULL) p->le_prev = l`. -/
def setPrev (s : Store M) (p : Option Nat) (l : Link) : Option (Store M) :=
  match p with
  | none => some s
  | some b => (s.heap b).map fun node => s.write b (some { node with prev := l })

/-- `*l = v`. -/
def assign (s : Store M) (l : Link) (v : Option Nat) : Option (Store M) :=
  match l with
  | .head => some { s with first := v }
  | .next b => (s.heap b).map fun node => s.write b (some { node with next := v })

def insertHead (s : Store M) (elm : Nat) : Option (Store M) := do
  let node ← s.heap elm
  let s := s.write elm (some { node with next := s.first })
  let s ← s.setPrev s.first (.next elm)
  let s := { s with first := some elm }
  let node ← s.heap elm
  pure (s.write elm (some { node with prev := .head }))

def remove (s : Store M) (elm : Nat) : Option (Store M) := do
  let node ← s.heap elm
  let s ← s.setPrev node.next node.prev
  let node ← s.heap elm
  s.assign node.prev node.next

def replace (s : Store M) (elm elm2 : Nat) : Option (Store M) := do
  let node ← s.heap elm
  let node2 ← s.heap elm2
  let s := s.write elm2 (some { node2 with next := node.next })
  let s ← s.setPrev node.next (.next elm2)
  let node ← s.heap elm
  let node2 ← s.heap elm2
  let s := s.write elm2 (some { node2 with prev := node.prev })
  s.assign node.prev (some elm2)

end Store

inductive Stop where
  | freed
  | endless
  deriving DecidableEq, Repr

/-- `LIST_FOREACH`, up to the first element that passes the test. -/
def find (s : Store M) (test : M → Bool) : Nat → Option Nat → Except Stop (Option (Nat × M))
  | _, none => .ok none
  | 0, some _ => .error .endless
  | n + 1, some a =>
    match s.heap a with
    | none => .error .freed
    | some node => if test node.data then .ok (some (a, node.data)) else find s test n node.next

/-- `LIST_FOREACH`, with an assignment to the data of each element. -/
def update (f : M → M) : Nat → Store M → Option Nat → Except Stop (Store M)
  | _, s, none => .ok s
  | 0, _, some _ => .error .endless
  | n + 1, s, some a =>
    match s.heap a with
    | none => .error .freed
    | some node => update f n (s.write a (some { node with data := f node.data })) node.next

def elements (s : Store M) : Nat → Option Nat → List (Nat × M)
  | 0, _ | _, none => []
  | n + 1, some a =>
    match s.heap a with
    | none => []
    | some node => (a, node.data) :: elements s n node.next

def addresses (items : List (Nat × M)) : List Nat := items.map Prod.fst

def lastLink : Link → List (Nat × M) → Link
  | l, [] => l
  | _, (a, _) :: items => lastLink (.next a) items

/-- The elements from a pointer `p` on, which stands in the link `l`, up to the pointer `q`. -/
def Seg (heap : Nat → Option (Node M)) : Link → Option Nat → List (Nat × M) → Option Nat → Prop
  | _, p, [], q => p = q
  | l, p, (a, m) :: items, q =>
    p = some a ∧ ∃ next, heap a = some ⟨m, next, l⟩ ∧ Seg heap (.next a) next items q

structure Linked (s : Store M) (items : List (Nat × M)) : Prop where
  seg : Seg s.heap .head s.first items none
  nodup : (addresses items).Nodup

variable {heap heap' : Nat → Option (Node M)} {s : Store M} {items xs ys : List (Nat × M)}
  {l l' : Link} {p q r : Option Nat} {a b : Nat} {m : M} {node : Node M}

@[simp] theorem Store.write_self (s : Store M) (a : Nat) (node : Option (Node M)) :
    (s.write a node).heap a = node := Function.update_self _ _ _

theorem Store.write_ne (s : Store M) (h : b ≠ a) (node : Option (Node M)) :
    (s.write a node).heap b = s.heap b := Function.update_of_ne h _ _

theorem linked_initial : Linked (Store.initial : Store M) [] := ⟨rfl, List.nodup_nil⟩

@[simp] theorem addresses_append (xs ys : List (Nat × M)) :
    addresses (xs ++ ys) = addresses xs ++ addresses ys := List.map_append

@[simp] theorem addresses_cons (a : Nat) (m : M) (ys : List (Nat × M)) :
    addresses ((a, m) :: ys) = a :: addresses ys := rfl

theorem Seg.frame (h : Seg heap l p items q) (hsame : ∀ b ∈ addresses items, heap' b = heap b) :
    Seg heap' l p items q := by
  induction items generalizing l p with
  | nil => exact h
  | cons e items ih =>
    obtain ⟨a, m⟩ := e
    obtain ⟨hp, next, hnode, hrest⟩ := h
    refine ⟨hp, next, ?_, ih hrest (fun b hb => hsame b (List.mem_cons_of_mem _ hb))⟩
    rw [hsame a List.mem_cons_self, hnode]

theorem Seg.allocated (h : Seg heap l p items q) (ha : a ∈ addresses items) :
    (heap a).isSome := by
  induction items generalizing l p with
  | nil => cases ha
  | cons e items ih =>
    obtain ⟨b, m⟩ := e
    obtain ⟨-, next, hnode, hrest⟩ := h
    rcases List.mem_cons.mp ha with rfl | ha
    · simp [hnode]
    · exact ih hrest ha

theorem Seg.not_mem (h : Seg heap l p items q) (ha : heap a = none) : a ∉ addresses items := by
  intro hmem
  have halloc := h.allocated hmem
  rw [ha] at halloc
  cases halloc

theorem Seg.mem_of_some (h : Seg heap l (some a) items none) : a ∈ addresses items := by
  cases items with
  | nil => cases h
  | cons e items =>
    obtain ⟨rfl⟩ := h.1
    exact List.mem_cons_self

theorem seg_append :
    Seg heap l p (xs ++ ys) q ↔ ∃ r, Seg heap l p xs r ∧ Seg heap (lastLink l xs) r ys q := by
  induction xs generalizing l p with
  | nil => simp [Seg, lastLink]
  | cons e xs ih =>
    obtain ⟨a, m⟩ := e
    simp only [List.cons_append, Seg, lastLink, ih]
    constructor
    · rintro ⟨hp, next, hnode, r, hxs, hys⟩
      exact ⟨r, ⟨hp, next, hnode, hxs⟩, hys⟩
    · rintro ⟨r, ⟨hp, next, hnode, hxs⟩, hys⟩
      exact ⟨hp, next, hnode, r, hxs, hys⟩

theorem lastLink_snoc (l : Link) (xs : List (Nat × M)) (a : Nat) (m : M) :
    lastLink l (xs ++ [(a, m)]) = .next a := by
  induction xs generalizing l with
  | nil => rfl
  | cons e xs ih => exact ih (.next e.1)

theorem Seg.setPrev (h : Seg s.heap l p ys none) (hnodup : (addresses ys).Nodup) (l' : Link) :
    ∃ s', s.setPrev p l' = some s' ∧ s'.first = s.first ∧ Seg s'.heap l' p ys none ∧
      ∀ b, b ∉ addresses ys → s'.heap b = s.heap b := by
  cases ys with
  | nil =>
    obtain rfl : p = none := h
    exact ⟨s, rfl, rfl, rfl, fun _ _ => rfl⟩
  | cons e ys =>
    obtain ⟨a, m⟩ := e
    obtain ⟨rfl, next, hnode, hrest⟩ := h
    have hout : a ∉ addresses ys := (List.nodup_cons.mp hnodup).1
    refine ⟨s.write a (some ⟨m, next, l'⟩), by simp [Store.setPrev, hnode], rfl,
      ⟨rfl, next, s.write_self _ _, hrest.frame fun b hb => ?_⟩, fun b hb => ?_⟩
    · exact s.write_ne (ne_of_mem_of_not_mem hb hout) _
    · exact s.write_ne (fun hba => hb (by simp [hba])) _

theorem Seg.assign (h : Seg s.heap .head s.first xs q) (hnodup : (addresses xs).Nodup)
    (q' : Option Nat) :
    ∃ s', s.assign (lastLink .head xs) q' = some s' ∧ Seg s'.heap .head s'.first xs q' ∧
      ∀ b, b ∉ addresses xs → s'.heap b = s.heap b := by
  rcases List.eq_nil_or_concat xs with rfl | ⟨init, ⟨a, m⟩, rfl⟩
  · exact ⟨{ s with first := q' }, rfl, rfl, fun _ _ => rfl⟩
  · rw [List.concat_eq_append] at *
    obtain ⟨r, hinit, rfl, next, hnode, -⟩ := seg_append.mp h
    have hout : a ∉ addresses init := by
      rw [addresses_append] at hnodup
      exact fun ha => List.disjoint_of_nodup_append hnodup ha List.mem_cons_self
    refine ⟨s.write a (some ⟨m, q', lastLink .head init⟩), ?_,
      seg_append.mpr ⟨some a, hinit.frame fun b hb => ?_, rfl, q',
        s.write_self _ _, rfl⟩, fun b hb => ?_⟩
    · simp only [lastLink_snoc, Store.assign, hnode, Option.map_some]
    · exact s.write_ne (ne_of_mem_of_not_mem hb hout) _
    · exact s.write_ne (fun hba => hb (by simp [hba])) _

theorem Linked.write (h : Linked s items) (ha : a ∉ addresses items) (node : Option (Node M)) :
    Linked (s.write a node) items where
  seg := h.seg.frame fun _ hb => s.write_ne (ne_of_mem_of_not_mem hb ha) node
  nodup := h.nodup

theorem Linked.insertHead (h : Linked s items) (ha : a ∉ addresses items)
    (hnode : s.heap a = some node) :
    ∃ s', s.insertHead a = some s' ∧ Linked s' ((a, node.data) :: items) ∧
      ∀ b, b ∉ addresses ((a, node.data) :: items) → s'.heap b = s.heap b := by
  have hlinked := h.write ha (some { node with next := s.first })
  obtain ⟨s₁, hset, hfirst, hseg, hframe⟩ := hlinked.seg.setPrev hlinked.nodup (.next a)
  have hnode₁ : s₁.heap a = some { node with next := s.first } :=
    (hframe a ha).trans (s.write_self _ _)
  refine ⟨Store.write { s₁ with first := some a } a (some ⟨node.data, s.first, .head⟩), ?_,
    ⟨⟨rfl, s.first, Store.write_self _ _ _, hseg.frame fun b hb => ?_⟩,
      List.nodup_cons.mpr ⟨ha, h.nodup⟩⟩, fun b hb => ?_⟩
  · simp only [Store.insertHead, hnode, hset, hnode₁, Option.bind_eq_bind, Option.bind_some,
      Option.pure_def]
  · exact Store.write_ne _ (ne_of_mem_of_not_mem hb ha) _
  · obtain ⟨hba, hb⟩ := not_or.mp (List.mem_cons.not.mp hb)
    calc (Store.write { s₁ with first := some a } a _).heap b
        = s₁.heap b := Store.write_ne _ hba _
      _ = (s.write a _).heap b := hframe b hb
      _ = s.heap b := s.write_ne hba _

theorem Linked.around (h : Linked s (xs ++ (a, m) :: ys)) :
    ∃ next, s.heap a = some ⟨m, next, lastLink .head xs⟩ ∧ Seg s.heap .head s.first xs (some a) ∧
      Seg s.heap (.next a) next ys none ∧
      (addresses xs).Nodup ∧ (addresses ys).Nodup ∧ a ∉ addresses xs ∧ a ∉ addresses ys ∧
      ∀ b ∈ addresses xs, b ∉ addresses ys := by
  obtain ⟨hseg, hnodup⟩ := h
  obtain ⟨p, hxs, rfl, next, hnode, hys⟩ := seg_append.mp hseg
  rw [addresses_append, addresses_cons, List.nodup_append] at hnodup
  obtain ⟨hxsn, hysn, hapart⟩ := hnodup
  obtain ⟨hays, hysn⟩ := List.nodup_cons.mp hysn
  exact ⟨next, hnode, hxs, hys, hxsn, hysn, fun ha => hapart a ha a List.mem_cons_self rfl, hays,
    fun b hb hb' => hapart b hb b (List.mem_cons_of_mem _ hb') rfl⟩

theorem Linked.remove (h : Linked s (xs ++ (a, m) :: ys)) :
    ∃ s', s.remove a = some s' ∧ Linked s' (xs ++ ys) ∧ s'.heap a = s.heap a ∧
      ∀ b, b ∉ addresses (xs ++ ys) → s'.heap b = s.heap b := by
  obtain ⟨next, hnode, hxs, hys, hxsn, hysn, haxs, hays, hapart⟩ := h.around
  obtain ⟨s₁, hset, hfirst, hys₁, hframe₁⟩ := hys.setPrev hysn (lastLink .head xs)
  have hxs₁ : Seg s₁.heap .head s₁.first xs (some a) := by
    rw [hfirst]
    exact hxs.frame fun b hb => hframe₁ b (hapart b hb)
  obtain ⟨s₂, hassign, hxs₂, hframe₂⟩ := hxs₁.assign hxsn next
  have hframe : ∀ b, b ∉ addresses (xs ++ ys) → s₂.heap b = s.heap b := by
    intro b hb
    rw [addresses_append, List.mem_append, not_or] at hb
    rw [hframe₂ b hb.1, hframe₁ b hb.2]
  have hys₂ : Seg s₂.heap (lastLink .head xs) next ys none :=
    hys₁.frame fun b hb => hframe₂ b fun hbxs => hapart b hbxs hb
  refine ⟨s₂, ?_, ⟨seg_append.mpr ⟨next, hxs₂, hys₂⟩, ?_⟩, ?_, hframe⟩
  · simp only [Store.remove, hnode, hset, (hframe₁ a hays).trans hnode, hassign,
      Option.bind_eq_bind, Option.bind_some]
  · rw [addresses_append, List.nodup_append]
    exact ⟨hxsn, hysn, fun b hb c hc hbc => hapart b hb (hbc ▸ hc)⟩
  · exact hframe a (by simp [haxs, hays])

theorem Linked.replace (h : Linked s (xs ++ (a, m) :: ys))
    (hb : b ∉ addresses (xs ++ (a, m) :: ys)) (hnode2 : s.heap b = some node) :
    ∃ s', s.replace a b = some s' ∧ Linked s' (xs ++ (b, node.data) :: ys) ∧
      ∀ c, c ∉ addresses (xs ++ (b, node.data) :: ys) → s'.heap c = s.heap c := by
  obtain ⟨next, hnode, hxs, hys, hxsn, hysn, haxs, hays, hapart⟩ := h.around
  simp only [addresses_append, addresses_cons, List.mem_append, List.mem_cons, not_or] at hb
  obtain ⟨hbxs, hba, hbys⟩ := hb
  -- the first half, on the side of the elements that follow
  let s₁ := s.write b (some { node with next := next })
  have hxs₁ : Seg s₁.heap .head s₁.first xs (some a) :=
    hxs.frame fun c hc => s.write_ne (ne_of_mem_of_not_mem hc hbxs) _
  have hys₁ : Seg s₁.heap (.next a) next ys none :=
    hys.frame fun c hc => s.write_ne (ne_of_mem_of_not_mem hc hbys) _
  obtain ⟨s₂, hset, hfirst, hys₂, hframe₂⟩ := hys₁.setPrev hysn (.next b)
  have hnode₂ : s₂.heap a = some ⟨m, next, lastLink .head xs⟩ :=
    (hframe₂ a hays).trans ((s.write_ne (Ne.symm hba) _).trans hnode)
  have hb₂ : s₂.heap b = some { node with next := next } :=
    (hframe₂ b hbys).trans (s.write_self _ _)
  have hxs₂ : Seg s₂.heap .head s₂.first xs (some a) := by
    rw [hfirst]
    exact hxs₁.frame fun c hc => hframe₂ c (hapart c hc)
  -- the second half, on the side of those before
  let s₃ := s₂.write b (some ⟨node.data, next, lastLink .head xs⟩)
  have hxs₃ : Seg s₃.heap .head s₃.first xs (some a) :=
    hxs₂.frame fun c hc => s₂.write_ne (ne_of_mem_of_not_mem hc hbxs) _
  obtain ⟨s₄, hassign, hxs₄, hframe₄⟩ := hxs₃.assign hxsn (some b)
  have hb₄ : s₄.heap b = some ⟨node.data, next, lastLink .head xs⟩ :=
    (hframe₄ b hbxs).trans (s₂.write_self _ _)
  have hys₄ : Seg s₄.heap (.next b) next ys none := by
    refine hys₂.frame fun c hc => ?_
    rw [hframe₄ c fun hcxs => hapart c hcxs hc]
    exact s₂.write_ne (ne_of_mem_of_not_mem hc hbys) _
  refine ⟨s₄, ?_, ⟨seg_append.mpr ⟨some b, hxs₄, rfl, next, hb₄, hys₄⟩, ?_⟩, fun c hc => ?_⟩
  · simp only [Store.replace, hnode, hnode2, Option.bind_eq_bind, Option.bind_some]
    rw [hset]
    simp only [hnode₂, hb₂, Option.bind_some]
    exact hassign
  · rw [addresses_append, addresses_cons, List.nodup_append]
    refine ⟨hxsn, List.nodup_cons.mpr ⟨hbys, hysn⟩, fun c hc d hd hcd => ?_⟩
    rcases List.mem_cons.mp (hcd ▸ hd) with rfl | hcys
    · exact hbxs hc
    · exact hapart c hc hcys
  · simp only [addresses_append, addresses_cons, List.mem_append, List.mem_cons, not_or] at hc
    obtain ⟨hcxs, hcb, hcys⟩ := hc
    rw [hframe₄ c hcxs, s₂.write_ne hcb, hframe₂ c hcys, s.write_ne hcb]

theorem Linked.replaceFree (h : Linked s (xs ++ (a, m) :: ys))
    (hb : b ∉ addresses (xs ++ (a, m) :: ys)) (hnode : s.heap b = some node) :
    ∃ s', s.replace a b = some s' ∧ Linked (s'.free a) (xs ++ (b, node.data) :: ys) ∧
      a ∉ addresses (xs ++ (b, node.data) :: ys) := by
  obtain ⟨s', hreplace, hlinked, -⟩ := h.replace hb hnode
  obtain ⟨-, -, -, -, -, -, haxs, hays, -⟩ := h.around
  have hab : a ≠ b := fun hab => hb (by simp [hab])
  have hout : a ∉ addresses (xs ++ (b, node.data) :: ys) := by simp [haxs, hays, hab]
  exact ⟨s', hreplace, hlinked.write hout _, hout⟩

section Keys

variable {κ : Type u} [DecidableEq κ] {key : M → κ} {k : κ}

theorem key_not_mem (h : (items.find? fun e => key e.2 = k) = none) :
    k ∉ items.map fun e => key e.2 := by
  intro hmem
  obtain ⟨e, he, heq⟩ := List.mem_map.mp hmem
  exact absurd heq (by simpa using List.find?_eq_none.mp h e he)

theorem split_of_find (hnodup : (items.map fun e => key e.2).Nodup) {e : Nat × M}
    (h : (items.find? fun e => key e.2 = k) = some e) :
    ∃ xs ys, items = xs ++ e :: ys ∧ key e.2 = k ∧
      (∀ e' ∈ xs, key e'.2 ≠ k) ∧ ∀ e' ∈ ys, key e'.2 ≠ k := by
  obtain ⟨hkey, xs, ys, rfl, hxs⟩ := List.find?_eq_some_iff_append.mp h
  have hkey : key e.2 = k := by simpa using hkey
  rw [List.map_append, List.map_cons, List.nodup_append, List.nodup_cons] at hnodup
  obtain ⟨-, ⟨hys, -⟩, -⟩ := hnodup
  refine ⟨xs, ys, rfl, hkey, fun e' he' => by simpa using hxs e' he', fun e' he' heq => hys ?_⟩
  rw [hkey, ← heq]
  exact List.mem_map_of_mem he'

end Keys

theorem Seg.find (h : Seg s.heap l p items none) (test : M → Bool) {n : Nat}
    (hn : items.length ≤ n) :
    find s test n p = .ok (items.find? fun e => test e.2) := by
  induction items generalizing l p n with
  | nil =>
    obtain rfl : p = none := h
    simp [LinkedList.find]
  | cons e items ih =>
    obtain ⟨a, m⟩ := e
    obtain ⟨rfl, next, hnode, hrest⟩ := h
    cases n with
    | zero => simp at hn
    | succ n =>
      have hlen : items.length ≤ n := by simpa using hn
      by_cases htest : test m
      · simp [LinkedList.find, hnode, htest]
      · simp [LinkedList.find, hnode, htest, ih hrest hlen]

theorem Seg.update (h : Seg s.heap l p items none) (hnodup : (addresses items).Nodup) (f : M → M)
    {n : Nat} (hn : items.length ≤ n) :
    ∃ s', update f n s p = .ok s' ∧ s'.first = s.first ∧
      Seg s'.heap l p (items.map fun e => (e.1, f e.2)) none ∧
      ∀ b, b ∉ addresses items → s'.heap b = s.heap b := by
  induction items generalizing s l p n with
  | nil =>
    obtain rfl : p = none := h
    exact ⟨s, by simp [LinkedList.update], rfl, rfl, fun _ _ => rfl⟩
  | cons e items ih =>
    obtain ⟨a, m⟩ := e
    obtain ⟨rfl, next, hnode, hrest⟩ := h
    obtain ⟨hout, hnodup⟩ := List.nodup_cons.mp hnodup
    cases n with
    | zero => simp at hn
    | succ n =>
      have hlen : items.length ≤ n := by simpa using hn
      have hrest₁ : Seg (s.write a (some ⟨f m, next, l⟩)).heap (.next a) next items none :=
        hrest.frame fun b hb => s.write_ne (ne_of_mem_of_not_mem hb hout) _
      obtain ⟨s', hupdate, hfirst, hseg, hframe⟩ := ih hrest₁ hnodup hlen
      refine ⟨s', ?_, hfirst, ⟨rfl, next, ?_, hseg⟩, fun b hb => ?_⟩
      · simp only [LinkedList.update, hnode]
        exact hupdate
      · exact (hframe a hout).trans (s.write_self _ _)
      · obtain ⟨hba, hb⟩ := not_or.mp (List.mem_cons.not.mp hb)
        exact (hframe b hb).trans (s.write_ne hba _)

@[simp] theorem addresses_map (items : List (Nat × M)) (f : M → M) :
    addresses (items.map fun e => (e.1, f e.2)) = addresses items := by
  rw [addresses, List.map_map]
  rfl

theorem Linked.update (h : Linked s items) (f : M → M) {n : Nat} (hn : items.length ≤ n) :
    ∃ s', LinkedList.update f n s s.first = .ok s' ∧
      Linked s' (items.map fun e => (e.1, f e.2)) := by
  obtain ⟨s', hupdate, hfirst, hseg, -⟩ := h.seg.update h.nodup f hn
  refine ⟨s', hupdate, ⟨hfirst ▸ hseg, ?_⟩⟩
  rw [addresses_map]
  exact h.nodup

theorem Seg.elements (h : Seg s.heap l p items none) {n : Nat} (hn : items.length ≤ n) :
    elements s n p = items := by
  induction items generalizing l p n with
  | nil =>
    obtain rfl : p = none := h
    cases n <;> rfl
  | cons e items ih =>
    obtain ⟨a, m⟩ := e
    obtain ⟨rfl, next, hnode, hrest⟩ := h
    cases n with
    | zero => simp at hn
    | succ n =>
      have hlen : items.length ≤ n := by simpa using hn
      simp [LinkedList.elements, hnode, ih hrest hlen]

end LinkedList
