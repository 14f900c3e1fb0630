import Lmap.Library.LinkedList
import Lmap.ThreadList

/-!
The list of the threads, one call after the other: what registration, creation and destruction
do to it, through the pointers of its elements, and what the shutdown does.
-/

set_option autoImplicit false

namespace Lmap
namespace Registry
open LinkedList (Store Linked addresses)
open Threads (Thread)

inductive Stop where
  | disabled
  | exit
  | walk (stop : LinkedList.Stop)
  deriving DecidableEq, Repr

/-- `thread_list_head`, and the number of elements allocated so far: no walk over the list is
longer. -/
structure State (T : Type) where
  list : Store (Thread T)
  allocs : Nat

def State.initial (T : Type) : State T := ⟨.initial, 0⟩

def through {α : Type} : Option α → Except Stop α
  | none => .error (.walk .freed)
  | some a => .ok a

section Calls

variable {T : Type} [DecidableEq T]

def State.find (s : State T) (id : T) : Except Stop (Option (Nat × Thread T)) :=
  match LinkedList.find s.list (fun t => t.id = id) s.allocs s.list.first with
  | .ok current => .ok current
  | .error stop => .error (.walk stop)

/-- An id that is `none` is `LMAP_SELF`, here and below. -/
def lmapThreadGetname (s : State T) (self : T) (id : Option T) : Except Stop String := do
  match ← s.find (id.getD self) with
  | some (_, t) => pure t.name
  | none => pure "NR_THREAD"

def lmapThreadGetdesc (s : State T) (self : T) (id : Option T) : Except Stop String := do
  match ← s.find (id.getD self) with
  | some (_, t) => pure t.description
  | none => pure ""

/-- `lmap_thread_register` from its lock on. -/
def State.place (s : State T) (newelem : Nat) (id : T) : Except Stop (State T) := do
  match ← s.find id with
  | some (current, _) =>
    let list ← through (s.list.replace current newelem)
    pure { s with list := list.free current }
  | none =>
    let list ← through (s.list.insertHead newelem)
    pure { s with list := list }

/-- `newelem` is what `calloc` gives. The links of a new element are set before they are read. -/
def lmapThreadRegister (s : State T) (self : T) (id : Option T) (name desc : String)
    (newelem : Option Nat) : Except Stop (State T) :=
  match newelem with
  | none => .error .exit
  | some newelem =>
    if (s.list.heap newelem).isSome then .error .disabled
    else
      let id := id.getD self
      let s : State T := ⟨s.list.write newelem (some ⟨⟨name, desc, id⟩, none, .head⟩), s.allocs + 1⟩
      s.place newelem id

/-- `ret` is what `pthread_create` returns, and `id` what it leaves in its first argument. -/
def lmapThreadNew (s : State T) (self : T) (ret : Int) (id : Option T) (name desc : String)
    (newelem : Option Nat) : Except Stop (State T × Option T) :=
  if ret < 0 then .error .exit
  else do
    let s ← lmapThreadRegister s self id name desc newelem
    pure (s, id)

/-- The thread is cancelled and joined before. -/
def lmapThreadDestroy (s : State T) (id : T) : Except Stop (State T) := do
  match ← s.find id with
  | some (current, _) =>
    let list ← through (s.list.remove current)
    pure { s with list := list.free current }
  | none => pure s

def State.read (s : State T) (a : Nat) : Except Stop (LinkedList.Node (Thread T)) :=
  through (s.list.heap a)

def killLoop (self : T) : Nat → State T → Option Nat → List T → Except Stop (State T × List T)
  | _, s, none, calls => .ok (s, calls)
  | 0, _, some _, _ => .error (.walk .endless)
  | n + 1, s, some a, calls => do
    let current ← s.read a
    let (s, calls) ← (if current.data.id ≠ self then do
        let s ← lmapThreadDestroy s current.data.id
        pure (s, calls ++ [current.data.id])
      else pure (s, calls))
    -- `LIST_FOREACH` reads the link of `current` after the call
    let current ← s.read a
    killLoop self n s current.next calls

def lmapThreadKillAll (s : State T) (self : T) : Except Stop (State T × List T) :=
  killLoop self s.allocs s s.list.first []

end Calls

section Contents

variable {T : Type}

def State.threads (s : State T) : List (Thread T) :=
  (LinkedList.elements s.list s.allocs s.list.first).map Prod.snd

def State.ids (s : State T) : List T := s.threads.map Thread.id

variable [DecidableEq T]

/-- A thread is entered where its id stands, or else in front. -/
def enter (new : Thread T) (threads : List (Thread T)) : List (Thread T) :=
  if new.id ∈ threads.map Thread.id then
    threads.map fun t => if t.id = new.id then new else t
  else new :: threads

def lookup (id : T) (threads : List (Thread T)) : Option (Thread T) :=
  threads.find? fun t => t.id = id

def remove (id : T) (threads : List (Thread T)) : List (Thread T) :=
  threads.filter fun t => t.id ≠ id

omit [DecidableEq T] in
structure State.Inv (s : State T) (items : List (Nat × Thread T)) : Prop where
  linked : Linked s.list items
  short : items.length ≤ s.allocs
  unique : (items.map fun e => e.2.id).Nodup

variable {s : State T} {items xs ys : List (Nat × Thread T)} {id self : T} {a : Nat}
  {t : Thread T}

omit [DecidableEq T] in
theorem State.Inv.threads (h : s.Inv items) : s.threads = items.map Prod.snd := by
  rw [State.threads, h.linked.seg.elements h.short]

omit [DecidableEq T] in
theorem State.Inv.ids (h : s.Inv items) : s.ids = items.map fun e => e.2.id := by
  rw [State.ids, h.threads, List.map_map]
  rfl

theorem State.Inv.find (h : s.Inv items) (id : T) :
    s.find id = .ok (items.find? fun e => e.2.id = id) := by
  rw [State.find, h.linked.seg.find _ h.short]

theorem State.Inv.lookup (h : s.Inv items) (id : T) :
    lookup id s.threads = (items.find? fun e => e.2.id = id).map Prod.snd := by
  rw [h.threads, Registry.lookup, List.find?_map]
  rfl

theorem enter_split {xs ys : List (Thread T)} {old new : Thread T} (hold : old.id = new.id)
    (hxs : ∀ t ∈ xs, t.id ≠ new.id) (hys : ∀ t ∈ ys, t.id ≠ new.id) :
    enter new (xs ++ old :: ys) = xs ++ new :: ys := by
  have hmem : new.id ∈ (xs ++ old :: ys).map Thread.id := by simp [hold]
  have hsame : ∀ zs : List (Thread T), (∀ t ∈ zs, t.id ≠ new.id) →
      zs.map (fun t => if t.id = new.id then new else t) = zs := by
    intro zs hzs
    rw [List.map_congr_left fun t ht => if_neg (hzs t ht), List.map_id']
  rw [enter, if_pos hmem, List.map_append, List.map_cons, hsame xs hxs, hsame ys hys, if_pos hold]

theorem remove_split {xs ys : List (Thread T)} {old : Thread T}
    (hxs : ∀ t ∈ xs, t.id ≠ old.id) (hys : ∀ t ∈ ys, t.id ≠ old.id) :
    remove old.id (xs ++ old :: ys) = xs ++ ys := by
  have hsame : ∀ zs : List (Thread T), (∀ t ∈ zs, t.id ≠ old.id) →
      zs.filter (fun t => t.id ≠ old.id) = zs := by
    intro zs hzs
    exact List.filter_eq_self.mpr fun t ht => by simpa using hzs t ht
  rw [remove, List.filter_append, List.filter_cons, hsame xs hxs, hsame ys hys]
  simp

theorem lookup_isSome {threads : List (Thread T)} :
    (lookup id threads).isSome ↔ id ∈ threads.map Thread.id := by
  simp [lookup, List.find?_isSome]

theorem lookup_id {threads : List (Thread T)} (h : lookup id threads = some t) : t.id = id := by
  simpa using List.find?_some h

theorem lookup_enter (new : Thread T) (threads : List (Thread T)) (id : T) :
    lookup id (enter new threads) = if new.id = id then some new else lookup id threads := by
  by_cases hmem : new.id ∈ threads.map Thread.id
  · have htest : ((fun t : Thread T => decide (t.id = id)) ∘
        fun t => if t.id = new.id then new else t) = fun t => decide (t.id = id) := by
      funext t
      by_cases ht : t.id = new.id
      · simp [ht]
      · simp [ht]
    have hlookup : lookup id (enter new threads) =
        (lookup id threads).map fun t => if t.id = new.id then new else t := by
      rw [enter, if_pos hmem, lookup, List.find?_map, htest, lookup]
    rw [hlookup]
    by_cases hid : new.id = id
    · obtain ⟨t, ht⟩ := Option.isSome_iff_exists.mp (lookup_isSome.mpr hmem)
      rw [hid] at ht
      rw [if_pos hid, ht, Option.map_some, if_pos ((lookup_id ht).trans hid.symm)]
    · rw [if_neg hid]
      cases hlook : lookup id threads with
      | none => rfl
      | some t =>
        have ht : t.id ≠ new.id := fun ht => hid (ht.symm.trans (lookup_id hlook))
        rw [Option.map_some, if_neg ht]
  · rw [enter, if_neg hmem]
    by_cases hid : new.id = id
    · simp [lookup, hid]
    · simp [lookup, hid]

theorem lookup_remove (threads : List (Thread T)) (id i : T) :
    lookup i (remove id threads) = if id = i then none else lookup i threads := by
  rw [lookup, remove, List.find?_filter]
  by_cases hid : id = i
  · simp [hid]
  · rw [if_neg hid, lookup]
    congr 1
    funext t
    by_cases ht : t.id = i
    · simp [ht, Ne.symm hid]
    · simp [ht]

theorem State.Inv.place (h : s.Inv items) (hshort : items.length < s.allocs)
    (ha : a ∉ addresses items) {node : LinkedList.Node (Thread T)}
    (hnode : s.list.heap a = some node) :
    ∃ s' items', s.place a node.data.id = .ok s' ∧ s'.Inv items' ∧
      items'.map Prod.snd = enter node.data (items.map Prod.snd) := by
  cases hfind : items.find? fun e => e.2.id = node.data.id with
  | none =>
    obtain ⟨list, hinsert, hlinked, -⟩ := h.linked.insertHead ha hnode
    have hout := LinkedList.key_not_mem hfind
    refine ⟨⟨list, s.allocs⟩, (a, node.data) :: items, ?_,
      ⟨hlinked, hshort, List.nodup_cons.mpr ⟨hout, h.unique⟩⟩, ?_⟩
    · simp only [State.place, h.find, hfind, bind, Except.bind, hinsert, through, pure, Except.pure]
    · rw [enter, if_neg (by simpa [List.map_map] using hout)]
      rfl
  | some e =>
    obtain ⟨xs, ys, rfl, hold, hxs, hys⟩ := LinkedList.split_of_find h.unique hfind
    obtain ⟨current, old⟩ := e
    obtain ⟨list, hreplace, hlinked, -⟩ := h.linked.replaceFree ha hnode
    have hlength := h.short
    have hunique := h.unique
    refine ⟨⟨list.free current, s.allocs⟩, xs ++ (a, node.data) :: ys, ?_,
      ⟨hlinked, ?_, ?_⟩, ?_⟩
    · simp only [State.place, h.find, hfind, bind, Except.bind, hreplace, through, pure,
        Except.pure]
    · simp only [List.length_append, List.length_cons] at hlength ⊢
      exact hlength
    · simpa [show old.id = node.data.id from hold] using hunique
    · rw [List.map_append, List.map_append, List.map_cons, List.map_cons]
      exact (enter_split hold (List.forall_mem_map.mpr hxs) (List.forall_mem_map.mpr hys)).symm

theorem State.Inv.destroy (h : s.Inv (xs ++ (a, t) :: ys)) :
    ∃ s', lmapThreadDestroy s t.id = .ok s' ∧ s'.Inv (xs ++ ys) ∧ s'.list.heap a = none ∧
      remove t.id s.threads = (xs ++ ys).map Prod.snd := by
  obtain ⟨-, -, -, -, -, -, haxs, hays, -⟩ := h.linked.around
  obtain ⟨list, hremove, hlinked, -, -⟩ := h.linked.remove
  have hunique := h.unique
  rw [List.map_append, List.map_cons, List.nodup_append, List.nodup_cons] at hunique
  obtain ⟨hxsn, ⟨hys, hysn⟩, hapart⟩ := hunique
  have hxs : ∀ e ∈ xs, e.2.id ≠ t.id := fun e he =>
    hapart _ (List.mem_map_of_mem he) _ List.mem_cons_self
  have hys : ∀ e ∈ ys, e.2.id ≠ t.id := fun e he heq => hys (heq ▸ List.mem_map_of_mem he)
  have hfind : ((xs ++ (a, t) :: ys).find? fun e => e.2.id = t.id) = some (a, t) := by
    rw [List.find?_append, List.find?_eq_none.mpr (by simpa using hxs)]
    simp
  have hout : a ∉ addresses (xs ++ ys) := by simp [haxs, hays]
  refine ⟨⟨list.free a, s.allocs⟩, ?_, ⟨hlinked.write hout _, ?_, ?_⟩, Store.write_self _ _ _, ?_⟩
  · simp only [lmapThreadDestroy, h.find, hfind, bind, Except.bind, hremove, through, pure,
      Except.pure]
  · have hshort := h.short
    simp only [List.length_append, List.length_cons] at hshort ⊢
    omega
  · rw [List.map_append, List.nodup_append]
    exact ⟨hxsn, hysn, fun b hb c hc => hapart b hb c (List.mem_cons_of_mem _ hc)⟩
  · rw [h.threads, List.map_append, List.map_cons, List.map_append]
    exact remove_split (List.forall_mem_map.mpr hxs) (List.forall_mem_map.mpr hys)

theorem State.Inv.destroy_absent (h : s.Inv items) (hid : id ∉ s.ids) :
    lmapThreadDestroy s id = .ok s ∧ remove id s.threads = s.threads := by
  have hout : ∀ t ∈ s.threads, t.id ≠ id := fun t ht heq => hid (heq ▸ List.mem_map_of_mem ht)
  have hfind : (items.find? fun e => e.2.id = id) = none := by
    rw [List.find?_eq_none]
    intro e he
    have ht := hout e.2 (h.threads ▸ List.mem_map_of_mem he)
    simpa using ht
  constructor
  · simp only [lmapThreadDestroy, h.find, hfind, bind, Except.bind, pure, Except.pure]
  · exact List.filter_eq_self.mpr fun t ht => by simpa using hout t ht

omit [DecidableEq T] in
def State.Good (s : State T) : Prop := ∃ items, s.Inv items

omit [DecidableEq T] in
theorem good_initial : (State.initial T).Good :=
  ⟨[], LinkedList.linked_initial, Nat.le_refl 0, List.nodup_nil⟩

omit [DecidableEq T] in
theorem State.Good.unique (h : s.Good) : s.ids.Nodup := by
  obtain ⟨items, h⟩ := h
  rw [h.ids]
  exact h.unique

theorem State.Good.getname (h : s.Good) (self : T) (id : Option T) :
    lmapThreadGetname s self id =
      .ok ((lookup (id.getD self) s.threads).elim "NR_THREAD" Thread.name) := by
  obtain ⟨items, h⟩ := h
  rw [lmapThreadGetname, h.find, h.lookup]
  cases items.find? fun e => e.2.id = id.getD self with
  | none => rfl
  | some e => rfl

theorem State.Good.getdesc (h : s.Good) (self : T) (id : Option T) :
    lmapThreadGetdesc s self id =
      .ok ((lookup (id.getD self) s.threads).elim "" Thread.description) := by
  obtain ⟨items, h⟩ := h
  rw [lmapThreadGetdesc, h.find, h.lookup]
  cases items.find? fun e => e.2.id = id.getD self with
  | none => rfl
  | some e => rfl

theorem State.Good.register (h : s.Good) (self : T) (id : Option T) (name desc : String)
    (newelem : Option Nat) :
    (∃ e, lmapThreadRegister s self id name desc newelem = .error e ∧
      (e = .exit ∨ e = .disabled)) ∨
    ∃ s', lmapThreadRegister s self id name desc newelem = .ok s' ∧ s'.Good ∧
      s'.threads = enter ⟨name, desc, id.getD self⟩ s.threads := by
  obtain ⟨items, h⟩ := h
  cases newelem with
  | none => exact .inl ⟨.exit, rfl, .inl rfl⟩
  | some a =>
    by_cases hnew : s.list.heap a = none
    · have ha := h.linked.seg.not_mem hnew
      let new : Thread T := ⟨name, desc, id.getD self⟩
      have hwrite : State.Inv ⟨s.list.write a (some ⟨new, none, .head⟩), s.allocs + 1⟩ items :=
        ⟨h.linked.write ha _, Nat.le_succ_of_le h.short, h.unique⟩
      obtain ⟨s', items', hplace, hinv, hcontents⟩ :=
        hwrite.place (Nat.lt_succ_of_le h.short) ha (Store.write_self _ _ _)
      refine .inr ⟨s', ?_, ⟨items', hinv⟩, ?_⟩
      · simp only [lmapThreadRegister, hnew, Option.isSome_none]
        exact hplace
      · rw [hinv.threads, h.threads, hcontents]
    · refine .inl ⟨.disabled, ?_, .inr rfl⟩
      simp only [lmapThreadRegister, Option.isSome_iff_ne_none.mpr hnew, if_true]

theorem State.Good.destroy (h : s.Good) (id : T) :
    ∃ s', lmapThreadDestroy s id = .ok s' ∧ s'.Good ∧ s'.threads = remove id s.threads := by
  obtain ⟨items, h⟩ := h
  by_cases hid : id ∈ s.ids
  · rw [h.ids] at hid
    obtain ⟨e, he, rfl⟩ := List.mem_map.mp hid
    obtain ⟨xs, ys, rfl⟩ := List.mem_iff_append.mp he
    obtain ⟨s', hdestroy, hinv, -, hcontents⟩ := h.destroy
    exact ⟨s', hdestroy, ⟨_, hinv⟩, hinv.threads.trans hcontents.symm⟩
  · obtain ⟨hdestroy, hcontents⟩ := h.destroy_absent hid
    exact ⟨s, hdestroy, ⟨items, h⟩, hcontents.symm⟩

end Contents

/-- What `pthread_create` does: it leaves the id of the thread it made, or it returns a positive
error number, and the id is anything. -/
inductive Created (T : Type) where
  | created (id : T)
  | failed (errno : Nat) (positive : 0 < errno) (id : Option T)
  deriving DecidableEq, Repr

def Created.ret {T : Type} : Created T → Int
  | .created _ => 0
  | .failed errno _ _ => errno

def Created.id {T : Type} : Created T → Option T
  | .created id => some id
  | .failed _ _ id => id

inductive Op (T : Type) where
  | register (self : T) (id : Option T) (name desc : String) (newelem : Option Nat)
  | new (self : T) (created : Created T) (name desc : String) (newelem : Option Nat)
  | destroy (id : T)
  deriving DecidableEq, Repr

section Run

variable {T : Type}

def Op.Failed : Op T → Prop
  | .new _ (.failed _ _ _) _ _ _ => True
  | .new _ (.created _) _ _ _ | .register _ _ _ _ _ | .destroy _ => False

/-- The threads that were created, or registered themselves, after a call. -/
def Op.known (known : List T) : Op T → List T
  | .register self id _ _ _ => id.getD self :: known
  | .new _ (.created id) _ _ _ => id :: known
  | .new _ (.failed _ _ _) _ _ _ | .destroy _ => known

variable [DecidableEq T]

/-- The name and the description that a thread is to have after a call: those of its latest
registration. A creation that failed is none. -/
def Op.map (map : T → Option (String × String)) : Op T → T → Option (String × String)
  | .register self id name desc _ => Function.update map (id.getD self) (some (name, desc))
  | .new _ (.created id) name desc _ => Function.update map id (some (name, desc))
  | .new _ (.failed _ _ _) _ _ _ => map
  | .destroy id => Function.update map id none

/-- A thread that registers another names it by the id of a thread. -/
def Op.Allowed (known : List T) : Op T → Prop
  | .register self id _ _ _ => id.getD self = self ∨ id.getD self ∈ known
  | .new _ _ _ _ _ | .destroy _ => True

instance (known : List T) (op : Op T) : Decidable (op.Allowed known) :=
  match op with
  | .register self id _ _ _ =>
    inferInstanceAs (Decidable (id.getD self = self ∨ id.getD self ∈ known))
  | .new _ _ _ _ _ | .destroy _ => isTrue trivial

def Op.call (s : State T) : Op T → Except Stop (State T)
  | .register self id name desc newelem => lmapThreadRegister s self id name desc newelem
  | .new self created name desc newelem => do
    let (s, _) ← lmapThreadNew s self created.ret created.id name desc newelem
    pure s
  | .destroy id => lmapThreadDestroy s id

structure World (T : Type) where
  state : State T
  known : List T
  map : T → Option (String × String)

omit [DecidableEq T] in
def World.initial (T : Type) : World T := ⟨.initial T, [], fun _ => none⟩

def step (w : World T) (op : Op T) : Except Stop (World T) :=
  if op.Allowed w.known then do
    let state ← op.call w.state
    pure ⟨state, op.known w.known, op.map w.map⟩
  else .error .disabled

def Op.contents (threads : List (Thread T)) : Op T → List (Thread T)
  | .register self id name desc _ => enter ⟨name, desc, id.getD self⟩ threads
  | .new self created name desc _ => enter ⟨name, desc, created.id.getD self⟩ threads
  | .destroy id => remove id threads

variable {w w' : World T} {op : Op T}

structure Stepped (w : World T) (op : Op T) (w' : World T) : Prop where
  allowed : op.Allowed w.known
  good : w'.state.Good
  contents : w'.state.threads = op.contents w.state.threads
  known : w'.known = op.known w.known
  map : w'.map = op.map w.map

theorem call_spec {s : State T} (h : s.Good) (op : Op T) :
    (∃ e, op.call s = .error e ∧ (e = .exit ∨ e = .disabled)) ∨
    ∃ s', op.call s = .ok s' ∧ s'.Good ∧ s'.threads = op.contents s.threads := by
  cases op with
  | register self id name desc newelem => exact h.register self id name desc newelem
  | new self created name desc newelem =>
    have hret : ¬ created.ret < 0 := by
      cases created with
      | created id => exact Int.not_lt.mpr (Int.le_refl 0)
      | failed errno positive id => exact Int.not_lt.mpr (Int.natCast_nonneg errno)
    have hcall : Op.call s (.new self created name desc newelem) =
        lmapThreadRegister s self created.id name desc newelem := by
      simp only [Op.call, lmapThreadNew, if_neg hret]
      cases lmapThreadRegister s self created.id name desc newelem <;> rfl
    rw [hcall]
    exact h.register self created.id name desc newelem
  | destroy id => exact .inr (h.destroy id)

theorem step_spec (h : w.state.Good) (op : Op T) :
    (∃ e, step w op = .error e ∧ (e = .exit ∨ e = .disabled)) ∨
    ∃ w', step w op = .ok w' ∧ Stepped w op w' := by
  by_cases hallowed : op.Allowed w.known
  · rw [step, if_pos hallowed]
    rcases call_spec h op with ⟨e, hcall, he⟩ | ⟨s', hcall, hgood, hcontents⟩
    · exact .inl ⟨e, by rw [hcall]; rfl, he⟩
    · exact .inr ⟨⟨s', op.known w.known, op.map w.map⟩, by rw [hcall]; rfl, hallowed, hgood,
        hcontents, rfl, rfl⟩
  · exact .inl ⟨.disabled, if_neg hallowed, .inr rfl⟩

theorem stepped (h : w.state.Good) (hstep : step w op = .ok w') : Stepped w op w' := by
  rcases step_spec h op with ⟨e, herr, -⟩ | ⟨w'', hok, hstepped⟩
  · cases herr.symm.trans hstep
  · cases hok.symm.trans hstep
    exact hstepped

/-- No run goes through a pointer to no element, or round in circles. -/
theorem run_stops {ops : List (Op T)} {e : Stop}
    (h : Transition.exec step (World.initial T) ops = .error e) : e = .exit ∨ e = .disabled := by
  refine Transition.exec_error (I := fun w : World T => w.state.Good)
    (E := fun e => e = .exit ∨ e = .disabled)
    (fun w op w' hgood hstep => (stepped hgood hstep).good)
    (fun w op e hgood hstep => ?_) good_initial h
  rcases step_spec hgood op with ⟨e', herr, he⟩ | ⟨w', hok, -⟩
  · cases herr.symm.trans hstep
    exact he
  · cases hok.symm.trans hstep

theorem run_good {ops : List (Op T)} (h : Transition.exec step (World.initial T) ops = .ok w) :
    w.state.Good :=
  Transition.exec_invariant (I := fun w : World T => w.state.Good)
    (fun _ _ _ hgood hstep => (stepped hgood hstep).good) good_initial h

/-- The list is the map that it is to be, of threads that were created or registered themselves. -/
structure Correct (w : World T) (op : Op T) (w' : World T) : Prop where
  unique : w'.state.ids.Nodup
  known : ∀ id ∈ w'.state.ids, id ∈ w'.known
  failed : op.Failed → w'.state.threads = w.state.threads
  listed : ∀ id, id ∈ w'.state.ids ↔ (w'.map id).isSome
  getname : ∀ self id, lmapThreadGetname w'.state self id =
    .ok ((w'.map (id.getD self)).elim "NR_THREAD" Prod.fst)
  getdesc : ∀ self id, lmapThreadGetdesc w'.state self id =
    .ok ((w'.map (id.getD self)).elim "" Prod.snd)

/-- The id that a failed creation leaves is that of a thread listed already, under the same name
and description. -/
def Harmless (w : World T) (op : Op T) (_ : World T) : Prop :=
  match op with
  | .new self (.failed _ _ id) name desc _ => ⟨name, desc, id.getD self⟩ ∈ w.state.threads
  | .new _ (.created _) _ _ _ | .register _ _ _ _ _ | .destroy _ => True

structure World.Whole (w : World T) : Prop where
  good : w.state.Good
  known : ∀ id ∈ w.state.ids, id ∈ w.known
  map : ∀ id, lookup id w.state.threads = (w.map id).map fun e => ⟨e.1, e.2, id⟩

theorem mem_enter_self (new : Thread T) (threads : List (Thread T)) : new ∈ enter new threads := by
  have hlookup := lookup_enter new threads new.id
  rw [if_pos rfl] at hlookup
  exact List.mem_of_find?_eq_some hlookup

theorem enter_mem {new : Thread T} {threads : List (Thread T)}
    (hunique : (threads.map Thread.id).Nodup) (hmem : new ∈ threads) :
    enter new threads = threads := by
  obtain ⟨xs, ys, rfl⟩ := List.mem_iff_append.mp hmem
  rw [List.map_append, List.map_cons, List.nodup_append, List.nodup_cons] at hunique
  obtain ⟨-, ⟨hys, -⟩, hapart⟩ := hunique
  refine enter_split rfl (fun t ht => ?_) (fun t ht heq => hys (heq ▸ List.mem_map_of_mem ht))
  exact hapart _ (List.mem_map_of_mem ht) _ List.mem_cons_self

theorem Stepped.failed_iff (h : Stepped w op w') (hunique : w.state.ids.Nodup)
    (hfailed : op.Failed) : w'.state.threads = w.state.threads ↔ Harmless w op w' := by
  cases op with
  | register self id name desc newelem | destroy id => cases hfailed
  | new self created name desc newelem =>
    cases created with
    | created id => cases hfailed
    | failed errno positive id =>
      rw [h.contents]
      constructor
      · intro heq
        have hmem := mem_enter_self ⟨name, desc, id.getD self⟩ w.state.threads
        rw [show enter ⟨name, desc, id.getD self⟩ w.state.threads = w.state.threads from heq]
          at hmem
        exact hmem
      · exact enter_mem hunique

theorem mem_ids_enter {new : Thread T} {threads : List (Thread T)} {id : T}
    (h : id ∈ (enter new threads).map Thread.id) :
    id = new.id ∨ id ∈ threads.map Thread.id := by
  rw [← lookup_isSome, lookup_enter] at h
  by_cases hid : new.id = id
  · exact .inl hid.symm
  · rw [if_neg hid, lookup_isSome] at h
    exact .inr h

theorem mem_ids_remove {threads : List (Thread T)} {id i : T}
    (h : i ∈ (remove id threads).map Thread.id) : i ∈ threads.map Thread.id := by
  obtain ⟨t, ht, rfl⟩ := List.mem_map.mp h
  exact List.mem_map_of_mem (List.mem_of_mem_filter ht)

theorem map_enter {threads : List (Thread T)} {map : T → Option (String × String)}
    (h : ∀ i, lookup i threads = (map i).map fun e => ⟨e.1, e.2, i⟩) (id : T) (name desc : String)
    (i : T) :
    lookup i (enter ⟨name, desc, id⟩ threads) =
      (Function.update map id (some (name, desc)) i).map fun e => ⟨e.1, e.2, i⟩ := by
  rw [lookup_enter]
  by_cases hid : id = i
  · subst hid
    rw [if_pos rfl, Function.update_self, Option.map_some]
  · rw [if_neg hid, Function.update_of_ne (Ne.symm hid), h i]

theorem map_remove {threads : List (Thread T)} {map : T → Option (String × String)}
    (h : ∀ i, lookup i threads = (map i).map fun e => ⟨e.1, e.2, i⟩) (id i : T) :
    lookup i (remove id threads) =
      (Function.update map id none i).map fun e => ⟨e.1, e.2, i⟩ := by
  rw [lookup_remove]
  by_cases hid : id = i
  · subst hid
    rw [if_pos rfl, Function.update_self, Option.map_none]
  · rw [if_neg hid, Function.update_of_ne (Ne.symm hid), h i]

theorem World.Whole.step (h : w.Whole) (hstepped : Stepped w op w') (hharmless : Harmless w op w') :
    w'.Whole := by
  obtain ⟨hgood, hknown, hmap⟩ := h
  have hcontents := hstepped.contents
  have hentered : ∀ {new : Thread T}, w'.state.threads = enter new w.state.threads →
      w'.known = new.id :: w.known → ∀ id ∈ w'.state.ids, id ∈ w'.known := by
    intro new hthreads hk id hid
    rw [State.ids, hthreads] at hid
    rw [hk]
    rcases mem_ids_enter hid with rfl | hid
    · exact List.mem_cons_self
    · exact List.mem_cons_of_mem _ (hknown id hid)
  refine ⟨hstepped.good, ?_, ?_⟩
  · cases op with
    | register self id name desc newelem => exact hentered hcontents hstepped.known
    | new self created name desc newelem =>
      cases created with
      | created id => exact hentered hcontents hstepped.known
      | failed errno positive id =>
        have hsame := (hstepped.failed_iff hgood.unique trivial).mpr hharmless
        rw [State.ids, hsame, hstepped.known]
        exact hknown
    | destroy id =>
      intro i hi
      rw [State.ids, hcontents] at hi
      rw [hstepped.known]
      exact hknown i (mem_ids_remove hi)
  · intro i
    rw [hstepped.map]
    cases op with
    | register self id name desc newelem =>
      rw [hcontents]
      exact map_enter hmap (id.getD self) name desc i
    | new self created name desc newelem =>
      cases created with
      | created id =>
        rw [hcontents]
        exact map_enter hmap id name desc i
      | failed errno positive id =>
        rw [(hstepped.failed_iff hgood.unique trivial).mpr hharmless]
        exact hmap i
    | destroy id =>
      rw [hcontents]
      exact map_remove hmap id i

theorem World.Whole.correct (h : w'.Whole)
    (hfailed : op.Failed → w'.state.threads = w.state.threads) : Correct w op w' where
  unique := h.good.unique
  known := h.known
  failed := hfailed
  listed := by
    intro id
    rw [State.ids, ← lookup_isSome, h.map id, Option.isSome_map]
  getname := by
    intro self id
    rw [h.good.getname, h.map]
    cases w'.map (id.getD self) <;> rfl
  getdesc := by
    intro self id
    rw [h.good.getdesc, h.map]
    cases w'.map (id.getD self) <;> rfl

/-- The list of the threads is the map it is to be, all through a run, if and only if every
creation of the run that fails happens to leave the id of a thread that is listed already, under
the same strings. -/
theorem thread_map_iff (T : Type) [DecidableEq T] (ops : List (Op T)) :
    Transition.Along step Correct (World.initial T) ops ↔
      Transition.Along step Harmless (World.initial T) ops := by
  constructor
  · refine Transition.along_of (I := fun w : World T => w.state.Good) ?_ good_initial
    intro w op w' hgood hstep hcorrect
    have hstepped := stepped hgood hstep
    refine ⟨hstepped.good, ?_⟩
    by_cases hfailed : op.Failed
    · exact (hstepped.failed_iff hgood.unique hfailed).mp (hcorrect.failed hfailed)
    · cases op with
      | register self id name desc newelem | destroy id => trivial
      | new self created name desc newelem =>
        cases created with
        | created id => trivial
        | failed errno positive id => exact absurd trivial hfailed
  · refine Transition.along_of (I := World.Whole) ?_
      ⟨good_initial, fun _ => nofun, fun _ => rfl⟩
    intro w op w' hwhole hstep hharmless
    have hstepped := stepped hwhole.good hstep
    have hwhole' := hwhole.step hstepped hharmless
    exact ⟨hwhole', hwhole'.correct fun hfailed =>
      (hstepped.failed_iff hwhole.good.unique hfailed).mpr hharmless⟩

def failedNew : List (Op Nat) :=
  [.register 0 none "main" "" (some 1),
    .new 0 (.failed 11 (by decide) (some 2)) "capture" "" (some 2)]

theorem failedNew_listed :
    ∃ w, Transition.exec step (World.initial Nat) failedNew = .ok w ∧
      w.state.ids = [2, 0] ∧ w.known = [0] :=
  ⟨_, rfl, rfl, rfl⟩

theorem failedNew_not_correct :
    ¬ Transition.Along step Correct (World.initial Nat) failedNew := by
  intro halong
  obtain ⟨w, hexec, hids, hknown⟩ := failedNew_listed
  have hreal : ∀ id ∈ w.state.ids, id ∈ w.known :=
    Transition.exec_of_along (I := fun w : World Nat => ∀ id ∈ w.state.ids, id ∈ w.known)
      (fun _ _ _ _ _ h => h.known) (fun _ h => absurd h List.not_mem_nil) halong hexec
  rw [hids, hknown] at hreal
  exact absurd (hreal 2 (by decide)) (by decide)

/-- Every thread but the caller is destroyed, once; and only the caller is listed afterwards, if
it was before. -/
def KillsAll (s : State T) (self : T) : Prop :=
  ∃ s' calls, lmapThreadKillAll s self = .ok (s', calls) ∧
    calls.Perm (s.ids.filter fun id => id ≠ self) ∧ s'.ids = s.ids.filter fun id => id = self

variable {s : State T} {items xs ys : List (Nat × Thread T)} {self : T} {next : Option Nat}

/-- Past the caller, the loop goes on; at any other thread it reads an element that
`lmap_thread_destroy` has freed. -/
theorem killLoop_spec (xs : List (Nat × Thread T)) (self : T) (h : s.Inv (xs ++ ys))
    {l : LinkedList.Link} {n : Nat}
    (hseg : LinkedList.Seg s.list.heap l next ys none) (hn : ys.length ≤ n) (calls : List T) :
    killLoop self n s next calls =
      if ∀ e ∈ ys, e.2.id = self then .ok (s, calls) else .error (.walk .freed) := by
  induction ys generalizing xs l next n with
  | nil =>
    obtain rfl : next = none := hseg
    simp [killLoop]
  | cons e ys ih =>
    obtain ⟨a, t⟩ := e
    obtain ⟨rfl, next, hnode, hrest⟩ := hseg
    cases n with
    | zero => simp at hn
    | succ n =>
      have hlen : ys.length ≤ n := by simpa using hn
      by_cases hself : t.id = self
      · have hskip : killLoop self (n + 1) s (some a) calls = killLoop self n s next calls := by
          simp [killLoop, State.read, through, hnode, hself, bind, Except.bind, pure, Except.pure]
        have h' : s.Inv (xs ++ [(a, t)] ++ ys) := by rwa [List.append_assoc]
        have hall : (∀ e ∈ (a, t) :: ys, e.2.id = self) ↔ ∀ e ∈ ys, e.2.id = self := by
          rw [List.forall_mem_cons]
          exact and_iff_right hself
        rw [hskip, ih (xs ++ [(a, t)]) h' hrest hlen]
        exact if_congr hall.symm rfl rfl
      · obtain ⟨s', hdestroy, -, hfreed, -⟩ := h.destroy
        have hstop : ¬ ∀ e ∈ (a, t) :: ys, e.2.id = self :=
          fun hall => hself (hall (a, t) List.mem_cons_self)
        rw [if_neg hstop]
        simp [killLoop, State.read, through, hnode, hself, hdestroy, hfreed, bind, Except.bind,
          pure, Except.pure]

/-- The shutdown kills all the threads but the caller if and only if there are none. -/
theorem killAll_iff (T : Type) [DecidableEq T] (ops : List (Op T)) (w : World T)
    (hrun : Transition.exec step (World.initial T) ops = .ok w) (self : T) :
    KillsAll w.state self ↔ ∀ id ∈ w.state.ids, id = self := by
  obtain ⟨items, h⟩ := run_good hrun
  have hloop := killLoop_spec [] self h h.linked.seg h.short []
  have hids : (∀ id ∈ w.state.ids, id = self) ↔ ∀ e ∈ items, e.2.id = self := by
    rw [h.ids, List.forall_mem_map]
  constructor
  · rintro ⟨s', calls, hkill, -⟩
    by_contra hother
    rw [lmapThreadKillAll, hloop, if_neg (hids.not.mp hother)] at hkill
    cases hkill
  · intro hall
    refine ⟨w.state, [], ?_, ?_, ?_⟩
    · rw [lmapThreadKillAll, hloop, if_pos (hids.mp hall)]
    · rw [List.filter_eq_nil_iff.mpr fun id hid => by simpa using hall id hid]
    · exact (List.filter_eq_self.mpr fun id hid => by simpa using hall id hid).symm

def mainOps : List (Op (Fin 2)) :=
  [.register 0 none "main" "" (some 1),
    .new 0 (.created 1) "capture" "pcap handler and packet decoder" (some 2),
    .register 0 none "UI" "the user interface" (some 3)]

theorem mainOps_killAll :
    ∃ w, Transition.exec step (World.initial (Fin 2)) mainOps = .ok w ∧
      (KillsAll w.state 0 ↔ ∀ id ∈ w.state.ids, id = 0) :=
  ⟨_, rfl, killAll_iff (Fin 2) mainOps _ rfl 0⟩

theorem mainOps_freed :
    ∃ w, Transition.exec step (World.initial (Fin 2)) mainOps = .ok w ∧ w.state.ids = [1, 0] ∧
      ¬ KillsAll w.state 0 := by
  refine ⟨_, rfl, rfl, ?_⟩
  rintro ⟨s', calls, hkill, -⟩
  cases hkill

end Run

end Registry
end Lmap
