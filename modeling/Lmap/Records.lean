import Lmap.Library.Ownership
import Mathlib.Tactic.Abel

/-!
Lists of records that have strings of their own: the statistics and the threads, over any calls.
-/

set_option autoImplicit false

namespace Lmap
namespace Blocks
open Ownership

structure Record (κ : Type) where
  key : κ
  elem : Nat
  strings : List Nat
  deriving DecidableEq, Repr

variable {κ : Type} [DecidableEq κ]

def newRecord (A : Allocator) (k : Nat) (key : κ) : Prog (Record κ) := do
  let elem ← A.malloc
  let strings ← fold (fun ss (_ : Nat) => do
    let s ← A.malloc
    pure (s :: ss)) [] (List.range k)
  pure ⟨key, elem, strings⟩

/-- `LIST_REPLACE` of the first record with that key, which is the other result. -/
def replaceFirst (new : Record κ) : List (Record κ) → Option (Record κ × List (Record κ))
  | [] => none
  | r :: rs =>
    if r.key = new.key then some (r, new :: rs)
    else (replaceFirst new rs).map fun found => (found.1, r :: found.2)

/-- A record that is replaced is freed without its strings. -/
def register (A : Allocator) (k : Nat) (list : List (Record κ)) (key : κ) :
    Prog (List (Record κ)) := do
  let newelem ← newRecord A k key
  match replaceFirst newelem list with
  | some (current, list) =>
    free current.elem
    pure list
  | none => pure (newelem :: list)

def freeRecord (r : Record κ) : Prog Unit := do
  each free r.strings
  free r.elem

def registerStat (A : Allocator) (list : List (Record String)) (type : String) :
    Prog (List (Record String)) :=
  register A 1 list type

def freeStats (list : List (Record String)) : Prog Unit := each freeRecord list

def lmapThreadRegister (A : Allocator) (list : List (Record κ)) (id : κ) :
    Prog (List (Record κ)) :=
  register A 2 list id

def removeFirst (key : κ) : List (Record κ) → Option (Record κ × List (Record κ))
  | [] => none
  | r :: rs =>
    if r.key = key then some (r, rs)
    else (removeFirst key rs).map fun found => (found.1, r :: found.2)

def lmapThreadDestroy (list : List (Record κ)) (id : κ) : Prog (List (Record κ)) :=
  match removeFirst id list with
  | some (current, list) => do
    freeRecord current
    pure list
  | none => pure list

def Record.blocks (r : Record κ) : Multiset Nat := {r.elem} + (r.strings : Multiset Nat)

def listBlocks (list : List (Record κ)) : Multiset Nat := (list.map Record.blocks).sum

def stringBlocks (records : List (Record κ)) : Multiset Nat :=
  (records.map fun r => (r.strings : Multiset Nat)).sum

/-- The record whose place is taken by a new one with that key. -/
def replacedBy (key : κ) (list : List (Record κ)) : List (Record κ) :=
  (list.find? fun r => r.key = key).toList

def keys (list : List (Record κ)) : List κ := list.map Record.key

def enter (key : κ) (keys : List κ) : List κ := if key ∈ keys then keys else key :: keys

variable {A : Allocator} {k : Nat} {key : κ} {list list' : List (Record κ)}
  {new current : Record κ}

omit [DecidableEq κ] in
theorem listBlocks_append (xs ys : List (Record κ)) :
    listBlocks (xs ++ ys) = listBlocks xs + listBlocks ys := by
  rw [listBlocks, List.map_append, List.sum_append]
  rfl

omit [DecidableEq κ] in
theorem listBlocks_cons (r : Record κ) (list : List (Record κ)) :
    listBlocks (r :: list) = r.blocks + listBlocks list := by
  rw [listBlocks, List.map_cons, List.sum_cons]
  rfl

theorem replaceFirst_none : replaceFirst new list = none ↔ new.key ∉ keys list := by
  induction list with
  | nil => simp [replaceFirst, keys]
  | cons r rs ih =>
    by_cases hr : r.key = new.key
    · simp [replaceFirst, keys, hr]
    · have hr' : ¬ new.key = r.key := fun h => hr h.symm
      simpa [replaceFirst, keys, hr, hr'] using ih

omit [DecidableEq κ] in
theorem stringBlocks_append (xs ys : List (Record κ)) :
    stringBlocks (xs ++ ys) = stringBlocks xs + stringBlocks ys := by
  rw [stringBlocks, List.map_append, List.sum_append]
  rfl

theorem keys_replacedBy (key : κ) (list : List (Record κ)) :
    keys (replacedBy key list) = if key ∈ keys list then [key] else [] := by
  unfold replacedBy
  cases hfind : list.find? fun r => r.key = key with
  | none =>
    have hnot : key ∉ keys list := by simpa [keys] using hfind
    rw [if_neg hnot]
    rfl
  | some r =>
    have hr : r.key = key := by simpa using List.find?_some hfind
    rw [if_pos (hr ▸ List.mem_map_of_mem (List.mem_of_find?_eq_some hfind))]
    exact congrArg (fun k => [k]) hr

theorem replacedBy_replaceFirst :
    replacedBy new.key list = ((replaceFirst new list).map Prod.fst).toList := by
  induction list with
  | nil => rfl
  | cons r rs ih =>
    by_cases hr : r.key = new.key
    · simp [replacedBy, replaceFirst, hr]
    · simpa [replacedBy, replaceFirst, hr, Function.comp_def] using ih

theorem replaceFirst_some (h : replaceFirst new list = some (current, list')) :
    ∃ xs ys, list = xs ++ current :: ys ∧ list' = xs ++ new :: ys ∧ current.key = new.key := by
  induction list generalizing list' with
  | nil => cases h
  | cons r rs ih =>
    rw [replaceFirst] at h
    split at h
    · rename_i hr
      cases h
      exact ⟨[], rs, rfl, rfl, hr⟩
    · obtain ⟨found, hfound, heq⟩ := Option.map_eq_some_iff.mp h
      obtain ⟨rfl, rfl⟩ := Prod.mk.inj heq
      obtain ⟨xs, ys, rfl, hlist, hkey⟩ := ih hfound
      exact ⟨r :: xs, ys, rfl, by rw [hlist]; rfl, hkey⟩

theorem removeFirst_none : removeFirst key list = none ↔ key ∉ keys list := by
  induction list with
  | nil => simp [removeFirst, keys]
  | cons r rs ih =>
    by_cases hr : r.key = key
    · simp [removeFirst, keys, hr]
    · have hr' : ¬ key = r.key := fun h => hr h.symm
      simpa [removeFirst, keys, hr, hr'] using ih

theorem removeFirst_some (h : removeFirst key list = some (current, list')) :
    ∃ xs ys, list = xs ++ current :: ys ∧ list' = xs ++ ys ∧ current.key = key ∧
      key ∉ keys xs := by
  induction list generalizing list' with
  | nil => cases h
  | cons r rs ih =>
    rw [removeFirst] at h
    split at h
    · rename_i hr
      cases h
      exact ⟨[], rs, rfl, rfl, hr, List.not_mem_nil⟩
    · rename_i hr
      obtain ⟨found, hfound, heq⟩ := Option.map_eq_some_iff.mp h
      obtain ⟨rfl, rfl⟩ := Prod.mk.inj heq
      obtain ⟨xs, ys, rfl, hlist, hkey, hxs⟩ := ih hfound
      refine ⟨r :: xs, ys, rfl, by rw [hlist]; rfl, hkey, fun hmem => ?_⟩
      rcases List.mem_cons.mp hmem with heq | hmem
      · exact hr heq.symm
      · exact hxs hmem

omit [DecidableEq κ] in
theorem triple_newRecord :
    Triple 0 (newRecord A k key) fun r own =>
      own = r.blocks ∧ r.key = key ∧ r.strings.length = k := by
  refine .malloc A fun elem => ?_
  rw [add_comm]
  have hstrings : Triple 0 (fold (fun ss (_ : Nat) => do
      let s ← A.malloc
      pure (s :: ss)) [] (List.range k)) fun (ss : List Nat) own =>
        own = (ss : Multiset Nat) ∧ ss.length = (List.range k).length := by
    refine triple_fold (I := fun done (ss : List Nat) own =>
      own = (ss : Multiset Nat) ∧ ss.length = done.length)
      (fun done i todo ss own _ hdone => ?_) ⟨rfl, rfl⟩
    obtain ⟨rfl, hlen⟩ := hdone
    refine .malloc A fun s => triple_pure ⟨?_, ?_⟩
    · rw [Multiset.singleton_add, Multiset.cons_coe]
    · rw [List.length_cons, hlen, List.length_append, List.length_singleton]
  refine hstrings.bind _ fun ss own hown => ?_
  obtain ⟨rfl, hlen⟩ := hown
  refine triple_pure ⟨add_comm _ _, rfl, ?_⟩
  rw [hlen, List.length_range]

theorem enter_nodup {ks : List κ} (h : ks.Nodup) (key : κ) : (enter key ks).Nodup := by
  unfold enter
  split
  · exact h
  · exact List.nodup_cons.mpr ⟨‹_›, h⟩

/-- Every record has its strings, and the keys are these. -/
structure Holds (k : Nat) (list : List (Record κ)) (ks : List κ) : Prop where
  strings : ∀ r ∈ list, r.strings.length = k
  keys : keys list = ks

omit [DecidableEq κ] in
theorem holds_nil (k : Nat) : Holds k ([] : List (Record κ)) [] :=
  ⟨fun _ hr => absurd hr List.not_mem_nil, rfl⟩

omit [DecidableEq κ] in
theorem Holds.append {list' : List (Record κ)} {ks ks' : List κ} (h : Holds k list ks)
    (h' : Holds k list' ks') : Holds k (list ++ list') (ks ++ ks') where
  strings r hr := (List.mem_append.mp hr).elim (h.strings r) (h'.strings r)
  keys := by
    rw [← h.keys, ← h'.keys]
    exact List.map_append

theorem Holds.replacedBy {ks : List κ} (h : Holds k list ks) (key : κ) :
    Holds k (replacedBy key list) (if key ∈ ks then [key] else []) where
  strings r hr := h.strings r (List.mem_of_find?_eq_some (Option.mem_toList.mp hr))
  keys := by rw [keys_replacedBy, h.keys]

/-- The strings of the record that is replaced are lost. -/
theorem triple_register {ks : List κ} (h : Holds k list ks) :
    Triple (listBlocks list) (register A k list key) fun list' own =>
      Holds k list' (enter key ks) ∧
        own = listBlocks list' + stringBlocks (replacedBy key list) := by
  have hown : listBlocks list = 0 + listBlocks list := (zero_add _).symm
  rw [hown]
  refine triple_newRecord.bind _ fun new own hnew => ?_
  obtain ⟨rfl, rfl, hlen⟩ := hnew
  have hks := h.keys
  subst hks
  rw [replacedBy_replaceFirst]
  cases hfound : replaceFirst new list with
  | none =>
    have hnew := replaceFirst_none.mp hfound
    refine triple_pure ⟨⟨?_, ?_⟩, ?_⟩
    · exact List.forall_mem_cons.mpr ⟨hlen, h.strings⟩
    · rw [enter, if_neg hnew]
      rfl
    · rw [listBlocks_cons]
      exact (add_zero _).symm
  | some found =>
    obtain ⟨current, list'⟩ := found
    obtain ⟨xs, ys, rfl, rfl, hkey⟩ := replaceFirst_some hfound
    have hmem : new.key ∈ keys (xs ++ current :: ys) := by
      rw [← hkey]
      exact List.mem_map_of_mem (List.mem_append_right _ List.mem_cons_self)
    have hblocks : new.blocks + listBlocks (xs ++ current :: ys) =
        {current.elem} + (listBlocks (xs ++ new :: ys) + stringBlocks [current]) := by
      simp only [listBlocks_append, listBlocks_cons, Record.blocks, stringBlocks, List.map_cons,
        List.map_nil, List.sum_cons, List.sum_nil]
      abel
    rw [hblocks]
    refine .free (triple_pure ⟨⟨fun r hr => ?_, ?_⟩, rfl⟩)
    · rcases List.mem_append.mp hr with hr | hr
      · exact h.strings r (List.mem_append_left _ hr)
      · rcases List.mem_cons.mp hr with rfl | hr
        · exact hlen
        · exact h.strings r (List.mem_append_right _ (List.mem_cons_of_mem _ hr))
    · rw [enter, if_pos hmem, keys, keys, List.map_append, List.map_append, List.map_cons,
        List.map_cons, hkey]

omit [DecidableEq κ] in
theorem triple_freeRecord (r : Record κ) :
    Triple r.blocks (freeRecord r) fun _ own => own = 0 := by
  have hstrings : Triple (r.strings.map fun s => ({s} : Multiset Nat)).sum (each free r.strings)
      fun _ own => own = 0 := triple_each fun s _ => triple_free s
  have hsum : (r.strings.map fun s => ({s} : Multiset Nat)).sum = (r.strings : Multiset Nat) := by
    induction r.strings with
    | nil => rfl
    | cons s ss ih =>
      rw [List.map_cons, List.sum_cons, ih, Multiset.singleton_add, Multiset.cons_coe]
  rw [hsum] at hstrings
  rw [Record.blocks, add_comm]
  refine hstrings.bind _ fun _ own hown => ?_
  rw [hown, zero_add]
  exact triple_free r.elem

theorem triple_freeStats (list : List (Record String)) :
    Triple (listBlocks list) (freeStats list) fun _ own => own = 0 :=
  triple_each fun r _ => triple_freeRecord r

theorem triple_lmapThreadDestroy {ks : List κ} (h : Holds k list ks) :
    Triple (listBlocks list) (lmapThreadDestroy list key) fun list' own =>
      Holds k list' (ks.erase key) ∧ own = listBlocks list' := by
  have hks := h.keys
  subst hks
  unfold lmapThreadDestroy
  cases hfound : removeFirst key list with
  | none =>
    have hnot := removeFirst_none.mp hfound
    exact triple_pure ⟨⟨h.strings, (List.erase_of_not_mem hnot).symm⟩, rfl⟩
  | some found =>
    obtain ⟨current, list'⟩ := found
    obtain ⟨xs, ys, rfl, rfl, rfl, hxs⟩ := removeFirst_some hfound
    have hblocks : listBlocks (xs ++ current :: ys) = current.blocks + listBlocks (xs ++ ys) := by
      simp only [listBlocks_append, listBlocks_cons]
      abel
    rw [hblocks]
    refine (triple_freeRecord current).bind _ fun _ own hown =>
      triple_pure ⟨⟨fun r hr => ?_, ?_⟩, ?_⟩
    · rcases List.mem_append.mp hr with hr | hr
      · exact h.strings r (List.mem_append_left _ hr)
      · exact h.strings r (List.mem_append_right _ (List.mem_cons_of_mem _ hr))
    · have hkeys : keys (xs ++ current :: ys) = keys xs ++ current.key :: keys ys := by
        rw [keys, List.map_append, List.map_cons]
        rfl
      rw [hkeys, List.erase_append_right _ hxs, List.erase_cons_head, keys, List.map_append]
      rfl
    · rw [hown, zero_add]

inductive ThreadCall (κ : Type) where
  | register (id : κ)
  | destroy (id : κ)
  deriving DecidableEq, Repr

structure ThreadList (κ : Type) where
  list : List (Record κ)
  replaced : List (Record κ)

def ThreadCall.run (A : Allocator) (t : ThreadList κ) : ThreadCall κ → Prog (ThreadList κ)
  | register id => do
    let list ← lmapThreadRegister A t.list id
    pure ⟨list, replacedBy id t.list ++ t.replaced⟩
  | destroy id => do
    let list ← lmapThreadDestroy t.list id
    pure ⟨list, t.replaced⟩

def ThreadCall.ids (ks : List κ) : ThreadCall κ → List κ
  | register id => enter id ks
  | destroy id => ks.erase id

/-- The ids that are registered where they are in the list already, the last one first. -/
def replacements : List κ → List (ThreadCall κ) → List κ
  | _, [] => []
  | ks, .register id :: calls =>
    replacements (enter id ks) calls ++ if id ∈ ks then [id] else []
  | ks, .destroy id :: calls => replacements (ks.erase id) calls

theorem replacements_snoc (ks : List κ) (calls : List (ThreadCall κ)) (c : ThreadCall κ) :
    replacements ks (calls ++ [c]) =
      replacements (calls.foldl ThreadCall.ids ks) [c] ++ replacements ks calls := by
  induction calls generalizing ks with
  | nil => simp [replacements]
  | cons d calls ih =>
    cases d with
    | register id =>
      simp only [List.cons_append, replacements, List.foldl_cons, ThreadCall.ids, ih]
      exact List.append_assoc _ _ _
    | destroy id => simp only [List.cons_append, replacements, List.foldl_cons, ThreadCall.ids, ih]

structure Registered (done : List (ThreadCall κ)) (t : ThreadList κ) (own : Multiset Nat) :
    Prop where
  list : Holds 2 t.list (done.foldl ThreadCall.ids [])
  replaced : Holds 2 t.replaced (replacements [] done)
  own : own = listBlocks t.list + stringBlocks t.replaced

theorem triple_call {done : List (ThreadCall κ)} {t : ThreadList κ} {own : Multiset Nat}
    (h : Registered done t own) (c : ThreadCall κ) :
    Triple own (c.run A t) (Registered (done ++ [c])) := by
  obtain ⟨hlist, hreplaced, rfl⟩ := h
  have hsnoc := replacements_snoc [] done c
  have hids : (done ++ [c]).foldl ThreadCall.ids [] =
      ThreadCall.ids (done.foldl ThreadCall.ids []) c := List.foldl_append
  cases c with
  | register id =>
    refine (triple_register hlist).bind _ fun list own hown => triple_pure ?_
    obtain ⟨hlist', rfl⟩ := hown
    refine ⟨hids ▸ hlist', ?_, ?_⟩
    · rw [hsnoc]
      exact (hlist.replacedBy id).append hreplaced
    · rw [stringBlocks_append, add_assoc]
  | destroy id =>
    refine (triple_lmapThreadDestroy hlist).bind _ fun list own hown => triple_pure ?_
    obtain ⟨hlist', rfl⟩ := hown
    exact ⟨hids ▸ hlist', hsnoc ▸ hreplaced, rfl⟩

/-- Whatever threads are registered and destroyed, nothing is freed twice: what is still allocated
are the three blocks of each thread in the list, and the two strings of every record that was
registered over. -/
theorem threads_keep (A : Allocator) (calls : List (ThreadCall κ)) :
    Triple 0 (fold (ThreadCall.run A) ⟨[], []⟩ calls) fun t own =>
      Holds 2 t.list (calls.foldl ThreadCall.ids []) ∧
        Holds 2 t.replaced (replacements [] calls) ∧
        own = listBlocks t.list + stringBlocks t.replaced := by
  have hfold : Triple 0 (fold (ThreadCall.run A) ⟨[], []⟩ calls) (Registered calls) :=
    triple_fold (I := Registered) (fun _ c _ _ _ _ hdone => triple_call hdone c)
      ⟨holds_nil 2, holds_nil 2, rfl⟩
  exact hfold.mono fun t own h => ⟨h.list, h.replaced, h.own⟩

end Blocks
end Lmap
