import Lmap.Library.LinkedList
import Lmap.Library.Transition
import Lmap.Stat
import Mathlib.Tactic.Ring

/-!
The list of the statistics through the pointers of its elements, and the walk over it that
keeps its place from one call to the next.
-/

set_option autoImplicit false

namespace Lmap
namespace StatList
open LinkedList (Store Linked Seg addresses lastLink addresses_append addresses_map)
open Transition (Along exec along_cons)

inductive Stop where
  | disabled
  /-- `ON_ERROR`, and the program ends. -/
  | exit
  | walk (stop : LinkedList.Stop)
  deriving DecidableEq, Repr

/-- `current` of `get_all_stats`, which is `~0` up to the first call. -/
inductive Cursor where
  | unset
  | at (p : Option Nat)
  deriving DecidableEq, Repr

/-- No walk over the list is longer than the number of elements allocated so far. -/
structure State where
  list : Store StatEntry
  allocs : Nat
  statEntries : UInt32
  current : Cursor

def State.initial : State := ⟨.initial, 0, 0, .unset⟩

/-- An access goes through a pointer to no element. -/
def through {α : Type} : Option α → Except Stop α
  | none => .error (.walk .freed)
  | some a => .ok a

def walked {α : Type} : Except LinkedList.Stop α → Except Stop α
  | .error stop => .error (.walk stop)
  | .ok a => .ok a

/-- `register_stat` from its loop on. -/
def State.place (s : State) (newelem : Nat) (type : String) : Except Stop State := do
  match ← walked (LinkedList.find s.list (fun e => e.type = type) s.allocs s.list.first) with
  | some (current, _) =>
    let list ← through (s.list.replace current newelem)
    pure { s with list := list.free current }
  | none =>
    let list ← through (s.list.insertHead newelem)
    pure { s with list := list, statEntries := s.statEntries + 1 }

/-- `newelem` is what `calloc` gives. The links of a new element are set before they are read. -/
def State.registerStat (s : State) (type : String) (newelem : Option Nat) : Except Stop State :=
  match newelem with
  | none => .error .exit
  | some newelem =>
    if (s.list.heap newelem).isSome then .error .disabled
    else
      let list := s.list.write newelem (some ⟨⟨type, 0⟩, none, .head⟩)
      { s with list := list, allocs := s.allocs + 1 : State }.place newelem type

def State.updateStat (s : State) (type : String) (count : UInt32) : Except Stop State := do
  let list ← walked (LinkedList.update
    (fun e => if e.type = type then { e with num := e.num + count } else e)
    s.allocs s.list s.list.first)
  pure { s with list := list }

/-- What `get_all_stats` leaves for an element. `*num` is an `int`. -/
def shown (e : StatEntry) : String × Int := (e.type, e.num.toInt32.toInt)

def State.advance (s : State) (p : Option Nat) : Except Stop (State × Option (String × Int)) := do
  let node ← through (p.bind s.list.heap)
  pure ({ s with current := .at node.next }, some (shown node.data))

/-- It returns 0 where nothing is left in `*type` and `*num`. -/
def State.getAllStats (s : State) : Except Stop (State × Option (String × Int)) :=
  match s.current with
  | .unset => s.advance s.list.first
  | .at none => pure ({ s with current := .at s.list.first }, none)
  | .at (some a) => s.advance (some a)

def cycleLoop : Nat → State → Except Stop (State × List (String × Int))
  | 0, _ => .error (.walk .endless)
  | n + 1, s => do
    match ← s.getAllStats with
    | (s, none) => pure (s, [])
    | (s, some e) =>
      let (s, rest) ← cycleLoop n s
      pure (s, e :: rest)

/-- Such a cycle, which returns each element of the list at most once. -/
def State.cycle (s : State) : Except Stop (State × List (String × Int)) :=
  cycleLoop (s.allocs + 1) s

inductive Op where
  | registerStat (type : String) (newelem : Option Nat)
  | updateStat (type : String) (count : UInt32)
  | cycle
  deriving DecidableEq, Repr

/-- Nobody goes through an empty table. -/
def step (s : State) : Op → Except Stop State
  | .registerStat type newelem => s.registerStat type newelem
  | .updateStat type count => s.updateStat type count
  | .cycle =>
    if s.list.first = none then .error .disabled
    else do
      let (s, _) ← s.cycle
      pure s

def State.items (s : State) : List (Nat × StatEntry) :=
  LinkedList.elements s.list s.allocs s.list.first

def State.stats (s : State) : Stats := ⟨s.items.map Prod.snd, s.statEntries⟩

def Op.apply (s : Stats) : Op → Stats
  | .registerStat type _ => Lmap.registerStat s type
  | .updateStat type count => Lmap.updateStat s type count
  | .cycle => s

structure Enumerates (out : List (String × Int)) (s : Stats) : Prop where
  once : (out.map Prod.fst).Nodup
  counts : ∀ type num, (type, num) ∈ out ↔ type ∈ s.names ∧ num = (getStat s type).toNat

/-- What is to hold after a call: the table is the one of these calls, a cycle has returned what
is registered, and the cursor is not left at an element that is not in the list. -/
structure Correct (s : State) (op : Op) (s' : State) : Prop where
  table : s'.stats = op.apply s.stats
  cycle : op = .cycle → ∃ out, s.cycle = .ok (s', out) ∧ Enumerates out s.stats
  cursor : ∀ a, s'.current = .at (some a) → a ∈ addresses s'.items

/-- A name is not registered again while the cursor is at its element. A cycle begins at the
first element, and the counts fit an `int`. -/
def Fits (s : State) : Op → Prop
  | .registerStat type _ => ∀ e ∈ s.items, s.current = .at (some e.1) → e.2.type ≠ type
  | .updateStat _ _ => True
  | .cycle =>
    (s.current = .unset ∨ s.current = .at s.list.first) ∧
      ∀ e ∈ s.stats.list, e.num.toNat < 2 ^ 31

instance (s : State) (op : Op) : Decidable (Fits s op) :=
  match op with
  | .registerStat type _ => inferInstanceAs
      (Decidable (∀ e ∈ s.items, s.current = .at (some e.1) → e.2.type ≠ type))
  | .updateStat _ _ => isTrue trivial
  | .cycle => inferInstanceAs
      (Decidable ((s.current = .unset ∨ s.current = .at s.list.first) ∧
        ∀ e ∈ s.stats.list, e.num.toNat < 2 ^ 31))

structure State.Inv (s : State) (items : List (Nat × StatEntry)) : Prop where
  linked : Linked s.list items
  short : items.length ≤ s.allocs
  unique : (items.map fun e => e.2.type).Nodup

variable {s s' : State} {items xs ys : List (Nat × StatEntry)} {a : Nat} {e : StatEntry}
  {p : Option Nat} {type : String} {count : UInt32}

theorem State.Inv.items_eq (h : s.Inv items) : s.items = items :=
  h.linked.seg.elements h.short

theorem State.Inv.stats (h : s.Inv items) : s.stats = ⟨items.map Prod.snd, s.statEntries⟩ := by
  rw [State.stats, h.items_eq]

theorem State.Inv.names (h : s.Inv items) : s.stats.names = items.map fun e => e.2.type := by
  rw [h.stats, Stats.names, List.map_map]
  rfl

inductive Placed (s : State) (items : List (Nat × StatEntry)) (type : String) (newelem : Nat)
    (s' : State) : Prop where
  | inserted (hnew : type ∉ items.map fun e => e.2.type)
      (hinv : s'.Inv ((newelem, ⟨type, 0⟩) :: items))
      (hentries : s'.statEntries = s.statEntries + 1)
  | replaced (xs ys : List (Nat × StatEntry)) (b : Nat) (e : StatEntry)
      (hitems : items = xs ++ (b, e) :: ys) (htype : e.type = type)
      (hxs : ∀ d ∈ xs, d.2.type ≠ type) (hys : ∀ d ∈ ys, d.2.type ≠ type)
      (hinv : s'.Inv (xs ++ (newelem, ⟨type, 0⟩) :: ys))
      (hfreed : b ∉ addresses (xs ++ (newelem, ⟨type, 0⟩) :: ys))
      (hentries : s'.statEntries = s.statEntries)

theorem State.Inv.place (h : s.Inv items) (hlen : items.length < s.allocs)
    (ha : a ∉ addresses items) {next : Option Nat} {prev : LinkedList.Link}
    (hnode : s.list.heap a = some ⟨⟨type, 0⟩, next, prev⟩) :
    ∃ s', s.place a type = .ok s' ∧ s'.current = s.current ∧ Placed s items type a s' := by
  have hfind := h.linked.seg.find (fun e => e.type = type) h.short
  cases hfound : items.find? fun e => e.2.type = type with
  | none =>
    obtain ⟨list, hinsert, hlinked, -⟩ := h.linked.insertHead ha hnode
    have hnew := LinkedList.key_not_mem hfound
    refine ⟨{ s with list := list, statEntries := s.statEntries + 1 }, ?_, rfl,
      .inserted hnew ⟨hlinked, hlen, List.nodup_cons.mpr ⟨hnew, h.unique⟩⟩ rfl⟩
    simp only [State.place, hfind, hfound, walked, hinsert, through, bind, Except.bind, pure,
      Except.pure]
  | some found =>
    obtain ⟨xs, ys, rfl, htype, hxs, hys⟩ := LinkedList.split_of_find h.unique hfound
    obtain ⟨b, e⟩ := found
    obtain ⟨list, hreplace, hlinked, hb⟩ := h.linked.replaceFree ha hnode
    have hshort := h.short
    have hunique := h.unique
    refine ⟨{ s with list := list.free b }, ?_, rfl,
      .replaced xs ys b e rfl htype hxs hys ⟨hlinked, ?_, ?_⟩ hb rfl⟩
    · simp only [State.place, hfind, hfound, walked, hreplace, through, bind, Except.bind, pure,
        Except.pure]
    · simp only [List.length_append, List.length_cons] at hshort ⊢
      exact hshort
    · simpa [show e.type = type from htype] using hunique

theorem State.Inv.registerStat (h : s.Inv items) (type : String) (newelem : Option Nat) :
    (∃ stop, s.registerStat type newelem = .error stop ∧ (stop = .disabled ∨ stop = .exit)) ∨
    ∃ a s', newelem = some a ∧ s.registerStat type newelem = .ok s' ∧ s'.current = s.current ∧
      Placed s items type a s' := by
  cases newelem with
  | none => exact .inl ⟨.exit, rfl, .inr rfl⟩
  | some a =>
    by_cases hfree : s.list.heap a = none
    · have ha := h.linked.seg.not_mem hfree
      let s₁ : State := { s with
        list := s.list.write a (some ⟨⟨type, 0⟩, none, .head⟩), allocs := s.allocs + 1 }
      have hwrite : s₁.Inv items := ⟨h.linked.write ha _, Nat.le_succ_of_le h.short, h.unique⟩
      obtain ⟨s', hplace, hcurrent, hplaced⟩ :=
        hwrite.place (Nat.lt_succ_of_le h.short) ha (Store.write_self _ _ _)
      refine .inr ⟨a, s', rfl, ?_, hcurrent, ?_⟩
      · simp only [State.registerStat, hfree, Option.isSome_none]
        exact hplace
      · cases hplaced with
        | inserted hnew hinv hentries => exact .inserted hnew hinv hentries
        | replaced xs ys b e hitems htype hxs hys hinv hfreed hentries =>
          exact .replaced xs ys b e hitems htype hxs hys hinv hfreed hentries
    · refine .inl ⟨.disabled, ?_, .inl rfl⟩
      simp only [State.registerStat, Option.isSome_iff_ne_none.mpr hfree, if_true]

theorem Placed.stats (h : Placed s items type a s') (hs : s.Inv items) :
    s'.stats = Lmap.registerStat s.stats type := by
  cases h with
  | inserted hnew hinv hentries =>
    have hnone : replaceStat ⟨type, 0⟩ (items.map Prod.snd) = none := by
      rw [replaceStat_none, List.map_map]
      exact hnew
    rw [hinv.stats, hs.stats, Lmap.registerStat, hnone, hentries]
    rfl
  | replaced xs ys b e hitems htype hxs hys hinv hfreed hentries =>
    subst hitems
    have hsome : replaceStat ⟨type, 0⟩ ((xs ++ (b, e) :: ys).map Prod.snd) =
        some ((xs ++ (a, ⟨type, 0⟩) :: ys).map Prod.snd) := by
      rw [List.map_append, List.map_append]
      exact replaceStat_append (List.forall_mem_map.mpr hxs) htype _
    rw [hinv.stats, hs.stats, Lmap.registerStat, hsome, hentries]

theorem Placed.mem_items (h : Placed s items type a s') {b : Nat}
    {e : StatEntry} (hb : (b, e) ∈ items) : b ∈ addresses s'.items ↔ e.type ≠ type := by
  cases h with
  | inserted hnew hinv hentries =>
    rw [hinv.items_eq]
    refine iff_of_true (List.mem_cons_of_mem _ (List.mem_map_of_mem hb)) fun htype => ?_
    exact hnew (htype ▸ List.mem_map_of_mem hb)
  | replaced xs ys c d hitems htype hxs hys hinv hfreed hentries =>
    subst hitems
    rw [hinv.items_eq]
    rcases List.mem_append.mp hb with hb | hb
    · refine iff_of_true ?_ (hxs _ hb)
      rw [addresses_append]
      exact List.mem_append_left _ (List.mem_map_of_mem hb)
    · rcases List.mem_cons.mp hb with heq | hb
      · obtain ⟨rfl, rfl⟩ := Prod.mk.inj heq
        exact iff_of_false hfreed fun hne => hne htype
      · refine iff_of_true ?_ (hys _ hb)
        rw [addresses_append]
        exact List.mem_append_right _ (List.mem_cons_of_mem _ (List.mem_map_of_mem hb))

theorem State.Inv.updateStat (h : s.Inv items) (type : String) (count : UInt32) :
    ∃ s' items', s.updateStat type count = .ok s' ∧ s'.current = s.current ∧ s'.Inv items' ∧
      s'.stats = Lmap.updateStat s.stats type count ∧ addresses items' = addresses items := by
  let add : StatEntry → StatEntry := fun e =>
    if e.type = type then { e with num := e.num + count } else e
  have htype : ∀ e, (add e).type = e.type := by
    intro e
    simp only [add]
    split <;> rfl
  obtain ⟨list, hupdate, hlinked⟩ := h.linked.update add h.short
  have hinv : State.Inv { s with list := list } (items.map fun e => (e.1, add e.2)) := by
    refine ⟨hlinked, by simpa using h.short, ?_⟩
    rw [List.map_map]
    simpa only [Function.comp_def, htype] using h.unique
  refine ⟨{ s with list := list }, _, ?_, rfl, hinv, ?_, addresses_map items add⟩
  · simp only [State.updateStat, add] at hupdate ⊢
    simp only [hupdate, walked, bind, Except.bind, pure, Except.pure]
  · rw [hinv.stats, h.stats, Lmap.updateStat, List.map_map, List.map_map]
    rfl

theorem cycleLoop_seg {l : LinkedList.Link} {n : Nat} (hseg : Seg s.list.heap l p ys none)
    (hcurrent : s.current = .at p) (hn : ys.length < n) :
    cycleLoop n s = .ok ({ s with current := .at s.list.first }, ys.map fun e => shown e.2) := by
  induction ys generalizing s l p n with
  | nil =>
    obtain rfl : p = none := hseg
    obtain ⟨n, rfl⟩ := Nat.exists_eq_add_one.mpr hn
    simp only [cycleLoop, State.getAllStats, hcurrent, bind, Except.bind, pure, Except.pure,
      List.map_nil]
  | cons e ys ih =>
    obtain ⟨a, e⟩ := e
    obtain ⟨rfl, next, hnode, hrest⟩ := hseg
    obtain ⟨n, rfl⟩ := Nat.exists_eq_add_one.mpr (Nat.zero_lt_of_lt hn)
    have hloop := ih (s := { s with current := .at next }) hrest rfl (by simpa using hn)
    simp only [cycleLoop, State.getAllStats, hcurrent, State.advance, Option.bind_some, hnode,
      through, bind, Except.bind, pure, Except.pure, hloop, List.map_cons]

/-- A cycle returns the elements from the cursor on, and leaves it at the first element. -/
theorem State.Inv.cycle (h : s.Inv items) (hsome : s.list.first ≠ none)
    (hcurrent : s.current = .unset ∨ ∃ a e, s.current = .at (some a) ∧ (a, e) ∈ items) :
    ∃ xs ys, items = xs ++ ys ∧
      s.cycle = .ok ({ s with current := .at s.list.first }, ys.map fun e => shown e.2) ∧
      (xs = [] ↔ s.current = .unset ∨ s.current = .at s.list.first) := by
  have hshort := h.short
  rcases hcurrent with hunset | ⟨a, e, hat, hmem⟩
  · refine ⟨[], items, rfl, ?_, iff_of_true rfl (.inl hunset)⟩
    have hseg := h.linked.seg
    cases items with
    | nil => exact absurd hseg hsome
    | cons e items =>
      obtain ⟨a, e⟩ := e
      obtain ⟨hfirst, next, hnode, hrest⟩ := hseg
      have hloop := cycleLoop_seg (s := { s with current := .at next }) hrest rfl
        (Nat.lt_of_lt_of_le (Nat.lt_succ_self _) hshort)
      simp only [State.cycle, cycleLoop, State.getAllStats, hunset, State.advance, hfirst,
        Option.bind_some, hnode, through, bind, Except.bind, pure, Except.pure, hloop,
        List.map_cons]
  · obtain ⟨xs, ys, rfl⟩ := List.mem_iff_append.mp hmem
    obtain ⟨next, hnode, hxs, hys, -, -, haxs, -⟩ := h.linked.around
    have hseg : Seg s.list.heap (lastLink .head xs) (some a) ((a, e) :: ys) none :=
      ⟨rfl, next, hnode, hys⟩
    refine ⟨xs, (a, e) :: ys, rfl, cycleLoop_seg hseg hat ?_, ?_⟩
    · rw [List.length_append] at hshort
      exact Nat.lt_succ_of_le (Nat.le_trans (Nat.le_add_left _ _) hshort)
    · constructor
      · rintro rfl
        have hfirst : s.list.first = some a := hxs
        exact .inr (hat.trans (congrArg Cursor.at hfirst.symm))
      · rintro (hunset | hfirst)
        · cases hat.symm.trans hunset
        · cases xs with
          | nil => rfl
          | cons d xs =>
            obtain ⟨hd, -⟩ := hxs
            rw [hat, hd, Cursor.at.injEq, Option.some.injEq] at hfirst
            exact absurd (hfirst ▸ List.mem_cons_self) haxs

theorem shown_num (e : StatEntry) : (shown e).2 = e.num.toNat ↔ e.num.toNat < 2 ^ 31 := by
  have hint : (shown e).2 = e.num.toBitVec.toInt := rfl
  rw [hint, BitVec.toInt_eq_toNat_cond]
  have hlt := e.num.toNat_lt
  simp only [UInt32.toNat_toBitVec]
  split <;> omega

theorem enumerates_iff {t : Stats} (hdistinct : t.names.Nodup) {ds es : List StatEntry}
    (hlist : t.list = ds ++ es) :
    Enumerates (es.map shown) t ↔ ds = [] ∧ ∀ e ∈ t.list, e.num.toNat < 2 ^ 31 := by
  have hnames : (es.map shown).map Prod.fst = es.map StatEntry.type := by
    rw [List.map_map]
    rfl
  constructor
  · intro h
    have hds : ds = [] := by
      cases ds with
      | nil => rfl
      | cons d ds =>
        have hd : d.type ∈ t.names := List.mem_map_of_mem (by rw [hlist]; exact List.mem_cons_self)
        have hout := List.mem_map_of_mem (f := Prod.fst) ((h.counts _ _).mpr ⟨hd, rfl⟩)
        rw [hnames] at hout
        rw [Stats.names, hlist, List.cons_append, List.map_cons, List.nodup_cons,
          List.map_append] at hdistinct
        exact absurd (List.mem_append_right _ hout) hdistinct.1
    refine ⟨hds, fun e he => ?_⟩
    have hshown : shown e ∈ es.map shown := by
      rw [hlist, hds] at he
      exact List.mem_map_of_mem he
    have hcount := ((h.counts e.type (shown e).2).mp hshown).2
    rw [getStat_of_mem hdistinct he] at hcount
    exact (shown_num e).mp hcount
  · rintro ⟨rfl, hfit⟩
    rw [List.nil_append] at hlist
    refine ⟨?_, fun type num => ?_⟩
    · rw [hnames, ← hlist]
      exact hdistinct
    · rw [← hlist, List.mem_map, Stats.names, List.mem_map]
      constructor
      · rintro ⟨e, he, heq⟩
        obtain ⟨rfl, rfl⟩ := Prod.mk.inj heq
        rw [getStat_of_mem hdistinct he]
        exact ⟨⟨e, he, rfl⟩, (shown_num e).mpr (hfit e he)⟩
      · rintro ⟨⟨e, he, rfl⟩, rfl⟩
        rw [getStat_of_mem hdistinct he]
        exact ⟨e, he, Prod.ext rfl ((shown_num e).mpr (hfit e he))⟩

/-- Between the calls the cursor is at no end of the list. -/
def State.Good (s : State) : Prop :=
  ∃ items, s.Inv items ∧
    (s.current = .unset ∨ ∃ a e, s.current = .at (some a) ∧ (a, e) ∈ items)

theorem good_initial : State.initial.Good :=
  ⟨[], ⟨LinkedList.linked_initial, Nat.le_refl 0, List.nodup_nil⟩, .inl rfl⟩

theorem State.Inv.good (h : s.Inv items)
    (hcurrent : s.current = .unset ∨ ∃ a, s.current = .at (some a))
    (hin : ∀ a, s.current = .at (some a) → a ∈ addresses s.items) : s.Good := by
  refine ⟨items, h, hcurrent.imp_right ?_⟩
  rintro ⟨a, hat⟩
  have ha := hin a hat
  rw [h.items_eq] at ha
  obtain ⟨e, he, rfl⟩ := List.mem_map.mp ha
  exact ⟨e.1, e.2, hat, he⟩

inductive Outcome (s : State) (op : Op) : Except Stop State → Prop where
  | stop (e : Stop) (he : e = .disabled ∨ e = .exit) : Outcome s op (.error e)
  | next (s' : State) (items : List (Nat × StatEntry)) (hinv : s'.Inv items)
      (hcurrent : s'.current = .unset ∨ ∃ a, s'.current = .at (some a))
      (hcorrect : Correct s op s' ↔ Fits s op) : Outcome s op (.ok s')

theorem State.Good.registerStat (h : s.Good) (type : String) (newelem : Option Nat) :
    Outcome s (.registerStat type newelem) (s.registerStat type newelem) := by
  obtain ⟨items, h, hcurrent⟩ := h
  rcases h.registerStat type newelem with ⟨stop, hstep, hstop⟩ | ⟨a, s', rfl, hstep, hsame, hplaced⟩
  · rw [hstep]
    exact .stop stop hstop
  · obtain ⟨items', hinv⟩ : ∃ items', s'.Inv items' := by
      cases hplaced with
      | inserted hnew hinv => exact ⟨_, hinv⟩
      | replaced xs ys b e hitems htype hxs hys hinv => exact ⟨_, hinv⟩
    rw [hstep]
    refine .next s' items' hinv ?_ ⟨fun hcorrect e he hat => ?_, fun hfits => ?_⟩
    · rw [hsame]
      exact hcurrent.imp_right fun ⟨b, e, hat, _⟩ => ⟨b, hat⟩
    · rw [h.items_eq] at he
      exact (hplaced.mem_items he).mp (hcorrect.cursor e.1 (hsame.trans hat))
    · refine ⟨hplaced.stats h, nofun, fun b hat => ?_⟩
      rw [hsame] at hat
      rcases hcurrent with hunset | ⟨c, e, hc, he⟩
      · cases hunset.symm.trans hat
      · cases hc.symm.trans hat
        refine (hplaced.mem_items he).mpr (hfits (b, e) ?_ hat)
        rw [h.items_eq]
        exact he

theorem State.Good.updateStat (h : s.Good) (type : String) (count : UInt32) :
    Outcome s (.updateStat type count) (s.updateStat type count) := by
  obtain ⟨items, h, hcurrent⟩ := h
  obtain ⟨s', items', hstep, hsame, hinv, hstats, haddresses⟩ := h.updateStat type count
  rw [hstep]
  refine .next s' items' hinv ?_ (iff_of_true ⟨hstats, nofun, fun b hat => ?_⟩ trivial)
  · rw [hsame]
    exact hcurrent.imp_right fun ⟨b, e, hat, _⟩ => ⟨b, hat⟩
  · rw [hsame] at hat
    rw [hinv.items_eq, haddresses]
    rcases hcurrent with hunset | ⟨c, e, hc, he⟩
    · cases hunset.symm.trans hat
    · cases hc.symm.trans hat
      exact List.mem_map_of_mem he

theorem State.Good.cycle (h : s.Good) : Outcome s .cycle (step s .cycle) := by
  obtain ⟨items, h, hcurrent⟩ := h
  by_cases hnone : s.list.first = none
  · rw [step, if_pos hnone]
    exact .stop .disabled (.inl rfl)
  · obtain ⟨xs, ys, hitems, hcycle, hxs⟩ := h.cycle hnone hcurrent
    let s' : State := { s with current := .at s.list.first }
    have hinv : s'.Inv items := ⟨h.linked, h.short, h.unique⟩
    have hstep : step s .cycle = .ok s' := by
      simp only [step, if_neg hnone, hcycle, bind, Except.bind, pure, Except.pure, s']
    have hlist : s.stats.list = xs.map Prod.snd ++ ys.map Prod.snd := by
      rw [h.stats, hitems, List.map_append]
    have hdistinct : s.stats.names.Nodup := by
      rw [h.names]
      exact h.unique
    have hout : (ys.map fun e => shown e.2) = (ys.map Prod.snd).map shown := by
      rw [List.map_map]
      rfl
    have henum := enumerates_iff hdistinct hlist
    rw [← hout, List.map_eq_nil_iff, hxs] at henum
    obtain ⟨a, hfirst⟩ := Option.ne_none_iff_exists'.mp hnone
    rw [hstep]
    refine .next s' items hinv (.inr ⟨a, congrArg Cursor.at hfirst⟩)
      ⟨fun hcorrect => ?_, fun hfits => ?_⟩
    · obtain ⟨out, hsame, hcounts⟩ := hcorrect.cycle rfl
      rw [hcycle, Except.ok.injEq, Prod.mk.injEq] at hsame
      exact henum.mp (hsame.2 ▸ hcounts)
    · refine ⟨rfl, fun _ => ⟨_, hcycle, henum.mpr hfits⟩, fun b hat => ?_⟩
      have hb : s.list.first = some b := Cursor.at.inj hat
      have hseg := h.linked.seg
      rw [hb] at hseg
      rw [hinv.items_eq]
      exact hseg.mem_of_some

theorem State.Good.outcome (h : s.Good) (op : Op) : Outcome s op (step s op) := by
  cases op with
  | registerStat type newelem => exact h.registerStat type newelem
  | updateStat type count => exact h.updateStat type count
  | cycle => exact h.cycle

theorem State.Good.fits_iff (h : s.Good) {op : Op} (hstep : step s op = .ok s') :
    Correct s op s' ↔ Fits s op := by
  have hout := h.outcome op
  rw [hstep] at hout
  cases hout with
  | next _ items hinv hcurrent hcorrect => exact hcorrect

theorem State.Good.next (h : s.Good) {op : Op} (hstep : step s op = .ok s')
    (hcorrect : Correct s op s') : s'.Good := by
  have hout := h.outcome op
  rw [hstep] at hout
  cases hout with
  | next _ items hinv hcurrent _ => exact hinv.good hcurrent hcorrect.cursor

theorem State.Good.stops (h : s.Good) {op : Op} {stop : Stop} (hstep : step s op = .error stop) :
    stop = .disabled ∨ stop = .exit := by
  have hout := h.outcome op
  rw [hstep] at hout
  cases hout with
  | stop _ he => exact he

theorem fits_along {ops : List Op} (h : Along step Correct .initial ops) :
    Along step (fun s op _ => Fits s op) .initial ops :=
  Transition.along_of (I := State.Good)
    (fun _ _ _ hs hstep hcorrect =>
      ⟨hs.next hstep hcorrect, (hs.fits_iff hstep).mp hcorrect⟩)
    good_initial h

/-- Every call of the run is right, and no call goes to an element that has been freed. -/
def RightAlong (ops : List Op) : Prop :=
  Along step Correct .initial ops ∧
    ∀ stop, exec step .initial ops = .error stop → stop = .disabled ∨ stop = .exit

/-- In any run, registrations, updates and cycles are right if no registration is of the name
at which the last cycle left the cursor, and each cycle finds it at the first element. -/
theorem rightAlong_iff (ops : List Op) :
    RightAlong ops ↔ Along step (fun s op _ => Fits s op) .initial ops := by
  constructor
  · intro h
    exact fits_along h.1
  · intro halong
    have hkeep : ∀ s op s', s.Good → step s op = .ok s' → Fits s op → s'.Good :=
      fun s op s' hs hstep hfits => hs.next hstep ((hs.fits_iff hstep).mpr hfits)
    constructor
    · refine Transition.along_of (I := State.Good) (fun s op s' hs hstep hfits => ?_)
        good_initial halong
      exact ⟨hkeep s op s' hs hstep hfits, (hs.fits_iff hstep).mpr hfits⟩
    · intro stop hstop
      exact Transition.exec_error_of_along (I := State.Good)
        (E := fun stop => stop = .disabled ∨ stop = .exit) hkeep (fun s op e hs => hs.stops)
        good_initial halong hstop

/-- The second cycle begins behind what was registered after the first one. -/
def behind : List Op :=
  [.registerStat "IP" (some 0), .cycle, .registerStat "TCP" (some 1), .cycle]

/-- The element at which the cycle left the cursor is replaced. -/
def replacedUnder : List Op := [.registerStat "IP" (some 0), .cycle, .registerStat "IP" (some 1)]

theorem not_rightAlong : ¬ RightAlong behind ∧ ¬ RightAlong replacedUnder :=
  ⟨fun h => absurd (fits_along h.1) (by decide), fun h => absurd (fits_along h.1) (by decide)⟩

end StatList
end Lmap
