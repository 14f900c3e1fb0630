import Lmap.Blocks
import Lmap.Records
import Lmap.ManufTable
import Lmap.RoundTrip
import Lmap.StatCount
import Mathlib.Order.Lattice.Nat

/-!
The tables of the two databases, and the whole life of the program: what it allocates from its
constructors on, and what the handlers at its end do not free.
-/

set_option autoImplicit false

namespace Lmap
namespace Blocks
open Ownership

structure EntryPtr where
  p : Nat
  text : Nat
  deriving DecidableEq, Repr

def loadEntry (A : Allocator) (head : Nat → List EntryPtr) (chain : Nat) :
    Prog (Nat → List EntryPtr) := do
  let p ← A.malloc
  let text ← A.malloc
  pure (Function.update head chain (⟨p, text⟩ :: head chain))

def freeEntry (l : EntryPtr) : Prog Unit := do
  free l.text
  free l.p

def discard (size : Nat) (head : Nat → List EntryPtr) : Prog Unit :=
  each (fun i => each freeEntry (head i)) (List.range size)

def discardMacdb (head : Nat → List EntryPtr) : Prog Unit := discard Manuf.TABSIZE head

def fingerprintDiscard (head : Nat → List EntryPtr) : Prog Unit := discard TABSIZE head

def manufInit (A : Allocator) (longBits : Nat) (macs : List (List UInt8)) :
    Prog (Nat → List EntryPtr) :=
  fold (fun head mac => loadEntry A head (Manuf.chain longBits mac)) (fun _ => []) macs

def fingerprintInit (A : Allocator) (longBits : Nat) (fingers : List (List UInt8)) :
    Prog (Nat → List EntryPtr) :=
  fold (fun head finger => loadEntry A head (fingerHash longBits finger)) (fun _ => []) fingers

/-- `decoders_table`, of which only the addresses matter. -/
def addDecoder (A : Allocator) (table : List Nat) (_e : DecEntry) : Prog (List Nat) := do
  let e ← A.malloc
  pure (e :: table)

structure Started where
  table : List Nat
  stats : List (Record String)
  replaced : List (Record String)

def initRun (A : Allocator) (s : Started) (f : InitFn) : Prog Started := do
  let table ← fold (addDecoder A) s.table f.entries
  let stats ← registerStat A s.stats f.stat
  pure ⟨table, stats, replacedBy f.stat s.stats ++ s.replaced⟩

def lmapDecodeAll (A : Allocator) (h : Host) : Globals → List Packet → Prog (List Nat)
  | _, [] => pure []
  | g, pkt :: pkts =>
    match Lmap.lmapDecode h g pkt with
    | .error _ => pure []
    | .ok (_, g') => do
      let lost ← lmapDecode A pkt.mem (lmapCalls ROUNDS h g pkt)
      let rest ← lmapDecodeAll A h g' pkts
      pure (lost :: rest)

/-- What nobody frees: of the records only the strings. -/
structure Kept where
  table : List Nat
  replaced : List (Record String)
  L5 : List Nat
  deriving DecidableEq, Repr

/-- From the constructors to the handlers of `atexit`, the last one of which is `globals_free`. -/
def life (A : Allocator) (h : Host) (longBits : Nat) (b : Boot) (g : Globals)
    (macs fingers : List (List UInt8)) (pkts : List Packet) : Prog Kept := do
  let s ← fold (initRun A) ⟨[], [], []⟩ b.order
  let manufHead ← manufInit A longBits macs
  let fingerHead ← fingerprintInit A longBits fingers
  let lost ← lmapDecodeAll A h g pkts
  fingerprintDiscard fingerHead
  discardMacdb manufHead
  freeStats s.stats
  pure ⟨s.table, s.replaced, lost⟩

def EntryPtr.blocks (l : EntryPtr) : Multiset Nat := {l.text} + {l.p}

def chainBlocks (chain : List EntryPtr) : Multiset Nat := (chain.map EntryPtr.blocks).sum

def tableBlocks (size : Nat) (head : Nat → List EntryPtr) : Multiset Nat :=
  ((List.range size).map fun i => chainBlocks (head i)).sum

variable {A : Allocator} {size chain : Nat} {head : Nat → List EntryPtr}

theorem tableBlocks_succ (size : Nat) (head : Nat → List EntryPtr) :
    tableBlocks (size + 1) head = tableBlocks size head + chainBlocks (head size) := by
  rw [tableBlocks, List.range_succ, List.map_append, List.sum_append]
  simp [tableBlocks]

theorem tableBlocks_empty (size : Nat) : tableBlocks size (fun _ => []) = 0 := by
  induction size with
  | zero => rfl
  | succ size ih =>
    rw [tableBlocks_succ, ih]
    rfl

theorem tableBlocks_insert (l : EntryPtr) (hchain : chain < size) :
    tableBlocks size (Function.update head chain (l :: head chain)) =
      l.blocks + tableBlocks size head := by
  have hlater : ∀ n ≤ chain, tableBlocks n (Function.update head chain (l :: head chain)) =
      tableBlocks n head := by
    intro n hn
    induction n with
    | zero => rfl
    | succ n ih =>
      rw [tableBlocks_succ, tableBlocks_succ, ih (by omega), Function.update_of_ne (by omega)]
  induction size with
  | zero => exact absurd hchain (Nat.not_lt_zero _)
  | succ size ih =>
    rw [tableBlocks_succ, tableBlocks_succ]
    by_cases hlast : chain = size
    · subst hlast
      rw [hlater chain (Nat.le_refl _), Function.update_self, chainBlocks, List.map_cons,
        List.sum_cons, chainBlocks]
      abel
    · rw [ih (by omega), Function.update_of_ne (by omega), add_assoc]

theorem triple_freeEntry (l : EntryPtr) :
    Triple l.blocks (freeEntry l) fun _ own => own = 0 :=
  .free (triple_free l.p)

theorem triple_discard (size : Nat) (head : Nat → List EntryPtr) :
    Triple (tableBlocks size head) (discard size head) fun _ own => own = 0 :=
  triple_each fun _ _ => triple_each fun l _ => triple_freeEntry l

theorem triple_load {α : Type} {f : α → Nat} (hf : ∀ a, f a < size) (as : List α) :
    Triple 0 (fold (fun head a => loadEntry A head (f a)) (fun _ => []) as) fun head own =>
      own = tableBlocks size head := by
  refine triple_fold (I := fun _ head own => own = tableBlocks size head)
    (fun done a todo head own _ hown => ?_) (tableBlocks_empty size).symm
  subst hown
  refine .malloc A fun p => .malloc A fun text => triple_pure ?_
  rw [tableBlocks_insert _ (hf a), EntryPtr.blocks, add_assoc]

theorem triple_manufInit (longBits : Nat) (macs : List (List UInt8)) :
    Triple 0 (manufInit A longBits macs) fun head own => own = tableBlocks Manuf.TABSIZE head :=
  triple_load (fun _ => Nat.mod_lt _ (by decide)) macs

theorem triple_fingerprintInit (longBits : Nat) (fingers : List (List UInt8)) :
    Triple 0 (fingerprintInit A longBits fingers) fun head own => own = tableBlocks TABSIZE head :=
  triple_load (fun _ => Nat.mod_lt _ (by decide)) fingers

def namesAfter (done : List InitFn) : List String :=
  (done.foldl InitFn.run Globals.initial).stats.names

theorem namesAfter_snoc (done : List InitFn) (f : InitFn) :
    namesAfter (done ++ [f]) = enter f.stat (namesAfter done) := by
  rw [namesAfter, List.foldl_append]
  exact registerStat_names _ _

theorem namesAfter_boot (b : Boot) (hnodup : (namesAfter b.order).Nodup) :
    (namesAfter b.order).Perm (InitFn.all.map InitFn.stat).dedup := by
  refine (List.perm_ext_iff_of_nodup hnodup (List.nodup_dedup _)).mpr fun a => ?_
  rw [List.mem_dedup]
  exact b.mem_names a

theorem perm_enter (name : String) (lost names : List String) :
    (((if name ∈ names then [name] else []) ++ lost) ++ enter name names).Perm
      ((lost ++ names) ++ [name]) := by
  unfold enter
  split
  · rw [List.append_assoc]
    exact List.perm_append_comm
  · rw [List.nil_append, List.append_assoc]
    exact (List.perm_append_singleton name names).symm.append_left lost

theorem triple_addDecoders (table : List Nat) (es : List DecEntry) :
    Triple (table : Multiset Nat) (fold (addDecoder A) table es) fun (table' : List Nat) own =>
      own = (table' : Multiset Nat) ∧ table'.length = table.length + es.length := by
  refine triple_fold (I := fun done (table' : List Nat) own => own = (table' : Multiset Nat) ∧
    table'.length = table.length + done.length) (fun done e todo table' own _ hdone => ?_)
    ⟨rfl, rfl⟩
  obtain ⟨rfl, hlen⟩ := hdone
  refine .malloc A fun e => triple_pure ⟨?_, ?_⟩
  · rw [Multiset.singleton_add, Multiset.cons_coe]
  · rw [List.length_cons, hlen, List.length_append, List.length_singleton, Nat.add_assoc]

structure Begun (done : List InitFn) (s : Started) (own : Multiset Nat) : Prop where
  table : s.table.length = (done.flatMap InitFn.entries).length
  stats : Holds 1 s.stats (namesAfter done)
  nodup : (namesAfter done).Nodup
  replaced : ∃ names, Holds 1 s.replaced names ∧
    (names ++ namesAfter done).Perm (done.map InitFn.stat)
  own : own = (s.table : Multiset Nat) + (listBlocks s.stats + stringBlocks s.replaced)

theorem triple_initRun {done : List InitFn} {s : Started} {own : Multiset Nat}
    (h : Begun done s own) (f : InitFn) : Triple own (initRun A s f) (Begun (done ++ [f])) := by
  obtain ⟨htable, hstats, hnodup, ⟨names, hreplaced, hperm⟩, rfl⟩ := h
  refine (triple_addDecoders s.table f.entries).bind _ fun table own hown => ?_
  obtain ⟨rfl, hlen⟩ := hown
  have hregister : Triple (listBlocks s.stats + ((table : Multiset Nat) + stringBlocks s.replaced))
      (do
        let stats ← registerStat A s.stats f.stat
        pure ⟨table, stats, replacedBy f.stat s.stats ++ s.replaced⟩) (Begun (done ++ [f])) := by
    refine (triple_register hstats).bind _ fun stats own hown => triple_pure ?_
    obtain ⟨hstats', rfl⟩ := hown
    have hnames := namesAfter_snoc done f
    refine ⟨?_, hnames ▸ hstats', hnames ▸ enter_nodup hnodup _,
      ⟨_, (hstats.replacedBy f.stat).append hreplaced, ?_⟩, ?_⟩
    · simp only [hlen, htable, List.flatMap_append, List.length_append, List.flatMap_cons,
        List.flatMap_nil, List.append_nil]
    · rw [hnames, List.map_append]
      exact (perm_enter f.stat names (namesAfter done)).trans (hperm.append_right [f.stat])
    · rw [stringBlocks_append]
      abel
  refine hregister.of_eq ?_
  abel

/-- What the constructors have allocated. Three of them register a name over. -/
theorem triple_constructors (b : Boot) :
    Triple 0 (fold (initRun A) ⟨[], [], []⟩ b.order) fun s own => s.table.length = 11 ∧
      (∃ names, Holds 1 s.replaced names ∧ names.Perm ["TOTAL", "ICMP", "IP"]) ∧
      own = (s.table : Multiset Nat) + (listBlocks s.stats + stringBlocks s.replaced) := by
  have hstart : Begun [] ⟨[], [], []⟩ 0 :=
    ⟨rfl, holds_nil 1, List.nodup_nil, ⟨[], holds_nil 1, .refl _⟩, rfl⟩
  have hfold : Triple 0 (fold (initRun A) ⟨[], [], []⟩ b.order) (Begun b.order) :=
    triple_fold (I := Begun) (fun _ f _ _ _ _ hdone => triple_initRun hdone f) hstart
  refine hfold.mono fun s own hI => ?_
  obtain ⟨htable, -, hnodup, ⟨names, hreplaced, hperm⟩, hown⟩ := hI
  refine ⟨?_, ⟨names, hreplaced, ?_⟩, hown⟩
  · rw [htable, (b.complete.flatMap_right InitFn.entries).length_eq]
    rfl
  · have hall : (["TOTAL", "ICMP", "IP"] ++ (InitFn.all.map InitFn.stat).dedup).Perm
        (InitFn.all.map InitFn.stat) := by decide
    have hsame : (names ++ (InitFn.all.map InitFn.stat).dedup).Perm
        (["TOTAL", "ICMP", "IP"] ++ (InitFn.all.map InitFn.stat).dedup) :=
      (((namesAfter_boot b hnodup).symm.append_left names).trans hperm).trans
        ((b.complete.map InitFn.stat).trans hall.symm)
    exact (List.perm_append_right_iff _).mp hsame

theorem triple_lmapDecodeAll {h : Host} {pkts : List Packet} {r : Running} {bs : List Bucket}
    {g : Globals} (hok : Lmap.lmapDecodeAll h r.globals pkts = .ok (bs, g)) :
    Triple 0 (lmapDecodeAll A h r.globals pkts) fun (lost : List Nat) own =>
      own = (lost : Multiset Nat) ∧ lost.length = pkts.length := by
  induction pkts generalizing r bs with
  | nil => exact triple_pure ⟨rfl, rfl⟩
  | cons pkt pkts ih =>
    simp only [Lmap.lmapDecodeAll, bind_ok_iff] at hok
    obtain ⟨⟨b, g'⟩, hd, ⟨bs', g''⟩, hrest, heq⟩ := hok
    cases heq
    obtain ⟨r', rfl, -⟩ := Running.lmapDecode_ok hd
    simp only [lmapDecodeAll, hd]
    refine (triple_lmapDecode (r.calls_layer h pkt ROUNDS)).next fun lost own hown => ?_
    subst hown
    refine ((ih hrest).bind {lost} fun rest own hown => triple_pure ?_).of_eq (zero_add _)
    obtain ⟨rfl, hlen⟩ := hown
    refine ⟨?_, by rw [List.length_cons, hlen, List.length_cons]⟩
    rw [add_comm, Multiset.singleton_add, Multiset.cons_coe]

/-- From the constructors to the last handler, with any databases and any packets: nothing is freed
twice. There remain the table of the decoders, the strings of the names that were registered over,
and one block for each packet. -/
theorem life_keeps (A : Allocator) {h : Host} {longBits : Nat} {b : Boot} {raw : Bool} {link : Link}
    (macs fingers : List (List UInt8)) {pkts : List Packet} {bs : List Bucket} {g : Globals}
    (hok : Lmap.lmapDecodeAll h (Running.fresh b raw link).globals pkts = .ok (bs, g)) :
    Triple 0 (life A h longBits b (Running.fresh b raw link).globals macs fingers pkts)
      fun kept own =>
        own = (kept.table : Multiset Nat) + stringBlocks kept.replaced + kept.L5 ∧
        kept.table.length = 11 ∧
        (∃ names, Holds 1 kept.replaced names ∧ names.Perm ["TOTAL", "ICMP", "IP"]) ∧
        kept.L5.length = pkts.length := by
  refine (triple_constructors b).next fun s own hs => ?_
  obtain ⟨htable, hnames, rfl⟩ := hs
  refine ((triple_manufInit longBits macs).bind _ fun manufHead own hown => ?_).of_eq (zero_add _)
  rw [hown]
  refine ((triple_fingerprintInit longBits fingers).bind _ fun fingerHead own hown => ?_).of_eq
    (zero_add _)
  rw [hown]
  refine ((triple_lmapDecodeAll hok).bind _ fun lost own hown => ?_).of_eq (zero_add _)
  obtain ⟨rfl, hlost⟩ := hown
  have hdiscard : Triple (tableBlocks TABSIZE fingerHead + (tableBlocks Manuf.TABSIZE manufHead +
      (listBlocks s.stats + ((s.table : Multiset Nat) + stringBlocks s.replaced + lost)))) (do
        fingerprintDiscard fingerHead
        discardMacdb manufHead
        freeStats s.stats
        pure ⟨s.table, s.replaced, lost⟩) fun (kept : Kept) own =>
          own = (kept.table : Multiset Nat) + stringBlocks kept.replaced + kept.L5 ∧
          kept.table.length = 11 ∧
          (∃ names, Holds 1 kept.replaced names ∧ names.Perm ["TOTAL", "ICMP", "IP"]) ∧
          kept.L5.length = pkts.length := by
    refine (triple_discard TABSIZE fingerHead).bind _ fun _ own hown => ?_
    rw [hown, zero_add]
    refine (triple_discard Manuf.TABSIZE manufHead).bind _ fun _ own hown => ?_
    rw [hown, zero_add]
    refine (triple_freeStats s.stats).bind _ fun _ own hown => ?_
    rw [hown, zero_add]
    exact triple_pure ⟨rfl, htable, hnames, hlost⟩
  refine hdiscard.of_eq ?_
  abel

def nextBlock : Allocator where
  block live := live.sup + 1
  unused _ hmem := absurd (Multiset.le_sup hmem) (Nat.not_succ_le_self _)

theorem life_keeps_syn : ∃ bs g,
    Lmap.lmapDecodeAll ⟨false, 64⟩ (Running.fresh Boot.listed false .eth).globals [mssPacket] =
      .ok (bs, g) ∧
    Triple 0 (life nextBlock ⟨false, 64⟩ 64 Boot.listed
        (Running.fresh Boot.listed false .eth).globals [[2, 2, 2, 0]] [CString.lit "1"] [mssPacket])
      fun kept own =>
        own = (kept.table : Multiset Nat) + stringBlocks kept.replaced + kept.L5 ∧
        kept.table.length = 11 ∧
        (∃ names, Holds 1 kept.replaced names ∧ names.Perm ["TOTAL", "ICMP", "IP"]) ∧
        kept.L5.length = 1 := by
  have hrun : (Lmap.lmapDecodeAll ⟨false, 64⟩ (Running.fresh Boot.listed false .eth).globals
      [mssPacket]).map (fun _ => ()) = .ok () := by decide +kernel
  obtain ⟨⟨bs, g⟩, hok, -⟩ := map_ok_iff.mp hrun
  exact ⟨bs, g, hok, life_keeps nextBlock [[2, 2, 2, 0]] [CString.lit "1"] hok⟩

end Blocks
end Lmap
