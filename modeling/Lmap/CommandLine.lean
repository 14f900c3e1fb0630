import Lmap.ArgRun

/-!
`parse_options`: the loop over `getopt_long` that fills `GBL_OPTIONS`, and the command lines that
get through it.
-/

set_option autoImplicit false

namespace Lmap
open CString GetOpt

structure Options where
  dump : Bool
  read : Bool
  raw : Bool
  iface : Option Arg
  dumpfile : Option Arg
  deriving DecidableEq, Repr

/-- `calloc` of `globals_alloc`. -/
def Options.zero : Options := ⟨false, false, false, none, none⟩

/-- How `parse_options` comes to its end: it returns, or one of the texts is printed before
`exit`. -/
inductive Ending where
  | parsed (o : Options)
  | usage
  | version
  | tryHelp
  | dumpAndRead
  deriving DecidableEq, Repr

def longOptions : List LongOption :=
  [⟨lit "help", .noArgument, 104⟩,
   ⟨lit "version", .noArgument, 118⟩,
   ⟨lit "raw", .noArgument, 119⟩,
   ⟨lit "iface", .requiredArgument, 105⟩,
   ⟨lit "dump", .requiredArgument, 100⟩,
   ⟨lit "read", .requiredArgument, 114⟩]

def lmapCaller : Caller := ⟨lit "hvi:r:d:w", some longOptions⟩

/-- The copy is made of a string that has to be there. -/
def strdup : Option Arg → Except Fault (Option Arg)
  | some s => .ok (some s)
  | none => .error .outOfRange

/-- The `switch`; what is no case of it changes nothing. -/
def optionCase (c : Int) (optarg : Option Arg) (o : Options) : Except Fault (Options ⊕ Ending) :=
  if c = 105 then do
    let iface ← strdup optarg
    pure (.inl { o with iface := iface })
  else if c = 114 then do
    let dumpfile ← strdup optarg
    pure (.inl { o with read := true, dumpfile := dumpfile })
  else if c = 100 then do
    let dumpfile ← strdup optarg
    pure (.inl { o with dump := true, dumpfile := dumpfile })
  else if c = 119 then pure (.inl { o with raw := true })
  else if c = 104 then pure (.inr .usage)
  else if c = 118 then pure (.inr .version)
  else if c = 58 ∨ c = 63 then pure (.inr .tryHelp)
  else pure (.inl o)

def checkModes (o : Options) : Ending := if o.dump ∧ o.read then .dumpAndRead else .parsed o

def optionLoop (posixlyCorrect : Bool) : Nat → State → Options → Except Fault Ending
  | 0, _, _ => .error .hang
  | n + 1, s, o => do
    let (s, c) ← getoptInternal lmapCaller posixlyCorrect s
    if c = -1 then pure (checkModes o)
    else
      let next ← optionCase c s.optarg o
      match next with
      | .inl o => optionLoop posixlyCorrect n s o
      | .inr ending => pure ending

/-- What the module of `getopt` starts with, and `optind` of `parse_options`. -/
def getoptState (argv : List Arg) : State where
  argv := argv
  optarg := none
  optind := 0
  optopt := 63
  nextchar := none
  initialized := false
  firstNonopt := 0
  lastNonopt := 0
  ordering := .requireOrder

def parseOptions (posixlyCorrect : Bool) (argv : List Arg) : Except Fault Ending :=
  optionLoop posixlyCorrect ((argv.map List.length).sum + 1) (getoptState argv) Options.zero

def afterEvents (o : Options) : List Event → Except Fault Ending
  | [] => .ok (checkModes o)
  | e :: es => do
    let next ← optionCase e.1 e.2 o
    match next with
    | .inl o => afterEvents o es
    | .inr ending => pure ending

theorem plain_lmapCaller : lmapCaller.Plain where
  order := by decide
  letters := by decide
  noLong := by decide
  vals := by decide

/-- The loop leaves as soon as a case does; up to there it makes the calls that `readAll` makes. -/
theorem optionLoop_readAll {posixlyCorrect : Bool} {n : Nat} {s last : State} {events : List Event}
    (o : Options) (h : readAll lmapCaller posixlyCorrect n s = .ok (events, last)) :
    optionLoop posixlyCorrect n s o = afterEvents o events := by
  induction n generalizing s events o with
  | zero => cases h
  | succ n ih =>
    rw [readAll, bind_ok_iff] at h
    obtain ⟨⟨s', c⟩, hcall, h⟩ := h
    rw [optionLoop, hcall, ok_bind]
    by_cases hend : c = -1
    · simp only [if_pos hend] at h ⊢
      cases h
      rfl
    · simp only [if_neg hend] at h ⊢
      rw [bind_ok_iff] at h
      obtain ⟨⟨events', last'⟩, hrest, h⟩ := h
      cases h
      rw [afterEvents]
      cases optionCase c s'.optarg o with
      | error fault => rfl
      | ok next =>
        rw [ok_bind, ok_bind]
        cases next with
        | inl o => exact ih o hrest
        | inr ending => rfl

theorem parseOptions_nil (posixlyCorrect : Bool) :
    parseOptions posixlyCorrect [] = .ok (.parsed Options.zero) := rfl

theorem parseOptions_scan (posixlyCorrect : Bool) (program : Arg) (args : List Arg) :
    parseOptions posixlyCorrect (program :: args) =
      afterEvents Options.zero (scan lmapCaller posixlyCorrect 0 args).events := by
  have hreads : Reads lmapCaller posixlyCorrect (getoptState (program :: args)) _ _ _ :=
    reads_start plain_lmapCaller rfl rfl
  obtain ⟨last, hrun, -⟩ := hreads
  refine optionLoop_readAll Options.zero (hrun _ ?_)
  have hlength := scan_length lmapCaller posixlyCorrect 0 args
  simp only [List.map_cons, List.sum_cons]
  omega

inductive Named where
  | iface
  | dump
  | read
  deriving DecidableEq, Repr

def Named.letter : Named → UInt8
  | .iface => 105
  | .dump => 100
  | .read => 114

def Named.val : Named → Int
  | .iface => 105
  | .dump => 100
  | .read => 114

def Named.name : Named → List UInt8
  | .iface => lit "iface"
  | .dump => lit "dump"
  | .read => lit "read"

inductive Setting where
  | raw
  | named (k : Named) (value : Arg)
  deriving DecidableEq, Repr

def Setting.event : Setting → Event
  | .raw => (119, none)
  | .named k value => (k.val, some value)

def Setting.apply (o : Options) : Setting → Options
  | .raw => { o with raw := true }
  | .named .iface value => { o with iface := some value }
  | .named .dump value => { o with dump := true, dumpfile := some value }
  | .named .read value => { o with read := true, dumpfile := some value }

theorem charInt_letter (k : Named) : charInt k.letter = k.val := by cases k <;> decide

theorem charInt_flag {ch : UInt8} (h : ch = 104 ∨ ch = 118 ∨ ch = 119) :
    charInt ch = 104 ∨ charInt ch = 118 ∨ charInt ch = 119 := by
  rcases h with rfl | rfl | rfl <;> decide

theorem optionCase_event (o : Options) (s : Setting) :
    optionCase s.event.1 s.event.2 o = .ok (.inl (s.apply o)) := by
  cases s with
  | raw => rfl
  | named k value => cases k <;> rfl

theorem afterEvents_settings (o : Options) (settings : List Setting) :
    afterEvents o (settings.map Setting.event) =
      .ok (checkModes (settings.foldl Setting.apply o)) := by
  induction settings generalizing o with
  | nil => rfl
  | cons s settings ih =>
    rw [List.map_cons, afterEvents, optionCase_event, ok_bind]
    exact ih (s.apply o)

/-- The program ends with the options, the version or the hint that there is help. -/
def Ending.helps : Ending → Bool
  | .usage | .version | .tryHelp => true
  | .parsed _ | .dumpAndRead => false

inductive OptionOutcome (args : List Arg) (e : Event) : Prop where
  | setting (s : Setting) (he : e = s.event)
      (hpart : ∀ k value, s = .named k value → PartOf args value)
  | exits (ending : Ending) (hending : ending.helps = true)
      (hcase : ∀ o, optionCase e.1 e.2 o = .ok (.inr ending))

theorem letter_lmapCaller {ch : UInt8} {k : HasArg} (h : letter lmapCaller.optstring ch = some k) :
    (ch = 104 ∨ ch = 118 ∨ ch = 119) ∧ k = .noArgument ∨
      (∃ name : Named, ch = name.letter) ∧ k = .requiredArgument := by
  have hmem : ch ∈ [104, 118, 105, 58, 114, 58, 100, 58, 119] := letter_mem h
  simp only [List.mem_cons, List.not_mem_nil, or_false] at hmem
  rcases hmem with rfl | rfl | rfl | rfl | rfl | rfl | rfl | rfl | rfl
  · cases h
    exact .inl ⟨.inl rfl, rfl⟩
  · cases h
    exact .inl ⟨.inr (.inl rfl), rfl⟩
  · cases h
    exact .inr ⟨⟨.iface, rfl⟩, rfl⟩
  · cases h
  · cases h
    exact .inr ⟨⟨.read, rfl⟩, rfl⟩
  · cases h
  · cases h
    exact .inr ⟨⟨.dump, rfl⟩, rfl⟩
  · cases h
  · cases h
    exact .inl ⟨.inr (.inr rfl), rfl⟩

theorem mem_longOptions {p : LongOption} (h : p ∈ longOptions) :
    (p.val = 104 ∨ p.val = 118 ∨ p = ⟨lit "raw", .noArgument, 119⟩) ∧ p.hasArg = .noArgument ∨
      ∃ k : Named, p = ⟨k.name, .requiredArgument, k.val⟩ := by
  unfold longOptions at h
  simp only [List.mem_cons, List.not_mem_nil, or_false] at h
  rcases h with rfl | rfl | rfl | rfl | rfl | rfl
  · exact .inl ⟨.inl rfl, rfl⟩
  · exact .inl ⟨.inr (.inl rfl), rfl⟩
  · exact .inl ⟨.inr (.inr rfl), rfl⟩
  · exact .inr ⟨.iface, rfl⟩
  · exact .inr ⟨.dump, rfl⟩
  · exact .inr ⟨.read, rfl⟩

theorem case_flag {args : List Arg} {c : Int} (h : c = 104 ∨ c = 118 ∨ c = 119)
    (optarg : Option Arg) (harg : optarg = none) : OptionOutcome args (c, optarg) := by
  subst harg
  rcases h with rfl | rfl | rfl
  · exact .exits .usage rfl fun _ => rfl
  · exact .exits .version rfl fun _ => rfl
  · exact .setting .raw rfl fun _ _ => Setting.noConfusion

theorem case_named {args : List Arg} (k : Named) {value : Arg} (hpart : PartOf args value) :
    OptionOutcome args (k.val, some value) := by
  refine .setting (.named k value) rfl ?_
  intro k' value' heq
  cases heq
  exact hpart

theorem case_found {args : List Arg} {e : Event} (h : Found lmapCaller args e) :
    OptionOutcome args e := by
  cases h with
  | unknown => exact .exits .tryHelp rfl fun _ => rfl
  | missing => exact .exits .tryHelp rfl fun _ => rfl
  | @letter ch k optarg hk harg =>
    rcases letter_lmapCaller hk with ⟨hch, rfl⟩ | ⟨⟨name, rfl⟩, rfl⟩
    · exact case_flag (charInt_flag hch) optarg harg
    · obtain ⟨b, rfl, hpart⟩ := harg
      rw [charInt_letter]
      exact case_named name hpart
  | @long longopts p optarg hlong hp harg =>
    cases hlong
    rcases mem_longOptions hp with ⟨hval, hkind⟩ | ⟨k, rfl⟩
    · rw [hkind] at harg
      refine case_flag ?_ optarg harg
      rcases hval with hval | hval | rfl
      · exact .inl hval
      · exact .inr (.inl hval)
      · exact .inr (.inr rfl)
    · obtain ⟨b, rfl, hpart⟩ := harg
      exact case_named k hpart

/-- There is a file to dump to or to read from where one of the two is asked for, and the strings
are ends of what the user has written. -/
structure Options.Filled (o : Options) (args : List Arg) : Prop where
  file : o.dumpfile.isSome = (o.dump || o.read)
  iface : ∀ b, o.iface = some b → PartOf args b
  dumpfile : ∀ b, o.dumpfile = some b → PartOf args b

theorem filled_zero (args : List Arg) : Options.zero.Filled args where
  file := rfl
  iface := by simp [Options.zero]
  dumpfile := by simp [Options.zero]

theorem Options.Filled.apply {o : Options} {args : List Arg} (h : o.Filled args) {s : Setting}
    (hpart : ∀ k value, s = .named k value → PartOf args value) : (s.apply o).Filled args := by
  cases s with
  | raw => exact ⟨h.file, h.iface, h.dumpfile⟩
  | named k value =>
    have hvalue : ∀ b, some value = some b → PartOf args b := by
      rintro b heq
      cases heq
      exact hpart k value rfl
    cases k with
    | iface => exact ⟨h.file, hvalue, h.dumpfile⟩
    | dump => exact ⟨by simp [Setting.apply], h.iface, hvalue⟩
    | read => exact ⟨by simp [Setting.apply], h.iface, hvalue⟩

theorem checkModes_eq_parsed {o o' : Options} :
    checkModes o = .parsed o' ↔ ¬ (o.dump ∧ o.read) ∧ o = o' := by
  unfold checkModes
  split
  · rename_i hboth
    simp [hboth]
  · rename_i hboth
    simp [hboth]

theorem afterEvents_ends {args : List Arg} {events : List Event}
    (h : ∀ e ∈ events, OptionOutcome args e) {o : Options} (ho : o.Filled args) :
    ∃ ending, afterEvents o events = .ok ending ∧
      ∀ o', ending = .parsed o' → o'.Filled args ∧ ¬ (o'.dump ∧ o'.read) := by
  induction events generalizing o with
  | nil =>
    refine ⟨checkModes o, rfl, ?_⟩
    intro o' hend
    obtain ⟨hmodes, rfl⟩ := checkModes_eq_parsed.mp hend
    exact ⟨ho, hmodes⟩
  | cons e events ih =>
    obtain ⟨he, hevents⟩ := List.forall_mem_cons.mp h
    rw [afterEvents]
    cases he with
    | setting s he hpart =>
      rw [he, optionCase_event, ok_bind]
      exact ih hevents (ho.apply hpart)
    | exits ending hending hcase =>
      rw [hcase, ok_bind]
      refine ⟨ending, rfl, ?_⟩
      rintro o' rfl
      cases hending

theorem parsed_filled {posixlyCorrect : Bool} {argv : List Arg} {o : Options}
    (h : parseOptions posixlyCorrect argv = .ok (.parsed o)) :
    o.Filled argv.tail ∧ ¬ (o.dump ∧ o.read) := by
  cases argv with
  | nil =>
    cases (parseOptions_nil posixlyCorrect).symm.trans h
    exact ⟨filled_zero _, by simp [Options.zero]⟩
  | cons program args =>
    rw [parseOptions_scan] at h
    have hfound := found_scan lmapCaller posixlyCorrect 0 args
    obtain ⟨ending, hends, hfilled⟩ :=
      afterEvents_ends (fun e he => case_found (hfound e he)) (filled_zero args)
    cases hends.symm.trans h
    exact hfilled o rfl

/-- Whatever the command line is, `parse_options` comes to an end and no call of `getopt_long`
reads outside `argv`, nothing is copied from a `NULL`, and where it returns there is one mode,
with its file. -/
theorem parseOptions_filled (posixlyCorrect : Bool) (argv : List Arg) :
    ∃ ending, parseOptions posixlyCorrect argv = .ok ending ∧
      ∀ o, ending = .parsed o → o.Filled argv.tail ∧ ¬ (o.dump ∧ o.read) := by
  cases argv with
  | nil =>
    refine ⟨_, parseOptions_nil posixlyCorrect, ?_⟩
    rintro o heq
    cases heq
    exact ⟨filled_zero _, by simp [Options.zero]⟩
  | cons program args =>
    rw [parseOptions_scan]
    have hfound := found_scan lmapCaller posixlyCorrect 0 args
    exact afterEvents_ends (fun e he => case_found (hfound e he)) (filled_zero args)

/-- A name that stands for one of the long options. -/
def Abbreviates (longopts : List LongOption) (name : Arg) (p : LongOption) : Prop :=
  name <+: p.name ∧ (name = p.name ∨ ∀ q ∈ longopts, name <+: q.name → q = p)

theorem resolve_eq_some {longopts : List LongOption} (hnames : (longopts.map LongOption.name).Nodup)
    (hvals : (longopts.map LongOption.val).Nodup) {name : Arg} {p : LongOption} :
    resolve longopts name = some p ↔ p ∈ longopts ∧ Abbreviates longopts name p := by
  have hfilter : ∀ q, q ∈ longopts.filter (fun p => name.isPrefixOf p.name) ↔
      q ∈ longopts ∧ name <+: q.name := by
    intro q
    rw [List.mem_filter, List.isPrefixOf_iff_prefix]
  have hsub : ((longopts.filter fun p => name.isPrefixOf p.name).map LongOption.val).Nodup :=
    hvals.sublist (List.filter_sublist.map _)
  unfold resolve
  cases hfind : longopts.find? fun p => p.name = name with
  | some q =>
    have hq : q ∈ longopts := List.mem_of_find?_eq_some hfind
    have hname : q.name = name := by simpa using List.find?_some hfind
    simp only [Option.some.injEq]
    constructor
    · rintro rfl
      exact ⟨hq, hname ▸ List.prefix_rfl, .inl hname.symm⟩
    · rintro ⟨hp, hpre, heq | hunique⟩
      · exact List.inj_on_of_nodup_map hnames hq hp (hname.trans heq)
      · exact hunique q hq (hname ▸ List.prefix_rfl)
  | none =>
    have hnone : ∀ q ∈ longopts, name ≠ q.name := by
      intro q hq heq
      have hne := List.find?_eq_none.mp hfind q hq
      simp [heq] at hne
    cases hlist : longopts.filter fun p => name.isPrefixOf p.name with
    | nil =>
      simp only [reduceCtorEq, false_iff]
      rintro ⟨hp, hpre, -⟩
      have hmem := (hfilter p).mpr ⟨hp, hpre⟩
      rw [hlist] at hmem
      cases hmem
    | cons q qs =>
      rw [hlist] at hfilter hsub
      simp only [List.map_cons, List.nodup_cons, List.mem_map, not_exists, not_and] at hsub
      have hq := (hfilter q).mp List.mem_cons_self
      cases qs with
      | nil =>
        simp only [List.all_nil, if_true, Option.some.injEq]
        constructor
        · rintro rfl
          refine ⟨hq.1, hq.2, .inr ?_⟩
          intro r hr hpre
          exact List.mem_singleton.mp ((hfilter r).mpr ⟨hr, hpre⟩)
        · rintro ⟨hp, hpre, -⟩
          exact (List.mem_singleton.mp ((hfilter p).mpr ⟨hp, hpre⟩)).symm
      | cons r rs =>
        have hr := (hfilter r).mp (by simp)
        have hne : q.val ≠ r.val := fun heq => hsub.1 r (by simp) heq.symm
        have hall : ¬ ((r :: rs).all fun r => q.hasArg = r.hasArg ∧ q.val = r.val) = true := by
          simp [hne]
        simp only [if_neg hall, reduceCtorEq, false_iff]
        rintro ⟨hp, hpre, heq | hunique⟩
        · exact absurd heq (hnone p hp)
        · exact absurd (congrArg LongOption.val
            ((hunique q hq.1 hq.2).trans (hunique r hr.1 hr.2).symm)) hne

/-- Letters behind one dash, and the elements behind them that are arguments. -/
inductive Letters : List UInt8 → List Arg → List Setting → Prop where
  | nil : Letters [] [] []
  | raw {cs : List UInt8} {as : List Arg} {settings : List Setting} (h : Letters cs as settings) :
      Letters (119 :: cs) as (.raw :: settings)
  | joined (k : Named) {value : Arg} (hvalue : value ≠ []) :
      Letters (k.letter :: value) [] [.named k value]
  | separate (k : Named) (value : Arg) : Letters [k.letter] [value] [.named k value]

/-- The text behind two dashes, and the elements behind it that are arguments. -/
inductive Long : Arg → List Arg → Setting → Prop where
  | raw {name : Arg} (h : Abbreviates longOptions name ⟨lit "raw", .noArgument, 119⟩) :
      Long name [] .raw
  | joined {name : Arg} (k : Named)
      (h : Abbreviates longOptions name ⟨k.name, .requiredArgument, k.val⟩) (value : Arg) :
      Long (name ++ 61 :: value) [] (.named k value)
  | separate {name : Arg} (k : Named)
      (h : Abbreviates longOptions name ⟨k.name, .requiredArgument, k.val⟩) (value : Arg) :
      Long name [value] (.named k value)

/-- The elements of `argv` that spell these settings, with operands between them or, with
`POSIXLY_CORRECT`, behind them only. -/
inductive Spells (posixlyCorrect : Bool) : List Arg → List Setting → Prop where
  | nil : Spells posixlyCorrect [] []
  | dashes (rest : List Arg) : Spells posixlyCorrect (dashes :: rest) []
  | operands {a : Arg} (ha : nonoptionP a = true) (hposix : posixlyCorrect = true)
      (rest : List Arg) : Spells posixlyCorrect (a :: rest) []
  | operand {a : Arg} (ha : nonoptionP a = true) (hposix : posixlyCorrect = false)
      {rest : List Arg} {settings : List Setting} (h : Spells posixlyCorrect rest settings) :
      Spells posixlyCorrect (a :: rest) settings
  | letters {cs : List UInt8} {as rest : List Arg} {found settings : List Setting} (hcs : cs ≠ [])
      (hletters : Letters cs as found) (h : Spells posixlyCorrect rest settings) :
      Spells posixlyCorrect ((45 :: cs) :: (as ++ rest)) (found ++ settings)
  | long {text : Arg} {as rest : List Arg} {s : Setting} {settings : List Setting}
      (hlong : Long text as s) (h : Spells posixlyCorrect rest settings) :
      Spells posixlyCorrect ((45 :: 45 :: text) :: (as ++ rest)) (s :: settings)

theorem Setting.event_injective {s s' : Setting} (h : s.event = s'.event) : s = s' := by
  cases s with
  | raw =>
    cases s' with
    | raw => rfl
    | named k value => cases (Prod.mk.inj h).2
  | named k value =>
    cases s' with
    | raw => cases (Prod.mk.inj h).2
    | named k' value' =>
      obtain ⟨hval, hvalue⟩ := Prod.mk.inj h
      have hk : k = k' := by
        cases k <;> cases k' <;> first | rfl | exact absurd hval (by decide)
      rw [hk, Option.some.inj hvalue]

theorem Setting.event_none {s : Setting} {c : Int} (h : (c, none) = s.event) :
    s = .raw ∧ c = 119 := by
  cases s with
  | raw => exact ⟨rfl, (Prod.mk.inj h).1⟩
  | named k value => cases (Prod.mk.inj h).2

theorem letter_named (k : Named) :
    letter lmapCaller.optstring k.letter = some .requiredArgument := by
  cases k <;> rfl

theorem letter_raw : letter lmapCaller.optstring 119 = some .noArgument := rfl

theorem cluster_letters {cs : List UInt8} {as : List Arg} {settings : List Setting}
    (h : Letters cs as settings) (rest : List Arg) :
    cluster lmapCaller.optstring (as ++ rest) cs = (settings.map Setting.event, as.length) := by
  induction h with
  | nil => rfl
  | raw h ih =>
    have hraw : charInt 119 = 119 := by decide
    simp only [cluster, letter_raw, ih, hraw]
    rfl
  | joined k hvalue =>
    simp only [cluster, letter_named, if_pos hvalue, charInt_letter]
    rfl
  | separate k value =>
    simp only [cluster, letter_named, charInt_letter]
    rfl

theorem letters_cluster {cs : List UInt8} {rest : List Arg} {settings : List Setting}
    (h : (cluster lmapCaller.optstring rest cs).1 = settings.map Setting.event) :
    Letters cs (rest.take (cluster lmapCaller.optstring rest cs).2) settings := by
  induction cs generalizing settings with
  | nil =>
    have hnil := List.map_eq_nil_iff.mp h.symm
    rw [hnil]
    exact .nil
  | cons ch cs ih =>
    unfold cluster at h ⊢
    cases hk : letter lmapCaller.optstring ch with
    | none =>
      simp only [hk] at h
      obtain ⟨s, settings, rfl, hs, -⟩ := List.map_eq_cons_iff.mp h.symm
      exact absurd (Setting.event_none hs.symm).2 (by decide)
    | some k =>
      rcases letter_lmapCaller hk with ⟨hch, rfl⟩ | ⟨⟨name, rfl⟩, rfl⟩
      · simp only [hk] at h ⊢
        obtain ⟨s, settings, rfl, hs, hrest⟩ := List.map_eq_cons_iff.mp h.symm
        obtain ⟨rfl, hval⟩ := Setting.event_none hs.symm
        have hraw : ch = 119 := by
          rcases hch with rfl | rfl | rfl
          · exact absurd hval (by decide)
          · exact absurd hval (by decide)
          · rfl
        subst hraw
        exact .raw (ih hrest.symm)
      · simp only [hk, charInt_letter] at h ⊢
        have hnamed : ∀ value : Arg, [(name.val, some value)] = settings.map Setting.event →
            settings = [.named name value] := by
          intro value heq
          obtain ⟨s, hsettings, hs⟩ := List.map_eq_singleton_iff.mp heq.symm
          have hnamed : s = .named name value := Setting.event_injective hs
          rw [hsettings, hnamed]
        by_cases hcs : cs = []
        · subst hcs
          simp only [ne_eq, not_true_eq_false, if_false] at h ⊢
          cases rest with
          | nil =>
            obtain ⟨s, hsettings, hs⟩ := List.map_eq_singleton_iff.mp h.symm
            exact absurd (Setting.event_none hs.symm).2 (by decide)
          | cons b rest =>
            rw [hnamed b h]
            exact .separate name b
        · rw [if_pos hcs] at h ⊢
          rw [hnamed cs h]
          exact .joined name hcs

theorem mem_named (k : Named) :
    (⟨k.name, .requiredArgument, k.val⟩ : LongOption) ∈ longOptions := by
  cases k <;> decide

theorem resolve_longOptions {name : Arg} {p : LongOption} :
    resolve longOptions name = some p ↔ p ∈ longOptions ∧ Abbreviates longOptions name p :=
  resolve_eq_some (by decide) (by decide)

theorem not_mem_name {name : Arg} {p : LongOption} (hp : p ∈ longOptions)
    (h : Abbreviates longOptions name p) : (61 : UInt8) ∉ name := by
  have hplain : ∀ p ∈ longOptions, (61 : UInt8) ∉ p.name := by decide
  exact fun hmem => hplain p hp (h.1.subset hmem)

theorem split_name {name : Arg} (h : (61 : UInt8) ∉ name) {tail : List UInt8}
    (htail : tail = [] ∨ tail.head? = some 61) :
    (name ++ tail).takeWhile (fun c => c ≠ 61) = name ∧
      (name ++ tail).dropWhile (fun c => c ≠ 61) = tail := by
  have hne : ∀ c ∈ name, decide (c ≠ 61) = true := by
    intro c hc
    simpa using fun heq : c = 61 => h (heq ▸ hc)
  rcases htail with rfl | htail
  · rw [List.append_nil]
    exact ⟨List.takeWhile_eq_self_iff.mpr hne, List.dropWhile_eq_nil_iff.mpr hne⟩
  · obtain ⟨value, rfl⟩ : ∃ value, tail = 61 :: value := by
      cases tail with
      | nil => cases htail
      | cons c value => exact ⟨value, by rw [Option.some.inj htail]⟩
    rw [List.takeWhile_append_of_pos hne, List.dropWhile_append_of_pos hne]
    simp

theorem longElement_long {text : Arg} {as : List Arg} {s : Setting} (h : Long text as s)
    (rest : List Arg) :
    longElement lmapCaller.optstring longOptions (as ++ rest) text = (s.event, as.length) := by
  cases h with
  | raw h =>
    have hp : (⟨lit "raw", .noArgument, 119⟩ : LongOption) ∈ longOptions := by decide
    obtain ⟨hname, htail⟩ := split_name (not_mem_name hp h) (.inl rfl)
    rw [List.append_nil] at hname htail
    unfold longElement
    rw [hname, resolve_longOptions.mpr ⟨hp, h⟩, htail]
    rfl
  | @joined name k h value =>
    have hhead : (61 :: value : Arg).head? = some 61 := rfl
    obtain ⟨hname, htail⟩ := split_name (not_mem_name (mem_named k) h) (.inr hhead)
    unfold longElement
    rw [hname, resolve_longOptions.mpr ⟨mem_named k, h⟩, htail]
    rfl
  | separate k h value =>
    obtain ⟨hname, htail⟩ := split_name (not_mem_name (mem_named k) h) (.inl rfl)
    rw [List.append_nil] at hname htail
    unfold longElement
    rw [hname, resolve_longOptions.mpr ⟨mem_named k, h⟩, htail]
    rfl

theorem long_longElement {text : Arg} {rest : List Arg} {s : Setting}
    (h : (longElement lmapCaller.optstring longOptions rest text).1 = s.event) :
    Long text (rest.take (longElement lmapCaller.optstring longOptions rest text).2) s := by
  have hquestion : (question, none) ≠ s.event := fun heq =>
    absurd (Setting.event_none heq).2 (by decide)
  have htext := List.takeWhile_append_dropWhile (p := fun c => decide (c ≠ 61)) (l := text)
  unfold longElement at h ⊢
  cases hname : resolve longOptions (text.takeWhile fun c => c ≠ 61) with
  | none =>
    simp only [hname] at h
    exact absurd h hquestion
  | some p =>
    obtain ⟨hp, habbreviates⟩ := resolve_longOptions.mp hname
    simp only [hname] at h ⊢
    rcases mem_longOptions hp with ⟨hval, hkind⟩ | ⟨k, rfl⟩
    · cases htail : text.dropWhile fun c => c ≠ 61 with
      | cons d value =>
        simp only [htail, hkind, if_true] at h
        exact absurd h hquestion
      | nil =>
        have hno : ¬ p.hasArg = .requiredArgument := by simp [hkind]
        simp only [htail, if_neg hno] at h ⊢
        obtain ⟨rfl, hraw⟩ := Setting.event_none h
        obtain rfl : p = ⟨lit "raw", .noArgument, 119⟩ := by
          rcases hval with hval | hval | rfl
          · exact absurd (hval.symm.trans hraw) (by decide)
          · exact absurd (hval.symm.trans hraw) (by decide)
          · rfl
        rw [htail, List.append_nil] at htext
        rw [htext] at habbreviates
        exact .raw habbreviates
    · cases htail : text.dropWhile fun c => c ≠ 61 with
      | cons d value =>
        have hd : d = 61 := by
          have hhead := List.head?_dropWhile_not (fun c => decide (c ≠ 61)) text
          rw [htail] at hhead
          simpa using hhead
        simp only [htail, reduceCtorEq, if_false] at h ⊢
        obtain rfl := Setting.event_injective (s := .named k value) h
        rw [htail, hd] at htext
        rw [← htext]
        exact .joined k habbreviates value
      | nil =>
        rw [htail, List.append_nil] at htext
        rw [htext] at habbreviates
        cases rest with
        | nil =>
          simp only [htail, if_true] at h
          exact absurd h hquestion
        | cons b rest =>
          simp only [htail, if_true] at h ⊢
          obtain rfl := Setting.event_injective (s := .named k b) h
          exact .separate k habbreviates b

section Spells

variable {posixlyCorrect : Bool} {args rest : List Arg} {settings : List Setting}

theorem letters_head {cs : List UInt8} {as : List Arg} (h : Letters cs as settings) :
    cs[0]? ≠ some 45 := by
  cases h with
  | nil => simp
  | raw h => simp
  | joined k hvalue => cases k <;> simp [Named.letter]
  | separate k value => cases k <;> simp [Named.letter]

theorem element_letters {cs : List UInt8} (h : cs[0]? ≠ some 45) (rest : List Arg) :
    element lmapCaller rest (45 :: cs) = cluster lmapCaller.optstring rest cs := by
  simp only [element, lmapCaller, List.getElem?_cons_succ, if_neg h]
  rfl

theorem element_long (text : Arg) (rest : List Arg) :
    element lmapCaller rest (45 :: 45 :: text) =
      ([(longElement lmapCaller.optstring longOptions rest text).1],
        (longElement lmapCaller.optstring longOptions rest text).2) := rfl

theorem nonoptionP_letters {cs : List UInt8} (hcs : cs ≠ []) : nonoptionP (45 :: cs) = false := by
  cases cs with
  | nil => exact absurd rfl hcs
  | cons c cs => rfl

theorem scan_spells (h : Spells posixlyCorrect args settings) :
    (scan lmapCaller posixlyCorrect 0 args).events = settings.map Setting.event := by
  induction h with
  | nil => rfl
  | dashes rest => rw [scan_dashes]; rfl
  | @operands a ha hposix rest =>
    have hne : a ≠ dashes := by
      rintro rfl
      cases ha
    rw [scan, if_neg hne, if_pos ha, if_pos hposix]
    rfl
  | @operand a ha hposix rest settings h ih =>
    have hne : a ≠ dashes := by
      rintro rfl
      cases ha
    subst hposix
    rw [scan, if_neg hne, if_pos ha, if_neg Bool.false_ne_true]
    exact ih
  | @letters cs as rest found settings hcs hletters h ih =>
    have hhead := letters_head hletters
    have hne : 45 :: cs ≠ dashes := by
      intro heq
      have hdash : cs = [45] := (List.cons.inj heq).2
      rw [hdash] at hhead
      exact hhead rfl
    rw [scan_element (nonoptionP_letters hcs) hne, element_letters hhead,
      cluster_letters hletters, List.drop_left, List.map_append]
    exact congrArg _ ih
  | @long text as rest s settings hlong h ih =>
    have hne : 45 :: 45 :: text ≠ dashes := by
      rintro heq
      obtain rfl : text = [] := by simpa [dashes] using heq
      have hfound := longElement_long hlong rest
      rw [show longElement lmapCaller.optstring longOptions (as ++ rest) [] = ((question, none), 0)
        from rfl] at hfound
      exact absurd (Setting.event_none (Prod.mk.inj hfound).1).2 (by decide)
    rw [scan_element rfl hne, element_long, longElement_long hlong, List.drop_left]
    exact congrArg _ ih

theorem spells_scan
    (h : (scan lmapCaller posixlyCorrect 0 args).events = settings.map Setting.event) :
    Spells posixlyCorrect args settings := by
  induction hn : args.length using Nat.strong_induction_on generalizing args settings with
  | _ n ih =>
    subst hn
    cases args with
    | nil =>
      have hnil := List.map_eq_nil_iff.mp h.symm
      rw [hnil]
      exact .nil
    | cons a rest =>
      by_cases hne : a = dashes
      · subst hne
        rw [scan_dashes] at h
        have hnil := List.map_eq_nil_iff.mp h.symm
        rw [hnil]
        exact .dashes rest
      cases ha : nonoptionP a with
      | true =>
        rw [scan, if_neg hne, if_pos ha] at h
        cases posixlyCorrect with
        | true =>
          have hnil := List.map_eq_nil_iff.mp h.symm
          rw [hnil]
          exact .operands ha rfl rest
        | false =>
          rw [if_neg Bool.false_ne_true] at h
          exact .operand ha rfl (ih _ (Nat.lt_succ_self _) h rfl)
      | false =>
        rw [scan_element ha hne] at h
        obtain ⟨found, settings, rfl, hfound, hrest⟩ := List.map_eq_append_iff.mp h.symm
        have hspells : Spells posixlyCorrect (rest.drop (element lmapCaller rest a).2)
            settings := by
          refine ih _ ?_ hrest.symm rfl
          rw [List.length_drop, List.length_cons]
          omega
        obtain ⟨cs, rfl, hcs⟩ : ∃ cs, a = 45 :: cs ∧ cs ≠ [] := by
          unfold nonoptionP at ha
          split at ha
          · exact ⟨_, rfl, List.cons_ne_nil _ _⟩
          · cases ha
        by_cases hdash : cs[0]? = some 45
        · obtain ⟨text, rfl⟩ : ∃ text, cs = 45 :: text := by
            cases cs with
            | nil => cases hdash
            | cons c text => exact ⟨text, by rw [Option.some.inj hdash]⟩
          rw [element_long] at hfound hspells
          obtain ⟨s, rfl, hs⟩ := List.map_eq_singleton_iff.mp hfound
          have hsplit := List.take_append_drop
            (longElement lmapCaller.optstring longOptions rest text).2 rest
          rw [← hsplit]
          exact .long (long_longElement hs.symm) hspells
        · rw [element_letters hdash] at hfound hspells
          have hsplit := List.take_append_drop (cluster lmapCaller.optstring rest cs).2 rest
          rw [← hsplit]
          exact .letters hcs (letters_cluster hfound.symm) hspells

end Spells

theorem helps_checkModes (o : Options) : (checkModes o).helps = false := by
  unfold checkModes
  split <;> rfl

theorem checkModes_eq_dumpAndRead {o : Options} :
    checkModes o = .dumpAndRead ↔ o.dump ∧ o.read := by
  unfold checkModes
  split
  · rename_i hboth
    simp [hboth]
  · rename_i hboth
    simp [hboth]

theorem afterEvents_cases {args : List Arg} {events : List Event}
    (h : ∀ e ∈ events, OptionOutcome args e) (o : Options) :
    (∃ settings : List Setting, events = settings.map Setting.event) ∨
      ∃ ending, afterEvents o events = .ok ending ∧ ending.helps = true := by
  induction events generalizing o with
  | nil => exact .inl ⟨[], rfl⟩
  | cons e events ih =>
    obtain ⟨he, hevents⟩ := List.forall_mem_cons.mp h
    rw [afterEvents]
    cases he with
    | setting s he hpart =>
      rw [he, optionCase_event, ok_bind]
      refine (ih hevents (s.apply o)).imp_left ?_
      rintro ⟨settings, rfl⟩
      exact ⟨s :: settings, rfl⟩
    | exits ending hending hcase =>
      rw [hcase, ok_bind]
      exact .inr ⟨ending, rfl, hending⟩

theorem parseOptions_spells {posixlyCorrect : Bool} {args : List Arg} {settings : List Setting}
    (h : Spells posixlyCorrect args settings) (program : Arg) :
    parseOptions posixlyCorrect (program :: args) =
      .ok (checkModes (settings.foldl Setting.apply Options.zero)) := by
  rw [parseOptions_scan, scan_spells h, afterEvents_settings]

theorem not_spells_of_helps {posixlyCorrect : Bool} {program : Arg} {args : List Arg}
    {ending : Ending} (hends : parseOptions posixlyCorrect (program :: args) = .ok ending)
    (hhelps : ending.helps = true) : ¬ ∃ settings, Spells posixlyCorrect args settings := by
  rintro ⟨settings, hspells⟩
  cases (parseOptions_spells hspells program).symm.trans hends
  rw [helps_checkModes] at hhelps
  cases hhelps

/-- Where the command line spells settings they are what counts. -/
theorem parseOptions_cases (posixlyCorrect : Bool) (program : Arg) (args : List Arg) :
    (∃ settings, Spells posixlyCorrect args settings ∧
      parseOptions posixlyCorrect (program :: args) =
        .ok (checkModes (settings.foldl Setting.apply Options.zero))) ∨
      (¬ ∃ settings, Spells posixlyCorrect args settings) ∧
        ∃ ending, parseOptions posixlyCorrect (program :: args) = .ok ending ∧
          ending.helps = true := by
  have hfound := found_scan lmapCaller posixlyCorrect 0 args
  rcases afterEvents_cases (fun e he => case_found (hfound e he)) Options.zero with
    ⟨settings, hsettings⟩ | ⟨ending, hends, hhelps⟩
  · have hspells := spells_scan hsettings
    exact .inl ⟨settings, hspells, parseOptions_spells hspells program⟩
  · rw [← parseOptions_scan posixlyCorrect program] at hends
    exact .inr ⟨not_spells_of_helps hends hhelps, ending, hends, hhelps⟩

/-- `parse_options` returns for the command lines that spell settings, with those settings in the
order in which they stand, unless they ask both to dump and to read, which it refuses. For all
other command lines the program ends with the options, the version or the hint that there is help.
-/
theorem parseOptions_accepts (posixlyCorrect : Bool) (program : Arg) (args : List Arg) :
    (∀ o, parseOptions posixlyCorrect (program :: args) = .ok (.parsed o) ↔
      ∃ settings, Spells posixlyCorrect args settings ∧
        settings.foldl Setting.apply Options.zero = o ∧ ¬ (o.dump ∧ o.read)) ∧
    (parseOptions posixlyCorrect (program :: args) = .ok .dumpAndRead ↔
      ∃ settings o, Spells posixlyCorrect args settings ∧
        settings.foldl Setting.apply Options.zero = o ∧ o.dump ∧ o.read) ∧
    ((∃ ending, parseOptions posixlyCorrect (program :: args) = .ok ending ∧
        ending.helps = true) ↔
      ¬ ∃ settings, Spells posixlyCorrect args settings) := by
  have hcases := parseOptions_cases posixlyCorrect program args
  refine ⟨fun o => ⟨fun h => ?_, ?_⟩, ⟨fun h => ?_, ?_⟩, ⟨?_, fun hnone => ?_⟩⟩
  · rcases hcases with ⟨settings, hspells, hends⟩ | ⟨-, ending, hends, hhelps⟩
    · obtain ⟨hone, rfl⟩ := checkModes_eq_parsed.mp (Except.ok.inj (hends.symm.trans h))
      exact ⟨settings, hspells, rfl, hone⟩
    · cases hends.symm.trans h
      cases hhelps
  · rintro ⟨settings, hspells, rfl, hmodes⟩
    rw [parseOptions_spells hspells]
    exact congrArg _ (checkModes_eq_parsed.mpr ⟨hmodes, rfl⟩)
  · rcases hcases with ⟨settings, hspells, hends⟩ | ⟨-, ending, hends, hhelps⟩
    · exact ⟨settings, _, hspells, rfl,
        checkModes_eq_dumpAndRead.mp (Except.ok.inj (hends.symm.trans h))⟩
    · cases hends.symm.trans h
      cases hhelps
  · rintro ⟨settings, o, hspells, rfl, hmodes⟩
    rw [parseOptions_spells hspells]
    exact congrArg _ (checkModes_eq_dumpAndRead.mpr hmodes)
  · rintro ⟨ending, hends, hhelps⟩
    exact not_spells_of_helps hends hhelps
  · rcases hcases with ⟨settings, hspells, -⟩ | ⟨-, hends⟩
    · exact absurd ⟨settings, hspells⟩ hnone
    · exact hends

end Lmap
