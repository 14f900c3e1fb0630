import Lmap.GetOpt

/-!
What `getopt_long` makes of the elements of `argv`, told in one pass over them in their order and
without any exchange.
-/

set_option autoImplicit false

namespace Lmap
namespace GetOpt
open BlockSwap CString

/-- What a call returns, and the `optarg` that it leaves. -/
abbrev Event := Int × Option Arg

def letter (optstring : List UInt8) (c : UInt8) : Option HasArg :=
  if c = 58 then none
  else
    match optstring.dropWhile fun d => d ≠ c with
    | [] => none
    | _ :: temp => some (colons temp)

/-- The options of one element, and how many elements behind it are their arguments. -/
def cluster (optstring : List UInt8) (rest : List Arg) : List UInt8 → List Event × Nat
  | [] => ([], 0)
  | c :: cs =>
    match letter optstring c with
    | none => ((question, none) :: (cluster optstring rest cs).1, (cluster optstring rest cs).2)
    | some .noArgument =>
      ((charInt c, none) :: (cluster optstring rest cs).1, (cluster optstring rest cs).2)
    | some .optionalArgument => ([(charInt c, if cs = [] then none else some cs)], 0)
    | some .requiredArgument =>
      if cs ≠ [] then ([(charInt c, some cs)], 0)
      else
        match rest with
        | [] => ([(missing optstring, none)], 0)
        | b :: _ => ([(charInt c, some b)], 1)

/-- The long option of that name, or the one that the name can be an abbreviation of. -/
def resolve (longopts : List LongOption) (name : Arg) : Option LongOption :=
  match longopts.find? fun p => p.name = name with
  | some p => some p
  | none =>
    match longopts.filter fun p => name.isPrefixOf p.name with
    | [] => none
    | p :: ps => if ps.all fun q => p.hasArg = q.hasArg ∧ p.val = q.val then some p else none

def longElement (optstring : List UInt8) (longopts : List LongOption) (rest : List Arg)
    (text : Arg) : Event × Nat :=
  match resolve longopts (text.takeWhile fun c => c ≠ 61) with
  | none => ((question, none), 0)
  | some p =>
    match text.dropWhile fun c => c ≠ 61 with
    | _ :: value =>
      if p.hasArg = .noArgument then ((question, none), 0) else ((p.val, some value), 0)
    | [] =>
      if p.hasArg = .requiredArgument then
        match rest with
        | [] => ((missing optstring, none), 0)
        | b :: _ => ((p.val, some b), 1)
      else ((p.val, none), 0)

def element (c : Caller) (rest : List Arg) (a : Arg) : List Event × Nat :=
  match c.longopts with
  | some longopts =>
    if a[1]? = some 45 then
      ([(longElement c.optstring longopts rest (a.drop 2)).1],
        (longElement c.optstring longopts rest (a.drop 2)).2)
    else cluster c.optstring rest (a.drop 1)
  | none => cluster c.optstring rest (a.drop 1)

/-- The elements that are options or belong to them, and the others. -/
structure Parse where
  events : List Event
  options : List Arg
  operands : List Arg
  deriving DecidableEq, Repr

def Parse.withOption (p : Parse) (events : List Event) (a : Arg) : Parse :=
  ⟨events ++ p.events, a :: p.options, p.operands⟩

def Parse.withOperands (p : Parse) (as : List Arg) : Parse :=
  ⟨p.events, p.options, as ++ p.operands⟩

/-- The first `k` elements are arguments of the option in front of them. -/
def scan (c : Caller) (posixlyCorrect : Bool) : Nat → List Arg → Parse
  | _, [] => ⟨[], [], []⟩
  | k + 1, a :: rest => (scan c posixlyCorrect k rest).withOption [] a
  | 0, a :: rest =>
    if a = dashes then ⟨[], [a], rest⟩
    else if nonoptionP a then
      if posixlyCorrect then ⟨[], [], a :: rest⟩
      else (scan c posixlyCorrect 0 rest).withOperands [a]
    else
      (scan c posixlyCorrect (element c rest a).2 rest).withOption (element c rest a).1 a

theorem length_ne_of_isPrefixOf {s t : List UInt8} (h : s.isPrefixOf t = true) (hne : t ≠ s) :
    s.length ≠ t.length := fun hlen =>
  hne ((List.isPrefixOf_iff_prefix.mp h).eq_of_length hlen).symm

theorem findLong_exact {name : Arg} {longopts : List LongOption} {p : LongOption} (m : Match)
    (h : longopts.find? (fun p => p.name = name) = some p) :
    (findLong name m longopts).exact = true ∧
      (findLong name m longopts).pfound = some p := by
  induction longopts generalizing m with
  | nil => cases h
  | cons q longopts ih =>
    by_cases hq : q.name = name
    · simp only [List.find?_cons, hq, decide_true, Option.some.injEq] at h
      subst h
      have hpre : name.isPrefixOf q.name = true := by simp [hq]
      have hlen : name.length = q.name.length := by rw [hq]
      simp only [findLong, hpre, hlen, if_true, and_self]
    · simp only [List.find?_cons, hq, decide_false] at h
      unfold findLong
      split
      · rename_i hpre
        rw [if_neg (length_ne_of_isPrefixOf hpre hq)]
        split
        · exact ih _ h
        · split
          · exact ih _ h
          · exact ih _ h
      · exact ih m h

/-- Options that an abbreviation cannot tell apart. -/
def differ (p q : LongOption) : Bool := p.hasArg ≠ q.hasArg ∨ p.val ≠ q.val

theorem findLong_found {name : Arg} {longopts : List LongOption} (p : LongOption)
    (exact ambig : Bool) (h : ∀ q ∈ longopts, q.name ≠ name) :
    findLong name ⟨some p, exact, ambig⟩ longopts =
      ⟨some p, exact, ambig ||
        (longopts.filter fun q => name.isPrefixOf q.name).any (differ p)⟩ := by
  induction longopts generalizing ambig with
  | nil => simp [findLong]
  | cons q longopts ih =>
    obtain ⟨hq, hrest⟩ := List.forall_mem_cons.mp h
    by_cases hpre : name.isPrefixOf q.name = true
    · have hlen : name.length ≠ q.name.length := length_ne_of_isPrefixOf hpre hq
      rw [List.filter_cons, if_pos hpre, List.any_cons]
      simp only [findLong, hpre, hlen, if_true, if_false]
      by_cases hdiffer : p.hasArg ≠ q.hasArg ∨ p.val ≠ q.val
      · simp [hdiffer, ih true hrest, differ]
      · simp [hdiffer, ih ambig hrest, differ]
    · rw [List.filter_cons, if_neg hpre]
      simp only [findLong, hpre]
      exact ih ambig hrest

theorem findLong_none {name : Arg} {longopts : List LongOption}
    (h : ∀ q ∈ longopts, q.name ≠ name) :
    findLong name ⟨none, false, false⟩ longopts =
      match longopts.filter fun q => name.isPrefixOf q.name with
      | [] => ⟨none, false, false⟩
      | p :: ps => ⟨some p, false, ps.any (differ p)⟩ := by
  induction longopts with
  | nil => rfl
  | cons q longopts ih =>
    obtain ⟨hq, hrest⟩ := List.forall_mem_cons.mp h
    by_cases hpre : name.isPrefixOf q.name = true
    · have hlen : name.length ≠ q.name.length := length_ne_of_isPrefixOf hpre hq
      rw [List.filter_cons, if_pos hpre]
      simp only [findLong, hpre, hlen, if_true, if_false]
      rw [findLong_found q false false hrest, Bool.false_or]
    · rw [List.filter_cons, if_neg hpre]
      simp only [findLong, hpre]
      exact ih hrest

theorem findLong_resolve (longopts : List LongOption) (name : Arg) :
    (if (findLong name ⟨none, false, false⟩ longopts).ambig ∧
        ¬ (findLong name ⟨none, false, false⟩ longopts).exact then none
      else (findLong name ⟨none, false, false⟩ longopts).pfound) = resolve longopts name := by
  unfold resolve
  cases hfind : longopts.find? fun p => p.name = name with
  | some p =>
    obtain ⟨hexact, hfound⟩ := findLong_exact ⟨none, false, false⟩ hfind
    simp [hexact, hfound]
  | none =>
    rw [findLong_none (by simpa using List.find?_eq_none.mp hfind)]
    cases longopts.filter fun q => name.isPrefixOf q.name with
    | nil => rfl
    | cons p ps =>
      have hall : (ps.all fun q => decide (p.hasArg = q.hasArg ∧ p.val = q.val)) =
          !(ps.any (differ p)) := by
        rw [List.not_any_eq_all_not]
        congr 1
        funext q
        simp [differ]
      simp only [hall]
      cases ps.any (differ p) <;> simp

section Option

variable {optstring : List UInt8} {s : State} {rest : List Arg}

theorem longOption_spec (longopts : List LongOption) {text : Arg} (hnext : s.nextchar = some text)
    (hopt : s.optarg = none) (hrest : s.argv[s.optind + 1]? = rest.head?) :
    ∃ optopt, longOption optstring longopts s = .ok
      ({ s with
          optarg := (longElement optstring longopts rest text).1.2
          optind := s.optind + 1 + (longElement optstring longopts rest text).2
          optopt := optopt
          nextchar := some [] },
        (longElement optstring longopts rest text).1.1) := by
  have hresolve := findLong_resolve longopts (text.takeWhile fun c => c ≠ 61)
  unfold longOption longElement
  simp only [hnext, Option.getD_some]
  rw [← hresolve]
  split
  · exact ⟨0, by simp [pure, Except.pure, hopt]⟩
  · cases (findLong (text.takeWhile fun c => c ≠ 61) ⟨none, false, false⟩ longopts).pfound with
    | none => exact ⟨0, by simp [pure, Except.pure, hopt]⟩
    | some p =>
      simp only
      cases text.dropWhile fun c => c ≠ 61 with
      | cons d value =>
        by_cases hno : p.hasArg = .noArgument
        · exact ⟨p.val, by simp [pure, Except.pure, hopt, hno]⟩
        · exact ⟨s.optopt, by simp [pure, Except.pure, hno]⟩
      | nil =>
        by_cases hreq : p.hasArg = .requiredArgument
        · simp only [hreq, if_true, hrest]
          cases rest with
          | nil => exact ⟨p.val, by simp [pure, Except.pure, hopt]⟩
          | cons b rest => exact ⟨s.optopt, by simp [pure, Except.pure]⟩
        · exact ⟨s.optopt, by simp [pure, Except.pure, hopt, hreq]⟩

theorem shortOption_letter {c : UInt8} {cs : List UInt8} (hnext : s.nextchar = some (c :: cs))
    {k : Option HasArg} (hk : k = none ∨ k = some .noArgument) (hletter : letter optstring c = k) :
    ∃ optopt, shortOption optstring s = .ok
      ({ s with
          optind := if cs = [] then s.optind + 1 else s.optind
          optopt := optopt
          nextchar := some cs },
        if k = none then question else charInt c) := by
  subst hletter
  simp only [shortOption, hnext]
  unfold letter at *
  cases hfound : optstring.dropWhile fun d => d ≠ c with
  | nil => exact ⟨charInt c, by simp [pure, Except.pure]⟩
  | cons d temp =>
    by_cases hcolon : c = 58
    · exact ⟨charInt c, by simp [hcolon, pure, Except.pure]⟩
    · simp only [hfound, if_neg hcolon, reduceCtorEq, false_or, Option.some.injEq] at hk
      exact ⟨s.optopt, by simp [hcolon, hk, pure, Except.pure]⟩

theorem shortOption_argument {c : UInt8} {cs : List UInt8} (hnext : s.nextchar = some (c :: cs))
    {k : HasArg} (hk : k ≠ .noArgument) (hletter : letter optstring c = some k)
    (hopt : s.optarg = none) (hind : s.optind < s.argc)
    (hrest : s.argv[s.optind + 1]? = rest.head?) :
    ∃ e took optopt, cluster optstring rest (c :: cs) = ([e], took) ∧
      shortOption optstring s = .ok
        ({ s with
            optarg := e.2
            optind := s.optind + 1 + took
            optopt := optopt
            nextchar := none }, e.1) := by
  simp only [cluster, hletter, shortOption, hnext]
  unfold letter at hletter
  by_cases hcolon : c = 58
  · simp [hcolon] at hletter
  rw [if_neg hcolon] at hletter
  cases hfound : optstring.dropWhile fun d => d ≠ c with
  | nil =>
    rw [hfound] at hletter
    cases hletter
  | cons d temp =>
    rw [hfound] at hletter
    simp only [Option.some.injEq] at hletter
    simp only [hletter, if_neg hcolon]
    cases k with
    | noArgument => exact absurd rfl hk
    | optionalArgument =>
      by_cases hcs : cs = []
      · exact ⟨_, 0, s.optopt, rfl, by simp [hcs, pure, Except.pure]⟩
      · exact ⟨_, 0, s.optopt, rfl, by simp [hcs, pure, Except.pure]⟩
    | requiredArgument =>
      by_cases hcs : cs = []
      · simp only [hcs, ne_eq, not_true_eq_false, if_false, if_true]
        cases rest with
        | nil =>
          have hlast : s.optind + 1 = s.argv.length := by
            have hnone := List.getElem?_eq_none_iff.mp hrest
            unfold State.argc at hind
            omega
          exact ⟨_, 0, charInt c, rfl, by simp [State.argc, hlast, hopt, pure, Except.pure]⟩
        | cons b rest =>
          have hnext' : s.argv[s.optind + 1]? = some b := hrest
          have hlast : s.optind + 1 ≠ s.argv.length := by
            have hlt := (List.getElem?_eq_some_iff.mp hnext').1
            omega
          exact ⟨_, 1, s.optopt, rfl, by
            simp [State.argc, hlast, State.elem, hnext', pure, Except.pure, bind, Except.bind]⟩
      · simp only [hcs, ne_eq, not_false_eq_true, if_true, if_false]
        exact ⟨_, 0, s.optopt, rfl, by simp [pure, Except.pure]⟩

end Option

theorem cluster_took_le (optstring : List UInt8) (rest : List Arg) (cs : List UInt8) :
    (cluster optstring rest cs).2 ≤ rest.length := by
  induction cs with
  | nil => exact Nat.zero_le _
  | cons ch cs ih =>
    unfold cluster
    split
    · exact ih
    · exact ih
    · exact Nat.zero_le _
    · split
      · exact Nat.zero_le _
      · cases rest <;> simp

theorem longElement_took_le (optstring : List UInt8) (longopts : List LongOption)
    (rest : List Arg) (text : Arg) :
    (longElement optstring longopts rest text).2 ≤ rest.length := by
  unfold longElement
  split
  · exact Nat.zero_le _
  · split
    · split <;> exact Nat.zero_le _
    · split
      · cases rest <;> simp
      · exact Nat.zero_le _

theorem letter_mem {optstring : List UInt8} {ch : UInt8} {k : HasArg}
    (h : letter optstring ch = some k) : ch ∈ optstring := by
  unfold letter at h
  split at h
  · cases h
  · cases hfound : optstring.dropWhile fun d => d ≠ ch with
    | nil =>
      rw [hfound] at h
      cases h
    | cons d temp =>
      have hd : d = ch := by
        have hhead := List.head?_dropWhile_not (fun d => decide (d ≠ ch)) optstring
        rw [hfound] at hhead
        simpa using hhead
      have hmem : d ∈ optstring.dropWhile fun d => d ≠ ch := by
        rw [hfound]
        exact List.mem_cons_self
      rw [← hd]
      exact (List.dropWhile_sublist _).mem hmem

theorem charInt_ne {ch : UInt8} (h : ch ≠ 255) : charInt ch ≠ -1 := by
  have hlt := ch.toNat_lt
  have hne : ch.toNat ≠ 255 := fun heq => h (UInt8.toNat_inj.mp heq)
  unfold charInt
  rw [Int.bmod_def]
  omega

theorem question_ne : question ≠ -1 := by decide

theorem missing_ne (optstring : List UInt8) : missing optstring ≠ -1 := by
  unfold missing
  split
  · decide
  · exact question_ne

theorem cluster_code_ne {optstring : List UInt8} (h : 255 ∉ optstring) (rest : List Arg)
    (cs : List UInt8) : ∀ e ∈ (cluster optstring rest cs).1, e.1 ≠ -1 := by
  have hchar : ∀ {ch : UInt8} {k : HasArg}, letter optstring ch = some k → charInt ch ≠ -1 :=
    fun hk => charInt_ne fun heq => h (heq ▸ letter_mem hk)
  induction cs with
  | nil => simp [cluster]
  | cons ch cs ih =>
    unfold cluster
    split
    · intro e he
      rcases List.mem_cons.mp he with rfl | he
      · exact question_ne
      · exact ih e he
    · rename_i hk
      intro e he
      rcases List.mem_cons.mp he with rfl | he
      · simpa using hchar hk
      · exact ih e he
    · rename_i hk
      simpa using hchar hk
    · rename_i hk
      split
      · simpa using hchar hk
      · cases rest with
        | nil => simpa using missing_ne optstring
        | cons b rest => simpa using hchar hk

theorem resolve_mem {longopts : List LongOption} {name : Arg} {p : LongOption}
    (h : resolve longopts name = some p) : p ∈ longopts := by
  unfold resolve at h
  split at h
  · rename_i q hfind
    cases h
    exact List.mem_of_find?_eq_some hfind
  · split at h
    · cases h
    · rename_i q qs hfilter
      split at h
      · cases h
        have hmem : p ∈ longopts.filter fun p => name.isPrefixOf p.name := by
          rw [hfilter]
          exact List.mem_cons_self
        exact List.mem_of_mem_filter hmem
      · cases h

theorem longElement_code_ne (optstring : List UInt8) {longopts : List LongOption}
    (h : ∀ p ∈ longopts, p.val ≠ -1) (rest : List Arg) (text : Arg) :
    (longElement optstring longopts rest text).1.1 ≠ -1 := by
  unfold longElement
  split
  · exact question_ne
  · rename_i p hp
    have hval := h p (resolve_mem hp)
    split
    · split
      · exact question_ne
      · exact hval
    · split
      · cases rest with
        | nil => exact missing_ne optstring
        | cons b rest => exact hval
      · exact hval

section Scan

variable {c : Caller} {posixlyCorrect : Bool} {a : Arg} {rest : List Arg}

theorem scan_took (c : Caller) (posixlyCorrect : Bool) (k : Nat) (rest : List Arg) :
    scan c posixlyCorrect k rest =
      ⟨(scan c posixlyCorrect 0 (rest.drop k)).events,
        rest.take k ++ (scan c posixlyCorrect 0 (rest.drop k)).options,
        (scan c posixlyCorrect 0 (rest.drop k)).operands⟩ := by
  induction rest generalizing k with
  | nil => cases k <;> rfl
  | cons a rest ih =>
    cases k with
    | zero => rfl
    | succ k =>
      rw [scan, ih k]
      rfl

theorem scan_skipped (c : Caller) (rest : List Arg) :
    scan c false 0 rest =
      (scan c false 0 (rest.dropWhile nonoptionP)).withOperands (rest.takeWhile nonoptionP) := by
  induction rest with
  | nil => rfl
  | cons a rest ih =>
    by_cases ha : nonoptionP a = true
    · have hne : a ≠ dashes := by
        rintro rfl
        cases ha
      rw [List.dropWhile_cons_of_pos ha, List.takeWhile_cons_of_pos ha, scan, if_neg hne,
        if_pos ha, if_neg Bool.false_ne_true, ih]
      rfl
    · rw [List.dropWhile_cons_of_neg ha, List.takeWhile_cons_of_neg ha]
      rfl

theorem scan_element (ha : nonoptionP a = false) (hne : a ≠ dashes) :
    scan c posixlyCorrect 0 (a :: rest) =
      ⟨(element c rest a).1 ++
          (scan c posixlyCorrect 0 (rest.drop (element c rest a).2)).events,
        (a :: rest.take (element c rest a).2) ++
          (scan c posixlyCorrect 0 (rest.drop (element c rest a).2)).options,
        (scan c posixlyCorrect 0 (rest.drop (element c rest a).2)).operands⟩ := by
  rw [scan, if_neg hne, ha, if_neg Bool.false_ne_true, scan_took]
  rfl

theorem scan_dashes (c : Caller) (posixlyCorrect : Bool) (rest : List Arg) :
    scan c posixlyCorrect 0 (dashes :: rest) = ⟨[], [dashes], rest⟩ := by
  rw [scan, if_pos rfl]

theorem cluster_length (optstring : List UInt8) (rest : List Arg) (cs : List UInt8) :
    (cluster optstring rest cs).1.length ≤ cs.length := by
  induction cs with
  | nil => exact Nat.le_refl _
  | cons ch cs ih =>
    unfold cluster
    split
    · simpa using ih
    · simpa using ih
    · simp
    · split
      · simp
      · cases rest <;> simp

theorem element_length (c : Caller) (rest : List Arg) {a : Arg} (ha : nonoptionP a = false) :
    (element c rest a).1.length ≤ a.length := by
  have hpos : 1 ≤ a.length := by
    cases a with
    | nil => cases ha
    | cons d a => simp
  have htail : (cluster c.optstring rest (a.drop 1)).1.length ≤ a.length := by
    have hle := cluster_length c.optstring rest (a.drop 1)
    rw [List.length_drop] at hle
    omega
  unfold element
  split
  · split
    · exact hpos
    · exact htail
  · exact htail

/-- No more options are found than there are characters. -/
theorem scan_length (c : Caller) (posixlyCorrect : Bool) (k : Nat) (args : List Arg) :
    (scan c posixlyCorrect k args).events.length ≤ (args.map List.length).sum := by
  induction args generalizing k with
  | nil => cases k <;> simp [scan]
  | cons a args ih =>
    rw [List.map_cons, List.sum_cons]
    cases k with
    | succ k =>
      have hrest := ih k
      simp only [scan, Parse.withOption, List.nil_append]
      omega
    | zero =>
      unfold scan
      split
      · simp
      · cases ha : nonoptionP a with
        | true =>
          have hrest := ih 0
          cases posixlyCorrect with
          | true => simp
          | false =>
            simp only [if_true, Bool.false_eq_true, if_false, Parse.withOperands]
            omega
        | false =>
          have hrest := ih (element c args a).2
          have hfound := element_length c args ha
          simp only [Bool.false_eq_true, if_false, Parse.withOption, List.length_append]
          omega

theorem scan_order (c : Caller) (posixlyCorrect : Bool) (k : Nat) (args : List Arg) :
    (scan c posixlyCorrect k args).options.Sublist args ∧
      (scan c posixlyCorrect k args).operands.Sublist args ∧
      ((scan c posixlyCorrect k args).options ++ (scan c posixlyCorrect k args).operands).Perm
        args := by
  induction args generalizing k with
  | nil => cases k <;> simp [scan]
  | cons a args ih =>
    have hoption : ∀ k events, ((scan c posixlyCorrect k args).withOption events a).options.Sublist
          (a :: args) ∧
        ((scan c posixlyCorrect k args).withOption events a).operands.Sublist (a :: args) ∧
        (((scan c posixlyCorrect k args).withOption events a).options ++
          ((scan c posixlyCorrect k args).withOption events a).operands).Perm (a :: args) := by
      intro k events
      obtain ⟨hoptions, hoperands, hperm⟩ := ih k
      exact ⟨hoptions.cons_cons a, hoperands.cons a, hperm.cons a⟩
    cases k with
    | succ k => exact hoption k []
    | zero =>
      unfold scan
      split
      · rename_i ha
        subst ha
        exact ⟨List.singleton_sublist.mpr List.mem_cons_self, List.sublist_cons_self _ _, .refl _⟩
      · split
        · split
          · exact ⟨List.nil_sublist _, .refl _, .refl _⟩
          · obtain ⟨hoptions, hoperands, hperm⟩ := ih 0
            refine ⟨hoptions.cons a, hoperands.cons_cons a, ?_⟩
            exact List.perm_middle.trans (hperm.cons a)
        · exact hoption _ _

end Scan

def PartOf (args : List Arg) (b : Arg) : Prop := ∃ x ∈ args, b <:+ x

def HasArg.Takes (args : List Arg) (optarg : Option Arg) : HasArg → Prop
  | .noArgument => optarg = none
  | .requiredArgument => ∃ b, optarg = some b ∧ PartOf args b
  | .optionalArgument => ∀ b ∈ optarg, PartOf args b

inductive Found (c : Caller) (args : List Arg) : Event → Prop where
  | unknown : Found c args (question, none)
  | missing : Found c args (missing c.optstring, none)
  | letter {ch : UInt8} {k : HasArg} {optarg : Option Arg} (hk : letter c.optstring ch = some k)
      (harg : k.Takes args optarg) : Found c args (charInt ch, optarg)
  | long {longopts : List LongOption} {p : LongOption} {optarg : Option Arg}
      (hlong : c.longopts = some longopts) (hp : p ∈ longopts)
      (harg : p.hasArg.Takes args optarg) : Found c args (p.val, optarg)

section Found

variable {c : Caller} {posixlyCorrect : Bool} {args args' rest : List Arg} {a : Arg} {e : Event}

theorem PartOf.mono (h : ∀ x ∈ args, x ∈ args') {b : Arg} (hb : PartOf args b) :
    PartOf args' b := by
  obtain ⟨x, hx, hsuffix⟩ := hb
  exact ⟨x, h x hx, hsuffix⟩

theorem HasArg.Takes.mono (h : ∀ x ∈ args, x ∈ args') {optarg : Option Arg} {k : HasArg}
    (hk : k.Takes args optarg) : k.Takes args' optarg := by
  cases k with
  | noArgument => exact hk
  | requiredArgument =>
    obtain ⟨b, hb, hpart⟩ := hk
    exact ⟨b, hb, hpart.mono h⟩
  | optionalArgument => exact fun b hb => (hk b hb).mono h

theorem Found.mono (h : ∀ x ∈ args, x ∈ args') (he : Found c args e) : Found c args' e := by
  cases he with
  | unknown => exact .unknown
  | missing => exact .missing
  | letter hk harg => exact .letter hk (harg.mono h)
  | long hlong hp harg => exact .long hlong hp (harg.mono h)

theorem found_cluster {cs : List UInt8} (hcs : cs <:+ a) :
    ∀ e ∈ (cluster c.optstring rest cs).1, Found c (a :: rest) e := by
  induction cs with
  | nil => simp [cluster]
  | cons ch cs ih =>
    have htail : cs <:+ a := (List.suffix_cons ch cs).trans hcs
    have hpart : PartOf (a :: rest) cs := ⟨a, List.mem_cons_self, htail⟩
    unfold cluster
    split
    · exact List.forall_mem_cons.mpr ⟨.unknown, ih htail⟩
    · rename_i hk
      exact List.forall_mem_cons.mpr ⟨.letter hk rfl, ih htail⟩
    · rename_i hk
      refine List.forall_mem_singleton.mpr (.letter hk ?_)
      intro b hb
      split at hb
      · cases hb
      · cases hb
        exact hpart
    · rename_i hk
      split
      · exact List.forall_mem_singleton.mpr (.letter hk ⟨cs, rfl, hpart⟩)
      · cases rest with
        | nil => exact List.forall_mem_singleton.mpr .missing
        | cons b rest =>
          exact List.forall_mem_singleton.mpr
            (.letter hk ⟨b, rfl, b, by simp, List.suffix_refl b⟩)

theorem found_long {longopts : List LongOption} (hlong : c.longopts = some longopts) {text : Arg}
    (htext : text <:+ a) :
    Found c (a :: rest) (longElement c.optstring longopts rest text).1 := by
  unfold longElement
  split
  · exact .unknown
  · rename_i p hp
    have hmem := resolve_mem hp
    split
    · rename_i d value hvalue
      split
      · exact .unknown
      · rename_i hno
        have hsuffix : value <:+ a := by
          have hdrop := List.dropWhile_suffix (fun c => decide (c ≠ 61)) (l := text)
          rw [hvalue] at hdrop
          exact (List.suffix_cons d value).trans (hdrop.trans htext)
        have hpart : PartOf (a :: rest) value := ⟨a, List.mem_cons_self, hsuffix⟩
        refine .long hlong hmem ?_
        cases hk : p.hasArg with
        | noArgument => exact absurd hk hno
        | requiredArgument => exact ⟨value, rfl, hpart⟩
        | optionalArgument =>
          rintro b hb
          cases hb
          exact hpart
    · split
      · rename_i hreq
        cases rest with
        | nil => exact .missing
        | cons b rest =>
          refine .long hlong hmem ?_
          rw [hreq]
          exact ⟨b, rfl, b, by simp, List.suffix_refl b⟩
      · rename_i hreq
        refine .long hlong hmem ?_
        cases hk : p.hasArg with
        | noArgument => rfl
        | requiredArgument => exact absurd hk hreq
        | optionalArgument => exact fun b hb => nomatch hb

theorem found_element (c : Caller) (rest : List Arg) (a : Arg) :
    ∀ e ∈ (element c rest a).1, Found c (a :: rest) e := by
  unfold element
  split
  · rename_i longopts hlong
    split
    · exact List.forall_mem_singleton.mpr (found_long hlong (List.drop_suffix _ _))
    · exact found_cluster (List.drop_suffix _ _)
  · exact found_cluster (List.drop_suffix _ _)

theorem found_scan (c : Caller) (posixlyCorrect : Bool) (k : Nat) (args : List Arg) :
    ∀ e ∈ (scan c posixlyCorrect k args).events, Found c args e := by
  induction args generalizing k with
  | nil => cases k <;> simp [scan]
  | cons a args ih =>
    have hrest : ∀ k, ∀ e ∈ (scan c posixlyCorrect k args).events, Found c (a :: args) e :=
      fun k e he => (ih k e he).mono fun x hx => List.mem_cons_of_mem a hx
    cases k with
    | succ k => exact hrest k
    | zero =>
      unfold scan
      split
      · simp
      · split
        · split
          · simp
          · exact hrest 0
        · intro e he
          rcases List.mem_append.mp he with he | he
          · exact found_element c args a e he
          · exact hrest _ e he

end Found

end GetOpt
end Lmap
