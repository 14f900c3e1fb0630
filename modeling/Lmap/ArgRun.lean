import Lmap.ArgScan

/-!
The calls of `getopt_long` over a whole run: between them the elements stand in an order that is
known, and what they return is what one pass over the elements finds.
-/

set_option autoImplicit false

namespace Lmap
namespace GetOpt
open BlockSwap CString

/-- The elements of `argv`, between two options: the options that stand in front, the non-options
that have been skipped, the options behind those, and what is still to be scanned. -/
structure Layout (s : State) (front skipped back rest : List Arg) : Prop where
  argv : s.argv = front ++ skipped ++ back ++ rest
  first : s.firstNonopt = front.length
  last : s.lastNonopt = front.length + skipped.length
  ind : s.optind = front.length + skipped.length + back.length
  program : front ≠ []
  initialized : s.initialized = true

section Order

variable {s : State} {front skipped back rest : List Arg}

theorem Layout.argc (h : Layout s front skipped back rest) :
    s.argc = s.optind + rest.length := by
  simp only [State.argc, h.argv, h.ind, List.length_append]

theorem Layout.drop (h : Layout s front skipped back rest) : s.argv.drop s.optind = rest := by
  have hlen : s.optind = (front ++ skipped ++ back).length := by
    simp only [h.ind, List.length_append]
  rw [h.argv, hlen, List.drop_left]

theorem Layout.getElem? (h : Layout s front skipped back rest) (k : Nat) :
    s.argv[s.optind + k]? = rest[k]? := by
  rw [← h.drop, List.getElem?_drop]

theorem Layout.elem {a : Arg} (h : Layout s front skipped back (a :: rest)) :
    s.elem s.optind = .ok a := by
  have hget := h.getElem? 0
  simp only [Nat.add_zero, List.getElem?_cons_zero] at hget
  simp only [State.elem, hget]

theorem Layout.optind_pos (h : Layout s front skipped back rest) : 0 < s.optind := by
  have hpos := List.length_pos_iff.mpr h.program
  have hind := h.ind
  omega

theorem Layout.clamp (h : Layout s front skipped back rest) : clamp s = s := by
  have hind := h.ind
  have hlast := h.last
  have hfirst := h.first
  have hlast' : ¬ s.lastNonopt > s.optind := by omega
  have hfirst' : ¬ s.firstNonopt > s.optind := by omega
  simp only [GetOpt.clamp, if_neg hlast', if_neg hfirst']

theorem Layout.skipped_eq_nil (h : Layout s front skipped back rest) :
    s.firstNonopt = s.lastNonopt ↔ skipped = [] := by
  rw [h.first, h.last, ← List.length_eq_zero_iff]
  omega

theorem Layout.back_eq_nil (h : Layout s front skipped back rest) :
    s.lastNonopt = s.optind ↔ back = [] := by
  rw [h.ind, h.last, ← List.length_eq_zero_iff]
  omega

theorem Layout.exchange (h : Layout s front skipped back rest) :
    ∃ s', GetOpt.exchange s = .ok s' ∧ Layout s' (front ++ back) skipped [] rest ∧
      s'.optarg = s.optarg ∧ s'.ordering = s.ordering := by
  refine ⟨_, exchange_eq h.argv h.first h.last h.ind, ?_, rfl, rfl⟩
  exact
    { argv := by simp
      first := by simp
      last := by simp
      ind := by
        simp only [h.ind, List.length_append, List.length_nil]
        omega
      program := by simp [h.program]
      initialized := h.initialized }

theorem Layout.noSkipped (h : Layout s front [] back rest) :
    Layout { s with firstNonopt := s.optind, lastNonopt := s.optind } (front ++ back) [] []
      rest where
  argv := by simp [h.argv]
  first := by simp [h.ind]
  last := by simp [h.ind]
  ind := by simp [h.ind]
  program := by simp [h.program]
  initialized := h.initialized

theorem Layout.skip (h : Layout s front skipped [] rest) :
    Layout { s with
        optind := s.optind + ((s.argv.drop s.optind).takeWhile nonoptionP).length
        lastNonopt := s.optind + ((s.argv.drop s.optind).takeWhile nonoptionP).length }
      front (skipped ++ rest.takeWhile nonoptionP) [] (rest.dropWhile nonoptionP) where
  argv := by
    rw [h.argv]
    simp [List.takeWhile_append_dropWhile]
  first := h.first
  last := by
    have hind := h.ind
    simp only [h.drop, List.length_append, List.length_nil] at hind ⊢
    omega
  ind := by
    have hind := h.ind
    simp only [h.drop, List.length_append, List.length_nil] at hind ⊢
    omega
  program := h.program
  initialized := h.initialized

theorem permute_spec (h : Layout s front skipped back rest) :
    ∃ s', permute s = .ok s' ∧
      Layout s' (front ++ back) (skipped ++ rest.takeWhile nonoptionP) []
        (rest.dropWhile nonoptionP) ∧
      s'.optarg = s.optarg ∧ s'.ordering = s.ordering := by
  unfold permute
  by_cases hback : back = []
  · subst hback
    have hlast := h.back_eq_nil.mpr rfl
    simp only [hlast, ne_eq, not_true_eq_false, and_false, if_false, pure_bind]
    refine ⟨_, rfl, ?_, rfl, rfl⟩
    simpa using h.skip
  have hlast : s.lastNonopt ≠ s.optind := fun heq => hback (h.back_eq_nil.mp heq)
  by_cases hskipped : skipped = []
  · subst hskipped
    have hfirst := h.skipped_eq_nil.mpr rfl
    simp only [hfirst, hlast, ne_eq, not_true_eq_false, false_and, if_false, not_false_eq_true,
      if_true, pure_bind]
    exact ⟨_, rfl, h.noSkipped.skip, rfl, rfl⟩
  · have hfirst : s.firstNonopt ≠ s.lastNonopt := fun heq => hskipped (h.skipped_eq_nil.mp heq)
    obtain ⟨s', hexchange, hlayout, hopt, hord⟩ := h.exchange
    simp only [hfirst, hlast, ne_eq, not_false_eq_true, and_self, if_true, hexchange, ok_bind]
    exact ⟨_, rfl, hlayout.skip, hopt, hord⟩

theorem skipDashes_of_ne (h : Layout s front skipped back rest) (hrest : rest.head? ≠ some dashes) :
    skipDashes s = .ok s := by
  unfold skipDashes
  have hargc := h.argc
  cases rest with
  | nil =>
    have hend : s.optind = s.argc := hargc.symm
    rw [if_pos hend]
    rfl
  | cons a rest =>
    have hne : a ≠ dashes := fun heq => hrest (by rw [heq]; rfl)
    have hend : s.optind ≠ s.argc := by
      rw [hargc, List.length_cons]
      omega
    rw [if_neg hend, h.elem, ok_bind, if_neg hne]
    rfl

/-- Nothing behind the two dashes is an option. -/
theorem skipDashes_dashes (h : Layout s front skipped back (dashes :: rest)) :
    ∃ s', skipDashes s = .ok s' ∧
      Layout s' (front ++ back ++ [dashes]) (skipped ++ rest) [] [] ∧
      s'.optarg = s.optarg ∧ s'.ordering = s.ordering := by
  have hargc := h.argc
  have hend : s.optind ≠ s.argc := by
    rw [hargc, List.length_cons]
    omega
  have hnext : Layout { s with optind := s.optind + 1 } front skipped (back ++ [dashes]) rest :=
    { argv := by simp [h.argv]
      first := h.first
      last := h.last
      ind := by simp only [h.ind, List.length_append, List.length_singleton]; omega
      program := h.program
      initialized := h.initialized }
  have hstop : ∀ s' : State, Layout s' (front ++ (back ++ [dashes])) skipped [] rest →
      Layout { s' with lastNonopt := s'.argc, optind := s'.argc }
        (front ++ back ++ [dashes]) (skipped ++ rest) [] [] := by
    intro s' hs'
    have hargc' := hs'.argc
    exact
      { argv := by simp [hs'.argv]
        first := by simp [hs'.first]
        last := by
          simp only [State.argc, hs'.argv, List.length_append, List.length_nil]
          omega
        ind := by
          simp only [State.argc, hs'.argv, List.length_append, List.length_nil]
          omega
        program := by simp
        initialized := hs'.initialized }
  unfold skipDashes
  rw [if_neg hend, h.elem, ok_bind, if_pos rfl]
  have hlast : s.lastNonopt ≠ s.optind + 1 := by
    rw [h.last, h.ind]
    omega
  by_cases hskipped : skipped = []
  · subst hskipped
    have hfirst := h.skipped_eq_nil.mpr rfl
    simp only [hfirst, ne_eq, not_true_eq_false, false_and, if_false, if_true, pure_bind]
    exact ⟨_, rfl, hstop _ hnext.noSkipped, rfl, rfl⟩
  · have hfirst : s.firstNonopt ≠ s.lastNonopt := fun heq => hskipped (h.skipped_eq_nil.mp heq)
    obtain ⟨s', hexchange, hlayout, hopt, hord⟩ := hnext.exchange
    simp only [hfirst, hlast, ne_eq, not_false_eq_true, and_self, if_true, hexchange, ok_bind]
    exact ⟨_, rfl, hstop s' hlayout, hopt, hord⟩

end Order

section Next

variable {c : Caller} {s : State} {front skipped back rest : List Arg} {a : Arg}

def Stops (r : Except Fault (State × Option Int)) (options operands : List Arg) : Prop :=
  ∃ last, r = .ok (last, some (-1)) ∧ last.argv = options ++ operands ∧
    last.optind = options.length

theorem stops_nil (h : Layout s front skipped back []) (hend : skipped = [] ∨ back = []) :
    Stops (nextElement c s) (front ++ back) skipped := by
  have hargc : s.optind = s.argc := h.argc.symm
  refine ⟨_, by rw [nextElement, if_pos hargc]; rfl, ?_, ?_⟩
  · rcases hend with rfl | rfl
    · simp [h.argv]
    · simp [h.argv]
  · have hfirst := h.first
    have hlast := h.last
    have hind := h.ind
    rcases hend with rfl | rfl
    · simp only [List.length_append, List.length_nil] at hlast hind ⊢
      split <;> omega
    · simp only [List.length_append, List.length_nil] at hlast hind ⊢
      split <;> omega

theorem stops_dashes (h : Layout s front skipped back (dashes :: rest)) :
    Stops (skipDashes s >>= nextElement c) (front ++ back ++ [dashes]) (skipped ++ rest) := by
  obtain ⟨s', hskip, hlayout, -⟩ := skipDashes_dashes h
  rw [hskip, ok_bind]
  simpa using stops_nil (c := c) hlayout (.inr rfl)

theorem nextElement_cons (h : Layout s front skipped back (a :: rest)) :
    nextElement c s =
      if nonoptionP a then
        if s.ordering = .requireOrder then .ok (s, some (-1))
        else .ok ({ s with optarg := some a, optind := s.optind + 1 }, some 1)
      else .ok ({ s with
        nextchar := some (a.drop (if c.longopts.isSome ∧ a[1]? = some 45 then 2 else 1)) },
          none) := by
  have hargc := h.argc
  have hend : s.optind ≠ s.argc := by
    rw [hargc, List.length_cons]
    omega
  rw [nextElement, if_neg hend, h.elem, ok_bind]
  rfl

theorem stops_operand (h : Layout s front [] back (a :: rest)) (hord : s.ordering = .requireOrder)
    (ha : nonoptionP a = true) : Stops (nextElement c s) (front ++ back) (a :: rest) := by
  refine ⟨s, by rw [nextElement_cons h, if_pos ha, if_pos hord], ?_, ?_⟩
  · simp [h.argv]
  · simp [h.ind]

end Next

/-- The calls, up to `EOF`, return these events and leave the elements in this order. -/
def Reads (c : Caller) (posixlyCorrect : Bool) (s : State) (events : List Event)
    (options operands : List Arg) : Prop :=
  ∃ last, (∀ n, events.length < n → readAll c posixlyCorrect n s = .ok (events, last)) ∧
    last.argv = options ++ operands ∧ last.optind = options.length

/-- No option of the caller is taken for `EOF`, the order of the elements is not asked for, and
`-W foo` does not stand for `--foo`, which `shortOption` leaves out. -/
structure Caller.Plain (c : Caller) : Prop where
  order : c.optstring.head? ≠ some 45 ∧ c.optstring.head? ≠ some 43
  letters : 255 ∉ c.optstring
  noLong : ¬ lit "W;" <:+: c.optstring
  vals : ∀ longopts ∈ c.longopts, ∀ p ∈ longopts, p.val ≠ -1

section Run

variable {c : Caller} {posixlyCorrect : Bool} {s s' : State} {events : List Event}
  {front skipped back rest options operands : List Arg} {a : Arg}

theorem Reads.cons {r : Int} (hcall : getoptInternal c posixlyCorrect s = .ok (s', r))
    (hr : r ≠ -1) (h : Reads c posixlyCorrect s' events options operands) :
    Reads c posixlyCorrect s ((r, s'.optarg) :: events) options operands := by
  obtain ⟨last, hrun, horder⟩ := h
  refine ⟨last, ?_, horder⟩
  intro n hn
  obtain ⟨n, rfl⟩ : ∃ k, n = k + 1 := ⟨n - 1, by omega⟩
  have hrest := hrun n (by simpa using hn)
  simp only [readAll, hcall, ok_bind, if_neg hr, hrest]
  rfl

theorem Reads.nil (hcall : getoptInternal c posixlyCorrect s = .ok (s', -1))
    (hargv : s'.argv = options ++ operands) (hind : s'.optind = options.length) :
    Reads c posixlyCorrect s [] options operands := by
  refine ⟨s', ?_, hargv, hind⟩
  intro n hn
  obtain ⟨n, rfl⟩ : ∃ k, n = k + 1 := ⟨n - 1, by omega⟩
  simp only [readAll, hcall, ok_bind, if_true]
  rfl

theorem getoptInternal_running (h : Layout s front skipped back rest) :
    getoptInternal c posixlyCorrect s =
      (if s.nextchar.getD [] = [] then advance c { s with optarg := none }
        else .ok ({ s with optarg := none }, none)) >>= fun p =>
          match p.2 with
          | some r => .ok (p.1, r)
          | none => decode c.longopts c.optstring p.1 := by
  have hind := h.optind_pos
  have hargc := h.argc
  have hpos : ¬ s.argc < 1 := by omega
  have hrunning : ¬ (s.optind = 0 ∨ ¬ s.initialized = true) := by
    rw [h.initialized]
    simp only [not_true_eq_false, or_false]
    omega
  simp only [getoptInternal, if_neg hpos, if_neg hrunning]
  split <;> rfl

theorem Layout.noOptarg (h : Layout s front skipped back rest) :
    Layout { s with optarg := none } front skipped back rest :=
  ⟨h.argv, h.first, h.last, h.ind, h.program, h.initialized⟩

theorem Layout.nextchar (h : Layout s front skipped back rest) (text : Option Arg) :
    Layout { s with nextchar := text } front skipped back rest :=
  ⟨h.argv, h.first, h.last, h.ind, h.program, h.initialized⟩

theorem Layout.consume (h : Layout s front skipped back (a :: rest)) {k : Nat}
    (hk : k ≤ rest.length) (optarg nextchar : Option Arg) (optopt : Int) :
    Layout { s with
        optarg := optarg
        optind := s.optind + 1 + k
        optopt := optopt
        nextchar := nextchar }
      front skipped (back ++ a :: rest.take k) (rest.drop k) where
  argv := by simp [h.argv]
  first := h.first
  last := h.last
  ind := by
    have hind := h.ind
    simp only [List.length_append, List.length_cons, List.length_take]
    omega
  program := h.program
  initialized := h.initialized

def Decodes (c : Caller) (posixlyCorrect : Bool) (s : State) (found events : List Event)
    (options operands : List Arg) : Prop :=
  ∃ s' e more, found = e :: more ∧ decode c.longopts c.optstring s = .ok (s', e.1) ∧
    s'.optarg = e.2 ∧ e.1 ≠ -1 ∧ Reads c posixlyCorrect s' (more ++ events) options operands

def Resumes (c : Caller) (posixlyCorrect : Bool) (s : State) (front skipped back rest : List Arg)
    (a : Arg) (took : Nat) (events : List Event) (options operands : List Arg) : Prop :=
  ∀ s', Layout s' front skipped (back ++ a :: rest.take took) (rest.drop took) →
    s'.nextchar.getD [] = [] → s'.ordering = s.ordering →
    Reads c posixlyCorrect s' events options operands

theorem decodes_cluster (hplain : c.Plain) (hshort : c.longopts = none ∨ a[1]? ≠ some 45)
    {cs : List UInt8} (hcs : cs ≠ []) (h : Layout s front skipped back (a :: rest))
    (hnext : s.nextchar = some cs) (hopt : s.optarg = none)
    (hresume : Resumes c posixlyCorrect s front skipped back rest a
      (cluster c.optstring rest cs).2 events options operands) :
    Decodes c posixlyCorrect s (cluster c.optstring rest cs).1 events options operands := by
  induction cs generalizing s with
  | nil => exact absurd rfl hcs
  | cons ch cs ih =>
    have hdecode : decode c.longopts c.optstring s = shortOption c.optstring s := by
      rw [decode, h.elem, ok_bind]
      rcases hshort with hnone | hdash
      · rw [hnone]
      · cases c.longopts with
        | none => rfl
        | some longopts => exact if_neg hdash
    by_cases hk : letter c.optstring ch = none ∨ letter c.optstring ch = some .noArgument
    · obtain ⟨optopt, hcall⟩ := shortOption_letter hnext hk rfl
      have hcluster : cluster c.optstring rest (ch :: cs) =
          ((if letter c.optstring ch = none then question else charInt ch, none) ::
            (cluster c.optstring rest cs).1, (cluster c.optstring rest cs).2) := by
        rcases hk with hk | hk
        · simp [cluster, hk]
        · simp [cluster, hk]
      have hcode := cluster_code_ne hplain.letters rest (ch :: cs)
      rw [hcluster] at hresume hcode ⊢
      replace hcode := hcode _ List.mem_cons_self
      refine ⟨_, _, _, rfl, hdecode.trans hcall, hopt, hcode, ?_⟩
      by_cases hlast : cs = []
      · subst hlast
        have hlayout := h.consume (Nat.zero_le _) s.optarg (some []) optopt
        exact hresume _ hlayout rfl rfl
      · -- the element is not left yet
        rw [if_neg hlast]
        have hlayout : Layout { s with optopt := optopt, nextchar := some cs } front skipped back
            (a :: rest) := ⟨h.argv, h.first, h.last, h.ind, h.program, h.initialized⟩
        obtain ⟨s', e, more, hfound, hcall', hopt', hne, hreads⟩ :=
          ih hlast hlayout rfl hopt hresume
        have hevent : e = (e.1, s'.optarg) := by rw [hopt']
        rw [hfound, List.cons_append, hevent]
        refine Reads.cons ?_ hne hreads
        rw [getoptInternal_running hlayout]
        simp only [Option.getD_some, if_neg hlast, ok_bind]
        rw [← hcall', hopt]
    · obtain ⟨k, hletter⟩ : ∃ k, letter c.optstring ch = some k := by
        cases hl : letter c.optstring ch with
        | none => exact absurd (.inl hl) hk
        | some k => exact ⟨k, rfl⟩
      have hkind : k ≠ .noArgument := fun heq => hk (.inr (heq ▸ hletter))
      have hargc := h.argc
      have hrest : s.argv[s.optind + 1]? = rest.head? := by
        rw [h.getElem? 1, List.head?_eq_getElem?]
        rfl
      obtain ⟨e, took, optopt, hcluster, hcall⟩ := shortOption_argument hnext hkind hletter hopt
        (by rw [hargc, List.length_cons]; omega) hrest
      have htook := cluster_took_le c.optstring rest (ch :: cs)
      have hcode := cluster_code_ne hplain.letters rest (ch :: cs)
      rw [hcluster] at hresume htook hcode ⊢
      refine ⟨_, e, [], rfl, hdecode.trans hcall, rfl, hcode e (by simp), ?_⟩
      exact hresume _ (h.consume htook e.2 none optopt) rfl rfl

theorem decodes_long (hplain : c.Plain) {longopts : List LongOption}
    (hlong : c.longopts = some longopts) (hdash : a[1]? = some 45)
    (h : Layout s front skipped back (a :: rest)) {text : Arg} (hnext : s.nextchar = some text)
    (hopt : s.optarg = none)
    (hresume : Resumes c posixlyCorrect s front skipped back rest a
      (longElement c.optstring longopts rest text).2 events options operands) :
    Decodes c posixlyCorrect s [(longElement c.optstring longopts rest text).1] events options
      operands := by
  have hrest : s.argv[s.optind + 1]? = rest.head? := by
    rw [h.getElem? 1, List.head?_eq_getElem?]
    rfl
  obtain ⟨optopt, hcall⟩ := longOption_spec longopts hnext hopt hrest
  have hdecode : decode c.longopts c.optstring s = longOption c.optstring longopts s := by
    rw [decode, h.elem, ok_bind, hlong]
    exact if_pos hdash
  have hcode := longElement_code_ne c.optstring (hplain.vals longopts hlong) rest text
  have htook := longElement_took_le c.optstring longopts rest text
  refine ⟨_, _, [], rfl, hdecode.trans hcall, rfl, hcode, ?_⟩
  exact hresume _ (h.consume htook _ (some []) optopt) rfl rfl

theorem decodes_element (hplain : c.Plain) (h : Layout s front skipped back (a :: rest))
    (ha : nonoptionP a = false)
    (hnext : s.nextchar =
      some (a.drop (if c.longopts.isSome ∧ a[1]? = some 45 then 2 else 1)))
    (hopt : s.optarg = none)
    (hresume : Resumes c posixlyCorrect s front skipped back rest a (element c rest a).2 events
      options operands) :
    Decodes c posixlyCorrect s (element c rest a).1 events options operands := by
  have htail : a.drop 1 ≠ [] := by
    intro heq
    rcases a with _ | ⟨d, _ | ⟨d', a⟩⟩
    · cases ha
    · unfold nonoptionP at ha
      simp at ha
    · cases heq
  unfold element at hresume ⊢
  cases hlong : c.longopts with
  | none =>
    simp only [hlong, Option.isSome_none, Bool.false_eq_true, false_and, if_false] at hnext hresume
    exact decodes_cluster hplain (.inl hlong) htail h hnext hopt hresume
  | some longopts =>
    by_cases hdash : a[1]? = some 45
    · simp only [hlong, hdash, Option.isSome_some, and_self, if_true] at hnext hresume ⊢
      exact decodes_long hplain hlong hdash h hnext hopt hresume
    · simp only [hlong, hdash, and_false, if_false] at hnext hresume ⊢
      exact decodes_cluster hplain (.inr hdash) htail h hnext hopt hresume

/-- How the order is chosen, where the caller does not ask for one. -/
def orderOf (posixlyCorrect : Bool) : Ordering :=
  if posixlyCorrect then .requireOrder else .permute

theorem reads_of_stops (h : Layout s front skipped back rest) (hidle : s.nextchar.getD [] = [])
    (hstops : Stops (advance c { s with optarg := none }) options operands) :
    Reads c posixlyCorrect s [] options operands := by
  obtain ⟨last, hcall, hargv, hind⟩ := hstops
  refine Reads.nil ?_ hargv hind
  rw [getoptInternal_running h, if_pos hidle, hcall]
  rfl

theorem reads_of_decodes {found : List Event} (h : Layout s front skipped back rest)
    (hidle : s.nextchar.getD [] = []) (hcall : advance c { s with optarg := none } = .ok (s', none))
    (hdecodes : Decodes c posixlyCorrect s' found events options operands) :
    Reads c posixlyCorrect s (found ++ events) options operands := by
  obtain ⟨s'', e, more, hfound, hdecode, hopt, hne, hreads⟩ := hdecodes
  have hevent : e = (e.1, s''.optarg) := by rw [hopt]
  rw [hfound, List.cons_append, hevent]
  refine Reads.cons ?_ hne hreads
  rw [getoptInternal_running h, if_pos hidle, hcall, ok_bind]
  simp only [hdecode]

def ReadsScan (c : Caller) (posixlyCorrect : Bool) (rest : List Arg) : Prop :=
  ∀ s front skipped back, Layout s front skipped back rest → s.nextchar.getD [] = [] →
    s.ordering = orderOf posixlyCorrect → (posixlyCorrect = true → skipped = []) →
    Reads c posixlyCorrect s (scan c posixlyCorrect 0 rest).events
      (front ++ back ++ (scan c posixlyCorrect 0 rest).options)
      (skipped ++ (scan c posixlyCorrect 0 rest).operands)

theorem reads_option (hplain : c.Plain) {front' skipped' back' rest' : List Arg}
    (h : Layout s front skipped back rest) (hidle : s.nextchar.getD [] = [])
    (hcall : advance c { s with optarg := none } = nextElement c s')
    (h' : Layout s' front' skipped' back' (a :: rest')) (hopt : s'.optarg = none)
    (hord : s'.ordering = orderOf posixlyCorrect) (hposix : posixlyCorrect = true → skipped' = [])
    (ha : nonoptionP a = false) (hne : a ≠ dashes)
    (ih : ∀ k, ReadsScan c posixlyCorrect (rest'.drop k)) :
    Reads c posixlyCorrect s (scan c posixlyCorrect 0 (a :: rest')).events
      (front' ++ back' ++ (scan c posixlyCorrect 0 (a :: rest')).options)
      (skipped' ++ (scan c posixlyCorrect 0 (a :: rest')).operands) := by
  rw [nextElement_cons h', ha, if_neg Bool.false_ne_true] at hcall
  rw [scan_element ha hne]
  refine reads_of_decodes h hidle hcall
    (decodes_element hplain (h'.nextchar _) ha rfl hopt ?_)
  intro t ht hidle' hord'
  have hreads := ih (element c rest' a).2 t _ _ _ ht hidle' (hord'.trans hord) hposix
  simpa using hreads

theorem reads_scan (hplain : c.Plain) (rest : List Arg) : ReadsScan c posixlyCorrect rest := by
  induction hn : rest.length using Nat.strong_induction_on generalizing rest with
  | _ n ih =>
    subst hn
    intro s front skipped back h hidle hord hposix
    have hrest : ∀ (a : Arg) (rest' : List Arg) (k : Nat), (a :: rest').length ≤ rest.length →
        ReadsScan c posixlyCorrect (rest'.drop k) := by
      intro a rest' k hle
      refine ih _ ?_ _ rfl
      rw [List.length_drop]
      rw [List.length_cons] at hle
      omega
    have hclamp := h.noOptarg.clamp
    cases posixlyCorrect with
    | true =>
      obtain rfl := hposix rfl
      have hadvance : advance c { s with optarg := none } =
          skipDashes { s with optarg := none } >>= nextElement c := by
        rw [advance, hclamp, hord]
        rfl
      cases rest with
      | nil =>
        refine reads_of_stops h hidle ?_
        rw [hadvance, skipDashes_of_ne h.noOptarg (by simp), ok_bind]
        simpa [scan] using stops_nil (c := c) h.noOptarg (.inl rfl)
      | cons a rest =>
        by_cases hne : a = dashes
        · subst hne
          rw [scan_dashes]
          refine reads_of_stops h hidle ?_
          rw [hadvance]
          exact stops_dashes h.noOptarg
        have hskip : skipDashes { s with optarg := none } = .ok { s with optarg := none } :=
          skipDashes_of_ne h.noOptarg (by simpa using hne)
        rw [hskip, ok_bind] at hadvance
        cases ha : nonoptionP a with
        | true =>
          have hscan : scan c true 0 (a :: rest) = ⟨[], [], a :: rest⟩ := by
            rw [scan, if_neg hne, ha, if_pos rfl, if_pos rfl]
          rw [hscan, List.append_nil]
          refine reads_of_stops h hidle ?_
          rw [hadvance]
          exact stops_operand h.noOptarg hord ha
        | false =>
          exact reads_option hplain h hidle hadvance h.noOptarg rfl hord hposix ha hne
            fun k => hrest a rest k (Nat.le_refl _)
    | false =>
      obtain ⟨s1, hpermute, hlayout, hopt, hord1⟩ := permute_spec h.noOptarg
      have hadvance : advance c { s with optarg := none } = skipDashes s1 >>= nextElement c := by
        have hmode : s.ordering = .permute := hord
        rw [advance, hclamp]
        simp only [if_pos hmode, hpermute, ok_bind]
      have hle := List.length_dropWhile_le nonoptionP rest
      rw [scan_skipped]
      simp only [Parse.withOperands, ← List.append_assoc]
      cases hdrop : rest.dropWhile nonoptionP with
      | nil =>
        rw [hdrop] at hlayout
        refine reads_of_stops h hidle ?_
        rw [hadvance, skipDashes_of_ne hlayout (by simp), ok_bind]
        simpa [scan] using stops_nil (c := c) hlayout (.inr rfl)
      | cons a rest' =>
        rw [hdrop] at hlayout hle
        have ha : nonoptionP a = false := by
          have hhead := List.head?_dropWhile_not nonoptionP rest
          rw [hdrop] at hhead
          simpa using hhead
        by_cases hne : a = dashes
        · subst hne
          rw [scan_dashes]
          refine reads_of_stops h hidle ?_
          rw [hadvance]
          simpa using stops_dashes (c := c) hlayout
        · rw [skipDashes_of_ne hlayout (by simpa using hne), ok_bind] at hadvance
          have hreads := reads_option hplain h hidle hadvance hlayout hopt (hord1.trans hord)
            (fun hfalse => absurd hfalse Bool.false_ne_true) ha hne
            fun k => hrest a rest' k hle
          simpa using hreads

end Run

section Start

variable {c : Caller} {posixlyCorrect : Bool} {s : State} {program : Arg} {args : List Arg}

def State.started (s : State) (posixlyCorrect : Bool) : State := { s with
  optarg := none
  optind := 1
  nextchar := none
  initialized := true
  firstNonopt := 1
  lastNonopt := 1
  ordering := orderOf posixlyCorrect }

theorem getoptInternal_start (hplain : c.Plain) (hargv : s.argv = program :: args)
    (hind : s.optind = 0) :
    getoptInternal c posixlyCorrect s =
      getoptInternal c posixlyCorrect (s.started posixlyCorrect) := by
  have hargc : ¬ s.argc < 1 := by simp [State.argc, hargv]
  have hargc' : ¬ (s.started posixlyCorrect).argc < 1 := hargc
  have hinit : ∀ s : State, getoptInitialize posixlyCorrect c.optstring s =
      ({ s with
        firstNonopt := s.optind
        lastNonopt := s.optind
        nextchar := none
        ordering := orderOf posixlyCorrect }, c.optstring) := by
    intro s
    obtain ⟨h45, h43⟩ := hplain.order
    unfold getoptInitialize
    split
    · rename_i hopt
      rw [hopt] at h45
      exact absurd rfl h45
    · rename_i hopt
      rw [hopt] at h43
      exact absurd rfl h43
    · rfl
  unfold getoptInternal
  rw [if_neg hargc, if_neg hargc']
  simp [hind, hinit, State.started]

theorem reads_start (hplain : c.Plain) (hargv : s.argv = program :: args) (hind : s.optind = 0) :
    Reads c posixlyCorrect s (scan c posixlyCorrect 0 args).events
      (program :: (scan c posixlyCorrect 0 args).options)
      (scan c posixlyCorrect 0 args).operands := by
  have hlayout : Layout (s.started posixlyCorrect) [program] [] [] args :=
    { argv := hargv
      first := rfl
      last := rfl
      ind := rfl
      program := by simp
      initialized := rfl }
  have hreads :=
    reads_scan hplain args (s.started posixlyCorrect) _ _ _ hlayout rfl rfl fun _ => rfl
  obtain ⟨last, hrun, horder⟩ := hreads
  refine ⟨last, ?_, horder⟩
  intro n hn
  rw [← hrun n hn]
  obtain ⟨n, rfl⟩ : ∃ k, n = k + 1 := ⟨n - 1, by omega⟩
  rw [readAll, readAll, getoptInternal_start hplain hargv hind]

/-- Whatever the elements and whatever earlier runs have left in the variables: the calls end,
none of them reads outside `argv`, they return what one pass over the elements finds, and then
`optind` is the index of the first element that is no option. -/
theorem readAll_scan (hplain : c.Plain) (hargv : s.argv = program :: args) (hind : s.optind = 0)
    {n : Nat} (hn : (args.map List.length).sum < n) :
    ∃ last, readAll c posixlyCorrect n s = .ok ((scan c posixlyCorrect 0 args).events, last) ∧
      last.argv = program :: (scan c posixlyCorrect 0 args).options ++
        (scan c posixlyCorrect 0 args).operands ∧
      last.optind = (scan c posixlyCorrect 0 args).options.length + 1 := by
  obtain ⟨last, hrun, horder, hlast⟩ := reads_start hplain hargv hind
  have hlength := scan_length c posixlyCorrect 0 args
  exact ⟨last, hrun n (by omega), horder, hlast⟩

/-- The exchanges only change the order of the elements, and neither that of the options nor that
of the others. -/
theorem readAll_order (hplain : c.Plain) (hargv : s.argv = program :: args) (hind : s.optind = 0)
    {n : Nat} (hn : (args.map List.length).sum < n) :
    ∃ events last, readAll c posixlyCorrect n s = .ok (events, last) ∧ last.argv.Perm s.argv ∧
      (last.argv.take last.optind).Sublist s.argv ∧
      (last.argv.drop last.optind).Sublist s.argv := by
  obtain ⟨last, hrun, horder, hlast⟩ := reads_start hplain hargv hind
  obtain ⟨hoptions, hoperands, hperm⟩ := scan_order c posixlyCorrect 0 args
  have hlength := scan_length c posixlyCorrect 0 args
  refine ⟨_, last, hrun n (by omega), ?_, ?_, ?_⟩
  · rw [horder, hargv]
    exact hperm.cons program
  · rw [horder, hlast, List.take_left, hargv]
    exact hoptions.cons_cons program
  · rw [horder, hlast, List.drop_left, hargv]
    exact hoperands.cons program

end Start

def twoLetters : Caller := ⟨lit "ab:", none⟩

theorem plain_twoLetters : twoLetters.Plain where
  order := by decide
  letters := by decide
  noLong := by decide
  vals := by simp [twoLetters]

/-- `ls x -b y -- -a`, at the start of a run that comes after another one. -/
def rerun : State where
  argv := [lit "ls", lit "x", lit "-b", lit "y", lit "--", lit "-a"]
  optarg := none
  optind := 0
  optopt := 63
  nextchar := some (lit "v")
  initialized := true
  firstNonopt := 7
  lastNonopt := 9
  ordering := .requireOrder

theorem readAll_scan_rerun :
    ∃ last, readAll twoLetters false 100 rerun =
        .ok ((scan twoLetters false 0 (rerun.argv.drop 1)).events, last) ∧
      last.argv = lit "ls" :: (scan twoLetters false 0 (rerun.argv.drop 1)).options ++
        (scan twoLetters false 0 (rerun.argv.drop 1)).operands ∧
      last.optind = (scan twoLetters false 0 (rerun.argv.drop 1)).options.length + 1 :=
  readAll_scan plain_twoLetters rfl rfl (by decide)

theorem readAll_order_rerun :
    ∃ events last, readAll twoLetters false 100 rerun = .ok (events, last) ∧
      last.argv.Perm rerun.argv ∧ (last.argv.take last.optind).Sublist rerun.argv ∧
      (last.argv.drop last.optind).Sublist rerun.argv :=
  readAll_order plain_twoLetters rfl rfl
    (by decide : (List.map List.length [lit "x", lit "-b", lit "y", lit "--", lit "-a"]).sum < 100)

end GetOpt
end Lmap
