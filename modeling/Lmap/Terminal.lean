import Lmap.Shutdown

/-!
The terminal, with `onscreen` and the calls that change either. `ncurses_cleanup` clears `onscreen`
first and gives the terminal back then, so that a call which is cut off in between, as by a signal,
is not made up for. Nor is it given back again once a window has been refreshed after that.
-/

set_option autoImplicit false

namespace Lmap
namespace Shutdown

def nextScreenOp : List Op → Option Op
  | [] => none
  | .initscr :: _ => some .initscr
  | .setOnscreen b :: _ => some (.setOnscreen b)
  | .endwin :: _ => some .endwin
  | _ :: rest => nextScreenOp rest

/-- In `ncurses_init` or `ncurses_cleanup`, where `onscreen` is off but the terminal is not given
back. -/
def Between (code : List Op) : Prop :=
  nextScreenOp code = some (.setOnscreen true) ∨ nextScreenOp code = some .endwin

def Cleaning (code : List Op) : Prop :=
  nextScreenOp code = some (.setOnscreen false) ∨ nextScreenOp code = some .endwin

instance (code : List Op) : Decidable (Cleaning code) :=
  inferInstanceAs (Decidable (_ ∨ _))

def Early (code : List Op) : Prop :=
  nextScreenOp code = some .initscr ∨ nextScreenOp code = some (.setOnscreen true)

instance (code : List Op) : Decidable (Early code) :=
  inferInstanceAs (Decidable (_ ∨ _))

/-- A call stands there for good or for now: of a thread, or of one that does not come back. -/
def State.Unfinished (s : State) : Prop :=
  ∃ code, (code ∈ s.left ∨ ∃ w, s.code w = some code) ∧ Between code

def State.cleaning (s : State) (w : Who) : Bool := (s.code w).any fun code => decide (Cleaning code)

structure State.Screen (s : State) : Prop where
  early : ∀ w code, s.code w = some code → Early code →
    w = .main ∧ s.code .capture = none ∧ s.left = [] ∧ s.onscreen = false ∧
      (s.curses = true ↔ nextScreenOp code = some (.setOnscreen true))
  off : s.Unfinished → s.onscreen = false
  on : s.onscreen = true → s.curses = true

/-- Why the terminal is in the hands of ncurses, where it has not been taken again. -/
def State.Accounted (s : State) : Prop := s.curses = true → s.onscreen = true ∨ s.Unfinished

structure State.Kept (s : State) : Prop where
  curses : s.Unfinished → s.curses = true
  left : (∃ code ∈ s.left, Between code) → ∀ w code, s.code w = some code → ¬ Cleaning code
  cleaning : ∀ w code, s.code w = some code → nextScreenOp code = some (.setOnscreen false) →
    s.curses = true

structure State.Taken (s : State) : Prop where
  off : s.onscreen = false
  curses : s.curses = true
  code : ∀ w code, s.code w = some code → nextScreenOp code = none

/-- What a step does to the screen and to the codes, and whether it takes the terminal again. -/
inductive ScreenStep (s s' : State) : Bool → Prop where
  | quiet (w : Who) (c c' : List Op) (hc : s.code w = some c)
      (hcode : s'.code = Function.update s.code w (some c')) (hleft : s'.left = s.left)
      (hnext : nextScreenOp c' = nextScreenOp c) (hon : s'.onscreen = s.onscreen)
      (hcurses : s'.curses = s.curses) :
      ScreenStep s s' false
  | leaves (w : Who) (c c' : List Op) (hc : s.code w = some c)
      (hcode : s'.code = Function.update s.code w (some c')) (hleft : s'.left = c :: s.left)
      (hnext : nextScreenOp c' = none) (hon : s'.onscreen = s.onscreen)
      (hcurses : s'.curses = s.curses) :
      ScreenStep s s' false
  | creates (w : Who) (c c' : List Op) (hc : s.code w = some c) (hnone : s.code .capture = none)
      (hcode : s'.code =
        Function.update (Function.update s.code w (some c')) .capture (some capture))
      (hleft : s'.left = s.left) (hnext : nextScreenOp c = none) (hnext' : nextScreenOp c' = none)
      (hon : s'.onscreen = s.onscreen) (hcurses : s'.curses = s.curses) :
      ScreenStep s s' false
  | gone (w : Who) (c : List Op) (hc : s.code w = some c)
      (hcode : s'.code = Function.update s.code w none)
      (hleft : s'.left = c :: s.left ∨ s'.left = s.left ∧ nextScreenOp c = none)
      (hon : s'.onscreen = s.onscreen) (hcurses : s'.curses = s.curses) :
      ScreenStep s s' false
  | initscr (w : Who) (c c' : List Op) (hc : s.code w = some c)
      (hcode : s'.code = Function.update s.code w (some c')) (hleft : s'.left = s.left)
      (hnext : nextScreenOp c = some .initscr)
      (hnext' : nextScreenOp c' = some (.setOnscreen true)) (hon : s'.onscreen = s.onscreen)
      (hcurses : s'.curses = true) :
      ScreenStep s s' false
  | shown (w : Who) (c c' : List Op) (hc : s.code w = some c)
      (hcode : s'.code = Function.update s.code w (some c')) (hleft : s'.left = s.left)
      (hnext : nextScreenOp c = some (.setOnscreen true)) (hnext' : nextScreenOp c' = none)
      (hon : s'.onscreen = true) (hcurses : s'.curses = s.curses) :
      ScreenStep s s' false
  | enters (w : Who) (c c' : List Op) (hc : s.code w = some c)
      (hcode : s'.code = Function.update s.code w (some c')) (hleft : s'.left = s.left)
      (hnext : nextScreenOp c = none) (hnext' : nextScreenOp c' = some (.setOnscreen false))
      (hshown : s.onscreen = true) (hon : s'.onscreen = s.onscreen)
      (hcurses : s'.curses = s.curses) :
      ScreenStep s s' false
  | hidden (w : Who) (c c' : List Op) (hc : s.code w = some c)
      (hcode : s'.code = Function.update s.code w (some c')) (hleft : s'.left = s.left)
      (hnext : nextScreenOp c = some (.setOnscreen false))
      (hnext' : nextScreenOp c' = some .endwin) (hon : s'.onscreen = false)
      (hcurses : s'.curses = s.curses) :
      ScreenStep s s' false
  | restored (w : Who) (c c' : List Op) (hc : s.code w = some c)
      (hcode : s'.code = Function.update s.code w (some c')) (hleft : s'.left = s.left)
      (hnext : nextScreenOp c = some .endwin) (hnext' : nextScreenOp c' = none)
      (hon : s'.onscreen = s.onscreen) (hcurses : s'.curses = false) :
      ScreenStep s s' false
  | stays (hcode : s'.code = s.code) (hleft : s'.left = s.left) (hon : s'.onscreen = s.onscreen)
      (hcurses : s'.curses = s.curses) :
      ScreenStep s s' false
  | retaken (w : Who) (c c' : List Op) (hc : s.code w = some c)
      (hcode : s'.code = Function.update s.code w (some c')) (hleft : s'.left = s.left)
      (hnext : nextScreenOp c' = nextScreenOp c) (hearly : ¬ Early c)
      (hon : s'.onscreen = s.onscreen) (hgiven : s.curses = false) (hcurses : s'.curses = true) :
      ScreenStep s s' true

variable {s s' : State} {w u : Who} {c c' code : List Op}

theorem nextScreenOp_append (h : nextScreenOp c = none) (d : List Op) :
    nextScreenOp (c ++ d) = nextScreenOp d := by
  induction c with
  | nil => rfl
  | cons op c ih => cases op <;> simp_all [nextScreenOp]

theorem nextScreenOp_cases (code : List Op) :
    nextScreenOp code = none ∨ Early code ∨ Cleaning code := by
  induction code with
  | nil => exact .inl rfl
  | cons op code ih =>
    cases op with
    | initscr => exact .inr (.inl (.inl rfl))
    | setOnscreen b =>
      cases b with
      | true => exact .inr (.inl (.inr rfl))
      | false => exact .inr (.inr (.inl rfl))
    | endwin => exact .inr (.inr (.inr rfl))
    | debugMsg | openLog | check | atexit | sigaction | ignore | default | raise | refresh | redraw
      | uiCleanup | ncursesCleanup | threadNew | cancel | join | screens | pcapLoop | exit =>
      exact ih

theorem handler_body_next (h : Handler) : nextScreenOp h.body = none := by cases h <;> rfl

theorem not_between (h : nextScreenOp code = none) : ¬ Between code := by simp [Between, h]

theorem not_cleaning (h : nextScreenOp code = none) : ¬ Cleaning code := by simp [Cleaning, h]

theorem not_early (h : nextScreenOp code = none) : ¬ Early code := by simp [Early, h]

section Moves

variable {x : Option (List Op)} {d : List Op}

theorem code_of_update (hcode : s'.code = Function.update s.code w x) (hu : s'.code u = some d) :
    u = w ∧ x = some d ∨ u ≠ w ∧ s.code u = some d := by
  rw [hcode, Function.update_apply] at hu
  split at hu
  · exact .inl ⟨‹_›, hu⟩
  · exact .inr ⟨‹_›, hu⟩

theorem left_back (hc : s.code w = some c) (hleft : s'.left = c :: s.left ∨ s'.left = s.left) :
    ∀ d ∈ s'.left, d ∈ s.left ∨ s.code w = some d := by
  intro d hd
  rcases hleft with hleft | hleft
  · rw [hleft] at hd
    rcases List.mem_cons.mp hd with rfl | hd
    · exact .inr hc
    · exact .inl hd
  · exact .inl (hleft ▸ hd)

theorem unfinished_back (hcode : s'.code = Function.update s.code w x)
    (hleft : ∀ d ∈ s'.left, d ∈ s.left ∨ s.code w = some d)
    (hown : ∀ d, x = some d → Between d → s.Unfinished) (h : s'.Unfinished) : s.Unfinished := by
  obtain ⟨d, hd | ⟨u, hu⟩, hbetween⟩ := h
  · rcases hleft d hd with hd | hd
    · exact ⟨d, .inl hd, hbetween⟩
    · exact ⟨d, .inr ⟨w, hd⟩, hbetween⟩
  · rcases code_of_update hcode hu with ⟨-, hx⟩ | ⟨-, hu⟩
    · exact hown d hx hbetween
    · exact ⟨d, .inr ⟨u, hu⟩, hbetween⟩

theorem unfinished_forth (hc : s.code w = some c) (hcode : s'.code = Function.update s.code w x)
    (hleft : s'.left = c :: s.left ∨ s'.left = s.left)
    (hforth : Between c → c ∈ s'.left ∨ ∃ d, x = some d ∧ Between d) (h : s.Unfinished) :
    s'.Unfinished := by
  obtain ⟨d, hd | ⟨u, hu⟩, hbetween⟩ := h
  · rcases hleft with hleft | hleft
    · exact ⟨d, .inl (hleft ▸ List.mem_cons_of_mem _ hd), hbetween⟩
    · exact ⟨d, .inl (hleft ▸ hd), hbetween⟩
  · by_cases huw : u = w
    · subst huw
      rw [hc] at hu
      cases hu
      rcases hforth hbetween with hmem | ⟨d, hx, hd⟩
      · exact ⟨c, .inl hmem, hbetween⟩
      · exact ⟨d, .inr ⟨u, by rw [hcode, Function.update_self, hx]⟩, hd⟩
    · exact ⟨d, .inr ⟨u, by rw [hcode, Function.update_of_ne huw, hu]⟩, hbetween⟩

end Moves

section Terminal

variable {x : Option (List Op)} {d : List Op} {taken : Bool}

theorem State.Screen.early_own (h : s.Screen) (hc : s.code w = some c)
    (hcode : s'.code = Function.update s.code w x) (hu : s'.code u = some d) (hd : Early d) :
    u = w ∧ x = some d := by
  rcases code_of_update hcode hu with hown | ⟨hne, hu⟩
  · exact hown
  · obtain ⟨rfl, hnone, -⟩ := h.early u d hu hd
    cases w with
    | main => exact absurd rfl hne
    | capture => rw [hc] at hnone; cases hnone

theorem State.Screen.early_none (h : s.Screen)
    (hcode : s'.code = Function.update s.code w (some c')) (hc : s.code w = some c)
    (hnot : ¬ Early c') : ∀ u d, s'.code u = some d → ¬ Early d := by
  intro u d hu hd
  obtain ⟨-, hx⟩ := h.early_own hc hcode hu hd
  cases hx
  exact hnot hd

theorem code_of_create
    (hcode : s'.code = Function.update (Function.update s.code w (some c')) .capture (some capture))
    (hnext' : nextScreenOp c' = none) (hu : s'.code u = some d) :
    nextScreenOp d = none ∨ s.code u = some d := by
  rw [hcode, Function.update_apply] at hu
  split at hu
  · cases hu
    exact .inl rfl
  · rw [Function.update_apply] at hu
    split at hu
    · cases hu
      exact .inl hnext'
    · exact .inr hu

theorem State.Screen.move (h : s.Screen) (hc : s.code w = some c)
    (hcode : s'.code = Function.update s.code w x)
    (hleft : s'.left = c :: s.left ∨ s'.left = s.left) (hon : s'.onscreen = s.onscreen)
    (hcurses : s'.curses = s.curses ∨ s'.curses = true ∧ ¬ Early c)
    (hearly : ∀ d, x = some d → Early d → nextScreenOp d = nextScreenOp c ∧ s'.left = s.left)
    (hback : ∀ d, x = some d → Between d → Between c) : s'.Screen := by
  constructor
  · intro u d hu hd
    obtain ⟨rfl, hx⟩ := h.early_own hc hcode hu hd
    obtain ⟨hnext, hleft⟩ := hearly d hx hd
    have hearly' : Early c := by simpa [Early, hnext] using hd
    obtain ⟨rfl, hnone, hempty, hoff, hiff⟩ := h.early u c hc hearly'
    refine ⟨rfl, ?_, hleft.trans hempty, hon.trans hoff, ?_⟩
    · rw [hcode, Function.update_of_ne (by decide), hnone]
    · rcases hcurses with hcurses | ⟨-, hnot⟩
      · rw [hcurses, hnext, hiff]
      · exact absurd hearly' hnot
  · intro hun
    rw [hon]
    refine h.off (unfinished_back hcode (left_back hc hleft) ?_ hun)
    exact fun d hd hb => ⟨c, .inr ⟨w, hc⟩, hback d hd hb⟩
  · rw [hon]
    intro hshown
    rcases hcurses with hcurses | ⟨hcurses, -⟩
    · exact hcurses.trans (h.on hshown)
    · exact hcurses

theorem State.Screen.quiet (h : s.Screen) (hc : s.code w = some c)
    (hcode : s'.code = Function.update s.code w (some c')) (hleft : s'.left = s.left)
    (hnext : nextScreenOp c' = nextScreenOp c) (hon : s'.onscreen = s.onscreen)
    (hcurses : s'.curses = s.curses ∨ s'.curses = true ∧ ¬ Early c) : s'.Screen := by
  refine h.move hc hcode (.inr hleft) hon hcurses ?_ ?_
  · intro d hd _
    cases hd
    exact ⟨hnext, hleft⟩
  · intro d hd hb
    cases hd
    simpa [Between, hnext] using hb

theorem State.Screen.create (h : s.Screen) (hc : s.code w = some c) (hnone : s.code .capture = none)
    (hcode : s'.code =
      Function.update (Function.update s.code w (some c')) .capture (some capture))
    (hleft : s'.left = s.left) (hnext : nextScreenOp c = none) (hnext' : nextScreenOp c' = none)
    (hon : s'.onscreen = s.onscreen) (hcurses : s'.curses = s.curses) : s'.Screen := by
  constructor
  · intro u d hu hd
    rcases code_of_create hcode hnext' hu with hd' | hu
    · exact absurd hd (not_early hd')
    · obtain ⟨rfl, -⟩ := h.early u d hu hd
      exfalso
      cases w with
      | main =>
        rw [hc] at hu
        cases hu
        exact not_early hnext hd
      | capture => rw [hc] at hnone; cases hnone
  · rintro ⟨d, hd | ⟨u, hu⟩, hb⟩
    · rw [hon]
      exact h.off ⟨d, .inl (hleft ▸ hd), hb⟩
    · rcases code_of_create hcode hnext' hu with hd' | hu
      · exact absurd hb (not_between hd')
      · rw [hon]
        exact h.off ⟨d, .inr ⟨u, hu⟩, hb⟩
  · rw [hon, hcurses]
    exact h.on

theorem State.Screen.step (h : s.Screen) (hstep : ScreenStep s s' taken) : s'.Screen := by
  cases hstep with
  | quiet w c c' hc hcode hleft hnext hon hcurses =>
    exact h.quiet hc hcode hleft hnext hon (.inl hcurses)
  | leaves w c c' hc hcode hleft hnext hon hcurses =>
    refine h.move hc hcode (.inl hleft) hon (.inl hcurses) ?_ ?_
    · intro d hd hearly
      cases hd
      exact absurd hearly (not_early hnext)
    · intro d hd hb
      cases hd
      exact absurd hb (not_between hnext)
  | creates w c c' hc hnone hcode hleft hnext hnext' hon hcurses =>
    exact h.create hc hnone hcode hleft hnext hnext' hon hcurses
  | gone w c hc hcode hleft hon hcurses =>
    refine h.move hc hcode (hleft.imp_right And.left) hon (.inl hcurses) ?_ ?_
    · intro d hd
      cases hd
    · intro d hd
      cases hd
  | initscr w c c' hc hcode hleft hnext hnext' hon hcurses =>
    obtain ⟨rfl, hnone, hempty, hoff, -⟩ := h.early w c hc (.inl hnext)
    constructor
    · intro u d hu hd
      obtain ⟨rfl, hx⟩ := h.early_own hc hcode hu hd
      cases hx
      refine ⟨rfl, ?_, hleft.trans hempty, hon.trans hoff, iff_of_true hcurses hnext'⟩
      rw [hcode, Function.update_of_ne (by decide), hnone]
    · exact fun _ => hon.trans hoff
    · exact fun _ => hcurses
  | shown w c c' hc hcode hleft hnext hnext' hon hcurses =>
    obtain ⟨rfl, hnone, hempty, hoff, hiff⟩ := h.early w c hc (.inr hnext)
    constructor
    · exact fun u d hu hd => absurd hd (h.early_none hcode hc (not_early hnext') u d hu)
    · rintro ⟨d, hd | ⟨u, hu⟩, hb⟩
      · rw [hleft, hempty] at hd
        cases hd
      · rcases code_of_update hcode hu with ⟨-, hx⟩ | ⟨hne, hu⟩
        · cases hx
          exact absurd hb (not_between hnext')
        · cases u with
          | main => exact absurd rfl hne
          | capture => rw [hnone] at hu; cases hu
    · exact fun _ => hcurses.trans (hiff.mpr hnext)
  | enters w c c' hc hcode hleft hnext hnext' hshown hon hcurses =>
    refine h.move hc hcode (.inr hleft) hon (.inl hcurses) ?_ ?_
    · intro d hd hearly
      cases hd
      simp [Early, hnext'] at hearly
    · intro d hd hb
      cases hd
      simp [Between, hnext'] at hb
  | hidden w c c' hc hcode hleft hnext hnext' hon hcurses =>
    have hearly : ¬ Early c' := by simp [Early, hnext']
    constructor
    · exact fun u d hu hd => absurd hd (h.early_none hcode hc hearly u d hu)
    · exact fun _ => hon
    · rw [hon]
      exact fun hshown => absurd hshown Bool.false_ne_true
  | restored w c c' hc hcode hleft hnext hnext' hon hcurses =>
    have hoff : s.onscreen = false := h.off ⟨c, .inr ⟨w, hc⟩, .inr hnext⟩
    constructor
    · exact fun u d hu hd => absurd hd (h.early_none hcode hc (not_early hnext') u d hu)
    · exact fun _ => hon.trans hoff
    · rw [hon, hoff]
      exact fun hshown => absurd hshown Bool.false_ne_true
  | stays hcode hleft hon hcurses =>
    obtain ⟨early, off, on⟩ := h
    constructor
    · rw [hcode, hleft, hon, hcurses]
      exact early
    · rw [State.Unfinished, hcode, hleft, hon]
      exact off
    · rw [hon, hcurses]
      exact on
  | retaken w c c' hc hcode hleft hnext hearly hon hgiven hcurses =>
    exact h.quiet hc hcode hleft hnext hon (.inr ⟨hcurses, hearly⟩)

theorem State.Accounted.move (h : s.Accounted) (hon : s'.onscreen = s.onscreen)
    (hcurses : s'.curses = s.curses) (hun : s.Unfinished → s'.Unfinished) : s'.Accounted := by
  intro hcur
  rw [hon]
  exact (h (hcurses.symm.trans hcur)).imp_right hun

theorem State.Accounted.step (h : s.Accounted) (hstep : ScreenStep s s' false) :
    s'.Accounted := by
  cases hstep with
  | quiet w c c' hc hcode hleft hnext hon hcurses =>
    refine h.move hon hcurses (unfinished_forth hc hcode (.inr hleft) fun hb => .inr ⟨c', rfl, ?_⟩)
    simpa [Between, hnext] using hb
  | leaves w c c' hc hcode hleft hnext hon hcurses =>
    refine h.move hon hcurses (unfinished_forth hc hcode (.inl hleft) fun _ => .inl ?_)
    exact hleft ▸ List.mem_cons_self
  | creates w c c' hc hnone hcode hleft hnext hnext' hon hcurses =>
    refine h.move hon hcurses ?_
    rintro ⟨d, hd | ⟨u, hu⟩, hb⟩
    · exact ⟨d, .inl (hleft ▸ hd), hb⟩
    · have hw : u ≠ w := by
        rintro rfl
        rw [hc] at hu
        cases hu
        exact not_between hnext hb
      have hcapture : u ≠ .capture := by
        rintro rfl
        rw [hnone] at hu
        cases hu
      exact ⟨d, .inr ⟨u, by
        rw [hcode, Function.update_of_ne hcapture, Function.update_of_ne hw, hu]⟩, hb⟩
  | gone w c hc hcode hleft hon hcurses =>
    refine h.move hon hcurses
      (unfinished_forth hc hcode (hleft.imp_right And.left) fun hb => ?_)
    rcases hleft with hleft | ⟨-, hnext⟩
    · exact .inl (hleft ▸ List.mem_cons_self)
    · exact absurd hb (not_between hnext)
  | initscr w c c' hc hcode hleft hnext hnext' hon hcurses =>
    exact fun _ => .inr ⟨c', .inr ⟨_, by rw [hcode, Function.update_self]⟩, .inl hnext'⟩
  | shown w c c' hc hcode hleft hnext hnext' hon hcurses => exact fun _ => .inl hon
  | enters w c c' hc hcode hleft hnext hnext' hshown hon hcurses =>
    exact fun _ => .inl (hon.trans hshown)
  | hidden w c c' hc hcode hleft hnext hnext' hon hcurses =>
    exact fun _ => .inr ⟨c', .inr ⟨w, by rw [hcode, Function.update_self]⟩, .inr hnext'⟩
  | restored w c c' hc hcode hleft hnext hnext' hon hcurses =>
    exact fun hcur => absurd (hcurses.symm.trans hcur) Bool.false_ne_true
  | stays hcode hleft hon hcurses =>
    refine h.move hon hcurses ?_
    rw [State.Unfinished, State.Unfinished, hcode, hleft]
    exact id

end Terminal

section Overlaps

variable {d : List Op} {taken : Bool}

theorem cleaning_unique (hone : ¬ (s.cleaning .main = true ∧ s.cleaning .capture = true))
    (hc : s.code w = some c) (hclean : Cleaning c) (hu : s.code u = some d) (hd : Cleaning d) :
    u = w := by
  have hw : s.cleaning w = true := by simp [State.cleaning, hc, hclean]
  have hu' : s.cleaning u = true := by simp [State.cleaning, hu, hd]
  cases u <;> cases w
  · rfl
  · exact absurd ⟨hu', hw⟩ hone
  · exact absurd ⟨hw, hu'⟩ hone
  · rfl

theorem between_unique (hs : s.Screen)
    (hone : ¬ (s.cleaning .main = true ∧ s.cleaning .capture = true)) (hc : s.code w = some c)
    (hb : Between c) (hu : s.code u = some d) (hd : Cleaning d) : u = w := by
  rcases hb with hb | hb
  · obtain ⟨rfl, hnone, -⟩ := hs.early w c hc (.inr hb)
    cases u with
    | main => rfl
    | capture => rw [hnone] at hu; cases hu
  · exact cleaning_unique hone hc (.inr hb) hu hd

theorem State.Kept.quiet (h : s.Kept) (hc : s.code w = some c)
    (hcode : s'.code = Function.update s.code w (some c')) (hleft : s'.left = s.left)
    (hnext : nextScreenOp c' = nextScreenOp c) (hcurses : s.curses = true → s'.curses = true) :
    s'.Kept := by
  constructor
  · intro hun
    refine hcurses (h.curses (unfinished_back hcode (fun d hd => .inl (hleft ▸ hd)) ?_ hun))
    rintro d hd hb
    cases hd
    exact ⟨c, .inr ⟨w, hc⟩, by simpa [Between, hnext] using hb⟩
  · intro hex u d hu hclean
    rw [hleft] at hex
    rcases code_of_update hcode hu with ⟨-, hd⟩ | ⟨-, hu⟩
    · cases hd
      exact h.left hex w c hc (by simpa [Cleaning, hnext] using hclean)
    · exact h.left hex u d hu hclean
  · intro u d hu hd
    rcases code_of_update hcode hu with ⟨-, hx⟩ | ⟨-, hu⟩
    · cases hx
      exact hcurses (h.cleaning w c hc (hnext ▸ hd))
    · exact hcurses (h.cleaning u d hu hd)

theorem State.Kept.leave (h : s.Kept) (hs : s.Screen)
    (hone : ¬ (s.cleaning .main = true ∧ s.cleaning .capture = true)) {x : Option (List Op)}
    (hc : s.code w = some c) (hcode : s'.code = Function.update s.code w x)
    (hx : ∀ d, x = some d → nextScreenOp d = none)
    (hleft : s'.left = c :: s.left ∨ s'.left = s.left) (hcurses : s'.curses = s.curses) :
    s'.Kept := by
  constructor
  · intro hun
    rw [hcurses]
    refine h.curses (unfinished_back hcode (left_back hc hleft) ?_ hun)
    exact fun d hd hb => absurd hb (not_between (hx d hd))
  · rintro ⟨b, hmem, hb⟩ u d hu hclean
    rcases code_of_update hcode hu with ⟨-, hd⟩ | ⟨hne, hu⟩
    · exact not_cleaning (hx d hd) hclean
    · have hold : b ∈ s.left → False := fun hmem => h.left ⟨b, hmem, hb⟩ u d hu hclean
      rcases hleft with hleft | hleft
      · rw [hleft] at hmem
        rcases List.mem_cons.mp hmem with rfl | hmem
        · exact hne (between_unique hs hone hc hb hu hclean)
        · exact hold hmem
      · exact hold (hleft ▸ hmem)
  · intro u d hu hd
    rcases code_of_update hcode hu with ⟨-, hx'⟩ | ⟨-, hu⟩
    · rw [hx d hx'] at hd
      cases hd
    · rw [hcurses]
      exact h.cleaning u d hu hd

theorem kept_of_curses (hcurses : s.curses = true) (hleft : ¬ ∃ code ∈ s.left, Between code) :
    s.Kept :=
  ⟨fun _ => hcurses, fun hex => absurd hex hleft, fun _ _ _ _ => hcurses⟩

theorem State.Kept.step (h : s.Kept) (hs : s.Screen)
    (hone : ¬ (s.cleaning .main = true ∧ s.cleaning .capture = true))
    (hstep : ScreenStep s s' taken) : s'.Kept := by
  cases hstep with
  | quiet w c c' hc hcode hleft hnext hon hcurses =>
    exact h.quiet hc hcode hleft hnext hcurses.trans
  | leaves w c c' hc hcode hleft hnext hon hcurses =>
    refine h.leave hs hone hc hcode ?_ (.inl hleft) hcurses
    rintro d hd
    cases hd
    exact hnext
  | creates w c c' hc hnone hcode hleft hnext hnext' hon hcurses =>
    constructor
    · rintro ⟨d, hd | ⟨u, hu⟩, hb⟩
      · rw [hcurses]
        exact h.curses ⟨d, .inl (hleft ▸ hd), hb⟩
      · rcases code_of_create hcode hnext' hu with hd | hu
        · exact absurd hb (not_between hd)
        · rw [hcurses]
          exact h.curses ⟨d, .inr ⟨u, hu⟩, hb⟩
    · intro hex u d hu hclean
      rcases code_of_create hcode hnext' hu with hd | hu
      · exact not_cleaning hd hclean
      · exact h.left (hleft ▸ hex) u d hu hclean
    · intro u d hu hd
      rcases code_of_create hcode hnext' hu with hd' | hu
      · rw [hd'] at hd
        cases hd
      · rw [hcurses]
        exact h.cleaning u d hu hd
  | gone w c hc hcode hleft hon hcurses =>
    exact h.leave hs hone hc hcode (by rintro d hd; cases hd) (hleft.imp_right And.left) hcurses
  | initscr w c c' hc hcode hleft hnext hnext' hon hcurses =>
    obtain ⟨-, -, hempty, -⟩ := hs.early w c hc (.inl hnext)
    refine kept_of_curses hcurses ?_
    simp [hleft, hempty]
  | shown w c c' hc hcode hleft hnext hnext' hon hcurses =>
    obtain ⟨-, -, hempty, -, hiff⟩ := hs.early w c hc (.inr hnext)
    refine kept_of_curses (hcurses.trans (hiff.mpr hnext)) ?_
    simp [hleft, hempty]
  | enters w c c' hc hcode hleft hnext hnext' hshown hon hcurses =>
    refine kept_of_curses (hcurses.trans (hs.on hshown)) ?_
    rintro ⟨b, hmem, hb⟩
    have hoff := hs.off ⟨b, .inl (hleft ▸ hmem), hb⟩
    rw [hshown] at hoff
    cases hoff
  | hidden w c c' hc hcode hleft hnext hnext' hon hcurses =>
    refine kept_of_curses (hcurses.trans (h.cleaning w c hc hnext)) ?_
    exact fun hex => absurd (.inl hnext) (h.left (hleft ▸ hex) w c hc)
  | restored w c c' hc hcode hleft hnext hnext' hon hcurses =>
    have hclean : Cleaning c := .inr hnext
    have hleft' : ¬ ∃ b ∈ s.left, Between b := fun hex => h.left hex w c hc hclean
    have hothers : ∀ u d, s'.code u = some d → d = c' ∨ u ≠ w ∧ s.code u = some d := by
      intro u d hu
      refine (code_of_update hcode hu).imp_left ?_
      rintro ⟨-, hd⟩
      exact (Option.some.inj hd).symm
    constructor
    · rintro ⟨d, hd | ⟨u, hu⟩, hb⟩
      · exact absurd ⟨d, hleft ▸ hd, hb⟩ hleft'
      · rcases hothers u d hu with rfl | ⟨hne, hu⟩
        · exact absurd hb (not_between hnext')
        · exact absurd (between_unique hs hone hu hb hc hclean).symm hne
    · exact fun hex => absurd (hleft ▸ hex) hleft'
    · intro u d hu hd
      rcases hothers u d hu with rfl | ⟨hne, hu⟩
      · rw [hnext'] at hd
        cases hd
      · exact absurd (cleaning_unique hone hc hclean hu (.inl hd)) hne
  | stays hcode hleft hon hcurses =>
    obtain ⟨curses, left, cleaning⟩ := h
    constructor
    · rw [State.Unfinished, hcode, hleft, hcurses]
      exact curses
    · rw [hcode, hleft]
      exact left
    · rw [hcode, hcurses]
      exact cleaning
  | retaken w c c' hc hcode hleft hnext hearly hon hgiven hcurses =>
    exact h.quiet hc hcode hleft hnext fun _ => hcurses

theorem State.Taken.move (h : s.Taken) {x : Option (List Op)}
    (hcode : s'.code = Function.update s.code w x) (hx : ∀ d, x = some d → nextScreenOp d = none)
    (hon : s'.onscreen = s.onscreen) (hcurses : s.curses = true → s'.curses = true) :
    s'.Taken := by
  refine ⟨hon.trans h.off, hcurses h.curses, fun u d hu => ?_⟩
  rcases code_of_update hcode hu with ⟨-, hx'⟩ | ⟨-, hu⟩
  · exact hx d hx'
  · exact h.code u d hu

theorem State.Taken.step (h : s.Taken) (hstep : ScreenStep s s' taken) : s'.Taken := by
  have hnot : ∀ {w c op}, s.code w = some c → nextScreenOp c = some op → False := by
    intro w c op hc hnext
    rw [h.code w c hc] at hnext
    cases hnext
  cases hstep with
  | quiet w c c' hc hcode hleft hnext hon hcurses =>
    refine h.move hcode ?_ hon hcurses.trans
    rintro d hd
    cases hd
    exact hnext.trans (h.code w c hc)
  | leaves w c c' hc hcode hleft hnext hon hcurses =>
    refine h.move hcode ?_ hon hcurses.trans
    rintro d hd
    cases hd
    exact hnext
  | creates w c c' hc hnone hcode hleft hnext hnext' hon hcurses =>
    refine ⟨hon.trans h.off, hcurses.trans h.curses, fun u d hu => ?_⟩
    exact (code_of_create hcode hnext' hu).elim id (h.code u d)
  | gone w c hc hcode hleft hon hcurses =>
    exact h.move hcode (by rintro d hd; cases hd) hon hcurses.trans
  | initscr w c c' hc hcode hleft hnext hnext' hon hcurses => exact (hnot hc hnext).elim
  | shown w c c' hc hcode hleft hnext hnext' hon hcurses => exact (hnot hc hnext).elim
  | enters w c c' hc hcode hleft hnext hnext' hshown hon hcurses =>
    rw [h.off] at hshown
    cases hshown
  | hidden w c c' hc hcode hleft hnext hnext' hon hcurses => exact (hnot hc hnext).elim
  | restored w c c' hc hcode hleft hnext hnext' hon hcurses => exact (hnot hc hnext).elim
  | stays hcode hleft hon hcurses =>
    exact ⟨hon.trans h.off, hcurses.trans h.curses, hcode ▸ h.code⟩
  | retaken w c c' hc hcode hleft hnext hearly hon hgiven hcurses =>
    rw [h.curses] at hgiven
    cases hgiven

/-- Where the terminal has been given back, nobody is at work on it any more. -/
theorem taken_of_retaken (hs : s.Screen) (h : s.Kept) (hstep : ScreenStep s s' true) :
    s'.Taken := by
  cases hstep with
  | retaken w c c' hc hcode hleft hnext hearly hon hgiven hcurses =>
    have hgiven' : ¬ s.curses = true := by simp [hgiven]
    have hidle : ∀ u d, s.code u = some d → nextScreenOp d = none := by
      intro u d hu
      rcases nextScreenOp_cases d with hd | hd | hd | hd
      · exact hd
      · obtain ⟨rfl, hnone, -⟩ := hs.early u d hu hd
        cases w with
        | main =>
          rw [hc] at hu
          cases hu
          exact absurd hd hearly
        | capture => rw [hc] at hnone; cases hnone
      · exact absurd (h.cleaning u d hu hd) hgiven'
      · exact absurd (h.curses ⟨d, .inr ⟨u, hu⟩, .inr hd⟩) hgiven'
    refine ⟨?_, hcurses, fun u d hu => ?_⟩
    · rw [hon]
      exact eq_false_of_ne_true fun hshown => hgiven' (hs.on hshown)
    · rcases code_of_update hcode hu with ⟨-, hx⟩ | ⟨-, hu⟩
      · cases hx
        exact hnext.trans (hidle w c hc)
      · exact hidle u d hu

end Overlaps

end Shutdown
end Lmap
