import Lmap.Library.Ahead
import Lmap.Library.Transition
import Lmap.Terminal

/-!
The terminal at the end of the program, whichever way it ends.
-/

set_option autoImplicit false

namespace Lmap
namespace Shutdown
open Transition (exec Along)
open Ahead (Checked)

/-- What a code can count on that ends the program. -/
structure View where
  onscreen : Bool
  registered : Bool
  alone : Bool
  installed : List Signal
  opened : Bool

def View.effect (v : View) : Op → View
  | .setOnscreen b => { v with onscreen := b }
  | .uiCleanup | .ncursesCleanup => { v with onscreen := false }
  | .atexit .ncursesCleanup => { v with registered := true }
  | .threadNew => { v with alone := false }
  | .sigaction sig => { v with installed := sig :: v.installed }
  | .openLog => { v with opened := true }
  | _ => v

def View.Allows (v : View) (op : Op) (code : List Op) : Prop :=
  match op with
  | .check .exit => v.onscreen = true → v.registered = true ∧ v.alone = true
  | .exit => (v.onscreen = true → v.registered = true ∧ v.alone = true) ∧ code = []
  | .default sig => sig = .SEGV
  | .raise sig => sig.blockable = false
  | .initscr => nextScreenOp code = some (.setOnscreen true)
  | .setOnscreen true =>
    (v.opened = true ∧ .INT ∈ v.installed ∧ .TERM ∈ v.installed) ∧ nextScreenOp code = none
  | .setOnscreen false => nextScreenOp code = some .endwin
  | .refresh | .redraw | .screens => ¬ Early code
  | .endwin | .uiCleanup | .ncursesCleanup | .threadNew => nextScreenOp code = none
  | _ => True

instance (v : View) (op : Op) (code : List Op) : Decidable (v.Allows op code) := by
  unfold View.Allows
  split <;> infer_instance

abbrev Sound : View → List Op → Prop := Checked View.effect View.Allows

structure View.Better (v v' : View) : Prop where
  onscreen : v'.onscreen = true → v.onscreen = true
  alone : v.alone = true → v'.alone = true
  registered : v.alone = true → v.registered = true → v'.registered = true
  installed : ∀ sig ∈ v.installed, sig ≠ .SEGV → sig ∈ v'.installed
  opened : v.opened = true → v'.opened = true

def State.view (debug : Bool) (s : State) : View where
  onscreen := s.onscreen
  registered := decide (.ncursesCleanup ∈ s.handlers)
  alone := (s.code .capture).isNone
  installed := s.installed
  opened := !debug || s.logOpen

def Op.isRefresh : Op → Bool
  | .refresh => true
  | _ => false

/-- The step refreshes a window where the terminal has been given back. -/
def State.retakes (s : State) : Action → Bool
  | .go w _ =>
    match s.code w with
    | some (op :: _) => op.isRefresh && !s.curses
    | _ => false
  | _ => false

/-- By a fault or by a signal that nobody handles. -/
def State.Outright (s : State) : Prop := ∃ sig, s.killed = some sig ∧ sig.blockable = false

structure State.Inv (debug : Bool) (s : State) : Prop where
  sound : ∀ w code, s.code w = some code → Sound (s.view debug) code
  ready : s.onscreen = true →
    (s.view debug).opened = true ∧ .INT ∈ s.installed ∧ .TERM ∈ s.installed
  ended : s.ended = true → s.onscreen = true → s.Outright
  screen : s.Screen

variable {debug : Bool} {s s' : State} {w u : Who} {c c' code rest : List Op} {v v' : View}

theorem View.Better.refl (v : View) : v.Better v :=
  ⟨id, id, fun _ => id, fun _ hmem _ => hmem, id⟩

theorem View.Better.effect (h : v.Better v') (op : Op) : (v.effect op).Better (v'.effect op) := by
  obtain ⟨hon, halone, hreg, hinst, hopen⟩ := h
  unfold View.effect
  split
  all_goals constructor <;> simp_all

theorem View.Better.allows {op : Op} (h : v.Better v') (hop : v.Allows op code) :
    v'.Allows op code := by
  obtain ⟨hon, halone, hreg, hinst, hopen⟩ := h
  have hexit : (v.onscreen = true → v.registered = true ∧ v.alone = true) →
      v'.onscreen = true → v'.registered = true ∧ v'.alone = true := by
    intro hv hon'
    obtain ⟨hr, ha⟩ := hv (hon hon')
    exact ⟨hreg ha hr, halone ha⟩
  unfold View.Allows at hop ⊢
  split
  · exact hexit hop
  · exact ⟨hexit hop.1, hop.2⟩
  · exact hop
  · exact hop
  · exact hop
  · obtain ⟨⟨hopened, hint, hterm⟩, hnext⟩ := hop
    exact ⟨⟨hopen hopened, hinst _ hint (by decide), hinst _ hterm (by decide)⟩, hnext⟩
  all_goals first | exact hop | trivial

theorem Sound.better (h : Sound v code) (hv : v.Better v') : Sound v' code :=
  h.mono (fun hv hop => hv.allows hop) (fun hv => hv.effect _) hv

theorem isNone_update (hc : s.code w = some c) (c' : List Op) :
    ((Function.update s.code w (some c')) .capture).isNone = (s.code .capture).isNone := by
  cases w <;> simp [hc]

structure Stepped (debug : Bool) (s s' : State) (taken : Bool) : Prop where
  screen : ScreenStep s s' taken
  sound : ∀ w code, s'.code w = some code → Sound (s'.view debug) code
  ready : s'.onscreen = true →
    (s'.view debug).opened = true ∧ .INT ∈ s'.installed ∧ .TERM ∈ s'.installed
  ended : s'.ended = true → s'.onscreen = true → s'.Outright

theorem Stepped.inv {taken : Bool} (hstep : Stepped debug s s' taken) (h : s.Inv debug) :
    s'.Inv debug :=
  ⟨hstep.sound, hstep.ready, hstep.ended, h.screen.step hstep.screen⟩

section Soundness

variable {x : Option (List Op)}

theorem State.Inv.sound_move (h : s.Inv debug) (hcode : s'.code = Function.update s.code w x)
    (hothers : ∀ u d, u ≠ w → s.code u = some d → (s.view debug).Better (s'.view debug))
    (hown : ∀ d, x = some d → Sound (s'.view debug) d) :
    ∀ u d, s'.code u = some d → Sound (s'.view debug) d := by
  intro u d hu
  rcases code_of_update hcode hu with ⟨-, hx⟩ | ⟨hne, hu⟩
  · exact hown d hx
  · exact (h.sound u d hu).better (hothers u d hne hu)

theorem State.Inv.ready_better (h : s.Inv debug) (hon : s'.onscreen = true → s.onscreen = true)
    (hbetter : (s.view debug).Better (s'.view debug)) (hshown : s'.onscreen = true) :
    (s'.view debug).opened = true ∧ .INT ∈ s'.installed ∧ .TERM ∈ s'.installed := by
  obtain ⟨hopened, hint, hterm⟩ := h.ready (hon hshown)
  exact ⟨hbetter.opened hopened, hbetter.installed _ hint (by decide),
    hbetter.installed _ hterm (by decide)⟩

theorem not_ended (hend : s.ended = false) (hended : s.ended = true) :
    s.onscreen = true → s.Outright :=
  absurd (hend.symm.trans hended) Bool.false_ne_true

theorem State.Inv.stepped (h : s.Inv debug) (hstep : ScreenStep s s' false)
    (hcode : s'.code = Function.update s.code w (some c')) (hon : s'.onscreen = s.onscreen)
    (hend : s'.ended = false) (hbetter : (s.view debug).Better (s'.view debug))
    (hown : Sound (s'.view debug) c') : Stepped debug s s' false where
  screen := hstep
  sound := by
    refine h.sound_move hcode (fun _ _ _ _ => hbetter) ?_
    intro d hd
    cases hd
    exact hown
  ready := h.ready_better (by rw [hon]; exact id) hbetter
  ended := not_ended hend

theorem sound_errorMsg (v : View) : Sound v errorMsg :=
  ⟨rfl, ⟨fun h => absurd h Bool.false_ne_true, rfl⟩, trivial⟩

theorem sound_handler (v : View) (sig : Signal) : Sound v (sig.handler debug) := by
  have hoff : false = true → v.registered = true ∧ v.alone = true := fun h =>
    absurd h Bool.false_ne_true
  cases sig with
  | SEGV =>
    cases debug with
    | true => exact ⟨rfl, trivial, rfl, rfl, trivial⟩
    | false => exact ⟨rfl, ⟨hoff, rfl⟩, trivial⟩
  | INT | TERM | other => exact ⟨rfl, trivial, trivial, ⟨hoff, rfl⟩, trivial⟩

theorem handler_next (sig : Signal) : nextScreenOp (sig.handler debug) = none := by
  cases sig <;> cases debug <;> rfl

theorem sound_capture (v : View) : Sound v capture := ⟨trivial, trivial, trivial, trivial⟩

theorem sound_body {h : Handler} (hne : h ≠ .ncursesCleanup) (hrest : Sound v rest) :
    Sound v (h.body ++ rest) := by
  cases h with
  | ncursesCleanup => exact absurd rfl hne
  | debugClose => exact hrest
  | globalsFree | captureClose | discardMacdb | fingerprintDiscard => exact ⟨trivial, hrest⟩

end Soundness

section Operations

structure SameScreen (s t : State) : Prop where
  code : t.code = s.code
  left : t.left = s.left
  onscreen : t.onscreen = s.onscreen
  curses : t.curses = s.curses
  ended : t.ended = s.ended

theorem SameScreen.refl (s : State) : SameScreen s s := ⟨rfl, rfl, rfl, rfl, rfl⟩

variable {t : State}

theorem State.Inv.goOn (h : s.Inv debug) (hend : s.ended = false) (hc : s.code w = some c)
    (ht : SameScreen s t) (hnext : nextScreenOp c' = nextScreenOp c)
    (hbetter : (s.view debug).Better (t.view debug)) (hown : Sound (t.view debug) c') :
    Stepped debug s (t.goOn w c') false := by
  have hview : (t.goOn w c').view debug = t.view debug := by
    have hcode : t.code w = some c := ht.code ▸ hc
    unfold State.view State.goOn
    dsimp only
    rw [isNone_update hcode]
  have hcode : (t.goOn w c').code = Function.update s.code w (some c') := by
    rw [← ht.code]
    rfl
  refine h.stepped (.quiet w c c' hc hcode ht.left hnext ht.onscreen ht.curses) hcode ht.onscreen
    (ht.ended.trans hend) ?_ ?_
  · rw [hview]
    exact hbetter
  · rw [hview]
    exact hown

theorem State.Inv.leave (h : s.Inv debug) (hend : s.ended = false) (hc : s.code w = some c)
    (hnext : nextScreenOp c' = none) (hown : Sound (s.view debug) c') :
    Stepped debug s (s.leave w c') false := by
  have hview : (s.leave w c').view debug = s.view debug := by
    unfold State.view State.leave
    dsimp only
    rw [isNone_update hc]
  have hleft : (s.leave w c').left = c :: s.left := by
    rw [State.leave, hc]
    rfl
  refine h.stepped (.leaves w c c' hc rfl hleft hnext rfl rfl) rfl rfl hend ?_ ?_
  · rw [hview]
    exact .refl _
  · rw [hview]
    exact hown

theorem State.Inv.debugMsg (h : s.Inv debug) (hend : s.ended = false)
    (hc : s.code w = some (.debugMsg :: rest)) :
    Stepped debug s (s.debugMsg debug w rest) false := by
  have hrest : Sound (s.view debug) rest := (h.sound w _ hc).2
  unfold State.debugMsg
  split
  · rename_i hfatal
    refine h.leave hend hc rfl ⟨⟨?_, rfl⟩, trivial⟩
    intro hshown
    have hopened := (h.ready hshown).1
    simp [State.view, hfatal.1, hfatal.2] at hopened
  · exact h.goOn hend hc (.refl s) rfl (.refl _) hrest

/-- Whatever is taken off the stack, the thread that takes it calls. -/
theorem State.Inv.exit (h : s.Inv debug) (hend : s.ended = false)
    (hc : s.code w = some (.exit :: rest)) : Stepped debug s (s.exit w rest) false := by
  obtain ⟨⟨hallow, rfl⟩, -⟩ := h.sound w _ hc
  unfold State.exit
  split
  · rename_i hnil
    have hoff : s.onscreen = false := by
      by_contra hon
      have hreg := (hallow (eq_true_of_ne_false hon)).1
      simp [State.view, hnil] at hreg
    exact ⟨.stays rfl rfl rfl rfl, h.sound, h.ready,
      fun _ hshown => absurd (hoff.symm.trans hshown) Bool.false_ne_true⟩
  · rename_i top handlers hcons
    have hview : State.view debug { s.goOn w (top.body ++ [.exit]) with
        handlers := handlers } =
        { s.view debug with registered := decide (.ncursesCleanup ∈ handlers) } := by
      unfold State.view State.goOn
      dsimp only
      rw [isNone_update hc]
    refine ⟨.quiet w _ _ hc rfl rfl ?_ rfl rfl, ?_, ?_, ?_⟩
    · exact nextScreenOp_append (handler_body_next top) _
    · refine h.sound_move (x := some (top.body ++ [.exit])) rfl ?_ ?_
      · intro u d hne hu
        have hnone : (s.view debug).alone = false := by
          cases u with
          | capture => simp [State.view, hu]
          | main =>
            cases w with
            | main => exact absurd rfl hne
            | capture => simp [State.view, hc]
        rw [hview]
        refine ⟨id, id, fun halone => ?_, fun _ hmem _ => hmem, id⟩
        rw [hnone] at halone
        cases halone
      · rintro d hd
        cases hd
        rw [hview]
        by_cases htop : top = .ncursesCleanup
        · subst htop
          exact ⟨rfl, ⟨fun h => absurd h Bool.false_ne_true, rfl⟩, trivial⟩
        · refine sound_body htop ⟨⟨?_, rfl⟩, trivial⟩
          intro hon
          obtain ⟨hreg, halone⟩ := hallow hon
          refine ⟨?_, halone⟩
          simp only [State.view, hcons, List.mem_cons, decide_eq_true_eq] at hreg
          exact decide_eq_true (hreg.resolve_left (Ne.symm htop))
    · intro hon
      rw [hview]
      exact h.ready hon
    · exact not_ended hend

end Operations

theorem State.Inv.ncursesCleanup (h : s.Inv debug) (hend : s.ended = false)
    (hc : s.code w = some (.ncursesCleanup :: rest)) :
    Stepped debug s (s.goOn w (if s.onscreen then ncursesCleanup ++ rest else rest)) false := by
  obtain ⟨hnext, hrest⟩ := h.sound w _ hc
  cases hon : s.onscreen with
  | false =>
    refine h.goOn hend hc (.refl s) rfl (.refl _)
      (Sound.better hrest ⟨?_, id, fun _ => id, fun _ hmem _ => hmem, id⟩)
    intro hshown
    exact absurd (hon.symm.trans hshown) (by decide)
  | true =>
    have hview : (s.goOn w (Shutdown.ncursesCleanup ++ rest)).view debug = s.view debug := by
      unfold State.view State.goOn
      dsimp only
      rw [isNone_update hc]
    refine ⟨.enters w _ (Shutdown.ncursesCleanup ++ rest) hc rfl rfl hnext rfl hon rfl rfl, ?_,
      ?_, ?_⟩
    · refine h.sound_move (x := some (Shutdown.ncursesCleanup ++ rest)) rfl ?_ ?_
      · intro u d _ _
        rw [← hview]
        exact .refl _
      · rintro d hd
        cases hd
        have hall : Sound (s.view debug) (Shutdown.ncursesCleanup ++ rest) :=
          ⟨trivial, rfl, by simp [View.Allows, Early, nextScreenOp], hnext, trivial, hrest⟩
        exact hview ▸ hall
    · intro hshown
      rw [if_pos rfl, hview]
      exact h.ready hshown
    · exact not_ended hend

theorem State.Inv.screenOp (h : s.Inv debug) (hend : s.ended = false) {op : Op}
    (hc : s.code w = some (op :: rest)) (onscreen curses : Bool) {taken : Bool}
    (hview : { s.view debug with onscreen := onscreen } = (s.view debug).effect op)
    (hstep : ScreenStep s { s.goOn w rest with onscreen := onscreen, curses := curses } taken)
    (hon : onscreen = true → s.onscreen = true ∨ (∀ u d, u ≠ w → s.code u ≠ some d) ∧
      (s.view debug).opened = true ∧ .INT ∈ s.installed ∧ .TERM ∈ s.installed) :
    Stepped debug s { s.goOn w rest with onscreen := onscreen, curses := curses } taken := by
  have hview' : State.view debug { s.goOn w rest with onscreen := onscreen, curses := curses } =
      { s.view debug with onscreen := onscreen } := by
    unfold State.view State.goOn
    dsimp only
    rw [isNone_update hc]
  refine ⟨hstep, ?_, ?_, ?_⟩
  · refine h.sound_move (x := some rest) rfl ?_ ?_
    · intro u d hne hu
      rw [hview']
      refine ⟨fun hshown => ?_, id, fun _ => id, fun _ hmem _ => hmem, id⟩
      rcases hon hshown with hs | ⟨hothers, -⟩
      · exact hs
      · exact absurd hu (hothers u d hne)
    · rintro d hd
      cases hd
      rw [hview', hview]
      exact (h.sound w _ hc).2
  · intro hshown
    rw [hview']
    rcases hon hshown with hs | ⟨-, hready⟩
    · exact h.ready hs
    · exact hready
  · exact not_ended hend

theorem State.Inv.setOnscreen (h : s.Inv debug) (hend : s.ended = false) {b : Bool}
    (hc : s.code w = some (.setOnscreen b :: rest)) :
    Stepped debug s { s.goOn w rest with onscreen := b } false := by
  have hallow := (h.sound w _ hc).1
  cases b with
  | true =>
    obtain ⟨hready, hnext⟩ := hallow
    obtain ⟨rfl, hnone, -⟩ := h.screen.early w _ hc (.inr rfl)
    refine h.screenOp hend hc true s.curses rfl
      (.shown .main _ rest hc rfl rfl rfl hnext rfl rfl) fun _ => .inr ⟨?_, hready⟩
    intro u d hne hu
    cases u with
    | main => exact hne rfl
    | capture => rw [hnone] at hu; cases hu
  | false =>
    exact h.screenOp hend hc false s.curses rfl
      (.hidden w _ rest hc rfl rfl rfl hallow rfl rfl) fun h => absurd h Bool.false_ne_true

theorem State.Inv.refresh (h : s.Inv debug) (hend : s.ended = false)
    (hc : s.code w = some (.refresh :: rest)) :
    Stepped debug s { s.goOn w rest with curses := true } (!s.curses) := by
  have hallow := (h.sound w _ hc).1
  refine h.screenOp hend hc s.onscreen true rfl ?_ .inl
  cases hcurses : s.curses with
  | true => exact .quiet w _ rest hc rfl rfl rfl rfl hcurses.symm
  | false => exact .retaken w _ rest hc rfl rfl rfl hallow rfl hcurses rfl

theorem State.Inv.threadNew (h : s.Inv debug) (hend : s.ended = false)
    (hc : s.code w = some (.threadNew :: rest)) (hnone : s.code .capture = none) :
    Stepped debug s ((s.goOn w rest).goOn .capture capture) false := by
  obtain ⟨hnext, hrest⟩ := h.sound w _ hc
  have hview : ((s.goOn w rest).goOn .capture capture).view debug =
      (s.view debug).effect .threadNew := by
    unfold State.view State.goOn
    dsimp only
    rw [Function.update_self]
    rfl
  refine ⟨.creates w _ rest hc hnone rfl rfl hnext hnext rfl rfl, ?_, ?_, ?_⟩
  · intro u d hu
    rw [hview]
    cases u with
    | capture =>
      cases hu
      exact sound_capture _
    | main =>
      cases w with
      | main =>
        cases hu
        exact hrest
      | capture => rw [hc] at hnone; cases hnone
  · intro hshown
    rw [hview]
    exact h.ready hshown
  · exact not_ended hend

theorem State.Inv.kill {sig : Signal} (h : s.Inv debug)
    (hsig : s.onscreen = true → sig.blockable = false) : Stepped debug s (s.kill sig) false :=
  ⟨.stays rfl rfl rfl rfl, h.sound, h.ready, fun _ hon => ⟨sig, rfl, hsig hon⟩⟩

theorem State.Inv.go (h : s.Inv debug) (hend : s.ended = false) {op : Op} {ans : Bool}
    (hc : s.code w = some (op :: rest)) (hgo : s.go debug w rest ans op = .ok s') :
    Stepped debug s s' (op.isRefresh && !s.curses) := by
  obtain ⟨hallow, hrest⟩ := h.sound w _ hc
  cases op with
  | debugMsg =>
    cases hgo
    exact h.debugMsg hend hc
  | openLog =>
    cases hgo
    exact h.goOn hend hc (t := { s with logOpen := true }) ⟨rfl, rfl, rfl, rfl, rfl⟩ rfl
      ⟨id, id, fun _ => id, fun _ hmem _ => hmem, fun _ => Bool.or_true _⟩
      (Sound.better hrest ⟨id, id, fun _ => id, fun _ hmem _ => hmem, fun _ => Bool.or_true _⟩)
  | check f =>
    cases hgo
    cases ans with
    | false =>
      refine h.goOn hend hc (.refl s) rfl (.refl _) ?_
      cases f <;> exact hrest
    | true =>
      cases f with
      | errorMsg => exact h.leave hend hc rfl (sound_errorMsg _)
      | exit => exact h.leave hend hc rfl ⟨⟨hallow, rfl⟩, trivial⟩
  | atexit top =>
    cases hgo
    have hbetter : (s.view debug).Better
        (State.view debug { s with handlers := top :: s.handlers }) := by
      refine ⟨id, id, fun _ hreg => ?_, fun _ hmem _ => hmem, id⟩
      exact decide_eq_true (List.mem_cons_of_mem _ (of_decide_eq_true hreg))
    refine h.goOn hend hc (t := { s with handlers := top :: s.handlers }) ⟨rfl, rfl, rfl, rfl, rfl⟩
      rfl hbetter (Sound.better hrest ?_)
    cases top with
    | ncursesCleanup =>
      refine ⟨id, id, fun _ _ => ?_, fun _ hmem _ => hmem, id⟩
      simp [State.view]
    | globalsFree | debugClose | captureClose | discardMacdb | fingerprintDiscard =>
      exact hbetter
  | sigaction sig =>
    cases hgo
    exact h.goOn hend hc (t := { s with installed := sig :: s.installed })
      ⟨rfl, rfl, rfl, rfl, rfl⟩ rfl
      ⟨id, id, fun _ => id, fun _ hmem _ => List.mem_cons_of_mem _ hmem, id⟩ hrest
  | ignore sig =>
    cases hgo
    exact h.goOn hend hc (t := { s with ignored := sig :: s.ignored })
      ⟨rfl, rfl, rfl, rfl, rfl⟩ rfl (.refl _) hrest
  | default sig =>
    cases hgo
    have hbetter : (s.view debug).Better
        (State.view debug { s with installed := s.installed.filter (· ≠ sig) }) := by
      refine ⟨id, id, fun _ => id, fun sig' hmem hne => ?_, id⟩
      rw [show sig = .SEGV from hallow]
      exact List.mem_filter.mpr ⟨hmem, decide_eq_true hne⟩
    exact h.goOn hend hc (t := { s with installed := s.installed.filter (· ≠ sig) })
      ⟨rfl, rfl, rfl, rfl, rfl⟩ rfl hbetter (Sound.better hrest hbetter)
  | raise sig =>
    cases hgo
    exact h.kill fun _ => hallow
  | refresh =>
    cases hgo
    exact h.refresh hend hc
  | redraw =>
    cases hgo
    cases ans with
    | true => exact h.goOn hend hc (.refl s) rfl (.refl _) ⟨hallow, hrest⟩
    | false => exact h.goOn hend hc (.refl s) rfl (.refl _) hrest
  | initscr =>
    cases hgo
    exact h.screenOp hend hc s.onscreen true rfl
      (.initscr w _ rest hc rfl rfl rfl hallow rfl rfl) .inl
  | setOnscreen b =>
    cases hgo
    exact h.setOnscreen hend hc
  | endwin =>
    cases hgo
    exact h.screenOp hend hc s.onscreen false rfl
      (.restored w _ rest hc rfl rfl rfl hallow rfl rfl) .inl
  | uiCleanup =>
    cases hgo
    refine h.goOn hend hc (.refl s) ?_ (.refl _) ⟨trivial, hallow, hrest⟩
    rfl
  | ncursesCleanup =>
    cases hgo
    exact h.ncursesCleanup hend hc
  | threadNew =>
    rw [State.go] at hgo
    split at hgo
    · cases hgo
      refine h.goOn hend hc (.refl s) rfl (.refl _) (Sound.better hrest ⟨id, ?_, ?_, ?_, id⟩)
      · exact fun halone => absurd halone Bool.false_ne_true
      · exact fun halone => absurd halone Bool.false_ne_true
      · exact fun _ hmem _ => hmem
    · split at hgo
      · cases hgo
        exact h.threadNew hend hc (Option.isNone_iff_eq_none.mp ‹_›)
      · cases hgo
  | cancel =>
    cases hgo
    exact h.goOn hend hc (t := { s with cancelled := true }) ⟨rfl, rfl, rfl, rfl, rfl⟩ rfl
      (.refl _) hrest
  | join =>
    rw [State.go] at hgo
    split at hgo
    · cases hgo
      exact h.goOn hend hc (.refl s) rfl (.refl _) hrest
    · cases hgo
  | screens =>
    cases hgo
    cases ans with
    | true =>
      exact h.goOn hend hc (.refl s) rfl (.refl _) ⟨trivial, trivial, hallow, hallow, hrest⟩
    | false => exact h.goOn hend hc (.refl s) rfl (.refl _) hrest
  | pcapLoop =>
    cases hgo
    cases ans with
    | true =>
      exact h.goOn hend hc (.refl s) rfl (.refl _)
        ⟨trivial, trivial, trivial, trivial, trivial, hrest⟩
    | false => exact h.goOn hend hc (.refl s) rfl (.refl _) hrest
  | exit =>
    cases hgo
    exact h.exit hend hc

theorem State.Inv.gone (h : s.Inv debug) (hend : s.ended = false) (hc : s.code w = some c)
    {left : List (List Op)}
    (hleft : left = c :: s.left ∨ left = s.left ∧ nextScreenOp c = none) :
    Stepped debug s { s with left := left, code := Function.update s.code w none } false := by
  have hbetter : (s.view debug).Better
      (State.view debug { s with left := left, code := Function.update s.code w none }) := by
    refine ⟨id, ?_, fun _ => id, fun _ hmem _ => hmem, id⟩
    simp only [State.view, Function.update_apply]
    split
    · exact fun _ => rfl
    · exact id
  refine ⟨.gone w c hc rfl hleft rfl rfl, ?_, ?_, ?_⟩
  · exact h.sound_move (x := none) rfl (fun _ _ _ _ => hbetter) (by rintro d hd; cases hd)
  · exact h.ready_better id hbetter
  · exact not_ended hend

theorem State.Inv.step {a : Action} (h : s.Inv debug) (hs : step debug s a = .ok s') :
    Stepped debug s s' (s.retakes a) := by
  unfold Shutdown.step at hs
  split at hs
  · cases hs
  · rename_i hended
    have hend : s.ended = false := eq_false_of_ne_true hended
    cases a with
    | go w ans =>
      dsimp only at hs
      split at hs
      · cases hs
      · rename_i hc
        cases hs
        rw [State.retakes, hc]
        exact h.gone hend hc (.inr ⟨rfl, rfl⟩)
      · rename_i op rest hc
        rw [State.retakes, hc]
        exact h.go hend hc hs
    | signal sig w =>
      dsimp only at hs
      split at hs
      · cases hs
      · rename_i hready
        obtain ⟨c, hc⟩ : ∃ c, s.code w = some c := by
          cases hcode : s.code w with
          | none => simp [hcode] at hready
          | some c => exact ⟨c, rfl⟩
        split at hs
        · cases hs
          have hleave : Stepped debug s (s.leave w (sig.handler debug)) false :=
            h.leave hend hc (handler_next sig) (sound_handler _ sig)
          exact ⟨.leaves w c (sig.handler debug) hc rfl (by simp [State.leave, hc])
            (handler_next sig) rfl rfl, hleave.sound, hleave.ready, hleave.ended⟩
        · rename_i hunhandled
          cases hs
          refine h.kill fun hon => ?_
          by_contra hblockable
          obtain ⟨-, hint, hterm⟩ := h.ready hon
          have hmem : sig ∈ s.installed := by
            cases sig with
            | INT => exact hint
            | TERM => exact hterm
            | SEGV | other => exact absurd rfl hblockable
          refine hunhandled ⟨hmem, ?_⟩
          by_contra hblocked
          exact hready (.inr (.inr ⟨eq_true_of_ne_false hblocked, eq_true_of_ne_false hblockable⟩))
    | cancelled =>
      dsimp only at hs
      split at hs
      · rename_i hready
        obtain ⟨c, hc⟩ := Option.isSome_iff_exists.mp hready.2
        cases hs
        exact h.gone hend hc (.inl (by rw [hc]; rfl))
      · cases hs

theorem main_next (debug : Bool) : nextScreenOp (main debug) = some .initscr := by
  cases debug <;> rfl

theorem start_code (hw : (State.start debug).code w = some code) :
    w = .main ∧ code = main debug := by
  cases w with
  | main => exact ⟨rfl, (Option.some.inj hw).symm⟩
  | capture => cases hw

theorem start_finished (debug : Bool) : ¬ (State.start debug).Unfinished := by
  rintro ⟨d, hd | ⟨u, hu⟩, hb⟩
  · cases hd
  · obtain ⟨-, rfl⟩ := start_code hu
    simp [Between, main_next] at hb

theorem inv_start (debug : Bool) : (State.start debug).Inv debug where
  sound := by
    intro w code hw
    obtain ⟨-, rfl⟩ := start_code hw
    cases debug <;> decide
  ready h := absurd h Bool.false_ne_true
  ended h := absurd h Bool.false_ne_true
  screen := by
    refine ⟨?_, fun hun => absurd hun (start_finished debug),
      fun h => absurd h Bool.false_ne_true⟩
    intro w code hw _
    obtain ⟨rfl, rfl⟩ := start_code hw
    exact ⟨rfl, rfl, rfl, rfl, iff_of_false Bool.false_ne_true (by simp [main_next])⟩

theorem kept_start (debug : Bool) : (State.start debug).Kept where
  curses hun := absurd hun (start_finished debug)
  left := by
    rintro ⟨b, hb, -⟩
    cases hb
  cleaning := by
    intro w code hw hnext
    obtain ⟨-, rfl⟩ := start_code hw
    rw [main_next] at hnext
    cases hnext

variable {acts : List Action}

theorem inv_run (hrun : exec (step debug) (State.start debug) acts = .ok s) : s.Inv debug :=
  Transition.exec_invariant (fun _ _ _ h hs => h.step hs |>.inv h) (inv_start debug) hrun

/-- No two calls of `ncurses_cleanup` overlap. -/
def Apart (debug : Bool) (acts : List Action) : Prop :=
  Along (step debug) (fun s _ _ => ¬ (s.cleaning .main = true ∧ s.cleaning .capture = true))
    (State.start debug) acts

/-- A window is refreshed after `endwin`. -/
def Retaken (debug : Bool) (acts : List Action) : Prop :=
  ¬ Along (step debug) (fun s a _ => s.retakes a = false) (State.start debug) acts

theorem accounted_run (hrun : exec (step debug) (State.start debug) acts = .ok s)
    (hnever : ¬ Retaken debug acts) : s.Accounted := by
  refine (Transition.exec_of_along (I := fun s => s.Inv debug ∧ s.Accounted) ?_
    ⟨inv_start debug, fun h => absurd h Bool.false_ne_true⟩ (not_not.mp hnever) hrun).2
  rintro s a s' ⟨hinv, haccounted⟩ hs hretakes
  have hstep := hinv.step hs
  rw [hretakes] at hstep
  exact ⟨hstep.inv hinv, haccounted.step hstep.screen⟩

theorem kept_step {a : Action} (hinv : s.Inv debug) (hkept : s.Kept)
    (hs : step debug s a = .ok s')
    (hone : ¬ (s.cleaning .main = true ∧ s.cleaning .capture = true)) :
    s'.Inv debug ∧ s'.Kept :=
  have hstep := hinv.step hs
  ⟨hstep.inv hinv, hkept.step hinv.screen hone hstep.screen⟩

theorem kept_run (hrun : exec (step debug) (State.start debug) acts = .ok s)
    (hapart : Apart debug acts) : s.Kept :=
  (Transition.exec_of_along (I := fun s => s.Inv debug ∧ s.Kept)
    (fun _ _ _ h hs hone => kept_step h.1 h.2 hs hone) ⟨inv_start debug, kept_start debug⟩ hapart
    hrun).2

theorem taken_run (hrun : exec (step debug) (State.start debug) acts = .ok s)
    (hapart : Apart debug acts) (hretaken : Retaken debug acts) : s.Taken := by
  refine (Transition.exec_of_not_along (I := fun s => s.Inv debug ∧ s.Kept)
    (J := fun s => s.Inv debug ∧ s.Taken) ?_ ?_ ⟨inv_start debug, kept_start debug⟩ hapart
    hretaken hrun).2
  · rintro s a s' ⟨hinv, hkept⟩ hs hone
    refine ⟨kept_step hinv hkept hs hone, fun hretakes => ?_⟩
    have hstep := hinv.step hs
    rw [eq_true_of_ne_false hretakes] at hstep
    exact ⟨hstep.inv hinv, taken_of_retaken hinv.screen hkept hstep.screen⟩
  · rintro s a s' ⟨hinv, htaken⟩ hs
    have hstep := hinv.step hs
    exact ⟨hstep.inv hinv, htaken.step hstep.screen⟩

/-- However the program ends, the terminal is left in the hands of ncurses only if a call of
`ncurses_init` or `ncurses_cleanup` is unfinished then, if a window has been refreshed after
`endwin`, or if the program was ended outright while the screen was on, and, where no two calls of
`ncurses_cleanup` have overlapped, exactly then. -/
theorem screen_left (hrun : exec (step debug) (State.start debug) acts = .ok s)
    (hended : s.ended = true) :
    (s.onscreen = true → s.Outright) ∧
      (s.curses = true → s.onscreen = true ∨ s.Unfinished ∨ Retaken debug acts) ∧
      (Apart debug acts →
        s.onscreen = true ∨ s.Unfinished ∨ Retaken debug acts → s.curses = true) := by
  have hinv := inv_run hrun
  refine ⟨hinv.ended hended, fun hcurses => ?_, fun hapart hwhy => ?_⟩
  · by_cases hretaken : Retaken debug acts
    · exact .inr (.inr hretaken)
    · exact (accounted_run hrun hretaken hcurses).imp_right .inl
  · rcases hwhy with hon | hun | hretaken
    · exact hinv.screen.on hon
    · exact (kept_run hrun hapart).curses hun
    · exact (taken_run hrun hapart hretaken).curses

/-- The capture thread has no memory left and calls `error_msg`, the screens show something before
it comes to the end of `exit`. -/
def redrawn : List Action :=
  List.replicate 62 (.go .main false) ++ List.replicate 2 (.go .capture false) ++
    List.replicate 2 (.go .capture true) ++ List.replicate 8 (.go .capture false) ++
    [.go .main true, .go .main false, .go .main false, .go .main true, .go .main false] ++
    List.replicate 11 (.go .capture false)

theorem screen_left_redrawn :
    ∃ s, exec (step false) (State.start false) redrawn = .ok s ∧ s.curses = true ∧
      (s.curses = true ↔ s.onscreen = true ∨ s.Unfinished ∨ Retaken false redrawn) := by
  have hends : (exec (step false) (State.start false) redrawn).map
      (fun s => (s.ended, s.curses)) = .ok (true, true) := by decide +kernel
  have hapart : Apart false redrawn := by
    unfold Apart
    decide +kernel
  cases hrun : exec (step false) (State.start false) redrawn with
  | error e =>
    rw [hrun] at hends
    cases hends
  | ok s =>
    rw [hrun] at hends
    obtain ⟨hended, hcurses⟩ := Prod.mk.inj (Except.ok.inj hends)
    obtain ⟨-, hleft, hexactly⟩ := screen_left hrun hended
    exact ⟨s, rfl, hcurses, hleft, hexactly hapart⟩

end Shutdown
end Lmap
