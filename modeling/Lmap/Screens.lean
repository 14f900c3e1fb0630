import Lmap.Inet
import Lmap.Library.CString
import Lmap.Library.Format
import Lmap.Library.Loop
import Lmap.Scroll

/-!
The ncurses interface: the loop that goes from screen to screen, and in each screen the loop that
reads the keys. A screen returns a key, and that is taken for the number of the next screen.
-/

set_option autoImplicit false

namespace Lmap
namespace Ncurses
open CString

/-- The key codes of `ncurses.h`; no two are the same, and none is that of a byte. -/
structure Keys where
  f1 : Int
  f2 : Int
  f12 : Int
  down : Int
  up : Int
  npage : Int
  ppage : Int
  distinct : [f1, f2, f12, down, up, npage, ppage].Nodup
  above : ∀ k ∈ [f1, f2, f12, down, up, npage, ppage], 0xff < k

def KEY_TAB : Int := 9

def charKey (c : Char) : Int := c.toNat

structure Terminal where
  lines : Int
  cols : Int

def SYS_LINES : Int := 10

inductive Screen where
  | info
  | topology
  deriving DecidableEq, Repr

/-- The windows that outlive a screen, with `w_stat` as whether it is there, and what was given
to `ui_msg`. -/
structure Ui where
  wSys : Option ScrollWin
  wStat : Bool
  posted : List (List UInt8)
  deriving DecidableEq, Repr

def Ui.initial : Ui := ⟨none, false, []⟩

def Ui.userMsg (ui : Ui) (text : List UInt8) : Ui := { ui with posted := ui.posted ++ [text] }

def Ui.showStatistics (ui : Ui) : Ui := { ui with wStat := !ui.wStat }

def Ui.scroll (ui : Ui) (delta : Int) : Ui :=
  { ui with wSys := ui.wSys.map fun win => lmapScroll win delta }

/-- `POLL_WGETCH`, and the value that is there if no key has been pressed. -/
def pollWgetch (poll : Option Int) : Int := poll.getD 0xff

section Screens

variable (keys : Keys) (term : Terminal)

def menuEvent (ui : Ui) (key : Int) : Ui × Int × Int :=
  if key = keys.f1 then (ui, 1, ESUCCESS)
  else if key = keys.f2 then (ui, 2, ESUCCESS)
  else if key = keys.f12 then (ui.showStatistics, key, ESUCCESS)
  else if key = charKey 'q' then (ui.userMsg (lit "Use capital Q to exit..."), key, ESUCCESS)
  else if key = charKey 'Q' then (ui, 0, ESUCCESS)
  else (ui, key, -ENOTHANDLED)

def infoKey (ui : Ui) (inputkey : Int) : Ui :=
  if inputkey = keys.down then ui.scroll 1
  else if inputkey = keys.up then ui.scroll (-1)
  else if inputkey = keys.npage then ui.scroll SYS_LINES
  else if inputkey = keys.ppage then ui.scroll (-SYS_LINES)
  else if inputkey = KEY_TAB then ui.userMsg (lit "TAB: redrawing window")
  else ui

def topologyKey (ui : Ui) (_inputkey : Int) : Ui := ui

/-- What the loop of a screen comes to: it waits for a key, or it returns one, with the keys that
are still to be read. -/
inductive Seen where
  | waiting (ui : Ui)
  | returned (ui : Ui) (inputkey : Int) (polls : List (Option Int))
  deriving DecidableEq, Repr

def keyLoop (onKey : Ui → Int → Ui) : Ui → List (Option Int) → Seen
  | ui, [] => .waiting ui
  | ui, poll :: polls =>
    let (ui, inputkey, _) := menuEvent keys ui (pollWgetch poll)
    let ui := onKey ui inputkey
    if inputkey > 12 then keyLoop onKey ui polls else .returned ui inputkey polls

def Seen.menuDestroy : Seen → Seen
  | waiting ui => .waiting ui
  | returned ui inputkey polls => .returned { ui with wStat := false } inputkey polls

/-- The window of the messages is created the first time. -/
def scrInfo (ui : Ui) (polls : List (Option Int)) : Seen :=
  let win := ui.wSys.getD
    (lmapNewscrollwin SYS_LINES term.cols (int32 (term.lines - SYS_LINES)) 0 150)
  (keyLoop keys (infoKey keys) { ui with wSys := some win } polls).menuDestroy

def scrTopology (ui : Ui) (polls : List (Option Int)) : Seen :=
  (keyLoop keys topologyKey ui polls).menuDestroy

def displayScreen : Screen → Ui → List (Option Int) → Seen
  | .info => scrInfo keys term
  | .topology => scrTopology keys

def nextScreen (screen : Screen) (next : Int) : Screen :=
  if next = 1 then .info else if next = 2 then .topology else screen

structure Start where
  screen : Screen
  ui : Ui
  polls : List (Option Int)

inductive Shown where
  | displaying (screen : Screen) (ui : Ui)
  | ended (ui : Ui)
  deriving DecidableEq, Repr

def startBody (w : Start) : Loop.Step Start Shown :=
  match displayScreen keys term w.screen w.ui w.polls with
  | .waiting ui => .leave (.displaying w.screen ui)
  | .returned ui next polls =>
    if next ≠ 0 then .again ⟨nextScreen w.screen next, ui, polls⟩ else .leave (.ended ui)

/-- Every screen reads a key before it returns, so no more screens are displayed. -/
def ncursesStart (polls : List (Option Int)) : Option Shown :=
  Loop.run (startBody keys term) (polls.length + 1) ⟨.info, Ui.initial, polls⟩

end Screens

variable (keys : Keys) (term : Terminal)

def goOn (screen : Screen) (next : Int) : Option Screen :=
  if next = 0 then none else some (nextScreen screen next)

def menuKey (key : Int) : Int := (menuEvent keys Ui.initial key).2.1

def press : Option Screen → Option Int → Option Screen
  | none, _ => none
  | some screen, poll => goOn screen (menuKey keys (pollWgetch poll))

def Shown.screen : Shown → Option Screen
  | displaying screen _ => some screen
  | ended _ => none

section Refinement

variable {keys : Keys} {term : Terminal} {ui : Ui} {polls : List (Option Int)} {screen : Screen}

theorem menuEvent_key (ui : Ui) (key : Int) : (menuEvent keys ui key).2.1 = menuKey keys key := by
  unfold menuKey menuEvent
  split
  · rfl
  split
  · rfl
  split
  · rfl
  split
  · rfl
  split <;> rfl

@[simp] theorem foldl_press_none (polls : List (Option Int)) :
    polls.foldl (press keys) none = none := by
  induction polls with
  | nil => rfl
  | cons poll polls ih => exact ih

theorem goOn_of_gt {next : Int} (h : next > 12) (screen : Screen) :
    goOn screen next = some screen := by
  have h0 : next ≠ 0 := by omega
  have h1 : next ≠ 1 := by omega
  have h2 : next ≠ 2 := by omega
  simp only [goOn, nextScreen, h0, h1, h2, if_false]

def Seen.Follows (keys : Keys) (screen : Screen) (polls : List (Option Int)) : Seen → Prop
  | waiting _ => polls.foldl (press keys) (some screen) = some screen
  | returned _ next rest => rest.length < polls.length ∧
      polls.foldl (press keys) (some screen) = rest.foldl (press keys) (goOn screen next)

theorem Seen.Follows.menuDestroy {seen : Seen} (h : seen.Follows keys screen polls) :
    seen.menuDestroy.Follows keys screen polls := by
  cases seen <;> exact h

theorem keyLoop_cons (onKey : Ui → Int → Ui) (ui : Ui) (poll : Option Int)
    (polls : List (Option Int)) :
    keyLoop keys onKey ui (poll :: polls) =
      if menuKey keys (pollWgetch poll) > 12 then
        keyLoop keys onKey (onKey (menuEvent keys ui (pollWgetch poll)).1
          (menuKey keys (pollWgetch poll))) polls
      else .returned (onKey (menuEvent keys ui (pollWgetch poll)).1
          (menuKey keys (pollWgetch poll))) (menuKey keys (pollWgetch poll)) polls := by
  rw [← menuEvent_key ui]
  rfl

theorem keyLoop_follows (onKey : Ui → Int → Ui) (ui : Ui) (polls : List (Option Int))
    (screen : Screen) : (keyLoop keys onKey ui polls).Follows keys screen polls := by
  induction polls generalizing ui with
  | nil => rfl
  | cons poll polls ih =>
    rw [keyLoop_cons]
    by_cases hkey : menuKey keys (pollWgetch poll) > 12
    · rw [if_pos hkey]
      have hpress : press keys (some screen) poll = some screen := goOn_of_gt hkey screen
      have hrest := ih (onKey (menuEvent keys ui (pollWgetch poll)).1
        (menuKey keys (pollWgetch poll)))
      cases hloop : keyLoop keys onKey (onKey (menuEvent keys ui (pollWgetch poll)).1
          (menuKey keys (pollWgetch poll))) polls with
      | waiting ui' =>
        rw [hloop] at hrest
        show polls.foldl (press keys) (press keys (some screen) poll) = some screen
        rw [hpress]
        exact hrest
      | returned ui' next rest =>
        rw [hloop] at hrest
        obtain ⟨hlen, hfold⟩ := hrest
        refine ⟨by simp only [List.length_cons]; omega, ?_⟩
        rw [List.foldl_cons, hpress]
        exact hfold
    · rw [if_neg hkey]
      exact ⟨by simp, rfl⟩

theorem displayScreen_follows (screen : Screen) (ui : Ui) (polls : List (Option Int)) :
    (displayScreen keys term screen ui polls).Follows keys screen polls := by
  cases screen with
  | info => exact (keyLoop_follows _ _ polls .info).menuDestroy
  | topology => exact (keyLoop_follows _ _ polls .topology).menuDestroy

theorem startBody_waiting {w : Start} (h : displayScreen keys term w.screen w.ui w.polls =
    .waiting ui) : startBody keys term w = .leave (.displaying w.screen ui) := by
  simp only [startBody, h]

theorem startBody_returned {w : Start} {next : Int}
    (h : displayScreen keys term w.screen w.ui w.polls = .returned ui next polls) :
    startBody keys term w =
      if next = 0 then .leave (.ended ui) else .again ⟨nextScreen w.screen next, ui, polls⟩ := by
  simp only [startBody, h]
  exact ite_not _ _ _

theorem run_startBody {n : Nat} (screen : Screen) (ui : Ui) (hn : polls.length < n) :
    ∃ shown, Loop.run (startBody keys term) n ⟨screen, ui, polls⟩ = some shown ∧
      shown.screen = polls.foldl (press keys) (some screen) := by
  induction n generalizing screen ui polls with
  | zero => omega
  | succ n ih =>
    have hfollows := @displayScreen_follows keys term screen ui polls
    cases hseen : displayScreen keys term screen ui polls with
    | waiting ui' =>
      rw [hseen] at hfollows
      exact ⟨_, Loop.run_leave (startBody_waiting hseen) n, hfollows.symm⟩
    | returned ui' next rest =>
      rw [hseen] at hfollows
      obtain ⟨hlen, hfold⟩ := hfollows
      have hbody := startBody_returned (w := ⟨screen, ui, polls⟩) hseen
      by_cases hnext : next = 0
      · rw [if_pos hnext] at hbody
        refine ⟨_, Loop.run_leave hbody n, ?_⟩
        rw [hfold, goOn, if_pos hnext, foldl_press_none]
        rfl
      · rw [if_neg hnext] at hbody
        rw [Loop.run_again hbody, hfold, goOn, if_neg hnext]
        exact ih (nextScreen screen next) ui' (by omega)

/-- The interface never stops without a reason, and after any keys it displays what they make
of the info screen. -/
theorem ncursesStart_screen (keys : Keys) (term : Terminal) (polls : List (Option Int)) :
    ∃ shown, ncursesStart keys term polls = some shown ∧
      shown.screen = polls.foldl (press keys) (some .info) :=
  run_startBody .info Ui.initial (Nat.lt_succ_self _)

end Refinement

def selects (poll : Option Int) : Option Screen :=
  if poll = some keys.f1 then some .info
  else if poll = some keys.f2 then some .topology
  else none

def selected (polls : List (Option Int)) : Screen :=
  ((polls.filterMap (selects keys)).getLast?).getD .info

def quitKey : Option Int := some (charKey 'Q')

/-- The interface ends with the key for that, and before it displays the selected screen. -/
def Right (polls : List (Option Int)) : Prop :=
  match ncursesStart keys term polls with
  | some (.ended _) => quitKey ∈ polls
  | some (.displaying screen _) => quitKey ∉ polls ∧ screen = selected keys polls
  | none => False

/-- No key has a code that is the number of another screen than the one selected, or 0. -/
def Clean (polls : List (Option Int)) : Prop :=
  ∀ before key, before ++ [some key] <+: polls → quitKey ∉ before →
    key ≠ 0 ∧ (key = 1 → selected keys before = .info) ∧
      (key = 2 → selected keys before = .topology)

section Keys

variable {keys : Keys} {term : Terminal} {polls : List (Option Int)} {screen : Screen}

theorem selected_snoc (keys : Keys) (polls : List (Option Int)) (poll : Option Int) :
    selected keys (polls ++ [poll]) = (selects keys poll).getD (selected keys polls) := by
  cases h : selects keys poll <;> simp [selected, List.filterMap_append, h]

def expected (keys : Keys) (polls : List (Option Int)) : Option Screen :=
  if quitKey ∈ polls then none else some (selected keys polls)

theorem right_iff (keys : Keys) (term : Terminal) (polls : List (Option Int)) :
    Right keys term polls ↔ polls.foldl (press keys) (some .info) = expected keys polls := by
  obtain ⟨shown, hstart, hscreen⟩ := ncursesStart_screen keys term polls
  rw [Right, hstart, ← hscreen, expected]
  cases shown with
  | ended ui =>
    by_cases hquit : quitKey ∈ polls
    · simp [Shown.screen, hquit]
    · simp [Shown.screen, hquit]
  | displaying screen ui =>
    by_cases hquit : quitKey ∈ polls
    · simp [Shown.screen, hquit]
    · simp [Shown.screen, hquit]

theorem Keys.code (keys : Keys) : 0xff < keys.f1 ∧ 0xff < keys.f2 ∧ 0xff < keys.f12 ∧
    keys.f1 ≠ keys.f2 ∧ keys.f1 ≠ keys.f12 ∧ keys.f2 ≠ keys.f12 := by
  have habove := keys.above
  have hdistinct := keys.distinct
  simp only [List.forall_mem_cons] at habove
  simp only [List.nodup_cons, List.mem_cons, not_or] at hdistinct
  tauto

theorem charKey_Q : charKey 'Q' = 81 := by decide

theorem charKey_q : charKey 'q' = 113 := by decide

theorem menuKey_f1 (keys : Keys) : menuKey keys keys.f1 = 1 := by simp [menuKey, menuEvent]

theorem menuKey_f2 (keys : Keys) : menuKey keys keys.f2 = 2 := by
  have hne := keys.code.2.2.2.1
  simp [menuKey, menuEvent, hne.symm]

theorem menuKey_Q (keys : Keys) : menuKey keys 81 = 0 := by
  obtain ⟨h1, h2, h12, -⟩ := keys.code
  have hne : (81 : Int) ≠ keys.f1 ∧ (81 : Int) ≠ keys.f2 ∧ (81 : Int) ≠ keys.f12 := by omega
  simp [menuKey, menuEvent, hne, charKey_q, charKey_Q]

theorem menuKey_other {key : Int} (h1 : key ≠ keys.f1) (h2 : key ≠ keys.f2) (hq : key ≠ 81) :
    menuKey keys key = key := by
  simp only [menuKey, menuEvent, h1, h2, charKey_Q, hq, if_false]
  split
  · rfl
  split <;> rfl

theorem press_eq_iff (screen : Screen) (key : Int) :
    press keys (some screen) (some key) =
        (if some key = quitKey then none else some ((selects keys (some key)).getD screen)) ↔
      key ≠ 0 ∧ (key = 1 → screen = .info) ∧ (key = 2 → screen = .topology) := by
  obtain ⟨h1, h2, -, hne, -⟩ := keys.code
  simp only [press, pollWgetch, Option.getD_some, quitKey, selects, Option.some.injEq, charKey_Q]
  by_cases hf1 : key = keys.f1
  · subst hf1
    rw [menuKey_f1, if_neg (by omega), if_pos rfl]
    exact iff_of_true rfl ⟨by omega, by omega, by omega⟩
  by_cases hf2 : key = keys.f2
  · subst hf2
    rw [menuKey_f2, if_neg (by omega), if_neg hne.symm, if_pos rfl]
    exact iff_of_true rfl ⟨by omega, by omega, by omega⟩
  by_cases hq : key = 81
  · subst hq
    rw [menuKey_Q, if_pos rfl]
    exact iff_of_true rfl ⟨by omega, by omega, by omega⟩
  rw [menuKey_other hf1 hf2 hq, if_neg hq, if_neg hf1, if_neg hf2]
  -- the code itself is taken for the next screen
  simp only [goOn, nextScreen, Option.getD_none]
  by_cases h0 : key = 0
  · simp [h0]
  by_cases hone : key = 1
  · simp [hone, eq_comm]
  by_cases htwo : key = 2
  · simp [htwo, eq_comm]
  simp [h0, hone, htwo]

theorem press_none (keys : Keys) (screen : Screen) :
    press keys (some screen) none = some screen := by
  have hkey : menuKey keys 0xff = 0xff := by
    obtain ⟨h1, h2, -⟩ := keys.code
    exact menuKey_other (by omega) (by omega) (by omega)
  simp only [press, pollWgetch, Option.getD_none, hkey]
  exact goOn_of_gt (by omega) screen

theorem expected_snoc (keys : Keys) (polls : List (Option Int)) (poll : Option Int) :
    expected keys (polls ++ [poll]) =
      if quitKey ∈ polls then none
      else if poll = quitKey then none
      else some ((selects keys poll).getD (selected keys polls)) := by
  by_cases hmem : quitKey ∈ polls
  · simp [expected, hmem]
  · by_cases hquit : poll = quitKey
    · simp [expected, hquit]
    · simp [expected, hmem, hquit, Ne.symm hquit, selected_snoc]

/-- The interface is right after all the keys that have been read, whatever sequence they are,
exactly if the sequence is clean. -/
theorem screens_iff (keys : Keys) (term : Terminal) (polls : List (Option Int)) :
    (∀ before, before <+: polls → Right keys term before) ↔ Clean keys polls := by
  simp only [right_iff]
  constructor
  · intro h before key hprefix hquit
    have hbefore := h before ((List.prefix_append before [some key]).trans hprefix)
    have hafter := h (before ++ [some key]) hprefix
    rw [List.foldl_append, List.foldl_cons, List.foldl_nil, hbefore, expected, if_neg hquit,
      expected_snoc, if_neg hquit] at hafter
    exact (press_eq_iff (selected keys before) key).mp hafter
  · intro hclean before
    induction before using List.reverseRecOn with
    | nil => exact fun _ => rfl
    | append_singleton before poll ih =>
      intro hprefix
      have hbefore := ih ((List.prefix_append before [poll]).trans hprefix)
      rw [List.foldl_append, List.foldl_cons, List.foldl_nil, hbefore, expected, expected_snoc]
      by_cases hquit : quitKey ∈ before
      · rw [if_pos hquit, if_pos hquit]
        rfl
      · rw [if_neg hquit, if_neg hquit]
        cases poll with
        | none =>
          rw [press_none]
          rfl
        | some key => exact (press_eq_iff _ key).mpr (hclean before key hprefix hquit)

end Keys

theorem ncurses_distinct : ([265, 266, 276, 258, 259, 338, 339] : List Int).Nodup := by decide

theorem ncurses_above : ∀ k ∈ ([265, 266, 276, 258, 259, 338, 339] : List Int), 0xff < k := by
  decide

def Keys.ncurses : Keys where
  f1 := 265
  f2 := 266
  f12 := 276
  down := 258
  up := 259
  npage := 338
  ppage := 339
  distinct := ncurses_distinct
  above := ncurses_above

/-- `^@` ends the interface, and `^A` goes back from the topology screen. -/
theorem not_right_control :
    ¬ Right Keys.ncurses ⟨24, 80⟩ [some 0] ∧
      ¬ Right Keys.ncurses ⟨24, 80⟩ [some Keys.ncurses.f2, some 1] := by
  simp only [right_iff]
  decide

/-- The window exists and shows lines of its pad, and what `ui_msg` is given is shown as it is. -/
structure Ui.Inv (ui : Ui) : Prop where
  wSys : ∃ win, ui.wSys = some win ∧ win.Inv
  posted : ∀ text ∈ ui.posted, ∀ b ∈ text, b ≠ Format.percent ∧ b ≠ 0

def Seen.ui : Seen → Ui
  | waiting ui => ui
  | returned ui _ _ => ui

def Shown.ui : Shown → Ui
  | displaying _ ui => ui
  | ended ui => ui

section Windows

variable {keys : Keys} {term : Terminal} {ui : Ui}

theorem Ui.Inv.userMsg (h : ui.Inv) {text : List UInt8}
    (htext : ∀ b ∈ text, b ≠ Format.percent ∧ b ≠ 0) : (ui.userMsg text).Inv where
  wSys := h.wSys
  posted := by
    intro text' hmem
    rcases List.mem_append.mp hmem with hmem | hmem
    · exact h.posted text' hmem
    · rw [List.mem_singleton.mp hmem]
      exact htext

theorem Ui.Inv.scroll (h : ui.Inv) (delta : Int) : (ui.scroll delta).Inv where
  wSys := by
    obtain ⟨win, hwin, hinv⟩ := h.wSys
    exact ⟨lmapScroll win delta, by simp only [Ui.scroll, hwin, Option.map_some],
      hinv.lmapScroll delta⟩
  posted := h.posted

theorem Ui.Inv.menuEvent (h : ui.Inv) (key : Int) : (menuEvent keys ui key).1.Inv := by
  unfold Ncurses.menuEvent
  split
  · exact h
  split
  · exact h
  split
  · exact ⟨h.wSys, h.posted⟩
  split
  · exact h.userMsg (forall_mem_of_all (by decide +kernel))
  split <;> exact h

theorem Ui.Inv.infoKey (h : ui.Inv) (inputkey : Int) : (infoKey keys ui inputkey).Inv := by
  unfold Ncurses.infoKey
  split
  · exact h.scroll 1
  split
  · exact h.scroll (-1)
  split
  · exact h.scroll SYS_LINES
  split
  · exact h.scroll (-SYS_LINES)
  split
  · exact h.userMsg (forall_mem_of_all (by decide +kernel))
  · exact h

theorem keyLoop_inv {onKey : Ui → Int → Ui} (honKey : ∀ ui key, ui.Inv → (onKey ui key).Inv)
    (h : ui.Inv) (polls : List (Option Int)) : (keyLoop keys onKey ui polls).ui.Inv := by
  induction polls generalizing ui with
  | nil => exact h
  | cons poll polls ih =>
    have hmenu : (menuEvent keys ui (pollWgetch poll)).1.Inv := h.menuEvent (pollWgetch poll)
    have hnext := honKey _ (menuKey keys (pollWgetch poll)) hmenu
    rw [keyLoop_cons]
    split
    · exact ih hnext
    · exact hnext

theorem Seen.menuDestroy_inv {seen : Seen} (h : seen.ui.Inv) : seen.menuDestroy.ui.Inv := by
  cases seen with
  | waiting ui => exact h
  | returned ui inputkey polls => exact ⟨h.wSys, h.posted⟩

theorem fits_sys : Fits SYS_LINES 150 := ⟨by decide, by decide, by decide, by decide⟩

def Start.Inv (w : Start) : Prop := w.ui.Inv ∨ (w.screen = .info ∧ w.ui = Ui.initial)

theorem scrInfo_inv {ui : Ui} (hwin : ∀ win ∈ ui.wSys, win.Inv)
    (hposted : ∀ text ∈ ui.posted, ∀ b ∈ text, b ≠ Format.percent ∧ b ≠ 0)
    (polls : List (Option Int)) : (scrInfo keys term ui polls).ui.Inv := by
  have hcreated : (ui.wSys.getD (lmapNewscrollwin SYS_LINES term.cols
      (int32 (term.lines - SYS_LINES)) 0 150)).Inv := by
    cases hsys : ui.wSys with
    | none => exact inv_lmapNewscrollwin fits_sys _ _ _
    | some win => exact hwin win hsys
  have hkey : ∀ ui key, ui.Inv → (infoKey keys ui key).Inv := fun _ key h => h.infoKey key
  have hopened : Ui.Inv { ui with wSys := some (ui.wSys.getD (lmapNewscrollwin SYS_LINES term.cols
      (int32 (term.lines - SYS_LINES)) 0 150)) } := ⟨⟨_, rfl, hcreated⟩, hposted⟩
  exact Seen.menuDestroy_inv (keyLoop_inv hkey hopened polls)

theorem displayScreen_inv {w : Start} (h : w.Inv) :
    (displayScreen keys term w.screen w.ui w.polls).ui.Inv := by
  obtain ⟨screen, ui, polls⟩ := w
  rcases h with hinv | ⟨hscreen, hui⟩
  · cases screen with
    | info =>
      obtain ⟨win, hwin, hinvwin⟩ := hinv.wSys
      have hsome : ∀ win' ∈ ui.wSys, win'.Inv := by
        intro win' hwin'
        cases hwin.symm.trans hwin'
        exact hinvwin
      exact scrInfo_inv hsome hinv.posted polls
    | topology => exact Seen.menuDestroy_inv (keyLoop_inv (fun _ _ h => h) hinv polls)
  · simp only at hscreen hui
    subst hscreen hui
    exact scrInfo_inv (by simp [Ui.initial]) (by simp [Ui.initial]) polls

theorem startBody_inv {w : Start} (h : w.Inv) :
    match startBody keys term w with
    | .again w' => w'.Inv
    | .leave shown => shown.ui.Inv := by
  have hinv := @displayScreen_inv keys term _ h
  cases hseen : displayScreen keys term w.screen w.ui w.polls with
  | waiting ui =>
    rw [hseen] at hinv
    rw [startBody_waiting hseen]
    exact hinv
  | returned ui next polls =>
    rw [hseen] at hinv
    rw [startBody_returned hseen]
    by_cases hnext : next = 0
    · rw [if_pos hnext]
      exact hinv
    · rw [if_neg hnext]
      exact .inl hinv

/-- Whatever keys are read, the messages have a window when they are flushed, and it is one that
`lmap_drawscroller` can draw. -/
theorem ncursesStart_inv {polls : List (Option Int)} {shown : Shown}
    (h : ncursesStart keys term polls = some shown) : shown.ui.Inv := by
  have hagain : ∀ w w' : Start, w.Inv → startBody keys term w = .again w' → w'.Inv := by
    intro w w' hw hbody
    have hinv := @startBody_inv keys term _ hw
    rwa [hbody] at hinv
  have hleave : ∀ w (shown : Shown), w.Inv → startBody keys term w = .leave shown →
      shown.ui.Inv := by
    intro w shown hw hbody
    have hinv := @startBody_inv keys term _ hw
    rwa [hbody] at hinv
  exact Loop.run_invariant (Q := fun shown : Shown => shown.ui.Inv) hagain hleave
    (.inr ⟨rfl, rfl⟩) h

end Windows

end Ncurses
end Lmap
