import Lmap.Library.Format
import Lmap.UiFlush
import Lmap.UiMsg

/-!
The handlers of the messages: the hook that is there from the start and the one of the ncurses
interface. Both give the message to a function that takes it for a format.
-/

set_option autoImplicit false

namespace Lmap
namespace Ui
open CString Format

abbrev Pad := List UInt8

/-- A call without arguments. `none` where the format leaves open what happens. -/
def wprintw (win : Pad) (fmt : List UInt8) : Option Pad := print win fmt

/-- What has been printed, with another call of `printf`. -/
def printf (stdout fmt : List UInt8) : Option (List UInt8) := print stdout fmt

/-- `wSys` is `none` as long as the window does not exist. -/
def ncursesMsg (wSys : Option Pad) (msg : Message) : Option (Option Pad) :=
  match wSys with
  | none => some none
  | some win => do
    let win ← wprintw win (lit "\n")
    let win ← wprintw win msg
    pure (some win)

/-- What `ui.msg` can be: the default, and what `ncurses_register` makes it. -/
inductive Hook where
  | printf
  | ncurses
  deriving DecidableEq, Repr

/-- The handler shows a text for a message, whatever it has shown before. -/
def Hook.Shows (text : List UInt8) (msg : Message) : Hook → Prop
  | printf => ∀ stdout, Ui.printf stdout msg = some (stdout ++ text)
  | ncurses => ∀ win, ncursesMsg (some win) msg = some (some (win ++ lit "\n" ++ text))

/-- What `ui_msg` makes of a text. -/
def Stored (c : Convention) (text : List UInt8) (msg : Message) : Prop :=
  ∃ junk, uiMsg c junk text = some (some msg)

variable {c : Convention} {text : List UInt8} {msg : Message}

theorem ncursesMsg_some (win : Pad) (msg : Message) :
    ncursesMsg (some win) msg = (wprintw (win ++ lit "\n") msg).map some := by
  have hnewline : wprintw win (lit "\n") = some (win ++ lit "\n") :=
    (print_eq_iff win).mpr (by decide)
  simp only [ncursesMsg, hnewline, Option.bind_eq_bind, Option.bind_some]
  cases wprintw (win ++ lit "\n") msg <;> rfl

theorem Hook.shows_iff (hook : Hook) : hook.Shows text msg ↔ formatted (cstr msg) = some text := by
  cases hook with
  | printf =>
    simp only [Shows, Ui.printf, print_eq_iff]
    exact forall_const _
  | ncurses =>
    have hwin : ∀ win : Pad, ncursesMsg (some win) msg = some (some (win ++ lit "\n" ++ text)) ↔
        formatted (cstr msg) = some text := by
      intro win
      rw [ncursesMsg_some, ← print_eq_iff (win ++ lit "\n")]
      simp [wprintw]
    simp only [Shows, hwin]
    exact forall_const _

theorem Stored.cstr_eq (h : Stored c text msg) : cstr msg = cstr text := by
  obtain ⟨junk, hstored⟩ := h
  obtain ⟨rest, rfl⟩ := uiMsg_stored hstored
  exact cstr_append_any text rest

theorem Stored.shows_iff (h : Stored c text msg) (hook : Hook) :
    hook.Shows text msg ↔ ∀ b ∈ text, b ≠ percent ∧ b ≠ 0 := by
  rw [hook.shows_iff, h.cstr_eq, formatted_cstr_iff]

section Run

variable {T : Type} [DecidableEq T] {s : State T}

/-- The messages are displayed in the order in which they were put in the queue. -/
theorem Reachable.displayed_prefix (h : Reachable s) : s.displayed <+: s.enqueued := by
  obtain ⟨items, hinv⟩ := h.inv
  exact ⟨_, hinv.intact.content⟩

/-- In any run, the `i`-th message that is displayed is one that `ui_msg` has stored. -/
theorem Reachable.stored {texts : List (List UInt8)} (h : Reachable s)
    (hposted : List.Forall₂ (Stored c) texts s.enqueued)
    (hmem : (text, msg) ∈ texts.zip s.displayed) : Stored c text msg := by
  obtain ⟨i, hi⟩ := List.mem_iff_getElem?.mp hmem
  obtain ⟨htext, hmsg⟩ := List.getElem?_zip_eq_some.mp hi
  have henqueued : s.enqueued[i]? = some msg := by
    obtain ⟨rest, hrest⟩ := h.displayed_prefix
    have hlt := (List.getElem?_eq_some_iff.mp hmsg).1
    rw [← hrest, List.getElem?_append_left hlt, hmsg]
  exact List.forall₂_zip hposted
    (List.mem_iff_getElem?.mpr ⟨i, List.getElem?_zip_eq_some.mpr ⟨htext, henqueued⟩⟩)

/-- The text that the handler shows for a message of `ui_msg`, when that is displayed in a run of
any threads, is the text that was formatted if there is no `%` and no NUL in it, and only
then. -/
theorem shows_iff_plain (hook : Hook) {texts : List (List UInt8)} (h : Reachable s)
    (hposted : List.Forall₂ (Stored c) texts s.enqueued)
    (hmem : (text, msg) ∈ texts.zip s.displayed) :
    hook.Shows text msg ↔ ∀ b ∈ text, b ≠ percent ∧ b ≠ 0 :=
  (h.stored hposted hmem).shows_iff hook

end Run

def postAndFlush (msg : Message) : List (Action Unit) :=
  [.prepare () 1 msg, .insert (), .test () (-1), .flush ()]

def serverMsg : Message := strcpy Msg.initial.message (lit "DHCP -- server")

theorem stored_server : Stored .needed (lit "DHCP -- server") serverMsg :=
  ⟨fun _ => 0, by decide +kernel⟩

theorem shows_iff_plain_server :
    Hook.ncurses.Shows (lit "DHCP -- server") serverMsg ↔
      ∀ b ∈ lit "DHCP -- server", b ≠ percent ∧ b ≠ 0 :=
  shows_iff_plain .ncurses
    ⟨postAndFlush serverMsg, rfl⟩ (.cons stored_server .nil) (by decide)

/-- What `capture_init` says of an interface called `eth%s`. -/
def listening : List UInt8 := lit "Listening on eth%s...\n\n"

def listeningMsg : Message := strcpy Msg.initial.message listening

theorem stored_listening : Stored .needed listening listeningMsg := ⟨fun _ => 0, by decide +kernel⟩

theorem not_shows_listening :
    ∃ s, Transition.exec step (State.initial Unit) (postAndFlush listeningMsg) = .ok s ∧
      List.Forall₂ (Stored .needed) [listening] s.enqueued ∧ s.displayed = [listeningMsg] ∧
      ¬ Hook.ncurses.Shows listening listeningMsg ∧ ¬ Hook.printf.Shows listening listeningMsg := by
  have hformat : formatted (cstr listeningMsg) ≠ some listening := by decide +kernel
  refine ⟨_, rfl, .cons stored_listening .nil, rfl, ?_, ?_⟩
  · exact fun h => hformat ((Hook.shows_iff .ncurses).mp h)
  · exact fun h => hformat ((Hook.shows_iff .printf).mp h)

end Ui
end Lmap
