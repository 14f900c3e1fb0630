import Lmap.Library.Transition

/-!
How the program ends, wherever it is: at the end of `main`, at an error of either thread, or at a
signal. What was given to `atexit` is called then, and the terminal has to be given back. A window
that is refreshed after that takes it again.

Each function is the list of what it does to all this, in order: of a branch that need not be taken
the longer side, and of a loop of checks one check. `debug` says whether `DEBUG` is defined.
-/

set_option autoImplicit false

namespace Lmap
namespace Shutdown

inductive Stop where
  | disabled
  deriving DecidableEq, Repr

inductive Handler where
  | globalsFree | debugClose | ncursesCleanup | captureClose | discardMacdb | fingerprintDiscard
  deriving DecidableEq, Repr

/-- The signals that end the program. -/
inductive Signal where
  | INT | TERM | SEGV
  /-- Any other, which has its default action: `QUIT` and `HUP`, or `KILL`. -/
  | other
  deriving DecidableEq, Repr

/-- A fault ends the program where `SEGV` is blocked, and `KILL` always does. -/
def Signal.blockable : Signal → Bool
  | .INT | .TERM => true
  | .SEGV | .other => false

inductive Who where
  | main | capture
  deriving DecidableEq, Repr

inductive Failure where
  | errorMsg
  | exit
  deriving DecidableEq, Repr

inductive Op where
  | debugMsg
  | openLog
  | check (f : Failure)
  | atexit (h : Handler)
  | sigaction (sig : Signal)
  | ignore (sig : Signal)
  | default (sig : Signal)
  | raise (sig : Signal)
  | initscr
  | setOnscreen (b : Bool)
  /-- `wrefresh` or `doupdate`. -/
  | refresh
  /-- The same where there is something new to show. -/
  | redraw
  | endwin
  | uiCleanup
  | ncursesCleanup
  | threadNew
  | cancel
  | join
  | screens
  | pcapLoop
  | exit
  deriving DecidableEq, Repr

def errorMsg : List Op := [.uiCleanup, .exit]

/-- `ui.cleanup` has been set before `main`. -/
def uiCleanup : List Op := [.debugMsg, .ncursesCleanup]

/-- Past the test. -/
def ncursesCleanup : List Op := [.debugMsg, .setOnscreen false, .refresh, .endwin, .debugMsg]

def signalTerm (sig : Signal) : List Op := [.uiCleanup, .debugMsg, .ignore sig, .exit]

def signalSegv (debug : Bool) (sig : Signal) : List Op :=
  if debug then [.uiCleanup, .debugMsg, .default sig, .raise sig] else [.uiCleanup, .exit]

def Signal.handler (debug : Bool) : Signal → List Op
  | .SEGV => signalSegv debug .SEGV
  | sig => signalTerm sig

def Failure.call : Failure → List Op
  | .errorMsg => Shutdown.errorMsg
  | .exit => [.exit]

/-- The message of `globals_free` is that of `free_stats`. -/
def Handler.body : Handler → List Op
  | .debugClose => []
  | .ncursesCleanup => [.ncursesCleanup]
  | .globalsFree | .captureClose | .discardMacdb | .fingerprintDiscard => [.debugMsg]

def uiMsg : List Op := [.check .errorMsg]

def globalsAlloc : List Op :=
  [.check .errorMsg, .check .errorMsg, .check .errorMsg, .check .errorMsg, .atexit .globalsFree]

def debugInit (debug : Bool) : List Op :=
  if debug then [.check .errorMsg, .openLog, .atexit .debugClose] else []

def lmapThreadRegister : List Op := [.debugMsg, .check .errorMsg]

def signalHandler : List Op :=
  [.debugMsg, .check .errorMsg, .sigaction .SEGV, .check .errorMsg, .sigaction .INT,
    .check .errorMsg, .sigaction .TERM]

def parseOptions : List Op := [.debugMsg, .check .exit, .check .exit]

/-- `initscr` exits by itself if it has no terminal. -/
def ncursesInit : List Op :=
  [.debugMsg, .check .exit, .initscr, .setOnscreen true, .atexit .ncursesCleanup]

def uiInit : List Op := .debugMsg :: ncursesInit

def setL2Decoder : List Op := [.debugMsg]

def captureInit : List Op :=
  [.check .errorMsg, .debugMsg] ++ uiMsg ++ [.check .errorMsg] ++ setL2Decoder ++
    [.check .exit, .atexit .captureClose]

/-- Where the file is not the installed one. -/
def openData : List Op :=
  [.check .errorMsg, .debugMsg, .debugMsg, .check .errorMsg, .debugMsg, .debugMsg,
    .check .errorMsg]

def manufInit : List Op := openData ++ [.check .errorMsg, .debugMsg, .atexit .discardMacdb]

def fingerprintInit : List Op :=
  openData ++ [.check .errorMsg, .debugMsg, .atexit .fingerprintDiscard]

def lmapThreadNew : List Op :=
  [.debugMsg, .check .errorMsg, .threadNew] ++ lmapThreadRegister ++ [.debugMsg]

def uiStart : List Op := [.debugMsg, .debugMsg, .screens]

/-- What the screens can do each time round: among the rest, `menu_refresh`, `wgetch` and
`ncurses_msg` refresh a window. -/
def screen : List Op := [.debugMsg, .check .errorMsg, .redraw]

def lmapThreadDestroy : List Op := [.debugMsg, .cancel, .join]

def lmapThreadKillAll : List Op := .debugMsg :: lmapThreadDestroy

def main (debug : Bool) : List Op :=
  globalsAlloc ++ [.check .errorMsg] ++ debugInit debug ++ [.debugMsg] ++ lmapThreadRegister ++
    signalHandler ++ parseOptions ++ uiInit ++ captureInit ++ manufInit ++ fingerprintInit ++
    lmapThreadNew ++ lmapThreadRegister ++ uiStart ++ lmapThreadKillAll ++ [.uiCleanup, .exit]

def lmapDecode : List Op := uiMsg ++ [.check .errorMsg, .debugMsg] ++ uiMsg

def lmapThreadInit : List Op := [.debugMsg]

def capture : List Op := .debugMsg :: lmapThreadInit ++ [.pcapLoop]

structure State where
  code : Who → Option (List Op)
  /-- What a thread left undone when it went to an end of the program, or was cancelled. -/
  left : List (List Op)
  logOpen : Bool
  handlers : List Handler
  onscreen : Bool
  /-- The terminal is in the hands of ncurses. -/
  curses : Bool
  installed : List Signal
  ignored : List Signal
  /-- In a handler, where all signals are blocked. -/
  blocked : Who → Bool
  cancelled : Bool
  ended : Bool
  killed : Option Signal

def State.start (debug : Bool) : State where
  code := Function.update (fun _ => none) .main (some (main debug))
  left := []
  logOpen := false
  handlers := []
  onscreen := false
  curses := false
  installed := []
  ignored := []
  blocked _ := false
  cancelled := false
  ended := false
  killed := none

inductive Action where
  /-- The thread goes on. If `ans`, a check or a call fails, there is something new to show, or a
  loop goes round once more. -/
  | go (w : Who) (ans : Bool)
  | signal (sig : Signal) (w : Who)
  | cancelled
  deriving DecidableEq, Repr

def State.goOn (s : State) (w : Who) (code : List Op) : State :=
  { s with code := Function.update s.code w (some code) }

def State.leave (s : State) (w : Who) (code : List Op) : State :=
  { s with
    left := (s.code w).toList ++ s.left
    code := Function.update s.code w (some code) }

/-- `DEBUG_MSG` before the log is open is a `FATAL_MSG`. -/
def State.debugMsg (debug : Bool) (s : State) (w : Who) (rest : List Op) : State :=
  if debug ∧ s.logOpen = false then s.leave w [.exit] else s.goOn w rest

def State.kill (s : State) (sig : Signal) : State := { s with ended := true, killed := some sig }

/-- The functions of `atexit` are taken off one at a time, by every thread that is in `exit`. -/
def State.exit (s : State) (w : Who) (rest : List Op) : State :=
  match s.handlers with
  | [] => { s with ended := true }
  | h :: handlers => { s.goOn w (h.body ++ .exit :: rest) with handlers := handlers }

def State.go (debug : Bool) (s : State) (w : Who) (rest : List Op) (ans : Bool) :
    Op → Except Stop State
  | .debugMsg => pure (s.debugMsg debug w rest)
  | .openLog => pure { s.goOn w rest with logOpen := true }
  | .check f => pure (if ans then s.leave w f.call else s.goOn w rest)
  | .atexit h => pure { s.goOn w rest with handlers := h :: s.handlers }
  | .sigaction sig => pure { s.goOn w rest with installed := sig :: s.installed }
  | .ignore sig => pure { s.goOn w rest with ignored := sig :: s.ignored }
  | .default sig => pure { s.goOn w rest with installed := s.installed.filter (· ≠ sig) }
  -- blocked until the handler returns, which is next
  | .raise sig => pure (s.kill sig)
  | .initscr => pure { s.goOn w rest with curses := true }
  | .refresh => pure { s.goOn w rest with curses := true }
  | .redraw => pure (s.goOn w (if ans then .refresh :: rest else rest))
  | .setOnscreen b => pure { s.goOn w rest with onscreen := b }
  | .endwin => pure { s.goOn w rest with curses := false }
  | .uiCleanup => pure (s.goOn w (uiCleanup ++ rest))
  | .ncursesCleanup => pure (s.goOn w (if s.onscreen then ncursesCleanup ++ rest else rest))
  | .threadNew =>
    -- `pthread_create` can fail without a negative result
    if ans then pure (s.goOn w rest)
    else if (s.code .capture).isNone then pure ((s.goOn w rest).goOn .capture capture)
    else .error .disabled
  | .cancel => pure { s.goOn w rest with cancelled := true }
  | .join => if (s.code .capture).isNone then pure (s.goOn w rest) else .error .disabled
  | .screens => pure (s.goOn w (if ans then screen ++ .screens :: rest else rest))
  | .pcapLoop => pure (s.goOn w (if ans then lmapDecode ++ .pcapLoop :: rest else rest))
  | .exit => pure (s.exit w rest)

/-- A signal without a handler ends the program at once. -/
def step (debug : Bool) (s : State) (a : Action) : Except Stop State :=
  if s.ended then .error .disabled
  else
    match a with
    | .go w ans =>
      match s.code w with
      | none => .error .disabled
      | some [] => pure { s with code := Function.update s.code w none }
      | some (op :: rest) => s.go debug w rest ans op
    | .signal sig w =>
      if (s.code w).isNone ∨ sig ∈ s.ignored ∨ s.blocked w ∧ sig.blockable then .error .disabled
      else if sig ∈ s.installed ∧ s.blocked w = false then
        pure { s.leave w (sig.handler debug) with blocked := Function.update s.blocked w true }
      else pure (s.kill sig)
    | .cancelled =>
      if s.cancelled ∧ (s.code .capture).isSome then
        pure { s with
          left := (s.code .capture).toList ++ s.left
          code := Function.update s.code .capture none }
      else .error .disabled

end Shutdown
end Lmap
