import Lmap.Library.BlockSwap
import Lmap.Library.CString
import Lmap.Library.Loop
import Lmap.Machine

/-!
`getopt_long`, as the program brings it along for systems without one. It looks for the options
wherever they stand in `argv`, and puts them in front of the other elements as it goes.
-/

set_option autoImplicit false

namespace Lmap
namespace GetOpt
open BlockSwap CString

/-- The text of an element of `argv`, without its terminator. -/
abbrev Arg := List UInt8

inductive Ordering where
  | requireOrder
  | permute
  | returnInOrder
  deriving DecidableEq, Repr

inductive HasArg where
  | noArgument
  | requiredArgument
  | optionalArgument
  deriving DecidableEq, Repr

/-- `struct option`, with `NULL` for `flag`. -/
structure LongOption where
  name : List UInt8
  hasArg : HasArg
  val : Int
  deriving DecidableEq, Repr

/-- What the caller passes; without `longopts` it is `getopt`. -/
structure Caller where
  optstring : List UInt8
  longopts : Option (List LongOption)
  deriving DecidableEq, Repr

/-- The variables of the module, and the elements that `argv` points to. -/
structure State where
  argv : List Arg
  optarg : Option Arg
  optind : Nat
  optopt : Int
  nextchar : Option Arg
  initialized : Bool
  firstNonopt : Nat
  lastNonopt : Nat
  ordering : Ordering
  deriving DecidableEq, Repr

def State.argc (s : State) : Nat := s.argv.length

def State.elem (s : State) (i : Nat) : Except Fault Arg :=
  match s.argv[i]? with
  | some a => .ok a
  | none => .error .outOfRange

/-- A `char` is signed. -/
def charInt (c : UInt8) : Int := Int.bmod c.toNat 256

/-- It does not begin with `-`, or is that alone. -/
def nonoptionP : Arg → Bool
  | 45 :: _ :: _ => false
  | _ => true

structure Segments where
  argv : List Arg
  bottom : Nat
  top : Nat

def exchangeBody (middle : Nat) (w : Segments) : Loop.Step Segments (Option (List Arg)) :=
  if w.top > middle ∧ middle > w.bottom then
    if w.top - middle > middle - w.bottom then
      let len := middle - w.bottom
      match swapBlocks w.argv w.bottom (w.top - (middle - w.bottom)) len with
      | some argv => .again ⟨argv, w.bottom, w.top - len⟩
      | none => .leave none
    else
      let len := w.top - middle
      match swapBlocks w.argv w.bottom middle len with
      | some argv => .again ⟨argv, w.bottom + len, w.top⟩
      | none => .leave none
  else .leave (some w.argv)

def exchange (s : State) : Except Fault State :=
  match Loop.run (exchangeBody s.lastNonopt) (s.optind + 1) ⟨s.argv, s.firstNonopt, s.optind⟩ with
  | some (some argv) => .ok { s with
      argv := argv
      firstNonopt := s.firstNonopt + (s.optind - s.lastNonopt)
      lastNonopt := s.optind }
  | some none => .error .outOfRange
  | none => .error .hang

/-- `_getopt_initialize`, and the `optstring` that it returns. -/
def getoptInitialize (posixlyCorrect : Bool) (optstring : List UInt8) (s : State) :
    State × List UInt8 :=
  let s := { s with firstNonopt := s.optind, lastNonopt := s.optind, nextchar := none }
  match optstring with
  | 45 :: rest => ({ s with ordering := .returnInOrder }, rest)
  | 43 :: rest => ({ s with ordering := .requireOrder }, rest)
  | _ => ({ s with ordering := if posixlyCorrect then .requireOrder else .permute }, optstring)

/-- Where the caller has moved `optind` back. -/
def clamp (s : State) : State :=
  let s := { s with lastNonopt := if s.lastNonopt > s.optind then s.optind else s.lastNonopt }
  { s with firstNonopt := if s.firstNonopt > s.optind then s.optind else s.firstNonopt }

/-- The options that have been processed come in front of the non-options that were skipped
before them, and more of those are skipped. -/
def permute (s : State) : Except Fault State := do
  let s ←
    if s.firstNonopt ≠ s.lastNonopt ∧ s.lastNonopt ≠ s.optind then exchange s
    else if s.lastNonopt ≠ s.optind then pure { s with firstNonopt := s.optind }
    else pure s
  let s := { s with optind := s.optind + ((s.argv.drop s.optind).takeWhile nonoptionP).length }
  pure { s with lastNonopt := s.optind }

def dashes : Arg := [45, 45]

/-- The premature end of the options. -/
def skipDashes (s : State) : Except Fault State :=
  if s.optind = s.argc then pure s
  else do
    let a ← s.elem s.optind
    if a = dashes then
      let s := { s with optind := s.optind + 1 }
      let s ←
        if s.firstNonopt ≠ s.lastNonopt ∧ s.lastNonopt ≠ s.optind then exchange s
        else if s.firstNonopt = s.lastNonopt then pure { s with firstNonopt := s.optind }
        else pure s
      pure { s with lastNonopt := s.argc, optind := s.argc }
    else pure s

/-- The element at `optind`, with a result if that is where the call returns. -/
def nextElement (c : Caller) (s : State) : Except Fault (State × Option Int) :=
  if s.optind = s.argc then
    pure ({ s with optind := if s.firstNonopt ≠ s.lastNonopt then s.firstNonopt else s.optind },
      some (-1))
  else do
    let a ← s.elem s.optind
    if nonoptionP a then
      if s.ordering = .requireOrder then pure (s, some (-1))
      else pure ({ s with optarg := some a, optind := s.optind + 1 }, some 1)
    else
      let skipped := if c.longopts.isSome ∧ a[1]? = some 45 then 2 else 1
      pure ({ s with nextchar := some (a.drop skipped) }, none)

def advance (c : Caller) (s : State) : Except Fault (State × Option Int) := do
  let s := clamp s
  let s ← if s.ordering = .permute then permute s else pure s
  let s ← skipDashes s
  nextElement c s

structure Match where
  pfound : Option LongOption
  exact : Bool
  ambig : Bool
  deriving DecidableEq, Repr

def findLong (name : Arg) (m : Match) : List LongOption → Match
  | [] => m
  | p :: ps =>
    if name.isPrefixOf p.name then
      if name.length = p.name.length then { m with pfound := some p, exact := true }
      else
        match m.pfound with
        | none => findLong name { m with pfound := some p } ps
        | some q =>
          if q.hasArg ≠ p.hasArg ∨ q.val ≠ p.val then findLong name { m with ambig := true } ps
          else findLong name m ps
    else findLong name m ps

def question : Int := 63

def missing (optstring : List UInt8) : Int := if optstring.head? = some 58 then 58 else question

def longOption (optstring : List UInt8) (longopts : List LongOption) (s : State) :
    Except Fault (State × Int) :=
  let text := s.nextchar.getD []
  let name := text.takeWhile fun c => c ≠ 61
  let m := findLong name ⟨none, false, false⟩ longopts
  if m.ambig ∧ ¬ m.exact then
    pure ({ s with nextchar := some [], optind := s.optind + 1, optopt := 0 }, question)
  else
    match m.pfound with
    | none => pure ({ s with nextchar := some [], optind := s.optind + 1, optopt := 0 }, question)
    | some p =>
      let s := { s with optind := s.optind + 1 }
      match text.dropWhile fun c => c ≠ 61 with
      | _ :: value =>
        if p.hasArg ≠ .noArgument then
          pure ({ s with optarg := some value, nextchar := some [] }, p.val)
        else pure ({ s with nextchar := some [], optopt := p.val }, question)
      | [] =>
        if p.hasArg = .requiredArgument then
          match s.argv[s.optind]? with
          | some a =>
            pure ({ s with optarg := some a, optind := s.optind + 1, nextchar := some [] }, p.val)
          | none => pure ({ s with nextchar := some [], optopt := p.val }, missing optstring)
        else pure ({ s with nextchar := some [] }, p.val)

def colons : List UInt8 → HasArg
  | 58 :: 58 :: _ => .optionalArgument
  | 58 :: _ => .requiredArgument
  | _ => .noArgument

def shortOption (optstring : List UInt8) (s : State) : Except Fault (State × Int) :=
  match s.nextchar with
  | some (c :: rest) =>
    let s := { s with
      nextchar := some rest
      optind := if rest = [] then s.optind + 1 else s.optind }
    match optstring.dropWhile fun d => d ≠ c with
    | [] => pure ({ s with optopt := charInt c }, question)
    | _ :: temp =>
      if c = 58 then pure ({ s with optopt := charInt c }, question)
      else
        match colons temp with
        | .optionalArgument =>
          if rest ≠ [] then
            pure ({ s with optarg := some rest, optind := s.optind + 1, nextchar := none },
              charInt c)
          else pure ({ s with optarg := none, nextchar := none }, charInt c)
        | .requiredArgument =>
          if rest ≠ [] then
            pure ({ s with optarg := some rest, optind := s.optind + 1, nextchar := none },
              charInt c)
          else if s.optind = s.argc then
            pure ({ s with optopt := charInt c, nextchar := none }, missing optstring)
          else do
            let a ← s.elem s.optind
            pure ({ s with optarg := some a, optind := s.optind + 1, nextchar := none }, charInt c)
        | .noArgument => pure (s, charInt c)
  | _ => .error .outOfRange

def decode (longopts : Option (List LongOption)) (optstring : List UInt8) (s : State) :
    Except Fault (State × Int) := do
  let a ← s.elem s.optind
  match longopts with
  | some longopts =>
    if a[1]? = some 45 then longOption optstring longopts s else shortOption optstring s
  | none => shortOption optstring s

/-- With 0 for `long_only`, and an `optstring` without `W;`. -/
def getoptInternal (c : Caller) (posixlyCorrect : Bool) (s : State) :
    Except Fault (State × Int) := do
  if s.argc < 1 then pure (s, -1)
  else
    let s := { s with optarg := none }
    let (s, optstring) :=
      if s.optind = 0 ∨ ¬ s.initialized then
        let (s, optstring) := getoptInitialize posixlyCorrect c.optstring
          { s with optind := if s.optind = 0 then 1 else s.optind }
        ({ s with initialized := true }, optstring)
      else (s, c.optstring)
    let (s, r) ←
      if s.nextchar.getD [] = [] then advance c s else pure (s, none)
    match r with
    | some r => pure (s, r)
    | none => decode c.longopts optstring s

/-- A caller's loop: what each call returns, with the `optarg` it leaves, up to `EOF`. -/
def readAll (c : Caller) (posixlyCorrect : Bool) :
    Nat → State → Except Fault (List (Int × Option Arg) × State)
  | 0, _ => .error .hang
  | n + 1, s => do
    let (s, r) ← getoptInternal c posixlyCorrect s
    if r = -1 then pure ([], s)
    else
      let (events, last) ← readAll c posixlyCorrect n s
      pure ((r, s.optarg) :: events, last)

section Exchange

variable {front xs ys back : List Arg} {s : State}

/-- The shorter segment comes to where it belongs, and the rest of the longer one is left to be
exchanged with what has come to its end. -/
theorem run_exchangeBody {n : Nat} (hn : xs.length + ys.length < n) :
    Loop.run (exchangeBody (front.length + xs.length)) n
        ⟨front ++ xs ++ ys ++ back, front.length, front.length + xs.length + ys.length⟩ =
      some (some (front ++ ys ++ xs ++ back)) := by
  induction n generalizing front xs ys back with
  | zero => omega
  | succ n ih =>
    by_cases hxs : xs = []
    · subst hxs
      exact Loop.run_leave (by simp [exchangeBody]) n
    by_cases hys : ys = []
    · subst hys
      exact Loop.run_leave (by simp [exchangeBody]) n
    have hxs' := List.length_pos_iff.mpr hxs
    have hys' := List.length_pos_iff.mpr hys
    have hgo : front.length + xs.length + ys.length > front.length + xs.length ∧
        front.length + xs.length > front.length := by omega
    have hx : front.length + xs.length - front.length = xs.length := by omega
    have hy : front.length + xs.length + ys.length - (front.length + xs.length) = ys.length := by
      omega
    by_cases hshort : ys.length > xs.length
    · -- the bottom segment trades places with the end of the top segment
      obtain ⟨zs, ts, rfl, hts⟩ : ∃ zs ts, ys = zs ++ ts ∧ ts.length = xs.length :=
        ⟨ys.take (ys.length - xs.length), ys.drop (ys.length - xs.length),
          (List.take_append_drop _ _).symm, by rw [List.length_drop]; omega⟩
      have hswap : swapBlocks (front ++ xs ++ zs ++ ts ++ back) front.length
          (front.length + xs.length + zs.length) xs.length =
            some (front ++ ts ++ zs ++ xs ++ back) := swapBlocks_append hts.symm
      have htop : front.length + xs.length + (zs ++ ts).length - xs.length =
          front.length + xs.length + zs.length := by
        rw [List.length_append]
        omega
      have hbody : exchangeBody (front.length + xs.length)
          ⟨front ++ xs ++ (zs ++ ts) ++ back, front.length,
            front.length + xs.length + (zs ++ ts).length⟩ =
          .again ⟨front ++ ts ++ zs ++ xs ++ back, front.length,
            front.length + xs.length + zs.length⟩ := by
        unfold exchangeBody
        simp only [if_pos hgo, hx, hy, if_pos hshort, htop]
        rw [← List.append_assoc (front ++ xs), hswap]
      have hrest : Loop.run (exchangeBody (front.length + ts.length)) n
          ⟨front ++ ts ++ zs ++ (xs ++ back), front.length,
            front.length + ts.length + zs.length⟩ =
              some (some (front ++ zs ++ ts ++ (xs ++ back))) :=
        ih (by rw [List.length_append] at hn; omega)
      rw [Loop.run_again hbody]
      rw [hts] at hrest
      simpa using hrest
    · -- the top segment trades places with the beginning of the bottom segment
      obtain ⟨zs, ts, rfl, hzs⟩ : ∃ zs ts, xs = zs ++ ts ∧ zs.length = ys.length :=
        ⟨xs.take ys.length, xs.drop ys.length, (List.take_append_drop _ _).symm,
          by rw [List.length_take]; omega⟩
      have hswap : swapBlocks (front ++ zs ++ ts ++ ys ++ back) front.length
          (front.length + zs.length + ts.length) zs.length =
            some (front ++ ys ++ ts ++ zs ++ back) := swapBlocks_append hzs
      have hbody : exchangeBody (front.length + (zs ++ ts).length)
          ⟨front ++ (zs ++ ts) ++ ys ++ back, front.length,
            front.length + (zs ++ ts).length + ys.length⟩ =
          .again ⟨front ++ ys ++ ts ++ zs ++ back, front.length + ys.length,
            front.length + (zs ++ ts).length + ys.length⟩ := by
        unfold exchangeBody
        simp only [if_pos hgo, hx, hy, if_neg hshort]
        rw [← hzs, List.length_append, ← Nat.add_assoc, ← List.append_assoc front, hswap]
      have hrest : Loop.run (exchangeBody ((front ++ ys).length + ts.length)) n
          ⟨front ++ ys ++ ts ++ zs ++ back, (front ++ ys).length,
            (front ++ ys).length + ts.length + zs.length⟩ =
              some (some (front ++ ys ++ zs ++ ts ++ back)) :=
        ih (by rw [List.length_append] at hn; omega)
      have hmiddle : (front ++ ys).length + ts.length = front.length + (zs ++ ts).length := by
        simp only [List.length_append]
        omega
      have htop : (front ++ ys).length + ts.length + zs.length =
          front.length + (zs ++ ts).length + ys.length := by
        simp only [List.length_append]
        omega
      rw [Loop.run_again hbody]
      rw [htop, hmiddle, List.length_append] at hrest
      simpa using hrest

theorem exchange_eq (hargv : s.argv = front ++ xs ++ ys ++ back)
    (hfirst : s.firstNonopt = front.length) (hlast : s.lastNonopt = front.length + xs.length)
    (hind : s.optind = front.length + xs.length + ys.length) :
    exchange s = .ok { s with
      argv := front ++ ys ++ xs ++ back
      firstNonopt := front.length + ys.length
      lastNonopt := front.length + ys.length + xs.length } := by
  have hrun : Loop.run (exchangeBody (front.length + xs.length)) (s.optind + 1)
      ⟨front ++ xs ++ ys ++ back, front.length, front.length + xs.length + ys.length⟩ =
        some (some (front ++ ys ++ xs ++ back)) := run_exchangeBody (by omega)
  have hmoved : s.firstNonopt + (s.optind - s.lastNonopt) = front.length + ys.length := by omega
  have hend : s.optind = front.length + ys.length + xs.length := by omega
  rw [← hind, ← hlast, ← hfirst, ← hargv] at hrun
  simp only [exchange, hrun, hmoved, ← hend]

theorem append_of_le (l : List Arg) {i j : Nat} (h : i ≤ j) :
    l.take i ++ (l.take j).drop i = l.take j := by
  have hsplit := List.take_append_drop i (l.take j)
  rwa [List.take_take, Nat.min_eq_left h] at hsplit

/-- Whatever the two segments are, they trade places in `argv`, each in its own order; nothing
else moves, and no element outside them is touched. -/
theorem exchange_rotates (hfirst : s.firstNonopt ≤ s.lastNonopt) (hlast : s.lastNonopt ≤ s.optind)
    (hind : s.optind ≤ s.argc) :
    exchange s = .ok { s with
      argv := s.argv.take s.firstNonopt ++ (s.argv.take s.optind).drop s.lastNonopt ++
        (s.argv.take s.lastNonopt).drop s.firstNonopt ++ s.argv.drop s.optind
      firstNonopt := s.firstNonopt + (s.optind - s.lastNonopt)
      lastNonopt := s.optind } := by
  unfold State.argc at hind
  have hfront : (s.argv.take s.firstNonopt).length = s.firstNonopt := by
    rw [List.length_take]
    omega
  have hxs : ((s.argv.take s.lastNonopt).drop s.firstNonopt).length =
      s.lastNonopt - s.firstNonopt := by
    rw [List.length_drop, List.length_take]
    omega
  have hys : ((s.argv.take s.optind).drop s.lastNonopt).length = s.optind - s.lastNonopt := by
    rw [List.length_drop, List.length_take]
    omega
  have hargv : s.argv = s.argv.take s.firstNonopt ++
      (s.argv.take s.lastNonopt).drop s.firstNonopt ++
      (s.argv.take s.optind).drop s.lastNonopt ++ s.argv.drop s.optind := by
    rw [append_of_le _ hfirst, append_of_le _ hlast, List.take_append_drop]
  have heq := exchange_eq hargv hfront.symm (by omega) (by omega)
  rw [heq, hfront, hxs, hys]
  congr 2
  omega

/-- `lmap a b -w -i eth0 c`, after `-i`. -/
def midway : State where
  argv := [lit "lmap", lit "a", lit "b", lit "-w", lit "-i", lit "eth0", lit "c"]
  optarg := some (lit "eth0")
  optind := 6
  optopt := 0
  nextchar := none
  initialized := true
  firstNonopt := 1
  lastNonopt := 3
  ordering := .permute

theorem exchange_rotates_midway : exchange midway = .ok { midway with
    argv := [lit "lmap", lit "-w", lit "-i", lit "eth0", lit "a", lit "b", lit "c"]
    firstNonopt := 4
    lastNonopt := 6 } :=
  exchange_rotates (by decide) (by decide) (by decide)

end Exchange

end GetOpt
end Lmap
