import Lmap.Inet
import Lmap.Library.AddressGrammar
import Lmap.Wire

/-!
The name server, which is looked for in the file of the resolver: a line of it is cut into
words by `strtok`, and the second one is read by `inet_pton`.
-/

set_option autoImplicit false

namespace Lmap
open CString AddressGrammar

/-- `sizeof (line) - 1`. -/
def RESOLV_LINE : Nat := 1023

def space : UInt8 := 32

def newline : UInt8 := 10

/-- `inet_pton (AF_INET, p, &ina)`: a text that is no address leaves `ina` as it is. -/
def inetPton (p ina : List UInt8) : List UInt8 × Int :=
  match readDotted p with
  | some address => (address, 1)
  | none => (ina, 0)

/-- The loop, over the texts that `fgets` reads. `ina` is what the variable has in it. -/
def dnsLoop (ina dnsAddr : List UInt8) : List (List UInt8) → Except Fault (List UInt8 × Int)
  | [] => .ok (dnsAddr, ENOTFOUND)
  | line :: lines =>
    match strtok [space] (cstr line) with
    -- `strcmp` is called with `NULL`
    | none => .error .outOfRange
    | some (p, rest) =>
      if p = lit "nameserver" then
        match strtok [newline] rest with
        -- and here `inet_pton`
        | none => .error .outOfRange
        | some (p, _) => .ok ((inetPton p ina).1, ESUCCESS)
      else dnsLoop ina dnsAddr lines

/-- `RESOLV_FILE`, which is `none` if it cannot be opened, what is in `ina`, and the bytes of
`*dns_addr`. -/
def getDefaultDns (file : Option (List UInt8)) (ina dnsAddr : List UInt8) :
    Except Fault (List UInt8 × Int) :=
  match file with
  | none => .ok (dnsAddr, EINVALID)
  | some file => dnsLoop ina dnsAddr (reads RESOLV_LINE file)

def isBlank (c : UInt8) : Bool := c = space ∨ c = 9

/-- The address in a line that is made up of the word, blanks and a dotted address. -/
def nameserver (line : List UInt8) : Option (List UInt8) :=
  let s := line.takeWhile fun c => c ≠ newline
  let rest := s.drop (lit "nameserver").length
  if s.take (lit "nameserver").length = lit "nameserver" ∧ rest.takeWhile isBlank ≠ [] then
    readDotted (rest.dropWhile isBlank)
  else none

/-- The function returns whatever the file is, with success if there is such a line, and then
with the address of the first one. -/
def Honest (file : List UInt8) : Prop :=
  ∀ ina dnsAddr : Octets 4, ∃ address rc,
    getDefaultDns (some file) ina.val dnsAddr.val = .ok (address, rc) ∧
      (rc = ESUCCESS ↔ ∃ line ∈ lines file, (nameserver line).isSome) ∧
      (rc = ESUCCESS → (lines file).findSome? nameserver = some address)

def unspaced (text : List UInt8) : List UInt8 := (cstr text).dropWhile fun c => c = space

def firstWord (text : List UInt8) : List UInt8 := (unspaced text).takeWhile fun c => c ≠ space

def PassedOver (text : List UInt8) : Prop :=
  firstWord text ≠ [] ∧ firstWord text ≠ lit "nameserver"

instance (text : List UInt8) : Decidable (PassedOver text) :=
  inferInstanceAs (Decidable (_ ∧ _))

def readNameserver (text : List UInt8) : Option (List UInt8) :=
  if firstWord text = lit "nameserver" then
    readDotted ((((unspaced text).dropWhile fun c => c ≠ space).tail.dropWhile
      fun c => c = newline).takeWhile fun c => c ≠ newline)
  else none

/-- The first text that is not passed over has the address of the first line that has one; or
all are, and no line has one. -/
def FirstReadable (file : List UInt8) : Prop :=
  match (reads RESOLV_LINE file).find? fun text => ¬ PassedOver text with
  | none => ∀ line ∈ lines file, nameserver line = none
  | some text =>
    (readNameserver text).isSome ∧ (lines file).findSome? nameserver = readNameserver text

variable {text : List UInt8}

theorem strtok_singleton (delim : UInt8) (s : List UInt8) :
    strtok [delim] s =
      if s.dropWhile (fun c => c = delim) = [] then none
      else some ((s.dropWhile fun c => c = delim).takeWhile fun c => c ≠ delim,
        ((s.dropWhile fun c => c = delim).dropWhile fun c => c ≠ delim).tail) := by
  simp [strtok]

theorem strtok_first (text : List UInt8) :
    strtok [space] (cstr text) =
      if unspaced text = [] then none
      else some (firstWord text, ((unspaced text).dropWhile fun c => c ≠ space).tail) :=
  strtok_singleton _ _

theorem firstWord_eq_nil : firstWord text = [] ↔ unspaced text = [] := by
  refine ⟨fun h => ?_, fun h => by rw [firstWord, h]; rfl⟩
  by_contra hne
  obtain ⟨c, s, hcons⟩ := List.exists_cons_of_ne_nil hne
  have hc : c ≠ space := by
    have hhead := List.head?_dropWhile_not (fun c => decide (c = space)) (cstr text)
    rw [← unspaced, hcons] at hhead
    simpa using hhead
  rw [firstWord, hcons, List.takeWhile_cons_of_pos (by simpa using hc)] at h
  cases h

theorem dnsLoop_passedOver (ina dnsAddr : List UInt8) (texts : List (List UInt8))
    (h : PassedOver text) :
    dnsLoop ina dnsAddr (text :: texts) = dnsLoop ina dnsAddr texts := by
  obtain ⟨hword, hother⟩ := h
  have hne : unspaced text ≠ [] := fun h => hword (firstWord_eq_nil.mpr h)
  simp only [dnsLoop, strtok_first, if_neg hne, if_neg hother]

theorem dnsLoop_stop (ina dnsAddr : List UInt8) (texts : List (List UInt8))
    (h : ¬ PassedOver text) :
    (∃ address, readNameserver text = some address ∧
      dnsLoop ina dnsAddr (text :: texts) = .ok (address, ESUCCESS)) ∨
    (readNameserver text = none ∧ (dnsLoop ina dnsAddr (text :: texts) = .error .outOfRange ∨
      dnsLoop ina dnsAddr (text :: texts) = .ok (ina, ESUCCESS))) := by
  by_cases hnone : unspaced text = []
  · have hword : firstWord text ≠ lit "nameserver" := by
      rw [firstWord_eq_nil.mpr hnone]
      decide
    refine .inr ⟨by rw [readNameserver, if_neg hword], .inl ?_⟩
    simp only [dnsLoop, strtok_first, if_pos hnone]
  · have hword : firstWord text = lit "nameserver" := by
      by_contra hother
      exact h ⟨fun hnil => hnone (firstWord_eq_nil.mp hnil), hother⟩
    have hsecond := strtok_singleton newline ((unspaced text).dropWhile fun c => c ≠ space).tail
    simp only [dnsLoop, strtok_first, if_neg hnone, if_pos hword, hsecond, readNameserver]
    generalize (((unspaced text).dropWhile fun c => c ≠ space).tail).dropWhile
      (fun c => c = newline) = line
    by_cases hline : line = []
    · refine .inr ⟨?_, .inl ?_⟩
      · rw [hline]
        rfl
      · rw [if_pos hline]
    · rw [if_neg hline]
      cases hread : readDotted (line.takeWhile fun c => c ≠ newline) with
      | none => exact .inr ⟨rfl, .inr (by simp only [inetPton, hread])⟩
      | some address => exact .inl ⟨address, rfl, by simp only [inetPton, hread]⟩

theorem dnsLoop_append (ina dnsAddr : List UInt8) {passed : List (List UInt8)}
    (h : ∀ text ∈ passed, PassedOver text) (texts : List (List UInt8)) :
    dnsLoop ina dnsAddr (passed ++ texts) = dnsLoop ina dnsAddr texts := by
  induction passed with
  | nil => rfl
  | cons text passed ih =>
    obtain ⟨htext, hpassed⟩ := List.forall_mem_cons.mp h
    rw [List.cons_append, dnsLoop_passedOver _ _ _ htext, ih hpassed]

theorem findSome_isSome (file : List UInt8) :
    ((lines file).findSome? nameserver).isSome ↔ ∃ line ∈ lines file, (nameserver line).isSome := by
  rw [List.isSome_findSome?, List.any_eq_true]

theorem not_forall_octets (address : Option (List UInt8)) :
    ∃ ina : Octets 4, address ≠ some ina.val := by
  by_cases h : address = some [0, 0, 0, 0]
  · refine ⟨⟨[1, 0, 0, 0], rfl⟩, ?_⟩
    rw [h]
    decide
  · exact ⟨⟨[0, 0, 0, 0], rfl⟩, h⟩

theorem honest_of_passed {file : List UInt8}
    (hpassed : ∀ text ∈ reads RESOLV_LINE file, PassedOver text) :
    Honest file ↔ ∀ line ∈ lines file, nameserver line = none := by
  have hne : ENOTFOUND ≠ ESUCCESS := by decide
  have hdns : ∀ ina dnsAddr,
      getDefaultDns (some file) ina dnsAddr = .ok (dnsAddr, ENOTFOUND) := by
    intro ina dnsAddr
    have hloop := dnsLoop_append ina dnsAddr hpassed []
    rw [List.append_nil] at hloop
    exact hloop
  have hnone : (∀ line ∈ lines file, nameserver line = none) ↔
      ¬ ∃ line ∈ lines file, (nameserver line).isSome := by
    simp only [not_exists, not_and, Option.not_isSome_iff_eq_none]
  rw [hnone]
  constructor
  · intro h hsome
    obtain ⟨address, rc, hrun, hsuccess, -⟩ := h ⟨[0, 0, 0, 0], rfl⟩ ⟨[0, 0, 0, 0], rfl⟩
    rw [hdns] at hrun
    cases hrun
    exact hne (hsuccess.mpr hsome)
  · intro h ina dnsAddr
    exact ⟨dnsAddr.val, ENOTFOUND, hdns _ _, iff_of_false hne h, fun h => absurd h hne⟩

theorem honest_of_stop {file : List UInt8} {passed rest : List (List UInt8)}
    (hreads : reads RESOLV_LINE file = passed ++ text :: rest)
    (hpassed : ∀ text ∈ passed, PassedOver text) (hstop : ¬ PassedOver text) :
    Honest file ↔ (readNameserver text).isSome ∧
      (lines file).findSome? nameserver = readNameserver text := by
  have hdns : ∀ ina dnsAddr, getDefaultDns (some file) ina dnsAddr =
      dnsLoop ina dnsAddr (text :: rest) := by
    intro ina dnsAddr
    rw [getDefaultDns, hreads, dnsLoop_append _ _ hpassed]
  simp only [Honest, hdns]
  constructor
  · intro h
    obtain ⟨ina, hina⟩ := not_forall_octets ((lines file).findSome? nameserver)
    obtain ⟨address, rc, hrun, -, haddress⟩ := h ina ina
    rcases dnsLoop_stop ina.val ina.val rest hstop with ⟨read, hread, hok⟩ | ⟨-, herror | hok⟩
    · rw [hok] at hrun
      cases hrun
      exact ⟨by rw [hread]; rfl, (haddress rfl).trans hread.symm⟩
    · rw [herror] at hrun
      cases hrun
    · rw [hok] at hrun
      cases hrun
      exact absurd (haddress rfl) hina
  · rintro ⟨hsome, hfirst⟩ ina dnsAddr
    have hlines : ∃ line ∈ lines file, (nameserver line).isSome := by
      rw [← findSome_isSome, hfirst]
      exact hsome
    rcases dnsLoop_stop ina.val dnsAddr.val rest hstop with ⟨read, hread, hok⟩ | ⟨hnone, -⟩
    · exact ⟨read, ESUCCESS, hok, iff_of_true rfl hlines, fun _ => hfirst.trans hread⟩
    · rw [hnone] at hsome
      cases hsome

/-- The function is honest exactly if the first text that is not passed over has the address of
the first line that has one, or if there is neither. -/
theorem honest_iff (file : List UInt8) : Honest file ↔ FirstReadable file := by
  rw [FirstReadable]
  cases hfind : (reads RESOLV_LINE file).find? fun text => ¬ PassedOver text with
  | none => exact honest_of_passed (by simpa using List.find?_eq_none.mp hfind)
  | some text =>
    obtain ⟨hstop, passed, rest, hreads, hpassed⟩ := List.find?_eq_some_iff_append.mp hfind
    exact honest_of_stop hreads (by simpa using hpassed) (by simpa using hstop)

/-- An IPv6 name server is not read, and a last line of one space has no word. -/
theorem not_honest : ¬ Honest (lit "nameserver ::1\n") ∧ ¬ Honest (lit " ") := by
  constructor
  · intro h
    obtain ⟨address, rc, hrun, hsuccess, -⟩ := h ⟨[1, 2, 3, 4], rfl⟩ ⟨[0, 0, 0, 0], rfl⟩
    have hgarbage : getDefaultDns (some (lit "nameserver ::1\n")) [1, 2, 3, 4] [0, 0, 0, 0] =
        .ok ([1, 2, 3, 4], ESUCCESS) := by decide +kernel
    rw [hgarbage] at hrun
    cases hrun
    exact absurd (hsuccess.mp rfl) (by decide +kernel)
  · intro h
    obtain ⟨address, rc, hrun, -⟩ := h ⟨[1, 2, 3, 4], rfl⟩ ⟨[0, 0, 0, 0], rfl⟩
    have hfault : getDefaultDns (some (lit " ")) [1, 2, 3, 4] [0, 0, 0, 0] =
        .error .outOfRange := by decide +kernel
    rw [hfault] at hrun
    cases hrun

end Lmap
