import Lmap.FingerprintTable
import Lmap.Library.Scan

/-!
The database of vendors: the loader, which scans the file line by line into chains, and the
search.
-/

set_option autoImplicit false

namespace Lmap
namespace Manuf
open CString Scan

def TABBIT : Nat := 10
def TABSIZE : Nat := 2 ^ TABBIT

def LINE_LEN : Nat := 80

/-- `"%02X:%02X:%02X %80[^,\\n],\\n"`. -/
def format : List Directive :=
  [.hex 2, .byte 58, .hex 2, .byte 58, .hex 2, .space, .except 80 [44, 10], .byte 44, .space]

structure Entry where
  mac : Nat
  vendor : List UInt8
  deriving DecidableEq, Repr

abbrev Head := Nat → List Entry

/-- `*(int *)`, as an `unsigned int`. -/
def loadInt (h : Host) : List UInt8 → Nat
  | [a, b, c, d] =>
    if h.bigEndian then ((a.toNat * 256 + b.toNat) * 256 + c.toNat) * 256 + d.toNat
    else ((d.toNat * 256 + c.toNat) * 256 + b.toNat) * 256 + a.toNat
  | _ => 0

def macBytes (m1 m2 m3 : UInt8) : List UInt8 := [m1, m2, m3, 0]

/-- The conversion of an `int` to `char`, as a byte. -/
def toChar (m : Int) : UInt8 := UInt8.ofNat (m % 256).toNat

def chain (longBits : Nat) (mac : List UInt8) : Nat := fnv32 longBits mac % TABSIZE

structure Load where
  file : List UInt8
  head : Head
  i : Int

def loadEntry (h : Host) (longBits : Nat) (w : Load) (mac name : List UInt8) : Load :=
  let c := chain longBits mac
  { w with
    head := Function.update w.head c (⟨loadInt h mac, name⟩ :: w.head c)
    i := int32 (w.i + 1) }

def loadLine (h : Host) (longBits : Nat) (w : Load) (line : List UInt8) : Load :=
  let r := scan format (cstr line)
  if returned r ≠ 4 then w
  else
    match r.1 with
    | [.int m1, .int m2, .int m3, .text name] =>
      loadEntry h longBits w (macBytes (toChar m1) (toChar m2) (toChar m3)) name
    -- the format assigns three numbers and a name
    | _ => w

def loadBody (h : Host) (longBits : Nat) (w : Load) : Loop.Step Load Load :=
  match fgets LINE_LEN w.file with
  | some (line, rest) => .again (loadLine h longBits { w with file := rest } line)
  | none => .leave w

/-- No more lines can be read than there are bytes. -/
def manufInit (h : Host) (longBits : Nat) (file : List UInt8) : Option Load :=
  Loop.run (loadBody h longBits) (file.length + 1) ⟨file, fun _ => [], 0⟩

def manufSearch (h : Host) (longBits : Nat) (head : Head) (m : Fin 6 → UInt8) :
    Option (List UInt8) :=
  let mac := macBytes (m 0) (m 1) (m 2)
  ((head (chain longBits mac)).find? fun l => l.mac = loadInt h mac).map Entry.vendor

abbrev Prefix := UInt8 × UInt8 × UInt8

def octet (s : List UInt8) : Option (UInt8 × List UInt8) :=
  (hexSigned 2 (s.dropWhile isSpace)).map fun r => (toChar r.1, r.2)

def colon : List UInt8 → Option (List UInt8)
  | 58 :: s => some s
  | _ => none

def address (s : List UInt8) : Option (Prefix × List UInt8) := do
  let (a, s) ← octet s
  let s ← colon s
  let (b, s) ← octet s
  let s ← colon s
  let (c, s) ← octet s
  pure ((a, b, c), s)

/-- From the first byte that is not white space up to a comma or a newline. -/
def vendor (s : List UInt8) : List UInt8 :=
  (s.dropWhile isSpace).takeWhile fun c => c ≠ 44 ∧ c ≠ 10

/-- The entry a line stands for, if it is accepted. -/
def lineEntry (line : List UInt8) : Option (Prefix × List UInt8) := do
  let (p, s) ← address (cstr line)
  if vendor s = [] then none else pure (p, vendor s)

def associations (file : List UInt8) : List (Prefix × List UInt8) :=
  (lines file).filterMap lineEntry

variable {s : List UInt8} {h : Host} {longBits : Nat}

theorem scan_colon (ds : List Directive) (s : List UInt8) : (scan (.byte 58 :: ds) s).1 =
    match colon s with
    | none => []
    | some rest => (scan ds rest).1 := by
  cases s with
  | nil => rfl
  | cons c s =>
    by_cases hc : c = 58
    · subst hc
      rfl
    · have hnone : colon (c :: s) = none := by
        unfold colon
        split
        · rename_i heq
          exact absurd (List.cons.inj heq).1 hc
        · rfl
      rw [hnone, scan, if_neg hc]

theorem scan_vendor (hs : s.length ≤ 80) :
    (scan [.space, .except 80 [44, 10], .byte 44, .space] s).1 =
      if vendor s = [] then [] else [.text (vendor s)] := by
  have hquiet : ∀ s, (scan [.byte 44, .space] s).1 = [] := by
    intro s
    cases s with
    | nil => rfl
    | cons c s =>
      simp only [scan]
      split <;> rfl
  have hlen := ((List.dropWhile_sublist isSpace).length_le).trans hs
  have htake : (s.dropWhile isSpace).take 80 = s.dropWhile isSpace := List.take_of_length_le hlen
  have hstops : (s.dropWhile isSpace).takeWhile (fun c => c ∉ [44, 10]) = vendor s := by
    simp [vendor]
  rw [scan, scan_except (by rw [htake, hstops]), hquiet]

theorem numeral_rest {v : Int} {rest : List UInt8}
    (h : hexSigned 2 (s.dropWhile isSpace) = some (v, rest)) : rest.length ≤ s.length :=
  (hexSigned_rest h).trans (List.dropWhile_sublist isSpace).length_le

theorem colon_rest {rest : List UInt8} (h : colon s = some rest) : rest.length ≤ s.length := by
  unfold colon at h
  split at h
  · cases h
    simp
  · cases h

theorem scan_format (hs : s.length ≤ 80) :
    (∃ m1 m2 m3, ∃ rest, vendor rest ≠ [] ∧
        address s = some ((toChar m1, toChar m2, toChar m3), rest) ∧
        (scan format s).1 = [.int m1, .int m2, .int m3, .text (vendor rest)]) ∨
      (scan format s).1.length ≠ 4 ∧ ∀ p rest, address s = some (p, rest) → vendor rest = [] := by
  cases h1 : hexSigned 2 (s.dropWhile isSpace) with
  | none => exact .inr ⟨by simp [format, scan_hex, h1], by simp [address, octet, h1]⟩
  | some r1 =>
  obtain ⟨m1, s1⟩ := r1
  cases h2 : colon s1 with
  | none =>
    exact .inr ⟨by simp [format, scan_hex, scan_colon, h1, h2], by simp [address, octet, h1, h2]⟩
  | some s2 =>
  cases h3 : hexSigned 2 (s2.dropWhile isSpace) with
  | none =>
    exact .inr ⟨by simp [format, scan_hex, scan_colon, h1, h2, h3],
      by simp [address, octet, h1, h2, h3]⟩
  | some r3 =>
  obtain ⟨m2, s3⟩ := r3
  cases h4 : colon s3 with
  | none =>
    exact .inr ⟨by simp [format, scan_hex, scan_colon, h1, h2, h3, h4],
      by simp [address, octet, h1, h2, h3, h4]⟩
  | some s4 =>
  cases h5 : hexSigned 2 (s4.dropWhile isSpace) with
  | none =>
    exact .inr ⟨by simp [format, scan_hex, scan_colon, h1, h2, h3, h4, h5],
      by simp [address, octet, h1, h2, h3, h4, h5]⟩
  | some r5 =>
  obtain ⟨m3, rest⟩ := r5
  have haddress : address s = some ((toChar m1, toChar m2, toChar m3), rest) := by
    simp [address, octet, h1, h2, h3, h4, h5]
  have hrest : rest.length ≤ 80 := by
    have := numeral_rest h1
    have := colon_rest h2
    have := numeral_rest h3
    have := colon_rest h4
    have := numeral_rest h5
    omega
  have hvalues : (scan format s).1 =
      .int m1 :: .int m2 :: .int m3 :: if vendor rest = [] then [] else [.text (vendor rest)] := by
    rw [format, scan_hex, h1]
    dsimp only
    rw [scan_colon, h2]
    dsimp only
    rw [scan_hex, h3]
    dsimp only
    rw [scan_colon, h4]
    dsimp only
    rw [scan_hex, h5]
    dsimp only
    rw [scan_vendor hrest]
  by_cases hv : vendor rest = []
  · refine .inr ⟨by simp [hvalues, hv], ?_⟩
    intro p rest' h
    rw [haddress] at h
    cases h
    exact hv
  · exact .inl ⟨m1, m2, m3, rest, hv, haddress, by rw [hvalues, if_neg hv]⟩

def prefixBytes (p : Prefix) : List UInt8 := macBytes p.1 p.2.1 p.2.2

def prefixHash (longBits : Nat) (p : Prefix) : Nat := chain longBits (prefixBytes p)

theorem loadInt_inj (h : Host) {p q : Prefix} :
    loadInt h (prefixBytes p) = loadInt h (prefixBytes q) ↔ p = q := by
  obtain ⟨a, b, c⟩ := p
  obtain ⟨a', b', c'⟩ := q
  have := a.toNat_lt
  have := b.toNat_lt
  have := c.toNat_lt
  have := a'.toNat_lt
  have := b'.toNat_lt
  have := c'.toNat_lt
  simp only [prefixBytes, macBytes, loadInt, Prod.mk.injEq, ← UInt8.toNat_inj]
  split <;> omega

def image (h : Host) (t : HashChain.Table Prefix (List UInt8)) : Head :=
  fun c => (t c).map fun e => ⟨loadInt h (prefixBytes e.1), e.2⟩

theorem loadEntry_image (w : Load) {t : HashChain.Table Prefix (List UInt8)}
    (ht : w.head = image h t) (p : Prefix) (name : List UInt8) :
    (loadEntry h longBits w (prefixBytes p) name).head =
      image h (HashChain.insert (prefixHash longBits) t p name) := by
  funext c
  simp only [loadEntry, image, HashChain.insert, ht, Function.update_apply]
  by_cases hc : c = prefixHash longBits p
  · have hc' : c = chain longBits (prefixBytes p) := hc
    rw [if_pos hc, if_pos hc', ← hc']
    subst hc
    rfl
  · have hc' : ¬ c = chain longBits (prefixBytes p) := hc
    rw [if_neg hc, if_neg hc']

theorem manufSearch_image (t : HashChain.Table Prefix (List UInt8)) (m : Fin 6 → UInt8) :
    manufSearch h longBits (image h t) m =
      HashChain.search (prefixHash longBits) t (m 0, m 1, m 2) := by
  have hsame : (fun e : Prefix × List UInt8 => decide
      (loadInt h (prefixBytes e.1) = loadInt h (macBytes (m 0) (m 1) (m 2)))) =
      fun e => decide (e.1 = (m 0, m 1, m 2)) := by
    funext e
    exact decide_eq_decide.mpr (@loadInt_inj h e.1 (m 0, m 1, m 2))
  simp only [manufSearch, image, HashChain.search, List.find?_map, Option.map_map]
  exact congrArg (fun found => Option.map Prod.snd (List.find? found _)) hsame

theorem loadLine_entry (w : Load) {line : List UInt8} (hline : line.length ≤ 80) :
    loadLine h longBits w line =
      match lineEntry line with
      | none => w
      | some (p, name) => loadEntry h longBits w (prefixBytes p) name := by
  have hs : (cstr line).length ≤ 80 := ((List.takeWhile_sublist _).length_le).trans hline
  have hreturned : returned (scan format (cstr line)) ≠ 4 ↔
      (scan format (cstr line)).1.length ≠ 4 :=
    not_congr (returned_eq_iff (n := 4) (by decide))
  simp only [loadLine, hreturned]
  rcases scan_format hs with ⟨m1, m2, m3, rest, hv, haddress, hvalues⟩ | ⟨hlen, hnone⟩
  · have hentry : lineEntry line = some ((toChar m1, toChar m2, toChar m3), vendor rest) := by
      simp [lineEntry, haddress, hv]
    rw [if_neg (by simp [hvalues]), hvalues, hentry]
    rfl
  · have hentry : lineEntry line = none := by
      cases ha : address (cstr line) with
      | none => simp [lineEntry, ha]
      | some r => simp [lineEntry, ha, hnone r.1 r.2 ha]
    rw [if_pos hlen, hentry]

theorem run_lines (h : Host) (longBits : Nat) (ls : List (List UInt8))
    (hfit : ∀ l ∈ ls, l.length < LINE_LEN) {n : Nat} {w : Load}
    {t : HashChain.Table Prefix (List UInt8)} {k : Nat} (hfile : lines w.file = ls)
    (hhead : w.head = image h t) (hi : w.i = int32 k) (hn : ls.length < n) :
    ∃ w', Loop.run (loadBody h longBits) n w = some w' ∧
      w'.head = image h (HashChain.load (prefixHash longBits) t (ls.filterMap lineEntry)) ∧
      w'.i = int32 ((k + (ls.filterMap lineEntry).length : Nat) : Int) := by
  induction ls generalizing n w t k with
  | nil =>
    obtain ⟨n, rfl⟩ : ∃ k, n = k + 1 := ⟨n - 1, by simp at hn; omega⟩
    have hb : loadBody h longBits w = .leave w := by
      simp [loadBody, fgets, lines_eq_nil.mp hfile]
    exact ⟨w, Loop.run_leave hb n, hhead, hi⟩
  | cons l ls ih =>
    obtain ⟨n, rfl⟩ : ∃ k, n = k + 1 := ⟨n - 1, by simp at hn; omega⟩
    have hl := hfit l (by simp)
    obtain ⟨hget, hrest⟩ := fgets_lines hfile hl
    have hb : loadBody h longBits w =
        .again (loadLine h longBits { w with file := w.file.drop l.length } l) := by
      simp only [loadBody, hget]
    rw [Loop.run_again hb, loadLine_entry _ (Nat.le_of_lt hl)]
    have hfit' : ∀ l ∈ ls, l.length < LINE_LEN := fun l hl => hfit l (List.mem_cons_of_mem _ hl)
    have hn' : ls.length < n := by simpa using hn
    cases hentry : lineEntry l with
    | none =>
      rw [List.filterMap_cons_none hentry]
      exact ih hfit' hrest hhead hi hn'
    | some e =>
      obtain ⟨p, name⟩ := e
      rw [List.filterMap_cons_some hentry]
      have hi' : (loadEntry h longBits { w with file := w.file.drop l.length } (prefixBytes p)
          name).i = int32 ((k + 1 : Nat) : Int) := by
        simp only [loadEntry, hi, int32_add]
        rfl
      obtain ⟨w', hrun, hhead', hcount⟩ := ih hfit' hrest
        (loadEntry_image { w with file := w.file.drop l.length } hhead p name) hi' hn'
      refine ⟨w', hrun, hhead', ?_⟩
      rw [hcount, List.length_cons]
      congr 2
      omega

/-- After the load every search answers as the association list, and the count is its length,
as far as an `int` goes. -/
theorem manufInit_lines (h : Host) (longBits : Nat) {file : List UInt8}
    (hfit : ∀ l ∈ lines file, l.length < LINE_LEN) :
    ∃ w, manufInit h longBits file = some w ∧
      w.i = int32 ((associations file).length : Int) ∧
      ∀ m, manufSearch h longBits w.head m =
        HashChain.lastValue (associations file) (m 0, m 1, m 2) := by
  obtain ⟨w, hrun, hhead, hi⟩ := run_lines h longBits (lines file) hfit
    (n := file.length + 1) (w := ⟨file, fun _ => [], 0⟩) (t := HashChain.empty) (k := 0) rfl rfl
    rfl (Nat.lt_succ_of_le (lines_length_le file))
  refine ⟨w, hrun, by rw [hi, Nat.zero_add]; rfl, fun m => ?_⟩
  rw [hhead, manufSearch_image, HashChain.search_load]
  rfl

/-- No line of any file makes the scan write beyond the array `name`. -/
theorem name_fits {file line rest name : List UInt8}
    (hget : fgets LINE_LEN file = some (line, rest))
    (hname : .text name ∈ (scan format (cstr line)).1) : name.length < LINE_LEN := by
  have hline := fgets_length_lt (by decide) hget
  have hname := text_length_le format (cstr line) hname
  have hcut := (List.takeWhile_sublist (fun b => b != 0) (l := line)).length_le
  rw [cstr] at hname
  omega

/-- The table is the association list of its file. The number that the loader returns is an
`int`, and right below 2^31 entries. -/
theorem manuf_refines (h : Host) (longBits : Nat) (file : List UInt8)
    (hfit : ∀ l ∈ lines file, l.length ≤ 79) :
    ∃ w, manufInit h longBits file = some w ∧
      (∀ m, manufSearch h longBits w.head m =
        HashChain.lastValue (associations file) (m 0, m 1, m 2)) ∧
      w.i = int32 ((associations file).length : Int) ∧
      ((associations file).length < 2 ^ 31 → w.i = (associations file).length) := by
  obtain ⟨w, hinit, hi, hsearch⟩ := manufInit_lines h longBits
    (fun l hl => Nat.lt_succ_of_le (hfit l hl))
  refine ⟨w, hinit, hsearch, hi, fun hlt => ?_⟩
  rw [hi, int32_of_range (by omega) (by omega)]

def vendorFile : List UInt8 :=
  lit "00:00:0B Matrix Corporation\n00:00:0C Cisco Systems, Inc.\n0:0:c Other\n"

theorem manuf_refines_vendorFile :
    ∃ w, manufInit ⟨false, 64⟩ 64 vendorFile = some w ∧
      (∀ m, manufSearch ⟨false, 64⟩ 64 w.head m =
        HashChain.lastValue (associations vendorFile) (m 0, m 1, m 2)) ∧
      w.i = int32 ((associations vendorFile).length : Int) ∧
      ((associations vendorFile).length < 2 ^ 31 → w.i = (associations vendorFile).length) :=
  manuf_refines ⟨false, 64⟩ 64 vendorFile (by decide)

def shortLine : List UInt8 := lit "0:0:0 x"

/-- No `int` is as large as the number of entries of this file. -/
theorem manuf_count_overflows :
    ¬ ∀ file, (∀ l ∈ lines file, l.length ≤ 79) →
      ∃ w, manufInit ⟨false, 64⟩ 64 file = some w ∧ w.i = (associations file).length := by
  intro hall
  have hplain : ∀ b ∈ shortLine, b ≠ 10 := forall_mem_of_all (by decide)
  have hlines := lines_replicate (2 ^ 31) hplain
  have hfit : ∀ l ∈ lines (List.replicate (2 ^ 31) (shortLine ++ [10])).flatten,
      l.length < LINE_LEN := by
    intro l hl
    rw [hlines] at hl
    rw [List.eq_of_mem_replicate hl]
    decide
  have hentry : lineEntry (shortLine ++ [10]) = some ((0, 0, 0), lit "x") := by decide
  have hcount : (associations (List.replicate (2 ^ 31) (shortLine ++ [10])).flatten).length =
      2 ^ 31 := by
    rw [associations, hlines, List.filterMap_replicate_of_some hentry, List.length_replicate]
  obtain ⟨w, hinit, hi⟩ := hall _ (fun l hl => Nat.le_of_lt_succ (hfit l hl))
  obtain ⟨w', hinit', hi', -⟩ := manufInit_lines ⟨false, 64⟩ 64 hfit
  cases hinit.symm.trans hinit'
  rw [hi, hcount] at hi'
  exact absurd hi' (by decide)

end Manuf
end Lmap
