import Mathlib.Data.Nat.Digits.Lemmas
import Mathlib.Data.List.TakeWhile
import Mathlib.Tactic.Common

/-!
The parts of the C string library that write and read small numbers in
character buffers. A string is the list of its bytes without the terminator;
a buffer is a list of bytes that a copy overwrites in place.
-/

set_option autoImplicit false

namespace CString

def lit (s : String) : List UInt8 := s.toList.map (fun c => UInt8.ofNat c.toNat)

/-- What a `char *` shows of a buffer: the bytes before the first NUL. -/
def cstr (buf : List UInt8) : List UInt8 := buf.takeWhile (fun b => b != 0)

inductive Case where
  | lower | upper
  deriving DecidableEq, Repr

def digitChar (k : Case) (d : Nat) : UInt8 :=
  UInt8.ofNat (if d < 10 then 48 + d else (if k = .upper then 55 else 87) + d)

def printDigits (base n : Nat) : List Nat :=
  if n = 0 then [0] else (Nat.digits base n).reverse

/-- `%0<width>u`, `%0<width>x` and `%0<width>X`. -/
def printUnsigned (k : Case) (base width n : Nat) : List UInt8 :=
  let ds := (printDigits base n).map (digitChar k)
  List.replicate (width - ds.length) (digitChar k 0) ++ ds

def printInt (v : Int) : List UInt8 :=
  if v < 0 then lit "-" ++ printUnsigned .lower 10 0 v.natAbs
  else printUnsigned .lower 10 0 v.natAbs

/-- What `snprintf` leaves of a formatted text in a buffer of `size` bytes. -/
def snprintf (size : Nat) (s : List UInt8) : List UInt8 := s.take (size - 1)

def strncpy (buf : List UInt8) (pos : Nat) (src : List UInt8) (n : Nat) : List UInt8 :=
  buf.take pos ++ ((src ++ List.replicate n 0).take n ++ buf.drop (pos + n))

/-- `strlcpy (buf, src, size)`: the bytes after the terminator keep what was there. -/
def strlcpy (buf src : List UInt8) (size : Nat) : List UInt8 :=
  if size = 0 then buf
  else src.take (size - 1) ++ (0 :: buf.drop ((src.take (size - 1)).length + 1))

def strcpy (buf src : List UInt8) : List UInt8 := src ++ (0 :: buf.drop (src.length + 1))

def takeLine : Nat → List UInt8 → List UInt8 × List UInt8
  | 0, file => ([], file)
  | _ + 1, [] => ([], [])
  | n + 1, c :: file =>
    if c = 10 then ([c], file) else ((c :: (takeLine n file).1), (takeLine n file).2)

/-- `fgets` into a buffer of `size` bytes: the bytes read and the rest of the file. -/
def fgets (size : Nat) (file : List UInt8) : Option (List UInt8 × List UInt8) :=
  if file = [] then none else some (takeLine (size - 1) file)

def lines : List UInt8 → List (List UInt8)
  | [] => []
  | c :: file =>
    if c = 10 then [c] :: lines file
    else
      match lines file with
      | [] => [[c]]
      | l :: ls => (c :: l) :: ls

def readsFuel (size : Nat) : Nat → List UInt8 → List (List UInt8)
  | 0, _ => []
  | n + 1, file =>
    match fgets size file with
    | some (line, rest) => line :: readsFuel size n rest
    | none => []

def reads (size : Nat) (file : List UInt8) : List (List UInt8) := readsFuel size file.length file

/-- `strtok`: the next token of a text and what is behind it, or nothing if there is none. -/
def strtok (delims s : List UInt8) : Option (List UInt8 × List UInt8) :=
  let t := s.dropWhile fun c => c ∈ delims
  if t = [] then none
  else some (t.takeWhile fun c => c ∉ delims, (t.dropWhile fun c => c ∉ delims).tail)

def hexValue (c : UInt8) : Option Nat :=
  if 48 ≤ c ∧ c ≤ 57 then some (c.toNat - 48)
  else if 65 ≤ c ∧ c ≤ 70 then some (c.toNat - 55)
  else if 97 ≤ c ∧ c ≤ 102 then some (c.toNat - 87)
  else none

def isSpace (c : UInt8) : Bool := c == 32 || (9 ≤ c && c ≤ 13)

def readHex (acc : Nat) : List UInt8 → Nat
  | [] => acc
  | c :: cs =>
    match hexValue c with
    | some d => readHex (acc * 16 + d) cs
    | none => acc

def readHexPrefixed : List UInt8 → Nat
  | 48 :: x :: c :: cs =>
    if (x = 120 ∨ x = 88) ∧ (hexValue c).isSome then readHex 0 (c :: cs)
    else readHex 0 (48 :: x :: c :: cs)
  | s => readHex 0 s

/-- `strtoul (s, NULL, 16)`, before the conversion to the caller's type. -/
def strtoul16 (s : List UInt8) : Int :=
  match s.dropWhile isSpace with
  | 45 :: cs => -(readHexPrefixed cs)
  | 43 :: cs => readHexPrefixed cs
  | cs => readHexPrefixed cs

theorem strncpy_length {buf : List UInt8} {pos n : Nat} (h : pos + n ≤ buf.length)
    (src : List UInt8) : (strncpy buf pos src n).length = buf.length := by
  simp only [strncpy, List.length_append, List.length_take, List.length_replicate,
    List.length_drop]
  omega

theorem strncpy_read {buf : List UInt8} {pos : Nat} (h : pos ≤ buf.length) (src : List UInt8)
    (n : Nat) : ((strncpy buf pos src n).drop pos).take n = (src ++ List.replicate n 0).take n := by
  have hpos : (buf.take pos).length = pos := List.length_take_of_le h
  have hn : ((src ++ List.replicate n 0).take n).length = n := by simp
  rw [strncpy, List.drop_append_of_le_length hpos.ge, List.drop_of_length_le hpos.le,
    List.nil_append, List.take_append_of_le_length hn.ge, List.take_take, Nat.min_self]

def ZerosLast (bs : List UInt8) : Prop := ∀ b ∈ bs.dropWhile (fun b => b != 0), b = 0

instance (bs : List UInt8) : Decidable (ZerosLast bs) :=
  inferInstanceAs (Decidable (∀ b ∈ bs.dropWhile (fun b => b != 0), b = 0))

theorem take_cstr_iff {bs : List UInt8} {n m : Nat} (hn : n ≤ bs.length) (hm : n ≤ m) :
    (cstr bs ++ List.replicate m 0).take n = bs.take n ↔ ZerosLast (bs.take n) := by
  induction bs generalizing n with
  | nil =>
    obtain rfl : n = 0 := by simpa using hn
    simp [ZerosLast]
  | cons b bs ih =>
    cases n with
    | zero => simp [ZerosLast]
    | succ n =>
      have hlen : n ≤ bs.length := by simpa using hn
      by_cases hb : b = 0
      · subst hb
        have hcopy : (cstr (0 :: bs) ++ List.replicate m 0).take (n + 1) =
            List.replicate (n + 1) 0 := by
          simp [cstr, hm]
        have htake : ((0 : UInt8) :: bs.take n).length = n + 1 := by simp [hlen]
        rw [hcopy, List.take_succ_cons, eq_comm, List.eq_replicate_iff, ZerosLast]
        simp [htake]
      · have hcopy : (cstr (b :: bs) ++ List.replicate m 0).take (n + 1) =
            b :: (cstr bs ++ List.replicate m 0).take n := by
          simp [cstr, hb]
        rw [hcopy, List.take_succ_cons, List.cons.injEq, ih hlen (Nat.le_of_succ_le hm), ZerosLast,
          ZerosLast]
        simp [hb]

def hex2 (k : Case) (n : Nat) : List UInt8 := [digitChar k (n / 16), digitChar k (n % 16)]

def hex4 (k : Case) (n : Nat) : List UInt8 :=
  [digitChar k (n / 4096), digitChar k (n / 256 % 16), digitChar k (n / 16 % 16),
    digitChar k (n % 16)]

@[simp] theorem hex2_length (k : Case) (n : Nat) : (hex2 k n).length = 2 := rfl

@[simp] theorem hex4_length (k : Case) (n : Nat) : (hex4 k n).length = 4 := rfl

theorem printDigits_of_lt {base n : Nat} (h : n < base) : printDigits base n = [n] := by
  by_cases hn : n = 0
  · simp [printDigits, hn]
  · simp [printDigits, hn, Nat.digits_of_lt base n hn h]

theorem printDigits_of_le {base n : Nat} (hb : 1 < base) (h : base ≤ n) :
    printDigits base n = printDigits base (n / base) ++ [n % base] := by
  have hn : n ≠ 0 := by omega
  have hd : n / base ≠ 0 := by
    have := Nat.div_pos h (by omega)
    omega
  simp [printDigits, hn, hd, Nat.digits_def' hb (Nat.pos_of_ne_zero hn)]

theorem printUnsigned_length (k : Case) {base n m : Nat} (hb : 1 < base) (hm : 0 < m)
    (h : n < base ^ m) : (printUnsigned k base 0 n).length ≤ m := by
  have hdigits : (printDigits base n).length ≤ m := by
    unfold printDigits
    split
    · exact hm
    · rw [List.length_reverse]
      exact (Nat.digits_length_le_iff hb n).mpr h
  simpa [printUnsigned] using hdigits

theorem printUnsigned_hex2 (k : Case) {n : Nat} (h : n < 256) :
    printUnsigned k 16 2 n = hex2 k n := by
  by_cases h1 : n < 16
  · have hd : n / 16 = 0 := by omega
    have hm : n % 16 = n := by omega
    simp [printUnsigned, printDigits_of_lt h1, hex2, hd, hm]
  · have hd : n / 16 < 16 := by omega
    simp [printUnsigned, printDigits_of_le (by decide : 1 < 16) (Nat.le_of_not_lt h1),
      printDigits_of_lt hd, hex2]

theorem printUnsigned_hex4 (k : Case) {n : Nat} (h : n < 65536) :
    printUnsigned k 16 4 n = hex4 k n := by
  have hb : 1 < 16 := by decide
  by_cases h1 : n < 16
  · have e1 : n / 4096 = 0 := by omega
    have e2 : n / 256 % 16 = 0 := by omega
    have e3 : n / 16 % 16 = 0 := by omega
    have e4 : n % 16 = n := by omega
    simp [printUnsigned, printDigits_of_lt h1, hex4, e1, e2, e3, e4, List.replicate]
  by_cases h2 : n < 256
  · have e0 : n / 16 < 16 := by omega
    have e1 : n / 4096 = 0 := by omega
    have e2 : n / 256 % 16 = 0 := by omega
    have e3 : n / 16 % 16 = n / 16 := by omega
    simp [printUnsigned, printDigits_of_le hb (Nat.le_of_not_lt h1), printDigits_of_lt e0,
      hex4, e1, e2, e3, List.replicate]
  by_cases h3 : n < 4096
  · have e0 : 16 ≤ n / 16 := by omega
    have e1 : n / 16 / 16 < 16 := by omega
    have e2 : n / 4096 = 0 := by omega
    have e3 : n / 256 % 16 = n / 16 / 16 := by omega
    simp [printUnsigned, printDigits_of_le hb (Nat.le_of_not_lt h1), printDigits_of_le hb e0,
      printDigits_of_lt e1, hex4, e2, e3]
  · have e0 : 16 ≤ n / 16 := by omega
    have e1 : 16 ≤ n / 16 / 16 := by omega
    have e2 : n / 16 / 16 / 16 < 16 := by omega
    have e3 : n / 4096 = n / 16 / 16 / 16 := by omega
    have e4 : n / 256 = n / 16 / 16 := by omega
    simp [printUnsigned, printDigits_of_le hb (Nat.le_of_not_lt h1), printDigits_of_le hb e0,
      printDigits_of_le hb e1, printDigits_of_lt e2, hex4, e3, e4]

theorem hexValue_digitChar (k : Case) {d : Nat} (h : d < 16) :
    hexValue (digitChar k d) = some d := by
  have hall : ∀ i : Fin 16, hexValue (digitChar k i.val) = some i.val := by cases k <;> decide
  exact hall ⟨d, h⟩

theorem digitChar_inj {k : Case} {n m : Nat} (hn : n < 16) (hm : m < 16) :
    digitChar k n = digitChar k m ↔ n = m := by
  refine ⟨fun h => ?_, fun h => h ▸ rfl⟩
  have hvalue := congrArg hexValue h
  rwa [hexValue_digitChar k hn, hexValue_digitChar k hm, Option.some.injEq] at hvalue

theorem hex2_inj {k : Case} {n m : Nat} (hn : n < 256) (hm : m < 256) :
    hex2 k n = hex2 k m ↔ n = m := by
  have h1 := @digitChar_inj k (n / 16) (m / 16) (by omega) (by omega)
  have h2 := @digitChar_inj k (n % 16) (m % 16) (by omega) (by omega)
  simp only [hex2, List.cons.injEq, and_true, h1, h2]
  omega

theorem hex4_inj {k : Case} {n m : Nat} (hn : n < 65536) (hm : m < 65536) :
    hex4 k n = hex4 k m ↔ n = m := by
  have h1 := @digitChar_inj k (n / 4096) (m / 4096) (by omega) (by omega)
  have h2 := @digitChar_inj k (n / 256 % 16) (m / 256 % 16) (by omega) (by omega)
  have h3 := @digitChar_inj k (n / 16 % 16) (m / 16 % 16) (by omega) (by omega)
  have h4 := @digitChar_inj k (n % 16) (m % 16) (by omega) (by omega)
  simp only [hex4, List.cons.injEq, and_true, h1, h2, h3, h4]
  omega

theorem digitChar_plain (k : Case) {d : Nat} (h : d < 16) :
    isSpace (digitChar k d) = false ∧ digitChar k d ≠ 45 ∧ digitChar k d ≠ 43 := by
  have hall : ∀ i : Fin 16, isSpace (digitChar k i.val) = false ∧ digitChar k i.val ≠ 45 ∧
      digitChar k i.val ≠ 43 := by cases k <;> decide
  exact hall ⟨d, h⟩

theorem digitChar_ne_zero (k : Case) {d : Nat} (h : d < 16) : digitChar k d ≠ 0 := by
  have hall : ∀ i : Fin 16, digitChar k i.val ≠ 0 := by cases k <;> decide
  exact hall ⟨d, h⟩

theorem hex2_ne_zero (k : Case) {n : Nat} (h : n < 256) : ∀ b ∈ hex2 k n, b ≠ 0 := by
  simp only [hex2, List.forall_mem_cons, List.not_mem_nil, false_imp_iff, implies_true, and_true]
  exact ⟨digitChar_ne_zero k (by omega), digitChar_ne_zero k (by omega)⟩

theorem hex4_ne_zero (k : Case) {n : Nat} (h : n < 65536) : ∀ b ∈ hex4 k n, b ≠ 0 := by
  simp only [hex4, List.forall_mem_cons, List.not_mem_nil, false_imp_iff, implies_true, and_true]
  exact ⟨digitChar_ne_zero k (by omega), digitChar_ne_zero k (by omega),
    digitChar_ne_zero k (by omega), digitChar_ne_zero k (by omega)⟩

theorem readHexPrefixed_pair (a b : UInt8) : readHexPrefixed [a, b] = readHex 0 [a, b] := by
  unfold readHexPrefixed
  split
  · rename_i heq
    simp at heq
  · rfl

theorem strtoul16_hex2 (k : Case) {n : Nat} (h : n < 256) : strtoul16 (hex2 k n) = n := by
  have hhi : n / 16 < 16 := by omega
  have hlo : n % 16 < 16 := by omega
  obtain ⟨hspace, hminus, hplus⟩ := digitChar_plain k hhi
  have hread : readHexPrefixed (hex2 k n) = n := by
    simp only [hex2, readHexPrefixed_pair, readHex, hexValue_digitChar k hhi,
      hexValue_digitChar k hlo]
    omega
  have hdrop : (hex2 k n).dropWhile isSpace = hex2 k n := by simp [hex2, hspace]
  rw [strtoul16, hdrop]
  split
  · rename_i heq
    exact absurd (List.cons.inj heq).1 hminus
  · rename_i heq
    exact absurd (List.cons.inj heq).1 hplus
  · rw [hread]

theorem forall_mem_of_all {p : UInt8 → Prop} [DecidablePred p] {s : List UInt8}
    (h : s.all (fun b => decide (p b)) = true) : ∀ b ∈ s, p b := by
  simpa using h

theorem cstr_of_plain {s : List UInt8} (h : ∀ b ∈ s, b ≠ 0) : cstr s = s := by
  rw [cstr, List.takeWhile_eq_self_iff]
  exact fun b hb => by simpa using h b hb

theorem cstr_append_any (s rest : List UInt8) : cstr (s ++ 0 :: rest) = cstr s := by
  induction s with
  | nil => simp [cstr]
  | cons b s ih =>
    simp only [cstr, List.cons_append, List.takeWhile_cons] at ih ⊢
    rw [ih]

theorem cstr_append_zero {s rest : List UInt8} (h : ∀ b ∈ s, b ≠ 0) :
    cstr (s ++ 0 :: rest) = s := (cstr_append_any s rest).trans (cstr_of_plain h)

theorem strncpy_field {a b c src : List UInt8} {pos n : Nat} (ha : a.length = pos)
    (hb : b.length = n) (hs : src.length = n) :
    strncpy (a ++ (b ++ c)) pos src n = a ++ (src ++ c) := by
  subst ha hb
  simp [strncpy, ← hs, List.drop_append]

theorem flatten_split {fields : List (List UInt8)} (rest : List UInt8) {i : Nat}
    (hi : i < fields.length) : fields.flatten ++ rest =
      (fields.take i).flatten ++ (fields[i] ++ ((fields.drop (i + 1)).flatten ++ rest)) := by
  have h : fields.take i ++ fields[i] :: fields.drop (i + 1) = fields := by
    rw [← List.drop_eq_getElem_cons hi, List.take_append_drop]
  calc
    fields.flatten ++ rest =
        (fields.take i ++ fields[i] :: fields.drop (i + 1)).flatten ++ rest := by rw [h]
    _ = _ := by simp only [List.flatten_append, List.flatten_cons, List.append_assoc]

theorem flatten_field {fields : List (List UInt8)} {i pos n : Nat} (hi : i < fields.length)
    (hpos : (fields.take i).flatten.length = pos) (hn : fields[i].length = n) :
    (fields.flatten.drop pos).take n = fields[i] := by
  have hsplit := flatten_split [] hi
  rw [List.append_nil] at hsplit
  rw [hsplit, List.drop_left' hpos, List.take_left' hn]

theorem strncpy_flatten {fields : List (List UInt8)} {rest src : List UInt8} {i pos n : Nat}
    (hi : i < fields.length) (hpos : (fields.take i).flatten.length = pos)
    (hn : fields[i].length = n) (hs : src.length = n) :
    strncpy (fields.flatten ++ rest) pos src n = (fields.set i src).flatten ++ rest := by
  have hset : (fields.set i src).flatten ++ rest =
      (fields.take i).flatten ++ (src ++ ((fields.drop (i + 1)).flatten ++ rest)) := by
    rw [List.set_eq_take_append_cons_drop, if_pos hi]
    simp
  rw [flatten_split rest hi, hset]
  exact strncpy_field hpos hn hs

theorem takeLine_rest_length (n : Nat) (file : List UInt8) :
    (takeLine n file).2.length ≤ file.length := by
  induction n generalizing file with
  | zero => exact Nat.le_refl _
  | succ n ih =>
    cases file with
    | nil => exact Nat.le_refl _
    | cons c file =>
      have := ih file
      unfold takeLine
      split
      · simp
      · simp only [List.length_cons]
        omega

theorem takeLine_length_le (n : Nat) (file : List UInt8) : (takeLine n file).1.length ≤ n := by
  induction n generalizing file with
  | zero => exact Nat.le_refl _
  | succ n ih =>
    cases file with
    | nil => exact Nat.zero_le _
    | cons c file =>
      have := ih file
      unfold takeLine
      split
      · simp
      · simp only [List.length_cons]
        omega

theorem fgets_length_lt {size : Nat} {file line rest : List UInt8} (hsize : 0 < size)
    (h : fgets size file = some (line, rest)) : line.length < size := by
  simp only [fgets] at h
  split at h
  · cases h
  · have hlen := takeLine_length_le (size - 1) file
    rw [Option.some.inj h] at hlen
    exact Nat.lt_of_le_pred hsize hlen

theorem fgets_rest_length {size : Nat} {file line rest : List UInt8} (hsize : 1 < size)
    (h : fgets size file = some (line, rest)) : rest.length < file.length := by
  obtain ⟨n, hn⟩ : ∃ n, size - 1 = n + 1 := ⟨size - 2, by omega⟩
  cases file with
  | nil => simp [fgets] at h
  | cons c file =>
    have hlen := takeLine_rest_length n file
    simp only [fgets, hn, takeLine, reduceCtorEq, if_false, Option.some.injEq] at h
    split at h
    · cases h
      simp
    · cases h
      simp only [List.length_cons]
      omega

theorem takeLine_newline {n : Nat} {line : List UInt8} (rest : List UInt8)
    (hplain : ∀ b ∈ line, b ≠ 10) (hn : line.length < n) :
    takeLine n (line ++ 10 :: rest) = (line ++ [10], rest) := by
  induction line generalizing n with
  | nil =>
    obtain ⟨n, rfl⟩ : ∃ k, n = k + 1 := ⟨n - 1, by simp at hn; omega⟩
    simp [takeLine]
  | cons c line ih =>
    obtain ⟨n, rfl⟩ : ∃ k, n = k + 1 := ⟨n - 1, by simp at hn; omega⟩
    have hc : c ≠ 10 := hplain c (by simp)
    have hrest := ih (n := n) (fun b hb => hplain b (by simp [hb])) (by simpa using hn)
    simp [takeLine, hc, hrest]

theorem fgets_newline {size : Nat} {line : List UInt8} (rest : List UInt8)
    (hplain : ∀ b ∈ line, b ≠ 10) (hn : line.length + 1 < size) :
    fgets size (line ++ 10 :: rest) = some (line ++ [10], rest) := by
  have hne : ¬ line ++ 10 :: rest = [] := by simp
  rw [fgets, if_neg hne, takeLine_newline rest hplain (by omega)]

theorem lines_eq_nil {file : List UInt8} : lines file = [] ↔ file = [] := by
  cases file with
  | nil => simp [lines]
  | cons c file =>
    simp only [lines, reduceCtorEq, iff_false]
    split
    · exact List.cons_ne_nil _ _
    · split <;> exact List.cons_ne_nil _ _

theorem takeLine_lines {n : Nat} {file l : List UInt8} {ls : List (List UInt8)}
    (h : lines file = l :: ls) (hn : l.length ≤ n) :
    takeLine n file = (l, file.drop l.length) ∧ lines (file.drop l.length) = ls := by
  induction file generalizing n l ls with
  | nil => cases h
  | cons c file ih =>
    by_cases hc : c = 10
    · simp only [lines, hc, if_true, List.cons.injEq] at h
      obtain ⟨rfl, rfl⟩ := h
      obtain ⟨n, rfl⟩ : ∃ k, n = k + 1 := ⟨n - 1, by simp at hn; omega⟩
      simp [takeLine, hc]
    · cases hl : lines file with
      | nil =>
        have hnil := lines_eq_nil.mp hl
        simp only [lines, hc, if_false, hl, List.cons.injEq] at h
        obtain ⟨rfl, rfl⟩ := h
        subst hnil
        obtain ⟨n, rfl⟩ : ∃ k, n = k + 1 := ⟨n - 1, by simp at hn; omega⟩
        cases n <;> simp [takeLine, hc, lines]
      | cons l' ls' =>
        simp only [lines, hc, if_false, hl, List.cons.injEq] at h
        obtain ⟨rfl, rfl⟩ := h
        obtain ⟨n, rfl⟩ : ∃ k, n = k + 1 := ⟨n - 1, by simp at hn; omega⟩
        obtain ⟨htake, hrest⟩ := ih (n := n) hl (by simpa using hn)
        simp [takeLine, hc, htake, hrest]

theorem fgets_lines {size : Nat} {file l : List UInt8} {ls : List (List UInt8)}
    (h : lines file = l :: ls) (hn : l.length < size) :
    fgets size file = some (l, file.drop l.length) ∧ lines (file.drop l.length) = ls := by
  have hne : ¬ file = [] := by
    rintro rfl
    cases h
  obtain ⟨htake, hrest⟩ := takeLine_lines (n := size - 1) h (by omega)
  rw [fgets, if_neg hne, htake]
  exact ⟨rfl, hrest⟩

theorem lines_length_le (file : List UInt8) : (lines file).length ≤ file.length := by
  induction file with
  | nil => exact Nat.le_refl _
  | cons c file ih =>
    simp only [lines]
    split
    · simpa using ih
    · split
      · simp
      · rename_i l ls hl
        rw [hl] at ih
        simp only [List.length_cons] at ih ⊢
        omega

theorem lines_append {line : List UInt8} (rest : List UInt8) (hplain : ∀ b ∈ line, b ≠ 10) :
    lines (line ++ 10 :: rest) = (line ++ [10]) :: lines rest := by
  induction line with
  | nil => simp [lines]
  | cons c line ih =>
    have hc : c ≠ 10 := hplain c (by simp)
    have hrest := ih (fun b hb => hplain b (by simp [hb]))
    simp [lines, hc, hrest]

theorem lines_replicate {line : List UInt8} (n : Nat) (hplain : ∀ b ∈ line, b ≠ 10) :
    lines (List.replicate n (line ++ [10])).flatten = List.replicate n (line ++ [10]) := by
  induction n with
  | zero => rfl
  | succ n ih =>
    rw [List.replicate_succ, List.flatten_cons, List.append_assoc, List.singleton_append,
      lines_append _ hplain, ih]

@[simp] theorem reads_nil (size : Nat) : reads size [] = [] := rfl

theorem readsFuel_eq {size n m : Nat} {file : List UInt8} (hsize : 1 < size)
    (hn : file.length ≤ n) (hm : file.length ≤ m) :
    readsFuel size n file = readsFuel size m file := by
  induction n generalizing m file with
  | zero =>
    have hnil := List.length_eq_zero_iff.mp (Nat.le_zero.mp hn)
    subst hnil
    cases m <;> rfl
  | succ n ih =>
    cases m with
    | zero =>
      have hnil := List.length_eq_zero_iff.mp (Nat.le_zero.mp hm)
      subst hnil
      rfl
    | succ m =>
      simp only [readsFuel]
      cases hget : fgets size file with
      | none => rfl
      | some next =>
        have hlt := fgets_rest_length hsize hget
        have hrest : readsFuel size n next.2 = readsFuel size m next.2 := ih (by omega) (by omega)
        simp only [hrest]

theorem reads_of_fgets {size : Nat} {file line rest : List UInt8} (hsize : 1 < size)
    (h : fgets size file = some (line, rest)) : reads size file = line :: reads size rest := by
  have hlt := fgets_rest_length hsize h
  obtain ⟨n, hn⟩ : ∃ n, file.length = n + 1 := ⟨file.length - 1, by omega⟩
  rw [reads, hn, readsFuel, h]
  simp only [List.cons.injEq, true_and]
  exact readsFuel_eq hsize (by omega) (Nat.le_refl _)

theorem fgets_none {size : Nat} {file : List UInt8} (h : fgets size file = none) : file = [] := by
  by_contra hne
  simp [fgets, hne] at h

theorem fgets_ne_nil {size : Nat} {file line rest : List UInt8} (hsize : 1 < size)
    (h : fgets size file = some (line, rest)) : line ≠ [] := by
  obtain ⟨n, hn⟩ : ∃ n, size - 1 = n + 1 := ⟨size - 2, by omega⟩
  cases file with
  | nil => simp [fgets] at h
  | cons c file =>
    simp only [fgets, hn, takeLine, reduceCtorEq, if_false, Option.some.injEq] at h
    split at h
    · cases h
      simp
    · cases h
      simp

theorem reads_ne_nil {size : Nat} (hsize : 1 < size) {file text : List UInt8}
    (h : text ∈ reads size file) : text ≠ [] := by
  induction hn : file.length using Nat.strong_induction_on generalizing file with
  | _ n ih =>
    subst hn
    cases hget : fgets size file with
    | none =>
      rw [fgets_none hget] at h
      simp at h
    | some next =>
      obtain ⟨line, rest⟩ := next
      rw [reads_of_fgets hsize hget, List.mem_cons] at h
      rcases h with rfl | h
      · exact fgets_ne_nil hsize hget
      · exact ih rest.length (fgets_rest_length hsize hget) h rfl

theorem takeLine_append (n : Nat) (file : List UInt8) :
    (takeLine n file).1 ++ (takeLine n file).2 = file := by
  induction n generalizing file with
  | zero => rfl
  | succ n ih =>
    cases file with
    | nil => rfl
    | cons c file =>
      unfold takeLine
      split
      · rfl
      · rw [List.cons_append, ih file]

theorem reads_flatten {size : Nat} (hsize : 1 < size) (file : List UInt8) :
    (reads size file).flatten = file := by
  induction hn : file.length using Nat.strong_induction_on generalizing file with
  | _ n ih =>
    subst hn
    cases hget : fgets size file with
    | none => rw [fgets_none hget, reads_nil, List.flatten_nil]
    | some next =>
      obtain ⟨line, rest⟩ := next
      have hsplit : line ++ rest = file := by
        have happend := takeLine_append (size - 1) file
        simp only [fgets] at hget
        split at hget
        · cases hget
        · rwa [Option.some.inj hget] at happend
      rw [reads_of_fgets hsize hget, List.flatten_cons,
        ih rest.length (fgets_rest_length hsize hget) rest rfl, hsplit]

theorem takeLine_short {n : Nat} {body : List UInt8} (rest : List UInt8)
    (hplain : ∀ b ∈ body, b ≠ 10) (hn : n ≤ body.length) :
    takeLine n (body ++ rest) = (body.take n, body.drop n ++ rest) := by
  induction n generalizing body with
  | zero => simp [takeLine]
  | succ n ih =>
    cases body with
    | nil => simp at hn
    | cons c body =>
      have hc : c ≠ 10 := hplain c (by simp)
      have hrest : takeLine n (body ++ rest) = (body.take n, body.drop n ++ rest) :=
        ih (fun b hb => hplain b (by simp [hb])) (by simpa using hn)
      simp [takeLine, hc, hrest]

theorem lines_first {file l : List UInt8} {ls : List (List UInt8)} (h : lines file = l :: ls) :
    (∃ body rest, (∀ b ∈ body, b ≠ 10) ∧ l = body ++ [10] ∧ file = body ++ 10 :: rest ∧
        lines rest = ls) ∨
      (ls = [] ∧ file = l ∧ lines l = [l]) := by
  induction file generalizing l ls with
  | nil => cases h
  | cons c file ih =>
    by_cases hc : c = 10
    · subst hc
      simp only [lines, if_true, List.cons.injEq] at h
      obtain ⟨rfl, rfl⟩ := h
      exact .inl ⟨[], file, by simp, rfl, rfl, rfl⟩
    · cases hl : lines file with
      | nil =>
        have hnil := lines_eq_nil.mp hl
        subst hnil
        simp only [lines, hc, if_false, List.cons.injEq] at h
        obtain ⟨rfl, rfl⟩ := h
        exact .inr ⟨rfl, rfl, by simp [lines, hc]⟩
      | cons l' ls' =>
        simp only [lines, hc, if_false, hl, List.cons.injEq] at h
        obtain ⟨rfl, rfl⟩ := h
        rcases ih hl with ⟨body, rest, hplain, rfl, rfl, hrest⟩ | ⟨hlast, rfl, hself⟩
        · refine .inl ⟨c :: body, rest, ?_, rfl, rfl, hrest⟩
          intro b hb
          rcases List.mem_cons.mp hb with rfl | hb
          · exact hc
          · exact hplain b hb
        · exact .inr ⟨hlast, rfl, by simp [lines, hc, hself]⟩

theorem reads_append {size : Nat} {body : List UInt8} (rest : List UInt8) (hsize : 1 < size)
    (hplain : ∀ b ∈ body, b ≠ 10) :
    reads size (body ++ 10 :: rest) = reads size (body ++ [10]) ++ reads size rest := by
  induction hn : body.length using Nat.strong_induction_on generalizing body with
  | _ n ih =>
    subst hn
    by_cases hlen : body.length + 1 < size
    · rw [reads_of_fgets hsize (fgets_newline rest hplain hlen),
        reads_of_fgets hsize (fgets_newline [] hplain hlen)]
      rfl
    · have hget : ∀ tail, fgets size (body ++ 10 :: tail) =
          some (body.take (size - 1), body.drop (size - 1) ++ 10 :: tail) := by
        intro tail
        rw [fgets, if_neg (by simp), takeLine_short _ hplain (by omega)]
      have htail := ih (body.drop (size - 1)).length (by rw [List.length_drop]; omega)
        (fun b hb => hplain b (List.mem_of_mem_drop hb)) rfl
      rw [reads_of_fgets hsize (hget rest), reads_of_fgets hsize (hget []), htail,
        List.cons_append]

theorem reads_lines {size : Nat} (hsize : 1 < size) (file : List UInt8) :
    reads size file = (lines file).flatMap (reads size) := by
  induction hls : lines file generalizing file with
  | nil =>
    rw [lines_eq_nil.mp hls]
    rfl
  | cons l ls ih =>
    rcases lines_first hls with ⟨body, rest, hplain, rfl, rfl, hrest⟩ | ⟨rfl, rfl, -⟩
    · rw [reads_append rest hsize hplain, ih rest hrest, List.flatMap_cons]
    · simp

theorem lines_filter (p : List UInt8 → Bool) (file : List UInt8) :
    lines ((lines file).filter p).flatten = (lines file).filter p := by
  induction hls : lines file generalizing file with
  | nil => rfl
  | cons l ls ih =>
    rcases lines_first hls with ⟨body, rest, hplain, rfl, rfl, hrest⟩ | ⟨rfl, rfl, hself⟩
    · have htail := ih rest hrest
      cases hp : p (body ++ [10]) with
      | true =>
        rw [List.filter_cons_of_pos hp, List.flatten_cons, List.append_assoc,
          List.singleton_append, lines_append _ hplain, htail]
      | false =>
        rw [List.filter_cons_of_neg (by simp [hp]), htail]
    · cases hp : p file with
      | true => simpa [hp] using hself
      | false => simp [hp, lines]

theorem zero_mem_strlcpy (buf src : List UInt8) {size : Nat} (h : 0 < size) :
    0 ∈ (strlcpy buf src size).take size := by
  have hne : size ≠ 0 := by omega
  have hlen : (src.take (size - 1)).length < size := by
    rw [List.length_take]
    omega
  obtain ⟨k, hk⟩ : ∃ k, size - (src.take (size - 1)).length = k + 1 :=
    ⟨size - (src.take (size - 1)).length - 1, by omega⟩
  rw [strlcpy, if_neg hne, List.take_append, hk]
  simp

theorem strlcpy_truncates (buf : List UInt8) {src : List UInt8} {size : Nat} (h0 : 0 < size)
    (h : size - 1 ≤ src.length) :
    (strlcpy buf src size).take size = src.take (size - 1) ++ [0] := by
  have hne : size ≠ 0 := by omega
  have hlen : (src.take (size - 1)).length = size - 1 := by simpa using h
  have hone : size - (size - 1) = 1 := by omega
  rw [strlcpy, if_neg hne, List.take_append, hlen, hone, List.take_of_length_le (by omega)]
  rfl

@[simp] theorem cstr_strcpy (buf src : List UInt8) : cstr (strcpy buf src) = cstr src :=
  cstr_append_any src _

theorem zero_mem_strcpy (buf src : List UInt8) : 0 ∈ strcpy buf src := by simp [strcpy]

theorem cstr_strlcpy_any (buf src : List UInt8) {size : Nat} (h0 : 0 < size) :
    cstr (strlcpy buf src size) = cstr (src.take (size - 1)) := by
  rw [strlcpy, if_neg (by omega : size ≠ 0)]
  exact cstr_append_any _ _

theorem mem_strlcpy (buf src : List UInt8) {size : Nat} (h0 : 0 < size) :
    0 ∈ strlcpy buf src size := List.mem_of_mem_take (zero_mem_strlcpy buf src h0)

theorem take_strlcpy (buf : List UInt8) {src : List UInt8} {size : Nat} (h : src.length < size) :
    (strlcpy buf src size).take src.length = src := by
  have htake : src.take (size - 1) = src := List.take_of_length_le (by omega)
  rw [strlcpy, if_neg (by omega : size ≠ 0), htake]
  exact List.take_left

theorem length_strlcpy {buf src : List UInt8} {size : Nat} (h : src.length < size)
    (hbuf : size ≤ buf.length) : (strlcpy buf src size).length = buf.length := by
  have htake : src.take (size - 1) = src := List.take_of_length_le (by omega)
  rw [strlcpy, if_neg (by omega : size ≠ 0), htake]
  simp only [List.length_append, List.length_cons, List.length_drop]
  omega

theorem cstr_strlcpy (buf : List UInt8) {src : List UInt8} {size : Nat} (h0 : 0 < size)
    (h : ∀ b ∈ src, b ≠ 0) : cstr (strlcpy buf src size) = src.take (size - 1) :=
  (cstr_strlcpy_any buf src h0).trans (cstr_of_plain fun b hb => h b (List.mem_of_mem_take hb))

structure SameString (buf buf' : List UInt8) : Prop where
  left : 0 ∈ buf
  right : 0 ∈ buf'
  text : cstr buf = cstr buf'

theorem sameString_strcpy (buf buf' src : List UInt8) :
    SameString (strcpy buf src) (strcpy buf' src) where
  left := zero_mem_strcpy buf src
  right := zero_mem_strcpy buf' src
  text := by rw [cstr_strcpy, cstr_strcpy]

theorem sameString_strlcpy (buf buf' src : List UInt8) {size : Nat} (h : 0 < size) :
    SameString (strlcpy buf src size) (strlcpy buf' src size) where
  left := mem_strlcpy buf src h
  right := mem_strlcpy buf' src h
  text := by rw [cstr_strlcpy_any _ _ h, cstr_strlcpy_any _ _ h]

end CString
