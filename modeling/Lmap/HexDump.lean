import Lmap.Library.AddressGrammar
import Lmap.Machine

/-!
`hex_format`: the bytes of a buffer in lines of sixteen, each with its offset, in hexadecimal
and as characters. The text is put together piece by piece in memory whose size is worked out
beforehand.
-/

set_option autoImplicit false

namespace Lmap
open CString AddressGrammar

/-- `hexdata`, with the size that was allocated and the text that is in it. -/
structure HexData where
  dim : Int
  text : List UInt8
  deriving DecidableEq, Repr

/-- The text and its terminator, with `s` behind it, are no larger than the memory. -/
def HexData.Fits (h : HexData) (s : List UInt8) : Prop := h.text.length + s.length + 1 ≤ h.dim

instance (h : HexData) (s : List UInt8) : Decidable (h.Fits s) :=
  inferInstanceAs (Decidable ((_ : Int) ≤ _))

def HexData.push (h : HexData) (s : List UInt8) : HexData := { h with text := h.text ++ s }

/-- `strcat`, and `sprintf` of `hexdata` into itself. -/
def HexData.append (h : HexData) (s : List UInt8) : Except Fault HexData :=
  if h.Fits s then .ok (h.push s) else .error .outOfRange

def CR : Nat := 16

/-- The columns that a line is taken to have. -/
def hexColumns : Int := CR * 4 + 11

def hexDim (buffLen : Nat) : Int :=
  (List.range buffLen).foldl
    (fun dim i => if i % CR = 0 then int32 (dim + hexColumns) else dim) hexColumns

/-- In the C locale: the program never calls `setlocale`. -/
def isprint (c : UInt8) : Bool := 32 ≤ c && c < 127

def hexByte (b : UInt8) (j : Nat) : List UInt8 :=
  if j % 2 = 1 then printUnsigned .lower 16 2 b.toNat ++ lit " "
  else printUnsigned .lower 16 2 b.toNat

def hexPad (j : Nat) : List UInt8 := if j % 2 = 1 then lit "   " else lit "  "

def asciiByte (b : UInt8) (_j : Nat) : List UInt8 := if isprint b then [b] else lit "."

def hexOffset (i : Nat) : List UInt8 := lit " " ++ printUnsigned .lower 16 4 i ++ lit ": "

def appendByte (text : UInt8 → Nat → List UInt8) (buffer : List UInt8) (i : Nat) (h : HexData)
    (j : Nat) : Except Fault HexData :=
  match buffer[i + j]? with
  | some b => h.append (text b j)
  | none => .error .outOfRange

def hexLine (buffer : List UInt8) (h : HexData) (i : Nat) : Except Fault HexData := do
  let h ← h.append (hexOffset i)
  let jm := min (buffer.length - i) CR
  let h ← (List.range' 0 jm).foldlM (appendByte hexByte buffer i) h
  let h ← (List.range' jm (CR - jm)).foldlM (fun h j => h.append (hexPad j)) h
  let h ← h.append (lit " ")
  let h ← (List.range' 0 jm).foldlM (appendByte asciiByte buffer i) h
  h.append (lit "\n")

def hexFormat (buffer : List UInt8) : Except Fault HexData :=
  if buffer.length = 0 then .ok ⟨1, []⟩
  else do
    let h ← (HexData.mk (hexDim buffer.length) []).append (lit "\n")
    (List.range' 0 ((buffer.length + CR - 1) / CR) CR).foldlM (hexLine buffer) h

def readColumn : List UInt8 → List UInt8
  | 32 :: s => readColumn s
  | a :: b :: s =>
    match hexValue a, hexValue b with
    | some x, some y => UInt8.ofNat (x * 16 + y) :: readColumn s
    | _, _ => []
  | _ => []

/-- The offset of a line, and the bytes in its hexadecimal column. -/
def readHexLine : List UInt8 → Option (Nat × List UInt8)
  | 32 :: s =>
    let digits := s.takeWhile fun c => c ≠ 58
    match s.drop digits.length with
    | 58 :: 32 :: rest =>
      (readNumber 16 digits).map fun offset => (offset, readColumn (rest.take 40))
    | _ => none
  | _ => none

def readDump : List UInt8 → Option (List (Nat × List UInt8))
  | 10 :: s => (lines s).mapM readHexLine
  | _ => none

section Append

variable {h : HexData} {s t : List UInt8} {α : Type} {r : Type}

theorem HexData.append_of_fits (hfit : h.Fits s) : h.append s = .ok (h.push s) := if_pos hfit

theorem HexData.push_push (h : HexData) (s t : List UInt8) :
    (h.push s).push t = h.push (s ++ t) := by simp [push]

theorem HexData.Fits.left (hfit : h.Fits (s ++ t)) : h.Fits s := by
  simp only [Fits, List.length_append] at hfit ⊢
  omega

theorem HexData.Fits.right (hfit : h.Fits (s ++ t)) : (h.push s).Fits t := by
  simp only [Fits, push, List.length_append] at hfit ⊢
  omega

theorem HexData.Fits.append_bind (hfit : h.Fits (s ++ t)) (k : HexData → Except Fault r) :
    (h.append s >>= k) = k (h.push s) := by
  rw [append_of_fits hfit.left]
  rfl

theorem foldlM_push {step : HexData → α → Except Fault HexData} {f : α → List UInt8}
    {l : List α} (hstep : ∀ a ∈ l, ∀ h : HexData, h.Fits (f a) → step h a = .ok (h.push (f a)))
    (hfit : h.Fits (l.flatMap f)) : l.foldlM step h = .ok (h.push (l.flatMap f)) := by
  induction l generalizing h with
  | nil => simp [HexData.push, pure, Except.pure]
  | cons a l ih =>
    obtain ⟨hfirst, hrest⟩ := List.forall_mem_cons.mp hstep
    rw [List.flatMap_cons] at hfit ⊢
    rw [List.foldlM_cons, hfirst h hfit.left, ok_bind, ih hrest hfit.right, HexData.push_push]

end Append

def chunk (buffer : List UInt8) (i : Nat) : List UInt8 := (buffer.drop i).take CR

def bytesText (text : UInt8 → Nat → List UInt8) (bs : List UInt8) (j : Nat) : List UInt8 :=
  (bs.zipIdx j).flatMap fun p => text p.1 p.2

def padText (n : Nat) : List UInt8 := (List.range' n (CR - n)).flatMap hexPad

def lineText (bs : List UInt8) (i : Nat) : List UInt8 :=
  hexOffset i ++ (bytesText hexByte bs 0 ++ (padText bs.length ++ (lit " " ++
    (bytesText asciiByte bs 0 ++ lit "\n"))))

section Line

variable {buffer bs : List UInt8} {h : HexData} {i j : Nat}

theorem chunk_length (buffer : List UInt8) (i : Nat) :
    (chunk buffer i).length = min (buffer.length - i) CR := by
  simp [chunk, Nat.min_comm]

theorem chunk_getElem {k : Nat} (hk : k < (chunk buffer i).length) :
    buffer[i + k]? = (chunk buffer i)[k]? := by
  rw [chunk_length] at hk
  rw [chunk, List.getElem?_take_of_lt (by omega), List.getElem?_drop]

@[simp] theorem bytesText_cons (text : UInt8 → Nat → List UInt8) (b : UInt8) (bs : List UInt8)
    (j : Nat) : bytesText text (b :: bs) j = text b j ++ bytesText text bs (j + 1) := by
  simp [bytesText]

theorem foldlM_appendByte (text : UInt8 → Nat → List UInt8)
    (hread : ∀ k < bs.length, buffer[i + (j + k)]? = bs[k]?) (hfit : h.Fits (bytesText text bs j)) :
    (List.range' j bs.length).foldlM (appendByte text buffer i) h =
      .ok (h.push (bytesText text bs j)) := by
  induction bs generalizing h j with
  | nil => simp [bytesText, HexData.push, pure, Except.pure]
  | cons b bs ih =>
    have hfirst : buffer[i + j]? = some b := by simpa using hread 0 (by simp)
    have hrest : ∀ k < bs.length, buffer[i + (j + 1 + k)]? = bs[k]? := by
      intro k hk
      have hnext := hread (k + 1) (by simpa using hk)
      have hadd : j + 1 + k = j + (k + 1) := by omega
      rwa [hadd]
    rw [bytesText_cons] at hfit ⊢
    have hstep : appendByte text buffer i h j = .ok (h.push (text b j)) := by
      simp only [appendByte, hfirst]
      exact HexData.append_of_fits hfit.left
    rw [List.length_cons, List.range'_succ, List.foldlM_cons, hstep, ok_bind,
      ih hrest hfit.right, HexData.push_push]

theorem foldlM_hexPad {n : Nat} (hfit : h.Fits (padText n)) :
    (List.range' n (CR - n)).foldlM (fun h j => h.append (hexPad j)) h =
      .ok (h.push (padText n)) :=
  foldlM_push (fun _ _ _ hfit => HexData.append_of_fits hfit) hfit

theorem hexLine_eq (hfit : h.Fits (lineText (chunk buffer i) i)) :
    hexLine buffer h i = .ok (h.push (lineText (chunk buffer i) i)) := by
  have hread : ∀ k < (chunk buffer i).length, buffer[i + (0 + k)]? = (chunk buffer i)[k]? := by
    intro k hk
    rw [Nat.zero_add]
    exact chunk_getElem hk
  unfold lineText at hfit ⊢
  unfold hexLine
  rw [hfit.append_bind]
  replace hfit := hfit.right
  rw [← chunk_length]
  dsimp only
  rw [foldlM_appendByte hexByte hread hfit.left, ok_bind]
  replace hfit := hfit.right
  rw [foldlM_hexPad hfit.left, ok_bind]
  replace hfit := hfit.right
  rw [hfit.append_bind]
  replace hfit := hfit.right
  rw [foldlM_appendByte asciiByte hread hfit.left, ok_bind]
  replace hfit := hfit.right
  rw [HexData.append_of_fits hfit]
  simp only [HexData.push_push, List.append_assoc]

def columnWidth (j : Nat) : Nat := 2 + j % 2

theorem hexByte_length (b : UInt8) (j : Nat) : (hexByte b j).length = columnWidth j := by
  have hlt := b.toNat_lt
  unfold hexByte columnWidth
  rw [printUnsigned_hex2 .lower hlt]
  split
  · rename_i hj
    rw [hj]
    rfl
  · rw [hex2_length]
    omega

theorem hexPad_length (j : Nat) : (hexPad j).length = columnWidth j := by
  unfold hexPad columnWidth
  split
  · rename_i hj
    rw [hj]
    rfl
  · have hj : j % 2 = 0 := by omega
    rw [hj]
    rfl

theorem hexBytes_length (bs : List UInt8) (j : Nat) :
    (bytesText hexByte bs j).length = ((List.range' j bs.length).map columnWidth).sum := by
  induction bs generalizing j with
  | nil => rfl
  | cons b bs ih => simp [hexByte_length, ih, List.range'_succ]

theorem column_length (hbs : bs.length ≤ CR) :
    (bytesText hexByte bs 0 ++ padText bs.length).length = 40 := by
  have hpad : (padText bs.length).length =
      ((List.range' bs.length (CR - bs.length)).map columnWidth).sum := by
    simp [padText, List.length_flatMap, hexPad_length]
  have happend : List.range' 0 bs.length ++ List.range' bs.length (CR - bs.length) =
      List.range' 0 CR := by
    have happend := List.range'_append_1 (s := 0) (m := bs.length) (n := CR - bs.length)
    rwa [Nat.zero_add, Nat.add_sub_cancel' hbs] at happend
  rw [List.length_append, hexBytes_length, hpad, ← List.sum_append, ← List.map_append, happend]
  rfl

theorem asciiBytes_length (bs : List UInt8) (j : Nat) :
    (bytesText asciiByte bs j).length = bs.length := by
  induction bs generalizing j with
  | nil => rfl
  | cons b bs ih =>
    have hone : (asciiByte b j).length = 1 := by
      unfold asciiByte
      split <;> rfl
    simp only [bytesText_cons, List.length_append, ih, hone, List.length_cons]
    omega

theorem hexOffset_length (hi : i < 2 ^ 28) : (hexOffset i).length ≤ 10 := by
  have hdigits := printUnsigned_length .lower (by decide : 1 < 16) (by decide : 0 < 7)
    (by omega : i < 16 ^ 7)
  have hspace : (lit " ").length = 1 := rfl
  have hcolon : (lit ": ").length = 2 := rfl
  simp only [printUnsigned, Nat.zero_sub, List.replicate_zero, List.nil_append] at hdigits
  simp only [hexOffset, printUnsigned, List.length_append, List.length_replicate, hspace, hcolon]
  omega

theorem lineText_length (hbs : bs.length ≤ CR) (hi : i < 2 ^ 28) :
    (lineText bs i).length ≤ 68 := by
  have hcolumn := column_length hbs
  have hoffset := hexOffset_length hi
  have hspace : (lit " ").length = 1 := rfl
  have hnewline : (lit "\n").length = 1 := rfl
  have hcr : CR = 16 := rfl
  simp only [List.length_append] at hcolumn
  simp only [lineText, List.length_append, asciiBytes_length, hspace, hnewline]
  omega

theorem printUnsigned_isSome (k : Case) {width n : Nat} :
    ∀ c ∈ printUnsigned k 16 width n, (hexValue c).isSome := by
  intro c hc
  rw [printUnsigned_padded, List.mem_map] at hc
  obtain ⟨d, hd, rfl⟩ := hc
  rw [hexValue_digitChar k (paddedDigits_lt (by decide) width n d hd)]
  rfl

theorem hexDigits_plain {width n : Nat} : ∀ c ∈ printUnsigned .lower 16 width n, c ≠ 10 := by
  rintro c hc rfl
  exact absurd (printUnsigned_isSome .lower 10 hc) (by decide)

theorem hexOffset_plain (i : Nat) : ∀ b ∈ hexOffset i, b ≠ 10 := by
  intro b hb
  simp only [hexOffset, List.mem_append] at hb
  rcases hb with (hb | hb) | hb
  · exact forall_mem_of_all (p := fun b => b ≠ 10) (by decide) b hb
  · exact hexDigits_plain b hb
  · exact forall_mem_of_all (p := fun b => b ≠ 10) (by decide) b hb

theorem hexByte_plain (b : UInt8) (j : Nat) : ∀ c ∈ hexByte b j, c ≠ 10 := by
  intro c hc
  unfold hexByte at hc
  split at hc
  · rcases List.mem_append.mp hc with hc | hc
    · exact hexDigits_plain c hc
    · exact forall_mem_of_all (p := fun b => b ≠ 10) (by decide) c hc
  · exact hexDigits_plain c hc

theorem hexPad_blank (j : Nat) : ∀ c ∈ hexPad j, c = 32 := by
  unfold hexPad
  split <;> exact forall_mem_of_all (by decide)

theorem asciiByte_plain (b : UInt8) (j : Nat) : ∀ c ∈ asciiByte b j, c ≠ 10 := by
  intro c hc
  unfold asciiByte at hc
  split at hc
  · rename_i hprint
    rw [List.mem_singleton.mp hc]
    rintro rfl
    exact absurd hprint (by decide)
  · exact forall_mem_of_all (p := fun b => b ≠ 10) (by decide) c hc

theorem bytesText_plain {text : UInt8 → Nat → List UInt8}
    (htext : ∀ b j, ∀ c ∈ text b j, c ≠ 10) (bs : List UInt8) (j : Nat) :
    ∀ c ∈ bytesText text bs j, c ≠ 10 := by
  intro c hc
  obtain ⟨p, -, hc⟩ := List.mem_flatMap.mp hc
  exact htext p.1 p.2 c hc

theorem padText_blank (n : Nat) : ∀ c ∈ padText n, c = 32 := by
  intro c hc
  obtain ⟨j, -, hc⟩ := List.mem_flatMap.mp hc
  exact hexPad_blank j c hc

theorem lineText_newline (bs : List UInt8) (i : Nat) :
    ∃ body, lineText bs i = body ++ [10] ∧ ∀ b ∈ body, b ≠ 10 := by
  refine ⟨hexOffset i ++ (bytesText hexByte bs 0 ++ (padText bs.length ++ (lit " " ++
    bytesText asciiByte bs 0))), ?_, ?_⟩
  · have hnewline : lit "\n" = [10] := by decide
    simp only [lineText, hnewline, List.append_assoc]
  · intro b hb
    simp only [List.mem_append] at hb
    rcases hb with hb | hb | hb | hb | hb
    · exact hexOffset_plain i b hb
    · exact bytesText_plain hexByte_plain bs 0 b hb
    · rw [padText_blank _ b hb]
      decide
    · exact forall_mem_of_all (p := fun b => b ≠ 10) (by decide) b hb
    · exact bytesText_plain asciiByte_plain bs 0 b hb

theorem lines_flatMap {α : Type} {l : List α} {f : α → List UInt8}
    (h : ∀ a, ∃ body, f a = body ++ [10] ∧ ∀ b ∈ body, b ≠ 10) :
    lines (l.flatMap f) = l.map f := by
  induction l with
  | nil => rfl
  | cons a l ih =>
    obtain ⟨body, hbody, hplain⟩ := h a
    rw [List.flatMap_cons, List.map_cons, hbody, List.append_assoc, List.singleton_append,
      lines_append _ hplain, ih]

theorem readColumn_blank {s : List UInt8} (h : ∀ c ∈ s, c = 32) : readColumn s = [] := by
  induction s with
  | nil => rfl
  | cons c s ih =>
    obtain ⟨rfl, hs⟩ := List.forall_mem_cons.mp h
    exact ih hs

theorem readColumn_pair {a b : UInt8} {x y : Nat} (ha : hexValue a = some x)
    (hb : hexValue b = some y) (s : List UInt8) :
    readColumn (a :: b :: s) = UInt8.ofNat (x * 16 + y) :: readColumn s := by
  have hne : a ≠ 32 := by
    rintro rfl
    cases ha
  rw [readColumn]
  · simp only [ha, hb]
  · intro h
    exact hne h

theorem readColumn_hexByte (b : UInt8) (j : Nat) (s : List UInt8) :
    readColumn (hexByte b j ++ s) = b :: readColumn s := by
  have hlt := b.toNat_lt
  have hvalue : UInt8.ofNat (b.toNat / 16 * 16 + b.toNat % 16) = b := by
    rw [Nat.div_add_mod', UInt8.ofNat_toNat]
  have hpair : ∀ t, readColumn (hex2 .lower b.toNat ++ t) = b :: readColumn t := by
    intro t
    have hread := readColumn_pair (hexValue_digitChar .lower (by omega : b.toNat / 16 < 16))
      (hexValue_digitChar .lower (by omega : b.toNat % 16 < 16)) t
    rwa [hvalue] at hread
  unfold hexByte
  rw [printUnsigned_hex2 .lower hlt]
  split
  · rw [List.append_assoc, hpair]
    rfl
  · exact hpair s

theorem readColumn_bytes (bs : List UInt8) (j : Nat) {s : List UInt8} (hs : ∀ c ∈ s, c = 32) :
    readColumn (bytesText hexByte bs j ++ s) = bs := by
  induction bs generalizing j with
  | nil => exact readColumn_blank hs
  | cons b bs ih => rw [bytesText_cons, List.append_assoc, readColumn_hexByte, ih]

theorem readHexLine_lineText (hbs : bs.length ≤ CR) (i : Nat) :
    readHexLine (lineText bs i) = some (i, bs) := by
  have hline : lineText bs i = 32 :: (printUnsigned .lower 16 4 i ++ 58 :: 32 ::
      ((bytesText hexByte bs 0 ++ padText bs.length) ++ (lit " " ++
        (bytesText asciiByte bs 0 ++ lit "\n")))) := by
    have hspace : lit " " = [32] := by decide
    have hcolon : lit ": " = [58, 32] := by decide
    simp [lineText, hexOffset, hspace, hcolon]
  have hdigits : ∀ c ∈ printUnsigned .lower 16 4 i, (decide (c ≠ 58)) = true := by
    intro c hc
    exact decide_eq_true (printUnsigned_plain .lower (by decide) (by decide) c hc).2.2
  have htake : (printUnsigned .lower 16 4 i ++ 58 :: 32 ::
      ((bytesText hexByte bs 0 ++ padText bs.length) ++ (lit " " ++
        (bytesText asciiByte bs 0 ++ lit "\n")))).takeWhile (fun c => c ≠ 58) =
      printUnsigned .lower 16 4 i := by
    rw [List.takeWhile_append_of_pos hdigits]
    simp
  rw [hline, readHexLine]
  have hoffset : readNumber 16 (printUnsigned .lower 16 4 i) = some i :=
    readNumber_print .lower (by decide) (Nat.le_refl 16) i
  simp only [htake, List.drop_left, hoffset, List.take_left' (column_length hbs),
    readColumn_bytes bs 0 (padText_blank bs.length), Option.map_some]

end Line

section Dump

variable {buffer : List UInt8}

def lineCount (buffLen : Nat) : Nat := (buffLen + CR - 1) / CR

theorem lineCount_eq (n : Nat) : lineCount n = (n + 15) / 16 := rfl

theorem hexDim_eq {n : Nat} (hn : n ≤ 2 ^ 28) : hexDim n = 75 * (lineCount n + 1 : Nat) := by
  induction n with
  | zero => rfl
  | succ n ih =>
    have hprev := ih (by omega)
    have hstep : hexDim (n + 1) =
        if n % CR = 0 then int32 (hexDim n + hexColumns) else hexDim n := by
      simp only [hexDim, List.range_succ, List.foldl_append, List.foldl_cons, List.foldl_nil]
    have hcolumns : hexColumns = 75 := rfl
    have hcr : CR = 16 := rfl
    rw [hstep, hprev, hcolumns, hcr, lineCount_eq, lineCount_eq]
    split
    · rw [int32_of_range (by omega) (by omega)]
      omega
    · omega

def offsets (buffLen : Nat) : List Nat := List.range' 0 (lineCount buffLen) CR

theorem offsets_eq (n : Nat) : offsets n = (List.range (lineCount n)).map (CR * ·) := by
  unfold offsets
  induction lineCount n with
  | zero => rfl
  | succ k ih => simp [List.range'_concat, List.range_succ, ih]

theorem offsets_length (n : Nat) : (offsets n).length = lineCount n := List.length_range'

theorem lt_of_mem_offsets {n i : Nat} (hi : i ∈ offsets n) : i < n := by
  rw [offsets_eq, List.mem_map] at hi
  obtain ⟨k, hk, rfl⟩ := hi
  have hlt := List.mem_range.mp hk
  have hcr : CR = 16 := rfl
  rw [lineCount_eq] at hlt
  rw [hcr]
  omega

theorem flatMap_chunk (buffer : List UInt8) :
    (offsets buffer.length).flatMap (chunk buffer) = buffer := by
  have hprefix : ∀ n, ((List.range n).map (CR * ·)).flatMap (chunk buffer) =
      buffer.take (CR * n) := by
    intro n
    induction n with
    | zero => simp
    | succ n ih =>
      rw [List.range_succ, List.map_append, List.flatMap_append, ih, Nat.mul_succ, List.take_add]
      simp [chunk]
  rw [offsets_eq, hprefix]
  refine List.take_of_length_le ?_
  have hcr : CR = 16 := rfl
  rw [lineCount_eq, hcr]
  omega

def linesText (buffer : List UInt8) : List UInt8 :=
  (offsets buffer.length).flatMap fun i => lineText (chunk buffer i) i

theorem chunk_le (buffer : List UInt8) (i : Nat) : (chunk buffer i).length ≤ CR := by
  rw [chunk_length]
  exact Nat.min_le_right _ _

theorem linesText_length (hlen : buffer.length ≤ 2 ^ 28) :
    (linesText buffer).length ≤ 68 * lineCount buffer.length := by
  have hbound : ∀ l : List Nat, (∀ i ∈ l, i < 2 ^ 28) →
      (l.flatMap fun i => lineText (chunk buffer i) i).length ≤ 68 * l.length := by
    intro l hl
    induction l with
    | nil => simp
    | cons i l ih =>
      obtain ⟨hi, hrest⟩ := List.forall_mem_cons.mp hl
      have hline := lineText_length (chunk_le buffer i) hi
      have htail := ih hrest
      rw [List.flatMap_cons, List.length_append, List.length_cons]
      omega
  have hlt : ∀ i ∈ offsets buffer.length, i < 2 ^ 28 := by
    intro i hi
    have := lt_of_mem_offsets hi
    omega
  rw [← offsets_length]
  exact hbound _ hlt

/-- All lines fit in the memory that was allocated. -/
theorem hexFormat_eq (hne : buffer ≠ []) (hlen : buffer.length ≤ 2 ^ 28) :
    hexFormat buffer = .ok ⟨hexDim buffer.length, 10 :: linesText buffer⟩ ∧
      (linesText buffer).length + 2 ≤ hexDim buffer.length := by
  have hnewline : lit "\n" = [10] := by decide
  have hlines := linesText_length hlen
  have hsize : ((linesText buffer).length : Int) + 2 ≤ hexDim buffer.length := by
    rw [hexDim_eq hlen]
    omega
  have hpos : buffer.length ≠ 0 := fun hzero => hne (List.length_eq_zero_iff.mp hzero)
  have hfit : (HexData.mk (hexDim buffer.length) []).Fits ([10] ++ linesText buffer) := by
    simp only [HexData.Fits, List.length_append, List.length_singleton, List.length_nil]
    omega
  have hloop : (offsets buffer.length).foldlM (hexLine buffer)
      ((HexData.mk (hexDim buffer.length) []).push [10]) =
        .ok (((HexData.mk (hexDim buffer.length) []).push [10]).push (linesText buffer)) :=
    foldlM_push (fun i _ h hfit => hexLine_eq hfit) hfit.right
  refine ⟨?_, hsize⟩
  rw [hexFormat, if_neg hpos, hnewline, hfit.append_bind]
  exact hloop

/-- For every buffer that is not empty, of up to `2 ^ 28` bytes: no text is written behind the
memory, and the lines are read as the offsets 0, 16, 32 and so on and the bytes of the buffer. -/
theorem hexFormat_faithful (hne : buffer ≠ []) (hlen : buffer.length ≤ 2 ^ 28) :
    ∃ h rows, hexFormat buffer = .ok h ∧ (h.text.length : Int) + 1 ≤ h.dim ∧
      readDump h.text = some rows ∧
      rows.map Prod.fst = (List.range rows.length).map (16 * ·) ∧
      rows.flatMap Prod.snd = buffer := by
  obtain ⟨hformat, hsize⟩ := hexFormat_eq hne hlen
  have hread : readDump (10 :: linesText buffer) =
      some ((offsets buffer.length).map fun i => (i, chunk buffer i)) := by
    have hlines : lines (linesText buffer) =
        ((offsets buffer.length).map fun i => (i, chunk buffer i)).map
          fun row => lineText row.2 row.1 := by
      rw [linesText, lines_flatMap fun i => lineText_newline (chunk buffer i) i, List.map_map]
      rfl
    rw [readDump, hlines]
    refine mapM_map_some ?_
    rintro row hrow
    obtain ⟨i, -, rfl⟩ := List.mem_map.mp hrow
    exact readHexLine_lineText (chunk_le buffer i) i
  refine ⟨_, _, hformat, ?_, hread, ?_, ?_⟩
  · simp only [List.length_cons]
    omega
  · have hfst : (Prod.fst ∘ fun i => (i, chunk buffer i)) = id := rfl
    rw [List.map_map, List.length_map, hfst, List.map_id, offsets_length]
    exact offsets_eq buffer.length
  · rw [List.flatMap_map]
    exact flatMap_chunk buffer

theorem hexFormat_faithful_hello :
    ∃ h rows, hexFormat [104, 101, 108, 108, 111] = .ok h ∧ (h.text.length : Int) + 1 ≤ h.dim ∧
      readDump h.text = some rows ∧
      rows.map Prod.fst = (List.range rows.length).map (16 * ·) ∧
      rows.flatMap Prod.snd = [104, 101, 108, 108, 111] :=
  hexFormat_faithful (by decide) (by decide)

example : (hexFormat [104, 101, 108, 108, 111]).map HexData.text = .ok
    (lit "\n 0000: 6865 6c6c 6f                             hello\n") := by decide

end Dump

end Lmap
