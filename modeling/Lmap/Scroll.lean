import Lmap.Machine

/-!
The scrolling windows: a pad of which some lines are shown, and the bar that says which.
-/

set_option autoImplicit false

namespace Lmap

/-- `struct scrolling_window`, without the handles of its windows and its title. -/
structure ScrollWin where
  yScroll : Int
  yMax : Int
  lines : Int
  cols : Int
  x : Int
  y : Int
  deriving DecidableEq, Repr

def short (x : Int) : Int := Int.bmod x (2 ^ 16)

/-- What `lmap_drawscroller` draws in reverse on the bar. -/
structure Thumb where
  vpos : Int
  height : Int
  col : Int
  deriving DecidableEq, Repr

def lmapNewscrollwin (lines cols y x maxlines : Int) : ScrollWin :=
  ⟨int32 (maxlines - int32 (lines - 2)), maxlines, lines, cols, x, y⟩

/-- `none` where it divides by zero. -/
def lmapDrawscroller (win : ScrollWin) : Option Thumb :=
  if win.yMax = 0 then none
  else
    let rows := int32 (win.lines - 2)
    let height := short ((int32 (rows * rows)).tdiv win.yMax)
    let vpos := short ((int32 (win.lines * win.yScroll)).tdiv win.yMax)
    let height := if height < 1 then 1 else height
    let vpos := if vpos = 0 then 1 else vpos
    let vpos := if vpos > int32 (int32 (win.lines - 1) - height)
      then short (int32 (int32 (win.lines - 1) - height)) else vpos
    some ⟨vpos, height, int32 (int32 (win.x + win.cols) - 1)⟩

def lmapScroll (win : ScrollWin) (delta : Int) : ScrollWin :=
  let win := { win with yScroll := int32 (win.yScroll + delta) }
  let win := { win with yScroll := if win.yScroll < 0 then 0 else win.yScroll }
  { win with yScroll :=
      if win.yScroll > int32 (win.yMax - int32 (win.lines - 2))
      then int32 (win.yMax - int32 (win.lines - 2)) else win.yScroll }

def thumbHeight (lines yMax : Int) : Int := max 1 ((lines - 2) * (lines - 2) / yMax)

def thumbPos (lines yMax yScroll : Int) : Int :=
  min (max 1 (lines * yScroll / yMax)) (lines - 1 - thumbHeight lines yMax)

/-- The sizes of a window that is not larger than its pad, and so small that the products of
`lmap_drawscroller` are of type `int`, and its lines of type `short`. -/
structure Fits (lines yMax : Int) : Prop where
  rows : 3 ≤ lines
  filled : lines - 2 ≤ yMax
  small : lines < 2 ^ 15
  product : lines * yMax < 2 ^ 31

structure ScrollWin.Inv (win : ScrollWin) : Prop where
  fits : Fits win.lines win.yMax
  top : 0 ≤ win.yScroll
  bottom : win.yScroll + (win.lines - 2) ≤ win.yMax

section Arithmetic

variable {lines yMax yScroll : Int}

theorem short_of_range {x : Int} (h0 : 0 ≤ x) (h : x < 2 ^ 15) : short x = x := by
  unfold short
  exact Int.bmod_eq_of_le (by omega) (by omega)

theorem Fits.yMax_lt (h : Fits lines yMax) : 0 < yMax ∧ yMax < 2 ^ 31 := by
  obtain ⟨hrows, hfilled, -, hproduct⟩ := h
  have hpos : 0 < yMax := by omega
  have hle : 1 * yMax ≤ lines * yMax := Int.mul_le_mul_of_nonneg_right (by omega) hpos.le
  exact ⟨hpos, by omega⟩

theorem Fits.int32_rows (h : Fits lines yMax) : int32 (lines - 2) = lines - 2 := by
  have hrows := h.rows
  have hsmall := h.small
  exact int32_of_range (by omega) (by omega)

theorem Fits.int32_last (h : Fits lines yMax) :
    int32 (yMax - int32 (lines - 2)) = yMax - (lines - 2) := by
  obtain ⟨-, hlt⟩ := h.yMax_lt
  have hrows := h.rows
  have hfilled := h.filled
  rw [h.int32_rows]
  exact int32_of_range (by omega) (by omega)

theorem Fits.rows_quotient (h : Fits lines yMax) :
    0 ≤ (lines - 2) * (lines - 2) ∧ (lines - 2) * (lines - 2) < 2 ^ 31 ∧
      0 ≤ (lines - 2) * (lines - 2) / yMax ∧ (lines - 2) * (lines - 2) / yMax ≤ lines - 2 := by
  have hpos := h.yMax_lt.1
  obtain ⟨hrows, hfilled, -, hproduct⟩ := h
  have hsquare : 0 ≤ (lines - 2) * (lines - 2) := Int.mul_nonneg (by omega) (by omega)
  have hle : (lines - 2) * (lines - 2) ≤ (lines - 2) * yMax :=
    Int.mul_le_mul_of_nonneg_left hfilled (by omega)
  have hlines : (lines - 2) * yMax ≤ lines * yMax :=
    Int.mul_le_mul_of_nonneg_right (by omega) hpos.le
  exact ⟨hsquare, by omega, Int.ediv_nonneg hsquare hpos.le,
    Int.ediv_le_of_le_mul hpos hle⟩

theorem Fits.pos_quotient (h : Fits lines yMax) (htop : 0 ≤ yScroll)
    (hbottom : yScroll + (lines - 2) ≤ yMax) :
    0 ≤ lines * yScroll ∧ lines * yScroll < 2 ^ 31 ∧ 0 ≤ lines * yScroll / yMax ∧
      lines * yScroll / yMax ≤ lines := by
  have hpos := h.yMax_lt.1
  obtain ⟨hrows, -, -, hproduct⟩ := h
  have hnonneg : 0 ≤ lines * yScroll := Int.mul_nonneg (by omega) htop
  have hle : lines * yScroll ≤ lines * yMax :=
    Int.mul_le_mul_of_nonneg_left (by omega) (by omega)
  exact ⟨hnonneg, by omega, Int.ediv_nonneg hnonneg hpos.le, Int.ediv_le_of_le_mul hpos hle⟩

theorem Fits.thumbHeight_le (h : Fits lines yMax) :
    1 ≤ thumbHeight lines yMax ∧ thumbHeight lines yMax ≤ lines - 2 := by
  obtain ⟨-, -, -, hle⟩ := h.rows_quotient
  have hrows := h.rows
  unfold thumbHeight
  omega

theorem Fits.thumbPos_mono (h : Fits lines yMax) {yScroll' : Int} (hle : yScroll ≤ yScroll') :
    thumbPos lines yMax yScroll ≤ thumbPos lines yMax yScroll' := by
  have hrows := h.rows
  have hproduct : lines * yScroll ≤ lines * yScroll' :=
    Int.mul_le_mul_of_nonneg_left hle (by omega)
  have hquotient : lines * yScroll / yMax ≤ lines * yScroll' / yMax :=
    Int.ediv_le_ediv h.yMax_lt.1 hproduct
  unfold thumbPos
  omega

end Arithmetic

variable {win : ScrollWin}

/-- No step of the computation overflows, and no later assignment undoes an earlier one. -/
theorem lmapDrawscroller_eq (h : win.Inv) :
    lmapDrawscroller win = some ⟨thumbPos win.lines win.yMax win.yScroll,
      thumbHeight win.lines win.yMax, int32 (int32 (win.x + win.cols) - 1)⟩ := by
  obtain ⟨hpos, -⟩ := h.fits.yMax_lt
  have hrows := h.fits.rows
  have hsmall := h.fits.small
  obtain ⟨hsquare, hsquare', hheight, hheight'⟩ := h.fits.rows_quotient
  obtain ⟨hproduct, hproduct', hvpos, hvpos'⟩ := h.fits.pos_quotient h.top h.bottom
  obtain ⟨hone, hle⟩ := h.fits.thumbHeight_le
  have hdiv : short ((int32 ((win.lines - 2) * (win.lines - 2))).tdiv win.yMax) =
      (win.lines - 2) * (win.lines - 2) / win.yMax := by
    rw [int32_of_range (by omega) hsquare', Int.tdiv_eq_ediv_of_nonneg hsquare,
      short_of_range hheight (by omega)]
  have hdiv' : short ((int32 (win.lines * win.yScroll)).tdiv win.yMax) =
      win.lines * win.yScroll / win.yMax := by
    rw [int32_of_range (by omega) hproduct', Int.tdiv_eq_ediv_of_nonneg hproduct,
      short_of_range hvpos (by omega)]
  have hclamp : (if (win.lines - 2) * (win.lines - 2) / win.yMax < 1 then 1
      else (win.lines - 2) * (win.lines - 2) / win.yMax) = thumbHeight win.lines win.yMax := by
    unfold thumbHeight
    split <;> omega
  have hlast : int32 (int32 (win.lines - 1) - thumbHeight win.lines win.yMax) =
      win.lines - 1 - thumbHeight win.lines win.yMax := by
    rw [int32_of_range (x := win.lines - 1) (by omega) (by omega)]
    exact int32_of_range (by omega) (by omega)
  have hshort : short (win.lines - 1 - thumbHeight win.lines win.yMax) =
      win.lines - 1 - thumbHeight win.lines win.yMax := short_of_range (by omega) (by omega)
  simp only [lmapDrawscroller, if_neg hpos.ne', h.fits.int32_rows, hdiv, hdiv', hclamp, hlast,
    hshort, Option.some.injEq, Thumb.mk.injEq, and_true]
  unfold thumbPos
  split <;> split <;> omega

structure Thumb.Inside (thumb : Thumb) (lines : Int) : Prop where
  top : 1 ≤ thumb.vpos
  height : 1 ≤ thumb.height
  bottom : thumb.vpos + thumb.height ≤ lines - 1

theorem ScrollWin.Inv.inside (h : win.Inv) :
    ∃ thumb, lmapDrawscroller win = some thumb ∧ thumb.Inside win.lines ∧
      thumb.vpos = thumbPos win.lines win.yMax win.yScroll := by
  obtain ⟨hone, hle⟩ := h.fits.thumbHeight_le
  refine ⟨_, lmapDrawscroller_eq h, ⟨?_, hone, ?_⟩, rfl⟩
  · show 1 ≤ thumbPos win.lines win.yMax win.yScroll
    unfold thumbPos
    omega
  · show thumbPos win.lines win.yMax win.yScroll + thumbHeight win.lines win.yMax ≤ win.lines - 1
    unfold thumbPos
    omega

theorem inv_lmapNewscrollwin {lines maxlines : Int} (h : Fits lines maxlines) (cols y x : Int) :
    (lmapNewscrollwin lines cols y x maxlines).Inv := by
  have hfilled := h.filled
  have hy := h.int32_last
  refine ⟨h, ?_, ?_⟩
  · show 0 ≤ int32 (maxlines - int32 (lines - 2))
    omega
  · show int32 (maxlines - int32 (lines - 2)) + (lines - 2) ≤ maxlines
    omega

@[simp] theorem lmapScroll_lines (win : ScrollWin) (delta : Int) :
    (lmapScroll win delta).lines = win.lines := rfl

@[simp] theorem lmapScroll_yMax (win : ScrollWin) (delta : Int) :
    (lmapScroll win delta).yMax = win.yMax := rfl

/-- Wherever the sum comes to, the two assignments after it bring it back. -/
theorem ScrollWin.Inv.lmapScroll (h : win.Inv) (delta : Int) : (lmapScroll win delta).Inv := by
  have hfilled := h.fits.filled
  have hlast := h.fits.int32_last
  have hy : 0 ≤ (Lmap.lmapScroll win delta).yScroll ∧
      (Lmap.lmapScroll win delta).yScroll ≤ win.yMax - (win.lines - 2) := by
    simp only [Lmap.lmapScroll, hlast]
    split <;> split <;> omega
  exact ⟨h.fits, hy.1, by simpa using by omega⟩

theorem ScrollWin.Inv.foldl (h : win.Inv) (deltas : List Int) :
    (deltas.foldl Lmap.lmapScroll win).Inv ∧
      (deltas.foldl Lmap.lmapScroll win).lines = win.lines ∧
      (deltas.foldl Lmap.lmapScroll win).yMax = win.yMax := by
  induction deltas generalizing win with
  | nil => exact ⟨h, rfl, rfl⟩
  | cons delta deltas ih => exact ih (h.lmapScroll delta)

def scrolled (lines cols y x maxlines : Int) (deltas : List Int) : ScrollWin :=
  deltas.foldl lmapScroll (lmapNewscrollwin lines cols y x maxlines)

theorem scrolled_inv {lines maxlines : Int} (h : Fits lines maxlines) (cols y x : Int)
    (deltas : List Int) : (scrolled lines cols y x maxlines deltas).Inv ∧
      (scrolled lines cols y x maxlines deltas).lines = lines ∧
      (scrolled lines cols y x maxlines deltas).yMax = maxlines :=
  (inv_lmapNewscrollwin h cols y x).foldl deltas

/-- For all sizes and all histories: the window shows lines of the pad, the thumb is on the bar,
and it is no higher for a later line. -/
theorem scroll_view {lines maxlines : Int} (h : Fits lines maxlines) (cols y x : Int)
    (deltas : List Int) :
    0 ≤ (scrolled lines cols y x maxlines deltas).yScroll ∧
      (scrolled lines cols y x maxlines deltas).yScroll + (lines - 2) ≤ maxlines ∧
      ∃ thumb, lmapDrawscroller (scrolled lines cols y x maxlines deltas) = some thumb ∧
        thumb.Inside lines ∧
        ∀ deltas' thumb', lmapDrawscroller (scrolled lines cols y x maxlines deltas') =
            some thumb' →
          (scrolled lines cols y x maxlines deltas).yScroll ≤
            (scrolled lines cols y x maxlines deltas').yScroll →
          thumb.vpos ≤ thumb'.vpos := by
  obtain ⟨hinv, hlines, hmax⟩ := scrolled_inv h cols y x deltas
  obtain ⟨thumb, hthumb, hinside, hvpos⟩ := hinv.inside
  refine ⟨hinv.top, by simpa only [hlines, hmax] using hinv.bottom, thumb, hthumb,
    hlines ▸ hinside, ?_⟩
  intro deltas' thumb' hthumb' hle
  obtain ⟨hinv', hlines', hmax'⟩ := scrolled_inv h cols y x deltas'
  obtain ⟨thumb'', hsome, -, hvpos'⟩ := hinv'.inside
  cases hsome.symm.trans hthumb'
  rw [hvpos, hvpos', hlines, hmax, hlines', hmax']
  exact h.thumbPos_mono hle

/-- The window of the system messages. -/
theorem scroll_view_sys :
    0 ≤ (scrolled 10 80 14 0 150 [-10, 1]).yScroll ∧
      (scrolled 10 80 14 0 150 [-10, 1]).yScroll + (10 - 2) ≤ 150 ∧
      ∃ thumb, lmapDrawscroller (scrolled 10 80 14 0 150 [-10, 1]) = some thumb ∧
        thumb.Inside 10 ∧
        ∀ deltas' thumb', lmapDrawscroller (scrolled 10 80 14 0 150 deltas') = some thumb' →
          (scrolled 10 80 14 0 150 [-10, 1]).yScroll ≤ (scrolled 10 80 14 0 150 deltas').yScroll →
          thumb.vpos ≤ thumb'.vpos :=
  scroll_view ⟨by decide, by decide, by decide, by decide⟩ 80 14 0 [-10, 1]

end Lmap
