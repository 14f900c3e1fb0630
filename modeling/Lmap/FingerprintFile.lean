import Lmap.FingerprintTable

/-!
Database files of any content: which of their texts become entries, and what a comment,
a blank line or the buffers of the loader can change.
-/

set_option autoImplicit false

namespace Lmap
open CString

structure Scratch where
  finger : List UInt8
  os : List UInt8
  length_finger : finger.length = FINGER_LEN + 1
  length_os : os.length = OS_LEN + 1

def Scratch.filled (b : UInt8) : Scratch where
  finger := List.replicate (FINGER_LEN + 1) b
  os := List.replicate (OS_LEN + 1) b
  length_finger := List.length_replicate
  length_os := List.length_replicate

def refillBody (longBits : Nat) (fill : Load → List UInt8 × List UInt8) (w : Load) :
    Loop.Step Load Load :=
  loadBody longBits { w with finger := (fill w).1, os := (fill w).2 }

def refillInit (longBits : Nat) (fill : Load → List UInt8 × List UInt8)
    (finger os file : List UInt8) : Option Load :=
  Loop.run (refillBody longBits fill) (file.length + 1) ⟨file, finger, os, HashChain.empty, 0⟩

/-- The count that is returned, and every search. -/
def SameTable (longBits : Nat) (r r' : Option Load) : Prop :=
  ∃ w w', r = some w ∧ r' = some w' ∧ w.i = w'.i ∧
    ∀ f, fingerprintSearch longBits w.head f = fingerprintSearch longBits w'.head f

def cutLine (line : List UInt8) : List UInt8 := (cstr line).takeWhile (fun b => b != 35)

def loaded (file : List UInt8) : List (List UInt8) :=
  ((reads LINE_LEN file).map cutLine).filter (fun text => text ≠ [])

/-- There is nothing but white space before a `#`, if there is one. -/
def commentOrBlank (line : List UInt8) : Bool := (line.takeWhile (fun b => b != 35)).all isSpace

def stripped (file : List UInt8) : List UInt8 :=
  ((lines file).filter (fun l => !commentOrBlank l)).flatten

def surplus (file : List UInt8) : List (List UInt8) :=
  ((lines file).filter commentOrBlank).flatMap loaded

/-- Comments and blank lines do not matter, and neither does what is in the buffers. -/
def CommentsNeutral (longBits : Nat) (file : List UInt8) : Prop :=
  (∀ s : Scratch, SameTable longBits (fingerprintInit longBits s.finger s.os file)
    (fingerprintInit longBits s.finger s.os (stripped file))) ∧
  ∀ (s : Scratch) (fill : Load → Scratch),
    SameTable longBits (fingerprintInit longBits s.finger s.os file)
      (refillInit longBits (fun w => ((fill w).finger, (fill w).os)) s.finger s.os file)

def Skipped (text : List UInt8) : Prop := text.head? = some 35 ∨ text.head? = some 0

def CommentsSkipped (file : List UInt8) : Prop :=
  ∀ l ∈ lines file, commentOrBlank l = true → ∀ text ∈ reads LINE_LEN l, Skipped text

def KeysFilled (file : List UInt8) : Prop :=
  ∀ text ∈ reads LINE_LEN file, ¬ Skipped text → FINGER_LEN - 1 ≤ (cutLine text).length

def textEntry (text : List UInt8) : List UInt8 × List UInt8 :=
  (text.take (FINGER_LEN - 1) ++ [0], text.take (OS_LEN - 1))

/-- The surplus entries take the counter once round or more, and none of them is the last
with its key unless it says what the last of the others says. -/
def SurplusHidden (file : List UInt8) : Prop :=
  2 ^ 32 ∣ (surplus file).length ∧ ∀ f : List UInt8,
    HashChain.lastValue ((loaded file).map textEntry) (f.take FINGER_LEN) =
      HashChain.lastValue ((loaded (stripped file)).map textEntry) (f.take FINGER_LEN)

theorem cutLine_eq_nil {text : List UInt8} (hne : text ≠ []) :
    cutLine text = [] ↔ Skipped text := by
  cases text with
  | nil => exact absurd rfl hne
  | cons b text =>
    by_cases h0 : b = 0
    · simp [cutLine, cstr, Skipped, h0]
    · by_cases h35 : b = 35
      · simp [cutLine, cstr, Skipped, h35]
      · simp [cutLine, cstr, Skipped, h0, h35]

theorem cutLine_ne_zero (line : List UInt8) : ∀ b ∈ cutLine line, b ≠ 0 := by
  intro b hb
  have hcstr := List.mem_takeWhile_imp (List.takeWhile_subset _ hb)
  simpa using hcstr

theorem mem_loaded {file text : List UInt8} : text ∈ loaded file ↔
    ∃ line ∈ reads LINE_LEN file, ¬ Skipped line ∧ cutLine line = text := by
  simp only [loaded, List.mem_filter, List.mem_map, decide_eq_true_eq]
  constructor
  · rintro ⟨⟨line, hline, rfl⟩, hne⟩
    rw [Ne, cutLine_eq_nil (reads_ne_nil (by decide) hline)] at hne
    exact ⟨line, hline, hne, rfl⟩
  · rintro ⟨line, hline, hne, rfl⟩
    refine ⟨⟨line, hline, rfl⟩, ?_⟩
    rwa [Ne, cutLine_eq_nil (reads_ne_nil (by decide) hline)]

theorem loaded_of_fgets {file line rest : List UInt8}
    (h : fgets LINE_LEN file = some (line, rest)) :
    loaded file = if cutLine line = [] then loaded rest else cutLine line :: loaded rest := by
  rw [loaded, reads_of_fgets (by decide) h, List.map_cons, List.filter_cons]
  by_cases hcut : cutLine line = []
  · simp [hcut, loaded]
  · simp [hcut, loaded]

theorem loaded_lines (file : List UInt8) : loaded file = (lines file).flatMap loaded := by
  rw [loaded, reads_lines (by decide)]
  simp only [List.map_flatMap, List.filter_flatMap]
  rfl

theorem loaded_stripped (file : List UInt8) :
    loaded (stripped file) = ((lines file).filter (fun l => !commentOrBlank l)).flatMap loaded := by
  rw [loaded_lines, stripped, lines_filter]

theorem length_loaded (file : List UInt8) :
    (loaded file).length = (loaded (stripped file)).length + (surplus file).length := by
  rw [loaded_stripped, loaded_lines, surplus]
  induction lines file with
  | nil => rfl
  | cons l ls ih =>
    cases hl : commentOrBlank l with
    | true =>
      simp only [List.flatMap_cons, List.length_append, List.filter_cons, hl, Bool.not_true,
        Bool.false_eq_true, if_false, if_true]
      omega
    | false =>
      simp only [List.flatMap_cons, List.length_append, List.filter_cons, hl, Bool.not_false,
        Bool.false_eq_true, if_false, if_true]
      omega

theorem surplus_eq_nil {file : List UInt8} : surplus file = [] ↔ CommentsSkipped file := by
  simp only [surplus, List.flatMap_eq_nil_iff, List.mem_filter, CommentsSkipped]
  refine forall_congr' fun l => ?_
  constructor
  · intro h hl hcomment text htext
    by_contra hskip
    have hmem := mem_loaded.mpr ⟨text, htext, hskip, rfl⟩
    rw [h ⟨hl, hcomment⟩] at hmem
    exact absurd hmem List.not_mem_nil
  · rintro h ⟨hl, hcomment⟩
    rw [List.eq_nil_iff_forall_not_mem]
    intro text htext
    obtain ⟨line, hline, hskip, -⟩ := mem_loaded.mp htext
    exact hskip (h hl hcomment line hline)

theorem loaded_of_skipped {file : List UInt8} (h : CommentsSkipped file) :
    loaded file = loaded (stripped file) := by
  have hnil := surplus_eq_nil.mpr h
  rw [surplus, List.flatMap_eq_nil_iff] at hnil
  rw [loaded_stripped, loaded_lines]
  generalize lines file = ls at hnil
  induction ls with
  | nil => rfl
  | cons l ls ih =>
    cases hl : commentOrBlank l with
    | true =>
      have hempty : loaded l = [] := hnil l (by simp [hl])
      have hrest := ih (fun l' hl' => hnil l' (by simpa [hl] using .inr (by simpa using hl')))
      simp [hl, hrest, hempty]
    | false =>
      have hrest := ih (fun l' hl' => hnil l' (by simpa [hl] using hl'))
      simp [hl, hrest]

def entryOver (finger text : List UInt8) : List UInt8 × List UInt8 :=
  ((strlcpy finger text FINGER_LEN).take FINGER_LEN, text.take (OS_LEN - 1))

theorem entryOver_long (finger : List UInt8) {text : List UInt8}
    (h : FINGER_LEN - 1 ≤ text.length) : entryOver finger text = textEntry text := by
  rw [entryOver, strlcpy_truncates finger (by decide) h]
  rfl

variable (longBits : Nat)

theorem loadLine_skip (w : Load) {line : List UInt8} (h : cutLine line = []) :
    loadLine longBits w line = w := by
  simp only [cutLine] at h
  simp only [loadLine, h, if_true]

theorem loadLine_entry (w : Load) {line : List UInt8} (h : cutLine line ≠ []) :
    (loadLine longBits w line).head = HashChain.insert (fingerHash longBits) w.head
        (entryOver w.finger (cutLine line)).1 (entryOver w.finger (cutLine line)).2 ∧
      (loadLine longBits w line).i = int32 (w.i + 1) := by
  have hos := cstr_strlcpy w.os (by decide : 0 < OS_LEN) (cutLine_ne_zero line)
  simp only [cutLine] at h hos
  simp only [loadLine, if_neg h, hos, and_true]
  rfl

theorem int32_int32 (x : Int) : int32 (int32 x) = int32 x := by
  have h := int32_add x 0
  rwa [Int.add_zero, Int.add_zero] at h

theorem run_refill {fill : Load → List UInt8 × List UInt8}
    {entry : List UInt8 → List UInt8 × List UInt8} {n : Nat} {w : Load}
    (hentry : ∀ text ∈ loaded w.file, ∀ v, entryOver (fill v).1 text = entry text)
    (hi : int32 w.i = w.i) (hn : w.file.length < n) :
    ∃ w', Loop.run (refillBody longBits fill) n w = some w' ∧
      w'.head = HashChain.load (fingerHash longBits) w.head ((loaded w.file).map entry) ∧
      w'.i = int32 (w.i + (loaded w.file).length) := by
  induction n generalizing w with
  | zero => omega
  | succ n ih =>
    cases hget : fgets LINE_LEN w.file with
    | none =>
      have hnil := fgets_none hget
      have hb : refillBody longBits fill w =
          .leave { w with finger := (fill w).1, os := (fill w).2 } := by
        simp only [refillBody, loadBody, hget]
      refine ⟨_, Loop.run_leave hb n, ?_, ?_⟩
      · simp [hnil, loaded, HashChain.load]
      · simp [hnil, loaded, hi]
    | some next =>
      obtain ⟨line, rest⟩ := next
      let v : Load := ⟨rest, (fill w).1, (fill w).2, w.head, w.i⟩
      have hb : refillBody longBits fill w = .again (loadLine longBits v line) := by
        simp only [refillBody, loadBody, hget]
        rfl
      have hfile : (loadLine longBits v line).file = rest := loadLine_file longBits v line
      have hlt := fgets_rest_length (by decide) hget
      rw [Loop.run_again hb]
      have hsplit := loaded_of_fgets hget
      by_cases hcut : cutLine line = []
      · rw [if_pos hcut] at hsplit
        rw [loadLine_skip longBits v hcut]
        rw [hsplit] at hentry ⊢
        exact ih (w := v) hentry hi (by simp only [v]; omega)
      · rw [if_neg hcut] at hsplit
        obtain ⟨hhead, hcount⟩ := loadLine_entry longBits v hcut
        rw [hsplit] at hentry ⊢
        have hfirst : entryOver v.finger (cutLine line) = entry (cutLine line) :=
          hentry _ List.mem_cons_self w
        obtain ⟨w', hrun, hload, hlast⟩ := ih (w := loadLine longBits v line)
          (fun text ht => hentry text (by rw [hfile] at ht; exact List.mem_cons_of_mem _ ht))
          (by rw [hcount, int32_int32])
          (by rw [hfile]; omega)
        rw [hfile] at hload hlast
        refine ⟨w', hrun, ?_, ?_⟩
        · rw [hload, hhead, hfirst]
          rfl
        · rw [hlast, hcount, int32_add, List.length_cons]
          congr 1
          simp only [v]
          omega

theorem refillInit_spec (fill : Load → List UInt8 × List UInt8)
    (entry : List UInt8 → List UInt8 × List UInt8) (file finger os : List UInt8)
    (hentry : ∀ text ∈ loaded file, ∀ v, entryOver (fill v).1 text = entry text) :
    ∃ w, refillInit longBits fill finger os file = some w ∧ w.i = int32 (loaded file).length ∧
      ∀ f, fingerprintSearch longBits w.head f =
        HashChain.lastValue ((loaded file).map entry) (f.take FINGER_LEN) := by
  obtain ⟨w, hrun, hhead, hi⟩ := run_refill longBits
    (w := ⟨file, finger, os, HashChain.empty, 0⟩) hentry rfl (Nat.lt_succ_self file.length)
  refine ⟨w, hrun, by simpa using hi, fun f => ?_⟩
  rw [fingerprintSearch, hhead, HashChain.search_load]

/-- The loader as it is fills its buffers with what they hold. -/
theorem fingerprintInit_refill (finger os file : List UInt8) :
    fingerprintInit longBits finger os file =
      refillInit longBits (fun w => (w.finger, w.os)) finger os file := rfl

theorem keysFilled_iff {file : List UInt8} :
    KeysFilled file ↔ ∀ text ∈ loaded file, FINGER_LEN - 1 ≤ text.length := by
  constructor
  · intro h text htext
    obtain ⟨line, hline, hskip, rfl⟩ := mem_loaded.mp htext
    exact h line hline hskip
  · intro h line hline hskip
    exact h (cutLine line) (mem_loaded.mpr ⟨line, hline, hskip, rfl⟩)

theorem KeysFilled.stripped {file : List UInt8} (h : KeysFilled file) :
    KeysFilled (stripped file) := by
  rw [keysFilled_iff] at h ⊢
  intro text htext
  rw [loaded_stripped, List.mem_flatMap] at htext
  obtain ⟨l, hl, htext⟩ := htext
  refine h text ?_
  rw [loaded_lines, List.mem_flatMap]
  exact ⟨l, (List.mem_filter.mp hl).1, htext⟩

theorem refillInit_filled {file : List UInt8} (h : KeysFilled file)
    (fill : Load → List UInt8 × List UInt8) (finger os : List UInt8) :
    ∃ w, refillInit longBits fill finger os file = some w ∧ w.i = int32 (loaded file).length ∧
      ∀ f, fingerprintSearch longBits w.head f =
        HashChain.lastValue ((loaded file).map textEntry) (f.take FINGER_LEN) :=
  refillInit_spec longBits fill textEntry file finger os
    (fun text htext _ => entryOver_long _ (keysFilled_iff.mp h text htext))

theorem entryOver_last (finger text : List UInt8) : (entryOver finger text).1[FINGER_LEN - 1]? =
      if text.length < FINGER_LEN - 1 then finger[FINGER_LEN - 1]? else some 0 := by
  by_cases h : text.length < FINGER_LEN - 1
  · have htake : text.take (FINGER_LEN - 1) = text := List.take_of_length_le (by omega)
    have hsplit : FINGER_LEN - 1 - text.length = (FINGER_LEN - 1 - (text.length + 1)) + 1 := by
      omega
    have hback : text.length + 1 + (FINGER_LEN - 1 - (text.length + 1)) = FINGER_LEN - 1 := by
      omega
    rw [if_pos h, entryOver, strlcpy, if_neg (by decide), htake,
      List.getElem?_take_of_lt (by decide), List.getElem?_append_right (by omega), hsplit,
      List.getElem?_cons_succ, List.getElem?_drop, hback]
  · have hlong : FINGER_LEN - 1 ≤ text.length := by omega
    have hkey : (text.take (FINGER_LEN - 1)).length = FINGER_LEN - 1 := by
      rw [List.length_take]
      omega
    rw [if_neg h, entryOver_long finger hlong, textEntry,
      List.getElem?_append_right (by omega), hkey, Nat.sub_self]
    rfl

variable {longBits}

theorem keysFilled_of_neutral {file : List UInt8} (h : CommentsNeutral longBits file) :
    KeysFilled file := by
  rw [keysFilled_iff]
  intro text htext
  by_contra hshort
  let one := Scratch.filled 1
  let two := Scratch.filled 2
  obtain ⟨w₁, hrun₁, -, hsearch₁⟩ := refillInit_spec longBits
    (fun _ => (one.finger, one.os)) (entryOver one.finger) file
    one.finger one.os (fun _ _ _ => rfl)
  obtain ⟨w₂, hrun₂, -, hsearch₂⟩ := refillInit_spec longBits
    (fun _ => (two.finger, two.os)) (entryOver two.finger) file
    one.finger one.os (fun _ _ _ => rfl)
  obtain ⟨u₁, v₁, hu₁, hv₁, -, hsame₁⟩ := h.2 one (fun _ => one)
  obtain ⟨u₂, v₂, hu₂, hv₂, -, hsame₂⟩ := h.2 one (fun _ => two)
  cases hu₁.symm.trans hu₂
  cases hrun₁.symm.trans hv₁
  cases hrun₂.symm.trans hv₂
  have hbyte : ∀ t, (entryOver two.finger t).1[FINGER_LEN - 1]? ≠ some 1 := by
    intro t
    rw [entryOver_last]
    split <;> decide
  have hkeybyte : (entryOver one.finger text).1[FINGER_LEN - 1]? = some 1 := by
    rw [entryOver_last, if_pos (by omega)]
    rfl
  have hkey : (entryOver one.finger text).1.take FINGER_LEN = (entryOver one.finger text).1 := by
    rw [entryOver, List.take_take, Nat.min_self]
  have hsome : (HashChain.lastValue ((loaded file).map (entryOver one.finger))
      (entryOver one.finger text).1).isSome :=
    HashChain.lastValue_isSome (List.mem_map_of_mem htext)
  have hnone : HashChain.lastValue ((loaded file).map (entryOver two.finger))
      (entryOver one.finger text).1 = none := by
    rw [HashChain.lastValue, Option.map_eq_none_iff, List.find?_eq_none]
    intro e he
    rw [List.mem_reverse, List.mem_map] at he
    obtain ⟨t, -, rfl⟩ := he
    simp only [decide_eq_true_eq]
    intro heq
    exact hbyte t (heq ▸ hkeybyte)
  have hsame := (hsame₁ (entryOver one.finger text).1).symm.trans
    (hsame₂ (entryOver one.finger text).1)
  rw [hsearch₁, hsearch₂, hkey, hnone] at hsame
  rw [hsame] at hsome
  cases hsome

theorem int32_add_iff (n k : Nat) : int32 (n + k : Nat) = int32 n ↔ 2 ^ 32 ∣ k := by
  have hdef : ∀ x : Int, int32 x = if x % 2 ^ 32 < 2 ^ 31 then x % 2 ^ 32
      else x % 2 ^ 32 - 2 ^ 32 := fun x => Int.bmod_def _ _
  rw [hdef, hdef]
  split <;> split <;> omega

/-- Comments and blank lines do not matter exactly where no text is too short to fill a key
and the comments and blank lines are all skipped, or hidden behind other entries, as many
as take the counter round. -/
theorem comments_neutral_iff (longBits : Nat) (file : List UInt8) :
    CommentsNeutral longBits file ↔
      KeysFilled file ∧ (CommentsSkipped file ∨ SurplusHidden file) := by
  constructor
  · intro h
    have hkeys := keysFilled_of_neutral h
    refine ⟨hkeys, .inr ?_⟩
    let s := Scratch.filled 0
    obtain ⟨w, w', hw, hw', hi, hsame⟩ := h.1 s
    obtain ⟨u, hu, hcount, hsearch⟩ := refillInit_filled longBits hkeys
      (fun w => (w.finger, w.os)) s.finger s.os
    obtain ⟨u', hu', hcount', hsearch'⟩ := refillInit_filled longBits
      hkeys.stripped (fun w => (w.finger, w.os)) s.finger s.os
    cases hw.symm.trans hu
    cases hw'.symm.trans hu'
    constructor
    · rw [hcount, hcount', length_loaded] at hi
      exact (int32_add_iff _ _).mp hi
    · intro f
      rw [← hsearch, ← hsearch']
      exact hsame f
  · rintro ⟨hkeys, hskip⟩
    have hhidden : SurplusHidden file := by
      rcases hskip with hskip | hhidden
      · refine ⟨?_, fun f => by rw [loaded_of_skipped hskip]⟩
        rw [surplus_eq_nil.mpr hskip]
        exact Nat.dvd_zero _
      · exact hhidden
    constructor
    · intro s
      obtain ⟨u, hu, hcount, hsearch⟩ := refillInit_filled longBits hkeys
        (fun w => (w.finger, w.os)) s.finger s.os
      obtain ⟨u', hu', hcount', hsearch'⟩ := refillInit_filled longBits
        hkeys.stripped (fun w => (w.finger, w.os)) s.finger s.os
      refine ⟨u, u', hu, hu', ?_, fun f => ?_⟩
      · rw [hcount, hcount', length_loaded]
        exact (int32_add_iff _ _).mpr hhidden.1
      · rw [hsearch, hsearch', hhidden.2]
    · intro s fill
      obtain ⟨u, hu, hcount, hsearch⟩ := refillInit_filled longBits hkeys
        (fun w => (w.finger, w.os)) s.finger s.os
      obtain ⟨v, hv, hcount', hsearch'⟩ := refillInit_filled longBits hkeys
        (fun w => ((fill w).finger, (fill w).os)) s.finger s.os
      refine ⟨u, v, hu, hv, ?_, fun f => ?_⟩
      · rw [hcount, hcount']
      · rw [hsearch, hsearch']

def blankLineFile : List UInt8 :=
  lit "# passive fingerprints" ++ [10, 10] ++
    lit "0000:05B4:80:WS:0:0:1:0:S:2C:Novell netware 5.00" ++ [10]

/-- The blank line is counted as an entry. -/
theorem blankLine_not_neutral : ¬ CommentsNeutral 64 blankLineFile := by
  intro h
  obtain ⟨w, w', hw, hw', hi, -⟩ := h.1 (Scratch.filled 0)
  have htwo : (fingerprintInit 64 (Scratch.filled 0).finger (Scratch.filled 0).os
      blankLineFile).map (fun w => w.i) = some 2 := by decide +kernel
  have hone : (fingerprintInit 64 (Scratch.filled 0).finger (Scratch.filled 0).os
      (stripped blankLineFile)).map (fun w => w.i) = some 1 := by decide +kernel
  rw [hw] at htwo
  rw [hw'] at hone
  have hcount : w.i = 2 := Option.some.inj htwo
  have hcount' : w'.i = 1 := Option.some.inj hone
  omega

end Lmap
