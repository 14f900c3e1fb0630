import Lmap.Fingerprint
import Lmap.Library.HashChain
import Lmap.Library.Loop

/-!
The database of fingerprints: the loader, which reads the file line by line into
chains, and the search.
-/

set_option autoImplicit false

namespace Lmap
open CString

def TABSIZE : Nat := 128
def LINE_LEN : Nat := 128

def FNV_32_PRIME : Nat := 0x01000193
def FNV1_32_INIT : Nat := 0x811c9dc5

/-- `Fnv32_t` is an `unsigned long`, of `longBits` bits. -/
def fnv32 (longBits : Nat) (buf : List UInt8) : Nat :=
  buf.foldl (fun hval b => (hval * FNV_32_PRIME % 2 ^ longBits) ^^^ b.toNat) FNV1_32_INIT

def fingerHash (longBits : Nat) (key : List UInt8) : Nat := fnv32 longBits key % TABSIZE

/-- `finger_head`, with the 28 bytes of `finger` as key and the string `os`. -/
abbrev FingerTable := HashChain.Table (List UInt8) (List UInt8)

/-- The variables of the loader. The two buffers are the array `finger` and the array `os`
of the stack frame, whose first content is whatever was there. -/
structure Load where
  file : List UInt8
  finger : List UInt8
  os : List UInt8
  head : FingerTable
  i : Int

def loadLine (longBits : Nat) (w : Load) (line : List UInt8) : Load :=
  let line := (cstr line).takeWhile (fun b => b != 35)
  if line = [] then w
  else
    let finger := strlcpy w.finger line FINGER_LEN
    let os := strlcpy w.os line OS_LEN
    { w with
      finger := finger
      os := os
      head := HashChain.insert (fingerHash longBits) w.head (finger.take FINGER_LEN) (cstr os)
      i := int32 (w.i + 1) }

def loadBody (longBits : Nat) (w : Load) : Loop.Step Load Load :=
  match fgets LINE_LEN w.file with
  | some (line, rest) => .again (loadLine longBits { w with file := rest } line)
  | none => .leave w

/-- The table starts with empty chains, and no more lines can be read than there are bytes. -/
def fingerprintInit (longBits : Nat) (finger os file : List UInt8) : Option Load :=
  Loop.run (loadBody longBits) (file.length + 1) ⟨file, finger, os, HashChain.empty, 0⟩

def fingerprintSearch (longBits : Nat) (head : FingerTable) (f : List UInt8) :
    Option (List UInt8) :=
  HashChain.search (fingerHash longBits) head (f.take FINGER_LEN)

theorem loadLine_file (longBits : Nat) (w : Load) (line : List UInt8) :
    (loadLine longBits w line).file = w.file := by
  simp only [loadLine]
  split <;> rfl

theorem fingerprintInit_isSome (longBits : Nat) (finger os file : List UInt8) :
    (fingerprintInit longBits finger os file).isSome := by
  refine Loop.run_isSome (P := fun _ => True) (μ := fun w => w.file.length) ?_ trivial
    (Nat.lt_succ_self _)
  intro w w' _ h
  unfold loadBody at h
  split at h
  · rename_i line rest hget
    cases h
    refine ⟨trivial, ?_⟩
    rw [loadLine_file]
    exact fgets_rest_length (by decide) hget
  · cases h

def Terminated (head : FingerTable) : Prop := ∀ c, ∀ e ∈ head c, 0 ∈ e.1

theorem terminated_loadLine (longBits : Nat) {w : Load} (line : List UInt8)
    (h : Terminated w.head) : Terminated (loadLine longBits w line).head := by
  simp only [loadLine]
  split
  · exact h
  · intro c e he
    simp only [HashChain.insert, Function.update_apply] at he
    split at he
    · rcases List.mem_cons.mp he with rfl | he
      · exact zero_mem_strlcpy _ _ (by decide)
      · exact h _ e he
    · exact h _ e he

/-- The terminator that `strlcpy` writes counts as the last byte of every key, whatever
the file. -/
theorem terminated_fingerprintInit {longBits : Nat} {finger os file : List UInt8} {w : Load}
    (h : fingerprintInit longBits finger os file = some w) : Terminated w.head := by
  refine Loop.run_invariant (P := fun w => Terminated w.head) (Q := fun w => Terminated w.head)
    ?_ ?_ ?_ h
  · intro w w' hw hb
    unfold loadBody at hb
    split at hb
    · cases hb
      exact terminated_loadLine longBits _ hw
    · cases hb
  · intro w w' hw hb
    unfold loadBody at hb
    split at hb
    · cases hb
    · cases hb
      exact hw
  · intro c e he
    simp [HashChain.empty] at he

theorem search_terminated (longBits : Nat) {head : FingerTable} (h : Terminated head)
    {f : List UInt8} (hf : ∀ b ∈ f, b ≠ 0) : fingerprintSearch longBits head f = none := by
  unfold fingerprintSearch HashChain.search
  rw [Option.map_eq_none_iff, List.find?_eq_none]
  intro e he
  have hzero := h _ e he
  simp only [decide_eq_true_eq]
  intro heq
  rw [heq] at hzero
  exact hf 0 (List.mem_of_mem_take hzero) rfl

structure FingerKey where
  text : List UInt8
  length_text : text.length = FINGER_LEN
  plain : ∀ b ∈ text, b ≠ 0 ∧ b ≠ 10 ∧ b ≠ 35
  colons : ∀ i ∈ [4, 9, 12, 15, 17, 19, 21, 23, 25], text[i]? = some 58

structure FingerLine where
  key : FingerKey
  os : List UInt8
  os_ne : os ≠ []
  os_length : os.length ≤ 59
  plain : ∀ b ∈ os, b ≠ 0 ∧ b ≠ 10 ∧ b ≠ 35

def FingerLine.text (l : FingerLine) : List UInt8 := l.key.text ++ lit ":" ++ l.os ++ [10]

def databaseFile (lines : List FingerLine) : List UInt8 := lines.flatMap FingerLine.text

def databaseEntries (lines : List FingerLine) : List (List UInt8 × List UInt8) :=
  lines.map (fun l => (l.key.text, l.os))

/-- What is stored for a line: 27 characters of the fingerprint and a NUL, and under them
the line itself from its first character, as far as `OS_LEN` goes. -/
def FingerLine.stored (l : FingerLine) : List UInt8 × List UInt8 :=
  (l.text.take 27 ++ [0], l.text.take 59)

theorem FingerLine.text_eq (l : FingerLine) :
    l.text = (l.key.text ++ lit ":" ++ l.os) ++ [10] := rfl

theorem FingerLine.body_plain (l : FingerLine) :
    ∀ b ∈ l.key.text ++ lit ":" ++ l.os, b ≠ 0 ∧ b ≠ 10 ∧ b ≠ 35 := by
  have hcolon : ∀ b ∈ lit ":", b ≠ 0 ∧ b ≠ 10 ∧ b ≠ 35 := forall_mem_of_all rfl
  intro b hb
  rcases List.mem_append.mp hb with hb | hb
  · rcases List.mem_append.mp hb with hb | hb
    · exact l.key.plain b hb
    · exact hcolon b hb
  · exact l.plain b hb

theorem FingerLine.text_plain (l : FingerLine) : ∀ b ∈ l.text, b ≠ 0 ∧ b ≠ 35 := by
  intro b hb
  rw [text_eq, List.mem_append] at hb
  rcases hb with hb | hb
  · exact ⟨(l.body_plain b hb).1, (l.body_plain b hb).2.2⟩
  · rw [List.mem_singleton] at hb
    subst hb
    decide

theorem FingerLine.length_body (l : FingerLine) :
    (l.key.text ++ lit ":" ++ l.os).length = 29 + l.os.length := by
  have hkey : l.key.text.length = 28 := l.key.length_text
  simp only [List.length_append, hkey, lit, List.length_map, String.length_toList]
  have hcolon : ":".length = 1 := rfl
  omega

theorem loadLine_text (longBits : Nat) (w : Load) (l : FingerLine) :
    (loadLine longBits w l.text).head =
      HashChain.insert (fingerHash longBits) w.head l.stored.1 l.stored.2 := by
  have hzero : ∀ b ∈ l.text, b ≠ 0 := fun b hb => (l.text_plain b hb).1
  have hcut : l.text.takeWhile (fun b => b != 35) = l.text := by
    rw [List.takeWhile_eq_self_iff]
    exact fun b hb => by simpa using (l.text_plain b hb).2
  have hne : ¬ l.text = [] := by simp [FingerLine.text_eq]
  have hlen : FINGER_LEN - 1 ≤ l.text.length := by
    rw [l.text_eq, List.length_append, l.length_body, FINGER_LEN]
    omega
  simp only [loadLine, cstr_of_plain hzero, hcut, if_neg hne,
    strlcpy_truncates w.finger (by decide) hlen, cstr_strlcpy w.os (by decide : 0 < OS_LEN) hzero]
  rfl

theorem run_databaseFile (longBits : Nat) (lines : List FingerLine) {n : Nat} {w : Load}
    (hfile : w.file = databaseFile lines) (hn : lines.length < n) :
    ∃ w', Loop.run (loadBody longBits) n w = some w' ∧
      w'.head = HashChain.load (fingerHash longBits) w.head (lines.map FingerLine.stored) := by
  induction lines generalizing n w with
  | nil =>
    obtain ⟨n, rfl⟩ : ∃ k, n = k + 1 := ⟨n - 1, by simp at hn; omega⟩
    have hb : loadBody longBits w = .leave w := by
      simp [loadBody, hfile, databaseFile, fgets]
    exact ⟨w, Loop.run_leave hb n, rfl⟩
  | cons l lines ih =>
    obtain ⟨n, rfl⟩ : ∃ k, n = k + 1 := ⟨n - 1, by simp at hn; omega⟩
    have hos := l.os_length
    have hget : fgets LINE_LEN w.file = some (l.text, databaseFile lines) := by
      have hsplit : w.file =
          (l.key.text ++ lit ":" ++ l.os) ++ 10 :: databaseFile lines := by
        simp [hfile, databaseFile, FingerLine.text]
      rw [hsplit, l.text_eq]
      refine fgets_newline _ (fun b hb => (l.body_plain b hb).2.1) ?_
      rw [l.length_body, LINE_LEN]
      omega
    have hb : loadBody longBits w =
        .again (loadLine longBits { w with file := databaseFile lines } l.text) := by
      simp only [loadBody, hget]
    obtain ⟨w', hrun, hhead⟩ := ih (n := n)
      (w := loadLine longBits { w with file := databaseFile lines } l.text)
      (loadLine_file longBits _ _) (by simpa using hn)
    exact ⟨w', by rw [Loop.run_again hb, hrun], by rw [hhead, loadLine_text]; rfl⟩

theorem length_le_databaseFile (lines : List FingerLine) :
    lines.length ≤ (databaseFile lines).length := by
  induction lines with
  | nil => simp
  | cons l lines ih =>
    have hpos : 0 < l.text.length := by simp [FingerLine.text_eq]
    simp only [databaseFile, List.flatMap_cons, List.length_append, List.length_cons] at ih ⊢
    omega

/-- The chains are invisible: a search gives what is stored for the last line with the key. -/
theorem fingerprintSearch_lines {longBits : Nat} {finger os : List UInt8}
    {lines : List FingerLine} {w : Load}
    (h : fingerprintInit longBits finger os (databaseFile lines) = some w) (f : List UInt8) :
    fingerprintSearch longBits w.head f =
      HashChain.lastValue (lines.map FingerLine.stored) (f.take FINGER_LEN) := by
  obtain ⟨w', hrun, hhead⟩ := run_databaseFile longBits lines
    (n := (databaseFile lines).length + 1) (w := ⟨_, finger, os, HashChain.empty, 0⟩) rfl
    (Nat.lt_succ_of_le (length_le_databaseFile lines))
  cases h.symm.trans hrun
  rw [fingerprintSearch, hhead, HashChain.search_load]

/-- The search after the load answers as the file says. -/
def Faithful (longBits : Nat) (finger os : List UInt8) (lines : List FingerLine) : Prop :=
  ∃ w, fingerprintInit longBits finger os (databaseFile lines) = some w ∧
    ∀ f : FingerKey, fingerprintSearch longBits w.head f.text =
      HashChain.lastValue (databaseEntries lines) f.text

/-- Only the empty file is searched as it reads: no fingerprint is ever found. -/
theorem fingerprint_faithful_iff (longBits : Nat) (finger os : List UInt8)
    (lines : List FingerLine) : Faithful longBits finger os lines ↔ lines = [] := by
  obtain ⟨w, hw⟩ := Option.isSome_iff_exists.mp
    (fingerprintInit_isSome longBits finger os (databaseFile lines))
  have hnone : ∀ f : FingerKey, fingerprintSearch longBits w.head f.text = none := fun f =>
    search_terminated longBits (terminated_fingerprintInit hw) (fun b hb => (f.plain b hb).1)
  constructor
  · rintro ⟨w', hw', hsearch⟩
    cases hw.symm.trans hw'
    cases lines with
    | nil => rfl
    | cons l lines =>
      have hsome : (HashChain.lastValue (databaseEntries (l :: lines)) l.key.text).isSome :=
        HashChain.lastValue_isSome (e := (l.key.text, l.os)) (by simp [databaseEntries])
      rw [← hsearch l.key, hnone l.key] at hsome
      cases hsome
  · rintro rfl
    exact ⟨w, hw, fun f => by rw [hnone f]; rfl⟩

def linuxLine : FingerLine where
  key :=
    { text := lit "0200:_MSS:80:00:0:0:0:0:A:LT"
      length_text := by decide
      plain := forall_mem_of_all rfl
      colons := by decide }
  os := lit "Linux 2.0.32-34"
  os_ne := by decide
  os_length := by decide
  plain := forall_mem_of_all rfl

theorem linuxLine_not_faithful :
    ¬ Faithful 64 (List.replicate 29 0) (List.replicate 61 0) [linuxLine] := by
  rintro ⟨w, hw, hsearch⟩
  have hnone := search_terminated 64 (terminated_fingerprintInit hw)
    (fun b hb => (linuxLine.key.plain b hb).1)
  have hsome : HashChain.lastValue (databaseEntries [linuxLine]) linuxLine.key.text =
    some (lit "Linux 2.0.32-34") := by decide
  cases hnone.symm.trans ((hsearch linuxLine.key).trans hsome)

end Lmap
