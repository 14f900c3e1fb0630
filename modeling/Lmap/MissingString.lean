import Lmap.Library.CString
import Lmap.Library.Loop
import Lmap.Machine

/-!
`strlcpy` and `strlcat` as the program brings them along for systems without them, pointer by
pointer, and the line that `debug_msg` builds with the two.
-/

set_option autoImplicit false

namespace Lmap
namespace Missing
open CString

def peek (buf : List UInt8) (i : Nat) : Except Fault UInt8 := readU8 (Memory.ofList buf) i

def poke (buf : List UInt8) (i : Nat) (b : UInt8) : Except Fault (List UInt8) :=
  if i < buf.length then .ok (buf.set i b) else .error .outOfRange

/-- Of a string that has no end, the call reads on. -/
def strlen (s : List UInt8) : Except Fault Nat :=
  if 0 ∈ s then .ok (cstr s).length else .error .outOfRange

structure Copy where
  dst : List UInt8
  d : Nat
  s : Nat
  n : Nat
  deriving DecidableEq, Repr

def copyBody (src : List UInt8) (w : Copy) : Loop.Step Copy (Except Fault Copy) :=
  match peek src w.s with
  | .error f => .leave (.error f)
  | .ok c =>
    if c = 0 then .leave (.ok w)
    else if w.n ≠ 1 then
      match poke w.dst w.d c with
      | .ok dst => .again ⟨dst, w.d + 1, w.s + 1, w.n - 1⟩
      | .error f => .leave (.error f)
    else .again { w with s := w.s + 1 }

def copy (src : List UInt8) (w : Copy) : Except Fault Copy :=
  match Loop.run (copyBody src) (src.length + 1) w with
  | some res => res
  | none => .error .hang

def strlcpy (dst src : List UInt8) (siz : Nat) : Except Fault (List UInt8 × Nat) :=
  if siz = 0 then do
    let n ← strlen src
    pure (dst, n)
  else do
    let w ← copy src ⟨dst, 0, 0, siz⟩
    let dst ← poke w.dst w.d 0
    pure (dst, w.s)

/-- `d` and `n`. The byte is looked at before `n` is. -/
def endBody (dst : List UInt8) (w : Nat × Nat) : Loop.Step (Nat × Nat) (Except Fault Nat) :=
  match peek dst w.1 with
  | .error f => .leave (.error f)
  | .ok c =>
    if c = 0 then .leave (.ok w.1)
    else if w.2 ≠ 0 then .again (w.1 + 1, w.2 - 1)
    else .leave (.ok w.1)

def findEnd (dst : List UInt8) (siz : Nat) : Except Fault Nat :=
  match Loop.run (endBody dst) (siz + 1) (0, siz) with
  | some res => res
  | none => .error .hang

def strlcat (dst src : List UInt8) (siz : Nat) : Except Fault (List UInt8 × Nat) := do
  let dlen ← findEnd dst siz
  let n := siz - dlen
  if n = 0 then do
    let len ← strlen src
    pure (dst, dlen + len)
  else do
    let w ← copy src ⟨dst, dlen, 0, n⟩
    let dst ← poke w.dst w.d 0
    pure (dst, dlen + w.s)

/-- The array that `debug_msg` copies its format to, with a newline; it holds whatever was on the
stack. -/
def debugMessage (stack : Nat → UInt8) (message : List UInt8) : Except Fault (List UInt8) := do
  let len ← strlen message
  let debugMessage := (List.range (len + 2)).map stack
  let (debugMessage, _) ← strlcpy debugMessage message (len + 2)
  let (debugMessage, _) ← strlcat debugMessage (lit "\n" ++ [0]) (len + 2)
  pure debugMessage

variable {src text rest front old : List UInt8} {s n fuel : Nat} {c : UInt8}

theorem peek_of_drop {buf : List UInt8} (h : buf.drop s = c :: rest) : peek buf s = .ok c := by
  refine readU8_of_some ?_
  rw [Memory.ofList, ← List.head?_drop, h]
  rfl

theorem poke_append (front : List UInt8) (o : UInt8) (old : List UInt8) (c : UInt8) :
    poke (front ++ o :: old) front.length c = .ok (front ++ c :: old) := by
  have hlt : front.length < (front ++ o :: old).length := by simp
  rw [poke, if_pos hlt, List.set_append_right _ _ (Nat.le_refl _), Nat.sub_self]
  rfl

theorem run_copy (hsrc : src.drop s = text ++ 0 :: rest) (htext : ∀ b ∈ text, b ≠ 0)
    (hn : 1 ≤ n) (hroom : n ≤ old.length) (hfuel : text.length < fuel) :
    ∃ w, Loop.run (copyBody src) fuel ⟨front ++ old, front.length, s, n⟩ = some (.ok w) ∧
      w.dst = front ++ (text.take (n - 1) ++ old.drop (text.take (n - 1)).length) ∧
      w.d = (front ++ text.take (n - 1)).length ∧ w.s = s + text.length := by
  induction text generalizing s n front old fuel with
  | nil =>
    obtain ⟨fuel, rfl⟩ : ∃ k, fuel = k + 1 := ⟨fuel - 1, by simp at hfuel; omega⟩
    have hleave : copyBody src ⟨front ++ old, front.length, s, n⟩ =
        .leave (.ok ⟨front ++ old, front.length, s, n⟩) := by
      rw [copyBody, peek_of_drop hsrc]
      simp
    exact ⟨_, Loop.run_leave hleave fuel, by simp, by simp, rfl⟩
  | cons c text ih =>
    obtain ⟨fuel, rfl⟩ : ∃ k, fuel = k + 1 := ⟨fuel - 1, by simp at hfuel; omega⟩
    obtain ⟨hc, htext⟩ := List.forall_mem_cons.mp htext
    have hnext : src.drop (s + 1) = text ++ 0 :: rest := by
      rw [← List.drop_drop, hsrc]
      rfl
    have hfuel' : text.length < fuel := by simpa using hfuel
    have hend : s + 1 + text.length = s + (c :: text).length := by
      rw [List.length_cons]
      omega
    by_cases hone : n = 1
    · subst hone
      have hagain : copyBody src ⟨front ++ old, front.length, s, 1⟩ =
          .again ⟨front ++ old, front.length, s + 1, 1⟩ := by
        rw [copyBody, peek_of_drop hsrc]
        simp [hc]
      obtain ⟨w, hrun, hdst, hwd, hws⟩ := ih hnext htext (Nat.le_refl 1) hroom hfuel'
      exact ⟨w, (Loop.run_again hagain fuel).trans hrun, by simpa using hdst, by simpa using hwd,
        hws.trans hend⟩
    · obtain ⟨k, rfl⟩ : ∃ k, n = k + 2 := ⟨n - 2, by omega⟩
      obtain ⟨o, old, rfl⟩ : ∃ o old', old = o :: old' := by
        cases old with
        | nil => simp at hroom
        | cons o old => exact ⟨o, old, rfl⟩
      have hagain : copyBody src ⟨front ++ o :: old, front.length, s, k + 2⟩ =
          .again ⟨(front ++ [c]) ++ old, (front ++ [c]).length, s + 1, k + 1⟩ := by
        rw [copyBody, peek_of_drop hsrc]
        simp [hc, poke_append]
      obtain ⟨w, hrun, hdst, hwd, hws⟩ : ∃ w,
          Loop.run (copyBody src) fuel
            ⟨(front ++ [c]) ++ old, (front ++ [c]).length, s + 1, k + 1⟩ = some (.ok w) ∧ _ :=
        ih hnext htext (Nat.succ_pos k) (by simpa using hroom) hfuel'
      exact ⟨w, (Loop.run_again hagain fuel).trans hrun, by simpa using hdst, by simpa using hwd,
        hws.trans hend⟩

theorem string_split {s : List UInt8} (h : 0 ∈ s) :
    ∃ rest, s = cstr s ++ 0 :: rest ∧ ∀ b ∈ cstr s, b ≠ 0 := by
  have hcstr : ∀ b ∈ cstr s, b ≠ 0 := fun b hb => by simpa using List.mem_takeWhile_imp hb
  have hsplit : s = cstr s ++ s.dropWhile (fun b => b != 0) :=
    List.takeWhile_append_dropWhile.symm
  cases hrest : s.dropWhile (fun b => b != 0) with
  | nil =>
    rw [hrest, List.append_nil] at hsplit
    exact absurd rfl (hcstr 0 (hsplit ▸ h))
  | cons c rest =>
    have hc : c = 0 := by
      have hhead := List.head_dropWhile_not (fun b => b != 0) (hrest ▸ List.cons_ne_nil c rest)
      simpa [hrest] using hhead
    exact ⟨rest, by rw [← hc, ← hrest]; exact hsplit, hcstr⟩

def filled (front old text : List UInt8) (n : Nat) : List UInt8 :=
  front ++ (text.take (n - 1) ++ 0 :: old.drop ((text.take (n - 1)).length + 1))

theorem copy_poke (hsrc : 0 ∈ src) (front : List UInt8) (hn : 1 ≤ n) (hroom : n ≤ old.length)
    (k : Nat) :
    (copy src ⟨front ++ old, front.length, 0, n⟩ >>= fun w =>
      poke w.dst w.d 0 >>= fun dst => .ok (dst, k + w.s)) =
        .ok (filled front old (cstr src) n, k + (cstr src).length) := by
  obtain ⟨rest, hsplit, hplain⟩ := string_split hsrc
  have hfuel : (cstr src).length < src.length + 1 :=
    Nat.lt_succ_of_le (List.takeWhile_prefix _).length_le
  obtain ⟨w, hrun, hdst, hwd, hws⟩ : ∃ w,
      Loop.run (copyBody src) (src.length + 1) ⟨front ++ old, front.length, 0, n⟩ =
        some (.ok w) ∧ _ :=
    run_copy hsplit hplain hn hroom hfuel
  have hcopy : copy src ⟨front ++ old, front.length, 0, n⟩ = .ok w := by rw [copy, hrun]
  rw [hcopy, ok_bind]
  have hlen : ((cstr src).take (n - 1)).length < old.length := by
    rw [List.length_take]
    omega
  obtain ⟨o, old', hold⟩ : ∃ o old', old.drop ((cstr src).take (n - 1)).length = o :: old' := by
    cases hdrop : old.drop ((cstr src).take (n - 1)).length with
    | nil =>
      have hzero := congrArg List.length hdrop
      rw [List.length_drop, List.length_nil] at hzero
      omega
    | cons o old' => exact ⟨o, old', rfl⟩
  have hnext : old.drop (((cstr src).take (n - 1)).length + 1) = old' := by
    rw [← List.drop_drop, hold]
    rfl
  rw [hdst, hold, hwd, hws, ← List.append_assoc, poke_append, ok_bind, filled, hnext, Nat.zero_add,
    List.append_assoc]

/-- The copy that the program brings along does what is said of `strlcpy` elsewhere, for a string
and a buffer of the size that is given. -/
theorem strlcpy_refines {dst : List UInt8} {siz : Nat} (hsrc : 0 ∈ src) (hsiz : siz ≤ dst.length) :
    strlcpy dst src siz = .ok (CString.strlcpy dst (cstr src) siz, (cstr src).length) := by
  unfold strlcpy CString.strlcpy
  by_cases hzero : siz = 0
  · rw [if_pos hzero, if_pos hzero, strlen, if_pos hsrc]
    rfl
  · rw [if_neg hzero, if_neg hzero]
    have hcopy := copy_poke hsrc [] (by omega : 1 ≤ siz) hsiz 0
    simp only [Nat.zero_add] at hcopy
    exact hcopy

theorem run_end {dst tail : List UInt8} {d : Nat} (hdst : dst.drop d = text ++ tail)
    (htext : ∀ b ∈ text, b ≠ 0) (n fuel : Nat) :
    Loop.run (endBody dst) (text.length + fuel) (d, text.length + n) =
      Loop.run (endBody dst) fuel (d + text.length, n) := by
  induction text generalizing d with
  | nil => simp
  | cons c text ih =>
    obtain ⟨hc, htext⟩ := List.forall_mem_cons.mp htext
    have hnext : dst.drop (d + 1) = text ++ tail := by
      rw [← List.drop_drop, hdst]
      rfl
    have hagain : endBody dst (d, text.length + 1 + n) = .again (d + 1, text.length + n) := by
      rw [endBody, peek_of_drop hdst]
      simp only [if_neg hc]
      rw [if_pos (by omega)]
      congr 2
      omega
    rw [List.length_cons, Nat.add_right_comm, Loop.run_again hagain, ih hnext htext]
    congr 2
    omega

theorem findEnd_string {dst : List UInt8} {siz : Nat} (h : 0 ∈ dst.take siz) :
    findEnd dst siz = .ok (cstr dst).length ∧ (cstr dst).length < siz := by
  obtain ⟨rest, hsplit, hplain⟩ := string_split (List.mem_of_mem_take h)
  have hlt : (cstr dst).length < siz := by
    by_contra hge
    rw [hsplit, List.take_append_of_le_length (by omega)] at h
    exact hplain 0 (List.mem_of_mem_take h) rfl
  refine ⟨?_, hlt⟩
  obtain ⟨k, rfl⟩ : ∃ k, siz = (cstr dst).length + k := ⟨siz - (cstr dst).length, by omega⟩
  have hrun := run_end (d := 0) hsplit hplain k (k + 1)
  rw [Nat.zero_add] at hrun
  have hleave : endBody dst ((cstr dst).length, k) = .leave (.ok (cstr dst).length) := by
    have hdrop : dst.drop (cstr dst).length = 0 :: rest := by
      have hdst := congrArg (List.drop (cstr dst).length) hsplit
      rwa [List.drop_left] at hdst
    rw [endBody, peek_of_drop hdrop]
    simp
  rw [findEnd, Nat.add_assoc, hrun, Loop.run_leave hleave]

theorem findEnd_full {dst : List UInt8} {siz : Nat} (hsiz : siz ≤ dst.length)
    (h : 0 ∉ dst.take siz) :
    findEnd dst siz = if siz < dst.length then .ok siz else .error .outOfRange := by
  have hplain : ∀ b ∈ dst.take siz, b ≠ 0 := fun b hb heq => h (heq ▸ hb)
  have hlen : (dst.take siz).length = siz := List.length_take_of_le hsiz
  have hrun := run_end (d := 0) (List.take_append_drop siz dst).symm hplain 0 1
  simp only [hlen, Nat.add_zero, Nat.zero_add] at hrun
  rw [findEnd, hrun]
  by_cases hlt : siz < dst.length
  · rw [if_pos hlt]
    have hdrop : dst.drop siz = dst[siz] :: dst.drop (siz + 1) := List.drop_eq_getElem_cons hlt
    have hleave : endBody dst (siz, 0) = .leave (.ok siz) := by
      rw [endBody, peek_of_drop hdrop]
      simp
    rw [Loop.run_leave hleave]
  · rw [if_neg hlt]
    have hpeek : peek dst siz = .error .outOfRange :=
      readU8_of_none (List.getElem?_eq_none (Nat.le_of_not_lt hlt))
    have hleave : endBody dst (siz, 0) = .leave (.error .outOfRange) := by
      rw [endBody, hpeek]
    rw [Loop.run_leave hleave]

/-- A string is put behind the one in the buffer, as far as it fits. Where there is none, nothing
is written; but the byte behind the size is read, which the buffer has to have. -/
theorem strlcat_spec {dst : List UInt8} {siz : Nat} (hsrc : 0 ∈ src) (hsiz : siz ≤ dst.length) :
    strlcat dst src siz =
      if 0 ∈ dst.take siz then
        .ok (filled (cstr dst) (dst.drop (cstr dst).length) (cstr src) (siz - (cstr dst).length),
          (cstr dst).length + (cstr src).length)
      else if siz < dst.length then .ok (dst, siz + (cstr src).length)
      else .error .outOfRange := by
  by_cases hend : 0 ∈ dst.take siz
  · rw [if_pos hend]
    obtain ⟨hfind, hlt⟩ := findEnd_string hend
    have hdst : cstr dst ++ dst.drop (cstr dst).length = dst := by
      have hpre : cstr dst <+: dst := List.takeWhile_prefix _
      rw [List.prefix_iff_eq_take.mp hpre, List.length_take,
        Nat.min_eq_left hpre.length_le, List.take_append_drop]
    have hroom : siz - (cstr dst).length ≤ (dst.drop (cstr dst).length).length := by
      rw [List.length_drop]
      omega
    have hcopy := copy_poke hsrc (cstr dst) (by omega : 1 ≤ siz - (cstr dst).length) hroom
      (cstr dst).length
    rw [hdst] at hcopy
    rw [strlcat, hfind, ok_bind]
    simp only
    rw [if_neg (by omega)]
    exact hcopy
  · rw [if_neg hend, strlcat, findEnd_full hsiz hend]
    by_cases hlt : siz < dst.length
    · rw [if_pos hlt, if_pos hlt, ok_bind, strlen, if_pos hsrc]
      simp only [Nat.sub_self, if_true]
      rfl
    · rw [if_neg hlt, if_neg hlt]
      rfl

theorem cstr_filled (hfront : ∀ b ∈ front, b ≠ 0) (htext : ∀ b ∈ text, b ≠ 0) :
    cstr (filled front old text n) = front ++ text.take (n - 1) := by
  have hplain : ∀ b ∈ front ++ text.take (n - 1), b ≠ 0 :=
    List.forall_mem_append.mpr ⟨hfront, fun b hb => htext b (List.mem_of_mem_take hb)⟩
  rw [filled, ← List.append_assoc, cstr_append_zero hplain]

/-- Both functions stay inside a buffer of the size that is given, and what they return is the
length that would have been needed; but `strlcat` does so only if there is a string in the buffer,
or one more byte behind it, and then it takes the size for the length and writes nothing. -/
theorem strl_in_bounds {dst : List UInt8} {siz : Nat} (hsrc : 0 ∈ src) (hsiz : siz ≤ dst.length) :
    strlcpy dst src siz = .ok (CString.strlcpy dst (cstr src) siz, (cstr src).length) ∧
      ((∃ res, strlcat dst src siz = .ok res) ↔ 0 ∈ dst.take siz ∨ siz < dst.length) ∧
      (0 ∈ dst.take siz → ∃ dst',
        strlcat dst src siz = .ok (dst', (cstr dst).length + (cstr src).length) ∧
          cstr dst' = (cstr dst ++ cstr src).take (siz - 1)) ∧
      (0 ∉ dst.take siz → siz < dst.length →
        strlcat dst src siz = .ok (dst, siz + (cstr src).length)) := by
  refine ⟨strlcpy_refines hsrc hsiz, ?_, fun hend => ?_, fun hend hlt => ?_⟩
  · rw [strlcat_spec hsrc hsiz]
    by_cases hend : 0 ∈ dst.take siz
    · simp [hend]
    · by_cases hlt : siz < dst.length
      · simp [hend, hlt]
      · simp [hend, hlt]
  · obtain ⟨-, hlt⟩ := findEnd_string hend
    obtain ⟨-, -, hdst⟩ := string_split (List.mem_of_mem_take hend)
    obtain ⟨-, -, htext⟩ := string_split hsrc
    refine ⟨_, by rw [strlcat_spec hsrc hsiz, if_pos hend], ?_⟩
    have hfirst : (cstr dst).take (siz - 1) = cstr dst := List.take_of_length_le (by omega)
    have hleft : siz - (cstr dst).length - 1 = siz - 1 - (cstr dst).length := by omega
    rw [cstr_filled hdst htext, List.take_append, hfirst, hleft]
  · rw [strlcat_spec hsrc hsiz, if_neg hend, if_pos hlt]

theorem strl_in_bounds_newline :
    strlcpy (lit "main" ++ [0, 7]) (lit "\n" ++ [0]) 6 =
        .ok (CString.strlcpy (lit "main" ++ [0, 7]) (cstr (lit "\n" ++ [0])) 6,
          (cstr (lit "\n" ++ [0])).length) ∧
      ((∃ res, strlcat (lit "main" ++ [0, 7]) (lit "\n" ++ [0]) 6 = .ok res) ↔
        0 ∈ (lit "main" ++ [0, 7]).take 6 ∨ 6 < (lit "main" ++ [0, 7]).length) ∧
      (0 ∈ (lit "main" ++ [0, 7]).take 6 → ∃ dst',
        strlcat (lit "main" ++ [0, 7]) (lit "\n" ++ [0]) 6 =
            .ok (dst', (cstr (lit "main" ++ [0, 7])).length + (cstr (lit "\n" ++ [0])).length) ∧
          cstr dst' = (cstr (lit "main" ++ [0, 7]) ++ cstr (lit "\n" ++ [0])).take (6 - 1)) ∧
      (0 ∉ (lit "main" ++ [0, 7]).take 6 → 6 < (lit "main" ++ [0, 7]).length →
        strlcat (lit "main" ++ [0, 7]) (lit "\n" ++ [0]) 6 =
          .ok (lit "main" ++ [0, 7], 6 + (cstr (lit "\n" ++ [0])).length)) :=
  strl_in_bounds (by decide) (by decide)

/-- `debug_msg` has the whole format with a newline behind it, whatever its array has held. -/
theorem debugMessage_whole (stack : Nat → UInt8) {message : List UInt8} (h : 0 ∈ message) :
    debugMessage stack message = .ok (cstr message ++ lit "\n" ++ [0]) := by
  obtain ⟨-, -, hplain⟩ := string_split h
  have hcstr : cstr (cstr message) = cstr message := cstr_of_plain hplain
  have hsize : ((List.range ((cstr message).length + 2)).map stack).length =
      (cstr message).length + 2 := by simp
  obtain ⟨o, hcopied⟩ : ∃ o, CString.strlcpy ((List.range ((cstr message).length + 2)).map stack)
      (cstr message) ((cstr message).length + 2) = cstr message ++ [0, o] := by
    have htake : (cstr message).take ((cstr message).length + 2 - 1) = cstr message :=
      List.take_of_length_le (by omega)
    refine ⟨stack ((cstr message).length + 1), ?_⟩
    rw [CString.strlcpy, if_neg (by omega), htake, ← List.map_drop, List.range_succ,
      List.drop_left' List.length_range]
    rfl
  have hfirst : cstr (cstr message ++ [0, o]) = cstr message := cstr_append_zero hplain
  have hlen : (cstr message ++ [0, o]).length = (cstr message).length + 2 := by simp
  have hend : 0 ∈ (cstr message ++ [0, o]).take ((cstr message).length + 2) := by
    rw [List.take_of_length_le (Nat.le_of_eq hlen)]
    simp
  rw [debugMessage, strlen, if_pos h, ok_bind]
  simp only [strlcpy_refines h (Nat.le_of_eq hsize.symm), ok_bind, hcopied]
  rw [strlcat_spec (by decide) (Nat.le_of_eq hlen.symm), if_pos hend, ok_bind, hfirst]
  simp [filled, lit, cstr]
  rfl

theorem debugMessage_whole_capture :
    debugMessage (fun _ => 37) (lit "capture_closed" ++ [0, 1]) =
      .ok (cstr (lit "capture_closed" ++ [0, 1]) ++ lit "\n" ++ [0]) :=
  debugMessage_whole (fun _ => 37) (by decide)

end Missing
end Lmap
