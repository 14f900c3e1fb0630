import Lmap.Library.CString

/-!
The standard texts of Internet addresses, and what they stand for: four numbers with dots
between them, and groups of hexadecimal digits with colons, of which one gap of two colons
stands for zeros and the last two may be written as four numbers.
-/

set_option autoImplicit false

namespace AddressGrammar
open CString

def readNumber (base : Nat) (s : List UInt8) : Option Nat :=
  if s = [] then none
  else (s.mapM fun c => (hexValue c).filter (· < base)).map fun ds => Nat.ofDigits base ds.reverse

/-- A byte in decimal, with no zeros in front. -/
def readByte (s : List UInt8) : Option UInt8 :=
  if 3 < s.length ∨ (s.head? = some 48 ∧ s ≠ [48]) then none
  else
    match readNumber 10 s with
    | none => none
    | some n => if n < 256 then some (UInt8.ofNat n) else none

def readDotted (s : List UInt8) : Option (List UInt8) :=
  if (s.splitOn 46).length = 4 then (s.splitOn 46).mapM readByte else none

def readGroup (s : List UInt8) : Option Nat := if 4 < s.length then none else readNumber 16 s

def readGroups (s : List UInt8) : Option (List Nat) :=
  if s = [] then some [] else (s.splitOn 58).mapM readGroup

/-- Groups, of which the last two can be written with dots. -/
def readTail (s : List UInt8) : Option (List Nat) :=
  match readDotted ((s.splitOn 58).getLastD []) with
  | some [a, b, c, d] =>
    ((s.splitOn 58).dropLast.mapM readGroup).map
      (· ++ [a.toNat * 256 + b.toNat, c.toNat * 256 + d.toNat])
  | _ => readGroups s

/-- What stands before and after the first two colons in a row. -/
def splitGap : List UInt8 → Option (List UInt8 × List UInt8)
  | [] => none
  | c :: s =>
    if c = 58 ∧ s.head? = some 58 then some ([], s.tail)
    else (splitGap s).map fun parts => (c :: parts.1, parts.2)

/-- The eight groups. A gap stands for one at least. -/
def readIp6 (s : List UInt8) : Option (List Nat) :=
  match splitGap s with
  | none => (readTail s).filter (·.length = 8)
  | some (l, r) =>
    match readGroups l, readTail r with
    | some left, some right =>
      if left.length + right.length ≤ 7 then
        some (left ++ (List.replicate (8 - left.length - right.length) 0 ++ right))
      else none
    | _, _ => none

def groupBytes (w : Nat) : List UInt8 := [UInt8.ofNat (w / 256), UInt8.ofNat (w % 256)]

def readIp6Bytes (s : List UInt8) : Option (List UInt8) :=
  (readIp6 s).map fun words => words.flatMap groupBytes

theorem mapM_map_some {α β : Type} {f : β → Option α} {g : α → β} {xs : List α}
    (h : ∀ x ∈ xs, f (g x) = some x) : (xs.map g).mapM f = some xs := by
  induction xs with
  | nil => rfl
  | cons x xs ih =>
    have hhead : f (g x) = some x := h x List.mem_cons_self
    have htail := ih fun y hy => h y (List.mem_cons_of_mem x hy)
    rw [List.map_cons, List.mapM_cons, hhead, htail]
    rfl

theorem printUnsigned_zero (k : Case) (base n : Nat) :
    printUnsigned k base 0 n = (printDigits base n).map (digitChar k) := by
  simp [printUnsigned]

theorem printDigits_lt {base n : Nat} (hb : 1 < base) : ∀ d ∈ printDigits base n, d < base := by
  intro d hd
  unfold printDigits at hd
  split at hd
  · rw [List.mem_singleton] at hd
    omega
  · exact Nat.digits_lt_base hb (List.mem_reverse.mp hd)

theorem printDigits_ne_nil (base n : Nat) : printDigits base n ≠ [] := by
  unfold printDigits
  split
  · exact List.cons_ne_nil 0 []
  · rename_i hn
    rw [Ne, List.reverse_eq_nil_iff, Nat.digits_eq_nil_iff_eq_zero]
    exact hn

theorem ofDigits_printDigits (base n : Nat) :
    Nat.ofDigits base (printDigits base n).reverse = n := by
  unfold printDigits
  split
  · rename_i hn
    rw [hn]
    rfl
  · rw [List.reverse_reverse, Nat.ofDigits_digits]

def paddedDigits (base width n : Nat) : List Nat :=
  List.replicate (width - (printDigits base n).length) 0 ++ printDigits base n

theorem printUnsigned_padded (k : Case) (base width n : Nat) :
    printUnsigned k base width n = (paddedDigits base width n).map (digitChar k) := by
  simp [printUnsigned, paddedDigits]

theorem paddedDigits_lt {base : Nat} (hb : 1 < base) (width n : Nat) :
    ∀ d ∈ paddedDigits base width n, d < base := by
  intro d hd
  rcases List.mem_append.mp hd with hd | hd
  · rw [List.eq_of_mem_replicate hd]
    omega
  · exact printDigits_lt hb d hd

theorem paddedDigits_ne_nil (base width n : Nat) : paddedDigits base width n ≠ [] := by
  simp [paddedDigits, printDigits_ne_nil]

theorem ofDigits_paddedDigits (base width n : Nat) :
    Nat.ofDigits base (paddedDigits base width n).reverse = n := by
  rw [paddedDigits, List.reverse_append, List.reverse_replicate,
    Nat.ofDigits_append_replicate_zero, ofDigits_printDigits]

theorem readNumber_print (k : Case) {base width : Nat} (hb : 1 < base) (hb' : base ≤ 16)
    (n : Nat) : readNumber base (printUnsigned k base width n) = some n := by
  have hdigit : ∀ d ∈ paddedDigits base width n,
      (hexValue (digitChar k d)).filter (· < base) = some d := by
    intro d hd
    have hlt := paddedDigits_lt hb width n d hd
    simp [hexValue_digitChar k (Nat.lt_of_lt_of_le hlt hb'), hlt]
  have hread : ((paddedDigits base width n).map (digitChar k)).mapM
      (fun c => (hexValue c).filter (· < base)) = some (paddedDigits base width n) :=
    mapM_map_some hdigit
  rw [printUnsigned_padded, readNumber, if_neg (by simpa using paddedDigits_ne_nil base width n),
    hread]
  exact congrArg some (ofDigits_paddedDigits base width n)

theorem printUnsigned_head (k : Case) {base n : Nat} (hb : 1 < base) (hb' : base ≤ 16)
    (h : (printUnsigned k base 0 n).head? = some 48) : printUnsigned k base 0 n = [48] := by
  by_cases hn : n = 0
  · subst hn
    rw [printUnsigned_zero]
    cases k <;> rfl
  · have hne : Nat.digits base n ≠ [] := by rwa [Ne, Nat.digits_eq_nil_iff_eq_zero]
    have hlast := Nat.getLast_digit_ne_zero base hn
    have hlt : (Nat.digits base n).getLast hne < 16 :=
      Nat.lt_of_lt_of_le (Nat.digits_lt_base hb (List.getLast_mem hne)) hb'
    have hzero : digitChar k 0 = 48 := by cases k <;> rfl
    rw [printUnsigned_zero, printDigits, if_neg hn, List.head?_map, List.head?_reverse,
      List.getLast?_eq_getLast_of_ne_nil hne, Option.map_some, Option.some.injEq, ← hzero,
      digitChar_inj hlt (by decide)] at h
    exact absurd h hlast

theorem readByte_print (b : UInt8) : readByte (printUnsigned .lower 10 0 b.toNat) = some b := by
  have hlt := b.toNat_lt
  have hlen : (printUnsigned .lower 10 0 b.toNat).length ≤ 3 :=
    printUnsigned_length .lower (by decide) (by decide) (by omega)
  have hnot : ¬ (3 < (printUnsigned .lower 10 0 b.toNat).length ∨
      (printUnsigned .lower 10 0 b.toNat).head? = some 48 ∧
        printUnsigned .lower 10 0 b.toNat ≠ [48]) := by
    rintro (hlong | ⟨hhead, hne⟩)
    · omega
    · exact hne (printUnsigned_head .lower (by decide) (by decide) hhead)
  rw [readByte, if_neg hnot, readNumber_print .lower (by decide) (by decide)]
  simp [hlt]

theorem readGroup_print {w : Nat} (h : w < 65536) :
    readGroup (printUnsigned .lower 16 0 w) = some w := by
  have hlen : (printUnsigned .lower 16 0 w).length ≤ 4 :=
    printUnsigned_length .lower (by decide) (by decide) h
  rw [readGroup, if_neg (by omega), readNumber_print .lower (by decide) (by decide)]

theorem printUnsigned_plain (k : Case) {base width n : Nat} (hb : 1 < base) (hb' : base ≤ 16) :
    ∀ b ∈ printUnsigned k base width n, b ≠ 0 ∧ b ≠ 46 ∧ b ≠ 58 := by
  have hall : ∀ i : Fin 16, digitChar k i.val ≠ 0 ∧ digitChar k i.val ≠ 46 ∧
      digitChar k i.val ≠ 58 := by cases k <;> decide
  intro b hbyte
  rw [printUnsigned_padded, List.mem_map] at hbyte
  obtain ⟨d, hd, rfl⟩ := hbyte
  exact hall ⟨d, Nat.lt_of_lt_of_le (paddedDigits_lt hb width n d hd) hb'⟩

theorem printUnsigned_ne_nil (k : Case) (base n : Nat) : printUnsigned k base 0 n ≠ [] := by
  rw [printUnsigned_zero, Ne, List.map_eq_nil_iff]
  exact printDigits_ne_nil base n

def dotted (bs : List UInt8) : List UInt8 :=
  (lit ".").intercalate (bs.map fun b => printUnsigned .lower 10 0 b.toNat)

def groups (ws : List Nat) : List UInt8 :=
  (lit ":").intercalate (ws.map (printUnsigned .lower 16 0))

theorem readDotted_dotted {bs : List UInt8} (h : bs.length = 4) :
    readDotted (dotted bs) = some bs := by
  have hne : (bs.map fun b => printUnsigned .lower 10 0 b.toNat) ≠ [] := by
    rw [Ne, List.map_eq_nil_iff]
    rintro rfl
    cases h
  have hsplit : (dotted bs).splitOn 46 = bs.map fun b => printUnsigned .lower 10 0 b.toNat := by
    refine List.splitOn_intercalate 46 ?_ hne
    intro field hfield hmem
    obtain ⟨b, -, rfl⟩ := List.mem_map.mp hfield
    exact (printUnsigned_plain .lower (by decide) (by decide) 46 hmem).2.1 rfl
  rw [readDotted, hsplit, if_pos (by rw [List.length_map, h])]
  exact mapM_map_some fun b _ => readByte_print b

theorem dotted_four (a b c d : UInt8) : dotted [a, b, c, d] =
    printUnsigned .lower 10 0 a.toNat ++ (lit "." ++ (printUnsigned .lower 10 0 b.toNat ++
      (lit "." ++ (printUnsigned .lower 10 0 c.toNat ++
        (lit "." ++ printUnsigned .lower 10 0 d.toNat))))) := by
  simp [dotted]

theorem dotted_fits {bs : List UInt8} (h : bs.length = 4) :
    (dotted bs).length ≤ 15 ∧ ∀ b ∈ dotted bs, b ≠ 0 := by
  have hlen : ∀ b : UInt8, (printUnsigned .lower 10 0 b.toNat).length ≤ 3 := by
    intro b
    have hlt := b.toNat_lt
    exact printUnsigned_length .lower (by decide) (by decide) (by omega)
  have hplain : ∀ b : UInt8, ∀ c ∈ printUnsigned .lower 10 0 b.toNat, c ≠ 0 := fun b c hc =>
    (printUnsigned_plain .lower (by decide) (by decide) c hc).1
  have hdot : (lit ".").length = 1 := rfl
  have hdot' : ∀ c ∈ lit ".", c ≠ 0 := forall_mem_of_all (by decide)
  match bs, h with
  | [a, b, c, d], _ =>
    have ha := hlen a
    have hb := hlen b
    have hc := hlen c
    have hd := hlen d
    rw [dotted_four]
    constructor
    · simp only [List.length_append]
      omega
    · simp only [List.forall_mem_append]
      exact ⟨hplain a, hdot', hplain b, hdot', hplain c, hdot', hplain d⟩

theorem splitOn_groups {ws : List Nat} (h : ws ≠ []) :
    (groups ws).splitOn 58 = ws.map (printUnsigned .lower 16 0) := by
  refine List.splitOn_intercalate 58 ?_ (by simpa using h)
  intro field hfield hmem
  obtain ⟨w, -, rfl⟩ := List.mem_map.mp hfield
  exact (printUnsigned_plain .lower (by decide) (by decide) 58 hmem).2.2 rfl

theorem readGroups_groups {ws : List Nat} (h : ∀ w ∈ ws, w < 65536) :
    readGroups (groups ws) = some ws := by
  cases ws with
  | nil => rfl
  | cons w ws =>
    have hne : groups (w :: ws) ≠ [] := by
      intro hnil
      have hsplit := splitOn_groups (List.cons_ne_nil w ws)
      rw [hnil] at hsplit
      obtain ⟨hw, -⟩ := List.cons.inj hsplit
      exact printUnsigned_ne_nil .lower 16 w hw.symm
    rw [readGroups, if_neg hne, splitOn_groups (List.cons_ne_nil w ws)]
    exact mapM_map_some fun v hv => readGroup_print (h v hv)

theorem last_group_no_dot (ws : List Nat) :
    (46 : UInt8) ∉ ((groups ws).splitOn 58).getLastD [] := by
  cases ws with
  | nil => decide
  | cons w ws =>
    have hne : (w :: ws).map (printUnsigned .lower 16 0) ≠ [] := by simp
    rw [splitOn_groups (List.cons_ne_nil w ws), List.getLastD_eq_getLast?,
      List.getLast?_eq_getLast_of_ne_nil hne, Option.getD_some]
    intro hmem
    obtain ⟨v, -, hv⟩ := List.mem_map.mp (List.getLast_mem hne)
    rw [← hv] at hmem
    exact (printUnsigned_plain .lower (by decide) (by decide) 46 hmem).2.1 rfl

theorem readTail_groups {ws : List Nat} (h : ∀ w ∈ ws, w < 65536) :
    readTail (groups ws) = some ws := by
  have hplain : readDotted (((groups ws).splitOn 58).getLastD []) = none := by
    rw [readDotted, List.splitOn_eq_singleton (last_group_no_dot ws)]
    rfl
  rw [readTail, hplain]
  exact readGroups_groups h

def colonGroups (ws : List Nat) : List UInt8 :=
  ws.flatMap fun w => 58 :: printUnsigned .lower 16 0 w

theorem groups_cons_cons (v w : Nat) (ws : List Nat) :
    groups (v :: w :: ws) = printUnsigned .lower 16 0 v ++ 58 :: groups (w :: ws) := by
  rw [groups, List.map_cons, List.map_cons, List.intercalate_cons_cons, ← List.map_cons,
    List.append_assoc]
  rfl

theorem groups_singleton (w : Nat) : groups [w] = printUnsigned .lower 16 0 w := by
  simp [groups]

theorem groups_cons (w : Nat) (ws : List Nat) :
    groups (w :: ws) = printUnsigned .lower 16 0 w ++ colonGroups ws := by
  induction ws generalizing w with
  | nil => simp [groups_singleton, colonGroups]
  | cons v ws ih =>
    rw [groups_cons_cons, ih v]
    rfl

theorem colonGroups_cons (w : Nat) (ws : List Nat) :
    colonGroups (w :: ws) = 58 :: groups (w :: ws) := by
  rw [groups_cons]
  rfl

theorem groups_plain (ws : List Nat) : ∀ b ∈ groups ws, b ≠ 0 := by
  have hgroup : ∀ w, ∀ b ∈ printUnsigned .lower 16 0 w, b ≠ 0 := fun w b hb =>
    (printUnsigned_plain .lower (by decide) (by decide) b hb).1
  cases ws with
  | nil => nofun
  | cons w ws =>
    rw [groups_cons]
    intro b hb
    rcases List.mem_append.mp hb with hhead | htail
    · exact hgroup w b hhead
    · obtain ⟨v, -, hv⟩ := List.mem_flatMap.mp htail
      rcases List.mem_cons.mp hv with rfl | hv
      · decide
      · exact hgroup v b hv

theorem splitGap_append {field : List UInt8} (h : ∀ b ∈ field, b ≠ 58) (s : List UInt8) :
    splitGap (field ++ s) = (splitGap s).map fun parts => (field ++ parts.1, parts.2) := by
  induction field with
  | nil => simp
  | cons c field ih =>
    have hc : c ≠ 58 := h c List.mem_cons_self
    have hnot : ¬ (c = 58 ∧ (field ++ s).head? = some 58) := fun hand => hc hand.1
    rw [List.cons_append, splitGap, if_neg hnot, ih fun b hb => h b (List.mem_cons_of_mem c hb)]
    cases splitGap s <;> rfl

theorem splitGap_colon {field : List UInt8} (h : ∀ b ∈ field, b ≠ 58) (hne : field ≠ [])
    (s : List UInt8) : splitGap (58 :: (field ++ s)) =
      (splitGap s).map fun parts => (58 :: (field ++ parts.1), parts.2) := by
  have hnot : ¬ ((58 : UInt8) = 58 ∧ (field ++ s).head? = some 58) := by
    cases field with
    | nil => exact absurd rfl hne
    | cons c field =>
      rintro ⟨-, hhead⟩
      exact h c List.mem_cons_self (Option.some.inj hhead)
  rw [splitGap, if_neg hnot, splitGap_append h]
  cases splitGap s <;> rfl

theorem group_no_colon (w : Nat) : ∀ b ∈ printUnsigned .lower 16 0 w, b ≠ 58 :=
  fun b hb => (printUnsigned_plain .lower (by decide) (by decide) b hb).2.2

theorem splitGap_groups_append (ws : List Nat) {s : List UInt8} :
    splitGap (groups ws ++ s) = (splitGap s).map fun parts => (groups ws ++ parts.1, parts.2) := by
  have hcolon : ∀ (ws : List Nat) (w : Nat), splitGap (58 :: (groups (w :: ws) ++ s)) =
      (splitGap s).map fun parts => (58 :: (groups (w :: ws) ++ parts.1), parts.2) := by
    intro ws
    induction ws with
    | nil =>
      intro w
      rw [groups_singleton]
      exact splitGap_colon (group_no_colon w) (printUnsigned_ne_nil .lower 16 w) s
    | cons v ws ih =>
      intro w
      rw [groups_cons_cons, List.append_assoc, List.cons_append,
        splitGap_colon (group_no_colon w) (printUnsigned_ne_nil .lower 16 w), ih v]
      cases splitGap s <;> simp
  cases ws with
  | nil => simp [groups]
  | cons w ws =>
    cases ws with
    | nil =>
      rw [groups_singleton]
      exact splitGap_append (group_no_colon w) s
    | cons v ws =>
      rw [groups_cons_cons, List.append_assoc, List.cons_append,
        splitGap_append (group_no_colon w), hcolon ws v]
      cases splitGap s <;> simp

theorem readIp6_groups {ws : List Nat} (h : ∀ w ∈ ws, w < 65536) (hlen : ws.length = 8) :
    readIp6 (groups ws) = some ws := by
  have hnone : splitGap (groups ws) = none := by
    have happend := splitGap_groups_append ws (s := [])
    rwa [List.append_nil] at happend
  rw [readIp6, hnone]
  simp [readTail_groups h, hlen]

theorem readIp6_gap {left right : List Nat} (hl : ∀ w ∈ left, w < 65536)
    (hr : ∀ w ∈ right, w < 65536) (hlen : left.length + right.length ≤ 7) :
    readIp6 (groups left ++ (58 :: 58 :: groups right)) =
      some (left ++ (List.replicate (8 - left.length - right.length) 0 ++ right)) := by
  have hgap : splitGap (groups left ++ (58 :: 58 :: groups right)) =
      some (groups left, groups right) := by
    rw [splitGap_groups_append]
    simp [splitGap]
  rw [readIp6, hgap]
  simp only [readGroups_groups hl, readTail_groups hr]
  rw [if_pos hlen]

end AddressGrammar
