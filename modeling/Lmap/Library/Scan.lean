import Lmap.Library.CString

/-!
`sscanf`, for the directives that a format of numbers and names is made of: white space,
a byte of the text, a hexadecimal number and a run of bytes up to some others.
-/

set_option autoImplicit false

namespace Scan
open CString

inductive Directive where
  | space
  | byte (b : UInt8)
  /-- `%<width>X`. -/
  | hex (width : Nat)
  /-- `%<width>[^<stops>]`. -/
  | except (width : Nat) (stops : List UInt8)
  deriving DecidableEq, Repr

inductive Value where
  | int (v : Int)
  | text (s : List UInt8)
  deriving DecidableEq, Repr

inductive Stop where
  | done | mismatch | input
  deriving DecidableEq, Repr

def isHex (c : UInt8) : Bool := (hexValue c).isSome

def hexDigits (width : Nat) (s : List UInt8) : Option (Nat × List UInt8) :=
  let ds := (s.take width).takeWhile isHex
  if ds = [] then none else some (readHex 0 ds, s.drop ds.length)

/-- A prefix `0x` counts for the width. It is no number without a digit behind it, as in ISO C;
glibc before 2.42 reads it as 0. -/
def hexUnsigned (width : Nat) : List UInt8 → Option (Nat × List UInt8)
  | 48 :: x :: s =>
    if (x = 120 ∨ x = 88) ∧ 2 ≤ width then hexDigits (width - 2) s
    else hexDigits width (48 :: x :: s)
  | s => hexDigits width s

/-- So does a sign. -/
def hexSigned (width : Nat) : List UInt8 → Option (Int × List UInt8)
  | 45 :: s => (hexUnsigned (width - 1) s).map fun r => (-(r.1 : Int), r.2)
  | 43 :: s => (hexUnsigned (width - 1) s).map fun r => ((r.1 : Int), r.2)
  | s => (hexUnsigned width s).map fun r => ((r.1 : Int), r.2)

def scan : List Directive → List UInt8 → List Value × Stop
  | [], _ => ([], .done)
  | .space :: ds, s => scan ds (s.dropWhile isSpace)
  | .byte _ :: _, [] => ([], .input)
  | .byte b :: ds, c :: s => if c = b then scan ds s else ([], .mismatch)
  | .hex width :: ds, s =>
    if s.dropWhile isSpace = [] then ([], .input)
    else
      match hexSigned width (s.dropWhile isSpace) with
      | none => ([], .mismatch)
      | some (v, rest) => (.int v :: (scan ds rest).1, (scan ds rest).2)
  | .except width stops :: ds, s =>
    if s = [] then ([], .input)
    else
      let t := (s.take width).takeWhile fun c => c ∉ stops
      if t = [] then ([], .mismatch)
      else (.text t :: (scan ds (s.drop t.length)).1, (scan ds (s.drop t.length)).2)

/-- What `sscanf` returns; `EOF` is -1. -/
def returned (r : List Value × Stop) : Int :=
  if r.1 = [] ∧ r.2 = .input then -1 else r.1.length

theorem returned_eq_iff {r : List Value × Stop} {n : Nat} (hn : n ≠ 0) :
    returned r = n ↔ r.1.length = n := by
  unfold returned
  split
  · rename_i h
    rw [h.1, List.length_nil]
    omega
  · omega

section Values

variable {ds : List Directive} {s rest : List UInt8} {v : Int} {width : Nat}

theorem hexSigned_nil (width : Nat) : hexSigned width [] = none := by
  simp [hexSigned, hexUnsigned, hexDigits]

theorem scan_hex : (scan (.hex width :: ds) s).1 =
    match hexSigned width (s.dropWhile isSpace) with
    | none => []
    | some (v, rest) => .int v :: (scan ds rest).1 := by
  rw [scan]
  split
  · rename_i h
    rw [h, hexSigned_nil]
  · cases hexSigned width (s.dropWhile isSpace) <;> rfl

theorem scan_except {stops t : List UInt8}
    (ht : (s.take width).takeWhile (fun c => c ∉ stops) = t) :
    (scan (.except width stops :: ds) s).1 =
      if t = [] then [] else .text t :: (scan ds (s.drop t.length)).1 := by
  subst ht
  rw [scan]
  split
  · rename_i h
    simp [h]
  · dsimp only
    split <;> rfl

theorem hexDigits_rest {n : Nat} (h : hexDigits width s = some (n, rest)) :
    rest.length ≤ s.length := by
  simp only [hexDigits] at h
  split at h
  · cases h
  · cases h
    simp

theorem hexUnsigned_rest {n : Nat} (h : hexUnsigned width s = some (n, rest)) :
    rest.length ≤ s.length := by
  unfold hexUnsigned at h
  split at h
  · split at h
    · have := hexDigits_rest h
      simp only [List.length_cons]
      omega
    · exact hexDigits_rest h
  · exact hexDigits_rest h

theorem hexSigned_rest (h : hexSigned width s = some (v, rest)) : rest.length ≤ s.length := by
  have hmap : ∀ {w : Nat} {s : List UInt8} {g : Nat → Int},
      (hexUnsigned w s).map (fun r => (g r.1, r.2)) = some (v, rest) → rest.length ≤ s.length := by
    intro w s g h
    obtain ⟨r, hr, heq⟩ := Option.map_eq_some_iff.mp h
    cases heq
    exact hexUnsigned_rest hr
  unfold hexSigned at h
  split at h
  · have := hmap (g := fun n => -(n : Int)) h
    simp only [List.length_cons]
    omega
  · have := hmap (g := fun n => (n : Int)) h
    simp only [List.length_cons]
    omega
  · exact hmap (g := fun n => (n : Int)) h

theorem text_length_le {t : List UInt8} (ds : List Directive) (s : List UInt8)
    (h : .text t ∈ (scan ds s).1) : t.length ≤ s.length := by
  induction ds generalizing s with
  | nil => simp [scan] at h
  | cons d ds ih =>
    cases d with
    | space => exact (ih _ h).trans ((List.dropWhile_sublist _).length_le)
    | byte b =>
      cases s with
      | nil => simp [scan] at h
      | cons c s =>
        simp only [scan] at h
        split at h
        · exact (ih _ h).trans (Nat.le_succ _)
        · cases h
    | hex width =>
      rw [scan_hex] at h
      split at h
      · cases h
      · rename_i v rest hnum
        simp only [List.mem_cons, reduceCtorEq, false_or] at h
        have hdrop := (List.dropWhile_sublist isSpace (l := s)).length_le
        have hrest := hexSigned_rest hnum
        have := ih _ h
        omega
    | except width stops =>
      rw [scan_except rfl] at h
      split at h
      · cases h
      · simp only [List.mem_cons, Value.text.injEq] at h
        rcases h with rfl | h
        · exact ((List.takeWhile_sublist _).trans (List.take_sublist _ _)).length_le
        · exact (ih _ h).trans (by simp)

theorem readHex_of_hex {xs : List UInt8} (h : ∀ c ∈ xs, isHex c) (acc : Nat) (ys : List UInt8) :
    readHex acc (xs ++ ys) = readHex (readHex acc xs) ys := by
  induction xs generalizing acc with
  | nil => rfl
  | cons c xs ih =>
    obtain ⟨hc, hxs⟩ := List.forall_mem_cons.mp h
    obtain ⟨d, hd⟩ := Option.isSome_iff_exists.mp hc
    simp only [List.cons_append, readHex, hd]
    exact ih hxs _

theorem forall_byte {P : UInt8 → Prop} (h : ∀ i : Fin 256, P (UInt8.ofNat i.val)) (c : UInt8) :
    P c := by
  have hc := h ⟨c.toNat, c.toNat_lt⟩
  rwa [UInt8.ofNat_toNat] at hc

theorem hexValue_lt {c : UInt8} {d : Nat} (h : hexValue c = some d) : d < 16 := by
  have hall : ∀ c : UInt8, ∀ d ∈ hexValue c, d < 16 := forall_byte (by decide +kernel)
  exact hall c d h

theorem readHex_acc {xs : List UInt8} (h : ∀ c ∈ xs, isHex c) (acc : Nat) :
    readHex acc xs = acc * 16 ^ xs.length + readHex 0 xs ∧ readHex 0 xs < 16 ^ xs.length := by
  induction xs generalizing acc with
  | nil => simp [readHex]
  | cons c xs ih =>
    obtain ⟨hc, hxs⟩ := List.forall_mem_cons.mp h
    obtain ⟨d, hd⟩ := Option.isSome_iff_exists.mp hc
    have hlt := hexValue_lt hd
    obtain ⟨hacc, hbound⟩ := ih hxs (acc * 16 + d)
    obtain ⟨hzero, -⟩ := ih hxs (0 * 16 + d)
    simp only [readHex, hd, List.length_cons, Nat.pow_succ]
    constructor
    · rw [hacc, hzero]
      ring
    · rw [hzero, Nat.zero_mul, Nat.zero_add]
      have hle : d * 16 ^ xs.length + 16 ^ xs.length ≤ 16 ^ xs.length * 16 := by
        rw [← Nat.succ_mul, Nat.mul_comm]
        exact Nat.mul_le_mul_left _ hlt
      omega

theorem readHex_drop {xs : List UInt8} (h : ∀ c ∈ xs, isHex c) (k : Nat) :
    readHex 0 (xs.drop k) = readHex 0 xs % 16 ^ (xs.length - k) := by
  have htake : ∀ c ∈ xs.take k, isHex c := fun c hc => h c (List.mem_of_mem_take hc)
  have hdrop : ∀ c ∈ xs.drop k, isHex c := fun c hc => h c (List.mem_of_mem_drop hc)
  obtain ⟨hacc, hlt⟩ := readHex_acc hdrop (readHex 0 (xs.take k))
  have hsplit := readHex_of_hex htake 0 (xs.drop k)
  rw [List.take_append_drop, hacc] at hsplit
  rw [List.length_drop] at hsplit hlt
  rw [hsplit, Nat.mul_add_mod_of_lt hlt]

theorem isHex_plain {c : UInt8} (h : isHex c) : isSpace c = false ∧ c ≠ 45 ∧ c ≠ 43 := by
  have hall : ∀ c : UInt8, isHex c → isSpace c = false ∧ c ≠ 45 ∧ c ≠ 43 :=
    forall_byte (by decide +kernel)
  exact hall c h

theorem isSpace_plain {c : UInt8} (h : isSpace c) : isHex c = false ∧ c ≠ 120 ∧ c ≠ 88 := by
  have hall : ∀ c : UInt8, isSpace c → isHex c = false ∧ c ≠ 120 ∧ c ≠ 88 :=
    forall_byte (by decide +kernel)
  exact hall c h

section Digits

variable {xs : List UInt8} {c : UInt8}

theorem hexDigits_of_hex (h : ∀ c ∈ xs, isHex c) (hne : xs ≠ []) (hwidth : xs.length ≤ width)
    (hc : isSpace c) (rest : List UInt8) :
    hexDigits width (xs ++ c :: rest) = some (readHex 0 xs, c :: rest) := by
  have hstop : ((c :: rest).take (width - xs.length)).takeWhile isHex = [] := by
    cases width - xs.length with
    | zero => rfl
    | succ n => simp [(isSpace_plain hc).1]
  have hds : ((xs ++ c :: rest).take width).takeWhile isHex = xs := by
    rw [List.take_append, List.take_of_length_le hwidth, List.takeWhile_append_of_pos h, hstop,
      List.append_nil]
  simp only [hexDigits, hds, if_neg hne, List.drop_left]

theorem hexUnsigned_of_hex (h : ∀ c ∈ xs, isHex c) (hne : xs ≠ []) (hwidth : xs.length ≤ width)
    (hc : isSpace c) (rest : List UInt8) :
    hexUnsigned width (xs ++ c :: rest) = some (readHex 0 xs, c :: rest) := by
  have hdigits := hexDigits_of_hex h hne hwidth hc rest
  have hnox : ∀ x s, xs ++ c :: rest = 48 :: x :: s → ¬ (x = 120 ∨ x = 88) := by
    rintro x s heq hx
    match xs, h with
    | [], _ => exact hne rfl
    | [_], _ =>
      have hxc : c = x := by simpa using (List.cons.inj (List.cons.inj heq).2).1
      exact hx.elim (fun hx => (isSpace_plain hc).2.1 (hxc.trans hx))
        fun hx => (isSpace_plain hc).2.2 (hxc.trans hx)
    | _ :: d :: _, h =>
      have hxd : d = x := by simpa using (List.cons.inj (List.cons.inj heq).2).1
      have hd : isHex d := h d (by simp)
      rcases hx with rfl | rfl <;> exact absurd (hxd ▸ hd) (by decide)
  unfold hexUnsigned
  split
  · rename_i x s heq
    rw [if_neg fun hx => hnox x s heq hx.1, ← heq]
    exact hdigits
  · exact hdigits

theorem hexSigned_of_hex (h : ∀ c ∈ xs, isHex c) (hne : xs ≠ []) (hwidth : xs.length ≤ width)
    (hc : isSpace c) (rest : List UInt8) :
    hexSigned width (xs ++ c :: rest) = some ((readHex 0 xs : Int), c :: rest) := by
  obtain ⟨d, ds, rfl⟩ := List.exists_cons_of_ne_nil hne
  obtain ⟨-, hminus, hplus⟩ := isHex_plain (h d List.mem_cons_self)
  have hnumber := hexUnsigned_of_hex h hne hwidth hc rest
  rw [List.cons_append] at hnumber ⊢
  unfold hexSigned
  split
  · rename_i heq
    exact absurd (List.cons.inj heq).1 hminus
  · rename_i heq
    exact absurd (List.cons.inj heq).1 hplus
  · rw [hnumber]
    rfl

theorem scan_hex_of_hex {s : List UInt8} (hs : s.dropWhile isSpace = xs ++ c :: rest)
    (h : ∀ c ∈ xs, isHex c) (hne : xs ≠ []) (hwidth : xs.length ≤ width) (hc : isSpace c) :
    (scan (.hex width :: ds) s).1 = .int (readHex 0 xs) :: (scan ds (c :: rest)).1 := by
  rw [scan_hex, hs, hexSigned_of_hex h hne hwidth hc]

theorem dropWhile_isSpace (h : ∀ c ∈ xs, isHex c) (hne : xs ≠ []) (rest : List UInt8) :
    (xs ++ rest).dropWhile isSpace = xs ++ rest := by
  obtain ⟨d, ds, rfl⟩ := List.exists_cons_of_ne_nil hne
  have hd := (isHex_plain (h d List.mem_cons_self)).1
  simp [hd]

end Digits

end Values

end Scan
