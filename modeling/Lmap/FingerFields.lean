import Lmap.Fingerprint

/-!
What a fingerprint says, apart from how it is spelled: a value for each field,
absent where the string still has its placeholder. Every push on the string is
a push on these fields.
-/

set_option autoImplicit false

namespace Lmap
open CString

structure FingerFields where
  window : Nat
  mss : Option Nat
  ttl : Option Nat
  ws : Option Nat
  sack : Bool
  nop : Bool
  df : Bool
  timestamp : Bool
  flag : Option Bool
  lt : Option Nat
  deriving DecidableEq, Repr

namespace FingerFields

def initial : FingerFields :=
  ⟨0, none, none, none, false, false, false, false, none, none⟩

def digit (b : Bool) : List UInt8 := if b then lit "1" else lit "0"

def number (k : Case) (blank : List UInt8) : Option Nat → List UInt8
  | none => blank
  | some v => hex2 k v

def mssText (F : FingerFields) : List UInt8 :=
  match F.mss with
  | none => lit "_MSS"
  | some v => hex4 .upper v

def flagText (F : FingerFields) : List UInt8 :=
  match F.flag with
  | none => lit "F"
  | some true => lit "A"
  | some false => lit "S"

/-- The fields and the colons between them, with the digits of the length in either case. -/
def pieces (k : Case) (F : FingerFields) : List (List UInt8) :=
  [hex4 .upper F.window, lit ":", F.mssText, lit ":", number .upper (lit "TT") F.ttl, lit ":",
    number .upper (lit "WS") F.ws, lit ":", digit F.sack, lit ":", digit F.nop, lit ":",
    digit F.df, lit ":", digit F.timestamp, lit ":", F.flagText, lit ":",
    number k (lit "LT") F.lt]

def text (k : Case) (F : FingerFields) : List UInt8 := (F.pieces k).flatten

/-- The buffer of the code, which prints lengths in lower case. -/
def buffer (F : FingerFields) : Finger := F.text .lower ++ [0]

def push (F : FingerFields) : FingerParam → Int → FingerFields
  | .window, v => { F with window := v.toNat }
  | .mss, v => { F with mss := some v.toNat }
  | .ttl, v => { F with ttl := some (ttlPredictor v.toNat) }
  | .ws, v => { F with ws := some v.toNat }
  | .sack, v => { F with sack := v ≠ 0 }
  | .nop, v => { F with nop := v ≠ 0 }
  | .df, v => { F with df := v ≠ 0 }
  | .timestamp, v => { F with timestamp := v ≠ 0 }
  | .tcpflag, v => { F with flag := some (v = 1) }
  | .lt, v => { F with lt := some (F.lt.getD 0 + v.toNat) }

def Fits (F : FingerFields) : FingerParam → Int → Prop
  | .window, v | .mss, v => 0 ≤ v ∧ v < 65536
  | .ttl, v | .ws, v => 0 ≤ v ∧ v < 256
  | .sack, v | .nop, v | .timestamp, v => v = 0 ∨ v = 1
  | .df, v => v = 0 ∨ v = 0x4000
  | .tcpflag, _ => True
  | .lt, v => 0 ≤ v ∧ F.lt.getD 0 + v.toNat < 256

@[simp] theorem lit_colon_length : (lit ":").length = 1 := rfl

@[simp] theorem digit_length (b : Bool) : (digit b).length = 1 := by cases b <;> rfl

@[simp] theorem mssText_length (F : FingerFields) : F.mssText.length = 4 := by
  unfold mssText
  split <;> rfl

@[simp] theorem flagText_length (F : FingerFields) : F.flagText.length = 1 := by
  unfold flagText
  split <;> rfl

theorem number_length {k : Case} {blank : List UInt8} (h : blank.length = 2) (v : Option Nat) :
    (number k blank v).length = 2 := by
  cases v <;> simp [number, h]

@[simp] theorem ttl_length (v : Option Nat) : (number .upper (lit "TT") v).length = 2 :=
  number_length rfl v

@[simp] theorem ws_length (v : Option Nat) : (number .upper (lit "WS") v).length = 2 :=
  number_length rfl v

@[simp] theorem lt_length (k : Case) (v : Option Nat) : (number k (lit "LT") v).length = 2 :=
  number_length rfl v

theorem text_length (k : Case) (F : FingerFields) : (F.text k).length = FINGER_LEN := by
  simp [text, pieces, FINGER_LEN]

theorem initial_buffer : initial.buffer = fingerprintAlloc := by decide

theorem snprintf_short {s : List UInt8} (h : s.length ≤ 9) : snprintf TMP_LEN s = s :=
  List.take_of_length_le h

theorem unsigned_of_range {v : Int} (h0 : 0 ≤ v) (h : v < 2 ^ 32) : unsigned v = v.toNat := by
  unfold unsigned
  rw [Int.emod_eq_of_lt h0 h]

theorem printed_hex4 {v : Int} (h0 : 0 ≤ v) (h : v < 65536) :
    snprintf TMP_LEN (printUnsigned .upper 16 4 (unsigned v)) = hex4 .upper v.toNat := by
  rw [unsigned_of_range h0 (by omega), printUnsigned_hex4 _ (by omega)]
  exact snprintf_short (by simp)

theorem printed_hex2 (k : Case) {n : Nat} (h : n < 256) :
    snprintf TMP_LEN (printUnsigned k 16 2 n) = hex2 k n := by
  rw [printUnsigned_hex2 _ h]
  exact snprintf_short (by simp)

theorem number_ne_zero {k : Case} {blank : List UInt8} (hblank : ∀ b ∈ blank, b ≠ 0)
    {v : Option Nat} (hv : ∀ x ∈ v, x < 256) : ∀ b ∈ number k blank v, b ≠ 0 := by
  cases v with
  | none => exact hblank
  | some x => exact hex2_ne_zero k (hv x rfl)

theorem strtoul16_lt {F : FingerFields} (h : F.lt.getD 0 < 256) :
    strtoul16 (number .lower (lit "LT") F.lt) = (F.lt.getD 0 : Nat) := by
  cases hl : F.lt with
  | none => decide
  | some v =>
    rw [hl] at h
    exact strtoul16_hex2 .lower h

theorem read_lt {F : FingerFields} (h : F.lt.getD 0 < 256) :
    int32 (strtoul16 (cstr (F.buffer.drop 26))) = (F.lt.getD 0 : Nat) := by
  have hdrop : F.buffer.drop 26 = number .lower (lit "LT") F.lt ++ [0] := by
    have hsplit : F.buffer = ((F.pieces .lower).take 18).flatten ++
        (number .lower (lit "LT") F.lt ++ [0]) := by simp [buffer, text, pieces]
    rw [hsplit, List.drop_left']
    simp [pieces]
  have hne : ∀ b ∈ number .lower (lit "LT") F.lt, b ≠ 0 := by
    refine number_ne_zero (forall_mem_of_all rfl) (fun v hv => ?_)
    rwa [Option.mem_def.mp hv] at h
  rw [hdrop, cstr_append_zero hne, strtoul16_lt h]
  exact int32_of_range (by omega) (by omega)

theorem strncpy_buffer (F : FingerFields) {src : List UInt8} (i pos : Nat) {n : Nat}
    (hi : i < (F.pieces .lower).length) (hpos : ((F.pieces .lower).take i).flatten.length = pos)
    (hn : (F.pieces .lower)[i].length = n) (hs : src.length = n) :
    strncpy F.buffer pos src n = ((F.pieces .lower).set i src).flatten ++ [0] :=
  strncpy_flatten hi hpos hn hs

theorem strncpy_digit (F : FingerFields) {v : Int} (h : v = 0 ∨ v = 1 ∨ v = 0x4000)
    (i pos : Nat) (hi : i < (F.pieces .lower).length)
    (hpos : ((F.pieces .lower).take i).flatten.length = pos)
    (hn : (F.pieces .lower)[i].length = 1) :
    strncpy F.buffer pos (snprintf TMP_LEN (printInt v)) 1 =
      ((F.pieces .lower).set i (digit (v ≠ 0))).flatten ++ [0] := by
  have hfirst : (snprintf TMP_LEN (printInt v) ++ List.replicate 1 0).take 1 =
      (digit (v ≠ 0) ++ List.replicate 1 0).take 1 := by
    rcases h with rfl | rfl | rfl <;>
      simp [printInt, printUnsigned, printDigits, snprintf, TMP_LEN, digit] <;> decide
  have hcopy : strncpy F.buffer pos (snprintf TMP_LEN (printInt v)) 1 =
      strncpy F.buffer pos (digit (v ≠ 0)) 1 := by simp only [strncpy, hfirst]
  rw [hcopy]
  exact F.strncpy_buffer i pos hi hpos hn (by simp)

/-- The code's in-place write is a push on the fields. -/
theorem fingerprintPush_buffer (F : FingerFields) {param : FingerParam} {v : Int}
    (h : F.Fits param v) :
    fingerprintPush (some F.buffer) param v = .ok (F.push param v).buffer := by
  cases param with
  | window =>
    obtain ⟨h0, hlt⟩ : 0 ≤ v ∧ v < 65536 := h
    simp only [fingerprintPush, printed_hex4 h0 hlt]
    exact congrArg Except.ok (F.strncpy_buffer 0 0 (by simp [pieces]) rfl rfl rfl)
  | mss =>
    obtain ⟨h0, hlt⟩ : 0 ≤ v ∧ v < 65536 := h
    simp only [fingerprintPush, printed_hex4 h0 hlt]
    exact congrArg Except.ok
      (F.strncpy_buffer 2 5 (by simp [pieces]) (by simp [pieces]) (by simp [pieces]) rfl)
  | ttl =>
    obtain ⟨h0, hlt⟩ : 0 ≤ v ∧ v < 256 := h
    simp only [fingerprintPush, Int.emod_eq_of_lt h0 hlt,
      printed_hex2 .upper (ttlPredictor_lt (x := v.toNat) (by omega))]
    exact congrArg Except.ok
      (F.strncpy_buffer 4 10 (by simp [pieces]) (by simp [pieces]) (by simp [pieces]) rfl)
  | ws =>
    obtain ⟨h0, hlt⟩ : 0 ≤ v ∧ v < 256 := h
    simp only [fingerprintPush, unsigned_of_range h0 (by omega),
      printed_hex2 .upper (n := v.toNat) (by omega)]
    exact congrArg Except.ok
      (F.strncpy_buffer 6 13 (by simp [pieces]) (by simp [pieces]) (by simp [pieces]) rfl)
  | sack =>
    have hv : v = 0 ∨ v = 1 ∨ v = 0x4000 := Or.imp_right .inl h
    exact congrArg Except.ok
      (F.strncpy_digit hv 8 16 (by simp [pieces]) (by simp [pieces]) (by simp [pieces]))
  | nop =>
    have hv : v = 0 ∨ v = 1 ∨ v = 0x4000 := Or.imp_right .inl h
    exact congrArg Except.ok
      (F.strncpy_digit hv 10 18 (by simp [pieces]) (by simp [pieces]) (by simp [pieces]))
  | df =>
    have hv : v = 0 ∨ v = 1 ∨ v = 0x4000 := Or.imp_right .inr h
    exact congrArg Except.ok
      (F.strncpy_digit hv 12 20 (by simp [pieces]) (by simp [pieces]) (by simp [pieces]))
  | timestamp =>
    have hv : v = 0 ∨ v = 1 ∨ v = 0x4000 := Or.imp_right .inl h
    exact congrArg Except.ok
      (F.strncpy_digit hv 14 22 (by simp [pieces]) (by simp [pieces]) (by simp [pieces]))
  | tcpflag =>
    by_cases hv : v = 1
    · subst hv
      exact congrArg Except.ok
        (F.strncpy_buffer 16 24 (by simp [pieces]) (by simp [pieces]) (by simp [pieces]) rfl)
    · have hflag : decide (v = 1) = false := by simp [hv]
      have hpieces : (F.push .tcpflag v).buffer =
          ((F.pieces .lower).set 16 (lit "S")).flatten ++ [0] := by
        simp [buffer, text, pieces, flagText, hflag, mssText, push]
      simp only [fingerprintPush, hv, if_false, hpieces]
      exact congrArg Except.ok
        (F.strncpy_buffer 16 24 (by simp [pieces]) (by simp [pieces]) (by simp [pieces]) rfl)
  | lt =>
    obtain ⟨h0, hsum⟩ : 0 ≤ v ∧ F.lt.getD 0 + v.toNat < 256 := h
    have hold : F.lt.getD 0 < 256 := by omega
    have hnew : unsigned (int32 (v + (F.lt.getD 0 : Nat))) = F.lt.getD 0 + v.toNat := by
      rw [int32_of_range (by omega) (by omega), unsigned_of_range (by omega) (by omega)]
      omega
    simp only [fingerprintPush, read_lt hold, hnew, printed_hex2 .lower hsum]
    exact congrArg Except.ok
      (F.strncpy_buffer 18 26 (by simp [pieces]) (by simp [pieces]) (by simp [pieces]) rfl)

structure Bounded (F : FingerFields) : Prop where
  window : F.window < 65536
  mss : ∀ v ∈ F.mss, v < 65536
  ttl : ∀ v ∈ F.ttl, v < 256
  ws : ∀ v ∈ F.ws, v < 256
  lt : ∀ v ∈ F.lt, v < 256

theorem text_ne_zero {F : FingerFields} (hF : F.Bounded) (k : Case) :
    ∀ b ∈ F.text k, b ≠ 0 := by
  have hcolon : ∀ b ∈ lit ":", b ≠ 0 := forall_mem_of_all rfl
  have hdigit : ∀ x, ∀ b ∈ digit x, b ≠ 0 := by
    intro x
    cases x <;> exact forall_mem_of_all rfl
  have hmss : ∀ b ∈ F.mssText, b ≠ 0 := by
    unfold mssText
    split
    · exact forall_mem_of_all rfl
    · rename_i v hv
      exact hex4_ne_zero _ (hF.mss v hv)
  have hflag : ∀ b ∈ F.flagText, b ≠ 0 := by
    unfold flagText
    split <;> exact forall_mem_of_all rfl
  have hpieces : ∀ s ∈ F.pieces k, ∀ b ∈ s, b ≠ 0 := by
    simp only [pieces, List.forall_mem_cons, List.not_mem_nil, false_imp_iff, implies_true,
      and_true]
    have httl : ∀ b ∈ number .upper (lit "TT") F.ttl, b ≠ 0 :=
      number_ne_zero (forall_mem_of_all rfl) hF.ttl
    have hws : ∀ b ∈ number .upper (lit "WS") F.ws, b ≠ 0 :=
      number_ne_zero (forall_mem_of_all rfl) hF.ws
    have hlt : ∀ b ∈ number k (lit "LT") F.lt, b ≠ 0 :=
      number_ne_zero (forall_mem_of_all rfl) hF.lt
    exact ⟨hex4_ne_zero _ hF.window, hcolon, hmss, hcolon, httl, hcolon, hws, hcolon, hdigit _,
      hcolon, hdigit _, hcolon, hdigit _, hcolon, hdigit _, hcolon, hflag, hcolon, hlt⟩
  intro b hb
  obtain ⟨s, hs, hbs⟩ := List.mem_flatten.mp hb
  exact hpieces s hs b hbs

theorem cstr_buffer {F : FingerFields} (hF : F.Bounded) : cstr F.buffer = F.text .lower :=
  cstr_append_zero (text_ne_zero hF .lower)

theorem flag_cut {F : FingerFields} (hF : F.Bounded) :
    ((cstr F.buffer).drop 24).take 1 = F.flagText := by
  rw [cstr_buffer hF]
  exact @flatten_field (F.pieces .lower) 16 24 1 (by simp [pieces]) (by simp [pieces])
    (by simp [pieces])

theorem ttl_cut {F : FingerFields} (hF : F.Bounded) :
    ((cstr F.buffer).drop 10).take 2 = number .upper (lit "TT") F.ttl := by
  rw [cstr_buffer hF]
  exact @flatten_field (F.pieces .lower) 4 10 2 (by simp [pieces]) (by simp [pieces])
    (by simp [pieces])

theorem text_case_iff (F : FingerFields) :
    F.text .lower = F.text .upper ↔
      number .lower (lit "LT") F.lt = number .upper (lit "LT") F.lt := by
  have hsplit : ∀ k, F.text k =
      ((F.pieces .lower).take 18).flatten ++ number k (lit "LT") F.lt := by
    intro k
    simp [text, pieces]
  rw [hsplit, hsplit, List.append_cancel_left_eq]

end FingerFields

end Lmap
