import Lmap.Library.Memory
import Mathlib.Tactic.Ring

/-!
The C machine the decoders run on: what can go wrong in a run, the byte order
and pointer width of the host, 32 bit `int` arithmetic, and the reads of header
fields from the captured bytes.
-/

set_option autoImplicit false

namespace Lmap

inductive Fault where
  | outOfRange
  /-- `ON_ERROR` and `ERROR_MSG`: `error_msg` prints the text and exits. -/
  | error (message : String)
  | hang
  | nullCall
  deriving DecidableEq, Repr

/-- `WORDS_BIGENDIAN` and the width of a pointer. An `int` has 32 bits. -/
structure Host where
  bigEndian : Bool
  ptrBits : Nat
  deriving DecidableEq, Repr

def int32 (x : Int) : Int := Int.bmod x (2 ^ 32)

def uint16 (x : Int) : Nat := (x % 2 ^ 16).toNat

/-- A 16 bit load of the bytes `a`, `b` at ascending addresses. -/
def load16 (h : Host) (a b : UInt8) : Nat :=
  if h.bigEndian then a.toNat * 256 + b.toNat else b.toNat * 256 + a.toNat

def net16 (a b : UInt8) : Nat := a.toNat * 256 + b.toNat

def swap16 (x : Nat) : Nat := x % 256 * 256 + x / 256 % 256

def ntohs (h : Host) (x : Nat) : Nat := if h.bigEndian then x else swap16 x

def htons (h : Host) (x : Nat) : Nat := if h.bigEndian then x else swap16 x

/-- The unaligned load. On a big endian host it is spelled out byte by byte, the
second byte on top; elsewhere it is a plain load. -/
def ptohs (h : Host) (a b : UInt8) : Nat :=
  if h.bigEndian then b.toNat * 256 + a.toNat else load16 h a b

theorem swap16_lt (x : Nat) : swap16 x < 65536 := by
  unfold swap16
  omega

theorem load16_lt (h : Host) (a b : UInt8) : load16 h a b < 65536 := by
  have ha := a.toNat_lt
  have hb := b.toNat_lt
  unfold load16
  split <;> omega

theorem swap16_swap16 {x : Nat} (h : x < 65536) : swap16 (swap16 x) = x := by
  have hb : x / 256 < 256 := by omega
  have hs : swap16 x = x % 256 * 256 + x / 256 := by rw [swap16, Nat.mod_eq_of_lt hb]
  have hlo : swap16 x % 256 = x / 256 := by rw [hs]; omega
  have hhi : swap16 x / 256 = x % 256 := by rw [hs]; omega
  rw [swap16, hlo, hhi]
  omega

@[simp] theorem ntohs_load16 (h : Host) (a b : UInt8) :
    ntohs h (load16 h a b) = net16 a b := by
  have ha := a.toNat_lt
  have hb := b.toNat_lt
  unfold ntohs load16 net16 swap16
  cases h.bigEndian with
  | true => rfl
  | false =>
    simp only [Bool.false_eq_true, if_false]
    omega

theorem ntohs_ptohs (h : Host) (hle : h.bigEndian = false) (a b : UInt8) :
    ntohs h (ptohs h a b) = net16 a b := by
  have hp : ptohs h a b = load16 h a b := by simp [ptohs, hle]
  rw [hp, ntohs_load16]

/-- The first of two 4 bit fields of a byte is its low half on a little endian host and its high
half on a big endian one. -/
def firstField (h : Host) (b : UInt8) : Nat := if h.bigEndian then b.toNat / 16 else b.toNat % 16

def secondField (h : Host) (b : UInt8) : Nat := if h.bigEndian then b.toNat % 16 else b.toNat / 16

def readU8 (m : Memory) (p : Nat) : Except Fault UInt8 :=
  match m p with
  | some b => .ok b
  | none => .error .outOfRange

def readU16 (h : Host) (m : Memory) (p : Nat) : Except Fault Nat := do
  let a ← readU8 m p
  let b ← readU8 m (p + 1)
  pure (load16 h a b)

def readBytes (m : Memory) (p n : Nat) : Except Fault (List UInt8) :=
  match m.slice p n with
  | some bs => .ok bs
  | none => .error .outOfRange

variable {m : Memory}

theorem readU8_of_some {p : Nat} {b : UInt8} (h : m p = some b) : readU8 m p = .ok b := by
  simp [readU8, h]

theorem readU8_of_none {p : Nat} (h : m p = none) : readU8 m p = .error .outOfRange := by
  simp [readU8, h]

theorem readU16_of_some (h : Host) {p : Nat} {a b : UInt8} (ha : m p = some a)
    (hb : m (p + 1) = some b) : readU16 h m p = .ok (load16 h a b) := by
  simp [readU16, readU8_of_some ha, readU8_of_some hb, bind, Except.bind, pure, Except.pure]

theorem readBytes_of_holds {p n : Nat} {bs : List UInt8} (h : m.Holds p bs)
    (hn : bs.length = n) : readBytes m p n = .ok bs := by
  simp [readBytes, Memory.slice_of_holds h hn]

theorem bind_ok_iff {α β : Type} {x : Except Fault α} {f : α → Except Fault β} {r : β} :
    (x >>= f) = .ok r ↔ ∃ a, x = .ok a ∧ f a = .ok r := by
  cases x with
  | error e => simp [bind, Except.bind]
  | ok a => simp [bind, Except.bind]

theorem ok_bind {α β : Type} (a : α) (f : α → Except Fault β) :
    (Except.ok a >>= f) = f a := rfl

theorem map_bind {α β γ : Type} (x : Except Fault α) (k : α → Except Fault β) (g : β → γ) :
    (x >>= k).map g = x >>= fun a => (k a).map g := by cases x <;> rfl

theorem map_ok_iff {α β : Type} {x : Except Fault α} {f : α → β} {r : β} :
    x.map f = .ok r ↔ ∃ a, x = .ok a ∧ f a = r := by
  cases x with
  | error e => simp [Except.map]
  | ok a => simp [Except.map]

theorem map_error_iff {α β : Type} {x : Except Fault α} {f : α → β} {e : Fault} :
    x.map f = .error e ↔ x = .error e := by
  cases x with
  | error e' => simp [Except.map]
  | ok a => simp [Except.map]

theorem readU8_ok_iff {p : Nat} {b : UInt8} : readU8 m p = .ok b ↔ m p = some b := by
  cases h : m p <;> simp [readU8, h]

theorem readU16_ok_iff {h : Host} {p x : Nat} :
    readU16 h m p = .ok x ↔ ∃ a b, m p = some a ∧ m (p + 1) = some b ∧ x = load16 h a b := by
  simp only [readU16, bind_ok_iff, readU8_ok_iff, pure, Except.pure, Except.ok.injEq]
  constructor
  · rintro ⟨a, ha, b, hb, rfl⟩
    exact ⟨a, b, ha, hb, rfl⟩
  · rintro ⟨a, b, ha, hb, rfl⟩
    exact ⟨a, ha, b, hb, rfl⟩

theorem readBytes_ok_iff {p n : Nat} {bs : List UInt8} :
    readBytes m p n = .ok bs ↔ bs.length = n ∧ m.Holds p bs := by
  rw [← Memory.slice_eq_some_iff]
  cases h : m.slice p n <;> simp [readBytes, h]

theorem int32_of_range {x : Int} (h1 : -2 ^ 31 ≤ x) (h2 : x < 2 ^ 31) : int32 x = x := by
  unfold int32
  exact Int.bmod_eq_of_le (by omega) (by omega)

theorem int32_add (x y : Int) : int32 (int32 x + y) = int32 (x + y) := by
  unfold int32
  exact Int.bmod_add_bmod

theorem int32_sub (x y : Int) : int32 (int32 x - y) = int32 (x - y) := by
  unfold int32
  exact Int.bmod_sub_bmod

end Lmap
