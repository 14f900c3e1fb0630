import Lmap.Library.CString
import Lmap.Machine

/-!
The passive fingerprint of a SYN segment: a 28 character string that the
decoders fill in place, one field at a time.
-/

set_option autoImplicit false

namespace Lmap
open CString

def FINGER_LEN : Nat := 28
def OS_LEN : Nat := 60

abbrev Finger := List UInt8

inductive FingerParam where
  | window | mss | ttl | ws | sack | nop | df | timestamp | tcpflag | lt
  deriving DecidableEq, Repr

def fingerprintAlloc : Finger := lit "0000:_MSS:TT:WS:0:0:0:0:F:LT" ++ [0]

/-- The counter `i` loses its lowest bit each time round, `j` doubles as a `u_char`
and `c` counts the ones. Eight rounds empty a `u_char`. -/
def ttlLoop : Nat → Nat → Nat → Nat → Nat × Nat
  | 0, _, j, c => (j, c)
  | n + 1, i, j, c =>
    let c := (c + i % 2) % 256
    let j := j * 2 % 256
    if i / 2 = 0 then (j, c) else ttlLoop n (i / 2) j c

/-- `TTL_PREDICTOR`: rounds the TTL to the nearest power of 2 (ceiling). -/
def ttlPredictor (x : Nat) : Nat :=
  let (j, c) := ttlLoop 8 x 1 0
  if c = 1 then x else if j ≠ 0 then j else 0xff

def TMP_LEN : Nat := 10

def unsigned (value : Int) : Nat := (value % 2 ^ 32).toNat

def fingerprintPush (finger : Option Finger) (param : FingerParam) (value : Int) :
    Except Fault Finger :=
  match finger with
  | none => .error (.error "finger_push used on NULL string !!")
  | some finger =>
    let put (pos : Nat) (text : List UInt8) (n : Nat) : Except Fault Finger :=
      .ok (strncpy finger pos (snprintf TMP_LEN text) n)
    match param with
    | .window => put 0 (printUnsigned .upper 16 4 (unsigned value)) 4
    | .mss => put 5 (printUnsigned .upper 16 4 (unsigned value)) 4
    | .ttl => put 10 (printUnsigned .upper 16 2 (ttlPredictor (value % 256).toNat)) 2
    | .ws => put 13 (printUnsigned .upper 16 2 (unsigned value)) 2
    | .sack => put 16 (printInt value) 1
    | .nop => put 18 (printInt value) 1
    | .df => put 20 (printInt value) 1
    | .timestamp => put 22 (printInt value) 1
    | .tcpflag =>
      if value = 1 then .ok (strncpy finger 24 (lit "A") 1)
      else .ok (strncpy finger 24 (lit "S") 1)
    | .lt =>
      -- the decoders are unaware of each other: the IP header length is read back
      let ltOld := int32 (strtoul16 (cstr (finger.drop 26)))
      put 26 (printUnsigned .lower 16 2 (unsigned (int32 (value + ltOld)))) 2

theorem fingerprintPush_none (param : FingerParam) (value : Int) :
    fingerprintPush none param value = .error (.error "finger_push used on NULL string !!") := rfl

theorem fingerprintPush_some (f : Finger) (param : FingerParam) (value : Int) :
    ∃ f', fingerprintPush (some f) param value = .ok f' := by
  cases param <;> simp only [fingerprintPush] <;>
    first | exact ⟨_, rfl⟩ | (split <;> exact ⟨_, rfl⟩)

theorem ttlPredictor_spec {x : Nat} (h0 : 0 < x) (h : x < 256) :
    (x ≤ 128 → ∃ k, ttlPredictor x = 2 ^ k ∧ x ≤ 2 ^ k ∧ 2 ^ k < 2 * x) ∧
    (128 < x → ttlPredictor x = 0xff) := by
  have hall : ∀ i : Fin 256, 0 < i.val →
      (i.val ≤ 128 → ∃ k : Fin 8, ttlPredictor i.val = 2 ^ k.val ∧ i.val ≤ 2 ^ k.val ∧
        2 ^ k.val < 2 * i.val) ∧ (128 < i.val → ttlPredictor i.val = 0xff) := by decide +kernel
  obtain ⟨hle, hgt⟩ := hall ⟨x, h⟩ h0
  exact ⟨fun hx => (hle hx).elim fun k hk => ⟨k.val, hk⟩, hgt⟩

theorem ttlPredictor_lt {x : Nat} (h : x < 256) : ttlPredictor x < 256 := by
  have hall : ∀ i : Fin 256, ttlPredictor i.val < 256 := by decide +kernel
  exact hall ⟨x, h⟩

end Lmap
