import Lmap.FingerprintTable
import Lmap.Library.FoldHash
import Lmap.ManufTable

/-!
The two hashes, and the chains of the two tables that they choose: which keys are kept apart, and
what the width of an `unsigned long` has to do with it.
-/

set_option autoImplicit false

namespace Lmap
open CString

def FNV_64_PRIME : Nat := 0x100000001b3
def FNV1_64_INIT : Nat := 0xcbf29ce484222325

/-- `Fnv64_t` is an `unsigned long long`. -/
def fnv64 (buf : List UInt8) : Nat :=
  buf.foldl (fun hval b => (hval * FNV_64_PRIME % 2 ^ 64) ^^^ b.toNat) FNV1_64_INIT

theorem fnv32_eq (longBits : Nat) (buf : List UInt8) :
    fnv32 longBits buf = FoldHash.hash FNV_32_PRIME longBits buf FNV1_32_INIT := rfl

theorem fnv64_eq (buf : List UInt8) :
    fnv64 buf = FoldHash.hash FNV_64_PRIME 64 buf FNV1_64_INIT := rfl

section Bits

variable {longBits longBits' : Nat} {a b : UInt8}

/-- Two keys that differ in one byte have different hashes, and are in different chains of the
table of vendors; of the table of fingerprints, unless the byte differs in its top bit only. -/
theorem one_byte_apart (hbits : 32 ≤ longBits) (xs ys : List UInt8) :
    (fnv32 longBits (xs ++ a :: ys) = fnv32 longBits (xs ++ b :: ys) ↔ a = b) ∧
      (fnv64 (xs ++ a :: ys) = fnv64 (xs ++ b :: ys) ↔ a = b) ∧
      (Manuf.chain longBits (xs ++ a :: ys) = Manuf.chain longBits (xs ++ b :: ys) ↔ a = b) ∧
      (fingerHash longBits (xs ++ a :: ys) = fingerHash longBits (xs ++ b :: ys) ↔
        a.toNat % 128 = b.toNat % 128) := by
  have hinit : FNV1_32_INIT < 2 ^ longBits :=
    Nat.lt_of_lt_of_le (by decide) (Nat.pow_le_pow_right (by decide) hbits)
  refine ⟨?_, ?_, ?_, ?_⟩
  · rw [fnv32_eq, fnv32_eq]
    exact FoldHash.hash_eq_iff (by decide) (by omega) hinit xs ys
  · rw [fnv64_eq, fnv64_eq]
    exact FoldHash.hash_eq_iff (by decide) (by decide) (by decide) xs ys
  · rw [Manuf.chain, Manuf.chain, Manuf.TABSIZE, Manuf.TABBIT, fnv32_eq, fnv32_eq,
      FoldHash.hash_one_byte (by decide) (by omega), FoldHash.byte_mod (by decide)]
  · have hseven : TABSIZE = 2 ^ 7 := rfl
    rw [fingerHash, fingerHash, hseven, fnv32_eq, fnv32_eq,
      FoldHash.hash_one_byte (by decide) (by omega)]
    exact Iff.rfl

/-- Two fingerprints of which the window differs by one. -/
theorem one_byte_apart_window :
    (fnv32 64 (lit "16D" ++ 48 :: lit ":05B4") = fnv32 64 (lit "16D" ++ 49 :: lit ":05B4") ↔
        (48 : UInt8) = 49) ∧
      (fnv64 (lit "16D" ++ 48 :: lit ":05B4") = fnv64 (lit "16D" ++ 49 :: lit ":05B4") ↔
        (48 : UInt8) = 49) ∧
      (Manuf.chain 64 (lit "16D" ++ 48 :: lit ":05B4") =
          Manuf.chain 64 (lit "16D" ++ 49 :: lit ":05B4") ↔ (48 : UInt8) = 49) ∧
      (fingerHash 64 (lit "16D" ++ 48 :: lit ":05B4") =
          fingerHash 64 (lit "16D" ++ 49 :: lit ":05B4") ↔
        (48 : UInt8).toNat % 128 = (49 : UInt8).toNat % 128) :=
  one_byte_apart (by decide) (lit "16D") (lit ":05B4")

theorem chain_width (hbits : 32 ≤ longBits) (hbits' : 32 ≤ longBits') :
    Manuf.chain longBits = Manuf.chain longBits' := by
  funext mac
  exact FoldHash.hash_mod (j := 10) (by omega) (by omega) mac rfl

theorem fingerHash_width (hbits : 32 ≤ longBits) (hbits' : 32 ≤ longBits') :
    fingerHash longBits = fingerHash longBits' := by
  funext key
  exact FoldHash.hash_mod (j := 7) (by omega) (by omega) key rfl

/-- Whatever the width of an `unsigned long`, a file is loaded into the same chains in the same
order, and the same is found there. -/
theorem tables_width (hbits : 32 ≤ longBits) (hbits' : 32 ≤ longBits') :
    (∀ h file, Manuf.manufInit h longBits file = Manuf.manufInit h longBits' file) ∧
      (∀ h head m, Manuf.manufSearch h longBits head m = Manuf.manufSearch h longBits' head m) ∧
      (∀ finger os file, fingerprintInit longBits finger os file =
        fingerprintInit longBits' finger os file) ∧
      (∀ head f, fingerprintSearch longBits head f = fingerprintSearch longBits' head f) := by
  have hchain := chain_width hbits hbits'
  have hfinger := fingerHash_width hbits hbits'
  have hentry : ∀ h w mac name,
      Manuf.loadEntry h longBits w mac name = Manuf.loadEntry h longBits' w mac name := by
    intro h w mac name
    rw [Manuf.loadEntry, Manuf.loadEntry, hchain]
  refine ⟨fun h file => ?_, fun h head m => ?_, fun finger os file => ?_, fun head f => ?_⟩
  · have hbody : Manuf.loadBody h longBits = Manuf.loadBody h longBits' := by
      funext w
      simp only [Manuf.loadBody, Manuf.loadLine, hentry]
    rw [Manuf.manufInit, Manuf.manufInit, hbody]
  · rw [Manuf.manufSearch, Manuf.manufSearch, hchain]
  · have hbody : loadBody longBits = loadBody longBits' := by
      funext w
      simp only [loadBody, loadLine, hfinger]
    rw [fingerprintInit, fingerprintInit, hbody]
  · rw [fingerprintSearch, fingerprintSearch, hfinger]

theorem tables_width_64 :
    (∀ h file, Manuf.manufInit h 32 file = Manuf.manufInit h 64 file) ∧
      (∀ h head m, Manuf.manufSearch h 32 head m = Manuf.manufSearch h 64 head m) ∧
      (∀ finger os file, fingerprintInit 32 finger os file = fingerprintInit 64 finger os file) ∧
      (∀ head f, fingerprintSearch 32 head f = fingerprintSearch 64 head f) :=
  tables_width (by decide) (by decide)

/-- The values themselves depend on the width. -/
example : fnv32 32 (lit "16D0") ≠ fnv32 64 (lit "16D0") := by decide

end Bits

end Lmap
