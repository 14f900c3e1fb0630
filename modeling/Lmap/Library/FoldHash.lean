import Mathlib.Data.LawfulXor.Basic
import Mathlib.Data.Nat.ModEq
import Mathlib.Data.Nat.Prime.Basic
import Mathlib.Tactic.Common

/-!
Hashes that go through a buffer, multiply by an odd number and mix in one byte after the other,
in words of some width: seen through their lowest bits, each round can be undone.
-/

set_option autoImplicit false

namespace FoldHash

def mix (prime width h : Nat) (b : UInt8) : Nat := (h * prime % 2 ^ width) ^^^ b.toNat

def hash (prime width : Nat) (buf : List UInt8) (init : Nat) : Nat :=
  buf.foldl (mix prime width) init

variable {prime width width' j h h' : Nat} {a b : UInt8} {xs ys : List UInt8}

theorem hash_append (xs ys : List UInt8) (h : Nat) :
    hash prime width (xs ++ ys) h = hash prime width ys (hash prime width xs h) :=
  List.foldl_append

theorem hash_cons (b : UInt8) (xs : List UInt8) (h : Nat) :
    hash prime width (b :: xs) h = hash prime width xs (mix prime width h b) := rfl

theorem mix_mod (hj : j ≤ width) (h : Nat) (b : UInt8) :
    mix prime width h b % 2 ^ j = (h * prime % 2 ^ j) ^^^ (b.toNat % 2 ^ j) := by
  rw [mix, Nat.xor_mod_two_pow, Nat.mod_mod_of_dvd _ (Nat.pow_dvd_pow 2 hj)]

/-- The lowest bits do not depend on the width of the words. -/
theorem hash_mod (hj : j ≤ width) (hj' : j ≤ width') (buf : List UInt8)
    (hinit : h % 2 ^ j = h' % 2 ^ j) :
    hash prime width buf h % 2 ^ j = hash prime width' buf h' % 2 ^ j := by
  induction buf generalizing h h' with
  | nil => exact hinit
  | cons b buf ih =>
    refine ih ?_
    rw [mix_mod hj, mix_mod hj', Nat.mul_mod, hinit, ← Nat.mul_mod]

theorem mix_cancel (hodd : prime % 2 = 1) (hj : j ≤ width) (b : UInt8) :
    mix prime width h b % 2 ^ j = mix prime width h' b % 2 ^ j ↔ h % 2 ^ j = h' % 2 ^ j := by
  rw [mix_mod hj, mix_mod hj]
  refine (xor_left_involutive (b.toNat % 2 ^ j)).injective.eq_iff.trans ?_
  have hcoprime : (2 ^ j).gcd prime = 1 :=
    Nat.Coprime.pow_left j (Nat.coprime_two_left.mpr (Nat.odd_iff.mpr hodd))
  constructor
  · exact fun hmul => Nat.ModEq.cancel_right_of_coprime hcoprime hmul
  · exact fun heq => Nat.ModEq.mul_right prime heq

theorem hash_cancel (hodd : prime % 2 = 1) (hj : j ≤ width) (buf : List UInt8) :
    hash prime width buf h % 2 ^ j = hash prime width buf h' % 2 ^ j ↔ h % 2 ^ j = h' % 2 ^ j := by
  induction buf generalizing h h' with
  | nil => exact Iff.rfl
  | cons b buf ih => exact ih.trans (mix_cancel hodd hj b)

theorem mix_byte (hj : j ≤ width) (h : Nat) :
    mix prime width h a % 2 ^ j = mix prime width h b % 2 ^ j ↔
      a.toNat % 2 ^ j = b.toNat % 2 ^ j := by
  rw [mix_mod hj, mix_mod hj]
  exact (xor_right_involutive (h * prime % 2 ^ j)).injective.eq_iff

/-- Two buffers of which one byte differs are told apart by the bits that tell the bytes apart. -/
theorem hash_one_byte (hodd : prime % 2 = 1) (hj : j ≤ width) (xs ys : List UInt8) (h : Nat) :
    hash prime width (xs ++ a :: ys) h % 2 ^ j = hash prime width (xs ++ b :: ys) h % 2 ^ j ↔
      a.toNat % 2 ^ j = b.toNat % 2 ^ j := by
  rw [hash_append, hash_append, hash_cons, hash_cons, hash_cancel hodd hj, mix_byte hj]

theorem byte_mod (hj : 8 ≤ j) : a.toNat % 2 ^ j = b.toNat % 2 ^ j ↔ a = b := by
  have hpow : 2 ^ 8 ≤ 2 ^ j := Nat.pow_le_pow_right (by decide) hj
  rw [Nat.mod_eq_of_lt (Nat.lt_of_lt_of_le a.toNat_lt hpow),
    Nat.mod_eq_of_lt (Nat.lt_of_lt_of_le b.toNat_lt hpow), UInt8.toNat_inj]

theorem hash_lt (hwidth : 8 ≤ width) (buf : List UInt8) (hinit : h < 2 ^ width) :
    hash prime width buf h < 2 ^ width := by
  induction buf generalizing h with
  | nil => exact hinit
  | cons b buf ih =>
    refine ih (Nat.xor_lt_two_pow (Nat.mod_lt _ (Nat.two_pow_pos width)) ?_)
    exact Nat.lt_of_lt_of_le b.toNat_lt (Nat.pow_le_pow_right (by decide) hwidth)

theorem hash_eq_iff (hodd : prime % 2 = 1) (hwidth : 8 ≤ width) (hinit : h < 2 ^ width)
    (xs ys : List UInt8) :
    hash prime width (xs ++ a :: ys) h = hash prime width (xs ++ b :: ys) h ↔ a = b := by
  have hone := hash_one_byte (a := a) (b := b) hodd (Nat.le_refl width) xs ys h
  rwa [Nat.mod_eq_of_lt (hash_lt hwidth _ hinit), Nat.mod_eq_of_lt (hash_lt hwidth _ hinit),
    byte_mod hwidth] at hone

end FoldHash
