import Mathlib.Data.List.Basic
import Mathlib.Tactic.Common

/-!
A byte memory of which only a part may be readable, and the assertion that a
given run of bytes lies at an address. Addresses are offsets into one object.
-/

set_option autoImplicit false

abbrev Memory := Nat → Option UInt8

namespace Memory

def ofList (bs : List UInt8) : Memory := fun i => bs[i]?

def append (bs : List UInt8) (m : Memory) : Memory :=
  fun i => if i < bs.length then bs[i]? else m (i - bs.length)

def Holds (m : Memory) : Nat → List UInt8 → Prop
  | _, [] => True
  | p, b :: bs => m p = some b ∧ Holds m (p + 1) bs

variable {m : Memory}

@[simp] theorem holds_nil (p : Nat) : m.Holds p [] := trivial

@[simp] theorem holds_cons (p : Nat) (b : UInt8) (bs : List UInt8) :
    m.Holds p (b :: bs) ↔ m p = some b ∧ m.Holds (p + 1) bs := Iff.rfl

@[simp] theorem holds_append (p : Nat) (xs ys : List UInt8) :
    m.Holds p (xs ++ ys) ↔ m.Holds p xs ∧ m.Holds (p + xs.length) ys := by
  induction xs generalizing p with
  | nil => simp
  | cons x xs ih =>
    simp only [List.cons_append, holds_cons, ih, List.length_cons, and_assoc]
    rw [show p + 1 + xs.length = p + (xs.length + 1) by omega]

theorem holds_iff_getElem? (p : Nat) (bs : List UInt8) :
    m.Holds p bs ↔ ∀ i, i < bs.length → m (p + i) = bs[i]? := by
  induction bs generalizing p with
  | nil => simp
  | cons b bs ih =>
    simp only [holds_cons, ih, List.length_cons]
    constructor
    · rintro ⟨hb, hr⟩ i hi
      cases i with
      | zero => simpa using hb
      | succ i =>
        rw [show p + (i + 1) = p + 1 + i by omega, List.getElem?_cons_succ]
        exact hr i (by omega)
    · intro h
      refine ⟨by simpa using h 0 (by omega), fun i hi => ?_⟩
      have := h (i + 1) (by omega)
      rwa [show p + (i + 1) = p + 1 + i by omega, List.getElem?_cons_succ] at this

theorem Holds.split {p : Nat} {bs : List UInt8} (h : m.Holds p bs) {k : Nat}
    (hk : k ≤ bs.length) : m.Holds p (bs.take k) ∧ m.Holds (p + k) (bs.drop k) := by
  rw [← List.take_append_drop k bs, holds_append, List.length_take_of_le hk] at h
  exact h

theorem holds_append_left (bs : List UInt8) (m : Memory) : (append bs m).Holds 0 bs := by
  rw [holds_iff_getElem?]
  intro i hi
  simp [append, hi]

theorem append_none (bs : List UInt8) : append bs (fun _ => none) = ofList bs := by
  funext i
  by_cases hi : i < bs.length
  · simp [append, ofList, hi]
  · simp [append, ofList, hi]

def slice (m : Memory) (p : Nat) : Nat → Option (List UInt8)
  | 0 => some []
  | n + 1 =>
    match m p, slice m (p + 1) n with
    | some b, some bs => some (b :: bs)
    | _, _ => none

theorem slice_of_holds {p : Nat} {bs : List UInt8} (h : m.Holds p bs) {n : Nat}
    (hn : bs.length = n) : m.slice p n = some bs := by
  subst hn
  induction bs generalizing p with
  | nil => rfl
  | cons b bs ih =>
    rw [holds_cons] at h
    simp [slice, h.1, ih h.2]

theorem slice_eq_some_iff {p n : Nat} {bs : List UInt8} :
    m.slice p n = some bs ↔ bs.length = n ∧ m.Holds p bs := by
  constructor
  · intro h
    induction n generalizing p bs with
    | zero =>
      have : bs = [] := by simpa [slice] using h.symm
      simp [this]
    | succ n ih =>
      simp only [slice] at h
      split at h
      · rename_i b rest hb hrest
        obtain ⟨hlen, hholds⟩ := ih hrest
        cases h
        exact ⟨by simp [hlen], hb, hholds⟩
      · cases h
  · rintro ⟨hlen, h⟩
    exact slice_of_holds h hlen

def Readable (m : Memory) (p n : Nat) : Prop := ∀ i, i < n → (m (p + i)).isSome

instance (m : Memory) (p n : Nat) : Decidable (m.Readable p n) :=
  inferInstanceAs (Decidable (∀ i, i < n → (m (p + i)).isSome))

def byte (m : Memory) (p : Nat) : UInt8 := (m p).getD 0

def bytes (m : Memory) (p n : Nat) : List UInt8 := (List.range n).map (fun i => m.byte (p + i))

@[simp] theorem bytes_length (m : Memory) (p n : Nat) : (m.bytes p n).length = n := by
  simp [bytes]

theorem Readable.get {p n : Nat} (h : m.Readable p n) {i : Nat} (hi : i < n) :
    m (p + i) = some (m.byte (p + i)) := by
  obtain ⟨b, hb⟩ := Option.isSome_iff_exists.mp (h i hi)
  rw [byte, hb]
  rfl

theorem readable_one {p : Nat} : m.Readable p 1 ↔ (m p).isSome := by
  simp only [Readable, Nat.lt_one_iff, forall_eq, Nat.add_zero]

theorem Readable.mono {p n q k : Nat} (h : m.Readable p n) (hq : p ≤ q) (hk : q + k ≤ p + n) :
    m.Readable q k := by
  intro i hi
  have := h (q - p + i) (by omega)
  rwa [show p + (q - p + i) = q + i by omega] at this

theorem readable_append {p n k : Nat} :
    m.Readable p (k + n) ↔ m.Readable p k ∧ m.Readable (p + k) n := by
  constructor
  · intro h
    exact ⟨h.mono (Nat.le_refl _) (by omega), h.mono (by omega) (by omega)⟩
  · rintro ⟨h1, h2⟩ i hi
    by_cases hik : i < k
    · exact h1 i hik
    · have := h2 (i - k) (by omega)
      rwa [show p + k + (i - k) = p + i by omega] at this

theorem Readable.holds_bytes {p n : Nat} (h : m.Readable p n) : m.Holds p (m.bytes p n) := by
  rw [holds_iff_getElem?]
  intro i hi
  rw [bytes_length] at hi
  rw [h.get hi]
  simp [bytes, hi]

theorem Holds.readable {p : Nat} {bs : List UInt8} (h : m.Holds p bs) :
    m.Readable p bs.length := by
  intro i hi
  rw [(holds_iff_getElem? p bs).mp h i hi]
  simpa using hi

theorem Holds.byte_eq {p : Nat} {bs : List UInt8} (h : m.Holds p bs) {i : Nat} {b : UInt8}
    (hb : bs[i]? = some b) : m.byte (p + i) = b := by
  have hi : i < bs.length := by
    by_contra hge
    rw [List.getElem?_eq_none (Nat.le_of_not_lt hge)] at hb
    cases hb
  rw [byte, (holds_iff_getElem? p bs).mp h i hi, hb]
  rfl

theorem ofList_isSome {bs : List UInt8} {p : Nat} : (ofList bs p).isSome ↔ p < bs.length := by
  simp [ofList]

theorem readable_ofList {bs : List UInt8} {p n : Nat} (hn : 0 < n) :
    (ofList bs).Readable p n ↔ p + n ≤ bs.length := by
  constructor
  · intro h
    have := ofList_isSome.mp (h (n - 1) (by omega))
    omega
  · intro h i hi
    exact ofList_isSome.mpr (by omega)

end Memory
