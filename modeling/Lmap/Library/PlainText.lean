import Lmap.Library.Format

/-!
Texts that a formatting function writes as they stand: there is no `%` in them and no NUL. What
is printed of a number is such a text, and so is what is put together of some.
-/

set_option autoImplicit false

namespace PlainText
open CString Format

def Plain (text : List UInt8) : Prop := ∀ b ∈ text, b ≠ percent ∧ b ≠ 0

instance (text : List UInt8) : Decidable (Plain text) :=
  List.decidableBAll (fun b => b ≠ percent ∧ b ≠ 0) text

structure Shows (buf : List UInt8) : Prop where
  ends : 0 ∈ buf
  plain : Plain (cstr buf)

variable {s t buf : List UInt8}

@[simp] theorem plain_nil : Plain [] := by simp [Plain]

@[simp] theorem plain_append : Plain (s ++ t) ↔ Plain s ∧ Plain t := List.forall_mem_append

theorem Plain.sublist (h : Plain t) (hs : s.Sublist t) : Plain s :=
  fun b hb => h b (hs.subset hb)

theorem Plain.take (h : Plain s) (n : Nat) : Plain (s.take n) := h.sublist (List.take_sublist n s)

theorem Plain.cstr_eq (h : Plain s) : cstr s = s := cstr_of_plain fun b hb => (h b hb).2

theorem plain_intercalate {sep : List UInt8} (hsep : Plain sep) {texts : List (List UInt8)}
    (h : ∀ text ∈ texts, Plain text) : Plain (sep.intercalate texts) := by
  intro b hb
  rw [List.intercalate, List.mem_flatten] at hb
  obtain ⟨text, htext, hb⟩ := hb
  have hmem : text ∈ texts ∨ text = sep := by
    induction texts with
    | nil => simp at htext
    | cons first texts ih =>
      cases texts with
      | nil => exact .inl (by simpa using htext)
      | cons second texts =>
        rw [List.intersperse_cons_cons, List.mem_cons, List.mem_cons] at htext
        rcases htext with rfl | rfl | htext
        · exact .inl List.mem_cons_self
        · exact .inr rfl
        · exact (ih (fun x hx => h x (List.mem_cons_of_mem _ hx)) htext).imp_left
            (List.mem_cons_of_mem _)
  rcases hmem with hmem | rfl
  · exact h text hmem b hb
  · exact hsep b hb

theorem plain_digitChar (k : Case) {d : Nat} (h : d < 16) :
    digitChar k d ≠ percent ∧ digitChar k d ≠ 0 := by
  have hall : ∀ i : Fin 16, digitChar k i.val ≠ percent ∧ digitChar k i.val ≠ 0 := by
    cases k <;> decide
  exact hall ⟨d, h⟩

theorem printDigits_lt {base : Nat} (hb : 1 < base) (n : Nat) :
    ∀ d ∈ printDigits base n, d < base := by
  intro d hd
  unfold printDigits at hd
  split at hd
  · have hzero : d = 0 := List.mem_singleton.mp hd
    omega
  · exact Nat.digits_lt_base hb (List.mem_reverse.mp hd)

theorem plain_printUnsigned (k : Case) {base : Nat} (hb : 1 < base) (h16 : base ≤ 16)
    (width n : Nat) : Plain (printUnsigned k base width n) := by
  rw [printUnsigned, plain_append]
  constructor
  · intro b hmem
    rw [List.eq_of_mem_replicate hmem]
    exact plain_digitChar k (by decide)
  · intro b hmem
    obtain ⟨d, hd, rfl⟩ := List.mem_map.mp hmem
    have hlt := printDigits_lt hb n d hd
    exact plain_digitChar k (by omega)

theorem plain_printInt (v : Int) : Plain (printInt v) := by
  have hdigits : Plain (printUnsigned .lower 10 0 v.natAbs) :=
    plain_printUnsigned .lower (by decide) (by decide) 0 _
  unfold printInt
  split
  · exact plain_append.mpr ⟨by decide, hdigits⟩
  · exact hdigits

theorem shows_strcpy (h : Plain s) (buf : List UInt8) : Shows (strcpy buf s) where
  ends := zero_mem_strcpy buf s
  plain := by rwa [cstr_strcpy, h.cstr_eq]

theorem shows_strlcpy (h : Plain s) (buf : List UInt8) {size : Nat} (hsize : 0 < size) :
    Shows (strlcpy buf s size) where
  ends := mem_strlcpy buf s hsize
  plain := by
    have htake := h.take (size - 1)
    rwa [cstr_strlcpy_any buf s hsize, htake.cstr_eq]

end PlainText
