import Lmap.Library.CString

/-!
What a formatting function writes of a format that it gets no arguments for: everything up to
a `%`, and one `%` for two. A conversion that takes an argument, and a `%` that begins no
conversion, leave open what happens.
-/

set_option autoImplicit false

namespace Format
open CString

def percent : UInt8 := 37

def formatted : List UInt8 → Option (List UInt8)
  | [] => some []
  | [c] => if c = percent then none else some [c]
  | c :: d :: s =>
    if c = percent then
      if d = percent then (formatted s).map (percent :: ·) else none
    else (formatted (d :: s)).map (c :: ·)

def print (out fmt : List UInt8) : Option (List UInt8) := (formatted (cstr fmt)).map (out ++ ·)

variable {s t : List UInt8}

theorem formatted_cons {c : UInt8} (hc : c ≠ percent) (s : List UInt8) :
    formatted (c :: s) = (formatted s).map (c :: ·) := by
  cases s with
  | nil => simp [formatted, hc]
  | cons d s => simp [formatted, hc]

theorem formatted_plain (h : percent ∉ s) : formatted s = some s := by
  induction s with
  | nil => rfl
  | cons c s ih =>
    have hc : c ≠ percent := fun hc => h (hc ▸ List.mem_cons_self)
    have hs : percent ∉ s := fun hs => h (List.mem_cons_of_mem c hs)
    rw [formatted_cons hc, ih hs]
    rfl

theorem formatted_length (h : formatted s = some t) : t.length + t.count percent = s.length := by
  induction s using formatted.induct generalizing t with
  | case1 =>
    cases h
    rfl
  | case2 => simp [formatted] at h
  | case3 c hc =>
    simp only [formatted, hc, if_false, Option.some.injEq] at h
    subst h
    simp [hc]
  | case4 s ih =>
    simp only [formatted, if_true, Option.map_eq_some_iff] at h
    obtain ⟨t, ht, rfl⟩ := h
    have hlen := ih ht
    simp only [List.length_cons, List.count_cons_self]
    omega
  | case5 d s hd => simp [formatted, hd] at h
  | case6 c d s hc ih =>
    rw [formatted_cons hc] at h
    obtain ⟨t, ht, rfl⟩ := Option.map_eq_some_iff.mp h
    have hlen := ih ht
    simp only [List.length_cons, List.count_cons_of_ne hc] at hlen ⊢
    omega

theorem formatted_eq_self_iff : formatted s = some s ↔ percent ∉ s := by
  refine ⟨fun h => ?_, formatted_plain⟩
  have hlen := formatted_length h
  exact List.count_eq_zero.mp (by omega)

/-- So is the text that a format in memory was made of. -/
theorem formatted_cstr_iff : formatted (cstr s) = some s ↔ ∀ b ∈ s, b ≠ percent ∧ b ≠ 0 := by
  constructor
  · intro h
    have hlen := formatted_length h
    have hprefix : cstr s <+: s := List.takeWhile_prefix _
    have hself : cstr s = s := hprefix.eq_of_length_le (by omega)
    rw [hself] at h
    have hplain := formatted_eq_self_iff.mp h
    have hzero := List.takeWhile_eq_self_iff.mp hself
    intro b hb
    exact ⟨fun heq => hplain (heq ▸ hb), by simpa using hzero b hb⟩
  · intro h
    rw [cstr_of_plain fun b hb => (h b hb).2, formatted_plain fun hmem => (h percent hmem).1 rfl]

theorem print_eq_iff (out : List UInt8) :
    print out s = some (out ++ t) ↔ formatted (cstr s) = some t := by
  simp [print]

end Format
