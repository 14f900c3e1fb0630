import Mathlib.Tactic.Common

/-!
Blocks of an array that trade places element by element, in the array itself.
-/

set_option autoImplicit false

namespace BlockSwap

universe u

variable {α : Type u}

def swap (l : List α) (i j : Nat) : Option (List α) :=
  match l[i]?, l[j]? with
  | some x, some y => some ((l.set i y).set j x)
  | _, _ => none

def swapBlocks (l : List α) (p q n : Nat) : Option (List α) :=
  (List.range' 0 n).foldlM (fun l i => swap l (p + i) (q + i)) l

theorem swap_append (front mid back : List α) (x y : α) :
    swap (front ++ x :: mid ++ y :: back) front.length (front.length + mid.length + 1) =
      some (front ++ y :: mid ++ x :: back) := by
  have hassoc : front ++ x :: mid ++ y :: back = front ++ (x :: (mid ++ y :: back)) := by simp
  have hfirst : (front ++ x :: mid ++ y :: back)[front.length]? = some x := by simp [hassoc]
  have hlen : (front ++ x :: mid).length = front.length + mid.length + 1 := by
    rw [List.length_append, List.length_cons, Nat.add_assoc]
  have hsecond : (front ++ x :: mid ++ y :: back)[front.length + mid.length + 1]? = some y := by
    rw [← hlen, List.getElem?_append_right (Nat.le_refl _), Nat.sub_self]
    rfl
  have hset : (front ++ x :: mid ++ y :: back).set front.length y =
      front ++ y :: mid ++ y :: back := by simp [hassoc, List.set_append_right]
  have hlen' : (front ++ y :: mid).length = front.length + mid.length + 1 := by
    rw [List.length_append, List.length_cons, Nat.add_assoc]
  simp only [swap, hfirst, hsecond, hset]
  rw [← hlen', List.set_append_right _ _ (Nat.le_refl _), Nat.sub_self]
  rfl

theorem foldlM_swap {front mid back s t : List α} {p q i : Nat} (hlen : s.length = t.length)
    (hp : p + i = front.length) (hq : q + i = front.length + s.length + mid.length) :
    (List.range' i s.length).foldlM (fun l i => swap l (p + i) (q + i))
        (front ++ s ++ mid ++ t ++ back) = some (front ++ t ++ mid ++ s ++ back) := by
  induction s generalizing front mid t i with
  | nil =>
    obtain rfl : t = [] := List.length_eq_zero_iff.mp hlen.symm
    rfl
  | cons x s ih =>
    obtain ⟨y, t, rfl⟩ : ∃ y t', t = y :: t' := List.exists_cons_of_length_eq_add_one hlen.symm
    simp only [List.length_cons, Nat.add_right_cancel_iff] at hlen hq
    have hstep : swap (front ++ x :: s ++ mid ++ y :: t ++ back) (p + i) (q + i) =
        some ((front ++ [y]) ++ s ++ (mid ++ [x]) ++ t ++ back) := by
      have hswap := swap_append front (s ++ mid) (t ++ back) x y
      have hqi : front.length + (s ++ mid).length + 1 = q + i := by
        rw [List.length_append]
        omega
      rw [hqi, ← hp] at hswap
      simpa using hswap
    rw [List.length_cons, List.range'_succ, List.foldlM_cons, hstep]
    have hfront : p + (i + 1) = (front ++ [y]).length := by
      rw [List.length_append, List.length_singleton]
      omega
    have hback : q + (i + 1) = (front ++ [y]).length + s.length + (mid ++ [x]).length := by
      simp only [List.length_append, List.length_singleton]
      omega
    simpa using ih hlen hfront hback

theorem swapBlocks_append {front s mid t back : List α} (hlen : s.length = t.length) :
    swapBlocks (front ++ s ++ mid ++ t ++ back) front.length
        (front.length + s.length + mid.length) s.length =
      some (front ++ t ++ mid ++ s ++ back) :=
  foldlM_swap hlen rfl rfl

end BlockSwap
