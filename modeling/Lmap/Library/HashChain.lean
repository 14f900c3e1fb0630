import Mathlib.Logic.Function.Basic
import Mathlib.Data.List.Induction

/-!
Hash tables made of chains: an entry goes to the head of the chain its hash
selects, and a search takes the first entry of that chain with the same key.
Whatever the hash, such a table is the association list of its insertions in
which a later entry hides an earlier one.
-/

set_option autoImplicit false

namespace HashChain

universe u v

abbrev Table (K : Type u) (V : Type v) := Nat → List (K × V)

variable {K : Type u} {V : Type v}

def empty : Table K V := fun _ => []

def insert (hash : K → Nat) (t : Table K V) (k : K) (v : V) : Table K V :=
  Function.update t (hash k) ((k, v) :: t (hash k))

def load (hash : K → Nat) (t : Table K V) (es : List (K × V)) : Table K V :=
  es.foldl (fun t e => insert hash t e.1 e.2) t

theorem load_append (hash : K → Nat) (t : Table K V) (es fs : List (K × V)) :
    load hash t (es ++ fs) = load hash (load hash t es) fs := by simp [load]

variable [DecidableEq K]

def search (hash : K → Nat) (t : Table K V) (k : K) : Option V :=
  ((t (hash k)).find? (fun e => e.1 = k)).map Prod.snd

def lastValue (es : List (K × V)) (k : K) : Option V :=
  (es.reverse.find? (fun e => e.1 = k)).map Prod.snd

@[simp] theorem search_empty (hash : K → Nat) (k : K) :
    search hash (empty : Table K V) k = none := rfl

theorem search_insert (hash : K → Nat) (t : Table K V) (k k' : K) (v : V) :
    search hash (insert hash t k v) k' = if k = k' then some v else search hash t k' := by
  by_cases hk : k = k'
  · subst hk
    simp [search, insert]
  · by_cases hh : hash k' = hash k
    · simp [search, insert, hh, hk]
    · simp [search, insert, Function.update_of_ne hh, hk]

theorem search_load (hash : K → Nat) (es : List (K × V)) (k : K) :
    search hash (load hash empty es) k = lastValue es k := by
  induction es using List.reverseRecOn with
  | nil => rfl
  | append_singleton es e ih =>
    rw [load_append]
    by_cases he : e.1 = k
    · simp [load, lastValue, search_insert, he]
    · simpa [load, lastValue, search_insert, he] using ih

theorem lastValue_isSome {es : List (K × V)} {e : K × V} (h : e ∈ es) :
    (lastValue es e.1).isSome := by
  simp only [lastValue, Option.isSome_map, List.find?_isSome, List.mem_reverse]
  exact ⟨e, h, by simp⟩

end HashChain
