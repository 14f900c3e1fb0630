import Lmap.Stat
import Mathlib.Data.List.Induction
import Mathlib.Data.Finset.Card
import Mathlib.Tactic.Ring

/-!
The statistics, over any calls of their functions: a map from the registered names to sums.
-/

set_option autoImplicit false

namespace Lmap

inductive StatCall where
  | register (type : String)
  | update (type : String) (count : UInt32)
  | get (type : String)
  | getCount
  deriving DecidableEq, Repr

def StatCall.run (s : Stats) : StatCall → Stats
  | register type => registerStat s type
  | update type count => updateStat s type count
  | get _ | getCount => s

def statRun (calls : List StatCall) : Stats := calls.foldl StatCall.run Stats.empty

def StatCall.added (type : String) : StatCall → Nat
  | update a count => if a = type then count.toNat else 0
  | register _ | get _ | getCount => 0

/-- The counts that have been passed for a name since it was last registered. -/
def sumSince (calls : List StatCall) (type : String) : Nat :=
  ((calls.reverse.takeWhile (· ≠ .register type)).map (StatCall.added type)).sum

def StatCall.registers : StatCall → Option String
  | register type => some type
  | update _ _ | get _ | getCount => none

def registeredNames (calls : List StatCall) : Finset String :=
  (calls.filterMap StatCall.registers).toFinset

theorem mem_registeredNames {calls : List StatCall} {type : String} :
    type ∈ registeredNames calls ↔ .register type ∈ calls := by
  rw [registeredNames, List.mem_toFinset, List.mem_filterMap]
  constructor
  · rintro ⟨c, hc, hreg⟩
    cases c with
    | register a =>
      cases hreg
      exact hc
    | update | get | getCount => cases hreg
  · intro h
    exact ⟨_, h, rfl⟩

structure IsStatMap (calls : List StatCall) (s : Stats) : Prop where
  distinct : s.names.Nodup
  keys : ∀ type, type ∈ s.names ↔ .register type ∈ calls
  entries : s.entries.toNat = s.names.length % 2 ^ 32
  value : ∀ type, type ∈ s.names → (getStat s type).toNat = sumSince calls type % 2 ^ 32

theorem sumSince_append (calls : List StatCall) (c : StatCall) (type : String) :
    sumSince (calls ++ [c]) type =
      if c = .register type then 0 else sumSince calls type + c.added type := by
  rw [sumSince, List.reverse_append, List.reverse_singleton, List.singleton_append]
  by_cases hc : c = .register type
  · simp [hc]
  · simp [hc, sumSince, Nat.add_comm]

variable {calls : List StatCall} {s : Stats}

theorem IsStatMap.register (h : IsStatMap calls s) (a : String) :
    IsStatMap (calls ++ [.register a]) (registerStat s a) := by
  have hkeys : ∀ type,
      type ∈ (registerStat s a).names ↔ .register type ∈ calls ++ [.register a] := by
    intro type
    rw [mem_names_registerStat, h.keys, List.mem_append, List.mem_singleton,
      StatCall.register.injEq]
    exact or_comm
  refine ⟨?_, hkeys, ?_, ?_⟩
  · rw [registerStat_names]
    split
    · exact h.distinct
    · rename_i ha
      exact List.nodup_cons.mpr ⟨ha, h.distinct⟩
  · rw [registerStat_names, registerStat_entries]
    have hentries := h.entries
    split
    · exact hentries
    · rw [UInt32.toNat_add, hentries, List.length_cons]
      exact Nat.mod_add_mod _ _ _
  · intro type htype
    rw [getStat_registerStat, sumSince_append]
    by_cases hab : a = type
    · simp [hab]
    · rw [if_neg hab, if_neg (by simpa using hab)]
      have hmem : type ∈ s.names := by
        rw [mem_names_registerStat] at htype
        exact htype.resolve_left fun h => hab h.symm
      simpa [StatCall.added] using h.value type hmem

theorem IsStatMap.update (h : IsStatMap calls s) (a : String) (count : UInt32) :
    IsStatMap (calls ++ [.update a count]) (updateStat s a count) := by
  refine ⟨?_, ?_, ?_, ?_⟩
  · rw [updateStat_names]
    exact h.distinct
  · intro type
    rw [updateStat_names, h.keys]
    simp
  · rw [updateStat_names]
    exact h.entries
  · intro type htype
    rw [updateStat_names] at htype
    have hvalue := h.value type htype
    have hne : StatCall.update a count ≠ .register type := nofun
    rw [sumSince_append, if_neg hne, StatCall.added, getStat_updateStat]
    by_cases hab : a = type
    · rw [if_pos ⟨hab, htype⟩, if_pos hab, UInt32.toNat_add, hvalue]
      exact Nat.mod_add_mod _ _ _
    · rw [if_neg fun h => hab h.1, if_neg hab]
      exact hvalue

theorem IsStatMap.read (h : IsStatMap calls s) {c : StatCall} (hc : c.registers = none)
    (hadd : ∀ type, c.added type = 0) : IsStatMap (calls ++ [c]) s := by
  have hne : ∀ type, c ≠ .register type := by
    rintro type rfl
    cases hc
  refine ⟨h.distinct, ?_, h.entries, ?_⟩
  · intro type
    rw [h.keys, List.mem_append, List.mem_singleton]
    exact (or_iff_left fun heq => hne type heq.symm).symm
  · intro type htype
    rw [sumSince_append, if_neg (hne type), hadd type]
    exact h.value type htype

theorem isStatMap_run (calls : List StatCall) : IsStatMap calls (statRun calls) := by
  induction calls using List.reverseRecOn with
  | nil => exact ⟨List.nodup_nil, by simp [statRun, Stats.empty, Stats.names], rfl, nofun⟩
  | append_singleton calls c ih =>
    have hrun : statRun (calls ++ [c]) = StatCall.run (statRun calls) c := by simp [statRun]
    rw [hrun]
    cases c with
    | register a => exact ih.register a
    | update a count => exact ih.update a count
    | get | getCount => exact ih.read rfl fun _ => rfl

theorem IsStatMap.card (h : IsStatMap calls s) :
    (registeredNames calls).card = s.names.length := by
  have hnames : registeredNames calls = s.names.toFinset := by
    ext type
    rw [mem_registeredNames, List.mem_toFinset, h.keys]
  rw [hnames, List.toFinset_card_of_nodup h.distinct]

/-- The names are distinct, the count is that of the registered names as far as 32 bits hold
it, and the counters are the sums; a name that is not registered has none. -/
theorem stats_map (calls : List StatCall) :
    (statRun calls).names.Nodup ∧
      (getStatCount (statRun calls)).toNat = (registeredNames calls).card % 2 ^ 32 ∧
      (∀ type ∈ registeredNames calls,
        (getStat (statRun calls) type).toNat = sumSince calls type % 2 ^ 32) ∧
      ∀ type ∉ registeredNames calls, getStat (statRun calls) type = 0 ∧
        ∀ count, updateStat (statRun calls) type count = statRun calls := by
  have h := isStatMap_run calls
  have hmem : ∀ type, type ∈ registeredNames calls ↔ type ∈ (statRun calls).names := fun type =>
    mem_registeredNames.trans (h.keys type).symm
  refine ⟨h.distinct, ?_, ?_, ?_⟩
  · rw [h.card]
    exact h.entries
  · intro type htype
    exact h.value type ((hmem type).mp htype)
  · intro type htype
    have hout : type ∉ (statRun calls).names := fun hin => htype ((hmem type).mpr hin)
    exact ⟨getStat_of_not_mem hout, updateStat_of_not_mem hout⟩

def manyNames (n : Nat) : List String := (List.range n).map Nat.repr

theorem manyNames_nodup (n : Nat) : (manyNames n).Nodup := by
  refine List.nodup_range.map fun i j hij => ?_
  have hread := congrArg (fun name : String => Nat.ofDigitChars 10 name.toList 0) hij
  simp only [Nat.toList_repr] at hread
  rwa [Nat.ofDigitChars_toDigits (by decide) (by decide),
    Nat.ofDigitChars_toDigits (by decide) (by decide)] at hread

theorem card_manyNames (n : Nat) :
    (registeredNames ((manyNames n).map .register)).card = n := by
  have hnames :
      ((manyNames n).map StatCall.register).filterMap StatCall.registers = manyNames n := by
    rw [List.filterMap_map]
    exact List.filterMap_some
  rw [registeredNames, hnames, List.toFinset_card_of_nodup (manyNames_nodup n), manyNames,
    List.length_map, List.length_range]

theorem count_manyNames (n : Nat) :
    (getStatCount (statRun ((manyNames n).map .register))).toNat = n % 2 ^ 32 := by
  have h := isStatMap_run ((manyNames n).map .register)
  have hentries := h.entries
  rwa [← h.card, card_manyNames] at hentries

/-- With 2 ^ 32 names registered, of ten characters at most, the count is 0. -/
theorem count_wraps :
    (getStatCount (statRun ((manyNames (2 ^ 32)).map .register))).toNat ≠
      (registeredNames ((manyNames (2 ^ 32)).map .register)).card := by
  rw [count_manyNames, card_manyNames, Nat.mod_self]
  exact Nat.ne_of_lt (Nat.two_pow_pos 32)

end Lmap
