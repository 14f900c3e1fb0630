import Mathlib.Data.List.Nodup
import Mathlib.Tactic.Common

/-! The statistics list: named 32 bit counters, the latest registered first. -/

set_option autoImplicit false

namespace Lmap

structure StatEntry where
  type : String
  num : UInt32
  deriving DecidableEq, Repr

structure Stats where
  list : List StatEntry
  entries : UInt32
  deriving DecidableEq, Repr

def Stats.empty : Stats := ⟨[], 0⟩

def Stats.names (s : Stats) : List String := s.list.map StatEntry.type

def replaceStat (newelem : StatEntry) : List StatEntry → Option (List StatEntry)
  | [] => none
  | e :: es =>
    if e.type = newelem.type then some (newelem :: es)
    else (replaceStat newelem es).map (e :: ·)

def registerStat (s : Stats) (type : String) : Stats :=
  match replaceStat ⟨type, 0⟩ s.list with
  | some list => { s with list := list }
  | none => ⟨⟨type, 0⟩ :: s.list, s.entries + 1⟩

def getStatCount (s : Stats) : UInt32 := s.entries

/-- The loop does not stop at the first entry of that name. -/
def updateStat (s : Stats) (type : String) (count : UInt32) : Stats :=
  { s with
    list := s.list.map (fun e => if e.type = type then { e with num := e.num + count } else e) }

def getStat (s : Stats) (type : String) : UInt32 :=
  match s.list.find? (fun e => e.type = type) with
  | some e => e.num
  | none => 0

theorem replaceStat_none {n : StatEntry} {es : List StatEntry} :
    replaceStat n es = none ↔ n.type ∉ es.map StatEntry.type := by
  induction es with
  | nil => simp [replaceStat]
  | cons e es ih =>
    by_cases he : e.type = n.type
    · simp [replaceStat, he]
    · have he' : ¬ n.type = e.type := fun h => he h.symm
      simp [replaceStat, he, ih, he']

theorem replaceStat_append {n e : StatEntry} {xs : List StatEntry}
    (hxs : ∀ d ∈ xs, d.type ≠ n.type) (he : e.type = n.type) (ys : List StatEntry) :
    replaceStat n (xs ++ e :: ys) = some (xs ++ n :: ys) := by
  induction xs with
  | nil => simp [replaceStat, he]
  | cons d xs ih =>
    obtain ⟨hd, hxs⟩ := List.forall_mem_cons.mp hxs
    simp [replaceStat, hd, ih hxs]

theorem replaceStat_names {n : StatEntry} {es fs : List StatEntry}
    (h : replaceStat n es = some fs) : fs.map StatEntry.type = es.map StatEntry.type := by
  induction es generalizing fs with
  | nil => simp [replaceStat] at h
  | cons e es ih =>
    by_cases he : e.type = n.type
    · simp only [replaceStat, he, if_true, Option.some.injEq] at h
      simp [← h, he]
    · simp only [replaceStat, he, if_false, Option.map_eq_some_iff] at h
      obtain ⟨gs, hg, rfl⟩ := h
      simp [ih hg]

theorem mem_names_registerStat (s : Stats) (a b : String) :
    b ∈ (registerStat s a).names ↔ b = a ∨ b ∈ s.names := by
  unfold registerStat
  split
  · rename_i list hr
    have hmem : a ∈ s.names := by
      by_contra hne
      rw [replaceStat_none.mpr hne] at hr
      cases hr
    have hn : ({ s with list := list } : Stats).names = s.names := replaceStat_names hr
    rw [hn]
    constructor
    · exact .inr
    · rintro (rfl | h)
      · exact hmem
      · exact h
  · simp [Stats.names]

@[simp] theorem updateStat_names (s : Stats) (a : String) (c : UInt32) :
    (updateStat s a c).names = s.names := by
  simp only [updateStat, Stats.names, List.map_map]
  congr 1
  funext e
  simp only [Function.comp]
  split <;> rfl

theorem getStat_updateStat (s : Stats) (a b : String) (c : UInt32) :
    getStat (updateStat s a c) b =
      if a = b ∧ b ∈ s.names then getStat s b + c else getStat s b := by
  obtain ⟨list, entries⟩ := s
  induction list with
  | nil => simp [getStat, updateStat, Stats.names]
  | cons e es ih =>
    simp only [getStat, updateStat, Stats.names, List.map_cons, List.find?_cons] at ih ⊢
    by_cases hb : e.type = b
    · by_cases hab : a = b
      · simp [hb, hab]
      · have hba : ¬ b = a := fun h => hab h.symm
        simp [hb, hab, hba]
    · have hb' : ¬ b = e.type := fun h => hb h.symm
      have htype : (if e.type = a then { e with num := e.num + c } else e).type = e.type := by
        split <;> rfl
      simp only [htype, hb, decide_false, List.mem_cons, hb', false_or]
      exact ih

theorem getStat_registerStat (s : Stats) (a b : String) :
    getStat (registerStat s a) b = if a = b then 0 else getStat s b := by
  have hall : ∀ (es fs : List StatEntry), replaceStat ⟨a, 0⟩ es = some fs →
      getStat ⟨fs, s.entries⟩ b = if a = b then 0 else getStat ⟨es, s.entries⟩ b := by
    intro es
    induction es with
    | nil => simp [replaceStat]
    | cons e es ih =>
      intro fs hr
      by_cases he : e.type = a
      · simp only [replaceStat, he, if_true, Option.some.injEq] at hr
        subst hr
        by_cases hab : a = b
        · simp [getStat, hab]
        · simp [getStat, he, hab]
      · simp only [replaceStat, he, if_false, Option.map_eq_some_iff] at hr
        obtain ⟨gs, hg, rfl⟩ := hr
        by_cases heb : e.type = b
        · have hab : ¬ a = b := fun h => he (heb.trans h.symm)
          simp [getStat, heb, hab]
        · have := ih gs hg
          simpa [getStat, heb] using this
  unfold registerStat
  split
  · rename_i list hr
    exact hall _ _ hr
  · by_cases hab : a = b
    · simp [getStat, hab]
    · simp [getStat, hab]

theorem getStat_registerStat_zero (s : Stats) (a : String) (h : ∀ b, getStat s b = 0) (b : String) :
    getStat (registerStat s a) b = 0 := by
  rw [getStat_registerStat, h b, ite_self]

theorem updateStat_of_not_mem {s : Stats} {a : String} (h : a ∉ s.names) (c : UInt32) :
    updateStat s a c = s := by
  obtain ⟨list, entries⟩ := s
  have hlist :
      list.map (fun e => if e.type = a then { e with num := e.num + c } else e) = list := by
    refine (List.map_congr_left fun e he => ?_).trans (List.map_id list)
    exact if_neg fun htype => h (List.mem_map.mpr ⟨e, he, htype⟩)
  rw [updateStat, hlist]

theorem getStat_of_not_mem {s : Stats} {a : String} (h : a ∉ s.names) : getStat s a = 0 := by
  have hnone : s.list.find? (fun e => e.type = a) = none := by
    rw [List.find?_eq_none]
    intro e he htype
    exact h (List.mem_map.mpr ⟨e, he, by simpa using htype⟩)
  rw [getStat, hnone]

theorem getStat_of_mem {s : Stats} (hdistinct : s.names.Nodup) {e : StatEntry} (he : e ∈ s.list) :
    getStat s e.type = e.num := by
  cases hfind : s.list.find? fun d => d.type = e.type with
  | none =>
    have hne := List.find?_eq_none.mp hfind e he
    simp at hne
  | some d =>
    have hd : d = e := List.inj_on_of_nodup_map hdistinct (List.mem_of_find?_eq_some hfind) he
      (by simpa using List.find?_some hfind)
    rw [getStat, hfind, hd]

theorem registerStat_names (s : Stats) (a : String) :
    (registerStat s a).names = if a ∈ s.names then s.names else a :: s.names := by
  unfold registerStat
  by_cases ha : a ∈ s.names
  · rw [if_pos ha]
    split
    · rename_i list hr
      exact replaceStat_names hr
    · rename_i hr
      exact absurd ha (replaceStat_none.mp hr)
  · rw [if_neg ha, replaceStat_none.mpr ha]
    rfl

theorem registerStat_entries (s : Stats) (a : String) :
    (registerStat s a).entries = if a ∈ s.names then s.entries else s.entries + 1 := by
  unfold registerStat
  by_cases ha : a ∈ s.names
  · rw [if_pos ha]
    split
    · rfl
    · rename_i hr
      exact absurd ha (replaceStat_none.mp hr)
  · rw [if_neg ha, replaceStat_none.mpr ha]

end Lmap
