import Lmap.MsgQueue

/-!
What one call of `ui_msg_flush` displays, what it returns and what it leaves in the queue.
-/

set_option autoImplicit false

namespace Lmap
namespace Ui
open SimpleQueue

/-- Of `items` the loop displays `n`, with `w.i` at `j`: at least one of them, and no more once
the count is at the limit. -/
structure Flushes (max j : Int) (items : List (Nat × Message)) (w w' : Flush) (n : Nat) :
    Prop where
  le : n ≤ items.length
  one : items ≠ [] → 0 < n
  queue : Linked w'.queue (items.drop n)
  displayed : w'.displayed = w.displayed ++ (items.take n).map Prod.snd
  count : w'.i = int32 (j + n)
  stop : n < items.length → int32 (j + n) = max
  go : ∀ e : Nat, 0 < e → e < n → int32 (j + e) ≠ max

variable {items : List (Nat × Message)} {w w' w'' : Flush} {max j : Int}

theorem add_succ (j : Int) (n : Nat) : j + 1 + n = j + (n + 1 : Nat) := by omega

theorem flushes_nil (hw : Linked w.queue []) (hi : w.i = int32 j) : Flushes max j [] w w 0 where
  le := Nat.le_refl _
  one := fun hne => absurd rfl hne
  queue := hw
  displayed := by simp
  count := by simpa using hi
  stop := nofun
  go := nofun

theorem Flushes.last {a : Nat} {m : Message} (hw : Linked w'.queue items)
    (hi : w'.i = int32 (j + 1)) (hdisplayed : w'.displayed = w.displayed ++ [m])
    (hmax : w'.i = max) : Flushes max j ((a, m) :: items) w w' 1 where
  le := by simp
  one := fun _ => Nat.one_pos
  queue := hw
  displayed := by simpa using hdisplayed
  count := hi
  stop := fun _ => hi.symm.trans hmax
  go := by
    intro e hpos hlt
    omega

theorem Flushes.cons {a n : Nat} {m : Message} (h : Flushes max (j + 1) items w' w'' n)
    (hi : w'.i = int32 (j + 1)) (hdisplayed : w'.displayed = w.displayed ++ [m])
    (hmax : w'.i ≠ max) : Flushes max j ((a, m) :: items) w w'' (n + 1) where
  le := by simpa using h.le
  one := fun _ => Nat.succ_pos n
  queue := h.queue
  displayed := by rw [h.displayed, hdisplayed]; simp
  count := by rw [h.count, add_succ]
  stop := by
    intro hlt
    rw [← h.stop (by simpa using hlt), add_succ]
  go := by
    intro e hpos hlt
    rcases Nat.eq_or_lt_of_le hpos with rfl | hone
    · rwa [hi] at hmax
    · have hrest := h.go (e - 1) (by omega) (by omega)
      rwa [add_succ, Nat.sub_add_cancel hpos] at hrest

theorem run_flushBody (max : Int) {fuel : Nat} (hw : Linked w.queue items) (hi : w.i = int32 j)
    (hfuel : items.length < fuel) :
    ∃ w' n, Loop.run (flushBody max) fuel w = some (.ok w') ∧ Flushes max j items w w' n := by
  induction items generalizing fuel w j with
  | nil =>
    obtain ⟨fuel, rfl⟩ : ∃ k, fuel = k + 1 := ⟨fuel - 1, by simp at hfuel; omega⟩
    exact ⟨w, 0, Loop.run_leave (flushBody_nil hw max) fuel, flushes_nil hw hi⟩
  | cons e items ih =>
    obtain ⟨a, m⟩ := e
    obtain ⟨fuel, rfl⟩ : ∃ k, fuel = k + 1 := ⟨fuel - 1, by simp at hfuel; omega⟩
    obtain ⟨w', hround, hcount, hqueue, hdisplayed, -⟩ := flushBody_next hw max
    have hi' : w'.i = int32 (j + 1) := by rw [hcount, hi, int32_add]
    by_cases hmax : w'.i = max
    · rw [if_pos hmax] at hround
      exact ⟨w', 1, Loop.run_leave hround fuel, .last hqueue hi' hdisplayed hmax⟩
    · rw [if_neg hmax] at hround
      obtain ⟨w'', n, hrun, hflushes⟩ := ih hqueue hi' (by simpa using hfuel)
      exact ⟨w'', n + 1, (Loop.run_again hround fuel).trans hrun,
        hflushes.cons hi' hdisplayed hmax⟩

def limit (max : Int) (k : Nat) : Nat := if max < 0 then k else min max.toNat k

/-- When the count comes to the limit that was asked for. -/
def WithinLimit (max : Int) (k : Nat) : Prop := k = 0 ∨ 0 < max ∨ (max < 0 ∧ k < 2 ^ 31)

instance (max : Int) (k : Nat) : Decidable (WithinLimit max k) :=
  inferInstanceAs (Decidable (_ ∨ _))

theorem int32_lt (x : Int) : int32 x < 2 ^ 31 := by
  unfold int32
  have hlt := Int.bmod_lt (x := x) (m := 2 ^ 32) (by decide)
  omega

theorem int32_natCast {n : Nat} (h : n < 2 ^ 31) : int32 n = n :=
  int32_of_range (by omega) (by omega)

/-- From 0 on, the loop displays what it is to display, and counts it, exactly within the
limit. -/
theorem Flushes.limit_iff {n : Nat} (h : Flushes max 0 items w w' n) (hmax : max < 2 ^ 31) :
    n = limit max items.length ∧ w'.i = n ↔ WithinLimit max items.length := by
  have hcount : w'.i = int32 n := by simpa using h.count
  have hle := h.le
  have hone : items.length ≠ 0 → 0 < n := fun hne => h.one (by rintro rfl; exact hne rfl)
  have hstop : n < items.length → int32 n = max := by simpa using h.stop
  have hgo : ∀ e : Nat, 0 < e → e < n → int32 e ≠ max := by simpa using h.go
  constructor
  · rintro ⟨hn, hi⟩
    have hlt := int32_lt n
    unfold limit at hn
    unfold WithinLimit
    split at hn <;> omega
  · rintro (hnil | hpos | ⟨hneg, hk⟩)
    · have hn : n = 0 := by omega
      subst hn
      rw [hnil]
      exact ⟨by simp [limit], hcount⟩
    · -- no count beyond the limit is reached, so none wraps
      have hnmax : (n : Int) ≤ max := by
        by_contra hgt
        have hreached := hgo max.toNat (by omega) (by omega)
        exact hreached ((int32_natCast (by omega)).trans (Int.toNat_of_nonneg (by omega)))
      have hin : int32 n = n := int32_natCast (by omega)
      refine ⟨?_, hcount.trans hin⟩
      unfold limit
      rw [if_neg (by omega)]
      rcases Nat.lt_or_eq_of_le hle with hlt | heq
      · have := hstop hlt
        omega
      · omega
    · have hin : int32 n = n := int32_natCast (by omega)
      refine ⟨?_, hcount.trans hin⟩
      unfold limit
      rw [if_pos hneg]
      by_contra hne
      have := hstop (by omega)
      omega

section Calls

variable {T : Type} [DecidableEq T] {s s' : State T} {t : T}

def Reachable (s : State T) : Prop :=
  ∃ as, Transition.exec step (State.initial T) as = .ok s

theorem Reachable.inv (h : Reachable s) : ∃ items, s.Inv items := by
  obtain ⟨as, hrun⟩ := h
  refine Transition.exec_invariant (I := fun s => ∃ items, State.Inv s items) ?_
    ⟨[], inv_initial⟩ hrun
  rintro s a s' ⟨items, hinv⟩ hstep
  rcases step_inv hinv a with herr | ⟨s'', hok, hinv'⟩
  · cases herr.symm.trans hstep
  · cases hok.symm.trans hstep
    exact hinv'

inductive Returns (s : State T) (t : T) (max : Int) : Action T → Prop where
  | empty (hpc : s.pc t = .idle) (hfirst : s.queue.first = none) : Returns s t max (.test t max)
  | locked (hpc : s.pc t = .flushing max) : Returns s t max (.flush t)

/-- Of the items of the queue, `n` are displayed, and no more are taken off. -/
structure Flushed (s s' : State T) (t : T) (items : List (Nat × Message)) (n : Nat) : Prop where
  displayed : s'.displayed = s.displayed ++ (items.take n).map Prod.snd
  queued : Linked s'.queue (items.drop n)
  result : s'.result t = some (n : Int)

def FlushBound (s : State T) (t : T) (max : Int) (a : Action T) (items : List (Nat × Message)) :
    Prop :=
  ∃ s', step s a = .ok s' ∧ Flushed s s' t items (limit max items.length)

theorem step_test_empty (hpc : s.pc t = .idle) (hfirst : s.queue.first = none) (max : Int) :
    step s (.test t max) = .ok { s with result := Function.update s.result t (some 0) } :=
  (if_pos hpc).trans (if_pos hfirst)

theorem linked_first_none {q : Queue Message} (h : Linked q items) (hfirst : q.first = none) :
    items = [] := by
  cases items with
  | nil => rfl
  | cons e items => cases hfirst.symm.trans h.chain.1

theorem flushBound_empty (hpc : s.pc t = .idle) (hfirst : s.queue.first = none)
    (hitems : Linked s.queue []) (max : Int) : FlushBound s t max (.test t max) [] := by
  refine ⟨_, step_test_empty hpc hfirst max, ?_⟩
  exact
    { displayed := by simp
      queued := by simpa using hitems
      result := by simp [limit] }

theorem step_flush (hreach : Reachable s) (hpc : s.pc t = .flushing max)
    (hitems : Linked s.queue items) :
    ∃ w n, Flushes max 0 items ⟨s.queue, s.displayed, 0⟩ w n ∧
      step s (.flush t) = .ok { s with
        queue := w.queue
        displayed := w.displayed
        result := Function.update s.result t (some w.i)
        pc := Function.update s.pc t .idle } := by
  obtain ⟨items', hinv⟩ := hreach.inv
  obtain rfl := hitems.chain.unique hinv.intact.linked.chain
  have hlen : items.length < s.enqueued.length + 1 := by
    rw [← hinv.intact.content, List.length_append, List.length_map]
    omega
  obtain ⟨w, n, hrun, hflushes⟩ := run_flushBody max (w := ⟨s.queue, s.displayed, 0⟩)
    (j := 0) hitems rfl hlen
  exact ⟨w, n, hflushes, by simp only [step, hpc, hrun]⟩

theorem limit_le (max : Int) (k : Nat) : limit max k ≤ k := by
  unfold limit
  split <;> omega

theorem flushBound_locked (hreach : Reachable s) (hpc : s.pc t = .flushing max)
    (hitems : Linked s.queue items) (hmax : max < 2 ^ 31) :
    FlushBound s t max (.flush t) items ↔ WithinLimit max items.length := by
  obtain ⟨w, n, hflushes, hstep⟩ := step_flush hreach hpc hitems
  rw [← hflushes.limit_iff hmax]
  constructor
  · rintro ⟨s', hstep', hflushed⟩
    cases hstep.symm.trans hstep'
    have hn : n = limit max items.length := by
      have hle := hflushes.le
      have hlimit := limit_le max items.length
      have hsame := congrArg List.length (hflushes.displayed.symm.trans hflushed.displayed)
      simp only [List.length_append, List.length_map, List.length_take] at hsame
      omega
    have hresult : some w.i = some ((limit max items.length : Nat) : Int) :=
      (Function.update_self t (some w.i) s.result).symm.trans hflushed.result
    exact ⟨hn, by rw [hn, Option.some.inj hresult]⟩
  · rintro ⟨rfl, hi⟩
    refine ⟨_, hstep, hflushes.displayed, hflushes.queue, ?_⟩
    rw [← hi]
    exact Function.update_self t (some w.i) s.result

/-- A call with any `max` displays, returns and leaves what it is to, in any run and whatever
the other threads do, exactly if the queue it finds is empty, `max` is positive, or `max` is
negative and the number of messages is an `int`. -/
theorem flushBound_iff (max : Int32) {a : Action T} (hreach : Reachable s)
    (hreturns : Returns s t max.toInt a) (hitems : Linked s.queue items) :
    FlushBound s t max.toInt a items ↔ WithinLimit max.toInt items.length := by
  cases hreturns with
  | empty hpc hfirst =>
    obtain rfl := linked_first_none hitems hfirst
    exact iff_of_true (flushBound_empty hpc hfirst hitems _) (.inl rfl)
  | locked hpc => exact flushBound_locked hreach hpc hitems max.toInt_lt

end Calls

def twoPosted (max : Int) : List (Action Unit) :=
  [.prepare () 1 [97], .insert (), .prepare () 2 [98], .insert (), .test () max]

theorem flushBound_iff_one :
    ∃ s, Transition.exec step (State.initial Unit) (twoPosted 1) = .ok s ∧
      (FlushBound s () 1 (.flush ()) [(1, [97]), (2, [98])] ↔ WithinLimit 1 2) := by
  refine ⟨_, rfl, ?_⟩
  exact flushBound_iff 1 ⟨twoPosted 1, rfl⟩ (.locked rfl)
    ⟨⟨rfl, _, rfl, rfl, _, rfl, rfl⟩, by decide, rfl⟩

/-- With 0 for `max` both are displayed. -/
theorem not_flushBound_zero :
    ∃ s, Transition.exec step (State.initial Unit) (twoPosted 0) = .ok s ∧
      Returns s () 0 (.flush ()) ∧ Linked s.queue [(1, [97]), (2, [98])] ∧
      ¬ FlushBound s () 0 (.flush ()) [(1, [97]), (2, [98])] := by
  refine ⟨_, rfl, .locked rfl, ⟨⟨rfl, _, rfl, rfl, _, rfl, rfl⟩, by decide, rfl⟩, ?_⟩
  rintro ⟨s', hstep, hflushed⟩
  cases hstep
  exact absurd hflushed.displayed (by decide)

end Ui
end Lmap
