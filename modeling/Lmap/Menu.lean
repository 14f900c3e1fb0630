import Lmap.StatList

/-!
The menu and the window of the statistics. The capture thread counts while the user interface
goes from one reading of a counter to the next, and the numbers are only drawn again when the
total has changed.
-/

set_option autoImplicit false

namespace Lmap
namespace StatList
open LinkedList (Seg)

def State.getStat (s : State) (type : String) : Except Stop UInt32 := do
  match ← walked (LinkedList.find s.list (fun e => e.type = type) s.allocs s.list.first) with
  | some (_, e) => pure e.num
  | none => pure 0

/-- The next call of `get_all_stats` comes to the element with this index. -/
def State.AtItem (s : State) (items : List (Nat × StatEntry)) (k : Nat) : Prop :=
  s.current = .unset ∧ k = 0 ∨ s.current = .at ((items.drop k).head?.map Prod.fst)

variable {s : State} {items : List (Nat × StatEntry)} {k : Nat} {e : Nat × StatEntry}
  {l : LinkedList.Link} {p : Option Nat}

theorem State.Inv.getStat (h : s.Inv items) (type : String) :
    s.getStat type = .ok (Lmap.getStat s.stats type) := by
  have hfind := h.linked.seg.find (fun e => e.type = type) h.short
  rw [h.stats, Lmap.getStat, List.find?_map]
  cases hfound : items.find? fun e => e.2.type = type with
  | none =>
    simp only [State.getStat, hfind, hfound, walked, bind, Except.bind, pure, Except.pure,
      Function.comp_def, Option.map_none]
  | some e =>
    simp only [State.getStat, hfind, hfound, walked, bind, Except.bind, pure, Except.pure,
      Function.comp_def, Option.map_some]

theorem seg_first {heap : Nat → Option (LinkedList.Node StatEntry)}
    (h : Seg heap l p items none) : p = items.head?.map Prod.fst := by
  cases items with
  | nil => exact h
  | cons e items => exact h.1

theorem State.Inv.getAllStats_item (h : s.Inv items) (hat : s.AtItem items k)
    (hk : items[k]? = some e) :
    s.getAllStats =
      .ok ({ s with current := .at ((items.drop (k + 1)).head?.map Prod.fst) },
        some (shown e.2)) := by
  obtain ⟨hlt, hget⟩ := List.getElem?_eq_some_iff.mp hk
  have hdrop : items.drop k = e :: items.drop (k + 1) := by
    rw [← hget, List.drop_eq_getElem_cons hlt]
  have hitems : items = items.take k ++ e :: items.drop (k + 1) := by
    rw [← hdrop, List.take_append_drop]
  have hlinked := h.linked
  rw [hitems] at hlinked
  obtain ⟨next, hnode, -, hrest, -⟩ := hlinked.around
  have hadvance : s.advance (some e.1) =
      .ok ({ s with current := .at ((items.drop (k + 1)).head?.map Prod.fst) },
        some (shown e.2)) := by
    rw [← seg_first hrest]
    simp only [State.advance, Option.bind_some, hnode, through, bind, Except.bind, pure,
      Except.pure]
  rcases hat with ⟨hunset, rfl⟩ | hat
  · rw [State.getAllStats, hunset]
    dsimp only
    rw [seg_first h.linked.seg, ← List.drop_zero (l := items), hdrop]
    exact hadvance
  · rw [State.getAllStats, hat, hdrop]
    exact hadvance

theorem State.AtItem.getAllStats_end (hat : s.AtItem items items.length) (hsome : items ≠ []) :
    s.getAllStats = .ok ({ s with current := .at s.list.first }, none) := by
  rcases hat with ⟨-, hlen⟩ | hat
  · exact absurd (List.length_eq_zero_iff.mp hlen) hsome
  · rw [List.drop_length] at hat
    simp only [State.getAllStats, hat, List.head?_nil, Option.map_none, pure, Except.pure]

end StatList

namespace Menu
open StatList (Stop)

def printed (num : UInt32) : Int := num.toInt32.toInt

/-- The window of the statistics, with what has been printed in each line between its borders. -/
structure StatWin where
  height : Nat
  line : Nat → Option (String × Int)

/-- `mvwprintw`, which fails below the window. -/
def StatWin.mvwprintw (w : StatWin) (y : Nat) (text : String × Int) : StatWin :=
  if y < w.height then { w with line := Function.update w.line y (some text) } else w

inductive Pc where
  | idle
  /-- In `menu_refresh`, past the test. -/
  | printing
  /-- In `menu_refresh`, with the total printed. -/
  | remembering
  | refreshing (i : Nat)
  deriving DecidableEq, Repr

structure State where
  list : StatList.State
  /-- The `stats` of the menu, which is compared as it is with an unsigned counter. -/
  stats : UInt32
  menu : Option Int
  wStat : Option StatWin
  pc : Pc
  /-- Every name that was ever counted, in order. -/
  counted : List String
  /-- How many of them had been counted when the number was printed. -/
  printedAt : Nat
  /-- The same for when it was remembered, once it has been. -/
  rememberedAt : Option Nat

def State.start (list : StatList.State) : State := ⟨list, -1, none, none, .idle, [], 0, none⟩

inductive Call where
  | menuCreate
  | menuRefresh
  | menuDestroy
  | showStatistics
  deriving DecidableEq, Repr

inductive Action where
  /-- `update_stat` of the capture thread. -/
  | count (type : String)
  | call (c : Call)
  | goOn
  deriving DecidableEq, Repr

def Action.counted : Action → Option String
  | .count type => some type
  | .call _ | .goOn => none

def State.printTotal (s : State) : Except Stop State := do
  let total ← s.list.getStat "TOTAL"
  pure { s with menu := some (printed total), printedAt := s.counted.length }

def State.call (s : State) : Call → Except Stop State
  | .menuCreate => if s.menu.isNone then s.printTotal else .error .disabled
  | .menuRefresh =>
    if s.menu.isNone then .error .disabled
    else do
      let total ← s.list.getStat "TOTAL"
      if s.stats = total then pure s else pure { s with pc := .printing }
  | .menuDestroy =>
    if s.menu.isNone then .error .disabled else pure { s with menu := none, wStat := none }
  | .showStatistics =>
    if s.menu.isNone then .error .disabled
    else
      match s.wStat with
      | some _ => pure { s with wStat := none }
      | none => pure { s with
          wStat := some ⟨(s.list.statEntries + 2).toNat, fun _ => none⟩
          pc := .refreshing 1 }

def State.goOn (s : State) : Except Stop State :=
  match s.pc with
  | .idle => .error .disabled
  | .printing => do
    let s ← s.printTotal
    pure { s with pc := .remembering }
  | .remembering => do
    let total ← s.list.getStat "TOTAL"
    pure { s with
      stats := total
      rememberedAt := some s.counted.length
      pc := if s.wStat.isNone then .idle else .refreshing 1 }
  | .refreshing i => do
    match ← s.list.getAllStats with
    | (list, none) => pure { s with list := list, pc := .idle }
    | (list, some text) =>
      pure { s with
        list := list
        wStat := s.wStat.map fun w => w.mvwprintw i text
        pc := .refreshing (i + 1) }

def step (s : State) : Action → Except Stop State
  | .count type => do
    let list ← s.list.updateStat type 1
    pure { s with list := list, counted := s.counted ++ [type] }
  | .call c => if s.pc = .idle then s.call c else .error .disabled
  | .goOn => s.goOn

def Pc.item : Pc → Nat
  | .refreshing i => i - 1
  | .idle | .printing | .remembering => 0

def Pc.drawn (len : Nat) : Pc → Nat
  | .refreshing i => i - 1
  | .idle | .printing | .remembering => len

def countAt (counted : List String) (t : Nat) (type : String) : UInt32 :=
  UInt32.ofNat ((counted.take t).count type)

structure State.Counts (s : State) (names : List String) (items : List (Nat × StatEntry)) :
    Prop where
  list : s.list.Inv items
  registered : (items.map fun e => e.2.type) = names
  nonempty : names ≠ []
  counts : ∀ type ∈ names, getStat s.list.stats type = countAt s.counted s.counted.length type
  height : (s.list.statEntries + 2).toNat = names.length + 2
  item : s.list.AtItem items s.pc.item
  refreshing : ∀ i, s.pc = .refreshing i → 0 < i ∧ i ≤ names.length + 1 ∧ s.wStat.isSome

/-- A window with the counts of some time, of which `drawn` are not older than `since`. -/
structure StatWin.Shows (w : StatWin) (names counted : List String) (since drawn : Nat) :
    Prop where
  height : w.height = names.length + 2
  borders : ∀ y, y = 0 ∨ names.length < y → w.line y = none
  lines : ∀ j type, names[j]? = some type → j < drawn → ∃ t, since ≤ t ∧ t ≤ counted.length ∧
    w.line (j + 1) = some (type, printed (countAt counted t type))

structure State.Drawn (s : State) (names : List String) : Prop where
  unset : s.rememberedAt = none → s.stats = -1
  remembered : ∀ k, s.rememberedAt = some k →
    k ≤ s.counted.length ∧ s.stats = countAt s.counted k "TOTAL"
  menu : ∀ m, s.menu = some m → s.printedAt ≤ s.counted.length ∧
    m = printed (countAt s.counted s.printedAt "TOTAL")
  window : ∀ w, s.wStat = some w →
    w.Shows names s.counted (s.rememberedAt.getD 0) (s.pc.drawn names.length)

/-- Nothing has been counted since the total was remembered, or it is going to be remembered. -/
def State.Fresh (s : State) : Prop :=
  match s.pc with
  | .printing | .remembering => True
  | .idle | .refreshing _ => s.rememberedAt = some s.counted.length

def State.Good (s : State) (names : List String) : Prop :=
  (∃ items, s.Counts names items) ∧ s.Drawn names

variable {s s' : State} {names counted : List String} {items : List (Nat × StatEntry)}
  {w : StatWin} {type : String} {since since' drawn drawn' t : Nat}

theorem fresh_of_remembered (h : s.rememberedAt = some s.counted.length) : s.Fresh := by
  unfold State.Fresh
  split
  · trivial
  · trivial
  · exact h
  · exact h

theorem countAt_append (more : List String) (ht : t ≤ counted.length) (type : String) :
    countAt (counted ++ more) t type = countAt counted t type := by
  rw [countAt, countAt, List.take_append_of_le_length ht]

theorem StatWin.Shows.append (h : w.Shows names counted since drawn) (more : List String) :
    w.Shows names (counted ++ more) since drawn where
  height := h.height
  borders := h.borders
  lines := by
    intro j type hj hdrawn
    obtain ⟨t, hsince, ht, hline⟩ := h.lines j type hj hdrawn
    refine ⟨t, hsince, ?_, by rw [countAt_append more ht, hline]⟩
    rw [List.length_append]
    exact Nat.le_add_right_of_le ht

theorem StatWin.Shows.undrawn (h : w.Shows names counted since drawn) (since' : Nat) :
    w.Shows names counted since' 0 :=
  ⟨h.height, h.borders, fun _ _ _ hd => absurd hd (Nat.not_lt_zero _)⟩

theorem shows_new (names counted : List String) (since : Nat) :
    StatWin.Shows ⟨names.length + 2, fun _ => none⟩ names counted since 0 :=
  ⟨rfl, fun _ _ => rfl, fun _ _ _ hd => absurd hd (Nat.not_lt_zero _)⟩

theorem StatWin.Shows.draw (h : w.Shows names counted since drawn)
    (hname : names[drawn]? = some type) (hsince : since ≤ counted.length) :
    (w.mvwprintw (drawn + 1) (type, printed (countAt counted counted.length type))).Shows names
      counted since (drawn + 1) := by
  obtain ⟨hlt, -⟩ := List.getElem?_eq_some_iff.mp hname
  have hheight := h.height
  rw [StatWin.mvwprintw, if_pos (by omega)]
  refine ⟨hheight, fun y hy => ?_, fun j type' hj hdrawn => ?_⟩
  · exact (Function.update_of_ne (by omega) _ _).trans (h.borders y hy)
  · by_cases hjd : j = drawn
    · subst hjd
      cases hname.symm.trans hj
      exact ⟨counted.length, hsince, Nat.le_refl _, Function.update_self _ _ _⟩
    · obtain ⟨t, hst, ht, hline⟩ := h.lines j type' hj (by omega)
      exact ⟨t, hst, ht, (Function.update_of_ne (by omega) _ _).trans hline⟩

theorem State.Counts.getStat (h : s.Counts names items) (htype : type ∈ names) :
    s.list.getStat type = .ok (countAt s.counted s.counted.length type) :=
  (h.list.getStat type).trans (congrArg Except.ok (h.counts type htype))

theorem State.Good.count (h : s.Good names) (type : String) :
    ∃ s', step s (.count type) = .ok s' ∧ s'.counted = s.counted ++ [type] ∧ s'.Good names := by
  obtain ⟨⟨items, h⟩, hdrawn⟩ := h
  obtain ⟨list, items', hupdate, hcurrent, hinv, hstats, haddresses⟩ :=
    h.list.updateStat type 1
  have hnames' : (items'.map fun e => e.2.type) = names := by
    rw [← hinv.names, hstats, updateStat_names, h.list.names, h.registered]
  have hentries : list.statEntries = s.list.statEntries := by
    have hboth := congrArg Stats.entries hstats
    exact hboth
  refine ⟨{ s with list := list, counted := s.counted ++ [type] }, ?_, rfl, ⟨items', ?_⟩, ?_⟩
  · simp only [step, hupdate, bind, Except.bind, pure, Except.pure]
  · refine ⟨hinv, hnames', h.nonempty, fun type' htype' => ?_, ?_, ?_, h.refreshing⟩
    · dsimp only
      have hmem : type' ∈ s.list.stats.names := by
        rw [h.list.names, h.registered]
        exact htype'
      rw [hstats, getStat_updateStat, h.counts type' htype', countAt, countAt, List.take_length,
        List.take_length, List.count_append]
      by_cases hsame : type = type'
      · rw [if_pos ⟨hsame, hmem⟩, hsame, List.count_singleton_self, UInt32.ofNat_add]
        rfl
      · rw [if_neg fun h => hsame h.1, List.count_singleton, if_neg (by simpa using hsame)]
        rfl
    · dsimp only
      rw [hentries]
      exact h.height
    · have hheads : ∀ k,
          (items'.drop k).head?.map Prod.fst = (items.drop k).head?.map Prod.fst := by
        intro k
        have hdrop := congrArg (fun as => (as.drop k).head?) haddresses
        simpa only [LinkedList.addresses, ← List.map_drop, List.head?_map] using hdrop
      have hitem := h.item
      rw [StatList.State.AtItem] at hitem ⊢
      rw [hcurrent, hheads]
      exact hitem
  · refine ⟨hdrawn.unset, fun k hk => ?_, fun m hm => ?_, fun w hw => ?_⟩
    · obtain ⟨hle, heq⟩ := hdrawn.remembered k hk
      dsimp only
      rw [countAt_append [type] hle, List.length_append]
      exact ⟨Nat.le_add_right_of_le hle, heq⟩
    · obtain ⟨hle, heq⟩ := hdrawn.menu m hm
      dsimp only
      rw [countAt_append [type] hle, List.length_append]
      exact ⟨Nat.le_add_right_of_le hle, heq⟩
    · exact (hdrawn.window w hw).append [type]

theorem State.Good.printTotal (h : s.Good names) (htotal : "TOTAL" ∈ names) :
    ∃ s', s.printTotal = .ok s' ∧ s'.counted = s.counted ∧ s'.pc = s.pc ∧ s'.Good names := by
  obtain ⟨⟨items, h⟩, hdrawn⟩ := h
  refine ⟨{ s with
    menu := some (printed (countAt s.counted s.counted.length "TOTAL"))
    printedAt := s.counted.length }, ?_, rfl, rfl, ⟨items, ?_⟩, ?_⟩
  · simp only [State.printTotal, h.getStat htotal, bind, Except.bind, pure, Except.pure]
  · exact ⟨h.list, h.registered, h.nonempty, h.counts, h.height, h.item, h.refreshing⟩
  · refine ⟨hdrawn.unset, hdrawn.remembered, ?_, hdrawn.window⟩
    rintro m heq
    cases heq
    exact ⟨Nat.le_refl _, rfl⟩

theorem State.Good.move (h : s.Good names) (hpc : ∀ i, s.pc ≠ .refreshing i) (pc : Pc)
    (hpc' : ∀ i, pc ≠ .refreshing i) : State.Good { s with pc := pc } names := by
  obtain ⟨⟨items, h⟩, hdrawn⟩ := h
  have hitem : ∀ {p : Pc}, (∀ i, p ≠ .refreshing i) →
      p.item = 0 ∧ p.drawn names.length = names.length := by
    intro p hp
    cases p with
    | refreshing i => exact absurd rfl (hp i)
    | idle | printing | remembering => exact ⟨rfl, rfl⟩
  have hplace := h.item
  rw [(hitem hpc).1] at hplace
  refine ⟨⟨items, h.list, h.registered, h.nonempty, h.counts, h.height, ?_, ?_⟩,
    hdrawn.unset, hdrawn.remembered, hdrawn.menu, fun w hw => ?_⟩
  · dsimp only
    rw [(hitem hpc').1]
    exact hplace
  · exact fun i hi => absurd hi (hpc' i)
  · have hshows := hdrawn.window w hw
    rw [(hitem hpc).2] at hshows
    dsimp only
    rw [(hitem hpc').2]
    exact hshows

theorem State.Good.refresh (h : s.Good names) (hpc : ∀ i, s.pc ≠ .refreshing i) {s' : State}
    (hlist : s'.list = s.list) (hcounted : s'.counted = s.counted) (hnew : s'.pc = .refreshing 1)
    (hopen : s'.wStat.isSome)
    (hunset : s'.rememberedAt = none → s'.stats = -1)
    (hremembered : ∀ k, s'.rememberedAt = some k →
      k ≤ s.counted.length ∧ s'.stats = countAt s.counted k "TOTAL")
    (hmenu : s'.menu = s.menu) (hprinted : s'.printedAt = s.printedAt)
    (hwindow : ∀ w, s'.wStat = some w → ∃ since, w.Shows names s.counted since 0) :
    s'.Good names := by
  obtain ⟨⟨items, h⟩, hdrawn⟩ := h
  have hzero : s.pc.item = 0 := by
    cases hp : s.pc with
    | refreshing i => exact absurd hp (hpc i)
    | idle | printing | remembering => rfl
  have hplace := h.item
  rw [hzero] at hplace
  refine ⟨⟨items, ?_, h.registered, h.nonempty, ?_, ?_, ?_, ?_⟩, hunset, ?_, ?_, ?_⟩
  · rw [hlist]
    exact h.list
  · rw [hlist, hcounted]
    exact h.counts
  · rw [hlist]
    exact h.height
  · rw [hlist, hnew]
    exact hplace
  · intro i hi
    cases hnew.symm.trans hi
    exact ⟨Nat.one_pos, Nat.le_add_left 1 _, hopen⟩
  · rw [hcounted]
    exact hremembered
  · rw [hmenu, hprinted, hcounted]
    exact hdrawn.menu
  · intro w hw
    obtain ⟨since, hshows⟩ := hwindow w hw
    rw [hcounted, hnew]
    exact hshows.undrawn _

theorem State.Good.call (h : s.Good names) (htotal : "TOTAL" ∈ names) (hidle : s.pc = .idle)
    (c : Call) : s.call c = .error .disabled ∨
      ∃ s', s.call c = .ok s' ∧ s'.counted = s.counted ∧ s'.Good names := by
  have hpc : ∀ i, s.pc ≠ .refreshing i := by
    intro i hi
    cases hidle.symm.trans hi
  cases c with
  | menuCreate =>
    by_cases hnone : s.menu.isNone
    · obtain ⟨s', hprint, hcounted, -, hgood⟩ := h.printTotal htotal
      exact .inr ⟨s', by rw [State.call, if_pos hnone, hprint], hcounted, hgood⟩
    · exact .inl (by rw [State.call, if_neg hnone])
  | menuRefresh =>
    by_cases hnone : s.menu.isNone
    · exact .inl (by rw [State.call, if_pos hnone])
    · obtain ⟨items, hcounts⟩ := h.1
      have hread := hcounts.getStat htotal
      by_cases hsame : s.stats = countAt s.counted s.counted.length "TOTAL"
      · refine .inr ⟨s, ?_, rfl, h⟩
        simp only [State.call, if_neg hnone, hread, bind, Except.bind, if_pos hsame, pure,
          Except.pure]
      · refine .inr ⟨{ s with pc := .printing }, ?_, rfl, h.move hpc _ fun _ => nofun⟩
        simp only [State.call, if_neg hnone, hread, bind, Except.bind, if_neg hsame, pure,
          Except.pure]
  | menuDestroy =>
    by_cases hnone : s.menu.isNone
    · exact .inl (by rw [State.call, if_pos hnone])
    · obtain ⟨⟨items, h⟩, hdrawn⟩ := h
      refine .inr ⟨{ s with menu := none, wStat := none }, ?_, rfl, ⟨items, ?_⟩, ?_⟩
      · rw [State.call, if_neg hnone]
        rfl
      · exact ⟨h.list, h.registered, h.nonempty, h.counts, h.height, h.item,
          fun i hi => absurd hi (hpc i)⟩
      · exact ⟨hdrawn.unset, hdrawn.remembered, nofun, nofun⟩
  | showStatistics =>
    by_cases hnone : s.menu.isNone
    · exact .inl (by rw [State.call, if_pos hnone])
    · cases hw : s.wStat with
      | some w =>
        obtain ⟨⟨items, h⟩, hdrawn⟩ := h
        refine .inr ⟨{ s with wStat := none }, ?_, rfl, ⟨items, ?_⟩, ?_⟩
        · simp only [State.call, if_neg hnone, hw, pure, Except.pure]
        · exact ⟨h.list, h.registered, h.nonempty, h.counts, h.height, h.item,
            fun i hi => absurd hi (hpc i)⟩
        · exact ⟨hdrawn.unset, hdrawn.remembered, hdrawn.menu, nofun⟩
      | none =>
        obtain ⟨items, hcounts⟩ := h.1
        refine .inr ⟨{ s with
            wStat := some ⟨(s.list.statEntries + 2).toNat, fun _ => none⟩
            pc := .refreshing 1 }, ?_, rfl, ?_⟩
        · simp only [State.call, if_neg hnone, hw, pure, Except.pure]
        · refine h.refresh hpc rfl rfl rfl rfl h.2.unset h.2.remembered rfl rfl fun w hw => ?_
          cases hw
          rw [hcounts.height]
          exact ⟨0, shows_new names s.counted 0⟩

theorem State.Good.row (h : s.Good names) {i : Nat} (hpc : s.pc = .refreshing i) :
    ∃ s', s.goOn = .ok s' ∧ s'.counted = s.counted ∧ s'.rememberedAt = s.rememberedAt ∧
      s'.Good names := by
  obtain ⟨⟨items, h⟩, hdrawn⟩ := h
  obtain ⟨hpos, hle, hopen⟩ := h.refreshing i hpc
  obtain ⟨k, rfl⟩ : ∃ k, i = k + 1 := ⟨i - 1, by omega⟩
  obtain ⟨w, hw⟩ := Option.isSome_iff_exists.mp hopen
  have hlen : items.length = names.length := by rw [← h.registered, List.length_map]
  have hplace : s.list.AtItem items k := by
    have hitem := h.item
    rwa [hpc] at hitem
  have hshows : w.Shows names s.counted (s.rememberedAt.getD 0) k := by
    have hshows := hdrawn.window w hw
    rwa [hpc] at hshows
  have hsince : s.rememberedAt.getD 0 ≤ s.counted.length := by
    cases hat : s.rememberedAt with
    | none => exact Nat.zero_le _
    | some t => exact (hdrawn.remembered t hat).1
  by_cases hlast : k = names.length
  · have hend := StatList.State.AtItem.getAllStats_end (by rwa [hlen, ← hlast])
      (List.ne_nil_of_length_pos (by rw [hlen]; exact List.length_pos_of_ne_nil h.nonempty))
    refine ⟨{ s with list := { s.list with current := .at s.list.list.first }, pc := .idle }, ?_,
      rfl, rfl, ⟨items, ?_⟩, hdrawn.unset, hdrawn.remembered, hdrawn.menu, fun v hv => ?_⟩
    · simp only [State.goOn, hpc, hend, bind, Except.bind, pure, Except.pure]
    · refine ⟨⟨h.list.linked, h.list.short, h.list.unique⟩, h.registered, h.nonempty, h.counts,
        h.height, .inr ?_, fun _ => nofun⟩
      exact congrArg StatList.Cursor.at (StatList.seg_first h.list.linked.seg)
    · cases hw.symm.trans hv
      rw [hlast] at hshows
      exact hshows
  · have hk : k < items.length := by omega
    have hget : items[k]? = some items[k] := List.getElem?_eq_getElem hk
    have hname : names[k]? = some items[k].2.type := by
      rw [← h.registered, List.getElem?_map, hget]
      rfl
    have hnum : items[k].2.num = countAt s.counted s.counted.length items[k].2.type := by
      have hmem : items[k].2 ∈ s.list.stats.list := by
        rw [h.list.stats]
        exact List.mem_map_of_mem (List.getElem_mem hk)
      have hdistinct : s.list.stats.names.Nodup := by
        rw [h.list.names]
        exact h.list.unique
      rw [← getStat_of_mem hdistinct hmem]
      exact h.counts _ (List.mem_of_getElem? hname)
    have hnext := h.list.getAllStats_item hplace hget
    refine ⟨{ s with
        list := { s.list with current := .at ((items.drop (k + 1)).head?.map Prod.fst) }
        wStat := s.wStat.map fun w => w.mvwprintw (k + 1) (StatList.shown items[k].2)
        pc := .refreshing (k + 1 + 1) }, ?_, rfl, rfl, ⟨items, ?_⟩, hdrawn.unset,
      hdrawn.remembered, hdrawn.menu, fun v hv => ?_⟩
    · simp only [State.goOn, hpc, hnext, bind, Except.bind, pure, Except.pure]
    · refine ⟨⟨h.list.linked, h.list.short, h.list.unique⟩, h.registered, h.nonempty, h.counts,
        h.height, .inr rfl, fun i hi => ?_⟩
      cases hi
      exact ⟨Nat.succ_pos _, by omega, by rw [hw]; rfl⟩
    · dsimp only at hv
      rw [hw, Option.map_some, Option.some.injEq] at hv
      subst hv
      have hdraw := hshows.draw hname hsince
      rwa [← hnum] at hdraw

theorem State.Good.goOn (h : s.Good names) (htotal : "TOTAL" ∈ names) :
    s.goOn = .error .disabled ∨ ∃ s', s.goOn = .ok s' ∧ s'.counted = s.counted ∧
      (s.Fresh → s'.Fresh) ∧ s'.Good names := by
  cases hpc : s.pc with
  | idle => exact .inl (by rw [State.goOn, hpc])
  | printing =>
    obtain ⟨s', hprint, hcounted, hsame, hgood⟩ := h.printTotal htotal
    refine .inr ⟨{ s' with pc := .remembering }, ?_, hcounted, fun _ => trivial, ?_⟩
    · simp only [State.goOn, hpc, hprint, bind, Except.bind, pure, Except.pure]
    · exact hgood.move (by rw [hsame, hpc]; exact fun _ => nofun) _ fun _ => nofun
  | remembering =>
    obtain ⟨items, hcounts⟩ := h.1
    have hread := hcounts.getStat htotal
    have hnew : ∀ k, some s.counted.length = some k → k ≤ s.counted.length ∧
        countAt s.counted s.counted.length "TOTAL" = countAt s.counted k "TOTAL" := by
      intro k hk
      cases hk
      exact ⟨Nat.le_refl _, rfl⟩
    refine .inr ⟨{ s with
        stats := countAt s.counted s.counted.length "TOTAL"
        rememberedAt := some s.counted.length
        pc := if s.wStat.isNone then .idle else .refreshing 1 }, ?_, rfl,
      fun _ => fresh_of_remembered rfl, ?_⟩
    · simp only [State.goOn, hpc, hread, bind, Except.bind, pure, Except.pure]
    · cases hw : s.wStat with
      | none =>
        have hmoved := h.move (by rw [hpc]; exact fun _ => nofun) .idle fun _ => nofun
        exact ⟨hmoved.1.imp fun items h => ⟨h.list, h.registered, h.nonempty, h.counts, h.height,
          h.item, fun _ => nofun⟩, nofun, hnew, h.2.menu, nofun⟩
      | some w =>
        refine h.refresh (by rw [hpc]; exact fun _ => nofun) rfl rfl rfl rfl nofun hnew rfl rfl
          fun v hv => ?_
        cases hv
        exact ⟨_, (h.2.window w hw).undrawn 0⟩
  | refreshing i =>
    obtain ⟨s', hrow, hcounted, hremembered, hgood⟩ := h.row hpc
    refine .inr ⟨s', hrow, hcounted, fun hfresh => fresh_of_remembered ?_, hgood⟩
    rw [State.Fresh, hpc] at hfresh
    rw [hremembered, hcounted]
    exact hfresh

theorem State.Good.next (h : s.Good names) (htotal : "TOTAL" ∈ names) (a : Action) :
    step s a = .error .disabled ∨
      ∃ s', step s a = .ok s' ∧ s'.counted = s.counted ++ a.counted.toList ∧ s'.Good names := by
  cases a with
  | count type =>
    obtain ⟨s', hstep, hcounted, hgood⟩ := h.count type
    exact .inr ⟨s', hstep, hcounted, hgood⟩
  | call c =>
    by_cases hidle : s.pc = .idle
    · rcases h.call htotal hidle c with hcall | ⟨s', hcall, hcounted, hgood⟩
      · exact .inl (by rw [step, if_pos hidle, hcall])
      · refine .inr ⟨s', by rw [step, if_pos hidle, hcall], ?_, hgood⟩
        rw [hcounted]
        exact (List.append_nil _).symm
    · exact .inl (by rw [step, if_neg hidle])
  | goOn =>
    rcases h.goOn htotal with hgo | ⟨s', hgo, hcounted, -, hgood⟩
    · exact .inl hgo
    · refine .inr ⟨s', hgo, ?_, hgood⟩
      rw [hcounted]
      exact (List.append_nil _).symm

theorem State.Good.run (h : s.Good names) (htotal : "TOTAL" ∈ names) {as : List Action}
    (hrun : Transition.exec step s as = .ok s') :
    s'.counted = s.counted ++ as.filterMap Action.counted ∧ s'.Good names := by
  induction as generalizing s with
  | nil =>
    cases hrun
    exact ⟨(List.append_nil _).symm, h⟩
  | cons a as ih =>
    obtain ⟨u, hstep, hrest⟩ := Transition.exec_cons_ok hrun
    rcases h.next htotal a with hstop | ⟨v, hnext, hcounted, hgood⟩
    · cases hstop.symm.trans hstep
    · cases hnext.symm.trans hstep
      obtain ⟨hall, hgood'⟩ := ih hgood hrest
      refine ⟨?_, hgood'⟩
      rw [hall, hcounted, List.append_assoc]
      congr 1
      cases hc : a.counted with
      | none => rw [List.filterMap_cons_none hc]; rfl
      | some type => rw [List.filterMap_cons_some hc]; rfl

/-- No run comes to an element of the list that is gone. -/
theorem State.Good.stops (h : s.Good names) (htotal : "TOTAL" ∈ names) {as : List Action}
    {stop : Stop} (hrun : Transition.exec step s as = .error stop) : stop = .disabled := by
  refine Transition.exec_error (I := fun s => s.Good names) (E := fun stop => stop = .disabled)
    (fun s a s' hs hstep => ?_) (fun s a stop hs hstep => ?_) h hrun
  · rcases hs.next htotal a with hstop | ⟨v, hnext, -, hgood⟩
    · cases hstop.symm.trans hstep
    · cases hnext.symm.trans hstep
      exact hgood
  · rcases hs.next htotal a with hstop | ⟨v, hnext, -⟩
    · cases hstop.symm.trans hstep
      rfl
    · cases hnext.symm.trans hstep

/-- A call of `menu_refresh` during which nothing is counted. -/
def quietRefresh (n : Nat) : List Action := .call .menuRefresh :: List.replicate n .goOn

theorem State.Good.goOn_fresh (h : s.Good names) (htotal : "TOTAL" ∈ names) (hfresh : s.Fresh)
    {n : Nat} (hrun : Transition.exec step s (List.replicate n .goOn) = .ok s') :
    s'.Fresh := by
  induction n generalizing s with
  | zero =>
    cases hrun
    exact hfresh
  | succ n ih =>
    obtain ⟨u, hstep, hrest⟩ := Transition.exec_cons_ok hrun
    rcases h.goOn htotal with hstop | ⟨v, hgo, -, hkeep, hgood⟩
    · cases hstop.symm.trans hstep
    · cases hgo.symm.trans hstep
      exact ih hgood (hkeep hfresh) hrest

theorem State.Good.quietRefresh (h : s.Good names) (htotal : "TOTAL" ∈ names) {n : Nat}
    (hrun : Transition.exec step s (quietRefresh n) = .ok s') (hidle : s'.pc = .idle) :
    s'.stats = countAt s'.counted s'.counted.length "TOTAL" := by
  have hgood' := (h.run htotal hrun).2
  have hcounts : s'.Fresh → s'.stats = countAt s'.counted s'.counted.length "TOTAL" := by
    intro hfresh
    rw [State.Fresh, hidle] at hfresh
    exact (hgood'.2.remembered _ hfresh).2
  obtain ⟨items, hs⟩ := h.1
  obtain ⟨u, hstep, hrest⟩ := Transition.exec_cons_ok hrun
  have hread := hs.getStat htotal
  by_cases hpc : s.pc = .idle
  · by_cases hnone : s.menu.isNone
    · rw [step, if_pos hpc, State.call, if_pos hnone] at hstep
      cases hstep
    · by_cases hsame : s.stats = countAt s.counted s.counted.length "TOTAL"
      · simp only [step, if_pos hpc, State.call, if_neg hnone, hread, bind, Except.bind,
          if_pos hsame, pure, Except.pure, Except.ok.injEq] at hstep
        subst hstep
        cases n with
        | zero =>
          cases hrest
          exact hsame
        | succ n =>
          obtain ⟨v, hgo, -⟩ := Transition.exec_cons_ok hrest
          rw [step, State.goOn, hpc] at hgo
          cases hgo
      · simp only [step, if_pos hpc, State.call, if_neg hnone, hread, bind, Except.bind,
          if_neg hsame, pure, Except.pure, Except.ok.injEq] at hstep
        subst hstep
        exact hcounts ((h.move (by rw [hpc]; exact fun _ => nofun) .printing
          fun _ => nofun).goOn_fresh htotal trivial hrest)
  · rw [step, if_neg hpc] at hstep
    cases hstep

end Menu
end Lmap
