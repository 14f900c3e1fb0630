import Lmap.Menu
import Lmap.StatCount

/-!
What the user reads of the counters while packets are decoded: the total first, then at most one
count of every other name, and readings between them at any time.
-/

set_option autoImplicit false

namespace Lmap
namespace Menu

variable {s : State} {names counted : List String} {w : StatWin} {type : String}

/-- The list after the constructors, wherever its elements have been allocated. -/
def Boots (b : Boot) (list : StatList.State) : Prop :=
  ∃ ops, List.Forall₂ (fun (f : InitFn) op => ∃ a, op = .registerStat f.stat (some a)) b.order ops ∧
    Transition.exec StatList.step .initial ops = .ok list

structure Registered (list : StatList.State) (stats : Stats) : Prop where
  linked : ∃ items, list.Inv items
  same : list.stats = stats
  entries : stats.entries = UInt32.ofNat stats.names.length
  unset : list.current = .unset

theorem Registered.step {list list' : StatList.State} {stats : Stats}
    (h : Registered list stats) {a : Nat}
    (hstep : StatList.step list (.registerStat type (some a)) = .ok list') :
    Registered list' (registerStat stats type) := by
  obtain ⟨⟨items, hinv⟩, rfl, hentries, hunset⟩ := h
  rcases hinv.registerStat type (some a) with
    ⟨stop, hstop, -⟩ | ⟨b, s', -, hregister, hcurrent, hplaced⟩
  · cases hstop.symm.trans hstep
  · cases hregister.symm.trans hstep
    refine ⟨?_, hplaced.stats hinv, ?_, hcurrent.trans hunset⟩
    · cases hplaced with
      | inserted _ hinv' => exact ⟨_, hinv'⟩
      | replaced _ _ _ _ _ _ _ _ hinv' => exact ⟨_, hinv'⟩
    · rw [registerStat_entries, registerStat_names]
      split
      · exact hentries
      · rw [hentries, List.length_cons, UInt32.ofNat_add]
        rfl

theorem Registered.boot {order : List InitFn} {ops : List StatList.Op} {g : Globals}
    {list list' : StatList.State} (h : Registered list g.stats)
    (hops : List.Forall₂ (fun (f : InitFn) op => ∃ a, op = .registerStat f.stat (some a)) order ops)
    (hrun : Transition.exec StatList.step list ops = .ok list') :
    Registered list' (order.foldl InitFn.run g).stats := by
  induction hops generalizing list g with
  | nil =>
    cases hrun
    exact h
  | cons hop _ ih =>
    obtain ⟨a, rfl⟩ := hop
    obtain ⟨u, hstep, hrest⟩ := Transition.exec_cons_ok hrun
    exact ih (g := InitFn.run g _) (h.step hstep) hrest

theorem boots_good {b : Boot} {list : StatList.State} (hboot : Boots b list) :
    (State.start list).Good b.globals.stats.names := by
  obtain ⟨ops, hops, hrun⟩ := hboot
  have hinitial : Registered .initial Globals.initial.stats :=
    ⟨⟨[], LinkedList.linked_initial, Nat.le_refl 0, List.nodup_nil⟩, rfl, rfl, rfl⟩
  obtain ⟨⟨items, hinv⟩, hstats, hentries, hunset⟩ := hinitial.boot hops hrun
  have hnames : (items.map fun e => e.2.type) = b.globals.stats.names := by
    rw [← hinv.names, hstats]
    rfl
  have hlen : b.globals.stats.names.length ≤ 10 := by
    have hnodup : b.globals.stats.names.Nodup := hnames ▸ hinv.unique
    exact (List.subperm_of_subset hnodup fun a ha => (b.mem_names a).mp ha).length_le
  have hheight : (list.statEntries + 2).toNat = b.globals.stats.names.length + 2 := by
    have heq : list.statEntries = UInt32.ofNat b.globals.stats.names.length :=
      (congrArg Stats.entries hstats).trans hentries
    have htwo : (2 : UInt32).toNat = 2 := rfl
    rw [heq, UInt32.toNat_add, UInt32.toNat_ofNat', htwo]
    omega
  have htotal : "TOTAL" ∈ b.globals.stats.names := (b.mem_names _).mpr (by decide)
  refine ⟨⟨items, hinv, hnames, List.ne_nil_of_mem htotal, fun type _ => ?_, hheight,
    .inl ⟨hunset, rfl⟩, fun _ => nofun⟩, fun _ => rfl, nofun, nofun, nofun⟩
  have hzero : getStat list.stats type = 0 := by
    rw [hstats]
    exact b.getStat_zero type
  exact hzero

def decodedNames (h : Host) (g : Globals) (pkts : List Packet) : List String :=
  (lmapCallsAll h g pkts).filterMap Decoder.stat

/-- The total is counted first, and no name twice before the next total. -/
def Bursts (names : List String) : Prop :=
  (∀ type more, names = type :: more → type = "TOTAL") ∧
    ∀ xs ys, names = xs ++ ys → (ys.takeWhile (· ≠ "TOTAL")).Nodup

theorem bursts_nil : Bursts [] := by
  refine ⟨nofun, fun xs ys h => ?_⟩
  rw [(List.append_eq_nil_iff.mp h.symm).2]
  exact List.nodup_nil

theorem Bursts.takeWhile (h : Bursts names) : names.takeWhile (· ≠ "TOTAL") = [] := by
  cases names with
  | nil => rfl
  | cons type more => rw [h.1 type more rfl]; rfl

theorem Bursts.packet (h : Bursts names) {rest : List String} (hnodup : ("TOTAL" :: rest).Nodup) :
    Bursts ("TOTAL" :: rest ++ names) := by
  obtain ⟨htotal, hrest⟩ := List.nodup_cons.mp hnodup
  refine ⟨fun type more heq => (List.cons.inj heq).1.symm, fun xs ys hsplit => ?_⟩
  rcases List.append_eq_append_iff.mp hsplit with ⟨as, hxs, hys⟩ | ⟨bs, hall, hys⟩
  · exact h.2 as ys hys
  · rw [hys]
    cases xs with
    | nil =>
      rw [List.nil_append] at hall
      rw [← hall]
      exact List.nodup_nil
    | cons x xs =>
      obtain ⟨-, hbs⟩ := List.cons.inj hall
      have hplain : ∀ b ∈ bs, (decide (b ≠ "TOTAL")) = true := by
        intro b hb
        refine decide_eq_true fun heq => htotal ?_
        rw [hbs, ← heq]
        exact List.mem_append_right _ hb
      rw [List.takeWhile_append_of_pos hplain, h.takeWhile, List.append_nil]
      exact hrest.sublist (hbs ▸ List.sublist_append_right _ _)

theorem stat_layer {d d' : Decoder} (hd : d.stat = some type) (hd' : d'.stat = some type) :
    d.layer = d'.layer := by
  revert hd'
  cases d <;> cases hd <;> cases d' <;> decide

variable {r : Running} {h : Host} {pkt : Packet} {pkts : List Packet}

theorem packet_names (r : Running) (h : Host) (pkt : Packet) :
    ∃ rest, ((lmapCalls ROUNDS h r.globals pkt).map Chain.decoder).filterMap Decoder.stat =
      "TOTAL" :: rest ∧ ("TOTAL" :: rest).Nodup := by
  have hnodup : (((lmapCalls ROUNDS h r.globals pkt).map Chain.decoder).filterMap
      Decoder.stat).Nodup := by
    have hlayers := r.calls_layer h pkt ROUNDS
    rw [← List.pairwise_map (f := Chain.decoder) (R := fun d d' => d.layer < d'.layer)] at hlayers
    refine List.Pairwise.filterMap Decoder.stat (fun d d' hlt a ha b hb heq => ?_) hlayers
    subst heq
    exact absurd (stat_layer ha hb) (Int.ne_of_lt hlt)
  have hhead : ∃ rest, (lmapCalls ROUNDS h r.globals pkt).map Chain.decoder =
      r.link.decoder :: rest := by
    rw [r.lmapCalls_eq]
    exact ⟨_, rfl⟩
  obtain ⟨rest, hcalls⟩ := hhead
  rw [hcalls] at hnodup ⊢
  have hlink : r.link.decoder.stat = some "TOTAL" := by cases r.link <;> rfl
  rw [List.filterMap_cons_some hlink] at hnodup ⊢
  exact ⟨_, rfl, hnodup⟩

theorem decodedNames_bursts (r : Running) (h : Host) (pkts : List Packet) :
    Bursts (decodedNames h r.globals pkts) ∧
      ∀ type, (decodedNames h r.globals pkts).count type ≤ pkts.length := by
  induction pkts generalizing r with
  | nil => exact ⟨bursts_nil, fun _ => Nat.le_refl 0⟩
  | cons pkt pkts ih =>
    obtain ⟨rest, hnames, hnodup⟩ := packet_names r h pkt
    obtain ⟨more, hmore, hbursts, hcount⟩ : ∃ more,
        decodedNames h r.globals (pkt :: pkts) = "TOTAL" :: rest ++ more ∧ Bursts more ∧
          ∀ type, more.count type ≤ pkts.length := by
      rw [decodedNames, lmapCallsAll, List.filterMap_append, hnames]
      cases hd : lmapDecode h r.globals pkt with
      | error f => exact ⟨[], rfl, bursts_nil, fun _ => Nat.zero_le _⟩
      | ok res =>
        obtain ⟨b, g⟩ := res
        obtain ⟨r', rfl, -⟩ := Running.lmapDecode_ok hd
        exact ⟨_, rfl, ih r'⟩
    rw [hmore]
    refine ⟨hbursts.packet hnodup, fun type => ?_⟩
    have hone := List.nodup_iff_count_le_one.mp hnodup type
    have htail := hcount type
    rw [List.count_append, List.length_cons]
    omega

theorem count_split (t : Nat) (counted : List String) (type : String) :
    counted.count type = (counted.take t).count type + (counted.drop t).count type := by
  rw [← List.count_append, List.take_append_drop]

theorem printed_countAt (t : Nat) (hcount : counted.count type < 2 ^ 31) :
    printed (countAt counted t type) = ((counted.take t).count type : Nat) := by
  have hle : (counted.take t).count type ≤ counted.count type :=
    (List.take_sublist t counted).count_le type
  have hint : printed (countAt counted t type) = (countAt counted t type).toBitVec.toInt := rfl
  rw [hint, BitVec.toInt_eq_toNat_cond, UInt32.toNat_toBitVec, countAt, UInt32.toNat_ofNat',
    Nat.mod_eq_of_lt (by omega), if_pos (by omega)]

/-- The capture thread decodes these packets while the user interface makes its calls, and then
there is a call of `menu_refresh` during which nothing is counted. -/
structure Watched (b : Boot) (raw : Bool) (link : Link) (h : Host) (pkts : List Packet)
    (as : List Action) (n : Nat) (s : State) : Prop where
  boots : ∃ list, Boots b list ∧
    Transition.exec step (State.start list) (as ++ quietRefresh n) = .ok s
  captured : as.filterMap Action.counted <+:
    decodedNames h (Running.fresh b raw link).globals pkts
  few : pkts.length < 2 ^ 31
  idle : s.pc = .idle

variable {b : Boot} {raw : Bool} {link : Link} {as : List Action} {n : Nat}

theorem Watched.good (hs : Watched b raw link h pkts as n s) :
    s.counted = as.filterMap Action.counted ∧ s.Good b.globals.stats.names := by
  obtain ⟨list, hboot, hrun⟩ := hs.boots
  have htotal : "TOTAL" ∈ b.globals.stats.names := (b.mem_names _).mpr (by decide)
  obtain ⟨hcounted, hgood⟩ := (boots_good hboot).run htotal hrun
  have hquiet : (quietRefresh n).filterMap Action.counted = [] := by
    rw [List.filterMap_eq_nil_iff]
    intro a ha
    rcases List.mem_cons.mp ha with rfl | ha
    · rfl
    · rw [List.eq_of_mem_replicate ha]
      rfl
  rw [List.filterMap_append, hquiet, List.append_nil] at hcounted
  exact ⟨hcounted, hgood⟩

theorem Watched.count_lt (hs : Watched b raw link h pkts as n s) (type : String) :
    s.counted.count type < 2 ^ 31 := by
  rw [hs.good.1]
  refine Nat.lt_of_le_of_lt (hs.captured.sublist.count_le type) ?_
  exact Nat.lt_of_le_of_lt ((decodedNames_bursts _ h pkts).2 type) hs.few

theorem Watched.remembered (hs : Watched b raw link h pkts as n s) :
    ∃ k, s.rememberedAt = some k ∧ k ≤ s.counted.length ∧ "TOTAL" ∉ s.counted.drop k := by
  obtain ⟨-, hgood⟩ := hs.good
  have hlt := hs.count_lt "TOTAL"
  have htotal : "TOTAL" ∈ b.globals.stats.names := (b.mem_names _).mpr (by decide)
  have hstats : s.stats = countAt s.counted s.counted.length "TOTAL" := by
    obtain ⟨list, hboot, hrun⟩ := hs.boots
    obtain ⟨u, hbefore, hquiet⟩ := Transition.exec_append_ok hrun
    exact ((boots_good hboot).run htotal hbefore).2.quietRefresh htotal hquiet hs.idle
  have hprinted := printed_countAt s.counted.length hlt
  rw [List.take_length] at hprinted
  cases hat : s.rememberedAt with
  | none =>
    rw [hgood.2.unset hat] at hstats
    rw [← hstats] at hprinted
    have hminus : printed (-1) = -1 := rfl
    omega
  | some k =>
    obtain ⟨hle, heq⟩ := hgood.2.remembered k hat
    refine ⟨k, rfl, hle, fun hmem => ?_⟩
    have hk := printed_countAt k hlt
    have hsplit := count_split k s.counted "TOTAL"
    have hpos := List.count_pos_iff.mpr hmem
    rw [← heq, hstats, hprinted] at hk
    omega

/-- The window is opened and drawn, then the packet comes between the printing of the total and
the reading that is remembered. -/
def watchedActions : List Action :=
  [.call .menuCreate, .call .showStatistics] ++ List.replicate 8 .goOn ++
    [.call .menuRefresh, .goOn, .count "TOTAL", .goOn] ++ List.replicate 8 .goOn ++
    [.count "IP", .count "UDP"]

def listedOps : List StatList.Op :=
  (InitFn.all.zip (List.range 10)).map fun f => .registerStat f.1.stat (some f.2)

theorem watched_udp : ∃ s w,
    Watched Boot.listed false .eth ⟨false, 64⟩ [udpPacket] watchedActions 0 s ∧
      s.wStat = some w ∧ s.menu = some 0 := by
  have hrun : ((Transition.exec StatList.step .initial listedOps).bind fun list =>
      Transition.exec step (State.start list) (watchedActions ++ quietRefresh 0)).map
        (fun s => (s.pc, s.wStat.isSome, s.menu)) = .ok (.idle, true, some 0) := by
    decide +kernel
  cases hlist : Transition.exec StatList.step .initial listedOps with
  | error stop =>
    rw [hlist] at hrun
    cases hrun
  | ok list =>
    rw [hlist] at hrun
    simp only [Except.bind] at hrun
    cases hexec : Transition.exec step (State.start list) (watchedActions ++ quietRefresh 0) with
    | error stop =>
      rw [hexec] at hrun
      cases hrun
    | ok s =>
      rw [hexec, Except.map, Except.ok.injEq, Prod.mk.injEq, Prod.mk.injEq] at hrun
      obtain ⟨hidle, hopen, hmenu⟩ := hrun
      obtain ⟨w, hw⟩ := Option.isSome_iff_exists.mp hopen
      have hops : List.Forall₂ (fun (f : InitFn) op => ∃ a, op = .registerStat f.stat (some a))
          Boot.listed.order listedOps := by
        repeat' first | exact .nil | refine .cons ⟨_, rfl⟩ ?_
      exact ⟨s, w, ⟨⟨list, ⟨listedOps, hops, hlist⟩, hexec⟩, by decide +kernel, by decide, hidle⟩,
        hw, hmenu⟩

/-- The number in the menu is behind by the packets that came between its printing and the
reading that was remembered, and no later call makes up for them. -/
theorem menu_behind (hs : Watched b raw link h pkts as n s) {m : Int} (hm : s.menu = some m) :
    ∃ k, s.rememberedAt = some k ∧
      m + (((s.counted.take k).drop s.printedAt).count "TOTAL" : Nat) =
        ((as.filterMap Action.counted).count "TOTAL" : Nat) := by
  obtain ⟨hcounted, -, hdrawn⟩ := hs.good
  obtain ⟨k, hk, hle, hlast⟩ := hs.remembered
  obtain ⟨hprinted, rfl⟩ := hdrawn.menu m hm
  refine ⟨k, hk, ?_⟩
  rw [printed_countAt _ (hs.count_lt "TOTAL"), ← hcounted]
  have hzero := List.count_eq_zero.mpr hlast
  have hall := count_split k s.counted "TOTAL"
  by_cases hpk : s.printedAt ≤ k
  · have hsplit := count_split s.printedAt (s.counted.take k) "TOTAL"
    rw [List.take_take, Nat.min_eq_left hpk] at hsplit
    omega
  · have hnone : (s.counted.take k).drop s.printedAt = [] := by
      rw [List.drop_eq_nil_iff, List.length_take]
      omega
    have hle1 : (s.counted.take k).count "TOTAL" ≤ (s.counted.take s.printedAt).count "TOTAL" :=
      (List.take_sublist_take_left (by omega)).count_le _
    have hle2 : (s.counted.take s.printedAt).count "TOTAL" ≤ s.counted.count "TOTAL" :=
      (List.take_sublist _ _).count_le _
    rw [hnone, List.count_nil]
    omega

theorem menu_behind_udp : ∃ s,
    Watched Boot.listed false .eth ⟨false, 64⟩ [udpPacket] watchedActions 0 s ∧ s.menu = some 0 ∧
      ∃ k, s.rememberedAt = some k ∧
        (0 : Int) + (((s.counted.take k).drop s.printedAt).count "TOTAL" : Nat) =
          ((watchedActions.filterMap Action.counted).count "TOTAL" : Nat) := by
  obtain ⟨s, -, hs, -, hm⟩ := watched_udp
  exact ⟨s, hs, hm, menu_behind hs hm⟩

end Menu
end Lmap
