import Lmap.ChainBound

/-!
The order of the constructors. The tables they fill are lists with the latest entry in
front; what later calls answer does not depend on which came first.
-/

set_option autoImplicit false

namespace Lmap

inductive InitCall where
  | addDecoder (entry : DecEntry)
  | registerStat (type : String)
  deriving DecidableEq, Repr

namespace InitCall

def run (g : Globals) : InitCall → Globals
  | addDecoder entry => { g with decodersTable := Lmap.addDecoder g.decodersTable entry }
  | registerStat type => { g with stats := Lmap.registerStat g.stats type }

def key : InitCall → Option (Int × Int)
  | addDecoder entry => some (entry.level, entry.type)
  | registerStat _ => none

end InitCall

def initialised (calls : List InitCall) : Globals := calls.foldl InitCall.run Globals.initial

def InitFn.calls (f : InitFn) : List InitCall := f.entries.map .addDecoder ++ [.registerStat f.stat]

theorem InitFn.run_calls (g : Globals) (f : InitFn) : f.calls.foldl InitCall.run g = f.run g := by
  cases f <;> rfl

theorem Boot.globals_calls (b : Boot) : b.globals = initialised (b.order.flatMap InitFn.calls) := by
  rw [globals, initialised, List.foldl_flatMap]
  exact congrArg (fun run => b.order.foldl run Globals.initial)
    (funext fun g => funext fun f => (f.run_calls g).symm)

/-- `lmap_decode`, followed for so many rounds of its loop. -/
def lmapDecodeWithin (rounds : Nat) (h : Host) (g : Globals) (pkt : Packet) :
    Option (Except Fault (Bucket × Globals)) :=
  match g.l2Decoder with
  | none => some (.error .nullCall)
  | some d =>
    (Loop.run (chainBody (lmapEnv h g pkt)) rounds (lmapStart g pkt d)).map fun res =>
      res.map fun w => (w.bucket, { g with stats := w.stats })

theorem lmapDecode_within (h : Host) (g : Globals) (pkt : Packet) :
    lmapDecode h g pkt = (lmapDecodeWithin ROUNDS h g pkt).getD (.error .hang) := by
  unfold lmapDecode lmapDecodeWithin
  cases g.l2Decoder with
  | none => rfl
  | some d =>
    dsimp only
    cases Loop.run (chainBody (lmapEnv h g pkt)) ROUNDS (lmapStart g pkt d) with
    | none => rfl
    | some res => cases res <;> rfl

inductive Query where
  | getDecoder (level type : Int)
  | setL2Decoder (dlt : Int)
  | decode (pkt : Packet)
  | getStat (type : String)

inductive Answer where
  | decoder (d : Option Decoder)
  | link (code : Int) (d : Option Decoder)
  | bucket (res : Except Fault Bucket)
  | count (n : UInt32)
  | running
  deriving DecidableEq

/-- The answer, and the program after it, unless it has stopped or is still in its loop. -/
def ask (rounds : Nat) (h : Host) (g : Globals) : Query → Answer × Option Globals
  | .getDecoder level type => (.decoder (getDecoder g.decodersTable level type), some g)
  | .setL2Decoder dlt =>
    let (g, code) := setL2Decoder g false dlt
    (.link code g.l2Decoder, some g)
  | .decode pkt =>
    match lmapDecodeWithin rounds h g pkt with
    | none => (.running, none)
    | some (.error f) => (.bucket (.error f), none)
    | some (.ok (b, g)) => (.bucket (.ok b), some g)
  | .getStat type => (.count (getStat g.stats type), some g)

def answers (rounds : Nat) (h : Host) : Globals → List Query → List Answer
  | _, [] => []
  | g, q :: qs =>
    (ask rounds h g q).1 ::
      match (ask rounds h g q).2 with
      | none => []
      | some g => answers rounds h g qs

structure Stats.Same (s t : Stats) : Prop where
  get : ∀ a, getStat s a = getStat t a
  names : ∀ a, a ∈ s.names ↔ a ∈ t.names

structure World.Same (w w' : World) : Prop where
  stats : w.stats.Same w'.stats
  bucket : w.bucket = w'.bucket

structure Globals.Same (g g' : Globals) : Prop where
  table : ∀ level type,
    getDecoder g.decodersTable level type = getDecoder g'.decodersTable level type
  l2Decoder : g.l2Decoder = g'.l2Decoder
  stats : g.stats.Same g'.stats

theorem Stats.Same.update {s t : Stats} (hst : s.Same t) (a : String) (c : UInt32) :
    (updateStat s a c).Same (updateStat t a c) where
  get := by
    intro b
    simp only [getStat_updateStat, hst.get b, hst.names b]
  names := by
    intro b
    rw [updateStat_names, updateStat_names, hst.names b]

section Call

variable {h : Host} {addr : Nat} {m : Memory} {t t' : List DecEntry} {p n : Nat}
  {s s' : Stats} {b : Bucket}

structure Ret.Same (r r' : Ret) : Prop where
  next : r.next = r'.next
  len : r.len = r'.len
  world : r.world.Same r'.world

theorem call_same (ht : ∀ level type, getDecoder t level type = getDecoder t' level type)
    (hs : s.Same s') (d : Decoder) :
    Agree Eq Ret.Same (d.call ⟨h, addr, m, t⟩ p n ⟨s, b⟩)
      (d.call ⟨h, addr, m, t'⟩ p n ⟨s', b⟩) := by
  cases d with
  | arp =>
    refine Agree.bind_same fun hln => Agree.bind_same fun pln => ?_
    refine Agree.bind_same fun L3 => Agree.bind_same fun L3' => ?_
    exact ⟨rfl, rfl, hs.update _ _, rfl⟩
  | dhcpd | dhcpc => exact ⟨rfl, rfl, hs, rfl⟩
  | eth =>
    refine Agree.bind_same fun sha => Agree.bind_same fun dha => Agree.bind_same fun proto => ?_
    exact ⟨ht _ _, rfl, hs.update _ _, rfl⟩
  | icmp | icmp6 =>
    exact Agree.bind_same fun type => ⟨rfl, rfl, hs.update _ _, rfl⟩
  | ip =>
    refine Agree.bind_same fun first => Agree.bind_same fun src => Agree.bind_same fun dst => ?_
    refine Agree.bind_same fun ttl => Agree.bind_same fun protocol => ?_
    refine Agree.bind_same fun finger => ?_
    exact ⟨ht _ _, rfl, hs.update _ _, rfl⟩
  | ip6 =>
    refine Agree.bind_same fun len => Agree.bind_same fun src => Agree.bind_same fun dst => ?_
    refine Agree.bind_same fun hopLimit => Agree.bind_same fun nextHdr => ?_
    exact ⟨ht _ _, rfl, hs.update _ _, rfl⟩
  | tcp =>
    refine Agree.bind_same fun off => Agree.bind_same fun sport => Agree.bind_same fun dport => ?_
    refine Agree.bind_same fun flags => Agree.bind_same fun finger => ?_
    exact ⟨ht _ _, rfl, hs.update _ _, rfl⟩
  | udp =>
    refine Agree.bind_same fun sport => Agree.bind_same fun dport => ?_
    exact ⟨ht _ _, rfl, hs.update _ _, rfl⟩
  | wifi =>
    refine Agree.bind_same fun sha => Agree.bind_same fun dha => Agree.bind_same fun type => ?_
    dsimp only
    split
    · exact Agree.bind_same fun llType => ⟨ht _ _, rfl, hs.update _ _, rfl⟩
    split
    · exact ⟨rfl, rfl, hs.update _ _, rfl⟩
    · exact ⟨rfl, rfl, hs.update _ _, rfl⟩

end Call

section Session

variable {rounds : Nat} {h : Host} {g g' : Globals}

structure Chain.Same (c c' : Chain) : Prop where
  decoder : c.decoder = c'.decoder
  data : c.data = c'.data
  datalen : c.datalen = c'.datalen
  world : c.world.Same c'.world

theorem chainBody_same (hg : g.Same g') (pkt : Packet) (c c' : Chain) (hc : c.Same c') :
    Loop.StepRel Chain.Same (Agree Eq World.Same) (chainBody (lmapEnv h g pkt) c)
      (chainBody (lmapEnv h g' pkt) c') := by
  obtain ⟨d, p, left, s, b⟩ := c
  obtain ⟨d', p', left', s', b'⟩ := c'
  obtain ⟨rfl, rfl, rfl, hs, rfl⟩ := hc
  refine chainBody_agree rfl (Agree.mono (call_same hg.table hs d) (fun _ _ => id) ?_)
  intro r r' hr
  refine ⟨hr.next, hr.len, hr.world, fun d hd => ?_⟩
  exact ⟨rfl, congrArg (p + ·) hr.len, by simp only [Chain.after, hr.len], hr.world⟩

/-- Both still run, or both end alike. -/
theorem lmapDecodeWithin_same (rounds : Nat) (h : Host) (hg : g.Same g') (pkt : Packet) :
    Option.Rel (Agree Eq fun r r' => r.1 = r'.1 ∧ r.2.Same r'.2) (lmapDecodeWithin rounds h g pkt)
      (lmapDecodeWithin rounds h g' pkt) := by
  unfold lmapDecodeWithin
  rw [← hg.l2Decoder]
  cases g.l2Decoder with
  | none => exact .some rfl
  | some d =>
    have hstart : (lmapStart g pkt d).Same (lmapStart g' pkt d) := ⟨rfl, rfl, rfl, hg.stats, rfl⟩
    have hrun := Loop.run_rel (chainBody_same (h := h) hg pkt) rounds hstart
    dsimp only
    generalize Loop.run (chainBody (lmapEnv h g pkt)) rounds (lmapStart g pkt d) = x at hrun ⊢
    generalize Loop.run (chainBody (lmapEnv h g' pkt)) rounds (lmapStart g' pkt d) = y at hrun ⊢
    cases hrun with
    | none => exact .none
    | @some res res' hres =>
      refine .some ?_
      cases res with
      | error f =>
        cases res' with
        | error f' => exact hres
        | ok w' => exact hres.elim
      | ok w =>
        cases res' with
        | error f' => exact hres.elim
        | ok w' => exact ⟨hres.bucket, hg.table, rfl, hres.stats⟩

theorem setL2Decoder_same (hg : g.Same g') (dlt : Int) :
    (setL2Decoder g false dlt).2 = (setL2Decoder g' false dlt).2 ∧
      (setL2Decoder g false dlt).1.Same (setL2Decoder g' false dlt).1 := by
  rw [setL2Decoder_false, setL2Decoder_false, ← hg.table 2 dlt]
  cases getDecoder g.decodersTable 2 dlt with
  | none => exact ⟨rfl, hg⟩
  | some d => exact ⟨rfl, hg.table, rfl, hg.stats⟩

theorem ask_same (rounds : Nat) (h : Host) (hg : g.Same g') (q : Query) :
    (ask rounds h g q).1 = (ask rounds h g' q).1 ∧
      Option.Rel Globals.Same (ask rounds h g q).2 (ask rounds h g' q).2 := by
  cases q with
  | getDecoder level type => exact ⟨congrArg Answer.decoder (hg.table level type), .some hg⟩
  | setL2Decoder dlt =>
    obtain ⟨hcode, hset⟩ := setL2Decoder_same hg dlt
    exact ⟨congrArg₂ Answer.link hcode hset.l2Decoder, .some hset⟩
  | decode pkt =>
    have hrel := lmapDecodeWithin_same rounds h hg pkt
    simp only [ask]
    generalize lmapDecodeWithin rounds h g pkt = x at hrel ⊢
    generalize lmapDecodeWithin rounds h g' pkt = y at hrel ⊢
    cases hrel with
    | none => exact ⟨rfl, .none⟩
    | @some res res' hres =>
      cases res with
      | error f =>
        cases res' with
        | error f' => exact ⟨congrArg (fun f => Answer.bucket (.error f)) hres, .none⟩
        | ok r' => exact hres.elim
      | ok r =>
        cases res' with
        | error f' => exact hres.elim
        | ok r' => exact ⟨congrArg (fun b => Answer.bucket (.ok b)) hres.1, .some hres.2⟩
  | getStat type => exact ⟨congrArg Answer.count (hg.stats.get type), .some hg⟩

theorem answers_same (hg : g.Same g') (qs : List Query) :
    answers rounds h g qs = answers rounds h g' qs := by
  induction qs generalizing g g' with
  | nil => rfl
  | cons q qs ih =>
    obtain ⟨hanswer, hafter⟩ := ask_same rounds h hg q
    simp only [answers, hanswer]
    generalize (ask rounds h g q).2 = x at hafter ⊢
    generalize (ask rounds h g' q).2 = y at hafter ⊢
    cases hafter with
    | none => rfl
    | some hrel => exact congrArg _ (ih hrel)

end Session

variable {calls calls' : List InitCall} {g : Globals}

theorem mem_table_foldl (calls : List InitCall) (g : Globals) (e : DecEntry) :
    e ∈ (calls.foldl InitCall.run g).decodersTable ↔
      .addDecoder e ∈ calls ∨ e ∈ g.decodersTable := by
  induction calls generalizing g with
  | nil => simp
  | cons c calls ih =>
    rw [List.foldl_cons, ih]
    cases c with
    | addDecoder entry =>
      simp only [InitCall.run, addDecoder, List.mem_cons, InitCall.addDecoder.injEq]
      tauto
    | registerStat type => simp [InitCall.run]

theorem mem_names_foldl (calls : List InitCall) (g : Globals) (a : String) :
    a ∈ (calls.foldl InitCall.run g).stats.names ↔
      .registerStat a ∈ calls ∨ a ∈ g.stats.names := by
  induction calls generalizing g with
  | nil => simp
  | cons c calls ih =>
    rw [List.foldl_cons, ih]
    cases c with
    | addDecoder entry => simp [InitCall.run]
    | registerStat type =>
      simp only [InitCall.run, mem_names_registerStat, List.mem_cons,
        InitCall.registerStat.injEq]
      tauto

theorem getStat_foldl (calls : List InitCall) (g : Globals) (h : ∀ a, getStat g.stats a = 0)
    (a : String) : getStat (calls.foldl InitCall.run g).stats a = 0 := by
  induction calls generalizing g with
  | nil => exact h a
  | cons c calls ih =>
    refine ih _ (fun b => ?_)
    cases c with
    | addDecoder entry => exact h b
    | registerStat type => exact getStat_registerStat_zero g.stats type h b

theorem addDecoder_unique (hkeys : (calls.filterMap InitCall.key).Nodup) {e f : DecEntry}
    (he : .addDecoder e ∈ calls) (hf : .addDecoder f ∈ calls) (hlevel : e.level = f.level)
    (htype : e.type = f.type) : e = f := by
  have hpair := List.pairwise_filterMap.mp hkeys
  have hsymm : Std.Symm fun c c' : InitCall =>
      ∀ k, c.key = some k → ∀ k', c'.key = some k' → k ≠ k' :=
    ⟨fun c c' h k hk k' hk' => (h k' hk' k hk).symm⟩
  by_contra hne
  have hdiff := hpair.forall he hf (fun heq => hne (InitCall.addDecoder.inj heq))
  exact hdiff _ rfl _ rfl (by rw [hlevel, htype])

theorem getDecoder_initialised (hkeys : (calls.filterMap InitCall.key).Nodup) {level type : Int}
    {d : Decoder} : getDecoder (initialised calls).decodersTable level type = some d ↔
      .addDecoder ⟨level, type, d⟩ ∈ calls := by
  have hmem : ∀ e, e ∈ (initialised calls).decodersTable ↔ .addDecoder e ∈ calls := by
    intro e
    rw [initialised, mem_table_foldl]
    simp [Globals.initial]
  rw [getDecoder_eq_some_iff, hmem]
  intro e he f hf
  exact addDecoder_unique hkeys ((hmem e).mp he) ((hmem f).mp hf)

theorem initialised_same (hperm : calls.Perm calls')
    (hkeys : (calls.filterMap InitCall.key).Nodup) :
    (initialised calls).Same (initialised calls') where
  table := by
    intro level type
    apply Option.ext
    intro d
    have hkeys' := (hperm.filterMap InitCall.key).nodup_iff.mp hkeys
    rw [getDecoder_initialised hkeys, getDecoder_initialised hkeys', hperm.mem_iff]
  l2Decoder := by
    have hnone : ∀ (calls : List InitCall) (g : Globals),
        (calls.foldl InitCall.run g).l2Decoder = g.l2Decoder := by
      intro calls
      induction calls with
      | nil => simp
      | cons c calls ih =>
        intro g
        rw [List.foldl_cons, ih]
        cases c <;> rfl
    rw [initialised, initialised, hnone, hnone]
  stats :=
    { get := by
        intro a
        rw [initialised, initialised, getStat_foldl calls _ (fun _ => rfl),
          getStat_foldl calls' _ (fun _ => rfl)]
      names := by
        intro a
        simp only [initialised, mem_names_foldl, hperm.mem_iff] }

/-- No order of the constructor calls can be told from another by what the program answers
afterwards. -/
theorem init_order_invisible (calls calls' : List InitCall) (hperm : calls.Perm calls')
    (hkeys : (calls.filterMap InitCall.key).Nodup) (rounds : Nat) (h : Host) (qs : List Query) :
    answers rounds h (initialised calls) qs = answers rounds h (initialised calls') qs :=
  answers_same (initialised_same hperm hkeys) qs

/-- The constructors of the program, in the order of the listing and from the last to the first. -/
theorem init_order_invisible_reverse :
    answers ROUNDS ⟨false, 64⟩ (initialised (InitFn.all.flatMap InitFn.calls))
        [.setL2Decoder 1, .decode udpPacket, .getStat "UDP"] =
      answers ROUNDS ⟨false, 64⟩ (initialised (InitFn.all.flatMap InitFn.calls).reverse)
        [.setL2Decoder 1, .decode udpPacket, .getStat "UDP"] :=
  init_order_invisible _ _ (List.reverse_perm _).symm (by decide) ROUNDS ⟨false, 64⟩ _

end Lmap
