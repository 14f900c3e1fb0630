import Lmap.Inet
import Lmap.Stat

/-!
The table of registered decoders, and the constructors that fill it before
`main` in an order the linker chooses.
-/

set_option autoImplicit false

namespace Lmap

def LINK_LAYER : Int := 2
def NET_LAYER : Int := 3
def PROTO_LAYER : Int := 4
def APP_LAYER : Int := 5

/-- `DLT_EN10MB` and `DLT_IEEE802_11`. -/
def LI_TYPE_ETH : Int := 1
def LI_TYPE_WIFI : Int := 105

def LL_TYPE_IP : Nat := 0x0800
def LL_TYPE_IP6 : Nat := 0x86DD
def LL_TYPE_ARP : Nat := 0x0806

def LN_TYPE_ICMP : Nat := 0x01
def LN_TYPE_ICMP6 : Nat := 0x3a
def LN_TYPE_TCP : Nat := 0x06
def LN_TYPE_UDP : Nat := 0x11

def LP_TYPE_DHCPD : Nat := 0x0043
def LP_TYPE_DHCPC : Nat := 0x0044

inductive Decoder where
  | arp | dhcpd | dhcpc | eth | icmp | icmp6 | ip | ip6 | tcp | udp | wifi
  deriving DecidableEq, Repr

structure DecEntry where
  level : Int
  type : Int
  decoder : Decoder
  deriving DecidableEq, Repr

structure Globals where
  decodersTable : List DecEntry
  l2Decoder : Option Decoder
  stats : Stats
  deriving DecidableEq, Repr

def Globals.initial : Globals := ⟨[], none, Stats.empty⟩

def addDecoder (t : List DecEntry) (e : DecEntry) : List DecEntry := e :: t

def getDecoder (t : List DecEntry) (level type : Int) : Option Decoder :=
  (t.find? (fun e => e.level = level ∧ e.type = type)).map DecEntry.decoder

def setL2Decoder (g : Globals) (raw : Bool) (dlt : Int) : Globals × Int :=
  match g.decodersTable.find? (fun e =>
      (e.level = 2 ∧ e.type = dlt) ∨ (raw = true ∧ e.level = 2 ∧ e.type = 0)) with
  | some e => ({ g with l2Decoder := some e.decoder }, ESUCCESS)
  | none => (g, -ENOTFOUND)

inductive InitFn where
  | arp | dhcp | eth | icmp | icmp6 | ip | ip6 | tcp | udp | wifi
  deriving DecidableEq, Repr

def InitFn.all : List InitFn := [.arp, .dhcp, .eth, .icmp, .icmp6, .ip, .ip6, .tcp, .udp, .wifi]

def InitFn.entries : InitFn → List DecEntry
  | .arp => [⟨NET_LAYER, LL_TYPE_ARP, .arp⟩]
  | .dhcp => [⟨APP_LAYER, LP_TYPE_DHCPD, .dhcpd⟩, ⟨APP_LAYER, LP_TYPE_DHCPC, .dhcpc⟩]
  | .eth => [⟨LINK_LAYER, LI_TYPE_ETH, .eth⟩]
  | .icmp => [⟨PROTO_LAYER, LN_TYPE_ICMP, .icmp⟩]
  | .icmp6 => [⟨PROTO_LAYER, LN_TYPE_ICMP6, .icmp6⟩]
  | .ip => [⟨NET_LAYER, LL_TYPE_IP, .ip⟩]
  | .ip6 => [⟨NET_LAYER, LL_TYPE_IP6, .ip6⟩]
  | .tcp => [⟨PROTO_LAYER, LN_TYPE_TCP, .tcp⟩]
  | .udp => [⟨PROTO_LAYER, LN_TYPE_UDP, .udp⟩]
  | .wifi => [⟨LINK_LAYER, LI_TYPE_WIFI, .wifi⟩]

def InitFn.stat : InitFn → String
  | .arp => "ARP"
  | .dhcp => "DHCP"
  | .eth | .wifi => "TOTAL"
  | .icmp | .icmp6 => "ICMP"
  | .ip | .ip6 => "IP"
  | .tcp => "TCP"
  | .udp => "UDP"

def InitFn.run (g : Globals) (f : InitFn) : Globals :=
  { g with
    decodersTable := f.entries.foldl addDecoder g.decodersTable
    stats := registerStat g.stats f.stat }

/-- A linked program: some order of all the constructors. -/
structure Boot where
  order : List InitFn
  complete : order.Perm InitFn.all

def Boot.listed : Boot := ⟨InitFn.all, .refl _⟩

def Boot.globals (b : Boot) : Globals := b.order.foldl InitFn.run Globals.initial

def registrations : List DecEntry := InitFn.all.flatMap InitFn.entries

theorem getDecoder_eq_some_iff {t : List DecEntry}
    (huniq : ∀ e ∈ t, ∀ f ∈ t, e.level = f.level → e.type = f.type → e = f)
    {level type : Int} {d : Decoder} :
    getDecoder t level type = some d ↔ ⟨level, type, d⟩ ∈ t := by
  constructor
  · intro h
    obtain ⟨e, he, hd⟩ := Option.map_eq_some_iff.mp h
    have hp := List.find?_some he
    simp only [decide_eq_true_eq] at hp
    obtain ⟨rfl, rfl⟩ := hp
    exact hd ▸ List.mem_of_find?_eq_some he
  · intro h
    have hs : (t.find? (fun e => e.level = level ∧ e.type = type)).isSome := by
      rw [List.find?_isSome]
      exact ⟨_, h, by simp⟩
    obtain ⟨e, he⟩ := Option.isSome_iff_exists.mp hs
    have hp := List.find?_some he
    simp only [decide_eq_true_eq] at hp
    have heq := huniq e (List.mem_of_find?_eq_some he) _ h hp.1 hp.2
    rw [getDecoder, he]
    simp [heq]

theorem mem_foldl_addDecoder (es t : List DecEntry) (e : DecEntry) :
    e ∈ es.foldl addDecoder t ↔ e ∈ es ∨ e ∈ t := by
  induction es generalizing t with
  | nil => simp
  | cons f es ih =>
    simp only [List.foldl_cons, ih, addDecoder, List.mem_cons]
    tauto

theorem mem_foldl_run (order : List InitFn) (g : Globals) (e : DecEntry) :
    e ∈ (order.foldl InitFn.run g).decodersTable ↔
      e ∈ order.flatMap InitFn.entries ∨ e ∈ g.decodersTable := by
  induction order generalizing g with
  | nil => simp
  | cons f order ih =>
    simp only [List.foldl_cons, ih, InitFn.run, mem_foldl_addDecoder, List.flatMap_cons,
      List.mem_append]
    tauto

theorem names_foldl_run (order : List InitFn) (g : Globals) (a : String) :
    a ∈ (order.foldl InitFn.run g).stats.names ↔
      a ∈ order.map InitFn.stat ∨ a ∈ g.stats.names := by
  induction order generalizing g with
  | nil => simp
  | cons f order ih =>
    simp only [List.foldl_cons, ih, InitFn.run, mem_names_registerStat, List.map_cons,
      List.mem_cons]
    tauto

theorem zero_foldl_run (order : List InitFn) (g : Globals) (h : ∀ a, getStat g.stats a = 0)
    (a : String) : getStat (order.foldl InitFn.run g).stats a = 0 := by
  induction order generalizing g with
  | nil => exact h a
  | cons f order ih => exact ih _ (getStat_registerStat_zero g.stats f.stat h)

theorem registrations_unique : ∀ e ∈ registrations, ∀ f ∈ registrations,
    e.level = f.level → e.type = f.type → e = f := by decide

namespace Boot

theorem mem_table (b : Boot) (e : DecEntry) :
    e ∈ b.globals.decodersTable ↔ e ∈ registrations := by
  have hperm : (b.order.flatMap InitFn.entries).Perm registrations := b.complete.flatMap_right _
  rw [globals, mem_foldl_run, hperm.mem_iff]
  simp [Globals.initial]

/-- The order of the constructors is invisible to `get_decoder`. -/
theorem getDecoder_table (b : Boot) (level type : Int) :
    getDecoder b.globals.decodersTable level type = getDecoder registrations level type := by
  apply Option.ext
  intro d
  have huniq : ∀ e ∈ b.globals.decodersTable, ∀ f ∈ b.globals.decodersTable,
      e.level = f.level → e.type = f.type → e = f := by
    intro e he f hf
    exact registrations_unique e ((b.mem_table e).mp he) f ((b.mem_table f).mp hf)
  rw [getDecoder_eq_some_iff huniq, getDecoder_eq_some_iff registrations_unique, mem_table]

theorem mem_names (b : Boot) (a : String) :
    a ∈ b.globals.stats.names ↔ a ∈ InitFn.all.map InitFn.stat := by
  rw [globals, names_foldl_run, (b.complete.map InitFn.stat).mem_iff]
  simp [Globals.initial, Stats.empty, Stats.names]

theorem getStat_zero (b : Boot) (a : String) : getStat b.globals.stats a = 0 :=
  zero_foldl_run b.order _ (fun _ => rfl) a

end Boot

/-- What the help text says: "execute the raw decoder if the link layer is not recognized". -/
def rawFallback (g : Globals) (raw : Bool) (dlt : Int) : Globals × Int :=
  match (getDecoder g.decodersTable 2 dlt).or
      (if raw then getDecoder g.decodersTable 2 0 else none) with
  | some d => ({ g with l2Decoder := some d }, ESUCCESS)
  | none => (g, -ENOTFOUND)

/-- The latest raw decoder is another than the latest for `dlt`, and was registered after it. -/
def RawHides (t : List DecEntry) (dlt : Int) : Prop :=
  ∃ newer e older d, t = newer ++ e :: older ∧ e.level = 2 ∧ e.type = 0 ∧ dlt ≠ 0 ∧
    (∀ e' ∈ newer, e'.level = 2 → e'.type ≠ dlt ∧ e'.type ≠ 0) ∧
    getDecoder older 2 dlt = some d ∧ d ≠ e.decoder

section Raw

variable {t newer older : List DecEntry} {e : DecEntry} {dlt : Int}

/-- The test of the loop of `set_L2_decoder`. -/
def selects (raw : Bool) (dlt : Int) (e : DecEntry) : Bool :=
  (e.level = 2 ∧ e.type = dlt) ∨ (raw = true ∧ e.level = 2 ∧ e.type = 0)

theorem setL2Decoder_eq (g : Globals) (raw : Bool) (dlt : Int) :
    setL2Decoder g raw dlt =
      (g.decodersTable.find? (selects raw dlt)).elim (g, -ENOTFOUND)
        fun e => ({ g with l2Decoder := some e.decoder }, ESUCCESS) := by
  have hfind : g.decodersTable.find? (fun e =>
      (e.level = 2 ∧ e.type = dlt) ∨ (raw = true ∧ e.level = 2 ∧ e.type = 0)) =
        g.decodersTable.find? (selects raw dlt) := rfl
  rw [setL2Decoder, hfind]
  cases g.decodersTable.find? (selects raw dlt) <;> rfl

theorem setL2Decoder_false (g : Globals) (dlt : Int) :
    setL2Decoder g false dlt =
      (getDecoder g.decodersTable 2 dlt).elim (g, -ENOTFOUND)
        fun d => ({ g with l2Decoder := some d }, ESUCCESS) := by
  have htest : selects false dlt = fun e => decide (e.level = 2 ∧ e.type = dlt) := by
    funext e
    simp [selects]
  rw [setL2Decoder_eq, htest, getDecoder]
  cases g.decodersTable.find? (fun e => e.level = 2 ∧ e.type = dlt) <;> rfl

theorem getDecoder_behind {type : Int} (hnewer : ∀ f ∈ newer, f.level = 2 → f.type ≠ type)
    (he : e.type ≠ type) :
    getDecoder (newer ++ e :: older) 2 type = getDecoder older 2 type := by
  have hskip : newer.find? (fun e => e.level = 2 ∧ e.type = type) = none := by
    rw [List.find?_eq_none]
    intro f hf
    simpa using hnewer f hf
  rw [getDecoder, List.find?_append, hskip, Option.none_or, List.find?_cons_of_neg (by simp [he]),
    getDecoder]

theorem getDecoder_at {type : Int} (hnewer : ∀ f ∈ newer, f.level = 2 → f.type ≠ type)
    (he : e.level = 2 ∧ e.type = type) :
    getDecoder (newer ++ e :: older) 2 type = some e.decoder := by
  have hskip : newer.find? (fun e => e.level = 2 ∧ e.type = type) = none := by
    rw [List.find?_eq_none]
    intro f hf
    simpa using hnewer f hf
  rw [getDecoder, List.find?_append, hskip, Option.none_or, List.find?_cons_of_pos (by simp [he]),
    Option.map_some]

/-- The first entry that passes the test with the raw option. -/
theorem selects_first (h : t.find? (selects true dlt) = some e) :
    ∃ newer older, t = newer ++ e :: older ∧ e.level = 2 ∧ (e.type = dlt ∨ e.type = 0) ∧
      ∀ f ∈ newer, f.level = 2 → f.type ≠ dlt ∧ f.type ≠ 0 := by
  obtain ⟨he, newer, older, rfl, hnewer⟩ := List.find?_eq_some_iff_append.mp h
  have he : e.level = 2 ∧ (e.type = dlt ∨ e.type = 0) := by
    simp only [selects, decide_eq_true_eq, true_and] at he
    tauto
  refine ⟨newer, older, rfl, he.1, he.2, fun f hf hlevel => ?_⟩
  simpa [selects, hlevel] using hnewer f hf

theorem find?_selects (he : e.level = 2 ∧ e.type = 0)
    (hnewer : ∀ f ∈ newer, f.level = 2 → f.type ≠ dlt ∧ f.type ≠ 0) :
    (newer ++ e :: older).find? (selects true dlt) = some e := by
  refine List.find?_eq_some_iff_append.mpr
    ⟨by simp [selects, he], newer, older, rfl, fun f hf => ?_⟩
  by_cases hlevel : f.level = 2
  · simp [selects, hnewer f hf hlevel]
  · simp [selects, hlevel]

theorem rawHides_iff (hfind : t.find? (selects true dlt) = some e) :
    RawHides t dlt ↔ e.type ≠ dlt ∧ ∃ d, getDecoder t 2 dlt = some d ∧ d ≠ e.decoder := by
  constructor
  · rintro ⟨newer, e', older, d, rfl, hlevel, htype, hne, hnewer, hd⟩
    rw [find?_selects ⟨hlevel, htype⟩ hnewer] at hfind
    obtain rfl := Option.some.inj hfind
    have hdlt : e'.type ≠ dlt := fun h => hne (h.symm.trans htype)
    exact ⟨hdlt, d, by rwa [getDecoder_behind (fun f hf hl => (hnewer f hf hl).1) hdlt]⟩
  · rintro ⟨hdlt, d, hd⟩
    obtain ⟨newer, older, rfl, hlevel, htype, hnewer⟩ := selects_first hfind
    have hraw : e.type = 0 := htype.resolve_left hdlt
    rw [getDecoder_behind (fun f hf hl => (hnewer f hf hl).1) hdlt] at hd
    exact ⟨newer, e, older, d, rfl, hlevel, hraw, fun h => hdlt (hraw.trans h.symm), hnewer, hd⟩

theorem getDecoder_of_selects_none (hfind : t.find? (selects true dlt) = none) {type : Int}
    (htype : type = dlt ∨ type = 0) : getDecoder t 2 type = none := by
  rw [getDecoder, Option.map_eq_none_iff, List.find?_eq_none]
  intro f hf
  have hf := List.find?_eq_none.mp hfind f hf
  simp only [selects, decide_eq_true_eq, true_and] at hf ⊢
  rintro ⟨hlevel, rfl⟩
  exact hf (htype.imp (⟨hlevel, ·⟩) (⟨hlevel, ·⟩))

/-- The raw decoder is a fallback if and only if the option is off, or the decoder of the link
type is not hidden behind it. -/
theorem rawFallback_iff (g : Globals) (raw : Bool) (dlt : Int) :
    setL2Decoder g raw dlt = rawFallback g raw dlt ↔
      ¬ (raw = true ∧ RawHides g.decodersTable dlt) := by
  cases raw with
  | false =>
    refine iff_of_true ?_ (fun h => nomatch h.1)
    rw [setL2Decoder_false, rawFallback, if_neg Bool.false_ne_true, Option.or_none]
    cases getDecoder g.decodersTable 2 dlt <;> rfl
  | true =>
    rw [and_iff_right rfl, setL2Decoder_eq, rawFallback, if_pos rfl]
    cases hfind : g.decodersTable.find? (selects true dlt) with
    | none =>
      refine iff_of_true ?_ ?_
      · rw [getDecoder_of_selects_none hfind (.inl rfl),
          getDecoder_of_selects_none hfind (.inr rfl)]
        rfl
      · rintro ⟨newer, e, older, d, heq, hlevel, htype, -, hnewer, -⟩
        rw [heq, find?_selects ⟨hlevel, htype⟩ hnewer] at hfind
        cases hfind
    | some e =>
      rw [rawHides_iff hfind]
      obtain ⟨newer, older, heq, hlevel, htype, hnewer⟩ := selects_first hfind
      by_cases hdlt : e.type = dlt
      · refine iff_of_true ?_ (fun h => h.1 hdlt)
        rw [heq, getDecoder_at (fun f hf hl => (hnewer f hf hl).1) ⟨hlevel, hdlt⟩]
        rfl
      · have hzero : getDecoder g.decodersTable 2 0 = some e.decoder := by
          rw [heq, getDecoder_at (fun f hf hl => (hnewer f hf hl).2)
            ⟨hlevel, htype.resolve_left hdlt⟩]
        rw [hzero]
        cases hd : getDecoder g.decodersTable 2 dlt with
        | none => exact iff_of_true rfl (fun ⟨_, _, h, _⟩ => nomatch h)
        | some d =>
          have hset : (some e).elim (g, -ENOTFOUND)
              (fun e => ({ g with l2Decoder := some e.decoder }, ESUCCESS)) =
                (({ g with l2Decoder := some d }, ESUCCESS) : Globals × Int) ↔ d = e.decoder := by
            simp [eq_comm]
          exact hset.trans ⟨fun h ⟨_, d', hd', hne⟩ => hne (Option.some.inj hd' ▸ h),
            fun h => by_contra fun hne => h ⟨hdlt, d, rfl, hne⟩⟩

/-- A raw decoder that is registered last, and stands before the one for Ethernet. -/
theorem raw_not_fallback :
    setL2Decoder ⟨[⟨2, 0, .ip⟩, ⟨2, LI_TYPE_ETH, .eth⟩], none, Stats.empty⟩ true LI_TYPE_ETH ≠
      rawFallback ⟨[⟨2, 0, .ip⟩, ⟨2, LI_TYPE_ETH, .eth⟩], none, Stats.empty⟩ true LI_TYPE_ETH := by
  decide

end Raw
end Lmap
