import Lmap.Decoder

/-!
`lmap_decode`: the loop that hands a captured packet from decoder to decoder
and sends the collected bucket.
-/

set_option autoImplicit false

namespace Lmap

/-- A captured packet: its address, its `caplen` bytes, and what can be read in
memory after them. `caplen` is a `u_int32`. -/
structure Packet where
  addr : Nat
  bytes : List UInt8
  bytes_lt : bytes.length < 2 ^ 32
  beyond : Memory

def Packet.caplen (pkt : Packet) : Nat := pkt.bytes.length

def Packet.mem (pkt : Packet) : Memory := Memory.append pkt.bytes pkt.beyond

structure Chain where
  decoder : Decoder
  data : Nat
  datalen : Int
  world : World
  deriving DecidableEq, Repr

/-- The `buflen` argument of the call: the count of bytes left, as a `u_int16`. -/
def Chain.buflen (c : Chain) : Nat := uint16 c.datalen

def Chain.call (e : Env) (c : Chain) : Except Fault Ret :=
  c.decoder.call e c.data c.buflen c.world

def chainBody (e : Env) (c : Chain) : Loop.Step Chain (Except Fault World) :=
  match c.call e with
  | .error f => .leave (.error f)
  | .ok r =>
    let datalen := int32 (c.datalen - r.len)
    if 0 < datalen then
      match r.next with
      | some d => .again ⟨d, c.data + r.len, datalen, r.world⟩
      | none => .leave (.ok r.world)
    else .leave (.ok r.world)

def lmapEnv (h : Host) (g : Globals) (pkt : Packet) : Env :=
  ⟨h, pkt.addr, pkt.mem, g.decodersTable⟩

def lmapStart (g : Globals) (pkt : Packet) (d : Decoder) : Chain :=
  ⟨d, 0, int32 pkt.caplen, g.stats, dbBucketAlloc⟩

/-- Rounds of the loop that are looked at before it is taken not to end. -/
def ROUNDS : Nat := 8

/-- The bucket given to `db_bucket_send`, and the globals afterwards. -/
def lmapDecode (h : Host) (g : Globals) (pkt : Packet) : Except Fault (Bucket × Globals) :=
  match g.l2Decoder with
  | none => .error .nullCall
  | some d =>
    match Loop.run (chainBody (lmapEnv h g pkt)) ROUNDS (lmapStart g pkt d) with
    | some (.ok w) => .ok (w.bucket, { g with stats := w.stats })
    | some (.error f) => .error f
    | none => .error .hang

def lmapCalls (n : Nat) (h : Host) (g : Globals) (pkt : Packet) : List Chain :=
  match g.l2Decoder with
  | none => []
  | some d => Loop.visits (chainBody (lmapEnv h g pkt)) n (lmapStart g pkt d)

/-- One packet after the other, as `pcap_loop` delivers them. -/
def lmapDecodeAll (h : Host) : Globals → List Packet → Except Fault (List Bucket × Globals)
  | g, [] => .ok ([], g)
  | g, pkt :: pkts => do
    let (b, g) ← lmapDecode h g pkt
    let (bs, g) ← lmapDecodeAll h g pkts
    pure (b :: bs, g)

inductive Link where
  | eth | wifi
  deriving DecidableEq, Repr

def Link.dlt : Link → Int
  | .eth => LI_TYPE_ETH
  | .wifi => LI_TYPE_WIFI

def Link.decoder : Link → Decoder
  | .eth => .eth
  | .wifi => .wifi

/-- A program that has run its constructors and set its link decoder, with the
raw option on or off, and has counted any packets since. -/
structure Running where
  boot : Boot
  raw : Bool
  link : Link
  stats : Stats
  registered : ∀ a, a ∈ stats.names ↔ a ∈ boot.globals.stats.names

def Running.globals (r : Running) : Globals :=
  { (setL2Decoder r.boot.globals r.raw r.link.dlt).1 with stats := r.stats }

def Running.fresh (boot : Boot) (raw : Bool) (link : Link) : Running :=
  ⟨boot, raw, link, boot.globals.stats, fun _ => Iff.rfl⟩

def Running.listed (link : Link) : Running := fresh Boot.listed false link

theorem setL2Decoder_table (g : Globals) (raw : Bool) (dlt : Int) :
    (setL2Decoder g raw dlt).1.decodersTable = g.decodersTable := by
  unfold setL2Decoder
  split <;> rfl

namespace Running

theorem getDecoder_globals (r : Running) (level type : Int) :
    getDecoder r.globals.decodersTable level type = getDecoder registrations level type := by
  simp only [globals, setL2Decoder_table, Boot.getDecoder_table]

theorem registrations_link : ∀ e ∈ registrations, e.level = 2 →
    e = ⟨2, LI_TYPE_ETH, .eth⟩ ∨ e = ⟨2, LI_TYPE_WIFI, .wifi⟩ := by decide

theorem l2Decoder_globals (r : Running) : r.globals.l2Decoder = some r.link.decoder := by
  have hfound : ∃ e, r.boot.globals.decodersTable.find? (fun e =>
      (e.level = 2 ∧ e.type = r.link.dlt) ∨ (r.raw = true ∧ e.level = 2 ∧ e.type = 0)) = some e ∧
      e.decoder = r.link.decoder := by
    have hmem : ⟨2, r.link.dlt, r.link.decoder⟩ ∈ r.boot.globals.decodersTable := by
      rw [Boot.mem_table]
      cases r.link <;> decide
    have hs : (r.boot.globals.decodersTable.find? (fun e =>
        (e.level = 2 ∧ e.type = r.link.dlt) ∨
          (r.raw = true ∧ e.level = 2 ∧ e.type = 0))).isSome := by
      rw [List.find?_isSome]
      exact ⟨_, hmem, by simp⟩
    obtain ⟨e, he⟩ := Option.isSome_iff_exists.mp hs
    refine ⟨e, he, ?_⟩
    have hreg := (r.boot.mem_table e).mp (List.mem_of_find?_eq_some he)
    have hp := List.find?_some he
    simp only [decide_eq_true_eq] at hp
    have hlevel : e.level = 2 := by tauto
    have htype : e.type = r.link.dlt ∨ e.type = 0 := by tauto
    rcases registrations_link e hreg hlevel with rfl | rfl <;>
      cases hl : r.link <;> rw [hl] at htype <;> revert htype <;> decide
  obtain ⟨e, he, hd⟩ := hfound
  simp only [globals, setL2Decoder, he, hd]

end Running

def netDecoder (proto : Nat) : Option Decoder :=
  if proto = LL_TYPE_IP then some .ip
  else if proto = LL_TYPE_IP6 then some .ip6
  else if proto = LL_TYPE_ARP then some .arp
  else none

def protoDecoder (proto : Nat) : Option Decoder :=
  if proto = LN_TYPE_TCP then some .tcp
  else if proto = LN_TYPE_UDP then some .udp
  else if proto = LN_TYPE_ICMP then some .icmp
  else if proto = LN_TYPE_ICMP6 then some .icmp6
  else none

def appDecoder (port : Nat) : Option Decoder :=
  if port = LP_TYPE_DHCPD then some .dhcpd
  else if port = LP_TYPE_DHCPC then some .dhcpc
  else none

/-- A table that answers as the registrations of the program do. -/
structure Env.Registered (e : Env) : Prop where
  net : ∀ n : Nat, getDecoder e.table NET_LAYER n = netDecoder n
  proto : ∀ n : Nat, getDecoder e.table PROTO_LAYER n = protoDecoder n
  app : ∀ n : Nat, getDecoder e.table APP_LAYER n = appDecoder n

end Lmap
