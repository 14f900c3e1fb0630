import Lmap.CommandLine
import Lmap.MsgQueue
import Lmap.SameBytes

/-!
`capture_init`, and the packets that `pcap_loop` hands to `lmap_decode` until it stops: what is
written to the dump file, and what comes of it when that file is read.
-/

set_option autoImplicit false

namespace Lmap
open CString GetOpt

/-- What is asked of libpcap. The state of the disk stands for the dump files; a packet in one of
them is the bytes that were captured. -/
structure Pcap (Disk : Type) where
  lookupdev : Option Arg
  /-- The link type, or what is in `errbuf`. -/
  openLive : Arg → Except (List UInt8) Int
  openOffline : Disk → Arg → Except (List UInt8) (Int × List (List UInt8))
  dumpOpen : Disk → Arg → Int → Option Disk
  dump : Disk → Arg → List UInt8 → Disk

structure Capture where
  options : Options
  snaplen : Nat
  dlt : Int
  /-- The file behind `GBL_PCAP->dump`, `none` where that is `NULL`. -/
  dump : Option Arg
  globals : Globals

/-- `capture_init` returns, or prints a text and exits. -/
inductive Beginning where
  | capturing (c : Capture)
  | noInterface
  | notOpened (errbuf : List UInt8)
  | notSupported (msg : List UInt8)

variable {Disk : Type}

/-- The name of the file has to be there. -/
def captureOpen (P : Pcap Disk) (d : Disk) (o : Options) (iface : Arg) :
    Except Fault (Except (List UInt8) Int) :=
  if o.read then
    match o.dumpfile with
    | some file => .ok ((P.openOffline d file).map Prod.fst)
    | none => .error .outOfRange
  else .ok (P.openLive iface)

/-- What `pcap_dump_open` returns is stored as it is. -/
def captureDump (P : Pcap Disk) (d : Disk) (o : Options) (dlt : Int) :
    Except Fault (Disk × Option Arg) :=
  if o.dump then
    match o.dumpfile with
    | some file =>
      match P.dumpOpen d file dlt with
      | some d => .ok (d, some file)
      | none => .ok (d, none)
    | none => .error .outOfRange
  else .ok (d, none)

def unsupported (o : Options) (iface : Arg) (dlt : Int) : List UInt8 :=
  if o.read then lit "Dump file not supported (DLT = " ++ printInt dlt ++ lit ")"
  else lit "Inteface " ++ iface ++ lit " not supported (DLT = " ++ printInt dlt ++ lit ")"

def captureInit (P : Pcap Disk) (d : Disk) (g : Globals) (o : Options) :
    Except Fault (Disk × List Ui.Message × Beginning) :=
  match o.iface.or P.lookupdev with
  | none => .ok (d, [], .noInterface)
  | some iface => do
    let msgs := [lit "Listening on " ++ iface ++ lit "...\n\n"]
    let opened ← captureOpen P d o iface
    match opened with
    | .error errbuf => pure (d, msgs, .notOpened errbuf)
    | .ok dlt => do
      let (d, dump) ← captureDump P d o dlt
      let (g, ret) := setL2Decoder g o.raw dlt
      if ret ≠ ESUCCESS then pure (d, msgs, .notSupported (unsupported o iface dlt))
      else pure (d, msgs, .capturing ⟨{ o with iface := some iface }, 9999, dlt, dump, g⟩)

/-- `lmap_decode` gives the packet to `pcap_dump` before it decodes it. -/
def lmapDump (P : Pcap Disk) (c : Capture) (d : Disk) (pkt : Packet) : Except Fault Disk :=
  if c.options.dump then
    match c.dump with
    | some file => .ok (P.dump d file pkt.bytes)
    | none => .error .outOfRange
  else .ok d

/-- The packets of `pcap_loop`, up to the one that stops the program, if one does. -/
def capture (P : Pcap Disk) (h : Host) (c : Capture) :
    Disk → Globals → List Packet → Disk × Except Fault (List Bucket × Globals)
  | d, g, [] => (d, .ok ([], g))
  | d, g, pkt :: pkts =>
    match lmapDump P c d pkt with
    | .error f => (d, .error f)
    | .ok d =>
      match lmapDecode h g pkt with
      | .error f => (d, .error f)
      | .ok (b, g) =>
        let (d, rest) := capture P h c d g pkts
        (d, rest.map fun res => (b :: res.1, res.2))

theorem find?_selects_boot (b : Boot) (raw : Bool) (dlt : Int) :
    (b.globals.decodersTable.find? (selects raw dlt)).isSome ↔ ∃ link : Link, dlt = link.dlt := by
  rw [List.find?_isSome]
  constructor
  · rintro ⟨e, he, hselects⟩
    obtain ⟨hlevel, htype⟩ : e.level = 2 ∧ (e.type = dlt ∨ e.type = 0) := by
      simp only [selects, decide_eq_true_eq] at hselects
      tauto
    rcases Running.registrations_link e ((b.mem_table e).mp he) hlevel with rfl | rfl
    · rcases htype with rfl | htype
      · exact ⟨.eth, rfl⟩
      · cases htype
    · rcases htype with rfl | htype
      · exact ⟨.wifi, rfl⟩
      · cases htype
  · rintro ⟨link, rfl⟩
    refine ⟨⟨2, link.dlt, link.decoder⟩, (b.mem_table _).mpr ?_, by simp [selects]⟩
    cases link <;> decide

/-- No raw decoder is registered, so the option does not let in any other link. -/
theorem setL2Decoder_boot (b : Boot) (raw : Bool) (dlt : Int) :
    (∃ link : Link, dlt = link.dlt ∧ (setL2Decoder b.globals raw dlt).2 = ESUCCESS ∧
        (setL2Decoder b.globals raw dlt).1 = (Running.fresh b raw link).globals) ∨
      (∀ link : Link, dlt ≠ link.dlt) ∧ (setL2Decoder b.globals raw dlt).2 = -ENOTFOUND := by
  have hfind := find?_selects_boot b raw dlt
  cases hf : b.globals.decodersTable.find? (selects raw dlt) with
  | some e =>
    obtain ⟨link, rfl⟩ := hfind.mp (by rw [hf]; rfl)
    refine .inl ⟨link, rfl, ?_, ?_⟩
    · rw [setL2Decoder_eq, hf]
      rfl
    · rw [Running.globals, Running.fresh, setL2Decoder_eq, hf]
      rfl
  | none =>
    refine .inr ⟨fun link heq => ?_, ?_⟩
    · have hsome := hfind.mpr ⟨link, heq⟩
      rw [hf] at hsome
      cases hsome
    · rw [setL2Decoder_eq, hf]
      rfl

/-- What has to be there for the capture to begin, and what it begins with. -/
structure Begins (P : Pcap Disk) (d : Disk) (b : Boot) (o : Options) (d' : Disk) (c : Capture) :
    Prop where
  iface : ∃ iface, o.iface.or P.lookupdev = some iface ∧
    captureOpen P d o iface = .ok (.ok c.dlt) ∧ c.options = { o with iface := some iface }
  snaplen : c.snaplen = 9999
  dump : captureDump P d o c.dlt = .ok (d', c.dump)
  link : ∃ link : Link, c.dlt = link.dlt ∧ c.globals = (Running.fresh b o.raw link).globals

def shelf : Pcap (Arg → Option (Int × List (List UInt8))) where
  lookupdev := some (lit "eth0")
  openLive _ := .ok LI_TYPE_ETH
  openOffline d file := (d file).elim (.error (lit "No such file")) .ok
  dumpOpen d file dlt := some (Function.update d file (some (dlt, [])))
  dump d file record :=
    Function.update d file ((d file).map fun saved => (saved.1, saved.2 ++ [record]))

def traced : Options := ⟨true, false, false, none, some (lit "trace")⟩

section Begin

variable {P : Pcap Disk} {d d' : Disk} {b : Boot} {o : Options} {c : Capture}
  {msgs : List Ui.Message} {begun : Beginning}

theorem captureInit_capturing (h : captureInit P d b.globals o = .ok (d', msgs, .capturing c)) :
    Begins P d b o d' c := by
  unfold captureInit at h
  split at h
  · cases h
  · rename_i iface hiface
    rw [bind_ok_iff] at h
    obtain ⟨opened, hopen, h⟩ := h
    cases opened with
    | error errbuf => cases h
    | ok dlt =>
      rw [bind_ok_iff] at h
      obtain ⟨⟨d₁, dump⟩, hdump, h⟩ := h
      simp only at h
      split at h
      · cases h
      · rename_i hret
        cases h
        rcases setL2Decoder_boot b o.raw dlt with ⟨link, rfl, -, hglobals⟩ | ⟨-, hnot⟩
        · exact ⟨⟨iface, hiface, hopen, rfl⟩, rfl, hdump, link, rfl, hglobals⟩
        · rw [hnot] at hret
          exact absurd hret (by decide)

theorem captureInit_of_begins (h : Begins P d b o d' c) :
    ∃ msgs, captureInit P d b.globals o = .ok (d', msgs, .capturing c) := by
  obtain ⟨⟨iface, hiface, hopen, hoptions⟩, hsnaplen, hdump, link, hdlt, hglobals⟩ := h
  obtain ⟨options, snaplen, dlt, dump, globals⟩ := c
  simp only at hoptions hsnaplen hdlt hglobals hdump hopen
  subst hoptions hsnaplen hdlt hglobals
  rcases setL2Decoder_boot b o.raw link.dlt with ⟨link', hlink', hret, hset⟩ | ⟨hnot, -⟩
  · have hsame : link' = link := by
      cases link <;> cases link' <;> first | rfl | cases hlink'
    subst hsame
    refine ⟨[lit "Listening on " ++ iface ++ lit "...\n\n"], ?_⟩
    simp only [captureInit, hiface, hopen, ok_bind, hdump]
    rw [← hset]
    simp [hret]
    rfl
  · exact absurd rfl (hnot link)

theorem captureOpen_filled (hfile : o.dumpfile.isSome = (o.dump || o.read)) (iface : Arg) :
    ∃ opened, captureOpen P d o iface = .ok opened := by
  unfold captureOpen
  cases hread : o.read with
  | false => exact ⟨_, rfl⟩
  | true =>
    rw [hread, Bool.or_true] at hfile
    obtain ⟨file, hsome⟩ := Option.isSome_iff_exists.mp hfile
    rw [hsome]
    exact ⟨_, rfl⟩

theorem captureDump_filled (hfile : o.dumpfile.isSome = (o.dump || o.read)) (dlt : Int) :
    ∃ res, captureDump P d o dlt = .ok res := by
  unfold captureDump
  cases hdump : o.dump with
  | false => exact ⟨_, rfl⟩
  | true =>
    rw [hdump, Bool.true_or] at hfile
    obtain ⟨file, hsome⟩ := Option.isSome_iff_exists.mp hfile
    rw [hsome]
    cases hopen : P.dumpOpen d file dlt with
    | none => exact ⟨(d, none), by simp [hopen]⟩
    | some d' => exact ⟨(d', some file), by simp [hopen]⟩

theorem captureInit_returns (hfile : o.dumpfile.isSome = (o.dump || o.read)) :
    ∃ out, captureInit P d b.globals o = .ok out := by
  unfold captureInit
  split
  · exact ⟨_, rfl⟩
  · rename_i iface hiface
    obtain ⟨opened, hopen⟩ := captureOpen_filled (P := P) (d := d) hfile iface
    rw [hopen, ok_bind]
    cases opened with
    | error errbuf => exact ⟨_, rfl⟩
    | ok dlt =>
      obtain ⟨⟨d', dump⟩, hdump⟩ := captureDump_filled (P := P) (d := d) hfile dlt
      simp only [hdump, ok_bind]
      split
      · exact ⟨_, rfl⟩
      · exact ⟨_, rfl⟩

/-- With the options that `parse_options` leaves behind, no `NULL` is given to libpcap. The capture
begins if and only if an interface is known, even for a file, the source can be opened, and its
link is one of the two that have a decoder, with the option for raw links or without it. -/
theorem captureInit_begins (P : Pcap Disk) (d : Disk) (b : Boot) {posixlyCorrect : Bool}
    {argv : List Arg} (hparse : parseOptions posixlyCorrect argv = .ok (.parsed o)) :
    ∃ d' msgs begun, captureInit P d b.globals o = .ok (d', msgs, begun) ∧
      ∀ c, begun = .capturing c ↔ Begins P d b o d' c := by
  obtain ⟨hfilled, -⟩ := parsed_filled hparse
  obtain ⟨⟨d', msgs, begun⟩, hinit⟩ := captureInit_returns (P := P) (d := d) (b := b) hfilled.file
  refine ⟨d', msgs, begun, hinit, fun c => ⟨?_, fun hbegins => ?_⟩⟩
  · rintro rfl
    exact captureInit_capturing hinit
  · obtain ⟨msgs', hinit'⟩ := captureInit_of_begins hbegins
    cases hinit.symm.trans hinit'
    rfl

theorem captureInit_begins_traced :
    ∃ d' msgs begun, captureInit shelf (fun _ => none) Boot.listed.globals traced =
        .ok (d', msgs, begun) ∧
      ∀ c, begun = .capturing c ↔ Begins shelf (fun _ => none) Boot.listed traced d' c :=
  captureInit_begins shelf (fun _ => none) Boot.listed
    (rfl : parseOptions false [lit "lmap", lit "--dump=trace"] = .ok (.parsed traced))

end Begin

/-- What libpcap promises of a file: there are no packets in a new one, and then those that have
been dumped. `pcap_dump` writes into a buffer, so the disk is what it is once that is flushed. -/
structure Pcap.Keeps (P : Pcap Disk) : Prop where
  created : ∀ d file (link : Link) d', P.dumpOpen d file link.dlt = some d' →
    P.openOffline d' file = .ok (link.dlt, [])
  dumped : ∀ d file dlt records record, P.openOffline d file = .ok (dlt, records) →
    P.openOffline (P.dump d file record) file = .ok (dlt, records ++ [record])

/-- The packets that are decoded, with the one at which the program stops. -/
def reached (h : Host) : Globals → List Packet → List Packet
  | _, [] => []
  | g, pkt :: pkts =>
    pkt :: match lmapDecode h g pkt with
      | .ok (_, g) => reached h g pkts
      | .error _ => []

theorem shelf_keeps : shelf.Keeps where
  created := by
    intro d file link d' hopen
    cases hopen
    simp [shelf]
  dumped := by
    intro d file dlt records record hd
    cases hfile : d file with
    | none =>
      simp only [shelf, hfile, Option.elim_none] at hd
      cases hd
    | some saved =>
      simp only [shelf, hfile, Option.elim_some, Except.ok.injEq] at hd
      subst hd
      simp [shelf, hfile]

def startedTrace : Capture :=
  ⟨{ traced with iface := some (lit "eth0") }, 9999, 1, some (lit "trace"),
    (Running.listed .eth).globals⟩

def traceDisk : Arg → Option (Int × List (List UInt8)) :=
  Function.update (fun _ => none) (lit "trace") (some (1, []))

theorem captureInit_trace : captureInit shelf (fun _ => none) Boot.listed.globals traced =
    .ok (traceDisk, [lit "Listening on eth0...\n\n"], .capturing startedTrace) := rfl

section Dump

variable {P : Pcap Disk} {d d₁ : Disk} {b b' : Boot} {o o' : Options} {c : Capture}
  {msgs : List Ui.Message} {file : Arg} {h : Host} {g : Globals}

/-- What is behind the packet that stops the program does not matter. -/
theorem lmapDecodeAll_reached (h : Host) (g : Globals) (pkts : List Packet) :
    lmapDecodeAll h g (reached h g pkts) = lmapDecodeAll h g pkts := by
  induction pkts generalizing g with
  | nil => rfl
  | cons pkt pkts ih =>
    rw [reached, lmapDecodeAll, lmapDecodeAll]
    cases hok : lmapDecode h g pkt with
    | error f => rfl
    | ok res =>
      rw [ok_bind, ok_bind]
      dsimp only
      rw [ih]

theorem lmapDump_eq (hdump : c.options.dump = true) (hfile : c.dump = some file) (pkt : Packet) :
    lmapDump P c d pkt = .ok (P.dump d file pkt.bytes) := by
  rw [lmapDump, if_pos hdump, hfile]

theorem capture_snd (hdump : c.options.dump = true → c.dump.isSome) (d : Disk) (g : Globals)
    (pkts : List Packet) : (capture P h c d g pkts).2 = lmapDecodeAll h g pkts := by
  induction pkts generalizing d g with
  | nil => rfl
  | cons pkt pkts ih =>
    obtain ⟨d', hd'⟩ : ∃ d', lmapDump P c d pkt = .ok d' := by
      unfold lmapDump
      split
      · rename_i hon
        obtain ⟨file, hfile⟩ := Option.isSome_iff_exists.mp (hdump hon)
        rw [hfile]
        exact ⟨_, rfl⟩
      · exact ⟨_, rfl⟩
    rw [capture, hd', lmapDecodeAll]
    cases hok : lmapDecode h g pkt with
    | error f => rfl
    | ok res =>
      obtain ⟨b, g'⟩ := res
      have hrest := ih d' g'
      dsimp only
      rw [hrest, ok_bind]
      cases lmapDecodeAll h g' pkts <;> rfl

theorem capture_dumped (hkeeps : P.Keeps) (hdump : c.options.dump = true)
    (hfile : c.dump = some file) {dlt : Int} {records : List (List UInt8)}
    (hd : P.openOffline d file = .ok (dlt, records)) (pkts : List Packet) :
    P.openOffline (capture P h c d g pkts).1 file =
      .ok (dlt, records ++ (reached h g pkts).map Packet.bytes) := by
  induction pkts generalizing d g records with
  | nil => simpa [capture, reached] using hd
  | cons pkt pkts ih =>
    have hnext := hkeeps.dumped d file dlt records pkt.bytes hd
    rw [capture, lmapDump_eq hdump hfile, reached]
    cases hok : lmapDecode h g pkt with
    | error f => exact hnext
    | ok res =>
      have hrest := ih (g := res.2) hnext
      rw [List.append_assoc] at hrest
      exact hrest

theorem captureDump_created (hkeeps : P.Keeps) {link : Link}
    (h : captureDump P d o link.dlt = .ok (d₁, some file)) (hdump : o.dump = true) :
    o.dumpfile = some file ∧ P.openOffline d₁ file = .ok (link.dlt, []) := by
  rw [captureDump, if_pos hdump] at h
  split at h
  · rename_i name hname
    split at h
    · rename_i d' hopen
      cases h
      exact ⟨hname, hkeeps.created d file link d₁ hopen⟩
    · cases h
  · cases h

/-- Every packet that the decoders are given is in the dump file, in the order of the capture, and
so is the one that stops the program. -/
theorem dump_complete (hkeeps : P.Keeps)
    (hinit : captureInit P d b.globals o = .ok (d₁, msgs, .capturing c)) (hdump : o.dump = true)
    (hfile : c.dump = some file) (pkts : List Packet) :
    P.openOffline (capture P h c d₁ c.globals pkts).1 file =
      .ok (c.dlt, (reached h c.globals pkts).map Packet.bytes) := by
  obtain ⟨⟨iface, -, -, hoptions⟩, -, hdumped, link, hdlt, -⟩ := captureInit_capturing hinit
  rw [hdlt, hfile] at hdumped
  have hon : c.options.dump = true := by rw [hoptions, hdump]
  have hall := capture_dumped (h := h) (g := c.globals) hkeeps hon hfile
    (captureDump_created hkeeps hdumped hdump).2 pkts
  rwa [← hdlt, List.nil_append] at hall

/-- The second packet stops the program, and the third one is not reached. -/
theorem dump_complete_cut :
    shelf.openOffline (capture shelf ⟨false, 64⟩ startedTrace traceDisk startedTrace.globals
        [udpPacket, Packet.captured 0 cutFrame (by decide), udpPacket]).1 (lit "trace") =
      .ok (1, (reached ⟨false, 64⟩ startedTrace.globals
        [udpPacket, Packet.captured 0 cutFrame (by decide), udpPacket]).map Packet.bytes) :=
  dump_complete shelf_keeps captureInit_trace rfl rfl _

theorem begins_read (b' : Boot) {d : Disk} {link : Link} {records : List (List UInt8)}
    (hd : P.openOffline d file = .ok (link.dlt, records)) (hread : o'.read = true)
    (hdump : o'.dump = false) (hfile : o'.dumpfile = some file)
    (hiface : (o'.iface.or P.lookupdev).isSome) :
    ∃ c', Begins P d b' o' d c' ∧ c'.dlt = link.dlt ∧ c'.options.dump = false ∧
      c'.globals = (Running.fresh b' o'.raw link).globals := by
  obtain ⟨iface, hiface⟩ := Option.isSome_iff_exists.mp hiface
  refine ⟨⟨{ o' with iface := some iface }, 9999, link.dlt, none,
    (Running.fresh b' o'.raw link).globals⟩, ⟨⟨iface, hiface, ?_, rfl⟩, rfl, ?_, link, rfl, rfl⟩,
    rfl, hdump, rfl⟩
  · rw [captureOpen, if_pos hread, hfile]
    dsimp only
    rw [hd]
    rfl
  · rw [captureDump, if_neg (by simp [hdump])]

theorem same_counts {raw raw' : Bool} {link : Link} {pkts pkts' : List Packet}
    {bs bs' : List Bucket} {g g' : Globals}
    (hrun : lmapDecodeAll h (Running.fresh b raw link).globals pkts = .ok (bs, g))
    (hrun' : lmapDecodeAll h (Running.fresh b' raw' link).globals pkts' = .ok (bs', g'))
    (hcalls : lmapCallsAll h (Running.fresh b raw link).globals pkts =
      lmapCallsAll h (Running.fresh b' raw' link).globals pkts') (a : String) :
    getStat g.stats a = getStat g'.stats a := by
  obtain ⟨hnames, hget⟩ := Running.lmapDecodeAll_stats hrun
  obtain ⟨hnames', hget'⟩ := Running.lmapDecodeAll_stats hrun'
  have hmem : a ∈ (Running.fresh b raw link).stats.names ↔
      a ∈ (Running.fresh b' raw' link).stats.names := (b.mem_names a).trans (b'.mem_names a).symm
  by_cases ha : a ∈ (Running.fresh b raw link).stats.names
  · have hzero : getStat (Running.fresh b raw link).stats a = 0 := b.getStat_zero a
    have hzero' : getStat (Running.fresh b' raw' link).stats a = 0 := b'.getStat_zero a
    rw [hget a ha, hget' a (hmem.mp ha), hzero, hzero', hcalls]
  · have hout : a ∉ g.stats.names := hnames ▸ ha
    have hout' : a ∉ g'.stats.names := hnames' ▸ fun ha' => ha (hmem.mpr ha')
    rw [getStat_of_not_mem hout, getStat_of_not_mem hout']

/-- What the second program makes of the file, against what the first one has made of the
packets. -/
structure Replays (first second : Except Fault (List Bucket × Globals)) : Prop where
  buckets : first.map Prod.fst = second.map Prod.fst
  counts : ∀ bs g bs' g', first = .ok (bs, g) → second = .ok (bs', g') →
    ∀ a, getStat g.stats a = getStat g'.stats a

/-- A capture that was dumped can be read back. The second program begins, whatever the order of
its constructors and its options for raw links; and it makes the same of the packets, wherever they
are in its memory, up to the same fault if there is one. -/
theorem replay (hkeeps : P.Keeps) (h : Host) (b' : Boot)
    (hinit : captureInit P d b.globals o = .ok (d₁, msgs, .capturing c)) (hdump : o.dump = true)
    (hfile : c.dump = some file) (pkts : List Packet) {posixlyCorrect : Bool} {argv : List Arg}
    (hparse : parseOptions posixlyCorrect argv = .ok (.parsed o')) (hread : o'.read = true)
    (hsame : o'.dumpfile = some file) (hiface : (o'.iface.or P.lookupdev).isSome) :
    ∃ msgs' c', captureInit P (capture P h c d₁ c.globals pkts).1 b'.globals o' =
        .ok ((capture P h c d₁ c.globals pkts).1, msgs', .capturing c') ∧
      ∀ (link : Link) (pkts' : List Packet), c.dlt = link.dlt →
        (reached h c.globals pkts).map Packet.bytes = pkts'.map Packet.bytes →
        (∀ pkt ∈ reached h c.globals pkts, Contained h link pkt) →
        (∀ pkt ∈ pkts', Contained h link pkt) →
        Replays (capture P h c d₁ c.globals pkts).2
          (capture P h c' (capture P h c d₁ c.globals pkts).1 c'.globals pkts').2 := by
  obtain ⟨⟨iface, -, -, hoptions⟩, -, hdumped, link, hdlt, hglobals⟩ := captureInit_capturing hinit
  rw [hdlt, hfile] at hdumped
  have hon : c.options.dump = true := by rw [hoptions, hdump]
  have hall := capture_dumped (h := h) (g := c.globals) hkeeps hon hfile
    (captureDump_created hkeeps hdumped hdump).2 pkts
  have hoff : o'.dump = false := by
    have hmodes := (parsed_filled hparse).2
    cases hd : o'.dump with
    | false => rfl
    | true => exact absurd ⟨hd, hread⟩ hmodes
  obtain ⟨c', hbegins, -, hoff', hglobals'⟩ := begins_read b' hall hread hoff hsame hiface
  obtain ⟨msgs', hinit'⟩ := captureInit_of_begins hbegins
  refine ⟨msgs', c', hinit', ?_⟩
  intro link' pkts' hlink' hbytes hfits hfits'
  obtain rfl : link' = link := by
    rw [hdlt] at hlink'
    cases link <;> cases link' <;> first | rfl | cases hlink'
  rw [capture_snd (by simp [hfile]), capture_snd (by simp [hoff']), hglobals, hglobals',
    ← lmapDecodeAll_reached]
  rw [hglobals] at hbytes hfits
  have hlinks : (Running.fresh b o.raw link').link = (Running.fresh b' o'.raw link').link := rfl
  obtain ⟨hbuckets, hcalls⟩ := Running.same_bytes_all hlinks hbytes hfits hfits'
  exact ⟨hbuckets, fun bs g bs' g' hrun hrun' => same_counts hrun hrun' hcalls⟩

end Dump

def reading : Options := ⟨false, true, true, none, some (lit "trace")⟩

def Boot.reversed : Boot := ⟨InitFn.all.reverse, List.reverse_perm _⟩

def stackedUdp : Packet := ⟨0x7ffc00001000, udpFrame, udpPacket.bytes_lt, fun _ => some 7⟩

theorem contained_udp : Contained ⟨false, 64⟩ .eth udpPacket where
  fits := (Running.in_range_alone_iff (Running.listed .eth) ⟨false, 64⟩ udpPacket).mp
    (by decide +kernel)
  ends := Running.endsExact_of_no_tcp (by decide +kernel)

theorem contained_stacked : Contained ⟨false, 64⟩ .eth stackedUdp where
  fits := (Running.in_range_alone_iff (Running.listed .eth) ⟨false, 64⟩ stackedUdp).mp
    (by decide +kernel)
  ends := Running.endsExact_of_no_tcp (by decide +kernel)

theorem replay_udp : ∃ d msgs' c',
    captureInit shelf d Boot.reversed.globals reading = .ok (d, msgs', .capturing c') ∧
      Replays
        (capture shelf ⟨false, 64⟩ startedTrace traceDisk startedTrace.globals [udpPacket]).2
        (capture shelf ⟨false, 64⟩ c' d c'.globals [stackedUdp]).2 := by
  obtain ⟨msgs', c', hinit, hreplays⟩ := replay shelf_keeps ⟨false, 64⟩ Boot.reversed
    captureInit_trace rfl rfl [udpPacket]
    (by decide +kernel : parseOptions false [lit "lmap", lit "-wrtrace"] = .ok (.parsed reading))
    rfl rfl rfl
  have hreached : reached ⟨false, 64⟩ startedTrace.globals [udpPacket] = [udpPacket] := by
    have hcons : reached ⟨false, 64⟩ startedTrace.globals [udpPacket] =
        udpPacket :: match lmapDecode ⟨false, 64⟩ startedTrace.globals udpPacket with
          | .ok (_, _) => []
          | .error _ => [] := rfl
    rw [hcons]
    cases lmapDecode ⟨false, 64⟩ startedTrace.globals udpPacket <;> rfl
  refine ⟨_, msgs', c', hinit, hreplays .eth [stackedUdp] rfl ?_ ?_ ?_⟩
  · rw [hreached]
    rfl
  · rw [hreached]
    exact List.forall_mem_singleton.mpr contained_udp
  · exact List.forall_mem_singleton.mpr contained_stacked

end Lmap
