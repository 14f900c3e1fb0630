import Lmap.OptionFields
import Lmap.RoundTrip
import Mathlib.Data.Nat.Log

/-!
The fingerprint of a SYN over IPv4, against the key that the database format gives to
such a packet.
-/

set_option autoImplicit false

namespace Lmap
open CString

namespace TcpOption

def size : TcpOption → Option Nat
  | mss v => some v.toNat
  | _ => none

def shift : TcpOption → Option Nat
  | wscale v => some v.toNat
  | _ => none

def isSack : TcpOption → Bool
  | sackPermitted => true
  | _ => false

def isNop : TcpOption → Bool
  | nop => true
  | _ => false

def isTimestamp : TcpOption → Bool
  | timestamp _ => true
  | _ => false

def note (F : FingerFields) (o : TcpOption) : FingerFields :=
  { F with
    mss := o.size.or F.mss
    ws := o.shift.or F.ws
    sack := F.sack || o.isSack
    nop := F.nop || o.isNop
    timestamp := F.timestamp || o.isTimestamp }

end TcpOption

/-- Rounded up to a power of two, `FF` above `80`. -/
def roundedTtl (ttl : UInt8) : Nat := if ttl.toNat ≤ 0x80 then 2 ^ Nat.clog 2 ttl.toNat else 0xff

/-- The fields of the documented format `WWWW:MSS:TTL:WS:S:N:D:T:F:LEN`. -/
def documentedFields (ip : Ip4Header) (tcp : TcpHeader) (options : List TcpOption) :
    FingerFields where
  window := tcp.win.toNat
  mss := (options.filterMap TcpOption.size).getLast?
  ttl := some (roundedTtl ip.ttl)
  ws := (options.filterMap TcpOption.shift).getLast?
  sack := options.any TcpOption.isSack
  nop := options.any TcpOption.isNop
  df := ip.fragOff.toNat.testBit 14
  timestamp := options.any TcpOption.isTimestamp
  flag := some (tcp.flags &&& TH_ACK ≠ 0)
  lt := some (ip.ihl * 4 + tcp.off * 4)

def documentedKey (ip : Ip4Header) (tcp : TcpHeader) (options : List TcpOption) : List UInt8 :=
  (documentedFields ip tcp options).text .upper

theorem getLast?_filterMap_cons {α β : Type} (g : α → Option β) (x : α) (xs : List α)
    (init : Option β) : ((x :: xs).filterMap g).getLast?.or init =
      (xs.filterMap g).getLast?.or ((g x).or init) := by
  cases hx : g x with
  | none => simp [hx]
  | some v => cases hxs : (xs.filterMap g).getLast? <;> simp [hx, hxs, List.getLast?_cons]

theorem foldl_note (options : List TcpOption) (F : FingerFields) :
    options.foldl TcpOption.note F =
      { F with
        mss := (options.filterMap TcpOption.size).getLast?.or F.mss
        ws := (options.filterMap TcpOption.shift).getLast?.or F.ws
        sack := F.sack || options.any TcpOption.isSack
        nop := F.nop || options.any TcpOption.isNop
        timestamp := F.timestamp || options.any TcpOption.isTimestamp } := by
  induction options generalizing F with
  | nil => simp
  | cons o options ih =>
    rw [List.foldl_cons, ih, getLast?_filterMap_cons, getLast?_filterMap_cons]
    simp only [TcpOption.note, List.any_cons, Bool.or_assoc]

theorem TcpOption.note_eq (F : FingerFields) (o : TcpOption) : o.note F =
    match o with
    | nop => F.push .nop 1
    | mss v => F.push .mss v.toNat
    | wscale v => F.push .ws v.toNat
    | sackPermitted => F.push .sack 1
    | timestamp _ => F.push .timestamp 1
    | other _ _ _ _ => F := by
  cases o <;> simp [note, size, shift, isSack, isNop, isTimestamp, FingerFields.push]

theorem TcpOption.push_note {h : Host} (hle : h.bigEndian = false) (F : FingerFields)
    (o : TcpOption) : o.push h F.buffer = (o.note F).buffer := by
  have hflag : ∀ param ∈ [FingerParam.sack, .nop, .timestamp], F.Fits param 1 := by
    simp [FingerFields.Fits]
  rw [o.note_eq]
  cases o with
  | nop => exact pushed_buffer F (hflag .nop (by simp))
  | mss v =>
    have hv := v.toNat_lt
    have hfits : F.Fits .mss v.toNat := And.intro (by omega) (by omega)
    rw [push, ntohs_ptohs h hle, net16_be16]
    exact pushed_buffer F hfits
  | wscale v =>
    have hv := v.toNat_lt
    have hfits : F.Fits .ws v.toNat := And.intro (by omega) (by omega)
    exact pushed_buffer F hfits
  | sackPermitted => exact pushed_buffer F (hflag .sack (by simp))
  | timestamp values => exact pushed_buffer F (hflag .timestamp (by simp))
  | other kind data _ _ => rfl

theorem pushAll_buffer {h : Host} (hle : h.bigEndian = false) (options : List TcpOption)
    (F : FingerFields) : pushAll h options F.buffer = (options.foldl TcpOption.note F).buffer := by
  induction options generalizing F with
  | nil => rfl
  | cons o options ih =>
    rw [pushAll, List.foldl_cons, o.push_note hle, ← pushAll, ih, List.foldl_cons]

def TcpHeader.fields (tcp : TcpHeader) (F : FingerFields) : FingerFields :=
  ((F.push .window tcp.win.toNat).push .tcpflag (if tcp.flags &&& TH_ACK ≠ 0 then 1 else 0)).push
    .lt ((tcp.off * 4 : Nat) : Int)

theorem tcpSyn_fields {e : Env} {p : Nat} (hle : e.host.bigEndian = false) {tcp : TcpHeader}
    {area : OptionArea} (hm : e.mem.Holds p tcp.encode) (harea : tcp.options.val = area.encode)
    (hend : optEnd e p tcp.off = p + tcp.off * 4) (F : FingerFields)
    (hlt : F.lt.getD 0 + tcp.off * 4 < 256) :
    tcpSyn e p tcp.off tcp.flags (some F.buffer) =
      .ok (some (area.options.foldl TcpOption.note (tcp.fields F)).buffer) := by
  obtain ⟨-, ⟨-, -, hwin0, hwin1, -⟩, hopts⟩ := tcp.holds_encode hm
  rw [harea] at hopts
  have hlen := tcp.options_length
  rw [harea] at hlen
  have hstop : optEnd e p tcp.off = p + 20 + area.encode.length := by omega
  rw [tcpSyn_note tcp.flags hwin0 hwin1 hlt, net16_be16, ← pushAll_buffer hle]
  exact optLoop_area (h := e.host) area hopts hstop (tcp.fields F).buffer

theorem ttlPredictor_rounded {ttl : UInt8} (hpos : ttl ≠ 0) :
    ttlPredictor ttl.toNat = roundedTtl ttl := by
  have h0 : 0 < ttl.toNat := Nat.pos_of_ne_zero (fun h => hpos (UInt8.toNat_inj.mp h))
  obtain ⟨hlow, hhigh⟩ := ttlPredictor_spec h0 ttl.toNat_lt
  unfold roundedTtl
  split
  · rename_i hle
    obtain ⟨k, hk, hge, hlt⟩ := hlow hle
    have hclog : Nat.clog 2 ttl.toNat = k := by
      apply Nat.le_antisymm (Nat.clog_le_of_le_pow hge)
      by_contra hless
      have hup := Nat.le_pow_clog (by decide : 1 < 2) ttl.toNat
      have hdouble : 2 ^ (Nat.clog 2 ttl.toNat + 1) ≤ 2 ^ k :=
        Nat.pow_le_pow_right (by decide) (by omega)
      rw [Nat.pow_succ] at hdouble
      omega
    rw [hk, hclog]
  · exact hhigh (by omega)

theorem documentedFields_eq {ip : Ip4Header} (hpos : ip.ttl ≠ 0) (tcp : TcpHeader)
    (options : List TcpOption) :
    options.foldl TcpOption.note (tcp.fields ip.fields) = documentedFields ip tcp options := by
  have hdf : decide (((ip.fragOff.toNat &&& IP_DF : Nat) : Int) ≠ 0) =
      ip.fragOff.toNat.testBit 14 := by
    have hand : ip.fragOff.toNat &&& IP_DF = (ip.fragOff.toNat.testBit 14).toNat * 2 ^ 14 :=
      Nat.and_two_pow _ 14
    rw [hand]
    cases ip.fragOff.toNat.testBit 14 <;> decide
  have hflag : decide ((if tcp.flags &&& TH_ACK ≠ 0 then (1 : Int) else 0) = 1) =
      decide (tcp.flags &&& TH_ACK ≠ 0) := by split <;> simp_all
  rw [foldl_note]
  simp only [TcpHeader.fields, Ip4Header.fields, ipFields, FingerFields.push, FingerFields.initial,
    documentedFields, Int.toNat_natCast, ttlPredictor_rounded hpos, hdf, hflag, Option.or_none,
    Bool.false_or, Option.getD_none, Option.getD_some, Nat.zero_add]

theorem hex2_words_iff {n : Nat} (h : n ≤ 30) :
    hex2 .lower (n * 4) = hex2 .upper (n * 4) ↔ n % 4 ≠ 3 := by
  have hall : ∀ i : Fin 31, hex2 .lower (i.val * 4) = hex2 .upper (i.val * 4) ↔ i.val % 4 ≠ 3 := by
    decide
  exact hall ⟨n, by omega⟩

theorem documentedFields_bounded {ip : Ip4Header} (hpos : ip.ttl ≠ 0) (tcp : TcpHeader)
    (options : List TcpOption) : (documentedFields ip tcp options).Bounded where
  window := tcp.win.toNat_lt
  mss := by
    intro v hv
    obtain ⟨o, -, ho⟩ := List.mem_filterMap.mp (List.mem_of_getLast? hv)
    cases o <;> simp only [TcpOption.size, Option.some.injEq, reduceCtorEq] at ho
    exact ho ▸ UInt16.toNat_lt _
  ttl := by
    intro v hv
    obtain rfl := Option.some.inj hv
    rw [← ttlPredictor_rounded hpos]
    exact ttlPredictor_lt ip.ttl.toNat_lt
  ws := by
    intro v hv
    obtain ⟨o, -, ho⟩ := List.mem_filterMap.mp (List.mem_of_getLast? hv)
    cases o <;> simp only [TcpOption.shift, Option.some.injEq, reduceCtorEq] at ho
    exact ho ▸ UInt8.toNat_lt _
  lt := by
    intro v hv
    obtain rfl := Option.some.inj hv
    have := ip.ihl_le
    have := tcp.off_le
    omega

structure SynFrame where
  eth : EthHeader
  ip : Ip4Header
  tcp : TcpHeader
  area : OptionArea
  payload : List UInt8
  ttl_pos : ip.ttl ≠ 0
  syn : tcp.Syn
  options_area : tcp.options.val = area.encode
  len_le : ip.ihl * 4 + tcp.off * 4 + payload.length ≤ 65535

namespace SynFrame

def segment (f : SynFrame) : Segment := .tcp f.tcp

def encode (f : SynFrame) : List UInt8 := f.segment.frame f.eth f.ip f.payload

theorem encode_length (f : SynFrame) :
    f.encode.length = 14 + (f.ip.ihl * 4 + f.tcp.off * 4 + f.payload.length) := by
  simp [encode, segment, Segment.frame, ip4Frame, Segment.encode, Nat.add_assoc]

def key (f : SynFrame) : List UInt8 := documentedKey f.ip f.tcp f.area.options

def ExactEnd (e : Env) (f : SynFrame) : Prop :=
  optEnd e f.ip.after f.tcp.off = f.ip.after + f.tcp.off * 4

instance (e : Env) (f : SynFrame) : Decidable (f.ExactEnd e) := inferInstanceAs (Decidable (_ = _))

end SynFrame

theorem lmapDecode_syn_finger (h : Host) (r : Running) (pkt : Packet) (f : SynFrame)
    (hlink : r.link = .eth) (hbytes : pkt.bytes = f.encode) (hle : h.bigEndian = false)
    (hend : f.ExactEnd (lmapEnv h r.globals pkt)) :
    ∃ b g, lmapDecode h r.globals pkt = .ok (b, g) ∧
      b.L4.fingerprint = some (documentedFields f.ip f.tcp f.area.options).buffer := by
  have hlen : pkt.bytes.length < 2 ^ 31 := by
    have := f.len_le
    rw [hbytes, f.encode_length]
    omega
  have hm : (lmapEnv h r.globals pkt).mem.Holds 0 f.encode := pkt.holds_of_bytes hbytes
  have hseg := ((Memory.holds_append _ _ _).mp (holds_segment hm)).1
  have hihl := f.ip.ihl_le
  have hoff := f.tcp.off_le
  have hfields : f.ip.fields.lt.getD 0 = f.ip.ihl * 4 := Nat.zero_add _
  have hsyn := tcpSyn_fields hle hseg f.options_area hend f.ip.fields (by rw [hfields]; omega)
  rw [documentedFields_eq f.ttl_pos] at hsyn
  have hflags : f.tcp.flags &&& TH_SYN ≠ 0 := f.syn
  have hcall := (decodeTcp_encode_ok_iff (n := leftAt pkt.caplen f.ip.after)
    (w := ⟨updateStat (updateStat r.stats "TOTAL" 1) "IP" 1,
      f.ip.fillFrame h f.eth f.segment.protocol dbBucketAlloc⟩) (r.env_registered h pkt) hseg).mpr
    ⟨_, by rw [if_pos hflags]; exact hsyn, rfl⟩
  obtain ⟨g, hok⟩ := (lmapDecode_frame h r pkt hlink hbytes hlen).mpr ⟨_, hcall, rfl⟩
  exact ⟨_, g, hok, rfl⟩

/-- The fingerprint of a SYN is its documented key exactly if the words of the two headers
do not add up to a number whose last hexadecimal digit, counted in bytes, is `C`. -/
theorem lmapDecode_key_iff (h : Host) (r : Running) (pkt : Packet) (f : SynFrame)
    (hlink : r.link = .eth) (hbytes : pkt.bytes = f.encode) (hle : h.bigEndian = false)
    (hend : f.ExactEnd (lmapEnv h r.globals pkt)) :
    (∃ b g finger, lmapDecode h r.globals pkt = .ok (b, g) ∧ b.L4.fingerprint = some finger ∧
      cstr finger = f.key) ↔ (f.ip.ihl + f.tcp.off) % 4 ≠ 3 := by
  obtain ⟨b, g, hok, hfinger⟩ := lmapDecode_syn_finger h r pkt f hlink hbytes hle hend
  have hihl := f.ip.ihl_le
  have hoff := f.tcp.off_le
  have hkey : cstr (documentedFields f.ip f.tcp f.area.options).buffer = f.key ↔
      (f.ip.ihl + f.tcp.off) % 4 ≠ 3 := by
    rw [FingerFields.cstr_buffer (documentedFields_bounded f.ttl_pos _ _), SynFrame.key,
      documentedKey, FingerFields.text_case_iff, ← hex2_words_iff (by omega), Nat.add_mul]
    rfl
  rw [← hkey]
  constructor
  · rintro ⟨b', g', finger, hok', hfinger', hcstr⟩
    cases hok.symm.trans hok'
    cases hfinger.symm.trans hfinger'
    exact hcstr
  · intro hcstr
    exact ⟨b, g, _, hok, hfinger, hcstr⟩

theorem sampleIp_ttl : sampleIp.ttl ≠ 0 := by decide

theorem synHeader_syn (options : OptionBytes) : (synHeader options).Syn := by
  have hbit : TH_SYN &&& TH_SYN ≠ 0 := by decide
  exact hbit

theorem synHeader_off_le (options : OptionBytes) :
    sampleIp.ihl * 4 + (synHeader options).off * 4 + ([] : List UInt8).length ≤ 65535 := by
  have := sampleIp.ihl_le
  have := (synHeader options).off_le
  simp only [List.length_nil]
  omega

def sackArea : OptionArea :=
  ⟨[.mss 1460, .nop, .wscale 8, .nop, .nop, .sackPermitted], mssArea.padding, mssArea.padding_eol⟩

def sackHeader : TcpHeader := synHeader ⟨sackArea.encode, by decide⟩

theorem sackHeader_options : sackHeader.options.val = sackArea.encode := rfl

/-- With twelve bytes of options there are 52 bytes of headers, spelled `34`. -/
def sackSyn : SynFrame where
  eth := sampleEth
  ip := sampleIp
  tcp := sackHeader
  area := sackArea
  payload := []
  ttl_pos := sampleIp_ttl
  syn := synHeader_syn _
  options_area := sackHeader_options
  len_le := synHeader_off_le _

def sackPacket : Packet := ⟨0x1000, sackSyn.encode, by decide, fun _ => none⟩

theorem lmapDecode_key_sack :
    ∃ b g finger, lmapDecode ⟨false, 64⟩ (Running.listed .eth).globals sackPacket = .ok (b, g) ∧
      b.L4.fingerprint = some finger ∧ cstr finger = sackSyn.key :=
  (lmapDecode_key_iff ⟨false, 64⟩ (Running.listed .eth) sackPacket sackSyn rfl rfl rfl
    (by decide)).mpr (by decide)

theorem mssHeader_options : mssHeader.options.val = mssArea.encode := rfl

/-- With the segment size as the only option there are 44 bytes of headers, which the code
spells `2c`. -/
def mssSyn : SynFrame where
  eth := sampleEth
  ip := sampleIp
  tcp := mssHeader
  area := mssArea
  payload := []
  ttl_pos := sampleIp_ttl
  syn := synHeader_syn _
  options_area := mssHeader_options
  len_le := synHeader_off_le _

def mssSynPacket : Packet := ⟨0x1000, mssSyn.encode, by decide, fun _ => none⟩

theorem mssSyn_key : mssSyn.key = lit "0200:05B4:40:WS:0:0:1:0:S:2C" ∧
    ¬ ∃ b g finger, lmapDecode ⟨false, 64⟩ (Running.listed .eth).globals mssSynPacket = .ok (b, g) ∧
      b.L4.fingerprint = some finger ∧ cstr finger = mssSyn.key := by
  have hrun : (lmapDecode ⟨false, 64⟩ (Running.listed .eth).globals mssSynPacket).map
      (fun res => res.1.L4.fingerprint.map cstr) =
        .ok (some (lit "0200:05B4:40:WS:0:0:1:0:S:2c")) := by decide +kernel
  refine ⟨by decide, ?_⟩
  rintro ⟨b, g, finger, hok, hfinger, hkey⟩
  rw [hok] at hrun
  simp only [Except.map, hfinger, Option.map_some, hkey, Except.ok.injEq, Option.some.injEq] at hrun
  revert hrun
  decide

end Lmap
