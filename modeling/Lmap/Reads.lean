import Lmap.DecoderSpec
import Lmap.TcpOptions

/-!
Which bytes each decoder needs, and how it fails without them. What it returns is
told here only as far as it steers the chain: the next decoder, the length, and
the fingerprint it leaves.
-/

set_option autoImplicit false

namespace Lmap

/-- A computation that ends well where `R` holds and out of range where it does not. -/
structure Needs {α : Type} (x : Except Fault α) (R : Prop) : Prop where
  ok : R → ∃ a, x = .ok a
  short : ¬ R → x = .error .outOfRange

namespace Needs

variable {α β : Type} {m : Memory} {R S : Prop}

theorem pure (a : α) : Needs (.ok a) True := ⟨fun _ => ⟨a, rfl⟩, fun h => absurd trivial h⟩

theorem congr {x : Except Fault α} (h : Needs x R) (hrs : R ↔ S) : Needs x S :=
  ⟨fun hs => h.ok (hrs.mpr hs), fun hs => h.short (fun hr => hs (hrs.mp hr))⟩

theorem bind {x : Except Fault α} {f : α → Except Fault β} (hx : Needs x R)
    (hf : ∀ a, x = .ok a → Needs (f a) S) : Needs (x >>= f) (R ∧ S) := by
  by_cases hr : R
  · obtain ⟨a, ha⟩ := hx.ok hr
    have hbind : (x >>= f) = f a := by rw [ha]; rfl
    rw [hbind]
    exact (hf a ha).congr (by simp [hr])
  · refine ⟨fun h => absurd h.1 hr, fun _ => ?_⟩
    rw [hx.short hr]
    rfl

theorem map {x : Except Fault α} (hx : Needs x R) (g : α → β) : Needs (x.map g) R := by
  refine ⟨fun hr => ?_, fun hr => by rw [hx.short hr]; rfl⟩
  obtain ⟨a, ha⟩ := hx.ok hr
  exact ⟨g a, by rw [ha]; rfl⟩

theorem ite {c : Prop} [Decidable c] {x y : Except Fault α} (hx : c → Needs x R)
    (hy : ¬ c → Needs y S) : Needs (if c then x else y) ((c → R) ∧ (¬ c → S)) := by
  by_cases hc : c
  · rw [if_pos hc]
    exact (hx hc).congr (by simp [hc])
  · rw [if_neg hc]
    exact (hy hc).congr (by simp [hc])

theorem outOfRange_iff {x : Except Fault α} (h : Needs x R) :
    x = .error .outOfRange ↔ ¬ R := by
  refine ⟨fun hx hr => ?_, h.short⟩
  obtain ⟨a, ha⟩ := h.ok hr
  cases hx.symm.trans ha

theorem eq_outOfRange {x : Except Fault α} (h : Needs x R) {f : Fault} (hx : x = .error f) :
    f = .outOfRange := by
  by_cases hr : R
  · obtain ⟨a, ha⟩ := h.ok hr
    cases hx.symm.trans ha
  · cases hx.symm.trans (h.short hr)
    rfl

theorem bind_short {x : Except Fault α} {f : α → Except Fault β} (hx : Needs x R)
    (hf : ∀ a, R → f a = .error .outOfRange) : (x >>= f) = .error .outOfRange := by
  by_cases hr : R
  · obtain ⟨a, ha⟩ := hx.ok hr
    rw [ha]
    exact hf a hr
  · rw [hx.short hr]
    rfl

theorem of_ok {x : Except Fault α} (h : Needs x R) {a : α} (hx : x = .ok a) : R := by
  by_contra hr
  cases hx.symm.trans (h.short hr)

theorem readU8 (p : Nat) : Needs (Lmap.readU8 m p) (m.Readable p 1) := by
  rw [Memory.readable_one]
  cases hp : m p with
  | none => exact ⟨by simp, fun _ => readU8_of_none hp⟩
  | some b => exact ⟨fun _ => ⟨b, readU8_of_some hp⟩, by simp⟩

theorem readU16 (h : Host) (p : Nat) : Needs (Lmap.readU16 h m p) (m.Readable p 2) := by
  refine ((readU8 p).bind fun _ _ => (readU8 (p + 1)).bind fun _ _ => Needs.pure _).congr ?_
  have hsplit : m.Readable p 2 ↔ m.Readable p 1 ∧ m.Readable (p + 1) 1 :=
    Memory.readable_append (k := 1) (n := 1)
  rw [hsplit]
  simp

theorem readBytes (p n : Nat) : Needs (Lmap.readBytes m p n) (m.Readable p n) := by
  constructor
  · intro hr
    exact ⟨_, readBytes_of_holds hr.holds_bytes (by simp)⟩
  · intro hr
    cases hx : Lmap.readBytes m p n with
    | ok bs =>
      obtain ⟨hlen, hholds⟩ := readBytes_ok_iff.mp hx
      exact absurd (hlen ▸ hholds.readable) hr
    | error f =>
      unfold Lmap.readBytes at hx
      split at hx <;> cases hx
      rfl

theorem ipAddrInit (sa : IpAddr) (p : Nat) :
    Needs (Lmap.ipAddrInit m sa AF_INET p) (m.Readable p 4) :=
  ((readBytes p 4).bind fun _ _ => Needs.pure _).congr (by simp)

theorem ipAddrInit6 (sa : IpAddr) (p : Nat) :
    Needs (Lmap.ipAddrInit m sa AF_INET6 p) (m.Readable p 16) :=
  ((readBytes p 16).bind fun _ _ => Needs.pure _).congr (by simp)

theorem fingerprintPush (f : Finger) (param : FingerParam) (value : Int) :
    Needs (Lmap.fingerprintPush (some f) param value) True := by
  rw [fingerprintPush_pushed]
  exact Needs.pure _

end Needs

variable {e : Env} {buf n : Nat} {w : World}

theorem decodeEth_needs : Needs (decodeEth e buf n w) (e.mem.Readable buf 14) := by
  refine ((Needs.readBytes (buf + 6) 6).bind fun _ _ => (Needs.readBytes buf 6).bind fun _ _ =>
    (Needs.readU16 e.host (buf + 12)).bind fun _ _ => Needs.pure _).congr ?_
  have h1 : e.mem.Readable buf 14 ↔ e.mem.Readable buf 6 ∧ e.mem.Readable (buf + 6) 8 :=
    Memory.readable_append (k := 6) (n := 8)
  have h2 : e.mem.Readable (buf + 6) 8 ↔
      e.mem.Readable (buf + 6) 6 ∧ e.mem.Readable (buf + 12) 2 :=
    Memory.readable_append (k := 6) (n := 2)
  rw [h1, h2]
  tauto

/-- The bytes of an 802.11 header that are looked at, and those of the LLC header after it. -/
def WifiReadable (m : Memory) (buf : Nat) : Prop :=
  m.Readable (buf + 4) 12 ∧ m.Readable buf 2 ∧
    (net16 (m.byte buf) (m.byte (buf + 1)) = WIFI_DATA → m.Readable (buf + 30) 2)

theorem readU16_byte {m : Memory} {h : Host} {p x : Nat} (hx : readU16 h m p = .ok x) :
    ntohs h x = net16 (m.byte p) (m.byte (p + 1)) := by
  obtain ⟨a, b, ha, hb, rfl⟩ := readU16_ok_iff.mp hx
  rw [ntohs_load16, Memory.byte, Memory.byte, ha, hb]
  rfl

theorem decodeWifi_needs : Needs (decodeWifi e buf n w) (WifiReadable e.mem buf) := by
  refine ((Needs.readBytes (buf + 10) 6).bind fun _ _ => (Needs.readBytes (buf + 4) 6).bind
    fun _ _ => (Needs.readU16 e.host buf).bind fun type htype => ?_).congr
      (R := e.mem.Readable (buf + 10) 6 ∧ e.mem.Readable (buf + 4) 6 ∧ e.mem.Readable buf 2 ∧
        (net16 (e.mem.byte buf) (e.mem.byte (buf + 1)) = WIFI_DATA →
          e.mem.Readable (buf + 30) 2)) ?_
  · rw [readU16_byte htype]
    refine (Needs.ite (fun _ => (Needs.readU16 e.host (buf + 24 + 6)).bind fun _ _ => Needs.pure _)
      (fun _ => Needs.ite (fun _ => Needs.pure _) (fun _ => Needs.pure _))).congr ?_
    simp
  · have haddr : e.mem.Readable (buf + 4) 12 ↔
        e.mem.Readable (buf + 4) 6 ∧ e.mem.Readable (buf + 10) 6 :=
      Memory.readable_append (k := 6) (n := 6)
    rw [WifiReadable, haddr]
    tauto

def ArpReadable (m : Memory) (buf : Nat) : Prop :=
  m.Readable (buf + 4) 2 ∧
    ((m.byte (buf + 4)).toNat = 6 ∧ (m.byte (buf + 5)).toNat = 4 →
      m.Readable (buf + 14) 4 ∧ m.Readable (buf + 24) 4) ∧
    ((m.byte (buf + 4)).toNat = 6 ∧ (m.byte (buf + 5)).toNat = 16 →
      m.Readable (buf + 14) 16 ∧ m.Readable (buf + 24) 16)

theorem readU8_byte {m : Memory} {p : Nat} {b : UInt8} (hb : readU8 m p = .ok b) :
    b = m.byte p := by
  rw [readU8_ok_iff] at hb
  rw [Memory.byte, hb]
  rfl

theorem arpAddrs_needs (earp : Nat) (L3 : L3Info) : Needs (arpAddrs e earp AF_INET L3)
    (e.mem.Readable (earp + 6) 4 ∧ e.mem.Readable (earp + 16) 4) :=
  ((Needs.ipAddrInit L3.ipSrc (earp + 6)).bind fun _ _ =>
    (Needs.ipAddrInit L3.ipDst (earp + 16)).bind fun _ _ => Needs.pure _).congr (by simp)

theorem arpAddrs_needs6 (earp : Nat) (L3 : L3Info) : Needs (arpAddrs e earp AF_INET6 L3)
    (e.mem.Readable (earp + 6) 16 ∧ e.mem.Readable (earp + 16) 16) :=
  ((Needs.ipAddrInit6 L3.ipSrc (earp + 6)).bind fun _ _ =>
    (Needs.ipAddrInit6 L3.ipDst (earp + 16)).bind fun _ _ => Needs.pure _).congr (by simp)

theorem decodeArp_needs : Needs (decodeArp e buf n w) (ArpReadable e.mem buf) := by
  have hsplit : e.mem.Readable (buf + 4) 2 ↔
      e.mem.Readable (buf + 4) 1 ∧ e.mem.Readable (buf + 5) 1 :=
    Memory.readable_append (k := 1) (n := 1)
  rw [ArpReadable, hsplit, and_assoc]
  refine (Needs.readU8 (buf + 4)).bind fun hln hh =>
    (Needs.readU8 (buf + 5)).bind fun pln hp => ?_
  rw [readU8_byte hh, readU8_byte hp]
  refine (((Needs.ite (fun _ => arpAddrs_needs _ _) (fun _ => Needs.pure _)).bind fun _ _ =>
    (Needs.ite (fun _ => arpAddrs_needs6 _ _) (fun _ => Needs.pure _)).bind fun _ _ =>
      Needs.pure _)).congr ?_
  simp only [ETH_ADDR_LEN, IP_ADDR_LEN, IP6_ADDR_LEN]
  tauto

theorem ipFinger_needs {ttl : UInt8} {ihl : Nat} :
    Needs (ipFinger e buf ttl ihl) (e.mem.Readable (buf + 6) 2) := by
  refine ((Needs.fingerprintPush _ _ _).bind fun f _ => (Needs.readU16 e.host (buf + 6)).bind
    fun _ _ => (Needs.fingerprintPush _ _ _).bind fun _ _ => Needs.fingerprintPush _ _ _).congr ?_
  simp

def IpReadable (m : Memory) (buf : Nat) : Prop :=
  m.Readable buf 1 ∧ m.Readable (buf + 8) 2 ∧ m.Readable (buf + 12) 8 ∧
    ((m.byte (buf + 9)).toNat = LN_TYPE_TCP → m.Readable (buf + 6) 2)

theorem decodeIp_needs : Needs (decodeIp e buf n w) (IpReadable e.mem buf) := by
  refine ((Needs.readU8 buf).bind fun _ _ => (Needs.ipAddrInit _ (buf + 12)).bind fun _ _ =>
    (Needs.ipAddrInit _ (buf + 16)).bind fun _ _ => (Needs.readU8 (buf + 8)).bind fun _ _ =>
    (Needs.readU8 (buf + 9)).bind (S := ((e.mem.byte (buf + 9)).toNat = LN_TYPE_TCP →
      e.mem.Readable (buf + 6) 2)) fun protocol hp => ?_).congr ?_
  · rw [readU8_byte hp]
    refine ((Needs.ite (fun _ => ipFinger_needs.map some) (fun _ => Needs.pure _)).bind
      fun _ _ => Needs.pure _).congr ?_
    simp
  · have h1 : e.mem.Readable (buf + 8) 2 ↔
        e.mem.Readable (buf + 8) 1 ∧ e.mem.Readable (buf + 9) 1 :=
      Memory.readable_append (k := 1) (n := 1)
    have h2 : e.mem.Readable (buf + 12) 8 ↔
        e.mem.Readable (buf + 12) 4 ∧ e.mem.Readable (buf + 16) 4 :=
      Memory.readable_append (k := 4) (n := 4)
    rw [IpReadable, h1, h2]
    tauto

theorem decodeIp6_needs : Needs (decodeIp6 e buf n w) (e.mem.Readable (buf + 4) 36) := by
  refine ((Needs.readU16 e.host (buf + 4)).bind fun _ _ => (Needs.ipAddrInit6 _ (buf + 8)).bind
    fun _ _ => (Needs.ipAddrInit6 _ (buf + 24)).bind fun _ _ => (Needs.readU8 (buf + 7)).bind
    fun _ _ => (Needs.readU8 (buf + 6)).bind fun _ _ => Needs.pure _).congr ?_
  have h1 : e.mem.Readable (buf + 4) 36 ↔
      e.mem.Readable (buf + 4) 2 ∧ e.mem.Readable (buf + 6) 34 :=
    Memory.readable_append (k := 2) (n := 34)
  have h2 : e.mem.Readable (buf + 6) 34 ↔
      e.mem.Readable (buf + 6) 1 ∧ e.mem.Readable (buf + 7) 33 :=
    Memory.readable_append (k := 1) (n := 33)
  have h3 : e.mem.Readable (buf + 7) 33 ↔
      e.mem.Readable (buf + 7) 1 ∧ e.mem.Readable (buf + 8) 32 :=
    Memory.readable_append (k := 1) (n := 32)
  have h4 : e.mem.Readable (buf + 8) 32 ↔
      e.mem.Readable (buf + 8) 16 ∧ e.mem.Readable (buf + 24) 16 :=
    Memory.readable_append (k := 16) (n := 16)
  rw [h1, h2, h3, h4]
  tauto

theorem decodeIcmp_needs : Needs (decodeIcmp e buf n w) (e.mem.Readable buf 1) :=
  ((Needs.readU8 buf).bind fun _ _ => Needs.pure _).congr (by simp)

theorem decodeIcmp6_needs : Needs (decodeIcmp6 e buf n w) (e.mem.Readable buf 1) :=
  ((Needs.readU8 buf).bind fun _ _ => Needs.pure _).congr (by simp)

theorem decodeUdp_needs : Needs (decodeUdp e buf n w) (e.mem.Readable buf 4) := by
  refine ((Needs.readU16 e.host buf).bind fun _ _ => (Needs.readU16 e.host (buf + 2)).bind
    fun _ _ => Needs.pure _).congr ?_
  have hsplit : e.mem.Readable buf 4 ↔ e.mem.Readable buf 2 ∧ e.mem.Readable (buf + 2) 2 :=
    Memory.readable_append (k := 2) (n := 2)
  rw [hsplit]
  simp

/-- What is looked at of every TCP header: the ports, the offset and the flags. -/
def TcpReadable (m : Memory) (buf : Nat) : Prop := m.Readable buf 4 ∧ m.Readable (buf + 12) 2

def SynAt (m : Memory) (buf : Nat) : Prop := m.byte (buf + 13) &&& TH_SYN ≠ 0

instance (m : Memory) (buf : Nat) : Decidable (SynAt m buf) := inferInstanceAs (Decidable (_ ≠ _))

def offAt (m : Memory) (buf : Nat) : Nat := (m.byte (buf + 12)).toNat / 16

theorem decodeTcp_short (hr : ¬ TcpReadable e.mem buf) :
    decodeTcp e buf n w = .error .outOfRange := by
  have h1 : e.mem.Readable buf 4 ↔ e.mem.Readable buf 2 ∧ e.mem.Readable (buf + 2) 2 :=
    Memory.readable_append (k := 2) (n := 2)
  have h2 : e.mem.Readable (buf + 12) 2 ↔
      e.mem.Readable (buf + 12) 1 ∧ e.mem.Readable (buf + 13) 1 :=
    Memory.readable_append (k := 1) (n := 1)
  rw [TcpReadable, h1, h2] at hr
  refine (Needs.readU8 (buf + 12)).bind_short fun _ ho => (Needs.readU16 e.host buf).bind_short
    fun _ hs => (Needs.readU16 e.host (buf + 2)).bind_short fun _ hd =>
    (Needs.readU8 (buf + 13)).bind_short fun _ hf => ?_
  exact absurd ⟨⟨hs, hd⟩, ho, hf⟩ hr

theorem decodeTcp_eq (he : e.Registered) (hr : TcpReadable e.mem buf) :
    ∃ ret : Option Finger → Ret, decodeTcp e buf n w =
        (if SynAt e.mem buf then tcpSyn e buf (offAt e.mem buf) (e.mem.byte (buf + 13))
          w.bucket.L4.fingerprint else .ok none).map ret ∧
      ∀ f, (ret f).next = appDecoder (net16 (e.mem.byte (buf + 2)) (e.mem.byte (buf + 3))) ∧
        (ret f).len = offAt e.mem buf * 4 := by
  obtain ⟨hports, hflags⟩ := hr
  have hs := readU16_of_some e.host (hports.get (i := 0) (by decide))
    (hports.get (i := 1) (by decide))
  have hd := readU16_of_some e.host (hports.get (i := 2) (by decide))
    (hports.get (i := 3) (by decide))
  have ho := readU8_of_some (hflags.get (i := 0) (by decide))
  have hf := readU8_of_some (hflags.get (i := 1) (by decide))
  simp only [Nat.add_zero] at hs ho
  refine ⟨fun f => ⟨appDecoder (net16 (e.mem.byte (buf + 2)) (e.mem.byte (buf + 3))),
    offAt e.mem buf * 4, updateStat w.stats "TCP" 1, { w.bucket with L4 :=
      ⟨load16 e.host (e.mem.byte buf) (e.mem.byte (buf + 1)),
        load16 e.host (e.mem.byte (buf + 2)) (e.mem.byte (buf + 3)), LN_TYPE_TCP, f⟩ }⟩, ?_,
    fun f => ⟨rfl, rfl⟩⟩
  simp only [decodeTcp, ho, hs, hd, hf, tcpOff_eq, bind, Except.bind, ntohs_load16, he.app]
  by_cases hsyn : SynAt e.mem buf
  · have hbit : e.mem.byte (buf + 12 + 1) &&& TH_SYN ≠ 0 := hsyn
    rw [if_pos hsyn, if_pos hbit]
    simp only [offAt]
    cases tcpSyn e buf ((e.mem.byte (buf + 12)).toNat / 16) (e.mem.byte (buf + 13))
      w.bucket.L4.fingerprint <;> rfl
  · have hbit : ¬ e.mem.byte (buf + 12 + 1) &&& TH_SYN ≠ 0 := hsyn
    rw [if_neg hsyn, if_neg hbit]
    rfl

def NULL_FINGER : Fault := .error "finger_push used on NULL string !!"

/-- Without a fingerprint from the network layer, a SYN is fatal. -/
theorem tcpSyn_none (off : Nat) (flags : UInt8) : tcpSyn e buf off flags none =
    if e.mem.Readable (buf + 14) 2 then .error NULL_FINGER else .error .outOfRange := by
  by_cases hr : e.mem.Readable (buf + 14) 2
  · obtain ⟨win, hwin⟩ := (Needs.readU16 e.host (buf + 14)).ok hr
    simp [tcpSyn, hwin, hr, fingerprintPush_none, bind, Except.bind, NULL_FINGER]
  · simp [tcpSyn, (Needs.readU16 e.host (buf + 14)).short hr, hr, bind, Except.bind]

theorem tcpSyn_some (off : Nat) (flags : UInt8) (f : Finger) :
    ∃ f', tcpSyn e buf off flags (some f) =
      if e.mem.Readable (buf + 14) 2 then
        optLoop e.host e.mem (buf + 20) (optEnd e buf off) (some f')
      else .error .outOfRange := by
  by_cases hr : e.mem.Readable (buf + 14) 2
  · obtain ⟨win, hwin⟩ := (Needs.readU16 e.host (buf + 14)).ok hr
    obtain ⟨f1, h1⟩ := fingerprintPush_some f .window (ntohs e.host win)
    obtain ⟨f2, h2⟩ := fingerprintPush_some f1 .tcpflag (if flags &&& TH_ACK ≠ 0 then 1 else 0)
    obtain ⟨f3, h3⟩ := fingerprintPush_some f2 .lt ((off * 4 : Nat) : Int)
    refine ⟨f3, ?_⟩
    rw [if_pos hr, tcpSyn, hwin, ok_bind, h1, ok_bind, h2, ok_bind, h3, ok_bind]
  · exact ⟨f, by simp [tcpSyn, (Needs.readU16 e.host (buf + 14)).short hr, hr, bind, Except.bind]⟩

def optArea (e : Env) (buf : Nat) : Nat := optEnd e buf (offAt e.mem buf)

theorem decodeTcp_isOk_iff (he : e.Registered) :
    (∃ r, decodeTcp e buf n w = .ok r) ↔ TcpReadable e.mem buf ∧ (SynAt e.mem buf →
      e.mem.Readable (buf + 14) 2 ∧ w.bucket.L4.fingerprint.isSome ∧
      OptionsReadable e.mem (buf + 20) (optArea e buf) ∧
      Tlv.Advancing (optWidth e.mem) (buf + 20) (optArea e buf)) := by
  by_cases hr : TcpReadable e.mem buf
  · obtain ⟨ret, heq, -⟩ := decodeTcp_eq (n := n) (w := w) he hr
    rw [heq]
    simp only [map_ok_iff, hr, true_and]
    by_cases hsyn : SynAt e.mem buf
    · simp only [hsyn, if_true, true_imp_iff]
      cases hf : w.bucket.L4.fingerprint with
      | none =>
        rw [tcpSyn_none]
        by_cases hwin : e.mem.Readable (buf + 14) 2 <;> simp [hwin]
      | some f =>
        obtain ⟨f', htcp⟩ := @tcpSyn_some e buf (offAt e.mem buf) (e.mem.byte (buf + 13)) f
        rw [htcp]
        by_cases hwin : e.mem.Readable (buf + 14) 2
        · have hopt := @optLoop_ok_iff e.host e.mem (buf + 20) (optArea e buf) f'
          simp only [hwin, if_true, Option.isSome_some, true_and, ← hopt]
          exact ⟨fun ⟨_, g, hg, _⟩ => ⟨g, hg⟩, fun ⟨g, hg⟩ => ⟨_, g, hg, rfl⟩⟩
        · simp [hwin]
    · simp [hsyn]
  · simp [decodeTcp_short hr, hr]

theorem decodeTcp_outOfRange_iff (he : e.Registered) :
    decodeTcp e buf n w = .error .outOfRange ↔ ¬ TcpReadable e.mem buf ∨ (SynAt e.mem buf ∧
      (e.mem.Readable (buf + 14) 2 → w.bucket.L4.fingerprint.isSome ∧
        ¬ OptionsReadable e.mem (buf + 20) (optArea e buf))) := by
  by_cases hr : TcpReadable e.mem buf
  · obtain ⟨ret, heq, -⟩ := decodeTcp_eq (n := n) (w := w) he hr
    rw [heq]
    simp only [map_error_iff, hr, not_true, false_or]
    by_cases hsyn : SynAt e.mem buf
    · simp only [hsyn, if_true, true_and]
      cases hf : w.bucket.L4.fingerprint with
      | none =>
        rw [tcpSyn_none]
        by_cases hwin : e.mem.Readable (buf + 14) 2 <;> simp [hwin, NULL_FINGER]
      | some f =>
        obtain ⟨f', htcp⟩ := @tcpSyn_some e buf (offAt e.mem buf) (e.mem.byte (buf + 13)) f
        rw [htcp]
        by_cases hwin : e.mem.Readable (buf + 14) 2
        · simp only [hwin, if_true, Option.isSome_some, true_and, true_imp_iff]
          exact optLoop_outOfRange_iff f'
        · simp [hwin]
    · simp [hsyn]
  · simp [decodeTcp_short hr, hr]

theorem decodeTcp_fatal_iff (he : e.Registered) (msg : String) :
    decodeTcp e buf n w = .error (.error msg) ↔ NULL_FINGER = .error msg ∧
      TcpReadable e.mem buf ∧ SynAt e.mem buf ∧ e.mem.Readable (buf + 14) 2 ∧
      w.bucket.L4.fingerprint = none := by
  by_cases hr : TcpReadable e.mem buf
  · obtain ⟨ret, heq, -⟩ := decodeTcp_eq (n := n) (w := w) he hr
    rw [heq]
    simp only [map_error_iff, hr, true_and]
    by_cases hsyn : SynAt e.mem buf
    · simp only [hsyn, if_true, true_and]
      cases hf : w.bucket.L4.fingerprint with
      | none =>
        rw [tcpSyn_none]
        by_cases hwin : e.mem.Readable (buf + 14) 2 <;> simp [hwin]
      | some f =>
        obtain ⟨f', htcp⟩ := @tcpSyn_some e buf (offAt e.mem buf) (e.mem.byte (buf + 13)) f
        rw [htcp]
        by_cases hwin : e.mem.Readable (buf + 14) 2
        · simp only [hwin, if_true, reduceCtorEq, and_false, iff_false]
          exact optLoop_ne_error f' msg
        · simp [hwin]
    · simp [hsyn]
  · simp [decodeTcp_short hr, hr]

variable {r : Ret}

theorem decodeEth_steers (he : e.Registered) (h : decodeEth e buf n w = .ok r) :
    r.next = netDecoder (net16 (e.mem.byte (buf + 12)) (e.mem.byte (buf + 13))) ∧ r.len = 14 ∧
      r.world.bucket.L4 = w.bucket.L4 := by
  obtain ⟨dha, sha, a, b, hd, hs, hholds, rfl⟩ := (decodeEth_ok_iff he).mp h
  have ha : e.mem.byte (buf + 12) = a := hholds.byte_eq (by simp [hd, hs])
  have hb : e.mem.byte (buf + 13) = b := hholds.byte_eq (by simp [hd, hs])
  rw [ha, hb]
  exact ⟨rfl, rfl, rfl⟩

theorem decodeWifi_steers (he : e.Registered) (h : decodeWifi e buf n w = .ok r) :
    r.world.bucket.L4 = w.bucket.L4 ∧
      if net16 (e.mem.byte buf) (e.mem.byte (buf + 1)) = WIFI_DATA then
        r.next = netDecoder (net16 (e.mem.byte (buf + 30)) (e.mem.byte (buf + 31))) ∧ r.len = 32
      else r.next = none := by
  obtain ⟨t0, t1, _, _, -, -, htype, -, hw, hkind⟩ := (decodeWifi_ok_iff he).mp h
  have h0 : e.mem.byte buf = t0 := htype.byte_eq (i := 0) rfl
  have h1 : e.mem.byte (buf + 1) = t1 := htype.byte_eq rfl
  rw [h0, h1]
  refine ⟨by rw [hw], ?_⟩
  split at hkind
  · rename_i hdata
    obtain ⟨a, b, hll, hnext, hlen⟩ := hkind
    have ha : e.mem.byte (buf + 30) = a := hll.byte_eq (i := 0) rfl
    have hb : e.mem.byte (buf + 31) = b := hll.byte_eq (i := 1) rfl
    rw [if_pos hdata, ha, hb]
    exact ⟨hnext, hlen⟩
  · rename_i hdata
    rw [if_neg hdata]
    split at hkind
    · exact hkind.1
    · exact hkind.1

def ihlAt (m : Memory) (buf : Nat) : Nat := (m.byte buf).toNat % 16

theorem decodeIp_steers (he : e.Registered) (h : decodeIp e buf n w = .ok r) :
    r.next = protoDecoder (e.mem.byte (buf + 9)).toNat ∧ r.len = ihlAt e.mem buf * 4 ∧
      ((e.mem.byte (buf + 9)).toNat = LN_TYPE_TCP →
        r.world.bucket.L4.fingerprint.isSome) := by
  obtain ⟨b0, ttl, protocol, _, _, finger, h0, hproto, -, -, -, hf, rfl⟩ :=
    (decodeIp_ok_iff he).mp h
  have h9 : e.mem.byte (buf + 9) = protocol := hproto.byte_eq (i := 1) rfl
  have hb0 : e.mem.byte buf = b0 := by rw [Memory.byte, h0]; rfl
  rw [h9, ihlAt, hb0]
  refine ⟨rfl, rfl, fun htcp => ?_⟩
  rw [if_pos htcp] at hf
  obtain ⟨_, _, -, rfl⟩ := hf
  rfl

def ip6LenAt (e : Env) (buf : Nat) : Nat :=
  ip6Len e.host (e.mem.byte (buf + 4)) (e.mem.byte (buf + 5))

theorem decodeIp6_steers (he : e.Registered) (h : decodeIp6 e buf n w = .ok r) :
    r.next = protoDecoder (e.mem.byte (buf + 6)).toNat ∧ r.len = ip6LenAt e buf ∧
      r.world.bucket.L4 = w.bucket.L4 := by
  obtain ⟨l0, l1, nextHdr, _, _, _, hhdr, -, -, -, rfl⟩ := (decodeIp6_ok_iff he).mp h
  have h4 : e.mem.byte (buf + 4) = l0 := hhdr.byte_eq (i := 0) rfl
  have h5 : e.mem.byte (buf + 5) = l1 := hhdr.byte_eq (i := 1) rfl
  have h6 : e.mem.byte (buf + 6) = nextHdr := hhdr.byte_eq (i := 2) rfl
  rw [ip6LenAt, h4, h5, h6]
  exact ⟨rfl, rfl, rfl⟩

theorem decodeTcp_steers (he : e.Registered) (h : decodeTcp e buf n w = .ok r) :
    r.next = appDecoder (net16 (e.mem.byte (buf + 2)) (e.mem.byte (buf + 3))) ∧
      r.len = offAt e.mem buf * 4 := by
  have hr : TcpReadable e.mem buf := ((decodeTcp_isOk_iff he).mp ⟨r, h⟩).1
  obtain ⟨ret, heq, hret⟩ := decodeTcp_eq (n := n) (w := w) he hr
  rw [heq, map_ok_iff] at h
  obtain ⟨f, -, rfl⟩ := h
  exact hret f

end Lmap
