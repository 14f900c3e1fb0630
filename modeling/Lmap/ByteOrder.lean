import Lmap.OptionFields
import Lmap.RoundTrip

/-!
The two builds, for a little endian and for a big endian host, on one frame. The
decoders go the same way in both; a segment size comes out with its bytes exchanged.
-/

set_option autoImplicit false

namespace Lmap
open CString

theorem net16_swap {a b : UInt8} : net16 a b = net16 b a ↔ a = b := by
  have ha := a.toNat_lt
  have hb := b.toNat_lt
  rw [← UInt8.toNat_inj, net16, net16]
  omega

inductive SizeAt (m : Memory) (start stop : Nat) : Nat → Option (UInt8 × UInt8) → Prop where
  | first : SizeAt m start stop start none
  | next {p n : Nat} {size : Option (UInt8 × UInt8)} : SizeAt m start stop p size → p < stop →
      optWidth m p = some n →
      SizeAt m start stop (p + n)
        (if m p = some TCPOPT_MAXSEG then some (sizeBytes m p) else size)

/-- The walk ends, and `size` is the last segment size it came by. -/
def LastSize (m : Memory) (start stop : Nat) (size : Option (UInt8 × UInt8)) : Prop :=
  ∃ p, SizeAt m start stop p size ∧ (stop ≤ p ∨ p < stop ∧ m p = some TCPOPT_EOL)

def FingerFields.sized (F : FingerFields) (h : Host) (size : Option (UInt8 × UInt8)) :
    FingerFields := { F with mss := size.map fun ab => sizeRead h ab.1 ab.2 }

variable {h h' : Host} {m : Memory} {start stop p : Nat} {F : FingerFields}
  {size : Option (UInt8 × UInt8)}

theorem optNote_sized : ∃ G : FingerFields, ∀ h, optNote h m p (F.sized h size) =
    G.sized h (if m p = some TCPOPT_MAXSEG then some (sizeBytes m p) else size) := by
  cases hk : m p with
  | none => exact ⟨F, fun h => by simp [optNote, hk]⟩
  | some kind =>
    by_cases h2 : kind = TCPOPT_MAXSEG
    · refine ⟨F, fun h => ?_⟩
      subst h2
      simp [optNote, hk, FingerFields.sized, FingerFields.push, TCPOPT_MAXSEG, TCPOPT_NOP,
        TCPOPT_SACKOK]
    · refine ⟨optNote ⟨false, 0⟩ m p F, fun h => ?_⟩
      simp only [optNote, hk, h2, Option.some.injEq, if_false]
      split
      · rfl
      split
      · rfl
      split
      · rfl
      split
      · rfl
      · rfl

theorem run_sizeAt (hp : SizeAt m start stop p size) (hF : F.mss = none) :
    ∃ (k : Nat) (G : FingerFields), ∀ h n,
      Loop.run (optBody h m stop) (n + k) ⟨start, some F.buffer⟩ =
      Loop.run (optBody h m stop) n ⟨p, some (G.sized h size).buffer⟩ := by
  induction hp with
  | first =>
    have hsame : ∀ h, F.sized h none = F := by
      intro h
      rw [FingerFields.sized, Option.map_none, ← hF]
    exact ⟨0, F, fun h n => by rw [hsame]; rfl⟩
  | @next p n size _ hlt hn ih =>
    obtain ⟨k, G, hrun⟩ := ih
    obtain ⟨G', hnote⟩ := @optNote_sized m p G size
    refine ⟨k + 1, G', fun h i => ?_⟩
    have hround := optBody_width (h := h) (f := (G.sized h size).buffer) hlt hn
    rw [optPush_buffer, hnote] at hround
    calc
      Loop.run (optBody h m stop) (i + (k + 1)) ⟨start, some F.buffer⟩
        = Loop.run (optBody h m stop) (i + 1 + k) ⟨start, some F.buffer⟩ := by
          rw [Nat.add_comm k 1, Nat.add_assoc]
      _ = Loop.run (optBody h m stop) (i + 1) ⟨p, some (G.sized h size).buffer⟩ := hrun h (i + 1)
      _ = _ := Loop.run_again hround i

theorem optLoop_sized (hlast : LastSize m start stop size) (hF : F.mss = none) :
    ∃ G : FingerFields, ∀ h, optLoop h m start stop (some F.buffer) =
      .ok (some (G.sized h size).buffer) := by
  obtain ⟨p, hp, hend⟩ := hlast
  obtain ⟨k, G, hrun⟩ := run_sizeAt hp hF
  refine ⟨G, fun h => ?_⟩
  rw [optLoop_fuel (n := stop - start + 2 + k) (by omega), hrun]
  rcases hend with hle | ⟨hlt, heol⟩
  · rw [Loop.run_leave (optBody_done hle)]
  · rw [Loop.run_again (optBody_eol hlt heol), Loop.run_leave (optBody_done (Nat.le_refl _))]

theorem lastSize_exists (hread : OptionsReadable m start stop)
    (hadv : Tlv.Advancing (optWidth m) start stop) : ∃ size, LastSize m start stop size := by
  have hfrom : ∀ room k p size, stop - p = room → Tlv.ItemAt (optWidth m) start stop k p →
      SizeAt m start stop p size → ∃ size, LastSize m start stop size := by
    intro room
    induction room using Nat.strong_induction_on with
    | _ room ih =>
      intro k p size hroom hitem hp
      by_cases hlt : p < stop
      · rcases hread k p hitem hlt with heol | hn
        · exact ⟨size, p, hp, .inr ⟨hlt, heol⟩⟩
        · obtain ⟨n, hn⟩ := Option.isSome_iff_exists.mp hn
          have hpos : n ≠ 0 := by
            rintro rfl
            exact hadv k p hitem hlt hn
          exact ih (stop - (p + n)) (by omega) _ _ _ rfl (.next hitem hlt hn) (.next hp hlt hn)
      · exact ⟨size, p, hp, .inl (Nat.le_of_not_lt hlt)⟩
  exact hfrom _ 0 start none rfl .first .first

theorem sized_text (G : FingerFields) (ab : UInt8 × UInt8) :
    (G.sized h (some ab)).text .lower = ((G.pieces .lower).take 2).flatten ++
      (hex4 .upper (sizeRead h ab.1 ab.2) ++ ((G.pieces .lower).drop 3).flatten) := by
  simp [FingerFields.text, FingerFields.pieces, FingerFields.mssText, FingerFields.flagText,
    FingerFields.sized]

theorem sized_buffer_iff (hle : h.bigEndian = false) (hbe : h'.bigEndian = true)
    (G : FingerFields) :
    (G.sized h size).buffer = (G.sized h' size).buffer ↔ ∀ ab ∈ size, ab.1 = ab.2 := by
  cases size with
  | none => simp [FingerFields.sized]
  | some ab =>
    have hlt := sizeRead_lt h ab.1 ab.2
    have hlt' := sizeRead_lt h' ab.1 ab.2
    have hhex : hex4 .upper (sizeRead h ab.1 ab.2) = hex4 .upper (sizeRead h' ab.1 ab.2) ↔
        ab.1 = ab.2 := by
      rw [hex4_inj hlt hlt', sizeRead_little hle, sizeRead_big hbe, net16_swap]
    simp only [FingerFields.buffer, sized_text,
      List.append_cancel_right_eq, List.append_cancel_left_eq, hhex, Option.mem_some_iff,
      forall_eq']

def Host.little (bits : Nat) : Host := ⟨false, bits⟩

def Host.big (bits : Nat) : Host := ⟨true, bits⟩

def Env.on (e : Env) (h : Host) : Env := { e with host := h }

inductive Beside (caplen : Nat) (ip : Ip4Header) (seg : Segment) : Chain → Chain → Prop where
  | eth (w w' : World) : Beside caplen ip seg (.at caplen .eth 0 w) (.at caplen .eth 0 w')
  | ip (w w' : World) : Beside caplen ip seg (.at caplen .ip 14 w) (.at caplen .ip 14 w')
  | segment (w w' : World) (begun : seg.decoder = .tcp → w.bucket.L4.fingerprint.isSome)
      (begun' : seg.decoder = .tcp → w'.bucket.L4.fingerprint.isSome) :
      Beside caplen ip seg (.at caplen seg.decoder ip.after w) (.at caplen seg.decoder ip.after w')
  | app (d : Decoder) (p : Nat) (w w' : World) (app : d = .dhcpd ∨ d = .dhcpc) :
      Beside caplen ip seg (.at caplen d p w) (.at caplen d p w')

section Frame

abbrev AgreeBeside (caplen : Nat) (ip : Ip4Header) (seg : Segment) (c c' : Chain) :
    Except Fault Ret → Except Fault Ret → Prop :=
  Agree (fun _ _ => True) (Hands (Beside caplen ip seg) (fun _ _ => True) c c')

variable {e : Env} {caplen : Nat} {eth : EthHeader} {ip : Ip4Header} {seg : Segment}
  {payload : List UInt8} {w w' : World}

theorem Env.on_registered (he : e.Registered) (h : Host) : (e.on h).Registered :=
  ⟨he.net, he.proto, he.app⟩

theorem appDecoder_app {n : Nat} {d : Decoder} (h : appDecoder n = some d) :
    d = .dhcpd ∨ d = .dhcpc :=
  proto_successor (d := .tcp) (by decide) (appDecoder_mem h)

theorem hands_app {d : Decoder} {r r' : Ret} {port : Nat} (hnext : r.next = r'.next)
    (hlen : r.len = r'.len) (hport : r.next = appDecoder port) :
    Hands (Beside caplen ip seg) (fun _ _ => True) (.at caplen d p w) (.at caplen d p w') r r' where
  next := hnext
  len := hlen
  world := trivial
  again := by
    intro d' hd
    rw [at_after, at_after, ← hlen]
    exact .app _ _ _ _ (appDecoder_app (hport ▸ hd))

theorem decodeUdp_beside (he : e.Registered) {udp : UdpHeader} (hm : e.mem.Holds p udp.encode)
    (n : Nat) : AgreeBeside caplen ip seg (.at caplen .udp p w) (.at caplen .udp p w')
      (decodeUdp e p n w) (decodeUdp (e.on h') p n w') := by
  rw [decodeUdp_encode he hm, decodeUdp_encode (e := e.on h') (Env.on_registered he h') hm]
  exact hands_app rfl rfl rfl

theorem walkEnds_on (hbits : h'.ptrBits = e.host.ptrBits) :
    seg.WalkEnds (e.on h') p ↔ seg.WalkEnds e p := by
  cases seg with
  | udp header => exact Iff.rfl
  | tcp header => simp only [Segment.WalkEnds, optEnd, Env.on, hbits]

theorem decodeTcp_beside (he : e.Registered) {tcp : TcpHeader} (hm : e.mem.Holds p tcp.encode)
    (hbits : h'.ptrBits = e.host.ptrBits) (hw : w.bucket.L4.fingerprint.isSome)
    (hw' : w'.bucket.L4.fingerprint.isSome) (n : Nat) :
    AgreeBeside caplen ip seg (.at caplen .tcp p w) (.at caplen .tcp p w')
      (decodeTcp e p n w) (decodeTcp (e.on h') p n w') := by
  have he' := Env.on_registered he h'
  have hm' : (e.on h').mem.Holds p tcp.encode := hm
  have hok := decodeTcp_encode_isOk (n := n) he hm hw
  have hok' := decodeTcp_encode_isOk (n := n) he' hm' hw'
  rw [walkEnds_on hbits, ← hok] at hok'
  cases hr : decodeTcp e p n w with
  | error f =>
    cases hr' : decodeTcp (e.on h') p n w' with
    | error f' => trivial
    | ok r' =>
      obtain ⟨r, hr''⟩ := hok'.mp ⟨r', hr'⟩
      cases hr.symm.trans hr''
  | ok r =>
    obtain ⟨r', hr'⟩ := hok'.mpr ⟨r, hr⟩
    rw [hr']
    obtain ⟨_, -, rfl⟩ := (decodeTcp_encode_ok_iff he hm).mp hr
    obtain ⟨_, -, rfl⟩ := (decodeTcp_encode_ok_iff he' hm').mp hr'
    exact hands_app rfl rfl rfl

theorem beside_step (caplen : Nat) (he : e.Registered) (hbits : h'.ptrBits = e.host.ptrBits)
    (hm : e.mem.Holds 0 (seg.frame eth ip payload)) (c c' : Chain)
    (hc : Beside caplen ip seg c c') :
    Loop.StepRel (Beside caplen ip seg) (Agree (fun _ _ => True) (fun _ _ => True))
      (chainBody e c) (chainBody (e.on h') c') := by
  have he' := Env.on_registered he h'
  have hseg := ((Memory.holds_append _ _ _).mp (holds_segment hm)).1
  simp only [Segment.frame, ip4Frame, Memory.holds_append, EthHeader.encode_length,
    Nat.zero_add] at hm
  obtain ⟨hm0, hm1, -⟩ := hm
  cases hc with
  | eth w w' =>
    refine chainBody_agree rfl ?_
    have hcall := decodeEth_encode (n := leftAt caplen 0) (w := w) he hm0
    have hcall' := decodeEth_encode (e := e.on h') (n := leftAt caplen 0) (w := w') he' hm0
    rw [call_at, call_at, callAt, callAt, Decoder.call, hcall, hcall']
    refine ⟨rfl, rfl, trivial, fun d hd => ?_⟩
    obtain rfl := Option.some.inj hd
    rw [at_after, at_after]
    exact .ip _ _
  | ip w w' =>
    refine chainBody_agree rfl ?_
    have hcall := decodeIp_encode (n := leftAt caplen 14) (w := w) he hm1
    have hcall' := decodeIp_encode (e := e.on h') (n := leftAt caplen 14) (w := w') he' hm1
    rw [call_at, call_at, callAt, callAt, Decoder.call, hcall, hcall']
    refine ⟨rfl, rfl, trivial, fun d hd => ?_⟩
    obtain rfl := Option.some.inj (seg.protoDecoder_protocol.symm.trans hd)
    have hbegun : ∀ h b, seg.decoder = .tcp → (ip.fill h seg.protocol b).L4.fingerprint.isSome := by
      intro h b htcp
      cases seg with
      | udp header => cases htcp
      | tcp header => rfl
    rw [at_after, at_after]
    exact .segment _ _ (hbegun _ _) (hbegun _ _)
  | segment w w' begun begun' =>
    refine chainBody_agree rfl ?_
    cases seg with
    | udp header => exact decodeUdp_beside he hseg (leftAt caplen ip.after)
    | tcp header =>
      exact decodeTcp_beside he hseg hbits (begun rfl) (begun' rfl) (leftAt caplen ip.after)
  | app d p w w' happ =>
    refine chainBody_agree rfl ?_
    rcases happ with rfl | rfl <;> exact ⟨rfl, rfl, trivial, fun d hd => nomatch hd⟩

end Frame

/-- A segment size that reads the same in either order, wherever the walk over the options of a
SYN ends with one. -/
def Segment.SizeEven (e : Env) (p : Nat) : Segment → Prop
  | udp _ => True
  | tcp header => header.Syn → ∀ a b,
      LastSize e.mem (p + 20) (optEnd e p header.off) (some (a, b)) → a = b

theorem optLoop_fails (hends : ¬ (OptionsReadable m start stop ∧
      Tlv.Advancing (optWidth m) start stop)) :
    ∃ fault, ∀ h f, optLoop h m start stop (some f) = .error fault := by
  by_cases hread : OptionsReadable m start stop
  · obtain ⟨k, p, hitem, hlt, hn⟩ := Tlv.not_advancing_iff.mp (fun hadv => hends ⟨hread, hadv⟩)
    exact ⟨.hang, fun h f => optLoop_hang hitem hlt hn f⟩
  · exact ⟨.outOfRange, fun h f => (optLoop_outOfRange_iff f).mpr hread⟩

theorem optLoop_same_iff (hle : h.bigEndian = false) (hbe : h'.bigEndian = true)
    (hF : F.mss = none) :
    optLoop h m start stop (some F.buffer) = optLoop h' m start stop (some F.buffer) ↔
      ∀ a b, LastSize m start stop (some (a, b)) → a = b := by
  by_cases hends : OptionsReadable m start stop ∧ Tlv.Advancing (optWidth m) start stop
  · obtain ⟨size, hlast⟩ := lastSize_exists hends.1 hends.2
    obtain ⟨G, hloop⟩ := optLoop_sized hlast hF
    have hiff : optLoop h m start stop (some F.buffer) =
        optLoop h' m start stop (some F.buffer) ↔ ∀ ab ∈ size, ab.1 = ab.2 := by
      rw [hloop, hloop, Except.ok.injEq, Option.some.injEq, sized_buffer_iff hle hbe]
    constructor
    · intro heq a b hab
      obtain ⟨G', hloop'⟩ := optLoop_sized hab hF
      rw [hloop', hloop', Except.ok.injEq, Option.some.injEq, sized_buffer_iff hle hbe] at heq
      exact heq (a, b) rfl
    · intro heven
      rw [hiff]
      rintro ⟨a, b⟩ hab
      exact heven a b (hab ▸ hlast)
  · obtain ⟨fault, hfail⟩ := optLoop_fails hends
    refine iff_of_true (by rw [hfail, hfail]) (fun a b hab => ?_)
    obtain ⟨G, hloop⟩ := optLoop_sized hab hF
    cases (hfail h F.buffer).symm.trans (hloop h)

theorem tcpSyn_same_iff (h' : Host) {e : Env} (hle : e.host.bigEndian = false)
    (hbe : h'.bigEndian = true) (hbits : h'.ptrBits = e.host.ptrBits) {tcp : TcpHeader}
    (hm : e.mem.Holds p tcp.encode) (hF : F.mss = none) (hlt : F.lt.getD 0 + tcp.off * 4 < 256) :
    tcpSyn e p tcp.off tcp.flags (some F.buffer) =
        tcpSyn (e.on h') p tcp.off tcp.flags (some F.buffer) ↔
      ∀ a b, LastSize e.mem (p + 20) (optEnd e p tcp.off) (some (a, b)) → a = b := by
  obtain ⟨-, ⟨-, -, hwin0, hwin1, -⟩, -⟩ := tcp.holds_encode hm
  have hend : optEnd (e.on h') p tcp.off = optEnd e p tcp.off := by
    simp only [optEnd, Env.on, hbits]
  have hnote := tcpSyn_note tcp.flags hwin0 hwin1 hlt
  have hnote' := tcpSyn_note (e := e.on h') tcp.flags hwin0 hwin1 hlt
  rw [hend] at hnote'
  rw [hnote, hnote']
  exact optLoop_same_iff hle hbe hF

theorem Ip4Header.fields_lt (ip : Ip4Header) {off : Nat} (hoff : off ≤ 15) :
    ip.fields.lt.getD 0 + off * 4 < 256 := by
  have hihl := ip.ihl_le
  simp only [Ip4Header.fields, ipFields, FingerFields.push, FingerFields.initial,
    Option.getD_none, Option.getD_some, Int.toNat_natCast]
  omega

def printed (h : Host) (g : Globals) (pkt : Packet) : Except Fault (Option Finger) :=
  (lmapDecode h g pkt).map fun ret => ret.1.L4.fingerprint

def decodersAt (n : Nat) (h : Host) (g : Globals) (pkt : Packet) : List (Decoder × Nat) :=
  (lmapCalls n h g pkt).map fun c => (c.decoder, c.data)

theorem decodersAt_same (h h' : Host) (r : Running) (pkt : Packet) (hlink : r.link = .eth)
    {eth : EthHeader} {ip : Ip4Header} {seg : Segment} {payload : List UInt8}
    (hbytes : pkt.bytes = seg.frame eth ip payload) (hbits : h'.ptrBits = h.ptrBits) (n : Nat) :
    decodersAt n h r.globals pkt = decodersAt n h' r.globals pkt := by
  have he := r.env_registered h pkt
  have hm : (lmapEnv h r.globals pkt).mem.Holds 0 (seg.frame eth ip payload) :=
    pkt.holds_of_bytes hbytes
  have hstart : lmapStart r.globals pkt .eth =
      Chain.at pkt.caplen .eth 0 ⟨r.stats, dbBucketAlloc⟩ := by
    simp [lmapStart, Chain.at, Running.globals]
  have hrel := Loop.visits_rel (beside_step pkt.caplen he hbits hm) n
    (Beside.eth ⟨r.stats, dbBucketAlloc⟩ ⟨r.stats, dbBucketAlloc⟩)
  have hsame : ∀ c c', Beside pkt.caplen ip seg c c' →
      (c.decoder, c.data) = (c'.decoder, c'.data) := by
    intro c c' hc
    cases hc <;> rfl
  simp only [decodersAt, lmapCalls, r.l2Decoder_globals, hlink, Link.decoder, hstart]
  exact List.forall₂_eq_eq_eq ▸ List.forall₂_map_left_iff.mpr
    (List.forall₂_map_right_iff.mpr (hrel.imp hsame))

theorem printed_frame (h : Host) (r : Running) (pkt : Packet) (hlink : r.link = .eth)
    {eth : EthHeader} {ip : Ip4Header} {seg : Segment} {payload : List UInt8}
    (hbytes : pkt.bytes = seg.frame eth ip payload) (hlen : pkt.bytes.length < 2 ^ 31) :
    printed h r.globals pkt = (callAt (lmapEnv h r.globals pkt) pkt.caplen seg.decoder ip.after
      ⟨updateStat (updateStat r.stats "TOTAL" 1) "IP" 1,
        ip.fillFrame h eth seg.protocol dbBucketAlloc⟩).map
          fun ret => ret.world.bucket.L4.fingerprint := by
  rw [printed, lmapDecode_frame_eq h r pkt hlink hbytes hlen]
  cases callAt (lmapEnv h r.globals pkt) pkt.caplen seg.decoder ip.after
    ⟨updateStat (updateStat r.stats "TOTAL" 1) "IP" 1,
      ip.fillFrame h eth seg.protocol dbBucketAlloc⟩ <;> rfl

theorem decodeTcp_finger {e : Env} (he : e.Registered) {tcp : TcpHeader}
    (hm : e.mem.Holds p tcp.encode) (n : Nat) (w : World) :
    (decodeTcp e p n w).map (fun ret => ret.world.bucket.L4.fingerprint) =
      if tcp.flags &&& TH_SYN ≠ 0 then tcpSyn e p tcp.off tcp.flags w.bucket.L4.fingerprint
      else .ok none := by
  rw [decodeTcp_encode he hm]
  generalize (if tcp.flags &&& TH_SYN ≠ 0 then
    tcpSyn e p tcp.off tcp.flags w.bucket.L4.fingerprint else .ok none) = res
  cases res <;> rfl

theorem printed_same_iff (bits : Nat) (r : Running) (pkt : Packet) (hlink : r.link = .eth)
    {eth : EthHeader} {ip : Ip4Header} {seg : Segment} {payload : List UInt8}
    (hbytes : pkt.bytes = seg.frame eth ip payload) (hlen : pkt.bytes.length < 2 ^ 31) :
    printed (.little bits) r.globals pkt = printed (.big bits) r.globals pkt ↔
      seg.SizeEven (lmapEnv (.little bits) r.globals pkt) ip.after := by
  have hm : (lmapEnv (.little bits) r.globals pkt).mem.Holds 0
      (ip4Frame eth ip seg.protocol (seg.encode ++ payload)) :=
    pkt.holds_of_bytes hbytes
  have hseg := ((Memory.holds_append _ _ _).mp (holds_segment hm)).1
  have he := fun h => r.env_registered h pkt
  rw [printed_frame _ r pkt hlink hbytes hlen, printed_frame _ r pkt hlink hbytes hlen]
  cases seg with
  | udp header =>
    have hcall := fun h w => decodeUdp_encode (e := lmapEnv h r.globals pkt)
      (n := leftAt pkt.caplen ip.after) (w := w) (he h) hseg
    refine iff_of_true ?_ trivial
    simp only [callAt, Decoder.call, Segment.decoder, hcall]
    rfl
  | tcp header =>
    have hcall := fun h w => decodeTcp_finger (he h) hseg (leftAt pkt.caplen ip.after) w
    simp only [callAt, Decoder.call, Segment.decoder, hcall, Segment.SizeEven, TcpHeader.Syn]
    by_cases hsyn : header.flags &&& TH_SYN ≠ 0
    · rw [if_pos hsyn, if_pos hsyn, forall_prop_of_true hsyn]
      exact tcpSyn_same_iff (.big bits) (e := lmapEnv (.little bits) r.globals pkt)
        (F := ip.fields) rfl rfl rfl hseg rfl (ip.fields_lt header.off_le.2)
    · simp [hsyn]

/-- The two builds call the same decoders at the same offsets, and give the same fingerprint
exactly if the last segment size of a SYN has two equal bytes: the big endian build puts the
bytes together in the wrong order. -/
theorem lmapDecode_byte_order_iff (bits : Nat) (r : Running) (pkt : Packet) (eth : EthHeader)
    (ip : Ip4Header) (seg : Segment) (payload : List UInt8) (hlink : r.link = .eth)
    (hbytes : pkt.bytes = seg.frame eth ip payload) (hlen : pkt.bytes.length < 2 ^ 31) :
    (∀ n, decodersAt n (.little bits) r.globals pkt = decodersAt n (.big bits) r.globals pkt) ∧
        printed (.little bits) r.globals pkt = printed (.big bits) r.globals pkt ↔
      seg.SizeEven (lmapEnv (.little bits) r.globals pkt) ip.after := by
  rw [printed_same_iff bits r pkt hlink hbytes hlen]
  exact and_iff_right (fun n => decodersAt_same (.little bits) (.big bits) r pkt hlink hbytes rfl n)

def doubledArea : OptionArea := ⟨[.mss 0x0505], mssArea.padding, mssArea.padding_eol⟩

def doubledSegment : Segment := .tcp (synHeader ⟨doubledArea.encode, by decide⟩)

def doubledPacket : Packet :=
  ⟨0x1000, doubledSegment.frame sampleEth sampleIp [], by decide, fun _ => none⟩

theorem lmapDecode_byte_order_doubled :
    doubledSegment.SizeEven (lmapEnv (.little 64) (Running.listed .eth).globals doubledPacket)
      sampleIp.after :=
  (lmapDecode_byte_order_iff 64 (Running.listed .eth) doubledPacket sampleEth sampleIp
    doubledSegment [] rfl rfl (by decide)).mp
      ⟨fun n => decodersAt_same (.little 64) (.big 64) (Running.listed .eth) doubledPacket rfl
          (show doubledPacket.bytes = doubledSegment.frame sampleEth sampleIp [] from rfl) rfl n,
        by decide +kernel⟩

/-- A segment size of 1460, `05b4`, is read as `b405`. -/
theorem mssPacket_differs : mssSegment.WellFormed ∧
    mssPacket.bytes = mssSegment.frame sampleEth sampleIp [] ∧
    printed (.little 64) (Running.listed .eth).globals mssPacket ≠
      printed (.big 64) (Running.listed .eth).globals mssPacket :=
  ⟨fun _ => ⟨mssArea, rfl⟩, rfl, by decide +kernel⟩

end Lmap
