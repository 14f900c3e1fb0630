import Lmap.Address
import Lmap.Shift

/-!
One payload behind an Ethernet header, and behind the headers of an 802.11 data frame from
an access point.
-/

set_option autoImplicit false

namespace Lmap

/-- The addresses of a frame from an access point, in the order in which they are sent:
the third is the source. -/
structure WifiHeader where
  duration : Octets 2
  dha : Octets 6
  bssid : Octets 6
  sha : Octets 6
  seq : Octets 2

/-- A data frame with FromDS set, and the LLC/SNAP header. -/
def WifiHeader.encode (wifi : WifiHeader) (proto : UInt16) : List UInt8 :=
  [0x08, 0x02] ++ (wifi.duration.val ++ (wifi.dha.val ++ (wifi.bssid.val ++ (wifi.sha.val ++
    (wifi.seq.val ++ ([0xaa, 0xaa, 3, 0, 0, 0] ++ be16 proto))))))

@[simp] theorem WifiHeader.encode_length (wifi : WifiHeader) (proto : UInt16) :
    (wifi.encode proto).length = 32 := by
  simp [encode, wifi.duration.property, wifi.dha.property, wifi.bssid.property,
    wifi.sha.property, wifi.seq.property]

def WifiHeader.eth (wifi : WifiHeader) : EthHeader := ⟨wifi.dha, wifi.sha⟩

variable {e e' : Env} {caplen p n n' : Nat} {w w' : World} {d : Decoder}

/-- What `decode_wifi` makes of it: the second address is taken for the source. -/
theorem decodeWifi_encode (he : e.Registered) {wifi : WifiHeader} {proto : UInt16}
    (hm : e.mem.Holds p (wifi.encode proto)) :
    decodeWifi e p n w = .ok ⟨netDecoder proto.toNat, 32, updateStat w.stats "TOTAL" 1,
      { w.bucket with
        L2 := { w.bucket.L2 with macSrc := wifi.bssid.val, macDst := wifi.dha.val } }⟩ := by
  simp only [WifiHeader.encode, Memory.holds_append, wifi.duration.property, wifi.dha.property,
    wifi.bssid.property, wifi.sha.property, wifi.seq.property] at hm
  obtain ⟨htype, -, hdha, hbssid, -, -, -, hproto⟩ := hm
  have hdata : net16 0x08 0x02 = WIFI_DATA := by decide
  refine (decodeWifi_ok_iff he).mpr ⟨0x08, 0x02, wifi.dha.val, wifi.bssid.val, wifi.dha.property,
    wifi.bssid.property, htype, ?_, rfl, ?_⟩
  · rw [Memory.holds_append, wifi.dha.property]
    exact ⟨hdha, hbssid⟩
  · rw [if_pos hdata]
    exact ⟨_, _, hproto, by rw [net16_be16], rfl⟩

structure Twin (e e' : Env) : Prop where
  host : e'.host = e.host
  addr : e'.addr = e.addr
  mem : e'.mem = e.mem
  left : e.Registered
  right : e'.Registered

def Ret.view (r : Ret) : Option Decoder × Nat × Bucket := (r.next, r.len, r.world.bucket)

theorem call_twin (h : Twin e e') (hw : w'.bucket = w.bucket) (hd : d ≠ .wifi) :
    (d.call e' p n' w').map Ret.view = (d.call e p n w).map Ret.view := by
  obtain ⟨host, addr, mem, table⟩ := e
  obtain ⟨host', addr', mem', table'⟩ := e'
  obtain ⟨rfl, rfl, rfl, hl, hr⟩ := h
  have hnet := fun k : Nat => (hr.net k).trans (hl.net k).symm
  have hproto := fun k : Nat => (hr.proto k).trans (hl.proto k).symm
  have happ := fun k : Nat => (hr.app k).trans (hl.app k).symm
  cases d with
  | wifi => exact absurd rfl hd
  | eth =>
    simp only [Decoder.call, decodeEth, map_bind, map_ok, pure, Except.pure, Ret.view, hw, hnet]
  | arp =>
    simp only [Decoder.call, decodeArp, arpAddrs, map_bind, map_ok, pure, Except.pure, Ret.view,
      hw]
  | ip =>
    simp only [Decoder.call, decodeIp, ipFinger, map_bind, map_ok, pure, Except.pure, Ret.view, hw,
      hproto]
  | ip6 =>
    simp only [Decoder.call, decodeIp6, map_bind, map_ok, pure, Except.pure, Ret.view, hw, hproto]
  | icmp => simp only [Decoder.call, decodeIcmp, map_bind, map_ok, pure, Except.pure, Ret.view, hw]
  | icmp6 =>
    simp only [Decoder.call, decodeIcmp6, map_bind, map_ok, pure, Except.pure, Ret.view, hw]
  | udp =>
    simp only [Decoder.call, decodeUdp, map_bind, map_ok, pure, Except.pure, Ret.view, hw, happ]
  | tcp =>
    simp only [Decoder.call, decodeTcp, tcpSyn, optEnd, map_bind, map_ok, pure, Except.pure,
      Ret.view, hw, happ]
  | dhcpd | dhcpc => simp only [Decoder.call, decodeDhcpd, decodeDhcpc, map_ok, Ret.view, hw]

theorem successor_ne_wifi {c c' : Chain} (he : e.Registered) (h : chainBody e c = .again c') :
    c'.decoder ≠ .wifi := by
  have hall : ∀ d : Decoder, Decoder.wifi ∉ d.successors := by
    intro d
    cases d <;> decide
  intro hwifi
  have hmem := chain_successor he h
  rw [hwifi] at hmem
  exact hall c.decoder hmem

structure ChainTwin (c c' : Chain) : Prop where
  decoder : c'.decoder = c.decoder
  data : c'.data = c.data
  datalen : c'.datalen = c.datalen
  bucket : c'.world.bucket = c.world.bucket
  above : c.decoder ≠ .wifi

theorem chainBody_twin (h : Twin e e') (c c' : Chain) (hc : ChainTwin c c') :
    Loop.StepRel ChainTwin (fun r r' => r'.map World.bucket = r.map World.bucket)
      (chainBody e c) (chainBody e' c') := by
  have hview : (c'.call e').map Ret.view = (c.call e).map Ret.view := by
    rw [Chain.call, Chain.call, hc.decoder, hc.data]
    exact call_twin h hc.bucket hc.above
  have hsuccessor := fun c'' => @successor_ne_wifi e c c'' h.left
  revert hsuccessor
  simp only [chainBody]
  cases hcall : c.call e with
  | error f =>
    rw [hcall] at hview
    rw [map_error_iff.mp hview]
    exact fun _ => .leave rfl
  | ok r =>
    rw [hcall] at hview
    obtain ⟨r', hcall', hsame⟩ := map_ok_iff.mp hview
    have hnext : r'.next = r.next := congrArg Prod.fst hsame
    have hlen : r'.len = r.len := congrArg (fun v => v.2.1) hsame
    have hbucket : r'.world.bucket = r.world.bucket := congrArg (fun v => v.2.2) hsame
    rw [hcall', hc.datalen]
    dsimp only
    rw [hnext, hlen]
    by_cases hmore : 0 < int32 (c.datalen - r.len)
    · rw [if_pos hmore, if_pos hmore]
      cases r.next with
      | none => exact fun _ => .leave (congrArg Except.ok hbucket)
      | some d => exact fun hne => .again ⟨rfl, by rw [hc.data], rfl, hbucket, hne _ rfl⟩
    · rw [if_neg hmore, if_neg hmore]
      exact fun _ => .leave (congrArg Except.ok hbucket)

theorem outcome_twin (h : Twin e e') (hw : w'.bucket = w.bucket) (hd : d ≠ .wifi) :
    (outcome e' caplen d p w').map World.bucket = (outcome e caplen d p w).map World.bucket := by
  have hstart : ChainTwin (Chain.at caplen d p w) (Chain.at caplen d p w') :=
    ⟨rfl, rfl, rfl, hw, hd⟩
  have hrel := Loop.run_rel (chainBody_twin h) ROUNDS hstart
  rw [outcome, outcome]
  generalize Loop.run (chainBody e) ROUNDS (Chain.at caplen d p w) = x at hrel ⊢
  generalize Loop.run (chainBody e') ROUNDS (Chain.at caplen d p w') = y at hrel ⊢
  cases hrel with
  | none => rfl
  | some heq => exact heq

variable {header payload : List UInt8} {pkt pkt' : Packet} {r : Ret}

theorem Packet.mem_shift (hpkt : pkt.bytes = header ++ payload) :
    (fun i => pkt.mem (header.length + i)) = Memory.append payload pkt.beyond := by
  funext i
  rw [Packet.mem, hpkt, Memory.append, Memory.append, List.length_append]
  by_cases hi : i < payload.length
  · rw [if_pos (by omega), if_pos hi, List.getElem?_append_right (by omega),
      Nat.add_sub_cancel_left]
  · rw [if_neg (by omega), if_neg hi]
    congr 1
    omega

theorem outcome_link (he : e.Registered) (hcaplen : caplen = header.length + payload.length)
    (hcall : callAt e caplen d 0 w = .ok r) (hlen : r.len = header.length) :
    outcome e caplen d 0 w =
      if More payload.length 0 then
        match r.next with
        | some d' => outcome (e.shift header.length) payload.length d' 0 r.world
        | none => .ok r.world
      else .ok r.world := by
  have hshift : ∀ d', outcome (e.shift header.length) payload.length d' 0 r.world =
      outcome e caplen d' header.length r.world := by
    intro d'
    have hs := outcome_shift (e := e) (q := 0) (d := d') (w := r.world)
      (by omega : header.length ≤ caplen)
    have hrest : caplen - header.length = payload.length := by omega
    rwa [hrest, Nat.add_zero] at hs
  have hmore : More caplen (0 + r.len) ↔ More payload.length 0 := by
    have hsub :
        ((caplen : Int) - ((0 + r.len : Nat) : Int)) = (payload.length : Int) - (0 : Nat) := by
      omega
    rw [More, More, hsub]
  rw [outcome_ok he hcall]
  by_cases hm : More payload.length 0
  · rw [if_pos hm, if_pos (hmore.mpr hm)]
    cases r.next with
    | none => rfl
    | some d' =>
      dsimp only
      rw [hshift d', hlen, Nat.zero_add]
  · rw [if_neg hm, if_neg (fun h => hm (hmore.mp h))]

structure BothFrames (wifi : WifiHeader) (proto : UInt16) (payload : List UInt8)
    (pkt pkt' : Packet) : Prop where
  eth : pkt.bytes = wifi.eth.encode proto ++ payload
  wifi : pkt'.bytes = wifi.encode proto ++ payload
  beyond : pkt'.beyond = pkt.beyond

theorem net_ne_wifi {proto : Nat} (h : netDecoder proto = some d) : d ≠ .wifi := by
  unfold netDecoder at h
  rintro rfl
  split at h
  · cases h
  split at h
  · cases h
  split at h
  · cases h
  · cases h

theorem Running.lmapDecode_bucket (r : Running) (h : Host) (pkt : Packet) :
    (lmapDecode h r.globals pkt).map Prod.fst =
      (outcome (lmapEnv h r.globals pkt) pkt.caplen r.link.decoder 0
        ⟨r.stats, dbBucketAlloc⟩).map World.bucket := by
  rw [r.lmapDecode_outcome]
  cases outcome (lmapEnv h r.globals pkt) pkt.caplen r.link.decoder 0 ⟨r.stats, dbBucketAlloc⟩ with
  | error e => rfl
  | ok w => rfl

theorem lmapDecode_parity (h : Host) {r r' : Running} (hlink : r.link = .eth)
    (hlink' : r'.link = .wifi) {wifi : WifiHeader} {proto : UInt16} {payload : List UInt8}
    (hframes : BothFrames wifi proto payload pkt pkt') (haddr : pkt'.addr + 32 = pkt.addr + 14)
    (hbssid : wifi.bssid = wifi.sha) :
    (lmapDecode h r'.globals pkt').map Prod.fst = (lmapDecode h r.globals pkt).map Prod.fst := by
  have he := r.env_registered h pkt
  have he' := r'.env_registered h pkt'
  have hm : pkt.mem.Holds 0 (wifi.eth.encode proto) :=
    ((Memory.holds_append _ _ _).mp (pkt.holds_of_bytes hframes.eth)).1
  have hm' : pkt'.mem.Holds 0 (wifi.encode proto) :=
    ((Memory.holds_append _ _ _).mp (pkt'.holds_of_bytes hframes.wifi)).1
  have hcap : pkt.caplen = (wifi.eth.encode proto).length + payload.length := by
    rw [Packet.caplen, hframes.eth, List.length_append]
  have hcap' : pkt'.caplen = (wifi.encode proto).length + payload.length := by
    rw [Packet.caplen, hframes.wifi, List.length_append]
  have heth := decodeEth_encode (n := leftAt pkt.caplen 0) (w := ⟨r.stats, dbBucketAlloc⟩) he hm
  have hwifi := decodeWifi_encode (n := leftAt pkt'.caplen 0) (w := ⟨r'.stats, dbBucketAlloc⟩)
    he' hm'
  have hout := outcome_link (d := .eth) he hcap heth (by rw [EthHeader.encode_length])
  have hout' := outcome_link (d := .wifi) he' hcap' hwifi (by rw [WifiHeader.encode_length])
  have htwin : Twin ((lmapEnv h r.globals pkt).shift (wifi.eth.encode proto).length)
      ((lmapEnv h r'.globals pkt').shift (wifi.encode proto).length) :=
    { host := rfl
      addr := by
        rw [EthHeader.encode_length, WifiHeader.encode_length]
        exact haddr
      mem := by
        have hmem := Packet.mem_shift hframes.eth
        have hmem' := Packet.mem_shift hframes.wifi
        rw [hframes.beyond] at hmem'
        exact hmem'.trans hmem.symm
      left := ⟨he.net, he.proto, he.app⟩
      right := ⟨he'.net, he'.proto, he'.app⟩ }
  have hbuckets : ({ dbBucketAlloc with L2 := { dbBucketAlloc.L2 with
        macSrc := wifi.bssid.val, macDst := wifi.dha.val } } : Bucket) =
      { dbBucketAlloc with L2 := { dbBucketAlloc.L2 with
        macSrc := wifi.eth.sha.val, macDst := wifi.eth.dha.val } } := by
    rw [hbssid]
    rfl
  rw [r.lmapDecode_bucket, r'.lmapDecode_bucket, hlink, hlink', Link.decoder, Link.decoder, hout,
    hout']
  by_cases hmore : More payload.length 0
  · rw [if_pos hmore, if_pos hmore]
    dsimp only
    cases hnet : netDecoder proto.toNat with
    | none => exact congrArg Except.ok hbuckets
    | some d => exact outcome_twin htwin hbuckets (net_ne_wifi hnet)
  · rw [if_neg hmore, if_neg hmore]
    exact congrArg Except.ok hbuckets

def Ret.macs (r : Ret) : List UInt8 × List UInt8 :=
  (r.world.bucket.L2.macSrc, r.world.bucket.L2.macDst)

/-- The calls of the two link decoders leave the same MAC addresses, and the packets come to
the same bucket. -/
structure SameFrames (h : Host) (r r' : Running) (pkt pkt' : Packet) : Prop where
  macs : ∀ n n' w w', (decodeWifi (lmapEnv h r'.globals pkt') 0 n' w').map Ret.macs =
    (decodeEth (lmapEnv h r.globals pkt) 0 n w).map Ret.macs
  bucket : (lmapDecode h r'.globals pkt').map Prod.fst = (lmapDecode h r.globals pkt).map Prod.fst

/-- The payload lies at one place in both captures; or the options of the Ethernet capture end
where they should, there and with the payload at the place of the other. -/
def PlacedAlike (h : Host) (r : Running) (pkt pkt' : Packet) : Prop :=
  pkt'.addr + 32 = pkt.addr + 14 ∨
    EndsExact h r.globals pkt ∧ EndsExact h r.globals (pkt.moved (pkt'.addr + 18))

/-- An 802.11 data frame from an access point is decoded as the Ethernet frame of the same
payload exactly when its BSSID is its source. -/
theorem wifi_parity_iff (h : Host) (r r' : Running) (hlink : r.link = .eth)
    (hlink' : r'.link = .wifi) (pkt pkt' : Packet) (wifi : WifiHeader) (proto : UInt16)
    (payload : List UInt8) (hframes : BothFrames wifi proto payload pkt pkt')
    (hplaced : PlacedAlike h r pkt pkt') :
    SameFrames h r r' pkt pkt' ↔ wifi.bssid = wifi.sha := by
  have he := r.env_registered h pkt
  have he' := r'.env_registered h pkt'
  have hm : pkt.mem.Holds 0 (wifi.eth.encode proto) :=
    ((Memory.holds_append _ _ _).mp (pkt.holds_of_bytes hframes.eth)).1
  have hm' : pkt'.mem.Holds 0 (wifi.encode proto) :=
    ((Memory.holds_append _ _ _).mp (pkt'.holds_of_bytes hframes.wifi)).1
  have hmacs : ∀ n n' w w', (decodeWifi (lmapEnv h r'.globals pkt') 0 n' w').map Ret.macs =
      (decodeEth (lmapEnv h r.globals pkt) 0 n w).map Ret.macs ↔ wifi.bssid = wifi.sha := by
    intro n n' w w'
    rw [decodeEth_encode he hm, decodeWifi_encode he' hm']
    simp [map_ok, Ret.macs, WifiHeader.eth, Subtype.ext_iff]
  constructor
  · intro hsame
    exact (hmacs 0 0 ⟨r.stats, dbBucketAlloc⟩ ⟨r.stats, dbBucketAlloc⟩).mp (hsame.macs _ _ _ _)
  · intro hbssid
    refine ⟨fun n n' w w' => (hmacs n n' w w').mpr hbssid, ?_⟩
    rcases hplaced with haddr | ⟨hhere, hthere⟩
    · exact lmapDecode_parity h hlink hlink' hframes haddr hbssid
    · have hmoved : BothFrames wifi proto payload (pkt.moved (pkt'.addr + 18)) pkt' :=
        ⟨hframes.eth, hframes.wifi, hframes.beyond⟩
      have hparity := lmapDecode_parity h hlink hlink' hmoved (Nat.add_assoc _ 18 14).symm hbssid
      rw [hparity, (sameDecode_moved r hhere hthere).result]

def apHeader (sha : Octets 6) : WifiHeader where
  duration := ⟨[0, 0], rfl⟩
  dha := ⟨[2, 0, 0, 0, 0, 1], rfl⟩
  bssid := ⟨[2, 0, 0, 0, 0, 0xaa], rfl⟩
  sha := sha
  seq := ⟨[0, 0], rfl⟩

def udpPayload : List UInt8 :=
  [0x45, 0, 0, 28, 0, 0, 0, 0, 64, 17, 0, 0, 192, 168, 1, 1, 192, 168, 1, 2, 0x12, 0x34, 0, 53,
    0, 8, 0, 0]

theorem apPacket_length (header : List UInt8) (h : header.length ≤ 32) :
    (header ++ udpPayload).length < 2 ^ 32 := by
  have hlen : udpPayload.length = 28 := rfl
  rw [List.length_append]
  omega

def apEth (sha : Octets 6) : Packet :=
  ⟨18, (apHeader sha).eth.encode 0x0800 ++ udpPayload, apPacket_length _ (by simp), fun _ => none⟩

def apWifi (sha : Octets 6) : Packet :=
  ⟨0, (apHeader sha).encode 0x0800 ++ udpPayload, apPacket_length _ (by simp), fun _ => none⟩

def accessPoint : Octets 6 := ⟨[2, 0, 0, 0, 0, 0xaa], rfl⟩

theorem behind_length : ([2, 0, 0, 0, 0, 2] : List UInt8).length = 6 := rfl

def behind : Octets 6 := ⟨[2, 0, 0, 0, 0, 2], behind_length⟩

theorem wifi_parity_accessPoint :
    SameFrames ⟨false, 64⟩ (Running.listed .eth) (Running.listed .wifi) (apEth accessPoint)
        (apWifi accessPoint) ↔ (apHeader accessPoint).bssid = (apHeader accessPoint).sha :=
  wifi_parity_iff ⟨false, 64⟩ (Running.listed .eth) (Running.listed .wifi) rfl rfl
    (apEth accessPoint) (apWifi accessPoint) (apHeader accessPoint) 0x0800 udpPayload
    ⟨rfl, rfl, rfl⟩ (.inl rfl)

/-- The host behind the access point is taken for the access point. -/
theorem wifi_parity_behind :
    ¬ SameFrames ⟨false, 64⟩ (Running.listed .eth) (Running.listed .wifi) (apEth behind)
        (apWifi behind) := by
  intro h
  have hwifi : (lmapDecode ⟨false, 64⟩ (Running.listed .wifi).globals (apWifi behind)).map
      (fun res => res.1.L2.macSrc) = .ok [2, 0, 0, 0, 0, 0xaa] := by decide +kernel
  have heth : (lmapDecode ⟨false, 64⟩ (Running.listed .eth).globals (apEth behind)).map
      (fun res => res.1.L2.macSrc) = .ok [2, 0, 0, 0, 0, 2] := by decide +kernel
  have hsame := congrArg (fun x => x.map fun b : Bucket => b.L2.macSrc) h.bucket
  have hmap : ∀ x : Except Fault (Bucket × Globals),
      (x.map Prod.fst).map (fun b : Bucket => b.L2.macSrc) = x.map fun res => res.1.L2.macSrc := by
    intro x
    cases x <;> rfl
  rw [hmap, hmap, hwifi, heth] at hsame
  exact absurd hsame (by decide)

end Lmap
