import Lmap.Decode
import Lmap.FingerFields
import Mathlib.Data.Nat.Bitwise

/-!
What each decoder does when it returns: the bytes it has read, and what it makes
of them. The table is one that answers as the program's registrations do.
-/

set_option autoImplicit false

namespace Lmap

theorem registrations_net (n : Nat) : getDecoder registrations NET_LAYER n = netDecoder n := by
  apply Option.ext
  intro d
  rw [getDecoder_eq_some_iff registrations_unique]
  simp only [registrations, InitFn.all, InitFn.entries, netDecoder, List.flatMap_cons,
    List.flatMap_nil, List.cons_append, List.nil_append, List.mem_cons, DecEntry.mk.injEq,
    List.not_mem_nil, NET_LAYER, LINK_LAYER, PROTO_LAYER, APP_LAYER]
  grind [LL_TYPE_IP, LL_TYPE_IP6, LL_TYPE_ARP]

theorem registrations_proto (n : Nat) :
    getDecoder registrations PROTO_LAYER n = protoDecoder n := by
  apply Option.ext
  intro d
  rw [getDecoder_eq_some_iff registrations_unique]
  simp only [registrations, InitFn.all, InitFn.entries, protoDecoder, List.flatMap_cons,
    List.flatMap_nil, List.cons_append, List.nil_append, List.mem_cons, DecEntry.mk.injEq,
    List.not_mem_nil, NET_LAYER, LINK_LAYER, PROTO_LAYER, APP_LAYER]
  grind [LN_TYPE_TCP, LN_TYPE_UDP, LN_TYPE_ICMP, LN_TYPE_ICMP6]

theorem registrations_app (n : Nat) : getDecoder registrations APP_LAYER n = appDecoder n := by
  apply Option.ext
  intro d
  rw [getDecoder_eq_some_iff registrations_unique]
  simp only [registrations, InitFn.all, InitFn.entries, appDecoder, List.flatMap_cons,
    List.flatMap_nil, List.cons_append, List.nil_append, List.mem_cons, DecEntry.mk.injEq,
    List.not_mem_nil, NET_LAYER, LINK_LAYER, PROTO_LAYER, APP_LAYER]
  grind [LP_TYPE_DHCPD, LP_TYPE_DHCPC]

theorem Running.env_registered (r : Running) (h : Host) (pkt : Packet) :
    (lmapEnv h r.globals pkt).Registered where
  net n := (r.getDecoder_globals _ _).trans (registrations_net n)
  proto n := (r.getDecoder_globals _ _).trans (registrations_proto n)
  app n := (r.getDecoder_globals _ _).trans (registrations_app n)

variable {e : Env} {buf n : Nat} {w : World} {r : Ret}

theorem decodeEth_ok_iff (he : e.Registered) :
    decodeEth e buf n w = .ok r ↔ ∃ dha sha a b, dha.length = 6 ∧ sha.length = 6 ∧
      e.mem.Holds buf (dha ++ (sha ++ [a, b])) ∧
      r = ⟨netDecoder (net16 a b), 14, updateStat w.stats "TOTAL" 1,
        { w.bucket with L2 := { w.bucket.L2 with macSrc := sha, macDst := dha } }⟩ := by
  simp only [decodeEth, bind_ok_iff, readBytes_ok_iff, readU16_ok_iff, pure, Except.pure,
    Except.ok.injEq, he.net, ETH_ADDR_LEN, Memory.holds_append, Memory.holds_cons,
    Memory.holds_nil, and_true]
  constructor
  · rintro ⟨sha, ⟨hs, hsha⟩, dha, ⟨hd, hdha⟩, _, ⟨a, b, ha, hb, rfl⟩, rfl⟩
    refine ⟨dha, sha, a, b, hd, hs, ⟨hdha, ?_, ?_, ?_⟩, by rw [ntohs_load16]⟩
    · rwa [hd]
    · rwa [hd, hs]
    · rwa [hd, hs]
  · rintro ⟨dha, sha, a, b, hd, hs, ⟨hdha, hsha, ha, hb⟩, rfl⟩
    rw [hd] at hsha ha hb
    rw [hs] at ha hb
    exact ⟨sha, ⟨hs, hsha⟩, dha, ⟨hd, hdha⟩, _, ⟨a, b, ha, hb, rfl⟩, by rw [ntohs_load16]⟩

theorem decodeWifi_ok_iff (he : e.Registered) :
    decodeWifi e buf n w = .ok r ↔ ∃ t0 t1 dha sha, dha.length = 6 ∧ sha.length = 6 ∧
      e.mem.Holds buf [t0, t1] ∧ e.mem.Holds (buf + 4) (dha ++ sha) ∧
      r.world = ⟨updateStat w.stats "TOTAL" 1,
        { w.bucket with L2 := { w.bucket.L2 with macSrc := sha, macDst := dha } }⟩ ∧
      if net16 t0 t1 = WIFI_DATA then
        ∃ a b, e.mem.Holds (buf + 30) [a, b] ∧ r.next = netDecoder (net16 a b) ∧ r.len = 32
      else if net16 t0 t1 = WIFI_BACON then r.next = none ∧ r.len = n
      else r.next = none ∧ r.len = 24 := by
  obtain ⟨next, len, world⟩ := r
  simp only [decodeWifi, bind_ok_iff, readBytes_ok_iff, readU16_ok_iff, ETH_ADDR_LEN,
    Memory.holds_append, Memory.holds_cons, Memory.holds_nil, and_true]
  constructor
  · rintro ⟨sha, ⟨hs, hsha⟩, dha, ⟨hd, hdha⟩, _, ⟨t0, t1, h0, h1, rfl⟩, h⟩
    rw [ntohs_load16] at h
    refine ⟨t0, t1, dha, sha, hd, hs, ⟨h0, h1⟩, ⟨hdha, by rwa [hd]⟩, ?_⟩
    split at h
    · rename_i hdata
      simp only [bind_ok_iff, readU16_ok_iff, pure, Except.pure, Except.ok.injEq, he.net] at h
      obtain ⟨_, ⟨a, b, ha, hb, rfl⟩, h⟩ := h
      rw [ntohs_load16] at h
      cases h
      exact ⟨rfl, by simpa [hdata] using ⟨a, b, ⟨ha, hb⟩, rfl⟩⟩
    · rename_i hdata
      split at h
      · rename_i hbacon
        have hne : ¬ WIFI_BACON = WIFI_DATA := by decide
        cases h
        exact ⟨rfl, by simp [hbacon, hne]⟩
      · rename_i hbacon
        cases h
        exact ⟨rfl, by simp [hdata, hbacon]⟩
  · rintro ⟨t0, t1, dha, sha, hd, hs, ⟨h0, h1⟩, ⟨hdha, hsha⟩, hw, h⟩
    rw [hd] at hsha
    refine ⟨sha, ⟨hs, hsha⟩, dha, ⟨hd, hdha⟩, _, ⟨t0, t1, h0, h1, rfl⟩, ?_⟩
    rw [ntohs_load16]
    split at h
    · rename_i hdata
      obtain ⟨a, b, ⟨ha, hb⟩, hn, hl⟩ := h
      simp only [hdata, if_true, bind_ok_iff, readU16_ok_iff, pure, Except.pure, Except.ok.injEq,
        he.net]
      refine ⟨_, ⟨a, b, ha, hb, rfl⟩, ?_⟩
      rw [ntohs_load16, hn, hl, hw]
    · rename_i hdata
      split at h
      · rename_i hbacon
        have hne : ¬ WIFI_BACON = WIFI_DATA := by decide
        simp [hbacon, hne, h.1, h.2, hw, pure, Except.pure]
      · rename_i hbacon
        simp [hdata, hbacon, h.1, h.2, hw, pure, Except.pure]

theorem ipAddrInit_inet_ok_iff {sa sb : IpAddr} {p : Nat} {c : Int} :
    ipAddrInit e.mem sa AF_INET p = .ok (sb, c) ↔ c = ESUCCESS ∧ ∃ bs, bs.length = 4 ∧
      e.mem.Holds p bs ∧ sb = ⟨AF_INET, 4, bs ++ sa.addr.drop 4⟩ := by
  constructor
  · intro h
    simp only [ipAddrInit, if_true, bind_ok_iff, readBytes_ok_iff] at h
    obtain ⟨bs, ⟨hlen, hbs⟩, heq⟩ := h
    have hlen4 : bs.length = 4 := hlen
    cases heq
    exact ⟨rfl, bs, hlen4, hbs, by simp [IpAddr.copyIn, hlen4, IP_ADDR_LEN]⟩
  · rintro ⟨rfl, bs, hlen, hbs, rfl⟩
    exact ipAddrInit_inet sa hbs hlen

theorem ipAddrInit_inet6_ok_iff {sa sb : IpAddr} {p : Nat} {c : Int} :
    ipAddrInit e.mem sa AF_INET6 p = .ok (sb, c) ↔ c = ESUCCESS ∧ ∃ bs, bs.length = 16 ∧
      e.mem.Holds p bs ∧ sb = ⟨AF_INET6, 16, bs ++ sa.addr.drop 16⟩ := by
  have hne : ¬ AF_INET6 = AF_INET := by decide
  constructor
  · intro h
    simp only [ipAddrInit, hne, if_true, if_false, bind_ok_iff, readBytes_ok_iff] at h
    obtain ⟨bs, ⟨hlen, hbs⟩, heq⟩ := h
    have hlen16 : bs.length = 16 := hlen
    cases heq
    exact ⟨rfl, bs, hlen16, hbs, by simp [IpAddr.copyIn, hlen16, IP6_ADDR_LEN]⟩
  · rintro ⟨rfl, bs, hlen, hbs, rfl⟩
    exact ipAddrInit_inet6 sa hbs hlen

def ipFields (ttl : UInt8) (frag ihl : Nat) : FingerFields :=
  ((FingerFields.initial.push .ttl ttl.toNat).push .df ((frag &&& IP_DF : Nat) : Int)).push .lt
    ((ihl * 4 : Nat) : Int)

theorem and_IP_DF (frag : Nat) : frag &&& IP_DF = 0 ∨ frag &&& IP_DF = 0x4000 := by
  have h : frag &&& IP_DF = (frag.testBit 14).toNat * 2 ^ 14 := Nat.and_two_pow frag 14
  rw [h]
  cases frag.testBit 14 <;> simp

theorem ipFinger_ok_iff {ttl : UInt8} {ihl : Nat} {f : Finger} (hihl : ihl < 16) :
    ipFinger e buf ttl ihl = .ok f ↔ ∃ f0 f1, e.mem.Holds (buf + 6) [f0, f1] ∧
      f = (ipFields ttl (net16 f0 f1) ihl).buffer := by
  have hpush : ∀ frag : Nat, ∃ F1 F2 : Finger,
      fingerprintPush (some fingerprintAlloc) .ttl ttl.toNat = .ok F1 ∧
      fingerprintPush (some F1) .df ((frag &&& IP_DF : Nat) : Int) = .ok F2 ∧
      fingerprintPush (some F2) .lt ((ihl * 4 : Nat) : Int) =
        .ok (ipFields ttl frag ihl).buffer := by
    intro frag
    have httl := ttl.toNat_lt
    have hfits1 : FingerFields.initial.Fits .ttl ttl.toNat := And.intro (by omega) (by omega)
    have h1 := FingerFields.fingerprintPush_buffer _ hfits1
    have hfits2 : (FingerFields.initial.push .ttl ttl.toNat).Fits .df
        ((frag &&& IP_DF : Nat) : Int) :=
      (and_IP_DF frag).imp (by intro h; simp [h]) (by intro h; simp [h])
    have h2 := FingerFields.fingerprintPush_buffer _ hfits2
    refine ⟨_, _, h1, h2, FingerFields.fingerprintPush_buffer _ ⟨by omega, ?_⟩⟩
    simp only [FingerFields.push, FingerFields.initial, Option.getD_none, Int.toNat_natCast]
    omega
  simp only [ipFinger, bind_ok_iff, readU16_ok_iff, Memory.holds_cons, Memory.holds_nil, and_true]
  constructor
  · rintro ⟨F1, h1, _, ⟨f0, f1, hf0, hf1, rfl⟩, F2, h2, h3⟩
    rw [ntohs_load16] at h2
    obtain ⟨G1, G2, g1, g2, g3⟩ := hpush (net16 f0 f1)
    cases g1.symm.trans h1
    cases g2.symm.trans h2
    cases g3.symm.trans h3
    exact ⟨f0, f1, ⟨hf0, hf1⟩, rfl⟩
  · rintro ⟨f0, f1, ⟨hf0, hf1⟩, rfl⟩
    obtain ⟨F1, F2, h1, h2, h3⟩ := hpush (net16 f0 f1)
    exact ⟨F1, h1, _, ⟨f0, f1, hf0, hf1, rfl⟩, F2, by rwa [ntohs_load16], h3⟩

theorem decodeIp_ok_iff (he : e.Registered) :
    decodeIp e buf n w = .ok r ↔ ∃ b0 ttl protocol saddr daddr finger, e.mem buf = some b0 ∧
      e.mem.Holds (buf + 8) [ttl, protocol] ∧ saddr.length = 4 ∧ daddr.length = 4 ∧
      e.mem.Holds (buf + 12) (saddr ++ daddr) ∧
      (if protocol.toNat = LN_TYPE_TCP then ∃ f0 f1, e.mem.Holds (buf + 6) [f0, f1] ∧
          finger = some (ipFields ttl (net16 f0 f1) (b0.toNat % 16)).buffer
        else finger = w.bucket.L4.fingerprint) ∧
      r = ⟨protoDecoder protocol.toNat, b0.toNat % 16 * 4, updateStat w.stats "IP" 1,
        { w.bucket with
          L3 := ⟨⟨AF_INET, 4, saddr ++ w.bucket.L3.ipSrc.addr.drop 4⟩,
            ⟨AF_INET, 4, daddr ++ w.bucket.L3.ipDst.addr.drop 4⟩,
            htons e.host LL_TYPE_IP, ttl⟩
          L4 := { w.bucket.L4 with fingerprint := finger } }⟩ := by
  have hihl : ∀ b : UInt8, b.toNat % 16 < 16 := fun b => Nat.mod_lt _ (by decide)
  simp only [decodeIp, bind_ok_iff, readU8_ok_iff, ipIhl_eq, Memory.holds_append,
    Memory.holds_cons, Memory.holds_nil, and_true, he.proto]
  constructor
  · rintro ⟨b0, h0, ⟨_, _⟩, hsrc, ⟨_, _⟩, hdst, ttl, httl, protocol, hproto, finger, hf, heq⟩
    obtain ⟨-, saddr, hs, hsaddr, rfl⟩ := ipAddrInit_inet_ok_iff.mp hsrc
    obtain ⟨-, daddr, hd, hdaddr, rfl⟩ := ipAddrInit_inet_ok_iff.mp hdst
    refine ⟨b0, ttl, protocol, saddr, daddr, finger, h0, ⟨httl, hproto⟩, hs, hd,
      ⟨hsaddr, by rwa [hs]⟩, ?_, by cases heq; rfl⟩
    split at hf
    · rename_i htcp
      simp only [map_ok_iff, ipFinger_ok_iff (hihl b0)] at hf
      obtain ⟨_, ⟨f0, f1, hfrag, rfl⟩, rfl⟩ := hf
      simpa [htcp] using ⟨f0, f1, by simpa using hfrag, rfl⟩
    · rename_i htcp
      simpa [htcp, eq_comm] using hf
  · rintro ⟨b0, ttl, protocol, saddr, daddr, finger, h0, ⟨httl, hproto⟩, hs, hd,
      ⟨hsaddr, hdaddr⟩, hf, rfl⟩
    rw [hs] at hdaddr
    refine ⟨b0, h0, _, ipAddrInit_inet _ hsaddr hs, _, ipAddrInit_inet _ hdaddr hd, ttl, httl,
      protocol, hproto, finger, ?_, rfl⟩
    split at hf
    · rename_i htcp
      obtain ⟨f0, f1, hfrag, rfl⟩ := hf
      simp only [htcp, if_true, map_ok_iff, ipFinger_ok_iff (hihl b0)]
      exact ⟨_, ⟨f0, f1, by simpa using hfrag, rfl⟩, rfl⟩
    · rename_i htcp
      simp [htcp, hf]

def ip6Len (h : Host) (l0 l1 : UInt8) : Nat :=
  if load16 h l0 l1 = 0 then 0 else load16 h l0 l1 + IP6_HDR_LEN

theorem decodeIp6_ok_iff (he : e.Registered) :
    decodeIp6 e buf n w = .ok r ↔ ∃ l0 l1 nextHdr hopLimit saddr daddr,
      e.mem.Holds (buf + 4) [l0, l1, nextHdr, hopLimit] ∧ saddr.length = 16 ∧ daddr.length = 16 ∧
      e.mem.Holds (buf + 8) (saddr ++ daddr) ∧
      r = ⟨protoDecoder nextHdr.toNat, ip6Len e.host l0 l1, updateStat w.stats "IP" 1,
        { w.bucket with
          L3 := ⟨⟨AF_INET6, 16, saddr ++ w.bucket.L3.ipSrc.addr.drop 16⟩,
            ⟨AF_INET6, 16, daddr ++ w.bucket.L3.ipDst.addr.drop 16⟩,
            htons e.host LL_TYPE_IP6, hopLimit⟩ }⟩ := by
  simp only [decodeIp6, bind_ok_iff, readU8_ok_iff, readU16_ok_iff, Memory.holds_append,
    Memory.holds_cons, Memory.holds_nil, and_true, he.proto, ip6Len]
  constructor
  · rintro ⟨_, ⟨l0, l1, h0, h1, rfl⟩, ⟨_, _⟩, hsrc, ⟨_, _⟩, hdst, hop, hhop, nxt, hnxt, heq⟩
    obtain ⟨-, saddr, hs, hsaddr, rfl⟩ := ipAddrInit_inet6_ok_iff.mp hsrc
    obtain ⟨-, daddr, hd, hdaddr, rfl⟩ := ipAddrInit_inet6_ok_iff.mp hdst
    exact ⟨l0, l1, nxt, hop, saddr, daddr, ⟨h0, h1, hnxt, hhop⟩, hs, hd, ⟨hsaddr, by rwa [hs]⟩,
      by cases heq; rfl⟩
  · rintro ⟨l0, l1, nxt, hop, saddr, daddr, ⟨h0, h1, hnxt, hhop⟩, hs, hd, ⟨hsaddr, hdaddr⟩, rfl⟩
    rw [hs] at hdaddr
    exact ⟨_, ⟨l0, l1, h0, h1, rfl⟩, _, ipAddrInit_inet6 _ hsaddr hs, _,
      ipAddrInit_inet6 _ hdaddr hd, hop, hhop, nxt, hnxt, rfl⟩

theorem decodeArp_ok (h : decodeArp e buf n w = .ok r) :
    r.next = none ∧ r.world.stats = updateStat w.stats "ARP" 1 ∧
      ∃ hln pln, e.mem.Holds (buf + 4) [hln, pln] ∧ r.len = 8 + 2 * (hln.toNat + pln.toNat) := by
  simp only [decodeArp, bind_ok_iff, readU8_ok_iff, pure, Except.pure] at h
  obtain ⟨hln, hh, pln, hp, _, -, _, -, heq⟩ := h
  cases heq
  exact ⟨rfl, rfl, hln, pln, by simp [hh, hp], rfl⟩

theorem decodeArp_L4 (h : decodeArp e buf n w = .ok r) :
    r.world.bucket.L4 = w.bucket.L4 := by
  simp only [decodeArp, bind_ok_iff, readU8_ok_iff, pure, Except.pure] at h
  obtain ⟨hln, hh, pln, hp, _, -, _, -, heq⟩ := h
  cases heq
  rfl

theorem arpAddrs_proto {earp : Nat} {type : Int} {L3 L3' : L3Info}
    (h : arpAddrs e earp type L3 = .ok L3') : L3'.proto = L3.proto := by
  simp only [arpAddrs, bind_ok_iff, pure, Except.pure, Except.ok.injEq] at h
  obtain ⟨_, -, _, -, rfl⟩ := h
  rfl

theorem decodeArp_L3_proto (h : decodeArp e buf n w = .ok r) :
    r.world.bucket.L3.proto = htons e.host LL_TYPE_ARP := by
  simp only [decodeArp, bind_ok_iff, readU8_ok_iff, pure, Except.pure] at h
  obtain ⟨hln, hh, pln, hp, L3, h4, L3', h6, heq⟩ := h
  cases heq
  have hkeep4 : L3.proto = htons e.host LL_TYPE_ARP := by
    split at h4
    · exact arpAddrs_proto h4
    · cases h4
      rfl
  rw [← hkeep4]
  split at h6
  · exact arpAddrs_proto h6
  · cases h6
    rfl

theorem decodeIcmp_ok_iff :
    decodeIcmp e buf n w = .ok r ↔ ∃ b, e.mem buf = some b ∧
      r = ⟨none, 8, updateStat w.stats "ICMP" 1, w.bucket⟩ := by
  simp only [decodeIcmp, bind_ok_iff, readU8_ok_iff, pure, Except.pure, Except.ok.injEq,
    exists_and_right, @eq_comm _ r]

theorem decodeIcmp6_ok_iff :
    decodeIcmp6 e buf n w = .ok r ↔ ∃ b, e.mem buf = some b ∧
      r = ⟨none, 8, updateStat w.stats "ICMP" 1, w.bucket⟩ := by
  simp only [decodeIcmp6, bind_ok_iff, readU8_ok_iff, pure, Except.pure, Except.ok.injEq,
    exists_and_right, @eq_comm _ r]

theorem decodeUdp_ok_iff (he : e.Registered) :
    decodeUdp e buf n w = .ok r ↔ ∃ s0 s1 d0 d1, e.mem.Holds buf [s0, s1, d0, d1] ∧
      r = ⟨appDecoder (net16 d0 d1), 8, updateStat w.stats "UDP" 1,
        { w.bucket with L4 := { w.bucket.L4 with
            portSrc := load16 e.host s0 s1, portDst := load16 e.host d0 d1,
            proto := LN_TYPE_UDP } }⟩ := by
  simp only [decodeUdp, bind_ok_iff, readU16_ok_iff, pure, Except.pure, Except.ok.injEq, he.app,
    Memory.holds_cons, Memory.holds_nil, and_true]
  constructor
  · rintro ⟨_, ⟨s0, s1, hs0, hs1, rfl⟩, _, ⟨d0, d1, hd0, hd1, rfl⟩, rfl⟩
    exact ⟨s0, s1, d0, d1, ⟨hs0, hs1, hd0, hd1⟩, by rw [ntohs_load16]⟩
  · rintro ⟨s0, s1, d0, d1, ⟨hs0, hs1, hd0, hd1⟩, rfl⟩
    exact ⟨_, ⟨s0, s1, hs0, hs1, rfl⟩, _, ⟨d0, d1, hd0, hd1, rfl⟩, by rw [ntohs_load16]⟩

theorem decodeTcp_ok_iff (he : e.Registered) :
    decodeTcp e buf n w = .ok r ↔ ∃ s0 s1 d0 d1 o flags finger,
      e.mem.Holds buf [s0, s1, d0, d1] ∧ e.mem.Holds (buf + 12) [o, flags] ∧
      (if flags &&& TH_SYN ≠ 0 then
          tcpSyn e buf (o.toNat / 16) flags w.bucket.L4.fingerprint = .ok finger
        else finger = none) ∧
      r = ⟨appDecoder (net16 d0 d1), o.toNat / 16 * 4, updateStat w.stats "TCP" 1,
        { w.bucket with L4 :=
          ⟨load16 e.host s0 s1, load16 e.host d0 d1, LN_TYPE_TCP, finger⟩ }⟩ := by
  simp only [decodeTcp, bind_ok_iff, readU8_ok_iff, readU16_ok_iff, tcpOff_eq, he.app,
    Memory.holds_cons, Memory.holds_nil, and_true]
  constructor
  · rintro ⟨o, ho, _, ⟨s0, s1, hs0, hs1, rfl⟩, _, ⟨d0, d1, hd0, hd1, rfl⟩, flags, hflags, finger,
      hfinger, heq⟩
    rw [ntohs_load16] at heq
    refine ⟨s0, s1, d0, d1, o, flags, finger, ⟨hs0, hs1, hd0, hd1⟩, ⟨ho, hflags⟩, ?_,
      by cases heq; rfl⟩
    split at hfinger
    · rename_i hsyn
      simpa [hsyn] using hfinger
    · rename_i hsyn
      simpa [hsyn, eq_comm] using hfinger
  · rintro ⟨s0, s1, d0, d1, o, flags, finger, ⟨hs0, hs1, hd0, hd1⟩, ⟨ho, hflags⟩, hfinger, rfl⟩
    refine ⟨o, ho, _, ⟨s0, s1, hs0, hs1, rfl⟩, _, ⟨d0, d1, hd0, hd1, rfl⟩, flags, hflags, finger,
      ?_, by rw [ntohs_load16]; rfl⟩
    split at hfinger
    · rename_i hsyn
      simpa [hsyn] using hfinger
    · rename_i hsyn
      simp [hsyn, hfinger]

end Lmap
