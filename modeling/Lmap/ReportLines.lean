import Lmap.AddressText
import Lmap.FingerAlgebra
import Lmap.MsgQueue
import Lmap.NetworkOrder

/-!
The lines of `db_bucket_send`: the addresses go through two character buffers that it reuses,
and nothing is in them at first. What a bucket must look like for the lines about one layer
to show nothing else.
-/

set_option autoImplicit false

namespace Lmap
open CString

/-- What the stack holds when `db_bucket_send` begins, and what the two calls of
`inet_details6` find in their variable. -/
structure Stack where
  tmp : List UInt8
  details : List UInt8
  first : List UInt8
  second : List UInt8
  tmp_size : tmp.length = 50
  details_size : details.length = 50
  first_size : first.length = IP6_DETAILS_SIZE
  second_size : second.length = IP6_DETAILS_SIZE

structure Sections where
  l2 : List Ui.Message
  l3 : List Ui.Message
  l4 : List Ui.Message
  deriving DecidableEq, Repr

/-- A `%s` of a buffer: without a NUL in it, the bytes behind it are read. -/
def strArg (buf : List UInt8) : Except Fault (List UInt8) :=
  if 0 ∈ buf then .ok (cstr buf) else .error .outOfRange

/-- A `%s` of a pointer that can be NULL. -/
def strPtr : Option (List UInt8) → Except Fault (List UInt8)
  | none => .ok (lit "(null)")
  | some buf => strArg buf

def decArg (n : Nat) : List UInt8 := printUnsigned .lower 10 0 n

def hexArg (n : Nat) : List UInt8 := lit "0x" ++ printUnsigned .lower 16 4 n

def l2Msgs (r : Report) (tmp : List UInt8) : Except Fault (List Ui.Message × List UInt8) := do
  let tmp := ethAddrNtoa r.macSrc tmp
  let src ← strArg tmp
  let tmp := ethAddrNtoa r.macDst tmp
  let dst ← strArg tmp
  let essid ← strPtr r.essid
  pure ([lit "\n--- L2 INFO ---\n", lit " --> source  " ++ src, lit " --> dest    " ++ dst,
    lit " --> ESSID   " ++ essid], tmp)

def addrLine (title tmp details : List UInt8) : Except Fault Ui.Message := do
  let text ← strArg tmp
  let more ← strArg details
  pure (title ++ text ++ lit " " ++ more)

def l3Msgs (r : Report) (tmp details first second : List UInt8) :
    Except Fault (List Ui.Message) := do
  let tmp := ipAddrNtoa r.ipSrc tmp
  let details := ipAddrDetails r.ipSrc details first
  let src ← addrLine (lit " --> source  ") tmp details
  let tmp := ipAddrNtoa r.ipDst tmp
  let details := ipAddrDetails r.ipDst details second
  let dst ← addrLine (lit " --> dest    ") tmp details
  pure [lit "\n--- L3 INFO ---\n", src, dst, lit " --> proto   " ++ hexArg r.l3Proto,
    lit " --> ttl     " ++ decArg r.ttl.toNat]

def l4Msgs (r : Report) : Except Fault (List Ui.Message) := do
  let finger ← strPtr r.fingerprint
  pure [lit "\n--- L4 INFO ---\n", lit " --> source  " ++ decArg r.portSrc,
    lit " --> dest    " ++ decArg r.portDst, lit " --> proto   " ++ hexArg r.l4Proto,
    lit " --> finger  " ++ finger ++ lit "\n"]

def dbBucketMsgs (s : Stack) (r : Report) : Except Fault Sections := do
  let (l2, tmp) ← l2Msgs r s.tmp
  let l3 ← l3Msgs r tmp s.details s.first s.second
  let l4 ← l4Msgs r
  pure ⟨l2, l3, l4⟩

def Sections.enqueued (x : Sections) : List Ui.Message :=
  [lit "db_bucket_send -- NOT YET IMPLEMENTED\n"] ++ x.l2 ++ x.l3 ++ x.l4

/-- The buffer still ends with the terminator that it was allocated with. -/
def Sealed (f : Finger) : Prop := f.length = FINGER_LEN + 1 ∧ f[FINGER_LEN]? = some 0

theorem Sealed.zero_mem {f : Finger} (h : Sealed f) : 0 ∈ f := List.mem_of_getElem? h.2

theorem sealed_buffer (F : FingerFields) : Sealed F.buffer := by
  have hlen := F.text_length .lower
  refine ⟨by simp [FingerFields.buffer, hlen], ?_⟩
  rw [FingerFields.buffer, List.getElem?_append_right (by omega), hlen]
  rfl

theorem Sealed.strncpy {f : Finger} (h : Sealed f) {pos n : Nat} (hle : pos + n ≤ FINGER_LEN)
    (src : List UInt8) : Sealed (CString.strncpy f pos src n) := by
  obtain ⟨hlen, hlast⟩ := h
  have hfield : ((src ++ List.replicate n 0).take n).length = n := by simp
  have htake : (f.take pos).length = pos := by
    rw [List.length_take]
    omega
  constructor
  · simp only [CString.strncpy, List.length_append, hfield, htake, List.length_drop]
    omega
  · rw [CString.strncpy, List.getElem?_append_right (by omega), htake,
      List.getElem?_append_right (by omega), hfield, List.getElem?_drop]
    have hpos : pos + n + (FINGER_LEN - pos - n) = FINGER_LEN := by omega
    rw [hpos, hlast]

theorem sealed_push {finger : Option Finger} {f' : Finger} {param : FingerParam} {v : Int}
    (h : fingerprintPush finger param v = .ok f') (hf : ∀ f ∈ finger, Sealed f) :
    ∀ f ∈ some f', Sealed f := by
  cases finger with
  | none => cases h
  | some f =>
    have hfits : param.pos + param.width ≤ FINGER_LEN := by cases param <;> decide
    have hcopy : ∃ src, f' = CString.strncpy f param.pos src param.width := by
      cases param with
      | tcpflag =>
        simp only [fingerprintPush] at h
        split at h
        · cases h
          exact ⟨_, rfl⟩
        · cases h
          exact ⟨_, rfl⟩
      | window | mss | ttl | ws | sack | nop | df | timestamp | lt =>
        cases h
        exact ⟨_, rfl⟩
    obtain ⟨src, rfl⟩ := hcopy
    have hsealed := (hf f rfl).strncpy hfits src
    rintro g ⟨⟩
    exact hsealed

theorem sealed_optSwitch {h : Host} {m : Memory} {stop : Nat} {w w' : Walk}
    (hstep : optSwitch h m stop w = .ok w') (hw : ∀ f ∈ w.finger, Sealed f) :
    ∀ f ∈ w'.finger, Sealed f := by
  simp only [optSwitch, bind_ok_iff] at hstep
  obtain ⟨kind, -, hstep⟩ := hstep
  split at hstep
  · cases hstep
    exact hw
  split at hstep
  · obtain ⟨f, hf, hstep⟩ := bind_ok_iff.mp hstep
    cases hstep
    exact sealed_push hf hw
  split at hstep
  · obtain ⟨f, hf, hstep⟩ := bind_ok_iff.mp hstep
    cases hstep
    exact sealed_push hf hw
  split at hstep
  · simp only [bind_ok_iff] at hstep
    obtain ⟨a, -, b, -, f, hf, hstep⟩ := hstep
    cases hstep
    exact sealed_push hf hw
  split at hstep
  · simp only [bind_ok_iff] at hstep
    obtain ⟨b, -, f, hf, hstep⟩ := hstep
    cases hstep
    exact sealed_push hf hw
  split at hstep
  · simp only [bind_ok_iff] at hstep
    obtain ⟨f, hf, len, -, hstep⟩ := hstep
    cases hstep
    exact sealed_push hf hw
  · obtain ⟨len, -, hstep⟩ := bind_ok_iff.mp hstep
    cases hstep
    exact hw

theorem sealed_optLoop {h : Host} {m : Memory} {start stop : Nat} {finger finger' : Option Finger}
    (hrun : optLoop h m start stop finger = .ok finger') (hf : ∀ f ∈ finger, Sealed f) :
    ∀ f ∈ finger', Sealed f := by
  have hinv : ∀ r, Loop.run (optBody h m stop) (stop - start + 1) ⟨start, finger⟩ = some r →
      ∀ g, r = .ok g → ∀ f ∈ g, Sealed f := by
    intro r hr
    refine Loop.run_invariant (P := fun w : Walk => ∀ f ∈ w.finger, Sealed f)
      (Q := fun r : Except Fault (Option Finger) => ∀ g, r = .ok g → ∀ f ∈ g, Sealed f)
      ?_ ?_ hf hr
    · intro w w' hw hb
      unfold optBody at hb
      split at hb
      · split at hb
        · rename_i w'' hswitch
          cases hb
          exact sealed_optSwitch hswitch hw
        · cases hb
      · cases hb
    · intro w r hw hb
      unfold optBody at hb
      split at hb
      · split at hb
        · cases hb
        · cases hb
          nofun
      · cases hb
        rintro g ⟨⟩
        exact hw
  unfold optLoop at hrun
  split at hrun
  · rename_i r hr
    exact hinv r hr finger' hrun
  · cases hrun

theorem sealed_tcpSyn {e : Env} {p off : Nat} {flags : UInt8} {finger finger' : Option Finger}
    (h : tcpSyn e p off flags finger = .ok finger') (hf : ∀ f ∈ finger, Sealed f) :
    ∀ f ∈ finger', Sealed f := by
  simp only [tcpSyn, bind_ok_iff] at h
  obtain ⟨win, -, f1, h1, f2, h2, f3, h3, hloop⟩ := h
  exact sealed_optLoop hloop (sealed_push h3 (sealed_push h2 (sealed_push h1 hf)))

/-- What the lines rest on, in every bucket that is sent. -/
structure Bucket.Presentable (b : Bucket) : Prop where
  mac : b.L2.macDst.length = ETH_ADDR_LEN
  essid : b.L2.essid = none
  finger : ∀ f ∈ b.L4.fingerprint, Sealed f

section Chain

variable {e : Env} {p n : Nat} {w : World} {r : Ret}

theorem decodeArp_L2 (h : decodeArp e p n w = .ok r) : r.world.bucket.L2 = w.bucket.L2 := by
  simp only [decodeArp, bind_ok_iff, readU8_ok_iff, pure, Except.pure] at h
  obtain ⟨hln, hh, pln, hp, _, -, _, -, heq⟩ := h
  cases heq
  rfl

theorem call_presentable (he : e.Registered) {d : Decoder} (h : d.call e p n w = .ok r)
    (hw : w.bucket.Presentable) : r.world.bucket.Presentable := by
  cases d with
  | eth =>
    obtain ⟨dha, sha, a, b, hd, -, -, rfl⟩ := (decodeEth_ok_iff (n := n) he).mp h
    exact ⟨hd, hw.essid, hw.finger⟩
  | wifi =>
    obtain ⟨t0, t1, dha, sha, hd, -, -, -, hworld, -⟩ := (decodeWifi_ok_iff (n := n) he).mp h
    rw [hworld]
    exact ⟨hd, hw.essid, hw.finger⟩
  | arp =>
    have hL2 := decodeArp_L2 (n := n) h
    have hL4 := decodeArp_L4 (n := n) h
    exact ⟨hL2 ▸ hw.mac, hL2 ▸ hw.essid, hL4 ▸ hw.finger⟩
  | ip =>
    obtain ⟨b0, ttl, protocol, saddr, daddr, finger, -, -, -, -, -, hf, rfl⟩ :=
      (decodeIp_ok_iff (n := n) he).mp h
    refine ⟨hw.mac, hw.essid, ?_⟩
    split at hf
    · obtain ⟨f0, f1, -, rfl⟩ := hf
      rintro f ⟨⟩
      exact sealed_buffer _
    · rw [hf]
      exact hw.finger
  | ip6 =>
    obtain ⟨l0, l1, nextHdr, hopLimit, saddr, daddr, -, -, -, -, rfl⟩ :=
      (decodeIp6_ok_iff (n := n) he).mp h
    exact ⟨hw.mac, hw.essid, hw.finger⟩
  | icmp =>
    obtain ⟨b, -, rfl⟩ := (decodeIcmp_ok_iff (n := n)).mp h
    exact hw
  | icmp6 =>
    obtain ⟨b, -, rfl⟩ := (decodeIcmp6_ok_iff (n := n)).mp h
    exact hw
  | udp =>
    obtain ⟨s0, s1, d0, d1, -, rfl⟩ := (decodeUdp_ok_iff (n := n) he).mp h
    exact ⟨hw.mac, hw.essid, hw.finger⟩
  | tcp =>
    obtain ⟨s0, s1, d0, d1, o, flags, finger, -, -, hf, rfl⟩ := (decodeTcp_ok_iff (n := n) he).mp h
    refine ⟨hw.mac, hw.essid, ?_⟩
    split at hf
    · exact sealed_tcpSyn hf hw.finger
    · rw [hf]
      nofun
  | dhcpd =>
    cases h
    exact hw
  | dhcpc =>
    cases h
    exact hw

theorem Running.lmapDecode_presentable (r : Running) {h : Host} {pkt : Packet} {b : Bucket}
    {g : Globals} (hok : lmapDecode h r.globals pkt = .ok (b, g)) : b.Presentable := by
  rw [r.lmapDecode_eq] at hok
  have he := r.env_registered h pkt
  have hstart : dbBucketAlloc.Presentable := ⟨by decide, rfl, nofun⟩
  split at hok
  · rename_i v hv
    cases hok
    refine Loop.run_invariant (P := fun c : Chain => c.world.bucket.Presentable)
      (Q := fun res : Except Fault World => ∀ v, res = .ok v → v.bucket.Presentable)
      ?_ ?_ hstart hv v rfl
    · intro c c' hc hb
      obtain ⟨res, d, hcall, -, -, rfl⟩ := chainBody_again_iff.mp hb
      exact call_presentable he hcall hc
    · rintro c _ hc hb v rfl
      obtain ⟨res, hcall, rfl, -⟩ := chainBody_ok_iff.mp hb
      exact call_presentable he hcall hc
  · cases hok
  · cases hok

end Chain

theorem hexPair_eq (b : UInt8) : printUnsigned .upper 16 2 b.toNat = hex2 .upper b.toNat :=
  printUnsigned_hex2 .upper b.toNat_lt

theorem hexPairs_cons (c d : UInt8) (bytes : List UInt8) :
    (lit ":").intercalate ((c :: d :: bytes).map fun b => hex2 .upper b.toNat) =
      hex2 .upper c.toNat ++ (lit ":" ++
        (lit ":").intercalate ((d :: bytes).map fun b => hex2 .upper b.toNat)) := by
  simp [List.intercalate]

theorem hexPairs_plain (bytes : List UInt8) :
    ∀ b ∈ (lit ":").intercalate (bytes.map fun b => hex2 .upper b.toNat), b ≠ 0 := by
  induction bytes with
  | nil => nofun
  | cons c bytes ih =>
    have hc := hex2_ne_zero .upper c.toNat_lt
    cases bytes with
    | nil => simpa [List.intercalate] using hc
    | cons d bytes =>
      have hcolon : ∀ b ∈ lit ":", b ≠ 0 := forall_mem_of_all (by decide)
      intro b hb
      rw [hexPairs_cons, List.mem_append, List.mem_append] at hb
      rcases hb with hb | hb | hb
      · exact hc b hb
      · exact hcolon b hb
      · exact ih b hb

theorem hexPairs_inj {bytes bytes' : List UInt8} (hlen : bytes.length = bytes'.length)
    (h : (lit ":").intercalate (bytes.map fun b => hex2 .upper b.toNat) =
      (lit ":").intercalate (bytes'.map fun b => hex2 .upper b.toNat)) : bytes = bytes' := by
  induction bytes generalizing bytes' with
  | nil => exact (List.length_eq_zero_iff.mp hlen.symm).symm
  | cons c bytes ih =>
    cases bytes' with
    | nil => cases hlen
    | cons c' bytes' =>
      have hbyte : hex2 .upper c.toNat = hex2 .upper c'.toNat → c = c' := fun hhex =>
        UInt8.toNat_inj.mp ((hex2_inj c.toNat_lt c'.toNat_lt).mp hhex)
      have hrest : bytes.length = bytes'.length := Nat.succ.inj hlen
      cases bytes with
      | nil =>
        have hnil : bytes' = [] := List.length_eq_zero_iff.mp hrest.symm
        subst hnil
        have hhex : hex2 .upper c.toNat = hex2 .upper c'.toNat := by
          simpa [List.intercalate] using h
        rw [hbyte hhex]
      | cons d bytes =>
        cases bytes' with
        | nil => cases hrest
        | cons d' bytes' =>
          rw [hexPairs_cons, hexPairs_cons] at h
          obtain ⟨hhex, htail⟩ := List.append_inj h rfl
          rw [hbyte hhex, ih hrest (List.append_cancel_left htail)]

theorem ethText_plain (m : List UInt8) : ∀ b ∈ ethText m, b ≠ 0 := by
  simp only [ethText, hexPair_eq]
  exact hexPairs_plain (m.take ETH_ADDR_LEN)

theorem ethText_inj {m m' : List UInt8} (hm : m.length = ETH_ADDR_LEN)
    (hm' : m'.length = ETH_ADDR_LEN) (h : ethText m = ethText m') : m = m' := by
  simp only [ethText, hexPair_eq, List.take_of_length_le (Nat.le_of_eq hm),
    List.take_of_length_le (Nat.le_of_eq hm')] at h
  exact hexPairs_inj (hm.trans hm'.symm) h

theorem strArg_ok {buf : List UInt8} (h : 0 ∈ buf) : strArg buf = .ok (cstr buf) := if_pos h

theorem addrLine_ok (title : List UInt8) {tmp details : List UInt8} (ht : 0 ∈ tmp)
    (hd : 0 ∈ details) :
    addrLine title tmp details = .ok (title ++ cstr tmp ++ lit " " ++ cstr details) := by
  rw [addrLine, strArg_ok ht, strArg_ok hd]
  rfl

theorem addrLine_ok_iff {title tmp details line : List UInt8} :
    addrLine title tmp details = .ok line ↔ 0 ∈ tmp ∧ 0 ∈ details ∧
      line = title ++ cstr tmp ++ lit " " ++ cstr details := by
  by_cases ht : 0 ∈ tmp
  · by_cases hd : 0 ∈ details
    · simp [addrLine_ok title ht hd, ht, hd, eq_comm]
    · simp [addrLine, strArg, ht, hd, bind, Except.bind]
  · simp [addrLine, strArg, ht, bind, Except.bind]

theorem addrLine_same (title : List UInt8) {tmp tmp' details details' : List UInt8}
    (ht : SameString tmp tmp') (hd : SameString details details') :
    ∃ line, addrLine title tmp details = .ok line ∧ addrLine title tmp' details' = .ok line :=
  ⟨_, addrLine_ok title ht.left hd.left, by rw [addrLine_ok title ht.right hd.right, ht.text,
    hd.text]⟩

section Lines

variable {r : Report} {tmp tmp' details details' first first' second second' : List UInt8}

theorem l3Msgs_same (ht : SameString (ipAddrNtoa r.ipSrc tmp) (ipAddrNtoa r.ipSrc tmp'))
    (hd : SameString (ipAddrDetails r.ipSrc details first)
      (ipAddrDetails r.ipSrc details' first'))
    (hs : second.length = IP6_DETAILS_SIZE) (hs' : second'.length = IP6_DETAILS_SIZE) :
    ∃ lines, l3Msgs r tmp details first second = .ok lines ∧
      l3Msgs r tmp' details' first' second' = .ok lines := by
  obtain ⟨src, hsrc, hsrc'⟩ := addrLine_same (lit " --> source  ") ht hd
  obtain ⟨dst, hdst, hdst'⟩ := addrLine_same (lit " --> dest    ")
    (ipAddrNtoa_same r.ipDst ht) (ipAddrDetails_same r.ipDst hd hs hs')
  refine ⟨[lit "\n--- L3 INFO ---\n", src, dst, lit " --> proto   " ++ hexArg r.l3Proto,
    lit " --> ttl     " ++ decArg r.ttl.toNat], ?_, ?_⟩
  · rw [l3Msgs, hsrc]
    simp only [bind, Except.bind, hdst]
    rfl
  · rw [l3Msgs, hsrc']
    simp only [bind, Except.bind, hdst']
    rfl

theorem l3Msgs_source {lines : List Ui.Message}
    (h : l3Msgs r tmp details first second = .ok lines) :
    lines[1]? = some (lit " --> source  " ++ cstr (ipAddrNtoa r.ipSrc tmp) ++ lit " " ++
      cstr (ipAddrDetails r.ipSrc details first)) := by
  simp only [l3Msgs, bind_ok_iff, addrLine_ok_iff] at h
  obtain ⟨src, ⟨-, -, rfl⟩, dst, -, h⟩ := h
  cases h
  rfl

end Lines

def Bucket.macBuffer (b : Bucket) (tmp : List UInt8) : List UInt8 :=
  ethAddrNtoa b.L2.macDst (ethAddrNtoa b.L2.macSrc tmp)

theorem macBuffer_zero (b : Bucket) (tmp : List UInt8) : 0 ∈ b.macBuffer tmp :=
  zero_mem_strcpy _ _

theorem cstr_macBuffer (b : Bucket) (tmp : List UInt8) :
    cstr (b.macBuffer tmp) = ethText b.L2.macDst :=
  (cstr_strcpy _ _).trans (cstr_of_plain (ethText_plain b.L2.macDst))

theorem macBuffer_same {b b' : Bucket} (h : b.L2.macDst = b'.L2.macDst) (tmp tmp' : List UInt8) :
    SameString (b.macBuffer tmp) (b'.macBuffer tmp') where
  left := macBuffer_zero b tmp
  right := macBuffer_zero b' tmp'
  text := by rw [cstr_macBuffer, cstr_macBuffer, h]

theorem l2Msgs_ok {b : Bucket} (hb : b.Presentable) (h : Host) (tmp : List UInt8) :
    ∃ l2, l2Msgs (dbBucketSend h b) tmp = .ok (l2, b.macBuffer tmp) := by
  have hsrc : 0 ∈ ethAddrNtoa b.L2.macSrc tmp := zero_mem_strcpy _ _
  have hdst : 0 ∈ ethAddrNtoa b.L2.macDst (ethAddrNtoa b.L2.macSrc tmp) := zero_mem_strcpy _ _
  simp only [l2Msgs, dbBucketSend, strArg_ok hsrc, strArg_ok hdst, hb.essid, strPtr]
  exact ⟨_, rfl⟩

theorem l4Msgs_ok {b : Bucket} (hb : b.Presentable) (h : Host) :
    ∃ l4, l4Msgs (dbBucketSend h b) = .ok l4 := by
  simp only [l4Msgs, dbBucketSend]
  cases hf : b.L4.fingerprint with
  | none => exact ⟨_, rfl⟩
  | some f =>
    rw [strPtr, strArg_ok (hb.finger f hf).zero_mem]
    exact ⟨_, rfl⟩

theorem dbBucketMsgs_ok_iff {b : Bucket} (hb : b.Presentable) (h : Host) (s : Stack)
    (lines : List Ui.Message) :
    (∃ l2 l4, dbBucketMsgs s (dbBucketSend h b) = .ok ⟨l2, lines, l4⟩) ↔
      l3Msgs (dbBucketSend h b) (b.macBuffer s.tmp) s.details s.first s.second = .ok lines := by
  obtain ⟨l2, hl2⟩ := l2Msgs_ok hb h s.tmp
  obtain ⟨l4, hl4⟩ := l4Msgs_ok hb h
  constructor
  · rintro ⟨l2', l4', hrun⟩
    simp only [dbBucketMsgs, bind_ok_iff] at hrun
    obtain ⟨⟨l2'', tmp⟩, hl2', l3, hl3, l4'', -, hrun⟩ := hrun
    rw [hl2] at hl2'
    cases hl2'
    cases hrun
    exact hl3
  · intro hl3
    refine ⟨l2, l4, ?_⟩
    simp only [dbBucketMsgs, bind_ok_iff]
    exact ⟨_, hl2, lines, hl3, l4, hl4, rfl⟩

/-- The lines about the network layer are the same for the two buckets, whatever the stack
holds at first. -/
def SameL3Lines (h : Host) (b b' : Bucket) : Prop :=
  ∃ lines, ∀ s : Stack,
    (∃ l2 l4, dbBucketMsgs s (dbBucketSend h b) = .ok ⟨l2, lines, l4⟩) ∧
    ∃ l2 l4, dbBucketMsgs s (dbBucketSend h b') = .ok ⟨l2, lines, l4⟩

def Stack.zero : Stack :=
  ⟨List.replicate 50 0, List.replicate 50 0, List.replicate 16 0, List.replicate 16 0, rfl, rfl,
    rfl, rfl⟩

def Stack.dirty : Stack :=
  { Stack.zero with details := 97 :: List.replicate 49 0, details_size := rfl }

theorem l3_report {b b' : Bucket} (h : Host) (hL3 : b.L3 = b'.L3)
    (tmp details first second : List UInt8) : l3Msgs (dbBucketSend h b') tmp details first second =
      l3Msgs (dbBucketSend h b) tmp details first second := by
  simp only [l3Msgs, dbBucketSend, hL3]

/-- What shows when the source address is not written: the destination of the frame, or what was
in `details`. -/
theorem shown_of_sameL3Lines {b b' : Bucket} (h : Host) (hb : b.Presentable)
    (hb' : b'.Presentable) (hL3 : b.L3 = b'.L3) (hsame : SameL3Lines h b b') :
    b.L3.ipSrc.type = AF_INET ∨ b.L3.ipSrc.type = AF_INET6 ∧
      (¬ EmbedsIp4 b.L3.ipSrc.addr ∨ b.L2.macDst = b'.L2.macDst) := by
  simp only [SameL3Lines, dbBucketMsgs_ok_iff hb, dbBucketMsgs_ok_iff hb', l3_report h hL3] at hsame
  obtain ⟨lines, hlines⟩ := hsame
  by_cases h4 : b.L3.ipSrc.type = AF_INET
  · exact .inl h4
  by_cases h6 : b.L3.ipSrc.type = AF_INET6
  · refine .inr ⟨h6, ?_⟩
    rw [or_iff_not_imp_left, not_not]
    intro hembeds
    have hsrc := l3Msgs_source (hlines Stack.zero).1
    have hsrc' := l3Msgs_source (hlines Stack.zero).2
    simp only [dbBucketSend, ipAddrNtoa_embedded h6 hembeds, cstr_macBuffer] at hsrc hsrc'
    rw [hsrc, Option.some.injEq, List.append_cancel_right_eq, List.append_cancel_right_eq,
      List.append_cancel_left_eq] at hsrc'
    exact ethText_inj hb.mac hb'.mac hsrc'
  · have hsrc := l3Msgs_source (hlines Stack.zero).1
    have hdirty := l3Msgs_source (hlines Stack.dirty).1
    simp only [dbBucketSend, ipAddrNtoa_unset h4 h6, ipAddrDetails_unset h4 h6,
      cstr_macBuffer] at hsrc hdirty
    rw [hsrc, Option.some.injEq, List.append_cancel_left_eq] at hdirty
    exact absurd hdirty (by decide)

theorem source_written {b c : Bucket} (hshown : b.L3.ipSrc.type = AF_INET ∨
      b.L3.ipSrc.type = AF_INET6 ∧
        (¬ EmbedsIp4 b.L3.ipSrc.addr ∨ b.L2.macDst = c.L2.macDst)) (tmp tmp' : List UInt8) :
    SameString (ipAddrNtoa b.L3.ipSrc (b.macBuffer tmp))
      (ipAddrNtoa b.L3.ipSrc (c.macBuffer tmp')) := by
  rcases hshown with h4 | ⟨h6, hplain | hmac⟩
  · exact ipAddrNtoa_writes (.inl h4)
  · exact ipAddrNtoa_writes (.inr ⟨h6, hplain⟩)
  · exact ipAddrNtoa_same b.L3.ipSrc (macBuffer_same hmac tmp tmp')

theorem l3Msgs_stacks {b c : Bucket} (h : Host) (hshown : b.L3.ipSrc.type = AF_INET ∨
      b.L3.ipSrc.type = AF_INET6 ∧
        (¬ EmbedsIp4 b.L3.ipSrc.addr ∨ b.L2.macDst = c.L2.macDst)) (s s' : Stack) : ∃ lines,
    l3Msgs (dbBucketSend h b) (b.macBuffer s.tmp) s.details s.first s.second = .ok lines ∧
      l3Msgs (dbBucketSend h b) (c.macBuffer s'.tmp) s'.details s'.first s'.second =
        .ok lines := by
  have hset : b.L3.ipSrc.type = AF_INET ∨ b.L3.ipSrc.type = AF_INET6 := by tauto
  exact l3Msgs_same (source_written hshown s.tmp s'.tmp)
    (ipAddrDetails_writes hset s.first_size s'.first_size) s.second_size s'.second_size

theorem sameL3Lines_iff {b b' : Bucket} (h : Host) (hb : b.Presentable) (hb' : b'.Presentable)
    (hL3 : b.L3 = b'.L3) : SameL3Lines h b b' ↔
      b.L3.ipSrc.type = AF_INET ∨ b.L3.ipSrc.type = AF_INET6 ∧
        (¬ EmbedsIp4 b.L3.ipSrc.addr ∨ b.L2.macDst = b'.L2.macDst) := by
  refine ⟨shown_of_sameL3Lines h hb hb' hL3, fun hshown => ?_⟩
  simp only [SameL3Lines, dbBucketMsgs_ok_iff hb, dbBucketMsgs_ok_iff hb', l3_report h hL3]
  have hself : b.L3.ipSrc.type = AF_INET ∨ b.L3.ipSrc.type = AF_INET6 ∧
      (¬ EmbedsIp4 b.L3.ipSrc.addr ∨ b.L2.macDst = b.L2.macDst) :=
    hshown.imp_right fun h6 => ⟨h6.1, .inr rfl⟩
  -- the lines over the empty stack are those over any other
  obtain ⟨lines, hzero, -⟩ := l3Msgs_stacks h hself Stack.zero Stack.zero
  refine ⟨lines, fun s => ⟨?_, ?_⟩⟩
  · obtain ⟨lines', h0, hs⟩ := l3Msgs_stacks h hself Stack.zero s
    cases hzero.symm.trans h0
    exact hs
  · obtain ⟨lines', h0, hs⟩ := l3Msgs_stacks h hshown Stack.zero s
    cases hzero.symm.trans h0
    exact hs

/-- For two packets whose buckets agree on the network layer: the lines about it are the same
exactly if the source address is one that is written, or the destination of the two frames,
which is what is left in the buffer, is the same. -/
theorem sections_apart_iff (h : Host) (r r' : Running) {pkt pkt' : Packet} {b b' : Bucket}
    {g g' : Globals} (hok : lmapDecode h r.globals pkt = .ok (b, g))
    (hok' : lmapDecode h r'.globals pkt' = .ok (b', g')) (hL3 : b.L3 = b'.L3) :
    SameL3Lines h b b' ↔ b.L3.ipSrc.type = AF_INET ∨ b.L3.ipSrc.type = AF_INET6 ∧
      (¬ EmbedsIp4 b.L3.ipSrc.addr ∨ b.L2.macDst = b'.L2.macDst) :=
  sameL3Lines_iff h (r.lmapDecode_presentable hok) (r'.lmapDecode_presentable hok') hL3

def arpTo (n : UInt8) : Packet :=
  Packet.captured 0 (List.replicate 5 2 ++ [n] ++ List.replicate 6 2 ++ [8, 6] ++
    [0, 1, 8, 0, 6, 4, 0, 1] ++ List.replicate 20 1) (by simp)

theorem sections_apart_arp : ∃ b b' g g',
    lmapDecode ⟨false, 64⟩ (Running.listed .eth).globals (arpTo 1) = .ok (b, g) ∧
    lmapDecode ⟨false, 64⟩ (Running.listed .eth).globals (arpTo 2) = .ok (b', g') ∧
    b.L2.macDst ≠ b'.L2.macDst ∧ SameL3Lines ⟨false, 64⟩ b b' := by
  have hrun : (lmapDecode ⟨false, 64⟩ (Running.listed .eth).globals (arpTo 1)).map
      (fun res => (res.1.L2.macDst, res.1.L3)) = .ok ([2, 2, 2, 2, 2, 1],
        ⟨⟨AF_INET, 4, [1, 1, 1, 1] ++ List.replicate 12 0⟩,
          ⟨AF_INET, 4, [1, 1, 1, 1] ++ List.replicate 12 0⟩,
          htons ⟨false, 64⟩ LL_TYPE_ARP, 1⟩) := by
    decide +kernel
  have hrun' : (lmapDecode ⟨false, 64⟩ (Running.listed .eth).globals (arpTo 2)).map
      (fun res => (res.1.L2.macDst, res.1.L3)) = .ok ([2, 2, 2, 2, 2, 2],
        ⟨⟨AF_INET, 4, [1, 1, 1, 1] ++ List.replicate 12 0⟩,
          ⟨AF_INET, 4, [1, 1, 1, 1] ++ List.replicate 12 0⟩,
          htons ⟨false, 64⟩ LL_TYPE_ARP, 1⟩) := by
    decide +kernel
  obtain ⟨⟨b, g⟩, hok, hb⟩ := map_ok_iff.mp hrun
  obtain ⟨⟨b', g'⟩, hok', hb'⟩ := map_ok_iff.mp hrun'
  rw [Prod.mk.injEq] at hb hb'
  refine ⟨b, b', g, g', hok, hok', ?_, ?_⟩
  · rw [hb.1, hb'.1]
    decide
  · refine (sections_apart_iff ⟨false, 64⟩ (Running.listed .eth) (Running.listed .eth) hok hok'
      (hb.2.trans hb'.2.symm)).mpr (.inl ?_)
    rw [hb.2]

def strayTo (n : UInt8) : Packet :=
  Packet.captured 0 (List.replicate 5 2 ++ [n] ++ List.replicate 6 2 ++ [0x88, 0xcc, 0])
    (by simp)

def l3Lines (pkt : Packet) : Except Fault (List Ui.Message) := do
  let (b, _) ← lmapDecode ⟨false, 64⟩ (Running.listed .eth).globals pkt
  let sections ← dbBucketMsgs Stack.zero (dbBucketSend ⟨false, 64⟩ b)
  pure sections.l3

example : (l3Lines (strayTo 1)).map (fun lines => lines[1]?) =
    .ok (some (lit " --> source  02:02:02:02:02:01 ")) := by decide +kernel

/-- The destination of the frame stands where the source of the packet should. -/
theorem strayFrames_leak : ¬ ∀ (h : Host) (r r' : Running) (pkt pkt' : Packet) (b b' : Bucket)
    (g g' : Globals), lmapDecode h r.globals pkt = .ok (b, g) →
      lmapDecode h r'.globals pkt' = .ok (b', g') → b.L3 = b'.L3 → SameL3Lines h b b' := by
  intro hall
  have hrun : (lmapDecode ⟨false, 64⟩ (Running.listed .eth).globals (strayTo 1)).map
      (fun res => res.1.L3) = .ok dbBucketAlloc.L3 := by decide +kernel
  have hrun' : (lmapDecode ⟨false, 64⟩ (Running.listed .eth).globals (strayTo 2)).map
      (fun res => res.1.L3) = .ok dbBucketAlloc.L3 := by decide +kernel
  have hdiffer : l3Lines (strayTo 1) ≠ l3Lines (strayTo 2) := by decide +kernel
  obtain ⟨⟨b, g⟩, hok, hL3⟩ := map_ok_iff.mp hrun
  obtain ⟨⟨b', g'⟩, hok', hL3'⟩ := map_ok_iff.mp hrun'
  obtain ⟨lines, hsame⟩ := hall ⟨false, 64⟩ (Running.listed .eth) (Running.listed .eth) (strayTo 1)
    (strayTo 2) b b' g g' hok hok' (hL3.trans hL3'.symm)
  obtain ⟨⟨l2, l4, hmsgs⟩, ⟨l2', l4', hmsgs'⟩⟩ := hsame Stack.zero
  have hlines : l3Lines (strayTo 1) = .ok lines := by
    simp only [l3Lines, hok, bind, Except.bind, hmsgs, pure, Except.pure]
  have hlines' : l3Lines (strayTo 2) = .ok lines := by
    simp only [l3Lines, hok', bind, Except.bind, hmsgs', pure, Except.pure]
  exact hdiffer (hlines.trans hlines'.symm)

end Lmap
