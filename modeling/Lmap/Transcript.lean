import Lmap.AddressDetails
import Lmap.Library.PlainText
import Lmap.ReportLines

/-!
Everything that `lmap_decode` tells the user about a packet, from the row of stars to the last line
of the report, and what of it could be mistaken for a format.
-/

set_option autoImplicit false

namespace Lmap
open CString Format PlainText

def typeArg (n : Nat) : List UInt8 := lit "0x" ++ printUnsigned .lower 16 2 n

def icmpMsgs (title : List UInt8) (e : Env) (buf buflen : Nat) :
    Except Fault (List Ui.Message) := do
  let type ← readU8 e.mem buf
  pure [title ++ hexArg buflen ++ lit " bytes\n",
    lit " --> type   " ++ typeArg type.toNat ++ lit "\n"]

def extensionMsgs (nextHdr : Nat) : List Ui.Message :=
  if nextHdr = 0 then [lit " --> option  Hop-By-Hop"]
  else if nextHdr = 43 then [lit " --> option  Routing"]
  else if nextHdr = 44 then [lit " --> option  Fragment"]
  else if nextHdr = 60 then [lit " --> option  Destination"]
  else if nextHdr = 59 then [lit " --> option  No-Next-Header"]
  else []

def ip6Msgs (e : Env) (buf : Nat) : Except Fault (List Ui.Message) := do
  let payloadLen ← readU16 e.host e.mem (buf + 4)
  let nextHdr ← readU8 e.mem (buf + 6)
  let jumbogram :=
    if payloadLen = 0 then [lit "IPv6 jumbogram, Hop-By-Hop header should follow"] else []
  pure (jumbogram ++ extensionMsgs nextHdr.toNat)

def Decoder.msgs (e : Env) (buf buflen : Nat) : Decoder → Except Fault (List Ui.Message)
  | .icmp => icmpMsgs (lit "ICMP : ") e buf buflen
  | .icmp6 => icmpMsgs (lit "ICMPv6 : ") e buf buflen
  | .ip6 => ip6Msgs e buf
  | .dhcpd => .ok [lit "DHCP -- server"]
  | .dhcpc => .ok [lit "DHCP -- client"]
  | .arp | .eth | .ip | .tcp | .udp | .wifi => .ok []

def callMsgs (e : Env) : List Chain → Except Fault (List Ui.Message)
  | [] => .ok []
  | c :: calls => do
    let msgs ← c.decoder.msgs e c.data c.buflen
    let rest ← callMsgs e calls
    pure (msgs ++ rest)

def headMsgs (pkt : Packet) : List Ui.Message :=
  [lit "\n***************************************************************\n",
   lit "lmap_get_packets (one packet dispatched from pcap)",
   lit "CAPTURED: " ++ hexArg pkt.caplen ++ lit " bytes\n"]

/-- The decoding itself is `lmapDecode`; the stack is what `db_bucket_send` finds. -/
def lmapMsgs (h : Host) (g : Globals) (pkt : Packet) (s : Stack) :
    Except Fault (List Ui.Message × Globals) := do
  let (b, g') ← lmapDecode h g pkt
  let decoders ← callMsgs (lmapEnv h g pkt) (lmapCalls ROUNDS h g pkt)
  let sections ← dbBucketMsgs s (dbBucketSend h b)
  pure (headMsgs pkt ++ decoders ++ sections.enqueued, g')

def KeptByPush (P : Finger → Prop) : Prop :=
  ∀ f param value f', P f → fingerprintPush (some f) param value = .ok f' → P f'

section Push

variable {P : Finger → Prop}

theorem KeptByPush.push (hP : KeptByPush P) {finger : Option Finger} {param : FingerParam}
    {value : Int} {f' : Finger} (h : fingerprintPush finger param value = .ok f')
    (hf : ∀ f ∈ finger, P f) : ∀ f ∈ some f', P f := by
  cases finger with
  | none => cases h
  | some f =>
    rintro g ⟨⟩
    exact hP f param value f' (hf f rfl) h

theorem KeptByPush.optSwitch (hP : KeptByPush P) {h : Host} {m : Memory} {stop : Nat} {w w' : Walk}
    (hstep : optSwitch h m stop w = .ok w') (hw : ∀ f ∈ w.finger, P f) : ∀ f ∈ w'.finger, P f := by
  simp only [Lmap.optSwitch, bind_ok_iff] at hstep
  obtain ⟨kind, -, hstep⟩ := hstep
  split at hstep
  · cases hstep
    exact hw
  split at hstep
  · obtain ⟨f, hf, hstep⟩ := bind_ok_iff.mp hstep
    cases hstep
    exact hP.push hf hw
  split at hstep
  · obtain ⟨f, hf, hstep⟩ := bind_ok_iff.mp hstep
    cases hstep
    exact hP.push hf hw
  split at hstep
  · simp only [bind_ok_iff] at hstep
    obtain ⟨a, -, b, -, f, hf, hstep⟩ := hstep
    cases hstep
    exact hP.push hf hw
  split at hstep
  · simp only [bind_ok_iff] at hstep
    obtain ⟨b, -, f, hf, hstep⟩ := hstep
    cases hstep
    exact hP.push hf hw
  split at hstep
  · simp only [bind_ok_iff] at hstep
    obtain ⟨f, hf, len, -, hstep⟩ := hstep
    cases hstep
    exact hP.push hf hw
  · obtain ⟨len, -, hstep⟩ := bind_ok_iff.mp hstep
    cases hstep
    exact hw

theorem KeptByPush.optLoop (hP : KeptByPush P) {h : Host} {m : Memory} {start stop : Nat}
    {finger finger' : Option Finger} (hrun : optLoop h m start stop finger = .ok finger')
    (hf : ∀ f ∈ finger, P f) : ∀ f ∈ finger', P f := by
  have hinv : ∀ r, Loop.run (optBody h m stop) (stop - start + 1) ⟨start, finger⟩ = some r →
      ∀ g, r = .ok g → ∀ f ∈ g, P f := by
    intro r hr
    refine Loop.run_invariant (P := fun w : Walk => ∀ f ∈ w.finger, P f)
      (Q := fun r : Except Fault (Option Finger) => ∀ g, r = .ok g → ∀ f ∈ g, P f) ?_ ?_ hf hr
    · intro w w' hw hb
      unfold optBody at hb
      split at hb
      · split at hb
        · rename_i w'' hswitch
          cases hb
          exact hP.optSwitch hswitch hw
        · cases hb
      · cases hb
    · rintro w r hw hb g rfl
      unfold optBody at hb
      split at hb
      · split at hb
        · cases hb
        · cases hb
      · cases hb
        exact hw
  unfold Lmap.optLoop at hrun
  split at hrun
  · rename_i r hr
    exact hinv r hr finger' hrun
  · cases hrun

theorem KeptByPush.tcpSyn (hP : KeptByPush P) {e : Env} {p off : Nat} {flags : UInt8}
    {finger finger' : Option Finger} (h : tcpSyn e p off flags finger = .ok finger')
    (hf : ∀ f ∈ finger, P f) : ∀ f ∈ finger', P f := by
  simp only [Lmap.tcpSyn, bind_ok_iff] at h
  obtain ⟨win, -, f1, h1, f2, h2, f3, h3, hloop⟩ := h
  exact hP.optLoop hloop (hP.push h3 (hP.push h2 (hP.push h1 hf)))

theorem KeptByPush.ipFinger (hP : KeptByPush P) {e : Env} {buf ihl : Nat} {ttl : UInt8} {f : Finger}
    (h : ipFinger e buf ttl ihl = .ok f) (hstart : P fingerprintAlloc) : P f := by
  simp only [Lmap.ipFinger, bind_ok_iff] at h
  obtain ⟨f1, h1, frag, -, f2, h2, h3⟩ := h
  exact hP _ _ _ _ (hP _ _ _ _ (hP _ _ _ _ hstart h1) h2) h3

theorem KeptByPush.call (hP : KeptByPush P) (hstart : P fingerprintAlloc) {e : Env} {d : Decoder}
    {p n : Nat} {w : World} {r : Ret} (h : d.call e p n w = .ok r)
    (hw : ∀ f ∈ w.bucket.L4.fingerprint, P f) : ∀ f ∈ r.world.bucket.L4.fingerprint, P f := by
  cases d with
  | ip =>
    simp only [Decoder.call, decodeIp, bind_ok_iff] at h
    obtain ⟨b0, -, ⟨src, c⟩, -, ⟨dst, c'⟩, -, ttl, -, protocol, -, finger, hf, h⟩ := h
    cases h
    split at hf
    · obtain ⟨f, hfinger, rfl⟩ := map_ok_iff.mp hf
      rintro g ⟨⟩
      exact hP.ipFinger hfinger hstart
    · cases hf
      exact hw
  | tcp =>
    simp only [Decoder.call, decodeTcp, bind_ok_iff] at h
    obtain ⟨o, -, sport, -, dport, -, flags, -, finger, hf, h⟩ := h
    cases h
    split at hf
    · exact hP.tcpSyn hf hw
    · cases hf
      intro f hmem
      cases hmem
  | arp =>
    have hL4 := decodeArp_L4 (n := n) h
    rwa [hL4]
  | eth =>
    simp only [Decoder.call, decodeEth, bind_ok_iff] at h
    obtain ⟨sha, -, dha, -, proto, -, h⟩ := h
    cases h
    exact hw
  | wifi =>
    simp only [Decoder.call, decodeWifi, bind_ok_iff] at h
    obtain ⟨sha, -, dha, -, type, -, h⟩ := h
    split at h
    · obtain ⟨llType, -, h⟩ := bind_ok_iff.mp h
      cases h
      exact hw
    · split at h
      · cases h
        exact hw
      · cases h
        exact hw
  | ip6 =>
    simp only [Decoder.call, decodeIp6, bind_ok_iff] at h
    obtain ⟨len, -, ⟨src, c⟩, -, ⟨dst, c'⟩, -, hop, -, next, -, h⟩ := h
    cases h
    exact hw
  | icmp =>
    simp only [Decoder.call, decodeIcmp, bind_ok_iff] at h
    obtain ⟨type, -, h⟩ := h
    cases h
    exact hw
  | icmp6 =>
    simp only [Decoder.call, decodeIcmp6, bind_ok_iff] at h
    obtain ⟨type, -, h⟩ := h
    cases h
    exact hw
  | udp =>
    simp only [Decoder.call, decodeUdp, bind_ok_iff] at h
    obtain ⟨sport, -, dport, -, h⟩ := h
    cases h
    exact hw
  | dhcpd | dhcpc =>
    cases h
    exact hw

end Push

def NoPercent (f : Finger) : Prop := ∀ b ∈ f, b ≠ percent

theorem noPercent_strncpy {f src : List UInt8} {pos n : Nat} (hf : NoPercent f)
    (hsrc : NoPercent src) : NoPercent (strncpy f pos src n) := by
  intro b hb
  simp only [strncpy, List.mem_append] at hb
  rcases hb with hb | hb | hb
  · exact hf b (List.mem_of_mem_take hb)
  · rcases List.mem_append.mp (List.mem_of_mem_take hb) with hb | hb
    · exact hsrc b hb
    · rw [List.eq_of_mem_replicate hb]
      decide
  · exact hf b (List.mem_of_mem_drop hb)

theorem noPercent_snprintf {text : List UInt8} (h : Plain text) (size : Nat) :
    NoPercent (snprintf size text) := fun b hb => (h b (List.mem_of_mem_take hb)).1

theorem noPercent_kept : KeptByPush NoPercent := by
  intro f param value f' hf h
  have hnumber : ∀ (k : Case) (base width n : Nat), 1 < base → base ≤ 16 →
      NoPercent (snprintf TMP_LEN (printUnsigned k base width n)) :=
    fun k base width n hb h16 => noPercent_snprintf (plain_printUnsigned k hb h16 width n) TMP_LEN
  have hint : ∀ v, NoPercent (snprintf TMP_LEN (printInt v)) :=
    fun v => noPercent_snprintf (plain_printInt v) TMP_LEN
  cases param with
  | tcpflag =>
    simp only [fingerprintPush] at h
    split at h
    · cases h
      exact noPercent_strncpy hf (forall_mem_of_all (by decide))
    · cases h
      exact noPercent_strncpy hf (forall_mem_of_all (by decide))
  | sack | nop | df | timestamp =>
    cases h
    exact noPercent_strncpy hf (hint _)
  | window | mss | ttl | ws | lt =>
    cases h
    exact noPercent_strncpy hf (hnumber _ _ _ _ (by decide) (by decide))

theorem Running.fingerprint_noPercent (r : Running) {h : Host} {pkt : Packet} {b : Bucket}
    {g : Globals} (hok : lmapDecode h r.globals pkt = .ok (b, g)) :
    ∀ f ∈ b.L4.fingerprint, NoPercent f := by
  have halloc : NoPercent fingerprintAlloc := forall_mem_of_all (by decide)
  have hstart : ∀ f ∈ dbBucketAlloc.L4.fingerprint, NoPercent f := nofun
  rw [r.lmapDecode_eq] at hok
  split at hok
  · rename_i v hv
    cases hok
    refine Loop.run_invariant
      (P := fun c : Chain => ∀ f ∈ c.world.bucket.L4.fingerprint, NoPercent f)
      (Q := fun res : Except Fault World =>
        ∀ v, res = .ok v → ∀ f ∈ v.bucket.L4.fingerprint, NoPercent f) ?_ ?_ hstart hv v rfl
    · intro c c' hc hb
      obtain ⟨res, d, hcall, -, -, rfl⟩ := chainBody_again_iff.mp hb
      exact noPercent_kept.call halloc hcall hc
    · rintro c _ hc hb v rfl
      obtain ⟨res, hcall, rfl, -⟩ := chainBody_ok_iff.mp hb
      exact noPercent_kept.call halloc hcall hc
  · cases hok
  · cases hok

theorem plain_ethText (m : List UInt8) : Plain (ethText m) := by
  refine plain_intercalate (by decide) ?_
  intro text htext
  obtain ⟨b, -, rfl⟩ := List.mem_map.mp htext
  exact plain_printUnsigned .upper (by decide) (by decide) 2 _

theorem plain_ip4Text (src : List UInt8) : Plain (ip4Text src) := by
  refine plain_intercalate (by decide) ?_
  intro text htext
  obtain ⟨b, -, rfl⟩ := List.mem_map.mp htext
  exact plain_printUnsigned .lower (by decide) (by decide) 0 _

theorem plain_colonIf {tp : List UInt8} (h : Plain tp) (p : Prop) [Decidable p] :
    Plain (if p then tp ++ lit ":" else tp) := by
  split
  · exact plain_append.mpr ⟨h, by decide⟩
  · exact h

theorem plain_formatWords {words : List Nat} {best : Option ZeroRun} {i : Nat} {rest : List Nat}
    {tp text : List UInt8} (htp : Plain tp) (h : formatWords words best i rest tp = some text) :
    Plain text := by
  induction rest generalizing i tp with
  | nil =>
    cases h
    exact htp
  | cons word rest ih =>
    rw [formatWords] at h
    split at h
    · exact ih (plain_colonIf htp _) h
    · dsimp only at h
      split at h
      · cases h
      · have hword : Plain (printUnsigned .lower 16 0 word) :=
          plain_printUnsigned .lower (by decide) (by decide) 0 word
        exact ih (plain_append.mpr ⟨plain_colonIf htp _, hword⟩) h

theorem plain_ip6Text {src text : List UInt8} {size : Nat} (h : ip6Text src size = some text) :
    Plain text := by
  unfold ip6Text at h
  cases hformat : formatWords (ip6Words src) (bestRun (ip6Words src)) 0 (ip6Words src) [] with
  | none => simp [hformat] at h
  | some tp =>
    have htp := plain_formatWords plain_nil hformat
    have hcolon := plain_colonIf htp
      (∃ b ∈ bestRun (ip6Words src), b.base + b.len = NS_IN6ADDRSZ / NS_INT16SZ)
    simp only [hformat, Option.ite_none_left_eq_some, Option.some.injEq] at h
    rw [← h.2]
    exact hcolon

variable {sa : IpAddr} {buf tmp : List UInt8}

theorem shows_ipAddrNtoa (sa : IpAddr) (h : Shows buf) : Shows (ipAddrNtoa sa buf) := by
  unfold ipAddrNtoa inetNtop4 inetNtop6
  split
  · exact shows_strlcpy (plain_ip4Text sa.addr) buf (by decide)
  · split
    · split
      · exact h
      · rename_i text htext
        exact shows_strlcpy (plain_ip6Text htext) buf (by decide)
    · exact h

theorem plain_scopeWord (scope : UInt8) : Plain (scopeWord scope) := by
  unfold scopeWord
  repeat' split
  all_goals decide

theorem plain_class {c : Ip6Class} (h : ∀ scope, c ≠ .multicast scope) : Plain c.text := by
  cases c with
  | multicast scope => exact absurd rfl (h scope)
  | unspecified | loopback | linkLocal | siteLocal | v4Mapped | v4Compat | other => decide

theorem shows_inetDetails6 (src : List UInt8) (ht : tmp.length = IP6_DETAILS_SIZE) :
    Shows (inetDetails6 src buf tmp) := by
  refine ⟨mem_strlcpy _ _ (by decide), ?_⟩
  cases hm : in6IsAddrMulticast src with
  | true =>
    rw [inetDetails6_multicast hm buf ht]
    exact plain_scopeWord _
  | false =>
    obtain ⟨c, hc, -⟩ := Ip6Class.existsUnique_holds src
    rw [inetDetails6_plain hc hm buf ht]
    exact plain_class (hc.not_multicast hm)

theorem shows_ipAddrDetails (hset : sa.type = AF_INET ∨ sa.type = AF_INET6)
    (ht : tmp.length = IP6_DETAILS_SIZE) : Shows (ipAddrDetails sa buf tmp) := by
  unfold ipAddrDetails
  split
  · exact shows_strcpy plain_nil buf
  · rename_i h4
    rw [if_pos (hset.resolve_left h4)]
    exact shows_inetDetails6 sa.addr ht

theorem shows_ipAddrDetails_of (sa : IpAddr) (h : Shows buf) (ht : tmp.length = IP6_DETAILS_SIZE) :
    Shows (ipAddrDetails sa buf tmp) := by
  by_cases hset : sa.type = AF_INET ∨ sa.type = AF_INET6
  · exact shows_ipAddrDetails hset ht
  · rw [not_or] at hset
    rwa [ipAddrDetails_unset hset.1 hset.2]

/-- The source address is one whose details are written, or there is a harmless text in the buffer
for them already. -/
def Legible (b : Bucket) (s : Stack) : Prop :=
  (b.L3.ipSrc.type = AF_INET ∨ b.L3.ipSrc.type = AF_INET6) ∨ Shows s.details

theorem plain_decArg (n : Nat) : Plain (decArg n) :=
  plain_printUnsigned .lower (by decide) (by decide) 0 n

theorem plain_hexArg (n : Nat) : Plain (hexArg n) :=
  plain_append.mpr ⟨by decide, plain_printUnsigned .lower (by decide) (by decide) 4 n⟩

theorem plain_typeArg (n : Nat) : Plain (typeArg n) :=
  plain_append.mpr ⟨by decide, plain_printUnsigned .lower (by decide) (by decide) 2 n⟩

theorem shows_macBuffer (b : Bucket) (tmp : List UInt8) : Shows (b.macBuffer tmp) :=
  shows_strcpy (plain_ethText b.L2.macDst) _

theorem plain_line {title text : List UInt8} (htitle : Plain title) (htext : Plain text) :
    Plain (title ++ text) := plain_append.mpr ⟨htitle, htext⟩

theorem l2Msgs_plain {b : Bucket} (hb : b.Presentable) (h : Host) (tmp : List UInt8) :
    ∃ l2, l2Msgs (dbBucketSend h b) tmp = .ok (l2, b.macBuffer tmp) ∧ ∀ m ∈ l2, Plain m := by
  have hsrc : Shows (ethAddrNtoa b.L2.macSrc tmp) := shows_strcpy (plain_ethText _) tmp
  have hdst := shows_macBuffer b tmp
  refine ⟨[lit "\n--- L2 INFO ---\n", lit " --> source  " ++ cstr (ethAddrNtoa b.L2.macSrc tmp),
    lit " --> dest    " ++ cstr (b.macBuffer tmp), lit " --> ESSID   " ++ lit "(null)"], ?_, ?_⟩
  · have hends : 0 ∈ ethAddrNtoa b.L2.macDst (ethAddrNtoa b.L2.macSrc tmp) := hdst.ends
    simp only [l2Msgs, dbBucketSend, strArg_ok hsrc.ends, strArg_ok hends, hb.essid]
    rfl
  · simp only [List.forall_mem_cons, List.not_mem_nil, false_imp_iff, implies_true, and_true]
    exact ⟨by decide, plain_line (by decide) hsrc.plain, plain_line (by decide) hdst.plain,
      by decide⟩

theorem addrLine_plain {title tmp details : List UInt8} (htitle : Plain title) (ht : Shows tmp)
    (hd : Shows details) : ∃ line, addrLine title tmp details = .ok line ∧ Plain line := by
  refine ⟨_, addrLine_ok title ht.ends hd.ends, ?_⟩
  exact plain_line (plain_line (plain_line htitle ht.plain) (by decide)) hd.plain

theorem l3Msgs_plain {b : Bucket} {s : Stack} (h : Host) (hs : Legible b s)
    (ht : Shows tmp) : ∃ l3, l3Msgs (dbBucketSend h b) tmp s.details s.first s.second = .ok l3 ∧
      ∀ m ∈ l3, Plain m := by
  have hsrc := shows_ipAddrNtoa b.L3.ipSrc ht
  have hdst := shows_ipAddrNtoa b.L3.ipDst hsrc
  have hdetails : Shows (ipAddrDetails b.L3.ipSrc s.details s.first) := by
    rcases hs with hset | hshows
    · exact shows_ipAddrDetails hset s.first_size
    · exact shows_ipAddrDetails_of b.L3.ipSrc hshows s.first_size
  have hdetails' := shows_ipAddrDetails_of b.L3.ipDst hdetails s.second_size
  obtain ⟨src, hsrc, hplain⟩ :=
    addrLine_plain (by decide : Plain (lit " --> source  ")) hsrc hdetails
  obtain ⟨dst, hdst, hplain'⟩ :=
    addrLine_plain (by decide : Plain (lit " --> dest    ")) hdst hdetails'
  refine ⟨[lit "\n--- L3 INFO ---\n", src, dst, lit " --> proto   " ++ hexArg (ntohs h b.L3.proto),
    lit " --> ttl     " ++ decArg b.L3.ttl.toNat], ?_, ?_⟩
  · simp only [l3Msgs, dbBucketSend, hsrc, hdst, ok_bind]
    rfl
  · simp only [List.forall_mem_cons, List.not_mem_nil, false_imp_iff, implies_true, and_true]
    exact ⟨by decide, hplain, hplain', plain_line (by decide) (plain_hexArg _),
      plain_line (by decide) (plain_decArg _)⟩

theorem l4Msgs_plain {b : Bucket} (hb : b.Presentable)
    (hfinger : ∀ f ∈ b.L4.fingerprint, NoPercent f) (h : Host) :
    ∃ l4, l4Msgs (dbBucketSend h b) = .ok l4 ∧ ∀ m ∈ l4, Plain m := by
  obtain ⟨text, htext, hplain⟩ : ∃ text, strPtr b.L4.fingerprint = .ok text ∧ Plain text := by
    cases hf : b.L4.fingerprint with
    | none => exact ⟨_, rfl, by decide⟩
    | some f =>
      refine ⟨cstr f, strArg_ok (hb.finger f hf).zero_mem, ?_⟩
      intro c hc
      have hmem : c ∈ f := (List.takeWhile_sublist _).mem hc
      have hne := List.mem_takeWhile_imp hc
      exact ⟨hfinger f hf c hmem, by simpa using hne⟩
  refine ⟨[lit "\n--- L4 INFO ---\n", lit " --> source  " ++ decArg (ntohs h b.L4.portSrc),
    lit " --> dest    " ++ decArg (ntohs h b.L4.portDst),
    lit " --> proto   " ++ hexArg (ntohs h b.L4.proto),
    lit " --> finger  " ++ text ++ lit "\n"], ?_, ?_⟩
  · simp only [l4Msgs, dbBucketSend, htext, ok_bind]
    rfl
  · simp only [List.forall_mem_cons, List.not_mem_nil, false_imp_iff, implies_true, and_true]
    exact ⟨by decide, plain_line (by decide) (plain_decArg _),
      plain_line (by decide) (plain_decArg _), plain_line (by decide) (plain_hexArg _),
      plain_line (plain_line (by decide) hplain) (by decide)⟩

theorem dbBucketMsgs_plain {b : Bucket} {s : Stack} (hb : b.Presentable)
    (hfinger : ∀ f ∈ b.L4.fingerprint, NoPercent f) (h : Host) (hs : Legible b s) :
    ∃ x, dbBucketMsgs s (dbBucketSend h b) = .ok x ∧ ∀ m ∈ x.enqueued, Plain m := by
  obtain ⟨l2, hl2, hplain2⟩ := l2Msgs_plain hb h s.tmp
  obtain ⟨l3, hl3, hplain3⟩ := l3Msgs_plain h hs (shows_macBuffer b s.tmp)
  obtain ⟨l4, hl4, hplain4⟩ := l4Msgs_plain hb hfinger h
  refine ⟨⟨l2, l3, l4⟩, ?_, ?_⟩
  · simp only [dbBucketMsgs, hl2, hl3, hl4, ok_bind]
    rfl
  · intro m hm
    simp only [Sections.enqueued, List.mem_append] at hm
    rcases hm with ((hm | hm) | hm) | hm
    · rw [List.mem_singleton.mp hm]
      decide
    · exact hplain2 m hm
    · exact hplain3 m hm
    · exact hplain4 m hm

/-- The details that are not written show what was in the buffer. -/
theorem legible_of_l3Msgs {b : Bucket} {s : Stack} {h : Host} {l3 : List Ui.Message}
    (hl3 : l3Msgs (dbBucketSend h b) tmp s.details s.first s.second = .ok l3)
    (hplain : ∀ m ∈ l3, Plain m) : Legible b s := by
  by_cases hset : b.L3.ipSrc.type = AF_INET ∨ b.L3.ipSrc.type = AF_INET6
  · exact .inl hset
  · rw [not_or] at hset
    have hdetails : ipAddrDetails b.L3.ipSrc s.details s.first = s.details :=
      ipAddrDetails_unset hset.1 hset.2
    have hline := hplain _ (List.mem_of_getElem? (l3Msgs_source hl3))
    simp only [l3Msgs, bind_ok_iff, addrLine_ok_iff] at hl3
    obtain ⟨src, ⟨-, hends, -⟩, -⟩ := hl3
    simp only [dbBucketSend, hdetails, plain_append] at hends hline
    exact .inr ⟨hends, hline.2⟩

theorem plain_icmpMsgs {title : List UInt8} (htitle : Plain title) (buflen n : Nat) :
    ∀ m ∈ [title ++ hexArg buflen ++ lit " bytes\n", lit " --> type   " ++ typeArg n ++ lit "\n"],
      Plain m := by
  simp only [List.forall_mem_cons, List.not_mem_nil, false_imp_iff, implies_true, and_true]
  exact ⟨plain_line (plain_line htitle (plain_hexArg _)) (by decide),
    plain_line (plain_line (by decide) (plain_typeArg _)) (by decide)⟩

theorem plain_extensionMsgs (nextHdr : Nat) : ∀ m ∈ extensionMsgs nextHdr, Plain m := by
  unfold extensionMsgs
  repeat' split
  all_goals decide

theorem icmpMsgs_plain {title : List UInt8} (htitle : Plain title) {e : Env} {p n : Nat}
    {type : UInt8} (hread : readU8 e.mem p = .ok type) :
    ∃ msgs, icmpMsgs title e p n = .ok msgs ∧ ∀ m ∈ msgs, Plain m := by
  refine ⟨_, ?_, plain_icmpMsgs htitle n type.toNat⟩
  rw [icmpMsgs, hread, ok_bind]
  rfl

/-- What a decoder prints, it has read before. -/
theorem msgs_of_call {e : Env} {d : Decoder} {p n : Nat} {w : World} {r : Ret}
    (h : d.call e p n w = .ok r) : ∃ msgs, d.msgs e p n = .ok msgs ∧ ∀ m ∈ msgs, Plain m := by
  cases d with
  | icmp =>
    simp only [Decoder.call, decodeIcmp, bind_ok_iff] at h
    obtain ⟨type, htype, -⟩ := h
    exact icmpMsgs_plain (by decide) htype
  | icmp6 =>
    simp only [Decoder.call, decodeIcmp6, bind_ok_iff] at h
    obtain ⟨type, htype, -⟩ := h
    exact icmpMsgs_plain (by decide) htype
  | ip6 =>
    simp only [Decoder.call, decodeIp6, bind_ok_iff] at h
    obtain ⟨len, hlen, ⟨src, c⟩, -, ⟨dst, c'⟩, -, hop, -, next, hnext, -⟩ := h
    refine ⟨_, by rw [Decoder.msgs, ip6Msgs, hlen, ok_bind, hnext, ok_bind]; rfl, ?_⟩
    intro m hm
    rcases List.mem_append.mp hm with hm | hm
    · split at hm
      · rw [List.mem_singleton.mp hm]
        decide
      · cases hm
    · exact plain_extensionMsgs _ m hm
  | dhcpd | dhcpc => exact ⟨_, rfl, by decide⟩
  | arp | eth | ip | tcp | udp | wifi => exact ⟨[], rfl, List.forall_mem_nil _⟩

theorem callMsgs_plain {e : Env} {calls : List Chain} (h : ∀ c ∈ calls, ∃ r, c.call e = .ok r) :
    ∃ msgs, callMsgs e calls = .ok msgs ∧ ∀ m ∈ msgs, Plain m := by
  induction calls with
  | nil => exact ⟨[], rfl, nofun⟩
  | cons c calls ih =>
    obtain ⟨⟨r, hcall⟩, hcalls⟩ := List.forall_mem_cons.mp h
    obtain ⟨msgs, hmsgs, hplain⟩ := msgs_of_call hcall
    obtain ⟨rest, hrest, hplain'⟩ := ih hcalls
    refine ⟨msgs ++ rest, ?_, List.forall_mem_append.mpr ⟨hplain, hplain'⟩⟩
    rw [callMsgs, hmsgs, ok_bind, hrest, ok_bind]
    rfl

theorem plain_headMsgs (pkt : Packet) : ∀ m ∈ headMsgs pkt, Plain m := by
  simp only [headMsgs, List.forall_mem_cons, List.not_mem_nil, false_imp_iff, implies_true,
    and_true]
  exact ⟨by decide, by decide, plain_line (plain_line (by decide) (plain_hexArg _)) (by decide)⟩

section Transcript

variable {h : Host} {pkt : Packet} {b : Bucket} {g : Globals} {s : Stack}

theorem Running.calls_return (r : Running) (hok : lmapDecode h r.globals pkt = .ok (b, g)) :
    ∀ c ∈ lmapCalls ROUNDS h r.globals pkt, ∃ ret, c.call (lmapEnv h r.globals pkt) = .ok ret := by
  intro c hc
  rw [r.lmapCalls_eq] at hc
  rw [r.lmapDecode_eq] at hok
  split at hok
  · rename_i v hv
    cases hbody : chainBody (lmapEnv h r.globals pkt) c with
    | again c' =>
      obtain ⟨ret, d, hcall, -⟩ := chainBody_again_iff.mp hbody
      exact ⟨ret, hcall⟩
    | leave res =>
      -- the loop ends here, and it has ended with a result
      obtain ⟨m, -, hrun⟩ := Loop.run_of_visit hc hv
      cases m with
      | zero => cases hrun
      | succ m =>
        rw [Loop.run_leave hbody] at hrun
        cases hrun
        obtain ⟨ret, hcall, -⟩ := chainBody_ok_iff.mp hbody
        exact ⟨ret, hcall⟩
  · cases hok
  · cases hok

theorem Running.lmapMsgs_plain (r : Running) (hok : lmapDecode h r.globals pkt = .ok (b, g))
    (hs : Legible b s) :
    ∃ msgs, lmapMsgs h r.globals pkt s = .ok (msgs, g) ∧ ∀ m ∈ msgs, Plain m := by
  obtain ⟨decoders, hdecoders, hplain⟩ := callMsgs_plain (r.calls_return hok)
  obtain ⟨x, hx, hplain'⟩ := dbBucketMsgs_plain (r.lmapDecode_presentable hok)
    (r.fingerprint_noPercent hok) h hs
  refine ⟨headMsgs pkt ++ decoders ++ x.enqueued, ?_, ?_⟩
  · simp only [lmapMsgs, hok, hdecoders, hx, ok_bind]
    rfl
  · exact List.forall_mem_append.mpr
      ⟨List.forall_mem_append.mpr ⟨plain_headMsgs pkt, hplain⟩, hplain'⟩

theorem Running.legible_of_lmapMsgs (r : Running) (hok : lmapDecode h r.globals pkt = .ok (b, g))
    {msgs : List Ui.Message} (hmsgs : lmapMsgs h r.globals pkt s = .ok (msgs, g))
    (hplain : ∀ m ∈ msgs, Plain m) : Legible b s := by
  simp only [lmapMsgs, hok, ok_bind, bind_ok_iff] at hmsgs
  obtain ⟨decoders, -, x, hx, hmsgs⟩ := hmsgs
  cases hmsgs
  simp only [dbBucketMsgs, bind_ok_iff] at hx
  obtain ⟨⟨l2, tmp⟩, -, l3, hl3, l4, -, hx⟩ := hx
  cases hx
  refine legible_of_l3Msgs hl3 fun m hm => hplain m ?_
  simp only [Sections.enqueued, List.mem_append]
  exact .inr (.inl (.inr hm))

/-- All that is said about a packet is read from inside the buffers and can be given to a function
that takes it for a format, exactly if the source address has been filled in or the stack happens
to hold a text that is harmless itself. -/
theorem transcript_plain_iff (r : Running) (hok : lmapDecode h r.globals pkt = .ok (b, g)) :
    (∃ msgs, lmapMsgs h r.globals pkt s = .ok (msgs, g) ∧ ∀ m ∈ msgs, Plain m) ↔ Legible b s := by
  constructor
  · rintro ⟨msgs, hmsgs, hplain⟩
    exact r.legible_of_lmapMsgs hok hmsgs hplain
  · exact r.lmapMsgs_plain hok

theorem transcript_plain_arp : ∃ b g,
    lmapDecode ⟨false, 64⟩ (Running.listed .eth).globals (arpTo 1) = .ok (b, g) ∧
    ∃ msgs, lmapMsgs ⟨false, 64⟩ (Running.listed .eth).globals (arpTo 1) Stack.dirty =
      .ok (msgs, g) ∧ ∀ m ∈ msgs, Plain m := by
  have hrun : (lmapDecode ⟨false, 64⟩ (Running.listed .eth).globals (arpTo 1)).map
      (fun res => res.1.L3.ipSrc.type) = .ok AF_INET := by decide +kernel
  obtain ⟨⟨b, g⟩, hok, htype⟩ := map_ok_iff.mp hrun
  exact ⟨b, g, hok, (transcript_plain_iff (Running.listed .eth) hok).mpr (.inl (.inl htype))⟩

end Transcript

end Lmap
