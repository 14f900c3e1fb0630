import Lmap.DecoderSpec
import Lmap.Wire

/-! ARP packets as their senders write them, and the addresses that are read from them. -/

set_option autoImplicit false

namespace Lmap

inductive Family where
  | inet | inet6
  deriving DecidableEq, Repr

namespace Family

def type : Family → Int
  | .inet => AF_INET
  | .inet6 => AF_INET6

def size : Family → Nat
  | .inet => IP_ADDR_LEN
  | .inet6 => IP6_ADDR_LEN

theorem size_ge (fam : Family) : 4 ≤ fam.size := by cases fam <;> decide

end Family

structure Arp (fam : Family) where
  hrd : UInt16
  pro : UInt16
  op : UInt16
  sha : Octets 6
  spa : Octets fam.size
  tha : Octets 6
  tpa : Octets fam.size

namespace Arp

variable {fam : Family}

def header (arp : Arp fam) : List UInt8 :=
  be16 arp.hrd ++ (be16 arp.pro ++
    (UInt8.ofNat ETH_ADDR_LEN :: UInt8.ofNat fam.size :: be16 arp.op))

def encode (arp : Arp fam) : List UInt8 :=
  arp.header ++ (arp.sha.val ++ (arp.spa.val ++ (arp.tha.val ++ arp.tpa.val)))

@[simp] theorem header_length (arp : Arp fam) : arp.header.length = 8 := rfl

@[simp] theorem encode_length (arp : Arp fam) :
    arp.encode.length = 8 + (6 + (fam.size + (6 + fam.size))) := by
  simp [encode, arp.sha.property, arp.spa.property, arp.tha.property, arp.tpa.property]

/-- The bytes at the place where the target address of four bytes would be. -/
def overlaid (arp : Arp fam) : List UInt8 :=
  ((arp.spa.val ++ (arp.tha.val ++ arp.tpa.val)).drop 10).take fam.size

end Arp

/-- An address is stored: its family, its size and its bytes. -/
structure IpAddr.Stores (sa : IpAddr) (fam : Family) (bytes : List UInt8) : Prop where
  type : sa.type = fam.type
  size : sa.addrSize = fam.size
  addr : sa.addr.take fam.size = bytes

section Addresses

variable {e : Env} {p : Nat} {fam : Family}

theorem ipAddrInit_family (sa : IpAddr) {bs : List UInt8} (h : e.mem.Holds p bs)
    (hlen : bs.length = fam.size) :
    ∃ sa', ipAddrInit e.mem sa fam.type p = .ok (sa', ESUCCESS) ∧ sa'.Stores fam bs := by
  cases fam with
  | inet =>
    refine ⟨_, ipAddrInit_inet sa h hlen, rfl, rfl, ?_⟩
    exact List.take_left' hlen
  | inet6 =>
    refine ⟨_, ipAddrInit_inet6 sa h hlen, rfl, rfl, ?_⟩
    exact List.take_left' hlen

theorem arpAddrs_family (L3 : L3Info) {src dst : List UInt8} (hsrc : e.mem.Holds (p + 6) src)
    (hdst : e.mem.Holds (p + 16) dst) (hs : src.length = fam.size) (hd : dst.length = fam.size) :
    ∃ L3', arpAddrs e p fam.type L3 = .ok L3' ∧ L3'.ipSrc.Stores fam src ∧
      L3'.ipDst.Stores fam dst := by
  obtain ⟨ipSrc, hs1, hs2⟩ := ipAddrInit_family L3.ipSrc hsrc hs
  obtain ⟨ipDst, hd1, hd2⟩ := ipAddrInit_family L3.ipDst hdst hd
  exact ⟨{ L3 with ipSrc := ipSrc, ipDst := ipDst },
    by simp only [arpAddrs, hs1, hd1, bind, Except.bind, pure, Except.pure], hs2, hd2⟩

end Addresses

section Decode

variable {e : Env} {buf n : Nat} {w : World} {fam : Family}

namespace Arp

theorem overlaid_length (arp : Arp fam) : arp.overlaid.length = fam.size := by
  have hsize := fam.size_ge
  rw [overlaid, List.length_take_of_le]
  simp only [List.length_drop, List.length_append, arp.spa.property, arp.tha.property,
    arp.tpa.property]
  omega

theorem overlaid_inet (arp : Arp .inet) : arp.overlaid = arp.tpa.val := by
  have hspa : arp.spa.val.length = 4 := arp.spa.property
  have htha : arp.tha.val.length = 6 := arp.tha.property
  have htpa : arp.tpa.val.length = 4 := arp.tpa.property
  have hlen : (arp.spa.val ++ arp.tha.val).length = 10 := by simp [hspa, htha]
  rw [overlaid, ← List.append_assoc, List.drop_left' hlen]
  exact List.take_of_length_le (Nat.le_of_eq htpa)

theorem overlaid_inet6 (arp : Arp .inet6) :
    arp.overlaid = arp.spa.val.drop 10 ++ (arp.tha.val ++ arp.tpa.val.take 4) := by
  have hspa : arp.spa.val.length = 16 := arp.spa.property
  have htha : arp.tha.val.length = 6 := arp.tha.property
  have hdrop : (arp.spa.val.drop 10).length = 6 := by simp [hspa]
  have hsplit : arp.spa.val.drop 10 ++ (arp.tha.val ++ arp.tpa.val) =
      (arp.spa.val.drop 10 ++ (arp.tha.val ++ arp.tpa.val.take 4)) ++ arp.tpa.val.drop 4 := by
    simp only [List.append_assoc, List.take_append_drop]
  have htpa : arp.tpa.val.length = 16 := arp.tpa.property
  rw [overlaid, List.drop_append_of_le_length (by omega), hsplit]
  exact List.take_left' (by simp [hdrop, htha, htpa, Family.size, IP6_ADDR_LEN])

theorem holds (arp : Arp fam) (h : e.mem.Holds buf arp.encode) :
    e.mem.Holds (buf + 4) [UInt8.ofNat ETH_ADDR_LEN, UInt8.ofNat fam.size] ∧
      e.mem.Holds (buf + 8 + 6) arp.spa.val ∧ e.mem.Holds (buf + 8 + 16) arp.overlaid := by
  rw [encode, Memory.holds_append, header_length, Memory.holds_append, arp.sha.property] at h
  obtain ⟨hheader, -, haddrs⟩ := h
  have hspa := ((Memory.holds_append _ _ _).mp haddrs).1
  simp only [header, Memory.holds_append, be16_length, Memory.holds_cons] at hheader
  obtain ⟨-, -, hhln, hpln, -⟩ := hheader
  refine ⟨⟨hhln, hpln, trivial⟩, hspa, ?_⟩
  have hsize := fam.size_ge
  have hlen : (arp.spa.val ++ (arp.tha.val ++ arp.tpa.val)).length = 2 * fam.size + 6 := by
    simp only [List.length_append, arp.spa.property, arp.tha.property, arp.tpa.property]
    omega
  have hrest := (haddrs.split (k := 10) (by omega)).2
  exact (hrest.split (by rw [List.length_drop]; omega)).1

end Arp

/-- The sender's address is stored as it was sent, the target's from where the shorter one
stands. -/
theorem decodeArp_encode (arp : Arp fam) (h : e.mem.Holds buf arp.encode) :
    ∃ r, decodeArp e buf n w = .ok r ∧ r.len = arp.encode.length ∧
      r.world.bucket.L3.ipSrc.Stores fam arp.spa.val ∧
      r.world.bucket.L3.ipDst.Stores fam arp.overlaid := by
  obtain ⟨⟨hhln, hpln, -⟩, hsrc, hdst⟩ := arp.holds h
  obtain ⟨L3, haddrs, hs, hd⟩ := arpAddrs_family
    { w.bucket.L3 with proto := htons e.host LL_TYPE_ARP, ttl := 1 } hsrc hdst arp.spa.property
    arp.overlaid_length
  refine ⟨⟨none, 8 + 2 * (6 + fam.size), updateStat w.stats "ARP" 1, { w.bucket with L3 := L3 }⟩,
    ?_, ?_, hs, hd⟩
  · simp only [decodeArp, readU8_of_some hhln, readU8_of_some hpln, bind, Except.bind]
    cases fam with
    | inet =>
      rw [if_pos (by decide), show AF_INET = Family.inet.type from rfl, haddrs]
      dsimp only
      rw [if_neg (by decide)]
      rfl
    | inet6 =>
      rw [if_neg (by decide)]
      dsimp only
      rw [if_pos (by decide), show AF_INET6 = Family.inet6.type from rfl, haddrs]
      rfl
  · rw [arp.encode_length]
    change 8 + 2 * (6 + fam.size) = _
    omega

def Arp.Decoded (arp : Arp fam) (res : Except Fault Ret) : Prop :=
  ∃ r, res = .ok r ∧ r.len = arp.encode.length ∧
    r.world.bucket.L3.ipSrc.Stores fam arp.spa.val ∧ r.world.bucket.L3.ipDst.Stores fam arp.tpa.val

/-- The addresses are right if and only if they have four bytes, or the bytes before the target
address, from where the one of four bytes would stand, are the same. -/
theorem decodeArp_addresses_iff (e : Env) (buf n : Nat) (w : World) (fam : Family)
    (arp : Arp fam) (h : e.mem.Holds buf arp.encode) :
    arp.Decoded (decodeArp e buf n w) ↔
      fam = .inet ∨
        arp.tpa.val = arp.spa.val.drop 10 ++ (arp.tha.val ++ arp.tpa.val.take 4) := by
  obtain ⟨r, hok, hlen, hsrc, hdst⟩ := decodeArp_encode (n := n) (w := w) arp h
  have hiff : arp.Decoded (decodeArp e buf n w) ↔ arp.tpa.val = arp.overlaid := by
    constructor
    · rintro ⟨r', hok', -, -, hdst'⟩
      cases hok.symm.trans hok'
      exact hdst'.addr.symm.trans hdst.addr
    · intro heq
      exact ⟨r, hok, hlen, hsrc, heq ▸ hdst⟩
  rw [hiff]
  cases fam with
  | inet => exact iff_of_true arp.overlaid_inet.symm (.inl rfl)
  | inet6 =>
    rw [arp.overlaid_inet6]
    exact ⟨.inr, fun h => h.resolve_left nofun⟩

end Decode

def neighbourArp : Arp .inet6 where
  hrd := 1
  pro := 0x86dd
  op := 1
  sha := ⟨[2, 0, 0, 0, 0, 2], rfl⟩
  spa := ⟨[0x20, 0x01, 0x0d, 0xb8, 0, 0, 0, 0, 0, 0, 0, 0, 0, 0, 0, 2], rfl⟩
  tha := ⟨[0, 0, 0, 0, 0, 0], rfl⟩
  tpa := ⟨[0x20, 0x01, 0x0d, 0xb8, 0, 0, 0, 0, 0, 0, 0, 0, 0, 0, 0, 1], rfl⟩

def neighbourEnv : Env := ⟨⟨false, 64⟩, 0, Memory.ofList neighbourArp.encode, registrations⟩

theorem neighbourArp_holds : neighbourEnv.mem.Holds 0 neighbourArp.encode := by
  have hmem : neighbourEnv.mem = Memory.append neighbourArp.encode (fun _ => none) :=
    (Memory.append_none _).symm
  rw [hmem]
  exact Memory.holds_append_left _ _

theorem decodeArp_neighbour :
    neighbourArp.Decoded (decodeArp neighbourEnv 0 52 ⟨Stats.empty, dbBucketAlloc⟩) ↔
      Family.inet6 = .inet ∨ neighbourArp.tpa.val =
        neighbourArp.spa.val.drop 10 ++ (neighbourArp.tha.val ++ neighbourArp.tpa.val.take 4) :=
  decodeArp_addresses_iff neighbourEnv 0 52 _ .inet6 neighbourArp neighbourArp_holds

theorem neighbourArp_not_decoded :
    ¬ neighbourArp.Decoded (decodeArp neighbourEnv 0 52 ⟨Stats.empty, dbBucketAlloc⟩) := by
  rintro ⟨r, hok, -, -, hdst⟩
  cases hok
  exact absurd hdst.addr (by decide)

end Lmap
