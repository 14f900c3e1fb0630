import Lmap.AddressCompare
import Lmap.Library.CString
import Lmap.Wire

/-!
The addresses of an interface, which the kernel keeps: what is set and what is read back.
-/

set_option autoImplicit false

namespace Lmap
open CString

def IFNAMSIZ : Nat := 16

def SA_DATA_LEN : Nat := 14

/-- `struct ifreq`: `ifr_name`, and `ifr_addr`, which shares its place with `ifr_netmask`. -/
structure Ifreq where
  name : Octets IFNAMSIZ
  family : Int
  data : Octets SA_DATA_LEN
  deriving DecidableEq

inductive Request where
  | SIOCGIFADDR | SIOCSIFADDR | SIOCGIFNETMASK | SIOCSIFNETMASK
  deriving DecidableEq, Repr

/-- `ioctl` on a datagram socket. It leaves no request if it returns less than 0, which it does
without a socket. -/
structure Kernel (K : Type) where
  ioctl : K → Request → Ifreq → K × Option Ifreq

theorem ifreq_name_length (iface : List UInt8) :
    (strncpy (List.replicate IFNAMSIZ 0) 0 iface IFNAMSIZ).length = IFNAMSIZ := by
  rw [strncpy_length (by rw [List.length_replicate, Nat.zero_add]), List.length_replicate]

theorem ifreq_data_length : (List.replicate SA_DATA_LEN (0 : UInt8)).length = SA_DATA_LEN :=
  List.length_replicate

def Ifreq.named (iface : List UInt8) : Ifreq where
  name := ⟨strncpy (List.replicate IFNAMSIZ 0) 0 iface IFNAMSIZ, ifreq_name_length iface⟩
  family := 0
  data := ⟨List.replicate SA_DATA_LEN 0, ifreq_data_length⟩

def Ifreq.inet (iface : List UInt8) : Ifreq := { Ifreq.named iface with family := AF_INET }

def Ifreq.address (ifr : Ifreq) : List UInt8 := (ifr.data.val.drop 2).take IP_ADDR_LEN

theorem ifreq_strncpy_length (ifr : Ifreq) (src : List UInt8) :
    (strncpy ifr.data.val 2 src IP_ADDR_LEN).length = SA_DATA_LEN := by
  have hlen := ifr.data.property
  rw [strncpy_length (by rw [hlen]; decide), hlen]

/-- `strncpy` to `sa_data + 2`, of the bytes of `src` up to a zero. -/
def Ifreq.copyString (ifr : Ifreq) (src : List UInt8) : Ifreq :=
  { ifr with data := ⟨strncpy ifr.data.val 2 (cstr src) IP_ADDR_LEN, ifreq_strncpy_length ifr _⟩ }

theorem ifreq_memcpy_length (ifr : Ifreq) (bytes : Octets 4) :
    (ifr.data.val.take 2 ++ (bytes.val ++ ifr.data.val.drop 6)).length = SA_DATA_LEN := by
  have hlen := ifr.data.property
  have hbytes := bytes.property
  simp only [List.length_append, List.length_take, List.length_drop, hlen, hbytes]
  decide

/-- `memcpy` of `IP_ADDR_LEN` bytes to `sa_data + 2`. -/
def Ifreq.copyBytes (ifr : Ifreq) (bytes : Octets 4) : Ifreq :=
  { ifr with data :=
      ⟨ifr.data.val.take 2 ++ (bytes.val ++ ifr.data.val.drop 6), ifreq_memcpy_length ifr bytes⟩ }

def littleBytes (x : UInt32) : List UInt8 :=
  [0, 8, 16, 24].map fun i => UInt8.ofNat (x.toNat / 2 ^ i)

theorem store32_length (h : Host) (x : UInt32) :
    (if h.bigEndian then (littleBytes x).reverse else littleBytes x).length = 4 := by
  split <;> rfl

def store32 (h : Host) (x : UInt32) : Octets 4 :=
  ⟨if h.bigEndian then (littleBytes x).reverse else littleBytes x, store32_length h x⟩

def load32 (h : Host) (bytes : List UInt8) : UInt32 :=
  UInt32.ofNat (Nat.ofDigits 256
    ((if h.bigEndian then bytes.reverse else bytes).map UInt8.toNat))

theorem load32_store32 (h : Host) (x : UInt32) : load32 h (store32 h x).val = x := by
  have hbytes : (if h.bigEndian then (store32 h x).val.reverse else (store32 h x).val) =
      littleBytes x := by
    cases hb : h.bigEndian <;> simp [store32, hb]
  have hx := x.toNat_lt
  rw [load32, hbytes]
  apply UInt32.toNat.inj
  simp only [littleBytes, List.map_cons, List.map_nil, UInt8.toNat_ofNat', Nat.ofDigits_cons,
    Nat.ofDigits_nil, UInt32.toNat_ofNat']
  omega

section Calls

variable {K : Type} (kernel : Kernel K) (k : K) (iface : List UInt8)

def getIfaceIp (ipa : Option IpAddr) (type : Int) : Except Fault (K × Option IpAddr × Int) :=
  match ipa with
  | none => pure (k, none, -EINVALID)
  | some ipa =>
    if type = AF_INET then
      match kernel.ioctl k .SIOCGIFADDR (.named iface) with
      | (k, none) => pure (k, some ipa, -ENOADDRESS)
      | (k, some ifr) => do
        let (ipa, _) ← ipAddrInit (.ofList ifr.data.val) ipa AF_INET 2
        pure (k, some ipa, ESUCCESS)
    else if type = AF_INET6 then pure (k, some ipa, ESUCCESS)
    else .error (.error "invalid address type")

/-- A type that is neither goes past the `switch`. -/
def setIfaceIp (ipa : Option IpAddr) (type : Int) : K × Int :=
  match ipa with
  | none => (k, -EINVALID)
  | some ipa =>
    if type = AF_INET then
      let ifr := (Ifreq.inet iface).copyString ipa.addr
      match kernel.ioctl k .SIOCSIFADDR ifr with
      | (k, none) => (k, -ENOADDRESS)
      | (k, some _) => (k, ESUCCESS)
    else if type = AF_INET6 then (k, -ENOADDRESS)
    else (k, ESUCCESS)

def getIfaceMask (h : Host) (netmask : Option UInt32) : K × Option UInt32 × Int :=
  match netmask with
  | none => (k, none, -EINVALID)
  | some netmask =>
    match kernel.ioctl k .SIOCGIFNETMASK (.named iface) with
    | (k, none) => (k, some netmask, -ENOADDRESS)
    | (k, some ifr) => (k, some (load32 h ifr.address), ESUCCESS)

def setIfaceMask (h : Host) (netmask : Option UInt32) : K × Int :=
  match netmask with
  | none => (k, -EINVALID)
  | some netmask =>
    let ifr := (Ifreq.inet iface).copyBytes (store32 h netmask)
    match kernel.ioctl k .SIOCSIFNETMASK ifr with
    | (k, none) => (k, -ENOADDRESS)
    | (k, some _) => (k, ESUCCESS)

/-- What is set by the one request for an interface is what the other gets. -/
def Stores (set get : Request) : Prop :=
  ∀ k k' ifr ifr', ifr.family = AF_INET → kernel.ioctl k set ifr = (k', some ifr') →
    ∀ r, r.name = ifr.name →
      ∃ k'' r', kernel.ioctl k' get r = (k'', some r') ∧ r'.address = ifr.address

/-- Once the address has been set, getting it gives an equal one. -/
def AddressRoundTrip (a : IpAddr) : Prop :=
  ∀ k', setIfaceIp kernel k iface (some a) AF_INET = (k', ESUCCESS) →
    ∀ b, ∃ k'' b', getIfaceIp kernel k' iface (some b) AF_INET = .ok (k'', some b', ESUCCESS) ∧
      ipAddrCmp a b' = 1

def MaskRoundTrip (h : Host) (mask : UInt32) : Prop :=
  ∀ k', setIfaceMask kernel k iface h (some mask) = (k', ESUCCESS) →
    ∀ old, ∃ k'', getIfaceMask kernel k' iface h (some old) = (k'', some mask, ESUCCESS)

end Calls

structure IpAddr.IsInet (a : IpAddr) : Prop where
  type : a.type = AF_INET
  size : a.addrSize = IP_ADDR_LEN
  length : a.addr.length = MAX_ADDR_LEN

variable {K : Type} {kernel : Kernel K} {k k' : K} {iface : List UInt8} {a : IpAddr}

theorem copyString_address (ifr : Ifreq) (src : List UInt8) :
    (ifr.copyString src).address = (cstr src ++ List.replicate IP_ADDR_LEN 0).take IP_ADDR_LEN := by
  have hlen := ifr.data.property
  exact strncpy_read (by rw [hlen]; decide) _ _

theorem copyBytes_address (ifr : Ifreq) (bytes : Octets 4) :
    (ifr.copyBytes bytes).address = bytes.val := by
  have hlen := ifr.data.property
  have htwo : (ifr.data.val.take 2).length = 2 := List.length_take_of_le (by rw [hlen]; decide)
  have hbytes : bytes.val.length = IP_ADDR_LEN := bytes.property
  rw [Ifreq.address, Ifreq.copyBytes]
  dsimp only
  rw [List.drop_append_of_le_length htwo.ge, List.drop_of_length_le htwo.le, List.nil_append,
    List.take_append_of_le_length hbytes.ge, List.take_of_length_le hbytes.le]

theorem setIfaceIp_ok (h : setIfaceIp kernel k iface (some a) AF_INET = (k', ESUCCESS)) :
    ∃ ifr, kernel.ioctl k .SIOCSIFADDR
      ((Ifreq.inet iface).copyString a.addr) = (k', some ifr) := by
  simp only [setIfaceIp, if_true] at h
  split at h
  · exact absurd (Prod.mk.inj h).2 (by decide)
  · rename_i k₁ ifr hioctl
    obtain ⟨rfl, -⟩ := Prod.mk.inj h
    exact ⟨ifr, hioctl⟩

theorem setIfaceMask_ok {h : Host} {mask : UInt32}
    (hset : setIfaceMask kernel k iface h (some mask) = (k', ESUCCESS)) :
    ∃ ifr, kernel.ioctl k .SIOCSIFNETMASK
      ((Ifreq.inet iface).copyBytes (store32 h mask)) =
        (k', some ifr) := by
  simp only [setIfaceMask] at hset
  split at hset
  · exact absurd (Prod.mk.inj hset).2 (by decide)
  · rename_i k₁ ifr hioctl
    obtain ⟨rfl, -⟩ := Prod.mk.inj hset
    exact ⟨ifr, hioctl⟩

theorem Ifreq.holds_address (ifr : Ifreq) : (Memory.ofList ifr.data.val).Holds 2 ifr.address := by
  have hlen := ifr.data.property
  have hall : (Memory.ofList ifr.data.val).Holds 0 ifr.data.val := by
    rw [← Memory.append_none]
    exact Memory.holds_append_left _ _
  have htail : (Memory.ofList ifr.data.val).Holds 2 (ifr.data.val.drop 2) := by
    simpa using (hall.split (k := 2) (by rw [hlen]; decide)).2
  exact (htail.split (by rw [List.length_drop, hlen]; decide)).1

theorem Ifreq.address_length (ifr : Ifreq) : ifr.address.length = IP_ADDR_LEN := by
  rw [Ifreq.address, List.length_take, List.length_drop, ifr.data.property]
  rfl

theorem getIfaceIp_of_ioctl {ifr : Ifreq}
    (h : kernel.ioctl k .SIOCGIFADDR (.named iface) = (k', some ifr)) (b : IpAddr) :
    getIfaceIp kernel k iface (some b) AF_INET =
      .ok (k', some ⟨AF_INET, 4, ifr.address ++ b.addr.drop 4⟩, ESUCCESS) := by
  have hinit := ipAddrInit_inet b ifr.holds_address ifr.address_length
  simp only [getIfaceIp, if_true, h, hinit, bind, Except.bind, pure, Except.pure]

theorem ipAddrCmp_inet (ha : a.IsInet) {bytes : List UInt8} (hlen : bytes.length = IP_ADDR_LEN)
    (rest : List UInt8) :
    ipAddrCmp a ⟨AF_INET, 4, bytes ++ rest⟩ = 1 ↔ bytes = a.addr.take IP_ADDR_LEN := by
  have htake : (bytes ++ rest).take a.addrSize = bytes := by
    rw [ha.size, ← hlen, List.take_left]
  rw [ipAddrCmp, if_neg (not_not.mpr ha.type), htake, ha.size]
  constructor
  · intro h
    by_contra hne
    rw [if_neg (Ne.symm hne)] at h
    exact absurd h (by decide)
  · rintro rfl
    rw [if_pos rfl]

/-- What comes back is the address up to its first zero. -/
theorem addressRoundTrip_iff (hstores : Stores kernel .SIOCSIFADDR .SIOCGIFADDR)
    (ha : a.IsInet) (hset : (setIfaceIp kernel k iface (some a) AF_INET).2 = ESUCCESS) :
    AddressRoundTrip kernel k iface a ↔ ZerosLast (a.addr.take IP_ADDR_LEN) := by
  have hlen : IP_ADDR_LEN ≤ a.addr.length := by
    rw [ha.length]
    decide
  have hset : setIfaceIp kernel k iface (some a) AF_INET =
      ((setIfaceIp kernel k iface (some a) AF_INET).1, ESUCCESS) := Prod.ext rfl hset
  obtain ⟨ifr, hioctl⟩ := setIfaceIp_ok hset
  obtain ⟨k₂, ifr₂, hget, haddress⟩ := hstores _ _ _ _ rfl hioctl (.named iface) rfl
  rw [copyString_address] at haddress
  have hcmp : ∀ b : IpAddr, ipAddrCmp a ⟨AF_INET, 4, ifr₂.address ++ b.addr.drop 4⟩ = 1 ↔
      ZerosLast (a.addr.take IP_ADDR_LEN) := by
    intro b
    rw [ipAddrCmp_inet ha ifr₂.address_length, haddress, take_cstr_iff hlen le_rfl]
  constructor
  · intro h
    obtain ⟨k₃, b', hback, hone⟩ := h _ hset a
    rw [getIfaceIp_of_ioctl hget] at hback
    cases hback
    exact (hcmp a).mp hone
  · intro hzeros k₁ hset₁ b
    obtain rfl := congrArg Prod.fst (hset.symm.trans hset₁)
    exact ⟨k₂, _, getIfaceIp_of_ioctl hget b, (hcmp b).mpr hzeros⟩

theorem maskRoundTrip (hstores : Stores kernel .SIOCSIFNETMASK .SIOCGIFNETMASK) (k : K)
    (iface : List UInt8) (h : Host) (mask : UInt32) : MaskRoundTrip kernel k iface h mask := by
  intro k' hset old
  obtain ⟨ifr, hioctl⟩ := setIfaceMask_ok hset
  obtain ⟨k₂, ifr₂, hget, haddress⟩ := hstores _ _ _ _ rfl hioctl (.named iface) rfl
  rw [copyBytes_address] at haddress
  refine ⟨k₂, ?_⟩
  simp only [getIfaceMask, hget, haddress, load32_store32]

/-- A mask that is set comes back, and an address if no other byte follows its first zero. -/
theorem ifaceRoundTrip_iff (haddress : Stores kernel .SIOCSIFADDR .SIOCGIFADDR)
    (hnetmask : Stores kernel .SIOCSIFNETMASK .SIOCGIFNETMASK) (ha : a.IsInet)
    (hset : (setIfaceIp kernel k iface (some a) AF_INET).2 = ESUCCESS) (h : Host) (mask : UInt32) :
    (AddressRoundTrip kernel k iface a ∧ MaskRoundTrip kernel k iface h mask) ↔
      ZerosLast (a.addr.take IP_ADDR_LEN) := by
  rw [addressRoundTrip_iff haddress ha hset]
  exact and_iff_left (maskRoundTrip hnetmask k iface h mask)

structure Ifaces where
  addr : Octets IFNAMSIZ → Option (Octets SA_DATA_LEN)
  mask : Octets IFNAMSIZ → Option (Octets SA_DATA_LEN)

def keeping : Kernel Ifaces where
  ioctl k
    | .SIOCGIFADDR, ifr => (k, (k.addr ifr.name).map fun data => ⟨ifr.name, AF_INET, data⟩)
    | .SIOCGIFNETMASK, ifr => (k, (k.mask ifr.name).map fun data => ⟨ifr.name, AF_INET, data⟩)
    | .SIOCSIFADDR, ifr =>
      ({ k with addr := Function.update k.addr ifr.name (some ifr.data) }, some ifr)
    | .SIOCSIFNETMASK, ifr =>
      ({ k with mask := Function.update k.mask ifr.name (some ifr.data) }, some ifr)

theorem keeping_addr : Stores keeping .SIOCSIFADDR .SIOCGIFADDR := by
  rintro k k' ifr ifr' - hset r hr
  cases hset
  refine ⟨{ k with addr := Function.update k.addr ifr.name (some ifr.data) },
    ⟨r.name, AF_INET, ifr.data⟩, ?_, rfl⟩
  simp [keeping, hr]

theorem keeping_mask : Stores keeping .SIOCSIFNETMASK .SIOCGIFNETMASK := by
  rintro k k' ifr ifr' - hset r hr
  cases hset
  refine ⟨{ k with mask := Function.update k.mask ifr.name (some ifr.data) },
    ⟨r.name, AF_INET, ifr.data⟩, ?_, rfl⟩
  simp [keeping, hr]

def noAddress : Ifaces := ⟨fun _ => none, fun _ => none⟩

def tenOne : IpAddr := ⟨AF_INET, 4, [10, 0, 0, 1] ++ List.replicate 12 0⟩

theorem tenOne_isInet : tenOne.IsInet := ⟨rfl, rfl, rfl⟩

/-- It comes back as 10.0.0.0. -/
theorem not_addressRoundTrip_tenOne :
    ¬ AddressRoundTrip keeping noAddress (lit "eth0") tenOne := by
  intro h
  obtain ⟨k, b, hget, hcmp⟩ := h _ rfl IpAddr.zero
  rw [getIfaceIp_of_ioctl rfl] at hget
  cases hget
  exact absurd hcmp (by decide)

theorem ifaceRoundTrip_iff_tenOne :
    (AddressRoundTrip keeping noAddress (lit "eth0") tenOne ∧
      MaskRoundTrip keeping noAddress (lit "eth0") ⟨false, 64⟩ 0xffffff) ↔
        ZerosLast [10, 0, 0, 1] :=
  ifaceRoundTrip_iff keeping_addr keeping_mask tenOne_isInet rfl ⟨false, 64⟩ 0xffffff

end Lmap
