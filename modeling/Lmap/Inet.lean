import Lmap.Machine

/-! Network addresses as the buckets carry them. -/

set_option autoImplicit false

namespace Lmap

def ESUCCESS : Int := 0
def ENOTFOUND : Int := 1
def ENOTHANDLED : Int := 2
def EINVALID : Int := 3
def ENOADDRESS : Int := 4

/-- The address families, with the numbers the Linux headers give them. -/
def AF_INET : Int := 2
def AF_INET6 : Int := 10

def IP_ADDR_LEN : Nat := 4
def IP6_ADDR_LEN : Nat := 16
def MAX_ADDR_LEN : Nat := IP6_ADDR_LEN

structure IpAddr where
  type : Int
  addrSize : Nat
  addr : List UInt8
  deriving DecidableEq, Repr

def IpAddr.zero : IpAddr := ⟨0, 0, List.replicate MAX_ADDR_LEN 0⟩

/-- `memcpy (&sa->addr, bytes, n)`. -/
def IpAddr.copyIn (sa : IpAddr) (bytes : List UInt8) : IpAddr :=
  { sa with addr := bytes ++ sa.addr.drop bytes.length }

def ipAddrInit (m : Memory) (sa : IpAddr) (type : Int) (addr : Nat) :
    Except Fault (IpAddr × Int) := do
  let sa := { sa with type := type }
  if type = AF_INET then
    let sa := { sa with addrSize := IP_ADDR_LEN }
    let bytes ← readBytes m addr sa.addrSize
    pure (sa.copyIn bytes, ESUCCESS)
  else if type = AF_INET6 then
    let sa := { sa with addrSize := IP6_ADDR_LEN }
    let bytes ← readBytes m addr sa.addrSize
    pure (sa.copyIn bytes, ESUCCESS)
  else
    pure (sa, -EINVALID)

variable {m : Memory}

theorem ipAddrInit_inet (sa : IpAddr) {p : Nat} {bs : List UInt8} (h : m.Holds p bs)
    (hlen : bs.length = 4) :
    ipAddrInit m sa AF_INET p = .ok (⟨AF_INET, 4, bs ++ sa.addr.drop 4⟩, ESUCCESS) := by
  have hr : readBytes m p 4 = .ok bs := readBytes_of_holds h hlen
  simp [ipAddrInit, hr, bind, Except.bind, pure, Except.pure, IpAddr.copyIn, hlen, IP_ADDR_LEN]

theorem ipAddrInit_inet6 (sa : IpAddr) {p : Nat} {bs : List UInt8} (h : m.Holds p bs)
    (hlen : bs.length = 16) :
    ipAddrInit m sa AF_INET6 p = .ok (⟨AF_INET6, 16, bs ++ sa.addr.drop 16⟩, ESUCCESS) := by
  have hr : readBytes m p 16 = .ok bs := readBytes_of_holds h hlen
  have hne : ¬ AF_INET6 = AF_INET := by decide
  simp [ipAddrInit, hr, bind, Except.bind, pure, Except.pure, IpAddr.copyIn, hlen, hne,
    IP6_ADDR_LEN]

end Lmap
