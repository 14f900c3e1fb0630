import Lmap.Fingerprint
import Lmap.Inet

/-! The bucket that the decoders fill for one packet. -/

set_option autoImplicit false

namespace Lmap

def ETH_ADDR_LEN : Nat := 6

structure L2Info where
  macSrc : List UInt8
  macDst : List UInt8
  essid : Option (List UInt8)
  deriving DecidableEq, Repr

/-- `proto` holds a 16 bit value in the order of the host. -/
structure L3Info where
  ipSrc : IpAddr
  ipDst : IpAddr
  proto : Nat
  ttl : UInt8
  deriving DecidableEq, Repr

structure L4Info where
  portSrc : Nat
  portDst : Nat
  proto : Nat
  fingerprint : Option Finger
  deriving DecidableEq, Repr

structure Bucket where
  L2 : L2Info
  L3 : L3Info
  L4 : L4Info
  deriving DecidableEq, Repr

def dbBucketAlloc : Bucket where
  L2 := ⟨List.replicate ETH_ADDR_LEN 0, List.replicate ETH_ADDR_LEN 0, none⟩
  L3 := ⟨IpAddr.zero, IpAddr.zero, 0, 0⟩
  L4 := ⟨0, 0, 0, none⟩

end Lmap
