import Lmap.Bucket

/-!
Addresses as text: the formatters write into a buffer of the caller, and some of them
leave it as it is.
-/

set_option autoImplicit false

namespace Lmap
open CString

def IP_ASCII_ADDR_LEN : Nat := 17
def IP6_ASCII_ADDR_LEN : Nat := 47
def IP6_DETAILS_SIZE : Nat := 16

def NS_IN6ADDRSZ : Nat := 16
def NS_INT16SZ : Nat := 2

def ethText (llAddr : List UInt8) : List UInt8 :=
  (lit ":").intercalate
    ((llAddr.take ETH_ADDR_LEN).map fun b => printUnsigned .upper 16 2 b.toNat)

def ethAddrNtoa (llAddr ascii : List UInt8) : List UInt8 := strcpy ascii (ethText llAddr)

def ip4Text (src : List UInt8) : List UInt8 :=
  (lit ".").intercalate ((src.take IP_ADDR_LEN).map fun b => printUnsigned .lower 10 0 b.toNat)

def inetNtop4 (src dst : List UInt8) (size : Nat) : List UInt8 := strlcpy dst (ip4Text src) size

/-- `words`, the address in pieces of 16 bits. -/
def ip6Words (src : List UInt8) : List Nat :=
  (List.range (NS_IN6ADDRSZ / NS_INT16SZ)).map fun i =>
    (src.getD (2 * i) 0).toNat * 256 + (src.getD (2 * i + 1) 0).toNat

/-- `struct { int base, len; }`; a base of -1 is `none`. -/
structure ZeroRun where
  base : Nat
  len : Nat
  deriving DecidableEq, Repr

def closeRun (best : Option ZeroRun) : Option ZeroRun → Option ZeroRun
  | none => best
  | some cur =>
    match best with
    | none => some cur
    | some b => if b.len < cur.len then some cur else best

def scanWords : Nat → List Nat → Option ZeroRun → Option ZeroRun → Option ZeroRun
  | _, [], best, cur => closeRun best cur
  | i, word :: words, best, cur =>
    if word = 0 then
      match cur with
      | none => scanWords (i + 1) words best (some ⟨i, 1⟩)
      | some c => scanWords (i + 1) words best (some ⟨c.base, c.len + 1⟩)
    else scanWords (i + 1) words (closeRun best cur) none

def bestRun (words : List Nat) : Option ZeroRun :=
  match scanWords 0 words none none with
  | none => none
  | some b => if b.len < 2 then none else some b

def ZeroRun.Inside (b : ZeroRun) (i : Nat) : Prop := b.base ≤ i ∧ i < b.base + b.len

instance (b : ZeroRun) (i : Nat) : Decidable (b.Inside i) := inferInstanceAs (Decidable (_ ∧ _))

/-- The test for an encapsulated IPv4 address, at word 6. -/
def Encapsulated (words : List Nat) (best : Option ZeroRun) : Prop :=
  ∃ b, best = some b ∧ b.base = 0 ∧ (b.len = 6 ∨ b.len = 5 ∧ words.getD 5 0 = 0xffff)

instance (words : List Nat) (best : Option ZeroRun) : Decidable (Encapsulated words best) :=
  match best with
  | none => isFalse (by rintro ⟨b, hb, -⟩; cases hb)
  | some b =>
    if h : b.base = 0 ∧ (b.len = 6 ∨ b.len = 5 ∧ words.getD 5 0 = 0xffff) then
      isTrue ⟨b, rfl, h⟩
    else isFalse (by rintro ⟨b', hb, h'⟩; cases hb; exact h h')

/-- The format loop. `inet_ntop4` returns its destination, which is not 0, so that the
encapsulated address ends the function with NULL. -/
def formatWords (words : List Nat) (best : Option ZeroRun) :
    Nat → List Nat → List UInt8 → Option (List UInt8)
  | _, [], tp => some tp
  | i, word :: rest, tp =>
    if ∃ b ∈ best, b.Inside i then
      formatWords words best (i + 1) rest
        (if ∃ b ∈ best, i = b.base then tp ++ lit ":" else tp)
    else
      let tp := if i ≠ 0 then tp ++ lit ":" else tp
      if i = 6 ∧ Encapsulated words best then none
      else formatWords words best (i + 1) rest (tp ++ printUnsigned .lower 16 0 word)

/-- The text of `inet_ntop6` as far as it gets; `none` where it returns NULL. -/
def ip6Text (src : List UInt8) (size : Nat) : Option (List UInt8) :=
  let words := ip6Words src
  let best := bestRun words
  match formatWords words best 0 words [] with
  | none => none
  | some tp =>
    let tp := if ∃ b ∈ best, b.base + b.len = NS_IN6ADDRSZ / NS_INT16SZ then tp ++ lit ":" else tp
    if size < tp.length + 1 then none else some tp

def inetNtop6 (src dst : List UInt8) (size : Nat) : List UInt8 :=
  match ip6Text src size with
  | none => dst
  | some text => strlcpy dst text size

/-- A family that is not known leaves the buffer alone. -/
def ipAddrNtoa (sa : IpAddr) (dst : List UInt8) : List UInt8 :=
  if sa.type = AF_INET then inetNtop4 sa.addr dst IP_ASCII_ADDR_LEN
  else if sa.type = AF_INET6 then inetNtop6 sa.addr dst IP6_ASCII_ADDR_LEN
  else dst

section Macros

variable (src : List UInt8)

def in6Byte (i : Nat) : UInt8 := src.getD i 0

def in6Zero (n : Nat) : Bool := (List.range n).all fun i => in6Byte src i == 0

def in6IsAddrUnspecified : Bool := in6Zero src 16

def in6IsAddrLoopback : Bool := in6Zero src 15 && in6Byte src 15 == 1

def in6IsAddrMulticast : Bool := in6Byte src 0 == 0xff

/-- `IN6_IS_ADDR_MC_NODELOCAL` and the like, by the number of the scope. -/
def in6IsAddrMc (scope : UInt8) : Bool :=
  in6IsAddrMulticast src && in6Byte src 1 &&& 0xf == scope

def in6IsAddrLinklocal : Bool := in6Byte src 0 == 0xfe && in6Byte src 1 &&& 0xc0 == 0x80

def in6IsAddrSitelocal : Bool := in6Byte src 0 == 0xfe && in6Byte src 1 &&& 0xc0 == 0xc0

def in6IsAddrV4mapped : Bool :=
  in6Zero src 10 && in6Byte src 10 == 0xff && in6Byte src 11 == 0xff

/-- The last 32 bits are more than 1. -/
def in6IsAddrV4compat : Bool :=
  in6Zero src 12 && (in6Byte src 12 != 0 || in6Byte src 13 != 0 || in6Byte src 14 != 0 ||
    1 < in6Byte src 15)

end Macros

structure Details where
  tmp : List UInt8
  n : Nat

/-- `n = strlcpy (tmp, text, size)`. -/
def Details.set (d : Details) (text : List UInt8) : Details :=
  ⟨strlcpy d.tmp text IP6_DETAILS_SIZE, text.length⟩

/-- `n += strlcpy (tmp + n, text, mcsiz)`. -/
def Details.add (d : Details) (text : List UInt8) : Details :=
  ⟨d.tmp.take d.n ++ strlcpy (d.tmp.drop d.n) text (IP6_DETAILS_SIZE - (lit "multic ").length - 1),
    d.n + text.length⟩

/-- The scopes: `n` is still 0 here, and the word goes over the one before it. -/
def multicDetails (src : List UInt8) (d : Details) : Details :=
  let d : Details := ⟨strncpy d.tmp 0 (lit "multic ") IP6_DETAILS_SIZE, d.n⟩
  let d := if in6IsAddrMc src 1 then d.add (lit "nodeloc") else d
  let d := if in6IsAddrMc src 2 then d.add (lit "linkloc") else d
  let d := if in6IsAddrMc src 5 then d.add (lit "siteloc") else d
  let d := if in6IsAddrMc src 8 then d.add (lit "orgloc") else d
  if in6IsAddrMc src 0xe then d.add (lit "global") else d

def details6 (src : List UInt8) (d : Details) : Details :=
  let d := if in6IsAddrUnspecified src then d.set (lit "unspec") else d
  let d := if in6IsAddrLoopback src then d.set (lit "loopback") else d
  let d := if in6IsAddrMulticast src then multicDetails src d else d
  let d := if in6IsAddrLinklocal src then d.set (lit "linkloc") else d
  let d := if in6IsAddrSitelocal src then d.set (lit "siteloc") else d
  let d := if in6IsAddrV4mapped src then d.set (lit "v4mapped") else d
  if in6IsAddrV4compat src then d.set (lit "v4compat") else d

/-- `tmp` is what the stack frame of the function holds. -/
def inetDetails6 (src dst tmp : List UInt8) : List UInt8 :=
  let d := details6 src ⟨tmp, 0⟩
  strlcpy dst (cstr (d.tmp.set d.n 0)) IP6_DETAILS_SIZE

def ipAddrDetails (sa : IpAddr) (dst tmp : List UInt8) : List UInt8 :=
  if sa.type = AF_INET then strcpy dst []
  else if sa.type = AF_INET6 then inetDetails6 sa.addr dst tmp
  else dst

/-- The address is of a form that the function writes with an IPv4 address at its end. -/
def EmbedsIp4 (src : List UInt8) : Prop :=
  in6IsAddrV4mapped src = true ∨
    in6Zero src 12 = true ∧ (in6Byte src 12 ≠ 0 ∨ in6Byte src 13 ≠ 0)

instance (src : List UInt8) : Decidable (EmbedsIp4 src) := inferInstanceAs (Decidable (_ ∨ _))

theorem scanWords_zeros (i : Nat) (words : List Nat) (best cur : Option ZeroRun) :
    scanWords i words best cur =
      scanWords i (words.map fun w => if w = 0 then 0 else 1) best cur := by
  induction words generalizing i best cur with
  | nil => rfl
  | cons word words ih =>
    by_cases hw : word = 0
    · cases cur with
      | none => simp [scanWords, hw, ih]
      | some c => simp [scanWords, hw, ih]
    · simp [scanWords, hw, ih]

def bit (z : Bool) : Nat := if z then 0 else 1

theorem bestRun_bits : ∀ a b c d e f g h : Bool,
    (bestRun ([a, b, c, d, e, f, g, h].map bit) = some ⟨0, 6⟩ ↔
      (a && b && c && d && e && f && !g) = true) ∧
    (bestRun ([a, b, c, d, e, f, g, h].map bit) = some ⟨0, 5⟩ ↔
      (a && b && c && d && e && !f) = true) := by
  decide +kernel

theorem bestRun_eight (a b c d e f g h : Nat) :
    (bestRun [a, b, c, d, e, f, g, h] = some ⟨0, 6⟩ ↔
      (a = 0 ∧ b = 0 ∧ c = 0 ∧ d = 0 ∧ e = 0) ∧ f = 0 ∧ g ≠ 0) ∧
    (bestRun [a, b, c, d, e, f, g, h] = some ⟨0, 5⟩ ↔
      (a = 0 ∧ b = 0 ∧ c = 0 ∧ d = 0 ∧ e = 0) ∧ f ≠ 0) := by
  have hbits : bestRun [a, b, c, d, e, f, g, h] = bestRun ([a == 0, b == 0, c == 0, d == 0, e == 0,
      f == 0, g == 0, h == 0].map bit) := by
    rw [bestRun, scanWords_zeros, bestRun]
    simp [bit]
  have hdecide := bestRun_bits (a == 0) (b == 0) (c == 0) (d == 0) (e == 0) (f == 0) (g == 0)
    (h == 0)
  rw [hbits, hdecide.1, hdecide.2]
  simp [and_assoc]

def ip6Word (src : List UInt8) (i : Nat) : Nat :=
  (in6Byte src (2 * i)).toNat * 256 + (in6Byte src (2 * i + 1)).toNat

theorem ip6Words_eq (src : List UInt8) : ip6Words src = [ip6Word src 0, ip6Word src 1,
    ip6Word src 2, ip6Word src 3, ip6Word src 4, ip6Word src 5, ip6Word src 6, ip6Word src 7] := rfl

theorem ip6Word_eq_zero (src : List UInt8) (i : Nat) :
    ip6Word src i = 0 ↔ in6Byte src (2 * i) = 0 ∧ in6Byte src (2 * i + 1) = 0 := by
  rw [ip6Word, ← UInt8.toNat_inj, ← UInt8.toNat_inj, UInt8.toNat_zero]
  omega

theorem ip6Word_eq_ffff (src : List UInt8) (i : Nat) :
    ip6Word src i = 0xffff ↔ in6Byte src (2 * i) = 0xff ∧ in6Byte src (2 * i + 1) = 0xff := by
  have ha := (in6Byte src (2 * i)).toNat_lt
  have hb := (in6Byte src (2 * i + 1)).toNat_lt
  have hff : (0xff : UInt8).toNat = 255 := rfl
  rw [ip6Word, ← UInt8.toNat_inj, ← UInt8.toNat_inj]
  omega

theorem in6Zero_succ (src : List UInt8) (n : Nat) :
    in6Zero src (n + 1) = true ↔ in6Zero src n = true ∧ in6Byte src n = 0 := by
  simp [in6Zero, List.range_succ]

theorem in6Zero_words (src : List UInt8) (n : Nat) :
    in6Zero src (2 * n) = true ↔ ∀ i < n, ip6Word src i = 0 := by
  induction n with
  | zero => simp [in6Zero]
  | succ n ih =>
    have hstep : in6Zero src (2 * (n + 1)) = true ↔
        in6Zero src (2 * n) = true ∧ ip6Word src n = 0 := by
      rw [ip6Word_eq_zero, ← and_assoc, ← in6Zero_succ, ← in6Zero_succ]
      rfl
    rw [hstep, ih, Nat.forall_lt_succ_right]

theorem encapsulated_iff (src : List UInt8) :
    Encapsulated (ip6Words src) (bestRun (ip6Words src)) ↔ EmbedsIp4 src := by
  have hruns := bestRun_eight (ip6Word src 0) (ip6Word src 1) (ip6Word src 2) (ip6Word src 3)
    (ip6Word src 4) (ip6Word src 5) (ip6Word src 6) (ip6Word src 7)
  have hfirst : (ip6Word src 0 = 0 ∧ ip6Word src 1 = 0 ∧ ip6Word src 2 = 0 ∧ ip6Word src 3 = 0 ∧
      ip6Word src 4 = 0) ↔ in6Zero src 10 = true := by
    rw [in6Zero_words src 5]
    simp only [Nat.forall_lt_succ_right, Nat.not_lt_zero, false_imp_iff, implies_true, true_and,
      and_assoc]
  have htwelve : in6Zero src 12 = true ↔ in6Zero src 10 = true ∧ ip6Word src 5 = 0 := by
    rw [in6Zero_words src 6, in6Zero_words src 5, Nat.forall_lt_succ_right]
  have hencap : Encapsulated (ip6Words src) (bestRun (ip6Words src)) ↔
      bestRun (ip6Words src) = some ⟨0, 6⟩ ∨
        bestRun (ip6Words src) = some ⟨0, 5⟩ ∧ ip6Word src 5 = 0xffff := by
    constructor
    · rintro ⟨⟨base, len⟩, hbest, rfl, rfl | ⟨rfl, hffff⟩⟩
      · exact .inl hbest
      · exact .inr ⟨hbest, hffff⟩
    · rintro (hbest | ⟨hbest, hffff⟩)
      · exact ⟨_, hbest, rfl, .inl rfl⟩
      · exact ⟨_, hbest, rfl, .inr ⟨rfl, hffff⟩⟩
  have hmapped : in6IsAddrV4mapped src = true ↔ in6Zero src 10 = true ∧ ip6Word src 5 = 0xffff := by
    rw [ip6Word_eq_ffff, in6IsAddrV4mapped]
    simp [and_assoc]
  have hsixth : (in6Byte src 12 ≠ 0 ∨ in6Byte src 13 ≠ 0) ↔ ip6Word src 6 ≠ 0 := by
    rw [Ne, Ne, Ne, ip6Word_eq_zero, not_and_or]
  rw [hencap, ip6Words_eq, hruns.1, hruns.2, hfirst, EmbedsIp4, hmapped, htwelve, hsixth]
  constructor
  · rintro (⟨hzero, hfive, hsix⟩ | ⟨⟨hzero, -⟩, hffff⟩)
    · exact .inr ⟨⟨hzero, hfive⟩, hsix⟩
    · exact .inl ⟨hzero, hffff⟩
  · rintro (⟨hzero, hffff⟩ | ⟨⟨hzero, hfive⟩, hsix⟩)
    · exact .inr ⟨⟨hzero, by omega⟩, hffff⟩
    · exact .inl ⟨hzero, hfive, hsix⟩

theorem formatWords_none {words : List Nat} {best : Option ZeroRun} (i : Nat) (rest : List Nat)
    (tp : List UInt8) : formatWords words best i rest tp = none ↔
      i ≤ 6 ∧ 6 < i + rest.length ∧ Encapsulated words best := by
  induction rest generalizing i tp with
  | nil =>
    simp only [formatWords, List.length_nil, reduceCtorEq, false_iff]
    omega
  | cons word rest ih =>
    have hnext : ∀ tp, i ≠ 6 ∨ ¬ Encapsulated words best →
        (formatWords words best (i + 1) rest tp = none ↔
          i ≤ 6 ∧ 6 < i + (word :: rest).length ∧ Encapsulated words best) := by
      intro tp hor
      rw [ih, List.length_cons]
      grind
    rw [formatWords]
    split
    · rename_i hin
      refine hnext _ ?_
      by_cases hencap : Encapsulated words best
      · refine .inl ?_
        rintro rfl
        obtain ⟨b, hb, hinside⟩ := hin
        obtain ⟨b', rfl, hbase, hlen⟩ := hencap
        cases hb
        have := hinside.2
        omega
      · exact .inr hencap
    · generalize (if i ≠ 0 then tp ++ lit ":" else tp) = tp
      dsimp only
      split
      · rename_i hsix
        simp [hsix.1, hsix.2]
      · rename_i hsix
        exact hnext _ (by tauto)

theorem formatWords_length {words : List Nat} {best : Option ZeroRun} {i : Nat} {rest : List Nat}
    {tp text : List UInt8} (hrest : ∀ word ∈ rest, word < 65536)
    (h : formatWords words best i rest tp = some text) :
    text.length ≤ tp.length + 5 * rest.length := by
  induction rest generalizing i tp with
  | nil =>
    simp only [formatWords, Option.some.injEq] at h
    simp [h]
  | cons word rest ih =>
    have hcolon : ∀ p : Prop, ∀ _ : Decidable p,
        (if p then tp ++ lit ":" else tp).length ≤ tp.length + 1 := by
      intro p _
      split
      · simp [lit]
      · omega
    rw [formatWords] at h
    split at h
    · have hlen := ih (fun w hw => hrest w (List.mem_cons_of_mem word hw)) h
      have hc := hcolon (∃ b ∈ best, i = b.base) inferInstance
      rw [List.length_cons]
      omega
    · have hc := hcolon (i ≠ 0) inferInstance
      generalize (if i ≠ 0 then tp ++ lit ":" else tp) = tp' at h hc
      dsimp only at h
      split at h
      · cases h
      · have hlen := ih (fun w hw => hrest w (List.mem_cons_of_mem word hw)) h
        have hword := printUnsigned_length .lower (by decide : 1 < 16) (by decide : 0 < 4)
          (hrest word List.mem_cons_self)
        rw [List.length_append] at hlen
        rw [List.length_cons]
        omega

theorem ip6Words_lt (src : List UInt8) : ∀ word ∈ ip6Words src, word < 65536 := by
  intro word hword
  rw [ip6Words_eq] at hword
  have hi : ∃ i, word = ip6Word src i := by
    simp only [List.mem_cons, List.not_mem_nil, or_false] at hword
    rcases hword with h | h | h | h | h | h | h | h <;> exact ⟨_, h⟩
  obtain ⟨i, rfl⟩ := hi
  have ha := (in6Byte src (2 * i)).toNat_lt
  have hb := (in6Byte src (2 * i + 1)).toNat_lt
  rw [ip6Word]
  omega

theorem ip6Text_none (src : List UInt8) :
    ip6Text src IP6_ASCII_ADDR_LEN = none ↔ EmbedsIp4 src := by
  have height : (ip6Words src).length = 8 := rfl
  rw [← encapsulated_iff, ip6Text]
  cases hformat : formatWords (ip6Words src) (bestRun (ip6Words src)) 0 (ip6Words src) [] with
  | none =>
    have hnone := (formatWords_none 0 (ip6Words src) []).mp hformat
    simp [hnone.2.2]
  | some text =>
    have hlen := formatWords_length (ip6Words_lt src) hformat
    have hencap : ¬ Encapsulated (ip6Words src) (bestRun (ip6Words src)) := by
      intro hencap
      have hnone := (formatWords_none 0 (ip6Words src) []).mpr
        ⟨by decide, by rw [height]; decide, hencap⟩
      rw [hformat] at hnone
      cases hnone
    have hfits : ∀ p : Prop, ∀ _ : Decidable p,
        ¬ IP6_ASCII_ADDR_LEN < (if p then text ++ lit ":" else text).length + 1 := by
      intro p _
      have hsize : IP6_ASCII_ADDR_LEN = 47 := rfl
      rw [height, List.length_nil] at hlen
      split
      · have hone : (lit ":").length = 1 := rfl
        rw [List.length_append, hsize]
        omega
      · omega
    simp only [hencap, iff_false]
    rw [if_neg (hfits _ _)]
    simp

variable {buf buf' tmp tmp' : List UInt8} {sa : IpAddr}

theorem ne_inet_of_inet6 (h6 : sa.type = AF_INET6) : sa.type ≠ AF_INET := by
  rw [h6]
  decide

theorem ipAddrNtoa_same (sa : IpAddr) (h : SameString buf buf') :
    SameString (ipAddrNtoa sa buf) (ipAddrNtoa sa buf') := by
  unfold ipAddrNtoa inetNtop4 inetNtop6
  split
  · exact sameString_strlcpy buf buf' _ (by decide)
  · split
    · cases ip6Text sa.addr IP6_ASCII_ADDR_LEN with
      | none => exact h
      | some text => exact sameString_strlcpy buf buf' _ (by decide)
    · exact h

/-- An address that is written leaves nothing of what the buffer held. -/
theorem ipAddrNtoa_writes (h : sa.type = AF_INET ∨ sa.type = AF_INET6 ∧ ¬ EmbedsIp4 sa.addr) :
    SameString (ipAddrNtoa sa buf) (ipAddrNtoa sa buf') := by
  unfold ipAddrNtoa inetNtop4 inetNtop6
  rcases h with h4 | ⟨h6, hplain⟩
  · rw [if_pos h4, if_pos h4]
    exact sameString_strlcpy buf buf' _ (by decide)
  · have hne := ne_inet_of_inet6 h6
    rw [if_neg hne, if_pos h6, if_neg hne, if_pos h6]
    cases htext : ip6Text sa.addr IP6_ASCII_ADDR_LEN with
    | none => exact absurd ((ip6Text_none sa.addr).mp htext) hplain
    | some text => exact sameString_strlcpy buf buf' _ (by decide)

theorem ipAddrNtoa_unset (h4 : sa.type ≠ AF_INET) (h6 : sa.type ≠ AF_INET6) :
    ipAddrNtoa sa buf = buf := by
  rw [ipAddrNtoa, if_neg h4, if_neg h6]

theorem ipAddrNtoa_embedded (h6 : sa.type = AF_INET6) (h : EmbedsIp4 sa.addr) :
    ipAddrNtoa sa buf = buf := by
  rw [ipAddrNtoa, if_neg (ne_inet_of_inet6 h6), if_pos h6, inetNtop6, (ip6Text_none sa.addr).mpr h]

namespace Details

def Alike (d d' : Details) : Prop :=
  d.n = d'.n ∧ (d.tmp = d'.tmp ∨ d.n < IP6_DETAILS_SIZE ∧ d.tmp.length = IP6_DETAILS_SIZE ∧
    d'.tmp.length = IP6_DETAILS_SIZE ∧ d.tmp.take d.n = d'.tmp.take d.n)

theorem Alike.set {d d' : Details} (h : Alike d d') {text : List UInt8}
    (ht : text.length < IP6_DETAILS_SIZE) : Alike (d.set text) (d'.set text) := by
  obtain ⟨-, htmp | ⟨-, hlen, hlen', -⟩⟩ := h
  · exact ⟨rfl, .inl (by simp only [Details.set, htmp])⟩
  · refine ⟨rfl, .inr ⟨ht, ?_, ?_, ?_⟩⟩
    · exact (length_strlcpy ht (Nat.le_of_eq hlen.symm)).trans hlen
    · exact (length_strlcpy ht (Nat.le_of_eq hlen'.symm)).trans hlen'
    · exact (take_strlcpy d.tmp ht).trans (take_strlcpy d'.tmp ht).symm

theorem Alike.multic {d d' : Details} (h : Alike d d') (src : List UInt8) :
    multicDetails src d = multicDetails src d' := by
  have hover : strncpy d.tmp 0 (lit "multic ") IP6_DETAILS_SIZE =
      strncpy d'.tmp 0 (lit "multic ") IP6_DETAILS_SIZE := by
    obtain ⟨-, htmp | ⟨-, hlen, hlen', -⟩⟩ := h
    · rw [htmp]
    · rw [strncpy, strncpy, List.drop_of_length_le (by omega : d.tmp.length ≤ 0 + IP6_DETAILS_SIZE),
        List.drop_of_length_le (by omega : d'.tmp.length ≤ 0 + IP6_DETAILS_SIZE)]
      rfl
  rw [multicDetails, multicDetails, hover, h.1]

theorem Alike.setIf {d d' : Details} (h : Alike d d') (c : Bool) (text : List UInt8)
    (ht : text.length < IP6_DETAILS_SIZE) :
    Alike (if c then d.set text else d) (if c then d'.set text else d') := by
  cases c with
  | false => exact h
  | true => exact h.set ht

theorem Alike.multicIf {d d' : Details} (h : Alike d d') (c : Bool) (src : List UInt8) :
    Alike (if c then multicDetails src d else d) (if c then multicDetails src d' else d') := by
  cases c with
  | false => exact h
  | true => exact ⟨congrArg Details.n (h.multic src), .inl (congrArg Details.tmp (h.multic src))⟩

theorem Alike.details6 {d d' : Details} (h : Alike d d') (src : List UInt8) :
    Alike (Lmap.details6 src d) (Lmap.details6 src d') := by
  have hunspec := h.setIf (in6IsAddrUnspecified src) (lit "unspec") (by decide)
  have hloopback := hunspec.setIf (in6IsAddrLoopback src) (lit "loopback") (by decide)
  have hmultic := hloopback.multicIf (in6IsAddrMulticast src) src
  have hlinkloc := hmultic.setIf (in6IsAddrLinklocal src) (lit "linkloc") (by decide)
  have hsiteloc := hlinkloc.setIf (in6IsAddrSitelocal src) (lit "siteloc") (by decide)
  have hmapped := hsiteloc.setIf (in6IsAddrV4mapped src) (lit "v4mapped") (by decide)
  exact hmapped.setIf (in6IsAddrV4compat src) (lit "v4compat") (by decide)

theorem Alike.text {d d' : Details} (h : Alike d d') :
    cstr (d.tmp.set d.n 0) = cstr (d'.tmp.set d'.n 0) := by
  obtain ⟨hn, htmp | ⟨hlt, hlen, hlen', htake⟩⟩ := h
  · rw [htmp, hn]
  · rw [← hn, List.set_eq_take_append_cons_drop, List.set_eq_take_append_cons_drop,
      if_pos (by omega), if_pos (by omega), cstr_append_any, cstr_append_any, htake]

end Details

theorem inetDetails6_writes (src buf buf' : List UInt8) (ht : tmp.length = IP6_DETAILS_SIZE)
    (ht' : tmp'.length = IP6_DETAILS_SIZE) :
    SameString (inetDetails6 src buf tmp) (inetDetails6 src buf' tmp') := by
  have hstart : Details.Alike ⟨tmp, 0⟩ ⟨tmp', 0⟩ :=
    ⟨rfl, .inr ⟨(by decide : 0 < IP6_DETAILS_SIZE), ht, ht', rfl⟩⟩
  rw [inetDetails6, inetDetails6, (hstart.details6 src).text]
  exact sameString_strlcpy buf buf' _ (by decide)

theorem ipAddrDetails_writes (h : sa.type = AF_INET ∨ sa.type = AF_INET6)
    (ht : tmp.length = IP6_DETAILS_SIZE) (ht' : tmp'.length = IP6_DETAILS_SIZE) :
    SameString (ipAddrDetails sa buf tmp) (ipAddrDetails sa buf' tmp') := by
  unfold ipAddrDetails
  split
  · exact sameString_strcpy buf buf' []
  · rename_i h4
    rw [if_pos (h.resolve_left h4), if_pos (h.resolve_left h4)]
    exact inetDetails6_writes sa.addr buf buf' ht ht'

theorem ipAddrDetails_unset (h4 : sa.type ≠ AF_INET) (h6 : sa.type ≠ AF_INET6) :
    ipAddrDetails sa buf tmp = buf := by
  rw [ipAddrDetails, if_neg h4, if_neg h6]

theorem ipAddrDetails_same (sa : IpAddr) (h : SameString buf buf')
    (ht : tmp.length = IP6_DETAILS_SIZE) (ht' : tmp'.length = IP6_DETAILS_SIZE) :
    SameString (ipAddrDetails sa buf tmp) (ipAddrDetails sa buf' tmp') := by
  by_cases hset : sa.type = AF_INET ∨ sa.type = AF_INET6
  · exact ipAddrDetails_writes hset ht ht'
  · rw [not_or] at hset
    rw [ipAddrDetails_unset hset.1 hset.2, ipAddrDetails_unset hset.1 hset.2]
    exact h

end Lmap
