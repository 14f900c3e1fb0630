import Lmap.Inet
import Lmap.Library.Transition

/-!
The comparison of addresses, over the values that calls of `ip_addr_init` can make. A call
that is rejected has written the type by then, and the size is of the type before it.
-/

set_option autoImplicit false

namespace Lmap
open Transition

/-- `memcmp` looks at as many bytes as the first of the two has. -/
def ipAddrCmp (sa sb : IpAddr) : Int :=
  if sa.type ≠ sb.type then 0
  else if sa.addr.take sa.addrSize = sb.addr.take sa.addrSize then 1
  else 0

def IpAddr.bytes (sa : IpAddr) : List UInt8 := sa.addr.take sa.addrSize

structure InitArgs where
  memory : Memory
  type : Int
  addr : Nat

def initStep (sa : IpAddr) (c : InitArgs) : Except Fault IpAddr :=
  (ipAddrInit c.memory sa c.type c.addr).map Prod.fst

/-- The calls, made one after the other from zeroed storage, leave `sa`. -/
def Makes (calls : List InitArgs) (sa : IpAddr) : Prop :=
  exec initStep IpAddr.zero calls = .ok sa

def UnchangedIfRejected (sa : IpAddr) (c : InitArgs) (sa' : IpAddr) : Prop :=
  ipAddrInit c.memory sa c.type c.addr = .ok (sa', -EINVALID) → sa' = sa

/-- The comparison is equality of the type and of the address, over the values of `R`. -/
structure Compares (R : IpAddr → Prop) : Prop where
  refl : ∀ x, R x → ipAddrCmp x x = 1
  symm : ∀ x y, R x → R y → ipAddrCmp x y = ipAddrCmp y x
  trans : ∀ x y z, R x → R y → R z → ipAddrCmp x y = 1 → ipAddrCmp y z = 1 → ipAddrCmp x z = 1
  same : ∀ x y, R x → R y → (ipAddrCmp x y = 1 ↔ x.type = y.type ∧ x.bytes = y.bytes)

/-- What is to hold of the histories of `H`, and of the values they make. -/
structure Lawful (H : List InitArgs → Prop) : Prop where
  unchanged : ∀ calls, H calls → Along initStep UnchangedIfRejected IpAddr.zero calls
  compares : Compares fun sa => ∃ calls, H calls ∧ Makes calls sa

/-- A call with a family that is not known names the type that the value has. -/
def KeepsType (sa : IpAddr) (c : InitArgs) (_ : IpAddr) : Prop :=
  c.type ≠ AF_INET → c.type ≠ AF_INET6 → c.type = sa.type

instance (sa : IpAddr) (c : InitArgs) (sa' : IpAddr) : Decidable (KeepsType sa c sa') :=
  inferInstanceAs (Decidable (_ → _ → _))

/-- Everything a call can do. -/
theorem ipAddrInit_cases {m : Memory} {sa sa' : IpAddr} {type : Int} {p : Nat} {rc : Int}
    (h : ipAddrInit m sa type p = .ok (sa', rc)) :
    (type = AF_INET ∧ rc = ESUCCESS ∧ ∃ bs, bs.length = 4 ∧ m.Holds p bs ∧
      sa' = ⟨AF_INET, 4, bs ++ sa.addr.drop 4⟩) ∨
    (type = AF_INET6 ∧ rc = ESUCCESS ∧ ∃ bs, bs.length = 16 ∧ m.Holds p bs ∧
      sa' = ⟨AF_INET6, 16, bs ++ sa.addr.drop 16⟩) ∨
    (type ≠ AF_INET ∧ type ≠ AF_INET6 ∧ rc = -EINVALID ∧ sa' = { sa with type := type }) := by
  by_cases h4 : type = AF_INET
  · subst h4
    have hbind := h
    rw [ipAddrInit, if_pos rfl] at hbind
    obtain ⟨bs, hread, -⟩ := bind_ok_iff.mp hbind
    obtain ⟨hlen, hholds⟩ := readBytes_ok_iff.mp hread
    rw [ipAddrInit_inet sa hholds hlen] at h
    cases h
    exact .inl ⟨rfl, rfl, bs, hlen, hholds, rfl⟩
  · by_cases h6 : type = AF_INET6
    · subst h6
      have hbind := h
      rw [ipAddrInit, if_neg h4, if_pos rfl] at hbind
      obtain ⟨bs, hread, -⟩ := bind_ok_iff.mp hbind
      obtain ⟨hlen, hholds⟩ := readBytes_ok_iff.mp hread
      rw [ipAddrInit_inet6 sa hholds hlen] at h
      cases h
      exact .inr (.inl ⟨rfl, rfl, bs, hlen, hholds, rfl⟩)
    · have hrej : ipAddrInit m sa type p = .ok ({ sa with type := type }, -EINVALID) := by
        simp [ipAddrInit, h4, h6, pure, Except.pure]
      rw [hrej] at h
      cases h
      exact .inr (.inr ⟨h4, h6, rfl, rfl⟩)

/-- The size is that of the type, and there are as many bytes as an address can have. -/
structure Sized (sa : IpAddr) : Prop where
  size : sa.type = AF_INET ∧ sa.addrSize = 4 ∨ sa.type = AF_INET6 ∧ sa.addrSize = 16 ∨
    sa.type = 0 ∧ sa.addrSize = 0
  length : sa.addr.length = MAX_ADDR_LEN

theorem sized_zero : Sized IpAddr.zero where
  size := .inr (.inr ⟨rfl, rfl⟩)
  length := rfl

theorem Sized.init {sa : IpAddr} (h : Sized sa) {m : Memory} {sa' : IpAddr} {type : Int} {p : Nat}
    (hinit : ipAddrInit m sa type p = .ok (sa', ESUCCESS)) : Sized sa' := by
  have hlen : sa.addr.length = 16 := h.length
  have hmax : MAX_ADDR_LEN = 16 := rfl
  rcases ipAddrInit_cases hinit with ⟨-, -, bs, hbs, -, rfl⟩ | ⟨-, -, bs, hbs, -, rfl⟩ |
    ⟨-, -, hrc, -⟩
  · refine ⟨.inl ⟨rfl, rfl⟩, ?_⟩
    rw [List.length_append, List.length_drop, hmax]
    omega
  · refine ⟨.inr (.inl ⟨rfl, rfl⟩), ?_⟩
    rw [List.length_append, List.length_drop, hmax]
    omega
  · exact absurd hrc (by decide)

theorem Sized.step {sa sa' : IpAddr} {c : InitArgs} (h : Sized sa)
    (hstep : initStep sa c = .ok sa') (hkeeps : KeepsType sa c sa') :
    Sized sa' ∧ UnchangedIfRejected sa c sa' := by
  obtain ⟨⟨sa'', rc⟩, hinit, rfl⟩ := map_ok_iff.mp hstep
  have haccepted : rc = ESUCCESS → Sized sa'' ∧ UnchangedIfRejected sa c sa'' := by
    rintro rfl
    refine ⟨h.init hinit, fun hrej => ?_⟩
    rw [hinit] at hrej
    have hrc : ESUCCESS = -EINVALID := congrArg Prod.snd (Except.ok.inj hrej)
    exact absurd hrc (by decide)
  rcases ipAddrInit_cases hinit with ⟨-, hrc, -⟩ | ⟨-, hrc, -⟩ | ⟨h4, h6, -, rfl⟩
  · exact haccepted hrc
  · exact haccepted hrc
  · have hsame : { sa with type := c.type } = sa := by rw [hkeeps h4 h6]
    dsimp only
    rw [hsame]
    exact ⟨h, fun _ => rfl⟩

theorem Sized.makes {calls : List InitArgs} {sa : IpAddr}
    (hkeeps : Along initStep KeepsType IpAddr.zero calls) (h : Makes calls sa) : Sized sa :=
  exec_of_along (fun _ _ _ hs hstep hk => (hs.step hstep hk).1) sized_zero hkeeps h

theorem Sized.same {x y : IpAddr} (hx : Sized x) (hy : Sized y) :
    ipAddrCmp x y = 1 ↔ x.type = y.type ∧ x.bytes = y.bytes := by
  by_cases htype : x.type = y.type
  · have hsize : x.addrSize = y.addrSize := by
      have h46 : AF_INET ≠ AF_INET6 := by decide
      have h40 : AF_INET ≠ 0 := by decide
      have h60 : AF_INET6 ≠ 0 := by decide
      rcases hx.size with ⟨htx, hsx⟩ | ⟨htx, hsx⟩ | ⟨htx, hsx⟩ <;>
        rcases hy.size with ⟨hty, hsy⟩ | ⟨hty, hsy⟩ | ⟨hty, hsy⟩ <;> simp_all
    rw [ipAddrCmp, if_neg (not_not.mpr htype), IpAddr.bytes, IpAddr.bytes, ← hsize]
    simp [htype]
  · simp [ipAddrCmp, htype]

theorem ipAddrCmp_cases (x y : IpAddr) : ipAddrCmp x y = 0 ∨ ipAddrCmp x y = 1 := by
  unfold ipAddrCmp
  repeat' split
  all_goals simp

theorem compares_of_sized {R : IpAddr → Prop} (h : ∀ x, R x → Sized x) : Compares R where
  refl x hx := ((h x hx).same (h x hx)).mpr ⟨rfl, rfl⟩
  symm x y hx hy := by
    have hiff : ipAddrCmp x y = 1 ↔ ipAddrCmp y x = 1 := by
      rw [(h x hx).same (h y hy), (h y hy).same (h x hx), eq_comm, @eq_comm _ x.bytes]
    rcases ipAddrCmp_cases x y with hxy | hxy <;> rcases ipAddrCmp_cases y x with hyx | hyx <;>
      simp_all
  trans x y z hx hy hz hxy hyz := by
    obtain ⟨htxy, hbxy⟩ := ((h x hx).same (h y hy)).mp hxy
    obtain ⟨htyz, hbyz⟩ := ((h y hy).same (h z hz)).mp hyz
    exact ((h x hx).same (h z hz)).mpr ⟨htxy.trans htyz, hbxy.trans hbyz⟩
  same x y hx hy := (h x hx).same (h y hy)

theorem keepsType_of_unchanged {sa sa' : IpAddr} {c : InitArgs}
    (hstep : initStep sa c = .ok sa') (h : UnchangedIfRejected sa c sa') :
    KeepsType sa c sa' := by
  intro h4 h6
  obtain ⟨⟨sa'', rc⟩, hinit, rfl⟩ := map_ok_iff.mp hstep
  rcases ipAddrInit_cases hinit with ⟨htype, -⟩ | ⟨htype, -⟩ | ⟨-, -, rfl, rfl⟩
  · exact absurd htype h4
  · exact absurd htype h6
  · exact congrArg IpAddr.type (h hinit)

/-- The comparison is lawful exactly where no rejected call brings in a type of its own. -/
theorem lawful_iff (H : List InitArgs → Prop) :
    Lawful H ↔ ∀ calls, H calls → Along initStep KeepsType IpAddr.zero calls := by
  constructor
  · intro h calls hcalls
    have hstep : ∀ sa c sa', True → initStep sa c = .ok sa' → UnchangedIfRejected sa c sa' →
        True ∧ KeepsType sa c sa' :=
      fun _ _ _ _ hstep hun => ⟨trivial, keepsType_of_unchanged hstep hun⟩
    exact along_of hstep trivial (h.unchanged calls hcalls)
  · intro hkeeps
    refine ⟨fun calls hcalls => ?_, compares_of_sized ?_⟩
    · exact along_of (fun _ _ _ hs hstep hk => hs.step hstep hk) sized_zero (hkeeps calls hcalls)
    · rintro x ⟨calls, hcalls, hmakes⟩
      exact Sized.makes (hkeeps calls hcalls) hmakes

/-- A rejected call changes the type of zeroed storage. After it, an IPv4 and an IPv6 address
whose first four bytes agree are equal one way round, and not the other. -/
theorem not_lawful_rejected : ¬ Lawful (fun _ => True) ∧
    ∃ x y, Makes [⟨Memory.ofList [10, 0, 0, 1], AF_INET, 0⟩, ⟨Memory.ofList [], 7, 0⟩] x ∧
      Makes [⟨Memory.ofList [10, 0, 0, 1, 0, 0, 0, 0, 0, 0, 0, 0, 0, 0, 0, 1], AF_INET6, 0⟩,
        ⟨Memory.ofList [], 7, 0⟩] y ∧
      ipAddrCmp x y = 1 ∧ ipAddrCmp y x = 0 := by
  constructor
  · intro h
    have hstep : initStep IpAddr.zero ⟨Memory.ofList [], 7, 0⟩ =
        .ok { IpAddr.zero with type := 7 } := rfl
    have hun := ((along_cons hstep []).mp (h.unchanged [⟨Memory.ofList [], 7, 0⟩] trivial)).1
    exact absurd (congrArg IpAddr.type (hun rfl)) (by decide)
  · exact ⟨⟨7, 4, [10, 0, 0, 1, 0, 0, 0, 0, 0, 0, 0, 0, 0, 0, 0, 0]⟩,
      ⟨7, 16, [10, 0, 0, 1, 0, 0, 0, 0, 0, 0, 0, 0, 0, 0, 0, 1]⟩, rfl, rfl, by decide, by decide⟩

end Lmap
