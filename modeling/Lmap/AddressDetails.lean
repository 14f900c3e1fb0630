import Lmap.AddressText

/-! The classes of IPv6 addresses, and the text that stands for each. -/

set_option autoImplicit false

namespace Lmap
open CString

/-- The classes that the `IN6_IS_ADDR_*` macros tell apart; a multicast address has a scope. -/
inductive Ip6Class where
  | unspecified | loopback | multicast (scope : UInt8) | linkLocal | siteLocal | v4Mapped | v4Compat
  | other
  deriving DecidableEq, Repr

def scopeWord (scope : UInt8) : List UInt8 :=
  if scope = 1 then lit "nodeloc"
  else if scope = 2 then lit "linkloc"
  else if scope = 5 then lit "siteloc"
  else if scope = 8 then lit "orgloc"
  else if scope = 0xe then lit "global"
  else []

namespace Ip6Class

def text : Ip6Class → List UInt8
  | unspecified => lit "unspec"
  | loopback => lit "loopback"
  | multicast scope => lit "multic " ++ scopeWord scope
  | linkLocal => lit "linkloc"
  | siteLocal => lit "siteloc"
  | v4Mapped => lit "v4mapped"
  | v4Compat => lit "v4compat"
  | other => []

/-- The tests of `inet_details6`, in its order. -/
def tests (src : List UInt8) : List Bool :=
  [in6IsAddrUnspecified src, in6IsAddrLoopback src, in6IsAddrMulticast src,
    in6IsAddrLinklocal src, in6IsAddrSitelocal src, in6IsAddrV4mapped src, in6IsAddrV4compat src]

def Holds (src : List UInt8) : Ip6Class → Prop
  | unspecified => in6IsAddrUnspecified src = true
  | loopback => in6IsAddrLoopback src = true
  | multicast scope => in6IsAddrMulticast src = true ∧ in6Byte src 1 &&& 0xf = scope
  | linkLocal => in6IsAddrLinklocal src = true
  | siteLocal => in6IsAddrSitelocal src = true
  | v4Mapped => in6IsAddrV4mapped src = true
  | v4Compat => in6IsAddrV4compat src = true
  | other => ∀ t ∈ tests src, t = false

end Ip6Class

variable {src : List UInt8}

theorem in6Zero_iff (n : Nat) : in6Zero src n = true ↔ ∀ i < n, in6Byte src i = 0 := by
  simp [in6Zero]

namespace Ip6Class

/-- The only class that the bytes of an address leave open. -/
def candidate (src : List UInt8) : Ip6Class :=
  if in6Byte src 0 = 0xff then multicast (in6Byte src 1 &&& 0xf)
  else if in6Byte src 0 = 0xfe then
    if in6Byte src 1 &&& 0xc0 = 0x80 then linkLocal else siteLocal
  else if in6Byte src 10 = 0xff then v4Mapped
  else if in6Byte src 12 = 0 ∧ in6Byte src 13 = 0 ∧ in6Byte src 14 = 0 then
    if in6Byte src 15 = 0 then unspecified
    else if in6Byte src 15 = 1 then loopback
    else v4Compat
  else v4Compat

theorem Holds.candidate {c : Ip6Class} (h : c.Holds src) (hc : c ≠ other) :
    c = candidate src := by
  cases c with
  | unspecified =>
    have hall : ∀ i < 16, in6Byte src i = 0 := (in6Zero_iff 16).mp h
    simp [Ip6Class.candidate, hall]
  | loopback =>
    have hall : (∀ i < 15, in6Byte src i = 0) ∧ in6Byte src 15 = 1 := by
      simpa [Holds, in6IsAddrLoopback, in6Zero_iff] using h
    simp [Ip6Class.candidate, hall]
  | multicast scope =>
    have hall : in6Byte src 0 = 0xff ∧ in6Byte src 1 &&& 0xf = scope := by
      simpa [Holds, in6IsAddrMulticast] using h
    simp [Ip6Class.candidate, hall]
  | linkLocal =>
    have hall : in6Byte src 0 = 0xfe ∧ in6Byte src 1 &&& 0xc0 = 0x80 := by
      simpa [Holds, in6IsAddrLinklocal] using h
    simp [Ip6Class.candidate, hall]
  | siteLocal =>
    have hall : in6Byte src 0 = 0xfe ∧ in6Byte src 1 &&& 0xc0 = 0xc0 := by
      simpa [Holds, in6IsAddrSitelocal] using h
    simp [Ip6Class.candidate, hall]
  | v4Mapped =>
    have hall : (∀ i < 10, in6Byte src i = 0) ∧ in6Byte src 10 = 0xff ∧ in6Byte src 11 = 0xff := by
      simpa [Holds, in6IsAddrV4mapped, in6Zero_iff, and_assoc] using h
    simp [Ip6Class.candidate, hall]
  | v4Compat =>
    have hall : (∀ i < 12, in6Byte src i = 0) ∧ (((in6Byte src 12 ≠ 0 ∨ in6Byte src 13 ≠ 0) ∨
        in6Byte src 14 ≠ 0) ∨ 1 < in6Byte src 15) := by
      simpa [Holds, in6IsAddrV4compat, in6Zero_iff] using h
    have hlast : in6Byte src 12 = 0 ∧ in6Byte src 13 = 0 ∧ in6Byte src 14 = 0 →
        in6Byte src 15 ≠ 0 ∧ in6Byte src 15 ≠ 1 := by
      rintro ⟨h12, h13, h14⟩
      have hgt : 1 < in6Byte src 15 := by simpa [h12, h13, h14] using hall.2
      constructor <;> rintro heq <;> rw [heq] at hgt <;> exact absurd hgt (by decide)
    have hff : ¬ (0 : UInt8) = 0xff := by decide
    have hfe : ¬ (0 : UInt8) = 0xfe := by decide
    rw [Ip6Class.candidate, hall.1 0 (by decide), hall.1 10 (by decide), if_neg hff, if_neg hfe,
      if_neg hff]
    split
    · rename_i hthree
      rw [if_neg (hlast hthree).1, if_neg (hlast hthree).2]
    · rfl
  | other => exact absurd rfl hc

theorem Holds.of_other {c : Ip6Class} (hnone : other.Holds src) (h : c.Holds src) : c = other := by
  have hall : ∀ t ∈ tests src, t = false := hnone
  simp only [tests, List.mem_cons, List.not_mem_nil, or_false, forall_eq_or_imp, forall_eq]
    at hall
  cases c <;> simp_all [Holds]

theorem Holds.unique {c c' : Ip6Class} (h : c.Holds src) (h' : c'.Holds src) : c = c' := by
  by_cases hc : c = other
  · subst hc
    exact (h.of_other h').symm
  · by_cases hc' : c' = other
    · subst hc'
      exact h'.of_other h
    · exact (h.candidate hc).trans (h'.candidate hc').symm

theorem existsUnique_holds (src : List UInt8) : ∃! c : Ip6Class, c.Holds src := by
  have hex : ∃ c : Ip6Class, c.Holds src := by
    by_contra hno
    have hnot : ∀ c : Ip6Class, ¬ c.Holds src := fun c h => hno ⟨c, h⟩
    apply hnot other
    have hmultic : in6IsAddrMulticast src = false := by
      rw [← Bool.not_eq_true]
      exact fun h => hnot (multicast _) ⟨h, rfl⟩
    have hrest := And.intro (hnot unspecified) (And.intro (hnot loopback) (And.intro
      (hnot linkLocal) (And.intro (hnot siteLocal) (And.intro (hnot v4Mapped) (hnot v4Compat)))))
    simpa [Holds, tests, hmultic] using hrest
  obtain ⟨c, h⟩ := hex
  exact ⟨c, h, fun c' h' => h'.unique h⟩

theorem Holds.details6 {c : Ip6Class} (h : c.Holds src) (d : Details) :
    Lmap.details6 src d =
      if in6IsAddrMulticast src = true then multicDetails src d
      else if c = other then d
      else d.set c.text := by
  have hunspec : in6IsAddrUnspecified src = true ↔ c = unspecified :=
    ⟨fun ht => h.unique ht, fun he => by subst he; exact h⟩
  have hloopback : in6IsAddrLoopback src = true ↔ c = loopback :=
    ⟨fun ht => h.unique ht, fun he => by subst he; exact h⟩
  have hmultic : in6IsAddrMulticast src = true ↔ c = multicast (in6Byte src 1 &&& 0xf) :=
    ⟨fun ht => h.unique ⟨ht, rfl⟩, fun he => by subst he; exact h.1⟩
  have hlink : in6IsAddrLinklocal src = true ↔ c = linkLocal :=
    ⟨fun ht => h.unique ht, fun he => by subst he; exact h⟩
  have hsite : in6IsAddrSitelocal src = true ↔ c = siteLocal :=
    ⟨fun ht => h.unique ht, fun he => by subst he; exact h⟩
  have hmapped : in6IsAddrV4mapped src = true ↔ c = v4Mapped :=
    ⟨fun ht => h.unique ht, fun he => by subst he; exact h⟩
  have hcompat : in6IsAddrV4compat src = true ↔ c = v4Compat :=
    ⟨fun ht => h.unique ht, fun he => by subst he; exact h⟩
  rw [Lmap.details6]
  cases c with
  | multicast scope =>
    have hm : in6IsAddrMulticast src = true := h.1
    clear hmultic
    simp_all
  | _ => simp_all [text]

theorem Holds.not_multicast {c : Ip6Class} (h : c.Holds src)
    (hm : in6IsAddrMulticast src = false) (scope : UInt8) : c ≠ multicast scope := by
  rintro rfl
  rw [h.1] at hm
  cases hm

theorem text_fits {c : Ip6Class} (h : ∀ scope, c ≠ multicast scope) :
    c.text.length < IP6_DETAILS_SIZE ∧ ∀ b ∈ c.text, b ≠ 0 := by
  cases c with
  | multicast scope => exact absurd rfl (h scope)
  | _ => exact ⟨by decide, forall_mem_of_all (by decide)⟩

end Ip6Class

variable {tmp : List UInt8}

theorem Details.set_text {text : List UInt8} (d : Details) (hlen : text.length < IP6_DETAILS_SIZE)
    (hplain : ∀ b ∈ text, b ≠ 0) : cstr ((d.set text).tmp.set (d.set text).n 0) = text := by
  have htake : text.take (IP6_DETAILS_SIZE - 1) = text := List.take_of_length_le (by omega)
  have hset : (d.set text).tmp = text ++ 0 :: d.tmp.drop (text.length + 1) := by
    rw [Details.set, strlcpy, if_neg (by decide), htake]
  have hn : (d.set text).n = text.length := rfl
  rw [hset, hn, List.set_append_right _ _ (Nat.le_refl _), Nat.sub_self, List.set_cons_zero]
  exact cstr_append_zero hplain

/-- The word of the scope is all that is left: it is put where `n` is, and that is still 0. -/
theorem multicDetails_text (h : in6IsAddrMulticast src = true)
    (ht : tmp.length = IP6_DETAILS_SIZE) :
    cstr ((multicDetails src ⟨tmp, 0⟩).tmp.set (multicDetails src ⟨tmp, 0⟩).n 0) =
      scopeWord (in6Byte src 1 &&& 0xf) := by
  have hover : strncpy tmp 0 (lit "multic ") IP6_DETAILS_SIZE =
      lit "multic " ++ List.replicate 9 0 := by
    rw [strncpy, List.drop_of_length_le (by omega)]
    rfl
  have hmc : ∀ scope, in6IsAddrMc src scope = (in6Byte src 1 &&& 0xf == scope) := by
    intro scope
    rw [in6IsAddrMc, h, Bool.true_and]
  generalize in6Byte src 1 &&& 0xf = scope at hmc
  simp only [multicDetails, hover, hmc, beq_iff_eq]
  by_cases h1 : scope = 1
  · subst h1
    rfl
  by_cases h2 : scope = 2
  · subst h2
    rfl
  by_cases h5 : scope = 5
  · subst h5
    rfl
  by_cases h8 : scope = 8
  · subst h8
    rfl
  by_cases he : scope = 0xe
  · subst he
    rfl
  simp only [scopeWord, h1, h2, h5, h8, he, if_false]
  rfl

/-- Wherever the text goes, and whatever the stack held: it is the whole text of the class. -/
def DetailsClassified (src : List UInt8) : Prop :=
  ∀ c : Ip6Class, c.Holds src → ∀ dst tmp : List UInt8, tmp.length = IP6_DETAILS_SIZE →
    0 ∈ (ipAddrDetails ⟨AF_INET6, IP6_ADDR_LEN, src⟩ dst tmp).take IP6_DETAILS_SIZE ∧
      cstr (ipAddrDetails ⟨AF_INET6, IP6_ADDR_LEN, src⟩ dst tmp) = c.text

theorem ipAddrDetails_inet6 (src dst tmp : List UInt8) :
    ipAddrDetails ⟨AF_INET6, IP6_ADDR_LEN, src⟩ dst tmp = inetDetails6 src dst tmp := rfl

theorem cstr_inetDetails6 (src dst tmp : List UInt8) : cstr (inetDetails6 src dst tmp) =
    cstr ((cstr ((details6 src ⟨tmp, 0⟩).tmp.set (details6 src ⟨tmp, 0⟩).n 0)).take
      (IP6_DETAILS_SIZE - 1)) := cstr_strlcpy_any _ _ (by decide)

theorem cstr_take_fits {text : List UInt8} (hlen : text.length < IP6_DETAILS_SIZE)
    (hplain : ∀ b ∈ text, b ≠ 0) : cstr (text.take (IP6_DETAILS_SIZE - 1)) = text := by
  rw [List.take_of_length_le (by omega : text.length ≤ IP6_DETAILS_SIZE - 1)]
  exact cstr_of_plain hplain

theorem inetDetails6_plain {c : Ip6Class} (h : c.Holds src)
    (hm : in6IsAddrMulticast src = false) (dst : List UInt8) (ht : tmp.length = IP6_DETAILS_SIZE) :
    cstr (inetDetails6 src dst tmp) = c.text := by
  have hfits := Ip6Class.text_fits (h.not_multicast hm)
  have htext : cstr ((details6 src ⟨tmp, 0⟩).tmp.set (details6 src ⟨tmp, 0⟩).n 0) = c.text := by
    rw [h.details6, if_neg (by rw [hm]; decide)]
    by_cases hc : c = .other
    · subst hc
      rw [if_pos rfl]
      cases tmp with
      | nil => cases ht
      | cons b tmp => rfl
    · rw [if_neg hc]
      exact Details.set_text _ hfits.1 hfits.2
  rw [cstr_inetDetails6, htext]
  exact cstr_take_fits hfits.1 hfits.2

theorem scopeWord_fits (scope : UInt8) :
    (scopeWord scope).length < IP6_DETAILS_SIZE ∧ ∀ b ∈ scopeWord scope, b ≠ 0 := by
  unfold scopeWord
  repeat' split
  all_goals exact ⟨by decide, forall_mem_of_all (by decide)⟩

theorem inetDetails6_multicast (h : in6IsAddrMulticast src = true) (dst : List UInt8)
    (ht : tmp.length = IP6_DETAILS_SIZE) :
    cstr (inetDetails6 src dst tmp) = scopeWord (in6Byte src 1 &&& 0xf) := by
  have hholds : (Ip6Class.multicast (in6Byte src 1 &&& 0xf)).Holds src := ⟨h, rfl⟩
  rw [cstr_inetDetails6, hholds.details6, if_pos h, multicDetails_text h ht]
  exact cstr_take_fits (scopeWord_fits _).1 (scopeWord_fits _).2

/-- The details are the text of the class exactly for the addresses that are not multicast. -/
theorem detailsClassified_iff (src : List UInt8) :
    DetailsClassified src ↔ in6IsAddrMulticast src = false := by
  constructor
  · intro hall
    by_contra hm
    have h : in6IsAddrMulticast src = true := by simpa using hm
    have ht : (List.replicate 16 0 : List UInt8).length = IP6_DETAILS_SIZE := rfl
    have htext := (hall (.multicast (in6Byte src 1 &&& 0xf)) ⟨h, rfl⟩ [] _ ht).2
    rw [ipAddrDetails_inet6, inetDetails6_multicast h [] ht] at htext
    have hlen := congrArg List.length htext
    have hseven : (lit "multic ").length = 7 := rfl
    rw [Ip6Class.text, List.length_append, hseven] at hlen
    omega
  · intro hm c hc dst tmp ht
    exact ⟨zero_mem_strlcpy _ _ (by decide), inetDetails6_plain hc hm dst ht⟩

/-- ff02::1, the nodes of a link, comes out as "linkloc". -/
theorem not_detailsClassified_multicast :
    ¬ DetailsClassified [0xff, 2, 0, 0, 0, 0, 0, 0, 0, 0, 0, 0, 0, 0, 0, 1] := by
  intro h
  have htext := (h (.multicast 2) ⟨rfl, rfl⟩ [] (List.replicate 16 0) rfl).2
  revert htext
  decide

end Lmap
