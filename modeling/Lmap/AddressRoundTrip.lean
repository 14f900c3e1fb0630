import Lmap.AddressCompare
import Lmap.AddressText
import Lmap.Library.AddressGrammar

/-!
The text of an address, as far as one is written, is a text of the standard grammar, and the
address can be read back from it.
-/

set_option autoImplicit false

namespace Lmap
open CString AddressGrammar

def ZeroRun.Of (b : ZeroRun) (words : List Nat) : Prop :=
  ∃ left right, words = left ++ (List.replicate b.len 0 ++ right) ∧ left.length = b.base

def ZeroRun.Ends (b : ZeroRun) (words : List Nat) : Prop :=
  ∃ left, words = left ++ List.replicate b.len 0 ∧ left.length = b.base

theorem ZeroRun.Ends.of {b : ZeroRun} {words : List Nat} (h : b.Ends words) : b.Of words := by
  obtain ⟨left, hwords, hbase⟩ := h
  exact ⟨left, [], by rw [List.append_nil]; exact hwords, hbase⟩

theorem ZeroRun.Of.append {b : ZeroRun} {words : List Nat} (h : b.Of words) (more : List Nat) :
    b.Of (words ++ more) := by
  obtain ⟨left, right, rfl, hbase⟩ := h
  exact ⟨left, right ++ more, by simp, hbase⟩

theorem closeRun_of {best cur : Option ZeroRun} {words : List Nat}
    (hbest : ∀ b ∈ best, b.Of words) (hcur : ∀ c ∈ cur, c.Ends words) :
    ∀ b ∈ closeRun best cur, b.Of words := by
  intro b hb
  cases cur with
  | none => exact hbest b hb
  | some c =>
    have hc : c.Of words := (hcur c rfl).of
    cases best with
    | none =>
      cases hb
      exact hc
    | some b' =>
      simp only [closeRun] at hb
      split at hb
      · cases hb
        exact hc
      · exact hbest b hb

theorem scanWords_of (done words : List Nat) {best cur : Option ZeroRun}
    (hbest : ∀ b ∈ best, b.Of done) (hcur : ∀ c ∈ cur, c.Ends done) :
    ∀ b ∈ scanWords done.length words best cur, b.Of (done ++ words) := by
  induction words generalizing done best cur with
  | nil =>
    rw [List.append_nil]
    exact closeRun_of hbest hcur
  | cons word words ih =>
    have hdone : done ++ word :: words = (done ++ [word]) ++ words := by simp
    have hlen : done.length + 1 = (done ++ [word]).length := by simp
    have hmore : ∀ b ∈ best, b.Of (done ++ [word]) := fun b hb => (hbest b hb).append [word]
    rw [hdone]
    by_cases hzero : word = 0
    · subst hzero
      cases cur with
      | none =>
        simp only [scanWords, if_true]
        rw [hlen]
        refine ih (done ++ [0]) hmore ?_
        intro c hc
        cases hc
        exact ⟨done, rfl, rfl⟩
      | some c =>
        simp only [scanWords, if_true]
        rw [hlen]
        refine ih (done ++ [0]) hmore ?_
        intro c' hc'
        cases hc'
        obtain ⟨left, hleft, hbase⟩ := hcur c rfl
        exact ⟨left, by rw [hleft, List.append_assoc, ← List.replicate_succ'], hbase⟩
    · simp only [scanWords, hzero, if_false]
      rw [hlen]
      refine ih (done ++ [word]) ?_ (by simp)
      intro b hb
      exact (closeRun_of hbest hcur b hb).append [word]

theorem bestRun_of {words : List Nat} {b : ZeroRun} (h : bestRun words = some b) :
    b.Of words ∧ 2 ≤ b.len := by
  have hscan : ∀ b ∈ scanWords 0 words none none, b.Of words :=
    scanWords_of [] words nofun nofun
  unfold bestRun at h
  cases hs : scanWords 0 words none none with
  | none => simp [hs] at h
  | some b' =>
    simp only [hs] at h
    split at h
    · cases h
    · rename_i hlen
      cases h
      exact ⟨hscan b hs, by omega⟩

section Format

variable {words : List Nat} {best : Option ZeroRun}

theorem formatWords_plain (hencap : ¬ Encapsulated words best) {i : Nat} (hi : i ≠ 0)
    (ws rest : List Nat) (tp : List UInt8)
    (hout : ∀ j, i ≤ j → j < i + ws.length → ¬ ∃ b ∈ best, b.Inside j) :
    formatWords words best i (ws ++ rest) tp =
      formatWords words best (i + ws.length) rest (tp ++ colonGroups ws) := by
  induction ws generalizing i tp with
  | nil => simp [colonGroups]
  | cons w ws ih =>
    have hlen : (w :: ws).length = ws.length + 1 := rfl
    have hnow : ¬ ∃ b ∈ best, b.Inside i := hout i (Nat.le_refl i) (by omega)
    have hsix : ¬ (i = 6 ∧ Encapsulated words best) := fun h => hencap h.2
    have hnext : ∀ j, i + 1 ≤ j → j < i + 1 + ws.length → ¬ ∃ b ∈ best, b.Inside j :=
      fun j hj hj' => hout j (by omega) (by omega)
    have hindex : i + 1 + ws.length = i + (w :: ws).length := by omega
    rw [List.cons_append, formatWords, if_neg hnow]
    dsimp only
    rw [if_neg hsix, if_pos hi, ih (Nat.succ_ne_zero i) _ hnext, hindex]
    simp [colonGroups, lit]

theorem formatWords_first (hencap : ¬ Encapsulated words best) (ws rest : List Nat)
    (hout : ∀ j, j < ws.length → ¬ ∃ b ∈ best, b.Inside j) :
    formatWords words best 0 (ws ++ rest) [] =
      formatWords words best ws.length rest (groups ws) := by
  cases ws with
  | nil => simp [groups]
  | cons w ws =>
    have hlen : (w :: ws).length = ws.length + 1 := rfl
    have hnow : ¬ ∃ b ∈ best, b.Inside 0 := hout 0 (by omega)
    have hsix : ¬ (0 = 6 ∧ Encapsulated words best) := fun h => hencap h.2
    have hindex : 0 + 1 + ws.length = (w :: ws).length := by omega
    rw [List.cons_append, formatWords, if_neg hnow]
    dsimp only
    rw [if_neg hsix, if_neg (not_not.mpr rfl),
      formatWords_plain hencap (Nat.succ_ne_zero 0) ws rest _ fun j hj hj' => hout j (by omega),
      hindex, groups_cons]
    rfl

end Format

theorem formatWords_run (words : List Nat) {b : ZeroRun} {i : Nat} (hi : b.base < i)
    (ws rest : List Nat) (tp : List UInt8) (hin : i + ws.length ≤ b.base + b.len) :
    formatWords words (some b) i (ws ++ rest) tp =
      formatWords words (some b) (i + ws.length) rest tp := by
  induction ws generalizing i with
  | nil => rfl
  | cons w ws ih =>
    have hlen : (w :: ws).length = ws.length + 1 := rfl
    have hnow : ∃ b' ∈ some b, b'.Inside i := ⟨b, rfl, by omega, by omega⟩
    have hlater : ¬ ∃ b' ∈ some b, i = b'.base := by
      rintro ⟨b', hb', hbase⟩
      cases hb'
      omega
    have hindex : i + 1 + ws.length = i + (w :: ws).length := by omega
    rw [List.cons_append, formatWords, if_pos hnow, if_neg hlater, ih (by omega) (by omega), hindex]

theorem formatWords_none_best (words : List Nat) :
    formatWords words none 0 words [] = some (groups words) := by
  have hencap : ¬ Encapsulated words none := by
    rintro ⟨b, hb, -⟩
    cases hb
  have hformat := formatWords_first hencap words [] fun j _ h => by simp at h
  rw [List.append_nil] at hformat
  rw [hformat, formatWords]

theorem formatWords_some_best {left right words : List Nat} {b : ZeroRun}
    (hwords : words = left ++ (List.replicate b.len 0 ++ right)) (hbase : left.length = b.base)
    (hlen : 0 < b.len) (hencap : ¬ Encapsulated words (some b)) :
    formatWords words (some b) 0 words [] = some (groups left ++ 58 :: colonGroups right) := by
  obtain ⟨len, hb⟩ : ∃ len, b.len = len + 1 := ⟨b.len - 1, by omega⟩
  have hbefore := formatWords_first hencap left (0 :: (List.replicate len 0 ++ right)) (by
    rintro j hj ⟨b', hb', hin⟩
    cases hb'
    have := hin.1
    omega)
  have hrun := formatWords_run words (b := b) (i := b.base + 1) (Nat.lt_succ_self _)
    (List.replicate len 0) right (groups left ++ lit ":") (by
      rw [List.length_replicate]
      omega)
  have hafter := formatWords_plain hencap (i := b.base + 1 + len) (by omega) right []
    (groups left ++ lit ":") (by
      rintro j hj - ⟨b', hb', hin⟩
      cases hb'
      have := hin.2
      omega)
  have hnow : ∃ b' ∈ some b, b'.Inside b.base := ⟨b, rfl, Nat.le_refl _, by omega⟩
  have hfirst : ∃ b' ∈ some b, b.base = b'.base := ⟨b, rfl, rfl⟩
  have hlist : words = left ++ (0 :: (List.replicate len 0 ++ right)) := by
    rw [hwords, hb]
    rfl
  have hsplit : formatWords words (some b) 0 words [] =
      formatWords words (some b) 0 (left ++ (0 :: (List.replicate len 0 ++ right))) [] :=
    congrArg (fun ws => formatWords words (some b) 0 ws []) hlist
  rw [hsplit, hbefore, hbase, formatWords, if_pos hnow, if_pos hfirst, hrun,
    List.length_replicate]
  rw [List.append_nil] at hafter
  rw [hafter, formatWords]
  simp [lit]

theorem ip6Text_some {src tp text : List UInt8} {size : Nat} {best : Option ZeroRun}
    (hbest : bestRun (ip6Words src) = best)
    (hformat : formatWords (ip6Words src) best 0 (ip6Words src) [] = some tp)
    (h : ip6Text src size = some text) :
    text.length < size ∧
      text = if ∃ b ∈ best, b.base + b.len = 8 then tp ++ lit ":" else tp := by
  have height : NS_IN6ADDRSZ / NS_INT16SZ = 8 := rfl
  simp only [ip6Text, hbest, hformat, height] at h
  generalize (if ∃ b ∈ best, b.base + b.len = 8 then tp ++ lit ":" else tp) = tp' at h ⊢
  by_cases hsize : size < tp'.length + 1
  · rw [if_pos hsize] at h
    cases h
  · rw [if_neg hsize] at h
    cases h
    exact ⟨by omega, rfl⟩

theorem ip6Text_eq {src : List UInt8} (hplain : ¬ EmbedsIp4 src) :
    ∃ text, ip6Text src IP6_ASCII_ADDR_LEN = some text ∧ text.length < IP6_ASCII_ADDR_LEN ∧
      (∀ b ∈ text, b ≠ 0) ∧ readIp6 text = some (ip6Words src) := by
  have hlt := ip6Words_lt src
  have height : (ip6Words src).length = 8 := rfl
  have hencap : ¬ Encapsulated (ip6Words src) (bestRun (ip6Words src)) := by
    rwa [encapsulated_iff]
  cases htext : ip6Text src IP6_ASCII_ADDR_LEN with
  | none => exact absurd ((ip6Text_none src).mp htext) hplain
  | some text =>
    refine ⟨text, rfl, ?_⟩
    cases hbest : bestRun (ip6Words src) with
    | none =>
      obtain ⟨hfits, rfl⟩ := ip6Text_some hbest (formatWords_none_best _) htext
      rw [if_neg (by rintro ⟨b, hb, -⟩; cases hb)] at hfits ⊢
      exact ⟨hfits, groups_plain _, readIp6_groups hlt height⟩
    | some b =>
      rw [hbest] at hencap
      obtain ⟨⟨left, right, hwords, hbase⟩, hlong⟩ := bestRun_of hbest
      obtain ⟨hfits, htp⟩ := ip6Text_some hbest
        (formatWords_some_best hwords hbase (by omega) hencap) htext
      have hsum := congrArg List.length hwords
      rw [height, List.length_append, List.length_append, List.length_replicate] at hsum
      have htext : text = groups left ++ (58 :: 58 :: groups right) := by
        rw [htp]
        cases right with
        | nil =>
          rw [List.length_nil] at hsum
          rw [if_pos ⟨b, rfl, by omega⟩]
          simp [colonGroups, groups, lit]
        | cons w right =>
          rw [List.length_cons] at hsum
          rw [if_neg (by rintro ⟨b', hb', hend⟩; cases hb'; omega), colonGroups_cons]
      have hmem : ∀ w, w ∈ left ∨ w ∈ right → w < 65536 := by
        intro w hw
        refine hlt w ?_
        rw [hwords]
        rcases hw with hw | hw
        · exact List.mem_append_left _ hw
        · exact List.mem_append_right _ (List.mem_append_right _ hw)
      have hread := readIp6_gap (fun w hw => hmem w (.inl hw)) (fun w hw => hmem w (.inr hw))
        (by omega : left.length + right.length ≤ 7)
      have hrest : 8 - left.length - right.length = b.len := by omega
      refine ⟨hfits, ?_, ?_⟩
      · rw [htext]
        intro c hc
        rcases List.mem_append.mp hc with hl | hr
        · exact groups_plain left c hl
        · rcases List.mem_cons.mp hr with rfl | hr
          · decide
          · rcases List.mem_cons.mp hr with rfl | hr
            · decide
            · exact groups_plain right c hr
      · rw [htext, hread, hrest, ← hwords]

theorem flatMap_groupBytes {src : List UInt8} (h : src.length = 16) :
    (ip6Words src).flatMap groupBytes = src := by
  have hpair : ∀ a b : UInt8, groupBytes (a.toNat * 256 + b.toNat) = [a, b] := by
    intro a b
    have hb := b.toNat_lt
    have hhi : (a.toNat * 256 + b.toNat) / 256 = a.toNat := by omega
    have hlo : (a.toNat * 256 + b.toNat) % 256 = b.toNat := by omega
    rw [groupBytes, hhi, hlo, UInt8.ofNat_toNat, UInt8.ofNat_toNat]
  match src, h with
  | [a, b, c, d, e, f, g, i, j, k, l, m, n, o, p, q], _ =>
    simp [ip6Words_eq, ip6Word, in6Byte, hpair]

def Initialised (sa : IpAddr) : Prop :=
  ∃ m sa₀ type p, sa₀.addr.length = MAX_ADDR_LEN ∧ ipAddrInit m sa₀ type p = .ok (sa, ESUCCESS)

def asciiAddrLen (type : Int) : Nat :=
  if type = AF_INET then IP_ASCII_ADDR_LEN else IP6_ASCII_ADDR_LEN

def readAddress (type : Int) (text : List UInt8) : Option (List UInt8) :=
  if type = AF_INET then readDotted text else readIp6Bytes text

/-- The text is written whole, with its terminator and nothing more, in any buffer that is
long enough; and it is read back as the address. -/
def Lossless (sa : IpAddr) : Prop :=
  ∃ text : List UInt8, text.length < asciiAddrLen sa.type ∧ (∀ b ∈ text, b ≠ 0) ∧
    (∀ dst : List UInt8, asciiAddrLen sa.type ≤ dst.length → ipAddrNtoa sa dst = strcpy dst text) ∧
    readAddress sa.type text = some sa.bytes

def TextsTell (x y : IpAddr) : Prop :=
  ∀ dst dst' : List UInt8, asciiAddrLen x.type ≤ dst.length → asciiAddrLen y.type ≤ dst'.length →
    (cstr (ipAddrNtoa x dst) = cstr (ipAddrNtoa y dst') ↔ ipAddrCmp x y = 1)

theorem Initialised.family {sa : IpAddr} (h : Initialised sa) :
    (sa.type = AF_INET ∧ sa.addrSize = 4 ∨ sa.type = AF_INET6 ∧ sa.addrSize = 16) ∧
      sa.addr.length = 16 := by
  obtain ⟨m, sa₀, type, p, hlen, hinit⟩ := h
  have hmax : sa₀.addr.length = 16 := hlen
  rcases ipAddrInit_cases hinit with ⟨-, -, bs, hbs, -, rfl⟩ | ⟨-, -, bs, hbs, -, rfl⟩ |
    ⟨-, -, hrc, -⟩
  · refine ⟨.inl ⟨rfl, rfl⟩, ?_⟩
    rw [List.length_append, List.length_drop]
    omega
  · refine ⟨.inr ⟨rfl, rfl⟩, ?_⟩
    rw [List.length_append, List.length_drop]
    omega
  · exact absurd hrc (by decide)

theorem strlcpy_eq_strcpy (dst : List UInt8) {text : List UInt8} {size : Nat}
    (h : text.length < size) : strlcpy dst text size = strcpy dst text := by
  have htake : text.take (size - 1) = text := List.take_of_length_le (by omega)
  rw [strlcpy, if_neg (by omega : size ≠ 0), htake]
  rfl

theorem lossless_inet {sa : IpAddr} (htype : sa.type = AF_INET) (hsize : sa.addrSize = 4)
    (hlen : sa.addr.length = 16) : Lossless sa := by
  have hfour : (sa.addr.take 4).length = 4 := by
    rw [List.length_take, hlen]
    rfl
  have hascii : asciiAddrLen sa.type = 17 := if_pos htype
  obtain ⟨hlong, hplain⟩ := dotted_fits hfour
  refine ⟨dotted (sa.addr.take 4), by omega, hplain, fun dst _ => ?_, ?_⟩
  · rw [ipAddrNtoa, if_pos htype]
    exact strlcpy_eq_strcpy dst (Nat.lt_of_le_of_lt hlong (by decide))
  · rw [readAddress, if_pos htype, readDotted_dotted hfour, IpAddr.bytes, hsize]

theorem lossless_inet6 {sa : IpAddr} (htype : sa.type = AF_INET6) (hsize : sa.addrSize = 16)
    (hlen : sa.addr.length = 16) (hplain : ¬ EmbedsIp4 sa.addr) : Lossless sa := by
  have hne := ne_inet_of_inet6 htype
  have hascii : asciiAddrLen sa.type = IP6_ASCII_ADDR_LEN := if_neg hne
  obtain ⟨text, htext, hfits, hnul, hread⟩ := ip6Text_eq hplain
  refine ⟨text, by rwa [hascii], hnul, fun dst _ => ?_, ?_⟩
  · rw [ipAddrNtoa, if_neg hne, if_pos htype, inetNtop6, htext]
    exact strlcpy_eq_strcpy dst hfits
  · rw [readAddress, if_neg hne, readIp6Bytes, hread, Option.map_some,
      flatMap_groupBytes hlen, IpAddr.bytes, hsize, List.take_of_length_le (by omega)]

/-- The address is of the form for which `inet_ntop6` gives up. -/
def GivesUp (sa : IpAddr) : Prop := sa.type = AF_INET6 ∧ EmbedsIp4 sa.addr

instance (sa : IpAddr) : Decidable (GivesUp sa) := inferInstanceAs (Decidable (_ ∧ _))

theorem not_lossless_of_givesUp {sa : IpAddr} (h : GivesUp sa) : ¬ Lossless sa := by
  rintro ⟨text, -, -, hwrites, -⟩
  have hlen : asciiAddrLen sa.type ≤ (List.replicate 47 (65 : UInt8)).length := by
    rw [asciiAddrLen, if_neg (ne_inet_of_inet6 h.1)]
    decide
  have hsame := hwrites _ hlen
  rw [ipAddrNtoa_embedded h.1 h.2] at hsame
  have hnul := zero_mem_strcpy (List.replicate 47 65) text
  rw [← hsame] at hnul
  exact absurd hnul (by decide)

theorem lossless_iff {sa : IpAddr} (h : Initialised sa) : Lossless sa ↔ ¬ GivesUp sa := by
  obtain ⟨hfamily, hlen⟩ := h.family
  constructor
  · exact fun hl hg => not_lossless_of_givesUp hg hl
  · intro hnot
    rcases hfamily with ⟨htype, hsize⟩ | ⟨htype, hsize⟩
    · exact lossless_inet htype hsize hlen
    · exact lossless_inet6 htype hsize hlen fun hembeds => hnot ⟨htype, hembeds⟩

theorem Initialised.cmp_iff {x y : IpAddr} (hx : Initialised x) (hy : Initialised y)
    (htype : x.type = y.type) : ipAddrCmp x y = 1 ↔ x.bytes = y.bytes := by
  have hsized : ∀ {sa : IpAddr}, Initialised sa → Sized sa := by
    intro sa h
    obtain ⟨hfamily, hlen⟩ := h.family
    rcases hfamily with h4 | h6
    · exact ⟨.inl h4, hlen⟩
    · exact ⟨.inr (.inl h6), hlen⟩
  rw [(hsized hx).same (hsized hy)]
  exact and_iff_right htype

theorem ipAddrNtoa_congr {x y : IpAddr} (hx : Initialised x) (hy : Initialised y)
    (htype : x.type = y.type) (hbytes : x.bytes = y.bytes) (dst : List UInt8) :
    ipAddrNtoa x dst = ipAddrNtoa y dst := by
  obtain ⟨hfx, hlx⟩ := hx.family
  obtain ⟨hfy, hly⟩ := hy.family
  rcases hfx with ⟨htx, hsx⟩ | ⟨htx, hsx⟩
  · have hty := htype.symm.trans htx
    have hsy : y.addrSize = 4 := by
      rcases hfy with ⟨-, hsy⟩ | ⟨h6, -⟩
      · exact hsy
      · exact absurd hty (ne_inet_of_inet6 h6)
    rw [IpAddr.bytes, IpAddr.bytes, hsx, hsy] at hbytes
    have htext : ip4Text x.addr = ip4Text y.addr := by
      rw [ip4Text, ip4Text]
      exact congrArg _ (congrArg _ hbytes)
    rw [ipAddrNtoa, ipAddrNtoa, if_pos htx, if_pos hty, inetNtop4, inetNtop4, htext]
  · have hty := htype.symm.trans htx
    have hsy : y.addrSize = 16 := by
      rcases hfy with ⟨h4, -⟩ | ⟨-, hsy⟩
      · exact absurd h4 (ne_inet_of_inet6 hty)
      · exact hsy
    rw [IpAddr.bytes, IpAddr.bytes, hsx, hsy, List.take_of_length_le (Nat.le_of_eq hlx),
      List.take_of_length_le (Nat.le_of_eq hly)] at hbytes
    rw [ipAddrNtoa, ipAddrNtoa, htype, hbytes]

theorem textsTell_of_lossless {x y : IpAddr} (hx : Initialised x) (hy : Initialised y)
    (hlx : Lossless x) (hly : Lossless y) (htype : x.type = y.type) : TextsTell x y := by
  obtain ⟨text, -, hnul, hwrites, hread⟩ := hlx
  obtain ⟨text', -, hnul', hwrites', hread'⟩ := hly
  intro dst dst' hdst hdst'
  rw [hwrites dst hdst, hwrites' dst' hdst', cstr_strcpy, cstr_strcpy, cstr_of_plain hnul,
    cstr_of_plain hnul', hx.cmp_iff hy htype]
  constructor
  · rintro rfl
    rw [htype, hread'] at hread
    exact (Option.some.inj hread).symm
  · intro hbytes
    have hsame := ipAddrNtoa_congr hx hy htype hbytes dst
    rw [hwrites dst hdst, hwrites' dst (htype ▸ hdst)] at hsame
    have hcstr := congrArg cstr hsame
    rwa [cstr_strcpy, cstr_strcpy, cstr_of_plain hnul, cstr_of_plain hnul'] at hcstr

/-- The texts of two addresses do what they are for exactly if neither is an IPv6 address with
an IPv4 address at its end. -/
theorem addressText_iff {x y : IpAddr} (hx : Initialised x) (hy : Initialised y) :
    (Lossless x ∧ Lossless y ∧ (x.type = y.type → TextsTell x y)) ↔ ¬ GivesUp x ∧ ¬ GivesUp y := by
  rw [← lossless_iff hx, ← lossless_iff hy]
  constructor
  · rintro ⟨hlx, hly, -⟩
    exact ⟨hlx, hly⟩
  · rintro ⟨hlx, hly⟩
    exact ⟨hlx, hly, textsTell_of_lossless hx hy hlx hly⟩

/-- 2001:db8::1 and ::1. -/
theorem addressText_iff_db8 :
    let x : IpAddr := ⟨AF_INET6, 16, [0x20, 1, 0xd, 0xb8, 0, 0, 0, 0, 0, 0, 0, 0, 0, 0, 0, 1]⟩
    let y : IpAddr := ⟨AF_INET6, 16, [0, 0, 0, 0, 0, 0, 0, 0, 0, 0, 0, 0, 0, 0, 0, 1]⟩
    ¬ GivesUp x ∧ ¬ GivesUp y ∧
      ((Lossless x ∧ Lossless y ∧ (x.type = y.type → TextsTell x y)) ↔
        ¬ GivesUp x ∧ ¬ GivesUp y) :=
  ⟨by decide, by decide, addressText_iff
    ⟨Memory.ofList [0x20, 1, 0xd, 0xb8, 0, 0, 0, 0, 0, 0, 0, 0, 0, 0, 0, 1], IpAddr.zero, AF_INET6,
      0, rfl, rfl⟩
    ⟨Memory.ofList [0, 0, 0, 0, 0, 0, 0, 0, 0, 0, 0, 0, 0, 0, 0, 1], IpAddr.zero, AF_INET6, 0, rfl,
      rfl⟩⟩

/-- ::ffff:10.0.0.1: the buffer is left as it was. -/
theorem not_lossless_mapped :
    let sa : IpAddr := ⟨AF_INET6, 16, [0, 0, 0, 0, 0, 0, 0, 0, 0, 0, 0xff, 0xff, 10, 0, 0, 1]⟩
    Initialised sa ∧ ¬ Lossless sa := by
  intro sa
  refine ⟨⟨Memory.ofList sa.addr, IpAddr.zero, AF_INET6, 0, rfl, rfl⟩, ?_⟩
  exact not_lossless_of_givesUp ⟨rfl, by decide⟩

end Lmap
