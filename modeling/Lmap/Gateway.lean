import Lmap.Inet
import Lmap.Library.Scan

/-!
The default gateway, which is looked for in the route file of the kernel: a line of it begins
with the name of an interface and three hexadecimal columns.
-/

set_option autoImplicit false

namespace Lmap
open CString Scan

def RTF_GATEWAY : UInt16 := 2

def INADDR_ANY : UInt32 := 0

/-- `sizeof (line) - 1`. -/
def ROUTE_LINE : Nat := 1023

/-- `"%x %x %hx"`. No number has more digits than the line has bytes. -/
def routeFormat : List Directive :=
  [.hex ROUTE_LINE, .space, .hex ROUTE_LINE, .space, .hex ROUTE_LINE]

/-- The number that is converted, an `unsigned long`; out of its range it is the largest one. -/
def ulong (longBits : Nat) (v : Int) : Nat :=
  if v.natAbs < 2 ^ longBits then (v % 2 ^ longBits).toNat else 2 ^ longBits - 1

/-- `%x` and `%hx` keep the low bits. -/
def scanned32 (longBits : Nat) (v : Int) : UInt32 := UInt32.ofNat (ulong longBits v)

def scanned16 (longBits : Nat) (v : Int) : UInt16 := UInt16.ofNat (ulong longBits v)

/-- The loop, over the texts that `fgets` reads. `line` is the buffer, and a text that is short
leaves there what is behind its terminator. -/
def gwLoop (longBits : Nat) : List (List UInt8) → List UInt8 → UInt32 → UInt32 × Int
  | [], _, gwAddr => (gwAddr, ENOTFOUND)
  | text :: texts, line, gwAddr =>
    let line := strcpy line text
    match (scan routeFormat (cstr (line.drop 8))).1 with
    | [.int dest, .int gw, .int flags] =>
      if scanned16 longBits flags &&& RTF_GATEWAY ≠ 0 ∧ scanned32 longBits dest = INADDR_ANY then
        (scanned32 longBits gw, ESUCCESS)
      else gwLoop longBits texts line (scanned32 longBits gw)
    | [.int _, .int gw] => gwLoop longBits texts line (scanned32 longBits gw)
    | _ => gwLoop longBits texts line gwAddr

/-- `LINUX_ROUTE_FILE`, which is `none` if it cannot be opened, what is in `line`, and what is in
`*gw_addr`. -/
def getDefaultGw (longBits : Nat) (file : Option (List UInt8)) (line : List UInt8)
    (gwAddr : UInt32) : UInt32 × Int :=
  match file with
  | none => (gwAddr, EINVALID)
  | some file =>
    match reads ROUTE_LINE file with
    | [] => (gwAddr, ENOTFOUND)
    | header :: texts => gwLoop longBits texts (strcpy line header) gwAddr

abbrev HexText (n : Nat) := { ds : List UInt8 // ds.length = n ∧ ∀ c ∈ ds, isHex c }

def HexText.value {n : Nat} (ds : HexText n) : Nat := readHex 0 ds.val

structure Route where
  name : List UInt8
  dest : HexText 8
  gateway : HexText 8
  flags : HexText 4
  more : List UInt8
  name_length : 1 ≤ name.length ∧ name.length ≤ 15
  name_plain : ∀ c ∈ name, c ≠ 0 ∧ c ≠ 9 ∧ c ≠ 10
  more_plain : ∀ c ∈ more, c ≠ 0 ∧ c ≠ 10

def Route.columns (r : Route) : List UInt8 :=
  r.name ++ 9 :: (r.dest.val ++ 9 :: (r.gateway.val ++ 9 :: r.flags.val))

def Route.body (r : Route) : List UInt8 := r.columns ++ 9 :: r.more

def Route.line (r : Route) : List UInt8 := r.body ++ [10]

structure RouteFile where
  header : List UInt8
  routes : List Route
  header_plain : ∀ c ∈ header, c ≠ 0 ∧ c ≠ 10

def RouteFile.text (f : RouteFile) : List UInt8 := f.header ++ 10 :: f.routes.flatMap Route.line

def Route.HasGateway (r : Route) : Prop := UInt16.ofNat r.flags.value &&& RTF_GATEWAY ≠ 0

instance (r : Route) : Decidable r.HasGateway :=
  inferInstanceAs (Decidable (UInt16.ofNat r.flags.value &&& RTF_GATEWAY ≠ 0))

def Route.IsDefault (r : Route) : Prop := r.dest.value = 0 ∧ r.HasGateway

instance (r : Route) : Decidable r.IsDefault :=
  inferInstanceAs (Decidable (r.dest.value = 0 ∧ r.HasGateway))

def Route.gwAddr (r : Route) : UInt32 := UInt32.ofNat r.gateway.value

def RouteFile.gateway (f : RouteFile) : Option UInt32 :=
  (f.routes.find? fun r => r.IsDefault).map Route.gwAddr

/-- The default gateway is found if there is one, and it is the one that is found. -/
def FindsGateway (longBits : Nat) (f : RouteFile) : Prop :=
  ∀ line gwAddr,
    ((getDefaultGw longBits (some f.text) line gwAddr).2 = ESUCCESS ↔ ∃ r ∈ f.routes, r.IsDefault) ∧
    ((getDefaultGw longBits (some f.text) line gwAddr).2 = ESUCCESS →
      f.gateway = some (getDefaultGw longBits (some f.text) line gwAddr).1)

def rowGateway (longBits : Nat) (row : List UInt8) : Option UInt32 :=
  match (scan routeFormat row).1 with
  | [.int dest, .int gw, .int flags] =>
    if scanned16 longBits flags &&& RTF_GATEWAY ≠ 0 ∧ scanned32 longBits dest = INADDR_ANY then
      some (scanned32 longBits gw)
    else none
  | _ => none

def rows : List UInt8 → List (List UInt8) → List (List UInt8)
  | _, [] => []
  | row, text :: texts =>
    let row := if text.length < 8 then row else text.drop 8
    row :: rows row texts

def cutGateway (longBits : Nat) (line : List UInt8) : Option UInt32 :=
  (rows [] (reads ROUTE_LINE line)).tail.findSome? (rowGateway longBits)

/-- With a name of up to 8 bytes the destination is read from its last digits only, one more
than the name has bytes; a longer name is read for numbers from its ninth byte on. -/
def Route.taken (longBits : Nat) (r : Route) : Option UInt32 :=
  if r.name.length ≤ 8 then
    if r.HasGateway ∧ r.dest.value % 16 ^ (r.name.length + 1) = 0 then some r.gwAddr else none
  else rowGateway longBits ((r.line.take (ROUTE_LINE - 1)).drop 8)

def RouteFile.taken (longBits : Nat) (f : RouteFile) : Option UInt32 :=
  (cutGateway longBits (f.header ++ [10])).or
    (f.routes.findSome? fun r => (r.taken longBits).or (cutGateway longBits r.line))

variable {longBits : Nat} {r : Route}

theorem cstr_strcpy_drop (line : List UInt8) {text : List UInt8} (hplain : ∀ c ∈ text, c ≠ 0) :
    cstr ((strcpy line text).drop 8) =
      if text.length < 8 then cstr (line.drop 8) else text.drop 8 := by
  split
  · rename_i hlen
    have hdrop : (strcpy line text).drop 8 = line.drop 8 := by
      rw [strcpy, List.drop_append, List.drop_of_length_le (by omega), List.nil_append,
        List.drop_cons (by omega), List.drop_drop]
      congr 1
      omega
    rw [hdrop]
  · rename_i hlen
    rw [strcpy, List.drop_append_of_le_length (by omega)]
    exact cstr_append_zero fun c hc => hplain c (List.mem_of_mem_drop hc)

theorem gwLoop_step (longBits : Nat) (text : List UInt8) (texts : List (List UInt8))
    (line : List UInt8) (gwAddr : UInt32) :
    ∃ left, gwLoop longBits (text :: texts) line gwAddr =
      (rowGateway longBits (cstr ((strcpy line text).drop 8))).elim
        (gwLoop longBits texts (strcpy line text) left) fun gw => (gw, ESUCCESS) := by
  unfold rowGateway
  rw [gwLoop]
  generalize (scan routeFormat (cstr ((strcpy line text).drop 8))).1 = values
  split
  · rename_i dest gw flags
    refine ⟨scanned32 longBits gw, ?_⟩
    dsimp only
    split <;> rfl
  · rename_i dest gw
    exact ⟨scanned32 longBits gw, rfl⟩
  · rename_i hthree htwo
    refine ⟨gwAddr, ?_⟩
    split
    · rename_i dest gw flags
      exact absurd rfl (hthree dest gw flags)
    · rfl

/-- The loop takes the first row that has a gateway in it. -/
theorem gwLoop_eq (longBits : Nat) (texts : List (List UInt8)) (line : List UInt8)
    (gwAddr : UInt32) (hplain : ∀ text ∈ texts, ∀ c ∈ text, c ≠ 0) :
    ∃ left, gwLoop longBits texts line gwAddr =
      ((rows (cstr (line.drop 8)) texts).findSome? (rowGateway longBits)).elim (left, ENOTFOUND)
        fun gw => (gw, ESUCCESS) := by
  induction texts generalizing line gwAddr with
  | nil => exact ⟨gwAddr, rfl⟩
  | cons text texts ih =>
    obtain ⟨htext, htexts⟩ := List.forall_mem_cons.mp hplain
    obtain ⟨left, hstep⟩ := gwLoop_step longBits text texts line gwAddr
    have hrow := cstr_strcpy_drop line htext
    rw [hstep, rows, List.findSome?_cons, ← hrow]
    cases rowGateway longBits (cstr ((strcpy line text).drop 8)) with
    | none => exact ih (strcpy line text) left htexts
    | some gw => exact ⟨left, rfl⟩

theorem rows_append (row : List UInt8) (xs ys : List (List UInt8)) :
    ∃ row', rows row (xs ++ ys) = rows row xs ++ rows row' ys := by
  induction xs generalizing row with
  | nil => exact ⟨row, rfl⟩
  | cons text xs ih =>
    obtain ⟨row', hrows⟩ := ih (if text.length < 8 then row else text.drop 8)
    exact ⟨row', by rw [List.cons_append, rows, rows, hrows, List.cons_append]⟩

theorem reads_body {body : List UInt8} (hplain : ∀ c ∈ body, c ≠ 10) :
    ∃ texts, reads ROUTE_LINE (body ++ [10]) = (body ++ [10]).take (ROUTE_LINE - 1) :: texts ∧
      (body.length + 1 < ROUTE_LINE → texts = []) := by
  have hsize : 1 < ROUTE_LINE := by decide
  by_cases hlen : body.length + 1 < ROUTE_LINE
  · refine ⟨[], ?_, fun _ => rfl⟩
    rw [reads_of_fgets hsize (fgets_newline [] hplain hlen), reads_nil,
      List.take_of_length_le (by rw [List.length_append]; exact Nat.le_pred_of_lt hlen)]
  · have hget : fgets ROUTE_LINE (body ++ [10]) =
        some (body.take (ROUTE_LINE - 1), body.drop (ROUTE_LINE - 1) ++ [10]) := by
      rw [fgets, if_neg (by simp), takeLine_short _ hplain (by omega)]
    refine ⟨reads ROUTE_LINE (body.drop (ROUTE_LINE - 1) ++ [10]), ?_, fun h => absurd h hlen⟩
    rw [reads_of_fgets hsize hget, List.take_append_of_le_length (by omega)]

theorem rows_header {header : List UInt8} (hplain : ∀ c ∈ header, c ≠ 0 ∧ c ≠ 10)
    (line : List UInt8) :
    ∃ first texts, reads ROUTE_LINE (header ++ [10]) = first :: texts ∧
      rows (cstr ((strcpy line first).drop 8)) texts =
        (rows [] (reads ROUTE_LINE (header ++ [10]))).tail := by
  obtain ⟨texts, hreads, hshort⟩ := reads_body fun c hc => (hplain c hc).2
  refine ⟨_, texts, hreads, ?_⟩
  have hzero : ∀ c ∈ (header ++ [10]).take (ROUTE_LINE - 1), c ≠ 0 := by
    intro c hc
    rcases List.mem_append.mp (List.mem_of_mem_take hc) with hc | hc
    · exact (hplain c hc).1
    · rw [List.mem_singleton.mp hc]
      decide
  rw [hreads, rows, List.tail_cons, cstr_strcpy_drop line hzero]
  by_cases hlen : ((header ++ [10]).take (ROUTE_LINE - 1)).length < 8
  · have hnil : texts = [] := by
      refine hshort ?_
      simp only [List.length_take, List.length_append, List.length_singleton, ROUTE_LINE] at hlen ⊢
      omega
    rw [hnil]
    rfl
  · rw [if_neg hlen, if_neg hlen]

theorem Route.columns_length (r : Route) : r.columns.length = r.name.length + 23 := by
  simp only [columns, List.length_append, List.length_cons, r.dest.property.1,
    r.gateway.property.1, r.flags.property.1]

theorem Route.body_plain (r : Route) : ∀ c ∈ r.body, c ≠ 0 ∧ c ≠ 10 := by
  have hhex : ∀ {n : Nat} (ds : HexText n), ∀ c ∈ ds.val, c ≠ 0 ∧ c ≠ 10 := by
    intro n ds c hc
    have hall : ∀ c : UInt8, isHex c → c ≠ 0 ∧ c ≠ 10 := forall_byte (by decide +kernel)
    exact hall c (ds.property.2 c hc)
  intro c hc
  simp only [body, columns, List.mem_append, List.mem_cons] at hc
  rcases hc with (hc | rfl | hc | rfl | hc | rfl | hc) | rfl | hc
  · exact ⟨(r.name_plain c hc).1, (r.name_plain c hc).2.2⟩
  · decide
  · exact hhex _ c hc
  · decide
  · exact hhex _ c hc
  · decide
  · exact hhex _ c hc
  · decide
  · exact r.more_plain c hc

def Route.row (r : Route) : List UInt8 := (r.line.take (ROUTE_LINE - 1)).drop 8

theorem Route.reads_line (r : Route) :
    ∃ texts, reads ROUTE_LINE r.line = r.line.take (ROUTE_LINE - 1) :: texts :=
  (reads_body fun c hc => (r.body_plain c hc).2).imp fun _ h => h.1

theorem Route.rows_line (r : Route) (row : List UInt8) :
    rows row (reads ROUTE_LINE r.line) =
      r.row :: (rows [] (reads ROUTE_LINE r.line)).tail := by
  obtain ⟨texts, hreads⟩ := r.reads_line
  have hlong : ¬ (r.line.take (ROUTE_LINE - 1)).length < 8 := by
    have hcolumns := r.columns_length
    simp only [line, body, List.length_take, List.length_append, hcolumns, ROUTE_LINE]
    omega
  rw [hreads, rows, rows, if_neg hlong, if_neg hlong]
  rfl

theorem findSome_rows (routes : List Route) (row : List UInt8) :
    (rows row (routes.flatMap fun r => reads ROUTE_LINE r.line)).findSome? (rowGateway longBits) =
      routes.findSome? fun r => (rowGateway longBits r.row).or (cutGateway longBits r.line) := by
  induction routes generalizing row with
  | nil => rfl
  | cons r routes ih =>
    obtain ⟨row', hrows⟩ := rows_append row (reads ROUTE_LINE r.line)
      (routes.flatMap fun r => reads ROUTE_LINE r.line)
    have hline : (rows row (reads ROUTE_LINE r.line)).findSome? (rowGateway longBits) =
        (rowGateway longBits r.row).or (cutGateway longBits r.line) := by
      rw [r.rows_line, List.findSome?_cons, cutGateway]
      cases rowGateway longBits r.row <;> rfl
    rw [List.flatMap_cons, hrows, List.findSome?_append, ih, hline, List.findSome?_cons]
    cases (rowGateway longBits r.row).or (cutGateway longBits r.line) <;> rfl

theorem ulong_of_lt {n : Nat} (hn : n < 2 ^ longBits) : ulong longBits n = n := by
  have hmod : ((n : Int) % 2 ^ longBits).toNat = n := by
    rw [Int.emod_eq_of_lt (Int.natCast_nonneg n) (by exact_mod_cast hn), Int.toNat_natCast]
  rw [ulong, Int.natAbs_natCast, if_pos hn, hmod]

theorem HexText.value_lt {n : Nat} (ds : HexText n) : ds.value < 16 ^ n := by
  have hlt := (readHex_acc ds.property.2 0).2
  rwa [ds.property.1] at hlt

theorem scan_columns {row ds rest : List UInt8} (gateway : HexText 8) (flags : HexText 4)
    (hrow : row.dropWhile isSpace =
      ds ++ 9 :: (gateway.val ++ 9 :: (flags.val ++ 9 :: rest)))
    (hds : ∀ c ∈ ds, isHex c) (hne : ds ≠ []) (hlen : ds.length ≤ 8) :
    (scan routeFormat row).1 =
      [.int (readHex 0 ds), .int gateway.value, .int flags.value] := by
  have htab : isSpace 9 := by decide
  have hcolumn : ∀ {n : Nat} (column : HexText n) (tail : List UInt8), 0 < n →
      (9 :: (column.val ++ tail)).dropWhile isSpace = column.val ++ tail ∧
        (column.val ++ tail).dropWhile isSpace = column.val ++ tail ∧ column.val ≠ [] := by
    intro n column tail hn
    have hne : column.val ≠ [] := by
      intro hnil
      have hlen := column.property.1
      rw [hnil] at hlen
      exact absurd hlen (Nat.ne_of_lt hn)
    have hdrop := dropWhile_isSpace column.property.2 hne tail
    exact ⟨by rw [List.dropWhile_cons_of_pos htab, hdrop], hdrop, hne⟩
  obtain ⟨hskip, hdrop, hgateway⟩ :=
    hcolumn gateway (9 :: (flags.val ++ 9 :: rest)) (by decide)
  obtain ⟨hskip', hdrop', hflags⟩ := hcolumn flags (9 :: rest) (by decide)
  have hwidth : ∀ n, n ≤ 8 → n ≤ ROUTE_LINE := fun n hn => hn.trans (by decide)
  rw [routeFormat, scan_hex_of_hex hrow hds hne (hwidth _ hlen) htab, scan, hskip,
    scan_hex_of_hex hdrop gateway.property.2 hgateway
      (hwidth _ (by rw [gateway.property.1])) htab, scan, hskip',
    scan_hex_of_hex hdrop' flags.property.2 hflags
      (hwidth _ (by rw [flags.property.1]; decide)) htab]
  rfl

theorem Route.row_eq (r : Route) :
    ∃ rest, r.row = (r.name ++ 9 :: (r.dest.val ++
      9 :: (r.gateway.val ++ 9 :: (r.flags.val ++ 9 :: rest)))).drop 8 := by
  have hcolumns := r.columns_length
  have hlength := r.name_length.2
  have hsplit : r.line = (r.columns ++ [9]) ++ (r.more ++ [10]) := by simp [line, body]
  have hlen : (r.columns ++ [9]).length ≤ ROUTE_LINE - 1 := by
    rw [List.length_append, hcolumns, ROUTE_LINE, List.length_singleton]
    omega
  refine ⟨(r.more ++ [10]).take (ROUTE_LINE - 1 - (r.columns ++ [9]).length), ?_⟩
  rw [row, hsplit, List.take_append, List.take_of_length_le hlen]
  simp [columns]

theorem Route.row_short (r : Route) (hshort : r.name.length ≤ 8) :
    ∃ rest, r.row.dropWhile isSpace =
      r.dest.val.drop (7 - r.name.length) ++
        9 :: (r.gateway.val ++ 9 :: (r.flags.val ++ 9 :: rest)) := by
  obtain ⟨rest, hrow⟩ := r.row_eq
  refine ⟨rest, ?_⟩
  have hdest := r.dest.property.1
  have hhex : ∀ c ∈ r.dest.val.drop (7 - r.name.length), isHex c :=
    fun c hc => r.dest.property.2 c (List.mem_of_mem_drop hc)
  have hne : r.dest.val.drop (7 - r.name.length) ≠ [] := by
    intro hnil
    have hzero := congrArg List.length hnil
    rw [List.length_drop, hdest, List.length_nil] at hzero
    omega
  rw [hrow, List.drop_append, List.drop_of_length_le hshort, List.nil_append]
  by_cases height : r.name.length = 8
  · have htab : isSpace 9 := by decide
    rw [height] at hhex hne ⊢
    rw [Nat.sub_self, List.drop_zero, List.dropWhile_cons_of_pos htab]
    exact dropWhile_isSpace hhex hne _
  · obtain ⟨k, hk⟩ : ∃ k, 8 - r.name.length = k + 1 := ⟨7 - r.name.length, by omega⟩
    have hk7 : 7 - r.name.length = k := by omega
    rw [hk7] at hhex hne ⊢
    rw [hk, List.drop_succ_cons, List.drop_append_of_le_length (by omega)]
    exact dropWhile_isSpace hhex hne _

theorem Route.dest_read (r : Route) (hshort : r.name.length ≤ 8) :
    readHex 0 (r.dest.val.drop (7 - r.name.length)) =
      r.dest.value % 16 ^ (r.name.length + 1) := by
  have hlt := r.dest.value_lt
  rw [readHex_drop r.dest.property.2, r.dest.property.1]
  change r.dest.value % 16 ^ (8 - (7 - r.name.length)) = _
  by_cases height : r.name.length = 8
  · have hle : (16 : Nat) ^ 8 ≤ 16 ^ 9 := by decide
    rw [height, Nat.mod_eq_of_lt hlt, Nat.mod_eq_of_lt (Nat.lt_of_lt_of_le hlt hle)]
  · have hexp : 8 - (7 - r.name.length) = r.name.length + 1 := by omega
    rw [hexp]

theorem Route.taken_eq (hbits : 32 ≤ longBits) (r : Route) :
    rowGateway longBits r.row = r.taken longBits := by
  by_cases hshort : r.name.length ≤ 8
  · obtain ⟨rest, hrow⟩ := r.row_short hshort
    have hlen : (r.dest.val.drop (7 - r.name.length)).length = 8 - (7 - r.name.length) := by
      rw [List.length_drop, r.dest.property.1]
    have hscan := scan_columns r.gateway r.flags hrow
      (fun c hc => r.dest.property.2 c (List.mem_of_mem_drop hc))
      (List.ne_nil_of_length_pos (by omega)) (by omega)
    have hlong : 2 ^ 32 ≤ 2 ^ longBits := Nat.pow_le_pow_right (by decide) hbits
    have hdest : r.dest.value % 16 ^ (r.name.length + 1) < 2 ^ 32 :=
      Nat.lt_of_le_of_lt (Nat.mod_le _ _) r.dest.value_lt
    have hflags : r.flags.value < 2 ^ 32 := Nat.lt_of_lt_of_le r.flags.value_lt (by decide)
    have hgateway : r.gateway.value < 2 ^ 32 := r.gateway.value_lt
    have hzero : UInt32.ofNat (r.dest.value % 16 ^ (r.name.length + 1)) = INADDR_ANY ↔
        r.dest.value % 16 ^ (r.name.length + 1) = 0 := by
      rw [← UInt32.toNat_inj, UInt32.toNat_ofNat', Nat.mod_eq_of_lt hdest]
      rfl
    simp only [rowGateway, hscan, r.dest_read hshort, scanned16, scanned32,
      ulong_of_lt (Nat.lt_of_lt_of_le hdest hlong), ulong_of_lt (Nat.lt_of_lt_of_le hflags hlong),
      ulong_of_lt (Nat.lt_of_lt_of_le hgateway hlong), hzero]
    rw [taken, if_pos hshort]
    rfl
  · rw [taken, if_neg hshort]
    rfl

theorem reads_text (f : RouteFile) :
    reads ROUTE_LINE f.text = reads ROUTE_LINE (f.header ++ [10]) ++
      f.routes.flatMap fun r => reads ROUTE_LINE r.line := by
  have hsize : 1 < ROUTE_LINE := by decide
  have hroutes : ∀ routes : List Route, reads ROUTE_LINE (routes.flatMap Route.line) =
      routes.flatMap fun r => reads ROUTE_LINE r.line := by
    intro routes
    induction routes with
    | nil => rfl
    | cons r routes ih =>
      rw [List.flatMap_cons, Route.line, List.append_assoc, List.singleton_append,
        reads_append _ hsize (fun c hc => (r.body_plain c hc).2), ih]
      rfl
  rw [RouteFile.text, reads_append _ hsize (fun c hc => (f.header_plain c hc).2), hroutes]

theorem RouteFile.plain (f : RouteFile) : ∀ c ∈ f.text, c ≠ 0 := by
  intro c hc
  simp only [text, List.mem_append, List.mem_cons, List.mem_flatMap] at hc
  rcases hc with hc | rfl | ⟨r, -, hc⟩
  · exact (f.header_plain c hc).1
  · decide
  · rcases List.mem_append.mp hc with hc | hc
    · exact (r.body_plain c hc).1
    · rw [List.mem_singleton.mp hc]
      decide

theorem getDefaultGw_eq (hbits : 32 ≤ longBits) (f : RouteFile) (line : List UInt8)
    (gwAddr : UInt32) :
    ∃ left, getDefaultGw longBits (some f.text) line gwAddr =
      (f.taken longBits).elim (left, ENOTFOUND) fun gw => (gw, ESUCCESS) := by
  obtain ⟨first, texts, hheader, hrows⟩ := rows_header f.header_plain line
  have hreads := reads_text f
  rw [hheader, List.cons_append] at hreads
  have hplain : ∀ text ∈ texts ++ f.routes.flatMap fun r => reads ROUTE_LINE r.line,
      ∀ c ∈ text, c ≠ 0 := by
    intro text htext c hc
    refine f.plain c ?_
    rw [← reads_flatten (by decide : 1 < ROUTE_LINE) f.text, hreads]
    exact List.mem_flatten.mpr ⟨text, List.mem_cons_of_mem _ htext, hc⟩
  obtain ⟨left, hloop⟩ := gwLoop_eq longBits _ (strcpy line first) gwAddr hplain
  obtain ⟨row, hsplit⟩ := rows_append (cstr ((strcpy line first).drop 8)) texts
    (f.routes.flatMap fun r => reads ROUTE_LINE r.line)
  refine ⟨left, ?_⟩
  simp only [getDefaultGw, hreads]
  rw [hloop, hsplit, List.findSome?_append, findSome_rows, hrows]
  simp only [RouteFile.taken, cutGateway, Route.taken_eq hbits]

theorem RouteFile.gateway_isSome (f : RouteFile) :
    f.gateway.isSome ↔ ∃ r ∈ f.routes, r.IsDefault := by
  simp [gateway, List.find?_isSome]

/-- The default gateway is found exactly if the first gateway that is taken for it, if there is
one, is that of the first default route, if there is one. -/
theorem findsGateway_iff (hbits : 32 ≤ longBits) (f : RouteFile) :
    FindsGateway longBits f ↔ f.taken longBits = f.gateway := by
  have hne : ENOTFOUND ≠ ESUCCESS := by decide
  constructor
  · intro h
    obtain ⟨left, heq⟩ := getDefaultGw_eq hbits f [] 0
    obtain ⟨hsuccess, hgateway⟩ := h [] 0
    rw [← f.gateway_isSome] at hsuccess
    rw [heq] at hsuccess hgateway
    cases htaken : f.taken longBits with
    | none =>
      rw [htaken] at hsuccess
      cases hg : f.gateway with
      | none => rfl
      | some gw => exact absurd (hsuccess.mpr (by rw [hg]; rfl)) hne
    | some gw =>
      rw [htaken] at hgateway
      exact (hgateway rfl).symm
  · intro htaken line gwAddr
    obtain ⟨left, heq⟩ := getDefaultGw_eq hbits f line gwAddr
    rw [← f.gateway_isSome, heq, htaken]
    cases f.gateway with
    | none => exact ⟨iff_of_false hne (by decide), fun h => absurd h hne⟩
    | some gw => exact ⟨iff_of_true rfl rfl, fun _ => rfl⟩

theorem cutGateway_of_short {body : List UInt8} (hplain : ∀ c ∈ body, c ≠ 10)
    (hlen : body.length + 1 < ROUTE_LINE) : cutGateway longBits (body ++ [10]) = none := by
  obtain ⟨texts, hreads, hshort⟩ := reads_body hplain
  rw [cutGateway, hreads, hshort hlen]
  rfl

theorem findsGateway_of_short (hbits : 32 ≤ longBits) {f : RouteFile}
    (hheader : f.header.length + 1 < ROUTE_LINE)
    (hline : ∀ r ∈ f.routes, r.body.length + 1 < ROUTE_LINE)
    (hname : ∀ r ∈ f.routes, r.name.length ≤ 8)
    (hdest : ∀ r ∈ f.routes, r.HasGateway →
      r.dest.value % 16 ^ (r.name.length + 1) = 0 → r.dest.value = 0) :
    FindsGateway longBits f := by
  rw [findsGateway_iff hbits, RouteFile.taken, RouteFile.gateway,
    cutGateway_of_short (fun c hc => (f.header_plain c hc).2) hheader, Option.none_or]
  have htaken : ∀ r ∈ f.routes, (r.taken longBits).or (cutGateway longBits r.line) =
      if r.IsDefault then some r.gwAddr else none := by
    intro r hr
    have hcut : cutGateway longBits r.line = none :=
      cutGateway_of_short (fun c hc => (r.body_plain c hc).2) (hline r hr)
    have hiff : r.HasGateway ∧ r.dest.value % 16 ^ (r.name.length + 1) = 0 ↔ r.IsDefault := by
      constructor
      · rintro ⟨hgateway, hzero⟩
        exact ⟨hdest r hr hgateway hzero, hgateway⟩
      · rintro ⟨hzero, hgateway⟩
        exact ⟨hgateway, by rw [hzero, Nat.zero_mod]⟩
    rw [Route.taken, if_pos (hname r hr), hcut, Option.or_none]
    simp only [hiff]
  clear hline hname hdest
  generalize f.routes = routes at htaken
  induction routes with
  | nil => rfl
  | cons r routes ih =>
    obtain ⟨hr, hroutes⟩ := List.forall_mem_cons.mp htaken
    rw [List.findSome?_cons, hr, List.find?_cons]
    by_cases hdefault : r.IsDefault
    · simp [hdefault]
    · simp only [hdefault, if_false, decide_false]
      exact ih hroutes

theorem anyAddress_hex : (lit "00000000").length = 8 ∧ ∀ c ∈ lit "00000000", isHex c := by
  decide +kernel

theorem router_hex : (lit "0101A8C0").length = 8 ∧ ∀ c ∈ lit "0101A8C0", isHex c := by
  decide +kernel

theorem upGateway_hex : (lit "0003").length = 4 ∧ ∀ c ∈ lit "0003", isHex c := by
  decide +kernel

theorem wired_length : 1 ≤ (lit "enp0s31f6").length ∧ (lit "enp0s31f6").length ≤ 15 := by
  decide +kernel

theorem wired_plain : ∀ c ∈ lit "enp0s31f6", c ≠ 0 ∧ c ≠ 9 ∧ c ≠ 10 := by
  decide +kernel

theorem refCount_plain : ∀ c ∈ lit "0", c ≠ 0 ∧ c ≠ 10 := by
  decide +kernel

theorem header_plain : ∀ c ∈ lit "Iface\tDestination\tGateway", c ≠ 0 ∧ c ≠ 10 := by
  decide +kernel

def wired : Route where
  name := lit "enp0s31f6"
  dest := ⟨lit "00000000", anyAddress_hex⟩
  gateway := ⟨lit "0101A8C0", router_hex⟩
  flags := ⟨lit "0003", upGateway_hex⟩
  more := lit "0"
  name_length := wired_length
  name_plain := wired_plain
  more_plain := refCount_plain

def wiredFile : RouteFile := ⟨lit "Iface\tDestination\tGateway", [wired], header_plain⟩

theorem not_findsGateway_wired : ¬ FindsGateway 64 wiredFile := by
  intro h
  have hdefault : ∃ r ∈ wiredFile.routes, r.IsDefault :=
    ⟨wired, List.mem_singleton.mpr rfl, by decide +kernel⟩
  exact absurd ((h [] 0).1.mpr hdefault) (by decide +kernel)

theorem findsGateway_iff_wired :
    FindsGateway 64 wiredFile ↔ wiredFile.taken 64 = wiredFile.gateway :=
  findsGateway_iff (by decide) wiredFile

end Lmap
