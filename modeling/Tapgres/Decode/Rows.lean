import Std.Data.String.ToNat
import Tapgres.Decode.Bind
import Tapgres.Lib.BigEndian

/-!
# The columns of a DataRow

A DataRow carries its fields one behind the other, each with a length in front, and `data_row_columns`
takes them apart again:

* `WireRow` — a row as the server sends it, and `WireRow.encode`, its encoding;
* `readField_encode`, `readField_cut` — a field that is there, and one that is cut short;
* `row_columns` — the columns of a row, and of the first `k` bytes of one;
* `hexPreview_inj`, `cellText_some_inj` — when two values of one format have one text;
* `cells_unambiguous` — the same, for the columns shown.
-/

namespace Tapgres.Decode

open Tapgres.Net Tapgres.Pgwire Tapgres.Lib.BigEndian

/-! ### Rows on the wire -/

/-- A field in a row: its length and its bytes, or `-1` for NULL. -/
def encodeField : Option Bytes → Bytes
  | none => [255, 255, 255, 255]
  | some b => toBe 4 b.length ++ b

/-- A row: as many fields as its count can hold, each as long as a length can say. -/
structure WireRow where
  fields : List (Option Bytes)
  count : fields.length ≤ 32767
  sizes : ∀ b, some b ∈ fields → b.length < 2 ^ 31

/-- The payload of the fields. -/
def encodeFields (fields : List (Option Bytes)) : Bytes := (fields.map encodeField).flatten

def WireRow.encode (row : WireRow) : DataRow := ⟨encodeFields row.fields, row.fields.length⟩

/-- The row of which the first `k` bytes of the payload are there. -/
def WireRow.truncated (row : WireRow) (k : ℕ) : DataRow :=
  ⟨(encodeFields row.fields).take k, row.fields.length⟩

/-- How many fields lie wholly within the first `k` bytes. -/
def fieldsWithin : List (Option Bytes) → ℕ → ℕ
  | [], _ => 0
  | f :: fs, k => if (encodeField f).length ≤ k then fieldsWithin fs (k - (encodeField f).length) + 1 else 0

/-! ### Columns -/

/-- Is column `i` described as binary? -/
def isBinary (desc : Option (List FieldSummary)) (i : ℕ) : Bool :=
  ((desc.bind fun d => d[i]?).map fun f => f.formatCode == formatCodeBinary).getD false

/-- The text of a cell: `NULL`, the hexadecimal form in a binary column, quoted text where it can be. -/
def cellText (binary : Bool) : Option Bytes → String
  | none => "NULL"
  | some b => if binary then hexPreview b else quote b

/-- Column `i` with the text `value`: name and type of its description, or `?` and 0. -/
def columnAt (desc : Option (List FieldSummary)) (i : ℕ) (value : String) : DataColumn where
  name := ((desc.bind fun d => d[i]?).map FieldSummary.name).getD "?"
  typeOid := ((desc.bind fun d => d[i]?).map FieldSummary.typeOid).getD 0
  value := value

/-- The columns of `fields`, of which the first is column `i`. -/
def columnsOf (desc : Option (List FieldSummary)) : ℕ → List (Option Bytes) → List DataColumn
  | _, [] => []
  | i, f :: fs => columnAt desc i (cellText (isBinary desc i) f) :: columnsOf desc (i + 1) fs

/-! ### Reading a field -/

/-- The length in front of a field, as `get_i32` reads it. -/
theorem readField_length {n : ℕ} (hn : n < 2 ^ 31) (b : Bytes) :
    readField (toBe 4 n ++ b)
      = if b.length < n then (.truncated, false, b) else (.bytes (b.take n), true, b.drop n) := by
  have hint : getI32 (UInt8.ofNat (n / 256 / 256 / 256)) (UInt8.ofNat (n / 256 / 256)) (UInt8.ofNat (n / 256))
      (UInt8.ofNat n) = n := by
    rw [getI32]
    simp only [UInt8.toNat_ofNat']
    have hvalue : ((n / 256 / 256 / 256 % 2 ^ 8 * 256 + n / 256 / 256 % 2 ^ 8) * 256 + n / 256 % 2 ^ 8) * 256
        + n % 2 ^ 8 = n := by omega
    rw [hvalue, BitVec.toInt_ofNat', Int.bmod_def]
    omega
  show (let len := getI32 _ _ _ _; if len < 0 then (FieldRead.null, true, b)
    else if b.length < len.toNat then (.truncated, false, b)
    else (.bytes (b.take len.toNat), true, b.drop len.toNat)) = _
  rw [hint]
  simp only [Int.toNat_natCast, if_neg (show ¬((n : ℤ) < 0) by omega)]

/-- A field as it is read. -/
def fieldRead : Option Bytes → FieldRead
  | none => .null
  | some b => .bytes b

/-- **A field that is there** is read as it was sent. -/
theorem readField_encode {f : Option Bytes} (hf : ∀ b, f = some b → b.length < 2 ^ 31) (more : Bytes) :
    readField (encodeField f ++ more) = (fieldRead f, true, more) := by
  cases f with
  | none => rfl
  | some b =>
    rw [encodeField, List.append_assoc, readField_length (hf b rfl), List.length_append, if_neg (by omega),
      List.take_left, List.drop_left]
    rfl

/-- **A field that is cut short** ends the row. -/
theorem readField_cut {f : Option Bytes} (hf : ∀ b, f = some b → b.length < 2 ^ 31) {k : ℕ}
    (hk : k < (encodeField f).length) :
    ∃ rest, readField ((encodeField f).take k) = (.truncated, false, rest) := by
  have hshort : ∀ b : Bytes, b.length < 4 → readField b = (.truncated, false, b) := by
    intro b hb
    match b with
    | [] => rfl
    | [_] => rfl
    | [_, _] => rfl
    | [_, _, _] => rfl
    | _ :: _ :: _ :: _ :: more =>
      have hfour : 4 ≤ (more.length + 4) := Nat.le_add_left 4 _
      exact absurd hb (Nat.not_lt.mpr hfour)
  by_cases hlength : k < 4
  · exact ⟨_, hshort _ (by rw [List.length_take]; omega)⟩
  · cases f with
    | none =>
      replace hk : k < 4 := hk
      omega
    | some b =>
      rw [encodeField, List.length_append, length_toBe] at hk
      refine ⟨b.take (k - 4), ?_⟩
      rw [encodeField, List.take_append, length_toBe, List.take_of_length_le (by rw [length_toBe]; omega),
        readField_length (hf b rfl), if_pos (by rw [List.length_take]; omega)]

/-! ### The loop over the fields -/

theorem dataRowColumnsFrom_encode (desc : Option (List FieldSummary)) {fields : List (Option Bytes)}
    (hfields : ∀ b, some b ∈ fields → b.length < 2 ^ 31) (i k : ℕ) :
    dataRowColumnsFrom desc fields.length i ((encodeFields fields).take k)
      = columnsOf desc i (fields.take (fieldsWithin fields k))
        ++ if fieldsWithin fields k < fields.length then [columnAt desc (i + fieldsWithin fields k) "<?>"]
          else [] := by
  induction fields generalizing i k with
  | nil => rfl
  | cons f fs ih =>
    have hf : ∀ b, f = some b → b.length < 2 ^ 31 := fun b hb => hfields b (hb ▸ List.mem_cons_self)
    have hpayload : encodeFields (f :: fs) = encodeField f ++ encodeFields fs := rfl
    rw [hpayload, List.take_append, List.length_cons, fieldsWithin]
    by_cases hwhole : (encodeField f).length ≤ k
    · -- the field is there, and the loop goes on behind it
      rw [List.take_of_length_le hwhole, if_pos hwhole]
      have hrest := ih (fun b hb => hfields b (List.mem_cons_of_mem _ hb)) (i + 1) (k - (encodeField f).length)
      have hcell : dataRowColumnsFrom desc (fs.length + 1) i
          (encodeField f ++ (encodeFields fs).take (k - (encodeField f).length))
          = columnAt desc i (cellText (isBinary desc i) f)
            :: dataRowColumnsFrom desc fs.length (i + 1)
              ((encodeFields fs).take (k - (encodeField f).length)) := by
        rw [dataRowColumnsFrom, readField_encode hf]
        cases f <;> rfl
      rw [hcell, hrest, List.take_succ_cons, columnsOf, List.cons_append, Nat.add_right_comm i,
        Nat.add_assoc i]
      simp only [Nat.add_lt_add_iff_right]
    · -- the field is cut short, and nothing follows
      obtain ⟨rest, hcut⟩ := readField_cut hf (Nat.lt_of_not_le hwhole)
      have hnone : (encodeFields fs).take (k - (encodeField f).length) = [] := by
        rw [Nat.sub_eq_zero_of_le (Nat.le_of_not_le hwhole)]
        rfl
      have hcell : dataRowColumnsFrom desc (fs.length + 1) i ((encodeField f).take k)
          = [columnAt desc i "<?>"] := by
        rw [dataRowColumnsFrom, hcut]
        rfl
      rw [hnone, List.append_nil, hcell, if_neg hwhole, if_pos (Nat.succ_pos _)]
      rfl

/-- All fields lie within the whole payload. -/
theorem fieldsWithin_all (fields : List (Option Bytes)) :
    fieldsWithin fields (encodeFields fields).length = fields.length := by
  induction fields with
  | nil => rfl
  | cons f fs ih =>
    have hpayload : (encodeFields (f :: fs)).length = (encodeField f).length + (encodeFields fs).length :=
      List.length_append
    rw [fieldsWithin, hpayload, if_pos (Nat.le_add_right _ _), Nat.add_sub_cancel_left, ih, List.length_cons]

/-- The columns of a row cut short by the capture: one for each field that is there, and one marked `<?>`
where a field is missing. -/
theorem truncated_columns (row : WireRow) (desc : Option (List FieldSummary)) (k : ℕ) :
    dataRowColumns (row.truncated k) desc
      = columnsOf desc 0 (row.fields.take (fieldsWithin row.fields k))
        ++ if fieldsWithin row.fields k < row.fields.length then
            [columnAt desc (fieldsWithin row.fields k) "<?>"] else [] := by
  have hcount : (max (row.fields.length : ℤ) 0).toNat = row.fields.length := by omega
  rw [dataRowColumns, WireRow.truncated]
  simp only [hcount]
  rw [dataRowColumnsFrom_encode desc row.sizes 0 k, Nat.zero_add]

theorem encoded_columns (row : WireRow) (desc : Option (List FieldSummary)) :
    dataRowColumns row.encode desc = columnsOf desc 0 row.fields := by
  have hwhole := truncated_columns row desc (encodeFields row.fields).length
  have hsame : row.truncated (encodeFields row.fields).length = row.encode := by
    rw [WireRow.truncated, List.take_length]
    rfl
  rwa [hsame, fieldsWithin_all, List.take_length, if_neg (Nat.lt_irrefl _), List.append_nil] at hwhole

/-- **Decoding a row inverts its encoding**, and a payload that is cut short loses whole fields. -/
theorem row_columns (row : WireRow) (desc : Option (List FieldSummary)) :
    dataRowColumns row.encode desc = columnsOf desc 0 row.fields ∧
      ∀ k, dataRowColumns (row.truncated k) desc
        = columnsOf desc 0 (row.fields.take (fieldsWithin row.fields k))
          ++ if fieldsWithin row.fields k < row.fields.length then
              [columnAt desc (fieldsWithin row.fields k) "<?>"] else [] :=
  ⟨encoded_columns row desc, truncated_columns row desc⟩

/-! ### Hexadecimal text -/

def hexDigits : List Char :=
  ['0', '1', '2', '3', '4', '5', '6', '7', '8', '9', 'a', 'b', 'c', 'd', 'e', 'f']

theorem digitChar_mem {n : ℕ} (hn : n < 16) : Nat.digitChar n ∈ hexDigits := by
  interval_cases n <;> decide

theorem digitChar_inj {n m : ℕ} (hn : n < 16) (hm : m < 16) (h : Nat.digitChar n = Nat.digitChar m) :
    n = m := by
  have hall : ∀ a b : Fin 16, Nat.digitChar a = Nat.digitChar b → a = b := by decide
  exact congrArg Fin.val (hall ⟨n, hn⟩ ⟨m, hm⟩ h)

theorem hexByte_mem {x : UInt8} {c : Char} (h : c ∈ hexByte x) : c ∈ hexDigits := by
  have hx := x.toNat_lt
  simp only [hexByte, List.mem_cons, List.not_mem_nil, or_false] at h
  rcases h with rfl | rfl
  · exact digitChar_mem (by omega)
  · exact digitChar_mem (by omega)

theorem hexBytes_mem {b : Bytes} {c : Char} (h : c ∈ b.flatMap hexByte) : c ∈ hexDigits := by
  obtain ⟨x, _, hx⟩ := List.mem_flatMap.mp h
  exact hexByte_mem hx

theorem length_hexBytes (b : Bytes) : (b.flatMap hexByte).length = 2 * b.length := by
  induction b with
  | nil => rfl
  | cons x xs ih =>
    rw [List.flatMap_cons, List.length_append, ih, List.length_cons]
    show 2 + 2 * xs.length = 2 * (xs.length + 1)
    omega

/-- **The two digits of each byte determine the bytes.** -/
theorem hexBytes_inj {b b' : Bytes} (h : b.flatMap hexByte = b'.flatMap hexByte) : b = b' := by
  induction b generalizing b' with
  | nil =>
    have hlen := congrArg List.length h
    rw [length_hexBytes, length_hexBytes, List.length_nil] at hlen
    exact (List.length_eq_zero_iff.mp (by omega)).symm
  | cons x xs ih =>
    cases b' with
    | nil =>
      have hlen := congrArg List.length h
      rw [length_hexBytes, length_hexBytes, List.length_cons, List.length_nil] at hlen
      omega
    | cons y ys =>
      obtain ⟨hfirst, hrest⟩ := List.append_inj h (show (hexByte x).length = (hexByte y).length from rfl)
      have hx := x.toNat_lt
      have hy := y.toNat_lt
      obtain ⟨hhigh, hlow⟩ := List.cons_eq_cons.mp hfirst
      have hdiv := digitChar_inj (by omega) (by omega) hhigh
      have hmod := digitChar_inj (by omega) (by omega) (List.head_eq_of_cons_eq hlow)
      have hxy : x = y := UInt8.toNat_inj.mp (by omega)
      rw [hxy, ih hrest]

/-- The characters behind the digits of a long value. -/
def longSuffix (n : ℕ) : List Char := '…' :: ' ' :: '(' :: ((toString n).toList ++ " bytes)".toList)

theorem hexPreview_toList (b : Bytes) :
    (hexPreview b).toList
      = (b.take 48).flatMap hexByte ++ if 48 < b.length then longSuffix b.length else [] := by
  have htake : b.take (min b.length 48) = b.take 48 := by
    rcases Nat.le_total b.length 48 with hle | hle
    · rw [Nat.min_eq_left hle, List.take_length, List.take_of_length_le hle]
    · rw [Nat.min_eq_right hle]
  rw [hexPreview, htake]
  by_cases hlong : 48 < b.length
  · rw [if_pos hlong, if_pos hlong]
    simp [String.toList_append, longSuffix]
  · rw [if_neg hlong, if_neg hlong]
    simp

/-- Two long values that begin alike and are as long as each other. -/
def LongAlike (b b' : Bytes) : Prop := 48 < b.length ∧ b'.length = b.length ∧ b'.take 48 = b.take 48

theorem longSuffix_inj {n m : ℕ} (h : longSuffix n = longSuffix m) : n = m := by
  simp only [longSuffix, List.cons.injEq, true_and, List.append_cancel_right_eq] at h
  exact Nat.repr_injective (String.toList_injective h)

/-- **The hexadecimal text determines a value**, but for what is left out of a long one. -/
theorem hexPreview_inj {b b' : Bytes} (h : hexPreview b = hexPreview b') : b = b' ∨ LongAlike b b' := by
  have hlist := congrArg String.toList h
  rw [hexPreview_toList, hexPreview_toList] at hlist
  have hno : '…' ∉ hexDigits := by decide
  by_cases hlong : 48 < b.length <;> by_cases hlong' : 48 < b'.length
  · right
    rw [if_pos hlong, if_pos hlong'] at hlist
    have hlen : ((b.take 48).flatMap hexByte).length = ((b'.take 48).flatMap hexByte).length := by
      rw [length_hexBytes, length_hexBytes, List.length_take, List.length_take]
      omega
    obtain ⟨hdigits, hsuffix⟩ := List.append_inj hlist hlen
    exact ⟨hlong, (longSuffix_inj hsuffix).symm, (hexBytes_inj hdigits).symm⟩
  · exfalso
    rw [if_pos hlong, if_neg hlong', List.append_nil] at hlist
    have hmem : '…' ∈ (b'.take 48).flatMap hexByte := by
      rw [← hlist]
      exact List.mem_append_right _ List.mem_cons_self
    exact hno (hexBytes_mem hmem)
  · exfalso
    rw [if_neg hlong, if_pos hlong', List.append_nil] at hlist
    have hmem : '…' ∈ (b.take 48).flatMap hexByte := by
      rw [hlist]
      exact List.mem_append_right _ List.mem_cons_self
    exact hno (hexBytes_mem hmem)
  · left
    rw [if_neg hlong, if_neg hlong', List.append_nil, List.append_nil] at hlist
    have htake := hexBytes_inj hlist
    rwa [List.take_of_length_le (by omega), List.take_of_length_le (by omega)] at htake

/-- The hexadecimal text starts with a digit, if with anything. -/
theorem hexPreview_starts (b : Bytes) {c : Char} {rest : List Char} (h : (hexPreview b).toList = c :: rest) :
    c ∈ hexDigits := by
  rw [hexPreview_toList] at h
  cases b with
  | nil => cases h
  | cons x xs =>
    have hmem : c ∈ hexByte x := by
      obtain ⟨rfl, _⟩ := List.cons_eq_cons.mp h
      exact List.mem_cons_self
    exact hexByte_mem hmem

/-! ### Quoted text -/

theorem charOfByte_inj {x y : UInt8} (h : Char.ofNat x.toNat = Char.ofNat y.toNat) : x = y := by
  have hvalid : ∀ z : UInt8, (Char.ofNat z.toNat).toNat = z.toNat := by
    intro z
    have hz := z.toNat_lt
    rw [Char.ofNat, dif_pos (Or.inl (by omega))]
    rfl
  apply UInt8.toNat_inj.mp
  rw [← hvalid x, ← hvalid y, h]

theorem fromUtf8Ascii_inj {b b' : Bytes} (h : fromUtf8Ascii b = fromUtf8Ascii b') : b = b' := by
  have hlist := congrArg String.toList h
  rw [fromUtf8Ascii, fromUtf8Ascii, String.toList_ofList, String.toList_ofList] at hlist
  exact (List.map_inj_right fun x y hxy => charOfByte_inj hxy).mp hlist

theorem quote_printable {b : Bytes} (h : isPrintable b = true) : quote b = "'" ++ fromUtf8Ascii b ++ "'" := by
  rw [quote, if_pos h]

theorem quote_toList {b : Bytes} (h : isPrintable b = true) :
    (quote b).toList = '\'' :: ((fromUtf8Ascii b).toList ++ ['\'']) := by
  rw [quote_printable h]
  simp [String.toList_append]

theorem quote_hex {b : Bytes} (h : isPrintable b = false) : quote b = hexPreview b := by
  rw [quote, if_neg (by rw [h]; exact Bool.false_ne_true)]

/-! ### Cells -/

/-- The value is shown in hexadecimal. -/
def HexShown (binary : Bool) (b : Bytes) : Prop := binary = true ∨ isPrintable b = false

theorem cellText_hex {binary : Bool} {b : Bytes} (h : HexShown binary b) :
    cellText binary (some b) = hexPreview b := by
  cases binary with
  | true => rfl
  | false =>
    rcases h with h | h
    · cases h
    · exact quote_hex h

theorem cellText_quoted {binary : Bool} {b : Bytes} (h : ¬HexShown binary b) :
    cellText binary (some b) = quote b ∧ isPrintable b = true := by
  rw [HexShown, not_or, Bool.not_eq_true, Bool.not_eq_false] at h
  obtain ⟨rfl, hprint⟩ := h
  exact ⟨rfl, hprint⟩

/-- A text that starts with neither a digit nor a quote is that of no value. -/
theorem cellText_some_ne (binary : Bool) (b : Bytes) {s : String} {c : Char} {rest : List Char}
    (hs : s.toList = c :: rest) (hdigit : c ∉ hexDigits) (hquote : c ≠ '\'') :
    cellText binary (some b) ≠ s := by
  intro heq
  by_cases hhex : HexShown binary b
  · rw [cellText_hex hhex] at heq
    rw [← heq] at hs
    exact hdigit (hexPreview_starts b hs)
  · obtain ⟨hcell, hprint⟩ := cellText_quoted hhex
    rw [hcell] at heq
    rw [← heq, quote_toList hprint] at hs
    exact hquote (List.cons_eq_cons.mp hs).1.symm

/-- **No value is shown as NULL**, nor as missing. -/
theorem cellText_some_ne_markers (binary : Bool) (b : Bytes) :
    cellText binary (some b) ≠ "NULL" ∧ cellText binary (some b) ≠ "<?>" :=
  ⟨cellText_some_ne binary b (show "NULL".toList = 'N' :: ['U', 'L', 'L'] by decide) (by decide) (by decide),
    cellText_some_ne binary b (show "<?>".toList = '<' :: ['?', '>'] by decide) (by decide) (by decide)⟩

/-- **Two values of one format have one text** only if they are one, or shown in hexadecimal, long and
alike. -/
theorem cellText_some_inj {binary : Bool} {b b' : Bytes}
    (h : cellText binary (some b) = cellText binary (some b')) :
    b = b' ∨ (HexShown binary b ∧ HexShown binary b' ∧ LongAlike b b') := by
  -- the text of a quoted value starts with a quote, and that of a hexadecimal one does not
  have hmixed : ∀ {x y : Bytes}, HexShown binary x → ¬HexShown binary y →
      cellText binary (some x) ≠ cellText binary (some y) := by
    intro x y hx hy heq
    obtain ⟨hcell, hprint⟩ := cellText_quoted hy
    rw [cellText_hex hx, hcell] at heq
    have hstart := congrArg String.toList heq
    rw [quote_toList hprint] at hstart
    exact absurd (hexPreview_starts x hstart) (by decide)
  by_cases hhex : HexShown binary b <;> by_cases hhex' : HexShown binary b'
  · rw [cellText_hex hhex, cellText_hex hhex'] at h
    rcases hexPreview_inj h with heq | halike
    · exact .inl heq
    · exact .inr ⟨hhex, hhex', halike⟩
  · exact absurd h (hmixed hhex hhex')
  · exact absurd h.symm (hmixed hhex' hhex)
  · left
    obtain ⟨hcell, hprint⟩ := cellText_quoted hhex
    obtain ⟨hcell', hprint'⟩ := cellText_quoted hhex'
    rw [hcell, hcell'] at h
    have hlist := congrArg String.toList h
    rw [quote_toList hprint, quote_toList hprint'] at hlist
    have htext := List.append_cancel_right (List.cons_eq_cons.mp hlist).2
    exact fromUtf8Ascii_inj (String.toList_injective htext)

/-- What is shown in column `i` of the row. -/
def shownCell (desc : Option (List FieldSummary)) (row : WireRow) (i : ℕ) : Option String :=
  (dataRowColumns row.encode desc)[i]?.map DataColumn.value

theorem columnsOf_get (desc : Option (List FieldSummary)) (fields : List (Option Bytes)) (start i : ℕ) :
    (columnsOf desc start fields)[i]?.map DataColumn.value
      = fields[i]?.map (cellText (isBinary desc (start + i))) := by
  induction fields generalizing start i with
  | nil => rfl
  | cons f fs ih =>
    cases i with
    | zero => rfl
    | succ i =>
      rw [columnsOf, List.getElem?_cons_succ, List.getElem?_cons_succ, ih, Nat.add_right_comm start,
        Nat.add_assoc start]

theorem shownCell_eq (desc : Option (List FieldSummary)) (row : WireRow) {i : ℕ} {c : Option Bytes}
    (hc : row.fields[i]? = some c) : shownCell desc row i = some (cellText (isBinary desc i) c) := by
  rw [shownCell, encoded_columns, columnsOf_get, hc, Nat.zero_add]
  rfl

/-- **Rendered cells are unambiguous.**  Of two cells of one format, in any columns of any rows, one text
means one cell, unless both are shown in hexadecimal, long and alike; and no value is shown as a marker. -/
theorem cells_unambiguous (desc desc' : Option (List FieldSummary)) (row row' : WireRow) (i j : ℕ)
    (c c' : Option Bytes) (hc : row.fields[i]? = some c) (hc' : row'.fields[j]? = some c')
    (hformat : isBinary desc i = isBinary desc' j) :
    (shownCell desc row i = shownCell desc' row' j → c = c' ∨
      ∃ b b', c = some b ∧ c' = some b' ∧ HexShown (isBinary desc i) b ∧ HexShown (isBinary desc i) b' ∧
        LongAlike b b') ∧
      (c ≠ none → shownCell desc row i ≠ some "NULL" ∧ shownCell desc row i ≠ some "<?>") := by
  rw [shownCell_eq desc row hc, shownCell_eq desc' row' hc', ← hformat]
  constructor
  · intro h
    have htext := Option.some.inj h
    cases c with
    | none =>
      cases c' with
      | none => exact .inl rfl
      | some b' => exact absurd htext.symm (cellText_some_ne_markers _ b').1
    | some b =>
      cases c' with
      | none => exact absurd htext (cellText_some_ne_markers _ b).1
      | some b' =>
        rcases cellText_some_inj htext with rfl | halike
        · exact .inl rfl
        · exact .inr ⟨b, b', rfl, rfl, halike⟩
  · intro hvalue
    cases c with
    | none => exact absurd rfl hvalue
    | some b =>
      obtain ⟨hnull, hmissing⟩ := cellText_some_ne_markers (isBinary desc i) b
      exact ⟨fun h => hnull (Option.some.inj h), fun h => hmissing (Option.some.inj h)⟩

/-- A row of NULL, a text and a value that is none. -/
def threeCells : WireRow where
  fields := [none, some [78, 85, 76, 76], some [0, 255]]
  count := by decide
  sizes := by
    intro b hb
    simp only [List.mem_cons, List.not_mem_nil, or_false, Option.some.injEq, reduceCtorEq, false_or] at hb
    rcases hb with rfl | rfl <;> decide

theorem cells_unambiguous_null :
    shownCell none threeCells 0 = some "NULL" ∧ shownCell none threeCells 1 ≠ some "NULL" := by
  refine ⟨by decide, ?_⟩
  exact ((cells_unambiguous none none threeCells threeCells 1 2 (some [78, 85, 76, 76]) (some [0, 255])
    rfl rfl rfl).2 (by decide)).1

end Tapgres.Decode
