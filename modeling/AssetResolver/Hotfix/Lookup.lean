import AssetResolver.Hotfix.Harvest

/-!
# Reading a lookup table

`read_lookup` of the key importer: a WDC5 file of the `TactKeyLookup` table, whose sections each
have records, a block of strings, the ids of the records and a table of copies, all of sizes that
its header gives.

What may stand in such a file is a list of sections (`AssetResolver.LookupSection`), each of
which stands where its header says, in this order and without a gap
(`AssetResolver.SectionAt`). The reader succeeds **exactly on the files in which some sections
stand** whose copies name rows that were defined before (`AssetResolver.readLookup_spec`), and a
row is then what its last definition gives it (`AssetResolver.valueOf`): a prefix of the file
that ends within a section is a `ValueError`, since a reader of the prefix would have found other
sections, or the same ones in a place where they do not stand.
-/

namespace AssetResolver

open Program

open KeyStore (HexText)

/-! ### The reader -/

/-- What `read_lookup` raises. -/
inductive LookupError where
  /-- A `ValueError`. -/
  | valueError (text : String) : LookupError
  /-- The `KeyError` of a copy whose source is not there. -/
  | keyError (source : UInt32) : LookupError

/-- The errors of `take` and `unpack`. -/
def checked {α : Type} (r : Except String α) : Except LookupError α := r.mapError .valueError

/-- `unpack`, with the layout of the format. -/
def unpackAs {α : Type} (data : List UInt8) (format : Layout α) (offset : ℕ) : Except String α :=
  (take data offset format.width).map format.decode

/-- `H`. -/
def u16 : Layout UInt16 := Layout.uint16

/-- `I`. -/
def u32 : Layout UInt32 := Layout.uint32

/-- `Q`. -/
def u64 : Layout UInt64 := Layout.uint64

theorem width_u32 : u32.width = 4 := rfl

theorem width_u64 : u64.width = 8 := rfl

/-- `<6I`, of the header. -/
def headerFormat : List FormatChar := [.I, .I, .I, .I, .I, .I]

/-- `<HHIIIII`, of the storage of the field. -/
def storageFormat : Layout (UInt16 × UInt16 × Values [.I, .I, .I, .I, .I]) :=
  u16.prod (u16.prod (layout [.I, .I, .I, .I, .I]))

/-- `<Q8I`, of a section. -/
def sectionFormat : Layout (UInt64 × Values [.I, .I, .I, .I, .I, .I, .I, .I]) :=
  u64.prod (layout [.I, .I, .I, .I, .I, .I, .I, .I])

/-- The signature of the file. -/
def wdc5 : List UInt8 := osString "WDC5"

/-- `LOOKUP_LAYOUT`. -/
def lookupLayout : UInt32 := 0x4983962C

/-- The beginning of `read_lookup`: the number of sections. -/
def readLookupHeader (data : List UInt8) : Except LookupError ℕ := do
  let signature ← checked (take data 0 4)
  if signature ≠ wdc5 then throw (.valueError "expected WDC5 TactKeyLookup")
  let (_, fields, recordSize, _, table, fileLayout, ()) ← checked (unpack data headerFormat 136)
  let flags ← checked (unpackAs data u16 172)
  let sections ← checked (unpackAs data u32 200)
  if (fields, recordSize, table, fileLayout, flags) ≠ (1, 8, tactLookup, lookupLayout, 4) then
    throw (.valueError "unsupported TactKeyLookup layout")
  let fieldStorage := 204 + UInt32.toNat sections * 40 + UInt32.toNat fields * 4
  let (bits, width, a, b, c, d, e, ()) ← checked (unpackAs data storageFormat fieldStorage)
  if (bits, width, a, b, c, d, e) ≠ (0, 64, 0, 0, 0, 0, 0) then
    throw (.valueError "unsupported TactKeyLookup field storage")
  return UInt32.toNat sections

/-- The loop over the records of a section. -/
def readRows (data payload : List UInt8) (idStart : ℕ) (rows : BaseLookup) :
    List ℕ → Except LookupError BaseLookup
  | [] => return rows
  | index :: indices => do
    let row ← checked (unpackAs data u32 (idStart + index * 4))
    let value ← checked (unpackAs payload u64 (index * 8))
    readRows data payload idStart (rows.insert row (HexText.ofNat 16 (UInt64.toNat value))) indices

/-- The loop over the copies of a section: `rows[new] = rows[source]`. -/
def copyRows (rows : BaseLookup) : List (UInt32 × UInt32) → Except LookupError BaseLookup
  | [] => return rows
  | (new, source) :: copies =>
    match rows.get? source with
    | none => throw (.keyError source)
    | some name => copyRows (rows.insert new name) copies

/-- `struct.iter_unpack`, of bytes whose number is a multiple of the width. -/
def iterUnpack {α : Type} (format : Layout α) (bytes : List UInt8) : List α :=
  format.decodeAll (bytes.length / format.width) bytes

/-- One turn of the loop over the sections. -/
def readSection (data : List UInt8) (rows : BaseLookup) (index : ℕ) :
    Except LookupError BaseLookup := do
  let (key, start, count, strings, _, ids, relations, sparse, copies, ()) ←
    checked (unpackAs data sectionFormat (204 + index * 40))
  if relations ≠ 0 ∨ sparse ≠ 0 ∨ UInt32.toNat ids ≠ UInt32.toNat count * 4 then
    throw (.valueError "unsupported TactKeyLookup section")
  let payload ← checked (take data (UInt32.toNat start) (UInt32.toNat count * 8))
  -- an encrypted section whose key is unknown is filled with zeros
  if key ≠ 0 ∧ count ≠ 0 ∧ payload.all (· == 0) then
    throw (.valueError "unreadable TactKeyLookup section")
  let _ ← checked (take data (UInt32.toNat start + UInt32.toNat count * 8) (UInt32.toNat strings))
  let idStart := UInt32.toNat start + UInt32.toNat count * 8 + UInt32.toNat strings
  let rows ← readRows data payload idStart rows (List.range (UInt32.toNat count))
  let pairs ← checked (take data (idStart + UInt32.toNat ids) (UInt32.toNat copies * 8))
  copyRows rows (iterUnpack (u32.prod u32) pairs)

/-- `read_lookup`. -/
def readLookup (data : List UInt8) : Except LookupError BaseLookup := do
  let sections ← readLookupHeader data
  (List.range sections).foldlM (readSection data) ∅

/-! ### What may stand in a file -/

/-- Bytes that stand at an offset of the file. -/
def LiesAt (data : List UInt8) (offset : ℕ) (bytes : List UInt8) : Prop :=
  take data offset bytes.length = .ok bytes

/-- A section of a lookup table. -/
structure LookupSection where
  /-- The name of the key it is encrypted with, zero for none. -/
  key : UInt64
  /-- Where its records stand. -/
  start : UInt32
  /-- The records, each of eight bytes. -/
  records : List UInt64
  /-- The block of strings. -/
  strings : List UInt8
  /-- The number behind the size of the strings, which is not read. -/
  unread : UInt32
  /-- The ids of the records. -/
  ids : List UInt32
  /-- The copies: a row, and the row it is a copy of. -/
  copies : List (UInt32 × UInt32)
  ids_length : ids.length = records.length
  ids_lt : records.length * 4 < UInt32.size
  strings_lt : strings.length < UInt32.size
  copies_lt : copies.length < UInt32.size
  readable : key ≠ 0 → records ≠ [] → ∃ record ∈ records, record ≠ 0

namespace LookupSection

/-- The numbers of a section. -/
def fields (s : LookupSection) : UInt64 × Values [.I, .I, .I, .I, .I, .I, .I, .I] :=
  (s.key, s.start, UInt32.ofNat s.records.length, UInt32.ofNat s.strings.length, s.unread,
    UInt32.ofNat (s.records.length * 4), 0, 0, UInt32.ofNat s.copies.length, ())

/-- The four blocks of a section, one behind the other. -/
def body (s : LookupSection) : List UInt8 :=
  u64.encodeAll s.records ++ (s.strings ++
    (u32.encodeAll s.ids ++ (u32.prod u32).encodeAll s.copies))

end LookupSection

/-- **A section stands where its header says.** -/
structure SectionAt (data : List UInt8) (index : ℕ) (s : LookupSection) : Prop where
  fields : LiesAt data (204 + index * 40) (sectionFormat.encode s.fields)
  body : LiesAt data s.start.toNat s.body

/-- The header of a table of so many sections. -/
structure LookupHeaderAt (data : List UInt8) (sections : ℕ) : Prop where
  signature : LiesAt data 0 wdc5
  numbers : ∃ a b, LiesAt data 136
    ((layout headerFormat).encode (a, 1, 8, b, tactLookup, lookupLayout, ()))
  flags : LiesAt data 172 (u16.encode 4)
  count_lt : sections < UInt32.size
  count : LiesAt data 200 (u32.encode (UInt32.ofNat sections))
  storage : LiesAt data (204 + sections * 40 + 1 * 4)
    (storageFormat.encode (0, 64, 0, 0, 0, 0, 0, ()))

/-- **A file of some sections.** -/
structure LookupAt (data : List UInt8) (sections : List LookupSection) : Prop where
  header : LookupHeaderAt data sections.length
  section_at : ∀ index (h : index < sections.length), SectionAt data index sections[index]

/-! ### What the rows are -/

/-- What one entry of a section says of a row. -/
inductive Definition where
  /-- The row is a record. -/
  | record (row : UInt32) (value : UInt64) : Definition
  /-- The row is a copy of another one. -/
  | copy (row source : UInt32) : Definition

/-- The row an entry is about. -/
def Definition.row : Definition → UInt32
  | .record row _ => row
  | .copy row _ => row

/-- The entries of a section: its records, then its copies. -/
def LookupSection.definitions (s : LookupSection) : List Definition :=
  (s.ids.zip s.records).map (fun e => .record e.1 e.2) ++
    s.copies.map fun c => .copy c.1 c.2

/-- The entries of a file, section after section. -/
def definitions (sections : List LookupSection) : List Definition :=
  sections.flatMap LookupSection.definitions

/-- The value of a row after some entries, the last one first: that of the last entry about
the row, and of a copy the value its source had then. -/
def lastValue : List Definition → UInt32 → Option UInt64
  | [], _ => none
  | .record row' value :: earlier, row =>
    if row' = row then some value else lastValue earlier row
  | .copy row' source :: earlier, row =>
    if row' = row then lastValue earlier source else lastValue earlier row

/-- **The value of a row** after some entries. -/
def valueOf (entries : List Definition) (row : UInt32) : Option UInt64 :=
  lastValue entries.reverse row

/-- **Every copy is of a row that was defined before.** -/
def CopiesDefined (entries : List Definition) : Prop :=
  ∀ front row source back, entries = front ++ .copy row source :: back →
    ∃ d ∈ front, d.row = source

/-- `f'{value:016X}'`. -/
def valueText (value : UInt64) : HexText 16 := HexText.ofNat 16 value.toNat

/-! ### Bytes in their places -/

section Places

variable {α : Type} {data bytes bytes' : List UInt8} {offset size n : ℕ}

theorem liesAt_iff :
    LiesAt data offset bytes ↔
      offset ≤ data.length ∧ data.drop offset = bytes ++ data.drop (offset + bytes.length) := by
  rw [LiesAt, take_eq_ok_iff]
  exact and_iff_right rfl

instance : Decidable (LiesAt data offset bytes) := decidable_of_iff _ liesAt_iff.symm

theorem take_eq_ok_iff_liesAt :
    take data offset size = .ok bytes ↔ bytes.length = size ∧ LiesAt data offset bytes := by
  rw [take_eq_ok_iff, liesAt_iff]
  constructor
  · rintro ⟨rfl, hoffset, hdrop⟩
    exact ⟨rfl, hoffset, hdrop⟩
  · rintro ⟨rfl, hoffset, hdrop⟩
    exact ⟨rfl, hoffset, hdrop⟩

theorem LiesAt.le (h : LiesAt data offset bytes) : offset + bytes.length ≤ data.length := by
  obtain ⟨hoffset, hdrop⟩ := liesAt_iff.mp h
  have hlength := congrArg List.length hdrop
  rw [List.length_append, List.length_drop, List.length_drop] at hlength
  omega

/-- At every offset some bytes stand, of any length that the file has room for. -/
theorem exists_liesAt (h : offset + size ≤ data.length) :
    ∃ bytes, LiesAt data offset bytes ∧ bytes.length = size := by
  obtain ⟨hlength, hlies⟩ := take_eq_ok_iff_liesAt.mp (take_of_le h)
  exact ⟨_, hlies, hlength⟩

/-- The bytes of a length that stand at an offset are the same. -/
theorem LiesAt.eq (h : LiesAt data offset bytes) (h' : LiesAt data offset bytes')
    (hlength : bytes.length = bytes'.length) : bytes = bytes' := by
  unfold LiesAt at h h'
  rw [hlength, h'] at h
  exact (Except.ok.inj h).symm

/-- **One behind the other.** -/
theorem liesAt_append_iff :
    LiesAt data offset (bytes ++ bytes') ↔
      LiesAt data offset bytes ∧ LiesAt data (offset + bytes.length) bytes' := by
  rw [liesAt_iff, liesAt_iff, liesAt_iff, List.length_append, List.append_assoc]
  constructor
  · rintro ⟨hoffset, hdrop⟩
    have hlength := congrArg List.length hdrop
    rw [List.length_append, List.length_append, List.length_drop, List.length_drop] at hlength
    have hrest : data.drop (offset + bytes.length) =
        bytes' ++ data.drop (offset + (bytes.length + bytes'.length)) := by
      rw [← List.drop_drop, hdrop, List.drop_left]
    refine ⟨⟨hoffset, by rw [hrest]; exact hdrop⟩, by omega, ?_⟩
    rw [hrest, Nat.add_assoc]
  · rintro ⟨⟨hoffset, hdrop⟩, -, hrest⟩
    exact ⟨hoffset, by rw [hdrop, hrest, Nat.add_assoc]⟩

/-- What stands in the beginning of a file stands in the file. -/
theorem LiesAt.of_take (h : LiesAt (data.take n) offset bytes) : LiesAt data offset bytes := by
  have hle := h.le
  rw [List.length_take] at hle
  unfold LiesAt at h ⊢
  rw [take_of_le (by rw [List.length_take]; omega), List.drop_take, List.take_take,
    Nat.min_eq_left (by omega)] at h
  rw [take_of_le (by omega)]
  exact h

theorem unpackAs_eq_ok_iff {format : Layout α} {a : α} :
    unpackAs data format offset = .ok a ↔ LiesAt data offset (format.encode a) := by
  unfold unpackAs LiesAt
  rw [format.length_encode]
  cases htaken : take data offset format.width with
  | error e => exact iff_of_false (by rintro ⟨⟩) (by rintro ⟨⟩)
  | ok piece =>
    have hlength := (take_eq_ok_iff.mp htaken).1
    constructor
    · intro h
      rw [← Except.ok.inj h, format.encode_decode piece hlength]
    · intro h
      rw [Except.ok.inj h]
      exact congrArg Except.ok (format.decode_encode a)

/-- **A value of an array is unpacked** where it stands. -/
theorem unpackAs_of_liesAt {format : Layout α} {values : List α}
    (h : LiesAt data offset (format.encodeAll values)) {i : ℕ} (hi : i < values.length) :
    unpackAs data format (offset + i * format.width) = .ok values[i] := by
  rw [format.encodeAll_eq_append values hi] at h
  have hvalue := (liesAt_append_iff.mp (liesAt_append_iff.mp h).2).1
  rw [Layout.length_encodeAll, List.length_take, Nat.min_eq_left hi.le] at hvalue
  exact unpackAs_eq_ok_iff.mpr hvalue

theorem iterUnpack_encodeAll {format : Layout α} (hwidth : 0 < format.width) (values : List α) :
    iterUnpack format (format.encodeAll values) = values := by
  rw [iterUnpack, Layout.length_encodeAll, Nat.mul_div_cancel _ hwidth, format.decodeAll_encodeAll]

end Places

/-! ### The rows of some entries -/

section Rows

variable {entries before : List Definition} {rows rows' : BaseLookup} {d : Definition}
  {row source : UInt32}

/-- The entries, one after the other. -/
def define (rows : BaseLookup) : List Definition → Except LookupError BaseLookup
  | [] => .ok rows
  | .record row value :: entries => define (rows.insert row (valueText value)) entries
  | .copy row source :: entries =>
    match rows.get? source with
    | none => .error (.keyError source)
    | some name => define (rows.insert row name) entries

theorem define_append (rows : BaseLookup) (entries entries' : List Definition) :
    define rows (entries ++ entries') = define rows entries >>= fun r => define r entries' := by
  induction entries generalizing rows with
  | nil => rfl
  | cons d entries ih =>
    cases d with
    | record row value => exact ih _
    | copy row source =>
      rw [List.cons_append, define, define]
      cases rows.get? source with
      | none => rfl
      | some name => exact ih _

theorem valueOf_record (before : List Definition) (row' : UInt32) (value : UInt64) (row : UInt32) :
    valueOf (before ++ [.record row' value]) row =
      if row' = row then some value else valueOf before row := by
  rw [valueOf, List.reverse_append]
  rfl

theorem valueOf_copy (before : List Definition) (row' source row : UInt32) :
    valueOf (before ++ [.copy row' source]) row =
      if row' = row then valueOf before source else valueOf before row := by
  rw [valueOf, List.reverse_append]
  rfl

theorem copiesDefined_nil : CopiesDefined [] :=
  fun front _ _ _ h =>
    absurd h.symm (List.append_ne_nil_of_right_ne_nil front (List.cons_ne_nil _ _))

theorem CopiesDefined.of_append {after : List Definition} (h : CopiesDefined (before ++ after)) :
    CopiesDefined before := by
  rintro front row source back rfl
  exact h front row source (back ++ after) (by rw [List.append_assoc]; rfl)

/-- One more entry. -/
theorem copiesDefined_concat_iff :
    CopiesDefined (before ++ [d]) ↔ CopiesDefined before ∧
      ∀ row source, d = .copy row source → ∃ d' ∈ before, d'.row = source := by
  constructor
  · intro h
    refine ⟨h.of_append, ?_⟩
    rintro row source rfl
    exact h before row source [] rfl
  · rintro ⟨hbefore, hlast⟩ front row source back h
    rcases List.eq_nil_or_concat back with rfl | ⟨back', e, rfl⟩
    · obtain ⟨rfl, he⟩ := List.append_inj' h rfl
      exact hlast row source (List.cons.inj he).1
    · rw [List.concat_eq_append, ← List.cons_append, ← List.append_assoc] at h
      exact hbefore front row source back' (List.append_inj' h rfl).1

/-- **A row has a value as soon as an entry is about it.** -/
theorem valueOf_ne_none_iff (h : CopiesDefined entries) :
    valueOf entries row ≠ none ↔ ∃ d ∈ entries, d.row = row := by
  induction entries using List.reverseRecOn generalizing row with
  | nil => exact iff_of_false (fun hne => hne rfl) (by rintro ⟨d, hd, -⟩; cases hd)
  | append_singleton before d ih =>
    obtain ⟨hbefore, hlast⟩ := copiesDefined_concat_iff.mp h
    have hmem : (∃ e ∈ before ++ [d], e.row = row) ↔
        d.row = row ∨ ∃ e ∈ before, e.row = row := by
      constructor
      · rintro ⟨e, he, rfl⟩
        rcases List.mem_append.mp he with he | he
        · exact Or.inr ⟨e, he, rfl⟩
        · exact Or.inl (congrArg Definition.row (List.mem_singleton.mp he).symm)
      · rintro (rfl | ⟨e, he, rfl⟩)
        · exact ⟨d, List.mem_append_right _ (List.mem_singleton_self d), rfl⟩
        · exact ⟨e, List.mem_append_left _ he, rfl⟩
    rw [hmem, ← ih hbefore]
    cases d with
    | record row' value =>
      rw [valueOf_record]
      by_cases hrow : row' = row
      · rw [if_pos hrow]
        exact iff_of_true (Option.some_ne_none _) (Or.inl hrow)
      · rw [if_neg hrow]
        exact (or_iff_right hrow).symm
    | copy row' source =>
      rw [valueOf_copy]
      by_cases hrow : row' = row
      · rw [if_pos hrow]
        exact iff_of_true ((ih hbefore).mpr (hlast row' source rfl)) (Or.inl hrow)
      · rw [if_neg hrow]
        exact (or_iff_right hrow).symm

/-- What the rows are after some entries. -/
def Shows (rows : BaseLookup) (before : List Definition) : Prop :=
  CopiesDefined before ∧ ∀ row, rows.get? row = (valueOf before row).map valueText

theorem Shows.get?_eq_none_iff (h : Shows rows before) :
    rows.get? source = none ↔ ¬∃ d ∈ before, d.row = source := by
  rw [h.2, Option.map_eq_none_iff, ← valueOf_ne_none_iff h.1, not_not]

theorem Shows.record (h : Shows rows before) (row : UInt32) (value : UInt64) :
    Shows (rows.insert row (valueText value)) (before ++ [.record row value]) := by
  refine ⟨copiesDefined_concat_iff.mpr ⟨h.1, by rintro _ _ ⟨⟩⟩, fun row' => ?_⟩
  rw [Dict.get?_insert, valueOf_record, h.2]
  by_cases hrow : row = row'
  · rw [if_pos hrow, if_pos hrow]
    rfl
  · rw [if_neg hrow, if_neg hrow]

theorem Shows.copy (h : Shows rows before) {name : HexText 16}
    (hname : rows.get? source = some name) (row : UInt32) :
    Shows (rows.insert row name) (before ++ [.copy row source]) := by
  have hdefined : ∃ d ∈ before, d.row = source := by
    by_contra hno
    rw [h.get?_eq_none_iff.mpr hno] at hname
    cases hname
  refine ⟨copiesDefined_concat_iff.mpr ⟨h.1, ?_⟩, fun row' => ?_⟩
  · rintro _ _ ⟨⟩
    exact hdefined
  · rw [Dict.get?_insert, valueOf_copy, h.2]
    by_cases hrow : row = row'
    · rw [if_pos hrow, if_pos hrow, ← hname, h.2]
    · rw [if_neg hrow, if_neg hrow]

/-- **The entries give the rows their values**, by induction over the entries. -/
theorem Shows.define (h : Shows rows before) (entries : List Definition) :
    (∀ rows', AssetResolver.define rows entries = .ok rows' → Shows rows' (before ++ entries)) ∧
    (CopiesDefined (before ++ entries) →
      ∃ rows', AssetResolver.define rows entries = .ok rows') := by
  induction entries generalizing rows before with
  | nil =>
    rw [List.append_nil]
    refine ⟨fun rows' hrows' => ?_, fun _ => ⟨rows, rfl⟩⟩
    obtain rfl := Except.ok.inj hrows'
    exact h
  | cons d entries ih =>
    rw [List.append_cons]
    cases d with
    | record row value => exact ih (h.record row value)
    | copy row source =>
      rw [AssetResolver.define]
      cases hname : rows.get? source with
      | none =>
        refine ⟨fun rows' hrows' => (by cases hrows'), fun hdefined => ?_⟩
        exact absurd ((copiesDefined_concat_iff.mp hdefined.of_append).2 row source rfl)
          (h.get?_eq_none_iff.mp hname)
      | some name => exact ih (h.copy hname row)

end Rows

/-! ### One section -/

section Section

variable {data : List UInt8} {s : LookupSection} {index idStart : ℕ} {rows : BaseLookup}

/-- **The loop over the records** defines what is left of them. -/
theorem readRows_eq (hids : LiesAt data idStart (u32.encodeAll s.ids)) {n : ℕ} :
    ∀ {i : ℕ} (rows : BaseLookup), i + n = s.records.length →
      readRows data (u64.encodeAll s.records) idStart rows (List.range' i n) =
        define rows (((s.ids.zip s.records).drop i).map fun e => .record e.1 e.2) := by
  have hpayload : LiesAt (u64.encodeAll s.records) 0 (u64.encodeAll s.records) :=
    liesAt_iff.mpr ⟨Nat.zero_le _, by simp⟩
  have hlength : (s.ids.zip s.records).length = s.records.length := by
    rw [List.length_zip, s.ids_length, Nat.min_self]
  induction n with
  | zero =>
    intro i rows hi
    rw [List.drop_eq_nil_of_le (by omega)]
    rfl
  | succ n ih =>
    intro i rows hi
    have hrecord : i < s.records.length := by omega
    have hid : i < s.ids.length := s.ids_length ▸ hrecord
    have hrow : unpackAs data u32 (idStart + i * 4) = .ok s.ids[i] := unpackAs_of_liesAt hids hid
    have hvalue : unpackAs (u64.encodeAll s.records) u64 (i * 8) = .ok s.records[i] := by
      have hat := unpackAs_of_liesAt hpayload hrecord
      rwa [Nat.zero_add] at hat
    have hdrop : (s.ids.zip s.records).drop i =
        (s.ids[i], s.records[i]) :: (s.ids.zip s.records).drop (i + 1) := by
      rw [List.drop_eq_getElem_cons (by omega), List.getElem_zip]
    rw [List.range'_succ, readRows, hrow, hvalue, hdrop]
    exact ih _ (by omega)

/-- **The loop over the copies** defines them. -/
theorem copyRows_eq (rows : BaseLookup) (copies : List (UInt32 × UInt32)) :
    copyRows rows copies = define rows (copies.map fun c => .copy c.1 c.2) := by
  induction copies generalizing rows with
  | nil => rfl
  | cons c copies ih =>
    obtain ⟨row, source⟩ := c
    rw [copyRows, List.map_cons, define]
    cases rows.get? source with
    | none => rfl
    | some name => exact ih _

/-- Only zeros are written with zeros. -/
theorem all_encodeAll_iff (records : List UInt64) :
    (u64.encodeAll records).all (· == 0) = true ↔ ∀ record ∈ records, record = 0 := by
  have hzero : ∀ record : UInt64, (∀ b ∈ u64.encode record, b = 0) ↔ record = 0 := fun record => by
    rw [← leNat_eq_zero_iff, ← UInt64.toNat_inj]
    have hle : leNat (u64.encode record) = record.toNat % 256 ^ 8 := leNat_leBytes 8 record.toNat
    rw [hle, Nat.mod_eq_of_lt (show record.toNat < 256 ^ 8 from record.toNat_lt)]
    rfl
  simp only [List.all_eq_true, beq_iff_eq, Layout.encodeAll, List.forall_mem_flatMap, hzero]

/-- What is not written with zeros only holds something else. -/
theorem exists_ne_zero_of_not_all {records : List UInt64}
    (h : ¬(u64.encodeAll records).all (· == 0) = true) : ∃ record ∈ records, record ≠ 0 := by
  by_contra hzeros
  refine h ((all_encodeAll_iff records).mpr fun record hmem => ?_)
  by_contra hne
  exact hzeros ⟨record, hmem, hne⟩

/-- **Where a section stands, its entries are defined.** -/
theorem readSection_of_sectionAt (h : SectionAt data index s) (rows : BaseLookup) :
    readSection data rows index = define rows s.definitions := by
  have hfields := unpackAs_eq_ok_iff.mpr h.fields
  have hbody := h.body
  rw [LookupSection.body, liesAt_append_iff, liesAt_append_iff, liesAt_append_iff] at hbody
  rw [Layout.length_encodeAll, Layout.length_encodeAll, s.ids_length, width_u64, width_u32] at hbody
  obtain ⟨hrecords, hstrings, hids, hcopies⟩ := hbody
  have hcount : (UInt32.ofNat s.records.length).toNat = s.records.length :=
    UInt32.toNat_ofNat_of_lt (by have := s.ids_lt; omega)
  have hidsSize : (UInt32.ofNat (s.records.length * 4)).toNat = s.records.length * 4 :=
    UInt32.toNat_ofNat_of_lt s.ids_lt
  have hstringsSize : (UInt32.ofNat s.strings.length).toNat = s.strings.length :=
    UInt32.toNat_ofNat_of_lt s.strings_lt
  have hcopiesSize : (UInt32.ofNat s.copies.length).toNat = s.copies.length :=
    UInt32.toNat_ofNat_of_lt s.copies_lt
  -- the pieces that are taken
  have hpayload : take data s.start.toNat (s.records.length * 8) = .ok (u64.encodeAll s.records) :=
    take_eq_ok_iff_liesAt.mpr ⟨Layout.length_encodeAll _ _, hrecords⟩
  have hblock : take data (s.start.toNat + s.records.length * 8) s.strings.length =
      .ok s.strings := hstrings
  have hpairs : take data (s.start.toNat + s.records.length * 8 + s.strings.length +
      s.records.length * 4) (s.copies.length * 8) = .ok ((u32.prod u32).encodeAll s.copies) :=
    take_eq_ok_iff_liesAt.mpr ⟨Layout.length_encodeAll _ _, hcopies⟩
  -- an encrypted section holds something
  have hreadable : ¬(s.key ≠ 0 ∧ UInt32.ofNat s.records.length ≠ 0 ∧
      (u64.encodeAll s.records).all (· == 0) = true) := by
    rintro ⟨hkey, hne, hzeros⟩
    have hrecords : s.records ≠ [] := fun hnil => hne (by rw [hnil]; rfl)
    obtain ⟨record, hmem, hrecord⟩ := s.readable hkey hrecords
    exact hrecord ((all_encodeAll_iff s.records).mp hzeros record hmem)
  rw [readSection, hfields]
  show (ite _ _ _ : Except LookupError BaseLookup) = _
  simp only [hcount, hidsSize, hstringsSize, hcopiesSize]
  rw [if_neg (by simp), hpayload]
  show (ite _ _ _ : Except LookupError BaseLookup) = _
  rw [if_neg hreadable, hblock]
  show (readRows data _ _ rows _ >>= _) = _
  rw [List.range_eq_range', readRows_eq hids rows (Nat.zero_add _), hpairs,
    LookupSection.definitions, define_append]
  refine congrArg _ (funext fun r => ?_)
  show copyRows r (iterUnpack _ _) = _
  rw [iterUnpack_encodeAll (by decide), copyRows_eq]

/-- A `ValueError`. -/
def LookupError.IsValue {α : Type} (r : Except LookupError α) : Prop :=
  ∃ text, r = .error (.valueError text)

/-- What comes after a check that is passed. -/
theorem ok_of_checked_bind {α β : Type} {r : Except String α} {f : α → Except LookupError β}
    (h : ¬LookupError.IsValue (checked r >>= f)) : ∃ a, r = .ok a ∧ ¬LookupError.IsValue (f a) := by
  cases r with
  | error e => exact absurd ⟨e, rfl⟩ h
  | ok a => exact ⟨a, rfl, h⟩

theorem ok_of_bind {α β : Type} {r : Except LookupError α} {f : α → Except LookupError β}
    (hr : ∀ source, r ≠ .error (.keyError source)) (h : ¬LookupError.IsValue (r >>= f)) :
    ∃ a, r = .ok a ∧ ¬LookupError.IsValue (f a) := by
  cases r with
  | error e =>
    cases e with
    | valueError text => exact absurd ⟨text, rfl⟩ h
    | keyError source => exact absurd rfl (hr source)
  | ok a => exact ⟨a, rfl, h⟩

/-- The loop over the records raises no `KeyError`. -/
theorem readRows_ne_keyError (data payload : List UInt8) (idStart : ℕ) (rows : BaseLookup)
    (indices : List ℕ) (source : UInt32) :
    readRows data payload idStart rows indices ≠ .error (.keyError source) := by
  induction indices generalizing rows with
  | nil => rintro ⟨⟩
  | cons index indices ih =>
    intro h
    rw [readRows] at h
    cases hrow : unpackAs data u32 (idStart + index * 4) with
    | error e =>
      rw [hrow] at h
      cases h
    | ok row =>
      cases hvalue : unpackAs payload u64 (index * 8) with
      | error e =>
        rw [hrow, hvalue] at h
        cases h
      | ok value =>
        rw [hrow, hvalue] at h
        exact ih _ h

/-- **A turn that raises no `ValueError` has found a section**, whatever it goes on to do. -/
theorem exists_sectionAt (h : ¬LookupError.IsValue (readSection data rows index)) :
    ∃ s, SectionAt data index s := by
  obtain ⟨⟨key, start, count, strings, unread, ids, relations, sparse, copies, ⟨⟩⟩, hfields, h⟩ :=
    ok_of_checked_bind h
  dsimp only at h
  by_cases hunsupported : relations ≠ 0 ∨ sparse ≠ 0 ∨ UInt32.toNat ids ≠ UInt32.toNat count * 4
  · rw [if_pos hunsupported] at h
    exact absurd ⟨_, rfl⟩ h
  rw [if_neg hunsupported] at h
  simp only [not_or, not_not] at hunsupported
  obtain ⟨rfl, rfl, hidsSize⟩ := hunsupported
  obtain ⟨payload, hpayload, h⟩ := ok_of_checked_bind h
  by_cases hunreadable : key ≠ 0 ∧ count ≠ 0 ∧ payload.all (· == 0) = true
  · rw [if_pos hunreadable] at h
    exact absurd ⟨_, rfl⟩ h
  rw [if_neg hunreadable] at h
  obtain ⟨block, hblock, h⟩ := ok_of_checked_bind h
  obtain ⟨rows', -, h⟩ := ok_of_bind (readRows_ne_keyError _ _ _ _ _) h
  obtain ⟨pairs, hpairs, -⟩ := ok_of_checked_bind h
  -- the four blocks, of which the ids were not taken as a whole
  obtain ⟨hpayloadLength, hpayload⟩ := take_eq_ok_iff_liesAt.mp hpayload
  obtain ⟨hblockLength, hblock⟩ := take_eq_ok_iff_liesAt.mp hblock
  obtain ⟨hpairsLength, hpairs⟩ := take_eq_ok_iff_liesAt.mp hpairs
  have hend := hpairs.le
  obtain ⟨idBytes, hidBytes, hidsLength⟩ : ∃ idBytes,
      LiesAt data (start.toNat + count.toNat * 8 + strings.toNat) idBytes ∧
        idBytes.length = count.toNat * 4 := exists_liesAt (by omega)
  have hrecords := u64.encodeAll_decodeAll (n := count.toNat) hpayloadLength
  have hids := u32.encodeAll_decodeAll (n := count.toNat) hidsLength
  have hcopies := (u32.prod u32).encodeAll_decodeAll (n := copies.toNat) hpairsLength
  have hreadable : key ≠ 0 → u64.decodeAll count.toNat payload ≠ [] →
      ∃ record ∈ u64.decodeAll count.toNat payload, record ≠ 0 := by
    intro hkey hne
    refine exists_ne_zero_of_not_all fun hzeros => hunreadable ⟨hkey, ?_, hrecords ▸ hzeros⟩
    rintro rfl
    exact hne rfl
  refine ⟨⟨key, start, u64.decodeAll count.toNat payload, block, unread,
    u32.decodeAll count.toNat idBytes, (u32.prod u32).decodeAll copies.toNat pairs, ?_, ?_, ?_, ?_,
    hreadable⟩, ?_, ?_⟩
  · rw [Layout.length_decodeAll, Layout.length_decodeAll]
  · rw [Layout.length_decodeAll, ← hidsSize]
    exact ids.toNat_lt
  · rw [hblockLength]
    exact strings.toNat_lt
  · rw [Layout.length_decodeAll]
    exact copies.toNat_lt
  · have hfields := unpackAs_eq_ok_iff.mp hfields
    rw [LookupSection.fields]
    dsimp only
    rw [Layout.length_decodeAll, Layout.length_decodeAll, hblockLength, ← hidsSize,
      UInt32.ofNat_toNat, UInt32.ofNat_toNat, UInt32.ofNat_toNat, UInt32.ofNat_toNat]
    exact hfields
  · rw [LookupSection.body]
    dsimp only
    rw [hrecords, hids, hcopies, liesAt_append_iff, liesAt_append_iff, liesAt_append_iff,
      hpayloadLength, hblockLength, hidsLength]
    rw [hidsSize] at hpairs
    exact ⟨hpayload, hblock, hidBytes, hpairs⟩

end Section

/-! ### The whole file -/

section File

variable {data : List UInt8} {sections sections' : List LookupSection} {count n : ℕ}
  {rows rows' : BaseLookup}

/-- **The header of a table** gives the number of its sections. -/
theorem readLookupHeader_of_headerAt (h : LookupHeaderAt data count) :
    readLookupHeader data = .ok count := by
  obtain ⟨a, b, hnumbers⟩ := h.numbers
  have hcount : (UInt32.ofNat count).toNat = count := UInt32.toNat_ofNat_of_lt h.count_lt
  have hsignature : take data 0 4 = .ok wdc5 := h.signature
  have hnumbers : unpack data headerFormat 136 =
      .ok (a, 1, 8, b, tactLookup, lookupLayout, ()) := unpackAs_eq_ok_iff.mpr hnumbers
  have hflags := unpackAs_eq_ok_iff.mpr h.flags
  have hsections := unpackAs_eq_ok_iff.mpr h.count
  have hstorage := unpackAs_eq_ok_iff.mpr h.storage
  rw [readLookupHeader, hsignature]
  show (checked (unpack data headerFormat 136) >>= _) = _
  rw [hnumbers]
  show (checked (unpackAs data u16 172) >>= _) = _
  rw [hflags]
  show (checked (unpackAs data u32 200) >>= _) = _
  rw [hsections]
  show (checked (unpackAs data storageFormat (204 + (UInt32.ofNat count).toNat * 40 + 1 * 4)) >>= _)
    = _
  rw [hcount, hstorage]
  rfl

/-- **A header that raises no `ValueError`** is that of a table. -/
theorem exists_headerAt (h : ¬LookupError.IsValue (readLookupHeader data)) :
    ∃ count, LookupHeaderAt data count := by
  obtain ⟨signature, hsignature, h⟩ := ok_of_checked_bind h
  by_cases hwdc5 : signature ≠ wdc5
  · rw [if_pos hwdc5] at h
    exact absurd ⟨_, rfl⟩ h
  rw [if_neg hwdc5] at h
  obtain ⟨⟨a, fields, recordSize, b, table, fileLayout, ⟨⟩⟩, hnumbers, h⟩ := ok_of_checked_bind h
  obtain ⟨flags, hflags, h⟩ := ok_of_checked_bind h
  obtain ⟨sections, hsections, h⟩ := ok_of_checked_bind h
  dsimp only at h
  by_cases hlayout : (fields, recordSize, table, fileLayout, flags) ≠
      (1, 8, tactLookup, lookupLayout, 4)
  · rw [if_pos hlayout] at h
    exact absurd ⟨_, rfl⟩ h
  rw [if_neg hlayout] at h
  obtain ⟨⟨bits, width, c, d, e, f, g, ⟨⟩⟩, hstorage, h⟩ := ok_of_checked_bind h
  dsimp only at h
  by_cases hbits : (bits, width, c, d, e, f, g) ≠ (0, 64, 0, 0, 0, 0, 0)
  · rw [if_pos hbits] at h
    exact absurd ⟨_, rfl⟩ h
  obtain rfl := not_not.mp hwdc5
  obtain ⟨⟩ := not_not.mp hlayout
  obtain ⟨⟩ := not_not.mp hbits
  refine ⟨sections.toNat, (take_eq_ok_iff_liesAt.mp hsignature).2,
    ⟨a, b, unpackAs_eq_ok_iff.mp hnumbers⟩, unpackAs_eq_ok_iff.mp hflags, sections.toNat_lt, ?_,
    unpackAs_eq_ok_iff.mp hstorage⟩
  rw [UInt32.ofNat_toNat]
  exact unpackAs_eq_ok_iff.mp hsections

/-- **The loop over the sections** defines the entries of those that are left. -/
theorem foldlM_readSection_eq
    (h : ∀ index (hi : index < sections.length), SectionAt data index sections[index]) :
    ∀ {n i : ℕ} (rows : BaseLookup), i + n = sections.length →
      (List.range' i n).foldlM (readSection data) rows =
        define rows (definitions (sections.drop i)) := by
  intro n
  induction n with
  | zero =>
    intro i rows hi
    rw [List.drop_eq_nil_of_le (by omega)]
    rfl
  | succ n ih =>
    intro i rows hi
    have hlt : i < sections.length := by omega
    rw [List.range'_succ, List.foldlM_cons, readSection_of_sectionAt (h i hlt),
      List.drop_eq_getElem_cons hlt, definitions, List.flatMap_cons, define_append]
    exact congrArg _ (funext fun r => ih r (by omega))

/-- **A loop that ends well has found its sections.** -/
theorem exists_sections :
    ∀ {n i : ℕ} {rows rows' : BaseLookup},
      (List.range' i n).foldlM (readSection data) rows = .ok rows' →
      ∃ sections : List LookupSection, sections.length = n ∧
        ∀ index (hi : index < sections.length), SectionAt data (i + index) sections[index] := by
  intro n
  induction n with
  | zero => exact fun _ => ⟨[], rfl, fun index hi => absurd hi (Nat.not_lt_zero index)⟩
  | succ n ih =>
    intro i rows rows' h
    rw [List.range'_succ, List.foldlM_cons] at h
    obtain ⟨r, hr, h⟩ := except_bind_eq_ok_iff.mp h
    have hno : ¬LookupError.IsValue (readSection data rows i) := by
      rintro ⟨text, htext⟩
      rw [hr] at htext
      cases htext
    obtain ⟨s, hs⟩ := exists_sectionAt hno
    obtain ⟨sections, rfl, hsections⟩ := ih h
    refine ⟨s :: sections, rfl, fun index hi => ?_⟩
    cases index with
    | zero => exact hs
    | succ index =>
      have hat := hsections index (Nat.lt_of_succ_lt_succ hi)
      rw [Nat.add_right_comm] at hat
      exact hat

/-- **The reader of a file** defines the entries of its sections. -/
theorem readLookup_of_lookupAt (h : LookupAt data sections) :
    readLookup data = define ∅ (definitions sections) := by
  rw [readLookup, readLookupHeader_of_headerAt h.header]
  show (List.range sections.length).foldlM (readSection data) ∅ = _
  rw [List.range_eq_range']
  exact foldlM_readSection_eq h.section_at ∅ (Nat.zero_add _)

/-- **A reader that succeeds has read a file.** -/
theorem exists_lookupAt (h : readLookup data = .ok rows) : ∃ sections, LookupAt data sections := by
  obtain ⟨count, hcount, hloop⟩ := except_bind_eq_ok_iff.mp h
  have hno : ¬LookupError.IsValue (readLookupHeader data) := by
    rintro ⟨text, htext⟩
    rw [hcount] at htext
    cases htext
  obtain ⟨count', hheader⟩ := exists_headerAt hno
  rw [readLookupHeader_of_headerAt hheader] at hcount
  obtain rfl := Except.ok.inj hcount
  rw [List.range_eq_range'] at hloop
  obtain ⟨sections, rfl, hsections⟩ := exists_sections hloop
  refine ⟨sections, hheader, fun index hi => ?_⟩
  have hat := hsections index hi
  rwa [Nat.zero_add] at hat

/-! ### A file that is cut -/

theorem SectionAt.of_take {index : ℕ} {s : LookupSection} (h : SectionAt (data.take n) index s) :
    SectionAt data index s :=
  ⟨h.fields.of_take, h.body.of_take⟩

theorem LookupHeaderAt.of_take (h : LookupHeaderAt (data.take n) count) :
    LookupHeaderAt data count := by
  obtain ⟨a, b, hnumbers⟩ := h.numbers
  exact ⟨h.signature.of_take, ⟨a, b, hnumbers.of_take⟩, h.flags.of_take, h.count_lt,
    h.count.of_take, h.storage.of_take⟩

/-- **A turn on the beginning of a file** is the turn on the file, or a `ValueError`. -/
theorem readSection_take (data : List UInt8) (n : ℕ) (rows : BaseLookup) (index : ℕ) :
    LookupError.IsValue (readSection (data.take n) rows index) ∨
      readSection (data.take n) rows index = readSection data rows index := by
  by_cases hvalue : LookupError.IsValue (readSection (data.take n) rows index)
  · exact Or.inl hvalue
  · obtain ⟨s, hs⟩ := exists_sectionAt hvalue
    refine Or.inr ?_
    rw [readSection_of_sectionAt hs, readSection_of_sectionAt hs.of_take]

theorem foldlM_readSection_take (data : List UInt8) (n : ℕ) (rows : BaseLookup) (l : List ℕ) :
    LookupError.IsValue (l.foldlM (readSection (data.take n)) rows) ∨
      l.foldlM (readSection (data.take n)) rows = l.foldlM (readSection data) rows := by
  induction l generalizing rows with
  | nil => exact Or.inr rfl
  | cons index l ih =>
    rw [List.foldlM_cons, List.foldlM_cons]
    rcases readSection_take data n rows index with ⟨text, htext⟩ | hsame
    · exact Or.inl ⟨text, by rw [htext]; rfl⟩
    · rw [hsame]
      cases readSection data rows index with
      | error e => exact Or.inr rfl
      | ok r => exact ih r

/-- **The reader of the beginning of a file** finds what it finds in the file, or raises a
`ValueError`. -/
theorem readLookup_take (data : List UInt8) (n : ℕ) :
    LookupError.IsValue (readLookup (data.take n)) ∨
      readLookup (data.take n) = readLookup data := by
  by_cases hvalue : LookupError.IsValue (readLookupHeader (data.take n))
  · obtain ⟨text, htext⟩ := hvalue
    exact Or.inl ⟨text, by rw [readLookup, htext]; rfl⟩
  · obtain ⟨count, hcount⟩ := exists_headerAt hvalue
    rw [readLookup, readLookup, readLookupHeader_of_headerAt hcount,
      readLookupHeader_of_headerAt hcount.of_take]
    exact foldlM_readSection_take data n ∅ (List.range count)

theorem eq_of_ofNat_eq {a b : ℕ} (ha : a < UInt32.size) (hb : b < UInt32.size)
    (h : UInt32.ofNat a = UInt32.ofNat b) : a = b :=
  (UInt32.toNat_ofNat_of_lt ha).symm.trans
    ((congrArg UInt32.toNat h).trans (UInt32.toNat_ofNat_of_lt hb))

/-- **A file has one list of sections**, as far as their places go. -/
theorem LookupAt.same_places (h : LookupAt data sections) (h' : LookupAt data sections') :
    sections.length = sections'.length ∧
      ∀ index (hi : index < sections.length) (hi' : index < sections'.length),
        sections[index].start = sections'[index].start ∧
          sections[index].body.length = sections'[index].body.length := by
  have hcount : sections.length = sections'.length := by
    have hbytes := h.header.count.eq h'.header.count (by rw [u32.length_encode, u32.length_encode])
    exact eq_of_ofNat_eq h.header.count_lt h'.header.count_lt (u32.encode_injective hbytes)
  refine ⟨hcount, fun index hi hi' => ?_⟩
  have hbytes := (h.section_at index hi).fields.eq (h'.section_at index hi').fields
    (by rw [sectionFormat.length_encode, sectionFormat.length_encode])
  have hfields := sectionFormat.encode_injective hbytes
  obtain ⟨-, hstart, hrecords, hstrings, -, hids, -, -, hcopies, -⟩ :
      _ ∧ _ ∧ _ ∧ _ ∧ _ ∧ _ ∧ _ ∧ _ ∧ _ ∧ _ := by
    simpa only [LookupSection.fields, Prod.mk.injEq] using hfields
  have hids := eq_of_ofNat_eq sections[index].ids_lt sections'[index].ids_lt hids
  have hstrings := eq_of_ofNat_eq sections[index].strings_lt sections'[index].strings_lt hstrings
  have hcopies := eq_of_ofNat_eq sections[index].copies_lt sections'[index].copies_lt hcopies
  refine ⟨hstart, ?_⟩
  simp only [LookupSection.body, List.length_append, Layout.length_encodeAll,
    LookupSection.ids_length]
  rw [hstrings, hcopies, show sections[index].records.length = sections'[index].records.length by
    omega]

/-- **A cut within a section** is a `ValueError`. -/
theorem readLookup_cut (h : LookupAt data sections)
    (hdefined : CopiesDefined (definitions sections)) {s : LookupSection} (hs : s ∈ sections)
    (hcut : n < s.start.toNat + s.body.length) :
    LookupError.IsValue (readLookup (data.take n)) := by
  rcases readLookup_take data n with hvalue | hsame
  · exact hvalue
  · exfalso
    have hempty : Shows ∅ [] := ⟨copiesDefined_nil, fun _ => rfl⟩
    obtain ⟨rows, hrows⟩ := (hempty.define (definitions sections)).2 hdefined
    rw [readLookup_of_lookupAt h, hrows] at hsame
    -- the reader of the beginning has read a file of the same sections
    obtain ⟨sections', hsections'⟩ := exists_lookupAt hsame
    have hwhole : LookupAt data sections' :=
      ⟨hsections'.header.of_take, fun index hi => (hsections'.section_at index hi).of_take⟩
    obtain ⟨hcount, hplaces⟩ := h.same_places hwhole
    obtain ⟨index, hi, rfl⟩ := List.getElem_of_mem hs
    obtain ⟨hstart, hlength⟩ := hplaces index hi (hcount ▸ hi)
    have hle := (hsections'.section_at index (hcount ▸ hi)).body.le
    rw [List.length_take] at hle
    rw [hstart, hlength] at hcut
    omega

end File

/-! ### The table -/

/-- **Lookup tables are read exactly.** In a file of some sections, each copy being of a row that
was defined before, the reader gives every row its value, and nothing else; where the file is cut
within a section, it raises a `ValueError`. And whatever it has read, it has read such a file:
every row comes from an entry of a section that stands in its place. -/
theorem readLookup_spec :
    (∀ data sections, LookupAt data sections → CopiesDefined (definitions sections) →
      ∃ rows, readLookup data = .ok rows ∧
        ∀ row, rows.get? row = (valueOf (definitions sections) row).map valueText) ∧
    (∀ data sections n, LookupAt data sections → CopiesDefined (definitions sections) →
      (∃ s ∈ sections, n < s.start.toNat + s.body.length) →
      ∃ text, readLookup (data.take n) = .error (.valueError text)) ∧
    ∀ data rows, readLookup data = .ok rows →
      ∃ sections, LookupAt data sections ∧ CopiesDefined (definitions sections) ∧
        ∀ row, rows.get? row = (valueOf (definitions sections) row).map valueText := by
  have hempty : Shows ∅ [] := ⟨copiesDefined_nil, fun _ => rfl⟩
  refine ⟨fun data sections h hdefined => ?_, ?_, fun data rows hrows => ?_⟩
  · obtain ⟨rows, hrows⟩ := (hempty.define (definitions sections)).2 hdefined
    exact ⟨rows, (readLookup_of_lookupAt h).trans hrows,
      ((hempty.define (definitions sections)).1 rows hrows).2⟩
  · rintro data sections n h hdefined ⟨s, hs, hcut⟩
    exact readLookup_cut h hdefined hs hcut
  · obtain ⟨sections, h⟩ := exists_lookupAt hrows
    rw [readLookup_of_lookupAt h] at hrows
    obtain ⟨hdefined, hvalues⟩ := (hempty.define (definitions sections)).1 rows hrows
    exact ⟨sections, h, hdefined, hvalues⟩

/-- Two records, strings, and a copy: row 8 is as row 7. -/
def plainSection : LookupSection where
  key := 0
  start := 312
  records := [0x1122334455667788, 5]
  strings := [1, 2]
  unread := 3
  ids := [7, 9]
  copies := [(8, 7)]
  ids_length := rfl
  ids_lt := by decide
  strings_lt := by decide
  copies_lt := by decide
  readable h := absurd rfl h

/-- With a key. Row 7 is defined again, and row 10 is a copy of the copy. -/
def keyedSection : LookupSection where
  key := 6
  start := 346
  records := [0xfedcba9876543210]
  strings := [0, 0, 0]
  unread := 0
  ids := [7]
  copies := [(10, 8)]
  ids_length := rfl
  ids_lt := by decide
  strings_lt := by decide
  copies_lt := by decide
  readable _ _ := ⟨_, List.mem_cons_self, by decide⟩

/-- One behind the other. -/
def sampleSections : List LookupSection := [plainSection, keyedSection]

/-- A file with both. -/
def sampleLookup : List UInt8 :=
  wdc5 ++ List.replicate 132 0 ++
    (layout headerFormat).encode (1, 1, 8, 0, tactLookup, lookupLayout, ()) ++
    List.replicate 12 0 ++ u16.encode 4 ++ List.replicate 26 0 ++ u32.encode 2 ++
    sampleSections.flatMap (fun s => sectionFormat.encode s.fields) ++ List.replicate 4 0 ++
    storageFormat.encode (0, 64, 0, 0, 0, 0, 0, ()) ++ sampleSections.flatMap LookupSection.body

theorem sectionAt_plainSection : SectionAt sampleLookup 0 plainSection :=
  ⟨by decide +kernel, by decide +kernel⟩

theorem sectionAt_keyedSection : SectionAt sampleLookup 1 keyedSection :=
  ⟨by decide +kernel, by decide +kernel⟩

theorem lookupAt_sampleLookup : LookupAt sampleLookup sampleSections where
  header := {
    signature := by decide +kernel
    numbers := ⟨1, 0, by decide +kernel⟩
    flags := by decide +kernel
    count_lt := by decide
    count := by decide +kernel
    storage := by decide +kernel }
  section_at
    | 0, _ => sectionAt_plainSection
    | 1, _ => sectionAt_keyedSection

theorem copiesDefined_sampleSections : CopiesDefined (definitions sampleSections) := by
  have hempty : Shows ∅ [] := ⟨copiesDefined_nil, fun _ => rfl⟩
  have hrows : define ∅ (definitions sampleSections) = .ok _ := rfl
  exact ((hempty.define _).1 _ hrows).1

/-- The copies keep what row 7 was before, and a file that is cut in the second section is
refused. -/
theorem readLookup_spec_sample :
    (∃ rows, readLookup sampleLookup = .ok rows ∧
      rows.get? 7 = some (valueText 0xfedcba9876543210) ∧
      rows.get? 8 = some (valueText 0x1122334455667788) ∧ rows.get? 9 = some (valueText 5) ∧
      rows.get? 10 = some (valueText 0x1122334455667788) ∧ rows.get? 11 = none) ∧
    ∃ text, readLookup (sampleLookup.take 350) = .error (.valueError text) := by
  obtain ⟨hreads, hcut, -⟩ := readLookup_spec
  obtain ⟨rows, hrows, hvalues⟩ := hreads _ _ lookupAt_sampleLookup copiesDefined_sampleSections
  refine ⟨⟨rows, hrows, ?_⟩, hcut _ _ 350 lookupAt_sampleLookup copiesDefined_sampleSections
    ⟨_, List.mem_cons_of_mem _ List.mem_cons_self, by decide⟩⟩
  simp only [hvalues]
  exact ⟨rfl, rfl, rfl, rfl, rfl⟩

end AssetResolver
