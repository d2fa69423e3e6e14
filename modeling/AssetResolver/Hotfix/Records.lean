import AssetResolver.Library.Layout
import AssetResolver.Library.Programs
import AssetResolver.Library.StableSort
import AssetResolver.Path
import Mathlib.Data.List.Sort
import Mathlib.Tactic.Linarith

/-!
# Reading a hotfix cache

`read_records` of the key importer: a header of 44 bytes, then records one behind the
other until the file ends.

What may stand in such a file is said by two structures whose fields are the well-
formedness of their bytes, `AssetResolver.CacheRecord` and
`AssetResolver.CacheFile`. The reader accepts **the writings of these and nothing
else** (`AssetResolver.readRecords_spec`): a turn of its loop succeeds when a record
stands at the offset (`AssetResolver.readRecordAt_of_drop_eq`) and only then
(`AssetResolver.drop_eq_of_readRecordAt`), and the loop goes on where that record ends, so
the records it collects are those of the file. A `ValueError` is an `Except.error` with
its text.
-/

namespace AssetResolver

open Program

/-! ### Pieces of the input -/

/-- `take`. Its offsets and sizes are sums of unsigned fields, so the tests for
negative ones never fire. -/
def take (data : List UInt8) (offset size : ℕ) : Except String (List UInt8) :=
  if data.length < offset + size then
    .error s!"truncated input at offset {offset}, size {size}"
  else .ok ((data.drop offset).take size)

/-- The format characters of `struct`. -/
inductive FormatChar where
  /-- An unsigned number of 32 bits. -/
  | I : FormatChar
  /-- A signed number of 32 bits. -/
  | i : FormatChar

/-- What a character stands for. -/
@[reducible] def FormatChar.Value : FormatChar → Type
  | .I => UInt32
  | .i => Int32

/-- How it is written. -/
def FormatChar.layout : (c : FormatChar) → Layout c.Value
  | .I => Layout.uint32
  | .i => Layout.littleEndian 4 (fun value => value.toUInt32.toNat)
      (fun n => Int32.ofUInt32 (UInt32.ofNat n)) (fun value => value.toUInt32.toNat_lt)
      (fun value => congrArg Int32.ofUInt32 (UInt32.ofNat_toNat (x := value.toUInt32)))
      fun _ hn => UInt32.toNat_ofNat_of_lt hn

/-- What a format stands for. -/
@[reducible] def Values : List FormatChar → Type
  | [] => Unit
  | c :: fmt => c.Value × Values fmt

/-- The standard sizes of a format, without alignment. -/
def layout : (fmt : List FormatChar) → Layout (Values fmt)
  | [] => Layout.unit
  | c :: fmt => c.layout.prod (layout fmt)

/-- `unpack`. -/
def unpack (data : List UInt8) (fmt : List FormatChar) (offset : ℕ) :
    Except String (Values fmt) :=
  (take data offset (layout fmt).width).map (layout fmt).decode

variable {data : List UInt8} {offset size : ℕ}

/-- **A piece is taken exactly when it stands at the offset.** -/
theorem take_eq_ok_iff {piece : List UInt8} :
    take data offset size = .ok piece ↔
      piece.length = size ∧ offset ≤ data.length ∧
        data.drop offset = piece ++ data.drop (offset + size) := by
  unfold take
  constructor
  · intro h
    split_ifs at h with hshort
    obtain rfl := Except.ok.inj h
    refine ⟨?_, by omega, ?_⟩
    · rw [List.length_take, List.length_drop]
      omega
    · rw [← List.drop_drop, List.take_append_drop]
  · rintro ⟨rfl, hoffset, hdrop⟩
    have hlength := congrArg List.length hdrop
    rw [List.length_append, List.length_drop] at hlength
    rw [if_neg (by omega), hdrop, List.take_left]

theorem take_of_le (h : offset + size ≤ data.length) :
    take data offset size = .ok ((data.drop offset).take size) :=
  if_neg (Nat.not_lt.mpr h)

/-- What stands at an offset is taken, and the rest stands behind it. -/
theorem take_of_drop_eq {piece rest : List UInt8} (hoffset : offset ≤ data.length)
    (hdrop : data.drop offset = piece ++ rest) (hsize : piece.length = size) :
    take data offset size = .ok piece ∧ data.drop (offset + size) = rest := by
  have hrest : data.drop (offset + size) = rest := by
    rw [← List.drop_drop, hdrop, ← hsize, List.drop_left]
  exact ⟨take_eq_ok_iff.mpr ⟨hsize, hoffset, by rw [hdrop, hrest]⟩, hrest⟩

/-- **Values are unpacked exactly where their writing stands.** -/
theorem unpack_eq_ok_iff {fmt : List FormatChar} {values : Values fmt} :
    unpack data fmt offset = .ok values ↔
      take data offset (layout fmt).width = .ok ((layout fmt).encode values) := by
  unfold unpack
  rcases htaken : take data offset (layout fmt).width with e | piece
  · simp [Except.map]
  · have hlength : piece.length = (layout fmt).width := (take_eq_ok_iff.mp htaken).1
    constructor
    · intro h
      rw [← Except.ok.inj h, (layout fmt).encode_decode piece hlength]
    · intro h
      rw [Except.ok.inj h]
      exact congrArg Except.ok ((layout fmt).decode_encode values)

/-! ### Records -/

/-- The signature of the file and of each record. -/
def xfth : List UInt8 := osString "XFTH"

/-- `TACT_KEY`, a table. -/
def tactKey : UInt32 := 0xDF2F53CF

/-- `TACT_LOOKUP`, a table. -/
def tactLookup : UInt32 := 0xAFC190D1

/-- The fields of a record, `<IiiIII`. -/
def recordFormat : List FormatChar := [.I, .i, .i, .I, .I, .I]

/-- What is kept of a record. -/
structure TactRecord where
  /-- The push id. -/
  push : ℤ
  /-- The table. -/
  table : UInt32
  /-- The row of the table. -/
  row : UInt32
  /-- What the push does to the row. -/
  status : UInt8
  /-- The contents of the row. -/
  payload : List UInt8

/-- The record is in one of the two tables. -/
def TactRecord.isTact (record : TactRecord) : Bool :=
  record.table = tactKey || record.table = tactLookup

/-- One turn of the loop of `read_records`, up to the test of the table: the record at
the offset, and the size of its payload. -/
def readRecordAt (data : List UInt8) (offset : ℕ) : Except String (TactRecord × ℕ) := do
  let signature ← take data offset 4
  if signature ≠ xfth then throw s!"invalid record signature at offset {offset}"
  let (_, push, _, table, row, size, ()) ← unpack data recordFormat (offset + 4)
  -- of four bytes, so that there is a first one
  let status ← take data (offset + 28) 4
  let payload ← take data (offset + 32) (UInt32.toNat size)
  return (⟨Int32.toInt push, table, row, status.headD 0, payload⟩, UInt32.toNat size)

/-- The loop of `read_records`. -/
def readRecordsFrom (data : List UInt8) (offset : ℕ) (records : List TactRecord) :
    Except String (List TactRecord) :=
  if offset < data.length then
    match readRecordAt data offset with
    | .error e => .error e
    | .ok (record, size) =>
      readRecordsFrom data (offset + (32 + size))
        (if record.isTact then records ++ [record] else records)
  else .ok records
termination_by data.length - offset

/-- `sorted`, with the push id as the key. -/
def sortedByPush (records : List TactRecord) : List TactRecord :=
  records.insertionSort fun record record' => record.push ≤ record'.push

/-- `read_records`. -/
def readRecords (data : List UInt8) : Except String (List TactRecord) := do
  let signature ← take data 0 4
  if signature ≠ xfth then throw "expected XFTH cache version 9"
  let (version, ()) ← unpack data [.I] 4
  if UInt32.toNat version ≠ 9 then throw "expected XFTH cache version 9"
  let _ ← take data 0 44
  return sortedByPush (← readRecordsFrom data 44 [])

/-! ### What may stand in a file -/

/-- A complete record. -/
structure CacheRecord where
  /-- The first number, which is not read. -/
  first : UInt32
  /-- The push id. -/
  push : Int32
  /-- The third number, which is not read. -/
  third : Int32
  /-- The table. -/
  table : UInt32
  /-- The row of the table. -/
  row : UInt32
  /-- What the push does to the row. -/
  status : UInt8
  /-- The bytes behind the status. -/
  padding : List UInt8
  padding_length : padding.length = 3
  /-- The contents of the row. -/
  payload : List UInt8
  payload_lt : payload.length < UInt32.size

namespace CacheRecord

/-- The six numbers of a record. -/
def fields (record : CacheRecord) : Values recordFormat :=
  (record.first, record.push, record.third, record.table, record.row,
    UInt32.ofNat record.payload.length, ())

/-- The writing of a record. -/
def encode (record : CacheRecord) : List UInt8 :=
  xfth ++ ((layout recordFormat).encode record.fields ++
    (record.status :: record.padding ++ record.payload))

/-- What the reader keeps of it. -/
def tact (record : CacheRecord) : TactRecord :=
  ⟨record.push.toInt, record.table, record.row, record.status, record.payload⟩

theorem length_encode (record : CacheRecord) :
    record.encode.length = 32 + record.payload.length := by
  have hfields : ((layout recordFormat).encode record.fields).length = 24 :=
    (layout recordFormat).length_encode _
  have hxfth : xfth.length = 4 := by decide
  simp only [encode, List.length_append, List.length_cons, hfields, hxfth, record.padding_length]
  omega

theorem toNat_size (record : CacheRecord) :
    (UInt32.ofNat record.payload.length).toNat = record.payload.length :=
  UInt32.toNat_ofNat_of_lt record.payload_lt

end CacheRecord

/-- A header: its signature and the version 9, and nothing is said of the rest. -/
structure IsHeader (header : List UInt8) : Prop where
  length : header.length = 44
  signature : header.take 4 = xfth
  version : (header.drop 4).take 4 = [9, 0, 0, 0]

/-- A whole file: its header and its records. -/
structure CacheFile where
  /-- The header. -/
  header : List UInt8
  isHeader : IsHeader header
  /-- The records, in file order. -/
  records : List CacheRecord

/-- The writing of a file. -/
def CacheFile.encode (file : CacheFile) : List UInt8 :=
  file.header ++ file.records.flatMap CacheRecord.encode

/-- What is kept of its records, in file order. -/
def CacheFile.tactRecords (file : CacheFile) : List TactRecord :=
  (file.records.map CacheRecord.tact).filter TactRecord.isTact

/-! ### One turn of the loop -/

theorem width_recordFormat : (layout recordFormat).width = 24 := rfl

/-- **A turn succeeds where a record stands.** -/
theorem readRecordAt_of_drop_eq {record : CacheRecord} {rest : List UInt8}
    (hoffset : offset ≤ data.length) (hdrop : data.drop offset = record.encode ++ rest) :
    readRecordAt data offset = .ok (record.tact, record.payload.length) := by
  have hlength := congrArg List.length hdrop
  rw [List.length_drop, List.length_append, record.length_encode] at hlength
  have hfour : (record.status :: record.padding).length = 4 := by
    rw [List.length_cons, record.padding_length]
  -- the four pieces, one behind the other
  simp only [CacheRecord.encode, List.append_assoc] at hdrop
  obtain ⟨hsignature, hdrop⟩ := take_of_drop_eq hoffset hdrop (by decide : xfth.length = 4)
  obtain ⟨hfields, hdrop⟩ := take_of_drop_eq (by omega) hdrop
    ((layout recordFormat).length_encode record.fields)
  rw [width_recordFormat] at hdrop
  obtain ⟨hstatus, hdrop⟩ := take_of_drop_eq (by omega) hdrop hfour
  obtain ⟨hpayload, -⟩ := take_of_drop_eq (by omega) hdrop rfl
  have hunpack : unpack data recordFormat (offset + 4) = .ok record.fields :=
    unpack_eq_ok_iff.mpr hfields
  rw [readRecordAt, hsignature]
  show (unpack data recordFormat (offset + 4) >>= _) = _
  rw [hunpack]
  show (take data (offset + 28) 4 >>= _) = _
  rw [hstatus]
  show (take data (offset + 32) (UInt32.ofNat record.payload.length).toNat >>= _) = _
  rw [record.toNat_size, hpayload]
  rfl

/-- **A turn succeeds only there.** -/
theorem drop_eq_of_readRecordAt {result : TactRecord}
    (h : readRecordAt data offset = .ok (result, size)) :
    ∃ record : CacheRecord, result = record.tact ∧ size = record.payload.length ∧
      data.drop offset = record.encode ++ data.drop (offset + (32 + size)) := by
  obtain ⟨signature, hsignature, h⟩ := except_bind_eq_ok_iff.mp h
  by_cases hxfth : signature = xfth
  · rw [if_neg (not_not.mpr hxfth)] at h
    obtain ⟨⟨first, push, third, table, row, length, ⟨⟩⟩, hfields, h⟩ := except_bind_eq_ok_iff.mp h
    obtain ⟨status, hstatus, h⟩ := except_bind_eq_ok_iff.mp h
    obtain ⟨payload, hpayload, h⟩ := except_bind_eq_ok_iff.mp h
    obtain ⟨rfl, rfl⟩ := Prod.mk.inj (Except.ok.inj h)
    obtain ⟨-, -, hsignature⟩ := take_eq_ok_iff.mp hsignature
    obtain ⟨-, -, hfields⟩ := take_eq_ok_iff.mp (unpack_eq_ok_iff.mp hfields)
    obtain ⟨hfour, -, hstatus⟩ := take_eq_ok_iff.mp hstatus
    obtain ⟨hpayloadLength, -, hpayload⟩ := take_eq_ok_iff.mp hpayload
    obtain ⟨first', padding, rfl⟩ : ∃ b bs, status = b :: bs :=
      List.exists_cons_of_length_pos (by omega)
    -- the size of the payload is what its field says
    have hsize : UInt32.ofNat payload.length = length := by
      rw [hpayloadLength]
      exact UInt32.ofNat_toNat
    refine ⟨⟨first, push, third, table, row, first', padding, ?_, payload, ?_⟩, rfl,
      hpayloadLength.symm, ?_⟩
    · rw [List.length_cons] at hfour
      omega
    · rw [hpayloadLength]
      exact length.toNat_lt
    · have hwidth : offset + 4 + (layout recordFormat).width = offset + 28 := by
        rw [width_recordFormat]
      have hend : offset + 32 + length.toNat = offset + (32 + length.toNat) := by omega
      rw [hwidth] at hfields
      rw [hsignature, hxfth, hfields, hstatus, hpayload, hend]
      simp only [CacheRecord.encode, CacheRecord.fields, hsize, List.append_assoc]
  · rw [if_pos hxfth] at h
    cases h

/-! ### The loop -/

/-- What a list of records adds to those that were collected. -/
theorem filter_map_cons (collected : List TactRecord) (record : CacheRecord)
    (records : List CacheRecord) :
    collected ++ ((record :: records).map CacheRecord.tact).filter TactRecord.isTact =
      (if record.tact.isTact then collected ++ [record.tact] else collected) ++
        (records.map CacheRecord.tact).filter TactRecord.isTact := by
  rw [List.map_cons, List.filter_cons]
  split_ifs
  · rw [List.append_assoc, List.singleton_append]
  · rfl

/-- **The loop collects the records that stand there**, and goes on behind them: by
induction over the records. -/
theorem readRecordsFrom_of_drop_eq {records : List CacheRecord} {rest : List UInt8}
    (collected : List TactRecord) (hoffset : offset ≤ data.length)
    (hdrop : data.drop offset = records.flatMap CacheRecord.encode ++ rest) :
    readRecordsFrom data offset collected =
      readRecordsFrom data (offset + (records.flatMap CacheRecord.encode).length)
        (collected ++ (records.map CacheRecord.tact).filter TactRecord.isTact) := by
  induction records generalizing offset collected with
  | nil => simp
  | cons record records ih =>
    rw [List.flatMap_cons, List.append_assoc] at hdrop
    have hlength := congrArg List.length hdrop
    rw [List.length_drop, List.length_append, record.length_encode] at hlength
    have hrest : data.drop (offset + (32 + record.payload.length)) =
        records.flatMap CacheRecord.encode ++ rest := by
      rw [← List.drop_drop, hdrop, ← record.length_encode, List.drop_left]
    have hend : offset + (record.encode ++ records.flatMap CacheRecord.encode).length =
        offset + (32 + record.payload.length) + (records.flatMap CacheRecord.encode).length := by
      rw [List.length_append, record.length_encode]
      omega
    rw [readRecordsFrom, if_pos (by omega), readRecordAt_of_drop_eq hoffset hdrop,
      filter_map_cons, List.flatMap_cons, hend]
    exact ih _ (by omega) hrest

/-- **The loop ends well only if records stand there**, by induction over its turns. -/
theorem drop_eq_of_readRecordsFrom {collected result : List TactRecord}
    (h : readRecordsFrom data offset collected = .ok result) :
    ∃ records : List CacheRecord, data.drop offset = records.flatMap CacheRecord.encode ∧
      result = collected ++ (records.map CacheRecord.tact).filter TactRecord.isTact := by
  induction offset, collected using readRecordsFrom.induct data with
  | case1 offset collected hlt e hturn =>
    rw [readRecordsFrom, if_pos hlt, hturn] at h
    cases h
  | case2 offset collected hlt turn size hturn ih =>
    rw [readRecordsFrom, if_pos hlt, hturn] at h
    simp only [dite_eq_ite] at ih
    obtain ⟨record, rfl, rfl, hdrop⟩ := drop_eq_of_readRecordAt hturn
    obtain ⟨records, hrest, hresult⟩ := ih h
    refine ⟨record :: records, ?_, ?_⟩
    · rw [hdrop, hrest, List.flatMap_cons]
    · rw [hresult, filter_map_cons]
  | case3 offset collected hend =>
    rw [readRecordsFrom, if_neg hend] at h
    refine ⟨[], List.drop_eq_nil_iff.mpr (by omega), ?_⟩
    rw [← Except.ok.inj h]
    simp

/-! ### The order -/

/-- The order of the push ids. -/
instance : Std.Total fun record record' : TactRecord => record.push ≤ record'.push :=
  ⟨fun record record' => le_total record.push record'.push⟩

instance : IsTrans TactRecord fun record record' => record.push ≤ record'.push :=
  ⟨fun _ _ _ h h' => le_trans h h'⟩

theorem pairwise_sortedByPush (records : List TactRecord) :
    (sortedByPush records).Pairwise fun record record' => record.push ≤ record'.push :=
  List.pairwise_insertionSort _ records

/-- **The sort is stable**: the records of one push stay in the order they came in. -/
theorem filter_sortedByPush (records : List TactRecord) (push : ℤ) :
    ((sortedByPush records).filter fun record => record.push = push) =
      records.filter fun record => record.push = push := by
  have hequal : (records.filter fun record => record.push = push).Pairwise
      fun record record' => record.push ≤ record'.push := by
    refine List.pairwise_of_forall_mem_list fun record hrecord record' hrecord' => ?_
    have hpush : record.push = push := by simpa using (List.mem_filter.mp hrecord).2
    have hpush' : record'.push = push := by simpa using (List.mem_filter.mp hrecord').2
    rw [hpush, hpush']
  -- they are in order already, so the sort keeps them as they are
  have hsublist := List.sublist_insertionSort hequal List.filter_sublist
  have hfiltered := hsublist.filter fun record => record.push = push
  rw [List.filter_filter] at hfiltered
  simp only [Bool.and_self] at hfiltered
  refine (hfiltered.eq_of_length ?_).symm
  exact ((List.perm_insertionSort _ records).symm.filter _).length_eq

theorem sortedByPush_eq (records : List TactRecord) :
    sortedByPush records = StableSort.sortBy TactRecord.push records := rfl

/-! ### The whole file -/

/-- **The header is what stands before the records.** -/
theorem readRecords_eq_ok_iff {result : List TactRecord} :
    readRecords data = .ok result ↔
      IsHeader (data.take 44) ∧
        ∃ records, readRecordsFrom data 44 [] = .ok records ∧ result = sortedByPush records := by
  have hnine : (layout [.I]).encode ((9 : UInt32), ()) = [9, 0, 0, 0] := by decide
  have hsignature : (data.take 44).take 4 = data.take 4 := by
    rw [List.take_take]
    rfl
  have hversion : ((data.take 44).drop 4).take 4 = (data.drop 4).take 4 := by
    rw [List.drop_take, List.take_take]
    rfl
  constructor
  · intro h
    obtain ⟨signature, htaken, h⟩ := except_bind_eq_ok_iff.mp h
    by_cases hxfth : signature = xfth
    · rw [if_neg (not_not.mpr hxfth)] at h
      obtain ⟨⟨version, ⟨⟩⟩, hunpack, h⟩ := except_bind_eq_ok_iff.mp h
      dsimp only at h
      by_cases hnumber : UInt32.toNat version = 9
      · rw [if_neg (not_not.mpr hnumber)] at h
        obtain ⟨header, hheader, h⟩ := except_bind_eq_ok_iff.mp h
        obtain ⟨records, hrecords, h⟩ := except_bind_eq_ok_iff.mp h
        obtain rfl : version = (9 : UInt32) := UInt32.toNat_inj.mp hnumber
        have hfour : take data 4 4 = .ok [9, 0, 0, 0] := hnine ▸ unpack_eq_ok_iff.mp hunpack
        have hlength : 44 ≤ data.length := by
          obtain ⟨hwidth, -, hdrop⟩ := take_eq_ok_iff.mp hheader
          have := congrArg List.length hdrop
          rw [List.length_append, List.drop_zero] at this
          omega
        refine ⟨⟨?_, ?_, ?_⟩, records, hrecords, (Except.ok.inj h).symm⟩
        · rw [List.length_take]
          omega
        · rw [take_of_le (by omega), List.drop_zero] at htaken
          rw [hsignature, Except.ok.inj htaken, hxfth]
        · rw [take_of_le (by omega)] at hfour
          rw [hversion, Except.ok.inj hfour]
      · rw [if_pos hnumber] at h
        cases h
    · rw [if_pos hxfth] at h
      cases h
  · rintro ⟨hheader, records, hrecords, rfl⟩
    have hlength : 44 ≤ data.length := by
      have := hheader.length
      rw [List.length_take] at this
      omega
    have htaken : take data 0 4 = .ok xfth := by
      rw [take_of_le (by omega), ← hheader.signature, hsignature, List.drop_zero]
    have hunpack : unpack data [.I] 4 = .ok ((9 : UInt32), ()) := by
      refine unpack_eq_ok_iff.mpr ?_
      rw [hnine, ← hheader.version, hversion]
      exact take_of_le (show 4 + 4 ≤ data.length by omega)
    rw [readRecords, htaken]
    show (unpack data [.I] 4 >>= _) = _
    rw [hunpack]
    show (take data 0 44 >>= _) = _
    rw [take_of_le (by omega)]
    show (readRecordsFrom data 44 [] >>= _) = _
    rw [hrecords]
    rfl

/-- **A file is read** to the records of the two tables, in the order of their pushes. -/
theorem readRecords_encode (file : CacheFile) :
    readRecords file.encode = .ok (sortedByPush file.tactRecords) := by
  have htake : file.encode.take 44 = file.header := by
    rw [CacheFile.encode, ← file.isHeader.length, List.take_left]
  have hdrop : file.encode.drop 44 = file.records.flatMap CacheRecord.encode := by
    rw [CacheFile.encode, ← file.isHeader.length, List.drop_left]
  have hlength : file.encode.length = 44 + (file.records.flatMap CacheRecord.encode).length := by
    rw [CacheFile.encode, List.length_append, file.isHeader.length]
  have hloop : readRecordsFrom file.encode 44 [] = .ok file.tactRecords := by
    rw [readRecordsFrom_of_drop_eq [] (by omega) (hdrop.trans (List.append_nil _).symm),
      readRecordsFrom, if_neg (by omega)]
    rfl
  refine readRecords_eq_ok_iff.mpr ⟨?_, _, hloop, rfl⟩
  rw [htake]
  exact file.isHeader

/-- **Only a file is read.** -/
theorem eq_encode_of_readRecords {result : List TactRecord} (h : readRecords data = .ok result) :
    ∃ file : CacheFile, data = file.encode ∧ result = sortedByPush file.tactRecords := by
  obtain ⟨hheader, collected, hloop, rfl⟩ := readRecords_eq_ok_iff.mp h
  obtain ⟨records, hdrop, rfl⟩ := drop_eq_of_readRecordsFrom hloop
  refine ⟨⟨data.take 44, hheader, records⟩, ?_, rfl⟩
  rw [CacheFile.encode, ← hdrop, List.take_append_drop]

/-- A record does not begin with another one, unless it ends with it. -/
theorem encode_ne_append {record record' : CacheRecord} {rest : List UInt8} (hne : rest ≠ []) :
    record.encode ≠ record'.encode ++ rest := by
  intro heq
  have hturn : readRecordAt record.encode 0 = .ok (record.tact, record.payload.length) :=
    readRecordAt_of_drop_eq (Nat.zero_le _) (List.append_nil _).symm
  have hturn' : readRecordAt record.encode 0 = .ok (record'.tact, record'.payload.length) :=
    readRecordAt_of_drop_eq (Nat.zero_le _) heq
  have hsize := congrArg Prod.snd (Except.ok.inj (hturn.symm.trans hturn'))
  have hlength := congrArg List.length heq
  rw [List.length_append, record.length_encode, record'.length_encode] at hlength
  have hpos := List.length_pos_of_ne_nil hne
  dsimp only at hsize
  omega

/-- **A file that ends inside a record is rejected.** -/
theorem readRecords_truncated (file : CacheFile) (record : CacheRecord) {k : ℕ} (hpos : 0 < k)
    (hlt : k < record.encode.length) (result : List TactRecord) :
    readRecords (file.encode ++ record.encode.take k) ≠ .ok result := by
  intro h
  obtain ⟨-, collected, hloop, -⟩ := readRecords_eq_ok_iff.mp h
  have hdrop : (file.encode ++ record.encode.take k).drop 44 =
      file.records.flatMap CacheRecord.encode ++ record.encode.take k := by
    rw [CacheFile.encode, List.append_assoc, ← file.isHeader.length, List.drop_left]
  have hlength : (file.encode ++ record.encode.take k).length =
      44 + (file.records.flatMap CacheRecord.encode).length + k := by
    rw [CacheFile.encode, List.length_append, List.length_append, List.length_take,
      file.isHeader.length]
    omega
  rw [readRecordsFrom_of_drop_eq [] (by omega) hdrop, readRecordsFrom, if_pos (by omega)] at hloop
  split at hloop
  · cases hloop
  · next turn size hturn =>
    -- what stands behind the complete records begins with no record
    obtain ⟨record', -, -, hbehind⟩ := drop_eq_of_readRecordAt hturn
    rw [← List.drop_drop, hdrop, List.drop_left] at hbehind
    generalize List.drop _ (file.encode ++ record.encode.take k) = tail at hbehind
    have hwhole : record.encode = record'.encode ++ (tail ++ record.encode.drop k) := by
      rw [← List.append_assoc, ← hbehind, List.take_append_drop]
    refine encode_ne_append (List.append_ne_nil_of_right_ne_nil tail fun hnil => ?_) hwhole
    rw [List.drop_eq_nil_iff] at hnil
    omega

/-- **The reader accepts the files of the format and nothing else**: its result is the
records of the two tables, sorted by their pushes and otherwise in file order. -/
theorem readRecords_spec :
    (∀ data result, readRecords data = .ok result ↔
      ∃ file : CacheFile, data = file.encode ∧ result = sortedByPush file.tactRecords) ∧
    (∀ data, (∃ e, readRecords data = .error e) ↔ ∀ file : CacheFile, data ≠ file.encode) ∧
    (∀ (file : CacheFile) (record : CacheRecord) (k : ℕ), 0 < k → k < record.encode.length →
      ∃ e, readRecords (file.encode ++ record.encode.take k) = .error e) ∧
    (∀ file : CacheFile,
      (sortedByPush file.tactRecords).Pairwise (fun record record' => record.push ≤ record'.push) ∧
      ∀ push, ((sortedByPush file.tactRecords).filter fun record => record.push = push) =
        file.tactRecords.filter fun record => record.push = push) := by
  refine ⟨fun data result => ⟨eq_encode_of_readRecords, ?_⟩, fun data => ?_, ?_, fun file =>
    ⟨pairwise_sortedByPush _, filter_sortedByPush _⟩⟩
  · rintro ⟨file, rfl, rfl⟩
    exact readRecords_encode file
  · constructor
    · rintro ⟨e, he⟩ file rfl
      rw [readRecords_encode] at he
      cases he
    · intro hnone
      rcases h : readRecords data with e | result
      · exact ⟨e, rfl⟩
      · obtain ⟨file, rfl, -⟩ := eq_encode_of_readRecords h
        exact absurd rfl (hnone file)
  · intro file record k hpos hlt
    rcases h : readRecords (file.encode ++ record.encode.take k) with e | result
    · exact ⟨e, rfl⟩
    · exact absurd h (readRecords_truncated file record hpos hlt result)

end AssetResolver
