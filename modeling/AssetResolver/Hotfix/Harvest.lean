import AssetResolver.Hotfix.KeyStore
import AssetResolver.Hotfix.Records
import AssetResolver.Library.Dict

/-!
# Harvesting a hotfix cache

`harvest` of the key importer: one loop over the records of both tables, which sets and
deletes rows in two dictionaries, and the join of the two by row.

Both dictionaries are runs of settings and deletions (`Dict.play`), the loop being nothing
but the two runs at once (`AssetResolver.foldlM_harvestRecord`); so what a row ends with is
read off **its own records**, in the order of their pushes. What that is, is said without a
loop: `AssetResolver.CacheFile.IsName` is the last valid name if no invalidation came after
it, and `AssetResolver.CacheFile.IsKey` the last valid key, where a key that the client had
cached makes the invalidations of all keys void (`AssetResolver.CacheFile.RetainsCached`).
The harvest is the join of these two (`AssetResolver.harvest_spec`).
-/

namespace AssetResolver

open KeyStore (HexText)

/-! ### The records of a row -/

namespace TactRecord

/-- The record says what its row is. Any other one invalidates its row. -/
def isValid (record : TactRecord) : Bool := record.status == 1 && !record.payload.isEmpty

theorem isValid_iff {record : TactRecord} :
    record.isValid = true ↔ record.status = 1 ∧ record.payload ≠ [] := by
  simp [isValid]

/-- `expected`, the size of a payload. -/
def expected (record : TactRecord) : ℕ := if record.table = tactKey then 16 else 8

/-- The record is about a row of a table. -/
def isOf (table row : UInt32) (record : TactRecord) : Bool :=
  record.table == table && record.row == row

theorem isOf_iff {table row : UInt32} {record : TactRecord} :
    record.isOf table row = true ↔ record.table = table ∧ record.row = row := by
  simp [isOf]

end TactRecord

/-- `retain_cached`: a key was cached, whichever row it is of. -/
def retainCached (records : List TactRecord) : Bool :=
  records.any fun record => record.table == tactKey && record.push == -1 && record.isValid

/-! ### The loop -/

/-- What `read_lookup` gives: the names of some rows. -/
abbrev BaseLookup := Dict UInt32 (HexText 16)

/-- `names` and `keys`. -/
structure Tables where
  /-- The names of the rows. -/
  names : Dict UInt32 (HexText 16)
  /-- The keys of the rows. -/
  keys : Dict UInt32 (HexText 32)

/-- The name of a payload, `f'{int.from_bytes(payload, "little"):016X}'`. -/
def nameText (payload : List UInt8) : HexText 16 := HexText.ofNat 16 (leNat payload)

/-- `target.pop(row, None)`. -/
def Tables.pop (tables : Tables) (record : TactRecord) : Tables :=
  if record.table = tactKey then { tables with keys := tables.keys.erase record.row }
  else { tables with names := tables.names.erase record.row }

/-- `target[row] = …`. -/
def Tables.set (tables : Tables) (record : TactRecord)
    (hsize : record.payload.length = record.expected) : Tables :=
  if htable : record.table = tactKey then
    let key := HexText.ofBytes record.payload (hsize.trans (if_pos htable))
    { tables with keys := tables.keys.insert record.row key }
  else { tables with names := tables.names.insert record.row (nameText record.payload) }

/-- One turn of the loop of `harvest`. -/
def harvestRecord (retain : Bool) (tables : Tables) (record : TactRecord) :
    Except String Tables :=
  if record.isValid = false then
    .ok (if record.table = tactLookup ∨ retain = false then tables.pop record else tables)
  else if hsize : record.payload.length = record.expected then .ok (tables.set record hsize)
  else .error s!"invalid TACT payload size for record {record.row}"

/-- The keys under the names of their rows, in the order of the keys. -/
def Tables.pairs (tables : Tables) : List (HexText 16 × HexText 32) :=
  tables.keys.entries.filterMap fun e => (tables.names.get? e.1).map fun name => (name, e.2)

/-- `matched`. -/
def Tables.matched (tables : Tables) : Dict (HexText 16) (HexText 32) := Dict.ofPairs tables.pairs

/-- `sorted(keys.keys() - names.keys())`. -/
def Tables.unmatched (tables : Tables) : List UInt32 :=
  StableSort.sortBy UInt32.toNat
    (tables.keys.keys.filter fun row => tables.names.get? row = none)

/-- The loop of `harvest`. -/
def harvestRecords (records : List TactRecord) (baseLookup : BaseLookup) : Except String Tables :=
  records.foldlM (harvestRecord (retainCached records)) ⟨baseLookup, ∅⟩

/-- `harvest`. -/
def harvest (data : List UInt8) (baseLookup : BaseLookup) :
    Except String (Dict (HexText 16) (HexText 32) × List UInt32) := do
  let records ← readRecords data
  let tables ← harvestRecords records baseLookup
  return (tables.matched, tables.unmatched)

/-! ### What a row is -/

/-- The last valid record of a row: no valid one comes after it and, where invalidations
count, no invalidation either. -/
def Stands (count : Prop) (records : List TactRecord) (record : TactRecord) : Prop :=
  ∃ earlier later, records = earlier ++ record :: later ∧ record.isValid = true ∧
    (∀ record' ∈ later, record'.isValid = false) ∧
    (count → ∀ record' ∈ later, record'.isValid = true)

namespace CacheFile

variable (file : CacheFile) (base : BaseLookup)

/-- The records of a row in the order of their pushes, and of one push in file order. -/
def rowRecords (table row : UInt32) : List TactRecord :=
  sortedByPush (file.tactRecords.filter (TactRecord.isOf table row))

/-- Some key was cached: it has the push −1. -/
def RetainsCached : Prop :=
  ∃ record ∈ file.tactRecords, record.table = tactKey ∧ record.push = -1 ∧ record.isValid = true

/-- **The name of a row**: the one that stands, which is the number of its bytes, the least
significant one first, and without any record the one of the base lookup. -/
def IsName (row : UInt32) (name : HexText 16) : Prop :=
  (∃ record, Stands True (file.rowRecords tactLookup row) record ∧
    name = HexText.ofNat 16 (leNat record.payload)) ∨
  file.rowRecords tactLookup row = [] ∧ base.get? row = some name

/-- **The key of a row**: the one that stands, where invalidations count unless some key
was cached. -/
def IsKey (row : UInt32) (key : HexText 32) : Prop :=
  ∃ record, ∃ hsize : record.payload.length = 16,
    Stands (¬file.RetainsCached) (file.rowRecords tactKey row) record ∧
      key = HexText.ofBytes record.payload hsize

/-- Every valid record has the size of its table. -/
def Sized : Prop :=
  ∀ record ∈ file.tactRecords, record.isValid = true → record.payload.length = record.expected

end CacheFile

/-! ### The two runs of the loop -/

/-- What a record does to the names. -/
def nameEvent (record : TactRecord) : Option (UInt32 × Option (HexText 16)) :=
  if record.table = tactKey then none
  else some (record.row, if record.isValid then some (nameText record.payload) else none)

/-- The key of a payload, if it has the size of one. -/
def keyText? (payload : List UInt8) : Option (HexText 32) :=
  if hsize : payload.length = 16 then some (HexText.ofBytes payload hsize) else none

/-- What a record does to the keys. -/
def keyEvent (retain : Bool) (record : TactRecord) : Option (UInt32 × Option (HexText 32)) :=
  if record.table = tactKey then
    if record.isValid then some (record.row, keyText? record.payload)
    else if retain then none
    else some (record.row, none)
  else none

/-- The two runs. -/
def Tables.play (retain : Bool) (tables : Tables) (records : List TactRecord) : Tables where
  names := tables.names.play (records.filterMap nameEvent)
  keys := tables.keys.play (records.filterMap (keyEvent retain))

theorem tactLookup_ne_tactKey : tactLookup ≠ tactKey := by decide

section Loop

variable {retain : Bool} {tables : Tables} {record : TactRecord} {records : List TactRecord}

/-- **A turn plays the events of its record.** -/
theorem harvestRecord_eq (htact : record.isTact = true)
    (hsized : record.isValid = true → record.payload.length = record.expected) :
    harvestRecord retain tables record = .ok (tables.play retain [record]) := by
  have htable : record.table = tactLookup ↔ record.table ≠ tactKey := by
    constructor
    · intro h
      rw [h]
      exact tactLookup_ne_tactKey
    · intro h
      simpa [TactRecord.isTact, h] using htact
  rcases hvalid : record.isValid with _ | _
  · rw [harvestRecord, if_pos hvalid]
    by_cases hkey : record.table = tactKey
    · cases retain <;>
        simp [Tables.play, Tables.pop, nameEvent, keyEvent, hkey, hvalid, Dict.play, Dict.step,
          tactLookup_ne_tactKey.symm]
    · simp [Tables.play, Tables.pop, nameEvent, keyEvent, hkey, htable, hvalid, Dict.play,
        Dict.step]
  · have hsize := hsized hvalid
    rw [harvestRecord, if_neg (by simp [hvalid]), dif_pos hsize]
    by_cases hkey : record.table = tactKey
    · have hkeySize : record.payload.length = 16 := hsize.trans (if_pos hkey)
      simp [Tables.play, Tables.set, nameEvent, keyEvent, keyText?, hkey, hvalid, hkeySize,
        Dict.play, Dict.step]
    · simp [Tables.play, Tables.set, nameEvent, keyEvent, hkey, hvalid, Dict.play, Dict.step]

theorem Tables.play_cons (retain : Bool) (tables : Tables) (record : TactRecord)
    (records : List TactRecord) :
    tables.play retain (record :: records) =
      (tables.play retain [record]).play retain records := by
  have hnames : (record :: records).filterMap nameEvent =
      [record].filterMap nameEvent ++ records.filterMap nameEvent := by
    rw [← List.filterMap_append, List.singleton_append]
  have hkeys : (record :: records).filterMap (keyEvent retain) =
      [record].filterMap (keyEvent retain) ++ records.filterMap (keyEvent retain) := by
    rw [← List.filterMap_append, List.singleton_append]
  simp only [Tables.play]
  rw [hnames, hkeys, Dict.play_append, Dict.play_append]

/-- **The loop plays the events of its records**, by induction over them. -/
theorem foldlM_harvestRecord (htact : ∀ record ∈ records, record.isTact = true)
    (hsized : ∀ record ∈ records, record.isValid = true →
      record.payload.length = record.expected) :
    records.foldlM (harvestRecord retain) tables = .ok (tables.play retain records) := by
  induction records generalizing tables with
  | nil => rfl
  | cons record records ih =>
    rw [List.foldlM_cons, harvestRecord_eq (htact record List.mem_cons_self)
      (hsized record List.mem_cons_self), Tables.play_cons retain tables record records]
    exact ih (fun record' hmem => htact record' (List.mem_cons_of_mem _ hmem))
      fun record' hmem => hsized record' (List.mem_cons_of_mem _ hmem)

/-- **The loop fails at a valid record of a wrong size.** -/
theorem foldlM_harvestRecord_error (hmem : record ∈ records) (hvalid : record.isValid = true)
    (hsize : record.payload.length ≠ record.expected) :
    ∃ e, records.foldlM (harvestRecord retain) tables = .error e := by
  induction records generalizing tables with
  | nil => exact absurd hmem List.not_mem_nil
  | cons first records ih =>
    rw [List.foldlM_cons]
    rcases hturn : harvestRecord retain tables first with e | tables'
    · exact ⟨e, rfl⟩
    · rcases List.mem_cons.mp hmem with rfl | hmem
      · rw [harvestRecord, if_neg (by simp [hvalid]), dif_neg hsize] at hturn
        cases hturn
      · exact ih hmem

end Loop

/-! ### A run is read row by row -/

section Rows

variable {retain : Bool} {record : TactRecord} {records : List TactRecord}

/-- A record of another row or of the keys says nothing of a name. -/
theorem nameEvent_of_isOf_false {row : UInt32} {event : UInt32 × Option (HexText 16)}
    (htact : record.isTact = true) (hof : record.isOf tactLookup row = false)
    (hevent : nameEvent record = some event) : event.1 ≠ row := by
  by_cases hkey : record.table = tactKey
  · rw [nameEvent, if_pos hkey] at hevent
    cases hevent
  rw [nameEvent, if_neg hkey] at hevent
  have htable : record.table = tactLookup := by simpa [TactRecord.isTact, hkey] using htact
  rw [← Option.some.inj hevent]
  simpa [TactRecord.isOf, htable] using hof

/-- A record of another row or of the names says nothing of a key. -/
theorem keyEvent_of_isOf_false {row : UInt32} {event : UInt32 × Option (HexText 32)}
    (hof : record.isOf tactKey row = false) (hevent : keyEvent retain record = some event) :
    event.1 ≠ row := by
  have hrow : record.table = tactKey → record.row ≠ row := by
    intro hkey
    simpa [TactRecord.isOf, hkey] using hof
  unfold keyEvent at hevent
  split_ifs at hevent with hkey
  · rw [← Option.some.inj hevent]
    exact hrow hkey
  · rw [← Option.some.inj hevent]
    exact hrow hkey

/-- What a record of a row says of its name. -/
theorem nameEvent_of_isOf {row : UInt32} (hof : record.isOf tactLookup row = true) :
    nameEvent record =
      some (row, if record.isValid then some (nameText record.payload) else none) := by
  obtain ⟨htable, hrow⟩ := TactRecord.isOf_iff.mp hof
  rw [nameEvent, if_neg (htable ▸ tactLookup_ne_tactKey), hrow]

/-- What a record of a row says of its key. -/
theorem keyEvent_of_isOf {row : UInt32} (hof : record.isOf tactKey row = true) :
    keyEvent retain record =
      if record.isValid then some (row, keyText? record.payload)
      else if retain then none
      else some (row, none) := by
  obtain ⟨htable, hrow⟩ := TactRecord.isOf_iff.mp hof
  rw [keyEvent, if_pos htable, hrow]

theorem keyText?_eq_some_iff {payload : List UInt8} {key : HexText 32} :
    keyText? payload = some key ↔
      ∃ hsize : payload.length = 16, key = HexText.ofBytes payload hsize := by
  unfold keyText?
  constructor
  · intro h
    split_ifs at h with hsize
    exact ⟨hsize, (Option.some.inj h).symm⟩
  · rintro ⟨hsize, rfl⟩
    exact dif_pos hsize

/-- **The event that lasts is that of the record that stands**, where valid records have
an event, and invalidations one exactly if they count. -/
theorem isLast_iff_stands {α : Type} {f : TactRecord → Option (UInt32 × Option α)} {row : UInt32}
    {value : α} {count : Prop}
    (hevent : ∀ record ∈ records, (∃ w, f record = some (row, w)) ↔
      record.isValid = true ∨ count)
    (hvalid : ∀ record ∈ records, f record = some (row, some value) → record.isValid = true) :
    LastWins.IsLast (records.filterMap f) row (some value) ↔
      ∃ record, Stands count records record ∧ f record = some (row, some value) := by
  rw [LastWins.isLast_filterMap]
  constructor
  · rintro ⟨earlier, record, later, rfl, hrecord, hlater⟩
    have hnone : ∀ record' ∈ later, ¬(record'.isValid = true ∨ count) := by
      intro record' hmem hor
      obtain ⟨w, hw⟩ := (hevent record' (by simp [hmem])).mpr hor
      exact hlater record' hmem w hw
    refine ⟨record, ⟨earlier, later, rfl, hvalid record (by simp) hrecord, ?_, ?_⟩, hrecord⟩
    · intro record' hmem
      exact Bool.eq_false_iff.mpr fun h => hnone record' hmem (Or.inl h)
    · intro hcount record' hmem
      exact absurd (Or.inr hcount) (hnone record' hmem)
  · rintro ⟨record, ⟨earlier, later, rfl, -, hfalse, hcount⟩, hrecord⟩
    refine ⟨earlier, record, later, rfl, hrecord, fun record' hmem w hw => ?_⟩
    have hinvalid := Bool.eq_false_iff.mp (hfalse record' hmem)
    rcases (hevent record' (by simp [hmem])).mp ⟨w, hw⟩ with h | h
    · exact hinvalid h
    · exact hinvalid (hcount h record' hmem)

/-- **The key that a row's records leave** is that of the record that stands. -/
theorem get?_play_keyEvent {row : UInt32} {key : HexText 32}
    (hof : ∀ record ∈ records, record.isOf tactKey row = true) :
    ((∅ : Dict UInt32 (HexText 32)).play (records.filterMap (keyEvent retain))).get? row =
        some key ↔
      ∃ record, Stands (retain = false) records record ∧ keyText? record.payload = some key := by
  have hevent : ∀ record ∈ records, keyEvent retain record =
      if record.isValid then some (row, keyText? record.payload)
      else if retain then none
      else some (row, none) :=
    fun record hmem => keyEvent_of_isOf (hof record hmem)
  rw [Dict.get?_play, Dict.get?_empty, @isLast_iff_stands _ _ _ _ _ (retain = false)]
  · simp only [reduceCtorEq, and_false, or_false]
    refine exists_congr fun record => and_congr_right fun hstands => ?_
    obtain ⟨earlier, later, hrecords, hvalid, -⟩ := hstands
    rw [hevent record (by rw [hrecords]; simp), if_pos hvalid]
    simp
  · intro record hmem
    rw [hevent record hmem]
    cases record.isValid <;> cases retain <;> simp
  · intro record hmem hlast
    rw [hevent record hmem] at hlast
    by_contra hinvalid
    rw [if_neg hinvalid] at hlast
    split_ifs at hlast
    cases congrArg Prod.snd (Option.some.inj hlast)

end Rows

namespace CacheFile

/-- `names` and `keys` at the end of the loop. -/
def tables (file : CacheFile) (base : BaseLookup) : Tables :=
  Tables.play (retainCached (sortedByPush file.tactRecords)) ⟨base, ∅⟩
    (sortedByPush file.tactRecords)

variable {file : CacheFile} {base : BaseLookup} {row : UInt32}

theorem retainCached_iff :
    retainCached (sortedByPush file.tactRecords) = true ↔ file.RetainsCached := by
  simp [retainCached, RetainsCached, sortedByPush, and_assoc]

/-- Invalidations of keys count unless some key was cached. -/
theorem count_eq :
    (retainCached (sortedByPush file.tactRecords) = false) = ¬file.RetainsCached := by
  rw [← retainCached_iff, Bool.not_eq_true]

theorem isTact_of_mem {record : TactRecord} (hmem : record ∈ sortedByPush file.tactRecords) :
    record.isTact = true :=
  (List.mem_filter.mp ((List.mem_insertionSort _).mp hmem)).2

theorem rowRecords_eq (table : UInt32) : file.rowRecords table row =
    (sortedByPush file.tactRecords).filter (TactRecord.isOf table row) :=
  StableSort.sortBy_filter _

theorem isOf_of_mem_rowRecords {table : UInt32} {record : TactRecord}
    (hmem : record ∈ file.rowRecords table row) : record.isOf table row = true := by
  rw [rowRecords_eq] at hmem
  exact (List.mem_filter.mp hmem).2

/-- **The loop ends well if every record has its size**, and then with the two runs. -/
theorem harvestRecords_of_sized (hsized : file.Sized) :
    harvestRecords (sortedByPush file.tactRecords) base = .ok (file.tables base) :=
  foldlM_harvestRecord (fun _ => isTact_of_mem) fun record hmem =>
    hsized record ((List.mem_insertionSort _).mp hmem)

/-- **Otherwise it fails.** -/
theorem harvestRecords_error (hsized : ¬file.Sized) :
    ∃ e, harvestRecords (sortedByPush file.tactRecords) base = .error e := by
  simp only [Sized, not_forall] at hsized
  obtain ⟨record, hmem, hvalid, hsize⟩ := hsized
  exact foldlM_harvestRecord_error ((List.mem_insertionSort _).mpr hmem) hvalid hsize

theorem harvest_encode : harvest file.encode base =
    (harvestRecords (sortedByPush file.tactRecords) base).map fun tables =>
      (tables.matched, tables.unmatched) := by
  rw [harvest, readRecords_encode]
  rfl

/-- **A harvest joins the two dictionaries**, if every record has its size. -/
theorem harvest_of_sized (hsized : file.Sized) :
    harvest file.encode base =
      .ok ((file.tables base).matched, (file.tables base).unmatched) := by
  rw [harvest_encode, harvestRecords_of_sized hsized]
  rfl

/-- **What the loop ends with**, if it ends. -/
theorem eq_tables_of_harvestRecords {tables : Tables}
    (h : harvestRecords (sortedByPush file.tactRecords) base = .ok tables) :
    tables = file.tables base := by
  by_cases hsized : file.Sized
  · rw [harvestRecords_of_sized hsized] at h
    exact (Except.ok.inj h).symm
  · obtain ⟨e, he⟩ := @harvestRecords_error file base hsized
    rw [he] at h
    cases h

/-- What a harvest gives, if it gives anything, is the join of those tables. -/
theorem eq_of_harvest {matched : Dict (HexText 16) (HexText 32)} {unmatched : List UInt32}
    (h : harvest file.encode base = .ok (matched, unmatched)) :
    matched = (file.tables base).matched ∧ unmatched = (file.tables base).unmatched := by
  rw [harvest_encode] at h
  rcases hloop : harvestRecords (sortedByPush file.tactRecords) base with e | tables
  · rw [hloop] at h
    cases h
  · rw [hloop] at h
    obtain ⟨rfl, rfl⟩ := Prod.mk.inj (Except.ok.inj h)
    rw [eq_tables_of_harvestRecords hloop]
    exact ⟨rfl, rfl⟩

/-- **A harvest fails at a valid record of a wrong size**, and only there. -/
theorem harvest_error_iff : (∃ e, harvest file.encode base = .error e) ↔ ¬file.Sized := by
  constructor
  · rintro ⟨e, he⟩ hsized
    rw [harvest_of_sized hsized] at he
    cases he
  · intro hsized
    obtain ⟨e, he⟩ := @harvestRecords_error file base hsized
    exact ⟨e, by rw [harvest_encode, he]; rfl⟩

/-- **The name of a row at the end of the loop.** -/
theorem get?_names {name : HexText 16} :
    (file.tables base).names.get? row = some name ↔ file.IsName base row name := by
  have hrow : (file.tables base).names.get? row =
      (base.play ((file.rowRecords tactLookup row).filterMap nameEvent)).get? row := by
    rw [rowRecords_eq]
    exact Dict.get?_play_filter base fun record hmem hof event hevent =>
      nameEvent_of_isOf_false (isTact_of_mem hmem) hof hevent
  have hof : ∀ record ∈ file.rowRecords tactLookup row, nameEvent record =
      some (row, if record.isValid then some (nameText record.payload) else none) :=
    fun record hmem => nameEvent_of_isOf (isOf_of_mem_rowRecords hmem)
  rw [hrow, Dict.get?_play, @isLast_iff_stands _ _ _ _ _ True]
  · refine or_congr (exists_congr fun record => and_congr_right fun hstands => ?_)
      (and_congr_left fun _ => ?_)
    · obtain ⟨earlier, later, hrecords, hvalid, -⟩ := hstands
      rw [hof record (by rw [hrecords]; simp), hvalid, nameText]
      simp [eq_comm]
    · rw [List.eq_nil_iff_forall_not_mem]
      constructor
      · intro hnone record hmem
        exact hnone _ (List.mem_filterMap.mpr ⟨record, hmem, hof record hmem⟩) rfl
      · intro hnil event hevent
        obtain ⟨record, hmem, -⟩ := List.mem_filterMap.mp hevent
        exact absurd hmem (hnil record)
  · intro record hmem
    simp [hof record hmem]
  · intro record hmem hevent
    rw [hof record hmem] at hevent
    by_contra hinvalid
    simp [hinvalid] at hevent

/-- **The key of a row at the end of the loop.** -/
theorem get?_keys {key : HexText 32} :
    (file.tables base).keys.get? row = some key ↔ file.IsKey row key := by
  have hrow : (file.tables base).keys.get? row =
      ((∅ : Dict UInt32 (HexText 32)).play ((file.rowRecords tactKey row).filterMap
        (keyEvent (retainCached (sortedByPush file.tactRecords))))).get? row := by
    rw [rowRecords_eq]
    exact Dict.get?_play_filter ∅ fun record _ hof event hevent =>
      keyEvent_of_isOf_false hof hevent
  rw [hrow, get?_play_keyEvent fun record hmem => isOf_of_mem_rowRecords hmem, count_eq]
  refine exists_congr fun record => ?_
  rw [keyText?_eq_some_iff]
  constructor
  · rintro ⟨hstands, hsize, rfl⟩
    exact ⟨hsize, hstands, rfl⟩
  · rintro ⟨hsize, hstands, rfl⟩
    exact ⟨hstands, hsize, rfl⟩

/-! ### The join -/

/-- **The pairs are those of the rows that have both.** -/
theorem mem_pairs {name : HexText 16} {key : HexText 32} :
    (name, key) ∈ (file.tables base).pairs ↔
      ∃ row, file.IsName base row name ∧ file.IsKey row key := by
  rw [Tables.pairs, List.mem_filterMap]
  constructor
  · rintro ⟨⟨row, key'⟩, hentry, hpair⟩
    obtain ⟨name', hname, heq⟩ := Option.map_eq_some_iff.mp hpair
    obtain ⟨rfl, rfl⟩ := Prod.mk.inj heq
    exact ⟨row, get?_names.mp hname, get?_keys.mp (Dict.get?_eq_some_iff.mpr hentry)⟩
  · rintro ⟨row, hname, hkey⟩
    refine ⟨(row, key), Dict.get?_eq_some_iff.mp (get?_keys.mpr hkey), ?_⟩
    exact Option.map_eq_some_iff.mpr ⟨name, get?_names.mpr hname, rfl⟩

theorem mem_unmatched : row ∈ (file.tables base).unmatched ↔
    (∃ key, file.IsKey row key) ∧ ∀ name, ¬file.IsName base row name := by
  rw [Tables.unmatched, StableSort.mem_sortBy, List.mem_filter, Dict.mem_keys_iff,
    decide_eq_true_eq, Option.eq_none_iff_forall_ne_some]
  refine and_congr (exists_congr fun key => get?_keys) (forall_congr' fun name => ?_)
  exact not_congr get?_names

theorem pairwise_unmatched (tables : Tables) :
    tables.unmatched.Pairwise fun row row' => row.toNat < row'.toNat := by
  have hnodup : tables.unmatched.Nodup :=
    StableSort.perm_sortBy.nodup_iff.mpr (tables.keys.nodup.filter _)
  have hsorted : tables.unmatched.Pairwise fun row row' => row.toNat ≤ row'.toNat :=
    StableSort.pairwise_sortBy
  refine (hsorted.and hnodup).imp fun h => ?_
  exact lt_of_le_of_ne h.1 fun heq => h.2 (UInt32.toNat_inj.mp heq)

/-- What a harvest is, of the names and keys of the rows. -/
structure IsHarvest (file : CacheFile) (base : BaseLookup)
    (matched : Dict (HexText 16) (HexText 32)) (unmatched : List UInt32) : Prop where
  /-- The names of the rows that have both. -/
  names : ∀ name, name ∈ matched.keys ↔
    ∃ row, file.IsName base row name ∧ ∃ key, file.IsKey row key
  /-- A key is that of a row with the name. -/
  keys : ∀ name key, matched.get? name = some key →
    ∃ row, file.IsName base row name ∧ file.IsKey row key
  /-- The rows that have no name, in order. -/
  sorted : unmatched.Pairwise fun row row' => row.toNat < row'.toNat
  rows : ∀ row, row ∈ unmatched ↔
    (∃ key, file.IsKey row key) ∧ ∀ name, ¬file.IsName base row name

theorem isHarvest_tables (file : CacheFile) (base : BaseLookup) :
    file.IsHarvest base (file.tables base).matched (file.tables base).unmatched where
  names name := by
    rw [Dict.mem_keys_iff]
    constructor
    · rintro ⟨key, hkey⟩
      obtain ⟨row, hname, hkey⟩ := mem_pairs.mp (Dict.get?_ofPairs.mp hkey).mem
      exact ⟨row, hname, key, hkey⟩
    · rintro ⟨row, hname, key, hkey⟩
      exact Option.ne_none_iff_exists'.mp
        (Dict.get?_ofPairs_ne_none (mem_pairs.mpr ⟨row, hname, hkey⟩))
  keys name key h := mem_pairs.mp (Dict.get?_ofPairs.mp h).mem
  sorted := pairwise_unmatched _
  rows _ := mem_unmatched

/-- The name of a row is a matter of its own records. -/
theorem get?_names_congr {file' : CacheFile} {base' : BaseLookup}
    (hrecords : file.tactRecords.filter (TactRecord.isOf tactLookup row) =
      file'.tactRecords.filter (TactRecord.isOf tactLookup row))
    (hbase : base.get? row = base'.get? row) :
    (file.tables base).names.get? row = (file'.tables base').names.get? row := by
  apply Option.ext
  intro name
  rw [get?_names, get?_names, IsName, IsName, rowRecords, rowRecords, hrecords, hbase]

/-- The key of a row is one as well, but for there being a cached key. -/
theorem get?_keys_congr {file' : CacheFile} {base' : BaseLookup}
    (hrecords : file.tactRecords.filter (TactRecord.isOf tactKey row) =
      file'.tactRecords.filter (TactRecord.isOf tactKey row))
    (hretains : file.RetainsCached ↔ file'.RetainsCached) :
    (file.tables base).keys.get? row = (file'.tables base').keys.get? row := by
  apply Option.ext
  intro key
  rw [get?_keys, get?_keys, IsKey, IsKey, rowRecords, rowRecords, hrecords, hretains]

/-- **A cached key survives** whatever invalidates its row later. -/
theorem isKey_of_cached {record : TactRecord} {earlier later : List TactRecord}
    (hrecords : file.rowRecords tactKey row = earlier ++ record :: later)
    (hpush : record.push = -1) (hvalid : record.isValid = true)
    (hsize : record.payload.length = 16) (hlater : ∀ r ∈ later, r.isValid = false) :
    file.IsKey row (HexText.ofBytes record.payload hsize) := by
  have hmem : record ∈ file.rowRecords tactKey row := by rw [hrecords]; simp
  have hretains : file.RetainsCached := by
    refine ⟨record, ?_, (TactRecord.isOf_iff.mp (isOf_of_mem_rowRecords hmem)).1, hpush, hvalid⟩
    exact (List.mem_filter.mp ((List.mem_insertionSort _).mp hmem)).1
  exact ⟨record, hsize, ⟨earlier, later, hrecords, hvalid, hlater, fun h => absurd hretains h⟩, rfl⟩

end CacheFile

open CacheFile in
/-- **What a harvest is.** It fails exactly at a valid record of a wrong size. Otherwise the
dictionaries of its loop say of each row the last valid name, from the base lookup on, and
the last valid key, and its result is their join. A cached key survives its invalidations,
and no other row's records matter, but for there being a cached key. -/
theorem harvest_spec :
    (∀ (file : CacheFile) (base : BaseLookup),
      (∃ e, harvest file.encode base = .error e) ↔ ∃ record ∈ file.tactRecords,
        record.status = 1 ∧ record.payload ≠ [] ∧
          record.payload.length ≠ if record.table = tactKey then 16 else 8) ∧
    (∀ (file : CacheFile) (base : BaseLookup) (tables : Tables),
      harvestRecords (sortedByPush file.tactRecords) base = .ok tables →
        (∀ row name, tables.names.get? row = some name ↔ file.IsName base row name) ∧
        ∀ row key, tables.keys.get? row = some key ↔ file.IsKey row key) ∧
    (∀ (file : CacheFile) (base : BaseLookup) matched unmatched,
      harvest file.encode base = .ok (matched, unmatched) →
        file.IsHarvest base matched unmatched) ∧
    (∀ (file : CacheFile) (row : UInt32) (record : TactRecord) (earlier later : List TactRecord)
      (hsize : record.payload.length = 16),
      file.rowRecords tactKey row = earlier ++ record :: later → record.push = -1 →
      record.isValid = true → (∀ r ∈ later, r.isValid = false) →
        file.IsKey row (HexText.ofBytes record.payload hsize)) ∧
    ∀ (file file' : CacheFile) (base base' : BaseLookup) (tables tables' : Tables) row,
      harvestRecords (sortedByPush file.tactRecords) base = .ok tables →
      harvestRecords (sortedByPush file'.tactRecords) base' = .ok tables' →
      (file.tactRecords.filter (TactRecord.isOf tactLookup row) =
          file'.tactRecords.filter (TactRecord.isOf tactLookup row) →
        base.get? row = base'.get? row → tables.names.get? row = tables'.names.get? row) ∧
      (file.tactRecords.filter (TactRecord.isOf tactKey row) =
          file'.tactRecords.filter (TactRecord.isOf tactKey row) →
        (file.RetainsCached ↔ file'.RetainsCached) →
          tables.keys.get? row = tables'.keys.get? row) := by
  refine ⟨?_, ?_, ?_, ?_, ?_⟩
  · intro file base
    rw [harvest_error_iff]
    simp only [Sized, not_forall, exists_prop, TactRecord.isValid_iff, TactRecord.expected,
      and_assoc, ne_eq]
  · intro file base tables h
    obtain rfl := eq_tables_of_harvestRecords h
    exact ⟨fun _ _ => get?_names, fun _ _ => get?_keys⟩
  · intro file base matched unmatched h
    obtain ⟨rfl, rfl⟩ := eq_of_harvest h
    exact isHarvest_tables file base
  · intro file row record earlier later hsize hrecords hpush hvalid hlater
    exact isKey_of_cached hrecords hpush hvalid hsize hlater
  · intro file file' base base' tables tables' row h h'
    obtain rfl := eq_tables_of_harvestRecords h
    obtain rfl := eq_tables_of_harvestRecords h'
    exact ⟨get?_names_congr, get?_keys_congr⟩

/-- A record of the sample. -/
def sampleRecord (push : Int32) (table row : UInt32) (status : UInt8) (payload : List UInt8)
    (hlt : payload.length < UInt32.size) : CacheRecord :=
  ⟨0, push, 0, table, row, status, [9, 9, 9], rfl, payload, hlt⟩

/-- A cache in which the key of row 7 was cached, row 9 gets a key behind its name, and the
name of row 11 is withdrawn. -/
def sampleCacheFile : CacheFile where
  header := xfth ++ [9, 0, 0, 0] ++ List.replicate 36 0
  isHeader := ⟨by decide, by decide, by decide⟩
  records := [
    sampleRecord 4 tactKey 7 4 [] (by decide),
    sampleRecord 5 tactKey 9 1 (List.replicate 16 0xcd) (by decide),
    sampleRecord (-1) tactKey 7 1 (List.replicate 16 0xab) (by decide),
    sampleRecord 2 tactLookup 9 1 [8, 7, 6, 5, 4, 3, 2, 1] (by decide),
    sampleRecord 6 tactKey 11 1 (List.replicate 16 0xef) (by decide),
    sampleRecord 7 tactKey 11 2 [1] (by decide),
    sampleRecord 6 tactLookup 11 3 [] (by decide)]

/-- The base lookup has names for two of the rows. -/
def sampleBaseLookup : BaseLookup :=
  Dict.ofPairs [(7, HexText.ofNat 16 0x1122334455667788), (11, HexText.ofNat 16 5)]

/-- The cached key outlives its invalidation, and has its name from the base lookup; so does the
key of row 11, which has no name any more. -/
theorem harvest_spec_sample :
    ∃ matched, harvest sampleCacheFile.encode sampleBaseLookup = .ok (matched, [11]) ∧
      sampleCacheFile.IsHarvest sampleBaseLookup matched [11] ∧
      matched.entries = [
        (HexText.ofNat 16 0x1122334455667788, HexText.ofBytes (List.replicate 16 0xab) rfl),
        (HexText.ofNat 16 0x0102030405060708, HexText.ofBytes (List.replicate 16 0xcd) rfl)] := by
  have hloop : (harvestRecords (sortedByPush sampleCacheFile.tactRecords)
      sampleBaseLookup).toOption.map (fun tables => (tables.matched.entries, tables.unmatched)) =
      some ([(HexText.ofNat 16 0x1122334455667788, HexText.ofBytes (List.replicate 16 0xab) rfl),
        (HexText.ofNat 16 0x0102030405060708, HexText.ofBytes (List.replicate 16 0xcd) rfl)],
        [11]) := by
    decide +kernel
  have hharvest := @CacheFile.harvest_encode sampleCacheFile sampleBaseLookup
  cases htables : harvestRecords (sortedByPush sampleCacheFile.tactRecords) sampleBaseLookup with
  | error e =>
    rw [htables] at hloop
    cases hloop
  | ok tables =>
    rw [htables] at hloop hharvest
    obtain ⟨hmatched, hunmatched⟩ := Prod.mk.inj (Option.some.inj hloop)
    have hresult : harvest sampleCacheFile.encode sampleBaseLookup =
        .ok (tables.matched, [11]) := by
      rw [hharvest, ← hunmatched]
      rfl
    exact ⟨tables.matched, hresult, harvest_spec.2.2.1 _ _ _ _ hresult, hmatched⟩

end AssetResolver
