import AssetResolver.Listfile.Entries

/-!
# What an import leaves

`import_rows` writes every entry of a listfile with `INSERT OR REPLACE` into a table
with two unique keys, so an entry removes the one with its fdid and the one with its
lowercased path, and these need not be one. The closed form is by lines: an entry is
in the table exactly when **no later entry shares a key with it**
(`AssetResolver.importRows_spec`), whatever became of that later entry. Which lines are
entries is said by `AssetResolver.Lists`.

The two queries of the cache then agree: the path of an fdid is the one under which
every spelling of it finds this fdid. Lines that are no entries have no part in any of
this.
-/

namespace AssetResolver

/-! ### Queries -/

/-- `query_fdid`, on a cache that has its table. -/
def queryFdid (table : ListfileTable) (fdid : UInt32) : Option String :=
  (table.find₁ fdid).map ListfileRow.path

/-- `query_path`, on a cache that has its table. -/
def queryPath (table : ListfileTable) (path : String) : Option (UInt32 × String) :=
  (table.find₂ (toAsciiLowercase path)).map fun row => (row.fdid, row.path)

variable {table : ListfileTable} {fdid : UInt32} {path : String}

theorem queryFdid_eq_some_iff :
    queryFdid table fdid = some path ↔ ⟨fdid, path⟩ ∈ table.rows := by
  rw [queryFdid, Option.map_eq_some_iff]
  constructor
  · rintro ⟨row, hfound, rfl⟩
    obtain ⟨hrow, rfl⟩ := KeyedTable.find₁_eq_some_iff.mp hfound
    exact hrow
  · intro hrow
    exact ⟨⟨fdid, path⟩, KeyedTable.find₁_eq_some_iff.mpr ⟨hrow, rfl⟩, rfl⟩

theorem queryPath_eq_some_iff {q : String} :
    queryPath table q = some (fdid, path) ↔
      ⟨fdid, path⟩ ∈ table.rows ∧ toAsciiLowercase path = toAsciiLowercase q := by
  rw [queryPath, Option.map_eq_some_iff]
  constructor
  · rintro ⟨⟨fdid', path'⟩, hfound, heq⟩
    obtain ⟨rfl, rfl⟩ := Prod.mk.inj heq
    exact KeyedTable.find₂_eq_some_iff.mp hfound
  · rintro ⟨hrow, hlower⟩
    exact ⟨⟨fdid, path⟩, KeyedTable.find₂_eq_some_iff.mpr ⟨hrow, hlower⟩, rfl⟩

/-- **The two queries agree**: the path of an fdid is the one whose every spelling finds
that fdid and that path. -/
theorem queryFdid_iff_queryPath :
    queryFdid table fdid = some path ↔
      ∀ q, toAsciiLowercase q = toAsciiLowercase path → queryPath table q = some (fdid, path) := by
  rw [queryFdid_eq_some_iff]
  constructor
  · intro hrow q hq
    exact queryPath_eq_some_iff.mpr ⟨hrow, hq.symm⟩
  · intro hall
    exact (queryPath_eq_some_iff.mp (hall path rfl)).1

/-! ### Lines -/

/-- The lines of a source, if they are UTF-8. -/
def sourceLines (content : List UInt8) : Option (List String) :=
  (readLines [] content).mapM fromUtf8

/-- **An import writes the entries of the lines in order.** -/
theorem importRows_eq_ofList {content : List UInt8} {lines : List String}
    (hutf8 : sourceLines content = some lines) (sourcePath : PathBuf) :
    importRows sourcePath content = .ok (KeyedTable.ofList (lines.filterMap parseRow)) := by
  unfold importRows KeyedTable.ofList
  unfold sourceLines at hutf8
  generalize (KeyedTable.empty : ListfileTable) = table
  generalize readLines [] content = raw at hutf8 ⊢
  induction raw generalizing lines table with
  | nil =>
    obtain rfl : [] = lines := by simpa using hutf8
    rfl
  | cons line rest ih =>
    obtain ⟨text, htext, texts, htexts, rfl⟩ : ∃ text, fromUtf8 line = some text ∧
        ∃ texts, rest.mapM fromUtf8 = some texts ∧ text :: texts = lines := by
      simpa [List.mapM_cons, Option.bind_eq_some_iff] using hutf8
    rw [List.foldlM_cons, htext]
    rcases hrow : parseRow text with _ | row
    · -- a line that is no entry leaves the table alone
      rw [List.filterMap_cons_none hrow]
      simp only [hrow]
      exact ih table htexts
    · rw [List.filterMap_cons_some hrow]
      simp only [hrow]
      exact ih (table.insertOrReplace row) htexts

/-- A valid line gives the entry, and no later valid line has its fdid or, up to ASCII
case, its path. -/
def LastLine (lines : List String) (fdid : UInt32) (path : String) : Prop :=
  ∃ front line back, lines = front ++ line :: back ∧ Lists line ⟨fdid, path⟩ ∧
    ∀ later ∈ back, ∀ row, Lists later row →
      row.fdid ≠ fdid ∧ toAsciiLowercase row.path ≠ toAsciiLowercase path

/-- The last line of an entry is its last place among the entries. -/
theorem lastWritten_filterMap_parseRow {lines : List String} :
    KeyedTable.LastWritten ListfileRow.fdid ListfileRow.lowerPath (lines.filterMap parseRow)
      ⟨fdid, path⟩ ↔ LastLine lines fdid path := by
  simp only [LastLine, ← parseRow_eq_some_iff]
  constructor
  · rintro ⟨front, back, hrows, hback⟩
    obtain ⟨linesFront, linesBack, rfl, -, hrest⟩ := List.filterMap_eq_append_iff.mp hrows
    obtain ⟨skipped, line, behind, rfl, hskipped, hline, rfl⟩ :=
      List.filterMap_eq_cons_iff.mp hrest
    refine ⟨linesFront ++ skipped, line, behind, by simp, hline, fun later hlater row hrow => ?_⟩
    have hfree := hback row (List.mem_filterMap.mpr ⟨later, hlater, hrow⟩)
    exact ⟨fun h => hfree (Or.inl h.symm), fun h => hfree (Or.inr h.symm)⟩
  · rintro ⟨front, line, back, rfl, hline, hback⟩
    refine ⟨front.filterMap parseRow, back.filterMap parseRow, ?_, fun row hrow hconflict => ?_⟩
    · rw [List.filterMap_append, List.filterMap_cons_some hline]
    · obtain ⟨later, hlater, hparse⟩ := List.mem_filterMap.mp hrow
      obtain ⟨hfdid, hlower⟩ := hback later hlater row hparse
      rcases hconflict with h | h
      · exact hfdid h.symm
      · exact hlower h.symm

/-! ### The table -/

/-- **The import of a listfile**: what its table holds, and what its queries answer. -/
structure ImportedFrom (sourcePath : PathBuf) (lines : List String) (table : ListfileTable) :
    Prop where
  /-- The table holds the entries that no later one conflicts with. -/
  rows : ∀ fdid path, ⟨fdid, path⟩ ∈ table.rows ↔ LastLine lines fdid path
  /-- Every fdid and every lowercased path occurs at most once. -/
  unique : table.rows.Pairwise fun r r' =>
    r.fdid ≠ r'.fdid ∧ toAsciiLowercase r.path ≠ toAsciiLowercase r'.path
  /-- The two queries agree. -/
  queries : ∀ fdid path, queryFdid table fdid = some path ↔
    ∀ q, toAsciiLowercase q = toAsciiLowercase path → queryPath table q = some (fdid, path)
  /-- Lines that are no entries, wherever they stand, make no difference. -/
  malformed : ∀ content' lines', sourceLines content' = some lines' →
    lines'.filter IsEntry = lines.filter IsEntry → importRows sourcePath content' = .ok table

/-- Lines that are no entries give no rows. -/
theorem filterMap_parseRow_filter (lines : List String) :
    (lines.filter IsEntry).filterMap parseRow = lines.filterMap parseRow := by
  rw [List.filterMap_filter]
  refine List.filterMap_congr fun line _ => ?_
  cases hrow : parseRow line with
  | none => exact ite_self none
  | some row => exact if_pos (decide_eq_true ⟨row, parseRow_eq_some_iff.mp hrow⟩)

/-- **An import keeps the last writer of both keys**, whatever the lines are. -/
theorem importRows_spec {content : List UInt8} {lines : List String}
    (hutf8 : sourceLines content = some lines) (sourcePath : PathBuf) :
    ∃ table, importRows sourcePath content = .ok table ∧ ImportedFrom sourcePath lines table := by
  refine ⟨_, importRows_eq_ofList hutf8 sourcePath, ?_⟩
  constructor
  · intro fdid path
    rw [KeyedTable.mem_ofList, lastWritten_filterMap_parseRow]
  · refine (KeyedTable.ofList (lines.filterMap parseRow) : ListfileTable).unique.imp ?_
    intro r r' hfree
    exact ⟨fun h => hfree (Or.inl h), fun h => hfree (Or.inr h)⟩
  · exact fun fdid path => queryFdid_iff_queryPath
  · intro content' lines' hutf8' hsame
    rw [importRows_eq_ofList hutf8', ← filterMap_parseRow_filter, hsame,
      filterMap_parseRow_filter]

/-- A listfile whose fourth entry removes two others, and is removed by the last one. -/
def sampleListfile : List UInt8 :=
  osString "6;A;x\r\n1;c\n\nx;a;x\n2;b\n1;B\n4294967296;a\n+3;b"

/-- Its lines, decoded. -/
def sampleLines : List String :=
  ["6;A;x", "1;c", "", "x;a;x", "2;b", "1;B", "4294967296;a", "+3;b"]

/-- The first entry stays, and the last one. -/
theorem importRows_sample :
    ∃ table, importRows (.ofStr "/s") sampleListfile = .ok table ∧
      ImportedFrom (.ofStr "/s") sampleLines table ∧ table.rows = [⟨6, "A;x"⟩, ⟨3, "b"⟩] := by
  have hutf8 : sourceLines sampleListfile = some sampleLines := by decide +kernel
  obtain ⟨table, himport, hfrom⟩ := importRows_spec hutf8 (.ofStr "/s")
  have hrows : (importRows (.ofStr "/s") sampleListfile).toOption.map KeyedTable.rows =
      some [⟨6, "A;x"⟩, ⟨3, "b"⟩] := by
    decide +kernel
  rw [himport] at hrows
  exact ⟨table, himport, hfrom, Option.some.inj hrows⟩

end AssetResolver
