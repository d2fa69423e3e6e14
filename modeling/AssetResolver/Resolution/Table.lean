import AssetResolver.Resolution.Namespace
import AssetResolver.Library.KeyedTable
import AssetResolver.Library.LastWins

/-!
# Building the resolution table

`build_resolution_cache`: from the root file and the encoding file of a build to
the table that answers `resolve_fdid`.

Two maps are filled by overwriting, one from the records of the blocks of the
client's locale, one from the entries that have an encoding key; they are joined
in the order the first map happens to be visited; the table is written into a
fresh schema and read back through a check of the lengths. Of all this the
specification keeps two lists, `AssetResolver.clientRecords` and
`AssetResolver.listedKeys`, and says **the last record for the file, then the
last entry for its content** (`AssetResolver.resolveFdid_builtContents_iff`).

The order of the visit cannot matter because an entry of a map is determined by
its key, and what the database held before cannot because both tables are dropped
first (`AssetResolver.buildResolutionCache_eq_ok`).
-/

namespace AssetResolver

open LastWins

/-! ### The metadata files -/

/-- A record of a root block. -/
structure RootRecord where
  /-- The file. -/
  fdid : UInt32
  /-- Its content. -/
  contentKey : Key
  deriving DecidableEq

/-- A block of the root file. -/
structure RootBlock where
  /-- The locales the block is for. -/
  localeFlags : UInt32
  /-- Its records. -/
  records : List RootRecord
  deriving DecidableEq

/-- `RootFile`. -/
structure RootFile where
  /-- The blocks, in file order. -/
  blocks : List RootBlock
  deriving DecidableEq

/-- An entry of a content-key page. -/
structure CKeyEntry where
  /-- The content. -/
  contentKey : Key
  /-- Where the archives hold it. -/
  encodingKeys : List Key
  deriving DecidableEq

/-- A content-key page. -/
structure CKeyPage where
  /-- The entries, in page order. -/
  entries : List CKeyEntry
  deriving DecidableEq

/-- `EncodingFile`. -/
structure EncodingFile where
  /-- The content-key pages, in file order. -/
  ckeyPages : List CKeyPage
  deriving DecidableEq

/-- The parsers of the two files. -/
structure MetadataFormats where
  /-- `RootFile::parse`. -/
  parseRoot : List UInt8 → Except String RootFile
  /-- `EncodingFile::parse`. -/
  parseEncoding : List UInt8 → Except String EncodingFile

/-- `CLIENT_LOCALE`, the flag of enUS. -/
def clientLocale : UInt32 := 0x2

/-- `LocaleFlags::has`. -/
def RootBlock.hasLocale (block : RootBlock) (locale : UInt32) : Bool :=
  block.localeFlags &&& locale != 0

/-- The blocks of the client's locale. -/
def RootFile.clientBlocks (root : RootFile) : List RootBlock :=
  root.blocks.filter fun block => block.hasLocale clientLocale

/-! ### The two maps -/

/-- `collect_fdid_to_content_keys`. -/
def collectFdidToContentKeys (root : RootFile) : AList fun _ : UInt32 => Key :=
  root.clientBlocks.foldl
    (fun fdidToCk block =>
      block.records.foldl (fun fdidToCk record => fdidToCk.insert record.fdid record.contentKey)
        fdidToCk)
    ∅

/-- `collect_content_to_encoding_keys`. -/
def collectContentToEncodingKeys (encoding : EncodingFile) : AList fun _ : Key => Key :=
  encoding.ckeyPages.foldl
    (fun ckToEk page =>
      page.entries.foldl
        (fun ckToEk entry =>
          -- an entry without encoding keys leaves an earlier one in place
          match entry.encodingKeys.head? with
          | some encodingKey => ckToEk.insert entry.contentKey encodingKey
          | none => ckToEk)
        ckToEk)
    ∅

/-- The records the client sees, in block order and then record order. -/
def clientRecords (root : RootFile) : List (UInt32 × Key) :=
  root.clientBlocks.flatMap fun block =>
    block.records.map fun record => (record.fdid, record.contentKey)

/-- The entries that have an encoding key, each with its first one. -/
def listedKeys (encoding : EncodingFile) : List (Key × Key) :=
  encoding.ckeyPages.flatMap fun page =>
    page.entries.filterMap fun entry =>
      entry.encodingKeys.head?.map fun encodingKey => (entry.contentKey, encodingKey)

theorem collectFdidToContentKeys_eq (root : RootFile) :
    collectFdidToContentKeys root = collect (clientRecords root) := by
  simp only [collectFdidToContentKeys, collect, clientRecords, List.foldl_flatMap, List.foldl_map]

theorem collectContentToEncodingKeys_eq (encoding : EncodingFile) :
    collectContentToEncodingKeys encoding = collect (listedKeys encoding) := by
  rw [collectContentToEncodingKeys, collect, listedKeys, List.foldl_flatMap]
  congr 1
  funext ckToEk page
  rw [List.foldl_filterMap]
  congr 1
  funext ckToEk entry
  cases entry.encodingKeys.head? <;> rfl

/-! ### Writing the table -/

/-- The operations of a build that may fail. -/
inductive BuildIo where
  /-- Reading `root.bin`. -/
  | readRoot : BuildIo
  /-- Reading `encoding.bin`. -/
  | readEncoding : BuildIo
  /-- Opening the database for writing. -/
  | connect : BuildIo
  /-- Opening the transaction and replacing the tables. -/
  | schema : BuildIo
  /-- Preparing the insertion. -/
  | prepare : BuildIo
  /-- Inserting the row of a file. -/
  | insert (fdid : UInt32) : BuildIo
  /-- The time of `root.bin`. -/
  | statRoot : BuildIo
  /-- The time of `encoding.bin`. -/
  | statEncoding : BuildIo
  /-- Inserting the metadata row. -/
  | metadata : BuildIo
  /-- Committing. -/
  | commit : BuildIo

/-- Which operations fail, and with what. -/
abbrev Faults := BuildIo → Option String

/-- An operation that may fail, and the text its failure is reported with. -/
def attempt (faults : Faults) (io : BuildIo) (text : String) : Except String Unit :=
  match faults io with
  | some e => .error s!"{text}: {e}"
  | none => .ok ()

/-- `read_cache_file`. -/
def readCacheFile (faults : Faults) (io : BuildIo) (path : PathBuf) (file : Option StoredFile) :
    Except String (List UInt8) := do
  attempt faults io path.display
  match file with
  | some file => .ok file.data
  | none => .error s!"{path.display}: {notFound}"

/-- `build_resolution_maps`. -/
def buildResolutionMaps (formats : MetadataFormats) (faults : Faults) (cascDir : PathBuf)
    (dir : NamespaceDir) :
    Except String ((AList fun _ : UInt32 => Key) × AList fun _ : Key => Key) := do
  let rootData ← readCacheFile faults .readRoot (namespacePath cascDir (.metadata .root)) dir.root
  let encData ←
    readCacheFile faults .readEncoding (namespacePath cascDir (.metadata .encoding)) dir.encoding
  let root ← (formats.parseRoot rootData).mapError fun e => s!"parse root.bin: {e}"
  let encoding ← (formats.parseEncoding encData).mapError fun e => s!"parse encoding.bin: {e}"
  return (collectFdidToContentKeys root, collectContentToEncodingKeys encoding)

/-- `open_resolution_cache` and `init_resolution_schema`: whatever tables there
are, the transaction goes on with two empty ones. -/
def initResolutionSchema (faults : Faults) (cascDir : PathBuf) (dir : NamespaceDir) :
    Except String Unit := do
  let path := namespacePath cascDir .database
  attempt faults .connect s!"open {path.display}"
  match dir.database.map fun _ => dir.contents with
  | some (.failing .opening e) => .error s!"open {path.display}: {e}"
  | some (.failing _ e) => .error s!"init resolution cache schema: {e}"
  | some .corrupt => .error "init resolution cache schema: file is not a database"
  | _ => attempt faults .schema "init resolution cache schema"

/-- One turn of the loop of `insert_resolution_rows`: the primary key may refuse
the row. -/
def insertResolutionRow (faults : Faults) (ckToEk : AList fun _ : Key => Key)
    (rows : List ResolutionRow) (entry : Sigma fun _ : UInt32 => Key) :
    Except String (List ResolutionRow) :=
  match ckToEk.lookup entry.2 with
  -- a content without an encoding key has no row
  | none => .ok rows
  | some encodingKey => do
    attempt faults (.insert entry.1) s!"insert resolution entry {entry.1}"
    if rows.any fun row => row.fdid = entry.1 then
      .error s!"insert resolution entry {entry.1}: UNIQUE constraint failed: resolution.fdid"
    else .ok (rows ++ [⟨entry.1, entry.2.bytes, encodingKey.bytes⟩])

/-- `insert_resolution_rows`, in the order in which the first map is visited. -/
def insertResolutionRows (order : IterationOrder (Sigma fun _ : UInt32 => Key)) (faults : Faults)
    (fdidToCk : AList fun _ : UInt32 => Key) (ckToEk : AList fun _ : Key => Key) :
    Except String (List ResolutionRow) := do
  attempt faults .prepare "prepare resolution insert"
  (order.arrange fdidToCk.entries).foldlM (insertResolutionRow faults ckToEk) []

/-- What a build leaves in the database. -/
def builtContents (rows : List ResolutionRow) (rootMtime encMtime : ℤ) : Contents :=
  .tables (some [⟨rootMtime, encMtime, resolutionSchemaVersion⟩]) (some rows)

/-- `build_resolution_cache`. -/
def buildResolutionCache (formats : MetadataFormats)
    (order : IterationOrder (Sigma fun _ : UInt32 => Key)) (faults : Faults) (cascDir : PathBuf)
    (dir : NamespaceDir) : Except String NamespaceDir := do
  let (fdidToCk, ckToEk) ← buildResolutionMaps formats faults cascDir dir
  initResolutionSchema faults cascDir dir
  let rows ← insertResolutionRows order faults fdidToCk ckToEk
  -- the files are statted after they were read
  let rootPath := namespacePath cascDir (.metadata .root)
  attempt faults .statRoot s!"stat {rootPath.display}"
  let rootMtime ← fileMtime rootPath dir.root
  let encPath := namespacePath cascDir (.metadata .encoding)
  attempt faults .statEncoding s!"stat {encPath.display}"
  let encMtime ← fileMtime encPath dir.encoding
  attempt faults .metadata "insert resolution metadata"
  attempt faults .commit "commit resolution cache"
  let built := builtContents rows rootMtime encMtime
  return { dir with database := some ⟨built, built⟩, journal := false, wal := false }

/-! ### What a successful build leaves -/

/-- The row of an entry of the first map, if the second one has its content. -/
def joinedRow (ckToEk : AList fun _ : Key => Key) (entry : Sigma fun _ : UInt32 => Key) :
    Option ResolutionRow :=
  (ckToEk.lookup entry.2).map fun encodingKey =>
    ⟨entry.1, entry.2.bytes, encodingKey.bytes⟩

/-- The rows of the join, in the order the first map is visited. -/
def resolutionRows (order : IterationOrder (Sigma fun _ : UInt32 => Key)) (root : RootFile)
    (encoding : EncodingFile) : List ResolutionRow :=
  (order.arrange (collectFdidToContentKeys root).entries).filterMap
    (joinedRow (collectContentToEncodingKeys encoding))

/-- The two metadata files of a directory, parsed. -/
structure ParsesTo (formats : MetadataFormats) (dir : NamespaceDir) (root : RootFile)
    (encoding : EncodingFile) : Prop where
  root : ∃ file, dir.root = some file ∧ formats.parseRoot file.data = .ok root
  encoding : ∃ file, dir.encoding = some file ∧ formats.parseEncoding file.data = .ok encoding

theorem readCacheFile_eq_ok {faults : Faults} {io : BuildIo} {path : PathBuf}
    {file : Option StoredFile} {data : List UInt8}
    (h : readCacheFile faults io path file = .ok data) :
    ∃ stored, file = some stored ∧ stored.data = data := by
  obtain ⟨-, -, h⟩ := Program.except_bind_eq_ok_iff.mp h
  cases file with
  | none => simp at h
  | some stored => exact ⟨stored, rfl, Except.ok.inj h⟩

theorem buildResolutionMaps_eq_ok {formats : MetadataFormats} {faults : Faults}
    {cascDir : PathBuf} {dir : NamespaceDir} {maps}
    (h : buildResolutionMaps formats faults cascDir dir = .ok maps) :
    ∃ root encoding, ParsesTo formats dir root encoding ∧
      maps = (collectFdidToContentKeys root, collectContentToEncodingKeys encoding) := by
  obtain ⟨rootData, hroot, h⟩ := Program.except_bind_eq_ok_iff.mp h
  obtain ⟨encData, henc, h⟩ := Program.except_bind_eq_ok_iff.mp h
  obtain ⟨root, hparseRoot, h⟩ := Program.except_bind_eq_ok_iff.mp h
  obtain ⟨encoding, hparseEnc, h⟩ := Program.except_bind_eq_ok_iff.mp h
  obtain ⟨rootFile, hrootFile, hrootData⟩ := readCacheFile_eq_ok hroot
  obtain ⟨encFile, hencFile, hencData⟩ := readCacheFile_eq_ok henc
  refine ⟨root, encoding, ⟨⟨rootFile, hrootFile, ?_⟩, ⟨encFile, hencFile, ?_⟩⟩, ?_⟩
  · rw [hrootData]
    exact Program.mapError_eq_ok_iff.mp hparseRoot
  · rw [hencData]
    exact Program.mapError_eq_ok_iff.mp hparseEnc
  · exact (Except.ok.inj h).symm

/-- An insertion that succeeds has appended the joined row, if there is one. -/
theorem insertResolutionRow_eq_ok {faults : Faults} {ckToEk : AList fun _ : Key => Key}
    {rows rows' : List ResolutionRow} {entry : Sigma fun _ : UInt32 => Key}
    (h : insertResolutionRow faults ckToEk rows entry = .ok rows') :
    rows' = rows ++ (joinedRow ckToEk entry).toList := by
  unfold insertResolutionRow at h
  unfold joinedRow
  cases hlookup : ckToEk.lookup entry.2 with
  | none =>
    rw [hlookup] at h
    simpa using (Except.ok.inj h).symm
  | some encodingKey =>
    rw [hlookup] at h
    obtain ⟨-, -, hrow⟩ := Program.except_bind_eq_ok_iff.mp h
    split_ifs at hrow
    exact (Except.ok.inj hrow).symm

/-- The insertions that succeed have inserted the join. -/
theorem insertResolutionRows_eq_ok {order : IterationOrder (Sigma fun _ : UInt32 => Key)}
    {faults : Faults} {root : RootFile} {encoding : EncodingFile} {rows : List ResolutionRow}
    (h : insertResolutionRows order faults (collectFdidToContentKeys root)
      (collectContentToEncodingKeys encoding) = .ok rows) :
    rows = resolutionRows order root encoding := by
  obtain ⟨-, -, h⟩ := Program.except_bind_eq_ok_iff.mp h
  -- from any rows on, the insertions append the join of what is still to be visited
  have hfold : ∀ (entries : List (Sigma fun _ : UInt32 => Key)) (before : List ResolutionRow),
      entries.foldlM (insertResolutionRow faults (collectContentToEncodingKeys encoding)) before =
        .ok rows →
      rows = before ++ entries.filterMap (joinedRow (collectContentToEncodingKeys encoding)) := by
    intro entries
    induction entries with
    | nil =>
      intro before hrows
      rw [List.filterMap_nil, List.append_nil]
      exact (Except.ok.inj hrows).symm
    | cons entry entries ih =>
      intro before hrows
      rw [List.foldlM_cons] at hrows
      obtain ⟨next, hnext, hrows⟩ := Program.except_bind_eq_ok_iff.mp hrows
      rw [ih next hrows, insertResolutionRow_eq_ok hnext, List.append_assoc, List.filterMap_cons]
      cases joinedRow (collectContentToEncodingKeys encoding) entry <;> rfl
  exact hfold _ [] h

/-- **A build that succeeds replaces the tables by the join** of the metadata files
it found, and leaves no sidecar. -/
theorem buildResolutionCache_eq_ok {formats : MetadataFormats}
    {order : IterationOrder (Sigma fun _ : UInt32 => Key)} {faults : Faults} {cascDir : PathBuf}
    {dir dir' : NamespaceDir}
    (h : buildResolutionCache formats order faults cascDir dir = .ok dir') :
    ∃ root encoding rootMtime encMtime, ParsesTo formats dir root encoding ∧
      dir' = { dir with
        database := some ⟨builtContents (resolutionRows order root encoding) rootMtime encMtime,
          builtContents (resolutionRows order root encoding) rootMtime encMtime⟩
        journal := false
        wal := false } := by
  obtain ⟨maps, hmaps, h⟩ := Program.except_bind_eq_ok_iff.mp h
  obtain ⟨root, encoding, hparse, rfl⟩ := buildResolutionMaps_eq_ok hmaps
  obtain ⟨-, -, h⟩ := Program.except_bind_eq_ok_iff.mp h
  obtain ⟨rows, hrows, h⟩ := Program.except_bind_eq_ok_iff.mp h
  obtain ⟨-, -, h⟩ := Program.except_bind_eq_ok_iff.mp h
  obtain ⟨rootMtime, -, h⟩ := Program.except_bind_eq_ok_iff.mp h
  obtain ⟨-, -, h⟩ := Program.except_bind_eq_ok_iff.mp h
  obtain ⟨encMtime, -, h⟩ := Program.except_bind_eq_ok_iff.mp h
  obtain ⟨-, -, h⟩ := Program.except_bind_eq_ok_iff.mp h
  obtain ⟨-, -, h⟩ := Program.except_bind_eq_ok_iff.mp h
  refine ⟨root, encoding, rootMtime, encMtime, hparse, ?_⟩
  rw [← insertResolutionRows_eq_ok hrows]
  exact (Except.ok.inj h).symm

/-! ### What the table answers -/

/-- The rows are the triples of the two maps, in either spelling. -/
theorem mem_resolutionRows {order : IterationOrder (Sigma fun _ : UInt32 => Key)} {root : RootFile}
    {encoding : EncodingFile} {row : ResolutionRow} :
    row ∈ resolutionRows order root encoding ↔
      ∃ ck ek, IsLast (clientRecords root) row.fdid ck ∧ IsLast (listedKeys encoding) ck ek ∧
        row.contentKey = ck.bytes ∧ row.encodingKey = ek.bytes := by
  simp only [← lookup_collect, ← collectFdidToContentKeys_eq, ← collectContentToEncodingKeys_eq]
  rw [resolutionRows, List.mem_filterMap]
  constructor
  · rintro ⟨⟨fdid, ck⟩, hmem, hrow⟩
    obtain ⟨ek, hek, rfl⟩ := Option.map_eq_some_iff.mp hrow
    exact ⟨ck, ek, mem_arrange_entries.mp hmem, hek, rfl, rfl⟩
  · rintro ⟨ck, ek, hck, hek, hrowCk, hrowEk⟩
    refine ⟨⟨row.fdid, ck⟩, mem_arrange_entries.mpr hck, ?_⟩
    rw [joinedRow, hek, Option.map_some, ← hrowCk, ← hrowEk]

/-- A file has at most one row. -/
theorem resolutionRows_unique {order : IterationOrder (Sigma fun _ : UInt32 => Key)}
    {root : RootFile} {encoding : EncodingFile} :
    ∀ a ∈ resolutionRows order root encoding, ∀ b ∈ resolutionRows order root encoding,
      a.fdid = b.fdid → a = b := by
  intro a ha b hb hfdid
  obtain ⟨ck, ek, hck, hek, hack, haek⟩ := mem_resolutionRows.mp ha
  obtain ⟨ck', ek', hck', hek', hbck, hbek⟩ := mem_resolutionRows.mp hb
  rw [← hfdid] at hck'
  obtain rfl := hck.unique hck'
  obtain rfl := hek.unique hek'
  cases a
  cases b
  simp_all

/-- **What a built table answers**: the last record for the file, and the last
entry for its content. -/
theorem resolveFdid_builtContents_iff {order : IterationOrder (Sigma fun _ : UInt32 => Key)}
    {root : RootFile} {encoding : EncodingFile} {rootMtime encMtime : ℤ} {fdid : UInt32}
    {ck ek : Key} :
    resolveFdid (builtContents (resolutionRows order root encoding) rootMtime encMtime) fdid =
        some (ck, ek) ↔
      IsLast (clientRecords root) fdid ck ∧ IsLast (listedKeys encoding) ck ek := by
  unfold resolveFdid builtContents
  constructor
  · intro h
    obtain ⟨row, hfind, hkeys⟩ := Option.bind_eq_some_iff.mp h
    obtain ⟨hmem, hfdid⟩ := (KeyedTable.find?_eq_some_iff_mem resolutionRows_unique).mp hfind
    obtain ⟨ck', ek', hck, hek, hrowCk, hrowEk⟩ := mem_resolutionRows.mp hmem
    rw [hrowCk, hrowEk, Key.tryFrom_bytes, Key.tryFrom_bytes] at hkeys
    cases hkeys
    rw [← hfdid]
    exact ⟨hck, hek⟩
  · rintro ⟨hck, hek⟩
    have hmem : (⟨fdid, ck.bytes, ek.bytes⟩ : ResolutionRow) ∈
        resolutionRows order root encoding :=
      mem_resolutionRows.mpr ⟨ck, ek, hck, hek, rfl, rfl⟩
    have hfind :=
      (KeyedTable.find?_eq_some_iff_mem (k := fdid) resolutionRows_unique).mpr ⟨hmem, rfl⟩
    simp [hfind]

/-- A value that is returned whatever the result that is passed over. -/
theorem eq_of_map_const_eq_ok {ε α β : Type} {r : Except ε α} {b c : β}
    (h : (r.map fun _ => b) = .ok c) : b = c := by
  cases r with
  | error e => cases h
  | ok a => exact Except.ok.inj h

/-- Opening a built directory gives what the build left in it. -/
theorem openResolution_eq_ok {cascDir : PathBuf} {dir : NamespaceDir} {cache : Contents}
    (h : (openResolution cascDir).run (dirAnswer cascDir (some dir)) = .ok cache) :
    cache = dir.contents := by
  simp only [openResolution, Program.run_ask, Program.run_ite] at h
  split_ifs at h
  · simp at h
  · split at h
    · simp at h
    · simp only [Program.run_ask] at h
      split at h
      · simp at h
      · simp only [Program.run_ask] at h
        split at h
        · simp at h
        · simp at h
        · exact (eq_of_map_const_eq_ok h).symm

/-- A table built from the metadata of a directory and opened again. -/
def Built (formats : MetadataFormats) (order : IterationOrder (Sigma fun _ : UInt32 => Key))
    (faults : Faults) (cascDir : PathBuf) (dir : NamespaceDir) (cache : Contents) : Prop :=
  ∃ dir', buildResolutionCache formats order faults cascDir dir = .ok dir' ∧
    (openResolution cascDir).run (dirAnswer cascDir (some dir')) = .ok cache

/-- A built table is the join of the metadata it was built from. -/
theorem Built.contents_eq {formats : MetadataFormats}
    {order : IterationOrder (Sigma fun _ : UInt32 => Key)} {faults : Faults} {cascDir : PathBuf}
    {dir : NamespaceDir} {cache : Contents} (h : Built formats order faults cascDir dir cache) :
    ∃ root encoding rootMtime encMtime, ParsesTo formats dir root encoding ∧
      cache = builtContents (resolutionRows order root encoding) rootMtime encMtime := by
  obtain ⟨dir', hbuild, hopen⟩ := h
  obtain ⟨root, encoding, rootMtime, encMtime, hparse, rfl⟩ := buildResolutionCache_eq_ok hbuild
  exact ⟨root, encoding, rootMtime, encMtime, hparse, openResolution_eq_ok hopen⟩

/-- What a directory parses to is determined. -/
theorem ParsesTo.unique {formats : MetadataFormats} {dir : NamespaceDir} {root root' : RootFile}
    {encoding encoding' : EncodingFile} (h : ParsesTo formats dir root encoding)
    (h' : ParsesTo formats dir root' encoding') : root = root' ∧ encoding = encoding' := by
  obtain ⟨⟨r, hr, hroot⟩, e, he, henc⟩ := h
  obtain ⟨⟨r', hr', hroot'⟩, e', he', henc'⟩ := h'
  rw [hr] at hr'
  rw [he] at he'
  cases hr'
  cases he'
  exact ⟨Except.ok.inj (hroot.symm.trans hroot'), Except.ok.inj (henc.symm.trans henc')⟩

/-- **The resolution table is its specification.** A file resolves to the content
of its last record among the client's blocks and to the first key of the last
entry that lists one for it, whatever the tables held before and in whatever
order the map was visited; and a second root file with the same client blocks
answers every file alike. -/
theorem resolveFdid_of_built {formats : MetadataFormats}
    {order : IterationOrder (Sigma fun _ : UInt32 => Key)} {faults : Faults} {cascDir : PathBuf}
    {dir : NamespaceDir} {root : RootFile} {encoding : EncodingFile} {cache : Contents}
    (hparse : ParsesTo formats dir root encoding)
    (hbuilt : Built formats order faults cascDir dir cache) :
    (∀ fdid ck ek, resolveFdid cache fdid = some (ck, ek) ↔
      IsLast (clientRecords root) fdid ck ∧ IsLast (listedKeys encoding) ck ek) ∧
    ∀ order' faults' cascDir' dir' root' cache', ParsesTo formats dir' root' encoding →
      Built formats order' faults' cascDir' dir' cache' →
      root'.clientBlocks = root.clientBlocks →
      ∀ fdid, resolveFdid cache' fdid = resolveFdid cache fdid := by
  have hanswer : ∀ {order : IterationOrder (Sigma fun _ : UInt32 => Key)} {faults : Faults}
      {cascDir : PathBuf} {dir : NamespaceDir} {root : RootFile} {cache : Contents},
      ParsesTo formats dir root encoding → Built formats order faults cascDir dir cache →
      ∀ fdid ck ek, resolveFdid cache fdid = some (ck, ek) ↔
        IsLast (clientRecords root) fdid ck ∧ IsLast (listedKeys encoding) ck ek := by
    intro order faults cascDir dir root cache hparse hbuilt fdid ck ek
    obtain ⟨root', encoding', rootMtime, encMtime, hparse', rfl⟩ := hbuilt.contents_eq
    obtain ⟨rfl, rfl⟩ := hparse.unique hparse'
    exact resolveFdid_builtContents_iff
  refine ⟨hanswer hparse hbuilt, ?_⟩
  intro order' faults' cascDir' dir' root' cache' hparse' hbuilt' hblocks fdid
  have hrecords : clientRecords root' = clientRecords root := by
    rw [clientRecords, hblocks, clientRecords]
  refine Option.ext fun keys => ?_
  obtain ⟨ck, ek⟩ := keys
  rw [hanswer hparse' hbuilt', hanswer hparse hbuilt, hrecords]

/-! ### A sample build -/

/-- The key whose 16 bytes are all `b`. -/
def Key.constant (b : UInt8) : Key := ⟨List.replicate 16 b, rfl⟩

/-- A root file without a header: one enUS block, with one record. -/
def sampleRootBytes : List UInt8 :=
  [1, 0, 0, 0, 0, 0, 0, 0, 2, 0, 0, 0, 1, 0, 0, 0] ++ (Key.constant 0x11).bytes ++
    List.replicate 8 0

/-- What it parses to. -/
def sampleRoot : RootFile := ⟨[⟨2, [⟨1, Key.constant 0x11⟩]⟩]⟩

/-- The content key of the sample root file. -/
def sampleRootKey : Key :=
  ⟨[0xf0, 0x9b, 0x2f, 0x56, 0xd6, 0xa8, 0xf1, 0x00, 0xe5, 0x3b, 0xfb, 0x26, 0xb5, 0x26, 0x0d, 0xc4],
    rfl⟩

/-- An encoding file of one content-key page, which lists the record and the root
file, and one empty encoding-key page. -/
def sampleEncodingBytes : List UInt8 :=
  [0x45, 0x4e, 1, 16, 16, 0, 1, 0, 0, 0, 0, 0, 1, 0, 0, 0, 1, 0, 0, 0, 0, 2, 0x6e, 0] ++
    (Key.constant 0x11).bytes ++
    [0x22, 0xc0, 0x87, 0x02, 0xf4, 0xf9, 0xd7, 0xa8, 0xd6, 0xfb, 0xdf, 0x5d, 0xdd, 0xb8, 0x45,
      0xa2] ++
    [1, 0, 0, 0, 0, 5] ++ (Key.constant 0x11).bytes ++ (Key.constant 0x33).bytes ++
    [1, 0, 0, 0, 0, 40] ++ sampleRootKey.bytes ++ (Key.constant 0x22).bytes ++
    List.replicate 948 0 ++ List.replicate 16 0 ++
    [0xd4, 0x1d, 0x8c, 0xd9, 0x8f, 0x00, 0xb2, 0x04, 0xe9, 0x80, 0x09, 0x98, 0xec, 0xf8, 0x42, 0x7e]

/-- What it parses to. -/
def sampleEncoding : EncodingFile :=
  ⟨[⟨[⟨Key.constant 0x11, [Key.constant 0x33]⟩, ⟨sampleRootKey, [Key.constant 0x22]⟩]⟩]⟩

/-- Parsers that read the two sample files. -/
def sampleFormats : MetadataFormats where
  parseRoot data :=
    if data = sampleRootBytes then .ok sampleRoot else .error "failed to fill whole buffer"
  parseEncoding data :=
    if data = sampleEncodingBytes then .ok sampleEncoding else .error "failed to fill whole buffer"

/-- A directory that holds the sample metadata, of this database. -/
def sampleDir (database : Option Database) : NamespaceDir where
  root := some ⟨sampleRootBytes, 10⟩
  encoding := some ⟨sampleEncodingBytes, 10⟩
  database := database
  journal := false
  wal := false

/-- The contents a build of the sample leaves. -/
def sampleContents : Contents :=
  builtContents [⟨1, (Key.constant 0x11).bytes, (Key.constant 0x33).bytes⟩] 10 10

theorem buildResolutionCache_sampleDir (cascDir : PathBuf) :
    buildResolutionCache sampleFormats (.standing _) (fun _ => none) cascDir (sampleDir none) =
      .ok (sampleDir (some ⟨sampleContents, sampleContents⟩)) := by
  have hmaps : buildResolutionMaps sampleFormats (fun _ => none) cascDir (sampleDir none) =
      .ok (collectFdidToContentKeys sampleRoot, collectContentToEncodingKeys sampleEncoding) := by
    simp [buildResolutionMaps, readCacheFile, attempt, sampleDir, sampleFormats, Except.mapError,
      bind, Except.bind, pure, Except.pure]
  rw [buildResolutionCache, hmaps]
  rfl

/-! ### A file with three records -/

/-- Three blocks of a root file: file 1 stands in all of them, and the last is for other
clients. -/
def severalRootBytes : List UInt8 :=
  [2, 0, 0, 0, 0, 0, 0, 0, 2, 0, 0, 0, 1, 0, 0, 0, 0, 0, 0, 0] ++
    (Key.constant 0x11).bytes ++ List.replicate 8 0 ++
    (Key.constant 0x44).bytes ++ List.replicate 8 0 ++
  [1, 0, 0, 0, 0, 0, 0, 0, 2, 0, 0, 0, 1, 0, 0, 0] ++
    (Key.constant 0x55).bytes ++ List.replicate 8 0 ++
  [1, 0, 0, 0, 0, 0, 0, 0, 4, 0, 0, 0, 1, 0, 0, 0] ++
    (Key.constant 0x77).bytes ++ List.replicate 8 0

/-- What they parse to. -/
def severalRoot : RootFile where
  blocks := [⟨2, [⟨1, Key.constant 0x11⟩, ⟨2, Key.constant 0x44⟩]⟩,
    ⟨2, [⟨1, Key.constant 0x55⟩]⟩, ⟨4, [⟨1, Key.constant 0x77⟩]⟩]

/-- An encoding file that lists one content key twice. -/
def severalEncodingBytes : List UInt8 :=
  [0x45, 0x4e, 1, 16, 16, 0, 1, 0, 0, 0, 0, 0, 1, 0, 0, 0, 1, 0, 0, 0, 0, 2, 0x6e, 0] ++
    (Key.constant 0x55).bytes ++
    [0xbd, 0x47, 0x9d, 0x46, 0x2a, 0x5b, 0x5e, 0xbd, 0x0a, 0x4e, 0x44, 0x20, 0x49, 0x23, 0x7d,
      0x65] ++
    [1, 0, 0, 0, 0, 5] ++ (Key.constant 0x55).bytes ++ (Key.constant 0x33).bytes ++
    [1, 0, 0, 0, 0, 5] ++ (Key.constant 0x55).bytes ++ (Key.constant 0x66).bytes ++
    List.replicate 948 0 ++ List.replicate 16 0 ++
    [0xd4, 0x1d, 0x8c, 0xd9, 0x8f, 0x00, 0xb2, 0x04, 0xe9, 0x80, 0x09, 0x98, 0xec, 0xf8, 0x42, 0x7e]

/-- What it parses to. -/
def severalEncoding : EncodingFile :=
  ⟨[⟨[⟨Key.constant 0x55, [Key.constant 0x33]⟩, ⟨Key.constant 0x55, [Key.constant 0x66]⟩]⟩]⟩

/-- Parsers that read the two files. -/
def severalFormats : MetadataFormats where
  parseRoot data :=
    if data = severalRootBytes then .ok severalRoot else .error "failed to fill whole buffer"
  parseEncoding data :=
    if data = severalEncodingBytes then .ok severalEncoding
    else .error "failed to fill whole buffer"

/-- What an older build has in the tables. -/
def oldContents : Contents :=
  .tables (some [⟨3, 3, resolutionSchemaVersion⟩])
    (some [⟨1, (Key.constant 0x99).bytes, (Key.constant 0x99).bytes⟩,
      ⟨9, (Key.constant 0x99).bytes, (Key.constant 0x99).bytes⟩])

/-- The directory with these files and the old tables. -/
def severalDir : NamespaceDir where
  root := some ⟨severalRootBytes, 10⟩
  encoding := some ⟨severalEncodingBytes, 20⟩
  database := some ⟨oldContents, oldContents⟩
  journal := false
  wal := false

/-- What the new build leaves in them. -/
def severalContents : Contents :=
  builtContents [⟨1, (Key.constant 0x55).bytes, (Key.constant 0x66).bytes⟩] 10 20

theorem parsesTo_severalDir :
    ParsesTo severalFormats severalDir severalRoot severalEncoding :=
  ⟨⟨⟨severalRootBytes, 10⟩, rfl, by simp [severalFormats]⟩,
    ⟨⟨severalEncodingBytes, 20⟩, rfl, by simp [severalFormats]⟩⟩

theorem built_severalDir :
    Built severalFormats (.standing _) (fun _ => none) (.ofStr "/c") severalDir
      severalContents := by
  have hmaps : buildResolutionMaps severalFormats (fun _ => none) (.ofStr "/c") severalDir =
      .ok (collectFdidToContentKeys severalRoot,
        collectContentToEncodingKeys severalEncoding) := by
    simp [buildResolutionMaps, readCacheFile, attempt, severalDir, severalFormats,
      Except.mapError, bind, Except.bind, pure, Except.pure]
  refine ⟨{ severalDir with database := some ⟨severalContents, severalContents⟩ }, ?_, rfl⟩
  rw [buildResolutionCache, hmaps]
  rfl

/-- File 1 resolves to its last record for this client and to the key that is listed last; what
the old tables said is gone. -/
theorem resolveFdid_of_built_sample :
    resolveFdid severalContents 1 = some (Key.constant 0x55, Key.constant 0x66) ∧
    resolveFdid severalContents 9 = none ∧
    (∀ fdid ck ek, resolveFdid severalContents fdid = some (ck, ek) ↔
      IsLast (clientRecords severalRoot) fdid ck ∧
        IsLast (listedKeys severalEncoding) ck ek) ∧
    ∀ order' faults' cascDir' dir' root' cache',
      ParsesTo severalFormats dir' root' severalEncoding →
      Built severalFormats order' faults' cascDir' dir' cache' →
      root'.clientBlocks = severalRoot.clientBlocks →
      ∀ fdid, resolveFdid cache' fdid = resolveFdid severalContents fdid :=
  ⟨by decide, by decide, resolveFdid_of_built parsesTo_severalDir built_severalDir⟩

end AssetResolver
