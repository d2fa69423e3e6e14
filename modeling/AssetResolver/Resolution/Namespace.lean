import AssetResolver.Paths
import AssetResolver.Library.Programs

/-!
# Judging a resolution namespace

The directory `casc/<product>/<build key>/schema-<n>` of `casc_cache.rs`: the two
metadata files, the SQLite database built from them, and whatever sidecars a
killed builder left beside it.

What matters about the database is that there are **two ways to read it**. SQLite
reads it together with its sidecars: with a rollback journal or a WAL beside it
the pages of the file are not the contents
(`AssetResolver.NamespaceDir.contents`). `resolution_cache_is_fresh` therefore
refuses a directory with a sidecar, and reads the bare file otherwise.

A judgement is a program of file-system questions (`AssetResolver.DirQuery`), so
that it may be answered question by question while others change the directory.
`AssetResolver.resolutionCacheIsFresh_run` says what it comes to when they do not:
the directory is `AssetResolver.NamespaceDir.Fresh`. A fresh directory is also one
`CascResolutionCache::open` accepts (`AssetResolver.openResolution_run`).
-/

namespace AssetResolver

/-! ### Keys -/

/-- The 16 bytes of a content key or an encoding key. -/
structure Key where
  /-- The bytes. -/
  bytes : List UInt8
  length_eq : bytes.length = 16
  deriving DecidableEq

/-- A key from bytes whose number is not known. -/
def Key.tryFrom (bytes : List UInt8) : Option Key :=
  if h : bytes.length = 16 then some ⟨bytes, h⟩ else none

@[simp] theorem Key.tryFrom_bytes (k : Key) : Key.tryFrom k.bytes = some k := by
  rw [Key.tryFrom, dif_pos k.length_eq]

/-! ### The contents of a database -/

/-- A row of the `metadata` table. -/
structure MetadataRow where
  /-- The time of `root.bin` when the table was built. -/
  rootMtime : ℤ
  /-- The time of `encoding.bin` when the table was built. -/
  encMtime : ℤ
  /-- The schema the table was built for. -/
  schemaVersion : ℤ
  deriving DecidableEq

/-- A row of the `resolution` table. -/
structure ResolutionRow where
  /-- The primary key. -/
  fdid : UInt32
  /-- A blob, of any length. -/
  contentKey : List UInt8
  /-- A blob, of any length. -/
  encodingKey : List UInt8
  deriving DecidableEq

/-- Where SQLite may fail. -/
inductive SqliteStage where
  /-- Opening the file. -/
  | opening : SqliteStage
  /-- Preparing a statement. -/
  | preparing : SqliteStage
  /-- Running it. -/
  | querying : SqliteStage
  deriving DecidableEq

/-- What a connection finds. -/
inductive Contents where
  /-- A database with or without the two tables. -/
  | tables (metadata : Option (List MetadataRow)) (resolution : Option (List ResolutionRow)) :
      Contents
  /-- A file that is no database, or a corrupt one. -/
  | corrupt : Contents
  /-- Any other failure. -/
  | failing (stage : SqliteStage) (e : String) : Contents
  deriving DecidableEq

/-- `cache_is_fresh`: the first metadata row names the two times and the schema. -/
def cacheIsFresh (cachePath : PathBuf) (contents : Contents) (rootMtime encMtime : ℤ) :
    Except String Bool :=
  match contents with
  | .tables none _ => .ok false
  | .tables (some []) _ => .ok false
  | .tables (some (row :: _)) _ =>
    .ok (row.rootMtime = rootMtime && row.encMtime = encMtime &&
      row.schemaVersion = resolutionSchemaVersion)
  | .corrupt => .ok false
  | .failing .opening e => .error s!"open {cachePath.display}: {e}"
  | .failing .preparing e => .error s!"prepare metadata query: {e}"
  | .failing .querying e => .error s!"query metadata: {e}"

/-- The contents were built from files of these times, for this schema. -/
def Contents.Current (contents : Contents) (rootMtime encMtime : ℤ) : Prop :=
  ∃ rows resolution,
    contents = .tables (some (⟨rootMtime, encMtime, resolutionSchemaVersion⟩ :: rows)) resolution

theorem cacheIsFresh_eq_true_iff (cachePath : PathBuf) {contents : Contents} {r e : ℤ} :
    cacheIsFresh cachePath contents r e = .ok true ↔ contents.Current r e := by
  constructor
  · intro h
    unfold cacheIsFresh at h
    split at h
    · simp at h
    · simp at h
    · next row rows resolution =>
      obtain ⟨⟨h₁, h₂⟩, h₃⟩ : (row.rootMtime = r ∧ row.encMtime = e) ∧
          row.schemaVersion = resolutionSchemaVersion := by simpa using h
      exact ⟨rows, resolution, by rw [← h₁, ← h₂, ← h₃]⟩
    · simp at h
    · simp at h
    · simp at h
    · simp at h
  · rintro ⟨rows, resolution, rfl⟩
    simp [cacheIsFresh]

/-! ### The directory -/

/-- The two metadata files of a build. -/
inductive MetadataFile where
  /-- `root.bin`. -/
  | root : MetadataFile
  /-- `encoding.bin`. -/
  | encoding : MetadataFile
  deriving DecidableEq

/-- The files of a namespace. -/
inductive FileKind where
  /-- One of the two metadata files. -/
  | metadata (file : MetadataFile) : FileKind
  /-- `resolution.sqlite`. -/
  | database : FileKind
  /-- The rollback journal beside it. -/
  | journal : FileKind
  /-- The write-ahead log beside it. -/
  | wal : FileKind
  deriving DecidableEq

/-- The name of a file, as `resolution_paths` and `with_extension` build it. -/
def FileKind.fileName : FileKind → String
  | .metadata .root => "root.bin"
  | .metadata .encoding => "encoding.bin"
  | .database => "resolution.sqlite"
  | .journal => "resolution.sqlite-journal"
  | .wal => "resolution.sqlite-wal"

/-- A metadata file: its bytes and its modification time in seconds of the epoch. -/
structure StoredFile where
  /-- The bytes. -/
  data : List UInt8
  /-- The modification time, negative before the epoch. -/
  mtime : ℤ
  deriving DecidableEq

/-- A database file. -/
structure Database where
  /-- What the file says on its own. -/
  bare : Contents
  /-- What it says together with the sidecars beside it. -/
  recovered : Contents
  deriving DecidableEq

/-- A namespace directory. -/
structure NamespaceDir where
  /-- `root.bin`. -/
  root : Option StoredFile
  /-- `encoding.bin`. -/
  encoding : Option StoredFile
  /-- `resolution.sqlite`. -/
  database : Option Database
  /-- The database has a rollback journal. -/
  journal : Bool
  /-- The database has a write-ahead log. -/
  wal : Bool
  deriving DecidableEq

namespace NamespaceDir

/-- An empty directory. -/
def empty : NamespaceDir := ⟨none, none, none, false, false⟩

/-- A metadata file of the directory. -/
def file (d : NamespaceDir) : MetadataFile → Option StoredFile
  | .root => d.root
  | .encoding => d.encoding

/-- A file of the directory is there. -/
def has (d : NamespaceDir) : FileKind → Bool
  | .metadata f => (d.file f).isSome
  | .database => d.database.isSome
  | .journal => d.journal
  | .wal => d.wal

/-- The directory without a file. -/
def erase (d : NamespaceDir) : FileKind → NamespaceDir
  | .metadata .root => { d with root := none }
  | .metadata .encoding => { d with encoding := none }
  | .database => { d with database := none }
  | .journal => { d with journal := false }
  | .wal => { d with wal := false }

theorem erase_of_not_has {d : NamespaceDir} {f : FileKind} (h : ¬ d.has f) : d.erase f = d := by
  obtain ⟨root, encoding, database, journal, wal⟩ := d
  rcases f with (_ | _) | _ | _ | _
  all_goals simp_all [has, file, erase]

/-- The files a directory may have. -/
def files : List FileKind := [.metadata .root, .metadata .encoding, .database, .journal, .wal]

/-- Removing file after file leaves the empty directory. -/
theorem erase_files (d : NamespaceDir) : files.foldl erase d = empty := rfl

/-- A sidecar is there. -/
def hasSidecar (d : NamespaceDir) : Bool := d.journal || d.wal

/-- What a connection to the database finds. -/
def contents (d : NamespaceDir) : Contents :=
  match d.database with
  | none => .failing .opening "unable to open database file"
  | some db => if d.hasSidecar then db.recovered else db.bare

/-- **A directory that is judged complete**: no sidecar, and contents built from
the very files that are there. -/
structure Fresh (d : NamespaceDir) : Prop where
  sidecar : d.hasSidecar = false
  database : d.database.isSome
  current : ∃ r e, d.root = some r ∧ d.encoding = some e ∧ 0 ≤ r.mtime ∧ 0 ≤ e.mtime ∧
    d.contents.Current r.mtime e.mtime

end NamespaceDir

/-! ### Questions about a directory -/

/-- What the file system says about a file that is not there. -/
def notFound : String := "No such file or directory (os error 2)"

/-- `file_mtime`. -/
def fileMtime (path : PathBuf) : Option StoredFile → Except String ℤ
  | none => .error s!"stat {path.display}: {notFound}"
  | some f =>
    if 0 ≤ f.mtime then .ok f.mtime
    else .error s!"mtime epoch {path.display}: second time provided was later than self"

theorem fileMtime_eq_ok_iff {path : PathBuf} {f : Option StoredFile} {m : ℤ} :
    fileMtime path f = .ok m ↔ ∃ s, f = some s ∧ 0 ≤ s.mtime ∧ s.mtime = m := by
  unfold fileMtime
  split
  · simp
  · next s =>
    split_ifs with h
    · simp [h]
    · simp [h]

/-- A question of a reader. -/
inductive DirQuery where
  /-- `Path::exists`. -/
  | pathExists (f : FileKind) : DirQuery
  /-- `file_mtime`. -/
  | mtime (f : MetadataFile) : DirQuery
  /-- What a read-only connection finds. -/
  | connect : DirQuery

/-- What an answer is. -/
@[reducible] def DirQuery.Answer : DirQuery → Type
  | .pathExists _ => Bool
  | .mtime _ => Except String ℤ
  | .connect => Contents

/-- A reader of a directory. -/
abbrev DirProgram := Program DirQuery DirQuery.Answer

/-- The answers of a directory that may be absent. -/
def dirAnswer (cascDir : PathBuf) (d : Option NamespaceDir) : (q : DirQuery) → q.Answer
  | .pathExists f => (d.map fun d => d.has f).getD false
  | .mtime f =>
    fileMtime (cascDir.join (.ofStr (FileKind.metadata f).fileName)) (d.bind fun d => d.file f)
  | .connect => (d.getD .empty).contents

/-- The path of a file of the namespace. -/
def namespacePath (cascDir : PathBuf) (f : FileKind) : PathBuf := cascDir.join (.ofStr f.fileName)

/-- `resolution_cache_is_fresh`. -/
def resolutionCacheIsFresh (cascDir : PathBuf) : DirProgram (Except String Bool) :=
  .ask (.pathExists .database) fun (cache : Bool) =>
  if cache = false then .ret (.ok false) else
  -- a sidecar means that the file on its own is not what the database contains
  .ask (.pathExists .journal) fun (journal : Bool) =>
  if journal = true then .ret (.ok false) else
  .ask (.pathExists .wal) fun (wal : Bool) =>
  if wal = true then .ret (.ok false) else
  -- a metadata file that cannot be statted is no error here, other than in `open`
  .ask (.mtime .root) fun (root : Except String ℤ) =>
  match root with
  | .error _ => .ret (.ok false)
  | .ok rootMtime =>
    .ask (.mtime .encoding) fun (enc : Except String ℤ) =>
    match enc with
    | .error _ => .ret (.ok false)
    | .ok encMtime =>
      .ask .connect fun (contents : Contents) =>
      .ret (cacheIsFresh (namespacePath cascDir .database) contents rootMtime encMtime)

/-- The row count `open` asks for, which only a database with the table answers. -/
def countEntries (cachePath : PathBuf) : Contents → Except String ℕ
  | .tables _ (some rows) => .ok rows.length
  | .tables _ none => .error "count resolution entries: no such table: resolution"
  | .corrupt => .error "count resolution entries: file is not a database"
  | .failing .opening e => .error s!"open {cachePath.display}: {e}"
  | .failing _ e => .error s!"count resolution entries: {e}"

/-- `CascResolutionCache::open`. The cache is what its connection finds. -/
def openResolution (cascDir : PathBuf) : DirProgram (Except String Contents) :=
  .ask (.pathExists .database) fun (cache : Bool) =>
  if cache = false then
    .ret (.error
      s!"{(namespacePath cascDir .database).display} not found (run `casc_refresh` to build it)")
  else
  .ask (.mtime .root) fun (root : Except String ℤ) =>
  match root with
  | .error e => .ret (.error e)
  | .ok rootMtime =>
    .ask (.mtime .encoding) fun (enc : Except String ℤ) =>
    match enc with
    | .error e => .ret (.error e)
    | .ok encMtime =>
      .ask .connect fun (found : Contents) =>
      match cacheIsFresh (namespacePath cascDir .database) found rootMtime encMtime with
      | .error e => .ret (.error e)
      | .ok false =>
        .ret (.error (s!"{(namespacePath cascDir .database).display} is stale " ++
          "(run `casc_refresh` to rebuild it)"))
      | .ok true =>
        -- a second connection, which the cache keeps
        .ask .connect fun (contents : Contents) =>
        .ret ((countEntries (namespacePath cascDir .database) contents).map fun _ => contents)

/-- `CascResolutionCache::resolve_fdid`, on what the connection finds: a row whose
blobs are not 16 bytes long is none. -/
def resolveFdid (contents : Contents) (fdid : UInt32) : Option (Key × Key) :=
  match contents with
  | .tables _ (some rows) =>
    (rows.find? fun row => row.fdid = fdid).bind fun row =>
      (Key.tryFrom row.contentKey).bind fun ck =>
        (Key.tryFrom row.encodingKey).map fun ek => (ck, ek)
  | _ => none

/-! ### A directory that does not change -/

/-- **The judgement says that the directory is there and fresh.** -/
theorem resolutionCacheIsFresh_run (cascDir : PathBuf) (d : Option NamespaceDir) :
    (resolutionCacheIsFresh cascDir).run (dirAnswer cascDir d) = .ok true ↔
      ∃ dir, d = some dir ∧ dir.Fresh := by
  cases d with
  | none => simp [resolutionCacheIsFresh, dirAnswer]
  | some dir =>
    obtain ⟨root, encoding, database, journal, wal⟩ := dir
    have hsome : ∀ P : NamespaceDir → Prop,
        (∃ dir, some (⟨root, encoding, database, journal, wal⟩ : NamespaceDir) = some dir ∧ P dir) ↔
          P ⟨root, encoding, database, journal, wal⟩ := fun P => by simp
    rw [hsome]
    constructor
    · intro h
      simp only [resolutionCacheIsFresh, Program.run_ask, Program.run_ite, Program.run_ret] at h
      split_ifs at h with h₁ h₂ h₃
      · simp at h
      · simp at h
      · simp at h
      · split at h
        · simp at h
        · next r hr =>
          simp only [Program.run_ask] at h
          split at h
          · simp at h
          · next e he =>
            obtain ⟨rf, hroot, hr0, rfl⟩ := fileMtime_eq_ok_iff.mp hr
            obtain ⟨ef, henc, he0, rfl⟩ := fileMtime_eq_ok_iff.mp he
            have hside : journal = false ∧ wal = false := by
              simpa [dirAnswer, NamespaceDir.has] using And.intro h₂ h₃
            have hdb : database.isSome := eq_true_of_ne_false h₁
            exact ⟨by simp [NamespaceDir.hasSidecar, hside], hdb, rf, ef, hroot, henc, hr0, he0,
              (cacheIsFresh_eq_true_iff _).mp h⟩
    · rintro ⟨hside, hdb, rf, ef, rfl, rfl, hr0, he0, hcur⟩
      obtain ⟨rfl, rfl⟩ : journal = false ∧ wal = false := by
        simpa [NamespaceDir.hasSidecar] using hside
      have hdb' : database.isSome = true := hdb
      simp [resolutionCacheIsFresh, dirAnswer, NamespaceDir.has, NamespaceDir.file, fileMtime,
        hdb', hr0, he0, (cacheIsFresh_eq_true_iff _).mpr hcur]

/-- **A fresh directory is accepted**: what is left to fail is the row count. -/
theorem openResolution_run {cascDir : PathBuf} {dir : NamespaceDir} (h : dir.Fresh) :
    (openResolution cascDir).run (dirAnswer cascDir (some dir)) =
      (countEntries (namespacePath cascDir .database) dir.contents).map fun _ => dir.contents := by
  obtain ⟨-, hdb, rf, ef, hroot, henc, hr0, he0, hcur⟩ := h
  have hfresh := (cacheIsFresh_eq_true_iff (namespacePath cascDir .database)).mpr hcur
  simp [openResolution, dirAnswer, NamespaceDir.has, NamespaceDir.file, fileMtime, hdb, hr0, he0,
    hroot, henc, hfresh]

end AssetResolver
