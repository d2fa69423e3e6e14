import AssetResolver.Library.Transactions
import AssetResolver.Listfile.Freshness
import AssetResolver.Listfile.Import

/-!
# Rebuilding the community cache

`ensure_cache` and `rebuild_cache` of `listfile_cache.rs`, statement by statement: the
batch of `init_cache_schema`, one insertion for each entry of the source, the second
stat, the metadata row and the commit, spread over four functions each of which may
return early. Openers take turns with each other, with readers and with an editor of
the source, and every statement may fail.

The connection is the one of `DbFile`: outside a transaction a statement would change
the file at once. The invariant therefore says, for each place an opener may be at,
**what its working copy is** (`AssetResolver.CacheRebuild.Progress`): nothing but the
commit has a copy of both new tables, and nothing before it has touched the file. So a
call that returns an error has committed nothing, a call that rebuilds commits what is
imported from the source it read, and every query is evaluated on whole tables
(`AssetResolver.CacheRebuild.rebuild_atomic`).
-/

namespace AssetResolver

namespace CacheRebuild

open CommunityCache (Source sourceMtime)

/-! ### The tables -/

/-- What a table name stands for in a database file. -/
inductive Stored (α : Type) where
  /-- No table of that name. -/
  | missing : Stored α
  /-- The table, with its rows. -/
  | table (rows : α) : Stored α
  /-- Something else under that name, about which queries fail. -/
  | foreign (text : String) : Stored α

/-- The tables of the cache file. -/
structure Tables where
  /-- `metadata`: the source path and its time. -/
  metadata : Stored (List (String × ℤ))
  /-- `listfile_entries`. -/
  entries : Stored ListfileTable

/-- The statements that write. -/
inductive Write where
  /-- `DROP TABLE IF EXISTS metadata`. -/
  | dropMetadata : Write
  /-- `DROP TABLE IF EXISTS listfile_entries`. -/
  | dropEntries : Write
  /-- `CREATE TABLE metadata`. -/
  | createMetadata : Write
  /-- `CREATE TABLE listfile_entries`. -/
  | createEntries : Write
  /-- `CREATE UNIQUE INDEX`, of the lowercased paths. -/
  | createIndex : Write
  /-- `INSERT OR REPLACE INTO listfile_entries`. -/
  | insertEntry (row : ListfileRow) : Write
  /-- `INSERT INTO metadata`. -/
  | insertMetadata (path : String) (mtime : ℤ) : Write

/-- What they do to the tables. The index is made while there are no rows, so it has
nothing to check yet. -/
def Write.apply (tables : Tables) : Write → Except String Tables
  | .dropMetadata => .ok { tables with metadata := .missing }
  | .dropEntries => .ok { tables with entries := .missing }
  | .createMetadata =>
    match tables.metadata with
    | .missing => .ok { tables with metadata := .table [] }
    | _ => .error "table metadata already exists"
  | .createEntries =>
    match tables.entries with
    | .missing => .ok { tables with entries := .table .empty }
    | _ => .error "table listfile_entries already exists"
  | .createIndex =>
    match tables.entries with
    | .table _ => .ok tables
    | _ => .error "no such table: main.listfile_entries"
  | .insertEntry row =>
    match tables.entries with
    | .table rows => .ok { tables with entries := .table (rows.insertOrReplace row) }
    | _ => .error "no such table: listfile_entries"
  | .insertMetadata path mtime =>
    match tables.metadata with
    | .table rows => .ok { tables with metadata := .table (rows ++ [(path, mtime)]) }
    | _ => .error "no such table: metadata"

/-- A statement of the batch of `init_cache_schema`. -/
inductive Statement where
  /-- `BEGIN`. -/
  | begin : Statement
  /-- A statement that writes. -/
  | write (write : Write) : Statement

/-- The batch of `init_cache_schema`. -/
def initCacheSchema : List Statement :=
  [.begin, .write .dropMetadata, .write .dropEntries, .write .createMetadata,
    .write .createEntries, .write .createIndex]

/-! ### The machine -/

variable {ι : Type} [DecidableEq ι]

/-- Where an opener is in `ensure_cache`. From the opening of the source on it carries
the content that was opened. -/
inductive Pc where
  /-- In no call. -/
  | idle : Pc
  /-- Before the cache file is opened. -/
  | opening : Pc
  /-- Before `source_path.exists()`. -/
  | checking : Pc
  /-- Before `cache_has_entries`, the source being missing. -/
  | probing : Pc
  /-- In `cache_is_fresh`, before its query. -/
  | judging : Pc
  /-- In `cache_is_fresh`, before the stat of the source. -/
  | statting (recorded : ℤ) : Pc
  /-- In `init_cache_schema`, before the statements that are left. -/
  | executing (batch : List Statement) : Pc
  /-- In `import_rows`, before the source is opened. -/
  | openingSource : Pc
  /-- In `import_rows`, before the lines that are left. -/
  | inserting (content : List UInt8) (lines : List (List UInt8)) : Pc
  /-- In `record_metadata`, before the stat of the source. -/
  | restatting (content : List UInt8) : Pc
  /-- In `record_metadata`, before its insertion. -/
  | recording (content : List UInt8) (mtime : ℤ) : Pc
  /-- Before the commit. -/
  | committing (content : List UInt8) (mtime : ℤ) : Pc
  /-- Returned. -/
  | done (result : Except String Unit) : Pc

/-- The source, the cache file, the openers and what readers saw. -/
structure State (ι : Type) where
  /-- The source as it is now. -/
  source : Option Source
  /-- The cache file. -/
  db : DbFile ι Tables
  /-- Where the openers are. -/
  pc : ι → Pc
  /-- The tables that queries of readers were evaluated on. -/
  seen : List Tables

namespace State

/-- Any source and any tables. -/
def initial (source : Option Source) (tables : Tables) : State ι :=
  ⟨source, .initial tables, fun _ => .idle, []⟩

/-- An opener goes on. -/
def goto (s : State ι) (c : ι) (p : Pc) : State ι := { s with pc := Function.update s.pc c p }

/-- An opener returns an error, and its connection is closed. -/
def abort (s : State ι) (c : ι) (e : String) : State ι :=
  { s.goto c (.done (.error e)) with db := s.db.close c }

/-- An opener goes on behind an operation of its connection, if that need not wait. -/
def execute (s : State ι) (c : ι) (text : String) (p : Pc) :
    DbFile.Outcome ι Tables → Option (State ι)
  | none => none
  | some (.error e) => some (s.abort c s!"{text}: {e}")
  | some (.ok db) => some { s.goto c p with db := db }

end State

/-- What may happen. -/
inductive Event (ι : Type) where
  /-- The editor replaces the source, or removes it. -/
  | edit (source : Option Source) : Event ι
  /-- A query of a reader. -/
  | query : Event ι
  /-- A process calls `ensure_cache`. -/
  | call (c : ι) : Event ι
  /-- An opener takes its next step. -/
  | step (c : ι) : Event ι
  /-- An opener's next step fails, or the opener is killed. -/
  | fail (c : ι) (e : String) : Event ι

/-- The opener is in no call. -/
def Pc.isResting : Pc → Bool
  | .idle => true
  | .done _ => true
  | _ => false

/-- The next step of an opener. -/
def advance (sourcePath : PathBuf) (s : State ι) (c : ι) : Pc → Option (State ι)
  | .idle => none
  | .opening => some (s.goto c .checking)
  | .checking => some (s.goto c (if s.source.isSome then .judging else .probing))
  | .probing =>
    match s.db.committed.entries with
    | .foreign e => some (s.abort c s!"query listfile_entries availability: {e}")
    | .missing => some (s.abort c s!"missing {sourcePath.display}")
    | .table rows =>
      if rows.rows.isEmpty then some (s.abort c s!"missing {sourcePath.display}")
      else some (s.goto c (.done (.ok ())))
  | .judging =>
    match s.db.committed.metadata with
    | .foreign e => some (s.abort c s!"prepare metadata query: {e}")
    | .table ((path, mtime) :: _) =>
      some (s.goto c (if path = sourcePath.display then .statting mtime
        else .executing initCacheSchema))
    | _ => some (s.goto c (.executing initCacheSchema))
  | .statting recorded =>
    match sourceMtime sourcePath s.source with
    | .error e => some (s.abort c e)
    | .ok mtime =>
      some (s.goto c (if recorded = mtime then .done (.ok ()) else .executing initCacheSchema))
  | .executing [] => some (s.goto c .openingSource)
  | .executing (.begin :: batch) =>
    s.execute c "init listfile cache" (.executing batch) (s.db.begin c)
  | .executing (.write w :: batch) =>
    s.execute c "init listfile cache" (.executing batch) (s.db.write c w.apply)
  | .openingSource =>
    -- a file that is replaced while it is read keeps its content for the reader
    match s.source with
    | none => some (s.abort c s!"open {sourcePath.display}: {notFound}")
    | some source => some (s.goto c (.inserting source.content (readLines [] source.content)))
  | .inserting content [] => some (s.goto c (.restatting content))
  | .inserting content (line :: lines) =>
    match fromUtf8 line with
    | none =>
      some (s.abort c s!"read {sourcePath.display} row: stream did not contain valid UTF-8")
    | some text =>
      match parseRow text with
      | none => some (s.goto c (.inserting content lines))
      | some row =>
        s.execute c s!"insert listfile entry {row.fdid}" (.inserting content lines)
          (s.db.write c (Write.insertEntry row).apply)
  | .restatting content =>
    match sourceMtime sourcePath s.source with
    | .error e => some (s.abort c e)
    | .ok mtime => some (s.goto c (.recording content mtime))
  | .recording content mtime =>
    s.execute c "insert listfile metadata" (.committing content mtime)
      (s.db.write c (Write.insertMetadata sourcePath.display mtime).apply)
  | .committing _ _ => s.execute c "commit listfile cache" (.done (.ok ())) (s.db.commit c)
  | .done _ => none

/-- What an event does. -/
def step (sourcePath : PathBuf) (s : State ι) : Event ι → Option (State ι)
  | .edit source => some { s with source := source }
  | .query => some { s with seen := s.db.committed :: s.seen }
  | .call c => if (s.pc c).isResting then some (s.goto c .opening) else none
  | .step c => advance sourcePath s c (s.pc c)
  | .fail c e => if (s.pc c).isResting then none else some (s.abort c e)

/-! ### What the working copy is -/

/-- One line of `import_rows`. -/
def importLine (sourcePath : PathBuf) (table : ListfileTable) (line : List UInt8) :
    Except String ListfileTable :=
  match fromUtf8 line with
  | none => .error s!"read {sourcePath.display} row: stream did not contain valid UTF-8"
  | some line =>
    match parseRow line with
    | none => .ok table
    | some row => .ok (table.insertOrReplace row)

/-- An import is the lines of the source, one after the other. -/
theorem importRows_eq_foldlM (sourcePath : PathBuf) (content : List UInt8) :
    importRows sourcePath content =
      (readLines [] content).foldlM (importLine sourcePath) .empty := rfl

/-- The tables a batch leaves, with what is left of it. -/
inductive Batch : List Statement → Tx Tables → Prop
  /-- Nothing is executed yet. -/
  | start : Batch initCacheSchema .autocommit
  /-- The transaction has begun. -/
  | begun : Batch (initCacheSchema.drop 1) .deferred
  /-- The first table is dropped. -/
  | droppedMetadata (entries : Stored ListfileTable) :
    Batch (initCacheSchema.drop 2) (.writing ⟨.missing, entries⟩)
  /-- Both tables are dropped. -/
  | dropped : Batch (initCacheSchema.drop 3) (.writing ⟨.missing, .missing⟩)
  /-- The first table is there again. -/
  | createdMetadata : Batch (initCacheSchema.drop 4) (.writing ⟨.table [], .missing⟩)
  /-- Both tables are there again. -/
  | created : Batch (initCacheSchema.drop 5) (.writing ⟨.table [], .table .empty⟩)
  /-- The index is there too. -/
  | indexed : Batch [] (.writing ⟨.table [], .table .empty⟩)

/-- **The tables of a whole import**: the rows of a version of the source, and the time of
one, both among `V`. -/
def Imported (sourcePath : PathBuf) (V : Set Source) (tables : Tables) : Prop :=
  ∃ read ∈ V, ∃ statted ∈ V, ∃ rows, importRows sourcePath read.content = .ok rows ∧
    tables = ⟨.table [(sourcePath.display, statted.mtime)], .table rows⟩

/-- The import of a content that the source had. -/
def ImportOf (sourcePath : PathBuf) (V : Set Source) (content : List UInt8)
    (rows : ListfileTable) : Prop :=
  (∃ read ∈ V, read.content = content) ∧ importRows sourcePath content = .ok rows

/-- **The invariant of an opener**: what its transaction is at each place. -/
def Progress (sourcePath : PathBuf) (V : Set Source) (tx : Tx Tables) : Pc → Prop
  | .executing batch => Batch batch tx
  | .openingSource => tx = .writing ⟨.table [], .table .empty⟩
  | .inserting content lines =>
    (∃ read ∈ V, read.content = content) ∧
    ∃ front rows, readLines [] content = front ++ lines ∧
      front.foldlM (importLine sourcePath) .empty = .ok rows ∧
      tx = .writing ⟨.table [], .table rows⟩
  | .restatting content =>
    ∃ rows, ImportOf sourcePath V content rows ∧ tx = .writing ⟨.table [], .table rows⟩
  | .recording content mtime =>
    (∃ statted ∈ V, statted.mtime = mtime) ∧
    ∃ rows, ImportOf sourcePath V content rows ∧ tx = .writing ⟨.table [], .table rows⟩
  | .committing content mtime =>
    (∃ statted ∈ V, statted.mtime = mtime) ∧
    ∃ rows, ImportOf sourcePath V content rows ∧
      tx = .writing ⟨.table [(sourcePath.display, mtime)], .table rows⟩
  | _ => tx = .autocommit

/-- An opener in no call has no transaction. -/
theorem autocommit_of_isResting {sourcePath : PathBuf} {V : Set Source} {tx : Tx Tables} {p : Pc}
    (hp : Progress sourcePath V tx p) (h : p.isResting) : tx = .autocommit := by
  cases p with
  | idle => exact hp
  | done result => exact hp
  | _ => cases h

/-! ### What a step does -/

/-- The opener is between the begin of a rebuild and its end. -/
def Pc.isRebuilding : Pc → Bool
  | .executing _ | .openingSource | .inserting _ _ | .restatting _ | .recording _ _
  | .committing _ _ => true
  | _ => false

/-- **What a step of an opener can do**: go on with the file as it is, return an error, or
commit a whole import. -/
inductive Advanced (sourcePath : PathBuf) (V : Set Source) (s : State ι) (c : ι) (p : Pc)
    (s' : State ι) : Prop
  /-- It goes on; a rebuild goes on with the rebuild. -/
  | went (p' : Pc) (tx : Tx Tables) (hs' : s' = { s.goto c p' with db := s'.db })
      (hkept : DbFile.Kept s.db s'.db c tx) (hprogress : Progress sourcePath V tx p')
      (hrebuild : p.isRebuilding → p'.isRebuilding) : Advanced sourcePath V s c p s'
  /-- It returns an error, and its connection is closed. -/
  | aborted (e : String) (hs' : s' = s.abort c e) : Advanced sourcePath V s c p s'
  /-- It commits its copy and returns. -/
  | committed (copy : Tables) (hs' : s' = { s.goto c (.done (.ok ())) with db := s'.db })
      (hfirst : s'.db.first = s.db.first) (hhistory : s'.db.history = (c, copy) :: s.db.history)
      (hself : s'.db.tx c = .autocommit) (hothers : ∀ c', c' ≠ c → s'.db.tx c' = s.db.tx c')
      (himported : Imported sourcePath V copy) (hrebuild : p.isRebuilding) :
      Advanced sourcePath V s c p s'

variable {sourcePath : PathBuf} {V : Set Source} {s s' : State ι} {c : ι}

/-- Going on without an operation on the file. -/
theorem Advanced.goto {p p' : Pc} (hprogress : Progress sourcePath V (s.db.tx c) p')
    (hrebuild : p.isRebuilding → p'.isRebuilding) :
    Advanced sourcePath V s c p (s.goto c p') :=
  .went p' (s.db.tx c) rfl (DbFile.Kept.refl _ _) hprogress hrebuild

/-- Going on behind an operation of the file: either it failed, or what it did is known. -/
theorem Advanced.execute {p p' : Pc} {text : String} {outcome : DbFile.Outcome ι Tables}
    (hrebuild : p.isRebuilding → p'.isRebuilding)
    (hdone : ∀ db', outcome = some (.ok db') →
      ∃ tx, DbFile.Kept s.db db' c tx ∧ Progress sourcePath V tx p')
    (h : s.execute c text p' outcome = some s') : Advanced sourcePath V s c p s' := by
  rcases outcome with _ | (e | db')
  · cases h
  · cases h
    exact .aborted _ rfl
  · cases h
    obtain ⟨tx, hkept, hprogress⟩ := hdone db' rfl
    exact .went p' tx rfl hkept hprogress hrebuild

/-- Going on behind a write within the transaction. -/
theorem Advanced.write {p p' : Pc} {text : String} {w : Write} {copy : Tables}
    (htx : s.db.tx c = .writing copy) (hrebuild : p.isRebuilding → p'.isRebuilding)
    (hprogress : ∀ copy', w.apply copy = .ok copy' →
      Progress sourcePath V (.writing copy') p')
    (h : s.execute c text p' (s.db.write c w.apply) = some s') :
    Advanced sourcePath V s c p s' := by
  refine Advanced.execute hrebuild (fun db' hdb' => ?_) h
  obtain ⟨copy', happly, hkept⟩ := DbFile.write_of_writing htx hdb'
  exact ⟨.writing copy', hkept, hprogress copy' happly⟩

/-- **The batch**, one case for each statement that may be next. -/
theorem advanced_executing {batch : List Statement} (hbatch : Batch batch (s.db.tx c))
    (h : advance sourcePath s c (.executing batch) = some s') :
    Advanced sourcePath V s c (.executing batch) s' := by
  generalize htx : s.db.tx c = tx at hbatch
  cases hbatch with
  | start =>
    refine Advanced.execute (fun _ => rfl) (fun db' hdb' => ?_) h
    obtain ⟨db, hbegin, hkept⟩ := DbFile.begin_of_autocommit htx
    obtain rfl : db = db' := Except.ok.inj (Option.some.inj (hbegin.symm.trans hdb'))
    exact ⟨.deferred, hkept, .begun⟩
  | begun =>
    -- the first statement that writes takes the lock, and a copy of whatever there is
    refine Advanced.execute (fun _ => rfl) (fun db' hdb' => ?_) h
    obtain ⟨-, copy, happly, hkept⟩ := DbFile.write_of_deferred htx hdb'
    cases happly
    exact ⟨_, hkept, .droppedMetadata _⟩
  | droppedMetadata entries =>
    exact Advanced.write htx (fun _ => rfl) (by rintro copy ⟨⟩; exact .dropped) h
  | dropped => exact Advanced.write htx (fun _ => rfl) (by rintro copy ⟨⟩; exact .createdMetadata) h
  | createdMetadata => exact Advanced.write htx (fun _ => rfl) (by rintro copy ⟨⟩; exact .created) h
  | created => exact Advanced.write htx (fun _ => rfl) (by rintro copy ⟨⟩; exact .indexed) h
  | indexed =>
    cases h
    exact Advanced.goto htx fun _ => rfl

/-- **The lines of the source**: the copy has the rows of the lines that were read. -/
theorem advanced_inserting {content : List UInt8} {lines : List (List UInt8)}
    (hp : Progress sourcePath V (s.db.tx c) (.inserting content lines))
    (h : advance sourcePath s c (.inserting content lines) = some s') :
    Advanced sourcePath V s c (.inserting content lines) s' := by
  obtain ⟨hcontent, front, rows, hlines, hfront, htx⟩ := hp
  cases lines with
  | nil =>
    cases h
    refine Advanced.goto ⟨rows, ⟨hcontent, ?_⟩, htx⟩ fun _ => rfl
    rw [importRows_eq_foldlM, hlines, List.append_nil, hfront]
  | cons line lines =>
    have hlines' : readLines [] content = (front ++ [line]) ++ lines := by
      rw [hlines, List.append_assoc, List.singleton_append]
    have hread : ∀ rows', importLine sourcePath rows line = .ok rows' →
        (front ++ [line]).foldlM (importLine sourcePath) .empty = .ok rows' := by
      intro rows' hline
      rw [List.foldlM_append, hfront]
      show (importLine sourcePath rows line >>= _) = _
      rw [hline]
      rfl
    rcases htext : fromUtf8 line with _ | text
    · simp only [advance, htext] at h
      cases h
      exact .aborted _ rfl
    · rcases hrow : parseRow text with _ | row
      · simp only [advance, htext, hrow] at h
        cases h
        refine Advanced.goto ⟨hcontent, _, rows, hlines', hread rows ?_, htx⟩ fun _ => rfl
        simp only [importLine, htext, hrow]
      · simp only [advance, htext, hrow] at h
        refine Advanced.write htx (fun _ => rfl) ?_ h
        rintro copy ⟨⟩
        refine ⟨hcontent, _, _, hlines', hread _ ?_, rfl⟩
        simp only [importLine, htext, hrow]

/-- **A step of an opener**, one case for each place it may be at. -/
theorem advanced_of_advance {p : Pc} (hp : Progress sourcePath V (s.db.tx c) p)
    (hsource : ∀ v, s.source = some v → v ∈ V) (h : advance sourcePath s c p = some s') :
    Advanced sourcePath V s c p s' := by
  have hstat : ∀ mtime, sourceMtime sourcePath s.source = .ok mtime →
      ∃ statted ∈ V, statted.mtime = mtime := by
    intro mtime hmtime
    rcases hs : s.source with _ | v
    · rw [hs] at hmtime
      cases hmtime
    · rw [hs, sourceMtime] at hmtime
      split_ifs at hmtime
      exact ⟨v, hsource v hs, Except.ok.inj hmtime⟩
  cases p with
  | idle => cases h
  | done result => cases h
  | opening =>
    cases h
    exact Advanced.goto hp (by rintro ⟨⟩)
  | checking =>
    cases h
    refine Advanced.goto ?_ (by rintro ⟨⟩)
    split_ifs
    · exact hp
    · exact hp
  | probing =>
    simp only [advance] at h
    split at h
    · cases h
      exact .aborted _ rfl
    · cases h
      exact .aborted _ rfl
    · split_ifs at h
      · cases h
        exact .aborted _ rfl
      · cases h
        exact Advanced.goto hp (by rintro ⟨⟩)
  | judging =>
    have hstart : Progress sourcePath V (s.db.tx c) (.executing initCacheSchema) := by
      rw [show s.db.tx c = .autocommit from hp]
      exact Batch.start
    simp only [advance] at h
    split at h
    · cases h
      exact .aborted _ rfl
    · cases h
      refine Advanced.goto ?_ (by rintro ⟨⟩)
      split_ifs
      · exact hp
      · exact hstart
    · cases h
      exact Advanced.goto hstart (by rintro ⟨⟩)
  | statting recorded =>
    simp only [advance] at h
    split at h
    · cases h
      exact .aborted _ rfl
    · cases h
      refine Advanced.goto ?_ (by rintro ⟨⟩)
      split_ifs
      · exact hp
      · show Batch initCacheSchema (s.db.tx c)
        rw [show s.db.tx c = .autocommit from hp]
        exact Batch.start
  | executing batch => exact advanced_executing hp h
  | openingSource =>
    simp only [advance] at h
    split at h
    · cases h
      exact .aborted _ rfl
    · next source hs =>
      cases h
      exact Advanced.goto ⟨⟨source, hsource source hs, rfl⟩, [], _, rfl, rfl, hp⟩ fun _ => rfl
  | inserting content lines => exact advanced_inserting hp h
  | restatting content =>
    simp only [advance] at h
    split at h
    · cases h
      exact .aborted _ rfl
    · next mtime hmtime =>
      cases h
      exact Advanced.goto ⟨hstat mtime hmtime, hp⟩ fun _ => rfl
  | recording content mtime =>
    obtain ⟨hstatted, rows, hrows, htx⟩ := hp
    refine Advanced.write htx (fun _ => rfl) ?_ h
    rintro copy ⟨⟩
    exact ⟨hstatted, rows, hrows, rfl⟩
  | committing content mtime =>
    obtain ⟨⟨statted, hstatted, rfl⟩, rows, ⟨⟨read, hread, rfl⟩, hrows⟩, htx⟩ := hp
    obtain ⟨db', hcommit, hfirst, hhistory, hself, hothers⟩ := DbFile.commit_of_writing htx
    simp only [advance, hcommit] at h
    cases h
    exact .committed _ rfl hfirst hhistory hself hothers
      ⟨read, hread, statted, hstatted, rows, hrows, rfl⟩ rfl

/-! ### Runs -/

/-- The opener an event is about. -/
def Event.actor : Event ι → Option ι
  | .edit _ => none
  | .query => none
  | .call c => some c
  | .step c => some c
  | .fail c _ => some c

/-- The versions that some openers committed, the latest first. -/
def State.versionsBy (s : State ι) (P : ι → Bool) : List Tables :=
  (s.db.history.filter fun version => P version.1).map Prod.snd

omit [DecidableEq ι] in
/-- A version at the front is one of theirs, or makes no difference to them. -/
theorem versionsBy_cons {P : ι → Bool} {copy : Tables}
    (hhistory : s'.db.history = (c, copy) :: s.db.history) :
    s'.versionsBy P = if P c then copy :: s.versionsBy P else s.versionsBy P := by
  rw [State.versionsBy, hhistory, List.filter_cons]
  split_ifs
  · rfl
  · rfl

/-- **The invariant**: every opener is where its transaction says, and the file and the
queries have whole tables, those at the start or those of an import. -/
structure Sound (sourcePath : PathBuf) (V : Set Source) (tables : Tables) (s : State ι) :
    Prop where
  source : ∀ v, s.source = some v → v ∈ V
  first : s.db.first = tables
  progress : ∀ c, Progress sourcePath V (s.db.tx c) (s.pc c)
  committed : s.db.committed = tables ∨ Imported sourcePath V s.db.committed
  seen : ∀ t ∈ s.seen, t = tables ∨ Imported sourcePath V t

variable {tables : Tables} {e : Event ι}

omit [DecidableEq ι] in
theorem sound_initial {source : Option Source} (hsource : ∀ v, source = some v → v ∈ V) :
    Sound sourcePath V tables (State.initial source tables : State ι) where
  source := hsource
  first := rfl
  progress := fun _ => rfl
  committed := Or.inl rfl
  seen := by simp [State.initial]

/-- An opener that goes on with the file as it is. -/
theorem Sound.went (hs : Sound sourcePath V tables s) {p : Pc} {tx : Tx Tables}
    {db : DbFile ι Tables} (hkept : DbFile.Kept s.db db c tx)
    (hprogress : Progress sourcePath V tx p) :
    Sound sourcePath V tables { s.goto c p with db := db } where
  source := hs.source
  first := hkept.first.trans hs.first
  progress := by
    intro c'
    by_cases hc : c' = c
    · subst hc
      simpa [State.goto, hkept.self] using hprogress
    · simpa [State.goto, hc, hkept.others c' hc] using hs.progress c'
  committed := by
    rw [hkept.committed]
    exact hs.committed
  seen := hs.seen

theorem Sound.abort (hs : Sound sourcePath V tables s) (text : String) :
    Sound sourcePath V tables (s.abort c text) :=
  hs.went DbFile.kept_close rfl

theorem Sound.advanced (hs : Sound sourcePath V tables s)
    (h : Advanced sourcePath V s c (s.pc c) s') : Sound sourcePath V tables s' := by
  cases h with
  | went p' tx hs' hkept hprogress hrebuild =>
    rw [hs']
    exact hs.went hkept hprogress
  | aborted text hs' =>
    rw [hs']
    exact hs.abort text
  | committed copy hs' hfirst hhistory hself hothers himported hrebuild =>
    rw [hs']
    refine ⟨hs.source, hfirst.trans hs.first, fun c' => ?_, Or.inr ?_, hs.seen⟩
    · by_cases hc : c' = c
      · subst hc
        simpa [State.goto, Progress] using hself
      · simpa [State.goto, hc, hothers c' hc] using hs.progress c'
    · simpa [DbFile.committed, hhistory] using himported

/-- **What an event preserves**, as long as the versions of the source are in `V`. -/
theorem sound_step (hs : Sound sourcePath V tables s) (hedit : ∀ v, e = .edit (some v) → v ∈ V)
    (h : step sourcePath s e = some s') : Sound sourcePath V tables s' := by
  cases e with
  | edit source =>
    cases h
    refine ⟨fun v hv => ?_, hs.first, hs.progress, hs.committed, hs.seen⟩
    obtain rfl : source = some v := hv
    exact hedit v rfl
  | query =>
    cases h
    refine ⟨hs.source, hs.first, hs.progress, hs.committed, fun t ht => ?_⟩
    rcases List.mem_cons.mp ht with rfl | ht
    · exact hs.committed
    · exact hs.seen t ht
  | call c =>
    simp only [step] at h
    split_ifs at h with hresting
    cases h
    exact hs.went (DbFile.Kept.refl _ _) (autocommit_of_isResting (hs.progress c) hresting)
  | step c => exact hs.advanced (advanced_of_advance (hs.progress c) hs.source h)
  | fail c text =>
    simp only [step] at h
    split_ifs at h
    cases h
    exact hs.abort text

/-- The versions the source had in a run that began with one. -/
def versionsOf (source : Option Source) (es : List (Event ι)) : Set Source :=
  {v | source = some v ∨ .edit (some v) ∈ es}

theorem sound_run {source : Option Source} {es : List (Event ι)}
    (hsource : ∀ v, source = some v → v ∈ V) (hedit : ∀ v, .edit (some v) ∈ es → v ∈ V)
    (hrun : Runs.run (step sourcePath) (State.initial source tables) es = some s) :
    Sound sourcePath V tables s := by
  refine Runs.invariant_of_guarded (Sound sourcePath V tables)
    (fun s e t hs (he : e ∈ es) h => ?_) (sound_initial hsource)
    (Runs.guarded_of_forall_mem (fun e he _ => he) _) hrun
  exact sound_step hs (fun v hv => hedit v (hv ▸ he)) h

/-! ### One call -/

/-- **Where a call is, and what it has committed** over the versions `base`: nothing while
it runs and nothing if it failed. With the flag it has begun to rebuild, and cannot
return without a version any more. -/
inductive Outcome (sourcePath : PathBuf) (V : Set Source) (base : List Tables) :
    Bool → Pc → List Tables → Prop
  /-- It runs. -/
  | running (flag : Bool) (p : Pc) (hp : ∀ result, p ≠ .done result)
    (hflag : flag → p.isRebuilding) : Outcome sourcePath V base flag p base
  /-- It has returned an error. -/
  | failed (flag : Bool) (e : String) : Outcome sourcePath V base flag (.done (.error e)) base
  /-- It has returned without a rebuild. -/
  | served : Outcome sourcePath V base false (.done (.ok ())) base
  /-- It has returned behind a rebuild. -/
  | rebuilt (flag : Bool) (t : Tables) (ht : Imported sourcePath V t) :
    Outcome sourcePath V base flag (.done (.ok ())) (t :: base)

variable {base : List Tables} {flag : Bool} {P : ι → Bool}

/-- A step of the call, while it runs. -/
theorem Outcome.advanced (h : Outcome sourcePath V base flag (s.pc c) (s.versionsBy P))
    (hP : P c) (hrunning : ∀ result, s.pc c ≠ .done result)
    (hstep : Advanced sourcePath V s c (s.pc c) s') :
    Outcome sourcePath V base flag (s'.pc c) (s'.versionsBy P) := by
  generalize hpc : s.pc c = p at h hrunning hstep
  generalize hversions : s.versionsBy P = versions at h
  cases h with
  | failed flag e => exact absurd rfl (hrunning _)
  | served => exact absurd rfl (hrunning _)
  | rebuilt flag t ht => exact absurd rfl (hrunning _)
  | running flag p hp hflag =>
    cases hstep with
    | went p' tx hs' hkept hprogress hrebuild =>
      have hpc' : s'.pc c = p' := by
        rw [hs']
        simp [State.goto]
      have hversions' : s'.versionsBy P = base := by
        rw [← hversions, State.versionsBy, hkept.history]
        rfl
      rw [hpc', hversions']
      by_cases hdone : ∃ result, p' = .done result
      · obtain ⟨result, rfl⟩ := hdone
        rcases result with e | ⟨⟩
        · exact .failed flag e
        · -- a call that rebuilds does not return like this
          rcases flag with _ | _
          · exact .served
          · cases hrebuild (hflag rfl)
      · exact .running flag p' (fun result hresult => hdone ⟨result, hresult⟩)
          fun hflag' => hrebuild (hflag hflag')
    | aborted e hs' =>
      have hpc' : s'.pc c = .done (.error e) := by
        rw [hs']
        simp [State.abort, State.goto]
      have hversions' : s'.versionsBy P = base := by
        rw [← hversions, hs']
        rfl
      rw [hpc', hversions']
      exact .failed flag e
    | committed copy hs' hfirst hhistory hself hothers himported hrebuild =>
      have hpc' : s'.pc c = .done (.ok ()) := by
        rw [hs']
        simp [State.goto]
      rw [hpc', versionsBy_cons hhistory, if_pos hP, hversions]
      exact .rebuilt flag copy himported

/-- A step leaves the source alone, and the opener where its transaction says. -/
theorem Advanced.self {p : Pc} (h : Advanced sourcePath V s c p s') :
    s'.source = s.source ∧ Progress sourcePath V (s'.db.tx c) (s'.pc c) := by
  cases h with
  | went p' tx hs' hkept hprogress hrebuild =>
    rw [hs']
    exact ⟨rfl, by simpa [State.goto, hkept.self] using hprogress⟩
  | aborted e hs' =>
    rw [hs']
    exact ⟨rfl, by simpa [State.abort, State.goto, Progress] using DbFile.kept_close.self⟩
  | committed copy hs' hfirst hhistory hself hothers himported hrebuild =>
    rw [hs']
    exact ⟨rfl, by simpa [State.goto, Progress] using hself⟩

/-- A step leaves the other openers and their transactions alone. -/
theorem Advanced.other {p : Pc} {c' : ι} (h : Advanced sourcePath V s c p s') (hne : c' ≠ c) :
    s'.pc c' = s.pc c' ∧ s'.db.tx c' = s.db.tx c' := by
  cases h with
  | went p' tx hs' hkept hprogress hrebuild =>
    exact ⟨by rw [hs']; exact Function.update_of_ne hne .., hkept.others c' hne⟩
  | aborted e hs' =>
    rw [hs']
    exact ⟨Function.update_of_ne hne .., DbFile.kept_close.others c' hne⟩
  | committed copy hs' hfirst hhistory hself hothers himported hrebuild =>
    exact ⟨by rw [hs']; exact Function.update_of_ne hne .., hothers c' hne⟩

/-- A step of one whose versions do not count. -/
theorem Advanced.versionsBy {p : Pc} (h : Advanced sourcePath V s c p s') (hP : ¬P c) :
    s'.versionsBy P = s.versionsBy P := by
  cases h with
  | went p' tx hs' hkept hprogress hrebuild => rw [State.versionsBy, hkept.history]; rfl
  | aborted e hs' => rw [hs']; rfl
  | committed copy hs' hfirst hhistory hself hothers himported hrebuild =>
    rw [versionsBy_cons hhistory, if_neg hP]

/-- **What is known of a call while it runs**: its transaction, relative to the versions the
source had since it began, and what it has committed. -/
structure Calling (sourcePath : PathBuf) (tables : Tables) (V : Set Source) (base : List Tables)
    (flag : Bool) (P : ι → Bool) (c : ι) (s : State ι) : Prop where
  sound : Sound sourcePath Set.univ tables s
  source : ∀ v, s.source = some v → v ∈ V
  progress : Progress sourcePath V (s.db.tx c) (s.pc c)
  outcome : Outcome sourcePath V base flag (s.pc c) (s.versionsBy P)

omit [DecidableEq ι] in
/-- An event of others, on whose account nothing is counted. -/
theorem Calling.frame (hs : Calling sourcePath tables V base flag P c s)
    (hsound : Sound sourcePath Set.univ tables s') (hsource : ∀ v, s'.source = some v → v ∈ V)
    (hpc : s'.pc c = s.pc c) (htx : s'.db.tx c = s.db.tx c)
    (hversions : s'.versionsBy P = s.versionsBy P) :
    Calling sourcePath tables V base flag P c s' where
  sound := hsound
  source := hsource
  progress := by
    rw [hpc, htx]
    exact hs.progress
  outcome := by
    rw [hpc, hversions]
    exact hs.outcome

/-- **What an event preserves of a call**, if it is no other call of the opener and nobody
else commits on its account. -/
theorem calling_step (hs : Calling sourcePath tables V base flag P c s) (hP : P c)
    (hedit : ∀ v, e = .edit (some v) → v ∈ V) (hcall : e ≠ .call c)
    (hactor : ∀ c', e.actor = some c' → c' ≠ c → ¬P c')
    (h : step sourcePath s e = some s') : Calling sourcePath tables V base flag P c s' := by
  have hsound : Sound sourcePath Set.univ tables s' :=
    sound_step hs.sound (fun _ _ => Set.mem_univ _) h
  cases e with
  | edit source =>
    cases h
    refine hs.frame hsound (fun v hv => ?_) rfl rfl rfl
    obtain rfl : source = some v := hv
    exact hedit v rfl
  | query =>
    cases h
    exact hs.frame hsound hs.source rfl rfl rfl
  | call c' =>
    have hne : c ≠ c' := fun heq => hcall (heq ▸ rfl)
    simp only [step] at h
    split_ifs at h
    cases h
    exact hs.frame hsound hs.source (Function.update_of_ne hne ..) rfl rfl
  | step c' =>
    by_cases hc : c' = c
    · subst hc
      have hrunning : ∀ result, s.pc c' ≠ .done result := by
        intro result hresult
        simp only [step, hresult, advance] at h
        cases h
      have hstep := advanced_of_advance hs.progress hs.source h
      obtain ⟨hsource, hprogress⟩ := hstep.self
      exact ⟨hsound, fun v hv => hs.source v (hsource ▸ hv), hprogress,
        hs.outcome.advanced hP hrunning hstep⟩
    · have hstep := advanced_of_advance (hs.sound.progress c') hs.sound.source h
      obtain ⟨hpc, htx⟩ := hstep.other (Ne.symm hc)
      exact hs.frame hsound (fun v hv => hs.source v (hstep.self.1 ▸ hv)) hpc htx
        (hstep.versionsBy (hactor c' rfl hc))
  | fail c' text =>
    simp only [step] at h
    split_ifs at h with hresting
    cases h
    have hstep : Advanced sourcePath V s c' (s.pc c') (s.abort c' text) := .aborted text rfl
    by_cases hc : c' = c
    · subst hc
      have hrunning : ∀ result, s.pc c' ≠ .done result := by
        intro result hresult
        rw [hresult] at hresting
        exact hresting rfl
      exact ⟨hsound, hs.source, hstep.self.2, hs.outcome.advanced hP hrunning hstep⟩
    · obtain ⟨hpc, htx⟩ := hstep.other (Ne.symm hc)
      exact hs.frame hsound hs.source hpc htx (hstep.versionsBy (hactor c' rfl hc))

/-! ### All or nothing -/

/-- The versions of one opener. -/
def only (c : ι) : ι → Bool := fun c' => c' = c

/-- No other opener takes a step. -/
def Alone (c : ι) (es : List (Event ι)) : Prop := ∀ e ∈ es, ∀ c', e.actor = some c' → c' = c

omit [DecidableEq ι] in
/-- What is committed is the latest version of anybody. -/
theorem committed_eq (s : State ι) :
    s.db.committed = (s.versionsBy fun _ => true).head?.getD s.db.first := by
  simp [DbFile.committed, State.versionsBy]

/-- A call goes on, behind any events. -/
theorem Calling.run {es : List (Event ι)} (hs : Calling sourcePath tables V base flag P c s)
    (hP : P c) (hedit : ∀ v, .edit (some v) ∈ es → v ∈ V) (hcall : .call c ∉ es)
    (hactor : ∀ e ∈ es, ∀ c', e.actor = some c' → c' ≠ c → ¬P c')
    (hrun : Runs.run (step sourcePath) s es = some s') :
    Calling sourcePath tables V base flag P c s' := by
  refine Runs.invariant_of_guarded (Calling sourcePath tables V base flag P c)
    (fun s e t hs (he : e ∈ es) h => ?_) hs
    (Runs.guarded_of_forall_mem (fun e he _ => he) _) hrun
  exact calling_step hs hP (fun v hv => hedit v (hv ▸ he)) (fun heq => hcall (heq ▸ he))
    (hactor e he) h

/-- A call begins with nothing committed. -/
theorem calling_call (hsound : Sound sourcePath Set.univ tables s)
    (hsource : ∀ v, s.source = some v → v ∈ V) (h : step sourcePath s (.call c) = some s') :
    Calling sourcePath tables V (s.versionsBy P) false P c s' := by
  have hsound' : Sound sourcePath Set.univ tables s' := sound_step hsound (by rintro v ⟨⟩) h
  simp only [step] at h
  split_ifs at h
  cases h
  have hpc : (s.goto c .opening).pc c = .opening := Function.update_self ..
  have hprogress := hsound'.progress c
  refine ⟨hsound', hsource, ?_, ?_⟩
  · rw [hpc] at hprogress ⊢
    exact hprogress
  · rw [hpc]
    exact .running false .opening (by rintro result ⟨⟩) (by rintro ⟨⟩)

omit [DecidableEq ι] in
/-- A call that rebuilds cannot return without a version. -/
theorem Calling.rebuilding (hs : Calling sourcePath tables V base false P c s)
    (h : (s.pc c).isRebuilding) : Calling sourcePath tables V base true P c s := by
  refine ⟨hs.sound, hs.source, hs.progress, ?_⟩
  have houtcome := hs.outcome
  generalize s.pc c = p at h houtcome
  generalize s.versionsBy P = versions at houtcome
  cases houtcome with
  | running _ p hp hflag => exact .running true p hp fun _ => h
  | failed _ e => cases h
  | served => cases h
  | rebuilt _ t ht => cases h

/-- A call, behind any events that follow it. -/
theorem calling_of_run {es : List (Event ι)} (hsound : Sound sourcePath Set.univ tables s)
    (hP : P c) (hsource : ∀ v, s.source = some v → v ∈ V)
    (hedit : ∀ v, .edit (some v) ∈ es → v ∈ V) (hcall : .call c ∉ es)
    (hactor : ∀ e ∈ es, ∀ c', e.actor = some c' → c' ≠ c → ¬P c')
    (hrun : Runs.run (step sourcePath) s (.call c :: es) = some s') :
    Calling sourcePath tables V (s.versionsBy P) false P c s' := by
  obtain ⟨t, ht, hrest⟩ := Runs.run_cons_eq_some.mp hrun
  exact (calling_call hsound hsource ht).run hP hedit hcall hactor hrest

omit [DecidableEq ι] in
/-- **A call that returned an error has committed nothing.** -/
theorem Calling.failed {text : String} (hs : Calling sourcePath tables V base flag P c s)
    (h : s.pc c = .done (.error text)) : s.versionsBy P = base := by
  have houtcome := hs.outcome
  rw [h] at houtcome
  generalize s.versionsBy P = versions at houtcome
  cases houtcome with
  | running _ p hp hflag => rfl
  | failed _ e => rfl

omit [DecidableEq ι] in
/-- **A call that returned behind a rebuild has committed an import.** -/
theorem Calling.rebuilt (hs : Calling sourcePath tables V base true P c s)
    (h : s.pc c = .done (.ok ())) : ∃ t, Imported sourcePath V t ∧ s.versionsBy P = t :: base := by
  have houtcome := hs.outcome
  rw [h] at houtcome
  generalize s.versionsBy P = versions at houtcome
  cases houtcome with
  | running _ p hp hflag => cases hflag rfl
  | rebuilt _ t ht => exact ⟨t, ht, rfl⟩

/-- **Rebuilding is all or nothing**: the file has whole tables at every moment, every query
is evaluated on whole tables, and a call that fails commits nothing, while one that
rebuilds commits the import of the source it read. -/
structure Atomic (sourcePath : PathBuf) (source : Option Source) (tables : Tables)
    (es : List (Event ι)) (s : State ι) : Prop where
  file : s.db.committed = tables ∨
    Imported sourcePath (versionsOf source es) s.db.committed
  queries : ∀ t ∈ s.seen, t = tables ∨ Imported sourcePath (versionsOf source es) t
  failed : ∀ c later s' text,
    Runs.run (step sourcePath) s (.call c :: later) = some s' → .call c ∉ later →
    s'.pc c = .done (.error text) →
    s'.versionsBy (only c) = s.versionsBy (only c) ∧
      (Alone c later → s'.db.committed = s.db.committed)
  rebuilt : ∀ c front m back s',
    Runs.run (step sourcePath) s (.call c :: front) = some m → (m.pc c).isRebuilding →
    Runs.run (step sourcePath) m back = some s' → .call c ∉ front ++ back →
    s'.pc c = .done (.ok ()) →
    (∃ t, Imported sourcePath (versionsOf s.source (front ++ back)) t ∧
      s'.versionsBy (only c) = t :: s.versionsBy (only c)) ∧
    (Alone c (front ++ back) →
      Imported sourcePath (versionsOf s.source (front ++ back)) s'.db.committed)

theorem rebuild_atomic {source : Option Source} {es : List (Event ι)}
    (hrun : Runs.run (step sourcePath) (State.initial source tables) es = some s) :
    Atomic sourcePath source tables es s := by
  have hs : Sound sourcePath (versionsOf source es) tables s :=
    sound_run (fun v hv => Or.inl hv) (fun v hv => Or.inr hv) hrun
  have hsound : Sound sourcePath Set.univ tables s :=
    sound_run (fun _ _ => Set.mem_univ _) (fun _ _ => Set.mem_univ _) hrun
  -- what others commit is not on the account of one opener, and alone there are no others
  have honly : ∀ (c : ι) (later : List (Event ι)), ∀ e ∈ later, ∀ c', e.actor = some c' →
      c' ≠ c → ¬only c c' := fun c later e he c' hactor hne => by simpa [only] using hne
  have halone : ∀ (c : ι) (later : List (Event ι)), Alone c later → ∀ e ∈ later, ∀ c',
      e.actor = some c' → c' ≠ c → ¬(true = true) :=
    fun c later h e he c' hactor hne => absurd (h e he c' hactor) hne
  have hself : ∀ c : ι, only c c := fun c => by simp [only]
  refine ⟨hs.committed, hs.seen, ?_, ?_⟩
  · intro c later s' text hcallRun hcall hdone
    have hsource : ∀ v, s.source = some v → v ∈ versionsOf s.source later := fun v hv => Or.inl hv
    refine ⟨?_, fun hone => ?_⟩
    · exact (calling_of_run hsound (hself c) hsource (fun v hv => Or.inr hv) hcall
        (honly c later) hcallRun).failed hdone
    · have hcalling := calling_of_run (P := fun _ => true) hsound rfl hsource
        (fun v hv => Or.inr hv) hcall (halone c later hone) hcallRun
      rw [committed_eq, committed_eq, hcalling.failed hdone, hcalling.sound.first, hsound.first]
  · intro c front m back s' hfront hrebuilding hback hcall hdone
    have hsource : ∀ v, s.source = some v → v ∈ versionsOf s.source (front ++ back) :=
      fun v hv => Or.inl hv
    have hcallFront : .call c ∉ front := fun h => hcall (List.mem_append_left _ h)
    have hcallBack : .call c ∉ back := fun h => hcall (List.mem_append_right _ h)
    have hversions : ∀ P : ι → Bool, P c →
        (∀ e ∈ front ++ back, ∀ c', e.actor = some c' → c' ≠ c → ¬P c') →
        Calling sourcePath tables (versionsOf s.source (front ++ back)) (s.versionsBy P) true P c
          s' := by
      intro P hP hactor
      have hm := calling_of_run hsound hP hsource
        (fun v hv => Or.inr (List.mem_append_left _ hv)) hcallFront
        (fun e he => hactor e (List.mem_append_left _ he)) hfront
      exact (hm.rebuilding hrebuilding).run hP (fun v hv => Or.inr (List.mem_append_right _ hv))
        hcallBack (fun e he => hactor e (List.mem_append_right _ he)) hback
    refine ⟨(hversions (only c) (hself c) (honly c _)).rebuilt hdone, fun hone => ?_⟩
    obtain ⟨t, ht, hbase⟩ := (hversions (fun _ => true) rfl (halone c _ hone)).rebuilt hdone
    rw [committed_eq, hbase]
    exact ht

/-- A cache file whose metadata table is something else. -/
def foreignTables : Tables := ⟨.missing, .foreign "no such column: path"⟩

/-- A source with a line that is no UTF-8, until it is edited. -/
def brokenSource : Source := ⟨osString "1;a\n" ++ [0xff, 0x0a], 10⟩

/-- An opener that fails over the broken line, one that rebuilds from the edited source, and
a query between its statements. -/
def sampleRun : List (Event ℕ) :=
  .call 0 :: List.replicate 13 (.step 0) ++
    .edit (some CommunityCache.newVersion) :: .call 1 :: List.replicate 10 (.step 1) ++
      .query :: List.replicate 6 (.step 1) ++ [.query]

theorem rebuild_atomic_sample :
    ∃ s, Runs.run (step CommunityCache.samplePath) (State.initial (some brokenSource) foreignTables)
        sampleRun = some s ∧
      Atomic CommunityCache.samplePath (some brokenSource) foreignTables sampleRun s := by
  have hruns : (Runs.run (step CommunityCache.samplePath)
      (State.initial (some brokenSource) foreignTables) sampleRun).isSome := by decide +kernel
  obtain ⟨s, hrun⟩ := Option.isSome_iff_exists.mp hruns
  exact ⟨s, hrun, rebuild_atomic hrun⟩

end CacheRebuild

end AssetResolver
