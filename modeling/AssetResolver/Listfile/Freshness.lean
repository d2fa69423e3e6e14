import AssetResolver.Library.Runs
import AssetResolver.Listfile.Entries
import AssetResolver.Resolution.Namespace

/-!
# Freshness of the community cache

`ensure_cache` of `listfile_cache.rs`: any number of openers that judge and rebuild one
cache file, and an editor that replaces the source listfile between any two of their
steps. A rebuild is a transaction, so nobody sees a part of it, and an opener that
fails or is killed leaves the cache as it was.

The cache is judged by the time recorded in it, and the editor never uses a time
twice. A recorded time therefore names **one** version of the source
(`AssetResolver.CommunityCache.Sound`). But a rebuild reads the source first and
stats it afterwards: an edit in between records the time of the new version over the
rows of the old one, and the cache stays wrong until the next edit
(`AssetResolver.CommunityCache.not_current_of_fresh`).

As long as the version that is statted imports to the rows that were read
(`AssetResolver.CommunityCache.restatAgrees`), a cache that is judged fresh is the import
of the source (`AssetResolver.CommunityCache.current_of_fresh`).
-/

namespace AssetResolver

namespace CommunityCache

/-! ### The source and the cache -/

/-- A version of the source listfile. -/
structure Source where
  /-- Its bytes. -/
  content : List UInt8
  /-- Its modification time in seconds of the epoch, negative before it. -/
  mtime : ℤ
  deriving DecidableEq

/-- The committed contents of the cache file; a table may not be there. -/
structure CacheDb where
  /-- The rows of `metadata`: the source path and its time. -/
  metadata : Option (List (String × ℤ))
  /-- `listfile_entries`. -/
  entries : Option ListfileTable

/-- A new cache file. -/
def CacheDb.empty : CacheDb := ⟨none, none⟩

/-- `source_mtime`. -/
def sourceMtime (sourcePath : PathBuf) : Option Source → Except String ℤ
  | none => .error s!"stat {sourcePath.display}: {notFound}"
  | some source =>
    if 0 ≤ source.mtime then .ok source.mtime
    else
      .error
        s!"mtime epoch {sourcePath.display}: second time provided was later than self"

/-- The query of `cache_is_fresh`: the time in the first metadata row, if the row names
the source. -/
def recordedMtime (sourcePath : PathBuf) (db : CacheDb) : Option ℤ :=
  match db.metadata with
  | some ((path, mtime) :: _) => if path = sourcePath.display then some mtime else none
  | _ => none

/-- `cache_is_fresh`. -/
def cacheIsFresh (sourcePath : PathBuf) (db : CacheDb) (source : Option Source) :
    Except String Bool :=
  match recordedMtime sourcePath db with
  | none => .ok false
  | some recorded => (sourceMtime sourcePath source).map fun mtime => recorded = mtime

/-- `cache_has_entries`. -/
def cacheHasEntries (db : CacheDb) : Bool := db.entries.any fun entries => !entries.rows.isEmpty

/-! ### The machine -/

variable {ι : Type} [DecidableEq ι]

/-- Where an opener is in `ensure_cache`. -/
inductive Pc where
  /-- In no call. -/
  | idle : Pc
  /-- Before the cache file is opened. -/
  | opening : Pc
  /-- Before `source_path.exists()`. -/
  | checking : Pc
  /-- Before `cache_has_entries`, the source being missing. -/
  | probing : Pc
  /-- In `cache_is_fresh`, before its query. -/
  | judging : Pc
  /-- In `cache_is_fresh`, before the stat of the source. -/
  | statting (recorded : ℤ) : Pc
  /-- Before `init_cache_schema`, which begins the transaction. -/
  | beginning : Pc
  /-- Before `import_rows`. -/
  | importing : Pc
  /-- Before `record_metadata`, which stats the source again. -/
  | recording (entries : ListfileTable) : Pc
  /-- Before the commit. -/
  | committing (entries : ListfileTable) (mtime : ℤ) : Pc
  /-- Returned. -/
  | done (result : Except String Unit) : Pc

/-- The source, the cache file and the openers. -/
structure State (ι : Type) where
  /-- Every version the source has had, the latest first; none while it is missing. -/
  versions : List Source
  /-- What is committed. -/
  db : CacheDb
  /-- The opener in a write transaction. -/
  writer : Option ι
  /-- Where the openers are. -/
  pc : ι → Pc

namespace State

/-- The source as it is now. -/
def source (s : State ι) : Option Source := s.versions.head?

/-- No cache file yet, and a source that may be missing. -/
def initial (source : Option Source) : State ι := ⟨source.toList, .empty, none, fun _ => .idle⟩

/-- An opener goes on. -/
def goto (s : State ι) (c : ι) (p : Pc) : State ι := { s with pc := Function.update s.pc c p }

/-- An opener returns an error: its transaction is rolled back. -/
def abort (s : State ι) (c : ι) (e : String) : State ι :=
  { s.goto c (.done (.error e)) with writer := if s.writer = some c then none else s.writer }

end State

/-- What may happen. -/
inductive Event (ι : Type) where
  /-- The editor replaces the source. -/
  | edit (source : Source) : Event ι
  /-- A process calls `ensure_cache`. -/
  | call (c : ι) : Event ι
  /-- An opener takes its next step. -/
  | step (c : ι) : Event ι
  /-- An opener's next step fails, or the opener is killed. -/
  | fail (c : ι) (e : String) : Event ι

/-- The opener is in no call. -/
def Pc.isResting : Pc → Bool
  | .idle => true
  | .done _ => true
  | _ => false

/-- The next step of an opener. -/
def advance (sourcePath : PathBuf) (s : State ι) (c : ι) : Pc → Option (State ι)
  | .idle => none
  | .opening => some (s.goto c .checking)
  -- a source that is missing is no error as long as the cache has rows
  | .checking => some (s.goto c (if s.source.isSome then .judging else .probing))
  | .probing =>
    some (s.goto c (.done (if cacheHasEntries s.db then .ok ()
      else .error s!"missing {sourcePath.display}")))
  | .judging =>
    some (s.goto c ((recordedMtime sourcePath s.db).elim .beginning .statting))
  | .statting recorded =>
    match sourceMtime sourcePath s.source with
    | .error e => some (s.abort c e)
    | .ok mtime => some (s.goto c (if recorded = mtime then .done (.ok ()) else .beginning))
  | .beginning =>
    -- the database has one writer; the others wait, or fail once the timeout is over
    if s.writer = none then some { s.goto c .importing with writer := some c } else none
  | .importing =>
    -- a file that is replaced while it is read keeps its content for the reader
    match s.source with
    | none => some (s.abort c s!"open {sourcePath.display}: {notFound}")
    | some source =>
      match importRows sourcePath source.content with
      | .error e => some (s.abort c e)
      | .ok entries => some (s.goto c (.recording entries))
  | .recording entries =>
    -- the time of what is there now, which need not be what was read
    match sourceMtime sourcePath s.source with
    | .error e => some (s.abort c e)
    | .ok mtime => some (s.goto c (.committing entries mtime))
  | .committing entries mtime =>
    some
      { s.goto c (.done (.ok ())) with
        db := ⟨some [(sourcePath.display, mtime)], some entries⟩
        writer := none }
  | .done _ => none

/-- What an event does. The editor uses no time twice. -/
def step (sourcePath : PathBuf) (s : State ι) : Event ι → Option (State ι)
  | .edit source =>
    if source.mtime ∈ s.versions.map Source.mtime then none
    else some { s with versions := source :: s.versions }
  | .call c => if (s.pc c).isResting then some (s.goto c .opening) else none
  | .step c => advance sourcePath s c (s.pc c)
  | .fail c e => if (s.pc c).isResting then none else some (s.abort c e)

/-! ### What the recorded time says -/

/-- Some version of the source has this time, and imports to these rows. -/
def ImportOf (sourcePath : PathBuf) (versions : List Source) (entries : ListfileTable)
    (mtime : ℤ) : Prop :=
  ∃ source ∈ versions, source.mtime = mtime ∧ importRows sourcePath source.content = .ok entries

theorem ImportOf.mono {sourcePath : PathBuf} {versions : List Source} {entries : ListfileTable}
    {mtime : ℤ} (h : ImportOf sourcePath versions entries mtime) (source : Source) :
    ImportOf sourcePath (source :: versions) entries mtime := by
  obtain ⟨version, hmem, hversion⟩ := h
  exact ⟨version, List.mem_cons_of_mem _ hmem, hversion⟩

/-- **The invariant**: the versions have different times, and a time that is recorded,
or about to be, is that of a version which imports to the rows beside it. -/
structure Sound (sourcePath : PathBuf) (s : State ι) : Prop where
  versions : s.versions.Pairwise fun source source' => source.mtime ≠ source'.mtime
  committed : ∀ mtime, recordedMtime sourcePath s.db = some mtime →
    ∃ entries, s.db.entries = some entries ∧ ImportOf sourcePath s.versions entries mtime
  pending : ∀ c entries mtime, s.pc c = .committing entries mtime →
    ImportOf sourcePath s.versions entries mtime

variable {sourcePath : PathBuf} {s s' : State ι} {c : ι} {e : Event ι}

omit [DecidableEq ι] in
theorem sound_initial (source : Option Source) :
    Sound sourcePath (State.initial source : State ι) where
  versions := by
    cases source with
    | none => exact .nil
    | some source => exact List.pairwise_singleton _ _
  committed := by rintro mtime ⟨⟩
  pending := by rintro c entries mtime ⟨⟩

/-- An opener that goes on leaves the invariant alone, unless it is about to commit
something else. -/
theorem Sound.goto (hs : Sound sourcePath s) {p : Pc}
    (hp : ∀ entries mtime, p = .committing entries mtime →
      ImportOf sourcePath s.versions entries mtime) : Sound sourcePath (s.goto c p) where
  versions := hs.versions
  committed := hs.committed
  pending := by
    intro c' entries mtime hpc
    by_cases hc : c' = c
    · subst hc
      exact hp entries mtime (by simpa [State.goto] using hpc)
    · exact hs.pending c' entries mtime (by simpa [State.goto, hc] using hpc)

omit [DecidableEq ι] in
/-- The lock plays no part in the invariant. -/
theorem Sound.lock (hs : Sound sourcePath s) (writer : Option ι) :
    Sound sourcePath { s with writer := writer } :=
  ⟨hs.versions, hs.committed, hs.pending⟩

theorem Sound.abort (hs : Sound sourcePath s) {text : String} :
    Sound sourcePath (s.abort c text) :=
  (hs.goto (by rintro entries mtime ⟨⟩)).lock _

/-- **The second stat agrees**: the version that `record_metadata` stats imports to the
rows that were read. -/
def restatAgrees (sourcePath : PathBuf) (s : State ι) : Event ι → Bool
  | .step c =>
    match s.pc c, s.source with
    | .recording entries, some source =>
      match importRows sourcePath source.content with
      | .ok entries' => entries'.rows = entries.rows
      | .error _ => false
    | _, _ => true
  | _ => true

omit [DecidableEq ι] in
theorem importOf_of_restatAgrees {entries : ListfileTable} {mtime : ℤ}
    (hpc : s.pc c = .recording entries) (hagrees : restatAgrees sourcePath s (.step c))
    (hmtime : sourceMtime sourcePath s.source = .ok mtime) :
    ImportOf sourcePath s.versions entries mtime := by
  cases hsource : s.source with
  | none =>
    rw [hsource] at hmtime
    cases hmtime
  | some source =>
    have hmem : source ∈ s.versions := List.mem_of_mem_head? hsource
    rw [hsource, sourceMtime] at hmtime
    split_ifs at hmtime
    cases hmtime
    cases himport : importRows sourcePath source.content with
    | error text => simp [restatAgrees, hpc, hsource, himport] at hagrees
    | ok entries' =>
      have hrows : entries'.rows = entries.rows := by
        simpa [restatAgrees, hpc, hsource, himport] using hagrees
      exact ⟨source, hmem, rfl, by rw [himport, KeyedTable.ext hrows]⟩

/-- **What a step preserves**, one case for each place an opener may be at. -/
theorem sound_advance (hs : Sound sourcePath s) {p : Pc} (hpc : s.pc c = p)
    (hagrees : restatAgrees sourcePath s (.step c)) (h : advance sourcePath s c p = some s') :
    Sound sourcePath s' := by
  cases p with
  | idle => cases h
  | opening =>
    cases h
    exact hs.goto (by rintro entries mtime ⟨⟩)
  | checking =>
    cases h
    refine hs.goto fun entries mtime hcommit => ?_
    split_ifs at hcommit
  | probing =>
    cases h
    exact hs.goto (by rintro entries mtime ⟨⟩)
  | judging =>
    cases h
    refine hs.goto fun entries mtime hcommit => ?_
    cases hrecorded : recordedMtime sourcePath s.db with
    | none =>
      rw [hrecorded] at hcommit
      cases hcommit
    | some recorded =>
      rw [hrecorded] at hcommit
      cases hcommit
  | statting recorded =>
    simp only [advance] at h
    split at h
    · cases h
      exact hs.abort
    · cases h
      refine hs.goto fun entries mtime hcommit => ?_
      split_ifs at hcommit
  | beginning =>
    simp only [advance] at h
    split_ifs at h
    cases h
    exact (hs.goto (by rintro entries mtime ⟨⟩)).lock _
  | importing =>
    simp only [advance] at h
    split at h
    · cases h
      exact hs.abort
    · split at h
      · cases h
        exact hs.abort
      · cases h
        exact hs.goto (by rintro entries mtime ⟨⟩)
  | recording entries =>
    -- the only step that needs the guard: the pair it makes is what the commit records
    simp only [advance] at h
    split at h
    · cases h
      exact hs.abort
    · next mtime hmtime =>
      cases h
      refine hs.goto fun entries' mtime' hcommit => ?_
      cases hcommit
      exact importOf_of_restatAgrees hpc hagrees hmtime
  | committing entries mtime =>
    cases h
    -- the pair becomes the recorded one, and nobody's pending pair changes
    have hresting := hs.goto (c := c) (p := .done (.ok ())) (by rintro entries mtime ⟨⟩)
    refine ⟨hresting.versions, fun recorded hrecorded => ?_, hresting.pending⟩
    have hmtime : mtime = recorded := by simpa [recordedMtime] using hrecorded
    rw [← hmtime]
    exact ⟨entries, rfl, hs.pending c entries mtime hpc⟩
  | done result => cases h

theorem sound_step (hs : Sound sourcePath s) (hagrees : restatAgrees sourcePath s e)
    (h : step sourcePath s e = some s') : Sound sourcePath s' := by
  cases e with
  | edit source =>
    simp only [step] at h
    split_ifs at h with hused
    cases h
    -- the new time is unused, so every pair keeps the version it names
    refine ⟨List.pairwise_cons.mpr ⟨fun version hversion hmtime => ?_, hs.versions⟩,
      fun mtime hmtime => ?_,
      fun c entries mtime hpc => (hs.pending c entries mtime hpc).mono source⟩
    · exact hused (List.mem_map.mpr ⟨version, hversion, hmtime.symm⟩)
    · obtain ⟨entries, hentries, himport⟩ := hs.committed mtime hmtime
      exact ⟨entries, hentries, himport.mono source⟩
  | call c =>
    simp only [step] at h
    split_ifs at h
    cases h
    exact hs.goto (by rintro entries mtime ⟨⟩)
  | step c => exact sound_advance hs rfl hagrees h
  | fail c text =>
    simp only [step] at h
    split_ifs at h
    cases h
    exact hs.abort

theorem sound_run {source : Option Source} {es : List (Event ι)}
    (hguard : Runs.Guarded (step sourcePath) (fun s e => restatAgrees sourcePath s e)
      (State.initial source) es)
    (hrun : Runs.run (step sourcePath) (State.initial source) es = some s) :
    Sound sourcePath s :=
  Runs.invariant_of_guarded (Sound sourcePath)
    (fun _ _ _ hs hagrees h => sound_step hs hagrees h) (sound_initial source) hguard hrun

omit [DecidableEq ι] in
/-- The time of the current version is that of no other. -/
theorem Sound.eq_source (hs : Sound sourcePath s) {source version : Source}
    (hsource : s.source = some source) (hversion : version ∈ s.versions)
    (hmtime : version.mtime = source.mtime) : version = source := by
  have hsym : Std.Symm fun source source' : Source => source.mtime ≠ source'.mtime :=
    ⟨fun _ _ h => h.symm⟩
  by_contra hne
  exact hs.versions.forall hversion (List.mem_of_mem_head? hsource) hne hmtime

/-! ### What a fresh cache holds -/

omit [DecidableEq ι] in
/-- A time that is recorded and is that of the source is the time of nothing else. -/
theorem Sound.current (hs : Sound sourcePath s)
    (hfresh : cacheIsFresh sourcePath s.db s.source = .ok true) :
    ∃ current entries, s.source = some current ∧ s.db.entries = some entries ∧
      importRows sourcePath current.content = .ok entries := by
  unfold cacheIsFresh at hfresh
  cases hrecorded : recordedMtime sourcePath s.db with
  | none =>
    rw [hrecorded] at hfresh
    cases hfresh
  | some recorded =>
    rw [hrecorded] at hfresh
    cases hsource : s.source with
    | none =>
      rw [hsource] at hfresh
      cases hfresh
    | some current =>
      have hmtime : recorded = current.mtime := by
        rw [hsource] at hfresh
        simp only [sourceMtime] at hfresh
        split_ifs at hfresh
        · simpa [Except.map] using hfresh
        · cases hfresh
      obtain ⟨entries, hentries, version, hversion, hversionMtime, himport⟩ :=
        hs.committed recorded hrecorded
      rw [hs.eq_source hsource hversion (hversionMtime.trans hmtime)] at himport
      exact ⟨current, entries, rfl, hentries, himport⟩

/-- **A cache that is judged fresh is the import of the source**, in every run whose
second stats agree. -/
theorem current_of_fresh {source : Option Source} {es : List (Event ι)}
    (hguard : Runs.Guarded (step sourcePath) (fun s e => restatAgrees sourcePath s e)
      (State.initial source) es)
    (hrun : Runs.run (step sourcePath) (State.initial source) es = some s)
    (hfresh : cacheIsFresh sourcePath s.db s.source = .ok true) :
    ∃ current entries, s.source = some current ∧ s.db.entries = some entries ∧
      importRows sourcePath current.content = .ok entries :=
  (sound_run hguard hrun).current hfresh

/-- A listfile with one entry. -/
def oldVersion : Source := ⟨osString "1;a\n", 10⟩

/-- The listfile after an edit. -/
def newVersion : Source := ⟨osString "1;b\n", 20⟩

/-- The source path of the samples. -/
def samplePath : PathBuf := .ofStr "/s"

/-- What can be compared of a state: the judgement, the rows that are committed and
those the source imports to. -/
structure Seen where
  fresh : Option Bool
  committed : Option (List ListfileRow)
  current : Option (List ListfileRow)
  deriving DecidableEq

/-- What is seen of a state. -/
def State.seen (s : State ι) : Seen where
  fresh := (cacheIsFresh samplePath s.db s.source).toOption
  committed := s.db.entries.map KeyedTable.rows
  current := s.source.bind fun source =>
    (importRows samplePath source.content).toOption.map KeyedTable.rows

/-- What is seen after a run of the sample machine. -/
def seenAfter (es : List (Event ℕ)) : Option Seen :=
  (Runs.run (step samplePath) (State.initial (some oldVersion)) es).map State.seen

omit [DecidableEq ι] in
theorem cacheIsFresh_of_seen (h : s.seen.fresh = some true) :
    cacheIsFresh samplePath s.db s.source = .ok true := by
  simp only [State.seen] at h
  cases hfresh : cacheIsFresh samplePath s.db s.source with
  | error e =>
    rw [hfresh] at h
    cases h
  | ok fresh =>
    rw [hfresh] at h
    cases h
    rfl

/-- The source is edited when an opener has compared its two stats, and not yet committed what it
read; the next opener rebuilds the cache again. -/
def undisturbedRun : List (Event ℕ) :=
  .call 0 :: List.replicate 6 (.step 0) ++ .edit newVersion :: .step 0 :: .call 1 ::
    List.replicate 8 (.step 1)

/-- The cache that is accepted then holds the new version. -/
theorem current_of_fresh_sample :
    ∃ s, Runs.run (step samplePath) (State.initial (some oldVersion)) undisturbedRun = some s ∧
      ∃ current entries, s.source = some current ∧ s.db.entries = some entries ∧
        importRows samplePath current.content = .ok entries := by
  have hseen : seenAfter undisturbedRun = some ⟨some true, some [⟨1, "b"⟩], some [⟨1, "b"⟩]⟩ := by
    decide +kernel
  obtain ⟨s, hrun, hs⟩ := Option.map_eq_some_iff.mp hseen
  exact ⟨s, hrun, current_of_fresh (by decide +kernel) hrun
    (cacheIsFresh_of_seen (by rw [hs]))⟩

/-- The first opener reads the old version, the editor replaces it, and the opener
stats the new one. -/
def editedRun : List (Event ℕ) :=
  .call 0 :: List.replicate 5 (.step 0) ++ [.edit newVersion, .step 0, .step 0]

/-- **A stale import is judged fresh**: the rows of the old version stand under the time
of the new one. -/
theorem not_current_of_fresh :
    ¬∀ (sourcePath : PathBuf) (source : Option Source) (es : List (Event ℕ)) (s : State ℕ),
      Runs.run (step sourcePath) (State.initial source) es = some s →
      cacheIsFresh sourcePath s.db s.source = .ok true →
      ∃ current entries, s.source = some current ∧ s.db.entries = some entries ∧
        importRows sourcePath current.content = .ok entries := by
  intro hall
  have hseen : seenAfter editedRun = some ⟨some true, some [⟨1, "a"⟩], some [⟨1, "b"⟩]⟩ := by
    decide +kernel
  obtain ⟨s, hrun, hs⟩ := Option.map_eq_some_iff.mp hseen
  obtain ⟨current, entries, hsource, hentries, himport⟩ :=
    hall samplePath _ _ s hrun (cacheIsFresh_of_seen (by rw [hs]))
  have hsame : s.seen.committed = s.seen.current := by
    simp [State.seen, hsource, hentries, himport, Except.toOption]
  rw [hs] at hsame
  revert hsame
  decide

end CommunityCache

end AssetResolver
