import AssetResolver.Listfile.Rebuild

/-!
# The statements of a rebuild and its steps

`ensure_cache` has two machines. `AssetResolver.CommunityCache` takes a rebuild in four
steps, over one value that is committed whole; `AssetResolver.CacheRebuild` takes it
statement by statement, over the tables of a database file. The second **refines** the
first (`AssetResolver.CacheRebuild.Refines.follows_run`): an event of the second is one
event of the first or none, and an error, wherever it comes from, is its event of failure.

Where an opener is in the first machine is a function of where it is in the second
(`AssetResolver.CacheRebuild.Pc.view`): it has the lock as soon as it has a copy, it has
imported the source as soon as the source is open, and the second stat settles the pair it
commits. So the judgement of the first machine holds of the statements too: tables that
are judged fresh are the import of the source
(`AssetResolver.CacheRebuild.imported_of_fresh`).
-/

namespace AssetResolver

namespace CacheRebuild

open CommunityCache (CacheDb Source sourceMtime)

variable {ι : Type} [DecidableEq ι]

/-! ### What the first machine sees -/

/-- The rows of a table, if there is one. -/
def Stored.rows {α : Type} : Stored α → Option α
  | .table rows => some rows
  | _ => none

/-- The tables as contents of the cache file. -/
def Tables.view (tables : Tables) : CacheDb := ⟨tables.metadata.rows, tables.entries.rows⟩

/-- Where an opener is once the source is open: behind the import, unless that fails. -/
def readAs (sourcePath : PathBuf) (content : List UInt8)
    (p : ListfileTable → CommunityCache.Pc) : CommunityCache.Pc :=
  match importRows sourcePath content with
  | .ok rows => p rows
  | .error _ => .importing

/-- **Where an opener is in the first machine.** The lock is taken by the first of the batch
that writes, the second of six statements. -/
def Pc.view (sourcePath : PathBuf) : Pc → CommunityCache.Pc
  | .idle => .idle
  | .opening => .opening
  | .checking => .checking
  | .probing => .probing
  | .judging => .judging
  | .statting recorded => .statting recorded
  | .executing batch => if batch.length < 5 then .importing else .beginning
  | .openingSource => .importing
  | .inserting content _ => readAs sourcePath content .recording
  | .restatting content => readAs sourcePath content .recording
  | .recording content mtime => readAs sourcePath content fun rows => .committing rows mtime
  | .committing content mtime => readAs sourcePath content fun rows => .committing rows mtime
  | .done result => .done result

/-- Behind an import that does not fail. -/
theorem readAs_of_ok {sourcePath : PathBuf} {content : List UInt8} {rows : ListfileTable}
    (h : importRows sourcePath content = .ok rows) (p : ListfileTable → CommunityCache.Pc) :
    readAs sourcePath content p = p rows := by
  rw [readAs, h]

/-- An opener is in no call in either machine. -/
theorem isResting_view (sourcePath : PathBuf) (p : Pc) :
    (p.view sourcePath).isResting = p.isResting := by
  have hread : ∀ content (q : ListfileTable → CommunityCache.Pc),
      (∀ rows, (q rows).isResting = false) → (readAs sourcePath content q).isResting = false := by
    intro content q hq
    rw [readAs]
    split
    · exact hq _
    · rfl
  cases p with
  | executing batch =>
    rw [Pc.view]
    split_ifs
    · rfl
    · rfl
  | inserting content lines => exact hread _ _ fun _ => rfl
  | restatting content => exact hread _ _ fun _ => rfl
  | recording content mtime => exact hread _ _ fun _ => rfl
  | committing content mtime => exact hread _ _ fun _ => rfl
  | _ => rfl

/-- **What the two machines agree on**, the source having had these versions: the source, the
committed tables, who has the lock, and where the openers are. -/
structure Refines (sourcePath : PathBuf) (versions : List Source) (s : State ι)
    (a : CommunityCache.State ι) : Prop where
  versions : a.versions = versions
  source : a.source = s.source
  db : a.db = s.db.committed.view
  writer : ∀ c, a.writer = some c ↔ ∃ copy, s.db.tx c = .writing copy
  pc : ∀ c, a.pc c = (s.pc c).view sourcePath
  progress : ∀ c, Progress sourcePath Set.univ (s.db.tx c) (s.pc c)

variable {sourcePath : PathBuf} {versions : List Source} {s s' : State ι}
  {a : CommunityCache.State ι} {c : ι} {p : Pc} {db : DbFile ι Tables} {tx : Tx Tables}

omit [DecidableEq ι] in
/-- No two openers have a copy. -/
theorem eq_of_writing {c' : ι} {copy copy' : Tables} (h : s.db.tx c = .writing copy)
    (h' : s.db.tx c' = .writing copy') : c' = c :=
  Option.some.inj ((s.db.locked c' copy' h').symm.trans (s.db.locked c copy h))

/-- An opener goes on in both machines, and the file is as it was. -/
theorem Refines.went (hs : Refines sourcePath versions s a) (writer : Option ι)
    (hkept : DbFile.Kept s.db db c tx) (hprogress : Progress sourcePath Set.univ tx p)
    (hself : writer = some c ↔ ∃ copy, tx = .writing copy)
    (hothers : ∀ c', c' ≠ c → (writer = some c' ↔ a.writer = some c')) :
    Refines sourcePath versions { s.goto c p with db := db }
      { a.goto c (p.view sourcePath) with writer := writer } where
  versions := hs.versions
  source := hs.source
  db := hs.db.trans (congrArg Tables.view hkept.committed.symm)
  writer := by
    intro c'
    by_cases hc : c' = c
    · subst hc
      rw [hkept.self]
      exact hself
    · rw [hkept.others c' hc]
      exact (hothers c' hc).trans (hs.writer c')
  pc := by
    intro c'
    by_cases hc : c' = c
    · subst hc
      simp [State.goto, CommunityCache.State.goto]
    · simpa [State.goto, CommunityCache.State.goto, hc] using hs.pc c'
  progress := by
    intro c'
    by_cases hc : c' = c
    · subst hc
      simpa [State.goto, hkept.self] using hprogress
    · simpa [State.goto, hc, hkept.others c' hc] using hs.progress c'

/-- An opener goes on in both machines without an operation on the file. -/
theorem Refines.goto (hs : Refines sourcePath versions s a)
    (hprogress : Progress sourcePath Set.univ (s.db.tx c) p) :
    Refines sourcePath versions (s.goto c p) (a.goto c (p.view sourcePath)) :=
  hs.went a.writer (DbFile.Kept.refl _ _) hprogress (hs.writer c) fun _ _ => Iff.rfl

/-- An opener goes on, and the first machine does nothing. -/
theorem Refines.stutter (hs : Refines sourcePath versions s a) (hkept : DbFile.Kept s.db db c tx)
    (hprogress : Progress sourcePath Set.univ tx p)
    (htx : (∃ copy, tx = .writing copy) ↔ ∃ copy, s.db.tx c = .writing copy)
    (hview : p.view sourcePath = (s.pc c).view sourcePath) :
    Refines sourcePath versions { s.goto c p with db := db } a := by
  have hgoto : { a.goto c (p.view sourcePath) with writer := a.writer } = a := by
    rw [CommunityCache.State.goto, hview, ← hs.pc c, Function.update_eq_self]
  have hwent := hs.went a.writer hkept hprogress ((hs.writer c).trans htx.symm)
    fun _ _ => Iff.rfl
  rwa [hgoto] at hwent

/-- An opener returns an error in both machines. -/
theorem Refines.abort (hs : Refines sourcePath versions s a) (text : String) :
    Refines sourcePath versions (s.abort c text) (a.abort c text) := by
  refine hs.went (p := .done (.error text)) _ DbFile.kept_close rfl ?_ fun c' hc => ?_
  · refine ⟨fun h => ?_, by rintro ⟨copy, ⟨⟩⟩⟩
    split_ifs at h with hwriter
    exact absurd h hwriter
  · split_ifs with hwriter
    · rw [hwriter]
      exact ⟨by rintro ⟨⟩, fun h => absurd (Option.some.inj h).symm hc⟩
    · rfl

/-! ### A statement is a step or none -/

/-- **The second stat agrees**: what it stats imports to the rows that were read. -/
def restatAgrees (sourcePath : PathBuf) (s : State ι) : Event ι → Bool
  | .step c =>
    match s.pc c, s.source with
    | .restatting content, some source =>
      (importRows sourcePath source.content).toOption.map KeyedTable.rows =
        (importRows sourcePath content).toOption.map KeyedTable.rows
    | _, _ => true
  | _ => true

/-- The first machine can follow to `t`, by steps whose second stats agree. -/
def Follows (sourcePath : PathBuf) (versions : List Source) (a : CommunityCache.State ι)
    (t : State ι) : Prop :=
  ∃ es a', Runs.run (CommunityCache.step sourcePath) a es = some a' ∧
    Runs.Guarded (CommunityCache.step sourcePath)
      (fun a e => CommunityCache.restatAgrees sourcePath a e) a es ∧
    Refines sourcePath versions t a'

/-- By no step. -/
theorem Follows.none (h : Refines sourcePath versions s' a) : Follows sourcePath versions a s' :=
  ⟨[], a, rfl, trivial, h⟩

/-- By one step. -/
theorem Follows.one {a' : CommunityCache.State ι} (e : CommunityCache.Event ι)
    (hstep : CommunityCache.step sourcePath a e = some a')
    (hagrees : CommunityCache.restatAgrees sourcePath a e) (h : Refines sourcePath versions s' a') :
    Follows sourcePath versions a s' :=
  ⟨[e], a', Runs.run_cons_eq_some.mpr ⟨a', hstep, rfl⟩, ⟨hagrees, fun _ _ => trivial⟩, h⟩

/-- By a step of the opener, which is before no second stat. -/
theorem Follows.step {q : CommunityCache.Pc} {a' : CommunityCache.State ι}
    (hpc : a.pc c = q) (hstep : CommunityCache.advance sourcePath a c q = some a')
    (hq : ∀ rows, q ≠ .recording rows) (h : Refines sourcePath versions s' a') :
    Follows sourcePath versions a s' := by
  refine .one (.step c) (by rw [CommunityCache.step, hpc, hstep]) ?_ h
  simp only [CommunityCache.restatAgrees, hpc]
  split
  · exact absurd rfl (hq _)
  · rfl

/-- An error is followed by a failure. -/
theorem Refines.follows_abort (hs : Refines sourcePath versions s a)
    (hresting : ¬(s.pc c).isResting) (text : String) :
    Follows sourcePath versions a (s.abort c text) := by
  refine .one (.fail c text) ?_ rfl (hs.abort text)
  rw [CommunityCache.step, hs.pc c, isResting_view, if_neg hresting]

/-- Behind an operation on the file: either it failed, or what it did is known. -/
theorem Refines.follows_execute (hs : Refines sourcePath versions s a)
    (hresting : ¬(s.pc c).isResting)
    {text : String} {outcome : DbFile.Outcome ι Tables}
    (hdone : ∀ db', outcome = some (.ok db') →
      Follows sourcePath versions a { s.goto c p with db := db' })
    (h : s.execute c text p outcome = some s') : Follows sourcePath versions a s' := by
  rcases outcome with _ | (e | db')
  · cases h
  · cases h
    exact hs.follows_abort hresting _
  · cases h
    exact hdone db' rfl

/-- What is kept for where the opener goes. -/
theorem progress_of_goto
    (h : Progress sourcePath Set.univ (({ s.goto c p with db := db } : State ι).db.tx c)
      (({ s.goto c p with db := db } : State ι).pc c)) :
    Progress sourcePath Set.univ (db.tx c) p := by
  simpa [State.goto] using h

/-- Going on without an operation on the file is followed by nothing, if it is no step. -/
theorem Refines.follows_goto (hs : Refines sourcePath versions s a)
    (hview : p.view sourcePath = (s.pc c).view sourcePath)
    (hprogress : Progress sourcePath Set.univ ((s.goto c p).db.tx c) ((s.goto c p).pc c)) :
    Follows sourcePath versions a (s.goto c p) :=
  .none (hs.stutter (DbFile.Kept.refl _ _) (progress_of_goto hprogress) Iff.rfl hview)

/-- A write within the transaction is followed by nothing. -/
theorem Refines.follows_write (hs : Refines sourcePath versions s a)
    (hresting : ¬(s.pc c).isResting)
    {text : String} {w : Write} {copy : Tables} (htx : s.db.tx c = .writing copy)
    (hview : p.view sourcePath = (s.pc c).view sourcePath)
    (hprogress : Progress sourcePath Set.univ (s'.db.tx c) (s'.pc c))
    (h : s.execute c text p (s.db.write c w.apply) = some s') :
    Follows sourcePath versions a s' := by
  rcases houtcome : s.db.write c w.apply with _ | (e | db')
  · rw [houtcome] at h
    cases h
  · rw [houtcome] at h
    cases h
    exact hs.follows_abort hresting _
  · rw [houtcome] at h
    cases h
    obtain ⟨copy', -, hkept⟩ := DbFile.write_of_writing htx houtcome
    have hgoto := progress_of_goto hprogress
    rw [hkept.self] at hgoto
    exact .none (hs.stutter hkept hgoto ⟨fun _ => ⟨copy, htx⟩, fun _ => ⟨copy', rfl⟩⟩ hview)

/-! ### One case for each place -/

/-- **The batch**: its first write is followed by the taking of the lock, the statements
around it by nothing. -/
theorem Refines.follows_executing (hs : Refines sourcePath versions s a) {batch : List Statement}
    (hpc : s.pc c = .executing batch)
    (hprogress : Progress sourcePath Set.univ (s'.db.tx c) (s'.pc c))
    (h : advance sourcePath s c (.executing batch) = some s') :
    Follows sourcePath versions a s' := by
  have hresting : ¬(s.pc c).isResting := by
    rw [hpc]
    rintro ⟨⟩
  have hbatch : Batch batch (s.db.tx c) := by simpa [hpc, Progress] using hs.progress c
  generalize htx : s.db.tx c = tx at hbatch
  cases hbatch with
  | start =>
    refine hs.follows_execute hresting (fun db' hdb' => ?_) h
    obtain ⟨db, hbegin, hkept⟩ := DbFile.begin_of_autocommit htx
    obtain rfl : db = db' := Except.ok.inj (Option.some.inj (hbegin.symm.trans hdb'))
    exact .none (hs.stutter hkept Batch.begun (by simp [htx]) (by rw [hpc]; rfl))
  | begun =>
    refine hs.follows_execute hresting (fun db' hdb' => ?_) h
    obtain ⟨hfree, copy, happly, hkept⟩ := DbFile.write_of_deferred htx hdb'
    cases happly
    -- nobody has a copy, so the lock is free here too
    have hwriter : a.writer = none := by
      rw [Option.eq_none_iff_forall_ne_some]
      intro c' hc'
      obtain ⟨copy', hcopy'⟩ := (hs.writer c').mp hc'
      rw [s.db.locked c' copy' hcopy'] at hfree
      cases hfree
    refine .step (q := .beginning) (by rw [hs.pc c, hpc]; rfl)
      (by rw [CommunityCache.advance, if_pos hwriter]) (by rintro rows ⟨⟩) ?_
    refine hs.went (some c) hkept (Batch.droppedMetadata _) (by simp) fun c' hc => ?_
    rw [hwriter]
    exact ⟨fun heq => absurd (Option.some.inj heq).symm hc, by rintro ⟨⟩⟩
  | indexed =>
    cases h
    exact hs.follows_goto (by rw [hpc]; rfl) hprogress
  | droppedMetadata entries =>
    exact hs.follows_write hresting htx (by rw [hpc]; rfl) hprogress h
  | dropped => exact hs.follows_write hresting htx (by rw [hpc]; rfl) hprogress h
  | createdMetadata => exact hs.follows_write hresting htx (by rw [hpc]; rfl) hprogress h
  | created => exact hs.follows_write hresting htx (by rw [hpc]; rfl) hprogress h

/-- **The lines of the source** are followed by nothing: the import is made already. -/
theorem Refines.follows_inserting (hs : Refines sourcePath versions s a) {content : List UInt8}
    {lines : List (List UInt8)} (hpc : s.pc c = .inserting content lines)
    (hprogress : Progress sourcePath Set.univ (s'.db.tx c) (s'.pc c))
    (h : advance sourcePath s c (.inserting content lines) = some s') :
    Follows sourcePath versions a s' := by
  have hresting : ¬(s.pc c).isResting := by
    rw [hpc]
    rintro ⟨⟩
  obtain ⟨-, front, rows, -, -, htx⟩ :
      Progress sourcePath Set.univ (s.db.tx c) (.inserting content lines) := hpc ▸ hs.progress c
  cases lines with
  | nil =>
    cases h
    exact hs.follows_goto (by rw [hpc]; rfl) hprogress
  | cons line lines =>
    rcases htext : fromUtf8 line with _ | text
    · simp only [advance, htext] at h
      cases h
      exact hs.follows_abort hresting _
    · rcases hrow : parseRow text with _ | row
      · simp only [advance, htext, hrow] at h
        cases h
        exact hs.follows_goto (by rw [hpc]; rfl) hprogress
      · simp only [advance, htext, hrow] at h
        exact hs.follows_write hresting htx (by rw [hpc]; rfl) hprogress h

/-- **The commit** is followed by the commit. -/
theorem Refines.follows_committing (hs : Refines sourcePath versions s a) {content : List UInt8}
    {mtime : ℤ} (hpc : s.pc c = .committing content mtime)
    (h : advance sourcePath s c (.committing content mtime) = some s') :
    Follows sourcePath versions a s' := by
  obtain ⟨-, rows, ⟨-, hrows⟩, htx⟩ :
      Progress sourcePath Set.univ (s.db.tx c) (.committing content mtime) :=
    hpc ▸ hs.progress c
  obtain ⟨db', hcommit, hfirst, hhistory, hself, hothers⟩ := DbFile.commit_of_writing htx
  simp only [advance, hcommit] at h
  cases h
  refine .step (q := .committing rows mtime) (by rw [hs.pc c, hpc]; exact readAs_of_ok hrows _)
    rfl (by rintro rows ⟨⟩) ⟨hs.versions, hs.source, ?_, fun c' => ?_, fun c' => ?_, fun c' => ?_⟩
  · simp [DbFile.committed, hhistory, Tables.view, Stored.rows]
  · -- nobody had a copy but the opener, and it has none any more
    refine ⟨by rintro ⟨⟩, ?_⟩
    rintro ⟨copy', hcopy'⟩
    by_cases hc : c' = c
    · subst hc
      rw [hself] at hcopy'
      cases hcopy'
    · rw [hothers c' hc] at hcopy'
      exact absurd (eq_of_writing htx hcopy') hc
  · by_cases hc : c' = c
    · subst hc
      simp [State.goto, CommunityCache.State.goto, Pc.view]
    · simpa [State.goto, CommunityCache.State.goto, hc] using hs.pc c'
  · by_cases hc : c' = c
    · subst hc
      simpa [State.goto, Progress] using hself
    · simpa [State.goto, hc, hothers c' hc] using hs.progress c'

/-- **What the query of `cache_is_fresh` finds** is what it finds in the view. -/
theorem recordedMtime_view (sourcePath : PathBuf) (tables : Tables) :
    CommunityCache.recordedMtime sourcePath tables.view =
      match tables.metadata with
      | .table ((path, mtime) :: _) => if path = sourcePath.display then some mtime else none
      | _ => none := by
  rcases tables with ⟨_ | (_ | ⟨⟨path, mtime⟩, rows⟩) | text, entries⟩
  · rfl
  · rfl
  · rfl
  · rfl

/-- **The second stat** is followed by the second stat. -/
theorem Refines.follows_restatting (hs : Refines sourcePath versions s a) {content : List UInt8}
    (hpc : s.pc c = .restatting content) (hagrees : restatAgrees sourcePath s (.step c))
    (hprogress : Progress sourcePath Set.univ (s'.db.tx c) (s'.pc c))
    (h : advance sourcePath s c (.restatting content) = some s') :
    Follows sourcePath versions a s' := by
  have hresting : ¬(s.pc c).isResting := by
    rw [hpc]
    rintro ⟨⟩
  obtain ⟨rows, ⟨-, hrows⟩, -⟩ :
      Progress sourcePath Set.univ (s.db.tx c) (.restatting content) := hpc ▸ hs.progress c
  have hpcA : a.pc c = .recording rows := by
    rw [hs.pc c, hpc]
    exact readAs_of_ok hrows _
  simp only [advance] at h
  split at h
  · cases h
    exact hs.follows_abort hresting _
  · next mtime hmtime =>
    cases h
    refine .one (.step c) ?_ ?_ (hs.goto (progress_of_goto hprogress))
    · have hview : (Pc.recording content mtime).view sourcePath = .committing rows mtime :=
        readAs_of_ok hrows _
      rw [CommunityCache.step, hpcA, CommunityCache.advance, hs.source, hmtime, hview]
    · rcases hsource : s.source with _ | source
      · rw [hsource] at hmtime
        cases hmtime
      · have hrowsAgree : (importRows sourcePath source.content).toOption.map KeyedTable.rows =
            some rows.rows := by
          simpa [restatAgrees, hpc, hsource, hrows, Except.toOption] using hagrees
        rcases himport : importRows sourcePath source.content with text | rows'
        · rw [himport] at hrowsAgree
          cases hrowsAgree
        · rw [himport] at hrowsAgree
          simpa [CommunityCache.restatAgrees, hpcA, hs.source, hsource, himport] using
            Option.some.inj hrowsAgree

/-- **A step of an opener is a step or none**, one case for each place it may be at. -/
theorem Refines.follows_advance (hs : Refines sourcePath versions s a) (hpc : s.pc c = p)
    (hagrees : restatAgrees sourcePath s (.step c)) (h : advance sourcePath s c p = some s') :
    Follows sourcePath versions a s' := by
  have hprogress : Progress sourcePath Set.univ (s'.db.tx c) (s'.pc c) :=
    (advanced_of_advance (hpc ▸ hs.progress c) (fun _ _ => Set.mem_univ _) h).self.2
  have hpcA : a.pc c = p.view sourcePath := hpc ▸ hs.pc c
  -- a step that goes on here and there
  have hgoto : ∀ {p'}, s.goto c p' = s' →
      CommunityCache.advance sourcePath a c (p.view sourcePath) =
        some (a.goto c (p'.view sourcePath)) →
      (∀ rows, p.view sourcePath ≠ .recording rows) → Follows sourcePath versions a s' := by
    rintro p' rfl hadvance hrows
    exact .step hpcA hadvance hrows (hs.goto (progress_of_goto hprogress))
  cases p with
  | idle => cases h
  | done result => cases h
  | executing batch => exact hs.follows_executing hpc hprogress h
  | inserting content lines => exact hs.follows_inserting hpc hprogress h
  | restatting content => exact hs.follows_restatting hpc hagrees hprogress h
  | committing content mtime => exact hs.follows_committing hpc h
  | opening =>
    cases h
    exact hgoto rfl rfl (by rintro rows ⟨⟩)
  | checking =>
    cases h
    refine hgoto rfl ?_ (by rintro rows ⟨⟩)
    show some (a.goto c (if a.source.isSome then _ else _)) = _
    rw [hs.source]
    split_ifs
    · rfl
    · rfl
  | probing =>
    have hresting : ¬(s.pc c).isResting := by
      rw [hpc]
      rintro ⟨⟩
    simp only [advance] at h
    split at h
    · cases h
      exact hs.follows_abort hresting _
    · cases h
      exact hs.follows_abort hresting _
    · next rows hrows =>
      split_ifs at h with hempty
      · cases h
        exact hs.follows_abort hresting _
      · cases h
        refine hgoto rfl ?_ (by rintro rows ⟨⟩)
        have hhas : CommunityCache.cacheHasEntries a.db = true := by
          simpa [hs.db, CommunityCache.cacheHasEntries, Tables.view, hrows, Stored.rows]
            using hempty
        show some (a.goto c (.done (if CommunityCache.cacheHasEntries a.db then _ else _))) = _
        rw [if_pos hhas]
        rfl
  | judging =>
    have hrecorded := recordedMtime_view sourcePath s.db.committed
    rw [← hs.db] at hrecorded
    simp only [advance] at h
    split at h
    · cases h
      exact hs.follows_abort (by rw [hpc]; rintro ⟨⟩) _
    · next path mtime _ hmetadata =>
      cases h
      refine hgoto rfl ?_ (by rintro rows ⟨⟩)
      rw [hmetadata] at hrecorded
      show some (a.goto c (Option.elim _ _ _)) = _
      rw [hrecorded]
      simp only
      split_ifs
      · rfl
      · rfl
    · next hforeign htable =>
      cases h
      refine hgoto rfl ?_ (by rintro rows ⟨⟩)
      show some (a.goto c (Option.elim _ _ _)) = _
      rw [hrecorded]
      split
      · next path mtime rest hmetadata => exact absurd hmetadata (htable path mtime rest)
      · rfl
  | statting recorded =>
    simp only [advance] at h
    split at h
    · cases h
      exact hs.follows_abort (by rw [hpc]; rintro ⟨⟩) _
    · next mtime hmtime =>
      cases h
      refine hgoto rfl ?_ (by rintro rows ⟨⟩)
      rw [Pc.view, CommunityCache.advance, hs.source, hmtime]
      simp only
      split_ifs
      · rfl
      · rfl
  | openingSource =>
    have hresting : ¬(s.pc c).isResting := by
      rw [hpc]
      rintro ⟨⟩
    simp only [advance] at h
    split at h
    · cases h
      exact hs.follows_abort hresting _
    · next source hsource =>
      cases h
      rcases himport : importRows sourcePath source.content with text | rows
      · -- the import will fail at some line, and nothing happens until then
        refine hs.follows_goto ?_ hprogress
        rw [hpc, Pc.view, Pc.view, readAs, himport]
      · refine hgoto rfl ?_ (by rintro rows ⟨⟩)
        have hview : ∀ lines, (Pc.inserting source.content lines).view sourcePath =
            .recording rows := fun _ => readAs_of_ok himport _
        rw [Pc.view, CommunityCache.advance, hs.source, hsource, hview]
        simp only [himport]
  | recording content mtime =>
    obtain ⟨-, rows, -, htx⟩ :
        Progress sourcePath Set.univ (s.db.tx c) (.recording content mtime) :=
      hpc ▸ hs.progress c
    exact hs.follows_write (by rw [hpc]; rintro ⟨⟩) htx (by rw [hpc]; rfl) hprogress h

/-! ### Runs -/

/-- The editor replaces the source by versions with times that no other has, and never
removes it. -/
def Dated : List Source → List (Event ι) → Prop
  | _, [] => True
  | versions, .edit source :: es =>
    ∃ version, source = some version ∧ version.mtime ∉ versions.map Source.mtime ∧
      Dated (version :: versions) es
  | versions, .query :: es => Dated versions es
  | versions, .call _ :: es => Dated versions es
  | versions, .step _ :: es => Dated versions es
  | versions, .fail _ _ :: es => Dated versions es

omit [DecidableEq ι] in
theorem refines_initial {source : Option Source} {tables : Tables}
    (htables : tables.view = .empty) :
    Refines sourcePath source.toList (State.initial source tables : State ι)
      (CommunityCache.State.initial source) where
  versions := rfl
  source := by
    cases source with
    | none => rfl
    | some source => rfl
  db := htables.symm
  writer := fun c => ⟨by rintro ⟨⟩, by rintro ⟨copy, ⟨⟩⟩⟩
  pc := fun _ => rfl
  progress := fun _ => rfl

/-- **An event is an event or none**, apart from edits. -/
theorem Refines.follows (hs : Refines sourcePath versions s a) {e : Event ι}
    (hedit : ∀ source, e ≠ .edit source) (hagrees : restatAgrees sourcePath s e)
    (h : step sourcePath s e = some s') : Follows sourcePath versions a s' := by
  cases e with
  | edit source => exact absurd rfl (hedit source)
  | query =>
    cases h
    exact .none ⟨hs.versions, hs.source, hs.db, hs.writer, hs.pc, hs.progress⟩
  | call c =>
    simp only [step] at h
    split_ifs at h with hresting
    cases h
    refine .one (.call c) ?_ rfl
      (hs.goto (p := .opening) (autocommit_of_isResting (hs.progress c) hresting))
    rw [CommunityCache.step, hs.pc c, isResting_view, if_pos hresting]
    rfl
  | step c => exact hs.follows_advance rfl hagrees h
  | fail c text =>
    simp only [step] at h
    split_ifs at h with hresting
    cases h
    exact hs.follows_abort hresting text

/-- An edit is followed by the edit. -/
theorem Refines.follows_edit (hs : Refines sourcePath versions s a) {version : Source}
    (hversion : version.mtime ∉ versions.map Source.mtime) :
    Follows sourcePath (version :: versions) a { s with source := some version } := by
  have hstep : CommunityCache.step sourcePath a (.edit version) =
      some { a with versions := version :: a.versions } := by
    rw [CommunityCache.step, hs.versions, if_neg hversion]
  exact .one (.edit version) hstep rfl
    ⟨congrArg (version :: ·) hs.versions, rfl, hs.db, hs.writer, hs.pc, hs.progress⟩

/-- **The first machine follows a run** of the statements. -/
theorem Refines.follows_run {es : List (Event ι)} (hs : Refines sourcePath versions s a)
    (hdated : Dated versions es)
    (hagrees : Runs.Guarded (step sourcePath) (fun s e => restatAgrees sourcePath s e) s es)
    (hrun : Runs.run (step sourcePath) s es = some s') :
    ∃ later, Follows sourcePath later a s' := by
  induction es generalizing versions s a with
  | nil =>
    cases hrun
    exact ⟨versions, .none hs⟩
  | cons e es ih =>
    obtain ⟨t, ht, hrest⟩ := Runs.run_cons_eq_some.mp hrun
    -- the versions behind the event, which only an edit changes
    obtain ⟨versions', ⟨front, a', hfront, hguard, ht'⟩, hdated'⟩ :
        ∃ versions', Follows sourcePath versions' a t ∧ Dated versions' es := by
      cases e with
      | edit source =>
        obtain ⟨version, rfl, hversion, hdated⟩ := hdated
        cases ht
        exact ⟨_, hs.follows_edit hversion, hdated⟩
      | query => exact ⟨_, hs.follows (by rintro source ⟨⟩) hagrees.1 ht, hdated⟩
      | call c => exact ⟨_, hs.follows (by rintro source ⟨⟩) hagrees.1 ht, hdated⟩
      | step c => exact ⟨_, hs.follows (by rintro source ⟨⟩) hagrees.1 ht, hdated⟩
      | fail c text => exact ⟨_, hs.follows (by rintro source ⟨⟩) hagrees.1 ht, hdated⟩
    obtain ⟨later, back, a'', hback, hguard', hs'⟩ := ih ht' hdated' (hagrees.2 t ht) hrest
    exact ⟨later, front ++ back, a'', by rw [Runs.run_append, hfront]; exact hback,
      hguard.append hfront hguard', hs'⟩

/-- **Tables that are judged fresh are the import of the source**, in every run of the
statements whose second stats agree. -/
theorem imported_of_fresh {source : Option Source} {tables : Tables} {es : List (Event ι)}
    (htables : tables.view = .empty) (hdated : Dated source.toList es)
    (hagrees : Runs.Guarded (step sourcePath) (fun s e => restatAgrees sourcePath s e)
      (State.initial source tables) es)
    (hrun : Runs.run (step sourcePath) (State.initial source tables) es = some s)
    (hfresh : CommunityCache.cacheIsFresh sourcePath s.db.committed.view s.source = .ok true) :
    ∃ current rows, s.source = some current ∧ s.db.committed.entries = .table rows ∧
      importRows sourcePath current.content = .ok rows := by
  obtain ⟨later, es', a, hrunA, hguard, ha⟩ :=
    (refines_initial htables).follows_run hdated hagrees hrun
  rw [← ha.db, ← ha.source] at hfresh
  obtain ⟨current, rows, hsource, hentries, himport⟩ :=
    (CommunityCache.sound_run hguard hrunA).current hfresh
  refine ⟨current, rows, ha.source.symm.trans hsource, ?_, himport⟩
  rw [ha.db] at hentries
  rcases hcommitted : s.db.committed.entries with _ | rows' | text
  all_goals simp only [Tables.view, hcommitted, Stored.rows] at hentries
  · cases hentries
  · rw [Option.some.inj hentries]
  · cases hentries

/-- The run of `rebuild_atomic_sample` ends with the edited source, freshly imported. -/
theorem imported_of_fresh_sample :
    ∃ s, Runs.run (step CommunityCache.samplePath) (State.initial (some brokenSource) foreignTables)
        sampleRun = some s ∧
      ∃ current rows, s.source = some current ∧ s.db.committed.entries = .table rows ∧
        importRows CommunityCache.samplePath current.content = .ok rows := by
  have hfresh : (Runs.run (step CommunityCache.samplePath)
      (State.initial (some brokenSource) foreignTables) sampleRun).map (fun s =>
        (CommunityCache.cacheIsFresh CommunityCache.samplePath s.db.committed.view
          s.source).toOption) = some (some true) := by decide +kernel
  obtain ⟨s, hrun, hs⟩ := Option.map_eq_some_iff.mp hfresh
  have hdated : Dated (some brokenSource).toList sampleRun :=
    show ∃ version, some CommunityCache.newVersion = some version ∧ _ ∧ True from
      ⟨_, rfl, by decide, trivial⟩
  refine ⟨s, hrun, imported_of_fresh rfl hdated (by decide +kernel) hrun ?_⟩
  rcases hcache : CommunityCache.cacheIsFresh CommunityCache.samplePath s.db.committed.view
    s.source with text | fresh
  · rw [hcache] at hs
    cases hs
  · rw [hcache] at hs
    rw [Option.some.inj hs]

end CacheRebuild

end AssetResolver
