import AssetResolver.Resolution.Publish
import AssetResolver.Resolution.Table

/-!
# Clearing what an older builder left

Before publication was atomic, a builder worked in the published directory itself,
and one that was killed there left a transaction open: the database file with
uncommitted pages, and the rollback journal or the WAL that says so. The publisher
removes such a directory, one file after the other, before it renames its own.

The sidecar is what keeps the directory from being judged fresh, so **the order of
the unlinks matters**. If the last sidecar goes first and the publisher is killed,
what is left is a database with a current metadata row over half of its rows, and
nothing beside it says that they were never committed
(`AssetResolver.Publish.Exposes`). As long as that does not happen, a fresh
directory is always the output of a build that committed
(`AssetResolver.Publish.committed_of_fresh`).

The builder is now SQLite in its staging directory: while its journal is there the
file may say anything, and the commit that removes the journal leaves the whole
table (`AssetResolver.Publish.sqliteBuilder`).
-/

namespace AssetResolver

namespace Publish

open Runs LastWins

/-! ### The builder -/

/-- The metadata files of a build, parsed. -/
structure Metadata where
  /-- `root.bin`. -/
  root : RootFile
  /-- `encoding.bin`. -/
  encoding : EncodingFile

variable {κ : Type} (inputs : κ → Metadata)

/-- **The output of a build that committed**, with every row of one of the inputs. -/
def Committed (contents : Contents) : Prop :=
  ∃ k order rootMtime encMtime, contents =
    builtContents (resolutionRows order (inputs k).root (inputs k).encoding) rootMtime encMtime

/-- A database in which nothing was created yet. -/
def emptyContents : Contents := .tables none none

/-- An operation of a builder on its directory. -/
inductive SqliteOp (κ : Type) where
  /-- Writes a metadata file. -/
  | writeFile (f : MetadataFile) (file : StoredFile) : SqliteOp κ
  /-- Opens the database, creating it. -/
  | connect : SqliteOp κ
  /-- Opens a transaction: the journal keeps what the file said. -/
  | begin : SqliteOp κ
  /-- Pages of the transaction reach the file. -/
  | spill (contents : Contents) : SqliteOp κ
  /-- Commits a build of this input: the file is complete, the journal is removed. -/
  | commit (k : κ) (order : IterationOrder (Sigma fun _ : UInt32 => Key))
      (rootMtime encMtime : ℤ) : SqliteOp κ
  /-- Rolls the transaction back. -/
  | rollback : SqliteOp κ

/-- The directory after an operation. -/
def sqliteApply (d : NamespaceDir) : SqliteOp κ → Option NamespaceDir
  | .writeFile .root file => some { d with root := some file }
  | .writeFile .encoding file => some { d with encoding := some file }
  -- an empty file is created by the first connection
  | .connect =>
    match d.database with
    | none => some { d with database := some ⟨emptyContents, emptyContents⟩ }
    | some _ => some d
  | .begin =>
    match d.database, d.journal with
    | some db, false => some { d with database := some ⟨db.bare, db.bare⟩, journal := true }
    | _, _ => none
  -- the file may say anything, the journal still knows what to come back to
  | .spill contents =>
    match d.database, d.journal with
    | some db, true => some { d with database := some ⟨contents, db.recovered⟩ }
    | _, _ => none
  | .commit k order rootMtime encMtime =>
    match d.database, d.journal with
    | some _, true =>
      let built :=
        builtContents (resolutionRows order (inputs k).root (inputs k).encoding) rootMtime encMtime
      some { d with database := some ⟨built, built⟩, journal := false }
    | _, _ => none
  | .rollback =>
    match d.database, d.journal with
    | some db, true =>
      some { d with database := some ⟨db.recovered, db.recovered⟩, journal := false }
    | _, _ => none

/-- SQLite in a staging directory. -/
def sqliteBuilder : Builder where
  Op := SqliteOp κ
  apply op d := d.bind fun d => (sqliteApply inputs d op).map some

/-- Contents that an opened transaction would come back to. -/
def Settled (contents : Contents) : Prop := contents = emptyContents ∨ Committed inputs contents

/-- **A staging directory**: without a journal the database is settled, and with
one it says what to come back to. -/
structure Sound (d : NamespaceDir) : Prop where
  bare : d.journal = false → ∀ db, d.database = some db → Settled inputs db.bare
  recovered : ∀ db, d.database = some db → Settled inputs db.recovered

variable {inputs}

theorem Sound.empty : Sound inputs .empty where
  bare _ db hdb := by cases hdb
  recovered db hdb := by cases hdb

/-- Every operation of the builder keeps its directory sound. -/
theorem Sound.apply {d d' : NamespaceDir} {op : SqliteOp κ} (h : Sound inputs d)
    (happly : sqliteApply inputs d op = some d') : Sound inputs d' := by
  cases op with
  | writeFile f file =>
    cases f with
    | root => cases happly; exact ⟨h.bare, h.recovered⟩
    | encoding => cases happly; exact ⟨h.bare, h.recovered⟩
  | connect =>
    simp only [sqliteApply] at happly
    split at happly
    · cases happly
      refine ⟨?_, ?_⟩
      · rintro - db ⟨⟩
        exact Or.inl rfl
      · rintro db ⟨⟩
        exact Or.inl rfl
    · cases happly
      exact h
  | begin =>
    simp only [sqliteApply] at happly
    split at happly
    · next db hdb hjournal =>
      cases happly
      refine ⟨fun hj => absurd hj (by simp), ?_⟩
      rintro db' ⟨⟩
      exact h.bare hjournal db hdb
    · cases happly
  | spill contents =>
    simp only [sqliteApply] at happly
    split at happly
    · next db hdb hjournal =>
      cases happly
      refine ⟨fun hj => ?_, ?_⟩
      · exact absurd (hj.symm.trans hjournal) (by simp)
      · rintro db' ⟨⟩
        exact h.recovered db hdb
    · cases happly
  | commit k order rootMtime encMtime =>
    simp only [sqliteApply] at happly
    split at happly
    · cases happly
      have hbuilt : Settled inputs (builtContents
          (resolutionRows order (inputs k).root (inputs k).encoding) rootMtime encMtime) :=
        Or.inr ⟨k, order, rootMtime, encMtime, rfl⟩
      refine ⟨?_, ?_⟩
      · rintro - db ⟨⟩
        exact hbuilt
      · rintro db ⟨⟩
        exact hbuilt
    · cases happly
  | rollback =>
    simp only [sqliteApply] at happly
    split at happly
    · next db hdb hjournal =>
      cases happly
      refine ⟨?_, ?_⟩
      · rintro - db' ⟨⟩
        exact h.recovered db hdb
      · rintro db' ⟨⟩
        exact h.recovered db hdb
    · cases happly

/-- **A fresh staging directory holds a committed build.** -/
theorem Sound.committed {d : NamespaceDir} (h : Sound inputs d) (hfresh : d.Fresh) :
    Committed inputs d.contents := by
  obtain ⟨hside, hdb, r, e, -, -, -, -, hcurrent⟩ := hfresh
  obtain ⟨db, hdb⟩ := Option.isSome_iff_exists.mp hdb
  have hjournal : d.journal = false := (Bool.or_eq_false_iff.mp hside).1
  have hcontents : d.contents = db.bare := by
    simp [NamespaceDir.contents, hdb, hside]
  rw [hcontents] at hcurrent ⊢
  rcases h.bare hjournal db hdb with hempty | hcommitted
  · obtain ⟨rows, resolution, hrows⟩ := hcurrent
    rw [hempty, emptyContents] at hrows
    cases hrows
  · exact hcommitted

/-! ### Clearing a directory -/

/-- What an older builder may have left: without a sidecar, a database that has no
metadata row or was committed; with one, anything. -/
def Leftover (inputs : κ → Metadata) (d : NamespaceDir) : Prop :=
  d.hasSidecar = false → ∀ db, d.database = some db →
    Committed inputs db.bare ∨
      ∀ row rows resolution, db.bare ≠ .tables (some (row :: rows)) resolution

/-- **The unlink that uncovers a half-built database**: it takes the last sidecar
away while the metadata files and the database are there, and the database on its
own has a current row over rows that were never committed. -/
structure Exposes (inputs : κ → Metadata) (d : NamespaceDir) (f : FileKind) : Prop where
  last : (f = .journal ∧ d.wal = false) ∨ (f = .wal ∧ d.journal = false)
  current : ∃ r e db, d.root = some r ∧ d.encoding = some e ∧ d.database = some db ∧
    0 ≤ r.mtime ∧ 0 ≤ e.mtime ∧ db.bare.Current r.mtime e.mtime ∧ ¬Committed inputs db.bare

/-- No unlink of the published directory uncovers a half-built database. -/
def Covered (inputs : κ → Metadata) {ι : Type} (s : State ι) :
    Event (sqliteBuilder inputs) ι → Prop
  | .unlink c f => ∀ n d, s.pc c = .removing n → s.target = some d → ¬Exposes inputs d f
  | _ => True

/-- The same unlink, as **the directory alone** tells it, whoever has written the database. -/
structure Uncovers (d : NamespaceDir) (f : FileKind) : Prop where
  last : (f = .journal ∧ d.wal = false) ∨ (f = .wal ∧ d.journal = false)
  current : ∃ r ∈ d.root, ∃ e ∈ d.encoding, ∃ db ∈ d.database,
    0 ≤ r.mtime ∧ 0 ≤ e.mtime ∧ db.bare.Current r.mtime e.mtime

theorem Exposes.uncovers {d : NamespaceDir} {f : FileKind} (h : Exposes inputs d f) :
    Uncovers d f := by
  obtain ⟨hlast, r, e, db, hroot, henc, hdb, hr, he, hcurrent, -⟩ := h
  exact ⟨hlast, r, hroot, e, henc, db, hdb, hr, he, hcurrent⟩

instance (contents : Contents) (rootMtime encMtime : ℤ) :
    Decidable (contents.Current rootMtime encMtime) :=
  decidable_of_iff _ (cacheIsFresh_eq_true_iff .empty)

instance (d : NamespaceDir) (f : FileKind) : Decidable (Uncovers d f) :=
  decidable_of_iff
    (((f = .journal ∧ d.wal = false) ∨ (f = .wal ∧ d.journal = false)) ∧
      ∃ r ∈ d.root, ∃ e ∈ d.encoding, ∃ db ∈ d.database,
        0 ≤ r.mtime ∧ 0 ≤ e.mtime ∧ db.bare.Current r.mtime e.mtime)
    ⟨fun h => ⟨h.1, h.2⟩, fun h => ⟨h.last, h.current⟩⟩

/-- No unlink of a directory uncovers a database. -/
def NeverUncovers (inputs : κ → Metadata) {ι : Type} (s : State ι) :
    Event (sqliteBuilder inputs) ι → Prop
  | .unlink _ f => ∀ d ∈ s.target, ¬Uncovers d f
  | _ => True

instance {ι : Type} (s : State ι) : (e : Event (sqliteBuilder inputs) ι) →
    Decidable (NeverUncovers inputs s e)
  | .unlink _ f => inferInstanceAs (Decidable (∀ d ∈ s.target, ¬Uncovers d f))
  | .publish _ | .acquire _ | .fail _ _ | .inspect _ | .create _ _ | .write _ _ | .written _ _
  | .look _ | .rmdir _ | .rename _ | .tidy _ | .release _ | .crash _ | .openCache _ | .close _ =>
    .isTrue trivial

/-- What is told from the directory is enough. -/
theorem NeverUncovers.covered {ι : Type} {s : State ι} {e : Event (sqliteBuilder inputs) ι}
    (h : NeverUncovers inputs s e) : Covered inputs s e := by
  cases e with
  | unlink c f => exact fun n d _ htarget hexposes => h d htarget hexposes.uncovers
  | _ => trivial

/-- What is fresh was committed. -/
def TargetSound (inputs : κ → Metadata) (target : Option NamespaceDir) : Prop :=
  ∀ d, target = some d → d.Fresh → Committed inputs d.contents

theorem Leftover.targetSound {d : NamespaceDir} (h : Leftover inputs d) :
    TargetSound inputs (some d) := by
  rintro d' ⟨⟩ ⟨hside, hdb, r, e, -, -, -, -, hcurrent⟩
  obtain ⟨db, hdb⟩ := Option.isSome_iff_exists.mp hdb
  have hcontents : d.contents = db.bare := by simp [NamespaceDir.contents, hdb, hside]
  rw [hcontents] at hcurrent ⊢
  rcases h hside db hdb with hcommitted | hnone
  · exact hcommitted
  · obtain ⟨rows, resolution, hrows⟩ := hcurrent
    exact absurd hrows (hnone _ _ _)

/-- **What is fresh after an unlink was committed** unless the unlink uncovered a
half-built database: without a metadata file or the database nothing is fresh. -/
theorem targetSound_erase {d : NamespaceDir} {f : FileKind} (hcovered : ¬Exposes inputs d f) :
    TargetSound inputs (some (d.erase f)) := by
  rintro d' ⟨⟩ ⟨hside, hdb, r, e, hroot, henc, hr, he, hcurrent⟩
  have hsidecar : ∀ {db}, (d.erase f).database = some db → (d.erase f).contents = db.bare :=
    fun {db} hdb => by simp [NamespaceDir.contents, hdb, hside]
  obtain ⟨db, hdb⟩ := Option.isSome_iff_exists.mp hdb
  rw [hsidecar hdb] at hcurrent ⊢
  by_contra hnot
  refine hcovered ⟨?_, ?_⟩
  · cases f with
    | metadata m => cases m <;> simp [NamespaceDir.erase] at hroot henc
    | database => cases hdb
    | journal =>
      exact Or.inl ⟨rfl, by simpa [NamespaceDir.erase, NamespaceDir.hasSidecar] using hside⟩
    | wal =>
      exact Or.inr ⟨rfl, by simpa [NamespaceDir.erase, NamespaceDir.hasSidecar] using hside⟩
  · cases f with
    | metadata m => cases m <;> simp [NamespaceDir.erase] at hroot henc
    | database => cases hdb
    | journal => exact ⟨r, e, db, hroot, henc, hdb, hr, he, hcurrent, hnot⟩
    | wal => exact ⟨r, e, db, hroot, henc, hdb, hr, he, hcurrent, hnot⟩

/-! ### Runs -/

/-- What a caller knows about its staging directory. -/
def Built (inputs : κ → Metadata) (site : Site) (staging : StagingName → Option NamespaceDir) :
    Pc → Prop
  | .writing n => ∀ d, staging n = some d → Sound inputs d
  | .checking n rest =>
    (∀ d, staging n = some d → Sound inputs d) ∧
      rest.run (dirAnswer (site.stagingPath n) (staging n)) =
        (resolutionCacheIsFresh (site.stagingPath n)).run
          (dirAnswer (site.stagingPath n) (staging n))
  | .looking n => ∃ d, staging n = some d ∧ Committed inputs d.contents
  | .removing n => ∃ d, staging n = some d ∧ Committed inputs d.contents
  | .renaming n => ∃ d, staging n = some d ∧ Committed inputs d.contents
  | _ => True

variable {ι : Type} [DecidableEq ι] {site : Site} {s t : State ι}
  {e : Event (sqliteBuilder inputs) ι}

/-- The invariant: what is fresh was committed, and so is what is about to be
published. -/
def LeftoverInv (inputs : κ → Metadata) (site : Site) : State ι → Prop :=
  Discipline (fun _ => Built inputs site) (TargetSound inputs)

/-- At first the directory is absent or what an older builder left, and nobody is in
a call. -/
structure LeftoverInitial (inputs : κ → Metadata) (s : State ι) : Prop where
  lock : s.lock = none
  target : ∀ d, s.target = some d → Leftover inputs d
  idle : ∀ c, s.pc c = .idle

omit [DecidableEq ι] in
theorem LeftoverInitial.inv (h : LeftoverInitial inputs s) : LeftoverInv inputs site s where
  lock c hc := by rw [h.idle c] at hc; exact hc.elim
  phase c hc := by rw [h.idle c] at hc; exact hc.elim
  target d hd := (h.target d hd).targetSound d rfl

theorem built_afterCheck {n : StagingName} {staging : StagingName → Option NamespaceDir}
    {r : Except String Bool} (hsound : ∀ d, staging n = some d → Sound inputs d)
    (hr : r = (resolutionCacheIsFresh (site.stagingPath n)).run
      (dirAnswer (site.stagingPath n) (staging n))) :
    Built inputs site staging (afterCheck site n r) := by
  have hiff := resolutionCacheIsFresh_run (site.stagingPath n) (staging n)
  rw [← hr] at hiff
  cases r with
  | error e => trivial
  | ok fresh =>
    cases fresh with
    | true =>
      obtain ⟨d, hd, hfresh⟩ := hiff.mp rfl
      exact ⟨d, hd, (hsound d hd).committed hfresh⟩
    | false => trivial

/-- **One covered step keeps the invariant.** -/
theorem LeftoverInv.of_step (h : LeftoverInv inputs site s) (hcovered : Covered inputs s e)
    (hstep : step (sqliteBuilder inputs) site s e = some t) : LeftoverInv inputs site t := by
  cases transition_of_step hstep with
  | publish hpc => exact h.goto False.elim False.elim
  | acquire hpc hlock =>
    exact h.move rfl (fun c' _ hl => by rw [hlock] at hl; cases hl) (fun _ => rfl)
      (fun _ => trivial) (Or.inl ⟨rfl, rfl⟩) h.target
  | @fail c e p hp =>
    unfold afterFailure at hp
    split at hp
    · cases hp; exact h.goto False.elim False.elim
    · next hpc => cases hp; exact h.advance (State.critical hpc trivial) trivial
    · next hpc => cases hp; exact h.advance (State.critical hpc trivial) trivial
    · next hpc => cases hp; exact h.advance (State.critical hpc trivial) trivial
    · next hpc => cases hp; exact h.advance (State.critical hpc trivial) trivial
    · cases hp
  | judge hpc => exact h.advance (State.critical hpc trivial) trivial
  | @judged c r hpc =>
    refine h.advance (State.critical hpc trivial) ?_
    rcases r with _ | _ | _ <;> trivial
  | check hpc =>
    obtain ⟨hsound, hrun⟩ := h.knows hpc trivial
    exact h.advance (State.critical hpc trivial) ⟨hsound, (Program.run_step _ _).trans hrun⟩
  | checked hpc =>
    obtain ⟨hsound, hrun⟩ := h.knows hpc trivial
    exact h.advance (State.critical hpc trivial) (built_afterCheck hsound hrun)
  | read hpc => exact h.goto False.elim False.elim
  | @create c n hpc hn =>
    refine h.stage (State.critical hpc trivial) fun d hd => ?_
    have hd' : Function.update s.staging n (some NamespaceDir.empty) n = some d := hd
    rw [Function.update_self] at hd'
    cases hd'
    exact Sound.empty
  | @write c n op d hpc hd =>
    refine h.stage (State.critical hpc trivial) fun d' hd' => ?_
    have hd'' : Function.update s.staging n d n = some d' := hd'
    rw [Function.update_self] at hd''
    obtain ⟨before, hbefore, happly⟩ := Option.bind_eq_some_iff.mp hd
    obtain ⟨after, hafter, rfl⟩ := Option.map_eq_some_iff.mp happly
    cases hd''
    have hsound : ∀ d, s.staging n = some d → Sound inputs d := h.knows hpc trivial
    exact (hsound before hbefore).apply hafter
  | @written c n result hpc =>
    have hsound : ∀ d, s.staging n = some d → Sound inputs d := h.knows hpc trivial
    refine h.advance (State.critical hpc trivial) ?_
    cases result with
    | error e => trivial
    | ok _ => exact ⟨hsound, rfl⟩
  | @look c n hpc =>
    have hcommitted : ∃ d, s.staging n = some d ∧ Committed inputs d.contents := h.knows hpc trivial
    refine h.advance (State.critical hpc trivial) ?_
    split_ifs
    · exact hcommitted
    · exact hcommitted
  | @unlink c n f d hpc hd hf =>
    -- the only step after which something older may be judged fresh
    exact h.move rfl (fun _ _ hl => hl) (fun _ => h.lock c (State.critical hpc trivial))
      (fun _ => h.knows hpc trivial) (Or.inr (State.critical hpc trivial))
      (targetSound_erase (hcovered n d hpc hd))
  | unlinkStaging hpc hd => exact h.stage (State.critical hpc trivial) trivial
  | @rmdir c n hpc hd =>
    have hcommitted : ∃ d, s.staging n = some d ∧ Committed inputs d.contents := h.knows hpc trivial
    exact h.move rfl (fun _ _ hl => hl) (fun _ => h.lock c (State.critical hpc trivial))
      (fun _ => hcommitted) (Or.inr (State.critical hpc trivial)) fun d hd => by cases hd
  | rmdirStaging hpc => exact h.stage (State.critical hpc trivial) trivial
  | @rename c n d hpc hd =>
    obtain ⟨d', hd', hcommitted⟩ := h.knows hpc trivial
    rw [hd] at hd'
    cases hd'
    have hcrit := State.critical hpc trivial
    refine h.move rfl (fun _ _ hl => hl) (fun _ => h.lock c hcrit) (fun _ => trivial)
      (Or.inr hcrit) ?_
    rintro d' ⟨⟩ -
    exact hcommitted
  | tidy hpc =>
    refine h.advance (State.critical hpc trivial) ?_
    split_ifs <;> trivial
  | @release c result hpc =>
    have hleave := h.leave (c := c)
    rw [if_pos (h.lock c (State.critical hpc trivial))] at hleave
    exact hleave
  | crash => exact h.leave
  | openCache hpc => exact h.goto False.elim False.elim
  | close hpc => exact h.goto False.elim False.elim

omit [DecidableEq ι] in
/-- What was preserved says of a fresh namespace that it was committed. -/
theorem LeftoverInv.committed (h : LeftoverInv inputs site s)
    (hfresh : (resolutionCacheIsFresh site.cascDir).run (dirAnswer site.cascDir s.target) =
      .ok true) :
    ∃ d, s.target = some d ∧ Committed inputs d.contents := by
  obtain ⟨d, hd, hfresh⟩ := (resolutionCacheIsFresh_run _ _).mp hfresh
  exact ⟨d, hd, h.target d hd hfresh⟩

/-- A run keeps it. -/
theorem LeftoverInitial.inv_of_run {s₀ : State ι} {es : List (Event (sqliteBuilder inputs) ι)}
    (h₀ : LeftoverInitial inputs s₀)
    (hcovered : Guarded (step (sqliteBuilder inputs) site) (Covered inputs) s₀ es)
    (hrun : run (step (sqliteBuilder inputs) site) s₀ es = some s) : LeftoverInv inputs site s :=
  invariant_of_guarded (LeftoverInv inputs site) (fun _ _ _ h hg => h.of_step hg) h₀.inv hcovered
    hrun

/-- It is committed in every run in which no unlink uncovers a database, which can be told
without knowing who has built it. -/
theorem committed_of_neverUncovers {s₀ : State ι} {es : List (Event (sqliteBuilder inputs) ι)}
    (h₀ : LeftoverInitial inputs s₀)
    (hguard : Guarded (step (sqliteBuilder inputs) site) (NeverUncovers inputs) s₀ es)
    (hrun : run (step (sqliteBuilder inputs) site) s₀ es = some s)
    (hfresh : (resolutionCacheIsFresh site.cascDir).run (dirAnswer site.cascDir s.target) =
      .ok true) :
    ∃ d, s.target = some d ∧ Committed inputs d.contents :=
  (h₀.inv_of_run (hguard.mono fun _ _ => NeverUncovers.covered) hrun).committed hfresh

/-- **A fresh namespace was committed**, in every state of every run in which no
unlink uncovers a half-built database, whatever crashes. -/
theorem committed_of_fresh {s₀ : State ι} {es : List (Event (sqliteBuilder inputs) ι)}
    (h₀ : LeftoverInitial inputs s₀)
    (hcovered : Guarded (step (sqliteBuilder inputs) site) (Covered inputs) s₀ es)
    (hrun : run (step (sqliteBuilder inputs) site) s₀ es = some s)
    (hfresh : (resolutionCacheIsFresh site.cascDir).run (dirAnswer site.cascDir s.target) =
      .ok true) :
    ∃ d, s.target = some d ∧ Committed inputs d.contents :=
  (h₀.inv_of_run hcovered hrun).committed hfresh

/-! ### A half-built directory -/

/-- The only build there is. -/
def sampleInputs : Unit → Metadata := fun _ => ⟨sampleRoot, sampleEncoding⟩

/-- Rows that were written before the first row of the table. -/
def halfBuilt : Contents := .tables (some [⟨10, 10, resolutionSchemaVersion⟩]) (some [])

/-- What a builder left that was killed in the middle of its transaction. -/
def killedDir : NamespaceDir where
  root := some ⟨sampleRootBytes, 10⟩
  encoding := some ⟨sampleEncodingBytes, 10⟩
  database := some ⟨halfBuilt, emptyContents⟩
  journal := true
  wal := false

/-- The directory `/c/data`. -/
def sampleSite : Site := ⟨.ofStr "/c", dataName⟩

/-- Nobody is in a call. -/
def quiet (target : Option NamespaceDir) : State Unit :=
  ⟨none, target, fun _ => none, fun _ => .idle⟩

/-- A call up to the removal of what is in its place, having built the sample there. -/
def buildIn (n : StagingName) (judgements : ℕ) : List (Event (sqliteBuilder sampleInputs) Unit) :=
  [.publish (), .acquire ()] ++ List.replicate judgements (.inspect ()) ++
  [.create () n, .write () (.writeFile .root ⟨sampleRootBytes, 20⟩),
    .write () (.writeFile .encoding ⟨sampleEncodingBytes, 20⟩), .write () .connect,
    .write () .begin, .write () (.commit () (.standing _) 20 20), .written () (.ok ())] ++
  List.replicate 7 (.inspect ()) ++ [.look ()]

/-- The first one. -/
def buildSample (judgements : ℕ) : List (Event (sqliteBuilder sampleInputs) Unit) :=
  buildIn ⟨1, 1⟩ judgements

theorem not_committed_halfBuilt : ¬Committed sampleInputs halfBuilt := by
  rintro ⟨k, order, rootMtime, encMtime, h⟩
  have hrow : (⟨1, (Key.constant 0x11).bytes, (Key.constant 0x33).bytes⟩ : ResolutionRow) ∈
      resolutionRows order sampleRoot sampleEncoding := by
    refine mem_resolutionRows.mpr ⟨Key.constant 0x11, Key.constant 0x33, ⟨[], [], rfl, by simp⟩,
      ⟨[], [(sampleRootKey, Key.constant 0x22)], rfl, ?_⟩, rfl, rfl⟩
    simp [sampleRootKey, Key.constant]
  have hrows : resolutionRows order sampleRoot sampleEncoding = [] := by
    simp only [halfBuilt, builtContents, Contents.tables.injEq, Option.some.injEq] at h
    exact h.2.symm
  rw [hrows] at hrow
  simp at hrow

/-- **A crash while a killed build is cleared** leaves its half-written table behind
as a fresh namespace: the journal is the first file to go. -/
theorem killedDir_judged_fresh :
    LeftoverInitial sampleInputs (quiet (some killedDir)) ∧
      ∃ s, run (step (sqliteBuilder sampleInputs) sampleSite) (quiet (some killedDir))
          (buildSample 3 ++ [.unlink () .journal, .crash ()]) = some s ∧
        (resolutionCacheIsFresh sampleSite.cascDir).run (dirAnswer sampleSite.cascDir s.target) =
          .ok true ∧
        ¬∃ d, s.target = some d ∧ Committed sampleInputs d.contents := by
  refine ⟨⟨rfl, ?_, fun _ => rfl⟩, _, rfl, rfl, ?_⟩
  · rintro d ⟨⟩ hside
    exact absurd hside (by decide)
  · rintro ⟨d, ⟨⟩, hcommitted⟩
    exact not_committed_halfBuilt hcommitted

/-- A call that takes the database first and dies between two unlinks, and the next one. -/
def clearedRun : List (Event (sqliteBuilder sampleInputs) Unit) :=
  buildSample 3 ++ [.unlink () .database, .unlink () .journal, .crash ()] ++ buildIn ⟨1, 2⟩ 2 ++
    [.unlink () (.metadata .encoding), .unlink () (.metadata .root), .rmdir (), .rename ()]

/-- What the killed builder left is cleared after all, and a committed build is in its place. -/
theorem committed_of_fresh_sample :
    ∃ s, run (step (sqliteBuilder sampleInputs) sampleSite) (quiet (some killedDir))
        clearedRun = some s ∧
      ∃ d, s.target = some d ∧ Committed sampleInputs d.contents := by
  obtain ⟨s, hrun, hfresh⟩ : ∃ s, run (step (sqliteBuilder sampleInputs) sampleSite)
      (quiet (some killedDir)) clearedRun = some s ∧
      (resolutionCacheIsFresh sampleSite.cascDir).run (dirAnswer sampleSite.cascDir s.target) =
        .ok true := ⟨_, rfl, rfl⟩
  have hguard : Guarded (step (sqliteBuilder sampleInputs) sampleSite) (NeverUncovers sampleInputs)
      (quiet (some killedDir)) clearedRun := by
    decide +kernel
  refine ⟨s, hrun, committed_of_fresh ⟨rfl, ?_, fun _ => rfl⟩
    (hguard.mono fun _ _ => NeverUncovers.covered) hrun hfresh⟩
  rintro d ⟨⟩ hside
  exact absurd hside (by decide)

end Publish

end AssetResolver
