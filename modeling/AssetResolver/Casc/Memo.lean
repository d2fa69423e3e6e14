import AssetResolver.Casc.Machine

/-!
# What the kept states are of

The map `CASC` is read with the identity one read of `.build.info` selects
(`AssetResolver.getCasc`), and a vacant cell is filled by an initialisation that
reads `.build.info` **again** (`AssetResolver.initCasc`). The cell is permanent, so
a patch between the two reads leaves a state of the new build under the identity of
the old one for as long as the process lives
(`AssetResolver.Casc.not_state_of_its_build`).

As long as the second read selects the identity of the cell it is for
(`AssetResolver.Casc.rereadAgrees`), every cell holds a state of its own build:
identity, resolution table and keyring (`AssetResolver.Casc.state_of_its_build`).
No other read of `.build.info` matters, not even that of the keyring, which looks
for the row of the build it was given.
-/

namespace AssetResolver

namespace Casc

open Program

variable {ι : Type} [DecidableEq ι] {process : Process} {s s' : State ι} {e : Event ι}

/-- **The second read agrees**: what an initialisation reads in `.build.info` now
selects the identity of the cell it is for. -/
def rereadAgrees (process : Process) (s : State ι) : Event ι → Bool
  | .step t =>
    match s.threads t with
    | some ⟨_, _, .initializing _ identity _ (.ask q _) _⟩ =>
      (selection process.formats q (s.env q)).all fun i => i = identity
    | _ => true
  | _ => true

/-- Every read of `.build.info` on record selects one identity. -/
def SelectsOnly (formats : InstallFormats) (identity : AssetIdentity) (asked : InstallTrace) :
    Prop :=
  ∀ q answer, ⟨q, answer⟩ ∈ asked → ∀ i, selection formats q answer = some i → i = identity

omit [DecidableEq ι] in
theorem SelectsOnly.cons_of_rereadAgrees {t : ι} {job : Job} {trace : CallTrace}
    {paths : ResolverPaths} {identity : AssetIdentity} {asked : InstallTrace} {q : InstallQuery}
    {rest : q.Answer → Program InstallQuery InstallQuery.Answer (Except String CascState)}
    {k : Except String CascState → Rest} (h : SelectsOnly process.formats identity asked)
    (hth : s.threads t = some ⟨job, trace, .initializing paths identity asked (.ask q rest) k⟩)
    (hagrees : rereadAgrees process s (.step t)) :
    SelectsOnly process.formats identity (⟨q, s.env q⟩ :: asked) := by
  intro q' answer hmem i hi
  rcases List.mem_cons.mp hmem with heq | hmem
  · cases heq
    simpa [rereadAgrees, hth, hi] using hagrees
  · exact h q' answer hmem i hi

/-- **The guarded invariant**: cells, and initialisations under way, have read nothing
but their own identity. -/
structure OwnReads (process : Process) (s : State ι) : Prop where
  cells : ∀ ns asked outcome, s.cells ns = .ready asked outcome →
    SelectsOnly process.formats ns.2 asked
  threads : ∀ t th, s.threads t = some th → ∀ paths identity asked rest k,
    th.activity = .initializing paths identity asked rest k →
      SelectsOnly process.formats identity asked

omit [DecidableEq ι] in
theorem ownReads_initial (env : (q : InstallQuery) → q.Answer) :
    OwnReads process (State.initial env : State ι) where
  cells := by rintro ns asked outcome ⟨⟩
  threads := by rintro t th ⟨⟩

omit [DecidableEq ι] in
/-- A cell that is set to something else than the outcome of foreign reads. -/
theorem OwnReads.cells_setCell (hs : OwnReads process s) {ns : CascNamespace} {cell : Cell ι}
    (hcell : ∀ asked outcome, cell = .ready asked outcome →
      SelectsOnly process.formats ns.2 asked) :
    ∀ ns' asked outcome, (s.setCell ns cell).cells ns' = .ready asked outcome →
      SelectsOnly process.formats ns'.2 asked := by
  intro ns' asked outcome hready
  by_cases hns : ns' = ns
  · subst hns
    rw [State.setCell_cells_self] at hready
    exact hcell asked outcome hready
  · rw [State.setCell_cells_of_ne hns] at hready
    exact hs.cells ns' asked outcome hready

theorem ownReads_step (hs : OwnReads process s) (hagrees : rereadAgrees process s e)
    (h : step process s e = some s') : OwnReads process s' := by
  cases transition_of_step h with
  | patch => exact ⟨hs.cells, hs.threads⟩
  | call h =>
    refine ⟨hs.cells, State.forall_put hs.threads ?_⟩
    rintro th ⟨⟩ paths identity asked rest k ⟨⟩
  | ask h =>
    refine ⟨hs.cells, State.forall_put hs.threads ?_⟩
    rintro th ⟨⟩ paths identity asked rest k ⟨⟩
  | enter h hcell =>
    refine ⟨hs.cells_setCell (by rintro asked outcome ⟨⟩),
      State.forall_put (s := s.setCell _ _) hs.threads ?_⟩
    rintro th ⟨⟩ paths identity asked rest k ⟨⟩ q answer hmem
    cases hmem
  | take h hcell =>
    refine ⟨hs.cells, State.forall_put hs.threads ?_⟩
    rintro th ⟨⟩ paths identity asked rest k ⟨⟩
  | @proceed t job trace paths identity asked q rest k hth =>
    -- the one step at which an initialisation reads
    refine ⟨hs.cells, State.forall_put hs.threads ?_⟩
    rintro th ⟨⟩ paths' identity' asked' rest' k' ⟨⟩
    exact (hs.threads t _ hth _ _ _ _ _ rfl).cons_of_rereadAgrees hth hagrees
  | @finish t job trace paths identity asked outcome k hth =>
    refine ⟨hs.cells_setCell ?_, State.forall_put (s := s.setCell _ _) hs.threads ?_⟩
    · rintro asked' outcome' ⟨⟩
      exact hs.threads t _ hth _ _ _ _ _ rfl
    · rintro th ⟨⟩ paths' identity' asked' rest' k' ⟨⟩
  | unwind h =>
    refine ⟨hs.cells, State.forall_put hs.threads ?_⟩
    rintro th ⟨⟩
  | abandon h =>
    refine ⟨hs.cells_setCell (by rintro asked outcome ⟨⟩),
      State.forall_put (s := s.setCell _ _) hs.threads ?_⟩
    rintro th ⟨⟩

theorem ownReads_run {env : (q : InstallQuery) → q.Answer} {es : List (Event ι)}
    (hguard : Runs.Guarded (step process) (fun s e => rereadAgrees process s e)
      (State.initial env) es)
    (hrun : Runs.run (step process) (State.initial env) es = some s) : OwnReads process s :=
  Runs.invariant_of_guarded (OwnReads process)
    (fun _ _ _ hs hagrees h => ownReads_step hs hagrees h) (ownReads_initial env) hguard hrun

/-- A state that was initialised from reads of one identity only is of that build. -/
theorem ofBuild_of_selectsOnly {paths : ResolverPaths} {identity : AssetIdentity}
    {asked : InstallTrace} {casc : CascState}
    (hled : (initCasc process paths).run.Leads asked (.ret (.ok casc)))
    (honly : SelectsOnly process.formats identity asked) :
    ∃ installRoot, process.wowInstallPath = some installRoot ∧
      casc.OfBuild process paths installRoot asked.answers identity := by
  obtain ⟨installRoot, selected, hroot, ⟨content, hcontent, hselected⟩, hbuild⟩ :=
    yields_initCasc hled.yields
  rw [honly _ _ hcontent selected hselected] at hbuild
  exact ⟨installRoot, hroot, hbuild⟩

omit [DecidableEq ι] in
theorem ofBuild_of_ready (hs : Inv process s) (hown : OwnReads process s) {cacheRoot : PathBuf}
    {identity : AssetIdentity} {asked : InstallTrace} {casc : CascState}
    (hready : s.cells (cacheRoot, identity) = .ready asked (.ok casc)) :
    ∃ paths installRoot, paths.cacheRoot = cacheRoot ∧ process.wowInstallPath = some installRoot ∧
      casc.OfBuild process paths installRoot asked.answers identity := by
  obtain ⟨paths, hpaths, hled⟩ := hs.built _ _ _ hready
  obtain ⟨installRoot, hroot, hbuild⟩ := ofBuild_of_selectsOnly hled (hown.cells _ _ _ hready)
  exact ⟨paths, installRoot, hpaths, hroot, hbuild⟩

omit [DecidableEq ι] in
/-- What a call takes out of a cell is of the build it asked for. -/
theorem identity_of_taken (hs : Inv process s) (hown : OwnReads process s) {t : ι} {th : Thread}
    (hth : s.threads t = some th) {paths : ResolverPaths} {identity : AssetIdentity}
    {casc : CascState} (hmem : ⟨.getOrInit paths identity, .ok casc⟩ ∈ th.trace) :
    casc.identity = some identity := by
  obtain ⟨asked, hready⟩ := hs.kept t th hth paths identity _ hmem
  obtain ⟨_, _, -, -, hbuild⟩ := ofBuild_of_ready hs hown hready
  exact hbuild.identity_eq

/-- **Every cell holds a state of its own build**, in every run whose second reads
agree, and every call that asks for a build gets a state of it. -/
theorem state_of_its_build {env : (q : InstallQuery) → q.Answer} {es : List (Event ι)}
    (hguard : Runs.Guarded (step process) (fun s e => rereadAgrees process s e)
      (State.initial env) es)
    (hrun : Runs.run (step process) (State.initial env) es = some s) :
    (∀ cacheRoot identity asked casc, s.cells (cacheRoot, identity) = .ready asked (.ok casc) →
      ∃ paths installRoot, paths.cacheRoot = cacheRoot ∧
        process.wowInstallPath = some installRoot ∧
        casc.OfBuild process paths installRoot asked.answers identity) ∧
    (∀ t th paths identity casc, s.threads t = some th →
      ⟨.getOrInit paths identity, .ok casc⟩ ∈ th.trace → casc.identity = some identity) := by
  have hinv := inv_run hrun
  have hown := ownReads_run hguard hrun
  exact ⟨fun _ _ _ _ hready => ofBuild_of_ready hinv hown hready,
    fun _ _ _ _ _ hth hmem => identity_of_taken hinv hown hth hmem⟩

/-- Two resolvers without an identity are initialised, one before a patch and one after it. -/
def plainInitialization : List (Event ℕ) :=
  .call 0 (.initializeResolver (samplePaths none)) :: List.replicate 15 (.step 0) ++
    patchToSecond :: .call 1 (.initializeResolver (samplePaths none)) ::
      List.replicate 15 (.step 1)

/-- The state of the first build is kept for it, and the second build has its own. -/
theorem state_of_its_build_sample :
    ∃ s, Runs.run (step sampleProcess) sampleStart plainInitialization = some s ∧
      ∀ build ∈ [firstBuild, secondBuild], ∃ asked casc paths installRoot,
        s.cells (.ofStr "/c", build) = .ready asked (.ok casc) ∧
        paths.cacheRoot = .ofStr "/c" ∧ sampleProcess.wowInstallPath = some installRoot ∧
        casc.OfBuild sampleProcess paths installRoot asked.answers build := by
  have hcells : (Runs.run (step sampleProcess) sampleStart plainInitialization).map
      (fun s => [firstBuild, secondBuild].map fun build =>
        (s.cells (.ofStr "/c", build)).stateIdentity) =
      some [some firstBuild, some secondBuild] := by
    decide +kernel
  obtain ⟨s, hrun, hidentities⟩ := Option.map_eq_some_iff.mp hcells
  refine ⟨s, hrun, fun build hbuild => ?_⟩
  have hidentity : (s.cells (.ofStr "/c", build)).stateIdentity = some build := by
    simp only [List.map_cons, List.map_nil, List.cons.injEq] at hidentities
    rcases List.mem_pair.mp hbuild with rfl | rfl
    · exact hidentities.1
    · exact hidentities.2.1
  obtain ⟨asked, casc, hready, -⟩ := Cell.stateIdentity_eq_some hidentity
  obtain ⟨paths, installRoot, hpaths, hroot, hown⟩ :=
    (state_of_its_build (by decide +kernel) hrun).1 _ _ _ _ hready
  exact ⟨asked, casc, paths, installRoot, hready, hpaths, hroot, hown⟩

/-- A resolver without an identity is initialised, and a patch comes between its two
reads of `.build.info`. -/
def patchedInitialization : List (Event ℕ) :=
  .call 0 (.initializeResolver (samplePaths none)) :: .step 0 :: .step 0 :: .step 0 :: .step 0 ::
    patchToSecond :: List.replicate 11 (.step 0)

/-- **A cell can hold a state of another build.** -/
theorem not_state_of_its_build :
    ¬∀ (process : Process) (env : (q : InstallQuery) → q.Answer) (es : List (Event ℕ))
      (s : State ℕ), Runs.run (step process) (State.initial env) es = some s →
        ∀ cacheRoot identity asked casc, s.cells (cacheRoot, identity) = .ready asked (.ok casc) →
          casc.identity = some identity := by
  intro hall
  have hcell : (Runs.run (step sampleProcess) sampleStart patchedInitialization).map
      (fun s => (s.cells (.ofStr "/c", firstBuild)).stateIdentity) = some (some secondBuild) := by
    decide +kernel
  obtain ⟨s, hrun, hidentity⟩ := Option.map_eq_some_iff.mp hcell
  obtain ⟨asked, casc, hready, hsecond⟩ := Cell.stateIdentity_eq_some hidentity
  have hfirst := hall sampleProcess _ _ s hrun _ _ _ _ hready
  rw [hsecond] at hfirst
  exact absurd (Option.some.inj hfirst) (by decide)

end Casc

end AssetResolver
