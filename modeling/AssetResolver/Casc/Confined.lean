import AssetResolver.Casc.Extract

/-!
# Where the assets of an identity are

Two namespaces bound everything a resolver with an identity does to assets: its own,
and that of the build which is active when it asks. A path is of the first kind as
long as it comes out of `AssetResolver.ResolverPaths.scopedCachePath`, and of the
second once `AssetResolver.readCurrentAssetPath` has moved it.

The questions of a call are bounded by its program
(`AssetResolver.Casc.confined_of_mayAsk_ensureCachedChecked`), so they are in every
run, whatever patches come between them
(`AssetResolver.Casc.namespaces_confined`).
-/

namespace AssetResolver

namespace Casc

open Program

variable {process : Process} {paths : ResolverPaths} {fdid : UInt32} {outPath path : PathBuf}
  {i : AssetIdentity} {B : (q : CascQuery) → q.Answer → Prop} {q' : CascQuery}

/-- **A path of one of the two namespaces**: that of the identity, or that of a build
of its product which a text of `.build.info` has selected. -/
def Confined (process : Process) (paths : ResolverPaths) (i : AssetIdentity)
    (B : (q : CascQuery) → q.Answer → Prop) (path : PathBuf) : Prop :=
  i.Owns paths.sharedDataRoot path ∨ ∃ installRoot current,
    process.wowInstallPath = some installRoot ∧ current.product = i.product ∧
      Selects process.formats (fun q answer => B (.outside q) answer) installRoot current ∧
      current.Owns paths.sharedDataRoot path

theorem confined_of_readCurrentAssetPath (hi : paths.identity = some i) {sharedPath : PathBuf}
    (hshared : paths.scopedCachePath outPath = .ok sharedPath)
    (h : (ofInstall (readCurrentAssetPath process paths sharedPath)).run.Yields B (.ok path)) :
    Confined process paths i B path :=
  Or.inr (yields_readCurrentAssetPath hi (ResolverPaths.owns_of_scopedCachePath hi hshared)
    (yields_ofInstall.mp h))

theorem confined_of_mayAsk_ensureFileCachedCheckedWithPaths (hi : paths.identity = some i)
    (h : (ensureFileCachedCheckedWithPaths process paths fdid outPath).run.MayAsk B q') :
    ∀ path ∈ q'.assetPath?, Confined process paths i B path := by
  simp only [ensureFileCachedCheckedWithPaths, mayAsk_ok_bind_iff, mayAsk_settled, false_or,
    yields_settled] at h
  obtain ⟨sharedPath, hshared, hq | ⟨published, -, h⟩⟩ := h
  · obtain ⟨q, rfl, hq⟩ := mayAsk_ofInstall.mp hq
    rw [← mayAsk_inquire.mp hq]
    rintro path ⟨⟩
    exact Or.inl (ResolverPaths.owns_of_scopedCachePath hi hshared)
  · by_cases hpublished : published = true
    · rw [if_pos hpublished] at h
      exact absurd h mayAsk_pure
    · rw [if_neg hpublished] at h
      simp only [mayAsk_ok_bind_iff, mayAsk_settled, false_or] at h
      obtain ⟨-, -, hq | ⟨currentPath, hlabel, h⟩⟩ := h
      · obtain ⟨q, rfl, hreading⟩ := mayAsk_ofInstall.mp hq
        simp [CascQuery.assetPath?, assetPath?_readCurrentAssetPath hreading]
      · have hconfined := confined_of_readCurrentAssetPath hi hshared hlabel
        rcases h with hq | ⟨extracted, -, h⟩
        · obtain ⟨q, rfl, hq⟩ := mayAsk_ofInstall.mp hq
          rw [← mayAsk_inquire.mp hq]
          rintro path ⟨⟩
          exact hconfined
        · by_cases hextracted : extracted = true
          · rw [if_pos hextracted] at h
            exact absurd h mayAsk_pure
          · rw [if_neg hextracted] at h
            rcases mayAsk_ok_bind_iff.mp h with hq | ⟨file, -, hq⟩
            · intro path hpath
              rw [assetPath?_extractFdidToPathWithPaths (mayAsk_raise.mp hq) path hpath]
              exact hconfined
            · exact absurd hq mayAsk_pure

theorem confined_of_yields_ensureFileCachedCheckedWithPaths (hi : paths.identity = some i)
    (h : (ensureFileCachedCheckedWithPaths process paths fdid outPath).run.Yields B (.ok path)) :
    Confined process paths i B path := by
  simp only [ensureFileCachedCheckedWithPaths, yields_ok_bind_iff, yields_settled] at h
  obtain ⟨sharedPath, hshared, published, -, h⟩ := h
  by_cases hpublished : published = true
  · rw [if_pos hpublished, yields_pure] at h
    rw [← h]
    exact Or.inl (ResolverPaths.owns_of_scopedCachePath hi hshared)
  · rw [if_neg hpublished] at h
    simp only [yields_ok_bind_iff, yields_settled] at h
    obtain ⟨-, -, currentPath, hlabel, extracted, -, h⟩ := h
    have hconfined := confined_of_readCurrentAssetPath hi hshared hlabel
    by_cases hextracted : extracted = true
    · rw [if_pos hextracted, yields_pure] at h
      rwa [← h]
    · rw [if_neg hextracted] at h
      simp only [yields_ok_bind_iff, yields_raise, yields_pure] at h
      obtain ⟨file, hfile, rfl⟩ := h
      rwa [(yields_extractFdidToPathWithPaths hfile).1]

/-- **Every asset a call inspects or writes is confined.** -/
theorem confined_of_mayAsk_ensureCachedChecked (hi : paths.identity = some i)
    (h : (ensureCachedChecked process paths fdid outPath).run.MayAsk B q') :
    ∀ path ∈ q'.assetPath?, Confined process paths i B path := by
  simp only [ensureCachedChecked, mayAsk_ok_bind_iff, mayAsk_settled, false_or,
    yields_settled] at h
  obtain ⟨expected, hexpected, hq | ⟨published, -, h⟩⟩ := h
  · obtain ⟨q, rfl, hq⟩ := mayAsk_ofInstall.mp hq
    rw [← mayAsk_inquire.mp hq]
    rintro path ⟨⟩
    exact Or.inl (ResolverPaths.owns_of_scopedCachePath hi hexpected)
  · by_cases hpublished : published = true
    · rw [if_pos hpublished] at h
      exact absurd h mayAsk_pure
    · rw [if_neg hpublished] at h
      simp only [mayAsk_ok_bind_iff, mayAsk_settled, false_or] at h
      obtain ⟨-, -, h⟩ := h
      exact confined_of_mayAsk_ensureFileCachedCheckedWithPaths hi h

/-- **The path a call returns is confined.** -/
theorem confined_of_yields_ensureCachedChecked (hi : paths.identity = some i)
    (h : (ensureCachedChecked process paths fdid outPath).run.Yields B (.ok path)) :
    Confined process paths i B path := by
  simp only [ensureCachedChecked, yields_ok_bind_iff, yields_settled] at h
  obtain ⟨expected, hexpected, published, -, h⟩ := h
  by_cases hpublished : published = true
  · rw [if_pos hpublished, yields_pure] at h
    rw [← h]
    exact Or.inl (ResolverPaths.owns_of_scopedCachePath hi hexpected)
  · rw [if_neg hpublished] at h
    obtain ⟨-, -, h⟩ := yields_ok_bind_iff.mp h
    exact confined_of_yields_ensureFileCachedCheckedWithPaths hi h

/-- The assets of a call are confined, those it has asked about by the answers it had
by then. -/
theorem confined_of_followed {th : Thread} (hfollowed : th.Followed process)
    (hjob : th.job = .ensureCached paths fdid outPath) (hi : paths.identity = some i) :
    (∀ q answer (earlier : CallTrace), ⟨q, answer⟩ :: earlier <:+ th.trace →
      ∀ path ∈ q.assetPath?, Confined process paths i earlier.answers path) ∧
    ∀ path, th.returnedPath = some path → Confined process paths i th.trace.answers path := by
  obtain ⟨job, trace, activity⟩ := th
  cases hjob
  -- what may be asked does not depend on what the thread does now
  have hasked : ∀ {rest : Rest}, ((Job.ensureCached paths fdid outPath).program process).run.Leads
      trace rest → ∀ q answer (earlier : CallTrace), ⟨q, answer⟩ :: earlier <:+ trace →
        ∀ path ∈ q.assetPath?, Confined process paths i earlier.answers path := by
    intro rest hled q answer earlier hsuffix
    rcases mayAsk_ok_bind_iff.mp (hled.mayAsk_of_suffix hsuffix) with hq | ⟨_, -, hq⟩
    · exact confined_of_mayAsk_ensureCachedChecked hi hq
    · exact absurd hq mayAsk_pure
  cases activity with
  | running rest =>
    refine ⟨hasked hfollowed, fun path hpath => ?_⟩
    unfold Thread.returnedPath at hpath
    split at hpath
    · next path' hactivity =>
      cases hpath
      cases hactivity
      have hled : ((Job.ensureCached paths fdid outPath).program process).run.Leads trace
        (.ret (.ok (.cached path))) := hfollowed
      obtain ⟨path', hyields, hpath⟩ := yields_ok_bind_iff.mp hled.yields
      cases yields_pure.mp hpath
      exact confined_of_yields_ensureCachedChecked hi hyields
    · cases hpath
  | initializing paths' identity asked rest k =>
    exact ⟨hasked hfollowed.1, by rintro path ⟨⟩⟩

/-- **The namespaces of identities are disjoint and inescapable.** A scoped path is one
of its identity, two identities have no path in common and none within the other's
asset root, a path qualified for another identity is an error, and in every run every
asset a call of an identity's resolver inspects, writes or returns is of the identity
or of the build of its product that was active when the call asked. -/
theorem namespaces_confined {ι : Type} [DecidableEq ι] :
    (∀ (paths : ResolverPaths) (i : AssetIdentity) (p q : PathBuf), paths.identity = some i →
      paths.scopedCachePath p = .ok q → i.Owns paths.sharedDataRoot q) ∧
    (∀ (paths paths' : ResolverPaths) (i j : AssetIdentity) (p p' q q' : PathBuf),
      paths.identity = some i → paths'.identity = some j →
      paths.sharedDataRoot = paths'.sharedDataRoot → i ≠ j →
      paths.scopedCachePath p = .ok q → paths'.scopedCachePath p' = .ok q' →
        q ≠ q' ∧ ¬q.startsWith (j.assetRoot paths.sharedDataRoot) ∧
          ¬q'.startsWith (i.assetRoot paths.sharedDataRoot)) ∧
    (∀ (paths : ResolverPaths) (i : AssetIdentity) (p relative : PathBuf), paths.identity = some i →
      paths.relativeDataPath p = .ok relative → relative.startsWith (.ofStr "products") →
      ¬relative.startsWith (i.assetRoot .empty) → ∃ e, paths.scopedCachePath p = .error e) ∧
    ∀ (process : Process) (env : (q : InstallQuery) → q.Answer) (es : List (Event ι)) (s : State ι),
      Runs.run (step process) (State.initial env) es = some s →
        ∀ t th paths fdid outPath i, s.threads t = some th →
          th.job = .ensureCached paths fdid outPath → paths.identity = some i →
          (∀ q answer (earlier : CallTrace), ⟨q, answer⟩ :: earlier <:+ th.trace →
            ∀ path ∈ q.assetPath?, Confined process paths i earlier.answers path) ∧
          ∀ path, th.returnedPath = some path →
            Confined process paths i th.trace.answers path := by
  refine ⟨fun paths i p q hi h => ResolverPaths.owns_of_scopedCachePath hi h, ?_,
    fun paths i p relative hi hrel hprod hforeign =>
      ResolverPaths.scopedCachePath_foreign hi hrel hprod hforeign, ?_⟩
  · intro paths paths' i j p p' q q' hi hj hroots hne hq hq'
    have howns := ResolverPaths.owns_of_scopedCachePath hi hq
    have howns' := ResolverPaths.owns_of_scopedCachePath hj hq'
    rw [← hroots] at howns'
    exact ⟨howns.ne howns' hne, howns.not_startsWith hne, howns'.not_startsWith hne.symm⟩
  · intro process env es s hrun t th paths fdid outPath i hth hjob hi
    exact confined_of_followed ((inv_run hrun).followed t th hth) hjob hi

/-- A resolver of the first build caches an asset. -/
def ensureCachedJob : Job := .ensureCached (samplePaths (some firstBuild)) 1 (.ofStr "/d/x")

/-- It extracts the asset once the second build is installed. -/
def retargetedExtraction : List (Event ℕ) :=
  patchToSecond :: .call 0 ensureCachedJob :: List.replicate 21 (.step 0)

/-- The destination in the namespace of the second build. -/
def retargetedPath : PathBuf := secondBuild.assetPath (.ofStr "/d") (.ofStr "x")

/-- The two builds share a data root, and an asset of the first is cached under the
second, which is the active one. -/
theorem namespaces_confined_sample :
    firstBuild.Owns (.ofStr "/d") labelledPath ∧ labelledPath ≠ retargetedPath ∧
      (∃ e, (samplePaths (some firstBuild)).scopedCachePath retargetedPath = .error e) ∧
      ∃ s th, Runs.run (step sampleProcess) sampleStart retargetedExtraction = some s ∧
        s.threads 0 = some th ∧ th.returnedPath = some retargetedPath ∧
        Confined sampleProcess (samplePaths (some firstBuild)) firstBuild th.trace.answers
          retargetedPath := by
  obtain ⟨hscoped, hdisjoint, hforeign, hruns⟩ := namespaces_confined (ι := ℕ)
  have hfirst : (samplePaths (some firstBuild)).scopedCachePath (.ofStr "/d/x") =
      .ok labelledPath := by decide +kernel
  have hsecond : (samplePaths (some secondBuild)).scopedCachePath (.ofStr "/d/x") =
      .ok retargetedPath := by decide +kernel
  have hne := (hdisjoint (samplePaths (some firstBuild)) (samplePaths (some secondBuild)) firstBuild
    secondBuild _ _ _ _ rfl rfl rfl (by decide) hfirst hsecond).1
  have hrejected : ∃ e, (samplePaths (some firstBuild)).scopedCachePath retargetedPath = .error e :=
    hforeign _ firstBuild retargetedPath (secondBuild.assetPath .empty (.ofStr "x")) rfl
      (by decide +kernel) (by decide +kernel) (by decide +kernel)
  refine ⟨hscoped (samplePaths (some firstBuild)) firstBuild _ _ rfl hfirst, hne, hrejected, ?_⟩
  have hseen : ((Runs.run (step sampleProcess) sampleStart retargetedExtraction).bind fun s =>
      (s.threads 0).map fun th => (th.job, th.returnedPath)) =
        some (ensureCachedJob, some retargetedPath) := by decide +kernel
  obtain ⟨s, hrun, hs⟩ := Option.bind_eq_some_iff.mp hseen
  obtain ⟨th, hth, hcall⟩ := Option.map_eq_some_iff.mp hs
  obtain ⟨hjob, hpath⟩ := Prod.mk.inj hcall
  exact ⟨s, th, hrun, hth, hpath, (hruns _ _ _ _ hrun 0 th _ _ _ _ hth hjob rfl).2 _ hpath⟩

end Casc

end AssetResolver
