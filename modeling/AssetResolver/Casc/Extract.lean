import AssetResolver.Casc.Memo

/-!
# What is stored under a build key

A call that extracts reads `.build.info` for the label of its destination
(`AssetResolver.readCurrentAssetPath`), once more for the cell it takes a state out
of (`AssetResolver.getCasc`), and the state was initialised from yet another read.
A patch between the first two stores bytes of the new build under the key of the old
one (`AssetResolver.Casc.not_written_under_its_build`).

As long as every read of `.build.info` selects what the earlier read did that it has
to agree with (`AssetResolver.Casc.selectionAgrees`), what a call has written was
read through a state of the build its destination is labelled with
(`AssetResolver.Casc.written_under_its_build`). The record of such a call is cut
where its program is: either nothing is written at all, or the write is the last
question (`AssetResolver.Casc.leads_ensureFileCachedCheckedWithPaths`).
-/

namespace AssetResolver

open Program

/-- The question writes an asset. -/
def CascQuery.isWrite : CascQuery → Bool
  | .outside (.writeToPath _ _) => true
  | _ => false

theorem CascQuery.isWrite_of_assetPath? {q : CascQuery} (h : q.assetPath? = none) :
    q.isWrite = false := by
  unfold isWrite
  split
  · cases h
  · rfl

namespace Casc

variable {ι : Type} [DecidableEq ι] {process : Process} {paths : ResolverPaths} {fdid : UInt32}
  {outPath path : PathBuf} {i : AssetIdentity} {trace first later : CallTrace}

/-! ### The record of an extraction -/

/-- Nothing is written. -/
def Silent (trace : CallTrace) : Prop := ∀ entry ∈ trace, entry.1.isWrite = false

theorem Silent.append (hlater : Silent later) (hfirst : Silent first) :
    Silent (later ++ first) := fun entry h =>
  (List.mem_append.mp h).elim (hlater entry) (hfirst entry)

/-- A program that may ask about no asset writes none. -/
theorem silent_of_leads {α : Type} {p rest : Program CascQuery CascQuery.Answer α}
    (h : p.Leads trace rest) (hp : ∀ q, p.MayAsk trace.answers q → q.assetPath? = none) :
    Silent trace := by
  rintro ⟨q, answer⟩ hmem
  obtain ⟨later, earlier, rfl⟩ := List.append_of_mem hmem
  refine CascQuery.isWrite_of_assetPath? (hp q ?_)
  exact (h.mayAsk_of_suffix ⟨later, rfl⟩).mono fun q' answer' h' =>
    List.mem_append_right _ (List.mem_cons_of_mem _ h')

theorem leads_ofInstall_isFile {p : PathBuf} {found : Bool} :
    (ofInstall (answer (.isFile p))).run.Leads trace (.ret (.ok found)) ↔
      trace = [⟨.outside (.isFile p), found⟩] := by
  change (ask (CascQuery.outside (.isFile p)) fun found => ret (Except.ok found)).Leads trace
    (ret (Except.ok found)) ↔ _
  rw [leads_ask_ret_iff]
  constructor
  · rintro ⟨found', later, rfl, hret⟩
    obtain ⟨rfl, hfound⟩ := leads_ret_iff.mp hret
    rw [Except.ok.inj hfound]
    rfl
  · rintro rfl
    exact ⟨found, [], rfl, .start⟩

theorem silent_isFile {p : PathBuf} {found : Bool} :
    Silent [⟨.outside (.isFile p), found⟩] := by
  rintro entry hmem
  rw [List.mem_singleton.mp hmem]
  rfl

theorem leads_ofInstall_writeToPath {p : PathBuf} {data : List UInt8} {u : Unit} :
    (ofInstall (raise (question (.writeToPath p data)) id)).run.Leads trace (.ret (.ok u)) →
      trace = [⟨.outside (.writeToPath p data), .ok ()⟩] := by
  intro h
  change (ask (CascQuery.outside (.writeToPath p data)) fun done =>
    ret (Except.mapError id done)).Leads trace (ret (Except.ok u)) at h
  obtain ⟨done, later, rfl, hret⟩ := leads_ask_ret_iff.mp h
  obtain ⟨rfl, hdone⟩ := leads_ret_iff.mp hret
  rw [mapError_eq_ok_iff.mp hdone]
  rfl

/-- **A record that ends in a write**, of the bytes that a state taken out of a cell
has read. -/
def Extraction (process : Process) (paths : ResolverPaths) (fdid : UInt32) (path : PathBuf)
    (trace : CallTrace) : Prop :=
  ∃ casc content earlier,
    trace = ⟨.outside (.writeToPath path content.data), .ok ()⟩ :: earlier ∧ Silent earlier ∧
      (getCasc process paths).run.Yields trace.answers (.ok casc) ∧
      (readFdidBytes process casc fdid).run.Yields
        (fun q answer => trace.answers (.outside q) answer) (.ok content)

theorem Extraction.append (h : Extraction process paths fdid path later) (hfirst : Silent first) :
    Extraction process paths fdid path (later ++ first) := by
  obtain ⟨casc, content, earlier, rfl, hsilent, hcasc, hcontent⟩ := h
  exact ⟨casc, content, earlier ++ first, rfl, hsilent.append hfirst,
    hcasc.mono fun q answer h => List.mem_append_left _ h,
    hcontent.mono fun q answer h => List.mem_append_left _ h⟩

theorem leads_extractFdidToPathWithPaths {file : ExtractedFile}
    (h : (extractFdidToPathWithPaths process paths fdid outPath).run.Leads trace
      (.ret (.ok file))) :
    file.path = outPath ∧ Extraction process paths fdid outPath trace := by
  simp only [extractFdidToPathWithPaths, leads_ok_bind_iff, leads_settled, leads_pure] at h
  obtain ⟨casc, taking, _, rfl, hcasc, _, preparing, _, rfl, hprepared, content, reading, _, rfl,
    hcontent, _, _, _, rfl, ⟨rfl, -⟩, _, writing, _, rfl, hwrite, rfl, rfl⟩ := h
  obtain rfl := leads_ofInstall_writeToPath hwrite
  refine ⟨rfl, casc, content, reading ++ (preparing ++ taking), by simp, ?_, ?_, ?_⟩
  · refine Silent.append ?_ (Silent.append ?_ ?_)
    · refine silent_of_leads hcontent fun q' hq' => ?_
      obtain ⟨q, rfl, hq⟩ := mayAsk_ofInstall.mp hq'
      exact assetPath?_readFdidBytes hq
    · refine silent_of_leads hprepared fun q' hq' => ?_
      obtain ⟨q, rfl, hq⟩ := mayAsk_ofInstall.mp hq'
      rw [← mayAsk_query.mp (mayAsk_raise.mp hq)]
      rfl
    · exact silent_of_leads hcasc fun q hq => assetPath?_getCasc hq
  · exact hcasc.yields.mono fun q answer h => by simp_all [Trace.answers]
  · refine (yields_ofInstall.mp hcontent.yields).mono fun q answer h => ?_
    simp_all [Trace.answers]

/-- **A record that extracts to a label**: the path belongs to a build the call has
selected. -/
def Labelled (process : Process) (paths : ResolverPaths) (fdid : UInt32) (path : PathBuf)
    (trace : CallTrace) : Prop :=
  Extraction process paths fdid path trace ∧ ∃ installRoot current,
    current.Owns paths.sharedDataRoot path ∧
      Selects process.formats (fun q answer => trace.answers (.outside q) answer) installRoot
        current

theorem Labelled.append (h : Labelled process paths fdid path later) (hfirst : Silent first) :
    Labelled process paths fdid path (later ++ first) := by
  obtain ⟨hextraction, installRoot, current, howns, content, hcontent, hselected⟩ := h
  exact ⟨hextraction.append hfirst, installRoot, current, howns, content,
    List.mem_append_left _ hcontent, hselected⟩

/-- **What a call that caches an asset has done**: it has written nothing, or
extracted to a label. -/
theorem leads_ensureFileCachedCheckedWithPaths (hi : paths.identity = some i)
    (h : (ensureFileCachedCheckedWithPaths process paths fdid outPath).run.Leads trace
      (.ret (.ok path))) :
    Silent trace ∨ Labelled process paths fdid path trace := by
  simp only [ensureFileCachedCheckedWithPaths, leads_ok_bind_iff, leads_settled] at h
  obtain ⟨sharedPath, _, later, rfl, ⟨rfl, hshared⟩, published, _, later, rfl, hfound, h⟩ := h
  obtain rfl := leads_ofInstall_isFile.mp hfound
  rw [List.append_nil]
  by_cases hpublished : published = true
  · rw [if_pos hpublished] at h
    obtain ⟨rfl, -⟩ := leads_pure.mp h
    exact Or.inl silent_isFile
  · rw [if_neg hpublished] at h
    simp only [leads_ok_bind_iff, leads_settled] at h
    obtain ⟨-, _, later, rfl, ⟨rfl, -⟩, currentPath, labelling, later, rfl, hlabel, extracted, _,
      later, rfl, hfound', h⟩ := h
    obtain rfl := leads_ofInstall_isFile.mp hfound'
    have hlabelling : Silent labelling := silent_of_leads hlabel fun q hq => by
      obtain ⟨q', rfl, hq'⟩ := mayAsk_ofInstall.mp hq
      exact assetPath?_readCurrentAssetPath hq'
    have hbefore : Silent (([⟨.outside (.isFile currentPath), extracted⟩] ++ labelling) ++ [] ++
        [⟨.outside (.isFile sharedPath), published⟩]) := by
      rw [List.append_nil]
      exact (silent_isFile.append hlabelling).append silent_isFile
    by_cases hextracted : extracted = true
    · rw [if_pos hextracted] at h
      obtain ⟨rfl, -⟩ := leads_pure.mp h
      exact Or.inl hbefore
    · rw [if_neg hextracted] at h
      simp only [leads_ok_bind_iff, leads_raise, leads_pure] at h
      obtain ⟨file, extraction, _, rfl, hextract, rfl, rfl⟩ := h
      obtain ⟨hpath, hextraction⟩ := leads_extractFdidToPathWithPaths hextract
      obtain ⟨installRoot, current, -, -, hselects, howns⟩ :=
        yields_readCurrentAssetPath hi (ResolverPaths.owns_of_scopedCachePath hi hshared)
          (yields_ofInstall.mp hlabel.yields)
      rw [hpath]
      refine Or.inr ⟨?_, installRoot, current, howns, ?_⟩
      · simpa using hextraction.append hbefore
      · obtain ⟨content, hcontent, hselected⟩ := hselects
        exact ⟨content, by simp_all [Trace.answers], hselected⟩

theorem leads_ensureCachedChecked (hi : paths.identity = some i)
    (h : (ensureCachedChecked process paths fdid outPath).run.Leads trace (.ret (.ok path))) :
    Silent trace ∨ Labelled process paths fdid path trace := by
  simp only [ensureCachedChecked, leads_ok_bind_iff, leads_settled] at h
  obtain ⟨expected, _, later, rfl, ⟨rfl, -⟩, published, _, later, rfl, hfound, h⟩ := h
  obtain rfl := leads_ofInstall_isFile.mp hfound
  rw [List.append_nil]
  by_cases hpublished : published = true
  · rw [if_pos hpublished] at h
    obtain ⟨rfl, -⟩ := leads_pure.mp h
    exact Or.inl silent_isFile
  · rw [if_neg hpublished] at h
    simp only [leads_ok_bind_iff, leads_settled] at h
    obtain ⟨-, _, later, rfl, ⟨rfl, -⟩, h⟩ := h
    rw [List.append_nil]
    rcases leads_ensureFileCachedCheckedWithPaths hi h with hsilent | hlabelled
    · exact Or.inl (hsilent.append silent_isFile)
    · exact Or.inr (hlabelled.append silent_isFile)

/-! ### What is seen of a call -/

/-- The resolver and the asset of a call that caches one. -/
def Job.caches : Job → Option (ResolverPaths × UInt32)
  | .ensureFileCached paths fdid _ => some (paths, fdid)
  | .ensureCached paths fdid _ => some (paths, fdid)
  | _ => none

/-- The path a call has returned. -/
def Thread.returnedPath (th : Thread) : Option PathBuf :=
  match th.activity with
  | .running (.ret (.ok (.cached path))) => some path
  | _ => none

/-- The assets a call has written. -/
def Thread.written (th : Thread) : List (PathBuf × List UInt8) :=
  th.trace.filterMap fun
    | ⟨.outside (.writeToPath path data), .ok ()⟩ => some (path, data)
    | _ => none

/-- The states a call has taken out of cells. -/
def Thread.taken (th : Thread) : List CascState :=
  th.trace.filterMap fun
    | ⟨.getOrInit _ _, .ok casc⟩ => some casc
    | _ => none

theorem mem_written {th : Thread} {data : List UInt8} :
    (path, data) ∈ th.written ↔ ⟨.outside (.writeToPath path data), .ok ()⟩ ∈ th.trace := by
  simp only [Thread.written, List.mem_filterMap]
  constructor
  · rintro ⟨entry, hmem, hentry⟩
    split at hentry
    · cases hentry
      exact hmem
    · cases hentry
  · exact fun hmem => ⟨_, hmem, rfl⟩

theorem mem_taken {th : Thread} {identity : AssetIdentity} {casc : CascState}
    (h : ⟨.getOrInit paths identity, .ok casc⟩ ∈ th.trace) : casc ∈ th.taken :=
  List.mem_filterMap.mpr ⟨_, h, rfl⟩

/-- **A call that has written and returned** has extracted to a label, and written
nothing else. -/
theorem labelled_of_returned {th : Thread} (hfollowed : th.Followed process)
    (hjob : th.job.caches = some (paths, fdid)) (hi : paths.identity = some i)
    (hreturned : th.returnedPath = some path) {path' : PathBuf} {data : List UInt8}
    (hwritten : (path', data) ∈ th.written) : Labelled process paths fdid path th.trace := by
  obtain ⟨job, trace, activity⟩ := th
  unfold Thread.returnedPath at hreturned
  split at hreturned
  · next path'' hactivity =>
    cases hreturned
    cases hactivity
    have hled : (job.program process).run.Leads trace (.ret (.ok (.cached path))) := hfollowed
    have hsilent : ¬Silent trace := fun hsilent => by
      cases hsilent _ (mem_written.mp hwritten)
    cases job with
    | initializeResolver paths => cases hjob
    | resolveBytes paths fdid => cases hjob
    | extract fdid outPath => cases hjob
    | ensureFileCached paths fdid outPath =>
      cases hjob
      simp only [Job.program, leads_ok_bind_iff, leads_pure] at hled
      obtain ⟨_, first, _, rfl, hled, rfl, ⟨⟩⟩ := hled
      exact (leads_ensureFileCachedCheckedWithPaths hi hled).resolve_left hsilent
    | ensureCached paths fdid outPath =>
      cases hjob
      simp only [Job.program, leads_ok_bind_iff, leads_pure] at hled
      obtain ⟨_, first, _, rfl, hled, rfl, ⟨⟩⟩ := hled
      exact (leads_ensureCachedChecked hi hled).resolve_left hsilent
  · cases hreturned

/-! ### Reads that agree -/

/-- The build a question of a call has selected. -/
def callSelection (formats : InstallFormats) : Sigma CascQuery.Answer → Option AssetIdentity
  | ⟨.outside q, answer⟩ => selection formats q answer
  | _ => none

/-- **A read agrees with the call**: what a call reads in `.build.info` now selects
the identity its earlier reads have selected. -/
def labelAgrees (process : Process) (s : State ι) : Event ι → Bool
  | .step t =>
    match s.threads t with
    | some ⟨_, trace, .running (.ask (.outside q) _)⟩ =>
      (selection process.formats q (s.env q)).all fun i =>
        trace.all fun entry => (callSelection process.formats entry).all fun j => j = i
    | _ => true
  | _ => true

/-- **No read disagrees** with the one before it: that of a cell with that of the
label, and that of an initialisation with that of the cell. -/
def selectionAgrees (process : Process) (s : State ι) (e : Event ι) : Bool :=
  labelAgrees process s e && rereadAgrees process s e

/-- A call has selected one identity. -/
def SelectsOne (formats : InstallFormats) (trace : CallTrace) : Prop :=
  ∀ entry ∈ trace, ∀ entry' ∈ trace, ∀ i j, callSelection formats entry = some i →
    callSelection formats entry' = some j → i = j

theorem SelectsOne.cons {formats : InstallFormats} {entry : Sigma CascQuery.Answer}
    (h : SelectsOne formats trace)
    (hentry : ∀ i, callSelection formats entry = some i → ∀ entry' ∈ trace, ∀ j,
      callSelection formats entry' = some j → j = i) : SelectsOne formats (entry :: trace) := by
  intro first hfirst second hsecond i j hi hj
  rcases List.mem_cons.mp hfirst with rfl | hfirst'
  · rcases List.mem_cons.mp hsecond with rfl | hsecond'
    · exact Option.some.inj (hi.symm.trans hj)
    · exact (hentry i hi second hsecond' j hj).symm
  · rcases List.mem_cons.mp hsecond with rfl | hsecond'
    · exact hentry j hj first hfirst' i hi
    · exact h first hfirst' second hsecond' i j hi hj

variable {s s' : State ι} {e : Event ι}

theorem selectsOne_step (hs : ∀ t th, s.threads t = some th → SelectsOne process.formats th.trace)
    (hagrees : labelAgrees process s e) (h : step process s e = some s') :
    ∀ t th, s'.threads t = some th → SelectsOne process.formats th.trace := by
  cases transition_of_step h with
  | patch => exact hs
  | call hidle =>
    refine State.forall_put hs ?_
    rintro th ⟨⟩ entry hmem
    cases hmem
  | @ask t job trace q k hth =>
    refine State.forall_put hs ?_
    rintro th ⟨⟩
    refine (hs t _ hth).cons fun i hi entry hmem j hj => ?_
    have hi' : selection process.formats q (s.env q) = some i := hi
    simp only [labelAgrees, hth, hi', Option.all_some, List.all_eq_true] at hagrees
    simpa [hj] using hagrees entry hmem
  | @enter t job trace paths identity k hth hcell =>
    refine State.forall_put (s := s.setCell _ _) hs ?_
    rintro th ⟨⟩
    have hone : SelectsOne process.formats trace := hs t _ hth
    exact hone
  | @take t job trace paths identity k asked outcome hth hcell =>
    refine State.forall_put hs ?_
    rintro th ⟨⟩
    exact (hs t _ hth).cons (by rintro i ⟨⟩)
  | @proceed t job trace paths identity asked q rest k hth =>
    refine State.forall_put hs ?_
    rintro th ⟨⟩
    have hone : SelectsOne process.formats trace := hs t _ hth
    exact hone
  | @finish t job trace paths identity asked outcome k hth =>
    refine State.forall_put (s := s.setCell _ _) hs ?_
    rintro th ⟨⟩
    exact (hs t _ hth).cons (by rintro i ⟨⟩)
  | unwind hth =>
    refine State.forall_put hs ?_
    rintro th ⟨⟩
  | abandon hth =>
    refine State.forall_put (s := s.setCell _ _) hs ?_
    rintro th ⟨⟩

theorem selectsOne_run {env : (q : InstallQuery) → q.Answer} {es : List (Event ι)}
    (hguard : Runs.Guarded (step process) (fun s e => labelAgrees process s e)
      (State.initial env) es)
    (hrun : Runs.run (step process) (State.initial env) es = some s) :
    ∀ t th, s.threads t = some th → SelectsOne process.formats th.trace :=
  Runs.invariant_of_guarded
    (fun s => ∀ t th, s.threads t = some th → SelectsOne process.formats th.trace)
    (fun _ _ _ hs hagrees h => selectsOne_step hs hagrees h) (by rintro t th ⟨⟩) hguard hrun

/-- **What a call has written it has read through a state of the build that its
destination belongs to**, in every run in which no read disagrees. -/
theorem written_under_its_build {env : (q : InstallQuery) → q.Answer} {es : List (Event ι)}
    (hguard : Runs.Guarded (step process) (fun s e => selectionAgrees process s e)
      (State.initial env) es)
    (hrun : Runs.run (step process) (State.initial env) es = some s) {t : ι} {th : Thread}
    (hth : s.threads t = some th) (hjob : th.job.caches = some (paths, fdid))
    (hi : paths.identity = some i) (hreturned : th.returnedPath = some path) {path' : PathBuf}
    {data : List UInt8} (hwritten : (path', data) ∈ th.written) {j : AssetIdentity}
    (hj : j.Owns paths.sharedDataRoot path) :
    path' = path ∧ ∃ casc ∈ th.taken, casc.identity = some j ∧ ∃ content, content.data = data ∧
      (readFdidBytes process casc fdid).run.Yields
        (fun q answer => th.trace.answers (.outside q) answer) (.ok content) := by
  have hinv := inv_run hrun
  have hown := ownReads_run (hguard.mono fun s e h => ((Bool.and_eq_true _ _).mp h).2) hrun
  have hone :=
    selectsOne_run (hguard.mono fun s e h => ((Bool.and_eq_true _ _).mp h).1) hrun t th hth
  obtain ⟨⟨casc, content, earlier, htrace, hsilent, hcasc, hcontent⟩, installRoot, current, howns,
    label, hlabel, hcurrent⟩ :=
      labelled_of_returned (hinv.followed t th hth) hjob hi hreturned hwritten
  obtain ⟨installRoot', identity, -, ⟨reread, hreread, hidentity⟩, hmem⟩ := yields_getCasc hcasc
  -- the label, the cell and the owner of the path are of one identity
  obtain rfl : current = identity := hone _ hlabel _ hreread _ _ hcurrent hidentity
  obtain rfl : j = current := by
    by_contra hne
    exact hj.ne howns hne rfl
  have hwrite := mem_written.mp hwritten
  rw [htrace] at hwrite
  obtain ⟨rfl, rfl⟩ : path' = path ∧ data = content.data := by
    rcases List.mem_cons.mp hwrite with heq | hearlier
    · simpa using heq
    · cases hsilent _ hearlier
  exact ⟨rfl, casc, mem_taken hmem, identity_of_taken hinv hown hth hmem, content, rfl, hcontent⟩

/-- A resolver of the first build caches an asset. -/
def cachingJob : Job := .ensureFileCached (samplePaths (some firstBuild)) 1 (.ofStr "/d/x")

/-- Its destination in the namespace of the first build. -/
def labelledPath : PathBuf := firstBuild.assetPath (.ofStr "/d") (.ofStr "x")

theorem owns_labelledPath : firstBuild.Owns (.ofStr "/d") labelledPath :=
  firstBuild.owns_assetPath (.ofStr "/d") (by decide)

/-- What is seen of a call that caches an asset. -/
structure Seen where
  /-- The identity of its resolver. -/
  identity : Option AssetIdentity
  /-- Its shared root. -/
  dataRoot : PathBuf
  /-- The asset. -/
  fdid : UInt32
  /-- What the call has returned. -/
  returned : Option PathBuf
  /-- What it has written. -/
  written : List (PathBuf × List UInt8)
  /-- The identities of the states it has taken. -/
  taken : List (Option AssetIdentity)
  deriving DecidableEq

/-- What is seen of the sample call after a run. -/
def seenAfter (es : List (Event ℕ)) : Option Seen :=
  (Runs.run (step sampleProcess) sampleStart es).bind fun s =>
    (s.threads 0).bind fun th => th.job.caches.map fun job =>
      ⟨job.1.identity, job.1.sharedDataRoot, job.2, th.returnedPath, th.written,
        th.taken.map CascState.identity⟩

theorem exists_of_seenAfter {es : List (Event ℕ)} {seen : Seen} (h : seenAfter es = some seen) :
    ∃ s th paths, Runs.run (step sampleProcess) sampleStart es = some s ∧
      s.threads 0 = some th ∧ th.job.caches = some (paths, seen.fdid) ∧
      paths.identity = seen.identity ∧ paths.sharedDataRoot = seen.dataRoot ∧
      th.returnedPath = seen.returned ∧ th.written = seen.written ∧
      th.taken.map CascState.identity = seen.taken := by
  obtain ⟨s, hrun, hs⟩ := Option.bind_eq_some_iff.mp h
  obtain ⟨th, hth, hthread⟩ := Option.bind_eq_some_iff.mp hs
  obtain ⟨⟨paths, fdid⟩, hcaches, rfl⟩ := Option.map_eq_some_iff.mp hthread
  exact ⟨s, th, paths, hrun, hth, hcaches, rfl, rfl, rfl, rfl, rfl⟩

/-- It extracts the asset, and a patch comes when it has its state, but not yet the bytes. -/
def plainExtraction : List (Event ℕ) :=
  .call 0 cachingJob :: List.replicate 14 (.step 0) ++ patchToSecond :: List.replicate 6 (.step 0)

/-- The bytes are those of the first build. -/
theorem written_under_its_build_sample :
    ∃ s th, Runs.run (step sampleProcess) sampleStart plainExtraction = some s ∧
      s.threads 0 = some th ∧ th.returnedPath = some labelledPath ∧
      ∃ casc ∈ th.taken, casc.identity = some firstBuild ∧ ∃ content,
        content.data = osString "asset" ∧
        (readFdidBytes sampleProcess casc 1).run.Yields
          (fun q answer => th.trace.answers (.outside q) answer) (.ok content) := by
  have hseen : seenAfter plainExtraction = some ⟨some firstBuild, .ofStr "/d", 1,
      some labelledPath, [(labelledPath, osString "asset")], [some firstBuild]⟩ := by decide +kernel
  obtain ⟨s, th, paths, hrun, hth, hjob, hi, hroot, hreturned, hwritten, -⟩ :=
    exists_of_seenAfter hseen
  obtain ⟨-, hread⟩ := written_under_its_build (by decide +kernel) hrun hth hjob hi hreturned
    (by rw [hwritten]; exact List.mem_singleton.mpr rfl) (by rw [hroot]; exact owns_labelledPath)
  exact ⟨s, th, hrun, hth, hreturned, hread⟩

/-- It extracts the asset, and a patch comes between the read for the label and the
read for the cell. -/
def patchedExtraction : List (Event ℕ) :=
  .call 0 cachingJob :: .step 0 :: .step 0 :: .step 0 :: .step 0 :: patchToSecond ::
    List.replicate 16 (.step 0)

/-- **Bytes of one build can be stored under the key of another.** -/
theorem not_written_under_its_build :
    ¬∀ (process : Process) (env : (q : InstallQuery) → q.Answer) (es : List (Event ℕ))
      (s : State ℕ), Runs.run (step process) (State.initial env) es = some s →
        ∀ t th paths fdid i path path' data (j : AssetIdentity), s.threads t = some th →
          th.job.caches = some (paths, fdid) → paths.identity = some i →
          th.returnedPath = some path → (path', data) ∈ th.written →
          j.Owns paths.sharedDataRoot path →
            ∃ casc ∈ th.taken, ∃ identity, casc.identity = some identity ∧
              identity.buildKey = j.buildKey := by
  intro hall
  have hseen : seenAfter patchedExtraction = some ⟨some firstBuild, .ofStr "/d", 1,
      some labelledPath, [(labelledPath, osString "asset")], [some secondBuild]⟩ := by
    decide +kernel
  obtain ⟨s, th, paths, hrun, hth, hjob, hi, hroot, hreturned, hwritten, htaken⟩ :=
    exists_of_seenAfter hseen
  obtain ⟨casc, hcasc, identity, hidentity, hkey⟩ := hall sampleProcess _ _ s hrun 0 th paths 1
    firstBuild labelledPath labelledPath _ firstBuild hth hjob hi hreturned
    (by rw [hwritten]; exact List.mem_singleton.mpr rfl) (by rw [hroot]; exact owns_labelledPath)
  have hsecond : casc.identity ∈ th.taken.map CascState.identity := List.mem_map_of_mem hcasc
  rw [htaken, hidentity, List.mem_singleton] at hsecond
  rw [Option.some.inj hsecond] at hkey
  exact absurd hkey (by decide)

end Casc

end AssetResolver
