import AssetResolver.Install
import AssetResolver.Resolution.Publish

/-!
# The publisher, read by one caller

`publish_resolution_namespace` once more, as a function of what its operations come
to: the reading a caller needs that is not interrupted and whose builder asks an
installation questions of its own
(`AssetResolver.publishResolutionNamespace`).

The two readings of the function are one. Whatever the sequential one returns, the
machine that takes one file-system operation a step gets there
(`AssetResolver.Publish.reaches_publishResolutionNamespace`), so that the protocol of
`AssetResolver.Publish.publication_protocol` is about this function too. A judgement
is as many steps as it asks questions (`AssetResolver.Publish.reaches_inspected`), a
removal as many as there are files (`AssetResolver.Publish.reaches_unlinked`).
-/

namespace AssetResolver

open Program Publish Runs

/-! ### The sequential reading -/

/-- The operations of a publication that may fail, with their texts. A removal that
fails leaves the rest of the directory. -/
structure PublishIo where
  /-- `acquire_namespace_lock`. -/
  lock : Option String
  /-- `create_namespace_staging`. -/
  createStaging : Option String
  /-- `remove_dir_all(casc_dir)`. -/
  remove : Option (String × NamespaceDir)
  /-- `rename(staging, casc_dir)`. -/
  rename : Option String
  /-- `remove_dir_all(&staging)`. -/
  sweep : Option String

/-- `publish_complete_namespace`: the result, and the published directory. -/
def publishCompleteNamespace (site : Site) (n : StagingName) (io : PublishIo)
    (staged : NamespaceDir) (target : Option NamespaceDir) :
    Except String Unit × Option NamespaceDir :=
  match (resolutionCacheIsFresh (site.stagingPath n)).run
      (dirAnswer (site.stagingPath n) (some staged)) with
  | .error e => (.error e, target)
  | .ok false => (.error s!"incomplete CASC namespace {(site.stagingPath n).display}", target)
  | .ok true =>
    -- what is there was judged incomplete; a removal that fails leaves a part of it
    match target, io.remove with
    | some _, some (e, rest) =>
      (.error s!"remove incomplete {site.cascDir.display}: {e}", some rest)
    | _, _ =>
      match io.rename with
      | some e => (.error s!"publish {site.cascDir.display}: {e}", none)
      | none => (.ok (), some staged)

/-- The removal of the staging directory of a call that failed. -/
def sweepStaging (site : Site) (n : StagingName) (io : PublishIo) (e : String) :
    Except String Unit :=
  match io.sweep with
  | some failure =>
    .error s!"cleanup {(site.stagingPath n).display} after Err({e.quote}): {failure}"
  | none => .error e

/-- `publish_resolution_namespace`, of a caller that is not interrupted: the result,
and the published directory. -/
def publishResolutionNamespace (site : Site) (n : StagingName) (io : PublishIo)
    (target : Option NamespaceDir) (writeCache : InstallProgram NamespaceDir) :
    Program InstallQuery InstallQuery.Answer (Except String Unit × Option NamespaceDir) :=
  match io.lock with
  | some e => .ret (.error e, target)
  | none =>
    match (resolutionCacheIsFresh site.cascDir).run (dirAnswer site.cascDir target) with
    | .error e => .ret (.error e, target)
    | .ok true => .ret (.ok (), target)
    | .ok false =>
      match io.createStaging with
      | some e => .ret (.error e, target)
      | none =>
        writeCache.run >>= fun written =>
          match written with
          | .error e => .ret (sweepStaging site n io e, target)
          | .ok staged =>
            match publishCompleteNamespace site n io staged target with
            | (.error e, left) => .ret (sweepStaging site n io e, left)
            | (.ok (), published) => .ret (.ok (), published)

/-! ### A directory that is absent -/

variable {A : (q : InstallQuery) → q.Answer → Prop} {site : Site} {n : StagingName}
  {publishIo : PublishIo}

/-- A call that failed reports an error, whatever its removal comes to. -/
theorem sweepStaging_eq_error (e : String) :
    ∃ e', sweepStaging site n publishIo e = .error e' := by
  unfold sweepStaging
  cases publishIo.sweep with
  | none => exact ⟨e, rfl⟩
  | some failure => exact ⟨_, rfl⟩

/-- Where nothing is published yet, a staging directory appears as it is, having been
judged fresh, or nothing does. -/
theorem publishCompleteNamespace_none {staged : NamespaceDir} :
    (∃ e, publishCompleteNamespace site n publishIo staged none = (.error e, none)) ∨
      publishCompleteNamespace site n publishIo staged none = (.ok (), some staged) ∧
        staged.Fresh := by
  unfold publishCompleteNamespace
  cases hfresh : (resolutionCacheIsFresh (site.stagingPath n)).run
      (dirAnswer (site.stagingPath n) (some staged)) with
  | error e => exact Or.inl ⟨e, rfl⟩
  | ok fresh =>
    cases fresh with
    | false => exact Or.inl ⟨_, rfl⟩
    | true =>
      dsimp only
      cases publishIo.rename with
      | some e => exact Or.inl ⟨_, rfl⟩
      | none =>
        obtain ⟨dir, hdir, hdirFresh⟩ := (resolutionCacheIsFresh_run _ _).mp hfresh
        cases hdir
        exact Or.inr ⟨rfl, hdirFresh⟩

/-- The directory appears with a success, as the builder left it, or not at all. -/
theorem publishResolutionNamespace_none
    {writeCache : InstallProgram NamespaceDir} {result : Except String Unit}
    {target : Option NamespaceDir}
    (h : (publishResolutionNamespace site n publishIo none writeCache).Yields A (result, target)) :
    (∃ e, result = .error e ∧ target = none) ∨
      ∃ staged, result = .ok () ∧ target = some staged ∧ staged.Fresh ∧
        writeCache.run.Yields A (.ok staged) := by
  unfold publishResolutionNamespace at h
  cases hlock : publishIo.lock with
  | some e =>
    rw [hlock] at h
    cases h
    exact Or.inl ⟨e, rfl, rfl⟩
  | none =>
    have hjudged : (resolutionCacheIsFresh site.cascDir).run (dirAnswer site.cascDir none) =
        .ok false := rfl
    rw [hlock, hjudged] at h
    cases hcreate : publishIo.createStaging with
    | some e =>
      rw [hcreate] at h
      cases h
      exact Or.inl ⟨e, rfl, rfl⟩
    | none =>
      rw [hcreate] at h
      obtain ⟨written, hwritten, h⟩ := yields_bind_iff.mp h
      cases written with
      | error e =>
        cases h
        obtain ⟨e', he'⟩ := sweepStaging_eq_error e
        exact Or.inl ⟨e', he', rfl⟩
      | ok staged =>
        dsimp only at h
        rcases publishCompleteNamespace_none with ⟨e, hpublished⟩ | ⟨hpublished, hfresh⟩
        · rw [hpublished] at h
          cases h
          obtain ⟨e', he'⟩ := sweepStaging_eq_error e
          exact Or.inl ⟨e', he', rfl⟩
        · rw [hpublished] at h
          cases h
          exact Or.inr ⟨staged, rfl, rfl, hfresh, hwritten⟩

namespace Publish

/-! ### Its steps -/

variable {ι : Type} [DecidableEq ι] {s : State ι} {c : ι} {B : Builder}

@[simp] theorem State.goto_pc (p : Pc) : (s.goto c p).pc c = p := Function.update_self ..

@[simp] theorem State.goto_goto (p p' : Pc) : (s.goto c p).goto c p' = s.goto c p' := by
  simp [State.goto]

omit [DecidableEq ι] in
@[simp] theorem State.stage_staging (d : Option NamespaceDir) : (s.stage n d).staging n = d :=
  Function.update_self ..

theorem step_publish (hidle : s.pc c = .idle) :
    step B site s (.publish c) = some (s.goto c .locking) := by
  simp [step, hidle]

theorem step_fail {p p' : Pc} {e : String} (h : afterFailure e p = some p') :
    step B site (s.goto c p) (.fail c e) = some (s.goto c p') := by
  simp [step, h]

theorem step_create (hn : s.staging n = none) :
    step B site (s.goto c .creating) (.create c n) =
      some ((s.stage n (some .empty)).goto c (.writing n)) := by
  have hnew : (s.goto c .creating).staging n = none := hn
  simp only [step, State.goto_pc, hnew]
  simp [State.goto, State.stage]

/-- **A judgement that nobody disturbs** comes to what the directory answers. -/
theorem reaches_inspected {stand : DirProgram (Except String Bool) → Pc}
    {after : Except String Bool → Pc} {env : (q : DirQuery) → q.Answer}
    (hret : ∀ r, step B site (s.goto c (stand (.ret r))) (.inspect c) = some (s.goto c (after r)))
    (hask : ∀ q k, step B site (s.goto c (stand (.ask q k))) (.inspect c) =
      some (s.goto c (stand (k (env q)))))
    (rest : DirProgram (Except String Bool)) :
    Reaches (step B site) (s.goto c (stand rest)) (s.goto c (after (rest.run env))) := by
  induction rest with
  | ret r => exact .head (.inspect c) (hret r) .refl
  | ask q k ih => exact .head (.inspect c) (hask q k) (ih (env q))

/-- The judgement of the published directory. -/
theorem reaches_judged (rest : DirProgram (Except String Bool)) :
    Reaches (step B site) (s.goto c (.judging rest))
      (s.goto c (afterJudgement (rest.run (dirAnswer site.cascDir s.target)))) := by
  refine reaches_inspected (fun r => ?_) (fun q k => ?_) rest
  · simp [step]
  · simp only [step, State.goto_pc, State.goto_goto]
    rfl

/-- The judgement of the staging directory. -/
theorem reaches_checked (rest : DirProgram (Except String Bool)) :
    Reaches (step B site) (s.goto c (.checking n rest))
      (s.goto c (afterCheck site n (rest.run (dirAnswer (site.stagingPath n) (s.staging n))))) := by
  refine reaches_inspected (fun r => ?_) (fun q k => ?_) rest
  · simp [step]
  · simp only [step, State.goto_pc, State.goto_goto]
    rfl

/-- **A removal unlinks one file after the other**; one that is not there takes no
step. -/
theorem reaches_unlinked (c : ι) (place : NamespaceDir → State ι)
    (hunlink : ∀ d f, d.has f → step B site (place d) (.unlink c f) = some (place (d.erase f)))
    (files : List FileKind) (d : NamespaceDir) :
    Reaches (step B site) (place d) (place (files.foldl NamespaceDir.erase d)) := by
  induction files generalizing d with
  | nil => exact .refl
  | cons f files ih =>
    by_cases hf : d.has f
    · exact .head (.unlink c f) (hunlink d f hf) (ih (d.erase f))
    · rw [List.foldl_cons, NamespaceDir.erase_of_not_has hf]
      exact ih d

/-- The removal of the published directory, as far as it gets. -/
theorem reaches_unlinkedTarget {d : NamespaceDir} (hd : s.target = some d)
    (files : List FileKind) :
    Reaches (step B site) (s.goto c (.removing n))
      { s.goto c (.removing n) with target := some (files.foldl NamespaceDir.erase d) } := by
  have hstart : s.goto c (.removing n) = { s.goto c (.removing n) with target := some d } := by
    rw [← hd]
    rfl
  rw [hstart]
  refine reaches_unlinked c (fun d => { s.goto c (.removing n) with target := some d }) ?_ files d
  intro d f hf
  simp [step, hf, State.goto]

/-- The published directory is removed. -/
theorem reaches_removed {d : NamespaceDir} (hd : s.target = some d) :
    Reaches (step B site) (s.goto c (.removing n))
      { s.goto c (.renaming n) with target := none } := by
  refine (reaches_unlinkedTarget hd NamespaceDir.files).trans (.head (.rmdir c) ?_ .refl)
  rw [NamespaceDir.erase_files]
  simp [step, State.goto]

/-- The staging directory is removed. -/
theorem reaches_swept {d : NamespaceDir} (hd : s.staging n = some d) (result : Except String Unit) :
    Reaches (step B site) (s.goto c (.sweeping n result))
      ((s.stage n none).goto c (.returning result)) := by
  have hstart : s.goto c (.sweeping n result) =
      (s.stage n (some d)).goto c (.sweeping n result) := by
    rw [← hd, State.stage, Function.update_eq_self]
  have hunlinked : Reaches (step B site) ((s.stage n (some d)).goto c (.sweeping n result))
      ((s.stage n (some .empty)).goto c (.sweeping n result)) := by
    rw [← NamespaceDir.erase_files d]
    refine reaches_unlinked c (fun d => (s.stage n (some d)).goto c (.sweeping n result)) ?_ _ d
    intro d f hf
    simp [step, hf, State.goto, State.stage]
  rw [hstart]
  refine hunlinked.trans (.head (.rmdir c) ?_ .refl)
  simp [step, State.goto, State.stage]

/-! ### Its results -/

/-- A call has come to a result: it is about to return it, or it never got the lock
and has returned its error. -/
def State.Ended (t : State ι) (c : ι) (result : Except String Unit) : Prop :=
  t.pc c = .returning result ∨ t.pc c = .idle ∧ ∃ e, result = .error e

/-- A call that failed removes its staging directory, which may fail as well. -/
theorem reaches_sweepStaging (publishIo : PublishIo) {d : NamespaceDir}
    (hd : s.staging n = some d) (e : String) :
    ∃ t, Reaches (step B site) (s.goto c (.tidying n (.error e))) t ∧ t.target = s.target ∧
      t.Ended c (sweepStaging site n publishIo e) := by
  have htidy : step B site (s.goto c (.tidying n (.error e))) (.tidy c) =
      some (s.goto c (.sweeping n (.error e))) := by
    have hthere : ((s.goto c (.tidying n (.error e))).staging n).isSome := by
      change (s.staging n).isSome
      rw [hd]
      rfl
    simp [step, hthere]
  unfold sweepStaging
  cases publishIo.sweep with
  | none =>
    exact ⟨_, .head (.tidy c) htidy (reaches_swept hd _), rfl, Or.inl (State.goto_pc _)⟩
  | some failure =>
    exact ⟨s.goto c (.returning (.error _)),
      .head (.tidy c) htidy (.head (.fail c _) (step_fail rfl) .refl), rfl,
      Or.inl (State.goto_pc _)⟩

/-- A removal that fails leaves a part of the directory. -/
def LeavesPart (publishIo : PublishIo) (target : Option NamespaceDir) : Prop :=
  ∀ d e rest, target = some d → publishIo.remove = some (e, rest) →
    ∃ files : List FileKind, rest = files.foldl NamespaceDir.erase d

/-- A caller at `p` can get as far as its tidying with this result, with `target`
published and, unless it succeeded, `staged` still in its staging directory. -/
def ComesTo (B : Builder) (site : Site) (n : StagingName) (staged : NamespaceDir) (s : State ι)
    (c : ι) (p : Pc) (result : Except String Unit) (target : Option NamespaceDir) : Prop :=
  ∃ t : State ι, Reaches (step B site) (s.goto c p) (t.goto c (.tidying n result)) ∧
    t.target = target ∧
    (result = .ok () ∧ t.staging n = none ∨ ∃ e, result = .error e ∧ t.staging n = some staged)

theorem ComesTo.of_reaches {t : State ι} {p p' : Pc} {staged : NamespaceDir}
    {result : Except String Unit} {target : Option NamespaceDir}
    (hreaches : Reaches (step B site) (s.goto c p) (t.goto c p'))
    (h : ComesTo B site n staged t c p' result target) :
    ComesTo B site n staged s c p result target := by
  obtain ⟨u, hu, hrest⟩ := h
  exact ⟨u, hreaches.trans hu, hrest⟩

/-- There is something to remove only where the directory is there. -/
theorem reaches_looked :
    Reaches (step B site) (s.goto c (.looking n))
      (s.goto c (if s.target.isSome then .removing n else .renaming n)) := by
  refine .head (.look c) ?_ .refl
  simp only [step, State.goto_pc, State.goto_goto]
  rfl

/-- The rename finds the directory absent. -/
theorem comesTo_renaming {staged : NamespaceDir} {result : Except String Unit}
    {target : Option NamespaceDir} (hstaged : s.staging n = some staged) (htarget : s.target = none)
    (h : (match publishIo.rename with
      | some e => (.error s!"publish {site.cascDir.display}: {e}", none)
      | none => (.ok (), some staged)) = (result, target)) :
    ComesTo B site n staged s c (.renaming n) result target := by
  cases hrename : publishIo.rename with
  | some e =>
    rw [hrename] at h
    cases h
    exact ⟨s, .head (.fail c _) (step_fail rfl) .refl, htarget, Or.inr ⟨_, rfl, hstaged⟩⟩
  | none =>
    rw [hrename] at h
    cases h
    refine ⟨{ s.stage n none with target := some staged }, .head (.rename c) ?_ .refl, rfl,
      Or.inl ⟨rfl, State.stage_staging none⟩⟩
    have hthere : (s.goto c (.renaming n)).staging n = some staged := hstaged
    have habsent : (s.goto c (.renaming n)).target = none := htarget
    simp only [step, State.goto_pc, hthere, habsent]
    simp [State.goto, State.stage]

/-- **The staging directory is published, or kept until it is removed.** -/
theorem comesTo_checking {staged : NamespaceDir} {result : Except String Unit}
    {target : Option NamespaceDir} (hstaged : s.staging n = some staged)
    (hpart : LeavesPart publishIo s.target)
    (h : publishCompleteNamespace site n publishIo staged s.target = (result, target)) :
    ComesTo B site n staged s c (.checking n (resolutionCacheIsFresh (site.stagingPath n))) result
      target := by
  have hchecked : Reaches (step B site) _ (s.goto c (afterCheck site n _)) :=
    reaches_checked (resolutionCacheIsFresh (site.stagingPath n))
  rw [hstaged] at hchecked
  unfold publishCompleteNamespace at h
  cases hfresh : (resolutionCacheIsFresh (site.stagingPath n)).run
      (dirAnswer (site.stagingPath n) (some staged)) with
  | error e =>
    rw [hfresh] at h hchecked
    cases h
    exact ⟨s, hchecked, rfl, Or.inr ⟨_, rfl, hstaged⟩⟩
  | ok fresh =>
    rw [hfresh] at h hchecked
    cases fresh with
    | false =>
      cases h
      exact ⟨s, hchecked, rfl, Or.inr ⟨_, rfl, hstaged⟩⟩
    | true =>
      have hlooked := hchecked.trans reaches_looked
      cases htarget : s.target with
      | none =>
        rw [htarget] at h hlooked
        exact .of_reaches hlooked (comesTo_renaming hstaged htarget h)
      | some d =>
        rw [htarget] at h hlooked
        have hremoving : Reaches (step B site) _ (s.goto c (.removing n)) := hlooked
        cases hremove : publishIo.remove with
        | none =>
          rw [hremove] at h
          refine .of_reaches (t := { s with target := none }) ?_ (comesTo_renaming hstaged rfl h)
          exact hremoving.trans (reaches_removed htarget)
        | some failure =>
          -- the removal gets as far as the part that is left
          obtain ⟨e, rest⟩ := failure
          rw [hremove] at h
          obtain ⟨files, rfl⟩ := hpart d e rest htarget hremove
          cases h
          refine ⟨{ s with target := some (files.foldl NamespaceDir.erase d) }, ?_, rfl,
            Or.inr ⟨_, rfl, hstaged⟩⟩
          refine hremoving.trans ((reaches_unlinkedTarget htarget files).trans ?_)
          exact .head (.fail c _) (step_fail (s := { s with target := _ }) rfl) .refl

/-- What is left of a call after the staging directory has been looked at. -/
theorem ComesTo.ended (publishIo : PublishIo) {p : Pc} {staged : NamespaceDir}
    {result : Except String Unit} {target : Option NamespaceDir}
    (h : ComesTo B site n staged s c p result target) :
    ∃ t, Reaches (step B site) (s.goto c p) t ∧ t.target = target ∧
      t.Ended c (result.tryCatch (sweepStaging site n publishIo)) := by
  obtain ⟨u, hu, rfl, ⟨rfl, hgone⟩ | ⟨e, rfl, hstaged⟩⟩ := h
  · refine ⟨u.goto c (.returning (.ok ())), hu.trans (.head (.tidy c) ?_ .refl), rfl,
      Or.inl (State.goto_pc _)⟩
    have hgone' : (u.goto c (.tidying n (.ok ()))).staging n = none := hgone
    simp [step, hgone']
  · obtain ⟨t, ht, htarget, hended⟩ := reaches_sweepStaging publishIo hstaged e
    exact ⟨t, hu.trans ht, htarget, hended⟩

/-- A builder that fails has its staging directory removed. -/
theorem ended_of_error (publishIo : PublishIo) {d : NamespaceDir} (hd : s.staging n = some d)
    (e : String) :
    ∃ t, Reaches (step B site) (s.goto c (.writing n)) t ∧ t.target = s.target ∧
      t.Ended c (sweepStaging site n publishIo e) := by
  have hwritten : Reaches (step B site) (s.goto c (.writing n))
      (s.goto c (.tidying n (.error e))) := by
    refine .head (.written c (.error e)) ?_ .refl
    simp [step, afterWrite]
  have hcomes : ComesTo B site n d s c (.writing n) (.error e) s.target :=
    ⟨s, hwritten, rfl, Or.inr ⟨e, rfl, hd⟩⟩
  exact hcomes.ended publishIo

/-- A builder that succeeds has what it returns judged and published. -/
theorem ended_of_ok {staged : NamespaceDir} {completed : Except String Unit}
    {target : Option NamespaceDir} (hpart : LeavesPart publishIo s.target)
    (h : publishCompleteNamespace site n publishIo staged s.target = (completed, target)) :
    ∃ t, Reaches (step anyBuilder site) (s.goto c (.writing n)) t ∧ t.target = target ∧
      t.Ended c (completed.tryCatch (sweepStaging site n publishIo)) := by
  have hwritten : Reaches (step anyBuilder site) (s.goto c (.writing n))
      ((s.stage n (some staged)).goto c
        (.checking n (resolutionCacheIsFresh (site.stagingPath n)))) := by
    refine .head (t := (s.stage n (some staged)).goto c (.writing n)) (.write c (some staged)) ?_
      (.head (.written c (.ok ())) ?_ .refl)
    · simp [step, anyBuilder, State.goto, State.stage]
    · simp [step, afterWrite]
  have hstaged : (s.stage n (some staged)).staging n = some staged := State.stage_staging _
  exact ((comesTo_checking hstaged hpart h).of_reaches hwritten).ended publishIo

/-- The first half of a call that gets the lock. -/
theorem reaches_afterJudgement (hidle : s.pc c = .idle) (hlock : s.lock = none) :
    Reaches (step B site) s (({ s with lock := some c } : State ι).goto c (afterJudgement
      ((resolutionCacheIsFresh site.cascDir).run (dirAnswer site.cascDir s.target)))) := by
  have hacquire : step B site (s.goto c .locking) (.acquire c) =
      some (({ s with lock := some c } : State ι).goto c
        (.judging (resolutionCacheIsFresh site.cascDir))) := by
    have hfree : (s.goto c .locking).lock = none := hlock
    simp only [step, State.goto_pc, hfree, State.goto_goto]
    rfl
  exact .head (.publish c) (step_publish hidle) (.head (.acquire c) hacquire (reaches_judged _))

/-- **Whatever the sequential reading returns, the machine gets there**, from a state
where the lock is free and the staging name is new. -/
theorem reaches_publishResolutionNamespace {writeCache : InstallProgram NamespaceDir}
    {result : Except String Unit} {target : Option NamespaceDir} (hidle : s.pc c = .idle)
    (hlock : s.lock = none) (hn : s.staging n = none) (hpart : LeavesPart publishIo s.target)
    (h : (publishResolutionNamespace site n publishIo s.target writeCache).Yields A
      (result, target)) :
    ∃ t, Reaches (step anyBuilder site) s t ∧ t.target = target ∧ t.Ended c result := by
  unfold publishResolutionNamespace at h
  cases hfail : publishIo.lock with
  | some e =>
    rw [hfail] at h
    cases h
    exact ⟨s.goto c .idle,
      .head (.publish c) (step_publish hidle) (.head (.fail c e) (step_fail rfl) .refl), rfl,
      Or.inr ⟨State.goto_pc _, e, rfl⟩⟩
  | none =>
    have hjudged : Reaches (step anyBuilder site) s _ := reaches_afterJudgement hidle hlock
    rw [hfail] at h
    cases hfresh : (resolutionCacheIsFresh site.cascDir).run (dirAnswer site.cascDir s.target) with
    | error e =>
      rw [hfresh] at h hjudged
      cases h
      exact ⟨_, hjudged, rfl, Or.inl (State.goto_pc _)⟩
    | ok fresh =>
      rw [hfresh] at h hjudged
      cases fresh with
      | true =>
        cases h
        exact ⟨_, hjudged, rfl, Or.inl (State.goto_pc _)⟩
      | false =>
        cases hcreate : publishIo.createStaging with
        | some e =>
          rw [hcreate] at h
          cases h
          exact ⟨_, hjudged.trans (.head (.fail c e) (step_fail rfl) .refl), rfl,
            Or.inl (State.goto_pc _)⟩
        | none =>
          rw [hcreate] at h
          have hcreated : Reaches (step anyBuilder site) s _ :=
            hjudged.trans (.head (.create c n) (step_create hn) .refl)
          obtain ⟨written, -, h⟩ := yields_bind_iff.mp h
          cases written with
          | error e =>
            cases h
            have hempty : (State.stage { s with lock := some c } n (some .empty)).staging n =
                some .empty := State.stage_staging _
            obtain ⟨t, ht, hended⟩ := ended_of_error publishIo hempty e
            exact ⟨t, hcreated.trans ht, hended⟩
          | ok staged =>
            cases hcompleted : publishCompleteNamespace site n publishIo staged s.target with
            | mk completed left =>
              obtain ⟨t, ht, hended⟩ := ended_of_ok
                (s := State.stage { s with lock := some c } n (some .empty)) hpart hcompleted
              refine ⟨t, hcreated.trans ht, ?_⟩
              dsimp only at h
              rw [hcompleted] at h
              cases completed with
              | error e =>
                cases h
                exact hended
              | ok _ =>
                cases h
                exact hended

/-- The protocol is about the sequential reading too: **a published directory
outlives every further call**. -/
theorem publishResolutionNamespace_target {writeCache : InstallProgram NamespaceDir}
    {result : Except String Unit} {target : Option NamespaceDir} {d : NamespaceDir}
    (hs : Inv site s) (hd : s.target = some d) (hidle : s.pc c = .idle) (hlock : s.lock = none)
    (hn : s.staging n = none) (hpart : LeavesPart publishIo s.target)
    (h : (publishResolutionNamespace site n publishIo s.target writeCache).Yields A
      (result, target)) :
    target = some d := by
  obtain ⟨t, ⟨es, hes⟩, rfl, -⟩ := reaches_publishResolutionNamespace hidle hlock hn hpart h
  exact (hs.target_run hd hes).2

end Publish

end AssetResolver
