import AssetResolver.Casc.Resolver

/-!
# Published paths in the namespace of the installed build

`read_current_asset_path` strips the asset root of the published identity off a path and joins
what is left to the asset root of the build that is installed. That computation is
`AssetResolver.retarget`; `AssetResolver.readCurrentAssetPath_eq` says that the lookup is the
computation behind the questions about the build.

The **closed form** of it (`AssetResolver.retarget_eq_ok_iff`): of a path behind the one root it
makes the same path behind the other one, whatever the path is. Nothing is lost and nothing
normalized, since what is left behind a root opens with neither the root of the file system nor
`.` (`AssetResolver.PathBuf.isInner_of_stripPrefix`), so that `join` appends it. The laws of
`AssetResolver.retarget_laws` follow by cancelling roots.
-/

namespace AssetResolver

open Program

/-! ### The computation -/

/-- The error of `strip_prefix`. -/
def notPublished (publishedPath : PathBuf) : Except String PathBuf :=
  .error s!"published asset path {publishedPath.display}: prefix not found"

/-- The path computation of `read_current_asset_path`, with what it does when the path is not
below the asset root of the published identity. -/
def retargetOr (otherwise : PathBuf → Except String PathBuf) (root : PathBuf)
    (published current : AssetIdentity) (publishedPath : PathBuf) : Except String PathBuf :=
  match publishedPath.stripPrefix (published.assetRoot root) with
  | some relative => .ok (current.assetPath root relative)
  | none => otherwise publishedPath

/-- The path computation of `read_current_asset_path`. -/
def retarget (root : PathBuf) (published current : AssetIdentity) (publishedPath : PathBuf) :
    Except String PathBuf :=
  retargetOr notPublished root published current publishedPath

/-- `read_current_asset_path`, with what it does when the path is not below the asset root of
the published identity. -/
def readCurrentAssetPathOr (otherwise : PathBuf → Except String PathBuf) (process : Process)
    (paths : ResolverPaths) (publishedPath : PathBuf) : InstallProgram PathBuf :=
  match paths.identity with
  | none => return publishedPath
  | some published => do
    let installRoot ← settled (process.wowInstallPath.elim (.error "WoW install not found") .ok)
    let active ← readRequestedBuild process.formats paths installRoot
    let current ← settled (AssetIdentity.new active.product active.buildKey)
    settled (retargetOr otherwise paths.sharedDataRoot published current publishedPath)

/-- `ensure_file_cached_checked_with_paths`, with another lookup of the current path. -/
def ensureFileCachedCheckedBy (current : PathBuf → InstallProgram PathBuf) (process : Process)
    (paths : ResolverPaths) (fdid : UInt32) (outPath : PathBuf) : CascProgram PathBuf := do
  let sharedPath ← settled (paths.scopedCachePath outPath)
  let published ← ofInstall (answer (.isFile sharedPath))
  if published = true then return sharedPath
  settled
    (if effectiveRuntimeMode process.mode paths.runtimeMode = .extractedOnly then
      .error (paths.missingExtractedAsset fdid sharedPath)
    else .ok ())
  let currentPath ← ofInstall (current sharedPath)
  let extracted ← ofInstall (answer (.isFile currentPath))
  if extracted = true then return currentPath
  let file ← raise (extractFdidToPathWithPaths process paths fdid currentPath).run fun e =>
    s!"FDID {fdid} at {currentPath.display}: {e}"
  return file.path

/-- **The lookup is the computation**, behind the questions about the build. -/
theorem readCurrentAssetPath_eq (process : Process) (paths : ResolverPaths)
    (publishedPath : PathBuf) :
    readCurrentAssetPath process paths publishedPath =
      readCurrentAssetPathOr notPublished process paths publishedPath := by
  unfold readCurrentAssetPath readCurrentAssetPathOr
  cases paths.identity with
  | none => rfl
  | some published =>
    dsimp only
    unfold retargetOr
    cases publishedPath.stripPrefix (published.assetRoot paths.sharedDataRoot) <;> rfl

theorem ensureFileCachedCheckedWithPaths_eq (process : Process) (paths : ResolverPaths)
    (fdid : UInt32) (outPath : PathBuf) :
    ensureFileCachedCheckedWithPaths process paths fdid outPath =
      ensureFileCachedCheckedBy (readCurrentAssetPath process paths) process paths fdid
        outPath := rfl

/-! ### Its closed form -/

variable {root q r : PathBuf} {i j k : AssetIdentity}

theorem assetRoot_ne_nil (i : AssetIdentity) (root : PathBuf) :
    (i.assetRoot root).components ≠ [] := by
  rw [AssetIdentity.assetRoot_components]
  exact List.append_ne_nil_of_right_ne_nil _ (List.cons_ne_nil _ _)

/-- Two paths with the same part behind the same root are the same. -/
theorem eq_of_stripPrefix {a base : PathBuf} (hq : q.stripPrefix base = some a)
    (hr : r.stripPrefix base = some a) : q = r :=
  PathBuf.ext ((PathBuf.stripPrefix_eq_some_iff.mp hq).trans
    (PathBuf.stripPrefix_eq_some_iff.mp hr).symm)

/-- What is left behind one root stands behind the other one. -/
theorem stripPrefix_assetPath {a : PathBuf} (j : AssetIdentity)
    (h : q.stripPrefix (i.assetRoot root) = some a) :
    (j.assetPath root a).stripPrefix (j.assetRoot root) = some a :=
  PathBuf.stripPrefix_eq_some_iff.mpr (PathBuf.join_components_of_isInner
    (PathBuf.isInner_of_stripPrefix (assetRoot_ne_nil i root) h))

theorem retarget_of_stripPrefix {a : PathBuf} (j : AssetIdentity)
    (h : q.stripPrefix (i.assetRoot root) = some a) :
    retarget root i j q = .ok (j.assetPath root a) := by
  unfold retarget retargetOr
  rw [h]

/-- A path that is not below the published root is reported. -/
theorem retarget_of_stripPrefix_none (h : q.stripPrefix (i.assetRoot root) = none) :
    retarget root i j q = notPublished q := by
  unfold retarget retargetOr
  rw [h]

/-- **The path behind the one root is the path behind the other one.** -/
theorem retarget_eq_ok_iff :
    retarget root i j q = .ok r ↔ ∃ a, q.stripPrefix (i.assetRoot root) = some a ∧
      r.stripPrefix (j.assetRoot root) = some a := by
  cases hstrip : q.stripPrefix (i.assetRoot root) with
  | none =>
    rw [retarget_of_stripPrefix_none hstrip]
    constructor
    · rintro ⟨⟩
    · rintro ⟨a, ⟨⟩, -⟩
  | some a =>
    rw [retarget_of_stripPrefix j hstrip]
    have hjoin := stripPrefix_assetPath j hstrip
    constructor
    · rintro ⟨⟩
      exact ⟨a, rfl, hjoin⟩
    · rintro ⟨a', ⟨⟩, hr⟩
      rw [eq_of_stripPrefix hjoin hr]

/-- **Retargeting to the published identity changes nothing.** -/
theorem retarget_self (h : retarget root i i q = .ok r) : r = q := by
  obtain ⟨a, hq, hr⟩ := retarget_eq_ok_iff.mp h
  exact eq_of_stripPrefix hr hq

/-- **No two paths become the same.** -/
theorem retarget_injective {q' : PathBuf} (h : retarget root i j q = .ok r)
    (h' : retarget root i j q' = .ok r) : q = q' := by
  obtain ⟨a, hq, hr⟩ := retarget_eq_ok_iff.mp h
  obtain ⟨a', hq', hr'⟩ := retarget_eq_ok_iff.mp h'
  obtain rfl := Option.some.inj (hr.symm.trans hr')
  exact eq_of_stripPrefix hq hq'

/-- **Two retargetings are one.** -/
theorem retarget_trans :
    (retarget root i j q >>= retarget root j k) = retarget root i k q := by
  cases hstrip : q.stripPrefix (i.assetRoot root) with
  | none =>
    rw [retarget_of_stripPrefix_none hstrip, retarget_of_stripPrefix_none hstrip]
    rfl
  | some a =>
    rw [retarget_of_stripPrefix j hstrip, retarget_of_stripPrefix k hstrip]
    exact retarget_of_stripPrefix k (stripPrefix_assetPath j hstrip)

/-! ### Scoped paths -/

variable {paths : ResolverPaths} {p relative a : PathBuf}

/-- The paths of a resolver for another identity. -/
def ResolverPaths.authored (paths : ResolverPaths) (i : AssetIdentity) : ResolverPaths :=
  { paths with identity := some i }

/-- **A scoped path has a path in the other namespace**: the same part of it. -/
theorem exists_of_scopedCachePath
    (h : (paths.authored i).scopedCachePath p = .ok q) :
    ∃ relative a, paths.relativeDataPath p = .ok relative ∧ relative.AllNormal ∧
      i.assetPart relative = some a ∧
      q.stripPrefix (i.assetRoot paths.sharedDataRoot) = some a := by
  obtain ⟨relative, a, hrel, hnormal, ha, rfl⟩ :=
    (@ResolverPaths.scopedCachePath_eq_ok_iff (paths.authored i) i rfl p q).mp h
  have hnormal' := AssetIdentity.allNormal_of_assetPart hnormal ha
  exact ⟨relative, a, hrel, hnormal, ha,
    PathBuf.stripPrefix_eq_some_iff.mpr (PathBuf.join_components hnormal')⟩

/-- **A path that names no namespace is retargeted to what the other identity makes of it.** -/
theorem retarget_eq_scopedCachePath (j : AssetIdentity)
    (hrel : paths.relativeDataPath p = .ok relative)
    (hplain : ¬relative.startsWith (.ofStr "products"))
    (h : (paths.authored i).scopedCachePath p = .ok q) :
    ∃ r, retarget paths.sharedDataRoot i j q = .ok r ∧
      (paths.authored j).scopedCachePath p = .ok r := by
  obtain ⟨relative', a, hrel', hnormal, ha, hq⟩ := exists_of_scopedCachePath h
  obtain rfl := Except.ok.inj (hrel.symm.trans hrel')
  have hpart : ∀ l : AssetIdentity, l.assetPart relative = some relative := fun l => by
    rw [AssetIdentity.assetPart, if_neg hplain]
  obtain rfl := Option.some.inj ((hpart i).symm.trans ha)
  refine ⟨_, retarget_of_stripPrefix j hq, ?_⟩
  exact (@ResolverPaths.scopedCachePath_eq_ok_iff (paths.authored j) j rfl p _).mpr
    ⟨relative, relative, hrel, hnormal, hpart j, rfl⟩

/-- **The error of `strip_prefix` is never reported by `ensure_file_cached_checked_with_paths`**:
whatever else is done instead, the program is the same. -/
theorem ensureFileCachedCheckedWithPaths_eq_or (otherwise : PathBuf → Except String PathBuf)
    (process : Process) (paths : ResolverPaths) (fdid : UInt32) (outPath : PathBuf) :
    ensureFileCachedCheckedWithPaths process paths fdid outPath =
      ensureFileCachedCheckedBy (readCurrentAssetPathOr otherwise process paths) process paths
        fdid outPath := by
  rw [ensureFileCachedCheckedWithPaths_eq]
  unfold ensureFileCachedCheckedBy
  refine settled_bind_congr fun q hscoped => ?_
  have hsame : readCurrentAssetPath process paths q =
      readCurrentAssetPathOr otherwise process paths q := by
    rw [readCurrentAssetPath_eq]
    unfold readCurrentAssetPathOr
    cases hi : paths.identity with
    | none => rfl
    | some i =>
      obtain ⟨names, hstrip⟩ := (ResolverPaths.owns_of_scopedCachePath hi hscoped).stripPrefix
      dsimp only
      unfold retargetOr
      rw [hstrip]
  rw [hsame]

/-! ### The laws -/

/-- **Retargeting commutes with scoping**, for all roots, identities and paths: a scoped path
that names no namespace goes to what the current identity makes of the path, one that is
qualified for the published identity keeps its part behind the asset root, and so does every
path below that root. Retargeting changes nothing when the identities agree, no two paths become
the same, and two retargetings are one. -/
theorem retarget_laws (paths : ResolverPaths) (i j k : AssetIdentity) :
    (∀ process q, readCurrentAssetPath process (paths.authored i) q = do
      let installRoot ← settled (process.wowInstallPath.elim (.error "WoW install not found") .ok)
      let active ← readRequestedBuild process.formats (paths.authored i) installRoot
      let current ← settled (AssetIdentity.new active.product active.buildKey)
      settled (retarget paths.sharedDataRoot i current q)) ∧
    (∀ p relative q, paths.relativeDataPath p = .ok relative →
      ¬relative.startsWith (.ofStr "products") →
      (paths.authored i).scopedCachePath p = .ok q →
      ∃ r, retarget paths.sharedDataRoot i j q = .ok r ∧
        (paths.authored j).scopedCachePath p = .ok r) ∧
    (∀ p relative q, paths.relativeDataPath p = .ok relative →
      relative.startsWith (.ofStr "products") →
      (paths.authored i).scopedCachePath p = .ok q →
      ∃ a, relative.stripPrefix (i.assetRoot .empty) = some a ∧
        q.stripPrefix (i.assetRoot paths.sharedDataRoot) = some a ∧
        ∃ r, retarget paths.sharedDataRoot i j q = .ok r ∧
          r.stripPrefix (j.assetRoot paths.sharedDataRoot) = some a) ∧
    (∀ q a, q.stripPrefix (i.assetRoot paths.sharedDataRoot) = some a →
      ∃ r, retarget paths.sharedDataRoot i j q = .ok r ∧
        r.stripPrefix (j.assetRoot paths.sharedDataRoot) = some a) ∧
    (∀ process fdid outPath otherwise,
      ensureFileCachedCheckedWithPaths process paths fdid outPath =
        ensureFileCachedCheckedBy (readCurrentAssetPathOr otherwise process paths) process paths
          fdid outPath) ∧
    (∀ q r, retarget paths.sharedDataRoot i i q = .ok r → r = q) ∧
    (∀ q q' r, retarget paths.sharedDataRoot i j q = .ok r →
      retarget paths.sharedDataRoot i j q' = .ok r → q = q') ∧
    ∀ q, (retarget paths.sharedDataRoot i j q >>= retarget paths.sharedDataRoot j k) =
      retarget paths.sharedDataRoot i k q := by
  have hbelow : ∀ q a, q.stripPrefix (i.assetRoot paths.sharedDataRoot) = some a →
      ∃ r, retarget paths.sharedDataRoot i j q = .ok r ∧
        r.stripPrefix (j.assetRoot paths.sharedDataRoot) = some a := fun q a hstrip =>
    ⟨_, retarget_of_stripPrefix j hstrip, stripPrefix_assetPath j hstrip⟩
  refine ⟨fun process q => readCurrentAssetPath_eq process _ q,
    fun p relative q hrel hplain h => retarget_eq_scopedCachePath j hrel hplain h, ?_,
    hbelow, ?_, fun q r => retarget_self, fun q q' r => retarget_injective,
    fun q => retarget_trans⟩
  · intro p relative q hrel hqualified h
    obtain ⟨relative', a, hrel', -, ha, hq⟩ := exists_of_scopedCachePath h
    obtain rfl := Except.ok.inj (hrel.symm.trans hrel')
    rw [AssetIdentity.assetPart, if_pos hqualified] at ha
    exact ⟨a, ha, hq, hbelow q a hq⟩
  · intro process fdid outPath otherwise
    exact ensureFileCachedCheckedWithPaths_eq_or otherwise process paths fdid outPath

end AssetResolver
