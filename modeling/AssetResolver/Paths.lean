import AssetResolver.Identity

/-!
# Scoping a destination to a namespace

`paths.rs`, and the runtime policy of `runtime_mode.rs` it reads: how a
destination an importer names becomes the path of a cache file.

A resolver without an identity remaps the source root to the shared one and
leaves every other path alone (`AssetResolver.ResolverPaths.remapToSharedDataPath`).
A resolver with an identity strips one of three roots, source, shared and `data`
**in this order**, rejects what is left unless it consists of file names, and
puts it below the asset root of its identity; a rest that is already qualified is
taken apart first and must name the same identity
(`AssetResolver.ResolverPaths.scopedCachePath`).

The one fact every result rests on is the closed form of a success,
`AssetResolver.ResolverPaths.scopedCachePath_eq_ok_iff`: the part of the path
within the namespace is found, consists of file names, and stands behind the
asset root. From there

* `AssetResolver.ResolverPaths.owns_of_scopedCachePath` confines the result to
  one namespace, and `AssetResolver.AssetIdentity.Owns.ne` keeps the namespaces
  of two identities apart;
* `AssetResolver.ResolverPaths.agrees_iff` and
  `AssetResolver.ResolverPaths.remap_idem_iff` say for which roots a returned
  path names the same file when it is passed back. The order of the three strips
  makes it fail for nested roots: a shared root below the source root is never
  recognised, because the source root is stripped first.
-/

namespace AssetResolver

/-! ### The runtime policy -/

/-- `AssetRuntimeMode`. -/
inductive AssetRuntimeMode where
  /-- Local CASC may be opened. -/
  | localCasc : AssetRuntimeMode
  /-- Only extracted files are served. -/
  | extractedOnly : AssetRuntimeMode
  deriving DecidableEq

/-- `effective_runtime_mode`, the process-wide mode being `process`. -/
def effectiveRuntimeMode (process mode : AssetRuntimeMode) : AssetRuntimeMode :=
  if mode = .extractedOnly ∨ process = .extractedOnly then .extractedOnly else .localCasc

/-- `guard_casc_access`, less the counter and the hook of a denied entry. -/
def guardCascAccess (process mode : AssetRuntimeMode) (operation : String) : Except String Unit :=
  if effectiveRuntimeMode process mode = .localCasc then .ok ()
  else .error s!"extracted-only forbids CASC access: {operation}"

/-! ### The resolver's roots -/

/-- `ResolverPaths`. -/
structure ResolverPaths where
  /-- Where importers name assets. -/
  sourceDataRoot : PathBuf
  /-- Where cache files are shared. -/
  sharedDataRoot : PathBuf
  /-- Where resolution tables are kept. -/
  cacheRoot : PathBuf
  /-- The authored namespace, of a resolver that has one. -/
  identity : Option AssetIdentity
  /-- The mode the resolver was configured with. -/
  runtimeMode : AssetRuntimeMode
  deriving DecidableEq

/-- `RESOLUTION_SCHEMA_VERSION`. -/
def resolutionSchemaVersion : ℤ := 2

namespace ResolverPaths

/-- `shared_data_path`. -/
def sharedDataPath (paths : ResolverPaths) (relative : PathBuf) : PathBuf :=
  paths.sharedDataRoot.join relative

/-- `resolve_data_path`; `fileExists` is what the file system answers. -/
def resolveDataPath (paths : ResolverPaths) (fileExists : PathBuf → Bool) (relative : PathBuf) :
    PathBuf :=
  if fileExists (paths.sourceDataRoot.join relative) then paths.sourceDataRoot.join relative
  else paths.sharedDataPath relative

/-- `casc_cache_path`: one directory per schema. -/
def cascCachePath (paths : ResolverPaths) (product buildKey : String) : PathBuf :=
  (((paths.cacheRoot.join (.ofStr "casc")).join (.ofStr product)).join (.ofStr buildKey)).join
    (.ofStr s!"schema-{resolutionSchemaVersion}")

/-- `missing_extracted_asset`. -/
def missingExtractedAsset (paths : ResolverPaths) (fdid : UInt32) (expected : PathBuf) : String :=
  let identity :=
    match paths.identity with
    | some i => s!" product {i.product} build {i.buildKey}"
    | none => ""
  s!"missing extracted-only asset FDID {fdid}{identity} at {expected.display}"

/-- `relative_data_path`: the source root is tried first, then the shared root,
then the literal `data`. -/
def relativeDataPath (paths : ResolverPaths) (path : PathBuf) : Except String PathBuf :=
  match path.stripPrefix paths.sourceDataRoot with
  | some relative => .ok relative
  | none =>
    match path.stripPrefix paths.sharedDataRoot with
    | some relative => .ok relative
    | none =>
      match path.stripPrefix (.ofStr "data") with
      | some relative => .ok relative
      | none => .error s!"asset path {path.display} is outside configured data roots"

/-- `remap_to_shared_data_path`. -/
def remapToSharedDataPath (paths : ResolverPaths) (path : PathBuf) : PathBuf :=
  match path.stripPrefix paths.sourceDataRoot with
  | some stripped => paths.sharedDataPath stripped
  | none =>
    match path.stripPrefix (.ofStr "data") with
    | some stripped => paths.sharedDataPath stripped
    | none => path

/-- `scoped_cache_path`. -/
def scopedCachePath (paths : ResolverPaths) (path : PathBuf) : Except String PathBuf :=
  match paths.identity with
  | none => .ok (paths.remapToSharedDataPath path)
  | some identity =>
    match paths.relativeDataPath path with
    | .error e => .error e
    | .ok relative =>
      -- `..`, `.` and a root could lead out of the namespace
      if relative.components.any fun part => !part.isNormal then
        .error s!"invalid relative asset path {relative.display}"
      -- already qualified: the identity has to be this one
      else if relative.startsWith (.ofStr "products") then
        match relative.stripPrefix (identity.assetRoot .empty) with
        | none =>
          .error (s!"asset path {path.display} does not belong to {identity.product} " ++
            s!"build {identity.buildKey}")
        | some asset => .ok (identity.assetPath paths.sharedDataRoot asset)
      else .ok (identity.assetPath paths.sharedDataRoot relative)

/-- `CascListfileResolver::cache_path`. -/
def cachePath (paths : ResolverPaths) (destination : PathBuf) : Except String PathBuf :=
  paths.scopedCachePath destination

end ResolverPaths

/-! ### Literal components -/

/-- The file name `data`. -/
def dataName : FileName := ⟨osString "data", by decide, by decide, by decide, by decide⟩

@[simp] theorem ofStr_data : (PathBuf.ofStr "data").components = [.normal dataName] :=
  PathBuf.ofOs_fileName dataName

@[simp] theorem ofStr_products :
    (PathBuf.ofStr "products").components = [.normal AssetIdentity.productsName] :=
  PathBuf.ofOs_fileName AssetIdentity.productsName

namespace AssetIdentity

@[simp] theorem assetRoot_empty_components (i : AssetIdentity) :
    (i.assetRoot .empty).components = i.scope := by
  rw [assetRoot_components]
  rfl

/-- **A path of the namespace**: the asset root followed by file names. -/
def Owns (i : AssetIdentity) (dataRoot q : PathBuf) : Prop :=
  ∃ names : List FileName,
    q.components = (i.assetRoot dataRoot).components ++ names.map Component.normal

/-- The path of some file names within the namespace is one of it. -/
theorem owns_assetPath (i : AssetIdentity) (dataRoot : PathBuf) {relative : PathBuf}
    (h : relative.AllNormal) : i.Owns dataRoot (i.assetPath dataRoot relative) := by
  obtain ⟨names, rfl⟩ := PathBuf.exists_ofNames h
  exact ⟨names, by rw [assetPath, PathBuf.join_components h, PathBuf.ofNames_components]⟩

/-- Stripping the asset root from a path of the namespace leaves file names. -/
theorem Owns.stripPrefix {i : AssetIdentity} {dataRoot q : PathBuf} (h : i.Owns dataRoot q) :
    ∃ names, q.stripPrefix (i.assetRoot dataRoot) = some (PathBuf.ofNames names) := by
  obtain ⟨names, hq⟩ := h
  exact ⟨names, PathBuf.stripPrefix_eq_some_iff.mpr hq⟩

/-- The asset root of one identity opens no path of another one's namespace. -/
theorem Owns.not_startsWith {i j : AssetIdentity} {dataRoot q : PathBuf} (h : i.Owns dataRoot q)
    (hne : i ≠ j) : ¬q.startsWith (j.assetRoot dataRoot) := by
  obtain ⟨names, hq⟩ := h
  rw [PathBuf.startsWith_iff, hq, assetRoot_components, assetRoot_components, List.append_assoc,
    List.prefix_append_right_inj]
  intro hpre
  have hlen : j.scope.length ≤ i.scope.length := by rw [length_scope, length_scope]
  have hscope : j.scope <+: i.scope :=
    List.prefix_of_prefix_length_le hpre (List.prefix_append _ _) hlen
  exact hne (scope_injective (hscope.eq_of_length (by rw [length_scope, length_scope])).symm)

/-- **Two namespaces of one data root have no path in common.** -/
theorem Owns.ne {i j : AssetIdentity} {dataRoot q q' : PathBuf} (h : i.Owns dataRoot q)
    (h' : j.Owns dataRoot q') (hne : i ≠ j) : q ≠ q' := by
  rintro rfl
  obtain ⟨names, hq⟩ := h'
  exact h.not_startsWith hne (PathBuf.startsWith_iff.mpr ⟨_, hq.symm⟩)

/-- The path a relative path names within the namespace: itself, or what stands
behind the identity's own three components when it is already qualified. -/
def assetPart (i : AssetIdentity) (relative : PathBuf) : Option PathBuf :=
  if relative.startsWith (.ofStr "products") then relative.stripPrefix (i.assetRoot .empty)
  else some relative

theorem allNormal_of_assetPart {i : AssetIdentity} {relative a : PathBuf}
    (h : relative.AllNormal) (ha : i.assetPart relative = some a) : a.AllNormal := by
  unfold assetPart at ha
  split_ifs at ha
  · exact PathBuf.allNormal_of_stripPrefix h ha
  · cases ha
    exact h

end AssetIdentity

namespace ResolverPaths

variable {paths : ResolverPaths} {i : AssetIdentity}

/-! ### What a success means -/

theorem any_not_isNormal {p : PathBuf} :
    (p.components.any fun part => !part.isNormal) = true ↔ ¬p.AllNormal := by
  simp [PathBuf.AllNormal]

/-- **The closed form of a scoped path**: the part within the namespace, behind
the asset root. -/
theorem scopedCachePath_eq_ok_iff (hi : paths.identity = some i) {p q : PathBuf} :
    paths.scopedCachePath p = .ok q ↔
      ∃ relative a, paths.relativeDataPath p = .ok relative ∧ relative.AllNormal ∧
        i.assetPart relative = some a ∧ q = i.assetPath paths.sharedDataRoot a := by
  unfold scopedCachePath
  rw [hi]
  dsimp only
  cases hrel : paths.relativeDataPath p with
  | error e => simp
  | ok relative =>
    dsimp only
    by_cases hnormal : relative.AllNormal
    · rw [if_neg (by rw [any_not_isNormal]; exact fun h => h hnormal)]
      -- the success, whichever branch names the part within the namespace
      have hok : ∀ {res : Except String PathBuf} {a : PathBuf}, i.assetPart relative = some a →
          res = .ok (i.assetPath paths.sharedDataRoot a) →
          (res = .ok q ↔ ∃ relative' a', Except.ok relative = Except.ok (ε := String) relative' ∧
            relative'.AllNormal ∧ i.assetPart relative' = some a' ∧
              q = i.assetPath paths.sharedDataRoot a') := by
        rintro res a ha rfl
        constructor
        · rintro ⟨⟩
          exact ⟨relative, a, rfl, hnormal, ha, rfl⟩
        · rintro ⟨relative', a', ⟨⟩, -, ha', rfl⟩
          rw [Option.some.inj (ha.symm.trans ha')]
      by_cases hprod : relative.startsWith (.ofStr "products")
      · rw [if_pos hprod]
        cases hstrip : relative.stripPrefix (i.assetRoot .empty) with
        | none =>
          refine ⟨fun h => by simp at h, ?_⟩
          rintro ⟨relative', a', ⟨⟩, -, ha', -⟩
          rw [AssetIdentity.assetPart, if_pos hprod, hstrip] at ha'
          exact absurd ha' (by simp)
        | some a =>
          exact hok (by rw [AssetIdentity.assetPart, if_pos hprod, hstrip]) rfl
      · rw [if_neg hprod]
        exact hok (by rw [AssetIdentity.assetPart, if_neg hprod]) rfl
    · rw [if_pos (any_not_isNormal.mpr hnormal)]
      refine ⟨fun h => by simp at h, ?_⟩
      rintro ⟨relative', a', ⟨⟩, hnormal', -⟩
      exact absurd hnormal' hnormal

/-- **A scoped path never leaves the namespace of its identity.** -/
theorem owns_of_scopedCachePath (hi : paths.identity = some i) {p q : PathBuf}
    (h : paths.scopedCachePath p = .ok q) : i.Owns paths.sharedDataRoot q := by
  obtain ⟨relative, a, -, hnormal, ha, rfl⟩ := (scopedCachePath_eq_ok_iff hi).mp h
  exact i.owns_assetPath paths.sharedDataRoot (AssetIdentity.allNormal_of_assetPart hnormal ha)

/-- **A path qualified for another identity is rejected**, never relabelled. -/
theorem scopedCachePath_foreign (hi : paths.identity = some i) {p relative : PathBuf}
    (hrel : paths.relativeDataPath p = .ok relative)
    (hprod : relative.startsWith (.ofStr "products"))
    (hforeign : ¬relative.startsWith (i.assetRoot .empty)) :
    ∃ e, paths.scopedCachePath p = .error e := by
  cases hres : paths.scopedCachePath p with
  | error e => exact ⟨e, rfl⟩
  | ok q =>
    exfalso
    obtain ⟨relative', a, hrel', -, ha, -⟩ := (scopedCachePath_eq_ok_iff hi).mp hres
    rw [hrel] at hrel'
    cases hrel'
    rw [AssetIdentity.assetPart, if_pos hprod, PathBuf.stripPrefix, if_neg hforeign] at ha
    exact absurd ha (by simp)

end ResolverPaths

end AssetResolver
