import AssetResolver.Library.Traces
import AssetResolver.Resolution.Bootstrap

/-!
# Resolving assets through a state of CASC

`casc_resolver.rs` from an asset's destination to its bytes: the label
(`AssetResolver.readCurrentAssetPath`), the state the process keeps for a build
(`AssetResolver.getCasc`), its initialisation (`AssetResolver.initCasc`), and the
read and the write (`AssetResolver.extractFdidToPathWithPaths`).

Two kinds of questions occur. The installation and the file system answer an
`AssetResolver.InstallQuery`; the process itself answers
`AssetResolver.CascQuery.getOrInit`, out of the cell it keeps for a cache root and
an identity. An initialisation asks only the first kind, and asks `.build.info`
**again**: `AssetResolver.Selects` is what ties a read to the identity it selects,
and the spec lemmas below say which read each value comes from.
-/

namespace AssetResolver

open Program

/-! ### States -/

/-- What a process is configured with, and does not change. -/
structure Process where
  /-- `process_runtime_mode`. -/
  mode : AssetRuntimeMode
  /-- What `discover_wow_install_path` found. -/
  installPath : Option PathBuf
  /-- `default_paths`. -/
  defaultPaths : ResolverPaths
  /-- The parsers and decoders. -/
  formats : InstallFormats

/-- `wow_install_path`. -/
def Process.wowInstallPath (process : Process) : Option PathBuf :=
  match guardCascAccess process.mode process.mode "WoW install discovery" with
  | .ok () => process.installPath
  | .error _ => none

/-- `CascResolutionCache`. -/
structure CascResolutionCache where
  /-- The directory it was opened on. -/
  cascDir : PathBuf
  /-- What its connection finds. -/
  contents : Contents

/-- `CascState`, less the outcomes of its two lazy initialisations. -/
structure CascState where
  /-- `identity`. -/
  identity : Option AssetIdentity
  /-- `install`: the `Data` directory it was opened on. -/
  install : PathBuf
  /-- `keys`. -/
  keys : TactKeyStore
  /-- `cache`. -/
  cache : CascResolutionCache

/-- `init_casc`. -/
def initCasc (process : Process) (paths : ResolverPaths) : InstallProgram CascState := do
  let installRoot ← settled (process.wowInstallPath.elim
    (.error ("WoW install not found (set WOW_INSTALL_PATH or WOW_DATA_PATH, or place install " ++
      "at one of the default locations)"))
    .ok)
  let dataRoot := installRoot.join (.ofStr "Data")
  let found ← answer (.pathExists dataRoot)
  settled (if found then .ok () else .error s!"WoW data not found at {dataRoot.display}")
  raise (question (.openInstallation dataRoot)) fun e => s!"CASC open: {e}"
  -- `.build.info` once more, although the cell was chosen by an earlier read of it
  let active ← readRequestedBuild process.formats paths installRoot
  let keys ← loadTactKeys process.formats paths installRoot active.product active.buildKey
  let cascDir := paths.cascCachePath active.product active.buildKey
  raise (question (.ensureNamespace cascDir)) id
  let contents ← raise (question (.openNamespace cascDir)) id
  let identity ← settled (AssetIdentity.new active.product active.buildKey)
  return ⟨some identity, dataRoot, keys, ⟨cascDir, contents⟩⟩

/-! ### Reading an asset -/

/-- `CascState::ensure_local_access`. -/
def ensureLocalAccess (process : Process) : InstallProgram PathBuf := do
  let installRoot ← settled
    (process.wowInstallPath.elim (.error "WoW install not found for local archive access") .ok)
  let dataDir := (installRoot.join (.ofStr "Data")).join (.ofStr "data")
  raise (question (.ensureLocalAccess dataDir)) id
  return dataDir

/-- `CascState::read_file_by_encoding_key_with_keys`. -/
def readFileByEncodingKeyWithKeys (process : Process) (casc : CascState) (encodingKey : Key) :
    InstallProgram FileContent := do
  let dataDir ← ensureLocalAccess process
  let found ← answer (.lookup dataDir encodingKey)
  let entry ← settled
    (found.elim (.error s!"missing archive location for encoding key {encodingKey.display}") .ok)
  let rawBlte ← raise (question (.readRaw dataDir entry)) fun e =>
    s!"read raw BLTE archive entry: {e}"
  let decoded ← settled ((process.formats.decodeBlteZeroing casc.keys (localBlte rawBlte)).mapError
    fun e => s!"parse BLTE container: {e}")
  settled (decoded.mapError fun e => s!"decrypt/decompress BLTE container: {e}")

/-- `CascState::read_file_by_encoding_key`. -/
def readFileByEncodingKey (process : Process) (casc : CascState) (encodingKey : Key) :
    InstallProgram FileContent := do
  let primary ← answer (.readFile casc.install encodingKey)
  match primary with
  | .ok data => return ⟨data, []⟩
  | .error primaryErr =>
    raise (readFileByEncodingKeyWithKeys process casc encodingKey).run fun fallbackErr =>
      s!"{primaryErr}; key-aware local archive fallback also failed: {fallbackErr}"

/-- `read_fdid_bytes_by_listfile_path`, with `CascState::read_file_by_path`. -/
def readFdidBytesByListfilePath (casc : CascState) (fdid : UInt32) :
    InstallProgram FileContent := do
  let found ← answer (.lookupFdid fdid)
  let path ← settled (found.elim
    (.error s!"CASC resolve FDID {fdid}: missing resolution and listfile entry") .ok)
  let data ← raise (question (.readPath casc.install path)) fun e =>
    s!"CASC read FDID {fdid} via listfile path {path}: read CASC path {path}: {e}"
  return ⟨data, []⟩

/-- `read_fdid_bytes`. -/
def readFdidBytes (process : Process) (casc : CascState) (fdid : UInt32) :
    InstallProgram FileContent :=
  match resolveFdid casc.cache.contents fdid with
  | some (_, encodingKey) =>
    raise (readFileByEncodingKey process casc encodingKey).run fun e =>
      s!"CASC read FDID {fdid} via encoding key {encodingKey.display}: {e}"
  | none =>
    -- a state of a build never falls back to the listfile
    match casc.identity with
    | some identity =>
      settled (.error s!"FDID {fdid} absent from {identity.product} build {identity.buildKey}")
    | none => readFdidBytesByListfilePath casc fdid

/-! ### Questions to the process -/

/-- A question of a call: to the world outside, or to the process. -/
inductive CascQuery where
  /-- A question about the installation or the file system. -/
  | outside (q : InstallQuery) : CascQuery
  /-- `cell.get_or_init(|| init_casc(paths))`, of the cell of the resolver's cache root
  and an identity. -/
  | getOrInit (paths : ResolverPaths) (identity : AssetIdentity) : CascQuery

/-- What an answer is. -/
@[reducible] def CascQuery.Answer : CascQuery → Type
  | .outside q => q.Answer
  | .getOrInit _ _ => Except String CascState

/-- A part of a call that may fail. -/
abbrev CascProgram := ExceptT String (Program CascQuery CascQuery.Answer)

/-- A program that asks nothing of the process. -/
def ofInstall {α : Type} (p : InstallProgram α) : CascProgram α :=
  ExceptT.mk (p.run.embed .outside fun _ answer => answer)

/-- `get_casc`. The lock of the map is held for one lookup and is never poisoned. -/
def getCasc (process : Process) (paths : ResolverPaths) : CascProgram CascState := do
  settled (guardCascAccess process.mode paths.runtimeMode "open CASC state")
  let installRoot ← settled (process.wowInstallPath.elim (.error "WoW install not found") .ok)
  let active ← ofInstall (readRequestedBuild process.formats paths installRoot)
  let identity ← settled (AssetIdentity.new active.product active.buildKey)
  raise (query (CascQuery.getOrInit paths identity)) id

/-- `ExtractedFile`. -/
structure ExtractedFile where
  /-- `path`. -/
  path : PathBuf
  /-- `missing_keys`. -/
  missingKeys : List String

/-- `extract_fdid_to_path_with_paths`. -/
def extractFdidToPathWithPaths (process : Process) (paths : ResolverPaths) (fdid : UInt32)
    (outPath : PathBuf) : CascProgram ExtractedFile := do
  let casc ← getCasc process paths
  ofInstall (raise (question (.ensureInitialized casc.install)) fun e => s!"CASC init: {e}")
  let content ← ofInstall (readFdidBytes process casc fdid)
  settled
    (if paths.identity.isSome && !content.missingKeys.isEmpty then
      .error
        (s!"FDID {fdid} has undecodable encrypted chunks: " ++
          ", ".intercalate content.missingKeys)
    else .ok ())
  ofInstall (raise (question (.writeToPath outPath content.data)) id)
  return ⟨outPath, content.missingKeys⟩

/-- `read_current_asset_path`. -/
def readCurrentAssetPath (process : Process) (paths : ResolverPaths) (publishedPath : PathBuf) :
    InstallProgram PathBuf :=
  match paths.identity with
  | none => return publishedPath
  | some published => do
    let installRoot ← settled (process.wowInstallPath.elim (.error "WoW install not found") .ok)
    let active ← readRequestedBuild process.formats paths installRoot
    let current ← settled (AssetIdentity.new active.product active.buildKey)
    let relative ← settled
      ((publishedPath.stripPrefix (published.assetRoot paths.sharedDataRoot)).elim
        (.error s!"published asset path {publishedPath.display}: prefix not found") .ok)
    return current.assetPath paths.sharedDataRoot relative

/-- `ensure_file_cached_checked_with_paths`. -/
def ensureFileCachedCheckedWithPaths (process : Process) (paths : ResolverPaths) (fdid : UInt32)
    (outPath : PathBuf) : CascProgram PathBuf := do
  let sharedPath ← settled (paths.scopedCachePath outPath)
  let published ← ofInstall (answer (.isFile sharedPath))
  if published = true then return sharedPath
  settled
    (if effectiveRuntimeMode process.mode paths.runtimeMode = .extractedOnly then
      .error (paths.missingExtractedAsset fdid sharedPath)
    else .ok ())
  -- a miss is extracted to the namespace of the active build, not to that of the identity
  let currentPath ← ofInstall (readCurrentAssetPath process paths sharedPath)
  let extracted ← ofInstall (answer (.isFile currentPath))
  if extracted = true then return currentPath
  let file ← raise (extractFdidToPathWithPaths process paths fdid currentPath).run fun e =>
    s!"FDID {fdid} at {currentPath.display}: {e}"
  return file.path

/-- `CascListfileResolver::ensure_cached_checked`. -/
def ensureCachedChecked (process : Process) (paths : ResolverPaths) (fdid : UInt32)
    (outPath : PathBuf) : CascProgram PathBuf := do
  let expected ← settled (paths.cachePath outPath)
  let published ← ofInstall (answer (.isFile expected))
  if published = true then return expected
  settled
    (if effectiveRuntimeMode process.mode paths.runtimeMode = .extractedOnly then
      .error (paths.missingExtractedAsset fdid expected)
    else .ok ())
  ensureFileCachedCheckedWithPaths process paths fdid outPath

/-- `resolve_bytes_with_paths`: every failure is `none`. -/
def resolveBytesWithPaths (process : Process) (paths : ResolverPaths) (fdid : UInt32) :
    CascProgram (Option (List UInt8)) :=
  let read : CascProgram FileContent := do
    let casc ← getCasc process paths
    ofInstall (raise (question (.ensureInitialized casc.install)) fun e => s!"CASC init: {e}")
    ofInstall (readFdidBytes process casc fdid)
  ExceptT.mk (read.run >>= fun r => ret (.ok (r.toOption.map FileContent.data)))

/-- `initialize_with_paths`: a failure of the key-aware access is only reported. -/
def initializeWithPaths (process : Process) (paths : ResolverPaths) : CascProgram Unit :=
  if effectiveRuntimeMode process.mode paths.runtimeMode = .extractedOnly then return ()
  else do
    let casc ← getCasc process paths
    ofInstall (raise (question (.ensureInitialized casc.install)) fun e => s!"CASC init: {e}")
    ExceptT.mk ((ofInstall (ensureLocalAccess process)).run >>= fun _ => ret (.ok ()))

/-! ### What a success has read -/

/-- The build a read of `.build.info` selects, if it is one an identity can name. -/
def selection (formats : InstallFormats) : (q : InstallQuery) → q.Answer → Option AssetIdentity
  | .readBuildInfo path product, .ok content =>
    (selectedBuildKey formats path product content >>= AssetIdentity.new product).toOption
  | _, _ => none

/-- **An identity was selected** by a text of `.build.info`, among the allowed
answers. -/
def Selects (formats : InstallFormats) (A : (q : InstallQuery) → q.Answer → Prop)
    (installRoot : PathBuf) (identity : AssetIdentity) : Prop :=
  ∃ content, A (.readBuildInfo (buildInfoPath installRoot) identity.product) (.ok content) ∧
    selection formats (.readBuildInfo (buildInfoPath installRoot) identity.product) (.ok content) =
      some identity

/-- **A state of a build**: it says so, its resolution table is the one of that build
below the cache root, and of the keyring keys it has those of that build. -/
structure CascState.OfBuild (process : Process) (paths : ResolverPaths) (installRoot : PathBuf)
    (A : (q : InstallQuery) → q.Answer → Prop) (identity : AssetIdentity) (casc : CascState) :
    Prop where
  identity_eq : casc.identity = some identity
  build : ∃ buildKey, toAsciiLowercase buildKey = identity.buildKey ∧
    casc.cache.cascDir = paths.cascCachePath identity.product buildKey ∧
    ∃ external keyringKeys, casc.keys = process.formats.newStore ++ external ++ keyringKeys ∧
      ExternalKeysOf process.formats paths A external ∧
      KeyringOf process.formats installRoot A identity.product buildKey keyringKeys

section Spec

variable {A : (q : InstallQuery) → q.Answer → Prop} {B : (q : CascQuery) → q.Answer → Prop}
  {process : Process} {paths : ResolverPaths} {installRoot : PathBuf} {fdid : UInt32}
  {outPath : PathBuf}

@[simp] theorem yields_ofInstall {α : Type} {p : InstallProgram α} {r : Except String α} :
    (ofInstall p).run.Yields B r ↔ p.run.Yields (fun q answer => B (.outside q) answer) r := by
  change (p.run.embed CascQuery.outside fun _ answer => answer).Yields B r ↔ _
  rw [yields_embed]
  simp

@[simp] theorem mayAsk_ofInstall {α : Type} {p : InstallProgram α} {q' : CascQuery} :
    (ofInstall p).run.MayAsk B q' ↔ ∃ q, CascQuery.outside q = q' ∧
      p.run.MayAsk (fun q answer => B (.outside q) answer) q := by
  change (p.run.embed CascQuery.outside fun _ answer => answer).MayAsk B q' ↔ _
  rw [mayAsk_embed]
  simp

/-- A value that may be missing, when it is not. -/
@[simp] theorem elim_error_ok_eq_ok {α : Type} {found : Option α} {e : String} {a : α} :
    found.elim (.error e) Except.ok = .ok a ↔ found = some a := by
  cases found with
  | none => simp
  | some b => simp

/-- A read of the requested build that an identity can name has selected it. -/
theorem selects_of_readRequestedBuild {active : ActiveBuild} {identity : AssetIdentity}
    (h : (readRequestedBuild process.formats paths installRoot).run.Yields A (.ok active))
    (hidentity : AssetIdentity.new active.product active.buildKey = .ok identity) :
    (∀ i, paths.identity = some i → identity.product = i.product) ∧
      Selects process.formats A installRoot identity := by
  obtain ⟨hproduct, content, hcontent, hselected⟩ := yields_readRequestedBuild h
  obtain ⟨heq, -, -⟩ := AssetIdentity.new_eq_ok hidentity
  refine ⟨fun i hi => heq.trans (hproduct i hi), content, by rwa [heq], ?_⟩
  rw [heq]
  simp only [selection, hselected]
  exact congrArg Except.toOption hidentity

/-- **An initialised state is of the build its own read of `.build.info` selected**,
whoever asked for it. -/
theorem yields_initCasc {casc : CascState} (h : (initCasc process paths).run.Yields A (.ok casc)) :
    ∃ installRoot identity, process.wowInstallPath = some installRoot ∧
      Selects process.formats A installRoot identity ∧
      casc.OfBuild process paths installRoot A identity := by
  simp only [initCasc, yields_ok_bind_iff, yields_raise, yields_settled, yields_query, yields_pure,
    elim_error_ok_eq_ok] at h
  obtain ⟨installRoot, hroot, -, -, -, -, -, -, active, hactive, keys, hkeys, -, -, contents, -,
    identity, hidentity, rfl⟩ := h
  obtain ⟨-, hselects⟩ := selects_of_readRequestedBuild hactive hidentity
  obtain ⟨hproduct, hkey, -⟩ := AssetIdentity.new_eq_ok hidentity
  obtain ⟨external, keyringKeys, hall, hexternal, hkeyring⟩ := yields_loadTactKeys hkeys
  refine ⟨installRoot, identity, hroot, hselects, rfl, active.buildKey, hkey.symm, ?_, external,
    keyringKeys, hall, hexternal, ?_⟩
  · rw [hproduct]
  · rwa [hproduct]

/-- The cell a state is taken out of is that of an identity the call has selected. -/
theorem yields_getCasc {casc : CascState} (h : (getCasc process paths).run.Yields B (.ok casc)) :
    ∃ installRoot identity, process.wowInstallPath = some installRoot ∧
      Selects process.formats (fun q answer => B (.outside q) answer) installRoot identity ∧
      B (.getOrInit paths identity) (.ok casc) := by
  simp only [getCasc, yields_ok_bind_iff, yields_raise, yields_settled, yields_query,
    yields_ofInstall, elim_error_ok_eq_ok] at h
  obtain ⟨-, -, installRoot, hroot, active, hactive, identity, hidentity, hcasc⟩ := h
  obtain ⟨-, hselects⟩ := selects_of_readRequestedBuild hactive hidentity
  exact ⟨installRoot, identity, hroot, hselects, hcasc⟩

/-- **The label is of a build the call has selected.** -/
theorem yields_readCurrentAssetPath {publishedPath currentPath : PathBuf} {i : AssetIdentity}
    (hi : paths.identity = some i) (hpublished : i.Owns paths.sharedDataRoot publishedPath)
    (h : (readCurrentAssetPath process paths publishedPath).run.Yields A (.ok currentPath)) :
    ∃ installRoot current, process.wowInstallPath = some installRoot ∧
      current.product = i.product ∧ Selects process.formats A installRoot current ∧
      current.Owns paths.sharedDataRoot currentPath := by
  unfold readCurrentAssetPath at h
  rw [hi] at h
  simp only [yields_ok_bind_iff, yields_settled, yields_pure, elim_error_ok_eq_ok] at h
  obtain ⟨installRoot, hroot, active, hactive, current, hcurrent, relative, hrelative, rfl⟩ := h
  obtain ⟨hproduct, hselects⟩ := selects_of_readRequestedBuild hactive hcurrent
  obtain ⟨names, hnames⟩ := hpublished.stripPrefix
  rw [hnames] at hrelative
  cases hrelative
  exact ⟨installRoot, current, hroot, hproduct i hi, hselects,
    current.owns_assetPath paths.sharedDataRoot (PathBuf.allNormal_ofNames names)⟩

/-- **What an extraction has written** are the bytes a state it has taken out reads. -/
theorem yields_extractFdidToPathWithPaths {file : ExtractedFile}
    (h : (extractFdidToPathWithPaths process paths fdid outPath).run.Yields B (.ok file)) :
    file.path = outPath ∧ ∃ casc content, (getCasc process paths).run.Yields B (.ok casc) ∧
      (readFdidBytes process casc fdid).run.Yields (fun q answer => B (.outside q) answer)
        (.ok content) ∧
      B (.outside (.writeToPath outPath content.data)) (.ok ()) := by
  simp only [extractFdidToPathWithPaths, yields_ok_bind_iff, yields_raise, yields_settled,
    yields_query, yields_ofInstall, yields_pure] at h
  obtain ⟨casc, hcasc, -, -, content, hcontent, -, -, _, hwrite, rfl⟩ := h
  exact ⟨rfl, casc, content, hcasc, hcontent, hwrite⟩

/-! ### Questions about assets -/

/-- The asset an outside question inspects or writes. -/
def InstallQuery.assetPath? : InstallQuery → Option PathBuf
  | .isFile path => some path
  | .writeToPath path _ => some path
  | _ => none

/-- The asset a question inspects or writes. -/
def CascQuery.assetPath? : CascQuery → Option PathBuf
  | .outside q => q.assetPath?
  | .getOrInit _ _ => none

variable {formats : InstallFormats} {q : InstallQuery} {q' : CascQuery}

theorem assetPath?_readProductBuild {product : String}
    (h : (readProductBuild formats installRoot product).run.MayAsk A q) : q.assetPath? = none := by
  simp only [readProductBuild, mayAsk_ok_bind_iff, mayAsk_raise, mayAsk_query, mayAsk_settled,
    mayAsk_pure, false_or, and_false, exists_false, or_false] at h
  rcases h with rfl | ⟨-, -, -, -, -, -, -, -, rfl⟩
  · rfl
  · rfl

theorem assetPath?_readRequestedBuild
    (h : (readRequestedBuild formats paths installRoot).run.MayAsk A q) : q.assetPath? = none := by
  unfold readRequestedBuild at h
  split at h
  · exact assetPath?_readProductBuild h
  · rcases mayAsk_ok_bind_iff.mp h with h | ⟨_, -, h⟩
    · rw [← mayAsk_inquire.mp h]
      rfl
    · exact assetPath?_readProductBuild h

theorem assetPath?_readCurrentAssetPath {publishedPath : PathBuf}
    (h : (readCurrentAssetPath process paths publishedPath).run.MayAsk A q) :
    q.assetPath? = none := by
  unfold readCurrentAssetPath at h
  split at h
  · exact absurd h mayAsk_pure
  · simp only [mayAsk_ok_bind_iff, mayAsk_settled, mayAsk_pure, false_or, and_false, exists_false,
      or_false] at h
    obtain ⟨_, -, h⟩ := h
    exact assetPath?_readRequestedBuild h

theorem assetPath?_readFileByEncodingKey {casc : CascState} {encodingKey : Key}
    (h : (readFileByEncodingKey process casc encodingKey).run.MayAsk A q) :
    q.assetPath? = none := by
  simp only [readFileByEncodingKey, mayAsk_ok_bind_iff, mayAsk_inquire] at h
  rcases h with rfl | ⟨primary, -, h⟩
  · rfl
  · cases primary with
    | ok data => exact absurd h mayAsk_pure
    | error e =>
      simp only [readFileByEncodingKeyWithKeys, ensureLocalAccess, mayAsk_raise, mayAsk_ok_bind_iff,
        mayAsk_inquire, mayAsk_settled, mayAsk_query, mayAsk_pure, false_or, and_false,
        exists_false, or_false] at h
      rcases h with ⟨-, -, rfl⟩ | ⟨-, -, rfl | ⟨-, -, -, -, rfl⟩⟩
      · rfl
      · rfl
      · rfl

/-- **Reading an asset inspects no other.** -/
theorem assetPath?_readFdidBytes {casc : CascState}
    (h : (readFdidBytes process casc fdid).run.MayAsk A q) : q.assetPath? = none := by
  unfold readFdidBytes at h
  split at h
  · exact assetPath?_readFileByEncodingKey (mayAsk_raise.mp h)
  · split at h
    · exact absurd h mayAsk_settled
    · simp only [readFdidBytesByListfilePath, mayAsk_raise, mayAsk_ok_bind_iff, mayAsk_inquire,
        mayAsk_settled, mayAsk_query, mayAsk_pure, false_or, and_false, exists_false, or_false] at h
      rcases h with rfl | ⟨-, -, -, -, rfl⟩
      · rfl
      · rfl

theorem assetPath?_getCasc (h : (getCasc process paths).run.MayAsk B q') :
    q'.assetPath? = none := by
  simp only [getCasc, mayAsk_ok_bind_iff, mayAsk_raise, mayAsk_settled, mayAsk_query,
    mayAsk_ofInstall, false_or] at h
  obtain ⟨-, -, _, -, ⟨q, rfl, h⟩ | ⟨-, -, -, -, rfl⟩⟩ := h
  · exact assetPath?_readRequestedBuild h
  · rfl

/-- **An extraction touches one asset**, which it writes. -/
theorem assetPath?_extractFdidToPathWithPaths
    (h : (extractFdidToPathWithPaths process paths fdid outPath).run.MayAsk B q') :
    ∀ path ∈ q'.assetPath?, path = outPath := by
  simp only [extractFdidToPathWithPaths, mayAsk_ok_bind_iff, mayAsk_raise, mayAsk_settled,
    mayAsk_query, mayAsk_ofInstall, mayAsk_pure, false_or, and_false, exists_false, or_false] at h
  rcases h with h | ⟨_, -, ⟨q, rfl, rfl⟩ | ⟨-, -, ⟨q, rfl, h⟩ | ⟨_, -, -, -, q, rfl, rfl⟩⟩⟩
  · simp [assetPath?_getCasc h]
  · rintro path ⟨⟩
  · simp [CascQuery.assetPath?, assetPath?_readFdidBytes h]
  · rintro path ⟨⟩
    rfl

end Spec

end AssetResolver
