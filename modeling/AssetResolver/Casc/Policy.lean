import AssetResolver.Casc.Frozen
import AssetResolver.Library.Effects

/-!
# The policy of a process, at every entry

`runtime_mode.rs` with the guards that `lib.rs` and `casc_resolver.rs` place by hand: the
mode of the process, which is observed once, the count of denied entries, the hook, and
every function that is guarded or calls one that is.

`AssetResolver.Process` has the mode and the installation of a process settled, and the
programs over it say nothing of counting. Here the mode, the count, the hook and the
discovery of the installation are questions too (`AssetResolver.Policy.PolicyQuery`), so
that a program says when it observes the mode, when it counts, and what it would ask of an
installation it may not touch. Where the mode is settled the two agree
(`AssetResolver.Policy.settle_getCasc` and the lemmas around it).

Two disciplines are read off the text of each program. Only a guard counts or calls the
hook, and counts before it calls (`AssetResolver.Policy.Disciplined`); and where the mode
is extracted-only, a program asks nothing of an installation
(`AssetResolver.Policy.Call.spares`).
-/

namespace AssetResolver

namespace Policy

open Program

/-! ### Questions -/

/-- What `std::env::var("GAME_ENGINE_ASSET_MODE")` returns. -/
inductive EnvVar where
  /-- `Ok`. -/
  | value (text : String) : EnvVar
  /-- `VarError::NotPresent`. -/
  | notPresent : EnvVar
  /-- `VarError::NotUnicode`, with the text of the error. -/
  | notUnicode (text : String) : EnvVar

/-- `AssetRuntimeMode::from_str`. -/
def fromStr (value : String) : Except String AssetRuntimeMode :=
  if value = "local-casc" then .ok .localCasc
  else if value = "extracted-only" then .ok .extractedOnly
  else .error s!"unknown asset runtime mode: {value}"

/-- The mode the environment selects. An unset one preserves local CASC. -/
def EnvVar.mode : EnvVar → Except String AssetRuntimeMode
  | .value text => fromStr text
  | .notPresent => .ok .localCasc
  | .notUnicode text => .error s!"GAME_ENGINE_ASSET_MODE: {text}"

/-- A `fn(&str)`, by its address. -/
abbrev Hook := ℕ

/-- `LocalAccessState`. -/
inductive LocalAccess where
  /-- `Uninitialized`. -/
  | uninitialized : LocalAccess
  /-- `Initialized`, on a directory. -/
  | initialized (dataDir : PathBuf) : LocalAccess
  /-- `Failed`. -/
  | failed (error : String) : LocalAccess

/-- The three roots a resolver has without being told. -/
structure DefaultRoots where
  /-- `source_data_root`. -/
  source : PathBuf
  /-- `shared_data_root`. -/
  shared : PathBuf
  /-- `cache_root`. -/
  cache : PathBuf

/-- `ResolverPaths::from_config(AssetResolverConfig::default())`. -/
def DefaultRoots.paths (roots : DefaultRoots) : ResolverPaths :=
  ⟨roots.source, roots.shared, roots.cache, none, .localCasc⟩

/-- A question of a call: to the process, or to the world outside. -/
inductive PolicyQuery where
  /-- The variable `GAME_ENGINE_ASSET_MODE`. -/
  | assetMode : PolicyQuery
  /-- `PROCESS_MODE.get_or_init(|| mode)`. -/
  | selectMode (mode : AssetRuntimeMode) : PolicyQuery
  /-- `PROCESS_MODE.get_or_init`, of the variable if it is not set yet. -/
  | processMode : PolicyQuery
  /-- `FORBIDDEN_ACCESSES.fetch_add(1)`. -/
  | recordForbidden : PolicyQuery
  /-- `FORBIDDEN_ACCESSES.load()`. -/
  | forbiddenCount : PolicyQuery
  /-- `ACCESS_HOOK.get()`. -/
  | accessHook : PolicyQuery
  /-- `hook(&error)`. -/
  | callHook (hook : Hook) (error : String) : PolicyQuery
  /-- `ACCESS_HOOK.set(hook)`: whether it was not set yet. -/
  | setHook (hook : Hook) : PolicyQuery
  /-- A panic, which has no answer. -/
  | panicking (message error : String) : PolicyQuery
  /-- `default_paths`. -/
  | defaultPaths : PolicyQuery
  /-- The paths of a new default resolver. -/
  | newDefaultPaths : PolicyQuery
  /-- `Listfile::lookup_path`. -/
  | lookupPath (path : String) : PolicyQuery
  /-- `WOW_INSTALL_PATH.get_or_init(discover_wow_install_path)`. -/
  | discoverInstall : PolicyQuery
  /-- What the cell of the resolver's cache root and an identity holds; if nothing, then it
  is for this call to initialise it. -/
  | cascCell (paths : ResolverPaths) (identity : AssetIdentity) : PolicyQuery
  /-- The cell is initialised. -/
  | setCascCell (paths : ResolverPaths) (identity : AssetIdentity)
      (outcome : Except String CascState) : PolicyQuery
  /-- `local_access` of a state. -/
  | localAccess (casc : CascState) : PolicyQuery
  /-- A question about the installation or the file system. -/
  | outside (q : InstallQuery) : PolicyQuery

/-- What an answer is. -/
@[reducible] def PolicyQuery.Answer : PolicyQuery → Type
  | .assetMode => EnvVar
  | .selectMode _ => AssetRuntimeMode
  | .processMode => AssetRuntimeMode
  | .recordForbidden => Unit
  | .forbiddenCount => UInt64
  | .accessHook => Option Hook
  | .callHook _ _ => Unit
  | .setHook _ => Bool
  | .panicking _ _ => Unit
  | .defaultPaths => DefaultRoots
  | .newDefaultPaths => DefaultRoots
  | .lookupPath _ => Option UInt32
  | .discoverInstall => Option PathBuf
  | .cascCell _ _ => Option (Except String CascState)
  | .setCascCell _ _ _ => Unit
  | .localAccess _ => LocalAccess
  | .outside q => q.Answer

/-- **The question touches CASC**: it discovers the installation, reads `.build.info`, a
configuration, a keyring, an index or an archive, opens a state, or makes or opens a
resolution namespace. Of the questions to the world outside only two do not: whether an
asset is cached, and what a listfile says. -/
def PolicyQuery.touchesCasc : PolicyQuery → Bool
  | .discoverInstall | .cascCell _ _ | .setCascCell _ _ _ | .localAccess _ => true
  | .outside (.isFile _) | .outside (.lookupFdid _) => false
  | .outside _ => true
  | _ => false

/-- A part of a call that may fail. -/
abbrev PolicyProgram := ExceptT String (Program PolicyQuery PolicyQuery.Answer)

/-- One question. -/
abbrev demand (q : PolicyQuery) : PolicyProgram q.Answer := inquire q

/-- A program that asks nothing of the process. -/
def ofInstall {α : Type} (p : InstallProgram α) : PolicyProgram α :=
  ExceptT.mk (p.run.embed .outside fun _ answer => answer)

/-- The outcome of a program, which does not fail with it. -/
def attempt {α : Type} (p : PolicyProgram α) : PolicyProgram (Except String α) :=
  ExceptT.mk (p.run >>= fun r => ret (.ok r))

/-! ### The mode and the guard -/

/-- `configure_runtime_mode_from_env`. -/
def configureRuntimeModeFromEnv : PolicyProgram AssetRuntimeMode := do
  let value ← demand .assetMode
  let mode ← settled value.mode
  let selected ← demand (.selectMode mode)
  if selected = mode then return selected
  else settled (.error "asset runtime mode cannot change after initialization")

/-- `process_runtime_mode`. -/
def processRuntimeMode : PolicyProgram AssetRuntimeMode := demand .processMode

/-- `effective_runtime_mode`: the process is asked only if the mode leaves it open. -/
def effectiveRuntimeMode (mode : AssetRuntimeMode) : PolicyProgram AssetRuntimeMode :=
  if mode = .extractedOnly then return .extractedOnly
  else do
    let process ← processRuntimeMode
    if process = .extractedOnly then return .extractedOnly else return .localCasc

/-- The hook, if there is one. -/
def callAccessHook (error : String) : PolicyProgram Unit := do
  let hook ← demand .accessHook
  match hook with
  | some hook => demand (.callHook hook error)
  | none => return ()

/-- `guard_casc_access`: a denied entry is counted before the hook is called. -/
def guardCascAccess (mode : AssetRuntimeMode) (operation : String) : PolicyProgram Unit := do
  let effective ← effectiveRuntimeMode mode
  if effective = .localCasc then return ()
  else do
    demand .recordForbidden
    let error := s!"extracted-only forbids CASC access: {operation}"
    callAccessHook error
    settled (.error error)

/-- `set_casc_access_hook`. -/
def setCascAccessHook (hook : Hook) : PolicyProgram Unit := do
  let installed ← demand (.setHook hook)
  settled (if installed then .ok () else .error "CASC access hook already installed")

/-- `ResolverPaths::runtime_mode`. -/
def pathsRuntimeMode (paths : ResolverPaths) : PolicyProgram AssetRuntimeMode :=
  effectiveRuntimeMode paths.runtimeMode

/-! ### The installation -/

/-- `wow_install_path`. -/
def wowInstallPath : PolicyProgram (Option PathBuf) := do
  let mode ← processRuntimeMode
  let allowed ← attempt (guardCascAccess mode "WoW install discovery")
  match allowed with
  | .ok () => demand .discoverInstall
  | .error _ => return none

/-- `wow_data_path`. -/
def wowDataPath : PolicyProgram (Option PathBuf) := do
  let root ← wowInstallPath
  return root.map fun root => root.join (.ofStr "Data")

/-- `FrozenArchiveReader::open`. -/
def openFrozen (formats : InstallFormats) (archiveDir : PathBuf) (keyFile : Option PathBuf) :
    PolicyProgram FrozenArchiveReader := do
  let mode ← processRuntimeMode
  guardCascAccess mode "open frozen local CASC archives"
  ofInstall do
    raise (question (.loadIndices archiveDir)) fun e => s!"load frozen CASC indices: {e}"
    raise (question (.openArchives archiveDir)) fun e => s!"open frozen CASC archives: {e}"
    match keyFile with
    | none => return ⟨archiveDir, formats.newStore⟩
    | some path =>
      let text ← raise (question (.readToString path)) fun e => s!"TACT keys {path.display}: {e}"
      return ⟨archiveDir, formats.newStore ++ formats.loadFromTxt text⟩

/-- `FrozenArchiveReader::read_encoding_key`. -/
def readEncodingKey (codecs : Blte.Codecs) (reader : FrozenArchiveReader) (key : Key) :
    PolicyProgram (List UInt8) := do
  let mode ← processRuntimeMode
  guardCascAccess mode "read frozen local CASC bytes"
  ofInstall do
    let found ← answer (.lookup reader.archiveDir key)
    let entry ← settled (found.elim
      (.error s!"Frozen source encoding key {key.display}: archive location absent") .ok)
    let raw ← raise (question (.readRaw reader.archiveDir entry)) fun e =>
      s!"Frozen source encoding key {key.display}: {e}"
    let file ← settled (parseLocalBlte codecs raw)
    let decoded ← settled
      ((Blte.decompressZeroingMissingKeys codecs reader.keys file).mapError fun e =>
        s!"Frozen source encoding key {key.display}: {e.display}")
    settled
      (if decoded.missingKeys = [] then .ok ()
      else
        .error
          (s!"Frozen source encoding key {key.display}: undecodable encrypted chunks: " ++
            ", ".intercalate (decoded.missingKeys.map Blte.MissingKeyChunk.describe)))
    return decoded.data

/-! ### States -/

variable (formats : InstallFormats)

/-- `init_casc`. -/
def initCasc (paths : ResolverPaths) : PolicyProgram CascState := do
  let path ← wowInstallPath
  let installRoot ← settled (path.elim
    (.error ("WoW install not found (set WOW_INSTALL_PATH or WOW_DATA_PATH, or place install " ++
      "at one of the default locations)"))
    .ok)
  ofInstall do
    let dataRoot := installRoot.join (.ofStr "Data")
    let found ← answer (.pathExists dataRoot)
    settled (if found then .ok () else .error s!"WoW data not found at {dataRoot.display}")
    raise (question (.openInstallation dataRoot)) fun e => s!"CASC open: {e}"
    let active ← readRequestedBuild formats paths installRoot
    let keys ← loadTactKeys formats paths installRoot active.product active.buildKey
    let cascDir := paths.cascCachePath active.product active.buildKey
    raise (question (.ensureNamespace cascDir)) id
    let contents ← raise (question (.openNamespace cascDir)) id
    let identity ← settled (AssetIdentity.new active.product active.buildKey)
    return ⟨some identity, dataRoot, keys, ⟨cascDir, contents⟩⟩

/-- `cell.get_or_init(|| init_casc(paths))`. -/
def getOrInit (paths : ResolverPaths) (identity : AssetIdentity) : PolicyProgram CascState := do
  let held ← demand (.cascCell paths identity)
  match held with
  | some outcome => settled outcome
  | none =>
    let outcome ← attempt (initCasc formats paths)
    demand (.setCascCell paths identity outcome)
    settled outcome

/-- `get_casc`. -/
def getCasc (paths : ResolverPaths) : PolicyProgram CascState := do
  let mode ← pathsRuntimeMode paths
  guardCascAccess mode "open CASC state"
  let path ← wowInstallPath
  let installRoot ← settled (path.elim (.error "WoW install not found") .ok)
  let active ← ofInstall (readRequestedBuild formats paths installRoot)
  let identity ← settled (AssetIdentity.new active.product active.buildKey)
  getOrInit formats paths identity

/-- `CascState::ensure_local_access`. -/
def ensureLocalAccess (casc : CascState) : PolicyProgram PathBuf := do
  let access ← demand (.localAccess casc)
  match access with
  | .initialized dataDir => return dataDir
  | .failed e => settled (.error e)
  | .uninitialized =>
    let path ← wowInstallPath
    let installRoot ← settled
      (path.elim (.error "WoW install not found for local archive access") .ok)
    ofInstall do
      let dataDir := (installRoot.join (.ofStr "Data")).join (.ofStr "data")
      raise (question (.ensureLocalAccess dataDir)) id
      return dataDir

/-- `CascState::read_file_by_encoding_key_with_keys`. -/
def readFileByEncodingKeyWithKeys (casc : CascState) (encodingKey : Key) :
    PolicyProgram FileContent := do
  let dataDir ← ensureLocalAccess casc
  ofInstall do
    let found ← answer (.lookup dataDir encodingKey)
    let entry ← settled
      (found.elim (.error s!"missing archive location for encoding key {encodingKey.display}") .ok)
    let rawBlte ← raise (question (.readRaw dataDir entry)) fun e =>
      s!"read raw BLTE archive entry: {e}"
    let decoded ← settled ((formats.decodeBlteZeroing casc.keys (localBlte rawBlte)).mapError
      fun e => s!"parse BLTE container: {e}")
    settled (decoded.mapError fun e => s!"decrypt/decompress BLTE container: {e}")

/-- `CascState::read_file_by_encoding_key`. -/
def readFileByEncodingKey (casc : CascState) (encodingKey : Key) : PolicyProgram FileContent := do
  let primary ← ofInstall (answer (.readFile casc.install encodingKey))
  match primary with
  | .ok data => return ⟨data, []⟩
  | .error primaryErr =>
    raise (readFileByEncodingKeyWithKeys formats casc encodingKey).run fun fallbackErr =>
      s!"{primaryErr}; key-aware local archive fallback also failed: {fallbackErr}"

/-- `read_fdid_bytes`. -/
def readFdidBytes (casc : CascState) (fdid : UInt32) : PolicyProgram FileContent :=
  match resolveFdid casc.cache.contents fdid with
  | some (_, encodingKey) =>
    raise (readFileByEncodingKey formats casc encodingKey).run fun e =>
      s!"CASC read FDID {fdid} via encoding key {encodingKey.display}: {e}"
  | none =>
    match casc.identity with
    | some identity =>
      settled (.error s!"FDID {fdid} absent from {identity.product} build {identity.buildKey}")
    | none => ofInstall (readFdidBytesByListfilePath casc fdid)

/-- `CascState::ensure_initialized`. -/
def ensureInitialized (casc : CascState) : PolicyProgram Unit :=
  ofInstall (raise (question (.ensureInitialized casc.install)) fun e => s!"CASC init: {e}")

/-- `initialize_with_paths`. -/
def initializeWithPaths (paths : ResolverPaths) : PolicyProgram Unit := do
  let mode ← pathsRuntimeMode paths
  if mode = .extractedOnly then return ()
  else do
    let casc ← getCasc formats paths
    ensureInitialized casc
    let _ ← attempt (ensureLocalAccess casc)
    return ()

/-- `resolve_bytes_with_paths`. -/
def resolveBytesWithPaths (paths : ResolverPaths) (fdid : UInt32) :
    PolicyProgram (Option (List UInt8)) := do
  let read ← attempt do
    let casc ← getCasc formats paths
    ensureInitialized casc
    readFdidBytes formats casc fdid
  return read.toOption.map FileContent.data

/-- `extract_fdid_to_path_with_paths`. -/
def extractFdidToPathWithPaths (paths : ResolverPaths) (fdid : UInt32) (outPath : PathBuf) :
    PolicyProgram ExtractedFile := do
  let casc ← getCasc formats paths
  ensureInitialized casc
  let content ← readFdidBytes formats casc fdid
  settled
    (if paths.identity.isSome && !content.missingKeys.isEmpty then
      .error
        (s!"FDID {fdid} has undecodable encrypted chunks: " ++
          ", ".intercalate content.missingKeys)
    else .ok ())
  ofInstall (raise (question (.writeToPath outPath content.data)) id)
  return ⟨outPath, content.missingKeys⟩

/-- `read_current_asset_path`. -/
def readCurrentAssetPath (paths : ResolverPaths) (publishedPath : PathBuf) :
    PolicyProgram PathBuf :=
  match paths.identity with
  | none => return publishedPath
  | some published => do
    let path ← wowInstallPath
    let installRoot ← settled (path.elim (.error "WoW install not found") .ok)
    ofInstall do
      let active ← readRequestedBuild formats paths installRoot
      let current ← settled (AssetIdentity.new active.product active.buildKey)
      let relative ← settled
        ((publishedPath.stripPrefix (published.assetRoot paths.sharedDataRoot)).elim
          (.error s!"published asset path {publishedPath.display}: prefix not found") .ok)
      return current.assetPath paths.sharedDataRoot relative

/-- `ensure_file_cached_checked_with_paths`. -/
def ensureFileCachedCheckedWithPaths (paths : ResolverPaths) (fdid : UInt32) (outPath : PathBuf) :
    PolicyProgram PathBuf := do
  let sharedPath ← settled (paths.scopedCachePath outPath)
  let published ← ofInstall (answer (.isFile sharedPath))
  if published = true then return sharedPath
  else do
    let mode ← pathsRuntimeMode paths
    settled
      (if mode = .extractedOnly then .error (paths.missingExtractedAsset fdid sharedPath)
      else .ok ())
    let currentPath ← readCurrentAssetPath formats paths sharedPath
    let extracted ← ofInstall (answer (.isFile currentPath))
    if extracted = true then return currentPath
    else do
      let file ← raise (extractFdidToPathWithPaths formats paths fdid currentPath).run fun e =>
        s!"FDID {fdid} at {currentPath.display}: {e}"
      return file.path

/-! ### Free functions -/

/-- `resolve_bytes`. -/
def resolveBytes (fdid : UInt32) : PolicyProgram (Option (List UInt8)) := do
  let mode ← processRuntimeMode
  let allowed ← attempt (guardCascAccess mode "raw CASC byte resolution")
  match allowed with
  | .error _ => return none
  | .ok () =>
    let roots ← demand .defaultPaths
    resolveBytesWithPaths formats roots.paths fdid

/-- `extract_fdid_to_path`. -/
def extractFdidToPath (fdid : UInt32) (outPath : PathBuf) : PolicyProgram ExtractedFile := do
  let mode ← processRuntimeMode
  guardCascAccess mode "direct CASC extraction"
  let roots ← demand .defaultPaths
  extractFdidToPathWithPaths formats roots.paths fdid outPath

/-- `selected_wow_product`, and `read_active_build`. -/
def readActiveBuild (installRoot : PathBuf) : InstallProgram ActiveBuild := do
  let product ← answer .wowProduct
  readProductBuild formats installRoot (product.getD defaultWowProduct)

/-- `casc_cache_dir_for_install`. -/
def cascCacheDirForInstall (installRoot : PathBuf) : PolicyProgram PathBuf := do
  let mode ← processRuntimeMode
  guardCascAccess mode "read install build for cache path"
  let active ← ofInstall (readActiveBuild formats installRoot)
  let roots ← demand .defaultPaths
  return roots.paths.cascCachePath active.product active.buildKey

/-- What `open_resolution_cache_for_install` and `refresh_resolution_cache_for_install` do
before they go apart: the directory of the namespace, which is there then. -/
def ensureNamespaceForInstall (operation : String) (installRoot : PathBuf) :
    PolicyProgram PathBuf := do
  let mode ← processRuntimeMode
  guardCascAccess mode operation
  ofInstall (raise (question (.openInstallation (installRoot.join (.ofStr "Data")))) fun e =>
    s!"CASC open: {e}")
  let active ← ofInstall (readActiveBuild formats installRoot)
  let roots ← demand .defaultPaths
  let cascDir := roots.paths.cascCachePath active.product active.buildKey
  ofInstall (raise (question (.ensureNamespace cascDir)) id)
  return cascDir

/-- `open_resolution_cache_for_install`. -/
def openResolutionCacheForInstall (installRoot : PathBuf) : PolicyProgram CascResolutionCache := do
  let cascDir ← ensureNamespaceForInstall formats "open install resolution cache" installRoot
  let contents ← ofInstall (raise (question (.openNamespace cascDir)) id)
  return ⟨cascDir, contents⟩

/-- `refresh_resolution_cache_for_install`. -/
def refreshResolutionCacheForInstall (installRoot : PathBuf) : PolicyProgram PathBuf :=
  ensureNamespaceForInstall formats "refresh install resolution cache" installRoot

/-! ### The methods of a resolver -/

/-- `CascListfileResolver::runtime_mode`. -/
def runtimeMode (paths : ResolverPaths) : PolicyProgram AssetRuntimeMode := do
  let mode ← pathsRuntimeMode paths
  effectiveRuntimeMode mode

/-- `CascListfileResolver::initialize`. -/
def initializeResolver (paths : ResolverPaths) : PolicyProgram Unit := do
  let mode ← runtimeMode paths
  if mode = .extractedOnly then return () else initializeWithPaths formats paths

/-- `expect`, which panics on an error. -/
def expect (message : String) (outcome : Except String Unit) : PolicyProgram Unit :=
  match outcome with
  | .ok () => return ()
  | .error e => do
    demand (.panicking message e)
    -- a panic has no answer, and this is not reached
    settled (.error e)

/-- `CascListfileResolver::resolve_bytes`. -/
def resolverResolveBytes (paths : ResolverPaths) (fdid : UInt32) :
    PolicyProgram (Option (List UInt8)) := do
  let mode ← runtimeMode paths
  if mode = .extractedOnly then do
    let mode ← runtimeMode paths
    let allowed ← attempt (guardCascAccess mode s!"resolve_bytes FDID {fdid}")
    expect "raw CASC bytes requested in extracted-only mode" allowed
    resolveBytesWithPaths formats paths fdid
  else resolveBytesWithPaths formats paths fdid

/-- `CascListfileResolver::ensure_cached_checked`. -/
def ensureCachedChecked (paths : ResolverPaths) (fdid : UInt32) (outPath : PathBuf) :
    PolicyProgram PathBuf := do
  let expected ← settled (paths.cachePath outPath)
  let published ← ofInstall (answer (.isFile expected))
  if published = true then return expected
  else do
    let mode ← runtimeMode paths
    settled
      (if mode = .extractedOnly then .error (paths.missingExtractedAsset fdid expected)
      else .ok ())
    ensureFileCachedCheckedWithPaths formats paths fdid outPath

/-- `CascListfileResolver::ensure_cached`. -/
def ensureCached (paths : ResolverPaths) (fdid : UInt32) (outPath : PathBuf) :
    PolicyProgram (Option PathBuf) := do
  let cached ← attempt (ensureCachedChecked formats paths fdid outPath)
  match cached with
  | .ok path => return some path
  | .error e =>
    let mode ← runtimeMode paths
    settled (if mode = .extractedOnly then .error e else .ok none)

/-- `ensure_file_cached_at_path`. -/
def ensureFileCachedAtPath (fdid : UInt32) (outPath : PathBuf) :
    PolicyProgram (Option PathBuf) := do
  let roots ← demand .newDefaultPaths
  ensureCached formats roots.paths fdid outPath

/-! ### Where the mode is settled -/

section Settled

variable (process : Process)

/-- A process whose mode and installation are settled, and whose other memory is that of its
cells. -/
def settleQuery : (q : PolicyQuery) → Program CascQuery CascQuery.Answer q.Answer
  | .assetMode => ret .notPresent
  | .selectMode _ => ret process.mode
  | .processMode => ret process.mode
  | .recordForbidden => ret ()
  | .forbiddenCount => ret 0
  | .accessHook => ret none
  | .callHook _ _ => ret ()
  | .setHook _ => ret true
  | .panicking _ _ => ret ()
  | .defaultPaths | .newDefaultPaths =>
    ret ⟨process.defaultPaths.sourceDataRoot, process.defaultPaths.sharedDataRoot,
      process.defaultPaths.cacheRoot⟩
  | .lookupPath _ => ret none
  | .discoverInstall => ret process.installPath
  | .cascCell paths identity =>
    query (CascQuery.getOrInit paths identity) >>= fun outcome => ret (some outcome)
  | .setCascCell _ _ _ => ret ()
  | .localAccess _ => ret .uninitialized
  | .outside q => query (CascQuery.outside q)

/-- A program of the policy, in a process whose mode is settled. -/
def settle {α : Type} (p : PolicyProgram α) : CascProgram α := handleT (settleQuery process) p

variable {process} {α β : Type}

@[simp] theorem settle_bind (p : PolicyProgram α) (f : α → PolicyProgram β) :
    settle process (p >>= f) = settle process p >>= fun a => settle process (f a) :=
  handleT_bind p f

@[simp] theorem settle_pure (a : α) : settle process (pure a) = pure a := rfl

@[simp] theorem settle_settled (r : Except String α) :
    settle process (settled r) = settled r := rfl

@[simp] theorem settle_ofInstall (p : InstallProgram α) :
    settle process (ofInstall p) = AssetResolver.ofInstall p := by
  have hrun : ∀ r : Program InstallQuery InstallQuery.Answer (Except String α),
      (r.embed PolicyQuery.outside fun _ answer => answer).handle (settleQuery process) =
        r.embed CascQuery.outside fun _ answer => answer := by
    intro r
    induction r with
    | ret a => rfl
    | ask q k ih => exact congrArg (ask (CascQuery.outside q)) (funext ih)
  exact hrun p.run

@[simp] theorem settle_attempt (p : PolicyProgram α) :
    settle process (attempt p) =
      ExceptT.mk ((settle process p).run >>= fun r => ret (.ok r)) :=
  handle_bind p.run _

theorem settle_attempt_bind (p : PolicyProgram α) (f : Except String α → PolicyProgram β) :
    settle process (attempt p >>= f) =
      ExceptT.mk ((settle process p).run >>= fun r => (settle process (f r)).run) := by
  rw [settle_bind, settle_attempt]
  exact Program.bind_assoc (settle process p).run _ _

@[simp] theorem settle_raise (p : PolicyProgram α) (f : String → String) :
    settle process (raise p.run f) = raise (settle process p).run f :=
  handle_bind p.run _

@[simp] theorem settle_effectiveRuntimeMode (mode : AssetRuntimeMode) :
    settle process (effectiveRuntimeMode mode) =
      pure (AssetResolver.effectiveRuntimeMode process.mode mode) := by
  obtain ⟨processMode, installPath, defaultPaths, formats⟩ := process
  cases mode <;> cases processMode <;> rfl

/-- **Where the mode is settled, a guard is what it was without counting.** -/
@[simp] theorem settle_guardCascAccess (mode : AssetRuntimeMode) (operation : String) :
    settle process (guardCascAccess mode operation) =
      settled (AssetResolver.guardCascAccess process.mode mode operation) := by
  obtain ⟨processMode, installPath, defaultPaths, formats⟩ := process
  cases mode <;> cases processMode <;> rfl

@[simp] theorem settle_wowInstallPath :
    settle process wowInstallPath = pure process.wowInstallPath := by
  obtain ⟨processMode, installPath, defaultPaths, formats⟩ := process
  cases processMode <;> rfl

theorem ofInstall_bind (p : InstallProgram α) (f : α → InstallProgram β) :
    AssetResolver.ofInstall (p >>= f) =
      AssetResolver.ofInstall p >>= fun a => AssetResolver.ofInstall (f a) := by
  change ExceptT.mk ((p.run >>= ExceptT.bindCont f).embed CascQuery.outside _) = _
  rw [embed_bind]
  refine congrArg (fun k => p.run.embed CascQuery.outside _ >>= k) (funext fun r => ?_)
  cases r <;> rfl

theorem ofInstall_raise (p : InstallProgram α) (f : String → String) :
    AssetResolver.ofInstall (raise p.run f) = raise (AssetResolver.ofInstall p).run f :=
  embed_bind p.run _

/-- The paths of a resolver say whether it is extracted-only, however often they are asked. -/
theorem guardCascAccess_effective (mode : AssetRuntimeMode) (operation : String) :
    AssetResolver.guardCascAccess process.mode
        (AssetResolver.effectiveRuntimeMode process.mode mode) operation =
      AssetResolver.guardCascAccess process.mode mode operation := by
  obtain ⟨processMode, installPath, defaultPaths, formats⟩ := process
  cases mode <;> cases processMode <;> rfl

variable {paths : ResolverPaths} {fdid : UInt32} {outPath : PathBuf}

/-- **The guarded programs over a settled mode are the programs of the policy** in a process
whose mode is settled. First an initialisation. -/
theorem settle_initCasc :
    settle process (initCasc process.formats paths) =
      AssetResolver.ofInstall (AssetResolver.initCasc process paths) := by
  rw [initCasc, AssetResolver.initCasc, settle_bind, settle_wowInstallPath, pure_bind, settle_bind,
    settle_settled, ofInstall_bind]
  simp only [settle_ofInstall]
  rfl

/-- The cell of a state, which is initialised in the process. -/
theorem settle_getOrInit {identity : AssetIdentity} :
    settle process (getOrInit process.formats paths identity) =
      raise (query (CascQuery.getOrInit paths identity)) id :=
  congrArg (ask (CascQuery.getOrInit paths identity)) <| funext fun outcome => by
    cases outcome <;> rfl

theorem settle_getCasc :
    settle process (getCasc process.formats paths) = AssetResolver.getCasc process paths := by
  unfold getCasc AssetResolver.getCasc pathsRuntimeMode
  simp only [settle_bind, settle_effectiveRuntimeMode, settle_guardCascAccess,
    settle_wowInstallPath, settle_settled, settle_ofInstall, settle_getOrInit, pure_bind,
    guardCascAccess_effective]

theorem settle_ensureLocalAccess {casc : CascState} :
    settle process (ensureLocalAccess casc) =
      AssetResolver.ofInstall (AssetResolver.ensureLocalAccess process) := by
  have hfresh : settle process (ensureLocalAccess casc) = settle process (do
      let path ← wowInstallPath
      let installRoot ← settled
        (path.elim (.error "WoW install not found for local archive access") .ok)
      ofInstall do
        let dataDir := (installRoot.join (.ofStr "Data")).join (.ofStr "data")
        raise (question (.ensureLocalAccess dataDir)) id
        return dataDir) := rfl
  rw [hfresh, settle_bind, settle_wowInstallPath, pure_bind, settle_bind, settle_settled,
    AssetResolver.ensureLocalAccess, ofInstall_bind]
  simp only [settle_ofInstall]
  rfl

theorem settle_readFileByEncodingKeyWithKeys {casc : CascState} {key : Key} :
    settle process (readFileByEncodingKeyWithKeys process.formats casc key) =
      AssetResolver.ofInstall
        (AssetResolver.readFileByEncodingKeyWithKeys process casc key) := by
  rw [readFileByEncodingKeyWithKeys, AssetResolver.readFileByEncodingKeyWithKeys, settle_bind,
    settle_ensureLocalAccess, ofInstall_bind]
  simp only [settle_ofInstall]

theorem settle_readFileByEncodingKey {casc : CascState} {key : Key} :
    settle process (readFileByEncodingKey process.formats casc key) =
      AssetResolver.ofInstall (AssetResolver.readFileByEncodingKey process casc key) := by
  rw [readFileByEncodingKey, AssetResolver.readFileByEncodingKey, settle_bind, settle_ofInstall,
    ofInstall_bind]
  refine congrArg _ (funext fun primary => ?_)
  cases primary with
  | ok data => rfl
  | error e =>
    dsimp only
    rw [settle_raise, settle_readFileByEncodingKeyWithKeys, ofInstall_raise]

theorem settle_readFdidBytes {casc : CascState} :
    settle process (readFdidBytes process.formats casc fdid) =
      AssetResolver.ofInstall (AssetResolver.readFdidBytes process casc fdid) := by
  unfold readFdidBytes AssetResolver.readFdidBytes
  cases resolveFdid casc.cache.contents fdid with
  | some found =>
    dsimp only
    rw [settle_raise, settle_readFileByEncodingKey, ofInstall_raise]
  | none =>
    cases casc.identity with
    | some identity => rfl
    | none => exact settle_ofInstall _

theorem settle_initializeWithPaths :
    settle process (initializeWithPaths process.formats paths) =
      AssetResolver.initializeWithPaths process paths := by
  unfold initializeWithPaths AssetResolver.initializeWithPaths pathsRuntimeMode ensureInitialized
  rw [settle_bind, settle_effectiveRuntimeMode, pure_bind]
  split_ifs
  · rfl
  · simp only [settle_bind, settle_getCasc, settle_ofInstall]
    refine congrArg _ (funext fun casc => congrArg _ (funext fun _ => ?_))
    rw [← settle_bind, settle_attempt_bind, settle_ensureLocalAccess]
    rfl

theorem settle_resolveBytesWithPaths :
    settle process (resolveBytesWithPaths process.formats paths fdid) =
      AssetResolver.resolveBytesWithPaths process paths fdid := by
  unfold resolveBytesWithPaths AssetResolver.resolveBytesWithPaths ensureInitialized
  rw [settle_attempt_bind]
  simp only [settle_bind, settle_getCasc, settle_ofInstall, settle_readFdidBytes]
  rfl

theorem settle_extractFdidToPathWithPaths :
    settle process (extractFdidToPathWithPaths process.formats paths fdid outPath) =
      AssetResolver.extractFdidToPathWithPaths process paths fdid outPath := by
  unfold extractFdidToPathWithPaths AssetResolver.extractFdidToPathWithPaths ensureInitialized
  simp only [settle_bind, settle_getCasc, settle_readFdidBytes, settle_ofInstall, settle_settled,
    settle_pure]

theorem settle_readCurrentAssetPath :
    settle process (readCurrentAssetPath process.formats paths outPath) =
      AssetResolver.ofInstall (AssetResolver.readCurrentAssetPath process paths outPath) := by
  unfold readCurrentAssetPath AssetResolver.readCurrentAssetPath
  cases paths.identity with
  | none => rfl
  | some published =>
    dsimp only
    rw [settle_bind, settle_wowInstallPath, pure_bind, settle_bind, settle_settled, ofInstall_bind]
    simp only [settle_ofInstall]
    rfl

theorem settle_ensureFileCachedCheckedWithPaths :
    settle process (ensureFileCachedCheckedWithPaths process.formats paths fdid outPath) =
      AssetResolver.ensureFileCachedCheckedWithPaths process paths fdid outPath := by
  unfold ensureFileCachedCheckedWithPaths AssetResolver.ensureFileCachedCheckedWithPaths
    pathsRuntimeMode
  simp only [settle_bind, settle_settled, settle_ofInstall]
  refine congrArg _ (funext fun sharedPath => congrArg _ (funext fun published => ?_))
  by_cases hpublished : published = true
  · rw [if_pos hpublished, if_pos hpublished]
    rfl
  · rw [if_neg hpublished, if_neg hpublished]
    simp only [settle_bind, settle_effectiveRuntimeMode, settle_settled, pure_bind,
      settle_readCurrentAssetPath, settle_ofInstall]
    refine congrArg _ (funext fun _ => congrArg _ (funext fun currentPath =>
      congrArg _ (funext fun extracted => ?_)))
    by_cases hextracted : extracted = true
    · rw [if_pos hextracted, if_pos hextracted]
      rfl
    · rw [if_neg hextracted, if_neg hextracted]
      simp only [settle_bind, settle_raise, settle_extractFdidToPathWithPaths, settle_pure]

/-- The mode of a resolver is asked twice, and is the same. -/
theorem effectiveRuntimeMode_idem (processMode mode : AssetRuntimeMode) :
    AssetResolver.effectiveRuntimeMode processMode
        (AssetResolver.effectiveRuntimeMode processMode mode) =
      AssetResolver.effectiveRuntimeMode processMode mode := by
  cases mode <;> cases processMode <;> rfl

theorem settle_ensureCachedChecked :
    settle process (ensureCachedChecked process.formats paths fdid outPath) =
      AssetResolver.ensureCachedChecked process paths fdid outPath := by
  unfold ensureCachedChecked AssetResolver.ensureCachedChecked runtimeMode pathsRuntimeMode
  simp only [settle_bind, settle_settled, settle_ofInstall]
  refine congrArg _ (funext fun expected => congrArg _ (funext fun published => ?_))
  by_cases hpublished : published = true
  · rw [if_pos hpublished, if_pos hpublished]
    rfl
  · rw [if_neg hpublished, if_neg hpublished]
    simp only [settle_bind, settle_effectiveRuntimeMode, settle_settled, pure_bind,
      settle_ensureFileCachedCheckedWithPaths, effectiveRuntimeMode_idem]

@[simp] theorem settle_processRuntimeMode :
    settle process processRuntimeMode = pure process.mode := rfl

theorem settle_openFrozen {archiveDir : PathBuf} {keyFile : Option PathBuf} :
    settle process (openFrozen process.formats archiveDir keyFile) =
      AssetResolver.ofInstall (FrozenArchiveReader.«open» process archiveDir keyFile) := by
  unfold openFrozen FrozenArchiveReader.«open»
  rw [settle_bind, settle_processRuntimeMode, pure_bind, settle_bind, settle_guardCascAccess,
    ofInstall_bind]
  simp only [settle_ofInstall]
  rfl

theorem settle_readEncodingKey {codecs : Blte.Codecs} {reader : FrozenArchiveReader} {key : Key} :
    settle process (readEncodingKey codecs reader key) =
      AssetResolver.ofInstall (reader.readEncodingKey process codecs key) := by
  rw [readEncodingKey, FrozenArchiveReader.readEncodingKey, settle_bind, settle_processRuntimeMode,
    pure_bind, settle_bind, settle_guardCascAccess, ofInstall_bind]
  simp only [settle_ofInstall]
  rfl

end Settled

end Policy

end AssetResolver
