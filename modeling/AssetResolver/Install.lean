import AssetResolver.Paths
import AssetResolver.Resolution.Table

/-!
# Questions about an installation

What `casc_resolver.rs` reads of an installation to know which build is active and
which keys decode it: `.build.info`, the build and keyring configurations it
names, and the external key list.

Every access is one question of a program (`AssetResolver.InstallQuery`), because
a patch may replace any of these files between two of them. The selection of the
active row is a function of the text that was read (`AssetResolver.activeBuildKey`),
and it is asked for in three places that read the file anew: the label of a
destination, the key of a memoised state, and the state itself. The spec lemmas
say what a success has read: `AssetResolver.yields_readProductBuild` the row of the
product, `AssetResolver.yields_loadTactKeys` the keyring of that very row.
-/

namespace AssetResolver

/-! ### Keys in hexadecimal -/

/-- The value of a hexadecimal digit. -/
def hexDigit (b : UInt8) : Option UInt8 :=
  if 0x30 ≤ b && b ≤ 0x39 then some (b - 0x30)
  else if 0x61 ≤ b && b ≤ 0x66 then some (b - 0x57)
  else if 0x41 ≤ b && b ≤ 0x46 then some (b - 0x37)
  else none

/-- `u8::from_str_radix(_, 16)` on two characters, of which the first may be a `+`.
The slice that cuts a character in two, which panics, is an error here. -/
def fromStrRadix16 (a b : UInt8) : Except String UInt8 :=
  match hexDigit a, hexDigit b with
  | some x, some y => .ok (16 * x + y)
  | none, some y => if a = 0x2b then .ok y else .error "invalid digit found in string"
  | _, none => .error "invalid digit found in string"

/-- The bytes two characters each spell. -/
def hexBytes : List UInt8 → Except String (List UInt8)
  | a :: b :: rest => do
    let x ← fromStrRadix16 a b
    let xs ← hexBytes rest
    .ok (x :: xs)
  | _ => .ok []

theorem length_hexBytes {bytes out : List UInt8} (h : hexBytes bytes = .ok out) :
    out.length = bytes.length / 2 := by
  induction bytes using hexBytes.induct generalizing out with
  | case1 a b rest ih =>
    obtain ⟨x, -, h⟩ := Program.except_bind_eq_ok_iff.mp h
    obtain ⟨xs, hxs, h⟩ := Program.except_bind_eq_ok_iff.mp h
    cases h
    rw [List.length_cons, ih hxs, List.length_cons, List.length_cons]
    omega
  | case2 bytes hshort =>
    have hlen : bytes.length < 2 := by
      rcases bytes with _ | ⟨a, _ | ⟨b, rest⟩⟩
      · simp
      · simp
      · exact absurd rfl (hshort a b rest)
    rw [hexBytes.eq_2 bytes hshort] at h
    cases h
    rw [List.length_nil]
    omega

/-- `parse_hex_16`, and with it `parse_content_key` and `parse_encoding_key`. -/
def parseHex16 (value : String) : Except String Key :=
  if hlen : (osString value).length = 32 then
    match h : hexBytes (osString value) with
    | .error e => .error s!"invalid hex key {value}: {e}"
    | .ok out => .ok ⟨out, by rw [length_hexBytes h, hlen]⟩
  else .error s!"expected 32 hex characters, got {value}"

/-- The hexadecimal digit of a value below 16. -/
def hexChar (n : UInt8) : Char := Char.ofNat (if n < 10 then n.toNat + 0x30 else n.toNat + 0x57)

/-- How a key is shown. -/
def Key.display (k : Key) : String :=
  String.ofList (k.bytes.flatMap fun b => [hexChar (b / 16), hexChar (b % 16)])

/-- `data_config_path`: two directories named by the first bytes of the key. A cut
through a character, which panics, is read as bytes here. -/
def dataConfigPath (installRoot : PathBuf) (key : String) : Except String PathBuf :=
  if (osString key).length < 4 then .error s!"invalid config key: {key}"
  else
    .ok ((((installRoot.join (.ofStr "Data/config")).join (.ofOs ((osString key).take 2))).join
      (.ofOs (((osString key).drop 2).take 2))).join (.ofStr key))

/-! ### What the files say -/

/-- A row of `.build.info`. -/
structure BuildRow where
  /-- `is_active`. -/
  isActive : Bool
  /-- `product`. -/
  product : Option String
  /-- `build_key`. -/
  buildKey : Option String
  /-- `keyring`. -/
  keyring : Option String
  deriving DecidableEq

/-- The `encoding` entry of a build configuration. -/
structure EncodingInfo where
  /-- The content key. -/
  contentKey : String
  /-- The encoding key, which an entry may lack. -/
  encodingKey : Option String
  deriving DecidableEq

/-- `BuildConfig`. -/
structure BuildConfig where
  /-- `root`: the content key of the root file. -/
  root : Option String
  /-- `encoding`. -/
  encoding : Option EncodingInfo
  deriving DecidableEq

/-- `ActiveBuild`. -/
structure ActiveBuild where
  /-- The product that was asked for. -/
  product : String
  /-- Its build key, as `.build.info` spells it. -/
  buildKey : String
  /-- The build configuration. -/
  config : BuildConfig

/-- A TACT key. -/
structure TactKey where
  /-- The name encrypted chunks refer to it by. -/
  id : UInt64
  /-- The key. -/
  key : List UInt8
  deriving DecidableEq

/-- `TactKeyStore`: the keys in the order they were added. -/
abbrev TactKeyStore := List TactKey

/-- `FileContent`: the bytes of a file, and a description of each encrypted chunk
that was filled with zeros because its key is unknown. -/
structure FileContent where
  /-- The bytes. -/
  data : List UInt8
  /-- What `describe_missing_keys` lists. -/
  missingKeys : List String

/-- The parsers and decoders of other crates. -/
structure InstallFormats where
  /-- `BuildInfoFile::parse_str`. -/
  parseBuildInfo : String → Except String (List BuildRow)
  /-- `BuildConfig::parse`. -/
  parseBuildConfig : List UInt8 → Except String BuildConfig
  /-- `KeyringConfig::parse`, and `tact_keys` of what it returns. -/
  parseKeyring : List UInt8 → Except String (Except String (List TactKey))
  /-- `TactKeyStore::new`, a store that may have keys to begin with. -/
  newStore : TactKeyStore
  /-- `TactKeyStore::load_from_txt`. -/
  loadFromTxt : String → List TactKey
  /-- `BlteFile::read_options`, and `decompress_with_keys` of what it returns. -/
  decodeBlte : TactKeyStore → List UInt8 → Except String (Except String (List UInt8))
  /-- `BlteFile::read_options`, and `decompress_zeroing_missing_keys`. -/
  decodeBlteZeroing : TactKeyStore → List UInt8 → Except String (Except String FileContent)
  /-- `ContentKey::from_data`. -/
  contentKey : List UInt8 → Key
  /-- The parsers of the root and the encoding file. -/
  metadata : MetadataFormats

/-! ### Questions -/

/-- Where an archive holds a file. -/
structure IndexEntry where
  /-- `archive_id`. -/
  archiveId : ℕ
  /-- `archive_offset`. -/
  archiveOffset : ℕ
  /-- `size`. -/
  size : ℕ

/-- A question of the resolver. -/
inductive InstallQuery where
  /-- The variable `WOW_PRODUCT`. -/
  | wowProduct : InstallQuery
  /-- The text of `.build.info`, to select the active row of a product. -/
  | readBuildInfo (path : PathBuf) (product : String) : InstallQuery
  /-- The text of a file. -/
  | readToString (path : PathBuf) : InstallQuery
  /-- The bytes of a file that is opened to be parsed. -/
  | openFile (path : PathBuf) : InstallQuery
  /-- `Path::exists`. -/
  | pathExists (path : PathBuf) : InstallQuery
  /-- `Path::is_file`, of an asset. -/
  | isFile (path : PathBuf) : InstallQuery
  /-- `Installation::open`. -/
  | openInstallation (dataRoot : PathBuf) : InstallQuery
  /-- `Installation::initialize`. -/
  | initializeInstall (dataRoot : PathBuf) : InstallQuery
  /-- `Installation::read_file_by_encoding_key`. -/
  | readFile (dataRoot : PathBuf) (encodingKey : Key) : InstallQuery
  /-- `Installation::read_file_by_path`. -/
  | readPath (dataRoot : PathBuf) (path : String) : InstallQuery
  /-- `IndexManager::load_all`. -/
  | loadIndices (dataDir : PathBuf) : InstallQuery
  /-- `ArchiveManager::open_all`. -/
  | openArchives (dataDir : PathBuf) : InstallQuery
  /-- `IndexManager::lookup`. -/
  | lookup (dataDir : PathBuf) (encodingKey : Key) : InstallQuery
  /-- `ArchiveManager::read_raw`. -/
  | readRaw (dataDir : PathBuf) (entry : IndexEntry) : InstallQuery
  /-- `ensure_resolution_cache`, as one question. -/
  | ensureNamespace (cascDir : PathBuf) : InstallQuery
  /-- `CascResolutionCache::open`, as one question. -/
  | openNamespace (cascDir : PathBuf) : InstallQuery
  /-- `CascState::ensure_initialized`, whose outcome is kept. -/
  | ensureInitialized (dataRoot : PathBuf) : InstallQuery
  /-- `CascState::ensure_local_access`, whose outcome is kept. -/
  | ensureLocalAccess (dataDir : PathBuf) : InstallQuery
  /-- `Listfile::lookup_fdid`. -/
  | lookupFdid (fdid : UInt32) : InstallQuery
  /-- `write_to_path`. The sibling it renames is no asset, and is not seen. -/
  | writeToPath (path : PathBuf) (data : List UInt8) : InstallQuery

/-- What an answer is. -/
@[reducible] def InstallQuery.Answer : InstallQuery → Type
  | .wowProduct => Option String
  | .readBuildInfo _ _ => Except String String
  | .readToString _ => Except String String
  | .openFile _ => Except String (List UInt8)
  | .pathExists _ => Bool
  | .isFile _ => Bool
  | .openInstallation _ => Except String Unit
  | .initializeInstall _ => Except String Unit
  | .readFile _ _ => Except String (List UInt8)
  | .readPath _ _ => Except String (List UInt8)
  | .loadIndices _ => Except String Unit
  | .openArchives _ => Except String Unit
  | .lookup _ _ => Option IndexEntry
  | .readRaw _ _ => Except String (List UInt8)
  | .ensureNamespace _ => Except String Unit
  | .openNamespace _ => Except String Contents
  | .ensureInitialized _ => Except String Unit
  | .ensureLocalAccess _ => Except String Unit
  | .lookupFdid _ => Option String
  | .writeToPath _ _ => Except String Unit

/-- A part of the resolver that questions its environment and may fail. -/
abbrev InstallProgram := ExceptT String (Program InstallQuery InstallQuery.Answer)

open Program

/-- One question. -/
abbrev question (q : InstallQuery) : Program InstallQuery InstallQuery.Answer q.Answer := query q

/-- One question, whose answer is no failure of the program. -/
abbrev answer (q : InstallQuery) : InstallProgram q.Answer := inquire q

/-! ### The active build -/

/-- The row `read_product_build` selects: the only active one of the product. -/
def activeBuildKey (infoPath : PathBuf) (product : String) (rows : List BuildRow) :
    Except String String :=
  -- several active rows are refused rather than the first of them taken
  match rows.filter fun row => row.isActive && row.product == some product with
  | [] => .error s!"{infoPath.display} has no active row for {product}"
  | [row] =>
    match row.buildKey with
    | some buildKey => .ok buildKey
    | none => .error "active build row has no build key"
  | _ => .error s!"{infoPath.display} has multiple active rows for {product}"

/-- **What a text of `.build.info` selects** for a product. -/
def selectedBuildKey (formats : InstallFormats) (infoPath : PathBuf) (product content : String) :
    Except String String := do
  let rows ← (formats.parseBuildInfo content).mapError fun e => s!"parse {infoPath.display}: {e}"
  activeBuildKey infoPath product rows

/-- The path of `.build.info`. -/
def buildInfoPath (installRoot : PathBuf) : PathBuf := installRoot.join (.ofStr ".build.info")

/-- `read_product_build`. -/
def readProductBuild (formats : InstallFormats) (installRoot : PathBuf) (product : String) :
    InstallProgram ActiveBuild := do
  let infoPath := buildInfoPath installRoot
  let content ← raise (question (.readBuildInfo infoPath product)) fun e =>
    s!"read {infoPath.display}: {e}"
  let buildKey ← settled (selectedBuildKey formats infoPath product content)
  let _ ← settled (parseHex16 buildKey)
  let configPath ← settled (dataConfigPath installRoot buildKey)
  let file ← raise (question (.openFile configPath)) fun e => s!"open {configPath.display}: {e}"
  let config ← settled ((formats.parseBuildConfig file).mapError fun e =>
    s!"parse {configPath.display}: {e}")
  return ⟨product, buildKey, config⟩

/-- `DEFAULT_WOW_PRODUCT`. -/
def defaultWowProduct : String := "wow"

/-- `read_requested_build`. -/
def readRequestedBuild (formats : InstallFormats) (paths : ResolverPaths) (installRoot : PathBuf) :
    InstallProgram ActiveBuild :=
  match paths.identity with
  | some identity => readProductBuild formats installRoot identity.product
  | none => do
    let product ← answer .wowProduct
    readProductBuild formats installRoot (product.getD defaultWowProduct)

variable {A : (q : InstallQuery) → q.Answer → Prop} {formats : InstallFormats}
  {installRoot : PathBuf}

/-- **What a successful read has read**: a text that selects the build key. -/
theorem yields_readProductBuild {product : String} {active : ActiveBuild}
    (h : (readProductBuild formats installRoot product).run.Yields A (.ok active)) :
    active.product = product ∧ ∃ content,
      A (.readBuildInfo (buildInfoPath installRoot) product) (.ok content) ∧
        selectedBuildKey formats (buildInfoPath installRoot) product content =
          .ok active.buildKey := by
  simp only [readProductBuild, yields_ok_bind_iff, yields_raise, yields_settled, yields_query,
    yields_pure] at h
  obtain ⟨content, hcontent, buildKey, hselected, -, -, -, -, -, -, -, -, rfl⟩ := h
  exact ⟨rfl, content, hcontent, hselected⟩

/-- The product that is read is that of the identity, if there is one. -/
theorem yields_readRequestedBuild {paths : ResolverPaths} {active : ActiveBuild}
    (h : (readRequestedBuild formats paths installRoot).run.Yields A (.ok active)) :
    (∀ i, paths.identity = some i → active.product = i.product) ∧ ∃ content,
      A (.readBuildInfo (buildInfoPath installRoot) active.product) (.ok content) ∧
        selectedBuildKey formats (buildInfoPath installRoot) active.product content =
          .ok active.buildKey := by
  unfold readRequestedBuild at h
  cases hid : paths.identity with
  | some identity =>
    rw [hid] at h
    obtain ⟨hproduct, content, hcontent⟩ := yields_readProductBuild h
    refine ⟨?_, content, by rwa [hproduct]⟩
    rintro i ⟨⟩
    exact hproduct
  | none =>
    rw [hid] at h
    obtain ⟨product, -, h⟩ := yields_ok_bind_iff.mp h
    obtain ⟨hproduct, content, hcontent⟩ := yields_readProductBuild h
    exact ⟨fun i hi => (by cases hi), content, by rwa [hproduct]⟩

/-! ### The keys of a build -/

/-- `read_keyring_keys`. -/
def readKeyringKeys (formats : InstallFormats) (installRoot : PathBuf) (product buildKey : String) :
    InstallProgram (List TactKey) := do
  let infoPath := buildInfoPath installRoot
  let content ← raise (question (.readToString infoPath)) fun e => s!"read {infoPath.display}: {e}"
  let rows ← settled ((formats.parseBuildInfo content).mapError fun e =>
    s!"parse {infoPath.display}: {e}")
  -- the row of the build that was given, which a patch may have taken away
  let row ← settled
    (match rows.find? fun row =>
        row.isActive && row.product == some product && row.buildKey == some buildKey with
      | some row => .ok row
      | none => .error s!"{infoPath.display} has no row for {product} build {buildKey}")
  match row.keyring with
  | none => return []
  | some keyringKey =>
    let keyringPath ← settled (dataConfigPath installRoot keyringKey)
    let file ← raise (question (.openFile keyringPath)) fun e =>
      s!"open keyring {keyringPath.display}: {e}"
    let keyring ← settled ((formats.parseKeyring file).mapError fun e =>
      s!"parse keyring {keyringPath.display}: {e}")
    settled (keyring.mapError fun e => s!"invalid keyring {keyringPath.display}: {e}")

/-- `EXTERNAL_TACT_KEYS_PATH`. -/
def externalTactKeysPath : PathBuf := .ofStr "tactkeys/WoW.txt"

/-- The keys of the external list, none when it cannot be read. -/
def externalKeys (formats : InstallFormats) : Except String String → List TactKey
  | .ok content => formats.loadFromTxt content
  | .error _ => []

/-- `load_tact_keys`: the external list first, then the keyring of the build. -/
def loadTactKeys (formats : InstallFormats) (paths : ResolverPaths) (installRoot : PathBuf)
    (product buildKey : String) : InstallProgram TactKeyStore := do
  let present ← answer (.pathExists (paths.sourceDataRoot.join externalTactKeysPath))
  let keyPath := paths.resolveDataPath (fun _ => present) externalTactKeysPath
  let content ← answer (.readToString keyPath)
  let keyringKeys ← readKeyringKeys formats installRoot product buildKey
  return formats.newStore ++ externalKeys formats content ++ keyringKeys

/-- **The external keys**, as the list of one of the two data roots had them. -/
def ExternalKeysOf (formats : InstallFormats) (paths : ResolverPaths)
    (A : (q : InstallQuery) → q.Answer → Prop) (keys : List TactKey) : Prop :=
  ∃ present content, A (.pathExists (paths.sourceDataRoot.join externalTactKeysPath)) present ∧
    A (.readToString (paths.resolveDataPath (fun _ => present) externalTactKeysPath)) content ∧
    keys = externalKeys formats content

/-- **The keyring keys of a build**, as some text of `.build.info` had them: those of
the keyring its row names, if it names one. -/
def KeyringOf (formats : InstallFormats) (installRoot : PathBuf)
    (A : (q : InstallQuery) → q.Answer → Prop) (product buildKey : String)
    (keys : List TactKey) : Prop :=
  ∃ content rows row, A (.readToString (buildInfoPath installRoot)) (.ok content) ∧
    formats.parseBuildInfo content = .ok rows ∧ row ∈ rows ∧ row.isActive = true ∧
    row.product = some product ∧ row.buildKey = some buildKey ∧
    ((row.keyring = none ∧ keys = []) ∨
      ∃ keyringKey path file, row.keyring = some keyringKey ∧
        dataConfigPath installRoot keyringKey = .ok path ∧ A (.openFile path) (.ok file) ∧
        formats.parseKeyring file = .ok (.ok keys))

theorem yields_readKeyringKeys {product buildKey : String} {keys : List TactKey}
    (h : (readKeyringKeys formats installRoot product buildKey).run.Yields A (.ok keys)) :
    KeyringOf formats installRoot A product buildKey keys := by
  simp only [readKeyringKeys, yields_ok_bind_iff, yields_raise, yields_settled, yields_query,
    mapError_eq_ok_iff] at h
  obtain ⟨content, hcontent, rows, hrows, row, hrow, h⟩ := h
  split at hrow
  · next row' hfind =>
    cases hrow
    have hmatch := List.find?_some hfind
    simp only [Bool.and_eq_true, beq_iff_eq] at hmatch
    obtain ⟨⟨hactive, hproduct⟩, hkey⟩ := hmatch
    refine ⟨content, rows, row, hcontent, hrows, List.mem_of_find?_eq_some hfind, hactive, hproduct,
      hkey, ?_⟩
    cases hkeyring : row.keyring with
    | none =>
      rw [hkeyring] at h
      exact Or.inl ⟨rfl, (yields_pure.mp h).symm⟩
    | some keyringKey =>
      rw [hkeyring] at h
      simp only [yields_ok_bind_iff, yields_raise, yields_settled, yields_query,
        mapError_eq_ok_iff] at h
      obtain ⟨path, hpath, file, hfile, keyring, hparse, hkeys⟩ := h
      rw [hkeys] at hparse
      exact Or.inr ⟨keyringKey, path, file, rfl, hpath, hfile, hparse⟩
  · cases hrow

/-- **The keys of a build**: those of a new store, the external list, and the keyring
keys of that build. -/
theorem yields_loadTactKeys {paths : ResolverPaths} {product buildKey : String}
    {keys : TactKeyStore}
    (h : (loadTactKeys formats paths installRoot product buildKey).run.Yields A (.ok keys)) :
    ∃ external keyringKeys, keys = formats.newStore ++ external ++ keyringKeys ∧
      ExternalKeysOf formats paths A external ∧
      KeyringOf formats installRoot A product buildKey keyringKeys := by
  simp only [loadTactKeys, yields_ok_bind_iff, yields_pure, yields_inquire] at h
  obtain ⟨present, hpresent, content, hcontent, keyringKeys, hkeyring, rfl⟩ := h
  exact ⟨_, keyringKeys, rfl, ⟨present, content, hpresent, hcontent, rfl⟩,
    yields_readKeyringKeys hkeyring⟩

/-! ### A sample installation -/

/-- The text of `.build.info` whose only row is the active build of `wow`. -/
def buildInfoText (buildKey : String) : String :=
  s!"Active!DEC:1|Build Key!HEX:16|Product!STRING:0\n1|{buildKey}|wow\n"

/-- A build key. -/
def firstKey : String := "0123456789abcdef0123456789abcdef"

/-- The build key after a patch. -/
def secondKey : String := "3bd89ce2721f7c75e7525dc83741076f"

/-- The active row of a text. -/
def activeRow (buildKey : String) : BuildRow := ⟨true, some "wow", some buildKey, none⟩

/-- The build configuration of both builds, which name the sample metadata. -/
def sampleConfig : BuildConfig where
  root := some "f09b2f56d6a8f100e53bfb26b5260dc4"
  encoding := some ⟨"f81fde6069c1e5ba5c7ef2dbde25bc9e", some "44444444444444444444444444444444"⟩

/-- Its text. -/
def sampleConfigBytes : List UInt8 :=
  osString ("root = f09b2f56d6a8f100e53bfb26b5260dc4\n" ++
    "encoding = f81fde6069c1e5ba5c7ef2dbde25bc9e 44444444444444444444444444444444\n")

/-- The content key of the sample encoding file. -/
def sampleEncodingKey : Key :=
  ⟨[0xf8, 0x1f, 0xde, 0x60, 0x69, 0xc1, 0xe5, 0xba, 0x5c, 0x7e, 0xf2, 0xdb, 0xde, 0x25, 0xbc, 0x9e],
    rfl⟩

/-- Parsers that read the sample files. -/
def sampleInstallFormats : InstallFormats where
  parseBuildInfo text :=
    if text = buildInfoText firstKey then .ok [activeRow firstKey]
    else if text = buildInfoText secondKey then .ok [activeRow secondKey]
    else .error "missing header"
  parseBuildConfig bytes :=
    if bytes = sampleConfigBytes then .ok sampleConfig else .error "invalid config"
  parseKeyring _ := .error "invalid config"
  newStore := []
  loadFromTxt _ := []
  decodeBlte _ _ := .error "bad magic"
  decodeBlteZeroing _ _ := .error "bad magic"
  contentKey data :=
    if data = sampleEncodingBytes then sampleEncodingKey
    else if data = sampleRootBytes then sampleRootKey
    else Key.constant 0
  metadata := sampleFormats

/-- The installation in `/wow` while `.build.info` has this text. -/
def sampleInstall (info : String) : (q : InstallQuery) → q.Answer
  | .wowProduct => none
  | .readBuildInfo path _ =>
    if path = buildInfoPath (.ofStr "/wow") then .ok info else .error notFound
  | .readToString path =>
    if path = buildInfoPath (.ofStr "/wow") then .ok info else .error notFound
  | .openFile _ => .ok sampleConfigBytes
  | .pathExists path => path = (PathBuf.ofStr "/wow").join (.ofStr "Data")
  | .isFile _ => false
  | .openInstallation _ => .ok ()
  | .initializeInstall _ => .ok ()
  | .readFile _ encodingKey =>
    if encodingKey = Key.constant 0x44 then .ok sampleEncodingBytes
    else if encodingKey = Key.constant 0x22 then .ok sampleRootBytes
    else if encodingKey = Key.constant 0x33 then .ok (osString "asset")
    else .error "not found"
  | .readPath _ _ => .error "not found"
  | .loadIndices _ => .ok ()
  | .openArchives _ => .ok ()
  | .lookup _ _ => none
  | .readRaw _ _ => .error "not found"
  | .ensureNamespace _ => .ok ()
  | .openNamespace _ => .ok sampleContents
  | .ensureInitialized _ => .ok ()
  | .ensureLocalAccess _ => .ok ()
  | .lookupFdid _ => none
  | .writeToPath _ _ => .ok ()

/-- The build of the first key. -/
def firstBuild : AssetIdentity := .wow firstKey (by decide +kernel) (by decide)

/-- A resolver of the first build that shares its assets in `/d`. -/
def samplePaths (identity : Option AssetIdentity) : ResolverPaths where
  sourceDataRoot := .ofStr "/d"
  sharedDataRoot := .ofStr "/d"
  cacheRoot := .ofStr "/c"
  identity := identity
  runtimeMode := .localCasc

end AssetResolver
