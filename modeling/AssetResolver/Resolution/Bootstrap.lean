import AssetResolver.Resolution.Sequential

/-!
# Fetching the metadata of a build

`ensure_resolution_cache`: the builder that is handed to the publisher, from the
build configuration to the table.

The chain has a link for each file. The configuration names the content key of the
encoding file and of the root file; what the archives return for them is hashed
and compared before it is used; the root file is fetched by an encoding key the
**checked** encoding file lists for it; and the table is built from the two files
that were just written. The archives may answer every read differently, so the
theorem about the chain, `AssetResolver.authenticated_of_rebuilt`, is about any
answers: a success has passed every link.

The rest is the sequential reading of the publisher
(`AssetResolver.publishResolutionNamespace`): the directory appears by the rename
after the last link, or not at all (`AssetResolver.ensureResolutionCache_spec`).
-/

namespace AssetResolver

open Program LastWins Publish

/-! ### Reading the archives -/

/-- `parse_local_blte`, less the parser: a local archive entry may carry a header of
30 bytes before the container. -/
def localBlte (rawBlte : List UInt8) : List UInt8 :=
  if 34 ≤ rawBlte.length ∧ (rawBlte.drop 30).take 4 = osString "BLTE" then rawBlte.drop 30
  else rawBlte

/-- The magic of a container, read where it stands behind a local header. -/
def MagicBehindHeader (rawBlte : List UInt8) : Prop :=
  34 ≤ rawBlte.length ∧ (rawBlte.drop 30).take 4 = osString "BLTE"

theorem localBlte_of_magicBehindHeader {rawBlte : List UInt8} (h : MagicBehindHeader rawBlte) :
    localBlte rawBlte = rawBlte.drop 30 :=
  if_pos h

theorem localBlte_of_not_magicBehindHeader {rawBlte : List UInt8}
    (h : ¬MagicBehindHeader rawBlte) : localBlte rawBlte = rawBlte :=
  if_neg h

/-- What stands behind a local header is found, whatever the header holds. -/
theorem localBlte_append {header container : List UInt8} (hheader : header.length = 30)
    (hmagic : container.take 4 = osString "BLTE") :
    localBlte (header ++ container) = container := by
  have hbehind : (header ++ container).drop 30 = container := by
    rw [← hheader, List.drop_left]
  have hfour : 4 ≤ container.length := by
    have htaken : (container.take 4).length = 4 := by rw [hmagic]; rfl
    rw [List.length_take] at htaken
    omega
  have hlocal : MagicBehindHeader (header ++ container) := by
    refine ⟨?_, by rw [hbehind, hmagic]⟩
    rw [List.length_append]
    omega
  rw [localBlte_of_magicBehindHeader hlocal, hbehind]

/-- **A container is handed on unchanged, with the local header and without it, exactly
when it has no magic of its own at the place where the header would end.** -/
theorem localBlte_transparent_iff {header container : List UInt8} (hheader : header.length = 30)
    (hmagic : container.take 4 = osString "BLTE") :
    (localBlte container = container ∧ localBlte (header ++ container) = container) ↔
      ¬MagicBehindHeader container := by
  rw [and_iff_left (localBlte_append hheader hmagic)]
  constructor
  · intro hsame hbehind
    -- what is cut off has a length
    have hlength := congrArg List.length hsame
    rw [localBlte_of_magicBehindHeader hbehind, List.length_drop] at hlength
    have := hbehind.1
    omega
  · exact localBlte_of_not_magicBehindHeader

/-- A container of one plain chunk whose contents have the magic at their twenty-second
byte, as `Install::store` would store them. -/
def misreadContainer : List UInt8 :=
  osString "BLTE" ++ [0, 0, 0, 0] ++ osString "N" ++ List.replicate 21 0 ++ osString "BLTE"

/-- The parser is handed the last four bytes of it. -/
theorem localBlte_misread :
    localBlte misreadContainer = osString "BLTE" ∧
    ¬∀ header container : List UInt8, header.length = 30 → container.take 4 = osString "BLTE" →
      localBlte container = container ∧ localBlte (header ++ container) = container := by
  have hcut : localBlte misreadContainer = osString "BLTE" := by decide
  refine ⟨hcut, fun hlaw => ?_⟩
  have hsame := (hlaw (List.replicate 30 0) misreadContainer (by decide) (by decide)).1
  exact absurd (hsame.symm.trans hcut) (by decide)

/-- A container like it, but for one letter. -/
def plainContainer : List UInt8 :=
  osString "BLTE" ++ [0, 0, 0, 0] ++ osString "N" ++ List.replicate 21 0 ++ osString "BLTF" ++ [7]

/-- It is handed on unchanged. -/
theorem localBlte_transparent_sample :
    localBlte plainContainer = plainContainer ∧
      localBlte (List.replicate 30 7 ++ plainContainer) = plainContainer :=
  (localBlte_transparent_iff (by decide) (by decide)).mpr fun h => absurd h.2 (by decide)

/-- `read_refresh_file_by_local_archive`. -/
def readRefreshFileByLocalArchive (formats : InstallFormats) (installPath : Option PathBuf)
    (keys : TactKeyStore) (encodingKey : Key) : InstallProgram (List UInt8) := do
  let root ← settled
    (installPath.elim (.error "WoW install not found for local archive access") .ok)
  let dataDir := (root.join (.ofStr "Data")).join (.ofStr "data")
  raise (question (.loadIndices dataDir)) fun e => s!"load CASC indices: {e}"
  raise (question (.openArchives dataDir)) fun e => s!"open CASC archives: {e}"
  let found ← answer (.lookup dataDir encodingKey)
  let entry ← settled
    (found.elim (.error s!"missing archive location for encoding key {encodingKey.display}") .ok)
  let rawBlte ← raise (question (.readRaw dataDir entry)) fun e =>
    s!"read raw BLTE archive entry: {e}"
  let decoded ← settled ((formats.decodeBlte keys (localBlte rawBlte)).mapError fun e =>
    s!"parse BLTE container: {e}")
  settled (decoded.mapError fun e => s!"decrypt/decompress BLTE container: {e}")

/-- `read_refresh_file_by_encoding_key`. -/
def readRefreshFileByEncodingKey (formats : InstallFormats) (installPath : Option PathBuf)
    (dataRoot : PathBuf) (keys : TactKeyStore) (encodingKey : Key) :
    InstallProgram (List UInt8) := do
  let primary ← answer (.readFile dataRoot encodingKey)
  match primary with
  | .ok data => return data
  | .error primaryErr =>
    raise (readRefreshFileByLocalArchive formats installPath keys encodingKey).run
      fun fallbackErr =>
        s!"{primaryErr}; key-aware local archive fallback also failed: {fallbackErr}"

/-! ### The chain of keys -/

/-- `validate_metadata_content`. -/
def validateMetadataContent (formats : InstallFormats) (name : String) (data : List UInt8)
    (expected : Key) : Except String Unit :=
  if formats.contentKey data = expected then .ok ()
  else
    .error (s!"{name} metadata content key mismatch: expected {expected.display}, " ++
      s!"got {(formats.contentKey data).display}; install may be mid-patch")

/-- `resolve_content_key_from_encoding`. -/
def resolveContentKeyFromEncoding (formats : InstallFormats) (encodingData : List UInt8)
    (contentKey : Key) : Except String Key := do
  let encoding ← (formats.metadata.parseEncoding encodingData).mapError fun e =>
    s!"parse encoding.bin: {e}"
  match (encoding.ckeyPages.flatMap CKeyPage.entries).findSome? fun entry =>
      if entry.contentKey = contentKey then entry.encodingKeys.head? else none with
  | some encodingKey => .ok encodingKey
  | none => .error s!"encoding.bin does not map root content key {contentKey.display}"

/-- An encoding file lists an encoding key for a content key. -/
def EncodingFile.Lists (encoding : EncodingFile) (contentKey encodingKey : Key) : Prop :=
  ∃ page ∈ encoding.ckeyPages, ∃ entry ∈ page.entries,
    entry.contentKey = contentKey ∧ encodingKey ∈ entry.encodingKeys

theorem resolveContentKeyFromEncoding_eq_ok {formats : InstallFormats} {encodingData : List UInt8}
    {contentKey encodingKey : Key}
    (h : resolveContentKeyFromEncoding formats encodingData contentKey = .ok encodingKey) :
    ∃ encoding, formats.metadata.parseEncoding encodingData = .ok encoding ∧
      encoding.Lists contentKey encodingKey := by
  obtain ⟨encoding, hparse, h⟩ := except_bind_eq_ok_iff.mp h
  refine ⟨encoding, mapError_eq_ok_iff.mp hparse, ?_⟩
  split at h
  · next key hfind =>
    cases h
    obtain ⟨entry, hentry, hkey⟩ := List.exists_of_findSome?_eq_some hfind
    obtain ⟨page, hpage, hmem⟩ := List.mem_flatMap.mp hentry
    split_ifs at hkey with hck
    exact ⟨page, hpage, entry, hmem, hck, List.mem_of_mem_head? hkey⟩
  · cases h

/-! ### The two resolvers of content keys -/

/-- The search of the bootstrap stops at the first entry with an encoding key. -/
theorem findSome?_entries_eq_first (encoding : EncodingFile) (contentKey : Key) :
    ((encoding.ckeyPages.flatMap CKeyPage.entries).findSome? fun entry =>
      if entry.contentKey = contentKey then entry.encodingKeys.head? else none) =
    first (listedKeys encoding) contentKey := by
  have hlisted : listedKeys encoding =
      (encoding.ckeyPages.flatMap CKeyPage.entries).filterMap fun entry =>
        entry.encodingKeys.head?.map fun encodingKey => (entry.contentKey, encodingKey) := by
    rw [listedKeys, List.filterMap_flatMap]
  rw [hlisted]
  induction encoding.ckeyPages.flatMap CKeyPage.entries with
  | nil => rfl
  | cons entry entries ih =>
    rw [List.findSome?_cons, ih]
    rcases hhead : entry.encodingKeys.head? with _ | encodingKey
    · -- an entry without encoding keys is passed over by both
      simp [hhead]
    · by_cases hck : entry.contentKey = contentKey
      · simp [first, hhead, hck]
      · simp [first, hhead, hck]

theorem resolveContentKeyFromEncoding_eq {formats : InstallFormats} {encodingData : List UInt8}
    {encoding : EncodingFile} (hparse : formats.metadata.parseEncoding encodingData = .ok encoding)
    (contentKey : Key) :
    resolveContentKeyFromEncoding formats encodingData contentKey =
      (first (listedKeys encoding) contentKey).elim
        (.error s!"encoding.bin does not map root content key {contentKey.display}") .ok := by
  rw [resolveContentKeyFromEncoding, hparse, ← findSome?_entries_eq_first]
  show (match (encoding.ckeyPages.flatMap CKeyPage.entries).findSome? fun entry =>
      if entry.contentKey = contentKey then entry.encodingKeys.head? else none with
    | some encodingKey => Except.ok encodingKey
    | none => .error s!"encoding.bin does not map root content key {contentKey.display}") = _
  split
  · next hfound => rw [hfound]; rfl
  · next hnone => rw [hnone]; rfl

/-- **The two resolvers agree on a content key exactly when its first and its last
entry do**: the bootstrap stops at the first entry that has an encoding key, the
table keeps the last one. -/
theorem resolvers_agree_iff {formats : InstallFormats} {encodingData : List UInt8}
    {encoding : EncodingFile} (hparse : formats.metadata.parseEncoding encodingData = .ok encoding)
    (contentKey : Key) :
    ((∀ encodingKey, resolveContentKeyFromEncoding formats encodingData contentKey =
        .ok encodingKey ↔
          (collectContentToEncodingKeys encoding).lookup contentKey = some encodingKey) ∧
      ((∃ e, resolveContentKeyFromEncoding formats encodingData contentKey = .error e) ↔
        (collectContentToEncodingKeys encoding).lookup contentKey = none)) ↔
    ∀ ek ek', IsFirst (listedKeys encoding) contentKey ek →
      IsLast (listedKeys encoding) contentKey ek' → ek = ek' := by
  have hok : ∀ encodingKey, resolveContentKeyFromEncoding formats encodingData contentKey =
      .ok encodingKey ↔ first (listedKeys encoding) contentKey = some encodingKey := by
    intro encodingKey
    rw [resolveContentKeyFromEncoding_eq hparse]
    rcases first (listedKeys encoding) contentKey with _ | found <;> simp
  have herror : (∃ e, resolveContentKeyFromEncoding formats encodingData contentKey = .error e) ↔
      (collectContentToEncodingKeys encoding).lookup contentKey = none := by
    rw [resolveContentKeyFromEncoding_eq hparse, collectContentToEncodingKeys_eq,
      lookup_collect_eq_none, ← first_eq_none_iff]
    rcases first (listedKeys encoding) contentKey with _ | found <;> simp
  rw [and_iff_left herror, ← first_eq_lookup_iff, ← collectContentToEncodingKeys_eq]
  exact forall_congr' fun encodingKey => iff_congr (hok encodingKey) Iff.rfl

/-- An encoding file with two entries for the content of the root file. -/
def repeatedEncoding : EncodingFile :=
  ⟨[⟨[⟨sampleRootKey, [Key.constant 0x11]⟩, ⟨sampleRootKey, [Key.constant 0x22]⟩]⟩]⟩

/-- Formats whose encoding file has the repeated entry. -/
def repeatedFormats : InstallFormats :=
  { sampleInstallFormats with
    metadata := { sampleFormats with parseEncoding := fun _ => .ok repeatedEncoding } }

/-- The bootstrap takes the first entry, the table the second. -/
theorem resolvers_disagree :
    repeatedFormats.metadata.parseEncoding sampleEncodingBytes = .ok repeatedEncoding ∧
    resolveContentKeyFromEncoding repeatedFormats sampleEncodingBytes sampleRootKey =
      .ok (Key.constant 0x11) ∧
    (collectContentToEncodingKeys repeatedEncoding).lookup sampleRootKey =
      some (Key.constant 0x22) ∧
    ¬∀ formats encodingData encoding contentKey,
      formats.metadata.parseEncoding encodingData = .ok encoding →
      (∀ encodingKey, resolveContentKeyFromEncoding formats encodingData contentKey =
          .ok encodingKey ↔
        (collectContentToEncodingKeys encoding).lookup contentKey = some encodingKey) ∧
      ((∃ e, resolveContentKeyFromEncoding formats encodingData contentKey = .error e) ↔
        (collectContentToEncodingKeys encoding).lookup contentKey = none) := by
  have hfound : resolveContentKeyFromEncoding repeatedFormats sampleEncodingBytes sampleRootKey =
      .ok (Key.constant 0x11) := rfl
  have hkept : (collectContentToEncodingKeys repeatedEncoding).lookup sampleRootKey =
      some (Key.constant 0x22) := by decide
  refine ⟨rfl, hfound, hkept, fun hagree => ?_⟩
  have hsame := ((hagree repeatedFormats sampleEncodingBytes repeatedEncoding sampleRootKey rfl).1
    (Key.constant 0x11)).mp hfound
  exact absurd (hkept.symm.trans hsame) (by decide)

/-- The sample encoding file has no repeated entry. -/
theorem resolvers_agree_sample :
    (∀ encodingKey, resolveContentKeyFromEncoding sampleInstallFormats sampleEncodingBytes
        sampleRootKey = .ok encodingKey ↔
          (collectContentToEncodingKeys sampleEncoding).lookup sampleRootKey = some encodingKey) ∧
      ((∃ e, resolveContentKeyFromEncoding sampleInstallFormats sampleEncodingBytes sampleRootKey =
          .error e) ↔
        (collectContentToEncodingKeys sampleEncoding).lookup sampleRootKey = none) := by
  refine (resolvers_agree_iff (by simp [sampleInstallFormats, sampleFormats]) sampleRootKey).mpr ?_
  intro ek ek' hfirst hlast
  have hfound : first (listedKeys sampleEncoding) sampleRootKey = some ek :=
    first_eq_some_iff.mpr hfirst
  have hkept := lookup_collect.mpr hlast
  have hsame : first (listedKeys sampleEncoding) sampleRootKey =
      (collect (listedKeys sampleEncoding)).lookup sampleRootKey := by decide
  exact Option.some.inj (hfound.symm.trans (hsame.trans hkept))

/-- The file operations of a bootstrap that may fail, and the times it gives to the
files it writes. -/
structure BootstrapIo where
  /-- Creating the staging directory once more. -/
  createDir : Option String
  /-- Writing a metadata file. -/
  write : MetadataFile → Option String
  /-- The time of a written file. -/
  mtime : MetadataFile → ℤ
  /-- The build of the table. -/
  build : Faults
  /-- The order in which it visits the first map. -/
  order : IterationOrder (Sigma fun _ : UInt32 => Key)

/-- An operation on a path that may fail. -/
def orFail (fault : Option String) (text : String) : Except String Unit :=
  fault.elim (.ok ()) fun e => .error s!"{text}: {e}"

/-- `rebuild_resolution_cache`, up to the contents of the staging directory. -/
def rebuildResolutionCache (formats : InstallFormats) (installPath : Option PathBuf)
    (io : BootstrapIo) (dataRoot staging : PathBuf) (keys : TactKeyStore) (config : BuildConfig)
    (dir : NamespaceDir) : InstallProgram NamespaceDir := do
  settled (orFail io.createDir s!"create CASC cache dir {staging.display}")
  let encodingInfo ← settled
    (config.encoding.elim (.error "active WoW build config has no encoding entry") .ok)
  let encodingKey ← settled (encodingInfo.encodingKey.elim
    (.error "active WoW build config encoding entry has no encoding key") parseHex16)
  let encodingData ←
    raise (readRefreshFileByEncodingKey formats installPath dataRoot keys encodingKey).run fun e =>
      s!"read encoding file {encodingKey.display}: {e}"
  -- nothing is written before its content key is checked
  let encodingContentKey ← settled (parseHex16 encodingInfo.contentKey)
  settled (validateMetadataContent formats "encoding" encodingData encodingContentKey)
  settled (orFail (io.write .encoding)
    s!"write {(namespacePath staging (.metadata .encoding)).display}")
  let rootContentKey ← settled
    (config.root.elim (.error "active WoW build config has no root entry") parseHex16)
  let rootEncodingKey ←
    settled (resolveContentKeyFromEncoding formats encodingData rootContentKey)
  let rootData ←
    raise (readRefreshFileByEncodingKey formats installPath dataRoot keys rootEncodingKey).run
      fun e => s!"read root file {rootEncodingKey.display}: {e}"
  settled (validateMetadataContent formats "root" rootData rootContentKey)
  settled (orFail (io.write .root) s!"write {(namespacePath staging (.metadata .root)).display}")
  settled (buildResolutionCache formats.metadata io.order io.build staging
    { dir with
      encoding := some ⟨encodingData, io.mtime .encoding⟩
      root := some ⟨rootData, io.mtime .root⟩ })

/-- **Every link of the chain holds**: both files have the content keys of the
configuration, the root file was fetched by a key the encoding file lists for it,
and the table is the join of the two. -/
structure Authenticated (formats : InstallFormats) (installPath : Option PathBuf)
    (A : (q : InstallQuery) → q.Answer → Prop) (io : BootstrapIo) (dataRoot : PathBuf)
    (keys : TactKeyStore) (config : BuildConfig) (dir : NamespaceDir) : Prop where
  encoding : ∃ info key fetchedBy encodingKey file, config.encoding = some info ∧
    parseHex16 info.contentKey = .ok key ∧ info.encodingKey = some fetchedBy ∧
    parseHex16 fetchedBy = .ok encodingKey ∧ dir.encoding = some file ∧
    (readRefreshFileByEncodingKey formats installPath dataRoot keys encodingKey).run.Yields A
      (.ok file.data) ∧
    formats.contentKey file.data = key
  root : ∃ text key encodingKey file, config.root = some text ∧ parseHex16 text = .ok key ∧
    dir.root = some file ∧
    (∃ encodingFile encoding, dir.encoding = some encodingFile ∧
      formats.metadata.parseEncoding encodingFile.data = .ok encoding ∧
      encoding.Lists key encodingKey) ∧
    (readRefreshFileByEncodingKey formats installPath dataRoot keys encodingKey).run.Yields A
      (.ok file.data) ∧
    formats.contentKey file.data = key
  table : ∃ root encoding rootMtime encMtime, ParsesTo formats.metadata dir root encoding ∧
    dir.contents = builtContents (resolutionRows io.order root encoding) rootMtime encMtime

variable {A : (q : InstallQuery) → q.Answer → Prop} {formats : InstallFormats}
  {installPath : Option PathBuf} {io : BootstrapIo} {dataRoot staging : PathBuf}
  {keys : TactKeyStore} {config : BuildConfig}

theorem validateMetadataContent_eq_ok {name : String} {data : List UInt8} {expected : Key}
    {u : Unit} (h : validateMetadataContent formats name data expected = .ok u) :
    formats.contentKey data = expected := by
  unfold validateMetadataContent at h
  split_ifs at h with heq
  exact heq

/-- **A bootstrap that succeeds has passed every link**, whatever the archives
answered. -/
theorem authenticated_of_rebuilt {dir dir' : NamespaceDir}
    (h : (rebuildResolutionCache formats installPath io dataRoot staging keys config dir).run.Yields
      A (.ok dir')) :
    Authenticated formats installPath A io dataRoot keys config dir' := by
  simp only [rebuildResolutionCache, yields_ok_bind_iff, yields_raise, yields_settled] at h
  obtain ⟨-, -, info, hinfo, encodingKey, hencodingKey, encodingData, hencodingData,
    encodingContentKey, hencodingContentKey, _, hencodingCheck, -, -, rootContentKey,
    hrootContentKey, rootEncodingKey, hrootEncodingKey, rootData, hrootData, _, hrootCheck, -, -,
    hbuild⟩ := h
  obtain ⟨root, encoding, rootMtime, encMtime, hparse, rfl⟩ := buildResolutionCache_eq_ok hbuild
  have hencodingInfo : config.encoding = some info := by
    cases hc : config.encoding with
    | none => rw [hc] at hinfo; cases hinfo
    | some info' => rw [hc] at hinfo; rw [Except.ok.inj hinfo]
  refine ⟨?_, ?_, ?_⟩
  · cases hfetched : info.encodingKey with
    | none => rw [hfetched] at hencodingKey; cases hencodingKey
    | some fetchedBy =>
      rw [hfetched] at hencodingKey
      exact ⟨info, encodingContentKey, fetchedBy, encodingKey, _, hencodingInfo,
        hencodingContentKey, hfetched, hencodingKey, rfl, hencodingData,
        validateMetadataContent_eq_ok hencodingCheck⟩
  · cases hc : config.root with
    | none => rw [hc] at hrootContentKey; cases hrootContentKey
    | some text =>
      rw [hc] at hrootContentKey
      obtain ⟨parsed, hparsed, hlists⟩ := resolveContentKeyFromEncoding_eq_ok hrootEncodingKey
      exact ⟨text, rootContentKey, rootEncodingKey, _, rfl, hrootContentKey, rfl,
        ⟨_, parsed, rfl, hparsed, hlists⟩, hrootData, validateMetadataContent_eq_ok hrootCheck⟩
  · exact ⟨root, encoding, rootMtime, encMtime, ⟨hparse.root, hparse.encoding⟩, by
      simp [NamespaceDir.contents, NamespaceDir.hasSidecar]⟩

/-! ### Publishing it -/

/-- `ensure_resolution_cache`. -/
def ensureResolutionCache (formats : InstallFormats) (paths : ResolverPaths)
    (installPath : Option PathBuf) (io : BootstrapIo) (publishIo : PublishIo) (site : Site)
    (n : StagingName) (installRoot dataRoot : PathBuf) (active : ActiveBuild)
    (target : Option NamespaceDir) :
    Program InstallQuery InstallQuery.Answer (Except String Unit × Option NamespaceDir) :=
  publishResolutionNamespace site n publishIo target do
    raise (question (.initializeInstall dataRoot)) fun e => s!"CASC init for cache bootstrap: {e}"
    let keys ← loadTactKeys formats paths installRoot active.product active.buildKey
    rebuildResolutionCache formats installPath io dataRoot (site.stagingPath n) keys active.config
      .empty

/-- **Only authenticated metadata is published**, whatever the archives answer and
whatever fails: an error leaves no directory, and a success has initialised the
installation, loaded the keys of the build, passed every link of the chain and
been judged fresh. -/
theorem ensureResolutionCache_spec {paths : ResolverPaths} {publishIo : PublishIo} {site : Site}
    {n : StagingName} {installRoot : PathBuf} {active : ActiveBuild} {result : Except String Unit}
    {target : Option NamespaceDir}
    (h : (ensureResolutionCache formats paths installPath io publishIo site n installRoot dataRoot
      active none).Yields A (result, target)) :
    (∀ e, result = .error e → target = none) ∧
    (result = .ok () → ∃ dir keys, target = some dir ∧ dir.Fresh ∧
      A (.initializeInstall dataRoot) (.ok ()) ∧
      (loadTactKeys formats paths installRoot active.product active.buildKey).run.Yields A
        (.ok keys) ∧
      Authenticated formats installPath A io dataRoot keys active.config dir) := by
  rcases publishResolutionNamespace_none h with ⟨e, rfl, rfl⟩ | ⟨staged, rfl, rfl, hfresh, hwritten⟩
  · exact ⟨fun _ _ => rfl, fun hok => by cases hok⟩
  · refine ⟨fun e he => (by cases he), fun _ => ?_⟩
    simp only [yields_ok_bind_iff, yields_raise, yields_query] at hwritten
    obtain ⟨_, hinitialize, keys, hkeys, hrebuilt⟩ := hwritten
    exact ⟨staged, keys, rfl, hfresh, hinitialize, hkeys, authenticated_of_rebuilt hrebuilt⟩

/-- Nothing fails, and every file is written at the time 10. -/
def calmBootstrap : BootstrapIo := ⟨none, fun _ => none, fun _ => 10, fun _ => none, .standing _⟩

/-- Nothing fails. -/
def calmPublish : PublishIo := ⟨none, none, none, none, none⟩

/-- What the sample installation answers as long as nobody patches it. -/
def sampleAnswers : (q : InstallQuery) → q.Answer → Prop :=
  fun q answer => sampleInstall (buildInfoText firstKey) q = answer

theorem yields_loadTactKeys_sample :
    (loadTactKeys sampleInstallFormats (samplePaths none) (.ofStr "/wow") "wow" firstKey).run.Yields
      sampleAnswers (.ok []) :=
  yields_run.mpr rfl

theorem yields_rebuildResolutionCache_sample (staging : PathBuf) :
    (rebuildResolutionCache sampleInstallFormats (some (.ofStr "/wow")) calmBootstrap
      (.ofStr "/wow/Data") staging [] sampleConfig .empty).run.Yields sampleAnswers
        (.ok (sampleDir (some ⟨sampleContents, sampleContents⟩))) := by
  have hread : ∀ key data, sampleInstall (buildInfoText firstKey)
      (.readFile (.ofStr "/wow/Data") key) = .ok data →
      (readRefreshFileByEncodingKey sampleInstallFormats (some (.ofStr "/wow")) (.ofStr "/wow/Data")
        [] key).run.Yields sampleAnswers (.ok data) := fun key data hdata => by
    rw [readRefreshFileByEncodingKey, yields_ok_bind_iff]
    exact ⟨.ok data, yields_inquire.mpr hdata, rfl⟩
  have hencoding : sampleInstallFormats.contentKey sampleEncodingBytes = sampleEncodingKey := by
    simp [sampleInstallFormats]
  have hroot : sampleInstallFormats.contentKey sampleRootBytes = sampleRootKey := by decide
  have hresolve : resolveContentKeyFromEncoding sampleInstallFormats sampleEncodingBytes
      sampleRootKey = .ok (Key.constant 0x22) := by
    have hparse : sampleInstallFormats.metadata.parseEncoding sampleEncodingBytes =
        .ok sampleEncoding := by simp [sampleInstallFormats, sampleFormats]
    rw [resolveContentKeyFromEncoding, hparse]
    rfl
  simp only [rebuildResolutionCache, yields_ok_bind_iff, yields_raise, yields_settled]
  exact ⟨(), rfl, _, rfl, Key.constant 0x44, rfl, sampleEncodingBytes, hread _ _ rfl,
    sampleEncodingKey, rfl, (), by rw [validateMetadataContent, hencoding, if_pos rfl], (), rfl,
    sampleRootKey, rfl, Key.constant 0x22, hresolve, sampleRootBytes, hread _ _ rfl, (),
    by rw [validateMetadataContent, hroot, if_pos rfl], (), rfl,
    buildResolutionCache_sampleDir staging⟩

/-- The metadata of the sample installation is published. -/
theorem ensureResolutionCache_sample :
    ∃ dir keys, some (sampleDir (some ⟨sampleContents, sampleContents⟩)) = some dir ∧ dir.Fresh ∧
      sampleAnswers (.initializeInstall (.ofStr "/wow/Data")) (.ok ()) ∧
      (loadTactKeys sampleInstallFormats (samplePaths none) (.ofStr "/wow") "wow"
        firstKey).run.Yields sampleAnswers (.ok keys) ∧
      Authenticated sampleInstallFormats (some (.ofStr "/wow")) sampleAnswers calmBootstrap
        (.ofStr "/wow/Data") keys sampleConfig dir := by
  have hrun : (ensureResolutionCache sampleInstallFormats (samplePaths none) (some (.ofStr "/wow"))
      calmBootstrap calmPublish ⟨.ofStr "/c", dataName⟩ ⟨1, 1⟩ (.ofStr "/wow") (.ofStr "/wow/Data")
      ⟨"wow", firstKey, sampleConfig⟩ none).Yields sampleAnswers
        (.ok (), some (sampleDir (some ⟨sampleContents, sampleContents⟩))) := by
    refine yields_bind_iff.mpr ⟨.ok (sampleDir (some ⟨sampleContents, sampleContents⟩)), ?_, rfl⟩
    simp only [yields_ok_bind_iff, yields_raise]
    exact ⟨(), yields_query.mpr rfl, [], yields_loadTactKeys_sample,
      yields_rebuildResolutionCache_sample _⟩
  exact (ensureResolutionCache_spec hrun).2 rfl

end AssetResolver
