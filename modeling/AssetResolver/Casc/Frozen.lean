import AssetResolver.Casc.Blte

/-!
# Readers of containers that may lack keys

The frozen archive reader of `casc_resolver.rs`, and the resolver's programs with the
decoder of `AssetResolver.Casc.Blte` in the place that `AssetResolver.InstallFormats` leaves
open. Both use the decoder that fills with zeros and refuse what it reports. What they
accept is therefore **the strict decoding of an entry that was read**, and an entry with
a chunk whose key is unknown leaves the reader an error and the extraction nothing to
write (`AssetResolver.zeros_never_accepted`).
-/

namespace AssetResolver

open Program Blte

/-! ### Decoding an archive entry -/

/-- `parse_local_blte`. -/
def parseLocalBlte (codecs : Codecs) (raw : List UInt8) : Except String BlteFile :=
  (parse (localBlte raw)).mapError fun e => s!"parse BLTE container: {codecs.showParseError e}"

/-- The decoding in which no key may be missing: `decompress_with_keys`. -/
def strictDecode (codecs : Codecs) (keys : TactKeyStore) (raw : List UInt8) :
    Except String (List UInt8) := do
  let file ← parseLocalBlte codecs raw
  (decompressWithKeys codecs keys file).mapError BlteError.display

/-- An archive entry has a chunk whose key is not in the store. -/
def HasUnknownKey (codecs : Codecs) (keys : TactKeyStore) (raw : List UInt8) : Prop :=
  ∃ file, parse (localBlte raw) = .ok file ∧ ∃ chunk ∈ file.chunks, UnknownKey codecs keys chunk

/-- `FileContent::from`. -/
def FileContent.ofPartial (decoded : PartialDecode) : FileContent where
  data := decoded.data
  missingKeys := decoded.missingKeys.map MissingKeyChunk.describe

/-- The process, with the BLTE decoder of the repository. -/
def Process.decoding (process : Process) (codecs : Codecs) : Process :=
  { process with
    formats :=
      { process.formats with
        decodeBlte := fun keys data =>
          ((parse data).mapError codecs.showParseError).map fun file =>
            (decompressWithKeys codecs keys file).mapError BlteError.display
        decodeBlteZeroing := fun keys data =>
          ((parse data).mapError codecs.showParseError).map fun file =>
            ((decompressZeroingMissingKeys codecs keys file).map FileContent.ofPartial).mapError
              BlteError.display } }

/-! ### The frozen archive reader -/

/-- `FrozenArchiveReader`. -/
structure FrozenArchiveReader where
  /-- The directory of the indices and the archives. -/
  archiveDir : PathBuf
  /-- `keys`. -/
  keys : TactKeyStore

namespace FrozenArchiveReader

/-- `FrozenArchiveReader::open`. -/
def «open» (process : Process) (archiveDir : PathBuf) (keyFile : Option PathBuf) :
    InstallProgram FrozenArchiveReader := do
  settled (guardCascAccess process.mode process.mode "open frozen local CASC archives")
  raise (question (.loadIndices archiveDir)) fun e => s!"load frozen CASC indices: {e}"
  raise (question (.openArchives archiveDir)) fun e => s!"open frozen CASC archives: {e}"
  match keyFile with
  | none => return ⟨archiveDir, process.formats.newStore⟩
  | some path =>
    let text ← raise (question (.readToString path)) fun e => s!"TACT keys {path.display}: {e}"
    return ⟨archiveDir, process.formats.newStore ++ process.formats.loadFromTxt text⟩

/-- `FrozenArchiveReader::read_encoding_key`. -/
def readEncodingKey (process : Process) (codecs : Codecs) (reader : FrozenArchiveReader)
    (key : Key) : InstallProgram (List UInt8) := do
  settled (guardCascAccess process.mode process.mode "read frozen local CASC bytes")
  let found ← answer (.lookup reader.archiveDir key)
  let entry ← settled (found.elim
    (.error s!"Frozen source encoding key {key.display}: archive location absent") .ok)
  let raw ← raise (question (.readRaw reader.archiveDir entry)) fun e =>
    s!"Frozen source encoding key {key.display}: {e}"
  let file ← settled (parseLocalBlte codecs raw)
  let decoded ← settled
    ((decompressZeroingMissingKeys codecs reader.keys file).mapError fun e =>
      s!"Frozen source encoding key {key.display}: {e.display}")
  settled
    (if decoded.missingKeys = [] then .ok ()
    else
      .error
        (s!"Frozen source encoding key {key.display}: undecodable encrypted chunks: " ++
          ", ".intercalate (decoded.missingKeys.map MissingKeyChunk.describe)))
  return decoded.data

end FrozenArchiveReader

/-! ### What is accepted -/

section Accepted

variable {process : Process} {codecs : Codecs} {paths : ResolverPaths} {fdid : UInt32}
  {outPath : PathBuf} {A : (q : InstallQuery) → q.Answer → Prop}
  {B : (q : CascQuery) → q.Answer → Prop} {keys : TactKeyStore} {raw : List UInt8}

theorem map_eq_ok_iff {ε α β : Type} {x : Except ε α} {f : α → β} {b : β} :
    x.map f = .ok b ↔ ∃ a, x = .ok a ∧ f a = b := by
  cases x with
  | error e => simp [Except.map]
  | ok a => simp [Except.map]

theorem parseLocalBlte_eq_ok {file : BlteFile} :
    parseLocalBlte codecs raw = .ok file ↔ parse (localBlte raw) = .ok file :=
  mapError_eq_ok_iff

/-- **An entry that is decoded with nothing missing is decoded strictly.** -/
theorem strictDecode_of_zeroing {file : BlteFile} {out : PartialDecode}
    (hparse : parse (localBlte raw) = .ok file)
    (h : decompressZeroingMissingKeys codecs keys file = .ok out) (hnone : out.missingKeys = []) :
    strictDecode codecs keys raw = .ok out.data := by
  have hstrict := decompressWithKeys_of_zeroing hparse h hnone
  refine except_bind_eq_ok_iff.mpr ⟨file, parseLocalBlte_eq_ok.mpr hparse, ?_⟩
  exact mapError_eq_ok_iff.mpr hstrict

/-- An entry with an unknown key is not decoded without a report. -/
theorem missingKeys_of_hasUnknownKey {file : BlteFile} {out : PartialDecode}
    (hunknown : HasUnknownKey codecs keys raw) (hparse : parse (localBlte raw) = .ok file)
    (h : decompressZeroingMissingKeys codecs keys file = .ok out) : out.missingKeys ≠ [] := by
  obtain ⟨file', hparse', chunk, hmem, hchunk⟩ := hunknown
  obtain rfl := Except.ok.inj (hparse.symm.trans hparse')
  exact missingKeys_of_unknownKey hparse h hmem hchunk

/-- **What the frozen archive reader returns.** -/
theorem yields_readEncodingKey {reader : FrozenArchiveReader} {key : Key} {d : List UInt8}
    (h : (reader.readEncodingKey process codecs key).run.Yields A (.ok d)) :
    ∃ entry raw file out, A (.lookup reader.archiveDir key) (some entry) ∧
      A (.readRaw reader.archiveDir entry) (.ok raw) ∧ parse (localBlte raw) = .ok file ∧
      decompressZeroingMissingKeys codecs reader.keys file = .ok out ∧ out.missingKeys = [] ∧
      out.data = d := by
  simp only [FrozenArchiveReader.readEncodingKey, yields_ok_bind_iff, yields_raise, yields_settled,
    yields_query, yields_inquire, yields_pure, elim_error_ok_eq_ok, parseLocalBlte_eq_ok,
    mapError_eq_ok_iff] at h
  obtain ⟨-, -, found, hfound, entry, rfl, raw, hraw, file, hfile, out, hout, _, hcheck, hd⟩ := h
  refine ⟨entry, raw, file, out, hfound, hraw, hfile, hout, ?_, hd⟩
  split_ifs at hcheck with hnone
  exact hnone

/-- **What the key-aware path returns.** -/
theorem yields_readFileByEncodingKeyWithKeys {casc : CascState} {key : Key} {content : FileContent}
    (h : (readFileByEncodingKeyWithKeys (process.decoding codecs) casc key).run.Yields A
      (.ok content)) :
    ∃ dataDir entry raw file out, A (.readRaw dataDir entry) (.ok raw) ∧
      parse (localBlte raw) = .ok file ∧
      decompressZeroingMissingKeys codecs casc.keys file = .ok out ∧
      content = FileContent.ofPartial out := by
  simp only [readFileByEncodingKeyWithKeys, yields_ok_bind_iff, yields_raise, yields_settled,
    yields_query, yields_inquire, elim_error_ok_eq_ok, mapError_eq_ok_iff] at h
  obtain ⟨dataDir, -, found, -, entry, rfl, raw, hraw, decoded, hdecoded, rfl⟩ := h
  obtain ⟨file, hfile, hmap⟩ := map_eq_ok_iff.mp hdecoded
  obtain ⟨out, hout, rfl⟩ := map_eq_ok_iff.mp (mapError_eq_ok_iff.mp hmap)
  exact ⟨dataDir, entry, raw, file, out, hraw, mapError_eq_ok_iff.mp hfile, hout, rfl⟩

/-- The installation has returned the bytes. -/
def Installed (B : (q : CascQuery) → q.Answer → Prop) (data : List UInt8) : Prop :=
  (∃ dataRoot key, B (.outside (.readFile dataRoot key)) (.ok data)) ∨
    ∃ dataRoot path, B (.outside (.readPath dataRoot path)) (.ok data)

/-- **What an extraction reads**: what the installation returns, in which nothing is missing,
or what the key-aware path makes of an archive entry. -/
theorem yields_readFdidBytes {casc : CascState} {content : FileContent}
    (h : (readFdidBytes (process.decoding codecs) casc fdid).run.Yields
      (fun q answer => B (.outside q) answer) (.ok content)) :
    Installed B content.data ∨ ∃ dataDir entry raw file out,
      B (.outside (.readRaw dataDir entry)) (.ok raw) ∧ parse (localBlte raw) = .ok file ∧
      decompressZeroingMissingKeys codecs casc.keys file = .ok out ∧
      content = FileContent.ofPartial out := by
  unfold readFdidBytes at h
  split at h
  · simp only [readFileByEncodingKey, yields_raise, yields_ok_bind_iff, yields_inquire] at h
    obtain ⟨primary, hprimary, h⟩ := h
    cases primary with
    | ok data =>
      obtain rfl := yields_pure.mp h
      exact .inl (.inl ⟨_, _, hprimary⟩)
    | error e => exact .inr (yields_readFileByEncodingKeyWithKeys (yields_raise.mp h))
  · split at h
    · cases yields_settled.mp h
    · simp only [readFdidBytesByListfilePath, yields_ok_bind_iff, yields_raise, yields_settled,
        yields_query, yields_inquire, yields_pure, elim_error_ok_eq_ok] at h
      obtain ⟨found, -, path, -, data, hdata, rfl⟩ := h
      exact .inl (.inr ⟨_, _, hdata⟩)

/-- The check of a resolver with an identity lets through what has nothing missing. -/
theorem missingKeys_of_check {content : FileContent} {u : Unit} (hi : paths.identity.isSome)
    {e : String}
    (h : (if paths.identity.isSome && !content.missingKeys.isEmpty then Except.error e
      else .ok ()) = .ok u) : content.missingKeys = [] := by
  split_ifs at h with hmissing
  simpa [hi] using hmissing

/-- **What an extraction may write.** -/
theorem mayAsk_writeToPath (hi : paths.identity.isSome) {path : PathBuf} {data : List UInt8}
    (h : (extractFdidToPathWithPaths (process.decoding codecs) paths fdid outPath).run.MayAsk B
      (.outside (.writeToPath path data))) :
    path = outPath ∧ ∃ casc content,
      (getCasc (process.decoding codecs) paths).run.Yields B (.ok casc) ∧
      (readFdidBytes (process.decoding codecs) casc fdid).run.Yields
        (fun q answer => B (.outside q) answer) (.ok content) ∧
      content.missingKeys = [] ∧ content.data = data := by
  simp only [extractFdidToPathWithPaths, mayAsk_ok_bind_iff, mayAsk_raise, mayAsk_settled,
    mayAsk_query, mayAsk_ofInstall, mayAsk_pure, false_or, and_false, exists_false, or_false,
    yields_settled] at h
  rcases h with h | ⟨casc, hcasc, ⟨q, hq, rfl⟩ | ⟨-, -, ⟨q, hq, h⟩ | ⟨content, hcontent, u, hcheck,
    q, hq, rfl⟩⟩⟩
  · cases assetPath?_getCasc h
  · cases hq
  · cases hq
    cases assetPath?_readFdidBytes h
  · cases hq
    have hcontent' := yields_ofInstall.mp hcontent
    exact ⟨rfl, casc, content, hcasc, hcontent', missingKeys_of_check hi hcheck, rfl⟩

/-- What a successful extraction has read has nothing missing. -/
theorem yields_extraction (hi : paths.identity.isSome) {file : ExtractedFile}
    (h : (extractFdidToPathWithPaths (process.decoding codecs) paths fdid outPath).run.Yields B
      (.ok file)) :
    ∃ casc content, (getCasc (process.decoding codecs) paths).run.Yields B (.ok casc) ∧
      (readFdidBytes (process.decoding codecs) casc fdid).run.Yields
        (fun q answer => B (.outside q) answer) (.ok content) ∧ content.missingKeys = [] := by
  simp only [extractFdidToPathWithPaths, yields_ok_bind_iff, yields_raise, yields_settled,
    yields_query, yields_ofInstall, yields_pure] at h
  obtain ⟨casc, hcasc, -, -, content, hcontent, _, hcheck, -, -, -⟩ := h
  exact ⟨casc, content, hcasc, hcontent, missingKeys_of_check hi hcheck⟩

/-- **Zeros are never accepted as content.**

What the frozen archive reader returns is the strict decoding of an entry it has read; when
every entry it may read has a chunk whose key is unknown, it returns errors only. What a
resolver with an identity writes is what the installation has returned, or the strict decoding
of an entry that was read, with the keys of the state; when the installation returns nothing
and every entry that may be read has a chunk whose key is unknown, nothing is written and every
result is an error. -/
theorem zeros_never_accepted (process : Process) (codecs : Codecs) :
    (∀ (A : (q : InstallQuery) → q.Answer → Prop) (reader : FrozenArchiveReader) (key : Key),
      (∀ d, (reader.readEncodingKey process codecs key).run.Yields A (.ok d) →
        ∃ entry raw, A (.lookup reader.archiveDir key) (some entry) ∧
          A (.readRaw reader.archiveDir entry) (.ok raw) ∧
          strictDecode codecs reader.keys raw = .ok d) ∧
      ((∀ entry raw, A (.readRaw reader.archiveDir entry) (.ok raw) →
          HasUnknownKey codecs reader.keys raw) →
        ∀ r, (reader.readEncodingKey process codecs key).run.Yields A r → ∃ e, r = .error e)) ∧
    ∀ (B : (q : CascQuery) → q.Answer → Prop) (paths : ResolverPaths) (fdid : UInt32)
      (outPath : PathBuf), paths.identity.isSome →
      let extraction :=
        (extractFdidToPathWithPaths (process.decoding codecs) paths fdid outPath).run
      (∀ path data, extraction.MayAsk B (.outside (.writeToPath path data)) →
        path = outPath ∧ (Installed B data ∨ ∃ identity casc dataDir entry raw,
          B (.getOrInit paths identity) (.ok casc) ∧
          B (.outside (.readRaw dataDir entry)) (.ok raw) ∧
          strictDecode codecs casc.keys raw = .ok data)) ∧
      ((∀ data, ¬Installed B data) →
        (∀ identity casc dataDir entry raw, B (.getOrInit paths identity) (.ok casc) →
          B (.outside (.readRaw dataDir entry)) (.ok raw) →
          HasUnknownKey codecs casc.keys raw) →
        (∀ path data, ¬extraction.MayAsk B (.outside (.writeToPath path data))) ∧
          ∀ r, extraction.Yields B r → ∃ e, r = .error e) := by
  constructor
  · intro A reader key
    constructor
    · intro d h
      obtain ⟨entry, raw, file, out, hentry, hraw, hfile, hout, hnone, rfl⟩ :=
        yields_readEncodingKey h
      exact ⟨entry, raw, hentry, hraw, strictDecode_of_zeroing hfile hout hnone⟩
    · intro hunknown r h
      cases r with
      | error e => exact ⟨e, rfl⟩
      | ok d =>
        obtain ⟨entry, raw, file, out, -, hraw, hfile, hout, hnone, -⟩ := yields_readEncodingKey h
        exact absurd hnone (missingKeys_of_hasUnknownKey (hunknown entry raw hraw) hfile hout)
  · intro B paths fdid outPath hi
    dsimp only
    -- the bytes of a content with nothing missing
    have hstrict : ∀ casc content, (readFdidBytes (process.decoding codecs) casc fdid).run.Yields
        (fun q answer => B (.outside q) answer) (.ok content) → content.missingKeys = [] →
        Installed B content.data ∨ ∃ dataDir entry raw,
          B (.outside (.readRaw dataDir entry)) (.ok raw) ∧
          ¬HasUnknownKey codecs casc.keys raw ∧
          strictDecode codecs casc.keys raw = .ok content.data := by
      intro casc content hcontent hnone
      rcases yields_readFdidBytes hcontent with hinstalled | ⟨dataDir, entry, raw, file, out, hraw,
        hfile, hout, rfl⟩
      · exact .inl hinstalled
      · have hnone' : out.missingKeys = [] := List.map_eq_nil_iff.mp hnone
        exact .inr ⟨dataDir, entry, raw, hraw,
          fun hunknown => missingKeys_of_hasUnknownKey hunknown hfile hout hnone',
          strictDecode_of_zeroing hfile hout hnone'⟩
    constructor
    · intro path data h
      obtain ⟨rfl, casc, content, hcasc, hcontent, hnone, rfl⟩ := mayAsk_writeToPath hi h
      obtain ⟨-, identity, -, -, hcell⟩ := yields_getCasc hcasc
      refine ⟨rfl, ?_⟩
      rcases hstrict casc content hcontent hnone with
        hinstalled | ⟨dataDir, entry, raw, hraw, -, hd⟩
      · exact .inl hinstalled
      · exact .inr ⟨identity, casc, dataDir, entry, raw, hcell, hraw, hd⟩
    · intro hinstalled hunknown
      have hnothing : ∀ casc content, (getCasc (process.decoding codecs) paths).run.Yields B
          (.ok casc) → (readFdidBytes (process.decoding codecs) casc fdid).run.Yields
          (fun q answer => B (.outside q) answer) (.ok content) → content.missingKeys ≠ [] := by
        intro casc content hcasc hcontent hnone
        obtain ⟨-, identity, -, -, hcell⟩ := yields_getCasc hcasc
        rcases hstrict casc content hcontent hnone with h | ⟨dataDir, entry, raw, hraw, hnot, -⟩
        · exact hinstalled content.data h
        · exact hnot (hunknown identity casc dataDir entry raw hcell hraw)
      constructor
      · intro path data h
        obtain ⟨-, casc, content, hcasc, hcontent, hnone, -⟩ := mayAsk_writeToPath hi h
        exact hnothing casc content hcasc hcontent hnone
      · intro r h
        cases r with
        | error e => exact ⟨e, rfl⟩
        | ok file =>
          obtain ⟨casc, content, hcasc, hcontent, hnone⟩ := yields_extraction hi h
          exact absurd hnone (hnothing casc content hcasc hcontent)

end Accepted

/-- A hash, and no other code. -/
def sampleCodecs : Codecs where
  zlib _ := ([], some "corrupt deflate stream")
  lz4 _ _ := .error "invalid input"
  salsa20 _ _ _ data := .ok data
  arc4 _ := .ok id
  md5 data := Key.constant (data.headD 0)
  get keys id := (keys.find? fun key => key.id = id).map TactKey.key
  showParseError _ := "invalid data"

/-- A container with two chunks in a table: one that is encrypted with the key of name 1, with
a declared size of zero, and one that is not compressed. -/
def lockedContainer : List UInt8 :=
  osString "BLTE" ++ [0, 0, 0, 60, 0x0f, 0, 0, 2] ++
    ([0, 0, 0, 18, 0, 0, 0, 0] ++ List.replicate 16 0) ++
    ([0, 0, 0, 3, 0, 0, 0, 2] ++ List.replicate 16 0) ++
    (osString "E" ++ [8, 1, 0, 0, 0, 0, 0, 0, 0, 4, 0, 0, 0, 0] ++ osString "SN" ++ [5]) ++
    (osString "N" ++ [6, 7])

/-- An archive with the container, and nothing else. -/
def lockedArchive : (q : InstallQuery) → q.Answer
  | .lookup _ _ => some ⟨0, 0, lockedContainer.length⟩
  | .readRaw _ _ => .ok lockedContainer
  | q => sampleInstall "" q

/-- A process that may read archives. -/
def openProcess : Process where
  mode := .localCasc
  installPath := none
  defaultPaths := samplePaths none
  formats := sampleInstallFormats

theorem hasUnknownKey_lockedContainer : HasUnknownKey sampleCodecs [] lockedContainer := by
  refine ⟨_, rfl, _, List.mem_cons_self, ?_⟩
  exact ⟨rfl, _, rfl, rfl⟩

/-- A process whose installation is found. -/
def foundProcess : Process := { openProcess with installPath := some (.ofStr "/wow") }

/-- An installation in which the sample file stands in the archive only, for a build whose state
has no keys. -/
def lockedInstall : (q : CascQuery) → q.Answer
  | .outside (.readFile _ _) => .error "not found"
  | .outside (.lookup dataDir key) => lockedArchive (.lookup dataDir key)
  | .outside (.readRaw dataDir entry) => lockedArchive (.readRaw dataDir entry)
  | .outside q => sampleInstall (buildInfoText firstKey) q
  | .getOrInit paths _ =>
    .ok ⟨paths.identity, .ofStr "/wow/Data", [], ⟨.ofStr "/c", sampleContents⟩⟩

/-- The extraction of the file, for that build. -/
def lockedExtraction : Program CascQuery CascQuery.Answer (Except String ExtractedFile) :=
  (extractFdidToPathWithPaths (foundProcess.decoding sampleCodecs)
    (samplePaths (some firstBuild)) 1 (.ofStr "/out")).run

/-- **With the key the container is read, and without it the chunk that has no bytes is still
missed**; nor is it extracted. -/
theorem zeros_never_accepted_sample :
    (∃ entry raw, lockedArchive (.lookup .empty sampleEncodingKey) = some entry ∧
      lockedArchive (.readRaw .empty entry) = .ok raw ∧
      strictDecode sampleCodecs [⟨1, [9]⟩] raw = .ok [5, 6, 7]) ∧
    (∃ e, (FrozenArchiveReader.readEncodingKey openProcess sampleCodecs ⟨.empty, []⟩
      sampleEncodingKey).run.run lockedArchive = .error e) ∧
    (∀ path data, ¬lockedExtraction.MayAsk (fun q answer => lockedInstall q = answer)
      (.outside (.writeToPath path data))) ∧
    ∃ e, lockedExtraction.run lockedInstall = .error e := by
  have hread : (FrozenArchiveReader.readEncodingKey openProcess sampleCodecs
      ⟨.empty, [⟨1, [9]⟩]⟩ sampleEncodingKey).run.run lockedArchive = .ok [5, 6, 7] := by
    decide +kernel
  constructor
  · exact ((zeros_never_accepted openProcess sampleCodecs).1 _ ⟨.empty, [⟨1, [9]⟩]⟩
      sampleEncodingKey).1 _ (yields_run.mpr hread)
  · have hlocked : ∃ e, (FrozenArchiveReader.readEncodingKey openProcess sampleCodecs ⟨.empty, []⟩
        sampleEncodingKey).run.run lockedArchive = .error e := by
      refine ((zeros_never_accepted openProcess sampleCodecs).1 _ ⟨.empty, []⟩
        sampleEncodingKey).2 ?_ _ (yields_run.mpr rfl)
      intro entry raw hraw
      obtain rfl := Except.ok.inj hraw
      exact hasUnknownKey_lockedContainer
    refine ⟨hlocked, ?_⟩
    have hinstalled : ∀ data, ¬Installed (fun q answer => lockedInstall q = answer) data := by
      rintro data (⟨dataRoot, key, h⟩ | ⟨dataRoot, path, h⟩)
      · cases h
      · cases h
    obtain ⟨-, hunknown⟩ := (zeros_never_accepted foundProcess sampleCodecs).2 _
      (samplePaths (some firstBuild)) 1 (.ofStr "/out") rfl
    obtain ⟨hnothing, herror⟩ := hunknown hinstalled fun _ _ _ _ _ hcasc hraw => by
      obtain rfl := Except.ok.inj hcasc
      obtain rfl := Except.ok.inj hraw
      exact hasUnknownKey_lockedContainer
    exact ⟨hnothing, herror _ (yields_run.mpr rfl)⟩

end AssetResolver
