import AssetResolver.Formats.EncodingSearch
import AssetResolver.Formats.RootBuilder

/-!
# Metadata from the builders to the table

The parsers of the client's metadata are those of the formats
(`AssetResolver.metadataFormats`). With them, **what two builders were given decides what every
file resolves to**, through both files, both parsers and the table
(`AssetResolver.resolveFdid_of_builders`): nothing on the way loses a record, prefers another
one, or finds a key that was not listed.
-/

namespace AssetResolver

open LastWins
open Root (RootError RootBuilder BlockOrder sampleRootBuilder reachable_sampleRootBuilder
  faithful_sampleRootBuilder exists_build_sampleRootBuilder)
open Encoding (EncodingError EncodingBuilder CKeyEntryData EKeyEntryData)

variable (md5 : List UInt8 → Key)

/-- The parsers of the two files, with the texts of their errors. -/
def metadataFormats (rootText : RootError → String) (encodingText : EncodingError → String) :
    MetadataFormats where
  parseRoot data := ((Root.parse data).map Root.RootFile.view).mapError rootText
  parseEncoding data :=
    ((Encoding.parse md5 data).map Encoding.EncodingFile.view).mapError encodingText

variable {md5} {rootText : RootError → String} {encodingText : EncodingError → String}

variable (rootText encodingText) in
/-- A directory with the files of two builders parses to what they would write. -/
theorem parsesTo_of_builders {rootBuilder rootBuilder' : RootBuilder} {order : BlockOrder}
    {rootBytes encodingBytes : List UInt8} {encodingBuilder : EncodingBuilder}
    {encodingFile : Encoding.EncodingFile} {dir : NamespaceDir} {rootMtime encodingMtime : ℤ}
    (hreach : rootBuilder.Reachable) (hfaithful : rootBuilder.Faithful)
    (hroot : rootBuilder.build order = .ok (rootBytes, rootBuilder'))
    (hsound : encodingBuilder.Sound) (hfile : encodingBuilder.build md5 = .ok encodingFile)
    (hencoding : encodingFile.build md5 = .ok encodingBytes)
    (hdirRoot : dir.root = some ⟨rootBytes, rootMtime⟩)
    (hdirEncoding : dir.encoding = some ⟨encodingBytes, encodingMtime⟩) :
    ParsesTo (metadataFormats md5 rootText encodingText) dir rootBuilder.file.view
      encodingFile.view := by
  have hparseRoot := (Root.parse_build_iff_faithful hreach hroot).mpr hfaithful
  have hparseEncoding := (Encoding.parse_build_iff_sound hfile hencoding).mpr hsound
  refine ⟨⟨_, hdirRoot, ?_⟩, ⟨_, hdirEncoding, ?_⟩⟩
  · simp only [metadataFormats, hparseRoot]
    rfl
  · simp only [metadataFormats, hparseEncoding]
    rfl

/-- **What two builders were given is what the files resolve to**: the content of the last record
in the greatest block of the client's locale, and the first key that is listed for it. -/
theorem resolveFdid_of_builders {rootBuilder rootBuilder' : RootBuilder} {order : BlockOrder}
    {rootBytes encodingBytes : List UInt8} {encodingBuilder : EncodingBuilder}
    {encodingFile : Encoding.EncodingFile} {dir : NamespaceDir} {rootMtime encodingMtime : ℤ}
    (hreach : rootBuilder.Reachable) (hfaithful : rootBuilder.Faithful)
    (hroot : rootBuilder.build order = .ok (rootBytes, rootBuilder'))
    (hsound : encodingBuilder.Sound)
    (hnodup : (encodingBuilder.ckeyEntries.map CKeyEntryData.contentKey).Nodup)
    (hfile : encodingBuilder.build md5 = .ok encodingFile)
    (hencoding : encodingFile.build md5 = .ok encodingBytes)
    (hdirRoot : dir.root = some ⟨rootBytes, rootMtime⟩)
    (hdirEncoding : dir.encoding = some ⟨encodingBytes, encodingMtime⟩)
    {visit : IterationOrder (Sigma fun _ : UInt32 => Key)} {faults : Faults} {cascDir : PathBuf}
    {cache : Contents}
    (hbuilt : Built (metadataFormats md5 rootText encodingText) visit faults cascDir dir cache)
    (fdid : UInt32) (ck ek : Key) :
    resolveFdid cache fdid = some (ck, ek) ↔
      (∃ locale content block, rootBuilder.blocks.get? (locale, content) = some block ∧
        locale &&& clientLocale ≠ 0 ∧
        IsLast (block.records.map Root.RootRecord.pair) fdid ck ∧
        ∀ locale' content' block', rootBuilder.blocks.get? (locale', content') = some block' →
          locale' &&& clientLocale ≠ 0 →
          (locale < locale' ∨ locale = locale' ∧ content < content') →
          ∀ record ∈ block'.records, record.fileDataId ≠ fdid) ∧
      ∃ entry ∈ encodingBuilder.ckeyEntries, entry.contentKey = ck ∧
        entry.encodingKeys.head? = some ek := by
  have hparse := parsesTo_of_builders rootText encodingText hreach hfaithful hroot hsound hfile
    hencoding hdirRoot hdirEncoding
  rw [Encoding.EncodingBuilder.build_eq_ok] at hfile
  obtain rfl := Except.ok.inj hfile
  obtain ⟨root, encoding, rootMtime, encMtime, hparse', rfl⟩ := hbuilt.contents_eq
  obtain ⟨rfl, rfl⟩ := hparse.unique hparse'
  rw [resolveFdid_builtContents_iff, Root.isLast_clientRecords_file hreach.wellFormed,
    ← lookup_collect (k := ck), ← collectContentToEncodingKeys_eq, Encoding.lookup_file hnodup,
    Option.bind_eq_some_iff]
  have hkey := List.inj_on_of_nodup_map hnodup
  simp only [KeyedTable.find?_eq_some_iff_mem fun _ ha _ hb h => hkey ha hb h, and_assoc]

/-- The directory of the two sample builders, and the table that is built from it. -/
theorem built_of_sampleBuilders {rootBytes encodingBytes : List UInt8} {builder' : RootBuilder}
    (hroot : sampleRootBuilder.build (.standing _) = .ok (rootBytes, builder'))
    (hencoding : (Encoding.sampleEncodingBuilder.file Encoding.sampleMd5).build Encoding.sampleMd5 =
      .ok encodingBytes) :
    Built (metadataFormats Encoding.sampleMd5 (fun _ => "") fun _ => "") (.standing _)
      (fun _ => none) (.ofStr "/c")
      ⟨some ⟨rootBytes, 10⟩, some ⟨encodingBytes, 10⟩, none, false, false⟩ sampleContents := by
  have hparses : ParsesTo _ ⟨some ⟨rootBytes, 10⟩, some ⟨encodingBytes, 10⟩, none, false, false⟩
      _ _ :=
    parsesTo_of_builders (fun _ => "") (fun _ => "") reachable_sampleRootBuilder
      faithful_sampleRootBuilder hroot Encoding.sound_sampleEncodingBuilder
      Encoding.sampleEncodingBuilder.build_eq_ok hencoding rfl rfl
  obtain ⟨⟨rootFile, hrootFile, hparseRoot⟩, ⟨encodingFile, hencodingFile, hparseEncoding⟩⟩ :=
    hparses
  cases hrootFile
  cases hencodingFile
  have hmaps : buildResolutionMaps (metadataFormats Encoding.sampleMd5 (fun _ => "") fun _ => "")
      (fun _ => none) (.ofStr "/c")
      ⟨some ⟨rootBytes, 10⟩, some ⟨encodingBytes, 10⟩, none, false, false⟩ =
      .ok (collectFdidToContentKeys sampleRootBuilder.file.view, collectContentToEncodingKeys
        (Encoding.sampleEncodingBuilder.file Encoding.sampleMd5).view) := by
    simp [buildResolutionMaps, readCacheFile, attempt, hparseRoot, hparseEncoding, Except.mapError,
      bind, Except.bind, pure, Except.pure]
  have hrootView : sampleRootBuilder.file.view = sampleRoot := by decide
  have hencodingView :
      (Encoding.sampleEncodingBuilder.file Encoding.sampleMd5).view = sampleEncoding := by decide
  refine ⟨⟨some ⟨rootBytes, 10⟩, some ⟨encodingBytes, 10⟩,
    some ⟨sampleContents, sampleContents⟩, false, false⟩, ?_, rfl⟩
  rw [buildResolutionCache, hmaps, hrootView, hencodingView]
  rfl

theorem resolveFdid_of_builders_sample :
    resolveFdid sampleContents 1 = some (Key.constant 0x11, Key.constant 0x33) ∧
      ∃ entry ∈ Encoding.sampleEncodingBuilder.ckeyEntries, entry.contentKey = Key.constant 0x11 ∧
        entry.encodingKeys.head? = some (Key.constant 0x33) := by
  obtain ⟨rootBytes, builder', hroot⟩ := exists_build_sampleRootBuilder
  obtain ⟨encodingBytes, hencoding⟩ := Encoding.exists_build_sampleEncodingBuilder
  have hresolved : resolveFdid sampleContents 1 =
      some (Key.constant 0x11, Key.constant 0x33) := by decide
  exact ⟨hresolved, ((resolveFdid_of_builders reachable_sampleRootBuilder faithful_sampleRootBuilder
    hroot Encoding.sound_sampleEncodingBuilder (by decide)
    Encoding.sampleEncodingBuilder.build_eq_ok hencoding rfl rfl
    (built_of_sampleBuilders hroot hencoding) 1 _ _).mp hresolved).2⟩

end AssetResolver
