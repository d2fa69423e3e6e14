import AssetResolver.Formats.EncodingSearch

/-!
# Editing encoding files

A file that was read goes back into a builder, its entries are changed, and what is built is
written again. The map of the client for the new file is the map for the old one after the same
changes (`AssetResolver.Encoding.lookup_of_edited`): an entry with keys replaces what there was of
its content, and **removing a content removes all of its entries**, also one that another had
replaced.

The entries are taken over as they are but their specifications are numbered anew. So an entry
without a key may be taken for the padding where it was not before, if its specification becomes
the first one. Without such entries whatever was read can be written again
(`AssetResolver.Encoding.orderly_of_parse`), and from the second time on the file stays as it is
(`AssetResolver.Encoding.rewrite_settles`).
-/

namespace AssetResolver

namespace Encoding

open ByteReader Layout LastWins StableSort Paging

/-! ### Editing -/

/-- The data of an entry of a content key page. -/
def CKeyPageEntry.data (entry : CKeyPageEntry) : CKeyEntryData :=
  ⟨entry.contentKey, entry.fileSize, entry.encodingKeys⟩

/-- The data of an entry of an encoding key page: without a specification it is compressed. -/
def EncodingFile.ekeyData (file : EncodingFile) (entry : EKeyPageEntry) : EKeyEntryData :=
  ⟨entry.encodingKey, (file.espec? entry).getD "z", entry.fileSize⟩

/-- `from_encoding_file`. -/
def EncodingBuilder.fromEncodingFile (file : EncodingFile) : EncodingBuilder :=
  let builder := EncodingBuilder.new.withPageSizes file.header.ckeyPageSizeKb
    file.header.ekeyPageSizeKb
  let builder := match file.trailingEspec with
    | some trailing => builder.withTrailingEspec trailing
    | none => builder
  let builder := file.ckeyPages.foldl (fun builder page =>
    page.entries.foldl (fun builder entry => builder.addCkeyEntry entry.data) builder) builder
  file.ekeyPages.foldl (fun builder page =>
    page.entries.foldl (fun builder entry => builder.addEkeyEntry (file.ekeyData entry)) builder)
    builder

/-- `has_ckey_entry`. -/
def EncodingBuilder.hasCkeyEntry (builder : EncodingBuilder) (contentKey : Key) : Bool :=
  builder.ckeyEntries.any fun entry => entry.contentKey = contentKey

/-- `has_ekey_entry`. -/
def EncodingBuilder.hasEkeyEntry (builder : EncodingBuilder) (encodingKey : Key) : Bool :=
  builder.ekeyEntries.any fun entry => entry.encodingKey = encodingKey

/-- `remove_ckey_entry`: the builder without the entries, and whether there was one. -/
def EncodingBuilder.removeCkeyEntry (builder : EncodingBuilder) (contentKey : Key) :
    EncodingBuilder × Bool :=
  let entries := builder.ckeyEntries.filter fun entry => entry.contentKey ≠ contentKey
  ({ builder with ckeyEntries := entries }, entries.length < builder.ckeyEntries.length)

/-- `remove_ekey_entry`: the builder without the entries, and whether there was one. -/
def EncodingBuilder.removeEkeyEntry (builder : EncodingBuilder) (encodingKey : Key) :
    EncodingBuilder × Bool :=
  let entries := builder.ekeyEntries.filter fun entry => entry.encodingKey ≠ encodingKey
  ({ builder with ekeyEntries := entries }, entries.length < builder.ekeyEntries.length)

/-- `clear`. -/
def EncodingBuilder.clear (builder : EncodingBuilder) : EncodingBuilder :=
  { builder with ckeyEntries := [], ekeyEntries := [] }

/-- A change of the entries. -/
inductive Edit where
  /-- `add_ckey_entry`. -/
  | addCkeyEntry (entry : CKeyEntryData) : Edit
  /-- `add_ekey_entry`. -/
  | addEkeyEntry (entry : EKeyEntryData) : Edit
  /-- `remove_ckey_entry`. -/
  | removeCkeyEntry (contentKey : Key) : Edit
  /-- `remove_ekey_entry`. -/
  | removeEkeyEntry (encodingKey : Key) : Edit
  /-- `clear`. -/
  | clear : Edit

/-- What a change does to the builder. -/
def EncodingBuilder.edit (builder : EncodingBuilder) : Edit → EncodingBuilder
  | .addCkeyEntry entry => builder.addCkeyEntry entry
  | .addEkeyEntry entry => builder.addEkeyEntry entry
  | .removeCkeyEntry contentKey => (builder.removeCkeyEntry contentKey).1
  | .removeEkeyEntry encodingKey => (builder.removeEkeyEntry encodingKey).1
  | .clear => builder.clear

/-- What a change does to the keys that the client knows. -/
def Edit.effect (known : Key → Option Key) : Edit → Key → Option Key
  | .addCkeyEntry entry =>
    match entry.encodingKeys.head? with
    | some encodingKey => Function.update known entry.contentKey (some encodingKey)
    -- the client passes over an entry without keys
    | none => known
  | .removeCkeyEntry contentKey => Function.update known contentKey none
  | .clear => fun _ => none
  | .addEkeyEntry _ => known
  | .removeEkeyEntry _ => known

/-- Removing an entry says whether there was one. -/
theorem removeCkeyEntry_snd (builder : EncodingBuilder) (contentKey : Key) :
    (builder.removeCkeyEntry contentKey).2 = builder.hasCkeyEntry contentKey := by
  rw [EncodingBuilder.removeCkeyEntry, EncodingBuilder.hasCkeyEntry, Bool.eq_iff_iff,
    decide_eq_true_eq, List.length_filter_lt_length_iff_exists]
  simp

theorem removeEkeyEntry_snd (builder : EncodingBuilder) (encodingKey : Key) :
    (builder.removeEkeyEntry encodingKey).2 = builder.hasEkeyEntry encodingKey := by
  rw [EncodingBuilder.removeEkeyEntry, EncodingBuilder.hasEkeyEntry, Bool.eq_iff_iff,
    decide_eq_true_eq, List.length_filter_lt_length_iff_exists]
  simp

/-! ### What the client sees of the changes -/

/-- **A change of the builder changes the map of the client.** -/
theorem lookup_edit (builder : EncodingBuilder) (edit : Edit) :
    (builder.edit edit).clientMap.lookup = edit.effect builder.clientMap.lookup := by
  cases edit with
  | addCkeyEntry entry =>
    funext k
    have hentries : (builder.edit (.addCkeyEntry entry)).clientMap =
        collect (builder.ckeyEntries.filterMap CKeyEntryData.listed ++ entry.listed.toList) := by
      change collect ((builder.ckeyEntries ++ [entry]).filterMap CKeyEntryData.listed) = _
      rw [List.filterMap_append, List.filterMap_cons]
      cases entry.listed <;> rfl
    rw [hentries, Edit.effect, CKeyEntryData.listed]
    cases entry.encodingKeys.head? with
    | none => rw [Option.map_none, Option.toList_none, List.append_nil]; rfl
    | some encodingKey =>
      dsimp only
      rw [Option.map_some, Option.toList_some, lookup_collect_concat, Function.update_apply]
      rfl
  | removeCkeyEntry contentKey =>
    funext k
    have hentries : (builder.edit (.removeCkeyEntry contentKey)).clientMap =
        collect ((builder.ckeyEntries.filterMap CKeyEntryData.listed).filter
          fun p => p.1 ≠ contentKey) := by
      change collect ((builder.ckeyEntries.filter _).filterMap CKeyEntryData.listed) = _
      rw [List.filter_filterMap, List.filterMap_filter]
      refine congrArg collect (List.filterMap_congr fun entry _ => ?_)
      rw [CKeyEntryData.listed]
      cases entry.encodingKeys.head? <;> by_cases hk : entry.contentKey = contentKey <;>
        simp [hk, Option.filter_some]
    rw [hentries, lookup_collect_filter_ne, Edit.effect, Function.update_apply]
    rfl
  | clear => rfl
  | addEkeyEntry entry => rfl
  | removeEkeyEntry encodingKey => rfl

/-- The changes of a run, one after the other. -/
theorem lookup_foldl_edit (builder : EncodingBuilder) (edits : List Edit) :
    (edits.foldl EncodingBuilder.edit builder).clientMap.lookup =
      edits.foldl Edit.effect builder.clientMap.lookup := by
  induction edits generalizing builder with
  | nil => rfl
  | cons edit edits ih => rw [List.foldl_cons, List.foldl_cons, ih, lookup_edit]

/-! ### What is taken over -/

theorem foldl_addCkeyEntry (entries : List CKeyEntryData) (builder : EncodingBuilder) :
    entries.foldl EncodingBuilder.addCkeyEntry builder =
      { builder with ckeyEntries := builder.ckeyEntries ++ entries } := by
  induction entries generalizing builder with
  | nil => rw [List.foldl_nil, List.append_nil]
  | cons entry entries ih => rw [List.foldl_cons, ih]; simp [EncodingBuilder.addCkeyEntry]

theorem foldl_addEkeyEntry (entries : List EKeyEntryData) (builder : EncodingBuilder) :
    entries.foldl EncodingBuilder.addEkeyEntry builder =
      { builder with ekeyEntries := builder.ekeyEntries ++ entries } := by
  induction entries generalizing builder with
  | nil => rw [List.foldl_nil, List.append_nil]
  | cons entry entries ih => rw [List.foldl_cons, ih]; simp [EncodingBuilder.addEkeyEntry]

/-- **Everything is taken over**: the entries in their order, the sizes of the pages and the
text at the end. -/
theorem fromEncodingFile_eq (file : EncodingFile) :
    EncodingBuilder.fromEncodingFile file = {
      ckeyEntries := (file.ckeyPages.flatMap Page.entries).map CKeyPageEntry.data
      ekeyEntries := (file.ekeyPages.flatMap Page.entries).map file.ekeyData
      ckeyPageSizeKb := file.header.ckeyPageSizeKb
      ekeyPageSizeKb := file.header.ekeyPageSizeKb
      trailingEspec := file.trailingEspec } := by
  have hckey : ∀ builder : EncodingBuilder, file.ckeyPages.foldl (fun builder page =>
      page.entries.foldl (fun builder entry => builder.addCkeyEntry entry.data) builder) builder =
        ((file.ckeyPages.flatMap Page.entries).map CKeyPageEntry.data).foldl
          EncodingBuilder.addCkeyEntry builder := fun builder => by
    rw [List.foldl_map, List.foldl_flatMap]
  have hekey : ∀ builder : EncodingBuilder, file.ekeyPages.foldl (fun builder page =>
      page.entries.foldl (fun builder entry => builder.addEkeyEntry (file.ekeyData entry)) builder)
        builder = ((file.ekeyPages.flatMap Page.entries).map file.ekeyData).foldl
          EncodingBuilder.addEkeyEntry builder := fun builder => by
    rw [List.foldl_map, List.foldl_flatMap]
  unfold EncodingBuilder.fromEncodingFile
  dsimp only
  rw [hckey, hekey, foldl_addCkeyEntry, foldl_addEkeyEntry]
  cases file.trailingEspec <;> rfl

/-- The client knows as much of a file as of the builder that took it over. -/
theorem lookup_fromEncodingFile (file : EncodingFile) :
    (EncodingBuilder.fromEncodingFile file).clientMap.lookup =
      (collectContentToEncodingKeys file.view).lookup := by
  have hentries : (EncodingBuilder.fromEncodingFile file).ckeyEntries.filterMap
      CKeyEntryData.listed = listedKeys file.view := by
    rw [fromEncodingFile_eq, listedKeys_view, List.filterMap_map]
    rfl
  rw [EncodingBuilder.clientMap, hentries, collectContentToEncodingKeys_eq]

/-! ### What can be written again -/

/-- An entry that has a key, and room on a page. -/
structure CKeyEntryData.Fits (pageSize : ℕ) (entry : CKeyEntryData) : Prop where
  pos : 0 < entry.encodingKeys.length
  counted : entry.encodingKeys.length ≤ 255
  room : 22 + 16 * entry.encodingKeys.length ≤ pageSize
  size : entry.fileSize.toNat < 2 ^ 40

/-- An entry of a key, with a specification. -/
structure EKeyEntryData.Specified (entry : EKeyEntryData) : Prop where
  key : entry.encodingKey ≠ Key.constant 0
  size : entry.fileSize.toNat < 2 ^ 40
  espec : entry.espec ≠ "" ∧ Char.ofNat 0 ∉ entry.espec.toList

/-- A builder whose entries can be written. -/
structure EncodingBuilder.Orderly (builder : EncodingBuilder) : Prop where
  ckeyEntries : ∀ entry ∈ builder.ckeyEntries, entry.Fits builder.ckeyPageSize
  ekeyEntries : ∀ entry ∈ builder.ekeyEntries, entry.Specified
  ekeyPageSize : builder.ekeyPageSizeKb ≠ 0
  trailing : builder.trailingEspec ≠ some ""

/-- A change that adds nothing but what can be written. -/
def Edit.Allowed (pageSize : ℕ) : Edit → Prop
  | .addCkeyEntry entry => entry.Fits pageSize
  | .addEkeyEntry entry => entry.Specified
  | _ => True

/-- A builder that has entries of both kinds, and not too many of them. -/
structure EncodingBuilder.Counted (builder : EncodingBuilder) : Prop where
  ckeyPos : 0 < builder.ckeyEntries.length
  ckeyEntries : builder.ckeyEntries.length < 2 ^ 32
  ekeyPos : 0 < builder.ekeyEntries.length
  ekeyEntries : builder.ekeyEntries.length < 2 ^ 32

section Builder

variable {builder : EncodingBuilder}

theorem ckeyPageSize_edit (edit : Edit) :
    (builder.edit edit).ckeyPageSize = builder.ckeyPageSize := by
  cases edit <;> rfl

/-- One change. -/
theorem EncodingBuilder.Orderly.edit (h : builder.Orderly) {edit : Edit}
    (hedit : edit.Allowed builder.ckeyPageSize) : (builder.edit edit).Orderly := by
  cases edit with
  | addCkeyEntry entry =>
    refine ⟨fun found hmem => ?_, h.ekeyEntries, h.ekeyPageSize, h.trailing⟩
    rcases List.mem_append.mp hmem with hmem | hmem
    · exact h.ckeyEntries found hmem
    · rw [List.mem_singleton.mp hmem]
      exact hedit
  | addEkeyEntry entry =>
    refine ⟨h.ckeyEntries, fun found hmem => ?_, h.ekeyPageSize, h.trailing⟩
    rcases List.mem_append.mp hmem with hmem | hmem
    · exact h.ekeyEntries found hmem
    · rw [List.mem_singleton.mp hmem]
      exact hedit
  | removeCkeyEntry contentKey =>
    exact ⟨fun found hmem => h.ckeyEntries found (List.mem_filter.mp hmem).1, h.ekeyEntries,
      h.ekeyPageSize, h.trailing⟩
  | removeEkeyEntry encodingKey =>
    exact ⟨h.ckeyEntries, fun found hmem => h.ekeyEntries found (List.mem_filter.mp hmem).1,
      h.ekeyPageSize, h.trailing⟩
  | clear => exact ⟨nofun, nofun, h.ekeyPageSize, h.trailing⟩

/-- A run of changes. -/
theorem EncodingBuilder.Orderly.foldl_edit (h : builder.Orderly) {edits : List Edit}
    (hedits : ∀ edit ∈ edits, edit.Allowed builder.ckeyPageSize) :
    (edits.foldl EncodingBuilder.edit builder).Orderly := by
  induction edits generalizing builder with
  | nil => exact h
  | cons edit edits ih =>
    rw [List.forall_mem_cons] at hedits
    refine ih (h.edit hedits.1) fun later hlater => ?_
    rw [ckeyPageSize_edit]
    exact hedits.2 later hlater

theorem eq_constant_of_forall {key : Key} (h : ∀ b ∈ key.bytes, b = 0) : key = Key.constant 0 := by
  obtain ⟨bytes, hlength⟩ := key
  obtain rfl : bytes = List.replicate 16 0 := List.eq_replicate_iff.mpr ⟨hlength, h⟩
  rfl

/-- **Entries that can be written can be read**, if there are some of both kinds. -/
theorem EncodingBuilder.Orderly.sound (h : builder.Orderly) (hcount : builder.Counted) :
    builder.Sound where
  ckeyEntries entry hmem :=
    let hfits := h.ckeyEntries entry hmem
    ⟨hfits.pos, hfits.counted, hfits.room, hfits.size⟩
  ekeyEntries entry hmem := by
    obtain ⟨hkey, hsize, hespec⟩ := h.ekeyEntries entry hmem
    refine ⟨?_, hsize, hespec⟩
    rintro (hnone | ⟨-, hzero⟩)
    · -- the number of a specification is that of one of the entries at most
      have htable : entry.espec ∈ buildESpecTable builder.ekeyEntries :=
        mem_buildESpecTable.mpr ⟨entry, hmem, rfl⟩
      obtain ⟨index, hindex⟩ := Option.isSome_iff_exists.mp (List.isSome_idxOf?.mpr htable)
      obtain ⟨hlt, -⟩ := List.idxOf?_eq_some_iff.mp hindex
      have hle := length_buildESpecTable_le builder.ekeyEntries
      have hcount' := hcount.ekeyEntries
      rw [EKeyEntryData.indexed, hindex, Option.getD_some, ← UInt32.toNat_inj,
        UInt32.toNat_ofNat', Nat.mod_eq_of_lt (by omega)] at hnone
      have hlast : (0xffffffff : UInt32).toNat = 2 ^ 32 - 1 := rfl
      omega
    · exact hkey (eq_constant_of_forall hzero)
  ckeyEntries_ne_nil := List.ne_nil_of_length_pos hcount.ckeyPos
  ekeyEntries_ne_nil := List.ne_nil_of_length_pos hcount.ekeyPos
  ekeyPageSize := h.ekeyPageSize
  ckeyPages := by
    have hle := length_pagesOf_le ckeyEntrySize builder.ckeyPageSize builder.ckeyPageEntries
    rw [EncodingBuilder.ckeyPageEntries, List.length_map, perm_sortBy.length_eq] at hle
    rw [EncodingBuilder.ckeyPages, List.length_map]
    exact hle.trans_lt hcount.ckeyEntries
  ekeyPages := by
    have hle := length_pagesOf_le ekeyEntrySize builder.ekeyPageSize builder.ekeyPageEntries
    rw [EncodingBuilder.ekeyPageEntries, List.length_map, perm_sortBy.length_eq] at hle
    rw [EncodingBuilder.ekeyPages, List.length_map]
    exact hle.trans_lt hcount.ekeyEntries
  trailing := h.trailing

end Builder

/-! ### What was read can be written again -/

/-- A file with whole keys, none of which is taken for the padding. -/
structure EncodingFile.Plain (file : EncodingFile) : Prop where
  ckeyHashSize : file.header.ckeyHashSize = 16
  ekeyHashSize : file.header.ekeyHashSize = 16
  ekeyPageSize : file.header.ekeyPageSizeKb ≠ 0
  encodingKeys : ∀ page ∈ file.ekeyPages, ∀ entry ∈ page.entries,
    entry.encodingKey ≠ Key.constant 0

theorem length_of_readKey {size : ℕ} {input rest : List UInt8} {key : Key}
    (h : readKey size input = .ok (key, rest)) : rest.length + size = input.length := by
  obtain ⟨bytes, hbytes, -⟩ := fmap_eq_ok_iff.mp h
  exact length_of_exactly hbytes

/-- An entry takes as much as it will be written with. -/
theorem length_of_readCKeyEntry (input : List UInt8) (entry : CKeyPageEntry) (rest : List UInt8)
    (h : readCKeyEntry 16 16 input = .ok (entry, rest)) :
    rest.length + ckeyEntrySize entry = input.length := by
  obtain ⟨keyCount, input₁, hcount, h⟩ := bind_eq_ok_iff.mp h
  split_ifs at h
  · exact absurd h throw_ne_ok
  · obtain ⟨fields, input₂, hfields, h⟩ := bind_eq_ok_iff.mp h
    obtain ⟨contentKey, input₃, hkey, h⟩ := bind_eq_ok_iff.mp h
    obtain ⟨encodingKeys, input₄, hkeys, h⟩ := bind_eq_ok_iff.mp h
    obtain ⟨rfl, rfl⟩ := pure_eq_ok_iff.mp h
    have hcount' : input₁.length + 1 = input.length := length_of_value hcount
    have hfields' : input₂.length + 5 = input₁.length := length_of_value hfields
    have hkey' := length_of_readKey hkey
    have hkeys' := length_of_several_exactly length_of_readKey hkeys
    have hlength := length_of_several hkeys
    rw [ckeyEntrySize, hlength]
    omega

variable {md5 : List UInt8 → Key}

/-- A page of a file fits its entry of the index. -/
theorem exists_fits_of_mem {T : Type} {format : EntryFormat T} {pageSize : ℕ}
    {index : List IndexEntry} {pages : List (Page T)}
    (h : List.Forall₂ (Page.Fits md5 format pageSize) index pages) {page : Page T}
    (hmem : page ∈ pages) : ∃ entry, page.Fits md5 format pageSize entry := by
  induction h with
  | nil => exact absurd hmem List.not_mem_nil
  | cons hfits _ ih =>
    rcases List.mem_cons.mp hmem with rfl | hmem
    · exact ⟨_, hfits⟩
    · exact ih hmem

/-- The entries of a page have room on it. -/
theorem fits_data_of_page {header : EncodingHeader} (hckeySize : header.ckeyHashSize = 16)
    (hekeySize : header.ekeyHashSize = 16) {index : IndexEntry} {page : Page CKeyPageEntry}
    (h : page.Fits md5 (ckeyFormat header) header.ckeyPageSize index) {entry : CKeyPageEntry}
    (hmem : entry ∈ page.entries) : entry.data.Fits header.ckeyPageSize := by
  obtain ⟨entries, tail, hrun, -, hentries, -⟩ := readEntries_eq_ok_iff.mp h.entries
  rw [List.nil_append] at hentries
  rw [hentries] at hmem
  have hformat : (ckeyFormat header).read = readCKeyEntry 16 16 := by
    change readCKeyEntry header.ckeyHashSize.toNat header.ekeyHashSize.toNat = _
    rw [hckeySize, hekeySize]
    rfl
  rw [hformat] at hrun
  have hreadable := hrun.forall_mem (fun _ _ _ => readable_of_readCKeyEntry) entry hmem
  -- all of them together take no more than the page
  have htotal := hrun.length_eq length_of_readCKeyEntry
  have hle := List.single_le_sum (fun _ _ => Nat.zero_le _) _
    (List.mem_map_of_mem (f := ckeyEntrySize) hmem)
  rw [h.length] at htotal
  have hbyte : entry.keyCount.toNat < 256 := entry.keyCount.toNat_lt
  have hpos : entry.keyCount.toNat ≠ 0 := fun hzero => hreadable.pos (UInt8.toNat_inj.mp hzero)
  have hcounted := hreadable.counted
  constructor
  · change 0 < entry.encodingKeys.length
    omega
  · change entry.encodingKeys.length ≤ 255
    omega
  · change 22 + 16 * entry.encodingKeys.length ≤ header.ckeyPageSize
    rw [ckeyEntrySize] at hle
    omega
  · exact hreadable.size

/-- The specifications of a file that was read are not empty, and have no zeros in them. -/
theorem espec_of_parse {data : List UInt8} {file : EncodingFile} (h : parse md5 data = .ok file)
    (hutf8 : IsUtf8 ((data.drop 22).take file.header.especBlockSize.toNat)) :
    ∀ spec ∈ file.especTable, spec ≠ "" ∧ Char.ofNat 0 ∉ spec.toList := by
  obtain ⟨-, especData, trailingData, hlength, htable, -, rfl⟩ := parse_eq_ok_iff.mp h
  have hespec : ((file.bytesWith md5 especData trailingData).drop 22).take
      file.header.especBlockSize.toNat = especData := by
    rw [EncodingFile.bytesWith, ← length_writeHeader file.header, List.drop_left, ← hlength,
      List.take_left]
  rw [hespec, isUtf8_iff] at hutf8
  rw [← parseESpecs_writeESpecs_iff]
  have hwritten : writeESpecs file.especTable = especData := by
    rw [← hutf8] at htable ⊢
    exact @writeESpecs_of_parse [] _ [] _ htable
  rwa [hwritten]

/-- **What was read can be written again**, if its keys are whole. -/
theorem orderly_of_parse {data : List UInt8} {file : EncodingFile} (h : parse md5 data = .ok file)
    (hutf8 : IsUtf8 ((data.drop 22).take file.header.especBlockSize.toNat)) (hplain : file.Plain) :
    (EncodingBuilder.fromEncodingFile file).Orderly := by
  have hespecs := espec_of_parse h hutf8
  obtain ⟨hstands, -, trailingData, -, -, htrailing, -⟩ := parse_eq_ok_iff.mp h
  rw [fromEncodingFile_eq]
  constructor
  · intro entry hmem
    obtain ⟨read, hread, rfl⟩ := List.mem_map.mp hmem
    obtain ⟨page, hpage, hread⟩ := List.mem_flatMap.mp hread
    obtain ⟨index, hfits⟩ := exists_fits_of_mem hstands.ckeyPages hpage
    exact fits_data_of_page hplain.ckeyHashSize hplain.ekeyHashSize hfits hread
  · intro entry hmem
    obtain ⟨read, hread, rfl⟩ := List.mem_map.mp hmem
    obtain ⟨page, hpage, hread⟩ := List.mem_flatMap.mp hread
    obtain ⟨index, hfits⟩ := exists_fits_of_mem hstands.ekeyPages hpage
    obtain ⟨entries, tail, hrun, -, rfl, -⟩ := readEntries_eq_ok_iff.mp hfits.entries
    have hreadable := hrun.forall_mem (fun _ _ _ => readable_of_readEKeyEntry) read hread
    refine ⟨hplain.encodingKeys page hpage read hread, hreadable.size, ?_⟩
    change (file.espec? read).getD "z" ≠ "" ∧ _ ∉ ((file.espec? read).getD "z").toList
    cases hespec : file.espec? read with
    | none => decide
    | some spec => exact hespecs spec (List.mem_of_getElem? hespec)
  · exact hplain.ekeyPageSize
  · change file.trailingEspec ≠ some ""
    rw [htrailing, trailingText]
    split_ifs with hnil
    · exact (Option.some_ne_none "").symm
    · exact fun hsome => toStringLossy_ne_empty hnil (Option.some.inj hsome)

/-- **Editing a file edits the map of the client**: what was read is taken over, the changes are
made, and what is written of it is read again, with the keys that the changes leave. -/
theorem lookup_of_edited {data : List UInt8} {file : EncodingFile}
    (hparse : parse md5 data = .ok file)
    (hutf8 : IsUtf8 ((data.drop 22).take file.header.especBlockSize.toNat)) (hplain : file.Plain)
    {edits : List Edit} (hedits : ∀ edit ∈ edits, edit.Allowed file.header.ckeyPageSize)
    {builder : EncodingBuilder}
    (hbuilder : edits.foldl EncodingBuilder.edit (.fromEncodingFile file) = builder)
    (hcount : builder.Counted) {edited : EncodingFile} {bytes : List UInt8}
    (hedited : builder.build md5 = .ok edited) (hbytes : edited.build md5 = .ok bytes) :
    parse md5 bytes = .ok edited ∧ (collectContentToEncodingKeys edited.view).lookup =
      edits.foldl Edit.effect (collectContentToEncodingKeys file.view).lookup := by
  have hpageSize : (EncodingBuilder.fromEncodingFile file).ckeyPageSize =
      file.header.ckeyPageSize := by
    rw [fromEncodingFile_eq]
    rfl
  rw [← hpageSize] at hedits
  have horderly := (orderly_of_parse hparse hutf8 hplain).foldl_edit hedits
  rw [hbuilder] at horderly
  refine ⟨(parse_build_iff_sound hedited hbytes).mpr (horderly.sound hcount), ?_⟩
  rw [builder.build_eq_ok] at hedited
  obtain rfl := Except.ok.inj hedited
  calc (collectContentToEncodingKeys (builder.file md5).view).lookup
      = builder.clientMap.lookup := funext lookup_file_eq
    _ = edits.foldl Edit.effect (EncodingBuilder.fromEncodingFile file).clientMap.lookup := by
        rw [← hbuilder, lookup_foldl_edit]
    _ = edits.foldl Edit.effect (collectContentToEncodingKeys file.view).lookup := by
        rw [lookup_fromEncodingFile]

theorem lookup_of_edited_sample : ∃ bytes edited,
    parse sampleMd5 bytes = .ok edited ∧
      (collectContentToEncodingKeys edited.view).lookup sampleRootKey = none ∧
      (collectContentToEncodingKeys edited.view).lookup (Key.constant 0x77) =
        some (Key.constant 0x78) := by
  obtain ⟨data, hdata⟩ := exists_build_sampleEncodingBuilder
  have hparse := (parse_build_iff_sound sampleEncodingBuilder.build_eq_ok hdata).mpr
    sound_sampleEncodingBuilder
  let edits : List Edit := [.addCkeyEntry ⟨Key.constant 0x77, 9, [Key.constant 0x78]⟩,
    .removeCkeyEntry sampleRootKey]
  let builder := edits.foldl EncodingBuilder.edit
    (.fromEncodingFile (sampleEncodingBuilder.file sampleMd5))
  have hbytes : (builder.file sampleMd5).build sampleMd5 = .ok _ :=
    build_eq_ok_iff.mpr ⟨by decide, indexed_file _, rfl⟩
  have hplain : (sampleEncodingBuilder.file sampleMd5).Plain := ⟨rfl, rfl, by decide, by decide⟩
  have hallowed : ∀ edit ∈ edits,
      edit.Allowed (sampleEncodingBuilder.file sampleMd5).header.ckeyPageSize := by
    rw [List.forall_mem_cons, List.forall_mem_singleton]
    exact ⟨⟨by decide, by decide, by decide, by decide⟩, trivial⟩
  obtain ⟨hedited, hlookup⟩ := lookup_of_edited hparse ((build_of_parse hparse).mp hdata).1 hplain
    hallowed rfl ⟨by decide, by decide, by decide, by decide⟩ builder.build_eq_ok hbytes
  exact ⟨_, _, hedited, congrFun hlookup sampleRootKey, congrFun hlookup (Key.constant 0x77)⟩

/-! ### Writing again and again -/

/-- A builder with its entries in order. -/
def EncodingBuilder.sorted (builder : EncodingBuilder) : EncodingBuilder :=
  { builder with
    ckeyEntries := sortBy (fun entry => entry.contentKey.rank) builder.ckeyEntries
    ekeyEntries := sortBy (fun entry => entry.encodingKey.rank) builder.ekeyEntries }

theorem sorted_sorted (builder : EncodingBuilder) : builder.sorted.sorted = builder.sorted := by
  simp only [EncodingBuilder.sorted, sortBy_eq_self pairwise_sortBy]

/-- **What was built goes back into the builder** with its entries in order. -/
theorem fromEncodingFile_file (md5 : List UInt8 → Key) {builder : EncodingBuilder}
    (hcount : builder.ekeyEntries.length < 2 ^ 32) :
    EncodingBuilder.fromEncodingFile (builder.file md5) = builder.sorted := by
  have hckey : ((builder.file md5).ckeyPages.flatMap Page.entries).map CKeyPageEntry.data =
      sortBy (fun entry => entry.contentKey.rank) builder.ckeyEntries := by
    change (builder.ckeyPages.flatMap Page.entries).map CKeyPageEntry.data = _
    rw [flatMap_entries_ckeyPages, EncodingBuilder.ckeyPageEntries, List.map_map]
    exact List.map_id _
  have hekey : ((builder.file md5).ekeyPages.flatMap Page.entries).map
      (builder.file md5).ekeyData =
        sortBy (fun entry => entry.encodingKey.rank) builder.ekeyEntries := by
    change (builder.ekeyPages.flatMap Page.entries).map _ = _
    rw [flatMap_entries_ekeyPages, EncodingBuilder.ekeyPageEntries, List.map_map]
    refine List.map_congr_left (g := id) (fun entry hmem => ?_) |>.trans (List.map_id _)
    have htable := (length_buildESpecTable_le builder.ekeyEntries).trans_lt hcount
    have hespec : (builder.file md5).espec?
        (entry.indexed (buildESpecTable builder.ekeyEntries)) = some entry.espec :=
      espec?_indexed (mem_sortBy.mp hmem) htable
    rw [Function.comp_apply, EncodingFile.ekeyData, hespec, Option.getD_some]
    rfl
  rw [fromEncodingFile_eq, hckey, hekey]
  rfl

/-- The order of the content keys does not matter to what is built. -/
theorem file_sorted (md5 : List UInt8 → Key) {builder : EncodingBuilder}
    (h : sortBy (fun entry => entry.encodingKey.rank) builder.ekeyEntries = builder.ekeyEntries) :
    builder.sorted.file md5 = builder.file md5 := by
  have hckey : builder.sorted.ckeyPageEntries = builder.ckeyPageEntries := by
    rw [EncodingBuilder.ckeyPageEntries, EncodingBuilder.sorted, sortBy_eq_self pairwise_sortBy]
    rfl
  have hsorted : builder.sorted = { builder with
      ckeyEntries := sortBy (fun entry => entry.contentKey.rank) builder.ckeyEntries } := by
    rw [EncodingBuilder.sorted, h]
  have hpages : builder.sorted.ckeyPages = builder.ckeyPages := by
    rw [EncodingBuilder.ckeyPages, hckey]
    rfl
  unfold EncodingBuilder.file
  rw [hpages, hsorted]
  rfl

/-- Taking a file over, and building it. -/
def EncodingFile.rewrite (md5 : List UInt8 → Key) (file : EncodingFile) : EncodingFile :=
  (EncodingBuilder.fromEncodingFile file).file md5

variable (md5) in
/-- **From the second time on, writing a file anew changes nothing**, and already from the first
time if its encoding keys are in order. -/
theorem rewrite_settles {file : EncodingFile}
    (hcount : (file.ekeyPages.flatMap Page.entries).length < 2 ^ 32) :
    ((file.rewrite md5).rewrite md5).rewrite md5 = (file.rewrite md5).rewrite md5 ∧
      (((file.ekeyPages.flatMap Page.entries).Pairwise fun a b =>
          a.encodingKey ≤ b.encodingKey) →
        (file.rewrite md5).rewrite md5 = file.rewrite md5) := by
  have hlength : (EncodingBuilder.fromEncodingFile file).ekeyEntries.length < 2 ^ 32 := by
    rw [fromEncodingFile_eq, List.length_map]
    exact hcount
  have hsorted : (EncodingBuilder.fromEncodingFile file).sorted.ekeyEntries.length < 2 ^ 32 := by
    rwa [EncodingBuilder.sorted, perm_sortBy.length_eq]
  have htwice : (file.rewrite md5).rewrite md5 =
      (EncodingBuilder.fromEncodingFile file).sorted.file md5 := by
    rw [EncodingFile.rewrite, EncodingFile.rewrite, fromEncodingFile_file md5 hlength]
  constructor
  · rw [htwice, EncodingFile.rewrite, fromEncodingFile_file md5 hsorted, sorted_sorted]
  · intro hpairwise
    have hself : sortBy (fun entry => entry.encodingKey.rank)
        (EncodingBuilder.fromEncodingFile file).ekeyEntries =
          (EncodingBuilder.fromEncodingFile file).ekeyEntries := by
      rw [fromEncodingFile_eq]
      exact sortBy_eq_self (List.pairwise_map.mpr hpairwise)
    rw [htwice, file_sorted md5 hself]
    rfl

/-- A file whose encoding keys are not in order, with two specifications. -/
def disorderedFile : EncodingFile :=
  { sampleEncodingBuilder.file sampleMd5 with
    especTable := ["z", "n"]
    ekeyPages := [⟨[⟨Key.constant 0x33, 0, 5⟩, ⟨Key.constant 0x22, 1, 40⟩], []⟩] }

/-- The first time puts the keys in order, and the second the specifications; the third changes
nothing. -/
theorem rewrite_settles_sample :
    (disorderedFile.rewrite sampleMd5).especTable = ["z", "n"] ∧
      ((disorderedFile.rewrite sampleMd5).rewrite sampleMd5).especTable = ["n", "z"] ∧
      ((disorderedFile.rewrite sampleMd5).rewrite sampleMd5).rewrite sampleMd5 =
        (disorderedFile.rewrite sampleMd5).rewrite sampleMd5 :=
  ⟨by decide +kernel, by decide +kernel, (rewrite_settles sampleMd5 (by decide)).1⟩

end Encoding

end AssetResolver
