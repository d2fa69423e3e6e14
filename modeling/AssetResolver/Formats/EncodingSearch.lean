import AssetResolver.Formats.EncodingBuilder
import AssetResolver.Library.PagedSearch
import AssetResolver.Resolution.Table

/-!
# Searching encoding files

A key is searched on the page that a binary search of the index points to, and several keys are
searched together in one pass over the pages. **The two agree on every file whose index is in
order** (`AssetResolver.Encoding.batch_eq_map_find`), and every file that is built has such an
index (`AssetResolver.Encoding.sorted_ckey_file`).

An index must have an entry for each page and no others
(`AssetResolver.Encoding.EncodingFile.Paired`), as in every file that was parsed or built: where
it has not, a search may panic, so the searches ask for it.

The client does not search: it collects all entries in a map
(`AssetResolver.collectContentToEncodingKeys`). Where the content keys are in order the map
answers what the search finds, unless one of them is there twice
(`AssetResolver.Encoding.findEncoding_eq_lookup`).
-/

namespace AssetResolver

/-- Keys are compared byte by byte. -/
instance : LinearOrder Key where
  le key key' := key.rank ≤ key'.rank
  le_refl _ := le_refl _
  le_trans _ _ _ := le_trans
  le_antisymm _ _ h h' := Key.rank_injective (le_antisymm h h')
  le_total _ _ := le_total _ _
  toDecidableLE _ _ := Nat.decLe _ _
  toDecidableEq := inferInstance

namespace Encoding

open PagedSearch StableSort Paging LastWins

variable (search : PartitionPoint Key)

/-! ### The searches -/

/-- The indexes have an entry for each page and no others. -/
structure EncodingFile.Paired (file : EncodingFile) : Prop where
  ckeyPages : file.ckeyIndex.length = file.ckeyPages.length
  ekeyPages : file.ekeyIndex.length = file.ekeyPages.length

/-- What is parsed is paired. -/
theorem EncodingFile.Stands.paired {md5 : List UInt8 → Key} {file : EncodingFile}
    (h : file.Stands md5) : file.Paired :=
  ⟨h.ckeyPages.length_eq, h.ekeyPages.length_eq⟩

/-- The pages under the keys of an index that has one for each of them. -/
def cellsOf {T : Type} (index : List IndexEntry) (pages : List (Page T))
    (_ : index.length = pages.length) : List (Key × Page T) :=
  (index.map IndexEntry.firstKey).zip pages

/-- The entry of a page with a key. -/
def Page.entry? {T : Type} (key : T → Key) (page : Page T) (k : Key) : Option T :=
  page.entries.find? fun entry => key entry = k

/-- `ESpecTable::get`. -/
def EncodingFile.espec? (file : EncodingFile) (entry : EKeyPageEntry) : Option String :=
  file.especTable[entry.especIndex.toNat]?

/-- `find_encoding`. -/
def EncodingFile.findEncoding (file : EncodingFile) (h : file.Paired) (contentKey : Key) :
    Option Key :=
  find (cellsOf file.ckeyIndex file.ckeyPages h.ckeyPages)
    (fun page k => (page.entry? CKeyPageEntry.contentKey k).map fun entry =>
      entry.encodingKeys.head?) none search contentKey

/-- `find_all_encodings`. -/
def EncodingFile.findAllEncodings (file : EncodingFile) (h : file.Paired) (contentKey : Key) :
    List Key :=
  find (cellsOf file.ckeyIndex file.ckeyPages h.ckeyPages)
    (fun page k => (page.entry? CKeyPageEntry.contentKey k).map CKeyPageEntry.encodingKeys) []
    search contentKey

/-- `find_espec`. -/
def EncodingFile.findEspec (file : EncodingFile) (h : file.Paired) (encodingKey : Key) :
    Option String :=
  find (cellsOf file.ekeyIndex file.ekeyPages h.ekeyPages)
    (fun page k => (page.entry? EKeyPageEntry.encodingKey k).map file.espec?) none search
    encodingKey

/-- `batch_find_encodings`. -/
def EncodingFile.batchFindEncodings (file : EncodingFile) (h : file.Paired)
    (contentKeys : List Key) : List (Option Key) :=
  batch (cellsOf file.ckeyIndex file.ckeyPages h.ckeyPages)
    (fun page k => (page.entry? CKeyPageEntry.contentKey k).map fun entry =>
      entry.encodingKeys.head?) none contentKeys

/-- `batch_find_all_encodings`. -/
def EncodingFile.batchFindAllEncodings (file : EncodingFile) (h : file.Paired)
    (contentKeys : List Key) : List (List Key) :=
  batch (cellsOf file.ckeyIndex file.ckeyPages h.ckeyPages)
    (fun page k => (page.entry? CKeyPageEntry.contentKey k).map CKeyPageEntry.encodingKeys) []
    contentKeys

/-- `batch_find_especs`. -/
def EncodingFile.batchFindEspecs (file : EncodingFile) (h : file.Paired)
    (encodingKeys : List Key) : List (Option String) :=
  batch (cellsOf file.ekeyIndex file.ekeyPages h.ekeyPages)
    (fun page k => (page.entry? EKeyPageEntry.encodingKey k).map file.espec?) none encodingKeys

/-! ### Together or one by one -/

/-- An index in order. -/
def InOrder (index : List IndexEntry) : Prop :=
  (index.map IndexEntry.firstKey).Pairwise (· ≤ ·)

theorem map_fst_zip_sublist {α β : Type*} (l : List α) (l' : List β) :
    ((l.zip l').map Prod.fst).Sublist l := by
  induction l generalizing l' with
  | nil => exact List.Sublist.refl _
  | cons a l ih =>
    cases l' with
    | nil => exact List.nil_sublist _
    | cons b l' => exact (ih l').cons_cons a

theorem InOrder.cellsOf {T : Type} {index : List IndexEntry} (h : InOrder index)
    {pages : List (Page T)} (hlength : index.length = pages.length) :
    ((cellsOf index pages hlength).map Prod.fst).Pairwise (· ≤ ·) :=
  h.sublist (map_fst_zip_sublist _ _)

/-- **Searching together is searching one by one**, in a file whose index is in order, whatever
its pages hold and whatever is searched. -/
theorem batch_eq_map_find {file : EncodingFile} (h : file.Paired)
    (hckey : InOrder file.ckeyIndex) (hekey : InOrder file.ekeyIndex) (keys : List Key) :
    file.batchFindEncodings h keys = keys.map (file.findEncoding search h) ∧
      file.batchFindAllEncodings h keys = keys.map (file.findAllEncodings search h) ∧
      file.batchFindEspecs h keys = keys.map (file.findEspec search h) :=
  ⟨batch_eq_map search (hckey.cellsOf h.ckeyPages) keys,
    batch_eq_map search (hckey.cellsOf h.ckeyPages) keys,
    batch_eq_map search (hekey.cellsOf h.ekeyPages) keys⟩

theorem paired_sampleEncodingFile : (sampleEncodingBuilder.file sampleMd5).Paired :=
  ⟨List.length_map _, List.length_map _⟩

theorem batch_eq_map_find_sample :
    (sampleEncodingBuilder.file sampleMd5).batchFindEncodings
        paired_sampleEncodingFile [sampleRootKey, Key.constant 0, Key.constant 0x11] =
      [sampleRootKey, Key.constant 0, Key.constant 0x11].map
        ((sampleEncodingBuilder.file sampleMd5).findEncoding (.scan Key)
          paired_sampleEncodingFile) :=
  (batch_eq_map_find (.scan Key) paired_sampleEncodingFile (by unfold InOrder; decide)
    (by unfold InOrder; decide) _).1

/-! ### What is found in a file in order -/

/-- Entries in order, on pages that begin with the keys of the index. -/
structure Sorted {T : Type} (key : T → Key) (index : List IndexEntry) (pages : List (Page T)) :
    Prop where
  length : index.length = pages.length
  firstKeys : ∀ cell ∈ cellsOf index pages length, cell.2.entries.head?.map key = some cell.1
  entries : (pages.flatMap Page.entries).Pairwise fun a b => key a ≤ key b

namespace Sorted

variable {T : Type} {key : T → Key} {index : List IndexEntry} {pages : List (Page T)}

theorem flatMap_cellsOf (h : Sorted key index pages) :
    ((cellsOf index pages h.length).flatMap fun cell => cell.2.entries) =
      pages.flatMap Page.entries := by
  have hpages : (cellsOf index pages h.length).map Prod.snd = pages := by
    rw [cellsOf, List.map_snd_zip (by rw [List.length_map, h.length])]
  conv_rhs => rw [← hpages, List.flatMap_map]

/-- The index is in order with its entries. -/
theorem inOrder (h : Sorted key index pages) : InOrder index := by
  have hindex : (cellsOf index pages h.length).map Prod.fst = index.map IndexEntry.firstKey :=
    List.map_fst_zip (by rw [List.length_map, h.length])
  have hentries := h.entries
  rw [← h.flatMap_cellsOf, List.pairwise_flatMap] at hentries
  rw [InOrder, ← hindex, List.pairwise_map]
  refine hentries.2.imp_of_mem fun {cell cell'} hcell hcell' hle => ?_
  obtain ⟨a, ha, hkey⟩ := Option.map_eq_some_iff.mp (h.firstKeys cell hcell)
  obtain ⟨b, hb, hkey'⟩ := Option.map_eq_some_iff.mp (h.firstKeys cell' hcell')
  rw [← hkey, ← hkey']
  exact hle a (List.mem_of_mem_head? ha) b (List.mem_of_mem_head? hb)

/-- **A search finds the entry of the key**, wherever it is, if no two entries have one key. -/
theorem find_eq (h : Sorted key index pages)
    (hnodup : ((pages.flatMap Page.entries).map key).Nodup) {V : Type} (value : T → V) (absent : V)
    (k : Key) :
    find (cellsOf index pages h.length) (fun page k => (page.entry? key k).map value) absent search
        k =
      (((pages.flatMap Page.entries).find? fun entry => key entry = k).map value).getD absent := by
  have hstrict : (pages.flatMap Page.entries).Pairwise fun a b => key a < key b :=
    h.entries.imp₂ (fun _ _ => lt_of_le_of_ne) (List.pairwise_map.mp hnodup)
  rw [← h.flatMap_cellsOf] at hstrict
  have hpage := page_bind_eq_find? h.firstKeys hstrict k
  rw [find_eq_result search (h.inOrder.cellsOf h.length), result, ← h.flatMap_cellsOf, ← hpage,
    Option.map_bind]
  rfl

end Sorted

/-! ### The map of the client -/

/-- The part of an encoding file that the client reads. -/
def EncodingFile.view (file : EncodingFile) : AssetResolver.EncodingFile :=
  ⟨file.ckeyPages.map fun page =>
    ⟨page.entries.map fun entry => ⟨entry.contentKey, entry.encodingKeys⟩⟩⟩

theorem listedKeys_view (file : EncodingFile) :
    listedKeys file.view = (file.ckeyPages.flatMap Page.entries).filterMap fun entry =>
      entry.encodingKeys.head?.map fun encodingKey => (entry.contentKey, encodingKey) := by
  rw [listedKeys, EncodingFile.view, List.flatMap_map, List.filterMap_flatMap]
  simp only [List.filterMap_map, Function.comp_def]

/-- **The map of the client answers what a search finds**, if no two entries have one content. -/
theorem findEncoding_eq_lookup {file : EncodingFile}
    (hpaired : file.Paired) (h : Sorted CKeyPageEntry.contentKey file.ckeyIndex file.ckeyPages)
    (hnodup : ((file.ckeyPages.flatMap Page.entries).map CKeyPageEntry.contentKey).Nodup)
    (k : Key) :
    file.findEncoding search hpaired k = (collectContentToEncodingKeys file.view).lookup k := by
  rw [EncodingFile.findEncoding, h.find_eq search hnodup, collectContentToEncodingKeys_eq,
    listedKeys_view, lookup_collect_filterMap hnodup]
  cases (file.ckeyPages.flatMap Page.entries).find? fun entry => entry.contentKey = k <;> rfl

/-! ### What is found in a file that was built -/

theorem flatMap_entries_serializePage {T : Type} (size : T → ℕ) (write : T → List UInt8)
    (pageSize : ℕ) (entries : List T) :
    ((pagesOf size pageSize entries).map (serializePage write pageSize)).flatMap Page.entries =
      entries := by
  conv_rhs => rw [← flatten_pagesOf size pageSize entries]
  rw [List.flatMap_map, List.flatMap_def]
  exact congrArg List.flatten (List.map_id _)

/-- The pages of a built index begin with its keys. -/
theorem sorted_buildIndex (md5 : List UInt8 → Key) {T : Type} (key : T → Key) (size : T → ℕ)
    (write : T → List UInt8) (pageSize : ℕ) {entries : List T}
    (h : entries.Pairwise fun a b => key a ≤ key b) :
    Sorted key
      (buildIndex md5 key ((pagesOf size pageSize entries).map (serializePage write pageSize)))
      ((pagesOf size pageSize entries).map (serializePage write pageSize)) where
  length := List.length_map _
  firstKeys cell hcell := by
    unfold cellsOf at hcell
    rw [buildIndex, List.map_map, ← List.map_prod_right_eq_zip] at hcell
    obtain ⟨page, hpage, rfl⟩ := List.mem_map.mp hcell
    obtain ⟨group, hgroup, rfl⟩ := List.mem_map.mp hpage
    obtain ⟨entry, rest, rfl⟩ := List.exists_cons_of_ne_nil (ne_nil_of_mem_pagesOf hgroup)
    rfl
  entries := (flatMap_entries_serializePage ..).symm ▸ h

section Builder

variable {md5 : List UInt8 → Key} {builder : EncodingBuilder}

theorem flatMap_entries_ckeyPages :
    builder.ckeyPages.flatMap Page.entries = builder.ckeyPageEntries :=
  flatMap_entries_serializePage ..

theorem flatMap_entries_ekeyPages :
    builder.ekeyPages.flatMap Page.entries = builder.ekeyPageEntries :=
  flatMap_entries_serializePage ..

variable (md5 builder)

/-- The content keys of a built file are in order. -/
theorem sorted_ckey_file : Sorted CKeyPageEntry.contentKey (builder.file md5).ckeyIndex
    (builder.file md5).ckeyPages :=
  sorted_buildIndex md5 _ _ _ _ (List.pairwise_map.mpr pairwise_sortBy)

/-- The encoding keys of a built file are in order. -/
theorem sorted_ekey_file : Sorted EKeyPageEntry.encodingKey (builder.file md5).ekeyIndex
    (builder.file md5).ekeyPages :=
  sorted_buildIndex md5 _ _ _ _ (List.pairwise_map.mpr pairwise_sortBy)

variable {md5 builder}

theorem nodup_ckeyPageEntries (h : (builder.ckeyEntries.map CKeyEntryData.contentKey).Nodup) :
    (builder.ckeyPageEntries.map CKeyPageEntry.contentKey).Nodup := by
  rw [EncodingBuilder.ckeyPageEntries, List.map_map]
  exact (perm_sortBy.map _).nodup_iff.mpr h

theorem nodup_ekeyPageEntries (h : (builder.ekeyEntries.map EKeyEntryData.encodingKey).Nodup) :
    (builder.ekeyPageEntries.map EKeyPageEntry.encodingKey).Nodup := by
  rw [EncodingBuilder.ekeyPageEntries, List.map_map]
  exact (perm_sortBy.map _).nodup_iff.mpr h

/-- The sorted entries have an entry for a content exactly if the builder was given one. -/
theorem find?_ckeyPageEntries (h : (builder.ckeyEntries.map CKeyEntryData.contentKey).Nodup)
    (k : Key) :
    (builder.ckeyPageEntries.find? fun entry => entry.contentKey = k) =
      (builder.ckeyEntries.find? fun entry => entry.contentKey = k).map
        CKeyEntryData.pageEntry := by
  rw [EncodingBuilder.ckeyPageEntries, List.find?_map]
  exact congrArg _ (KeyedTable.find?_eq_of_perm perm_sortBy.symm h k).symm

theorem find?_ekeyPageEntries (h : (builder.ekeyEntries.map EKeyEntryData.encodingKey).Nodup)
    (k : Key) :
    (builder.ekeyPageEntries.find? fun entry => entry.encodingKey = k) =
      (builder.ekeyEntries.find? fun entry => entry.encodingKey = k).map
        (EKeyEntryData.indexed (buildESpecTable builder.ekeyEntries)) := by
  rw [EncodingBuilder.ekeyPageEntries, List.find?_map]
  exact congrArg _ (KeyedTable.find?_eq_of_perm perm_sortBy.symm h k).symm

/-- The table has a byte at least for each of its specifications. -/
theorem length_le_length_writeESpecs (table : List String) :
    table.length ≤ (writeESpecs table).length := by
  rw [writeESpecs, List.length_flatMap]
  calc table.length = (table.map fun _ => 1).sum := by simp
    _ ≤ _ := List.sum_le_sum fun spec _ => by simp

/-- What the client notes of an entry: its first key, if it has one. -/
def CKeyEntryData.listed (entry : CKeyEntryData) : Option (Key × Key) :=
  entry.encodingKeys.head?.map fun encodingKey => (entry.contentKey, encodingKey)

/-- The map of the client for what the builder was given. -/
def EncodingBuilder.clientMap (builder : EncodingBuilder) : AList fun _ : Key => Key :=
  collect (builder.ckeyEntries.filterMap CKeyEntryData.listed)

/-- Entries of one content, among those that are noted. -/
theorem filter_filterMap_listed (entries : List CKeyEntryData) (k : Key) :
    (entries.filterMap CKeyEntryData.listed).filter (fun p => p.1 = k) =
      (entries.filter fun entry => entry.contentKey.rank = k.rank).filterMap
        CKeyEntryData.listed := by
  induction entries with
  | nil => rfl
  | cons entry entries ih =>
    have hrank : entry.contentKey.rank = k.rank ↔ entry.contentKey = k :=
      Key.rank_injective.eq_iff
    rw [List.filterMap_cons, List.filter_cons]
    cases hlisted : entry.listed with
    | none => by_cases hk : entry.contentKey = k <;> simp [hrank, hk, hlisted, ih]
    | some p =>
      have hp : p.1 = entry.contentKey := by
        obtain ⟨encodingKey, -, rfl⟩ := Option.map_eq_some_iff.mp hlisted
        rfl
      by_cases hk : entry.contentKey = k <;> simp [hrank, hp, hk, hlisted, ih]

/-- **The map of the client is that of the entries in the order they were added**: sorting them
keeps those of one content in their order. -/
theorem lookup_file_eq (k : Key) :
    (collectContentToEncodingKeys (builder.file md5).view).lookup k =
      builder.clientMap.lookup k := by
  have hentries : (builder.file md5).ckeyPages.flatMap Page.entries = builder.ckeyPageEntries :=
    flatMap_entries_ckeyPages
  have hlisted : (builder.ckeyPageEntries.filterMap fun entry =>
      entry.encodingKeys.head?.map fun encodingKey => (entry.contentKey, encodingKey)) =
        (sortBy (fun entry : CKeyEntryData => entry.contentKey.rank)
          builder.ckeyEntries).filterMap CKeyEntryData.listed := by
    rw [EncodingBuilder.ckeyPageEntries, List.filterMap_map]
    rfl
  refine Option.ext fun encodingKey => ?_
  rw [collectContentToEncodingKeys_eq, listedKeys_view, hentries, hlisted,
    EncodingBuilder.clientMap, lookup_collect, lookup_collect, isLast_iff_getLast?_filter,
    isLast_iff_getLast?_filter, filter_filterMap_listed, filter_filterMap_listed,
    filter_sortBy_eq]

/-- The map of the client has the first key of every content that the builder was given. -/
theorem lookup_file (h : (builder.ckeyEntries.map CKeyEntryData.contentKey).Nodup) (k : Key) :
    (collectContentToEncodingKeys (builder.file md5).view).lookup k =
      (builder.ckeyEntries.find? fun entry => entry.contentKey = k).bind
        fun entry => entry.encodingKeys.head? :=
  lookup_file_eq k |>.trans (lookup_collect_filterMap h k)

/-- The index of an entry leads back to its specification. -/
theorem espec?_indexed {entry : EKeyEntryData} (hentry : entry ∈ builder.ekeyEntries)
    (htable : (buildESpecTable builder.ekeyEntries).length < 2 ^ 32) :
    (builder.file md5).espec? (entry.indexed (buildESpecTable builder.ekeyEntries)) =
      some entry.espec := by
  have hmem := mem_buildESpecTable.mpr ⟨entry, hentry, rfl⟩
  obtain ⟨index, hindex⟩ := Option.isSome_iff_exists.mp (List.isSome_idxOf?.mpr hmem)
  obtain ⟨hlt, hget, -⟩ := List.idxOf?_eq_some_iff.mp hindex
  rw [EncodingFile.espec?, EKeyEntryData.indexed, hindex, Option.getD_some, UInt32.toNat_ofNat',
    Nat.mod_eq_of_lt (hlt.trans htable), ← hget]
  exact List.getElem?_eq_getElem hlt

/-- **What is built, written, read and searched is what the builder was given.** -/
theorem find_of_parse_build {file : EncodingFile} {bytes : List UInt8} (hsound : builder.Sound)
    (hckey : (builder.ckeyEntries.map CKeyEntryData.contentKey).Nodup)
    (hekey : (builder.ekeyEntries.map EKeyEntryData.encodingKey).Nodup)
    (hfile : builder.build md5 = .ok file) (hbytes : file.build md5 = .ok bytes) :
    ∃ parsed, parse md5 bytes = .ok parsed ∧ ∃ h : parsed.Paired, ∀ k,
      parsed.findEncoding search h k =
        (builder.ckeyEntries.find? fun entry => entry.contentKey = k).bind
          (fun entry => entry.encodingKeys.head?) ∧
      parsed.findAllEncodings search h k =
        ((builder.ckeyEntries.find? fun entry => entry.contentKey = k).map
          CKeyEntryData.encodingKeys).getD [] ∧
      parsed.findEspec search h k =
        (builder.ekeyEntries.find? fun entry => entry.encodingKey = k).map EKeyEntryData.espec ∧
      (collectContentToEncodingKeys parsed.view).lookup k = parsed.findEncoding search h k := by
  have hparse := (parse_build_iff_sound hfile hbytes).mpr hsound
  have hpaired := (parse_eq_ok_iff.mp hparse).1.paired
  refine ⟨file, hparse, hpaired, fun k => ?_⟩
  rw [builder.build_eq_ok] at hfile
  obtain rfl := Except.ok.inj hfile
  have htable : (buildESpecTable builder.ekeyEntries).length < 2 ^ 32 := by
    have hlength := (build_eq_ok_iff.mp hbytes).1
    refine (length_le_length_writeESpecs _).trans_lt ?_
    rw [show (writeESpecs (buildESpecTable builder.ekeyEntries)).length = _ from hlength]
    exact UInt32.toNat_lt _
  have hcontents : (((builder.file md5).ckeyPages.flatMap Page.entries).map
      CKeyPageEntry.contentKey).Nodup :=
    flatMap_entries_ckeyPages.symm ▸ nodup_ckeyPageEntries hckey
  have hkeys : (((builder.file md5).ekeyPages.flatMap Page.entries).map
      EKeyPageEntry.encodingKey).Nodup :=
    flatMap_entries_ekeyPages.symm ▸ nodup_ekeyPageEntries hekey
  have hsorted := sorted_ckey_file md5 builder
  have hagree := findEncoding_eq_lookup search hpaired hsorted hcontents k
  refine ⟨hagree.trans (lookup_file hckey k), ?_, ?_, hagree.symm⟩
  · rw [EncodingFile.findAllEncodings, hsorted.find_eq search hcontents]
    change (((builder.ckeyPages.flatMap Page.entries).find? _).map _).getD [] = _
    rw [flatMap_entries_ckeyPages, find?_ckeyPageEntries hckey, Option.map_map]
    rfl
  · rw [EncodingFile.findEspec, (sorted_ekey_file md5 builder).find_eq search hkeys]
    change (((builder.ekeyPages.flatMap Page.entries).find? _).map _).getD none = _
    rw [flatMap_entries_ekeyPages, find?_ekeyPageEntries hekey]
    cases hfound : builder.ekeyEntries.find? fun entry => entry.encodingKey = k with
    | none => rfl
    | some entry => exact espec?_indexed (List.mem_of_find?_eq_some hfound) htable

theorem find_of_parse_build_sample :
    ∃ bytes parsed, parse sampleMd5 bytes = .ok parsed ∧ ∃ h : parsed.Paired,
      parsed.findEncoding (.scan Key) h sampleRootKey = some (Key.constant 0x22) := by
  obtain ⟨bytes, hbytes⟩ := exists_build_sampleEncodingBuilder
  obtain ⟨parsed, hparsed, hpaired, hfind⟩ := find_of_parse_build (.scan Key)
    sound_sampleEncodingBuilder (by decide) (by decide) sampleEncodingBuilder.build_eq_ok hbytes
  exact ⟨bytes, parsed, hparsed, hpaired, (hfind sampleRootKey).1.trans (by decide)⟩

end Builder

end Encoding

end AssetResolver
