import AssetResolver.Formats.Encoding
import AssetResolver.Library.Paging
import AssetResolver.Library.StableSort

/-!
# Building encoding files

The builder sorts its entries by their keys, cuts them into pages and fills these with zeros.
Building never fails (`AssetResolver.Encoding.EncodingBuilder.build_eq_ok`), but what is built is
not always what can be read: **a number of encoding keys is kept in a byte**, an entry may be larger
than a page, and an entry without a key looks like the padding behind the last one. These are
the only reasons, besides the limits of the header
(`AssetResolver.Encoding.parse_build_iff_sound`).
-/

namespace AssetResolver

/-- A key as a number, the first byte being the most significant one: keys are compared like
their numbers. -/
def Key.rank (key : Key) : ℕ := leNat key.bytes.reverse

theorem Key.rank_injective : Function.Injective Key.rank := by
  intro key key' h
  have hbytes := congrArg (leBytes 16) h
  have hlength : ∀ key : Key, key.bytes.reverse.length = 16 := fun key => by
    rw [List.length_reverse, key.length_eq]
  have hback : ∀ key : Key, leBytes 16 key.rank = key.bytes.reverse := fun key => by
    rw [Key.rank, ← hlength key, leBytes_leNat]
  rw [hback, hback, List.reverse_inj] at hbytes
  exact Key.layout.encode_injective hbytes

namespace Encoding

open ByteReader Layout StableSort Paging Root

/-! ### The builder -/

/-- `CKeyEntryData`. -/
structure CKeyEntryData where
  /-- `content_key`. -/
  contentKey : Key
  /-- `file_size`. -/
  fileSize : UInt64
  /-- `encoding_keys`. -/
  encodingKeys : List Key
  deriving DecidableEq

/-- `EKeyEntryData`. -/
structure EKeyEntryData where
  /-- `encoding_key`. -/
  encodingKey : Key
  /-- `espec`. -/
  espec : String
  /-- `file_size`. -/
  fileSize : UInt64
  deriving DecidableEq

/-- `EncodingBuilder`. -/
structure EncodingBuilder where
  /-- `ckey_entries`. -/
  ckeyEntries : List CKeyEntryData
  /-- `ekey_entries`. -/
  ekeyEntries : List EKeyEntryData
  /-- `ckey_page_size_kb`. -/
  ckeyPageSizeKb : UInt16
  /-- `ekey_page_size_kb`. -/
  ekeyPageSizeKb : UInt16
  /-- `trailing_espec`. -/
  trailingEspec : Option String
  deriving DecidableEq

/-- `EncodingBuilder::new`. -/
def EncodingBuilder.new : EncodingBuilder := ⟨[], [], 4, 4, none⟩

/-- `with_page_sizes`. -/
def EncodingBuilder.withPageSizes (builder : EncodingBuilder)
    (ckeyPageSizeKb ekeyPageSizeKb : UInt16) : EncodingBuilder :=
  { builder with ckeyPageSizeKb, ekeyPageSizeKb }

/-- `with_trailing_espec`. -/
def EncodingBuilder.withTrailingEspec (builder : EncodingBuilder) (espec : String) :
    EncodingBuilder :=
  { builder with trailingEspec := some espec }

/-- `add_ckey_entry`. -/
def EncodingBuilder.addCkeyEntry (builder : EncodingBuilder) (entry : CKeyEntryData) :
    EncodingBuilder :=
  { builder with ckeyEntries := builder.ckeyEntries ++ [entry] }

/-- `add_ekey_entry`. -/
def EncodingBuilder.addEkeyEntry (builder : EncodingBuilder) (entry : EKeyEntryData) :
    EncodingBuilder :=
  { builder with ekeyEntries := builder.ekeyEntries ++ [entry] }

/-- `build_espec_table`. -/
def buildESpecTable (entries : List EKeyEntryData) : List String :=
  entries.foldl (fun table entry =>
    if entry.espec ∈ table then table else table ++ [entry.espec]) []

/-- The entry of a page. -/
def CKeyEntryData.pageEntry (entry : CKeyEntryData) : CKeyPageEntry :=
  ⟨UInt8.ofNat entry.encodingKeys.length, entry.fileSize, entry.contentKey, entry.encodingKeys⟩

/-- The entry of a page, if its specification is in the table. -/
def EKeyEntryData.pageEntry (table : List String) (entry : EKeyEntryData) :
    Except EncodingError EKeyPageEntry :=
  match table.idxOf? entry.espec with
  | some index => .ok ⟨entry.encodingKey, UInt32.ofNat index, entry.fileSize⟩
  | none => .error (.invalidESpec entry.espec)

/-- The size of an entry of a content key page. -/
def ckeyEntrySize (entry : CKeyPageEntry) : ℕ := 1 + 5 + 16 + 16 * entry.encodingKeys.length

/-- The size of an entry of an encoding key page. -/
def ekeyEntrySize (_ : EKeyPageEntry) : ℕ := 16 + 4 + 5

/-- Entries written over a page of zeros, which grows if they are too many. -/
def serializePage {T : Type} (write : T → List UInt8) (pageSize : ℕ) (entries : List T) : Page T :=
  let written := entries.flatMap write
  ⟨entries, written ++ List.replicate (pageSize - written.length) 0⟩

/-- `build_ckey_pages`, and `serialize_ckey_page`. -/
def buildCkeyPages (pageSize : ℕ) (entries : List CKeyEntryData) : List (Page CKeyPageEntry) :=
  let sortedEntries := sortBy (fun entry => entry.contentKey.rank) entries
  (pagesOf ckeyEntrySize pageSize (sortedEntries.map CKeyEntryData.pageEntry)).map
    (serializePage (writeCKeyEntry 16 16) pageSize)

/-- `build_ekey_pages`, and `serialize_ekey_page`. -/
def buildEkeyPages (pageSize : ℕ) (table : List String) (entries : List EKeyEntryData) :
    Except EncodingError (List (Page EKeyPageEntry)) := do
  let sortedEntries := sortBy (fun entry => entry.encodingKey.rank) entries
  let pageEntries ← sortedEntries.mapM (EKeyEntryData.pageEntry table)
  return (pagesOf ekeyEntrySize pageSize pageEntries).map
    (serializePage (writeEKeyEntry 16) pageSize)

variable (md5 : List UInt8 → Key)

/-- `build_index`. -/
def buildIndex {T : Type} (firstKey : T → Key) (pages : List (Page T)) : List IndexEntry :=
  pages.map fun page =>
    ⟨(page.entries.head?.map firstKey).getD (Key.constant 0), md5 page.originalData⟩

/-- `EncodingBuilder::build`. -/
def EncodingBuilder.build (builder : EncodingBuilder) : Except EncodingError EncodingFile := do
  let ckeyPageSize := builder.ckeyPageSizeKb.toNat * 1024
  let ekeyPageSize := builder.ekeyPageSizeKb.toNat * 1024
  let especTable := buildESpecTable builder.ekeyEntries
  let ckeyPages := buildCkeyPages ckeyPageSize builder.ckeyEntries
  let ekeyPages ← buildEkeyPages ekeyPageSize especTable builder.ekeyEntries
  return {
    header := {
      magic := magic
      version := 1
      ckeyHashSize := 16
      ekeyHashSize := 16
      ckeyPageSizeKb := builder.ckeyPageSizeKb
      ekeyPageSizeKb := builder.ekeyPageSizeKb
      ckeyPageCount := UInt32.ofNat ckeyPages.length
      ekeyPageCount := UInt32.ofNat ekeyPages.length
      unk11 := 0
      especBlockSize := UInt32.ofNat (writeESpecs especTable).length }
    especTable := especTable
    ckeyIndex := buildIndex md5 CKeyPageEntry.contentKey ckeyPages
    ckeyPages := ckeyPages
    ekeyIndex := buildIndex md5 EKeyPageEntry.encodingKey ekeyPages
    ekeyPages := ekeyPages
    trailingEspec := builder.trailingEspec }

/-! ### Building never fails -/

theorem buildESpecTable_concat (entries : List EKeyEntryData) (entry : EKeyEntryData) :
    buildESpecTable (entries ++ [entry]) =
      if entry.espec ∈ buildESpecTable entries then buildESpecTable entries
      else buildESpecTable entries ++ [entry.espec] := by
  rw [buildESpecTable, List.foldl_append]
  rfl

/-- The table has every specification once. -/
theorem mem_buildESpecTable {entries : List EKeyEntryData} {espec : String} :
    espec ∈ buildESpecTable entries ↔ ∃ entry ∈ entries, entry.espec = espec := by
  induction entries using List.reverseRecOn with
  | nil => simp [buildESpecTable]
  | append_singleton entries entry ih =>
    rw [buildESpecTable_concat]
    split_ifs with hmem
    · rw [ih]
      constructor
      · rintro ⟨found, hfound, rfl⟩
        exact ⟨found, List.mem_append_left _ hfound, rfl⟩
      · rintro ⟨found, hfound, rfl⟩
        rcases List.mem_append.mp hfound with hfound | hfound
        · exact ⟨found, hfound, rfl⟩
        · rw [List.mem_singleton] at hfound
          exact ih.mp (by rwa [hfound])
    · simp [ih, or_and_right, exists_or, eq_comm]

/-- There are no more specifications than entries. -/
theorem length_buildESpecTable_le (entries : List EKeyEntryData) :
    (buildESpecTable entries).length ≤ entries.length := by
  induction entries using List.reverseRecOn with
  | nil => exact Nat.le_refl _
  | append_singleton entries entry ih =>
    rw [buildESpecTable_concat, List.length_append, List.length_singleton]
    split_ifs
    · omega
    · rw [List.length_append, List.length_singleton]
      omega

/-- The entry of a page for a specification of the table. -/
def EKeyEntryData.indexed (table : List String) (entry : EKeyEntryData) : EKeyPageEntry :=
  ⟨entry.encodingKey, UInt32.ofNat ((table.idxOf? entry.espec).getD 0), entry.fileSize⟩

theorem pageEntry_of_mem {table : List String} {entry : EKeyEntryData} (h : entry.espec ∈ table) :
    entry.pageEntry table = .ok (entry.indexed table) := by
  obtain ⟨index, hindex⟩ := Option.isSome_iff_exists.mp (List.isSome_idxOf?.mpr h)
  rw [EKeyEntryData.pageEntry, EKeyEntryData.indexed, hindex]
  rfl

/-- The entries of the content key pages, in their order. -/
def EncodingBuilder.ckeyPageEntries (builder : EncodingBuilder) : List CKeyPageEntry :=
  (sortBy (fun entry : CKeyEntryData => entry.contentKey.rank) builder.ckeyEntries).map
    CKeyEntryData.pageEntry

/-- The entries of the encoding key pages, in their order. -/
def EncodingBuilder.ekeyPageEntries (builder : EncodingBuilder) : List EKeyPageEntry :=
  (sortBy (fun entry : EKeyEntryData => entry.encodingKey.rank) builder.ekeyEntries).map
    (EKeyEntryData.indexed (buildESpecTable builder.ekeyEntries))

/-- `ckey_page_size`. -/
def EncodingBuilder.ckeyPageSize (builder : EncodingBuilder) : ℕ :=
  builder.ckeyPageSizeKb.toNat * 1024

/-- `ekey_page_size`. -/
def EncodingBuilder.ekeyPageSize (builder : EncodingBuilder) : ℕ :=
  builder.ekeyPageSizeKb.toNat * 1024

/-- The content key pages. -/
def EncodingBuilder.ckeyPages (builder : EncodingBuilder) : List (Page CKeyPageEntry) :=
  (pagesOf ckeyEntrySize builder.ckeyPageSize builder.ckeyPageEntries).map
    (serializePage (writeCKeyEntry 16 16) builder.ckeyPageSize)

/-- The encoding key pages. -/
def EncodingBuilder.ekeyPages (builder : EncodingBuilder) : List (Page EKeyPageEntry) :=
  (pagesOf ekeyEntrySize builder.ekeyPageSize builder.ekeyPageEntries).map
    (serializePage (writeEKeyEntry 16) builder.ekeyPageSize)

/-- The file that is built. -/
def EncodingBuilder.file (builder : EncodingBuilder) : EncodingFile where
  header := {
    magic := magic
    version := 1
    ckeyHashSize := 16
    ekeyHashSize := 16
    ckeyPageSizeKb := builder.ckeyPageSizeKb
    ekeyPageSizeKb := builder.ekeyPageSizeKb
    ckeyPageCount := UInt32.ofNat builder.ckeyPages.length
    ekeyPageCount := UInt32.ofNat builder.ekeyPages.length
    unk11 := 0
    especBlockSize := UInt32.ofNat (writeESpecs (buildESpecTable builder.ekeyEntries)).length }
  especTable := buildESpecTable builder.ekeyEntries
  ckeyIndex := buildIndex md5 CKeyPageEntry.contentKey builder.ckeyPages
  ckeyPages := builder.ckeyPages
  ekeyIndex := buildIndex md5 EKeyPageEntry.encodingKey builder.ekeyPages
  ekeyPages := builder.ekeyPages
  trailingEspec := builder.trailingEspec

variable {md5}

/-- **Building never fails.** -/
theorem EncodingBuilder.build_eq_ok (builder : EncodingBuilder) :
    builder.build md5 = .ok (builder.file md5) := by
  have hentries : (sortBy (fun entry : EKeyEntryData => entry.encodingKey.rank)
      builder.ekeyEntries).mapM (EKeyEntryData.pageEntry (buildESpecTable builder.ekeyEntries)) =
        Except.ok builder.ekeyPageEntries := by
    refine Program.except_mapM_of_forall fun entry hentry => pageEntry_of_mem ?_
    exact mem_buildESpecTable.mpr ⟨entry, mem_sortBy.mp hentry, rfl⟩
  have hpages : buildEkeyPages builder.ekeyPageSize (buildESpecTable builder.ekeyEntries)
      builder.ekeyEntries = .ok builder.ekeyPages := by
    rw [buildEkeyPages, hentries]
    rfl
  unfold EncodingBuilder.build
  change (buildEkeyPages builder.ekeyPageSize _ _ >>= _) = _
  rw [hpages]
  rfl

/-! ### The entries come back -/

theorem splitFileSize_eq (fileSize : UInt64) :
    joinFileSize (splitFileSize fileSize) = fileSize &&& 0xffffffffff := by
  rw [joinFileSize, splitFileSize, UInt64.or_comm]
  exact join_mask40 fileSize

theorem and_mask40 (n : ℕ) : n &&& 1099511627775 = n % 1099511627776 :=
  Nat.and_two_pow_sub_one_eq_mod n 40

/-- A file size comes back exactly if it has 40 bits. -/
theorem joinFileSize_splitFileSize_iff {fileSize : UInt64} :
    joinFileSize (splitFileSize fileSize) = fileSize ↔ fileSize.toNat < 2 ^ 40 := by
  rw [splitFileSize_eq, ← UInt64.toNat_inj, UInt64.toNat_and]
  change fileSize.toNat &&& 1099511627775 = fileSize.toNat ↔ _
  rw [and_mask40]
  omega

/-- A file size that was read has 40 bits. -/
theorem joinFileSize_lt (fields : UInt8 × UInt32) : (joinFileSize fields).toNat < 2 ^ 40 := by
  have hhigh : fields.1.toNat < 256 := fields.1.toNat_lt
  have hlow : fields.2.toNat < 2 ^ 32 := fields.2.toNat_lt
  have hshift : (fields.1.toUInt64 <<< 32).toNat = fields.1.toNat * 2 ^ 32 := by
    rw [UInt64.toNat_shiftLeft, UInt8.toNat_toUInt64]
    change fields.1.toNat <<< 32 % 2 ^ 64 = _
    rw [Nat.shiftLeft_eq, Nat.mod_eq_of_lt (by omega)]
  rw [joinFileSize, UInt64.toNat_or, hshift, UInt32.toNat_toUInt64]
  exact Nat.or_lt_two_pow (by omega) (by omega)

theorem reads_readKey (key : Key) : Reads (readKey 16) (key.bytes.take 16) key := by
  have h := (reads_exactly EncodingError.binRw key.length_eq).map (g := Key.padded)
  rw [Key.padded_bytes] at h
  rwa [List.take_of_length_le key.length_eq.le]

/-- An entry of a content key page that can be read. -/
structure CKeyPageEntry.Readable (entry : CKeyPageEntry) : Prop where
  pos : entry.keyCount ≠ 0
  counted : entry.keyCount.toNat = entry.encodingKeys.length
  size : entry.fileSize.toNat < 2 ^ 40

/-- An entry of an encoding key page that can be read. -/
structure EKeyPageEntry.Readable (entry : EKeyPageEntry) : Prop where
  key : ¬isEKeyPadding entry.encodingKey entry.especIndex
  size : entry.fileSize.toNat < 2 ^ 40

theorem reads_readCKeyEntry {entry : CKeyPageEntry} (h : entry.Readable) :
    Reads (readCKeyEntry 16 16) (writeCKeyEntry 16 16 entry) entry := by
  refine (reads_value EncodingError.binRw uint8 entry.keyCount).bind ?_
  rw [if_neg h.pos]
  refine (reads_value EncodingError.binRw fileSizeLayout _).bind
    ((reads_readKey entry.contentKey).bind ?_)
  have hkeys : Reads (several (readKey 16) entry.encodingKeys.length)
      (entry.encodingKeys.flatMap fun key => key.bytes.take 16) (entry.encodingKeys.map id) :=
    reads_several fun key _ => reads_readKey key
  rw [← h.counted, List.map_id] at hkeys
  rw [joinFileSize_splitFileSize_iff.mpr h.size]
  exact hkeys.bind_nil (reads_pure _)

theorem reads_readEKeyEntry {entry : EKeyPageEntry} (h : entry.Readable) :
    Reads (readEKeyEntry 16) (writeEKeyEntry 16 entry) entry := by
  refine (reads_readKey entry.encodingKey).bind
    ((reads_value EncodingError.binRw uint32.reversed _).bind ?_)
  rw [if_neg h.key]
  have hsize := (reads_value EncodingError.binRw fileSizeLayout (splitFileSize entry.fileSize))
  refine hsize.bind_nil ?_
  rw [joinFileSize_splitFileSize_iff.mpr h.size]
  exact reads_pure _

theorem readable_of_readCKeyEntry {ckeySize ekeySize : ℕ} {input rest : List UInt8}
    {entry : CKeyPageEntry} (h : readCKeyEntry ckeySize ekeySize input = .ok (entry, rest)) :
    entry.Readable := by
  obtain ⟨keyCount, input₁, -, h⟩ := bind_eq_ok_iff.mp h
  split_ifs at h with hzero
  · exact absurd h throw_ne_ok
  · obtain ⟨fields, input₂, -, h⟩ := bind_eq_ok_iff.mp h
    obtain ⟨contentKey, input₃, -, h⟩ := bind_eq_ok_iff.mp h
    obtain ⟨encodingKeys, input₄, hkeys, h⟩ := bind_eq_ok_iff.mp h
    obtain ⟨rfl, -⟩ := pure_eq_ok_iff.mp h
    exact ⟨hzero, (length_of_several hkeys).symm, joinFileSize_lt fields⟩

theorem readable_of_readEKeyEntry {ekeySize : ℕ} {input rest : List UInt8}
    {entry : EKeyPageEntry} (h : readEKeyEntry ekeySize input = .ok (entry, rest)) :
    entry.Readable := by
  obtain ⟨encodingKey, input₁, -, h⟩ := bind_eq_ok_iff.mp h
  obtain ⟨especIndex, input₂, -, h⟩ := bind_eq_ok_iff.mp h
  split_ifs at h with hpadding
  · exact absurd h throw_ne_ok
  · obtain ⟨fields, input₃, -, h⟩ := bind_eq_ok_iff.mp h
    obtain ⟨rfl, -⟩ := pure_eq_ok_iff.mp h
    exact ⟨hpadding, joinFileSize_lt fields⟩

/-! ### A page comes back -/

/-- **The loop over a page reads the longest run of entries**, and accepts what is left if it is
short or looks like padding. -/
theorem readEntries_eq_ok_iff {T : Type} {format : EntryFormat T} {before entries : List T}
    {input : List UInt8} :
    readEntries format before input = .ok entries ↔
      ∃ read tail, Run format.read input read tail ∧ Stuck format.read tail ∧
        entries = before ++ read ∧
        (tail.length < format.minEntrySize ∨ format.isPadding tail ∨ tail = []) := by
  have hnil : Stuck format.read [] := fun _ h => absurd (format.shorter h) (Nat.not_lt_zero _)
  fun_induction readEntries format before input with
  | case1 before =>
    constructor
    · intro h
      exact ⟨[], [], .nil [], hnil, by rw [List.append_nil, Except.ok.inj h], .inr (.inr rfl)⟩
    · rintro ⟨read, tail, hrun, -, rfl, -⟩
      cases hrun with
      | nil => rw [List.append_nil]
      | cons h => exact absurd h (hnil _)
  | case2 before input hne entry rest hentry ih =>
    refine ih.trans ?_
    constructor
    · rintro ⟨read, tail, hrun, hstuck, rfl, htail⟩
      exact ⟨entry :: read, tail, .cons hentry hrun, hstuck, by simp, htail⟩
    · rintro ⟨read, tail, hrun, hstuck, rfl, htail⟩
      cases hrun with
      | nil => exact absurd hentry (hstuck _)
      | cons h hrun =>
        obtain ⟨rfl, rfl⟩ := Prod.mk.inj (Except.ok.inj (hentry.symm.trans h))
        exact ⟨_, tail, hrun, hstuck, by simp, htail⟩
  | case3 before input hne e herror hend =>
    have hstuck : Stuck format.read input := stuck_iff.mpr ⟨e, herror⟩
    constructor
    · intro h
      refine ⟨[], input, .nil input, hstuck, by rw [List.append_nil, Except.ok.inj h], ?_⟩
      exact hend.imp_right Or.inl
    · rintro ⟨read, tail, hrun, -, rfl, -⟩
      cases hrun with
      | nil => rw [List.append_nil]
      | cons h => exact absurd h (hstuck _)
  | case4 before input hne e herror hend =>
    have hstuck : Stuck format.read input := stuck_iff.mpr ⟨e, herror⟩
    constructor
    · exact nofun
    · rintro ⟨read, tail, hrun, -, rfl, htail⟩
      cases hrun with
      | nil =>
        rw [← or_assoc] at htail
        exact absurd htail (not_or.mpr ⟨hend, hne⟩)
      | cons h => exact absurd h (hstuck _)

/-- Bytes of a layout that are all zero. -/
theorem eq_of_forall_zero {α : Type} (layout : Layout α) {a zero : α}
    (hzero : layout.encode zero = List.replicate layout.width 0)
    (h : ∀ b ∈ layout.encode a, b = 0) : a = zero := by
  apply layout.encode_injective
  rw [hzero, ← layout.length_encode a]
  exact List.eq_replicate_iff.mpr ⟨rfl, h⟩

theorem bytes_padded (bytes : List UInt8) :
    (Key.padded bytes).bytes = (bytes ++ List.replicate 16 0).take 16 := by
  refine Key.layout.encode_decode _ ?_
  rw [List.length_take, List.length_append, List.length_replicate]
  exact Nat.min_eq_left (Nat.le_add_left _ _)

/-- Behind the last content key there is no entry. -/
theorem stuck_readCKeyEntry {ckeySize ekeySize : ℕ} {zeros : List UInt8}
    (h : ∀ b ∈ zeros, b = 0) : Stuck (readCKeyEntry ckeySize ekeySize) zeros := by
  rintro ⟨entry, rest⟩ hread
  obtain ⟨keyCount, input₁, hcount, hread⟩ := bind_eq_ok_iff.mp hread
  rw [spells_value _ _ _ _ _ hcount] at h
  have hzero : keyCount = 0 := eq_of_forall_zero uint8 (by decide) fun b hb =>
    h b (List.mem_append_left _ hb)
  rw [if_pos hzero] at hread
  exact throw_ne_ok hread

/-- Behind the last encoding key there is no entry. -/
theorem stuck_readEKeyEntry {ekeySize : ℕ} {zeros : List UInt8} (h : ∀ b ∈ zeros, b = 0) :
    Stuck (readEKeyEntry ekeySize) zeros := by
  rintro ⟨entry, rest⟩ hread
  obtain ⟨encodingKey, input₁, hkey, hbody⟩ := bind_eq_ok_iff.mp hread
  obtain ⟨especIndex, input₂, hespec, hentry⟩ := bind_eq_ok_iff.mp hbody
  rw [readKey, ← bind_pure_comp] at hkey
  obtain ⟨bytes, later, hbytes, hkey⟩ := bind_eq_ok_iff.mp hkey
  obtain ⟨rfl, rfl⟩ := pure_eq_ok_iff.mp hkey
  rw [spells_exactly _ _ _ _ _ hbytes, spells_value _ _ _ _ _ hespec] at h
  have hpadding : isEKeyPadding (Key.padded bytes) especIndex := by
    refine .inr ⟨?_, fun b hb => ?_⟩
    · exact eq_of_forall_zero uint32.reversed (by decide) fun b hb =>
        h b (List.mem_append_right _ (List.mem_append_left _ hb))
    · rw [bytes_padded] at hb
      rcases List.mem_append.mp (List.mem_of_mem_take hb) with hb | hb
      · exact h b (List.mem_append_left _ hb)
      · exact List.eq_of_mem_replicate hb
  rw [if_pos hpadding] at hentry
  exact throw_ne_ok hentry

/-- **The entries of a page come back** exactly if each of them can be read, where zeros end a
page. -/
theorem readEntries_serializePage_iff {T : Type} {format : EntryFormat T} {write : T → List UInt8}
    {P : T → Prop} (hreads : ∀ entry, P entry → Reads format.read (write entry) entry)
    (hsound : ∀ input entry rest, format.read input = .ok (entry, rest) → P entry)
    (hzeros : ∀ n, Stuck format.read (List.replicate n 0) ∧ (n < format.minEntrySize ∨
      format.isPadding (List.replicate n 0))) {pageSize : ℕ} {entries : List T} :
    readEntries format [] (serializePage write pageSize entries).originalData = .ok entries ↔
      ∀ entry ∈ entries, P entry := by
  rw [readEntries_eq_ok_iff]
  constructor
  · rintro ⟨read, tail, hrun, -, rfl, -⟩
    exact hrun.forall_mem hsound
  · intro h
    have hrun := run_of_reads (g := id) (fun entry hentry => hreads entry (h entry hentry))
      (List.replicate (pageSize - (entries.flatMap write).length) 0)
    rw [List.map_id] at hrun
    obtain ⟨hstuck, hend⟩ := hzeros (pageSize - (entries.flatMap write).length)
    refine ⟨entries, _, hrun, hstuck, rfl, ?_⟩
    rw [List.length_replicate]
    exact hend.imp_right Or.inl

/-- A page has its size exactly if its entries have room. -/
theorem length_serializePage_iff {T : Type} {write : T → List UInt8} {size : T → ℕ}
    (hsize : ∀ entry, (write entry).length = size entry) {pageSize : ℕ} {entries : List T} :
    (serializePage write pageSize entries).originalData.length = pageSize ↔
      total size entries ≤ pageSize := by
  have hwritten : (entries.flatMap write).length = total size entries := by
    rw [List.length_flatMap, total]
    exact congrArg List.sum (List.map_congr_left fun entry _ => hsize entry)
  rw [serializePage, List.length_append, List.length_replicate, hwritten]
  omega

theorem length_writeCKeyEntry (entry : CKeyPageEntry) :
    (writeCKeyEntry 16 16 entry).length = ckeyEntrySize entry := by
  have htake : ∀ key : Key, (key.bytes.take 16).length = 16 := fun key => by
    rw [List.length_take, key.length_eq, Nat.min_self]
  have hkeys : ∀ keys : List Key, (keys.flatMap fun key => key.bytes.take 16).length =
      16 * keys.length := fun keys => by
    rw [List.length_flatMap]
    simp [htake, Nat.mul_comm]
  have hcount : uint8.width = 1 := rfl
  have hfields : fileSizeLayout.width = 5 := rfl
  simp only [writeCKeyEntry, List.length_append, length_encode, htake, hkeys, ckeyEntrySize, hcount,
    hfields]
  omega

theorem length_writeEKeyEntry (entry : EKeyPageEntry) :
    (writeEKeyEntry 16 entry).length = ekeyEntrySize entry := by
  have htake : (entry.encodingKey.bytes.take 16).length = 16 := by
    rw [List.length_take, entry.encodingKey.length_eq, Nat.min_self]
  have hespec : uint32.reversed.width = 4 := rfl
  have hfields : fileSizeLayout.width = 5 := rfl
  simp only [writeEKeyEntry, List.length_append, length_encode, htake, ekeyEntrySize, hespec,
    hfields]

/-! ### A file comes back -/

/-- **A builder whose file can be read.** -/
structure EncodingBuilder.Sound (builder : EncodingBuilder) : Prop where
  ckeyEntries : ∀ entry ∈ builder.ckeyEntries, 0 < entry.encodingKeys.length ∧
    entry.encodingKeys.length ≤ 255 ∧ 22 + 16 * entry.encodingKeys.length ≤ builder.ckeyPageSize ∧
    entry.fileSize.toNat < 2 ^ 40
  ekeyEntries : ∀ entry ∈ builder.ekeyEntries,
    ¬isEKeyPadding entry.encodingKey
      (entry.indexed (buildESpecTable builder.ekeyEntries)).especIndex ∧
    entry.fileSize.toNat < 2 ^ 40 ∧ entry.espec ≠ "" ∧ Char.ofNat 0 ∉ entry.espec.toList
  ckeyEntries_ne_nil : builder.ckeyEntries ≠ []
  ekeyEntries_ne_nil : builder.ekeyEntries ≠ []
  ekeyPageSize : builder.ekeyPageSizeKb ≠ 0
  ckeyPages : builder.ckeyPages.length < 2 ^ 32
  ekeyPages : builder.ekeyPages.length < 2 ^ 32
  trailing : builder.trailingEspec ≠ some ""

/-- The pages that are built fit exactly if their entries do. -/
theorem forall₂_fits_iff {T : Type} {format : EntryFormat T} {write : T → List UInt8}
    {P : T → Prop} (hreads : ∀ entry, P entry → Reads format.read (write entry) entry)
    (hsound : ∀ input entry rest, format.read input = .ok (entry, rest) → P entry)
    (hzeros : ∀ n, Stuck format.read (List.replicate n 0) ∧ (n < format.minEntrySize ∨
      format.isPadding (List.replicate n 0))) {size : T → ℕ}
    (hsize : ∀ entry, (write entry).length = size entry) (firstKey : T → Key) {pageSize : ℕ}
    {entries : List T} :
    List.Forall₂ (Page.Fits md5 format pageSize)
        (buildIndex md5 firstKey
          ((pagesOf size pageSize entries).map (serializePage write pageSize)))
        ((pagesOf size pageSize entries).map (serializePage write pageSize)) ↔
      (∀ entry ∈ entries, P entry) ∧ ∀ entry ∈ entries, size entry ≤ pageSize := by
  have hgroups : (∀ entry ∈ entries, P entry) ↔
      ∀ group ∈ pagesOf size pageSize entries, ∀ entry ∈ group, P entry := by
    conv_lhs => rw [← flatten_pagesOf size pageSize entries]
    simp only [List.mem_flatten]
    exact ⟨fun h group hgroup entry hentry => h entry ⟨group, hgroup, hentry⟩,
      fun h entry ⟨group, hgroup, hentry⟩ => h group hgroup entry hentry⟩
  rw [buildIndex, List.forall₂_map_left_iff, List.forall₂_same, List.forall_mem_map, hgroups,
    ← forall_total_le_iff size pageSize]
  constructor
  · intro h
    refine ⟨fun group hgroup => ?_, fun group hgroup => ?_⟩
    · exact (readEntries_serializePage_iff hreads hsound hzeros).mp (h group hgroup).entries
    · exact (length_serializePage_iff hsize).mp (h group hgroup).length
  · rintro ⟨hreadable, hfits⟩ group hgroup
    exact ⟨(length_serializePage_iff hsize).mpr (hfits group hgroup), rfl,
      (readEntries_serializePage_iff hreads hsound hzeros).mpr (hreadable group hgroup)⟩

variable {builder : EncodingBuilder}

/-- An entry is written as it was added exactly if its encoding keys can be counted. -/
theorem readable_pageEntry_iff {entry : CKeyEntryData} :
    entry.pageEntry.Readable ↔ 0 < entry.encodingKeys.length ∧ entry.encodingKeys.length ≤ 255 ∧
      entry.fileSize.toNat < 2 ^ 40 := by
  have hcount : entry.pageEntry.keyCount.toNat = entry.encodingKeys.length % 256 := by
    rw [CKeyEntryData.pageEntry, UInt8.toNat_ofNat']
  constructor
  · rintro ⟨hpos, hcounted, hsize⟩
    rw [ne_eq, ← UInt8.toNat_inj] at hpos
    rw [hcounted] at hcount hpos
    have hkeys : entry.pageEntry.encodingKeys = entry.encodingKeys := rfl
    rw [hkeys] at hcount hpos
    have hzero : (0 : UInt8).toNat = 0 := rfl
    exact ⟨by omega, by omega, hsize⟩
  · rintro ⟨hpos, hle, hsize⟩
    rw [Nat.mod_eq_of_lt (by omega)] at hcount
    refine ⟨fun hzero => ?_, hcount, hsize⟩
    rw [hzero] at hcount
    exact hpos.ne hcount

theorem forall₂_ckeyPages_iff :
    List.Forall₂ (Page.Fits md5 (ckeyFormat (builder.file md5).header) builder.ckeyPageSize)
        (buildIndex md5 CKeyPageEntry.contentKey builder.ckeyPages) builder.ckeyPages ↔
      ∀ entry ∈ builder.ckeyEntries, 0 < entry.encodingKeys.length ∧
        entry.encodingKeys.length ≤ 255 ∧
        22 + 16 * entry.encodingKeys.length ≤ builder.ckeyPageSize ∧
        entry.fileSize.toNat < 2 ^ 40 := by
  have hzeros : ∀ n, Stuck (ckeyFormat (builder.file md5).header).read (List.replicate n 0) ∧
      (n < (ckeyFormat (builder.file md5).header).minEntrySize ∨
        (ckeyFormat (builder.file md5).header).isPadding (List.replicate n 0)) := by
    refine fun n => ⟨stuck_readCKeyEntry fun b hb => List.eq_of_mem_replicate hb, ?_⟩
    cases n with
    | zero => exact .inl (Nat.zero_lt_succ _)
    | succ n => exact .inr rfl
  rw [EncodingBuilder.ckeyPages, forall₂_fits_iff (P := CKeyPageEntry.Readable)
    (fun entry => reads_readCKeyEntry) (fun _ _ _ => readable_of_readCKeyEntry) hzeros
    length_writeCKeyEntry]
  simp only [EncodingBuilder.ckeyPageEntries, List.forall_mem_map, mem_sortBy,
    readable_pageEntry_iff]
  constructor
  · rintro ⟨hreadable, hfits⟩ entry hentry
    obtain ⟨hpos, hle, hsize⟩ := hreadable entry hentry
    exact ⟨hpos, hle, hfits entry hentry, hsize⟩
  · intro h
    refine ⟨fun entry hentry => ?_, fun entry hentry => (h entry hentry).2.2.1⟩
    obtain ⟨hpos, hle, -, hsize⟩ := h entry hentry
    exact ⟨hpos, hle, hsize⟩

theorem forall₂_ekeyPages_iff (hne : builder.ekeyEntries ≠ []) :
    List.Forall₂ (Page.Fits md5 (ekeyFormat (builder.file md5).header) builder.ekeyPageSize)
        (buildIndex md5 EKeyPageEntry.encodingKey builder.ekeyPages) builder.ekeyPages ↔
      (∀ entry ∈ builder.ekeyEntries, ¬isEKeyPadding entry.encodingKey
        (entry.indexed (buildESpecTable builder.ekeyEntries)).especIndex ∧
        entry.fileSize.toNat < 2 ^ 40) ∧ builder.ekeyPageSizeKb ≠ 0 := by
  have hzeros : ∀ n, Stuck (ekeyFormat (builder.file md5).header).read (List.replicate n 0) ∧
      (n < (ekeyFormat (builder.file md5).header).minEntrySize ∨
        (ekeyFormat (builder.file md5).header).isPadding (List.replicate n 0)) := by
    refine fun n => ⟨stuck_readEKeyEntry fun b hb => List.eq_of_mem_replicate hb, ?_⟩
    rcases Nat.lt_or_ge n 25 with hlt | hge
    · exact .inl hlt
    · right
      have htake : (List.replicate n (0 : UInt8)).take 20 = List.replicate 20 0 := by
        rw [List.take_replicate, Nat.min_eq_left (by omega)]
      change decide (((List.replicate n (0 : UInt8)).take 20).length = 20 ∧
        (uint32.reversed.decode (((List.replicate n (0 : UInt8)).take 20).drop 16) = 0xffffffff ∨
          uint32.reversed.decode (((List.replicate n (0 : UInt8)).take 20).drop 16) = 0 ∧
            (((List.replicate n (0 : UInt8)).take 20).take 16).all (· == 0))) = true
      rw [htake]
      exact decide_eq_true ⟨rfl, .inr ⟨rfl, rfl⟩⟩
  rw [EncodingBuilder.ekeyPages, forall₂_fits_iff (P := EKeyPageEntry.Readable)
    (fun entry => reads_readEKeyEntry) (fun _ _ _ => readable_of_readEKeyEntry) hzeros
    length_writeEKeyEntry]
  simp only [EncodingBuilder.ekeyPageEntries, List.forall_mem_map, mem_sortBy]
  constructor
  · rintro ⟨hreadable, hfits⟩
    refine ⟨fun entry hentry => ⟨(hreadable entry hentry).key, (hreadable entry hentry).size⟩, ?_⟩
    obtain ⟨entry, hentry⟩ := List.exists_mem_of_ne_nil _ hne
    have hroom : 25 ≤ builder.ekeyPageSize := hfits entry hentry
    rintro hzero
    rw [EncodingBuilder.ekeyPageSize, hzero] at hroom
    exact absurd hroom (by decide)
  · rintro ⟨hreadable, hsize⟩
    refine ⟨fun entry hentry => ⟨(hreadable entry hentry).1, (hreadable entry hentry).2⟩, ?_⟩
    intro entry _
    rw [ne_eq, ← UInt16.toNat_inj] at hsize
    have hzero : (0 : UInt16).toNat = 0 := rfl
    change 25 ≤ builder.ekeyPageSizeKb.toNat * 1024
    omega

theorem ckeyPages_eq_nil_iff : builder.ckeyPages = [] ↔ builder.ckeyEntries = [] := by
  rw [EncodingBuilder.ckeyPages, List.map_eq_nil_iff, pagesOf_eq_nil_iff,
    EncodingBuilder.ckeyPageEntries, List.map_eq_nil_iff, ← List.length_eq_zero_iff,
    perm_sortBy.length_eq, List.length_eq_zero_iff]

theorem ekeyPages_eq_nil_iff : builder.ekeyPages = [] ↔ builder.ekeyEntries = [] := by
  rw [EncodingBuilder.ekeyPages, List.map_eq_nil_iff, pagesOf_eq_nil_iff,
    EncodingBuilder.ekeyPageEntries, List.map_eq_nil_iff, ← List.length_eq_zero_iff,
    perm_sortBy.length_eq, List.length_eq_zero_iff]

/-- The header of a built file is valid if its counts are not zero. -/
theorem validate_file_iff : (builder.file md5).header.validate = .ok () ↔
    UInt32.ofNat builder.ckeyPages.length ≠ 0 ∧ UInt32.ofNat builder.ekeyPages.length ≠ 0 ∧
      UInt32.ofNat (writeESpecs (buildESpecTable builder.ekeyEntries)).length ≠ 0 := by
  unfold EncodingHeader.validate EncodingBuilder.file
  dsimp only
  rw [if_neg (by decide), if_neg (by decide), if_neg (by decide), if_neg (by decide)]
  split_ifs <;> simp [*]

variable (builder) in
theorem indexed_file : (builder.file md5).Indexed :=
  ⟨(List.length_map _).ge, (List.length_map _).ge⟩

theorem ofNat_eq_self_iff {n : ℕ} : n = (UInt32.ofNat n).toNat ↔ n < 2 ^ 32 := by
  rw [UInt32.toNat_ofNat']
  omega

theorem ofNat_ne_zero_iff {n : ℕ} (h : n < 2 ^ 32) : UInt32.ofNat n ≠ 0 ↔ n ≠ 0 := by
  rw [ne_eq, ← UInt32.toNat_inj, UInt32.toNat_ofNat', Nat.mod_eq_of_lt h]
  rfl

/-- **What is built can be read back** exactly if the builder is sound. -/
theorem parse_build_iff_sound {file : EncodingFile} {bytes : List UInt8}
    (hfile : builder.build md5 = .ok file) (hbytes : file.build md5 = .ok bytes) :
    parse md5 bytes = .ok file ↔ builder.Sound := by
  rw [builder.build_eq_ok] at hfile
  obtain rfl := Except.ok.inj hfile
  have hspecs : (∀ spec ∈ (builder.file md5).especTable,
      spec ≠ "" ∧ Char.ofNat 0 ∉ spec.toList) ↔
        ∀ entry ∈ builder.ekeyEntries, entry.espec ≠ "" ∧ Char.ofNat 0 ∉ entry.espec.toList := by
    change (∀ spec ∈ buildESpecTable builder.ekeyEntries, _) ↔ _
    simp only [mem_buildESpecTable]
    exact ⟨fun h entry hentry => h _ ⟨entry, hentry, rfl⟩,
      fun h spec ⟨entry, hentry, heq⟩ => heq ▸ h entry hentry⟩
  rw [parse_build_iff_stands hbytes, hspecs]
  constructor
  · rintro ⟨hstands, hespecs, htrailing⟩
    have hckeyPages : builder.ckeyPages.length < 2 ^ 32 :=
      ofNat_eq_self_iff.mp ((List.length_map _).symm.trans hstands.ckeyCount)
    have hekeyPages : builder.ekeyPages.length < 2 ^ 32 :=
      ofNat_eq_self_iff.mp ((List.length_map _).symm.trans hstands.ekeyCount)
    obtain ⟨hckey, hekey, -⟩ := validate_file_iff.mp hstands.valid
    rw [ofNat_ne_zero_iff hckeyPages, ne_eq, List.length_eq_zero_iff, ckeyPages_eq_nil_iff] at hckey
    rw [ofNat_ne_zero_iff hekeyPages, ne_eq, List.length_eq_zero_iff, ekeyPages_eq_nil_iff] at hekey
    obtain ⟨hekeyEntries, hekeyPageSize⟩ := (forall₂_ekeyPages_iff hekey).mp hstands.ekeyPages
    exact {
      ckeyEntries := forall₂_ckeyPages_iff.mp hstands.ckeyPages
      ekeyEntries := fun entry hentry => ⟨(hekeyEntries entry hentry).1,
        (hekeyEntries entry hentry).2, hespecs entry hentry⟩
      ckeyEntries_ne_nil := hckey
      ekeyEntries_ne_nil := hekey
      ekeyPageSize := hekeyPageSize
      ckeyPages := hckeyPages
      ekeyPages := hekeyPages
      trailing := htrailing }
  · intro hsound
    have hckey : builder.ckeyPages.length ≠ 0 := by
      rw [ne_eq, List.length_eq_zero_iff, ckeyPages_eq_nil_iff]
      exact hsound.ckeyEntries_ne_nil
    have hekey : builder.ekeyPages.length ≠ 0 := by
      rw [ne_eq, List.length_eq_zero_iff, ekeyPages_eq_nil_iff]
      exact hsound.ekeyEntries_ne_nil
    -- every specification takes a byte at least
    have hespec : UInt32.ofNat (writeESpecs (buildESpecTable builder.ekeyEntries)).length ≠ 0 := by
      intro hzero
      obtain ⟨hlength, -⟩ := build_eq_ok_iff.mp hbytes
      change (writeESpecs (buildESpecTable builder.ekeyEntries)).length =
        (UInt32.ofNat (writeESpecs (buildESpecTable builder.ekeyEntries)).length).toNat at hlength
      rw [hzero] at hlength
      obtain ⟨entry, hentry⟩ := List.exists_mem_of_ne_nil _ hsound.ekeyEntries_ne_nil
      have hmem := mem_buildESpecTable.mpr ⟨entry, hentry, rfl⟩
      have hnil := List.length_eq_zero_iff.mp hlength
      have hzero' : (0 : UInt8) ∈ writeESpecs (buildESpecTable builder.ekeyEntries) :=
        List.mem_flatMap.mpr ⟨_, hmem, List.mem_append_right _ (List.mem_singleton.mpr rfl)⟩
      rw [hnil] at hzero'
      exact List.not_mem_nil hzero'
    refine ⟨?_, fun entry hentry => (hsound.ekeyEntries entry hentry).2.2, hsound.trailing⟩
    exact {
      magic := rfl
      valid := validate_file_iff.mpr ⟨(ofNat_ne_zero_iff hsound.ckeyPages).mpr hckey,
        (ofNat_ne_zero_iff hsound.ekeyPages).mpr hekey, hespec⟩
      ckeyCount := (List.length_map _).trans (ofNat_eq_self_iff.mpr hsound.ckeyPages)
      ekeyCount := (List.length_map _).trans (ofNat_eq_self_iff.mpr hsound.ekeyPages)
      ckeyPages := forall₂_ckeyPages_iff.mpr hsound.ckeyEntries
      ekeyPages := (forall₂_ekeyPages_iff hsound.ekeyEntries_ne_nil).mpr
        ⟨fun entry hentry => ⟨(hsound.ekeyEntries entry hentry).1,
          (hsound.ekeyEntries entry hentry).2.1⟩, hsound.ekeyPageSize⟩ }

/-- A builder of a file and of the root file that has it. -/
def sampleEncodingBuilder : EncodingBuilder where
  ckeyEntries :=
    [⟨Key.constant 0x11, 5, [Key.constant 0x33]⟩, ⟨sampleRootKey, 40, [Key.constant 0x22]⟩]
  ekeyEntries := [⟨Key.constant 0x33, "n", 5⟩, ⟨Key.constant 0x22, "n", 40⟩]
  ckeyPageSizeKb := 1
  ekeyPageSizeKb := 1
  trailingEspec := none

/-- The checksums of its two pages. -/
def sampleMd5 (data : List UInt8) : Key :=
  if data.head? = some 1 then
    ⟨[0x22, 0xc0, 0x87, 0x02, 0xf4, 0xf9, 0xd7, 0xa8,
      0xd6, 0xfb, 0xdf, 0x5d, 0xdd, 0xb8, 0x45, 0xa2], rfl⟩
  else
    ⟨[0xf2, 0xed, 0x02, 0x81, 0x6d, 0xe4, 0xd5, 0x28,
      0x75, 0x0e, 0x86, 0x0d, 0xcd, 0x8b, 0xae, 0x2e], rfl⟩

theorem sound_sampleEncodingBuilder : sampleEncodingBuilder.Sound where
  ckeyEntries := by decide
  ekeyEntries := by
    simp only [sampleEncodingBuilder, List.forall_mem_cons, List.not_mem_nil, false_implies,
      implies_true, and_true]
    decide
  ckeyEntries_ne_nil := by decide
  ekeyEntries_ne_nil := by decide
  ekeyPageSize := by decide
  ckeyPages := by
    rw [EncodingBuilder.ckeyPages, List.length_map]
    decide
  ekeyPages := by
    rw [EncodingBuilder.ekeyPages, List.length_map]
    decide
  trailing := by decide

theorem exists_build_sampleEncodingBuilder :
    ∃ bytes, (sampleEncodingBuilder.file sampleMd5).build sampleMd5 = .ok bytes :=
  ⟨_, build_eq_ok_iff.mpr ⟨by decide, indexed_file _, rfl⟩⟩

theorem parse_build_round_trips_sample : ∃ data file, parse sampleMd5 data = .ok file ∧
    IsUtf8 ((data.drop 22).take file.header.especBlockSize.toNat) ∧
    IsUtf8 (data.drop file.header.dataSize) := by
  obtain ⟨bytes, hbytes⟩ := exists_build_sampleEncodingBuilder
  have hparse := (parse_build_iff_sound sampleEncodingBuilder.build_eq_ok hbytes).mpr
    sound_sampleEncodingBuilder
  exact ⟨bytes, _, hparse, ((parse_build_round_trips sampleMd5).2 _ _ hparse).mp hbytes⟩

end Encoding

end AssetResolver
