import Mathlib.Algebra.BigOperators.Group.List.Basic
import AssetResolver.Formats.RootBuilder

/-!
# Editing root files

A file that was read goes back into a builder and is changed there. What counts are the records
under every pair of flags, in their order (`AssetResolver.Root.Catalog`): every operation of the
builder is an operation on them (`AssetResolver.Root.catalog_apply`), and they say which content a
file has for the client (`AssetResolver.Root.shows_catalog_iff`).

Taking a file over joins its blocks of the same flags, and building it puts the blocks in order.
For the client this is **sorting the blocks by their flags**
(`AssetResolver.Root.lookup_rewritten`): a file whose blocks were in order resolves as before, and
another one need not.

Two functions look at a builder before it is built. `AssetResolver.Root.RootBuilder.validate` finds
files that are twice in a block, but not the numbers that a removal leaves wrong, and
`AssetResolver.Root.RootBuilder.estimateSize` takes the extended header for four bytes shorter than
it is (`AssetResolver.Root.length_of_build`).
-/

namespace AssetResolver

namespace Root

open LastWins StableSort Layout

/-! ### Taking over -/

/-- `locale_flags` and `content_flags`. -/
def RootBlock.flags (block : RootBlock) : UInt32 × UInt64 :=
  (block.header.localeFlags, block.header.contentFlags)

/-- `from_root_file`. -/
def RootBuilder.fromRootFile (file : RootFile) : RootBuilder :=
  file.blocks.foldl (fun builder block =>
    block.records.foldl (fun builder record =>
      builder.addRecord record block.header.localeFlags block.header.contentFlags) builder)
    (.new file.version)

/-- `has_file`. -/
def RootBuilder.hasFile (builder : RootBuilder) (fdid : UInt32) : Bool :=
  builder.blocks.entries.any fun e => e.2.records.any fun record => record.fileDataId = fdid

/-- `has_file_in_block`. -/
def RootBuilder.hasFileInBlock (builder : RootBuilder) (fdid : UInt32) (locale : UInt32)
    (content : UInt64) : Bool :=
  (builder.blocks.get? (locale, content)).any fun block =>
    block.records.any fun record => record.fileDataId = fdid

/-- `find_file`: the first record, in the order in which the blocks are visited. -/
def RootBuilder.findFile (builder : RootBuilder) (order : BlockOrder) (fdid : UInt32) :
    Option Key :=
  (order.arrange builder.blocks.entries).findSome? fun e =>
    (e.2.records.find? fun record => record.fileDataId = fdid).map RootRecord.contentKey

/-! ### The records under every pair of flags -/

/-- The records under every pair of flags, in their order. -/
abbrev Catalog := UInt32 × UInt64 → List RootRecord

/-- The records that a builder keeps. -/
def RootBuilder.catalog (builder : RootBuilder) : Catalog := fun flags =>
  ((builder.blocks.get? flags).map RootBlock.records).getD []

/-- The records of the blocks of a file. -/
def catalogOf (blocks : List RootBlock) : Catalog := fun flags =>
  (blocks.filter fun block => block.flags = flags).flatMap RootBlock.records

/-- What an operation does to the records. -/
def BuilderOp.effect (catalog : Catalog) : BuilderOp → Catalog
  | .addRecord record locale content =>
    Function.update catalog (locale, content) (catalog (locale, content) ++ [record])
  | .removeFile fdid => fun flags =>
    (catalog flags).filter fun record => record.fileDataId ≠ fdid
  | .removeFileFromBlock fdid locale content =>
    Function.update catalog (locale, content)
      ((catalog (locale, content)).filter fun record => record.fileDataId ≠ fdid)
  | .updateFile fdid newKey => fun flags => (catalog flags).map (RootRecord.update fdid newKey)
  | .setVersion _ => catalog
  | .clear => fun _ => []
  | .optimizeBlocks => fun flags => sortBy recordRank (catalog flags)

theorem catalog_of_some {builder : RootBuilder} {flags : UInt32 × UInt64} {block : RootBlock}
    (h : builder.blocks.get? flags = some block) : builder.catalog flags = block.records := by
  rw [RootBuilder.catalog, h]
  rfl

theorem catalog_of_none {builder : RootBuilder} {flags : UInt32 × UInt64}
    (h : builder.blocks.get? flags = none) : builder.catalog flags = [] := by
  rw [RootBuilder.catalog, h]
  rfl

theorem catalog_insert (version : RootVersion) (blocks : Dict (UInt32 × UInt64) RootBlock)
    (flags : UInt32 × UInt64) (block : RootBlock) :
    (⟨version, blocks.insert flags block⟩ : RootBuilder).catalog =
      Function.update (⟨version, blocks⟩ : RootBuilder).catalog flags block.records := by
  funext flags'
  rw [RootBuilder.catalog, Dict.get?_insert, Function.update_apply]
  by_cases hflags : flags = flags'
  · rw [if_pos hflags, if_pos hflags.symm, Option.map_some, Option.getD_some]
  · rw [if_neg hflags, if_neg (Ne.symm hflags)]
    rfl

theorem catalog_erase (version : RootVersion) (blocks : Dict (UInt32 × UInt64) RootBlock)
    (flags : UInt32 × UInt64) :
    (⟨version, blocks.erase flags⟩ : RootBuilder).catalog =
      Function.update (⟨version, blocks⟩ : RootBuilder).catalog flags [] := by
  funext flags'
  rw [RootBuilder.catalog, Dict.get?_erase, Function.update_apply]
  by_cases hflags : flags = flags'
  · rw [if_pos hflags, if_pos hflags.symm, Option.map_none, Option.getD_none]
  · rw [if_neg hflags, if_neg (Ne.symm hflags)]
    rfl

theorem catalog_mapValues (builder : RootBuilder) (f : RootBlock → RootBlock) :
    (⟨builder.version, builder.blocks.mapValues fun _ => f⟩ : RootBuilder).catalog =
      fun flags => ((builder.blocks.get? flags).map fun block => (f block).records).getD [] := by
  funext flags
  rw [RootBuilder.catalog, Dict.get?_mapValues, Option.map_map]
  rfl

/-- **Every operation of the builder is one on its records.** -/
theorem catalog_apply (builder : RootBuilder) (op : BuilderOp) :
    (builder.apply op).catalog = op.effect builder.catalog := by
  cases op with
  | addRecord record locale content =>
    refine (catalog_insert _ _ _ _).trans ?_
    congr 1
    rw [RootBlock.addRecord, RootBuilder.catalog]
    cases builder.blocks.get? (locale, content) <;> rfl
  | removeFile fdid =>
    funext flags
    change (((builder.blocks.mapValues fun _ => RootBlock.without fdid).retain
      fun _ block => !block.records.isEmpty).get? flags |>.map RootBlock.records).getD [] =
        (builder.catalog flags).filter _
    rw [Dict.get?_retain, Dict.get?_mapValues, RootBuilder.catalog]
    cases builder.blocks.get? flags with
    | none => rfl
    | some block =>
      -- a block that is left empty is gone, which leaves as many records
      rw [Option.map_some, Option.filter_some]
      split_ifs with hempty
      · rfl
      · simpa [RootBlock.without] using hempty
  | removeFileFromBlock fdid locale content =>
    change (builder.removeFileFromBlock fdid locale content).1.catalog = Function.update _ _ _
    unfold RootBuilder.removeFileFromBlock
    cases hblock : builder.blocks.get? (locale, content) with
    | none =>
      have hnone := catalog_of_none hblock
      rw [hnone]
      exact (Function.update_eq_self_iff.mpr hnone.symm).symm
    | some block =>
      rw [catalog_of_some hblock]
      dsimp only
      split_ifs with hempty
      · rw [catalog_erase, ← List.isEmpty_iff.mp hempty]
        rfl
      · exact catalog_insert _ _ _ _
  | updateFile fdid newKey =>
    refine (catalog_mapValues builder _).trans ?_
    funext flags
    change _ = (builder.catalog flags).map _
    rw [RootBuilder.catalog]
    cases builder.blocks.get? flags <;> rfl
  | setVersion version => rfl
  | clear => rfl
  | optimizeBlocks =>
    refine (catalog_mapValues builder _).trans ?_
    funext flags
    change _ = sortBy recordRank (builder.catalog flags)
    rw [RootBuilder.catalog]
    cases builder.blocks.get? flags <;> rfl

/-- The operations of a run, one after the other. -/
theorem catalog_foldl_apply (builder : RootBuilder) (ops : List BuilderOp) :
    (ops.foldl RootBuilder.apply builder).catalog = ops.foldl BuilderOp.effect builder.catalog := by
  induction ops generalizing builder with
  | nil => rfl
  | cons op ops ih => rw [List.foldl_cons, List.foldl_cons, ih, catalog_apply]

/-! ### What a builder answers -/

theorem mem_catalog_iff {builder : RootBuilder} {record : RootRecord} :
    (∃ flags, record ∈ builder.catalog flags) ↔
      ∃ e ∈ builder.blocks.entries, record ∈ e.2.records := by
  constructor
  · rintro ⟨flags, hmem⟩
    cases hblock : builder.blocks.get? flags with
    | none =>
      rw [catalog_of_none hblock] at hmem
      exact absurd hmem List.not_mem_nil
    | some block =>
      rw [catalog_of_some hblock] at hmem
      exact ⟨(flags, block), Dict.get?_eq_some_iff.mp hblock, hmem⟩
  · rintro ⟨⟨flags, block⟩, hentry, hmem⟩
    refine ⟨flags, ?_⟩
    rwa [catalog_of_some (Dict.get?_eq_some_iff.mpr hentry)]

theorem hasFile_iff {builder : RootBuilder} {fdid : UInt32} :
    builder.hasFile fdid ↔ ∃ flags, ∃ record ∈ builder.catalog flags, record.fileDataId = fdid := by
  rw [RootBuilder.hasFile]
  simp only [List.any_eq_true, decide_eq_true_eq]
  constructor
  · rintro ⟨e, hentry, record, hrecord, rfl⟩
    obtain ⟨flags, hmem⟩ := mem_catalog_iff.mpr ⟨e, hentry, hrecord⟩
    exact ⟨flags, record, hmem, rfl⟩
  · rintro ⟨flags, record, hmem, rfl⟩
    obtain ⟨e, hentry, hrecord⟩ := mem_catalog_iff.mp ⟨flags, hmem⟩
    exact ⟨e, hentry, record, hrecord, rfl⟩

theorem hasFileInBlock_iff {builder : RootBuilder} {fdid : UInt32} {flags : UInt32 × UInt64} :
    builder.hasFileInBlock fdid flags.1 flags.2 ↔
      ∃ record ∈ builder.catalog flags, record.fileDataId = fdid := by
  rw [RootBuilder.hasFileInBlock, RootBuilder.catalog]
  cases builder.blocks.get? flags <;> simp

/-- **A content that is found is that of some record for the file**, and one is found in whatever
order the blocks are visited, if there is one. -/
theorem findFile_spec {builder : RootBuilder} {order : BlockOrder} {fdid : UInt32} :
    ((builder.findFile order fdid).isSome ↔ builder.hasFile fdid) ∧
      ∀ key, builder.findFile order fdid = some key → ∃ flags, ∃ record ∈ builder.catalog flags,
        record.fileDataId = fdid ∧ record.contentKey = key := by
  have hmem : ∀ e, e ∈ order.arrange builder.blocks.entries ↔ e ∈ builder.blocks.entries :=
    fun _ => (order.perm _).mem_iff
  constructor
  · rw [RootBuilder.findFile, RootBuilder.hasFile]
    simp [List.isSome_findSome?, hmem]
  · intro key hfound
    obtain ⟨e, hentry, hkey⟩ := List.exists_of_findSome?_eq_some hfound
    obtain ⟨record, hrecord, rfl⟩ := Option.map_eq_some_iff.mp hkey
    obtain ⟨flags, hcatalog⟩ :=
      mem_catalog_iff.mpr ⟨e, (hmem e).mp hentry, List.mem_of_find?_eq_some hrecord⟩
    exact ⟨flags, record, hcatalog, by simpa using List.find?_some hrecord, rfl⟩

/-! ### What is taken over -/

/-- The operations that take some blocks over. -/
def takeOver (blocks : List RootBlock) : List BuilderOp :=
  blocks.flatMap fun block => block.records.map fun record =>
    .addRecord record block.header.localeFlags block.header.contentFlags

theorem fromRootFile_eq (file : RootFile) :
    RootBuilder.fromRootFile file =
      (takeOver file.blocks).foldl RootBuilder.apply (.new file.version) := by
  rw [takeOver, List.foldl_flatMap, RootBuilder.fromRootFile]
  simp only [List.foldl_map]
  rfl

theorem reachable_fromRootFile (file : RootFile) : (RootBuilder.fromRootFile file).Reachable :=
  ⟨file.version, takeOver file.blocks, fromRootFile_eq file⟩

/-- The records of a block are added under its flags. -/
theorem foldl_effect_addRecord (flags : UInt32 × UInt64) (records : List RootRecord)
    (catalog : Catalog) :
    (records.map fun record => BuilderOp.addRecord record flags.1 flags.2).foldl
        BuilderOp.effect catalog =
      Function.update catalog flags (catalog flags ++ records) := by
  induction records generalizing catalog with
  | nil => simp
  | cons record records ih =>
    rw [List.map_cons, List.foldl_cons, ih, BuilderOp.effect]
    simp

theorem foldl_effect_takeOver (blocks : List RootBlock) (catalog : Catalog) :
    (takeOver blocks).foldl BuilderOp.effect catalog =
      fun flags => catalog flags ++ catalogOf blocks flags := by
  induction blocks generalizing catalog with
  | nil => simp [takeOver, catalogOf]
  | cons block blocks ih =>
    have hblock : (block.records.map fun record => BuilderOp.addRecord record
        block.header.localeFlags block.header.contentFlags).foldl BuilderOp.effect catalog =
          Function.update catalog block.flags (catalog block.flags ++ block.records) :=
      foldl_effect_addRecord block.flags block.records catalog
    rw [takeOver, List.flatMap_cons, List.foldl_append, ← takeOver, ih, hblock]
    funext flags
    rw [Function.update_apply, catalogOf, catalogOf, List.filter_cons]
    by_cases hflags : block.flags = flags
    · simp [hflags]
    · simp [hflags, Ne.symm hflags]

/-- **Everything is taken over**: under every pair of flags the records of all blocks that have
it, in their order. -/
theorem catalog_fromRootFile (file : RootFile) :
    (RootBuilder.fromRootFile file).catalog = catalogOf file.blocks := by
  rw [fromRootFile_eq, catalog_foldl_apply, foldl_effect_takeOver]
  rfl

/-! ### Whose content a file has -/

/-- The content that the client finds for a file: that of the last record for it, under the
greatest flags of its locale that have one. -/
def Catalog.Shows (catalog : Catalog) (fdid : UInt32) (key : Key) : Prop :=
  ∃ locale content, locale &&& clientLocale ≠ 0 ∧
    IsLast ((catalog (locale, content)).map RootRecord.pair) fdid key ∧
    ∀ locale' content', locale' &&& clientLocale ≠ 0 →
      (locale < locale' ∨ locale = locale' ∧ content < content') →
      ∀ record ∈ catalog (locale', content'), record.fileDataId ≠ fdid

/-- **The records of a builder say what the client finds** in its file. -/
theorem shows_catalog_iff {builder : RootBuilder} (hwf : builder.WellFormed) {fdid : UInt32}
    {key : Key} :
    builder.catalog.Shows fdid key ↔ IsLast (clientRecords builder.file.view) fdid key := by
  rw [isLast_clientRecords_file hwf]
  constructor
  · rintro ⟨locale, content, hlocale, hlast, hgreater⟩
    -- where there are records, there is a block
    cases hblock : builder.blocks.get? (locale, content) with
    | none =>
      rw [catalog_of_none hblock] at hlast
      exact absurd hlast (not_isLast_nil _ _)
    | some block =>
      rw [catalog_of_some hblock] at hlast
      refine ⟨locale, content, block, hblock, hlocale, hlast, ?_⟩
      intro locale' content' block' hblock' hlocale' hlt record hrecord
      exact hgreater locale' content' hlocale' hlt record (by rwa [catalog_of_some hblock'])
  · rintro ⟨locale, content, block, hblock, hlocale, hlast, hgreater⟩
    refine ⟨locale, content, hlocale, by rwa [catalog_of_some hblock], ?_⟩
    intro locale' content' hlocale' hlt record hrecord
    cases hblock' : builder.blocks.get? (locale', content') with
    | none =>
      rw [catalog_of_none hblock'] at hrecord
      exact absurd hrecord List.not_mem_nil
    | some block' =>
      rw [catalog_of_some hblock'] at hrecord
      exact hgreater locale' content' block' hblock' hlocale' hlt record hrecord

/-- The rank of a pair of flags. -/
def flagsRank (flags : UInt32 × UInt64) : ℕ ×ₗ ℕ := toLex (flags.1.toNat, flags.2.toNat)

theorem flagsRank_injective : Function.Injective flagsRank := fun flags flags' h => by
  obtain ⟨hlocale, hcontent⟩ := Prod.mk.inj (toLex.injective h)
  exact Prod.ext (UInt32.toNat_inj.mp hlocale) (UInt64.toNat_inj.mp hcontent)

theorem flagsRank_lt_iff {flags flags' : UInt32 × UInt64} :
    flagsRank flags < flagsRank flags' ↔
      flags.1 < flags'.1 ∨ flags.1 = flags'.1 ∧ flags.2 < flags'.2 := by
  rw [flagsRank, flagsRank, Prod.Lex.toLex_lt_toLex, UInt32.toNat_inj, UInt32.lt_iff_toNat_lt,
    UInt64.lt_iff_toNat_lt]

/-- The blocks of the client's locale among those of some flags. -/
theorem filter_flags {blocks : List RootBlock} {flags : UInt32 × UInt64}
    (h : flags.1 &&& clientLocale ≠ 0) :
    (blocks.filter fun block => block.header.localeFlags &&& clientLocale != 0).filter
        (fun block => flagsRank block.flags = flagsRank flags) =
      blocks.filter fun block => block.flags = flags := by
  rw [List.filter_filter]
  refine List.filter_congr fun block _ => ?_
  rw [Bool.eq_iff_iff, Bool.and_eq_true, decide_eq_true_eq, decide_eq_true_eq,
    flagsRank_injective.eq_iff, bne_iff_ne, and_iff_left_iff_imp]
  rintro rfl
  exact h

/-- **Where the blocks are in order, the records under every pair of flags say what the client
finds.** -/
theorem shows_catalogOf_iff {file : RootFile}
    (h : file.blocks.Pairwise fun a b => flagsRank a.flags ≤ flagsRank b.flags) {fdid : UInt32}
    {key : Key} :
    (catalogOf file.blocks).Shows fdid key ↔ IsLast (clientRecords file.view) fdid key := by
  have hall : ∀ flags : UInt64, (flags &&& 0 == 0) = true := fun flags => by simp
  have hrecords : clientRecords file.view =
      (file.blocks.filter fun block => block.header.localeFlags &&& clientLocale != 0).flatMap
        fun block => block.records.map RootRecord.pair := by
    simp only [clientRecords_view, recordsFor, List.map_flatMap, hall, Bool.and_true]
    rfl
  have hcatalog : ∀ {flags : UInt32 × UInt64}, flags.1 &&& clientLocale ≠ 0 →
      (((file.blocks.filter fun block => block.header.localeFlags &&& clientLocale != 0).filter
        fun block => flagsRank block.flags = flagsRank flags).flatMap
          fun block => block.records.map RootRecord.pair) =
        (catalogOf file.blocks flags).map RootRecord.pair := fun hflags => by
    rw [filter_flags hflags, catalogOf, List.map_flatMap]
  rw [hrecords, isLast_flatMap_of_pairwise_le (h.filter _)]
  constructor
  · rintro ⟨locale, content, hlocale, hlast, hgreater⟩
    refine ⟨flagsRank (locale, content), by rwa [hcatalog hlocale], ?_⟩
    intro block hblock hlt p hp
    obtain ⟨hblock, hlocale'⟩ := List.mem_filter.mp hblock
    obtain ⟨record, hrecord, rfl⟩ := List.mem_map.mp hp
    refine hgreater block.flags.1 block.flags.2 (bne_iff_ne.mp hlocale')
      (flagsRank_lt_iff.mp hlt) record (List.mem_flatMap.mpr ⟨block, ?_, hrecord⟩)
    exact List.mem_filter.mpr ⟨hblock, decide_eq_true rfl⟩
  · rintro ⟨rank, hlast, hgreater⟩
    -- the flags are those of a block that has a record for the file
    obtain ⟨found, hchosen, -⟩ := List.mem_flatMap.mp hlast.mem
    obtain ⟨hfound, hrank⟩ := List.mem_filter.mp hchosen
    obtain rfl : flagsRank found.flags = rank := of_decide_eq_true hrank
    have hlocale : found.flags.1 &&& clientLocale ≠ 0 :=
      bne_iff_ne.mp (List.mem_filter.mp hfound).2
    refine ⟨found.flags.1, found.flags.2, hlocale, (hcatalog hlocale).symm ▸ hlast, ?_⟩
    intro locale' content' hlocale' hlt record hrecord
    obtain ⟨block, hblock, hrecord⟩ := List.mem_flatMap.mp hrecord
    obtain ⟨hblock, hflags⟩ := List.mem_filter.mp hblock
    obtain hflags : block.flags = (locale', content') := of_decide_eq_true hflags
    refine hgreater block (List.mem_filter.mpr ⟨hblock, ?_⟩) ?_ record.pair
      (List.mem_map_of_mem hrecord)
    · rw [bne_iff_ne, show block.header.localeFlags = locale' from congrArg Prod.fst hflags]
      exact hlocale'
    · rw [hflags]
      exact flagsRank_lt_iff.mpr hlt

/-! ### What can be written again -/

/-- A builder whose blocks announce as many records as they have. -/
def RootBuilder.Counting (builder : RootBuilder) : Prop :=
  ∀ flags block, builder.blocks.get? flags = some block →
    block.header.numRecords = UInt32.ofNat block.records.length

theorem RootBuilder.Counting.addRecord {builder : RootBuilder} (h : builder.Counting)
    (record : RootRecord) (locale : UInt32) (content : UInt64) :
    (builder.addRecord record locale content).Counting := by
  intro flags block hblock
  change (builder.blocks.insert (locale, content) _).get? flags = some block at hblock
  rw [Dict.get?_insert] at hblock
  split_ifs at hblock
  · obtain rfl := Option.some.inj hblock
    rfl
  · exact h flags block hblock

theorem counting_takeOver (version : RootVersion) (blocks : List RootBlock) :
    ((takeOver blocks).foldl RootBuilder.apply (.new version)).Counting := by
  have hadded : ∀ op ∈ takeOver blocks, ∃ record locale content,
      op = .addRecord record locale content := fun op hop => by
    obtain ⟨block, -, hop⟩ := List.mem_flatMap.mp hop
    obtain ⟨record, -, rfl⟩ := List.mem_map.mp hop
    exact ⟨record, _, _, rfl⟩
  generalize takeOver blocks = ops at hadded
  induction ops using List.reverseRecOn with
  | nil =>
    intro flags block hblock
    cases hblock
  | append_singleton ops op ih =>
    obtain ⟨record, locale, content, rfl⟩ := hadded op (by simp)
    rw [List.foldl_append]
    exact (ih fun op hop => hadded op (List.mem_append_left _ hop)).addRecord record locale content

/-- The blocks that are kept are those under some flags. -/
theorem mem_keptBlocks_iff {builder : RootBuilder} {block : RootBlock} :
    block ∈ builder.keptBlocks ↔ ∃ flags, builder.blocks.get? flags = some block := by
  simp only [RootBuilder.keptBlocks, List.mem_map, Prod.exists, exists_eq_right,
    Dict.get?_eq_some_iff]

/-- **A file that was taken over can be written and read** exactly if its joined blocks are not
too large, and its header is taken for what it is. -/
theorem faithful_fromRootFile_iff {file : RootFile} :
    (RootBuilder.fromRootFile file).Faithful ↔
      (∀ flags, (catalogOf file.blocks flags).length ≤ 1000000) ∧
        ∀ header, (RootBuilder.fromRootFile file).header = some header → header.Recognized := by
  have hcounting : (RootBuilder.fromRootFile file).Counting :=
    fromRootFile_eq file ▸ counting_takeOver _ _
  rw [← catalog_fromRootFile]
  constructor
  · rintro ⟨hreadable, hrecognized⟩
    refine ⟨fun flags => ?_, hrecognized⟩
    cases hblock : (RootBuilder.fromRootFile file).blocks.get? flags with
    | none =>
      rw [catalog_of_none hblock]
      exact Nat.zero_le _
    | some block =>
      rw [catalog_of_some hblock]
      exact (hreadable block (mem_keptBlocks_iff.mpr ⟨flags, hblock⟩)).small
  · rintro ⟨hsmall, hrecognized⟩
    refine ⟨fun block hmem => ?_, hrecognized⟩
    obtain ⟨flags, hblock⟩ := mem_keptBlocks_iff.mp hmem
    have hlength := hsmall flags
    rw [catalog_of_some hblock] at hlength
    refine ⟨?_, hlength⟩
    rw [hcounting flags block hblock, UInt32.toNat_ofNat', Nat.mod_eq_of_lt (by omega)]

/-- What a reachable builder writes resolves by its records. -/
theorem lookup_of_build {builder : RootBuilder} (hreach : builder.Reachable)
    (hne : builder.blocks.entries ≠ []) (hfaithful : builder.Faithful) :
    ∃ bytes rewritten, (∀ order, builder.build order = .ok (bytes, builder.optimizeBlocks)) ∧
      parse bytes = .ok rewritten ∧ ∀ fdid key,
        (collectFdidToContentKeys rewritten.view).lookup fdid = some key ↔
          builder.catalog.Shows fdid key := by
  have hbuild : ∀ order, builder.build order = .ok (_, builder.optimizeBlocks) := fun order =>
    build_eq_ok_iff.mpr ⟨hne, rfl, rfl⟩
  refine ⟨_, builder.file, hbuild, ?_, fun fdid key => ?_⟩
  · exact (parse_build_iff_faithful hreach (hbuild (.standing _))).mpr hfaithful
  · rw [collectFdidToContentKeys_eq, lookup_collect, ← shows_catalog_iff hreach.wellFormed]

/-- **Editing a root file**: what was read is taken over, and operations change its records
under every pair of flags. What is then written resolves by the records that are left. -/
theorem shows_of_edited {file : RootFile} {ops : List BuilderOp} {builder : RootBuilder}
    (hbuilder : ops.foldl RootBuilder.apply (.fromRootFile file) = builder) :
    builder.catalog = ops.foldl BuilderOp.effect (catalogOf file.blocks) ∧
      (builder.blocks.entries ≠ [] → builder.Faithful →
        ∃ bytes edited, (∀ order, builder.build order = .ok (bytes, builder.optimizeBlocks)) ∧
          parse bytes = .ok edited ∧ ∀ fdid key,
            (collectFdidToContentKeys edited.view).lookup fdid = some key ↔
              Catalog.Shows (ops.foldl BuilderOp.effect (catalogOf file.blocks)) fdid key) := by
  have hcatalog : builder.catalog = ops.foldl BuilderOp.effect (catalogOf file.blocks) := by
    rw [← hbuilder, catalog_foldl_apply, catalog_fromRootFile]
  have hreach : builder.Reachable := by
    obtain ⟨version, before, hbefore⟩ := reachable_fromRootFile file
    exact ⟨version, before ++ ops, by rw [List.foldl_append, ← hbefore, hbuilder]⟩
  refine ⟨hcatalog, fun hne hfaithful => ?_⟩
  rw [← hcatalog]
  exact lookup_of_build hreach hne hfaithful

/-- A file with its blocks in the order of their flags. -/
def RootFile.inOrder (file : RootFile) : RootFile :=
  { file with blocks := sortBy (fun block => flagsRank block.flags) file.blocks }

/-- Sorting the blocks keeps those of the same flags in their order. -/
theorem catalogOf_inOrder (file : RootFile) :
    catalogOf file.inOrder.blocks = catalogOf file.blocks := by
  funext flags
  have hrank : ∀ block : RootBlock, decide (block.flags = flags) =
      decide (flagsRank block.flags = flagsRank flags) := fun block =>
    decide_eq_decide.mpr flagsRank_injective.eq_iff.symm
  simp only [catalogOf, hrank, RootFile.inOrder, filter_sortBy_eq]

theorem ne_nil_of_fromRootFile {file : RootFile} {block : RootBlock} (hmem : block ∈ file.blocks)
    (hne : block.records ≠ []) : (RootBuilder.fromRootFile file).blocks.entries ≠ [] := by
  intro hnil
  have hnone : (RootBuilder.fromRootFile file).catalog block.flags = [] := by
    rw [RootBuilder.catalog, Dict.get?, hnil]
    rfl
  obtain ⟨record, hrecord⟩ := List.exists_mem_of_ne_nil _ hne
  rw [catalog_fromRootFile, catalogOf, List.flatMap_eq_nil_iff] at hnone
  exact hne (hnone block (List.mem_filter.mpr ⟨hmem, decide_eq_true rfl⟩))

/-- **Writing a file anew sorts its blocks**: for the client the new file is the old one with its
blocks in the order of their flags, and the old one itself if they were in order. -/
theorem lookup_rewritten {file : RootFile} {block : RootBlock} (hmem : block ∈ file.blocks)
    (hne : block.records ≠ [])
    (hsmall : ∀ flags, (catalogOf file.blocks flags).length ≤ 1000000)
    (hrecognized : ∀ header, (RootBuilder.fromRootFile file).header = some header →
      header.Recognized) :
    ∃ bytes rewritten, (∀ order, (RootBuilder.fromRootFile file).build order =
        .ok (bytes, (RootBuilder.fromRootFile file).optimizeBlocks)) ∧
      parse bytes = .ok rewritten ∧
      (∀ fdid, (collectFdidToContentKeys rewritten.view).lookup fdid =
        (collectFdidToContentKeys file.inOrder.view).lookup fdid) ∧
      ((file.blocks.Pairwise fun a b => flagsRank a.flags ≤ flagsRank b.flags) →
        ∀ fdid, (collectFdidToContentKeys rewritten.view).lookup fdid =
          (collectFdidToContentKeys file.view).lookup fdid) := by
  obtain ⟨bytes, rewritten, hbuild, hparse, hshows⟩ := lookup_of_build
    (reachable_fromRootFile file) (ne_nil_of_fromRootFile hmem hne)
    (faithful_fromRootFile_iff.mpr ⟨hsmall, hrecognized⟩)
  have hsorted : ∀ fdid, (collectFdidToContentKeys rewritten.view).lookup fdid =
      (collectFdidToContentKeys file.inOrder.view).lookup fdid := fun fdid => by
    refine Option.ext fun key => (hshows fdid key).trans ?_
    rw [collectFdidToContentKeys_eq, lookup_collect, catalog_fromRootFile, ← catalogOf_inOrder,
      shows_catalogOf_iff pairwise_sortBy]
  refine ⟨bytes, rewritten, hbuild, hparse, hsorted, fun hpairwise fdid => ?_⟩
  rw [hsorted, RootFile.inOrder, sortBy_eq_self hpairwise]

/-- A file whose blocks are not in order. -/
def unorderedRootFile : RootFile :=
  let blocks : List RootBlock := [⟨⟨1, 0, 3⟩, [⟨1, Key.constant 0x11, none⟩]⟩,
    ⟨⟨1, 0, 2⟩, [⟨1, Key.constant 0x22, none⟩]⟩]
  ⟨.v1, none, blocks, buildLookups blocks⟩

theorem small_unorderedRootFile (flags : UInt32 × UInt64) :
    (catalogOf unorderedRootFile.blocks flags).length ≤ 1000000 := by
  simp only [catalogOf, unorderedRootFile, List.filter_cons, List.filter_nil]
  split_ifs <;> decide

/-- The client finds another content in the new file. -/
theorem lookup_rewritten_sample : ∃ bytes rewritten, parse bytes = .ok rewritten ∧
    (collectFdidToContentKeys rewritten.view).lookup 1 = some (Key.constant 0x11) ∧
    (collectFdidToContentKeys unorderedRootFile.view).lookup 1 = some (Key.constant 0x22) := by
  have hmem : ⟨⟨1, 0, 3⟩, [⟨1, Key.constant 0x11, none⟩]⟩ ∈ unorderedRootFile.blocks :=
    List.mem_cons_self
  obtain ⟨bytes, rewritten, -, hparse, hlookup, -⟩ :=
    lookup_rewritten hmem (by decide) small_unorderedRootFile fun _ hheader => by cases hheader
  exact ⟨bytes, rewritten, hparse, (hlookup 1).trans (by decide), by decide⟩

theorem shows_of_edited_sample : ∃ bytes edited, parse bytes = .ok edited ∧
    (collectFdidToContentKeys edited.view).lookup 1 = some (Key.constant 0x33) := by
  let builder := (RootBuilder.fromRootFile unorderedRootFile).apply (.updateFile 1 (.constant 0x33))
  have hbuilder : [.updateFile 1 (.constant 0x33)].foldl RootBuilder.apply
      (.fromRootFile unorderedRootFile) = builder := rfl
  have hfaithful : builder.Faithful := by
    refine ⟨fun block hmem => ?_, fun _ hheader => by cases hheader⟩
    rcases List.mem_pair.mp hmem with rfl | rfl <;> exact ⟨rfl, by decide⟩
  obtain ⟨bytes, edited, -, hparse, hshows⟩ :=
    (shows_of_edited hbuilder).2 (by decide) hfaithful
  refine ⟨bytes, edited, hparse, (hshows 1 (.constant 0x33)).mpr ?_⟩
  refine ⟨3, 0, by decide, ⟨[], [], rfl, fun _ hp => absurd hp List.not_mem_nil⟩, ?_⟩
  intro locale content _ hlt record hrecord
  -- no flags of the file are greater
  obtain ⟨before, hbefore, -⟩ := List.mem_map.mp hrecord
  obtain ⟨block, hblock, -⟩ := List.mem_flatMap.mp hbefore
  obtain ⟨hblock, hflags⟩ := List.mem_filter.mp hblock
  rcases List.mem_pair.mp hblock with rfl | rfl <;> cases of_decide_eq_true hflags <;>
    exact absurd hlt (by decide)

/-! ### Validating -/

/-- The loop over the records of a block: no file is there twice. -/
def checkUnique (seen : List UInt32) : List RootRecord → Except RootError Unit
  | [] => .ok ()
  | record :: records =>
    let fdid := record.fileDataId
    if fdid ∈ seen then
      .error (.corruptedBlockHeader s!"Duplicate FileDataID {fdid} in block")
    else checkUnique (fdid :: seen) records

/-- The loop over the blocks. -/
def checkBlocks : List ((UInt32 × UInt64) × RootBlock) → Except RootError Unit
  | [] => .ok ()
  | ((locale, content), block) :: blocks =>
    if block.records.isEmpty then
      .error (.corruptedBlockHeader (s!"Empty block for locale LocaleFlags({locale}) content " ++
        s!"ContentFlags \x7b value: {content} \x7d"))
    else do
      checkUnique [] block.records
      checkBlocks blocks

/-- `validate`. -/
def RootBuilder.validate (builder : RootBuilder) (order : BlockOrder) : Except RootError Unit :=
  if builder.blocks.entries = [] then .error (.corruptedBlockHeader "No blocks to validate")
  else checkBlocks (order.arrange builder.blocks.entries)

theorem checkUnique_eq_ok_iff {seen : List UInt32} {records : List RootRecord} :
    checkUnique seen records = .ok () ↔
      (fileDataIds records).Nodup ∧ ∀ fdid ∈ fileDataIds records, fdid ∉ seen := by
  induction records generalizing seen with
  | nil => simp [checkUnique, fileDataIds]
  | cons record records ih =>
    rw [checkUnique, fileDataIds, List.map_cons, List.nodup_cons, List.forall_mem_cons,
      ← fileDataIds]
    split_ifs with hseen
    · simp [hseen]
    · rw [ih]
      simp only [List.mem_cons, not_or]
      constructor
      · rintro ⟨hnodup, hfresh⟩
        exact ⟨⟨fun hmem => (hfresh _ hmem).1 rfl, hnodup⟩, hseen,
          fun fdid hmem => (hfresh fdid hmem).2⟩
      · rintro ⟨⟨hfirst, hnodup⟩, -, hfresh⟩
        exact ⟨hnodup, fun fdid hmem => ⟨fun heq => hfirst (heq ▸ hmem), hfresh fdid hmem⟩⟩

theorem checkBlocks_eq_ok_iff {blocks : List ((UInt32 × UInt64) × RootBlock)} :
    checkBlocks blocks = .ok () ↔
      ∀ e ∈ blocks, e.2.records ≠ [] ∧ (fileDataIds e.2.records).Nodup := by
  induction blocks with
  | nil => simp [checkBlocks]
  | cons e blocks ih =>
    obtain ⟨⟨locale, content⟩, block⟩ := e
    rw [List.forall_mem_cons, ← ih, checkBlocks]
    split_ifs with hempty
    · simpa using fun hne => absurd (List.isEmpty_iff.mp hempty) hne
    · have hne : block.records ≠ [] := fun hnil => hempty (List.isEmpty_iff.mpr hnil)
      rw [Program.except_bind_eq_ok_iff]
      constructor
      · rintro ⟨⟨⟩, hunique, hrest⟩
        exact ⟨⟨hne, (checkUnique_eq_ok_iff.mp hunique).1⟩, hrest⟩
      · rintro ⟨⟨-, hnodup⟩, hrest⟩
        exact ⟨(), checkUnique_eq_ok_iff.mpr ⟨hnodup, fun _ _ => List.not_mem_nil⟩, hrest⟩

/-- **A builder is valid, in whatever order its blocks are visited**, exactly if it has blocks and
no file is twice in one: no operation leaves an empty block. -/
theorem validate_eq_ok_iff {builder : RootBuilder} (hreach : builder.Reachable)
    (order : BlockOrder) :
    builder.validate order = .ok () ↔ builder.blocks.entries ≠ [] ∧
      ∀ block ∈ builder.keptBlocks, (fileDataIds block.records).Nodup := by
  have hne := hreach.wellFormed.nonempty
  unfold RootBuilder.validate
  split_ifs with hempty
  · simp [hempty]
  · simp only [checkBlocks_eq_ok_iff, (order.perm _).mem_iff, RootBuilder.keptBlocks,
      List.forall_mem_map, Prod.forall, ne_eq, hempty, not_false_eq_true, true_and]
    exact ⟨fun h locale content block hmem => (h locale content block hmem).2,
      fun h locale content block hmem => ⟨hne _ block hmem, h locale content block hmem⟩⟩

/-- The rest of a block is valid, though it is announced with the record that was taken out. -/
example : (pairedRootBuilder.removeFile 5).1.validate (.standing _) = .ok () := rfl

/-! ### The estimated size -/

/-- `RootBlock::has_name_hashes`. -/
def RootBlock.hasNameHashes (block : RootBlock) (version : RootVersion) (hasNamedFiles : Bool) :
    Bool :=
  match version with
  | .v1 => true
  | .v2 | .v3 | .v4 => hasNamedFiles && Root.hasNameHashes block.header.contentFlags

/-- `calculate_size`. -/
def RootBlock.calculateSize (block : RootBlock) (version : RootVersion) (hasNamedFiles : Bool) :
    ℕ :=
  let headerSize := match version with
    | .v1 => 12
    | .v2 | .v3 => 17
    | .v4 => 18
  let count := block.records.length
  if count = 0 then headerSize
  else
    let fdidSize := count * 4
    let ckeySize := count * 16
    let nameHashSize := if block.hasNameHashes version hasNamedFiles then count * 8 else 0
    headerSize + fdidSize + ckeySize + nameHashSize

/-- `estimate_size`. -/
def RootBuilder.estimateSize (builder : RootBuilder) : ℕ :=
  let headerSize := if builder.version.hasHeader then
      match builder.version with
      | .v1 => 0
      | .v2 => 12
      | .v3 | .v4 => 20
    else 0
  let hasNamedFiles : Bool := 0 < namedFiles builder.keptBlocks
  headerSize +
    (builder.keptBlocks.map fun block => block.calculateSize builder.version hasNamedFiles).sum

/-- What the estimate of the header is short of. -/
def headerShortfall : RootVersion → ℕ
  | .v1 | .v2 => 0
  | .v3 | .v4 => 4

/-- The room of the name hashes of a block, where none of its file has one. -/
def RootBlock.unnamedRoom (block : RootBlock) (version : RootVersion) (hasNamedFiles : Bool) : ℕ :=
  if version ≠ .v1 ∧ hasNamedFiles = false ∧ Root.hasNameHashes block.header.contentFlags then
    block.records.length * 8
  else 0

theorem length_writeHeader (version : RootVersion) (totalFiles namedFiles : UInt32) :
    (((builtHeader version totalFiles namedFiles).map writeHeader).getD []).length =
      match version with
      | .v1 => 0
      | .v2 => 12
      | .v3 | .v4 => 24 := by
  cases version <;> simp [builtHeader, RootHeader.newV2, RootHeader.newV3v4, writeHeader,
    writeHeaderInfo, length_toBytes, RootMagic.number]

theorem length_fileDataIds_encode (records : List RootRecord) :
    ((encodeFileDataIdsTact (fileDataIds records)).flatMap uint32.encode).length =
      records.length * 4 := by
  have hlength := uint32.length_encodeAll (encodeFileDataIdsTact (fileDataIds records))
  rwa [length_encodeFileDataIdsTact, length_fileDataIds] at hlength

/-- Values of some layout, one for each record. -/
theorem length_flatMap_encode {α : Type} (layout : Layout α) (value : RootRecord → α)
    (records : List RootRecord) :
    (records.flatMap fun record => layout.encode (value record)).length =
      records.length * layout.width := by
  have hlength := layout.length_encodeAll (records.map value)
  rwa [encodeAll, List.flatMap_map, List.length_map] at hlength

theorem length_writeV1Block (records : List RootRecord) :
    (writeV1Block records).length = records.length * 28 := by
  have hwidth : (Key.layout.prod uint64).width = 24 := rfl
  rw [writeV1Block, List.length_append, length_fileDataIds_encode, length_flatMap_encode, hwidth]
  omega

theorem length_writeV2V3Block (records : List RootRecord) (contentFlags : UInt64) :
    (writeV2V3Block records contentFlags).length = records.length * 20 +
      if Root.hasNameHashes contentFlags then records.length * 8 else 0 := by
  rw [writeV2V3Block, List.length_append, List.length_append, length_fileDataIds_encode,
    length_flatMap_encode, Key.width_layout]
  split_ifs
  · rw [length_flatMap_encode, width_uint64]
    omega
  · rw [List.length_nil]
    omega

/-- A block without records is no special case. -/
theorem calculateSize_eq (block : RootBlock) (version : RootVersion) (hasNamedFiles : Bool) :
    block.calculateSize version hasNamedFiles = (match version with
      | .v1 => 12
      | .v2 | .v3 => 17
      | .v4 => 18) + block.records.length * 20 +
        if block.hasNameHashes version hasNamedFiles then block.records.length * 8 else 0 := by
  unfold RootBlock.calculateSize
  dsimp only
  by_cases hcount : block.records.length = 0
  · simp [hcount]
  · rw [if_neg hcount]
    omega

/-- A block takes what was calculated, and the room of the name hashes that its file has not. -/
theorem length_writeBlock (block : RootBlock) (version : RootVersion) (hasNamedFiles : Bool) :
    (writeBlock version block).length = block.calculateSize version hasNamedFiles +
      block.unnamedRoom version hasNamedFiles := by
  have hwidth1 : headerV1Layout.width = 12 := rfl
  have hwidth2 : headerV2Layout.width = 17 := rfl
  have hwidth4 : headerV4Layout.width = 18 := rfl
  rw [calculateSize_eq, RootBlock.unnamedRoom]
  cases version with
  | v1 =>
    rw [writeBlock, List.length_append, length_encode, length_writeV1Block, hwidth1]
    simp [RootBlock.hasNameHashes]
    omega
  | v2 | v3 =>
    rw [writeBlock, List.length_append, length_encode, length_writeV2V3Block, hwidth2]
    cases hasNamedFiles <;> simp [RootBlock.hasNameHashes] <;> omega
  | v4 =>
    rw [writeBlock, List.length_append, length_encode, length_writeV2V3Block, hwidth4]
    cases hasNamedFiles <;> simp [RootBlock.hasNameHashes] <;> omega

/-- Sorting the records of a block does not change its size. -/
theorem length_writeBlock_sortRecords (version : RootVersion) (block : RootBlock) :
    (writeBlock version block.sortRecords).length = (writeBlock version block).length := by
  have hlength : block.sortRecords.records.length = block.records.length := perm_sortBy.length_eq
  rw [length_writeBlock _ _ true, length_writeBlock _ _ true, calculateSize_eq, calculateSize_eq,
    RootBlock.unnamedRoom, RootBlock.unnamedRoom, hlength]
  rfl

/-- **The file is as long as estimated**, but for four bytes of an extended header, and for the
room of the name hashes in a file without names. -/
theorem length_of_build {builder builder' : RootBuilder} {order : BlockOrder} {bytes : List UInt8}
    (h : builder.build order = .ok (bytes, builder')) :
    bytes.length = builder.estimateSize + headerShortfall builder.version +
      (builder.keptBlocks.map fun block => block.unnamedRoom builder.version
        (0 < namedFiles builder.keptBlocks)).sum := by
  obtain ⟨-, rfl, -⟩ := build_eq_ok_iff.mp h
  -- neither the order of the blocks nor that of their records matters
  have hblocks : (builder.sortedBlocks.map fun block =>
      (writeBlock builder.version block).length).sum =
        (builder.keptBlocks.map fun block => (writeBlock builder.version block).length).sum := by
    rw [((perm_sortedBlocks builder).map _).sum_eq, List.map_map]
    refine congrArg List.sum (List.map_congr_left fun block _ => ?_)
    exact length_writeBlock_sortRecords builder.version block
  have hsizes : (fun block => (writeBlock builder.version block).length) = fun block =>
      block.calculateSize builder.version (0 < namedFiles builder.keptBlocks) +
        block.unnamedRoom builder.version (0 < namedFiles builder.keptBlocks) := by
    funext block
    exact length_writeBlock block builder.version _
  have hheader : ((builder.header.map writeHeader).getD []).length =
      (if builder.version.hasHeader then
        match builder.version with
        | .v1 => 0
        | .v2 => 12
        | .v3 | .v4 => 20
      else 0) + headerShortfall builder.version := by
    rw [RootBuilder.header, length_writeHeader]
    cases builder.version <;> rfl
  rw [List.length_append, List.length_flatMap, hblocks, hsizes, List.sum_map_add, hheader]
  unfold RootBuilder.estimateSize
  dsimp only
  omega

/-- Four bytes of the header, and the name of a file that has none. -/
theorem length_of_build_sample : ∃ bytes builder',
    (sampleRootBuilder.setVersion .v4).build (.standing _) = .ok (bytes, builder') ∧
      bytes.length = (sampleRootBuilder.setVersion .v4).estimateSize + 12 := by
  have hbuild : (sampleRootBuilder.setVersion .v4).build (.standing _) = .ok (_, _) :=
    build_eq_ok_iff.mpr ⟨by decide, rfl, rfl⟩
  exact ⟨_, _, hbuild, length_of_build hbuild⟩

end Root

end AssetResolver
