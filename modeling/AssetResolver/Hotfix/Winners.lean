import AssetResolver.Hotfix.Harvest

/-!
# Rows that share a name

A harvest keeps one key for each name. Where several rows of a cache have the name, it is the
key of the row **whose key came last** (`AssetResolver.CacheFile.last_of_mem_matched`), that
is, stands last in the dictionary of the keys.

Which row that is depends on the order of the records. The pushes decide first: the key that
is kept is one that no other row's key came after with a later push
(`AssetResolver.CacheFile.offers_of_mem_matched`). Among those any is kept in some order of
the records (`AssetResolver.CacheFile.exists_reordered`), so that nothing but the pushes and
the order decides.
-/

namespace AssetResolver

open KeyStore (HexText)

/-! ### The order in which keys came -/

/-- With this record the key of a row came to stay: before it none stood, and none that
counts invalidates it. -/
def Arrives (count : Prop) (records : List TactRecord) (record : TactRecord) : Prop :=
  ∃ earlier later, records = earlier ++ record :: later ∧ record.isValid = true ∧
    (count → ∀ record' ∈ later, record'.isValid = true) ∧
    ∀ record', ¬Stands count earlier record'

/-- **Of the records of a row, the one with which the key came brings it.** -/
theorem brings_iff_arrives {retain : Bool} {row : UInt32} {records : List TactRecord}
    {record : TactRecord} (hof : ∀ record ∈ records, record.isOf tactKey row = true)
    (hkey : ∀ record ∈ records, record.isValid = true → ∃ key, keyText? record.payload = some key) :
    Dict.Brings (keyEvent retain) records row record ↔
      Arrives (retain = false) records record := by
  have hevent : ∀ record ∈ records, keyEvent retain record =
      if record.isValid then some (row, keyText? record.payload)
      else if retain then none
      else some (row, none) :=
    fun record hmem => keyEvent_of_isOf (hof record hmem)
  refine exists_congr fun earlier => exists_congr fun later => ?_
  constructor
  · rintro ⟨v, rfl, hrecord, hnone, hlater⟩
    rw [hevent record (by simp)] at hrecord
    have hvalid : record.isValid = true := by
      by_contra hinvalid
      rw [if_neg hinvalid] at hrecord
      split_ifs at hrecord
      cases congrArg Prod.snd (Option.some.inj hrecord)
    refine ⟨rfl, hvalid, fun hretain record' hmem => ?_, fun record' hstands => ?_⟩
    · by_contra hinvalid
      refine hlater record' hmem ?_
      rw [hevent record' (by simp [hmem]), if_neg hinvalid, if_neg (by simp [hretain])]
    · obtain ⟨front, back, rfl, hvalid', -⟩ := id hstands
      obtain ⟨key, hpayload⟩ := hkey record' (by simp) hvalid'
      have hsome := (get?_play_keyEvent fun r hmem =>
        hof r (List.mem_append_left _ hmem)).mpr ⟨record', hstands, hpayload⟩
      rw [hnone] at hsome
      cases hsome
  · rintro ⟨rfl, hvalid, hlater, hnone⟩
    obtain ⟨key, hpayload⟩ := hkey record (by simp) hvalid
    refine ⟨key, rfl, ?_, ?_, fun record' hmem hdelete => ?_⟩
    · rw [hevent record (by simp), if_pos hvalid, hpayload]
    · refine Option.eq_none_iff_forall_ne_some.mpr fun key' hsome => ?_
      obtain ⟨record', hstands, -⟩ := (get?_play_keyEvent fun r hmem =>
        hof r (List.mem_append_left _ hmem)).mp hsome
      exact hnone record' hstands
    · rw [hevent record' (by simp [hmem])] at hdelete
      split_ifs at hdelete with hvalid' hretain
      · obtain ⟨key', hpayload'⟩ := hkey record' (by simp [hmem]) hvalid'
        rw [hpayload'] at hdelete
        cases congrArg Prod.snd (Option.some.inj hdelete)
      · exact hvalid' (hlater (by simpa using hretain) record' hmem)

namespace CacheFile

variable (file : CacheFile) (lookup : BaseLookup)

/-- A pair survives: some row has the name and the key. -/
def Has (name : HexText 16) (key : HexText 32) : Prop :=
  ∃ row, file.IsName lookup row name ∧ file.IsKey row key

/-- The record with which the key of a row came. -/
def KeyArrives (row : UInt32) (record : TactRecord) : Prop :=
  Arrives (¬file.RetainsCached) (file.rowRecords tactKey row) record

/-- Of the rows of a name, none has a key that came with a later push. -/
def Latest (name : HexText 16) (row : UInt32) : Prop :=
  file.IsName lookup row name ∧ ∀ row', row' ≠ row → file.IsName lookup row' name →
    ∀ record record', file.KeyArrives row record → file.KeyArrives row' record' →
      record'.push ≤ record.push

/-- A key that some order of the rows makes the one of the name. -/
def Offers (name : HexText 16) (key : HexText 32) : Prop :=
  ∃ row, file.Latest lookup name row ∧ file.IsKey row key

/-- **The same records in another order**, those of a row in the order they had. -/
structure Reordered (file file' : CacheFile) : Prop where
  header : file'.header = file.header
  rows : ∀ table row, file'.records.filter (fun record => record.tact.isOf table row) =
    file.records.filter fun record => record.tact.isOf table row

variable {file lookup} {row : UInt32} {name : HexText 16} {key : HexText 32}

/-- **The record with which a key came brings it into the dictionary.** -/
theorem brings_iff (hsized : file.Sized) {record : TactRecord} :
    Dict.Brings (keyEvent (retainCached (sortedByPush file.tactRecords)))
        (sortedByPush file.tactRecords) row record ↔
      file.KeyArrives row record := by
  rw [@Dict.brings_filter_iff _ _ _ _ _ _ _ (TactRecord.isOf tactKey row) record
    fun record _ hof event hevent => keyEvent_of_isOf_false hof hevent, ← rowRecords_eq,
    KeyArrives, ← count_eq]
  refine brings_iff_arrives (fun record hmem => isOf_of_mem_rowRecords hmem) ?_
  intro record hmem hvalid
  have hsize := hsized record (List.mem_filter.mp (StableSort.mem_sortBy.mp hmem)).1 hvalid
  rw [TactRecord.expected, if_pos (TactRecord.isOf_iff.mp (isOf_of_mem_rowRecords hmem)).1]
    at hsize
  exact ⟨_, keyText?_eq_some_iff.mpr ⟨hsize, rfl⟩⟩

/-- **Every key came with some record.** -/
theorem exists_keyArrives (hsized : file.Sized) (hkey : file.IsKey row key) :
    ∃ record, file.KeyArrives row record := by
  have hthere : (file.tables ∅).keys.get? row ≠ none := by
    rw [get?_keys.mpr hkey]
    exact Option.some_ne_none key
  obtain ⟨record, hbrings⟩ := Dict.exists_brings hthere
  exact ⟨record, (brings_iff hsized).mp hbrings⟩

theorem row_of_keyArrives {record : TactRecord} (h : file.KeyArrives row record) :
    record.row = row := by
  obtain ⟨earlier, later, hrecords, -⟩ := h
  have hmem : record ∈ file.rowRecords tactKey row := by rw [hrecords]; simp
  exact (TactRecord.isOf_iff.mp (isOf_of_mem_rowRecords hmem)).2

/-- A row has one name. -/
theorem IsName.unique {name' : HexText 16} (h : file.IsName lookup row name)
    (h' : file.IsName lookup row name') : name = name' :=
  Option.some.inj ((get?_names.mpr h).symm.trans (get?_names.mpr h'))

/-- A row has one key. -/
theorem IsKey.unique {key' : HexText 32} (h : file.IsKey row key) (h' : file.IsKey row key') :
    key = key' :=
  Option.some.inj ((@get?_keys file ∅ row key).mpr h |>.symm.trans (get?_keys.mpr h'))

/-! ### The key that is kept -/

/-- **What is kept survives.** -/
theorem has_of_mem_matched (hmem : (name, key) ∈ (file.tables lookup).matched.entries) :
    file.Has lookup name key :=
  mem_pairs.mp (Dict.get?_ofPairs.mp (Dict.get?_eq_some_iff.mpr hmem)).mem

/-- **Every name that survives has a key that is kept.** -/
theorem exists_matched_of_has (h : file.Has lookup name key) :
    ∃ key', (name, key') ∈ (file.tables lookup).matched.entries := by
  obtain ⟨key', hkey'⟩ := Option.ne_none_iff_exists'.mp
    (Dict.get?_ofPairs_ne_none (mem_pairs.mpr h))
  exact ⟨key', Dict.get?_eq_some_iff.mp hkey'⟩

/-- **The key that came last is kept**: whatever is known of the order of the records is
known of those with which the keys of the other rows of the name came, and of the one with
which the kept one came. -/
theorem last_of_mem_matched (hsized : file.Sized) {R : TactRecord → TactRecord → Prop}
    (horder : (sortedByPush file.tactRecords).Pairwise R)
    (hmem : (name, key) ∈ (file.tables lookup).matched.entries) :
    ∃ row, file.IsName lookup row name ∧ file.IsKey row key ∧
      ∀ row', row' ≠ row → file.IsName lookup row' name →
        ∀ record record', file.KeyArrives row record → file.KeyArrives row' record' →
          R record' record := by
  have hlast := Dict.get?_ofPairs.mp (Dict.get?_eq_some_iff.mpr hmem)
  obtain ⟨front, ⟨row, key'⟩, back, hentries, hpair, hback⟩ := LastWins.isLast_filterMap.mp hlast
  obtain ⟨name', hname, heq⟩ := Option.map_eq_some_iff.mp hpair
  obtain ⟨rfl, rfl⟩ := Prod.mk.inj heq
  have hentry : (row, key') ∈ (file.tables lookup).keys.entries := by rw [hentries]; simp
  refine ⟨row, get?_names.mp hname, get?_keys.mp (Dict.get?_eq_some_iff.mpr hentry), ?_⟩
  intro row' hne hname' record record' harrives harrives'
  -- the other row stands before this one, for behind it no row has the name
  have hthere : row' ∈ (file.tables lookup).keys.keys := by
    by_contra hnone
    exact (((brings_iff hsized).mpr harrives').get?_ne_none) (Dict.get?_eq_none_iff.mpr hnone)
  have hfront : row' ∈ front.map Prod.fst := by
    rw [Dict.keys, hentries, List.map_append, List.map_cons] at hthere
    rcases List.mem_append.mp hthere with hfront | hbehind
    · exact hfront
    · rcases List.mem_cons.mp hbehind with heq | hbehind
      · exact absurd heq hne
      · obtain ⟨e, he, rfl⟩ := List.mem_map.mp hbehind
        refine absurd ?_ (hback e he e.2)
        rw [get?_names.mpr hname']
        rfl
  have hkeys := Dict.pairwise_keys (f := keyEvent (retainCached (sortedByPush file.tactRecords)))
    horder
  have hsplit : (file.tables lookup).keys.keys =
      front.map Prod.fst ++ row :: back.map Prod.fst := by
    rw [Dict.keys, hentries, List.map_append, List.map_cons]
  change (file.tables lookup).keys.keys.Pairwise _ at hkeys
  rw [hsplit] at hkeys
  exact (List.pairwise_append.mp hkeys).2.2 row' hfront row List.mem_cons_self record' record
    ((brings_iff hsized).mpr harrives') ((brings_iff hsized).mpr harrives)

/-- **The pushes decide first.** -/
theorem offers_of_mem_matched (hsized : file.Sized)
    (hmem : (name, key) ∈ (file.tables lookup).matched.entries) :
    file.Offers lookup name key := by
  obtain ⟨row, hname, hkey, hlast⟩ := last_of_mem_matched hsized
    (pairwise_sortedByPush file.tactRecords) hmem
  exact ⟨row, ⟨hname, hlast⟩, hkey⟩

/-! ### Other orders of the records -/

/-- The records that are kept are chosen by row before they are kept. -/
theorem filter_tactRecords (file : CacheFile) (table row : UInt32) :
    file.tactRecords.filter (TactRecord.isOf table row) =
      ((file.records.filter fun record => record.tact.isOf table row).map
        CacheRecord.tact).filter TactRecord.isTact := by
  rw [tactRecords, List.filter_comm, List.filter_map]
  rfl

namespace Reordered

variable {file' : CacheFile}

theorem rowRecords_eq (h : file.Reordered file') (table row : UInt32) :
    file'.rowRecords table row = file.rowRecords table row := by
  rw [rowRecords, rowRecords, filter_tactRecords, filter_tactRecords, h.rows]

theorem mem_tactRecords_iff (h : file.Reordered file') {record : TactRecord} :
    record ∈ file'.tactRecords ↔ record ∈ file.tactRecords := by
  have hof : record.isOf record.table record.row = true := by simp [TactRecord.isOf]
  have hmem : ∀ file : CacheFile, record ∈ file.tactRecords ↔
      record ∈ file.rowRecords record.table record.row := fun file => by
    rw [rowRecords, sortedByPush_eq, StableSort.mem_sortBy, List.mem_filter, hof]
    simp
  rw [hmem, hmem, h.rowRecords_eq]

theorem sized_iff (h : file.Reordered file') : file'.Sized ↔ file.Sized :=
  forall_congr' fun _ => by rw [h.mem_tactRecords_iff]

theorem retainsCached_iff (h : file.Reordered file') :
    file'.RetainsCached ↔ file.RetainsCached :=
  exists_congr fun _ => by rw [h.mem_tactRecords_iff]

theorem isName_iff (h : file.Reordered file') :
    file'.IsName lookup row name ↔ file.IsName lookup row name := by
  rw [IsName, IsName, h.rowRecords_eq]

theorem isKey_iff (h : file.Reordered file') : file'.IsKey row key ↔ file.IsKey row key := by
  rw [IsKey, IsKey, h.rowRecords_eq, h.retainsCached_iff]

theorem has_iff (h : file.Reordered file') :
    file'.Has lookup name key ↔ file.Has lookup name key :=
  exists_congr fun _ => and_congr h.isName_iff h.isKey_iff

theorem keyArrives_iff (h : file.Reordered file') {record : TactRecord} :
    file'.KeyArrives row record ↔ file.KeyArrives row record := by
  rw [KeyArrives, KeyArrives, h.rowRecords_eq, h.retainsCached_iff]

theorem offers_iff (h : file.Reordered file') :
    file'.Offers lookup name key ↔ file.Offers lookup name key := by
  simp only [Offers, Latest, h.isName_iff, h.isKey_iff, h.keyArrives_iff]

end Reordered

/-- The records in the order of the ranks of their rows. -/
def reorder (file : CacheFile) (rank : UInt32 → ℕ) : CacheFile :=
  { file with records := StableSort.sortBy (fun record => rank record.row) file.records }

theorem reordered_reorder (file : CacheFile) (rank : UInt32 → ℕ) :
    file.Reordered (file.reorder rank) where
  header := rfl
  rows table row := by
    refine (StableSort.sortBy_filter _).symm.trans (StableSort.sortBy_eq_self ?_)
    refine List.pairwise_of_forall_mem_list fun record hmem record' hmem' => ?_
    have hrow : record.row = row := (TactRecord.isOf_iff.mp (List.mem_filter.mp hmem).2).2
    have hrow' : record'.row = row := (TactRecord.isOf_iff.mp (List.mem_filter.mp hmem').2).2
    rw [hrow, hrow']

/-- Then the ranks decide between records of one push. -/
theorem pairwise_reorder (file : CacheFile) (rank : UInt32 → ℕ) :
    (sortedByPush (file.reorder rank).tactRecords).Pairwise fun record record' =>
      record.push < record'.push ∨
        record.push = record'.push ∧ rank record.row ≤ rank record'.row := by
  refine StableSort.pairwise_sortBy_of_pairwise (List.Pairwise.filter _ ?_)
  exact List.Pairwise.map _ (fun _ _ => id) StableSort.pairwise_sortBy

open Classical in
/-- The rows of the chosen keys come last. -/
noncomputable def chosenRank (file : CacheFile) (lookup : BaseLookup)
    (choice : HexText 16 → HexText 32) (row : UInt32) : ℕ :=
  if ∃ name, file.IsName lookup row name ∧ file.IsKey row (choice name) then 1 else 0

/-- **Any choice among the keys that are offered is what some order of the records keeps.** -/
theorem exists_reordered (hsized : file.Sized) (choice : HexText 16 → HexText 32)
    (hoffers : ∀ name, (∃ key, file.Has lookup name key) →
      file.Offers lookup name (choice name)) :
    ∃ file' : CacheFile, file.Reordered file' ∧
      ∀ name key, (name, key) ∈ (file'.tables lookup).matched.entries → key = choice name := by
  have h := file.reordered_reorder (file.chosenRank lookup choice)
  refine ⟨_, h, fun name key hmem => ?_⟩
  obtain ⟨row, hname, hkey, hlast⟩ := last_of_mem_matched (h.sized_iff.mpr hsized)
    (file.pairwise_reorder _) hmem
  rw [h.isName_iff] at hname
  rw [h.isKey_iff] at hkey
  obtain ⟨row', ⟨hname', hlatest⟩, hkey'⟩ := hoffers name ⟨key, row, hname, hkey⟩
  by_cases heq : row' = row
  · subst heq
    exact hkey.unique hkey'
  · obtain ⟨record, harrives⟩ := exists_keyArrives hsized hkey
    obtain ⟨record', harrives'⟩ := exists_keyArrives hsized hkey'
    have hpush : record.push ≤ record'.push :=
      hlatest row (Ne.symm heq) hname record' record harrives' harrives
    have hrank : file.chosenRank lookup choice row' ≤ file.chosenRank lookup choice row := by
      rcases hlast row' heq (h.isName_iff.mpr hname') record record'
        (h.keyArrives_iff.mpr harrives) (h.keyArrives_iff.mpr harrives') with hlt | ⟨-, hle⟩
      · exact absurd hpush (not_le_of_gt hlt)
      · rwa [row_of_keyArrives harrives, row_of_keyArrives harrives'] at hle
    -- the row that is kept is a chosen one as well, of the same name
    obtain ⟨name', hname'', hkey''⟩ : ∃ name, file.IsName lookup row name ∧
        file.IsKey row (choice name) := by
      by_contra hnot
      rw [chosenRank, chosenRank, if_pos ⟨name, hname', hkey'⟩, if_neg hnot] at hrank
      exact absurd hrank (by decide)
    obtain rfl := hname.unique hname''
    exact hkey.unique hkey''

end CacheFile

end AssetResolver
