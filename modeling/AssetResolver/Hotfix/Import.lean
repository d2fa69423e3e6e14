import AssetResolver.Hotfix.Winners

/-!
# Importing hotfix keys

`main` of the key importer: it harvests every cache, takes the union of what they give, and
merges it into the store. A name with two keys is noticed between two caches and against the
store.

*Within* a cache it is not: `harvest` joins the names to the keys by row, and where two rows
have one name, the row whose key came last wins without a word
(`AssetResolver.CacheFile.last_of_mem_matched`). So the import keeps its promise, to
raise on every conflict and otherwise to add every pair, whatever the order of the rows
(`AssetResolver.KeyImport.NothingIsChosen`), exactly if no cache is ambiguous, or the name
that is would have been noticed for another reason
(`AssetResolver.KeyImport.nothingIsChosen_iff`).
-/

namespace AssetResolver

open KeyStore (HexText Text StoreError Additions parseStore storeText)

namespace KeyImport

/-! ### The import -/

/-- What an import raises. -/
inductive ImportError where
  /-- The `ValueError` of `harvest`. -/
  | cache (text : String) : ImportError
  /-- An error of the union or of `merge_store`. -/
  | store (e : StoreError) : ImportError
  deriving DecidableEq

/-- The error is a `ValueError`. -/
def ImportError.isValueError : ImportError → Bool
  | .cache _ => true
  | .store e => e.isValueError

/-- Names and their keys. -/
abbrev KeyDict := Dict (HexText 16) (HexText 32)

/-- The loop over `keys.items()`. -/
def addKeys (additions : KeyDict) : List (HexText 16 × HexText 32) → Except StoreError KeyDict
  | [] => .ok additions
  | (name, key) :: rest =>
    if ∃ key', additions.get? name = some key' ∧ key' ≠ key then .error (.conflict name.text)
    else addKeys (additions.insert name key) rest

/-- The loop over the caches. A cache that does not exist is `none`. -/
def collectKeys (lookup : BaseLookup) (additions : KeyDict) :
    List (Option (List UInt8)) → Except ImportError KeyDict
  | [] => .ok additions
  | none :: caches => collectKeys lookup additions caches
  | some data :: caches =>
    match harvest data lookup with
    | .error e => .error (.cache e)
    | .ok (keys, _) =>
      match addKeys additions keys.entries with
      | .error e => .error (.store e)
      | .ok additions => collectKeys lookup additions caches

/-- The additions as `merge_store` takes them. -/
def toAdditions (additions : KeyDict) : Additions where
  entries := additions.entries
  nodup := by
    have hmap : additions.entries.map (fun e => e.1.text) =
        (additions.entries.map Prod.fst).map HexText.text := by
      rw [List.map_map]
      rfl
    rw [hmap]
    exact additions.nodup.map fun _ _ => KeyStore.HexText.ext_text

/-- `main`, from the caches on: the names that are added, and the store afterwards. -/
def importKeys (caches : List (Option (List UInt8))) (lookup : BaseLookup)
    (store : Option (List UInt8)) : Except ImportError (List Text) × Option (List UInt8) :=
  match collectKeys lookup ∅ caches with
  | .error e => (.error e, store)
  | .ok additions =>
    let (added, after) := KeyStore.merge store (toAdditions additions)
    (added.mapError .store, after)

/-! ### What is expected of it -/

/-- A cache that is accepted: every valid record has the size of its table. -/
structure HotfixCache extends CacheFile where
  sized : toCacheFile.Sized

variable (caches : List (Option HotfixCache)) (lookup : BaseLookup) (store : Option (List UInt8))

/-- The files of the caches. -/
def encodeAll : List (Option (List UInt8)) :=
  caches.map fun cache => cache.map fun cache => cache.encode

/-- A pair survives in one of the caches. -/
def Survives (name : HexText 16) (key : HexText 32) : Prop :=
  ∃ cache : HotfixCache, some cache ∈ caches ∧ cache.Has lookup name key

/-- The text of the store is one that `parse_store` accepts. -/
def Readable : Prop := ∃ text existing, storeText store = some text ∧ parseStore text = .ok existing

/-- The store has a key for a name. -/
def InStore (name : HexText 16) (key : Text) : Prop :=
  ∃ text existing, storeText store = some text ∧ parseStore text = .ok existing ∧
    existing.lookup name.text = some key

/-- **A conflict**: a name survives with two keys, or with another key than the store has. -/
def Conflict : Prop :=
  ∃ name key, Survives caches lookup name key ∧
    ((∃ key', Survives caches lookup name key' ∧ key' ≠ key) ∨
      ∃ text, InStore store name text ∧ text ≠ key.text)

/-- The import raises a `ValueError` and leaves the store. -/
def Raises (caches : List (Option (List UInt8))) : Prop :=
  ∃ e, importKeys caches lookup store = (.error e, store) ∧ e.isValueError = true

/-- What an import comes to: the names that were added unless it raises, and the store. -/
def outcome (caches : List (Option (List UInt8))) : Option (List Text) × Option (List UInt8) :=
  ((importKeys caches lookup store).1.toOption, (importKeys caches lookup store).2)

/-- The caches with the same records in another order. -/
abbrev ReorderedAll (caches caches' : List (Option HotfixCache)) : Prop :=
  List.Forall₂ (Option.Rel fun cache cache' : HotfixCache =>
    cache.Reordered cache'.toCacheFile) caches caches'

/-- **No key is chosen silently.** -/
structure NothingIsChosen : Prop where
  /-- A conflict is raised. -/
  conflict : Conflict caches lookup store → Raises lookup store (encodeAll caches)
  /-- Without one the additions are the pairs that survive. -/
  pairs : ¬Conflict caches lookup store → ∃ additions,
    collectKeys lookup ∅ (encodeAll caches) = .ok additions ∧
      ∀ name key, (name, key) ∈ additions.entries ↔ Survives caches lookup name key
  /-- The order of the rows in the caches does not matter. -/
  order : ∀ caches', ReorderedAll caches caches' →
    outcome lookup store (encodeAll caches') = outcome lookup store (encodeAll caches)

/-- No cache has two keys for a name. -/
def Unambiguous : Prop :=
  ∀ cache : HotfixCache, some cache ∈ caches → ∀ name key key',
    cache.Has lookup name key → cache.Has lookup name key' → key = key'

/-- A key that every cache with the name offers, and that the store has if it has the name. -/
def Agreed (name : HexText 16) (key : HexText 32) : Prop :=
  (∀ cache : HotfixCache, some cache ∈ caches →
    (∃ key', cache.Has lookup name key') → cache.Offers lookup name key) ∧
  ∀ text, InStore store name text → text = key.text

/-- **The imports that keep the promise**: no cache is ambiguous, or the store cannot be read,
or there is a name the caches and the store could not agree on in any order. -/
def Safe : Prop :=
  Unambiguous caches lookup ∨ ¬Readable store ∨
    ∃ name, (∃ key, Survives caches lookup name key) ∧ ∀ key, ¬Agreed caches lookup store name key

/-! ### The union of the caches -/

/-- No name comes with two keys. -/
def Functional (pairs : List (HexText 16 × HexText 32)) : Prop :=
  ∀ name key key', (name, key) ∈ pairs → (name, key') ∈ pairs → key = key'

variable {caches lookup store}

theorem mem_entries_insert {additions : KeyDict} {name name' : HexText 16} {key key' : HexText 32} :
    (name', key') ∈ (additions.insert name key).entries ↔
      if name = name' then key = key' else (name', key') ∈ additions.entries := by
  rw [← Dict.get?_eq_some_iff, Dict.get?_insert]
  split_ifs
  · simp
  · exact Dict.get?_eq_some_iff

theorem addKeys_append (additions : KeyDict) (pairs pairs' : List (HexText 16 × HexText 32)) :
    addKeys additions (pairs ++ pairs') =
      (addKeys additions pairs).bind fun additions => addKeys additions pairs' := by
  induction pairs generalizing additions with
  | nil => rfl
  | cons e pairs ih =>
    rw [List.cons_append, addKeys, addKeys]
    split_ifs
    · rfl
    · exact ih _

/-- **Pairs are added unless a name has two keys**, by induction over them. -/
theorem addKeys_eq_ok {additions : KeyDict} {pairs : List (HexText 16 × HexText 32)}
    (hfunctional : Functional (additions.entries ++ pairs)) :
    addKeys additions pairs = .ok (pairs.foldl (fun d e => d.insert e.1 e.2) additions) := by
  induction pairs generalizing additions with
  | nil => rfl
  | cons e pairs ih =>
    obtain ⟨name, key⟩ := e
    have hsame : ¬∃ key', additions.get? name = some key' ∧ key' ≠ key := by
      rintro ⟨key', hkey', hne⟩
      refine hne (hfunctional name key' key ?_ (by simp))
      exact List.mem_append_left _ (Dict.get?_eq_some_iff.mp hkey')
    rw [addKeys, if_neg hsame]
    refine ih fun name' key₁ key₂ h₁ h₂ => ?_
    have hmem : ∀ key', (name', key') ∈ (additions.insert name key).entries ++ pairs →
        (name', key') ∈ additions.entries ++ (name, key) :: pairs := by
      intro key' h
      rcases List.mem_append.mp h with h | h
      · rw [mem_entries_insert] at h
        split_ifs at h with hname
        · rw [← h, ← hname]
          simp
        · exact List.mem_append_left _ h
      · exact List.mem_append_right _ (List.mem_cons_of_mem _ h)
    exact hfunctional name' key₁ key₂ (hmem key₁ h₁) (hmem key₂ h₂)

/-- **A name with two keys is noticed**, by induction over the pairs. -/
theorem functional_of_addKeys {additions additions' : KeyDict}
    {pairs : List (HexText 16 × HexText 32)} (h : addKeys additions pairs = .ok additions') :
    Functional (additions.entries ++ pairs) := by
  induction pairs generalizing additions with
  | nil =>
    rw [List.append_nil]
    exact fun _ _ _ h₁ h₂ => Dict.eq_of_mem h₁ h₂
  | cons e pairs ih =>
    obtain ⟨name, key⟩ := e
    rw [addKeys] at h
    split_ifs at h with hconflict
    have hmem : ∀ name' key', (name', key') ∈ additions.entries ++ (name, key) :: pairs →
        (name', key') ∈ (additions.insert name key).entries ++ pairs := by
      intro name' key' hmem
      rw [List.mem_append, mem_entries_insert]
      rcases List.mem_append.mp hmem with hmem | hmem
      · refine Or.inl ?_
        split_ifs with hname
        · subst hname
          by_contra hne
          exact hconflict ⟨key', Dict.get?_eq_some_iff.mpr hmem, Ne.symm hne⟩
        · exact hmem
      · rcases List.mem_cons.mp hmem with heq | hmem
        · obtain ⟨rfl, rfl⟩ := Prod.mk.inj heq
          exact Or.inl (by rw [if_pos rfl])
        · exact Or.inr hmem
    exact fun name' key₁ key₂ h₁ h₂ => ih h name' key₁ key₂ (hmem _ _ h₁) (hmem _ _ h₂)

/-- What the harvests of the caches keep. -/
def kept (caches : List (Option HotfixCache)) (lookup : BaseLookup) :
    List (HexText 16 × HexText 32) :=
  caches.flatMap fun cache => cache.elim [] fun cache => (cache.tables lookup).matched.entries

theorem mem_kept {e : HexText 16 × HexText 32} : e ∈ kept caches lookup ↔
    ∃ cache : HotfixCache, some cache ∈ caches ∧ e ∈ (cache.tables lookup).matched.entries := by
  rw [kept, List.mem_flatMap]
  constructor
  · rintro ⟨_ | cache, hcache, he⟩
    · exact absurd he List.not_mem_nil
    · exact ⟨cache, hcache, he⟩
  · rintro ⟨cache, hcache, he⟩
    exact ⟨some cache, hcache, he⟩

/-- **The loop over the caches adds what they keep.** -/
theorem collectKeys_encodeAll (additions : KeyDict) :
    collectKeys lookup additions (encodeAll caches) =
      (addKeys additions (kept caches lookup)).mapError .store := by
  induction caches generalizing additions with
  | nil => rfl
  | cons cache caches ih =>
    rcases cache with _ | cache
    · exact ih additions
    · have hkept : kept (some cache :: caches) lookup =
          (cache.tables lookup).matched.entries ++ kept caches lookup := rfl
      have hencode : encodeAll (some cache :: caches) =
          some cache.encode :: encodeAll caches := rfl
      rw [hkept, hencode, addKeys_append, collectKeys, CacheFile.harvest_of_sized cache.sized]
      dsimp only
      rcases addKeys additions (cache.tables lookup).matched.entries with e | additions
      · rfl
      · exact ih additions

theorem collectKeys_of_functional (h : Functional (kept caches lookup)) :
    collectKeys lookup ∅ (encodeAll caches) = .ok (Dict.ofPairs (kept caches lookup)) := by
  have hadd : addKeys ∅ (kept caches lookup) = .ok (Dict.ofPairs (kept caches lookup)) :=
    addKeys_eq_ok h
  rw [collectKeys_encodeAll, hadd]
  rfl

theorem conflict_of_addKeys {additions : KeyDict} {pairs : List (HexText 16 × HexText 32)}
    {e : StoreError} (h : addKeys additions pairs = .error e) : ∃ name, e = .conflict name := by
  induction pairs generalizing additions with
  | nil => cases h
  | cons pair pairs ih =>
    rw [addKeys] at h
    split_ifs at h
    · exact ⟨_, (Except.error.inj h).symm⟩
    · exact ih h

theorem collectKeys_of_not_functional (h : ¬Functional (kept caches lookup)) :
    ∃ name, collectKeys lookup ∅ (encodeAll caches) = .error (.store (.conflict name)) := by
  rw [collectKeys_encodeAll]
  rcases hadd : addKeys ∅ (kept caches lookup) with e | additions
  · obtain ⟨name, rfl⟩ := conflict_of_addKeys hadd
    exact ⟨name, rfl⟩
  · exact absurd (functional_of_addKeys hadd) h

/-! ### When the import raises -/

theorem lookup_toAdditions {additions : KeyDict} {name key : Text} :
    (toAdditions additions).lookup name = some key ↔
      ∃ e ∈ additions.entries, e.1.text = name ∧ e.2.text = key := by
  constructor
  · intro h
    obtain ⟨e, he, rfl⟩ := Option.map_eq_some_iff.mp h
    exact ⟨e, List.mem_of_find?_eq_some he, by simpa using List.find?_some he, rfl⟩
  · rintro ⟨e, he, rfl, rfl⟩
    exact KeyStore.Additions.lookup_of_mem he

/-- Nothing that is kept has another key in the store. -/
def StoreAgrees (caches : List (Option HotfixCache)) (lookup : BaseLookup)
    (store : Option (List UInt8)) : Prop :=
  ∀ name key, (name, key) ∈ kept caches lookup → ∀ text, InStore store name text → text = key.text

theorem mem_entries_kept (h : Functional (kept caches lookup)) {name : HexText 16}
    {key : HexText 32} : (name, key) ∈ (Dict.ofPairs (kept caches lookup)).entries ↔
      (name, key) ∈ kept caches lookup :=
  Dict.mem_entries_ofPairs_of_functional h

theorem agrees_iff {text : Text} {existing : KeyStore.Keys} (htext : storeText store = some text)
    (hparse : parseStore text = .ok existing) (h : Functional (kept caches lookup)) :
    KeyStore.Agrees existing (toAdditions (Dict.ofPairs (kept caches lookup))) ↔
      StoreAgrees caches lookup store := by
  constructor
  · rintro hagrees name key hmem key' ⟨text', existing', htext', hparse', hlookup⟩
    obtain rfl := Option.some.inj (htext.symm.trans htext')
    obtain rfl := Except.ok.inj (hparse.symm.trans hparse')
    exact hagrees name.text key.text key'
      (lookup_toAdditions.mpr ⟨(name, key), (mem_entries_kept h).mpr hmem, rfl, rfl⟩) hlookup
  · intro hagrees name key key' hkey hkey'
    obtain ⟨⟨name', key''⟩, hmem, rfl, rfl⟩ := lookup_toAdditions.mp hkey
    exact hagrees name' key'' ((mem_entries_kept h).mp hmem) key'
      ⟨text, existing, htext, hparse, hkey'⟩

/-- **When the import raises**: what is kept has a name with two keys, or the store cannot be
read, or has another key for a name. -/
theorem raises_iff : Raises lookup store (encodeAll caches) ↔
    ¬(Functional (kept caches lookup) ∧ Readable store ∧ StoreAgrees caches lookup store) := by
  constructor
  · rintro ⟨e, himport, -⟩ ⟨hfunctional, ⟨text, existing, htext, hparse⟩, hagrees⟩
    obtain ⟨after, -, -, hmerge, -⟩ := KeyStore.merge_of_accepted htext hparse
      ((agrees_iff htext hparse hfunctional).mpr hagrees)
    rw [importKeys, collectKeys_of_functional hfunctional] at himport
    dsimp only at himport
    rw [hmerge] at himport
    cases (Prod.mk.inj himport).1
  · intro hnot
    by_cases hfunctional : Functional (kept caches lookup)
    · rw [Raises, importKeys, collectKeys_of_functional hfunctional]
      dsimp only
      by_cases hread : Readable store
      · obtain ⟨text, existing, htext, hparse⟩ := hread
        have hconflict : ¬KeyStore.Agrees existing
            (toAdditions (Dict.ofPairs (kept caches lookup))) := fun hagrees =>
          hnot ⟨hfunctional, ⟨text, existing, htext, hparse⟩,
            (agrees_iff htext hparse hfunctional).mp hagrees⟩
        obtain ⟨name, hmerge, -⟩ := KeyStore.merge_of_conflict htext hparse hconflict
        rw [hmerge]
        exact ⟨_, rfl, rfl⟩
      · obtain ⟨e, hmerge, hvalue⟩ := @KeyStore.merge_of_unreadable
          (toAdditions (Dict.ofPairs (kept caches lookup))) store
          fun text existing htext hparse => hread ⟨text, existing, htext, hparse⟩
        rw [hmerge]
        exact ⟨_, rfl, hvalue⟩
    · obtain ⟨name, hcollect⟩ := collectKeys_of_not_functional hfunctional
      rw [Raises, importKeys, hcollect]
      exact ⟨_, rfl, rfl⟩

/-- **Otherwise it adds something or nothing**, and does not raise. -/
theorem outcome_of_accepted (hfunctional : Functional (kept caches lookup))
    (hread : Readable store) (hagrees : StoreAgrees caches lookup store) :
    ∃ added, (outcome lookup store (encodeAll caches)).1 = some added := by
  obtain ⟨text, existing, htext, hparse⟩ := hread
  obtain ⟨after, -, -, hmerge, -⟩ := KeyStore.merge_of_accepted htext hparse
    ((agrees_iff htext hparse hfunctional).mpr hagrees)
  refine ⟨KeyStore.absentNames existing (toAdditions (Dict.ofPairs (kept caches lookup))), ?_⟩
  rw [outcome, importKeys, collectKeys_of_functional hfunctional]
  dsimp only
  rw [hmerge]
  rfl

theorem outcome_of_raises {caches : List (Option (List UInt8))} (h : Raises lookup store caches) :
    outcome lookup store caches = (none, store) := by
  obtain ⟨e, himport, -⟩ := h
  rw [outcome, himport]
  rfl

theorem toOption_mapError {α ε ε' : Type} (f : ε → ε') (result : Except ε α) :
    (result.mapError f).toOption = result.toOption := by
  cases result with
  | error e => rfl
  | ok a => rfl

/-- **The outcome is that of the pairs that are kept**, whatever their order. -/
theorem outcome_congr {caches' : List (Option HotfixCache)}
    (hkept : ∀ e, e ∈ kept caches' lookup ↔ e ∈ kept caches lookup) :
    outcome lookup store (encodeAll caches') = outcome lookup store (encodeAll caches) := by
  have hfunctional : Functional (kept caches' lookup) ↔ Functional (kept caches lookup) := by
    simp only [Functional, hkept]
  by_cases h : Functional (kept caches lookup)
  · have hlookup : ∀ name, (toAdditions (Dict.ofPairs (kept caches' lookup))).lookup name =
        (toAdditions (Dict.ofPairs (kept caches lookup))).lookup name := by
      intro name
      apply Option.ext
      intro key
      rw [lookup_toAdditions, lookup_toAdditions]
      refine exists_congr fun e => and_congr_left fun _ => ?_
      rw [mem_entries_kept (hfunctional.mpr h), mem_entries_kept h, hkept]
    obtain ⟨hadded, hafter⟩ := KeyStore.merge_congr hlookup store
    rw [outcome, outcome, importKeys, importKeys, collectKeys_of_functional h,
      collectKeys_of_functional (hfunctional.mpr h)]
    refine Prod.ext ?_ hafter
    dsimp only
    rw [toOption_mapError, toOption_mapError, hadded]
  · have hraises : ∀ caches : List (Option HotfixCache), ¬Functional (kept caches lookup) →
        Raises lookup store (encodeAll caches) := fun caches h =>
      raises_iff.mpr fun hall => h hall.1
    rw [outcome_of_raises (hraises caches h),
      outcome_of_raises (hraises caches' (mt hfunctional.mp h))]

/-! ### What survives and what is kept -/

theorem survives_of_mem_kept {name : HexText 16} {key : HexText 32}
    (h : (name, key) ∈ kept caches lookup) : Survives caches lookup name key := by
  obtain ⟨cache, hcache, hmem⟩ := mem_kept.mp h
  exact ⟨cache, hcache, CacheFile.has_of_mem_matched hmem⟩

/-- Of a name that survives in a cache, a key is kept. -/
theorem exists_kept {cache : HotfixCache} (hcache : some cache ∈ caches) {name : HexText 16}
    {key : HexText 32} (h : cache.Has lookup name key) :
    ∃ key', (name, key') ∈ kept caches lookup ∧ cache.Has lookup name key' ∧
      cache.Offers lookup name key' := by
  obtain ⟨key', hmem⟩ := CacheFile.exists_matched_of_has h
  exact ⟨key', mem_kept.mpr ⟨cache, hcache, hmem⟩, CacheFile.has_of_mem_matched hmem,
    CacheFile.offers_of_mem_matched cache.sized hmem⟩

/-- **Without ambiguity everything that survives is kept.** -/
theorem mem_kept_iff (h : Unambiguous caches lookup) {name : HexText 16} {key : HexText 32} :
    (name, key) ∈ kept caches lookup ↔ Survives caches lookup name key := by
  refine ⟨survives_of_mem_kept, ?_⟩
  rintro ⟨cache, hcache, hhas⟩
  obtain ⟨key', hmem, hhas', -⟩ := exists_kept hcache hhas
  rwa [h cache hcache name key key' hhas hhas']

/-- Without a conflict nothing is ambiguous, and the caches agree. -/
theorem of_not_conflict (h : ¬Conflict caches lookup store) :
    Unambiguous caches lookup ∧ Functional (kept caches lookup) := by
  have hsame : ∀ name key key', Survives caches lookup name key →
      Survives caches lookup name key' → key = key' := by
    intro name key key' hkey hkey'
    by_contra hne
    exact h ⟨name, key, hkey, Or.inl ⟨key', hkey', Ne.symm hne⟩⟩
  exact ⟨fun cache hcache name key key' hkey hkey' =>
      hsame name key key' ⟨cache, hcache, hkey⟩ ⟨cache, hcache, hkey'⟩,
    fun name key key' hkey hkey' =>
      hsame name key key' (survives_of_mem_kept hkey) (survives_of_mem_kept hkey')⟩

/-- **What nobody could agree on raises.** -/
theorem raises_of_disagreed {name : HexText 16} {key : HexText 32}
    (hsurvives : Survives caches lookup name key)
    (hnone : ∀ key, ¬Agreed caches lookup store name key) :
    Raises lookup store (encodeAll caches) := by
  refine raises_iff.mpr ?_
  rintro ⟨hfunctional, -, hagrees⟩
  obtain ⟨cache, hcache, hhas⟩ := hsurvives
  obtain ⟨key', hmem, -⟩ := exists_kept hcache hhas
  refine hnone key' ⟨?_, hagrees name key' hmem⟩
  rintro cache' hcache' ⟨key'', hhas'⟩
  obtain ⟨kept, hkept, -, hoffers⟩ := exists_kept hcache' hhas'
  rwa [hfunctional name key' kept hmem hkept]

/-! ### Caches in another order -/

section Order

variable {caches' : List (Option HotfixCache)}

theorem ReorderedAll.exists_left (h : ReorderedAll caches caches') {cache' : HotfixCache}
    (hmem : some cache' ∈ caches') :
    ∃ cache : HotfixCache, some cache ∈ caches ∧ cache.Reordered cache'.toCacheFile := by
  induction h with
  | nil => exact absurd hmem List.not_mem_nil
  | cons hrel _ ih =>
    rcases List.mem_cons.mp hmem with rfl | hmem
    · obtain ⟨hrel⟩ := hrel
      exact ⟨_, List.mem_cons_self, by assumption⟩
    · obtain ⟨cache, hcache, hrel⟩ := ih hmem
      exact ⟨cache, List.mem_cons_of_mem _ hcache, hrel⟩

theorem ReorderedAll.exists_right (h : ReorderedAll caches caches') {cache : HotfixCache}
    (hmem : some cache ∈ caches) :
    ∃ cache' : HotfixCache, some cache' ∈ caches' ∧ cache.Reordered cache'.toCacheFile := by
  induction h with
  | nil => exact absurd hmem List.not_mem_nil
  | cons hrel _ ih =>
    rcases List.mem_cons.mp hmem with rfl | hmem
    · obtain ⟨hrel⟩ := hrel
      exact ⟨_, List.mem_cons_self, by assumption⟩
    · obtain ⟨cache', hcache, hrel⟩ := ih hmem
      exact ⟨cache', List.mem_cons_of_mem _ hcache, hrel⟩

theorem ReorderedAll.survives_iff (h : ReorderedAll caches caches') {name : HexText 16}
    {key : HexText 32} : Survives caches' lookup name key ↔ Survives caches lookup name key := by
  constructor
  · rintro ⟨cache', hcache', hhas⟩
    obtain ⟨cache, hcache, hreordered⟩ := h.exists_left hcache'
    exact ⟨cache, hcache, hreordered.has_iff.mp hhas⟩
  · rintro ⟨cache, hcache, hhas⟩
    obtain ⟨cache', hcache', hreordered⟩ := h.exists_right hcache
    exact ⟨cache', hcache', hreordered.has_iff.mpr hhas⟩

theorem ReorderedAll.unambiguous (h : ReorderedAll caches caches')
    (hunambiguous : Unambiguous caches lookup) : Unambiguous caches' lookup := by
  intro cache' hcache' name key key' hkey hkey'
  obtain ⟨cache, hcache, hreordered⟩ := h.exists_left hcache'
  exact hunambiguous cache hcache name key key' (hreordered.has_iff.mp hkey)
    (hreordered.has_iff.mp hkey')

theorem ReorderedAll.agreed (h : ReorderedAll caches caches') {name : HexText 16}
    {key : HexText 32} (hagreed : Agreed caches' lookup store name key) :
    Agreed caches lookup store name key := by
  refine ⟨?_, hagreed.2⟩
  rintro cache hcache ⟨key', hhas⟩
  obtain ⟨cache', hcache', hreordered⟩ := h.exists_right hcache
  exact hreordered.offers_iff.mp
    (hagreed.1 cache' hcache' ⟨key', hreordered.has_iff.mpr hhas⟩)

/-- **What the caches agree on is kept in some order of their records.** -/
theorem exists_reorderedAll (choice : HexText 16 → HexText 32)
    (hoffers : ∀ cache : HotfixCache, some cache ∈ caches → ∀ name,
      (∃ key, cache.Has lookup name key) → cache.Offers lookup name (choice name)) :
    ∃ caches', ReorderedAll caches caches' ∧
      ∀ name key, (name, key) ∈ kept caches' lookup → key = choice name := by
  induction caches with
  | nil => exact ⟨[], List.Forall₂.nil, fun name key h => absurd h List.not_mem_nil⟩
  | cons cache caches ih =>
    obtain ⟨caches', hreordered, hchoice⟩ := ih fun cache hcache =>
      hoffers cache (List.mem_cons_of_mem _ hcache)
    rcases cache with _ | cache
    · exact ⟨none :: caches', List.Forall₂.cons Option.Rel.none hreordered, hchoice⟩
    · obtain ⟨file', hfile', hkept⟩ := CacheFile.exists_reordered cache.sized choice
        (hoffers cache List.mem_cons_self)
      refine ⟨some ⟨file', hfile'.sized_iff.mpr cache.sized⟩ :: caches',
        List.Forall₂.cons (Option.Rel.some hfile') hreordered, fun name key hmem => ?_⟩
      rcases List.mem_append.mp hmem with hmem | hmem
      · exact hkept name key hmem
      · exact hchoice name key hmem

end Order

/-! ### What a safe import promises -/

/-- **An import that is safe keeps its promise.** -/
theorem nothingIsChosen_of_safe (h : Safe caches lookup store) :
    NothingIsChosen caches lookup store where
  conflict := by
    rintro ⟨name, key, hsurvives, hother⟩
    rcases h with hunambiguous | hunreadable | ⟨name', ⟨key', hsurvives'⟩, hnone⟩
    · refine raises_iff.mpr ?_
      rintro ⟨hfunctional, -, hagrees⟩
      have hmem := (mem_kept_iff hunambiguous).mpr hsurvives
      rcases hother with ⟨key', hkey', hne⟩ | ⟨text, hstore, hne⟩
      · exact hne (hfunctional name key' key ((mem_kept_iff hunambiguous).mpr hkey') hmem)
      · exact hne (hagrees name key hmem text hstore)
    · exact raises_iff.mpr fun hall => hunreadable hall.2.1
    · exact raises_of_disagreed hsurvives' hnone
  pairs := by
    intro hnone
    obtain ⟨hunambiguous, hfunctional⟩ := of_not_conflict hnone
    refine ⟨_, collectKeys_of_functional hfunctional, fun name key => ?_⟩
    rw [mem_entries_kept hfunctional, mem_kept_iff hunambiguous]
  order := by
    intro caches' hreordered
    rcases h with hunambiguous | hunreadable | ⟨name, ⟨key, hsurvives⟩, hnone⟩
    · refine outcome_congr fun ⟨name, key⟩ => ?_
      rw [mem_kept_iff hunambiguous, mem_kept_iff (hreordered.unambiguous hunambiguous),
        hreordered.survives_iff]
    · have hraises : ∀ caches, Raises lookup store (encodeAll caches) := fun caches =>
        raises_iff.mpr fun hall => hunreadable hall.2.1
      rw [outcome_of_raises (hraises caches), outcome_of_raises (hraises caches')]
    · rw [outcome_of_raises (raises_of_disagreed hsurvives hnone),
        outcome_of_raises (raises_of_disagreed (hreordered.survives_iff.mpr hsurvives)
          fun key hagreed => hnone key (hreordered.agreed hagreed))]

/-- **One that is not breaks it**: the conflict in a cache is raised in no order in which every
name keeps the key that all agree on. -/
theorem safe_of_nothingIsChosen (h : NothingIsChosen caches lookup store) :
    Safe caches lookup store := by
  by_contra hunsafe
  simp only [Safe, not_or, not_not, not_exists, not_and, not_forall] at hunsafe
  obtain ⟨hambiguous, hread, hagreed⟩ := hunsafe
  -- a key for each name
  have hchoice : ∀ name, ∃ key, (∃ key, Survives caches lookup name key) →
      Agreed caches lookup store name key := by
    intro name
    by_cases hsurvives : ∃ key, Survives caches lookup name key
    · obtain ⟨key, hkey⟩ := hsurvives
      obtain ⟨key', hkey'⟩ := hagreed name ⟨key, hkey⟩
      exact ⟨key', fun _ => hkey'⟩
    · exact ⟨HexText.ofNat 32 0, fun h => absurd h hsurvives⟩
  choose choice hchoice using hchoice
  obtain ⟨caches', hreordered, hkept⟩ := exists_reorderedAll choice
    fun cache hcache name hhas => by
      obtain ⟨key, hkey⟩ := hhas
      exact (hchoice name ⟨key, cache, hcache, hkey⟩).1 cache hcache ⟨key, hkey⟩
  have hfunctional : Functional (kept caches' lookup) := fun name key key' hkey hkey' =>
    (hkept name key hkey).trans (hkept name key' hkey').symm
  have hagrees : StoreAgrees caches' lookup store := by
    intro name key hmem text hstore
    have hsurvives := hreordered.survives_iff.mp (survives_of_mem_kept hmem)
    rw [hkept name key hmem]
    exact (hchoice name ⟨key, hsurvives⟩).2 text hstore
  obtain ⟨added, hadded⟩ := outcome_of_accepted hfunctional hread hagrees
  -- but the cache that is ambiguous is a conflict
  have hconflict : Conflict caches lookup store := by
    by_contra hnone
    exact hambiguous (of_not_conflict hnone).1
  rw [h.order caches' hreordered, outcome_of_raises (h.conflict hconflict)] at hadded
  cases hadded

/-- **What is no cache is rejected.** -/
theorem exists_cache_of_harvest {data : List UInt8} {result : KeyDict × List UInt32}
    (h : harvest data lookup = .ok result) : ∃ cache : HotfixCache, data = cache.encode := by
  obtain ⟨records, hrecords, -⟩ := Program.except_bind_eq_ok_iff.mp h
  obtain ⟨file, rfl, -⟩ := eq_encode_of_readRecords hrecords
  by_cases hsized : file.Sized
  · exact ⟨⟨file, hsized⟩, rfl⟩
  · obtain ⟨e, he⟩ := (@CacheFile.harvest_error_iff file lookup).mpr hsized
    rw [he] at h
    cases h

theorem raises_of_rejected {data : List UInt8} {caches : List (Option (List UInt8))}
    (hmem : some data ∈ caches) (hnone : ∀ cache : HotfixCache, data ≠ cache.encode) :
    Raises lookup store caches := by
  have hcollect : ∀ additions, ∃ e, collectKeys lookup additions caches = .error e ∧
      e.isValueError = true := by
    induction caches with
    | nil => exact absurd hmem List.not_mem_nil
    | cons cache caches ih =>
      intro additions
      rcases List.mem_cons.mp hmem with rfl | hrest
      · rcases hharvest : harvest data lookup with e | result
        · exact ⟨.cache e, by rw [collectKeys, hharvest], rfl⟩
        · obtain ⟨cache, rfl⟩ := exists_cache_of_harvest hharvest
          exact absurd rfl (hnone cache)
      · rcases cache with _ | data'
        · exact ih hrest additions
        · rw [collectKeys]
          rcases harvest data' lookup with e | ⟨keys, unmatched⟩
          · exact ⟨.cache e, rfl, rfl⟩
          · dsimp only
            rcases hadd : addKeys additions keys.entries with e | additions'
            · obtain ⟨name, rfl⟩ := conflict_of_addKeys hadd
              exact ⟨_, rfl, rfl⟩
            · exact ih hrest additions'
  obtain ⟨e, he, hvalue⟩ := hcollect ∅
  exact ⟨e, by rw [importKeys, he], hvalue⟩

/-- **When no key is chosen silently.** An import of caches keeps its promise exactly if none
of them has two keys for a name, or the store cannot be read, or some name has no key that
every cache with the name offers in some order of its records and the store allows. With a
file that is no cache it raises and leaves the store. -/
theorem nothingIsChosen_iff (caches : List (Option HotfixCache)) (lookup : BaseLookup)
    (store : Option (List UInt8)) :
    (NothingIsChosen caches lookup store ↔ Safe caches lookup store) ∧
      ∀ (files : List (Option (List UInt8))) (data : List UInt8), some data ∈ files →
        (∀ cache : HotfixCache, data ≠ cache.encode) → Raises lookup store files :=
  ⟨⟨safe_of_nothingIsChosen, nothingIsChosen_of_safe⟩,
    fun _ _ hmem hnone => raises_of_rejected hmem hnone⟩

/-! ### Two rows of one name -/

/-- A record with a key. -/
def keyRecord (row : UInt32) (b : UInt8) : CacheRecord where
  first := 1
  push := 5
  third := 1
  table := tactKey
  row := row
  status := 1
  padding := [0, 0, 0]
  padding_length := rfl
  payload := List.replicate 16 b
  payload_lt := by
    rw [List.length_replicate]
    decide

/-- Two rows with different keys. -/
def twoRows : HotfixCache where
  header := xfth ++ 9 :: List.replicate 39 0
  isHeader := ⟨by decide, by decide, by decide⟩
  records := [keyRecord 1 0xaa, keyRecord 2 0xbb]
  sized := by
    have hall : ∀ record ∈ [(keyRecord 1 0xaa).tact, (keyRecord 2 0xbb).tact],
        record.isValid = true → record.payload.length = record.expected := by decide
    exact fun record hmem => hall record hmem

/-- The base lookup names both of them alike. -/
def oneName : BaseLookup :=
  Dict.ofPairs [(1, HexText.ofNat 16 0x1122334455667788), (2, HexText.ofNat 16 0x1122334455667788)]

/-- **A conflict within a cache is not noticed**: of two rows of one name the second wins,
the import adds its key to a new store, and the promise is broken. -/
theorem nothingIsChosen_fails :
    (∃ additions, collectKeys oneName ∅ (encodeAll [some twoRows]) = .ok additions ∧
      additions.entries = [(HexText.ofNat 16 0x1122334455667788,
        HexText.ofBytes (List.replicate 16 0xbb) rfl)]) ∧
    ¬Raises oneName none (encodeAll [some twoRows]) ∧
    ¬NothingIsChosen [some twoRows] oneName none := by
  have hkept : kept [some twoRows] oneName = [(HexText.ofNat 16 0x1122334455667788,
      HexText.ofBytes (List.replicate 16 0xbb) rfl)] := by decide +kernel
  have hfunctional : Functional (kept [some twoRows] oneName) := by
    rw [hkept]
    intro name key key' hkey hkey'
    exact congrArg Prod.snd ((List.mem_singleton.mp hkey).trans (List.mem_singleton.mp hkey').symm)
  have hraises : ¬Raises oneName none (encodeAll [some twoRows]) := by
    rw [raises_iff, not_not]
    refine ⟨hfunctional, ⟨[], ∅, rfl, rfl⟩, ?_⟩
    rintro name key - text ⟨text', existing, htext, hparse, hlookup⟩
    obtain rfl := Option.some.inj htext
    obtain rfl : ∅ = existing := Except.ok.inj hparse
    rw [AList.lookup_empty] at hlookup
    cases hlookup
  have hsurvives : ∀ row b, (twoRows.tables oneName).names.get? row =
      some (HexText.ofNat 16 0x1122334455667788) →
      (twoRows.tables oneName).keys.get? row = some (HexText.ofBytes (List.replicate 16 b) rfl) →
      Survives [some twoRows] oneName (HexText.ofNat 16 0x1122334455667788)
        (HexText.ofBytes (List.replicate 16 b) rfl) :=
    fun row b hname hkey => ⟨twoRows, List.mem_cons_self, row,
      CacheFile.get?_names.mp hname, CacheFile.get?_keys.mp hkey⟩
  have hconflict : Conflict [some twoRows] oneName none :=
    ⟨_, _, hsurvives 1 0xaa (by decide +kernel) (by decide +kernel),
      Or.inl ⟨_, hsurvives 2 0xbb (by decide +kernel) (by decide +kernel), by decide +kernel⟩⟩
  refine ⟨⟨_, collectKeys_of_functional hfunctional, ?_⟩, hraises,
    fun h => hraises (h.conflict hconflict)⟩
  rw [hkept]
  rfl

end KeyImport

end AssetResolver
