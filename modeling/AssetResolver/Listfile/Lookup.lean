import AssetResolver.Listfile.Entries
import Mathlib.Logic.Function.Basic

/-!
# Looking up a listfile entry

`listfile.rs`: two maps in memory, which keep the **first** value of a key; the local
table, which keeps the **last** row of either key; and the community table, which is
only read. A lookup asks them in this order, and an entry of the community table is
written to the other two on the way.

What the lookups are meant to answer is a function of the two tables at the start
(`AssetResolver.Listfile.answer`): the local row of the key, or else the community
row. Under the condition `AssetResolver.Listfile.Settled` every layer stays within one
table, the local rows extended by the community rows that share no key with them
(`AssetResolver.Listfile.Within`), so nothing that is written replaces anything.

The condition is also necessary. A community row that shares only **one** key with the
local rows is found under the other key, and writing it removes the local row
(`AssetResolver.Listfile.transparent_iff`).
-/

namespace AssetResolver

namespace Listfile

/-! ### State -/

/-- `CachedListfile`. -/
structure CachedListfile where
  /-- `by_fdid`. -/
  byFdid : UInt32 → Option String
  /-- `by_path`, by the lowercased path. -/
  byPath : String → Option UInt32

/-- Two empty maps. -/
def CachedListfile.empty : CachedListfile := ⟨fun _ => none, fun _ => none⟩

/-- A `Listfile` with the files it reads: a local cache that is missing, or has no
table, is an empty one. -/
structure State where
  /-- `local`: the maps in memory. -/
  memory : CachedListfile
  /-- The rows of `local_listfile_entries`. -/
  localRows : ListfileTable
  /-- The rows of `listfile_entries` in the community cache. -/
  community : ListfileTable

/-- A `Listfile` created on the files. -/
def State.start (localRows community : ListfileTable) : State := ⟨.empty, localRows, community⟩

/-- The accesses of a lookup that may fail, with their texts. -/
structure Faults where
  /-- A query of the local cache. -/
  readLocal : Option String
  /-- Opening or querying the community cache. -/
  readCommunity : Option String
  /-- `remember_local_cache_entry`. -/
  persist : Option String

/-- Nothing fails. -/
def calm : Faults := ⟨none, none, none⟩

/-! ### Writing -/

/-- `cache_in_memory`: the maps, the path that is now cached, and whether both keys
were there before. -/
def CachedListfile.cacheInMemory (memory : CachedListfile) (fdid : UInt32) (path : String) :
    CachedListfile × String × Bool :=
  let normalized := toAsciiLowercase path
  -- `or_insert`: a key that is there keeps its value
  let alreadyCached := (memory.byFdid fdid).isSome && (memory.byPath normalized).isSome
  let cachedPath := (memory.byFdid fdid).getD path
  (⟨Function.update memory.byFdid fdid (some cachedPath),
    Function.update memory.byPath normalized (some ((memory.byPath normalized).getD fdid))⟩,
    cachedPath, alreadyCached)

/-- `cache_local_path`. -/
def cacheLocalPath (s : State) (fdid : UInt32) (path : String) : State × String :=
  let (memory, cachedPath, _) := s.memory.cacheInMemory fdid path
  ({ s with memory := memory }, cachedPath)

/-- `remember`, with `remember_local_cache_entry`: a failure is only reported. -/
def remember (faults : Faults) (s : State) (fdid : UInt32) (path : String) : State :=
  let (memory, _, alreadyCached) := s.memory.cacheInMemory fdid path
  -- an entry that is in both maps is taken to be in the table as well
  if alreadyCached then { s with memory := memory }
  else
    match faults.persist with
    | some _ => { s with memory := memory }
    | none => { s with memory := memory, localRows := s.localRows.insertOrReplace ⟨fdid, path⟩ }

/-- `cache_path_for_fdid`. -/
def cachePathForFdid (faults : Faults) (s : State) (fdid : UInt32) (path : String) :
    State × String :=
  -- the path that was found, also when the map keeps another one
  (remember faults s fdid path, path)

/-! ### Lookups -/

/-- `lookup_local_fdid`. -/
def lookupLocalFdid (faults : Faults) (s : State) (fdid : UInt32) : State × Option String :=
  match s.memory.byFdid fdid with
  | some path => (s, some path)
  | none =>
    match faults.readLocal with
    | some _ => (s, none)
    | none =>
      match s.localRows.find₁ fdid with
      | none => (s, none)
      | some row =>
        let (s, path) := cacheLocalPath s fdid row.path
        (s, some path)

/-- `lookup_local_path`. -/
def lookupLocalPath (faults : Faults) (s : State) (path : String) : State × Option UInt32 :=
  match s.memory.byPath (toAsciiLowercase path) with
  | some fdid => (s, some fdid)
  | none =>
    match faults.readLocal with
    | some _ => (s, none)
    | none =>
      match s.localRows.find₂ (toAsciiLowercase path) with
      | none => (s, none)
      | some row => ((cacheLocalPath s row.fdid row.path).1, some row.fdid)

/-- `lookup_community_fdid`. -/
def lookupCommunityFdid (faults : Faults) (s : State) (fdid : UInt32) : State × Option String :=
  match faults.readCommunity with
  | some _ => (s, none)
  | none =>
    match s.community.find₁ fdid with
    | none => (s, none)
    | some row =>
      let (s, path) := cachePathForFdid faults s fdid row.path
      (s, some path)

/-- `lookup_community_path`. -/
def lookupCommunityPath (faults : Faults) (s : State) (path : String) : State × Option UInt32 :=
  match faults.readCommunity with
  | some _ => (s, none)
  | none =>
    match s.community.find₂ (toAsciiLowercase path) with
    | none => (s, none)
    | some row => ((cachePathForFdid faults s row.fdid row.path).1, some row.fdid)

/-- `lookup_fdid`. -/
def lookupFdid (faults : Faults) (s : State) (fdid : UInt32) : State × Option String :=
  match lookupLocalFdid faults s fdid with
  | (s, some path) => (s, some path)
  | (s, none) => lookupCommunityFdid faults s fdid

/-- `lookup_path`. -/
def lookupPath (faults : Faults) (s : State) (path : String) : State × Option UInt32 :=
  match lookupLocalPath faults s path with
  | (s, some fdid) => (s, some fdid)
  | (s, none) => lookupCommunityPath faults s path

/-! ### Sequences of lookups -/

/-- What a caller does. -/
inductive Op where
  /-- `Listfile::lookup_fdid`. -/
  | lookupFdid (fdid : UInt32) : Op
  /-- `Listfile::lookup_path`. -/
  | lookupPath (path : String) : Op
  /-- The process is restarted: a new `Listfile` on the same files. -/
  | restart : Op

/-- What it gets. -/
inductive Answer where
  /-- The path of an fdid. -/
  | path (found : Option String) : Answer
  /-- The fdid of a path. -/
  | fdid (found : Option UInt32) : Answer
  /-- Nothing. -/
  | restarted : Answer
  deriving DecidableEq

/-- One operation, while nothing fails. -/
def perform (s : State) : Op → State × Answer
  | .lookupFdid fdid =>
    let (s, found) := lookupFdid calm s fdid
    (s, .path found)
  | .lookupPath path =>
    let (s, found) := lookupPath calm s path
    (s, .fdid found)
  | .restart => (.start s.localRows s.community, .restarted)

/-- A sequence of operations. -/
def performAll (s : State) : List Op → State × List Answer
  | [] => (s, [])
  | op :: ops =>
    let (s, answer) := perform s op
    let (s, answers) := performAll s ops
    (s, answer :: answers)

/-! ### What the lookups are meant to do -/

/-- **The answer of two tables**: local rows win. -/
def answer (localRows community : ListfileTable) : Op → Answer
  | .lookupFdid fdid =>
    .path (((localRows.find₁ fdid).or (community.find₁ fdid)).map ListfileRow.path)
  | .lookupPath path =>
    .fdid (((localRows.find₂ (toAsciiLowercase path)).or
      (community.find₂ (toAsciiLowercase path))).map ListfileRow.fdid)
  | .restart => .restarted

/-- **Caching is transparent**: every answer is that of the tables at the start, and
no local row is lost. -/
def Transparent (localRows community : ListfileTable) (ops : List Op) : Prop :=
  (performAll (.start localRows community) ops).2 = ops.map (answer localRows community) ∧
    localRows.rows ⊆ (performAll (.start localRows community) ops).1.localRows.rows

/-- **The two tables are settled**: a community row has both keys in the local rows,
or neither. -/
def Settled (localRows community : ListfileTable) : Prop :=
  ∀ row ∈ community.rows, (∃ r ∈ localRows.rows, r.fdid = row.fdid) ↔
    ∃ r ∈ localRows.rows, r.lowerPath = row.lowerPath

variable {localRows community : ListfileTable} {s : State} {fdid : UInt32} {path : String}

/-! ### The table all layers stay within -/

/-- A community row whose one key the local rows do not have shares no key with them. -/
theorem Settled.not_conflict (h : Settled localRows community) {row : ListfileRow}
    (hrow : row ∈ community.rows)
    (hmiss : (∀ r ∈ localRows.rows, r.fdid ≠ row.fdid) ∨
      ∀ r ∈ localRows.rows, r.lowerPath ≠ row.lowerPath) :
    ∀ r ∈ localRows.rows, ¬Conflict ListfileRow.fdid ListfileRow.lowerPath r row := by
  have hiff := h row hrow
  rintro r hr (hfdid | hlower)
  · rcases hmiss with hmiss | hmiss
    · exact hmiss r hr hfdid
    · obtain ⟨r', hr', hlower⟩ := hiff.mp ⟨r, hr, hfdid⟩
      exact hmiss r' hr' hlower
  · rcases hmiss with hmiss | hmiss
    · obtain ⟨r', hr', hfdid⟩ := hiff.mpr ⟨r, hr, hlower⟩
      exact hmiss r' hr' hfdid
    · exact hmiss r hr hlower

/-- A community row that shares no key with the local rows is reached under both. -/
theorem Settled.mem_extend (h : Settled localRows community) {row : ListfileRow}
    (hrow : row ∈ community.rows)
    (hmiss : (∀ r ∈ localRows.rows, r.fdid ≠ row.fdid) ∨
      ∀ r ∈ localRows.rows, r.lowerPath ≠ row.lowerPath) :
    row ∈ (localRows.extend community).rows :=
  KeyedTable.mem_extend.mpr (Or.inr ⟨hrow, h.not_conflict hrow hmiss⟩)

/-- **The answer by fdid is that of one table.** -/
theorem Settled.find₁_extend (h : Settled localRows community) (fdid : UInt32) :
    (localRows.find₁ fdid).or (community.find₁ fdid) =
      (localRows.extend community).find₁ fdid := by
  refine KeyedTable.or_find?_filter fun hmiss row hrow hfdid => decide_eq_true ?_
  refine h.not_conflict hrow (Or.inl fun r hr => ?_)
  rw [of_decide_eq_true hfdid]
  simpa using hmiss r hr

/-- **The answer by path is that of the same table.** -/
theorem Settled.find₂_extend (h : Settled localRows community) (lower : String) :
    (localRows.find₂ lower).or (community.find₂ lower) =
      (localRows.extend community).find₂ lower := by
  refine KeyedTable.or_find?_filter fun hmiss row hrow hlower => decide_eq_true ?_
  refine h.not_conflict hrow (Or.inr fun r hr => ?_)
  rw [of_decide_eq_true hlower]
  simpa using hmiss r hr

/-- **The invariant**: the maps and the local table are within one table, and the
local table has every row it began with. -/
structure Within (localRows community : ListfileTable) (s : State) : Prop where
  byFdid : ∀ fdid path, s.memory.byFdid fdid = some path →
    ⟨fdid, path⟩ ∈ (localRows.extend community).rows
  byPath : ∀ lower fdid, s.memory.byPath lower = some fdid →
    ∃ r ∈ (localRows.extend community).rows, r.fdid = fdid ∧ r.lowerPath = lower
  local_subset : s.localRows.rows ⊆ (localRows.extend community).rows
  start_subset : localRows.rows ⊆ s.localRows.rows
  community_eq : s.community = community

theorem within_start : Within localRows community (.start localRows community) where
  byFdid := by rintro fdid path ⟨⟩
  byPath := by rintro lower fdid ⟨⟩
  local_subset := fun _ hr => KeyedTable.mem_extend.mpr (Or.inl hr)
  start_subset := fun _ hr => hr
  community_eq := rfl

/-- A process that restarts keeps the tables. -/
theorem Within.restart (h : Within localRows community s) :
    Within localRows community (.start s.localRows s.community) where
  byFdid := by rintro fdid path ⟨⟩
  byPath := by rintro lower fdid ⟨⟩
  local_subset := h.local_subset
  start_subset := h.start_subset
  community_eq := h.community_eq

/-- **Caching a row of the table keeps the maps within it**: a key that is cached
already keeps its value. -/
theorem Within.cacheInMemory (h : Within localRows community s)
    (hrow : ⟨fdid, path⟩ ∈ (localRows.extend community).rows) :
    Within localRows community { s with memory := (s.memory.cacheInMemory fdid path).1 } where
  byFdid := by
    intro fdid' path' hpath
    by_cases hfdid : fdid' = fdid
    · subst hfdid
      have hcached : (s.memory.byFdid fdid').getD path = path' := by
        simpa [CachedListfile.cacheInMemory] using hpath
      cases hold : s.memory.byFdid fdid' with
      | none =>
        rw [hold] at hcached
        rwa [← hcached]
      | some old =>
        rw [hold] at hcached
        rw [← hcached]
        exact h.byFdid fdid' old hold
    · refine h.byFdid fdid' path' ?_
      simpa [CachedListfile.cacheInMemory, hfdid] using hpath
  byPath := by
    intro lower fdid' hfdid
    by_cases hlower : lower = toAsciiLowercase path
    · subst hlower
      have hcached : (s.memory.byPath (toAsciiLowercase path)).getD fdid = fdid' := by
        simpa [CachedListfile.cacheInMemory] using hfdid
      cases hold : s.memory.byPath (toAsciiLowercase path) with
      | none =>
        rw [hold] at hcached
        exact ⟨_, hrow, hcached, rfl⟩
      | some old =>
        rw [hold] at hcached
        rw [← hcached]
        exact h.byPath _ old hold
    · refine h.byPath lower fdid' ?_
      simpa [CachedListfile.cacheInMemory, hlower] using hfdid
  local_subset := h.local_subset
  start_subset := h.start_subset
  community_eq := h.community_eq

/-- **Persisting a row of the table removes nothing.** -/
theorem Within.remember (h : Within localRows community s)
    (hrow : ⟨fdid, path⟩ ∈ (localRows.extend community).rows) :
    Within localRows community (remember calm s fdid path) := by
  have hcached := h.cacheInMemory hrow
  unfold Listfile.remember
  dsimp only
  split_ifs
  · exact hcached
  · have hmem : ∀ r, r ∈ (s.localRows.insertOrReplace ⟨fdid, path⟩).rows ↔
        r = ⟨fdid, path⟩ ∨ r ∈ s.localRows.rows := fun r =>
      KeyedTable.mem_insertOrReplace_of_subset h.local_subset hrow
    exact
      { byFdid := hcached.byFdid
        byPath := hcached.byPath
        local_subset := fun r hr => ((hmem r).mp hr).elim (fun heq => heq ▸ hrow)
          fun hr => h.local_subset hr
        start_subset := fun r hr => (hmem r).mpr (Or.inr (h.start_subset hr))
        community_eq := hcached.community_eq }

/-! ### What a lookup does -/

/-- **A local lookup by fdid** finds a row of the table, or there is no local row. -/
theorem Within.lookupLocalFdid (h : Within localRows community s) (fdid : UInt32) :
    Within localRows community (lookupLocalFdid calm s fdid).1 ∧
      (∀ path, (Listfile.lookupLocalFdid calm s fdid).2 = some path →
        ⟨fdid, path⟩ ∈ (localRows.extend community).rows) ∧
      ((Listfile.lookupLocalFdid calm s fdid).2 = none →
        ∀ r ∈ localRows.rows, r.fdid ≠ fdid) := by
  unfold Listfile.lookupLocalFdid
  cases hcached : s.memory.byFdid fdid with
  | some path =>
    refine ⟨h, ?_, by rintro ⟨⟩⟩
    rintro path ⟨⟩
    exact h.byFdid fdid path hcached
  | none =>
    dsimp only [calm]
    cases hfound : s.localRows.find₁ fdid with
    | none =>
      refine ⟨h, by rintro path ⟨⟩, fun _ r hr => ?_⟩
      exact KeyedTable.find₁_eq_none_iff.mp hfound r (h.start_subset hr)
    | some row =>
      obtain ⟨hrow, rfl⟩ := KeyedTable.find₁_eq_some_iff.mp hfound
      refine ⟨h.cacheInMemory (h.local_subset hrow), ?_, by rintro ⟨⟩⟩
      rintro path hpath
      have hpath' : row.path = path := by
        simpa [cacheLocalPath, CachedListfile.cacheInMemory, hcached] using hpath
      rw [← hpath']
      exact h.local_subset hrow

/-- **A local lookup by path.** -/
theorem Within.lookupLocalPath (h : Within localRows community s) (path : String) :
    Within localRows community (lookupLocalPath calm s path).1 ∧
      (∀ fdid, (Listfile.lookupLocalPath calm s path).2 = some fdid →
        ∃ r ∈ (localRows.extend community).rows, r.fdid = fdid ∧
          r.lowerPath = toAsciiLowercase path) ∧
      ((Listfile.lookupLocalPath calm s path).2 = none →
        ∀ r ∈ localRows.rows, r.lowerPath ≠ toAsciiLowercase path) := by
  unfold Listfile.lookupLocalPath
  cases hcached : s.memory.byPath (toAsciiLowercase path) with
  | some fdid =>
    refine ⟨h, ?_, by rintro ⟨⟩⟩
    rintro fdid ⟨⟩
    exact h.byPath _ fdid hcached
  | none =>
    dsimp only [calm]
    cases hfound : s.localRows.find₂ (toAsciiLowercase path) with
    | none =>
      refine ⟨h, by rintro fdid ⟨⟩, fun _ r hr => ?_⟩
      exact KeyedTable.find₂_eq_none_iff.mp hfound r (h.start_subset hr)
    | some row =>
      obtain ⟨hrow, hlower⟩ := KeyedTable.find₂_eq_some_iff.mp hfound
      refine ⟨h.cacheInMemory (h.local_subset hrow), ?_, by rintro ⟨⟩⟩
      rintro fdid ⟨⟩
      exact ⟨row, h.local_subset hrow, rfl, hlower⟩

/-- A community lookup by fdid, of an fdid without a local row. -/
theorem Within.lookupCommunityFdid (h : Within localRows community s)
    (hsettled : Settled localRows community) (hmiss : ∀ r ∈ localRows.rows, r.fdid ≠ fdid) :
    Within localRows community (lookupCommunityFdid calm s fdid).1 ∧
      (Listfile.lookupCommunityFdid calm s fdid).2 =
        (community.find₁ fdid).map ListfileRow.path := by
  simp only [Listfile.lookupCommunityFdid, calm, h.community_eq]
  cases hfound : community.find₁ fdid with
  | none => exact ⟨h, rfl⟩
  | some row =>
    obtain ⟨hrow, rfl⟩ := KeyedTable.find₁_eq_some_iff.mp hfound
    exact ⟨h.remember (hsettled.mem_extend hrow (Or.inl hmiss)), rfl⟩

/-- A community lookup by path, of a path without a local row. -/
theorem Within.lookupCommunityPath (h : Within localRows community s)
    (hsettled : Settled localRows community)
    (hmiss : ∀ r ∈ localRows.rows, r.lowerPath ≠ toAsciiLowercase path) :
    Within localRows community (lookupCommunityPath calm s path).1 ∧
      (Listfile.lookupCommunityPath calm s path).2 =
        (community.find₂ (toAsciiLowercase path)).map ListfileRow.fdid := by
  simp only [Listfile.lookupCommunityPath, calm, h.community_eq]
  cases hfound : community.find₂ (toAsciiLowercase path) with
  | none => exact ⟨h, rfl⟩
  | some row =>
    obtain ⟨hrow, hlower⟩ := KeyedTable.find₂_eq_some_iff.mp hfound
    refine ⟨h.remember (hsettled.mem_extend hrow (Or.inr ?_)), rfl⟩
    rwa [hlower]

/-- **A lookup by fdid answers from the table**, and stays within it. -/
theorem Within.lookupFdid (h : Within localRows community s)
    (hsettled : Settled localRows community) (fdid : UInt32) :
    Within localRows community (lookupFdid calm s fdid).1 ∧
      (Listfile.lookupFdid calm s fdid).2 =
        ((localRows.extend community).find₁ fdid).map ListfileRow.path := by
  obtain ⟨hwithin, hhit, hmiss⟩ := h.lookupLocalFdid fdid
  unfold Listfile.lookupFdid
  obtain ⟨s', found, hlocal⟩ : ∃ s' found, Listfile.lookupLocalFdid calm s fdid = (s', found) :=
    ⟨_, _, rfl⟩
  rw [hlocal] at hwithin hhit hmiss ⊢
  cases found with
  | some path =>
    refine ⟨hwithin, ?_⟩
    rw [KeyedTable.find₁_eq_some_iff.mpr ⟨hhit path rfl, rfl⟩]
    rfl
  | none =>
    have hnone : localRows.find₁ fdid = none := KeyedTable.find₁_eq_none_iff.mpr (hmiss rfl)
    rw [← hsettled.find₁_extend, hnone, Option.none_or]
    exact hwithin.lookupCommunityFdid hsettled (hmiss rfl)

/-- **A lookup by path answers from the same table**, and stays within it. -/
theorem Within.lookupPath (h : Within localRows community s)
    (hsettled : Settled localRows community) (path : String) :
    Within localRows community (lookupPath calm s path).1 ∧
      (Listfile.lookupPath calm s path).2 =
        ((localRows.extend community).find₂ (toAsciiLowercase path)).map ListfileRow.fdid := by
  obtain ⟨hwithin, hhit, hmiss⟩ := h.lookupLocalPath path
  unfold Listfile.lookupPath
  obtain ⟨s', found, hlocal⟩ : ∃ s' found, Listfile.lookupLocalPath calm s path = (s', found) :=
    ⟨_, _, rfl⟩
  rw [hlocal] at hwithin hhit hmiss ⊢
  cases found with
  | some fdid =>
    refine ⟨hwithin, ?_⟩
    obtain ⟨r, hr, hfdid, hlower⟩ := hhit fdid rfl
    rw [KeyedTable.find₂_eq_some_iff.mpr ⟨hr, hlower⟩, Option.map_some, hfdid]
  | none =>
    have hnone : localRows.find₂ (toAsciiLowercase path) = none :=
      KeyedTable.find₂_eq_none_iff.mpr (hmiss rfl)
    rw [← hsettled.find₂_extend, hnone, Option.none_or]
    exact hwithin.lookupCommunityPath hsettled (hmiss rfl)

/-- One operation, whatever it is. -/
theorem Within.perform (h : Within localRows community s) (hsettled : Settled localRows community)
    (op : Op) :
    Within localRows community (perform s op).1 ∧
      (Listfile.perform s op).2 = answer localRows community op := by
  cases op with
  | lookupFdid fdid =>
    obtain ⟨hwithin, hanswer⟩ := h.lookupFdid hsettled fdid
    exact ⟨hwithin, by rw [answer, hsettled.find₁_extend, ← hanswer]; rfl⟩
  | lookupPath path =>
    obtain ⟨hwithin, hanswer⟩ := h.lookupPath hsettled path
    exact ⟨hwithin, by rw [answer, hsettled.find₂_extend, ← hanswer]; rfl⟩
  | restart => exact ⟨h.restart, rfl⟩

/-- **A sequence of operations**, by induction over it. -/
theorem Within.performAll (hsettled : Settled localRows community) (ops : List Op) {s : State}
    (h : Within localRows community s) :
    Within localRows community (performAll s ops).1 ∧
      (Listfile.performAll s ops).2 = ops.map (answer localRows community) := by
  induction ops generalizing s with
  | nil => exact ⟨h, rfl⟩
  | cons op ops ih =>
    obtain ⟨hwithin, hanswer⟩ := h.perform hsettled op
    obtain ⟨hrest, hanswers⟩ := ih hwithin
    refine ⟨hrest, ?_⟩
    rw [List.map_cons, ← hanswer, ← hanswers]
    rfl

/-! ### When caching is transparent -/

/-- **Writing a row that has a key in common with another removes that one.** -/
theorem not_subset_insertOrReplace {t : ListfileTable} {r row : ListfileRow} (hr : r ∈ t.rows)
    (hconflict : Conflict ListfileRow.fdid ListfileRow.lowerPath r row) (hne : r ≠ row) :
    ¬t.rows ⊆ (t.insertOrReplace row).rows := fun hsubset =>
  (KeyedTable.mem_insertOrReplace.mp (hsubset hr)).elim hne fun h => h.2 hconflict

/-- The first lookup of a community row by a path without a local row writes it. -/
theorem lookupPath_start {row : ListfileRow} (hrow : row ∈ community.rows)
    (hmiss : ∀ r ∈ localRows.rows, r.lowerPath ≠ row.lowerPath) :
    (lookupPath calm (.start localRows community) row.path).1.localRows =
      localRows.insertOrReplace row := by
  have hlocal : localRows.find₂ (toAsciiLowercase row.path) = none :=
    KeyedTable.find₂_eq_none_iff.mpr hmiss
  have hcommunity : community.find₂ (toAsciiLowercase row.path) = some row :=
    KeyedTable.find₂_eq_some_iff.mpr ⟨hrow, rfl⟩
  simp [lookupPath, lookupLocalPath, lookupCommunityPath, cachePathForFdid, remember,
    CachedListfile.cacheInMemory, CachedListfile.empty, State.start, calm, hlocal, hcommunity]

/-- The first lookup of a community row by an fdid without a local row writes it. -/
theorem lookupFdid_start {row : ListfileRow} (hrow : row ∈ community.rows)
    (hmiss : ∀ r ∈ localRows.rows, r.fdid ≠ row.fdid) :
    (lookupFdid calm (.start localRows community) row.fdid).1.localRows =
      localRows.insertOrReplace row := by
  have hlocal : localRows.find₁ row.fdid = none := KeyedTable.find₁_eq_none_iff.mpr hmiss
  have hcommunity : community.find₁ row.fdid = some row :=
    KeyedTable.find₁_eq_some_iff.mpr ⟨hrow, rfl⟩
  simp [lookupFdid, lookupLocalFdid, lookupCommunityFdid, cachePathForFdid, remember,
    CachedListfile.cacheInMemory, CachedListfile.empty, State.start, calm, hlocal, hcommunity]

/-- **Caching is transparent for every sequence of lookups exactly when the two tables
are settled.** -/
theorem transparent_iff :
    (∀ ops, Transparent localRows community ops) ↔ Settled localRows community := by
  constructor
  · intro htransparent row hrow
    constructor
    · rintro ⟨r, hr, hfdid⟩
      by_contra hmiss
      have hmiss' : ∀ r ∈ localRows.rows, r.lowerPath ≠ row.lowerPath :=
        fun r hr hlower => hmiss ⟨r, hr, hlower⟩
      have hsubset := (htransparent [.lookupPath row.path]).2
      change localRows.rows ⊆
        (lookupPath calm (.start localRows community) row.path).1.localRows.rows at hsubset
      rw [lookupPath_start hrow hmiss'] at hsubset
      refine not_subset_insertOrReplace hr (Or.inl hfdid) ?_ hsubset
      rintro rfl
      exact hmiss' r hr rfl
    · rintro ⟨r, hr, hlower⟩
      by_contra hmiss
      have hmiss' : ∀ r ∈ localRows.rows, r.fdid ≠ row.fdid :=
        fun r hr hfdid => hmiss ⟨r, hr, hfdid⟩
      have hsubset := (htransparent [.lookupFdid row.fdid]).2
      change localRows.rows ⊆
        (lookupFdid calm (.start localRows community) row.fdid).1.localRows.rows at hsubset
      rw [lookupFdid_start hrow hmiss'] at hsubset
      refine not_subset_insertOrReplace hr (Or.inr hlower) ?_ hsubset
      rintro rfl
      exact hmiss' r hr rfl
  · intro hsettled ops
    obtain ⟨hwithin, hanswers⟩ := Within.performAll hsettled ops within_start
    exact ⟨hanswers, hwithin.start_subset⟩

/-- **A lookup can answer with a community row, and remove a local one for it.** -/
theorem not_transparent :
    ¬∀ (localRows community : ListfileTable) (ops : List Op),
      Transparent localRows community ops := by
  intro hall
  obtain ⟨hanswers, -⟩ := hall ⟨[⟨1, "a"⟩], by decide⟩ ⟨[⟨1, "b"⟩], by decide⟩
    [.lookupPath "b", .restart, .lookupFdid 1]
  exact absurd hanswers (by decide +kernel)

end Listfile

end AssetResolver
