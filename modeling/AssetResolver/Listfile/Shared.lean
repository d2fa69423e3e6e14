import AssetResolver.Library.Runs
import AssetResolver.Listfile.Lookup

/-!
# Listfiles that share a local cache

Any number of `Listfile`s, in threads of one process or in different processes, that
share the local cache file. A lookup is the steps of `listfile.rs` between which others
may run: the probe of the maps, the query of the local table, the query of the community
table, `cache_in_memory` under its lock, and the transaction of
`remember_local_cache_entry`, which may fail.

Nothing of this is ordered between the instances, and the maps keep the first value of a
key while the table keeps the last row of either. What makes it come out right is that
all the rows anybody can meet are rows of **one table with two unique keys**, the union
of the two stores (`AssetResolver.SharedListfile.Compatible`): a row of it that is
written removes nothing, and a row of it that is cached is either in both maps or in
neither (`AssetResolver.SharedListfile.Inverse.cacheInMemory`).
-/

namespace AssetResolver

namespace SharedListfile

open Listfile (CachedListfile Answer)

/-! ### The machine -/

/-- A lookup. -/
inductive Lookup where
  /-- `Listfile::lookup_fdid`. -/
  | byFdid (fdid : UInt32) : Lookup
  /-- `Listfile::lookup_path`. -/
  | byPath (path : String) : Lookup
  deriving DecidableEq

namespace Lookup

/-- What the maps answer. -/
def probe (memory : CachedListfile) : Lookup → Option Answer
  | .byFdid fdid => (memory.byFdid fdid).map fun path => .path (some path)
  | .byPath path => (memory.byPath (toAsciiLowercase path)).map fun fdid => .fdid (some fdid)

/-- The row a query of a table finds. -/
def find (table : ListfileTable) : Lookup → Option ListfileRow
  | .byFdid fdid => table.find₁ fdid
  | .byPath path => table.find₂ (toAsciiLowercase path)

/-- The answer of a lookup that found a row. -/
def found : Lookup → ListfileRow → Answer
  | .byFdid _, row => .path (some row.path)
  | .byPath _, row => .fdid (some row.fdid)

/-- The answer of a lookup that found none. -/
def missing : Lookup → Answer
  | .byFdid _ => .path none
  | .byPath _ => .fdid none

/-- The answer of one table. -/
def answer (table : ListfileTable) (q : Lookup) : Answer := (q.find table).elim q.missing q.found

end Lookup

/-- Where a thread is in a lookup of an instance. -/
inductive Pc (ι : Type) where
  /-- In none. -/
  | idle : Pc ι
  /-- Before the probe of the maps. -/
  | probing (i : ι) (q : Lookup) : Pc ι
  /-- Before the query of the local table. -/
  | queryingLocal (i : ι) (q : Lookup) : Pc ι
  /-- In `cache_local_path`, before `cache_in_memory`. -/
  | cachingLocal (i : ι) (q : Lookup) (row : ListfileRow) : Pc ι
  /-- Before the query of the community table. -/
  | queryingCommunity (i : ι) (q : Lookup) : Pc ι
  /-- In `remember`, before `cache_in_memory`. -/
  | remembering (i : ι) (q : Lookup) (row : ListfileRow) : Pc ι
  /-- Before the transaction of `remember_local_cache_entry`. -/
  | persisting (i : ι) (q : Lookup) (row : ListfileRow) : Pc ι

/-- The instances, the table they share, the threads, and what came of them. -/
structure State (ι τ : Type) where
  /-- The maps of each instance. -/
  memory : ι → CachedListfile
  /-- `local_listfile_entries`. -/
  localRows : ListfileTable
  /-- Where the threads are. -/
  pc : τ → Pc ι
  /-- The lookups that have returned, with their answers. -/
  finished : List (Lookup × Answer)
  /-- The rows whose transaction was committed. -/
  committed : List ListfileRow

variable {ι τ : Type} [DecidableEq ι] [DecidableEq τ]

namespace State

/-- Instances that have just been created on a local table. -/
def initial (localRows : ListfileTable) : State ι τ :=
  ⟨fun _ => .empty, localRows, fun _ => .idle, [], []⟩

/-- A thread goes on. -/
def goto (s : State ι τ) (t : τ) (p : Pc ι) : State ι τ := { s with pc := Function.update s.pc t p }

/-- A lookup returns. -/
def finish (s : State ι τ) (t : τ) (q : Lookup) (answer : Answer) : State ι τ :=
  { s.goto t .idle with finished := (q, answer) :: s.finished }

/-- The maps of an instance change. -/
def remap (s : State ι τ) (i : ι) (memory : CachedListfile) : State ι τ :=
  { s with memory := Function.update s.memory i memory }

/-- A row is committed to the table. -/
def persist (s : State ι τ) (row : ListfileRow) : State ι τ :=
  { s with localRows := s.localRows.insertOrReplace row, committed := row :: s.committed }

end State

/-- What may happen. -/
inductive Event (ι τ : Type) where
  /-- A thread calls a lookup of an instance. -/
  | call (t : τ) (i : ι) (q : Lookup) : Event ι τ
  /-- A thread takes its next step. -/
  | step (t : τ) : Event ι τ
  /-- The transaction of a thread fails, which is only reported. -/
  | fail (t : τ) : Event ι τ

/-- The next step of a thread. -/
def advance (community : ListfileTable) (s : State ι τ) (t : τ) : Pc ι → Option (State ι τ)
  | .idle => none
  | .probing i q =>
    some (match q.probe (s.memory i) with
      | some answer => s.finish t q answer
      | none => s.goto t (.queryingLocal i q))
  | .queryingLocal i q =>
    some (s.goto t (match q.find s.localRows with
      | some row => .cachingLocal i q row
      | none => .queryingCommunity i q))
  | .cachingLocal i q row =>
    let (memory, cachedPath, _) := (s.memory i).cacheInMemory row.fdid row.path
    some ((s.remap i memory).finish t q (q.found ⟨row.fdid, cachedPath⟩))
  | .queryingCommunity i q =>
    some (match q.find community with
      | some row => s.goto t (.remembering i q row)
      | none => s.finish t q q.missing)
  | .remembering i q row =>
    let (memory, _, alreadyCached) := (s.memory i).cacheInMemory row.fdid row.path
    some (if alreadyCached then (s.remap i memory).finish t q (q.found row)
      else (s.remap i memory).goto t (.persisting i q row))
  | .persisting _ q row => some ((s.persist row).finish t q (q.found row))

/-- What an event does. -/
def step (community : ListfileTable) (s : State ι τ) : Event ι τ → Option (State ι τ)
  | .call t i q =>
    match s.pc t with
    | .idle => some (s.goto t (.probing i q))
    | _ => none
  | .step t => advance community s t (s.pc t)
  | .fail t =>
    match s.pc t with
    | .persisting _ q row => some (s.finish t q (q.found row))
    | _ => none

/-! ### The one table -/

/-- **The two stores are compatible**: in their union an fdid has one path, and a lowercased
path has one fdid. -/
structure Compatible (localRows community : ListfileTable) : Prop where
  path_of_fdid : ∀ r ∈ localRows.rows ++ community.rows, ∀ r' ∈ localRows.rows ++ community.rows,
    r.fdid = r'.fdid → r.path = r'.path
  fdid_of_path : ∀ r ∈ localRows.rows ++ community.rows, ∀ r' ∈ localRows.rows ++ community.rows,
    toAsciiLowercase r.path = toAsciiLowercase r'.path → r.fdid = r'.fdid

variable {localRows community U : ListfileTable} {s s' : State ι τ} {t : τ} {q : Lookup}
  {row : ListfileRow}

/-- Two rows of the union that share a key are one row. -/
theorem Compatible.eq_of_conflict (h : Compatible localRows community) {r r' : ListfileRow}
    (hr : r ∈ localRows.rows ++ community.rows) (hr' : r' ∈ localRows.rows ++ community.rows)
    (hconflict : Conflict ListfileRow.fdid ListfileRow.lowerPath r r') : r = r' := by
  have hfdid : r.fdid = r'.fdid := by
    rcases hconflict with hfdid | hlower
    · exact hfdid
    · exact h.fdid_of_path r hr r' hr' hlower
  have hpath : r.path = r'.path := h.path_of_fdid r hr r' hr' hfdid
  obtain ⟨fdid, path⟩ := r
  obtain ⟨fdid', path'⟩ := r'
  obtain rfl : fdid = fdid' := hfdid
  obtain rfl : path = path' := hpath
  rfl

/-- **The union is a table.** -/
theorem Compatible.mem_extend (h : Compatible localRows community) :
    row ∈ (localRows.extend community).rows ↔ row ∈ localRows.rows ∨ row ∈ community.rows := by
  rw [KeyedTable.mem_extend]
  constructor
  · exact Or.imp_right And.left
  · rintro (hrow | hrow)
    · exact Or.inl hrow
    · by_cases hfree : ∀ r' ∈ localRows.rows,
          ¬Conflict ListfileRow.fdid ListfileRow.lowerPath r' row
      · exact Or.inr ⟨hrow, hfree⟩
      · push Not at hfree
        obtain ⟨r', hr', hconflict⟩ := hfree
        rw [← h.eq_of_conflict (List.mem_append_left _ hr') (List.mem_append_right _ hrow)
          hconflict]
        exact Or.inl hr'

/-- The row has the key that is looked up. -/
def Lookup.Matches : Lookup → ListfileRow → Prop
  | .byFdid fdid, row => row.fdid = fdid
  | .byPath path, row => row.lowerPath = toAsciiLowercase path

theorem find_eq_some_iff : q.find U = some row ↔ row ∈ U.rows ∧ q.Matches row := by
  cases q with
  | byFdid fdid => exact KeyedTable.find₁_eq_some_iff
  | byPath path => exact KeyedTable.find₂_eq_some_iff

theorem find_eq_none_iff : q.find U = none ↔ ∀ r ∈ U.rows, ¬q.Matches r := by
  cases q with
  | byFdid fdid => exact KeyedTable.find₁_eq_none_iff
  | byPath path => exact KeyedTable.find₂_eq_none_iff

theorem answer_of_find (h : q.find U = some row) : q.answer U = q.found row := by
  rw [Lookup.answer, h]
  rfl

/-! ### The maps of one instance -/

/-- **The maps are inverse to each other**, and their entries are rows of the table. -/
structure Inverse (U : ListfileTable) (memory : CachedListfile) : Prop where
  byFdid : ∀ fdid path, memory.byFdid fdid = some path →
    ⟨fdid, path⟩ ∈ U.rows ∧ memory.byPath (toAsciiLowercase path) = some fdid
  byPath : ∀ lower fdid, memory.byPath lower = some fdid →
    ∃ path, memory.byFdid fdid = some path ∧ toAsciiLowercase path = lower

variable {memory : CachedListfile} {answer : Answer}

theorem inverse_empty : Inverse U .empty where
  byFdid := by rintro fdid path ⟨⟩
  byPath := by rintro lower fdid ⟨⟩

/-- A row of the table that is in one map is in both, and there is nothing else for its
keys. -/
theorem Inverse.byPath_iff (h : Inverse U memory) (hrow : row ∈ U.rows) {fdid : UInt32} :
    memory.byPath row.lowerPath = some fdid ↔
      fdid = row.fdid ∧ memory.byFdid row.fdid = some row.path := by
  constructor
  · intro hfound
    obtain ⟨path, hpath, hlower⟩ := h.byPath _ _ hfound
    obtain ⟨hmem, -⟩ := h.byFdid _ _ hpath
    obtain rfl : (⟨fdid, path⟩ : ListfileRow) = row := U.eq_of_conflict hmem hrow (Or.inr hlower)
    exact ⟨rfl, hpath⟩
  · rintro ⟨rfl, hpath⟩
    exact (h.byFdid _ _ hpath).2

/-- What is cached for the fdid of a row is the path of the row. -/
theorem Inverse.path_eq (h : Inverse U memory) (hrow : row ∈ U.rows) {path : String}
    (hpath : memory.byFdid row.fdid = some path) : path = row.path := by
  obtain ⟨hmem, -⟩ := h.byFdid _ _ hpath
  exact congrArg ListfileRow.path (U.eq_of_conflict hmem hrow (Or.inl rfl))

/-- **Caching a row of the table keeps the maps inverse**: it is in both of them already, or
in neither. -/
theorem Inverse.cacheInMemory (h : Inverse U memory) (hrow : row ∈ U.rows) :
    Inverse U (memory.cacheInMemory row.fdid row.path).1 ∧
      (memory.cacheInMemory row.fdid row.path).2.1 = row.path := by
  rcases hcached : memory.byFdid row.fdid with _ | path
  · have hfree : memory.byPath (toAsciiLowercase row.path) = none := by
      rcases hfound : memory.byPath (toAsciiLowercase row.path) with _ | fdid
      · rfl
      · have hknown := ((h.byPath_iff hrow).mp hfound).2
        rw [hcached] at hknown
        cases hknown
    have hmaps : (memory.cacheInMemory row.fdid row.path).1 =
        ⟨Function.update memory.byFdid row.fdid (some row.path),
          Function.update memory.byPath (toAsciiLowercase row.path) (some row.fdid)⟩ := by
      simp [CachedListfile.cacheInMemory, hcached, hfree]
    refine ⟨?_, by simp [CachedListfile.cacheInMemory, hcached]⟩
    rw [hmaps]
    constructor
    · intro fdid path hpath
      dsimp only at hpath ⊢
      by_cases hfdid : fdid = row.fdid
      · subst hfdid
        rw [Function.update_self] at hpath
        obtain rfl := Option.some.inj hpath
        exact ⟨hrow, Function.update_self ..⟩
      · rw [Function.update_of_ne hfdid] at hpath
        obtain ⟨hmem, hback⟩ := h.byFdid _ _ hpath
        refine ⟨hmem, ?_⟩
        rw [Function.update_of_ne, hback]
        intro hlower
        rw [hlower, hfree] at hback
        cases hback
    · intro lower fdid hfdid
      dsimp only at hfdid ⊢
      by_cases hlower : lower = toAsciiLowercase row.path
      · subst hlower
        rw [Function.update_self] at hfdid
        obtain rfl := Option.some.inj hfdid
        exact ⟨row.path, Function.update_self .., rfl⟩
      · rw [Function.update_of_ne hlower] at hfdid
        obtain ⟨path, hpath, hback⟩ := h.byPath _ _ hfdid
        refine ⟨path, ?_, hback⟩
        rw [Function.update_of_ne, hpath]
        rintro rfl
        rw [hcached] at hpath
        cases hpath
  · -- the row is there, so that nothing changes
    obtain rfl : path = row.path := h.path_eq hrow hcached
    have hback : memory.byPath (toAsciiLowercase row.path) = some row.fdid :=
      (h.byFdid _ _ hcached).2
    have hmaps : (memory.cacheInMemory row.fdid row.path).1 = memory := by
      simp only [CachedListfile.cacheInMemory, hcached, hback, Option.getD_some]
      rw [← hcached, ← hback, Function.update_eq_self, Function.update_eq_self]
    refine ⟨?_, by simp [CachedListfile.cacheInMemory, hcached]⟩
    rw [hmaps]
    exact h

/-- **What the maps answer is what the table answers.** -/
theorem Inverse.probe (h : Inverse U memory) (hprobe : q.probe memory = some answer) :
    answer = q.answer U := by
  cases q with
  | byFdid fdid =>
    obtain ⟨path, hpath, rfl⟩ := Option.map_eq_some_iff.mp hprobe
    have hfind : (Lookup.byFdid fdid).find U = some ⟨fdid, path⟩ :=
      find_eq_some_iff.mpr ⟨(h.byFdid _ _ hpath).1, rfl⟩
    rw [answer_of_find hfind]
    rfl
  | byPath path =>
    obtain ⟨fdid, hfdid, rfl⟩ := Option.map_eq_some_iff.mp hprobe
    obtain ⟨path', hpath', hlower⟩ := h.byPath _ _ hfdid
    have hfind : (Lookup.byPath path).find U = some ⟨fdid, path'⟩ :=
      find_eq_some_iff.mpr ⟨(h.byFdid _ _ hpath').1, hlower⟩
    rw [answer_of_find hfind]
    rfl

/-! ### The joint invariant -/

/-- What a thread carries: the row of the table that it will answer with, or the knowledge
that the local rows have none. -/
def Carries (localRows U : ListfileTable) : Pc ι → Prop
  | .cachingLocal _ q row => q.find U = some row
  | .queryingCommunity _ q => q.find localRows = none
  | .remembering _ q row => q.find U = some row
  | .persisting _ q row => q.find U = some row
  | _ => True

/-- **The invariant of all instances together**, for a table `U` of the two stores. -/
structure Sound (localRows U : ListfileTable) (s : State ι τ) : Prop where
  memory : ∀ i, Inverse U (s.memory i)
  start_subset : localRows.rows ⊆ s.localRows.rows
  local_subset : s.localRows.rows ⊆ U.rows
  committed : s.committed ⊆ s.localRows.rows
  carries : ∀ t, Carries localRows U (s.pc t)
  finished : ∀ entry ∈ s.finished, entry.2 = entry.1.answer U

omit [DecidableEq ι] [DecidableEq τ] in
theorem sound_initial (hlocal : localRows.rows ⊆ U.rows) :
    Sound localRows U (State.initial localRows : State ι τ) where
  memory := fun _ => inverse_empty
  start_subset := fun _ h => h
  local_subset := hlocal
  committed := by simp [State.initial]
  carries := fun _ => trivial
  finished := by simp [State.initial]

omit [DecidableEq ι] in
theorem Sound.goto (hs : Sound localRows U s) {p : Pc ι} (hp : Carries localRows U p) :
    Sound localRows U (s.goto t p) :=
  { hs with
    carries := by
      intro t'
      by_cases ht : t' = t
      · subst ht
        simpa [State.goto] using hp
      · simpa [State.goto, ht] using hs.carries t' }

omit [DecidableEq ι] in
theorem Sound.finish (hs : Sound localRows U s) {answer : Answer} (hanswer : answer = q.answer U) :
    Sound localRows U (s.finish t q answer) :=
  { hs.goto (t := t) (p := .idle) trivial with
    finished := by
      intro entry hentry
      rcases List.mem_cons.mp hentry with rfl | hentry
      · exact hanswer
      · exact hs.finished entry hentry }

omit [DecidableEq τ] in
theorem Sound.remap (hs : Sound localRows U s) {i : ι} {memory : CachedListfile}
    (h : Inverse U memory) : Sound localRows U (s.remap i memory) :=
  { hs with
    memory := by
      intro i'
      by_cases hi : i' = i
      · subst hi
        simpa [State.remap] using h
      · simpa [State.remap, hi] using hs.memory i' }

omit [DecidableEq ι] [DecidableEq τ] in
/-- **Persisting a row of the table removes nothing**, whoever wrote what was there. -/
theorem Sound.persist (hs : Sound localRows U s) (hrow : row ∈ U.rows) :
    Sound localRows U (s.persist row) := by
  have hmem : ∀ r, r ∈ (s.localRows.insertOrReplace row).rows ↔ r = row ∨ r ∈ s.localRows.rows :=
    fun r => KeyedTable.mem_insertOrReplace_of_subset hs.local_subset hrow
  refine ⟨hs.memory, fun r hr => (hmem r).mpr (Or.inr (hs.start_subset hr)), fun r hr => ?_,
    fun r hr => ?_, hs.carries, hs.finished⟩
  · rcases (hmem r).mp hr with rfl | hr
    · exact hrow
    · exact hs.local_subset hr
  · rcases List.mem_cons.mp hr with rfl | hr
    · exact (hmem r).mpr (Or.inl rfl)
    · exact (hmem r).mpr (Or.inr (hs.committed hr))

/-- **What a step of a thread preserves**, one case for each place it may be at. -/
theorem sound_advance (hunion : ∀ r, r ∈ U.rows ↔ r ∈ localRows.rows ∨ r ∈ community.rows)
    (hs : Sound localRows U s) {p : Pc ι} (hp : Carries localRows U p)
    (h : advance community s t p = some s') : Sound localRows U s' := by
  cases p with
  | idle => cases h
  | probing i q =>
    simp only [advance] at h
    cases h
    split
    · next answer hprobe => exact hs.finish ((hs.memory i).probe hprobe)
    · exact hs.goto trivial
  | queryingLocal i q =>
    simp only [advance] at h
    cases h
    refine hs.goto ?_
    split
    · next row hfound =>
      obtain ⟨hrow, hmatch⟩ := find_eq_some_iff.mp hfound
      exact find_eq_some_iff.mpr ⟨hs.local_subset hrow, hmatch⟩
    · next hnone =>
      -- what the table does not have now it did not have at the start
      exact find_eq_none_iff.mpr fun r hr => find_eq_none_iff.mp hnone r (hs.start_subset hr)
  | cachingLocal i q row =>
    obtain ⟨hrow, -⟩ := find_eq_some_iff.mp hp
    obtain ⟨hinverse, hpath⟩ := (hs.memory i).cacheInMemory hrow
    simp only [advance] at h
    cases h
    refine (hs.remap hinverse).finish ?_
    rw [hpath, answer_of_find hp]
  | queryingCommunity i q =>
    simp only [advance] at h
    cases h
    split
    · next row hfound =>
      obtain ⟨hrow, hmatch⟩ := find_eq_some_iff.mp hfound
      exact hs.goto (find_eq_some_iff.mpr ⟨(hunion row).mpr (Or.inr hrow), hmatch⟩)
    · next hnone =>
      refine hs.finish ?_
      have hmissing : q.find U = none := by
        refine find_eq_none_iff.mpr fun r hr => ?_
        rcases (hunion r).mp hr with hr | hr
        · exact find_eq_none_iff.mp hp r hr
        · exact find_eq_none_iff.mp hnone r hr
      rw [Lookup.answer, hmissing]
      rfl
  | remembering i q row =>
    obtain ⟨hrow, -⟩ := find_eq_some_iff.mp hp
    obtain ⟨hinverse, -⟩ := (hs.memory i).cacheInMemory hrow
    simp only [advance] at h
    cases h
    split_ifs
    · exact (hs.remap hinverse).finish (answer_of_find hp).symm
    · exact (hs.remap hinverse).goto hp
  | persisting i q row =>
    obtain ⟨hrow, -⟩ := find_eq_some_iff.mp hp
    simp only [advance] at h
    cases h
    exact (hs.persist hrow).finish (answer_of_find hp).symm

theorem sound_step (hunion : ∀ r, r ∈ U.rows ↔ r ∈ localRows.rows ∨ r ∈ community.rows)
    (hs : Sound localRows U s) {e : Event ι τ} (h : step community s e = some s') :
    Sound localRows U s' := by
  cases e with
  | call t i q =>
    simp only [step] at h
    split at h
    · cases h
      exact hs.goto trivial
    · cases h
  | step t => exact sound_advance hunion hs (hs.carries t) h
  | fail t =>
    simp only [step] at h
    split at h
    · next i q row hpc =>
      cases h
      have hp := hs.carries t
      rw [hpc] at hp
      exact hs.finish (answer_of_find hp).symm
    · cases h

/-! ### What every instance answers -/

/-- **The answer of the union of two stores.** -/
def UnionAnswer (localRows community : ListfileTable) : Lookup → Answer → Prop
  | .byFdid fdid, .path found =>
    ∀ path, found = some path ↔
      ⟨fdid, path⟩ ∈ localRows.rows ∨ ⟨fdid, path⟩ ∈ community.rows
  | .byPath path, .fdid found =>
    ∀ fdid, found = some fdid ↔
      ∃ listed, (⟨fdid, listed⟩ ∈ localRows.rows ∨ ⟨fdid, listed⟩ ∈ community.rows) ∧
        toAsciiLowercase listed = toAsciiLowercase path
  | _, _ => False

/-- The answer of the one table is that of the union. -/
theorem unionAnswer_answer (hunion : ∀ r, r ∈ U.rows ↔ r ∈ localRows.rows ∨ r ∈ community.rows)
    (q : Lookup) : UnionAnswer localRows community q (q.answer U) := by
  cases q with
  | byFdid fdid =>
    rcases hfind : (Lookup.byFdid fdid).find U with _ | row
    · have hnone := find_eq_none_iff.mp hfind
      rw [Lookup.answer, hfind]
      intro path
      constructor
      · rintro ⟨⟩
      · intro hrow
        exact absurd rfl (hnone _ ((hunion _).mpr hrow))
    · rw [answer_of_find hfind]
      obtain ⟨hrow, rfl⟩ := find_eq_some_iff.mp hfind
      intro path
      rw [← hunion]
      constructor
      · rintro ⟨⟩
        exact hrow
      · intro hpath
        exact congrArg (fun r => some (ListfileRow.path r))
          (U.eq_of_conflict hrow hpath (Or.inl rfl))
  | byPath path =>
    rcases hfind : (Lookup.byPath path).find U with _ | row
    · have hnone := find_eq_none_iff.mp hfind
      rw [Lookup.answer, hfind]
      intro fdid
      constructor
      · rintro ⟨⟩
      · rintro ⟨listed, hrow, hlower⟩
        exact absurd hlower (hnone _ ((hunion _).mpr hrow))
    · rw [answer_of_find hfind]
      obtain ⟨hrow, hlower⟩ := find_eq_some_iff.mp hfind
      intro fdid
      constructor
      · rintro ⟨⟩
        exact ⟨row.path, (hunion _).mp hrow, hlower⟩
      · rintro ⟨listed, hlisted, hlower'⟩
        have hsame := U.eq_of_conflict hrow ((hunion _).mpr hlisted)
          (Or.inr (hlower.trans hlower'.symm))
        exact congrArg (fun r => some (ListfileRow.fdid r)) hsame

/-- **The indexes are a bijection within the union of the stores**: the maps of every
instance, the table they share, and what the lookups answered. -/
structure Bijection (localRows community : ListfileTable) (s : State ι τ) : Prop where
  /-- The maps are inverse to each other. -/
  byFdid : ∀ i fdid path, (s.memory i).byFdid fdid = some path →
    (s.memory i).byPath (toAsciiLowercase path) = some fdid
  byPath : ∀ i lower fdid, (s.memory i).byPath lower = some fdid →
    ∃ path, (s.memory i).byFdid fdid = some path ∧ toAsciiLowercase path = lower
  /-- They are within the union. -/
  contained : ∀ i fdid path, (s.memory i).byFdid fdid = some path →
    ⟨fdid, path⟩ ∈ localRows.rows ∨ ⟨fdid, path⟩ ∈ community.rows
  /-- The table keeps its rows, and has only those of the union. -/
  start_subset : localRows.rows ⊆ s.localRows.rows
  local_subset : ∀ r ∈ s.localRows.rows, r ∈ localRows.rows ∨ r ∈ community.rows
  /-- A row that was committed stays. -/
  committed : s.committed ⊆ s.localRows.rows
  /-- Every lookup answered from the union. -/
  answers : ∀ q answer, (q, answer) ∈ s.finished → UnionAnswer localRows community q answer
  /-- Every spelling of a path that was answered finds its fdid. -/
  spellings : ∀ fdid path path' answer, (.byFdid fdid, .path (some path)) ∈ s.finished →
    toAsciiLowercase path' = toAsciiLowercase path → (.byPath path', answer) ∈ s.finished →
    answer = .fdid (some fdid)

/-- **Compatible stores keep the indexes a bijection**, for any number of instances and any
interleaving of their lookups. -/
theorem bijection_of_run (hcompatible : Compatible localRows community) {es : List (Event ι τ)}
    (hrun : Runs.run (step community) (State.initial localRows) es = some s) :
    Bijection localRows community s := by
  have hunion : ∀ r, r ∈ (localRows.extend community).rows ↔
      r ∈ localRows.rows ∨ r ∈ community.rows := fun r => hcompatible.mem_extend
  have hs : Sound localRows (localRows.extend community) s :=
    Runs.invariant _ (fun _ _ _ hs h => sound_step hunion hs h)
      (sound_initial fun r hr => (hunion r).mpr (Or.inl hr)) hrun
  have hanswers : ∀ q answer, (q, answer) ∈ s.finished →
      UnionAnswer localRows community q answer := by
    intro q answer hentry
    obtain rfl : answer = q.answer _ := hs.finished _ hentry
    exact unionAnswer_answer hunion q
  refine ⟨fun i fdid path h => ((hs.memory i).byFdid _ _ h).2,
    fun i lower fdid h => (hs.memory i).byPath _ _ h,
    fun i fdid path h => (hunion _).mp ((hs.memory i).byFdid _ _ h).1, hs.start_subset,
    fun r hr => (hunion r).mp (hs.local_subset hr), hs.committed, hanswers, ?_⟩
  intro fdid path path' answer hfdid hlower hpath
  have hrow := (hanswers _ _ hfdid path).mp rfl
  have hanswer := hanswers _ _ hpath
  rcases answer with found | found | _
  · cases hanswer
  · rw [(hanswer fdid).mpr ⟨path, hrow, hlower.symm⟩]
  · cases hanswer

/-- Stores that share a row. -/
def sampleLocal : ListfileTable := ⟨[⟨1, "a"⟩, ⟨2, "B"⟩], by decide⟩

def sampleCommunity : ListfileTable := ⟨[⟨2, "B"⟩, ⟨3, "C"⟩], by decide⟩

/-- Two instances look up the same community row under both keys, step by step in turn, and
one of the two transactions fails. -/
def sampleRun : List (Event Bool Bool) :=
  [.call true true (.byFdid 3), .call false false (.byPath "c")] ++
    List.flatten (List.replicate 4 [.step true, .step false]) ++
    [.fail true, .step false, .call true false (.byFdid 3), .step true]

theorem bijection_sample :
    ∃ s, Runs.run (step sampleCommunity) (State.initial sampleLocal) sampleRun = some s ∧
      Bijection sampleLocal sampleCommunity s := by
  have hruns : (Runs.run (step sampleCommunity) (State.initial sampleLocal) sampleRun).isSome := by
    decide +kernel
  obtain ⟨s, hrun⟩ := Option.isSome_iff_exists.mp hruns
  exact ⟨s, hrun, bijection_of_run ⟨by decide +kernel, by decide +kernel⟩ hrun⟩

end SharedListfile

end AssetResolver
