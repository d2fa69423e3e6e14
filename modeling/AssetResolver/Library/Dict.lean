import AssetResolver.Library.LastWins

/-!
# Dictionaries that keep the order of insertion

A `Dict` is a list of entries with different keys. Setting a key that is there changes its
entry where it stands, setting another one puts an entry at the end
(`Dict.insert`), and deleting a key takes its entry out (`Dict.erase`). So the order in
which a dictionary is visited says in which order its present keys came.

A run of settings and deletions (`Dict.play`) is read **key by key**: what a key has at
the end is what the last event of that key says, and without an event what it had before
(`Dict.get?_play`). A dictionary filled from pairs (`Dict.ofPairs`) keeps the last value
of every key, so that it keeps all pairs exactly if no key came with two values
(`Dict.mem_entries_ofPairs_of_functional`).
-/

/-- A dictionary: its entries, in the order in which their keys came. -/
@[ext] structure Dict (κ ν : Type*) where
  /-- The entries. -/
  entries : List (κ × ν)
  nodup : (entries.map Prod.fst).Nodup

namespace Dict

variable {κ ν : Type*}

/-- The dictionary without entries. -/
instance : EmptyCollection (Dict κ ν) := ⟨⟨[], List.nodup_nil⟩⟩

/-- The keys, in their order. -/
def keys (d : Dict κ ν) : List κ := d.entries.map Prod.fst

/-- A key has one entry. -/
theorem eq_of_mem {d : Dict κ ν} {k : κ} {v w : ν} (hv : (k, v) ∈ d.entries)
    (hw : (k, w) ∈ d.entries) : v = w :=
  congrArg Prod.snd (List.inj_on_of_nodup_map d.nodup hv hw rfl)

variable [DecidableEq κ]

/-! ### Looking up -/

/-- The value of a key. -/
def get? (d : Dict κ ν) (k : κ) : Option ν := (d.entries.find? fun e => e.1 = k).map Prod.snd

@[simp] theorem get?_empty (k : κ) : (∅ : Dict κ ν).get? k = none := rfl

/-- **A value is found exactly where it is kept.** -/
theorem get?_eq_some_iff {d : Dict κ ν} {k : κ} {v : ν} :
    d.get? k = some v ↔ (k, v) ∈ d.entries := by
  unfold get?
  constructor
  · intro h
    obtain ⟨⟨k', v'⟩, hfound, rfl⟩ := Option.map_eq_some_iff.mp h
    obtain rfl : k' = k := by simpa using List.find?_some hfound
    exact List.mem_of_find?_eq_some hfound
  · intro hmem
    rcases hfound : d.entries.find? fun e => e.1 = k with _ | ⟨k', v'⟩
    · exact absurd (decide_eq_true rfl) (List.find?_eq_none.mp hfound (k, v) hmem)
    · obtain rfl : k' = k := by simpa using List.find?_some hfound
      rw [hfound]
      exact congrArg some (eq_of_mem (List.mem_of_find?_eq_some hfound) hmem)

/-- A key is there exactly if it has a value. -/
theorem mem_keys_iff {d : Dict κ ν} {k : κ} : k ∈ d.keys ↔ ∃ v, d.get? k = some v := by
  simp [keys, get?_eq_some_iff]

theorem get?_eq_none_iff {d : Dict κ ν} {k : κ} : d.get? k = none ↔ k ∉ d.keys := by
  rw [mem_keys_iff, not_exists]
  exact Option.eq_none_iff_forall_ne_some

/-! ### Setting and deleting -/

/-- The entries after a key was set. -/
def put (k : κ) (v : ν) : List (κ × ν) → List (κ × ν)
  | [] => [(k, v)]
  | e :: rest => if e.1 = k then (k, v) :: rest else e :: put k v rest

/-- Setting a key that is there keeps the order, and another one comes last. -/
theorem map_fst_put (k : κ) (v : ν) (l : List (κ × ν)) :
    (put k v l).map Prod.fst =
      if k ∈ l.map Prod.fst then l.map Prod.fst else l.map Prod.fst ++ [k] := by
  induction l with
  | nil => simp [put]
  | cons e rest ih =>
    by_cases he : e.1 = k
    · simp [put, he]
    · rw [put, if_neg he, List.map_cons, ih]
      split_ifs with hmem hmem' hmem'
      · rfl
      · exact absurd (List.mem_cons_of_mem _ hmem) hmem'
      · exact absurd (List.mem_of_ne_of_mem (Ne.symm he) hmem') hmem
      · rfl

/-- `d[k] = v`. -/
def insert (d : Dict κ ν) (k : κ) (v : ν) : Dict κ ν where
  entries := put k v d.entries
  nodup := by
    rw [map_fst_put]
    split_ifs with hmem
    · exact d.nodup
    · exact List.Nodup.append d.nodup (List.nodup_singleton k) (by simpa using hmem)

/-- `d.pop(k, None)`. -/
def erase (d : Dict κ ν) (k : κ) : Dict κ ν where
  entries := d.entries.filter fun e => e.1 ≠ k
  nodup := (List.filter_sublist.map Prod.fst).nodup d.nodup

theorem find?_put (k k' : κ) (v : ν) (l : List (κ × ν)) :
    (put k v l).find? (fun e => e.1 = k') =
      if k = k' then some (k, v) else l.find? fun e => e.1 = k' := by
  induction l with
  | nil => by_cases hk : k = k' <;> simp [put, hk]
  | cons e rest ih =>
    by_cases he : e.1 = k
    · by_cases hk : k = k'
      · simp [put, he, hk]
      · simp [put, he, hk]
    · rw [put, if_neg he, List.find?_cons, List.find?_cons, ih]
      by_cases hk : k = k'
      · subst hk
        simp [he]
      · rw [if_neg hk, if_neg hk]

/-- **What is set is what is found**, and nothing else changes. -/
theorem get?_insert (d : Dict κ ν) (k k' : κ) (v : ν) :
    (d.insert k v).get? k' = if k = k' then some v else d.get? k' := by
  unfold get? insert
  rw [find?_put]
  split_ifs <;> rfl

/-- **What is deleted is not found**, and nothing else changes. -/
theorem get?_erase (d : Dict κ ν) (k k' : κ) :
    (d.erase k).get? k' = if k = k' then none else d.get? k' := by
  apply Option.ext
  intro v
  rw [get?_eq_some_iff, erase, List.mem_filter, ← get?_eq_some_iff]
  by_cases hk : k = k'
  · simp [hk]
  · simp [hk, Ne.symm hk]

/-! ### Changing every entry -/

/-- Every value is changed, under its key. -/
def mapValues {μ : Type*} (f : κ → ν → μ) (d : Dict κ ν) : Dict κ μ where
  entries := d.entries.map fun e => (e.1, f e.1 e.2)
  nodup := by
    rw [List.map_map]
    exact d.nodup

/-- The entries that are kept. -/
def retain (p : κ → ν → Bool) (d : Dict κ ν) : Dict κ ν where
  entries := d.entries.filter fun e => p e.1 e.2
  nodup := (List.filter_sublist.map Prod.fst).nodup d.nodup

omit [DecidableEq κ] in
theorem mem_entries_mapValues {μ : Type*} {f : κ → ν → μ} {d : Dict κ ν} {k : κ} {w : μ} :
    (k, w) ∈ (d.mapValues f).entries ↔ ∃ v, (k, v) ∈ d.entries ∧ f k v = w := by
  simp only [mapValues, List.mem_map, Prod.mk.injEq, Prod.exists]
  constructor
  · rintro ⟨k', v, hmem, rfl, hv⟩
    exact ⟨v, hmem, hv⟩
  · rintro ⟨v, hmem, hv⟩
    exact ⟨k, v, hmem, rfl, hv⟩

omit [DecidableEq κ] in
theorem mem_entries_retain {p : κ → ν → Bool} {d : Dict κ ν} {k : κ} {v : ν} :
    (k, v) ∈ (d.retain p).entries ↔ (k, v) ∈ d.entries ∧ p k v := by
  rw [retain, List.mem_filter]

theorem mem_entries_insert {d : Dict κ ν} {k k' : κ} {v v' : ν} :
    (k', v') ∈ (d.insert k v).entries ↔
      k' = k ∧ v' = v ∨ k' ≠ k ∧ (k', v') ∈ d.entries := by
  rw [← get?_eq_some_iff, ← get?_eq_some_iff, get?_insert]
  by_cases hk : k = k'
  · subst hk
    simp [eq_comm]
  · simp [hk, Ne.symm hk]

theorem get?_mapValues {μ : Type*} (f : κ → ν → μ) (d : Dict κ ν) (k : κ) :
    (d.mapValues f).get? k = (d.get? k).map (f k) := by
  refine Option.ext fun w => ?_
  simp only [get?_eq_some_iff, mem_entries_mapValues, Option.map_eq_some_iff]

theorem get?_retain (p : κ → ν → Bool) (d : Dict κ ν) (k : κ) :
    (d.retain p).get? k = (d.get? k).filter (p k) := by
  refine Option.ext fun v => ?_
  simp only [get?_eq_some_iff, mem_entries_retain, Option.filter_eq_some_iff]

/-! ### Runs of settings and deletions -/

/-- One event of a key: a value is set, or the key is deleted. -/
def step (d : Dict κ ν) : κ × Option ν → Dict κ ν
  | (k, some v) => d.insert k v
  | (k, none) => d.erase k

/-- The events one after the other. -/
def play (d : Dict κ ν) (events : List (κ × Option ν)) : Dict κ ν := events.foldl step d

theorem play_append (d : Dict κ ν) (events events' : List (κ × Option ν)) :
    d.play (events ++ events') = (d.play events).play events' :=
  List.foldl_append

theorem get?_step (d : Dict κ ν) (event : κ × Option ν) (k : κ) :
    (d.step event).get? k = if event.1 = k then event.2 else d.get? k := by
  obtain ⟨k', _ | v⟩ := event
  · exact get?_erase d k' k
  · exact get?_insert d k' k v

/-- **A run is read key by key**: the last event of a key says what it has, by induction
over the events. -/
theorem get?_play {d : Dict κ ν} {events : List (κ × Option ν)} {k : κ} {v : ν} :
    (d.play events).get? k = some v ↔
      LastWins.IsLast events k (some v) ∨ (∀ e ∈ events, e.1 ≠ k) ∧ d.get? k = some v := by
  induction events using List.reverseRecOn with
  | nil => simp [play, LastWins.not_isLast_nil]
  | append_singleton events event ih =>
    rw [play_append]
    show ((d.play events).step event).get? k = some v ↔ _
    rw [get?_step, LastWins.isLast_concat]
    by_cases hk : event.1 = k
    · have hmem : event ∈ events ++ [event] := List.mem_append_right _ List.mem_cons_self
      simp only [hk, if_true, true_and, not_true, ne_eq, false_and, or_false]
      exact ⟨Or.inl, fun h => h.resolve_right fun hnone => hnone.1 event hmem hk⟩
    · simp [hk, ih, or_imp, forall_and]

/-- **What another key does is not seen**: two runs with the same events of a key leave it
the same value. -/
theorem get?_play_congr {d d' : Dict κ ν} {events events' : List (κ × Option ν)} {k : κ}
    (hbase : d.get? k = d'.get? k)
    (hevents : (events.filter fun e => e.1 = k) = events'.filter fun e => e.1 = k) :
    (d.play events).get? k = (d'.play events').get? k := by
  -- the value is a fold over the events of the key
  have hfold : ∀ (events : List (κ × Option ν)) (d : Dict κ ν), (d.play events).get? k =
      (events.filter fun e => e.1 = k).foldl (fun _ e => e.2) (d.get? k) := by
    intro events
    induction events with
    | nil => exact fun d => rfl
    | cons event events ih =>
      intro d
      show ((d.step event).play events).get? k = _
      rw [ih, get?_step, List.filter_cons]
      by_cases hk : event.1 = k <;> simp [hk]
  rw [hfold, hfold, hbase, hevents]

section Sources

variable {α : Type*} {f : α → Option (κ × Option ν)} {l : List α} {k : κ}

/-- **Events come from somewhere**: where they come from the elements of a list, those that
say nothing of a key may be left out. -/
theorem get?_play_filter {p : α → Bool} (d : Dict κ ν)
    (hp : ∀ a ∈ l, p a = false → ∀ e, f a = some e → e.1 ≠ k) :
    (d.play (l.filterMap f)).get? k = (d.play ((l.filter p).filterMap f)).get? k := by
  refine get?_play_congr rfl ?_
  rw [List.filterMap_filter, List.filter_filterMap, List.filter_filterMap]
  refine List.filterMap_congr fun a hmem => ?_
  rcases hpa : p a with _ | _
  · rcases hevent : f a with _ | e
    · rfl
    · simp [hp a hmem hpa e hevent]
  · rfl

/-! ### The order in which keys came -/

variable (f) in
/-- An element brings a key: the key was absent before, and no later event deletes it. -/
def Brings (l : List α) (k : κ) (a : α) : Prop :=
  ∃ front back v, l = front ++ a :: back ∧ f a = some (k, some v) ∧
    ((∅ : Dict κ ν).play (front.filterMap f)).get? k = none ∧ ∀ b ∈ back, f b ≠ some (k, none)

/-- **The elements that say nothing of a key do not bring it either.** -/
theorem brings_filter_iff {p : α → Bool} {a : α}
    (hp : ∀ b ∈ l, p b = false → ∀ e, f b = some e → e.1 ≠ k) :
    Brings f l k a ↔ Brings f (l.filter p) k a := by
  constructor
  · rintro ⟨front, back, v, rfl, ha, hfront, hback⟩
    have hpa : p a = true := by
      by_contra hpa
      exact hp a (by simp) (by simpa using hpa) _ ha rfl
    refine ⟨front.filter p, back.filter p, v, ?_, ha, ?_, fun b hb => ?_⟩
    · rw [List.filter_append, List.filter_cons_of_pos hpa]
    · rw [← get?_play_filter _ fun b hb => hp b (by simp [hb])]
      exact hfront
    · exact hback b (List.mem_filter.mp hb).1
  · rintro ⟨front, back, v, hfilter, ha, hfront, hback⟩
    obtain ⟨l₁, l₂, rfl, rfl, hl₂⟩ := List.filter_eq_append_iff.mp hfilter
    obtain ⟨skipped, l₃, rfl, hskipped, -, rfl⟩ := List.filter_eq_cons_iff.mp hl₂
    refine ⟨l₁ ++ skipped, l₃, v, (List.append_assoc _ _ _).symm, ha, ?_, fun b hb hevent => ?_⟩
    · have hnone : skipped.filter p = [] := List.filter_eq_nil_iff.mpr hskipped
      rw [get?_play_filter _ fun b hb => hp b (by
        rcases List.mem_append.mp hb with hb | hb <;> simp [hb]), List.filter_append, hnone,
        List.append_nil]
      exact hfront
    · rcases hpb : p b with _ | _
      · exact hp b (by simp [hb]) hpb _ hevent rfl
      · exact hback b (List.mem_filter.mpr ⟨hb, hpb⟩) hevent

/-- What the last element brings is what was absent. -/
theorem brings_concat_iff {a b : α} :
    Brings f (l ++ [b]) k a ↔ Brings f l k a ∧ f b ≠ some (k, none) ∨
      a = b ∧ ((∅ : Dict κ ν).play (l.filterMap f)).get? k = none ∧
        ∃ v, f b = some (k, some v) := by
  constructor
  · rintro ⟨front, back, v, h, ha, hfront, hback⟩
    rcases List.eq_nil_or_concat back with rfl | ⟨back, c, rfl⟩
    · obtain ⟨rfl, hab⟩ := List.append_inj' h rfl
      obtain rfl : b = a := (List.cons.inj hab).1
      exact Or.inr ⟨rfl, hfront, v, ha⟩
    · rw [List.concat_eq_append, ← List.cons_append, ← List.append_assoc] at h
      obtain ⟨rfl, hbc⟩ := List.append_inj' h rfl
      obtain rfl : b = c := (List.cons.inj hbc).1
      exact Or.inl ⟨⟨front, back, v, rfl, ha, hfront, fun c hc => hback c (by simp [hc])⟩,
        hback b (by simp)⟩
  · rintro (⟨⟨front, back, v, rfl, ha, hfront, hback⟩, hb⟩ | ⟨rfl, hfront, v, ha⟩)
    · refine ⟨front, back ++ [b], v, by simp, ha, hfront, fun c hc => ?_⟩
      rcases List.mem_append.mp hc with hc | hc
      · exact hback c hc
      · rw [List.mem_singleton.mp hc]
        exact hb
    · exact ⟨l, [], v, rfl, ha, hfront, fun c hc => absurd hc List.not_mem_nil⟩

theorem play_filterMap_concat (d : Dict κ ν) (l : List α) (b : α) :
    d.play ((l ++ [b]).filterMap f) = (d.play (l.filterMap f)).play ((f b).toList) := by
  rw [List.filterMap_append, play_append]
  rcases hb : f b with _ | e <;> simp [hb]

/-- **Every key that is there was brought by an element**, by induction over them. -/
theorem exists_brings (h : ((∅ : Dict κ ν).play (l.filterMap f)).get? k ≠ none) :
    ∃ a, Brings f l k a := by
  induction l using List.reverseRecOn with
  | nil => exact absurd rfl h
  | append_singleton l b ih =>
    rw [play_filterMap_concat] at h
    rcases hb : f b with _ | ⟨k', v⟩
    · rw [hb] at h
      obtain ⟨a, ha⟩ := ih h
      exact ⟨a, brings_concat_iff.mpr (Or.inl ⟨ha, by simp [hb]⟩)⟩
    · rw [hb] at h
      have hstep : (((∅ : Dict κ ν).play (l.filterMap f)).step (k', v)).get? k ≠ none := h
      rw [get?_step] at hstep
      by_cases hk : k' = k
      · subst hk
        obtain ⟨w, rfl⟩ := Option.ne_none_iff_exists'.mp (by simpa using hstep)
        by_cases hbefore : ((∅ : Dict κ ν).play (l.filterMap f)).get? k' = none
        · exact ⟨b, brings_concat_iff.mpr (Or.inr ⟨rfl, hbefore, w, hb⟩)⟩
        · obtain ⟨a, ha⟩ := ih hbefore
          exact ⟨a, brings_concat_iff.mpr (Or.inl ⟨ha, by simp [hb]⟩)⟩
      · obtain ⟨a, ha⟩ := ih (by simpa [hk] using hstep)
        exact ⟨a, brings_concat_iff.mpr (Or.inl ⟨ha, by simp [hb, hk]⟩)⟩

/-- A value stays as long as nothing deletes it. -/
theorem get?_play_ne_none {d : Dict κ ν} (hbefore : d.get? k ≠ none)
    (hback : ∀ b ∈ l, f b ≠ some (k, none)) : (d.play (l.filterMap f)).get? k ≠ none := by
  induction l using List.reverseRecOn with
  | nil => exact hbefore
  | append_singleton l b ih =>
    have hl := ih fun c hc => hback c (by simp [hc])
    have hb := hback b (by simp)
    rw [play_filterMap_concat]
    rcases hevent : f b with _ | ⟨k', v⟩
    · exact hl
    · show ((d.play (l.filterMap f)).step (k', v)).get? k ≠ none
      rw [get?_step]
      split_ifs with hk
      · rintro rfl
        obtain rfl : k' = k := hk
        exact hb hevent
      · exact hl

/-- What was brought is there. -/
theorem Brings.get?_ne_none {a : α} (h : Brings f l k a) :
    ((∅ : Dict κ ν).play (l.filterMap f)).get? k ≠ none := by
  obtain ⟨front, back, v, rfl, ha, -, hback⟩ := h
  rw [List.filterMap_append, List.filterMap_cons_some ha, play_append]
  refine get?_play_ne_none (d := (Dict.play _ _).step (k, some v)) ?_ hback
  rw [get?_step, if_pos rfl]
  exact Option.some_ne_none v

/-- The keys after one event. -/
theorem keys_step (d : Dict κ ν) (e : κ × Option ν) :
    (d.step e).keys = match e.2 with
      | some _ => if e.1 ∈ d.keys then d.keys else d.keys ++ [e.1]
      | none => d.keys.filter fun k => k ≠ e.1 := by
  obtain ⟨k, _ | v⟩ := e
  · simp [step, erase, keys, List.filter_map, Function.comp_def]
  · exact map_fst_put k v d.entries

/-- **The keys stand in the order of the elements that brought them**, by induction over the
elements: the order of those that stay is kept, and one that comes is the last. -/
theorem pairwise_keys {R : α → α → Prop} (h : l.Pairwise R) :
    ((∅ : Dict κ ν).play (l.filterMap f)).keys.Pairwise fun k k' =>
      ∀ a b, Brings f l k a → Brings f l k' b → R a b := by
  induction l using List.reverseRecOn with
  | nil => exact List.Pairwise.nil
  | append_singleton l c ih =>
    obtain ⟨hl, -, hc⟩ := List.pairwise_append.mp h
    have hsame : ∀ k ∈ ((∅ : Dict κ ν).play (l.filterMap f)).keys, ∀ a,
        Brings f (l ++ [c]) k a → Brings f l k a := by
      intro k hk a ha
      rcases brings_concat_iff.mp ha with ⟨ha, -⟩ | ⟨-, hnone, -⟩
      · exact ha
      · exact absurd hk (get?_eq_none_iff.mp hnone)
    have hold := (ih hl).imp_of_mem fun {k k'} hk hk' horder a b ha hb =>
      horder a b (hsame k hk a ha) (hsame k' hk' b hb)
    rw [play_filterMap_concat]
    rcases hevent : f c with _ | ⟨k₀, v⟩
    · exact hold
    · show (((∅ : Dict κ ν).play (l.filterMap f)).step (k₀, v)).keys.Pairwise _
      rw [keys_step]
      rcases v with _ | v
      · exact hold.filter _
      · dsimp only
        split_ifs with hmem
        · exact hold
        · refine List.pairwise_append.mpr ⟨hold, List.pairwise_singleton _ _, ?_⟩
          -- the key that comes is brought by the last element only
          intro k hk k' hk' a b ha hb
          rw [List.mem_singleton.mp hk'] at hb
          obtain ⟨front, back, w, rfl, -⟩ := hsame k hk a ha
          rcases brings_concat_iff.mp hb with ⟨hb, -⟩ | ⟨rfl, -⟩
          · exact absurd (get?_eq_none_iff.mpr hmem) hb.get?_ne_none
          · exact hc a (by simp) b List.mem_cons_self

end Sources

/-! ### Filling from pairs -/

/-- The dictionary of pairs, `{k: v for k, v in pairs}`. -/
def ofPairs (pairs : List (κ × ν)) : Dict κ ν := pairs.foldl (fun d e => d.insert e.1 e.2) ∅

/-- **The last value of a key is kept.** -/
theorem get?_ofPairs {pairs : List (κ × ν)} {k : κ} {v : ν} :
    (ofPairs pairs).get? k = some v ↔ LastWins.IsLast pairs k v := by
  induction pairs using List.reverseRecOn with
  | nil => simp [ofPairs, LastWins.not_isLast_nil]
  | append_singleton pairs e ih =>
    have hlast : ofPairs (pairs ++ [e]) = (ofPairs pairs).insert e.1 e.2 := by
      rw [ofPairs, List.foldl_append]
      rfl
    rw [hlast, get?_insert, LastWins.isLast_concat]
    by_cases hk : e.1 = k
    · simp [hk]
    · simp [hk, ih]

/-- A key of a pair has a value. -/
theorem get?_ofPairs_ne_none {pairs : List (κ × ν)} {k : κ} {v : ν} (hmem : (k, v) ∈ pairs) :
    (ofPairs pairs).get? k ≠ none := by
  obtain ⟨w, hw⟩ := LastWins.exists_isLast hmem
  rw [get?_ofPairs.mpr hw]
  exact Option.some_ne_none w

/-- **Every pair is kept if no key comes with two values**, and no other one. -/
theorem mem_entries_ofPairs_of_functional {pairs : List (κ × ν)}
    (hfunctional : ∀ k v w, (k, v) ∈ pairs → (k, w) ∈ pairs → v = w) {k : κ} {v : ν} :
    (k, v) ∈ (ofPairs pairs).entries ↔ (k, v) ∈ pairs := by
  rw [← get?_eq_some_iff, get?_ofPairs]
  constructor
  · exact LastWins.IsLast.mem
  · intro hmem
    -- some value of the key is the last one, and there is only this one
    rcases hlast : (ofPairs pairs).get? k with _ | w
    · exact absurd hlast (get?_ofPairs_ne_none hmem)
    · have hw := get?_ofPairs.mp hlast
      obtain rfl := hfunctional k v w hmem hw.mem
      exact hw

end Dict
