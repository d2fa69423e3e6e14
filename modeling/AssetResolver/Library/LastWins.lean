import Mathlib.Data.List.AList
import Mathlib.Data.List.Induction
import Mathlib.Order.Defs.PartialOrder

/-!
# Maps that keep the last value

A map filled by inserting the pairs of a list in order keeps, for every key, the
value of the **last pair with that key** (`LastWins.lookup_collect`). The
specification `LastWins.IsLast` names that pair by what surrounds it: nothing
after it has its key. A search that stops at a key finds the first pair instead
(`LastWins.first_eq_some_iff`), and the two agree on a key exactly when these two
values do (`LastWins.first_eq_lookup_iff`).

Reading such a map back visits its entries in an order nothing is known about.
An order is an arbitrary rearrangement (`LastWins.IterationOrder`), and what a
reader may rely on is what a rearrangement keeps: which entries there are
(`LastWins.mem_arrange_entries`), and that a key has one of them.
-/

namespace LastWins

variable {κ ν : Type*}

/-- `v` is the value of the last pair with the key `k`. -/
def IsLast (l : List (κ × ν)) (k : κ) (v : ν) : Prop :=
  ∃ front back, l = front ++ (k, v) :: back ∧ ∀ p ∈ back, p.1 ≠ k

theorem not_isLast_nil (k : κ) (v : ν) : ¬IsLast [] k v := by
  rintro ⟨front, back, h, -⟩
  simp at h

theorem IsLast.mem {l : List (κ × ν)} {k : κ} {v : ν} (h : IsLast l k v) : (k, v) ∈ l := by
  obtain ⟨front, back, rfl, -⟩ := h
  simp

/-- A pair at the end is the last one with its key, and irrelevant to the others. -/
theorem isLast_concat {l : List (κ × ν)} {k k' : κ} {v v' : ν} :
    IsLast (l ++ [(k', v')]) k v ↔ (k' = k ∧ v' = v) ∨ (k' ≠ k ∧ IsLast l k v) := by
  constructor
  · rintro ⟨front, back, h, hback⟩
    rcases List.eq_nil_or_concat back with rfl | ⟨back, p, rfl⟩
    · obtain ⟨-, h⟩ := List.append_inj' h rfl
      cases h
      exact Or.inl ⟨rfl, rfl⟩
    · rw [List.concat_eq_append, ← List.cons_append, ← List.append_assoc] at h
      obtain ⟨hl, hp⟩ := List.append_inj' h rfl
      cases hp
      refine Or.inr ⟨hback (k', v') (by simp), front, back, hl, fun q hq => hback q (by simp [hq])⟩
  · rintro (⟨rfl, rfl⟩ | ⟨hne, front, back, rfl, hback⟩)
    · exact ⟨l, [], rfl, by simp⟩
    · refine ⟨front, back ++ [(k', v')], by simp, fun p hp => ?_⟩
      rcases List.mem_append.mp hp with hp | hp
      · exact hback p hp
      · rw [List.mem_singleton.mp hp]
        exact hne

/-- The last pair with a key among those that elements of a list give. -/
theorem isLast_filterMap {α : Type*} {f : α → Option (κ × ν)} {l : List α} {k : κ} {v : ν} :
    IsLast (l.filterMap f) k v ↔ ∃ front a back, l = front ++ a :: back ∧ f a = some (k, v) ∧
      ∀ b ∈ back, ∀ w, f b ≠ some (k, w) := by
  constructor
  · rintro ⟨front, back, h, hback⟩
    obtain ⟨l₁, l₂, rfl, -, hl₂⟩ := List.filterMap_eq_append_iff.mp h
    obtain ⟨skipped, a, l₃, rfl, -, ha, rfl⟩ := List.filterMap_eq_cons_iff.mp hl₂
    refine ⟨l₁ ++ skipped, a, l₃, (List.append_assoc _ _ _).symm, ha, fun b hb w hbw => ?_⟩
    exact hback (k, w) (List.mem_filterMap.mpr ⟨b, hb, hbw⟩) rfl
  · rintro ⟨front, a, back, rfl, ha, hback⟩
    refine ⟨front.filterMap f, back.filterMap f, ?_, ?_⟩
    · rw [List.filterMap_append, List.filterMap_cons_some ha]
    · rintro ⟨k', w⟩ hmem rfl
      obtain ⟨b, hb, hbw⟩ := List.mem_filterMap.mp hmem
      exact hback b hb w hbw

/-- **Every key of a pair has a last value**, by induction over the pairs. -/
theorem exists_isLast {l : List (κ × ν)} {k : κ} {v : ν} (hmem : (k, v) ∈ l) :
    ∃ w, IsLast l k w := by
  induction l using List.reverseRecOn with
  | nil => exact absurd hmem List.not_mem_nil
  | append_singleton l p ih =>
    obtain ⟨k', v'⟩ := p
    by_cases hk : k' = k
    · exact ⟨v', isLast_concat.mpr (Or.inl ⟨hk, rfl⟩)⟩
    · rcases List.mem_append.mp hmem with hmem | hmem
      · obtain ⟨w, hw⟩ := ih hmem
        exact ⟨w, isLast_concat.mpr (Or.inr ⟨hk, hw⟩)⟩
      · exact absurd (congrArg Prod.fst (List.mem_singleton.mp hmem)).symm hk

/-- The last pair with a key in lists one behind the other. -/
theorem isLast_flatMap {α : Type*} {f : α → List (κ × ν)} {l : List α} {k : κ} {v : ν} :
    IsLast (l.flatMap f) k v ↔ ∃ front a back, l = front ++ a :: back ∧ IsLast (f a) k v ∧
      ∀ b ∈ back, ∀ p ∈ f b, p.1 ≠ k := by
  induction l with
  | nil => simp [not_isLast_nil]
  | cons a l ih =>
    constructor
    · rintro ⟨front, back, h, hback⟩
      rw [List.flatMap_cons, List.append_eq_append_iff] at h
      obtain ⟨before, rfl, htail⟩ | ⟨after, hhead, htail⟩ := h
      · -- the pair stands behind the first list
        obtain ⟨front, a', back, rfl, ha', hback'⟩ := ih.mp ⟨before, back, htail, hback⟩
        exact ⟨a :: front, a', back, rfl, ha', hback'⟩
      · cases after with
        | nil =>
          rw [List.append_nil] at hhead
          obtain ⟨front, a', back, rfl, ha', hback'⟩ :=
            ih.mp ⟨[], back, by rw [List.nil_append, htail, List.nil_append], hback⟩
          exact ⟨a :: front, a', back, rfl, ha', hback'⟩
        | cons p after =>
          obtain ⟨rfl, rfl⟩ := List.cons.inj htail
          refine ⟨[], a, l, rfl, ⟨front, after, hhead, fun q hq => ?_⟩, fun b hb q hq => ?_⟩
          · exact hback q (List.mem_append_left _ hq)
          · exact hback q (List.mem_append_right _ (List.mem_flatMap.mpr ⟨b, hb, hq⟩))
    · rintro ⟨front, a', back, h, ⟨front', back', ha', hback'⟩, hback⟩
      refine ⟨front.flatMap f ++ front', back' ++ back.flatMap f, ?_, fun p hp => ?_⟩
      · rw [h, List.flatMap_append, List.flatMap_cons, ha']
        simp
      · rcases List.mem_append.mp hp with hp | hp
        · exact hback' p hp
        · obtain ⟨b, hb, hp⟩ := List.mem_flatMap.mp hp
          exact hback b hb p hp

/-- The last pair with a key in lists that are in order: it is in the greatest list with one. -/
theorem isLast_flatMap_of_pairwise {α β : Type*} [Preorder β] {rank : α → β}
    {f : α → List (κ × ν)} {l : List α} (hl : l.Pairwise fun a b => rank a < rank b) {k : κ}
    {v : ν} :
    IsLast (l.flatMap f) k v ↔
      ∃ a ∈ l, IsLast (f a) k v ∧ ∀ b ∈ l, rank a < rank b → ∀ p ∈ f b, p.1 ≠ k := by
  rw [isLast_flatMap]
  constructor
  · rintro ⟨front, a, back, rfl, ha, hback⟩
    refine ⟨a, by simp, ha, fun b hb hlt => ?_⟩
    -- what is greater stands behind
    obtain ⟨-, -, hfront⟩ := List.pairwise_append.mp hl
    rcases List.mem_append.mp hb with hb | hb
    · exact absurd hlt (lt_asymm (hfront b hb a List.mem_cons_self))
    · rcases List.mem_cons.mp hb with rfl | hb
      · exact absurd hlt (lt_irrefl _)
      · exact hback b hb
  · rintro ⟨a, hmem, ha, hgreater⟩
    obtain ⟨front, back, rfl⟩ := List.append_of_mem hmem
    refine ⟨front, a, back, rfl, ha, fun b hb => hgreater b (by simp [hb]) ?_⟩
    exact List.rel_of_pairwise_cons (List.pairwise_append.mp hl).2.1 hb

/-- The last pair with a key in lists that are in order, some of them of one rank: it is among
the lists of the greatest rank with one. -/
theorem isLast_flatMap_of_pairwise_le {α β : Type*} [PartialOrder β] [DecidableEq β] {rank : α → β}
    {f : α → List (κ × ν)} {l : List α} (hl : l.Pairwise fun a b => rank a ≤ rank b) {k : κ}
    {v : ν} :
    IsLast (l.flatMap f) k v ↔
      ∃ r, IsLast ((l.filter fun a => rank a = r).flatMap f) k v ∧
        ∀ b ∈ l, r < rank b → ∀ p ∈ f b, p.1 ≠ k := by
  constructor
  · intro h
    obtain ⟨front, a, back, rfl, ha, hback⟩ := isLast_flatMap.mp h
    obtain ⟨-, hcons, hfront⟩ := List.pairwise_append.mp hl
    refine ⟨rank a, isLast_flatMap.mpr ⟨front.filter fun b => rank b = rank a, a,
      back.filter fun b => rank b = rank a, by simp, ha, fun b hb => ?_⟩, fun b hb hlt => ?_⟩
    · exact hback b (List.mem_filter.mp hb).1
    · rcases List.mem_append.mp hb with hb | hb
      · exact absurd hlt (hfront b hb a List.mem_cons_self).not_gt
      · rcases List.mem_cons.mp hb with rfl | hb
        · exact absurd hlt (lt_irrefl _)
        · exact hback b hb
  · rintro ⟨r, h, hgreater⟩
    obtain ⟨chosen, a, later, hfilter, ha, hlater⟩ := isLast_flatMap.mp h
    obtain ⟨front, rest, rfl, -, hrest⟩ := List.filter_eq_append_iff.mp hfilter
    obtain ⟨skipped, back, rfl, -, hrank, rfl⟩ := List.filter_eq_cons_iff.mp hrest
    rw [decide_eq_true_eq] at hrank
    refine isLast_flatMap.mpr ⟨front ++ skipped, a, back, by simp, ha, fun b hb => ?_⟩
    -- what stands behind is of the same rank, or of a greater one
    have hle : rank a ≤ rank b := by
      have hcons := (List.pairwise_append.mp (List.pairwise_append.mp hl).2.1).2.1
      exact List.rel_of_pairwise_cons hcons hb
    by_cases heq : rank a = rank b
    · exact hlater b (List.mem_filter.mpr ⟨hb, decide_eq_true (heq.symm.trans hrank)⟩)
    · exact hgreater b (by simp [hb]) (hrank ▸ lt_of_le_of_ne hle heq)

variable [DecidableEq κ]

/-- The last pair with a key is the last one of those that have it. -/
theorem isLast_iff_getLast?_filter {l : List (κ × ν)} {k : κ} {v : ν} :
    IsLast l k v ↔ (l.filter fun p => p.1 = k).getLast? = some (k, v) := by
  induction l using List.reverseRecOn with
  | nil => simp [not_isLast_nil]
  | append_singleton l p ih =>
    obtain ⟨k', v'⟩ := p
    rw [isLast_concat, ih]
    by_cases hk : k' = k <;> simp [List.filter_append, hk]

/-- The map after inserting the pairs of a list one after the other. -/
def collect (l : List (κ × ν)) : AList fun _ : κ => ν :=
  l.foldl (fun m p => m.insert p.1 p.2) ∅

theorem collect_concat (l : List (κ × ν)) (p : κ × ν) :
    collect (l ++ [p]) = (collect l).insert p.1 p.2 := by
  rw [collect, List.foldl_append]
  rfl

/-- **The map keeps the last value of every key.** -/
theorem lookup_collect {l : List (κ × ν)} {k : κ} {v : ν} :
    (collect l).lookup k = some v ↔ IsLast l k v := by
  induction l using List.reverseRecOn with
  | nil => simp [collect, not_isLast_nil]
  | append_singleton l p ih =>
    obtain ⟨k', v'⟩ := p
    rw [collect_concat, isLast_concat]
    by_cases hk : k' = k
    · subst hk
      simp
    · rw [AList.lookup_insert_ne (Ne.symm hk), ih]
      simp [hk]

/-- **The map has the keys of the list.** -/
theorem lookup_collect_eq_none {l : List (κ × ν)} {k : κ} :
    (collect l).lookup k = none ↔ ∀ p ∈ l, p.1 ≠ k := by
  induction l using List.reverseRecOn with
  | nil => simp [collect]
  | append_singleton l p ih =>
    rw [collect_concat]
    by_cases hk : p.1 = k
    · subst hk
      rw [AList.lookup_insert]
      exact ⟨fun h => (Option.some_ne_none _ h).elim, fun h => (h p (by simp) rfl).elim⟩
    · rw [AList.lookup_insert_ne (Ne.symm hk), ih]
      simp [or_imp, forall_and, hk]

/-- What the map keeps of a key, if its pairs are taken out, or of the others. -/
theorem lookup_collect_filter_ne (l : List (κ × ν)) (removed k : κ) :
    (collect (l.filter fun p => p.1 ≠ removed)).lookup k =
      if k = removed then none else (collect l).lookup k := by
  split_ifs with hk
  · refine lookup_collect_eq_none.mpr fun p hp => ?_
    rw [hk]
    exact of_decide_eq_true (List.mem_filter.mp hp).2
  · refine Option.ext fun v => ?_
    rw [lookup_collect, lookup_collect, isLast_iff_getLast?_filter, isLast_iff_getLast?_filter,
      List.filter_filter]
    have hsame : (fun p : κ × ν => decide (p.1 = k) && decide (p.1 ≠ removed)) =
        fun p => decide (p.1 = k) := by
      funext p
      by_cases hp : p.1 = k <;> simp [hp, hk]
    rw [hsame]

/-- One more pair. -/
theorem lookup_collect_concat (l : List (κ × ν)) (p : κ × ν) (k : κ) :
    (collect (l ++ [p])).lookup k = if k = p.1 then some p.2 else (collect l).lookup k := by
  rw [collect_concat]
  split_ifs with hk
  · rw [hk, AList.lookup_insert]
  · rw [AList.lookup_insert_ne hk]

/-- Which value a key keeps is determined. -/
theorem IsLast.unique {l : List (κ × ν)} {k : κ} {v w : ν} (hv : IsLast l k v)
    (hw : IsLast l k w) : v = w :=
  Option.some.inj ((lookup_collect.mpr hv).symm.trans (lookup_collect.mpr hw))

/-- Where no two elements have one key, the map has the value of the element that a search
finds. -/
theorem lookup_collect_filterMap {α : Type*} {key : α → κ} {value : α → Option ν} {l : List α}
    (hnodup : (l.map key).Nodup) (k : κ) :
    (collect (l.filterMap fun a => (value a).map fun v => (key a, v))).lookup k =
      (l.find? fun a => key a = k).bind value := by
  refine Option.ext fun v => ?_
  rw [lookup_collect, isLast_filterMap, Option.bind_eq_some_iff]
  constructor
  · rintro ⟨front, a, back, rfl, ha, -⟩
    obtain ⟨w, hw, heq⟩ := Option.map_eq_some_iff.mp ha
    obtain ⟨rfl, rfl⟩ := Prod.mk.inj heq
    rw [List.map_append, List.map_cons, List.nodup_append] at hnodup
    refine ⟨a, List.find?_eq_some_iff_append.mpr ⟨by simp, front, back, rfl, fun b hb => ?_⟩, hw⟩
    have hne := hnodup.2.2 (key b) (List.mem_map_of_mem hb) (key a) List.mem_cons_self
    simpa using hne
  · rintro ⟨a, ha, hv⟩
    obtain ⟨hkey, front, back, rfl, -⟩ := List.find?_eq_some_iff_append.mp ha
    obtain rfl : key a = k := by simpa using hkey
    rw [List.map_append, List.map_cons, List.nodup_append, List.nodup_cons] at hnodup
    refine ⟨front, a, back, rfl, by rw [hv]; rfl, fun b hb w hw => hnodup.2.1.1 ?_⟩
    obtain ⟨w', -, heq⟩ := Option.map_eq_some_iff.mp hw
    rw [← (Prod.mk.inj heq).1]
    exact List.mem_map_of_mem hb

/-! ### The first value of a key -/

/-- `v` is the value of the first pair with the key `k`. -/
def IsFirst (l : List (κ × ν)) (k : κ) (v : ν) : Prop :=
  ∃ front back, l = front ++ (k, v) :: back ∧ ∀ p ∈ front, p.1 ≠ k

/-- The search that stops at the first pair with a key. -/
def first (l : List (κ × ν)) (k : κ) : Option ν :=
  l.findSome? fun p => if p.1 = k then some p.2 else none

/-- **The search finds the first value of the key.** -/
theorem first_eq_some_iff {l : List (κ × ν)} {k : κ} {v : ν} :
    first l k = some v ↔ IsFirst l k v := by
  rw [first, List.findSome?_eq_some_iff]
  constructor
  · rintro ⟨front, ⟨k', v'⟩, back, rfl, hfound, hfront⟩
    split_ifs at hfound with hk
    obtain rfl : v' = v := Option.some.inj hfound
    obtain rfl : k' = k := hk
    refine ⟨front, back, rfl, fun p hp hpk => ?_⟩
    simpa [hpk] using hfront p hp
  · rintro ⟨front, back, rfl, hfront⟩
    exact ⟨front, (k, v), back, rfl, if_pos rfl, fun p hp => if_neg (hfront p hp)⟩

theorem first_eq_none_iff {l : List (κ × ν)} {k : κ} :
    first l k = none ↔ ∀ p ∈ l, p.1 ≠ k := by
  simp [first]

/-- **The search and the map agree** on a key exactly when its first and its last
value do: they always know the same keys. -/
theorem first_eq_lookup_iff {l : List (κ × ν)} {k : κ} :
    (∀ v, first l k = some v ↔ (collect l).lookup k = some v) ↔
      ∀ v w, IsFirst l k v → IsLast l k w → v = w := by
  constructor
  · intro hagree v w hv hw
    have hfirst : first l k = some w := (hagree w).mpr (lookup_collect.mpr hw)
    exact Option.some.inj ((first_eq_some_iff.mpr hv).symm.trans hfirst)
  · intro hsame
    -- a key with one of the values has the other one as well
    have hknown : first l k = none ↔ (collect l).lookup k = none :=
      first_eq_none_iff.trans lookup_collect_eq_none.symm
    rcases hf : first l k with _ | v
    · simp [hknown.mp hf]
    · rcases hl : (collect l).lookup k with _ | w
      · rw [hknown.mpr hl] at hf
        cases hf
      · rw [hsame v w (first_eq_some_iff.mp hf) (lookup_collect.mp hl)]
        exact fun _ => Iff.rfl

/-! ### All values of a key -/

/-- One more value of a key. -/
def push (m : AList fun _ : κ => List ν) (k : κ) (v : ν) : AList fun _ : κ => List ν :=
  m.insert k ((m.lookup k).getD [] ++ [v])

/-- The values of the pairs with a key, in order. -/
def valuesOf (l : List (κ × ν)) (k : κ) : List ν :=
  l.filterMap fun p => if p.1 = k then some p.2 else none

/-- **A map that is pushed to keeps all values of a key, in order.** -/
theorem lookup_foldl_push (m : AList fun _ : κ => List ν) (l : List (κ × ν)) (k : κ) :
    ((l.foldl (fun m p => push m p.1 p.2) m).lookup k).getD [] =
      (m.lookup k).getD [] ++ valuesOf l k := by
  induction l generalizing m with
  | nil => rw [List.foldl_nil, valuesOf, List.filterMap_nil, List.append_nil]
  | cons p l ih =>
    rw [List.foldl_cons, ih]
    by_cases hk : p.1 = k
    · subst hk
      simp [push, valuesOf]
    · have hne : k ≠ p.1 := Ne.symm hk
      simp [push, valuesOf, hk, AList.lookup_insert_ne hne]

/-- The search for a key and the search among its values are one. -/
theorem find?_valuesOf (l : List (κ × ν)) (k : κ) (q : ν → Bool) :
    (valuesOf l k).find? q = first (l.filter fun p => q p.2) k := by
  induction l with
  | nil => rfl
  | cons p l ih =>
    by_cases hk : p.1 = k <;> by_cases hq : q p.2 = true <;>
      simp_all [valuesOf, first]

/-- Values may be changed before or after the search. -/
theorem first_map {μ : Type*} (f : ν → μ) (l : List (κ × ν)) (k : κ) :
    first (l.map fun p => (p.1, f p.2)) k = (first l k).map f := by
  induction l with
  | nil => rfl
  | cons p l ih =>
    by_cases hk : p.1 = k <;> simp_all [first]

/-! ### Reading a map back -/

/-- An order in which the elements of a collection are visited: any rearrangement. -/
structure IterationOrder (α : Type*) where
  /-- The elements in the order they are visited. -/
  arrange : List α → List α
  perm : ∀ l, (arrange l).Perm l

/-- The order in which the entries stand. -/
def IterationOrder.standing (α : Type*) : IterationOrder α := ⟨id, fun _ => List.Perm.refl _⟩

/-- Every order visits the pairs the map keeps, and nothing else. -/
theorem mem_arrange_entries {order : IterationOrder (Sigma fun _ : κ => ν)}
    {m : AList fun _ : κ => ν} {k : κ} {v : ν} :
    (⟨k, v⟩ : Sigma fun _ : κ => ν) ∈ order.arrange m.entries ↔ m.lookup k = some v := by
  rw [(order.perm m.entries).mem_iff]
  exact (AList.mem_lookup_iff).symm

end LastWins
