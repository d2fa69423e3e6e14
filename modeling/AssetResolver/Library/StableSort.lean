import Mathlib.Data.List.Sort
import Mathlib.Order.Defs.LinearOrder
import Mathlib.Tactic.SplitIfs

/-!
# Sorting by a rank

A stable sort puts the elements of a list in the order of their ranks (`StableSort.sortBy`)
and leaves those of one rank as they came. Two facts follow that make it easy to reason
about a part of the list alone: choosing elements before or after the sort is the same
(`StableSort.sortBy_filter`), and whatever order the list was in decides between elements of
one rank (`StableSort.pairwise_sortBy_of_pairwise`).
-/

namespace StableSort

variable {α β : Type*} [LinearOrder β] (rank : α → β)

/-- A stable sort. -/
def sortBy (l : List α) : List α := l.insertionSort fun a b => rank a ≤ rank b

/-- The order of the ranks. -/
instance instTotalRank : Std.Total fun a b : α => rank a ≤ rank b :=
  ⟨fun a b => le_total (rank a) (rank b)⟩

instance instIsTransRank : IsTrans α fun a b => rank a ≤ rank b :=
  ⟨fun _ _ _ h h' => le_trans h h'⟩

variable {rank} {l : List α}

theorem perm_sortBy : (sortBy rank l).Perm l := List.perm_insertionSort _ l

theorem mem_sortBy {a : α} : a ∈ sortBy rank l ↔ a ∈ l := perm_sortBy.mem_iff

theorem pairwise_sortBy : (sortBy rank l).Pairwise fun a b => rank a ≤ rank b :=
  List.pairwise_insertionSort _ l

/-- Where no two elements have one rank, the order is strict. -/
theorem pairwise_lt_sortBy (hnodup : (l.map rank).Nodup) :
    (sortBy rank l).Pairwise fun a b => rank a < rank b := by
  have hnodup' : ((sortBy rank l).map rank).Nodup := (perm_sortBy.map rank).nodup_iff.mpr hnodup
  exact pairwise_sortBy.imp₂ (fun _ _ hle hne => lt_of_le_of_ne hle hne)
    (List.pairwise_map.mp hnodup')

/-- A list that is in order stays as it is. -/
theorem sortBy_eq_self (h : l.Pairwise fun a b => rank a ≤ rank b) : sortBy rank l = l :=
  h.insertionSort_eq

/-- **Elements may be chosen before or after the sort.** -/
theorem sortBy_filter (p : α → Bool) : sortBy rank (l.filter p) = (sortBy rank l).filter p := by
  -- the chosen ones keep their order, and none is lost
  have hsublist : (sortBy rank (l.filter p)).Sublist (sortBy rank l) := by
    induction l with
    | nil => exact List.Sublist.refl _
    | cons a l ih =>
      rw [List.filter_cons]
      split_ifs
      · exact List.Sublist.orderedInsert_sublist a ih pairwise_sortBy
      · exact ih.trans (List.sublist_orderedInsert a _)
  have hchosen : ∀ a ∈ sortBy rank (l.filter p), p a = true := fun a hmem =>
    (List.mem_filter.mp (mem_sortBy.mp hmem)).2
  have hfiltered := hsublist.filter p
  rw [List.filter_eq_self.mpr hchosen] at hfiltered
  exact hfiltered.eq_of_length (perm_sortBy.trans (perm_sortBy.symm.filter p)).length_eq

/-- The elements of one rank stay in the order they came in. -/
theorem filter_sortBy_eq (c : β) :
    (sortBy rank l).filter (fun a => rank a = c) = l.filter fun a => rank a = c := by
  rw [← sortBy_filter]
  refine sortBy_eq_self (List.pairwise_of_forall_mem_list fun a ha b hb => ?_)
  have ha' : rank a = c := by simpa using (List.mem_filter.mp ha).2
  have hb' : rank b = c := by simpa using (List.mem_filter.mp hb).2
  rw [ha', hb']

/-- **Between elements of one rank the order they came in decides.** -/
theorem pairwise_sortBy_of_pairwise {S : α → α → Prop} (h : l.Pairwise S) :
    (sortBy rank l).Pairwise fun a b => rank a < rank b ∨ rank a = rank b ∧ S a b := by
  rw [List.pairwise_iff_forall_sublist]
  intro a b hsublist
  have hle : rank a ≤ rank b := List.pairwise_iff_forall_sublist.mp pairwise_sortBy hsublist
  rcases hle.lt_or_eq with hlt | heq
  · exact Or.inl hlt
  · refine Or.inr ⟨heq, List.pairwise_iff_forall_sublist.mp h ?_⟩
    have hboth := hsublist.filter fun c => rank c = rank b
    rw [filter_sortBy_eq] at hboth
    refine List.Sublist.trans ?_ (hboth.trans List.filter_sublist)
    simp [heq]

/-- **Where no two elements have one rank, the order they came in does not matter.** -/
theorem sortBy_eq_of_perm {l' : List α} (hperm : l.Perm l') (hnodup : (l.map rank).Nodup) :
    sortBy rank l = sortBy rank l' := by
  refine List.Perm.eq_of_pairwise ?_ pairwise_sortBy pairwise_sortBy
    (perm_sortBy.trans (hperm.trans perm_sortBy.symm))
  intro a b ha hb hle hge
  exact List.inj_on_of_nodup_map hnodup (mem_sortBy.mp ha) (hperm.mem_iff.mpr (mem_sortBy.mp hb))
    (le_antisymm hle hge)

end StableSort
