import AssetResolver.Library.StableSort
import Mathlib.Data.List.TakeWhile

/-!
# Searching pages behind an index

A list of cells, each a page under the first of its keys, is searched for a key in two ways:
by itself, on the page that a binary search of the index points to (`PagedSearch.find`), and
together with other keys, in one pass over the pages and the sorted keys (`PagedSearch.batch`).

**The two agree wherever the index is in order** (`PagedSearch.batch_eq_map`), whatever is on the
pages. What is on the pages matters for a third way, the search of all entries from the
beginning: it agrees if the entries are in order as well and begin with the key of their cell
(`PagedSearch.page_bind_eq_find?`).
-/

namespace PagedSearch

variable {κ π V : Type*} [LinearOrder κ]

/-- A binary search for the point where a predicate fails, which need only work where there is
one. -/
structure PartitionPoint (κ : Type*) where
  /-- The point. -/
  point : (κ → Bool) → List κ → ℕ
  point_eq : ∀ p l, (l.Pairwise fun a b => p b → p a) → point p l = (l.takeWhile p).length

/-- The search from the beginning. -/
def PartitionPoint.scan (κ : Type*) : PartitionPoint κ := ⟨fun p l => (l.takeWhile p).length,
  fun _ _ _ => rfl⟩

variable (cells : List (κ × π)) (look : π → κ → Option V) (absent : V)

/-- Searching for one key. -/
def find (search : PartitionPoint κ) (k : κ) : V :=
  match search.point (fun first => first ≤ k) (cells.map Prod.fst) with
  | 0 => absent
  | i + 1 => ((cells[i]?).bind fun cell => look cell.2 k).getD absent

/-- The results of one page, for the keys that fall on it. -/
def assign (page : π) (keys : List (ℕ × κ)) (results : List V) : List V :=
  keys.foldl (fun results e =>
    match look page e.2 with
    | some v => results.set e.1 v
    | none => results) results

/-- The pass over the pages, with the keys that are left in order. -/
def pass : List (κ × π) → List (ℕ × κ) → List V → List V
  | [], _, results => results
  | (first, page) :: cells, remaining, results =>
    if remaining.isEmpty then results
    else
      let remaining := remaining.dropWhile fun e => e.2 < first
      let below := fun e : ℕ × κ => (cells.head?.all fun next => !decide (next.1 ≤ e.2))
      pass cells (remaining.dropWhile below) (assign look page (remaining.takeWhile below) results)

/-- Searching for several keys together. -/
def batch (keys : List κ) : List V :=
  pass look cells (StableSort.sortBy Prod.snd (keys.zipIdx.map Prod.swap))
    (List.replicate keys.length absent)

/-! ### The page of a key -/

/-- The page a key is on, if it is anywhere: the last one that begins below it. -/
def page (cells : List (κ × π)) (k : κ) : Option π :=
  (cells.takeWhile fun cell => cell.1 ≤ k).getLast?.map Prod.snd

/-- The result for a key. -/
def result (k : κ) : V := ((page cells k).bind fun p => look p k).getD absent

variable {cells look absent}

@[simp] theorem page_nil (k : κ) : page ([] : List (κ × π)) k = none := rfl

theorem page_cons_of_le {first k : κ} {p : π} (h : first ≤ k) :
    page ((first, p) :: cells) k = some ((page cells k).getD p) := by
  rw [page, List.takeWhile_cons, if_pos (by simpa using h), List.getLast?_cons, page]
  cases (cells.takeWhile fun cell => cell.1 ≤ k).getLast? <;> rfl

theorem page_of_forall_lt {k : κ} (h : ∀ cell ∈ cells.head?, k < cell.1) : page cells k = none := by
  cases cells with
  | nil => rfl
  | cons cell cells =>
    have hlt : ¬cell.1 ≤ k := not_le.mpr (h cell rfl)
    rw [page, List.takeWhile_cons, if_neg (by simpa using hlt)]
    rfl

/-- The binary search points to the page. -/
theorem find_eq_result (search : PartitionPoint κ) (h : (cells.map Prod.fst).Pairwise (· ≤ ·))
    (k : κ) : find cells look absent search k = result cells look absent k := by
  have hpoint : search.point (fun first => first ≤ k) (cells.map Prod.fst) =
      (cells.takeWhile fun cell => cell.1 ≤ k).length := by
    rw [search.point_eq _ _ (h.imp fun hle hk => by simpa using hle.trans (by simpa using hk)),
      List.takeWhile_map, List.length_map]
    rfl
  rw [find, hpoint, result, page]
  generalize hprefix : cells.takeWhile (fun cell => cell.1 ≤ k) = front
  cases hlength : front.length with
  | zero => rw [List.length_eq_zero_iff.mp hlength]; rfl
  | succ i =>
    have hlast : front.getLast? = cells[i]? := by
      rw [List.getLast?_eq_getElem?, hlength, Nat.add_sub_cancel]
      obtain ⟨back, hback⟩ : front <+: cells := hprefix ▸ List.takeWhile_prefix _
      rw [← hback, List.getElem?_append_left (by omega)]
    rw [hlast]
    change ((cells[i]?).bind fun cell => look cell.2 k).getD absent = _
    cases cells[i]? <;> rfl

/-! ### The pass -/

section Assign

variable {p : π} {keys : List (ℕ × κ)} {results : List V}

omit [LinearOrder κ] in
@[simp] theorem length_assign : (assign look p keys results).length = results.length := by
  induction keys generalizing results with
  | nil => rfl
  | cons e keys ih =>
    rw [assign, List.foldl_cons, ← assign, ih]
    cases look p e.2 with
    | none => rfl
    | some v => exact List.length_set

omit [LinearOrder κ] in
/-- A page leaves the results of other keys as they are. -/
theorem getElem?_assign_of_not_mem {i : ℕ} (h : i ∉ keys.map Prod.fst) :
    (assign look p keys results)[i]? = results[i]? := by
  induction keys generalizing results with
  | nil => rfl
  | cons e keys ih =>
    rw [List.map_cons, List.mem_cons, not_or] at h
    rw [assign, List.foldl_cons, ← assign, ih h.2]
    cases look p e.2 with
    | none => rfl
    | some v => exact List.getElem?_set_ne (Ne.symm h.1)

omit [LinearOrder κ] in
/-- **A page sets the results of its keys**, where it has some. -/
theorem getElem?_assign_of_mem (hnodup : (keys.map Prod.fst).Nodup) {e : ℕ × κ} (he : e ∈ keys)
    (habsent : results[e.1]? = some absent) :
    (assign look p keys results)[e.1]? = some ((look p e.2).getD absent) := by
  induction keys generalizing results with
  | nil => exact absurd he List.not_mem_nil
  | cons e' keys ih =>
    rw [List.map_cons, List.nodup_cons] at hnodup
    rw [assign, List.foldl_cons, ← assign]
    rcases List.mem_cons.mp he with rfl | he
    · -- no later key sets this result again
      rw [getElem?_assign_of_not_mem hnodup.1]
      cases look p e.2 with
      | none => exact habsent
      | some v =>
        obtain ⟨hlt, -⟩ := List.getElem?_eq_some_iff.mp habsent
        exact List.getElem?_set_self hlt
    · refine ih hnodup.2 he ?_
      have hne : e'.1 ≠ e.1 := fun heq => hnodup.1 (heq ▸ List.mem_map_of_mem he)
      cases look p e'.2 with
      | none => exact habsent
      | some v => exact (List.getElem?_set_ne hne).trans habsent

end Assign

/-- What is below in a list in order stands at its beginning. -/
theorem forall_dropWhile {l : List (ℕ × κ)} (h : l.Pairwise fun e e' => e.2 ≤ e'.2) {c : κ} :
    ∀ e ∈ l.dropWhile fun e => e.2 < c, c ≤ e.2 := by
  induction l with
  | nil => exact fun _ hmem => absurd hmem List.not_mem_nil
  | cons e l ih =>
    rw [List.dropWhile_cons]
    split_ifs with hlt
    · exact ih (List.Pairwise.of_cons h)
    · have hle : c ≤ e.2 := not_lt.mp (by simpa using hlt)
      refine List.forall_mem_cons.mpr ⟨hle, fun e' he' => hle.trans ?_⟩
      exact List.rel_of_pairwise_cons h he'

theorem length_pass (cells : List (κ × π)) (remaining : List (ℕ × κ)) (results : List V) :
    (pass look cells remaining results).length = results.length := by
  induction cells generalizing remaining results with
  | nil => rfl
  | cons cell cells ih =>
    rw [pass]
    split_ifs
    · rfl
    · rw [ih, length_assign]

/-- The keys that the next page does not begin below are the first ones of a list in order. -/
theorem forall_dropWhile_head (cells : List (κ × π)) {l : List (ℕ × κ)}
    (h : l.Pairwise fun e e' => e.2 ≤ e'.2) :
    ∀ e ∈ l.dropWhile fun e => (cells.head?.all fun next => !decide (next.1 ≤ e.2)),
      ∃ next, cells.head? = some next ∧ next.1 ≤ e.2 := by
  cases cells with
  | nil =>
    have hall : l.dropWhile (fun e => (([] : List (κ × π)).head?.all fun next =>
        !decide (next.1 ≤ e.2))) = [] := List.dropWhile_eq_nil_iff.mpr fun _ _ => rfl
    rw [hall]
    exact fun _ hmem => absurd hmem List.not_mem_nil
  | cons next cells =>
    intro e he
    have hbelow : (fun e : ℕ × κ => ((next :: cells).head?.all fun next =>
        !decide (next.1 ≤ e.2))) = fun e => decide (e.2 < next.1) := by
      funext e
      rw [List.head?_cons, Option.all_some, ← decide_not, decide_eq_decide, not_le]
    rw [hbelow] at he
    exact ⟨next, rfl, forall_dropWhile h e he⟩

/-- The keys that are left have their results at the end of the pass, and no others change. -/
theorem getElem?_pass {remaining : List (ℕ × κ)}
    (hsorted : remaining.Pairwise fun e e' => e.2 ≤ e'.2) (hnodup : (remaining.map Prod.fst).Nodup)
    {results : List V} (habsent : ∀ e ∈ remaining, results[e.1]? = some absent) :
    (∀ i, i ∉ remaining.map Prod.fst → (pass look cells remaining results)[i]? = results[i]?) ∧
      ∀ e ∈ remaining,
        (pass look cells remaining results)[e.1]? = some (result cells look absent e.2) := by
  induction cells generalizing remaining results with
  | nil => exact ⟨fun _ _ => rfl, habsent⟩
  | cons cell cells ih =>
    obtain ⟨first, p⟩ := cell
    rw [pass]
    split_ifs with hempty
    · rw [List.isEmpty_iff.mp hempty]
      exact ⟨fun _ _ => rfl, fun _ hmem => absurd hmem List.not_mem_nil⟩
    · dsimp only
      -- the keys below the page, on it, and behind it
      have hsplit := List.takeWhile_append_dropWhile (p := fun e : ℕ × κ => decide (e.2 < first))
        (l := remaining)
      have hskipped : ∀ e ∈ remaining.takeWhile (fun e => decide (e.2 < first)), e.2 < first :=
        fun e he => by simpa using List.mem_takeWhile_imp he
      have hfirst := forall_dropWhile hsorted (c := first)
      have hsorted' := hsorted.sublist (List.dropWhile_sublist fun e => decide (e.2 < first))
      generalize remaining.takeWhile (fun e => decide (e.2 < first)) = skipped at hsplit hskipped
      generalize remaining.dropWhile (fun e => decide (e.2 < first)) = onward at *
      have hsplit' := List.takeWhile_append_dropWhile
        (p := fun e : ℕ × κ => (cells.head?.all fun next => !decide (next.1 ≤ e.2))) (l := onward)
      have hon : ∀ e ∈ onward.takeWhile
          (fun e => (cells.head?.all fun next => !decide (next.1 ≤ e.2))),
          ∀ next ∈ cells.head?, e.2 < next.1 := fun e he next hnext => by
        have hall := List.mem_takeWhile_imp he
        rw [Option.mem_def.mp hnext] at hall
        simpa using hall
      have hbehind := forall_dropWhile_head cells hsorted'
      have hsorted'' := hsorted'.sublist (List.dropWhile_sublist
        fun e => (cells.head?.all fun next => !decide (next.1 ≤ e.2)))
      generalize onward.takeWhile (fun e => (cells.head?.all fun next => !decide (next.1 ≤ e.2))) =
        on at hsplit' hon ⊢
      generalize onward.dropWhile (fun e => (cells.head?.all fun next => !decide (next.1 ≤ e.2))) =
        behind at *
      subst hsplit' hsplit
      simp only [List.map_append, List.nodup_append, List.mem_append, not_or] at *
      obtain ⟨hnodupSkipped, ⟨hnodupOn, hnodupBehind, hdisjoint⟩, hdisjoint'⟩ := hnodup
      have hnotOn : ∀ e ∈ behind, e.1 ∉ on.map Prod.fst := fun e he hmem =>
        hdisjoint e.1 hmem e.1 (List.mem_map_of_mem he) rfl
      obtain ⟨hframe, hresults⟩ := @ih behind hsorted'' hnodupBehind (assign look p on results)
        fun e he => by
          rw [getElem?_assign_of_not_mem (hnotOn e he)]
          exact habsent e (.inr (.inr he))
      refine ⟨fun i hi => ?_, fun e he => ?_⟩
      · rw [hframe i hi.2.2, getElem?_assign_of_not_mem hi.2.1]
      · rcases he with he | he | he
        · have hout : e.1 ∉ on.map Prod.fst ∧ e.1 ∉ behind.map Prod.fst :=
            ⟨fun hmem => hdisjoint' e.1 (List.mem_map_of_mem he) e.1 (.inl hmem) rfl,
              fun hmem => hdisjoint' e.1 (List.mem_map_of_mem he) e.1 (.inr hmem) rfl⟩
          have hnone : page ((first, p) :: cells) e.2 = none :=
            page_of_forall_lt fun cell hcell => by
              obtain rfl := Option.some.inj hcell
              exact hskipped e he
          rw [hframe e.1 hout.2, getElem?_assign_of_not_mem hout.1, habsent e (.inl he), result,
            hnone]
          rfl
        · have hout : e.1 ∉ behind.map Prod.fst := fun hmem =>
            hdisjoint e.1 (List.mem_map_of_mem he) e.1 hmem rfl
          rw [hframe e.1 hout, getElem?_assign_of_mem hnodupOn he (habsent e (.inr (.inl he))),
            result, page_cons_of_le (hfirst e (.inl he)), page_of_forall_lt (hon e he)]
          rfl
        · rw [hresults e he, result, result, page_cons_of_le (hfirst e (.inr he))]
          obtain ⟨⟨next, p'⟩, hnext, hle⟩ := hbehind e he
          obtain ⟨rest, rfl⟩ := List.head?_eq_some_iff.mp hnext
          rw [page_cons_of_le hle]
          rfl

/-- **Keys may be searched together or one by one**, wherever the index is in order. -/
theorem batch_eq_map (search : PartitionPoint κ) (h : (cells.map Prod.fst).Pairwise (· ≤ ·))
    (keys : List κ) :
    batch cells look absent keys = keys.map (find cells look absent search) := by
  have hmem : ∀ {e : ℕ × κ}, e ∈ StableSort.sortBy Prod.snd (keys.zipIdx.map Prod.swap) ↔
      keys[e.1]? = some e.2 := by
    rintro ⟨i, k⟩
    rw [StableSort.mem_sortBy]
    simp [List.mem_zipIdx_iff_getElem?]
  have hnodup : ((StableSort.sortBy Prod.snd (keys.zipIdx.map Prod.swap)).map Prod.fst).Nodup := by
    rw [(StableSort.perm_sortBy.map Prod.fst).nodup_iff, List.map_map]
    have hidx : (keys.zipIdx.map (Prod.fst ∘ Prod.swap)) = List.range keys.length := by
      simp [Function.comp_def, List.range_eq_range']
    rw [hidx]
    exact List.nodup_range
  have habsent : ∀ e ∈ StableSort.sortBy Prod.snd (keys.zipIdx.map Prod.swap),
      (List.replicate keys.length absent)[e.1]? = some absent := fun e he => by
    obtain ⟨hlt, -⟩ := List.getElem?_eq_some_iff.mp (hmem.mp he)
    rw [List.getElem?_replicate, if_pos hlt]
  have hresults := (@getElem?_pass _ _ _ _ cells look absent _ StableSort.pairwise_sortBy hnodup _
    habsent).2
  refine List.ext_getElem? fun i => ?_
  rcases hkey : keys[i]? with _ | k
  · have hlength := List.getElem?_eq_none_iff.mp hkey
    rw [List.getElem?_map, hkey, List.getElem?_eq_none_iff.mpr]
    · rfl
    · rwa [batch, length_pass, List.length_replicate]
  · rw [List.getElem?_map, hkey, Option.map_some, find_eq_result search h]
    exact hresults (i, k) (hmem.mpr hkey)

/-- **The page behind the index and all entries from the beginning** give one answer, where the
entries are in order and every page begins with the key of its cell. -/
theorem page_bind_eq_find? {α : Type*} {entries : π → List α} {key : α → κ}
    (hfirst : ∀ cell ∈ cells, (entries cell.2).head?.map key = some cell.1)
    (hsorted : (cells.flatMap fun cell => entries cell.2).Pairwise fun a b => key a < key b)
    (k : κ) :
    ((page cells k).bind fun p => (entries p).find? fun a => key a = k) =
      (cells.flatMap fun cell => entries cell.2).find? fun a => key a = k := by
  induction cells with
  | nil => rfl
  | cons cell cells ih =>
    obtain ⟨first, p⟩ := cell
    rw [List.forall_mem_cons] at hfirst
    rw [List.flatMap_cons, List.pairwise_append] at hsorted
    obtain ⟨hpage, hrest, hcross⟩ := hsorted
    have hih := ih hfirst.2 hrest
    rw [List.flatMap_cons, List.find?_append]
    obtain ⟨a, as, hentries⟩ : ∃ a as, entries p = a :: as := by
      cases h : entries p with
      | nil => rw [h] at hfirst; exact nomatch hfirst.1
      | cons a as => exact ⟨a, as, rfl⟩
    have ha : key a = first := by simpa [hentries] using hfirst.1
    have hle : ∀ b ∈ entries p, first ≤ key b := by
      rw [hentries, List.pairwise_cons] at hpage
      rw [hentries]
      exact List.forall_mem_cons.mpr ⟨ha.ge, fun b hb => ha ▸ (hpage.1 b hb).le⟩
    by_cases hk : first ≤ k
    · rw [page_cons_of_le hk, Option.bind_some]
      cases hnext : page cells k with
      | none =>
        rw [hnext, Option.bind_none] at hih
        rw [← hih, Option.or_none, Option.getD_none]
      | some p' =>
        -- the key is behind this page
        have hcell : ∃ cell ∈ cells, cell.1 ≤ k := by
          by_contra! hlt
          rw [page_of_forall_lt fun cell hcell => hlt cell (List.mem_of_mem_head? hcell)] at hnext
          exact nomatch hnext
        obtain ⟨cell, hcell, hcellLe⟩ := hcell
        have hnone : (entries p).find? (fun a => key a = k) = none := by
          obtain ⟨b, hb, hkey⟩ := Option.map_eq_some_iff.mp (hfirst.2 cell hcell)
          refine List.find?_eq_none.mpr fun c hc heq => ?_
          have hlt := hcross c hc b (List.mem_flatMap.mpr ⟨cell, hcell, List.mem_of_mem_head? hb⟩)
          rw [of_decide_eq_true heq, hkey] at hlt
          exact absurd hcellLe (not_le.mpr hlt)
        rw [hnone, Option.none_or, ← hih, hnext]
        rfl
    · have hlt := not_le.mp hk
      have hafter : ∀ b ∈ entries p ++ cells.flatMap fun cell => entries cell.2, k < key b := by
        refine List.forall_mem_append.mpr ⟨fun b hb => hlt.trans_le (hle b hb), fun b hb => ?_⟩
        exact (ha ▸ hlt).trans (hcross a (hentries ▸ List.mem_cons_self) b hb)
      rw [page_of_forall_lt fun cell hcell => Option.some.inj hcell ▸ hlt, Option.bind_none,
        ← List.find?_append, eq_comm, List.find?_eq_none]
      exact fun b hb heq => (hafter b hb).ne' (of_decide_eq_true heq)

end PagedSearch
