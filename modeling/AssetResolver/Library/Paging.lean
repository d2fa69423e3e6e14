import Mathlib.Algebra.Order.BigOperators.Group.List
import Mathlib.Algebra.Order.Ring.Nat

/-!
# Cutting a list into pages

Elements with sizes are put on pages of a limited size, in their order, and a new page is
begun when the next element has no room on the current one (`Paging.pagesOf`). An element that
is too large for any page gets one that is too large: **the pages keep the limit exactly if every
element does by itself** (`Paging.forall_total_le_iff`).
-/

namespace Paging

variable {α : Type*} (size : α → ℕ) (limit : ℕ)

/-- The size of a page. -/
def total (page : List α) : ℕ := (page.map size).sum

/-- The loop: the pages that are complete, and the current one with the room that it takes. -/
def cut (pages : List (List α)) (current : List α) (used : ℕ) : List α → List (List α)
  | [] => if current.isEmpty then pages else pages ++ [current]
  | a :: rest =>
    if limit < used + size a ∧ ¬current.isEmpty then cut (pages ++ [current]) [a] (size a) rest
    else cut pages (current ++ [a]) (used + size a) rest

/-- The pages of a list. -/
def pagesOf (l : List α) : List (List α) := cut size limit [] [] 0 l

variable {size limit}

theorem flatten_cut (pages : List (List α)) (current : List α) (used : ℕ) (l : List α) :
    (cut size limit pages current used l).flatten = pages.flatten ++ (current ++ l) := by
  induction l generalizing pages current used with
  | nil =>
    rw [cut]
    split_ifs with hempty
    · rw [List.isEmpty_iff.mp hempty, List.append_nil, List.append_nil]
    · simp
  | cons a rest ih =>
    rw [cut]
    split_ifs <;> rw [ih] <;> simp

variable (size limit) in
/-- **Nothing is lost, and the order is kept.** -/
theorem flatten_pagesOf (l : List α) : (pagesOf size limit l).flatten = l := by
  rw [pagesOf, flatten_cut, List.flatten_nil, List.nil_append, List.nil_append]

/-- One more page. -/
theorem forall_mem_concat {P : List α → Prop} {pages : List (List α)} {last : List α}
    (h : ∀ page ∈ pages, P page) (hlast : P last) : ∀ page ∈ pages ++ [last], P page :=
  List.forall_mem_append.mpr ⟨h, List.forall_mem_singleton.mpr hlast⟩

theorem ne_nil_of_mem_cut {pages : List (List α)} (h : ∀ page ∈ pages, page ≠ [])
    (current : List α) (used : ℕ) (l : List α) :
    ∀ page ∈ cut size limit pages current used l, page ≠ [] := by
  induction l generalizing pages current used with
  | nil =>
    rw [cut]
    split_ifs with hempty
    · exact h
    · exact forall_mem_concat h (by simpa using hempty)
  | cons a rest ih =>
    rw [cut]
    split_ifs with hfull
    · exact ih (forall_mem_concat h (by simpa using hfull.2)) _ _
    · exact ih h _ _

/-- No page is empty. -/
theorem ne_nil_of_mem_pagesOf {l : List α} {page : List α} (h : page ∈ pagesOf size limit l) :
    page ≠ [] :=
  ne_nil_of_mem_cut (fun _ hmem => absurd hmem List.not_mem_nil) _ _ _ page h

theorem pagesOf_eq_nil_iff {l : List α} : pagesOf size limit l = [] ↔ l = [] := by
  constructor
  · intro h
    rw [← flatten_pagesOf size limit l, h, List.flatten_nil]
  · rintro rfl
    rfl

variable (size limit) in
/-- There are no more pages than elements. -/
theorem length_pagesOf_le (l : List α) : (pagesOf size limit l).length ≤ l.length := by
  have hone : ∀ page ∈ pagesOf size limit l, 1 ≤ page.length := fun page hpage =>
    List.length_pos_of_ne_nil (ne_nil_of_mem_pagesOf hpage)
  conv_rhs => rw [← flatten_pagesOf size limit l, List.length_flatten]
  calc (pagesOf size limit l).length = ((pagesOf size limit l).map fun _ => 1).sum := by simp
    _ ≤ _ := List.sum_le_sum hone

/-- Pages that keep the limit are followed by such pages. -/
theorem total_le_of_mem_cut {pages : List (List α)}
    (hpages : ∀ page ∈ pages, total size page ≤ limit) {current : List α}
    (hcurrent : total size current ≤ limit) {l : List α} (hl : ∀ a ∈ l, size a ≤ limit) :
    ∀ page ∈ cut size limit pages current (total size current) l, total size page ≤ limit := by
  induction l generalizing pages current with
  | nil =>
    rw [cut]
    split_ifs
    · exact hpages
    · exact forall_mem_concat hpages hcurrent
  | cons a rest ih =>
    rw [List.forall_mem_cons] at hl
    have hsingle : total size [a] = size a := by simp [total]
    have hconcat : total size (current ++ [a]) = total size current + size a := by simp [total]
    rw [cut]
    split_ifs with hfull
    · have hrest := ih (forall_mem_concat hpages hcurrent) (hsingle ▸ hl.1) hl.2
      rwa [hsingle] at hrest
    · -- there is room, or the page was empty
      have hroom : total size (current ++ [a]) ≤ limit := by
        rw [hconcat]
        by_cases hempty : current.isEmpty
        · rw [List.isEmpty_iff.mp hempty]
          simpa [total] using hl.1
        · exact Nat.not_lt.mp fun hlt => hfull ⟨hlt, hempty⟩
      rw [← hconcat]
      exact ih hpages hroom hl.2

variable (size limit) in
/-- **The pages keep the limit exactly if every element does by itself.** -/
theorem forall_total_le_iff {l : List α} :
    (∀ page ∈ pagesOf size limit l, total size page ≤ limit) ↔ ∀ a ∈ l, size a ≤ limit := by
  constructor
  · intro h a ha
    rw [← flatten_pagesOf size limit l] at ha
    obtain ⟨page, hpage, hmem⟩ := List.mem_flatten.mp ha
    exact (List.le_sum_of_mem (List.mem_map_of_mem (f := size) hmem)).trans (h page hpage)
  · intro h
    exact total_le_of_mem_cut (fun _ hmem => absurd hmem List.not_mem_nil) (Nat.zero_le _) h

end Paging
