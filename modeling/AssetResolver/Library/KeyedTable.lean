import Mathlib.Data.List.Find
import Mathlib.Data.List.Induction
import Mathlib.Data.List.Nodup
import Mathlib.Data.List.Pairwise

/-!
# Tables with two unique keys

A table whose rows carry two keys, each of them unique: `KeyedTable` has that as a
field, so a row is found by either key. Writing a row **replaces** every row that has
one of its two keys (`KeyedTable.insertOrReplace`). That may be two rows at once,
each of which is also lost under the key it did not share. What a write removes is
therefore said by conflict (`KeyedTable.mem_insertOrReplace`), and what a list of rows
leaves by the conflicts behind each of them (`KeyedTable.mem_ofList`).

A table within another such table loses nothing to a row of the latter
(`KeyedTable.mem_insertOrReplace_of_subset`).
-/

variable {ρ κ₁ κ₂ : Type}

/-- Two rows that have a key in common. -/
def Conflict (key₁ : ρ → κ₁) (key₂ : ρ → κ₂) (r r' : ρ) : Prop :=
  key₁ r = key₁ r' ∨ key₂ r = key₂ r'

/-- A table in which no two rows have a key in common. -/
@[ext] structure KeyedTable (key₁ : ρ → κ₁) (key₂ : ρ → κ₂) where
  /-- The rows. -/
  rows : List ρ
  unique : rows.Pairwise fun r r' => ¬Conflict key₁ key₂ r r'

namespace KeyedTable

variable {key₁ : ρ → κ₁} {key₂ : ρ → κ₂} {r r' row : ρ}

theorem conflict_comm : Conflict key₁ key₂ r r' ↔ Conflict key₁ key₂ r' r :=
  ⟨fun h => h.imp Eq.symm Eq.symm, fun h => h.imp Eq.symm Eq.symm⟩

instance : Std.Symm fun r r' => ¬Conflict key₁ key₂ r r' where
  symm _ _ h h' := h (conflict_comm.mp h')

/-- **Rows of one table that have a key in common are one row.** -/
theorem eq_of_conflict (t : KeyedTable key₁ key₂) (hr : r ∈ t.rows) (hr' : r' ∈ t.rows)
    (h : Conflict key₁ key₂ r r') : r = r' := by
  by_contra hne
  exact t.unique.forall hr hr' hne h

/-- A table without rows. -/
def empty : KeyedTable key₁ key₂ := ⟨[], .nil⟩

variable [DecidableEq κ₁] [DecidableEq κ₂] {k₁ : κ₁} {k₂ : κ₂}

instance : Decidable (Conflict key₁ key₂ r r') := inferInstanceAs (Decidable (_ ∨ _))

/-! ### Reading -/

/-- Finding an element by a key that tells the elements apart. -/
theorem find?_eq_some_iff_mem {κ : Type} [DecidableEq κ] {key : ρ → κ} {l : List ρ}
    (hkey : ∀ a ∈ l, ∀ b ∈ l, key a = key b → a = b) {k : κ} :
    l.find? (key · = k) = some r ↔ r ∈ l ∧ key r = k := by
  constructor
  · intro h
    exact ⟨List.mem_of_find?_eq_some h, by simpa using List.find?_some h⟩
  · rintro ⟨hmem, rfl⟩
    cases hfind : l.find? (key · = key r) with
    | none => simpa using List.find?_eq_none.mp hfind r hmem
    | some b =>
      have hb : key b = key r := by simpa using List.find?_some hfind
      rw [hkey b (List.mem_of_find?_eq_some hfind) r hmem hb]

/-- Where no two elements have one key, their order does not matter. -/
theorem find?_eq_of_perm {κ : Type} [DecidableEq κ] {key : ρ → κ} {l l' : List ρ}
    (hperm : l.Perm l') (hnodup : (l.map key).Nodup) (k : κ) :
    (l.find? fun a => key a = k) = l'.find? fun a => key a = k := by
  have hkey := List.inj_on_of_nodup_map hnodup
  refine Option.ext fun r => ?_
  rw [find?_eq_some_iff_mem fun _ ha _ hb h => hkey ha hb h,
    find?_eq_some_iff_mem fun _ ha _ hb h => hkey (hperm.mem_iff.mpr ha) (hperm.mem_iff.mpr hb) h,
    hperm.mem_iff]

/-- The row of a first key. -/
def find₁ (t : KeyedTable key₁ key₂) (k : κ₁) : Option ρ := t.rows.find? fun r => key₁ r = k

/-- The row of a second key. -/
def find₂ (t : KeyedTable key₁ key₂) (k : κ₂) : Option ρ := t.rows.find? fun r => key₂ r = k

omit [DecidableEq κ₂] in
@[simp] theorem find₁_eq_some_iff {t : KeyedTable key₁ key₂} :
    t.find₁ k₁ = some r ↔ r ∈ t.rows ∧ key₁ r = k₁ :=
  find?_eq_some_iff_mem fun _ ha _ hb hkey => t.eq_of_conflict ha hb (Or.inl hkey)

omit [DecidableEq κ₁] in
@[simp] theorem find₂_eq_some_iff {t : KeyedTable key₁ key₂} :
    t.find₂ k₂ = some r ↔ r ∈ t.rows ∧ key₂ r = k₂ :=
  find?_eq_some_iff_mem fun _ ha _ hb hkey => t.eq_of_conflict ha hb (Or.inr hkey)

omit [DecidableEq κ₂] in
@[simp] theorem find₁_eq_none_iff {t : KeyedTable key₁ key₂} :
    t.find₁ k₁ = none ↔ ∀ r ∈ t.rows, key₁ r ≠ k₁ := by
  simp [find₁]

omit [DecidableEq κ₁] in
@[simp] theorem find₂_eq_none_iff {t : KeyedTable key₁ key₂} :
    t.find₂ k₂ = none ↔ ∀ r ∈ t.rows, key₂ r ≠ k₂ := by
  simp [find₂]

/-! ### Writing -/

/-- `INSERT OR REPLACE`: the rows that have a key of the new one go. -/
def insertOrReplace (t : KeyedTable key₁ key₂) (row : ρ) : KeyedTable key₁ key₂ where
  rows := (t.rows.filter fun r => ¬Conflict key₁ key₂ r row) ++ [row]
  unique := by
    refine List.pairwise_append.mpr ⟨t.unique.filter _, List.pairwise_singleton _ _, ?_⟩
    intro r hr r' hr'
    rw [List.mem_singleton.mp hr']
    simpa using (List.mem_filter.mp hr).2

/-- **What a write leaves.** -/
@[simp] theorem mem_insertOrReplace {t : KeyedTable key₁ key₂} :
    r ∈ (t.insertOrReplace row).rows ↔ r = row ∨ r ∈ t.rows ∧ ¬Conflict key₁ key₂ r row := by
  simp [insertOrReplace, or_comm]

/-- **A write within a table removes nothing.** -/
theorem mem_insertOrReplace_of_subset {t u : KeyedTable key₁ key₂} (htu : t.rows ⊆ u.rows)
    (hrow : row ∈ u.rows) : r ∈ (t.insertOrReplace row).rows ↔ r = row ∨ r ∈ t.rows := by
  rw [mem_insertOrReplace]
  constructor
  · exact Or.imp_right And.left
  · rintro (rfl | hr)
    · exact Or.inl rfl
    · by_cases h : Conflict key₁ key₂ r row
      · exact Or.inl (u.eq_of_conflict (htu hr) hrow h)
      · exact Or.inr ⟨hr, h⟩

/-! ### Writing a list of rows -/

/-- The table that the rows of a list leave, written one after the other. -/
def ofList (l : List ρ) : KeyedTable key₁ key₂ := l.foldl insertOrReplace empty

/-- The row occurs in the list, and no later one has a key in common with it. -/
def LastWritten (key₁ : ρ → κ₁) (key₂ : ρ → κ₂) (l : List ρ) (r : ρ) : Prop :=
  ∃ front back, l = front ++ r :: back ∧ ∀ r' ∈ back, ¬Conflict key₁ key₂ r r'

omit [DecidableEq κ₁] [DecidableEq κ₂] in
theorem not_lastWritten_nil : ¬LastWritten key₁ key₂ [] r := by
  rintro ⟨front, back, h, -⟩
  simp at h

omit [DecidableEq κ₁] [DecidableEq κ₂] in
/-- What a row at the end changes: it stands, and the rows it conflicts with do not. -/
theorem lastWritten_concat {l : List ρ} :
    LastWritten key₁ key₂ (l ++ [row]) r ↔
      r = row ∨ LastWritten key₁ key₂ l r ∧ ¬Conflict key₁ key₂ r row := by
  constructor
  · rintro ⟨front, back, h, hback⟩
    rcases List.eq_nil_or_concat back with rfl | ⟨back, r', rfl⟩
    · obtain ⟨-, h⟩ := List.append_inj' h rfl
      exact Or.inl (List.singleton_inj.mp h).symm
    · rw [List.concat_eq_append, ← List.cons_append, ← List.append_assoc] at h
      obtain ⟨hl, hrow⟩ := List.append_inj' h rfl
      rw [List.singleton_inj.mp hrow]
      exact Or.inr ⟨⟨front, back, hl, fun q hq => hback q (by simp [hq])⟩, hback r' (by simp)⟩
  · rintro (rfl | ⟨⟨front, back, rfl, hback⟩, hrow⟩)
    · exact ⟨l, [], rfl, by simp⟩
    · refine ⟨front, back ++ [row], by simp, fun r' hr' => ?_⟩
      rcases List.mem_append.mp hr' with hr' | hr'
      · exact hback r' hr'
      · rw [List.mem_singleton.mp hr']
        exact hrow

/-- **The table keeps the rows that no later one conflicts with.** A row that removed
others may be removed itself: what it removed does not come back. -/
theorem mem_ofList {l : List ρ} :
    r ∈ (ofList l : KeyedTable key₁ key₂).rows ↔ LastWritten key₁ key₂ l r := by
  induction l using List.reverseRecOn with
  | nil => simp [ofList, empty, not_lastWritten_nil]
  | append_singleton l row ih =>
    have hlast : (ofList (l ++ [row]) : KeyedTable key₁ key₂) = (ofList l).insertOrReplace row := by
      rw [ofList, List.foldl_append]
      rfl
    rw [hlast, mem_insertOrReplace, lastWritten_concat, ih]

/-! ### Two tables -/

/-- The rows of the first table, and those of the second that have no key of it. -/
def extend (t u : KeyedTable key₁ key₂) : KeyedTable key₁ key₂ where
  rows := t.rows ++ u.rows.filter fun r => ∀ r' ∈ t.rows, ¬Conflict key₁ key₂ r' r
  unique := by
    refine List.pairwise_append.mpr ⟨t.unique, u.unique.filter _, ?_⟩
    intro r hr r' hr'
    have hfresh : ∀ r ∈ t.rows, ¬Conflict key₁ key₂ r r' := by
      simpa using (List.mem_filter.mp hr').2
    exact hfresh r hr

@[simp] theorem mem_extend {t u : KeyedTable key₁ key₂} :
    r ∈ (t.extend u).rows ↔
      r ∈ t.rows ∨ r ∈ u.rows ∧ ∀ r' ∈ t.rows, ¬Conflict key₁ key₂ r' r := by
  simp [extend]

/-- **Asking the first table and then the second** is asking the rows of the first and
some of the second, as long as no row that would be found is left out. -/
theorem or_find?_filter {p q : ρ → Bool} {l l' : List ρ}
    (h : (∀ r ∈ l, ¬p r) → ∀ r ∈ l', p r → q r) :
    (l.find? p).or (l'.find? p) = (l ++ l'.filter q).find? p := by
  rw [List.find?_append]
  cases hfind : l.find? p with
  | some r => rfl
  | none =>
    have hkept := h fun r hr => List.find?_eq_none.mp hfind r hr
    rw [Option.none_or, Option.none_or, List.find?_filter]
    refine List.find?_congr fun r hr => ?_
    cases hp : p r with
    | true => simp [hkept r hr hp]
    | false => simp

end KeyedTable
