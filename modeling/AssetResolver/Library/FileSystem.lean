import Mathlib.Data.List.Basic
import Mathlib.Logic.Function.Basic
import Mathlib.Tactic.SplitIfs

/-!
# Files that are open while they are renamed

A file system in which a process that has a file open writes to **the file**, and not to
the place where it found it: names lead to files, a rename changes where the names lead,
and a write changes the contents of a file wherever it is by then. A place is the list of
names that lead to it from the root.

Every file has one place (`FileSystem.one_place`, a field), so a write through an open
file is seen at one place. What an operation does is said by two lemmas: what it leads
to at the places it is about, and that **every other place is as it was**
(`FileSystem.Keeps`), contents included. Nothing else about the operations is needed to
follow a file through a run.
-/

/-- What a place leads to. -/
inductive Node where
  /-- A directory. -/
  | dir : Node
  /-- A file. -/
  | file (inode : ℕ) : Node
  deriving DecidableEq

/-- What is seen at a place. -/
inductive Entry where
  /-- A directory. -/
  | dir : Entry
  /-- A file, with its contents. -/
  | file (contents : List UInt8) : Entry
  deriving DecidableEq

/-- The places and the files, for names in `ν`. -/
structure FileSystem (ν : Type) where
  /-- Where the places lead. -/
  node : List ν → Option Node
  /-- The contents of the files. -/
  data : ℕ → List UInt8
  /-- A file that is not there yet. -/
  next : ℕ
  one_place : ∀ p q i, node p = some (.file i) → node q = some (.file i) → p = q
  fresh : ∀ p i, node p = some (.file i) → i < next

/-- A write of a piece at a position; a gap before it is filled with zeros. -/
def overwrite (contents : List UInt8) (position : ℕ) (piece : List UInt8) : List UInt8 :=
  contents.take position ++ List.replicate (position - contents.length) 0 ++ piece ++
    contents.drop (position + piece.length)

/-- **Writing on at the end of what was written** lengthens it. -/
theorem overwrite_take (data : List UInt8) (written k : ℕ) (h : written ≤ data.length) :
    overwrite (data.take written) written ((data.drop written).take k) =
      data.take (written + k) := by
  have hlen : (data.take written).length = written := by
    rw [List.length_take, Nat.min_eq_left h]
  have hgap : written - (data.take written).length = 0 := by rw [hlen, Nat.sub_self]
  have hrest : (data.take written).drop (written + ((data.drop written).take k).length) = [] :=
    List.drop_eq_nil_of_le (by rw [hlen]; exact Nat.le_add_right _ _)
  rw [overwrite, hgap, hrest, List.take_of_length_le (Nat.le_of_eq hlen), List.take_add]
  simp

namespace FileSystem

variable {ν : Type}

/-- What is seen at a place. -/
def look (fs : FileSystem ν) (p : List ν) : Option Entry :=
  (fs.node p).map fun
    | .dir => .dir
    | .file i => .file (fs.data i)

theorem look_of_file {fs : FileSystem ν} {p : List ν} {i : ℕ} (h : fs.node p = some (.file i)) :
    fs.look p = some (.file (fs.data i)) := by
  rw [look, h]
  rfl

/-- A file that is seen is there. -/
theorem exists_of_look {fs : FileSystem ν} {p : List ν} {contents : List UInt8}
    (h : fs.look p = some (.file contents)) : ∃ i, fs.node p = some (.file i) ∧
      fs.data i = contents := by
  obtain ⟨node, hnode, hentry⟩ := Option.map_eq_some_iff.mp h
  cases node with
  | dir => cases hentry
  | file i => exact ⟨i, hnode, Entry.file.inj hentry⟩

/-- A write to an open file. -/
def writeAt (fs : FileSystem ν) (i position : ℕ) (piece : List UInt8) : FileSystem ν :=
  { fs with data := Function.update fs.data i (overwrite (fs.data i) position piece) }

/-- A file loses its contents. -/
def truncate (fs : FileSystem ν) (i : ℕ) : FileSystem ν :=
  { fs with data := Function.update fs.data i [] }

/-- A new, empty file, which no place leads to yet. -/
def allocate (fs : FileSystem ν) : FileSystem ν where
  node := fs.node
  data := Function.update fs.data fs.next []
  next := fs.next + 1
  one_place := fs.one_place
  fresh := fun p i h => Nat.lt_succ_of_lt (fs.fresh p i h)

variable [DecidableEq ν]

/-- A place leads nowhere any more. -/
def remove (fs : FileSystem ν) (p : List ν) : FileSystem ν where
  node := Function.update fs.node p none
  data := fs.data
  next := fs.next
  one_place := by
    intro q r i hq hr
    by_cases hqp : q = p
    · rw [hqp, Function.update_self] at hq
      cases hq
    · by_cases hrp : r = p
      · rw [hrp, Function.update_self] at hr
        cases hr
      · rw [Function.update_of_ne hqp] at hq
        rw [Function.update_of_ne hrp] at hr
        exact fs.one_place q r i hq hr
  fresh := by
    intro q i hq
    by_cases hqp : q = p
    · rw [hqp, Function.update_self] at hq
      cases hq
    · rw [Function.update_of_ne hqp] at hq
      exact fs.fresh q i hq

theorem node_remove_self (fs : FileSystem ν) (p : List ν) : (fs.remove p).node p = none :=
  Function.update_self _ _ _

theorem node_remove_of_ne (fs : FileSystem ν) {p q : List ν} (h : q ≠ p) :
    (fs.remove p).node q = fs.node q :=
  Function.update_of_ne h _ _

/-- A place leads to something that no other place leads to. -/
def put (fs : FileSystem ν) (p : List ν) (n : Node)
    (hfree : ∀ q i, n = .file i → fs.node q ≠ some n)
    (hfresh : ∀ i, n = .file i → i < fs.next) : FileSystem ν where
  node := Function.update fs.node p (some n)
  data := fs.data
  next := fs.next
  one_place := by
    intro q r i hq hr
    by_cases hqp : q = p
    · by_cases hrp : r = p
      · rw [hqp, hrp]
      · rw [hqp, Function.update_self] at hq
        rw [Function.update_of_ne hrp] at hr
        obtain rfl := Option.some.inj hq
        exact absurd hr (hfree r i rfl)
    · by_cases hrp : r = p
      · rw [hrp, Function.update_self] at hr
        rw [Function.update_of_ne hqp] at hq
        obtain rfl := Option.some.inj hr
        exact absurd hq (hfree q i rfl)
      · rw [Function.update_of_ne hqp] at hq
        rw [Function.update_of_ne hrp] at hr
        exact fs.one_place q r i hq hr
  fresh := by
    intro q i hq
    by_cases hqp : q = p
    · rw [hqp, Function.update_self] at hq
      exact hfresh i (Option.some.inj hq)
    · rw [Function.update_of_ne hqp] at hq
      exact fs.fresh q i hq

/-! ### The operations -/

/-- What keeps an operation from making something at a place: its directory. -/
def parentError (fs : FileSystem ν) (p : List ν) : Option String :=
  match fs.node p.dropLast with
  | some .dir => none
  | some (.file _) => some "Not a directory (os error 20)"
  | none => some "No such file or directory (os error 2)"

omit [DecidableEq ν] in
/-- A directory keeps nothing from being made in it. -/
theorem parentError_eq_none {fs : FileSystem ν} {p : List ν}
    (h : fs.node p.dropLast = some .dir) : fs.parentError p = none := by
  rw [parentError, h]

/-- `mkdir`. -/
def makeDir (fs : FileSystem ν) (p : List ν) : Except String (FileSystem ν) :=
  match fs.node p, fs.parentError p with
  | some _, _ => .error "File exists (os error 17)"
  | none, some e => .error e
  | none, none => .ok (fs.put p .dir (by rintro q i ⟨⟩) (by rintro i ⟨⟩))

/-- Opening a file to write it anew: a file that is there is emptied. -/
def create (fs : FileSystem ν) (p : List ν) : Except String (FileSystem ν × ℕ) :=
  match fs.node p, fs.parentError p with
  | some (.file i), _ => .ok (fs.truncate i, i)
  | some .dir, _ => .error "Is a directory (os error 21)"
  | none, some e => .error e
  | none, none =>
    .ok (fs.allocate.put p (.file fs.next)
      (fun q _ _ hq => Nat.lt_irrefl _ (fs.fresh q fs.next hq))
      (fun _ hi => Node.file.inj hi ▸ Nat.lt_succ_self _), fs.next)

/-- `unlink`. -/
def removeFile (fs : FileSystem ν) (p : List ν) : Except String (FileSystem ν) :=
  match fs.node p with
  | some (.file _) => .ok (fs.remove p)
  | some .dir => .error "Is a directory (os error 21)"
  | none => .error "No such file or directory (os error 2)"

/-- A file moves to another place. -/
def move (fs : FileSystem ν) (p q : List ν) (i : ℕ) (h : fs.node p = some (.file i)) :
    FileSystem ν :=
  (fs.remove p).put q (.file i)
    (fun r j _ hr => by
      by_cases hrp : r = p
      · rw [hrp, node_remove_self] at hr
        cases hr
      · rw [node_remove_of_ne fs hrp] at hr
        exact hrp (fs.one_place r p i hr h))
    (fun _ hj => Node.file.inj hj ▸ fs.fresh p i h)

/-- `rename`, of a file. -/
def rename (fs : FileSystem ν) (p q : List ν) : Except String (FileSystem ν) :=
  match h : fs.node p with
  | some (.file i) =>
    if fs.node q = some .dir then .error "Is a directory (os error 21)"
    else
      match fs.parentError q with
      | some e => .error e
      | none => .ok (fs.move p q i h)
  | _ => .error "No such file or directory (os error 2)"

/-! ### What the operations leave alone -/

/-- A place is as it was: it leads to the same, with the same contents. -/
structure Keeps (fs fs' : FileSystem ν) (p : List ν) : Prop where
  node : fs'.node p = fs.node p
  data : ∀ i, fs.node p = some (.file i) → fs'.data i = fs.data i

variable {fs fs' : FileSystem ν} {p q r : List ν} {i : ℕ}

omit [DecidableEq ν] in
theorem Keeps.look (h : Keeps fs fs' p) : fs'.look p = fs.look p := by
  rw [FileSystem.look, FileSystem.look, h.node]
  cases hn : fs.node p with
  | none => rfl
  | some n =>
    cases n with
    | dir => rfl
    | file i => exact congrArg (fun d => some (Entry.file d)) (h.data i hn)

omit [DecidableEq ν] in
theorem Keeps.refl (fs : FileSystem ν) (p : List ν) : Keeps fs fs p := ⟨rfl, fun _ _ => rfl⟩

omit [DecidableEq ν] in
/-- **A write is seen at the place of its file only.** -/
theorem keeps_writeAt {position : ℕ} {piece : List UInt8} (h : fs.node p ≠ some (.file i)) :
    Keeps fs (fs.writeAt i position piece) p := by
  refine ⟨rfl, fun j hj => ?_⟩
  have hji : j ≠ i := fun hji => h (hji ▸ hj)
  exact Function.update_of_ne hji _ _

theorem makeDir_eq (h : fs.makeDir p = .ok fs') :
    fs.node p = none ∧ fs'.node p = some .dir ∧ ∀ q, q ≠ p → Keeps fs fs' q := by
  unfold makeDir at h
  split at h
  · cases h
  · cases h
  · rename_i hnone _
    cases h
    refine ⟨hnone, Function.update_self _ _ _, fun q hq => ⟨Function.update_of_ne hq _ _, ?_⟩⟩
    exact fun _ _ => rfl

/-- **What stands somewhere stays when a directory is made.** -/
theorem keeps_makeDir (h : fs.makeDir p = .ok fs') (hq : fs.node q ≠ none) : Keeps fs fs' q := by
  obtain ⟨hnone, -, hother⟩ := makeDir_eq h
  exact hother q fun hqp => hq (hqp ▸ hnone)

theorem create_eq (h : fs.create p = .ok (fs', i)) :
    fs'.node p = some (.file i) ∧ fs'.data i = [] ∧ ∀ q, q ≠ p → Keeps fs fs' q := by
  unfold create at h
  split at h
  · rename_i j _ hj
    cases h
    refine ⟨hj, Function.update_self _ _ _, fun q hq => ⟨rfl, fun k hk => ?_⟩⟩
    have hki : k ≠ i := fun hki => hq (fs.one_place q p i (hki ▸ hk) hj)
    exact Function.update_of_ne hki _ _
  · cases h
  · cases h
  · cases h
    refine ⟨Function.update_self _ _ _, Function.update_self _ _ _, fun q hq => ?_⟩
    refine ⟨Function.update_of_ne hq _ _, fun k hk => ?_⟩
    have hknext : k ≠ fs.next := Nat.ne_of_lt (fs.fresh q k hk)
    exact Function.update_of_ne hknext _ _

theorem removeFile_eq (h : fs.removeFile p = .ok fs') :
    fs'.node p = none ∧ ∀ q, q ≠ p → Keeps fs fs' q := by
  unfold removeFile at h
  split at h
  · cases h
    exact ⟨node_remove_self fs p, fun q hq => ⟨node_remove_of_ne fs hq, fun _ _ => rfl⟩⟩
  · cases h
  · cases h

/-- **A rename moves the file whole.** -/
theorem rename_eq (h : fs.rename p q = .ok fs') :
    ∃ i, fs.node p = some (.file i) ∧ fs'.node q = some (.file i) ∧ fs'.data = fs.data ∧
      (p ≠ q → fs'.node p = none) ∧ ∀ r, r ≠ p → r ≠ q → Keeps fs fs' r := by
  unfold rename at h
  split at h
  · rename_i i hi
    split_ifs at h
    split at h
    · cases h
    · cases h
      refine ⟨i, hi, Function.update_self _ _ _, rfl, fun hpq => ?_, fun r hrp hrq => ?_⟩
      · exact (Function.update_of_ne hpq _ _).trans (node_remove_self fs p)
      · exact ⟨(Function.update_of_ne hrq _ _).trans (node_remove_of_ne fs hrp), fun _ _ => rfl⟩
  · cases h

/-- **A directory stays where it is when a file is renamed.** -/
theorem dir_of_rename (h : fs.rename p q = .ok fs') (hr : fs.node r = some .dir) (hpr : r ≠ p) :
    fs'.node r = some .dir := by
  by_cases hrq : r = q
  · subst hrq
    unfold rename at h
    split at h
    · rw [if_pos hr] at h
      cases h
    · cases h
  · obtain ⟨i, -, -, -, -, hkeep⟩ := rename_eq h
    rw [(hkeep r hpr hrq).node, hr]

/-! ### What the operations do to a file that somebody reads -/

/-- A file keeps its contents, and gets no new place. -/
structure Spares (fs fs' : FileSystem ν) (i : ℕ) : Prop where
  next : fs.next ≤ fs'.next
  data : fs'.data i = fs.data i
  node : ∀ q, fs'.node q = some (.file i) → fs.node q = some (.file i)

omit [DecidableEq ν] in
theorem Spares.refl (fs : FileSystem ν) (i : ℕ) : Spares fs fs i :=
  ⟨Nat.le_refl _, rfl, fun _ h => h⟩

omit [DecidableEq ν] in
theorem spares_writeAt {j position : ℕ} {piece : List UInt8} (h : i ≠ j) :
    Spares fs (fs.writeAt j position piece) i :=
  ⟨Nat.le_refl _, Function.update_of_ne h _ _, fun _ hq => hq⟩

theorem spares_makeDir (h : fs.makeDir p = .ok fs') : Spares fs fs' i := by
  obtain ⟨-, hdir, hkeep⟩ := makeDir_eq h
  have hnode : ∀ q, fs'.node q = some (.file i) → fs.node q = some (.file i) := by
    intro q hq
    by_cases hqp : q = p
    · rw [hqp, hdir] at hq
      cases hq
    · rwa [(hkeep q hqp).node] at hq
  unfold makeDir at h
  split at h
  · cases h
  · cases h
  · cases h
    exact ⟨Nat.le_refl _, rfl, hnode⟩

/-- **Opening another file anew does nothing to a file.** -/
theorem spares_create {j : ℕ} (h : fs.create p = .ok (fs', j)) (hi : i < fs.next)
    (hp : fs.node p ≠ some (.file i)) : Spares fs fs' i := by
  obtain ⟨hfile, -, hkeep⟩ := create_eq h
  have hother : ∀ q, q ≠ p → fs'.node q = some (.file i) → fs.node q = some (.file i) := by
    intro q hqp hq
    rwa [(hkeep q hqp).node] at hq
  unfold create at h
  split at h
  · rename_i k _ hk
    cases h
    have hij : i ≠ j := fun hij => hp (hij ▸ hk)
    exact ⟨Nat.le_refl _, Function.update_of_ne hij _ _, fun _ hq => hq⟩
  · cases h
  · cases h
  · cases h
    have hij : i ≠ fs.next := Nat.ne_of_lt hi
    refine ⟨Nat.le_succ _, Function.update_of_ne hij _ _, fun q hq => ?_⟩
    by_cases hqp : q = p
    · rw [hqp, hfile] at hq
      exact absurd (Node.file.inj (Option.some.inj hq)).symm hij
    · exact hother q hqp hq

theorem spares_removeFile (h : fs.removeFile p = .ok fs') : Spares fs fs' i := by
  obtain ⟨hnone, hkeep⟩ := removeFile_eq h
  have hnode : ∀ q, fs'.node q = some (.file i) → fs.node q = some (.file i) := by
    intro q hq
    by_cases hqp : q = p
    · rw [hqp, hnone] at hq
      cases hq
    · rwa [(hkeep q hqp).node] at hq
  unfold removeFile at h
  split at h
  · cases h
    exact ⟨Nat.le_refl _, rfl, hnode⟩
  · cases h
  · cases h

/-- **Renaming another file over it takes a file away, and leaves it as it is for whoever has
it open.** -/
theorem spares_rename (h : fs.rename p q = .ok fs') (hp : fs.node p ≠ some (.file i)) :
    Spares fs fs' i := by
  obtain ⟨j, hj, hq, hdata, hgone, hkeep⟩ := rename_eq h
  have hij : i ≠ j := fun hij => hp (hij ▸ hj)
  have hnode : ∀ r, fs'.node r = some (.file i) → fs.node r = some (.file i) := by
    intro r hr
    by_cases hrq : r = q
    · rw [hrq, hq] at hr
      exact absurd (Node.file.inj (Option.some.inj hr)).symm hij
    · by_cases hrp : r = p
      · have hpq : p ≠ q := fun hpq => hrq (hrp.trans hpq)
        rw [hrp, hgone hpq] at hr
        cases hr
      · rwa [(hkeep r hrp hrq).node] at hr
  unfold rename at h
  split at h
  · split_ifs at h
    split at h
    · cases h
    · cases h
      exact ⟨Nat.le_refl _, rfl, hnode⟩
  · cases h

end FileSystem
