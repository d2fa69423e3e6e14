import Mathlib.Logic.Function.Basic
import Mathlib.Tactic.SplitIfs

/-!
# A database file and its connections

Transactions of a database that has one writer at a time. A connection begins a
transaction without a lock, takes the lock with its first write, works on a copy from
then on, and makes the copy the contents of the file by its commit. Outside a
transaction **every write is a transaction of its own**, so a connection that forgets
to begin one changes the file at every write.

That only the holder of the lock has a copy is a field (`DbFile.locked`), so two
copies of one file cannot be built. The file itself is the list of its committed
versions, each with the connection that committed it (`DbFile.history`), and what an
operation does to that list is all a proof about atomicity needs: a write within a
transaction leaves it alone (`DbFile.write_of_writing`), and a commit puts the copy
in front of it (`DbFile.commit_of_writing`).
-/

/-- Where a connection is in its transaction. -/
inductive Tx (δ : Type) where
  /-- In none. -/
  | autocommit : Tx δ
  /-- Begun, without the lock. -/
  | deferred : Tx δ
  /-- With the lock and a working copy. -/
  | writing (copy : δ) : Tx δ

/-- A database file and its connections. -/
structure DbFile (ι δ : Type) where
  /-- The contents at the start. -/
  first : δ
  /-- The versions that were committed, the latest first, and who committed them. -/
  history : List (ι × δ)
  /-- The connection that has the lock. -/
  writer : Option ι
  /-- The transactions. -/
  tx : ι → Tx δ
  locked : ∀ c copy, tx c = .writing copy → writer = some c

namespace DbFile

variable {ι δ : Type}

/-- A file nobody has written yet. -/
def initial (first : δ) : DbFile ι δ :=
  ⟨first, [], none, fun _ => .autocommit, by rintro c copy ⟨⟩⟩

/-- **What is committed**: a query outside a transaction is evaluated on it. -/
def committed (db : DbFile ι δ) : δ := (db.history.head?.map Prod.snd).getD db.first

/-- The result of an operation: it waits for the lock, fails, or is done. -/
abbrev Outcome (ι δ : Type) := Option (Except String (DbFile ι δ))

variable [DecidableEq ι]

/-- The transaction of a connection that has no copy after it. -/
def release (db : DbFile ι δ) (c : ι) (tx : Tx δ) (htx : ∀ copy, tx ≠ .writing copy) :
    DbFile ι δ where
  first := db.first
  history := db.history
  writer := if db.writer = some c then none else db.writer
  tx := Function.update db.tx c tx
  locked := by
    intro c' copy h
    by_cases hc : c' = c
    · subst hc
      rw [Function.update_self] at h
      exact absurd h (htx copy)
    · rw [Function.update_of_ne hc] at h
      have hwriter := db.locked c' copy h
      rw [if_neg (by rw [hwriter]; exact fun heq => hc (Option.some.inj heq)), hwriter]

/-- The connection that has the lock, or takes it while it is free, changes its copy. -/
def stage (db : DbFile ι δ) (c : ι) (copy : δ) (hfree : ∀ c', db.writer = some c' → c' = c) :
    DbFile ι δ where
  first := db.first
  history := db.history
  writer := some c
  tx := Function.update db.tx c (.writing copy)
  locked := by
    intro c' copy' h
    by_cases hc : c' = c
    · rw [hc]
    · rw [Function.update_of_ne hc] at h
      exact absurd (hfree c' (db.locked c' copy' h)) hc

/-- A version is put in front of the others. -/
def push (db : DbFile ι δ) (c : ι) (contents : δ) : DbFile ι δ :=
  { db with history := (c, contents) :: db.history }

/-- `BEGIN`. -/
def begin (db : DbFile ι δ) (c : ι) : Outcome ι δ :=
  match db.tx c with
  | .autocommit => some (.ok (db.release c .deferred (by rintro copy ⟨⟩)))
  | _ => some (.error "cannot start a transaction within a transaction")

/-- A statement that writes. -/
def write (db : DbFile ι δ) (c : ι) (statement : δ → Except String δ) : Outcome ι δ :=
  match h : db.tx c with
  | .writing copy =>
    some ((statement copy).map fun copy' => db.stage c copy' fun c' hc' =>
      Option.some.inj (hc'.symm.trans (db.locked c copy h)))
  | .deferred =>
    if hfree : db.writer = none then
      some ((statement db.committed).map fun copy' => db.stage c copy' fun c' hc' =>
        absurd (hfree.symm.trans hc') (by simp))
    else none
  | .autocommit =>
    -- the statement is begun and committed by itself
    if db.writer = none then some ((statement db.committed).map (db.push c)) else none

/-- A connection is closed: what it has not committed is lost. -/
def close (db : DbFile ι δ) (c : ι) : DbFile ι δ :=
  db.release c .autocommit (by rintro copy ⟨⟩)

/-- `COMMIT`. -/
def commit (db : DbFile ι δ) (c : ι) : Outcome ι δ :=
  match db.tx c with
  | .writing copy => some (.ok ((db.push c copy).close c))
  | .deferred => some (.ok (db.close c))
  | .autocommit => some (.error "cannot commit - no transaction is active")

/-! ### What the operations do -/

/-- An operation of a connection that leaves the file alone, up to its transaction. -/
structure Kept (db db' : DbFile ι δ) (c : ι) (tx : Tx δ) : Prop where
  first : db'.first = db.first
  history : db'.history = db.history
  self : db'.tx c = tx
  others : ∀ c', c' ≠ c → db'.tx c' = db.tx c'

variable {db db' : DbFile ι δ} {c : ι} {copy : δ} {statement : δ → Except String δ}
  {result : Except String (DbFile ι δ)}

omit [DecidableEq ι] in
/-- Who changes nothing of the file changes nothing of what is committed. -/
theorem Kept.committed {tx : Tx δ} (h : Kept db db' c tx) : db'.committed = db.committed := by
  rw [DbFile.committed, DbFile.committed, h.first, h.history]

omit [DecidableEq ι] in
theorem Kept.refl (db : DbFile ι δ) (c : ι) : Kept db db c (db.tx c) :=
  ⟨rfl, rfl, rfl, fun _ _ => rfl⟩

theorem kept_release {tx : Tx δ} (htx : ∀ copy, tx ≠ .writing copy) :
    Kept db (db.release c tx htx) c tx :=
  ⟨rfl, rfl, Function.update_self .., fun _ h => Function.update_of_ne h ..⟩

theorem kept_close : Kept db (db.close c) c .autocommit := kept_release _

theorem kept_stage (hfree : ∀ c', db.writer = some c' → c' = c) :
    Kept db (db.stage c copy hfree) c (.writing copy) :=
  ⟨rfl, rfl, Function.update_self .., fun _ h => Function.update_of_ne h ..⟩

/-- **A transaction begins** without a change to the file. -/
theorem begin_of_autocommit (h : db.tx c = .autocommit) :
    ∃ db', db.begin c = some (.ok db') ∧ Kept db db' c .deferred :=
  ⟨_, by rw [begin, h], kept_release _⟩

/-- **A write within a transaction leaves the file alone** and changes the copy. -/
theorem write_of_writing (htx : db.tx c = .writing copy)
    (h : db.write c statement = some (.ok db')) :
    ∃ copy', statement copy = .ok copy' ∧ Kept db db' c (.writing copy') := by
  unfold write at h
  split at h
  · next copy₀ htx₀ =>
    obtain rfl : copy₀ = copy := Tx.writing.inj (htx₀.symm.trans htx)
    rcases hstatement : statement copy₀ with e | copy'
    · rw [hstatement] at h
      cases h
    · rw [hstatement] at h
      cases h
      exact ⟨copy', rfl, kept_stage _⟩
  · next htx₀ => rw [htx] at htx₀; cases htx₀
  · next htx₀ => rw [htx] at htx₀; cases htx₀

/-- **The first write takes the lock**, and makes a copy of what is committed. -/
theorem write_of_deferred (htx : db.tx c = .deferred)
    (h : db.write c statement = some (.ok db')) :
    db.writer = none ∧
      ∃ copy', statement db.committed = .ok copy' ∧ Kept db db' c (.writing copy') := by
  unfold write at h
  split at h
  · next copy₀ htx₀ => rw [htx] at htx₀; cases htx₀
  · split_ifs at h with hfree
    rcases hstatement : statement db.committed with e | copy'
    · rw [hstatement] at h
      cases h
    · rw [hstatement] at h
      cases h
      exact ⟨hfree, copy', rfl, kept_stage _⟩
  · next htx₀ => rw [htx] at htx₀; cases htx₀

/-- **A commit puts the copy in front** of the versions of the file. -/
theorem commit_of_writing (htx : db.tx c = .writing copy) :
    ∃ db', db.commit c = some (.ok db') ∧ db'.first = db.first ∧
      db'.history = (c, copy) :: db.history ∧ db'.tx c = .autocommit ∧
      ∀ c', c' ≠ c → db'.tx c' = db.tx c' :=
  ⟨(db.push c copy).close c, by rw [commit, htx], rfl, rfl, Function.update_self ..,
    fun _ h => Function.update_of_ne h ..⟩

end DbFile
