import AssetResolver.Library.FileSystem
import AssetResolver.Library.Runs
import AssetResolver.Path
import Mathlib.Algebra.Order.Ring.Nat
import Mathlib.Data.List.Infix
import Mathlib.Data.List.Perm.Subperm

/-!
# Writing an asset through a temporary sibling

`write_to_path` of `casc_resolver.rs`, one system call at a time: the directories on the
way, the number of the call, the temporary file, as many writes as it takes, the rename,
and the removal after a failed one. Threads of any number of processes take turns, every
system call may fail, and a process may die between any two of them.

Two facts keep a destination whole. The temporary name **ends in the number of the call
and the process** (`AssetResolver.WriteToPath.temporaryName_inj`), whatever the file name
in front of them is, so the file a call writes is no other call's; and no destination
ends in `.partial`, so what is written is at no destination. Only the rename makes it one,
after the last byte (`AssetResolver.WriteToPath.destinations_whole`). Nor is a file written
any more once it is there, so a reader that has opened it can take its time
(`AssetResolver.WriteToPath.reader_sees_one_version`).

The counter of the numbers is an `AtomicU64`, which wraps. A call takes one number at most
(`AssetResolver.WriteToPath.Numbered`), so no number is given twice as long as no process
makes more than `2 ^ 64` calls.
-/

namespace AssetResolver

namespace WriteToPath

/-! ### The temporary names -/

/-- The name of `temporary`: the file name as far as it can be shown, the process and the
number of the call in it. -/
def temporaryName (name : FileName) (pid : UInt32) (number : UInt64) : String :=
  s!".{toStringLossy name.bytes}.{pid}.{number}.partial"

/-- The end of every temporary name. -/
def partialSuffix : OsString := osString ".partial"

/-- The characters of a temporary name. -/
theorem toList_temporaryName (name : FileName) (pid : UInt32) (number : UInt64) :
    (temporaryName name pid number).toList =
      ('.' :: (toStringLossy name.bytes).toList) ++ '.' :: Nat.toDigits 10 pid.toNat ++
        '.' :: Nat.toDigits 10 number.toNat ++ ".partial".toList := by
  have hnum : ∀ n : ℕ, (toString n).toList = Nat.toDigits 10 n := fun n => Nat.toList_repr
  have hpid : (toString pid).toList = Nat.toDigits 10 pid.toNat := hnum pid.toNat
  have hnumber : (toString number).toList = Nat.toDigits 10 number.toNat := hnum number.toNat
  unfold temporaryName
  rw [String.toList_append]
  simp only [String.toList_append, hpid, hnumber]
  simp [toString]

/-- There is no dot, and no separator, in a number. -/
theorem notMem_toDigits {c : Char} (hc : ¬c.isDigit) (n : ℕ) : c ∉ Nat.toDigits 10 n :=
  fun h => hc (Nat.isDigit_of_mem_toDigits (by decide) (by decide) h)

/-- The digits of a number determine it. -/
theorem toDigits_inj {m n : ℕ} (h : Nat.toDigits 10 m = Nat.toDigits 10 n) : m = n := by
  have hread : ∀ k : ℕ, Nat.ofDigitChars 10 (Nat.toDigits 10 k) 0 = k := fun k =>
    Nat.ofDigitChars_ten_toDigits
  rw [← hread m, ← hread n, h]

/-- The last dot of a text separates what stands before it from what stands behind it. -/
theorem append_dot_inj {s t a b : List Char} (ha : '.' ∉ a) (hb : '.' ∉ b)
    (h : s ++ '.' :: a = t ++ '.' :: b) : s = t ∧ a = b := by
  rcases List.append_eq_append_iff.mp h with ⟨mid, rfl, hmid⟩ | ⟨mid, rfl, hmid⟩
  · rcases mid with - | ⟨c, mid⟩
    · exact ⟨(List.append_nil s).symm, (List.cons.inj hmid).2⟩
    · have hmem : '.' ∈ a := by
        rw [(List.cons.inj hmid).2]
        exact List.mem_append_right _ List.mem_cons_self
      exact absurd hmem ha
  · rcases mid with - | ⟨c, mid⟩
    · exact ⟨List.append_nil t, (List.cons.inj hmid).2.symm⟩
    · have hmem : '.' ∈ b := by
        rw [(List.cons.inj hmid).2]
        exact List.mem_append_right _ List.mem_cons_self
      exact absurd hmem hb

/-- **A temporary name says which call of which process it is of**, whatever dots the file
name has. -/
theorem temporaryName_inj {name name' : FileName} {pid pid' : UInt32} {n n' : UInt64}
    (h : temporaryName name pid n = temporaryName name' pid' n') : pid = pid' ∧ n = n' := by
  have hlist := congrArg String.toList h
  rw [toList_temporaryName, toList_temporaryName] at hlist
  have hfront := List.append_cancel_right hlist
  have hdot : ∀ k : ℕ, '.' ∉ Nat.toDigits 10 k := notMem_toDigits (by decide)
  obtain ⟨hfront, hnumber⟩ := append_dot_inj (hdot _) (hdot _) hfront
  obtain ⟨-, hpid⟩ := append_dot_inj (hdot _) (hdot _) hfront
  exact ⟨UInt32.toNat_inj.mp (toDigits_inj hpid), UInt64.toNat_inj.mp (toDigits_inj hnumber)⟩

/-- A string without a separator has no byte that is one. -/
theorem sep_notMem_osString {s : String} (h : '/' ∉ s.toList) : sep ∉ osString s := by
  intro hsep
  obtain ⟨c, hc, hb⟩ := List.mem_flatMap.mp hsep
  have hval : c.toNat = 47 := toNat_of_mem_utf8EncodeChar hb (by decide)
  obtain rfl : c = '/' := Char.toNat_inj.mp hval
  exact h hc

/-- A file name shows no separator. -/
theorem slash_notMem_toStringLossy (name : FileName) : '/' ∉ (toStringLossy name.bytes).toList := by
  intro h
  rw [toStringLossy, String.toList_ofList] at h
  exact name.sep_notMem (mem_of_mem_decodeLossy (by decide) (by decide) h)

theorem slash_notMem_temporaryName (name : FileName) (pid : UInt32) (n : UInt64) :
    '/' ∉ (temporaryName name pid n).toList := by
  have hnum : ∀ k : ℕ, '/' ∉ Nat.toDigits 10 k := notMem_toDigits (by decide)
  rw [toList_temporaryName]
  simp [hnum, slash_notMem_toStringLossy]

/-- A temporary name ends in `.partial`. -/
theorem partialSuffix_suffix_temporaryName (name : FileName) (pid : UInt32) (n : UInt64) :
    partialSuffix <:+ osString (temporaryName name pid n) := by
  have hchars : ".partial".toList <:+ (temporaryName name pid n).toList := by
    rw [toList_temporaryName]
    exact List.suffix_append _ _
  obtain ⟨front, hfront⟩ := hchars
  exact ⟨front.flatMap String.utf8EncodeChar, by
    rw [osString, ← hfront, List.flatMap_append]
    rfl⟩

/-- A name that ends in `.partial` is longer than the dots that are no file names. -/
theorem lt_length_of_partialSuffix {bytes : OsString} (h : partialSuffix <:+ bytes) :
    2 < bytes.length :=
  Nat.lt_of_lt_of_le (by decide) h.length_le

/-- **A temporary name is one file name.** -/
def temporaryFile (name : FileName) (pid : UInt32) (number : UInt64) : FileName where
  bytes := osString (temporaryName name pid number)
  ne_nil := by
    intro h
    have hlen := lt_length_of_partialSuffix (partialSuffix_suffix_temporaryName name pid number)
    rw [h] at hlen
    exact absurd hlen (by decide)
  sep_notMem := sep_notMem_osString (slash_notMem_temporaryName name pid number)
  ne_dot := by
    intro h
    have hlen := lt_length_of_partialSuffix (partialSuffix_suffix_temporaryName name pid number)
    rw [h] at hlen
    exact absurd hlen (by decide)
  ne_dotdot := by
    intro h
    have hlen := lt_length_of_partialSuffix (partialSuffix_suffix_temporaryName name pid number)
    rw [h] at hlen
    exact absurd hlen (by decide)

theorem bytes_temporaryFile (name : FileName) (pid : UInt32) (number : UInt64) :
    (temporaryFile name pid number).bytes = osString (temporaryName name pid number) := by
  dsimp only [temporaryFile]

theorem temporaryFile_inj {name name' : FileName} {pid pid' : UInt32} {n n' : UInt64}
    (h : temporaryFile name pid n = temporaryFile name' pid' n') : pid = pid' ∧ n = n' := by
  have hbytes : (temporaryFile name pid n).bytes = (temporaryFile name' pid' n').bytes := by
    rw [h]
  rw [bytes_temporaryFile, bytes_temporaryFile] at hbytes
  exact temporaryName_inj (osString_injective hbytes)

/-! ### Places -/

/-- A process, as the file system sees it. Where a directory path leads to is fixed while the
calls are made: nobody else moves directories. -/
structure Process where
  /-- `std::process::id()`. -/
  pid : UInt32
  /-- The place a directory path leads to, from the working directory and through links. -/
  resolve : PathBuf → List FileName

/-- The place of a file path: its last name, in the directory its parent leads to. -/
def Process.place (process : Process) (path : PathBuf) : Option (List FileName) :=
  path.parent.bind fun parent =>
    path.fileName.map fun name => process.resolve parent ++ [name]

/-- The places where `create_dir_all` on the parent of a path may make directories. -/
def Process.directories (process : Process) (path : PathBuf) : List (List FileName) :=
  match path.parent with
  | none => []
  | some parent => parent.prefixes.map process.resolve

/-! ### The machine -/

/-- A call that has found the parent of its path. -/
structure Call where
  /-- `out_path`. -/
  outPath : PathBuf
  /-- `data`. -/
  data : List UInt8
  /-- `parent`. -/
  parent : PathBuf
  parent_eq : outPath.parent = some parent

/-- A call that has found the file name as well. -/
structure Job extends Call where
  /-- `name`. -/
  name : FileName
  name_eq : outPath.fileName = some name

/-- The path of the temporary file of a call. -/
def Job.temporary (job : Job) (pid : UInt32) (number : UInt64) : PathBuf :=
  job.parent.join (.ofStr (temporaryName job.name pid number))

/-- Where its temporary file is. -/
def Job.temporaryPlace (job : Job) (process : Process) (number : UInt64) : List FileName :=
  process.resolve job.parent ++ [temporaryFile job.name process.pid number]

/-- Where its destination is. -/
def Job.destination (job : Job) (process : Process) : List FileName :=
  process.resolve job.parent ++ [job.name]

/-- Where a thread is in `write_to_path`. -/
inductive Pc where
  /-- In no call. -/
  | idle : Pc
  /-- In `create_dir_all`, before the directories that are left. -/
  | making (call : Call) (dirs : List PathBuf) : Pc
  /-- Before `fetch_add`. -/
  | numbering (job : Job) : Pc
  /-- Before the temporary file is opened. -/
  | opening (job : Job) (number : UInt64) : Pc
  /-- In `write_all` on the open temporary file. -/
  | writing (job : Job) (number : UInt64) (inode written : ℕ) : Pc
  /-- Before the rename. -/
  | replacing (job : Job) (number : UInt64) : Pc
  /-- Before `remove_file`, the rename having failed. -/
  | removing (job : Job) (number : UInt64) (error : String) : Pc
  /-- Returned. -/
  | done (result : Except String Unit) : Pc
  /-- Dead with its process. -/
  | crashed : Pc

variable {ι τ : Type}

/-- The file system, the counters and the threads: thread `(i, t)` is thread `t` of process
`i`. -/
structure State (ι τ : Type) where
  /-- The file system. -/
  fs : FileSystem FileName
  /-- `NEXT_TEMPORARY` of each process. -/
  nextTemporary : ι → UInt64
  /-- Where the threads are. -/
  pc : ι × τ → Pc

/-- Any file system, and no call yet. -/
def State.initial (fs : FileSystem FileName) : State ι τ where
  fs := fs
  nextTemporary := fun _ => 0
  pc := fun _ => .idle

/-- What happens next, and to whom. -/
inductive Event (ι τ : Type) where
  /-- A thread calls `write_to_path`. -/
  | call (t : ι × τ) (outPath : PathBuf) (data : List UInt8) : Event ι τ
  /-- A thread does its next statement. -/
  | step (t : ι × τ) : Event ι τ
  /-- A thread writes the next bytes, as many as the system takes. -/
  | write (t : ι × τ) (count : ℕ) : Event ι τ
  /-- The next system call of a thread fails, for a reason of its own. -/
  | fail (t : ι × τ) (error : String) : Event ι τ
  /-- A process dies. -/
  | crash (i : ι) : Event ι τ

section Machine

variable [DecidableEq ι] [DecidableEq τ]

namespace State

/-- A thread goes on. -/
def goto (s : State ι τ) (t : ι × τ) (pc : Pc) : State ι τ :=
  { s with pc := Function.update s.pc t pc }

/-- A thread goes on, having changed the file system. -/
def change (s : State ι τ) (t : ι × τ) (fs : FileSystem FileName) (pc : Pc) : State ι τ :=
  { s with fs := fs, pc := Function.update s.pc t pc }

end State

/-- The beginning of a call: `out_path.parent()`. -/
def begin (outPath : PathBuf) (data : List UInt8) : Pc :=
  match h : outPath.parent with
  | none => .done (.error s!"missing parent for {outPath.display}")
  | some parent => .making ⟨outPath, data, parent, h⟩ parent.prefixes

/-- After the directories: `out_path.file_name()`. -/
def findName (call : Call) : Pc :=
  match h : call.outPath.fileName with
  | none => .done (.error s!"missing file name in {call.outPath.display}")
  | some name => .numbering ⟨call, name, h⟩

/-- The text of a failed `create_dir_all`. -/
def mkdirError (call : Call) (error : String) : String :=
  s!"mkdir {call.parent.display}: {error}"

/-- The text of a failed `std::fs::write`. -/
def writeError (job : Job) (pid : UInt32) (number : UInt64) (error : String) : String :=
  s!"write {(job.temporary pid number).display}: {error}"

/-- The text of a failed rename. -/
def renameError (job : Job) (pid : UInt32) (number : UInt64) (error : String) : String :=
  s!"rename {(job.temporary pid number).display} -> {job.outPath.display}: {error}"

/-- The next statement of a thread, the system doing what the file system allows. -/
def stepThread (process : Process) (s : State ι τ) (t : ι × τ) : Option (State ι τ) :=
  match s.pc t with
  | .making call (dir :: dirs) =>
    match s.fs.makeDir (process.resolve dir) with
    | .ok fs => some (s.change t fs (.making call dirs))
    | .error e =>
      -- whatever the error of `mkdir` is, a directory that is there will do
      if s.fs.node (process.resolve dir) = some .dir then some (s.goto t (.making call dirs))
      else some (s.goto t (.done (.error (mkdirError call e))))
  | .making call [] => some (s.goto t (findName call))
  | .numbering job =>
    -- the sum wraps
    some
      { s.goto t (.opening job (s.nextTemporary t.1)) with
        nextTemporary := Function.update s.nextTemporary t.1 (s.nextTemporary t.1 + 1) }
  | .opening job number =>
    match s.fs.create (job.temporaryPlace process number) with
    | .ok (fs, inode) => some (s.change t fs (.writing job number inode 0))
    | .error e => some (s.goto t (.done (.error (writeError job process.pid number e))))
  | .writing job number _ written =>
    if written = job.data.length then some (s.goto t (.replacing job number)) else none
  | .replacing job number =>
    match s.fs.rename (job.temporaryPlace process number) (job.destination process) with
    | .ok fs => some (s.change t fs (.done (.ok ())))
    | .error e => some (s.goto t (.removing job number e))
  | .removing job number e =>
    let done : Pc := .done (.error (renameError job process.pid number e))
    match s.fs.removeFile (job.temporaryPlace process number) with
    | .ok fs => some (s.change t fs done)
    | .error _ => some (s.goto t done)
  | _ => none

/-- The next system call of a thread fails. -/
def failThread (process : Process) (s : State ι τ) (t : ι × τ) (error : String) :
    Option (State ι τ) :=
  match s.pc t with
  | .making call (dir :: _) =>
    if s.fs.node (process.resolve dir) = some .dir then none
    else some (s.goto t (.done (.error (mkdirError call error))))
  | .opening job number =>
    some (s.goto t (.done (.error (writeError job process.pid number error))))
  | .writing job number _ _ =>
    some (s.goto t (.done (.error (writeError job process.pid number error))))
  | .replacing job number => some (s.goto t (.removing job number error))
  | .removing job number e =>
    some (s.goto t (.done (.error (renameError job process.pid number e))))
  | _ => none

/-- One event. -/
def step (process : ι → Process) (s : State ι τ) : Event ι τ → Option (State ι τ)
  | .call t outPath data =>
    match s.pc t with
    | .idle => some (s.goto t (begin outPath data))
    | .done _ => some (s.goto t (begin outPath data))
    | _ => none
  | .step t => stepThread (process t.1) s t
  | .write t count =>
    match s.pc t with
    | .writing job number inode written =>
      if 0 < count ∧ written + count ≤ job.data.length then
        some (s.change t (s.fs.writeAt inode written ((job.data.drop written).take count))
          (.writing job number inode (written + count)))
      else none
    | _ => none
  | .fail t error => failThread (process t.1) s t error
  | .crash i => some { s with pc := fun t => if t.1 = i then .crashed else s.pc t }

/-- **What an event does**, one case for each statement and each way it may go. -/
inductive Transition (process : ι → Process) (s : State ι τ) : Event ι τ → State ι τ → Prop
  | call {t outPath data} (hpc : s.pc t = .idle ∨ ∃ r, s.pc t = .done r) :
      Transition process s (.call t outPath data) (s.goto t (begin outPath data))
  | makeDir {t call dir dirs fs} (hpc : s.pc t = .making call (dir :: dirs))
      (hfs : s.fs.makeDir ((process t.1).resolve dir) = .ok fs) :
      Transition process s (.step t) (s.change t fs (.making call dirs))
  | foundDir {t call dir dirs} (hpc : s.pc t = .making call (dir :: dirs)) :
      Transition process s (.step t) (s.goto t (.making call dirs))
  | makeDirFails {t call dirs e} (hpc : s.pc t = .making call dirs) :
      Transition process s (.step t) (s.goto t (.done (.error (mkdirError call e))))
  | findName {t call} (hpc : s.pc t = .making call []) :
      Transition process s (.step t) (s.goto t (findName call))
  | fetchAdd {t job} (hpc : s.pc t = .numbering job) :
      Transition process s (.step t)
        { s.goto t (.opening job (s.nextTemporary t.1)) with
          nextTemporary := Function.update s.nextTemporary t.1 (s.nextTemporary t.1 + 1) }
  | create {t job n fs inode} (hpc : s.pc t = .opening job n)
      (hfs : s.fs.create (job.temporaryPlace (process t.1) n) = .ok (fs, inode)) :
      Transition process s (.step t) (s.change t fs (.writing job n inode 0))
  | createFails {t job n e} (hpc : s.pc t = .opening job n) :
      Transition process s (.step t)
        (s.goto t (.done (.error (writeError job (process t.1).pid n e))))
  | close {t job n inode} (hpc : s.pc t = .writing job n inode job.data.length) :
      Transition process s (.step t) (s.goto t (.replacing job n))
  | rename {t job n fs} (hpc : s.pc t = .replacing job n)
      (hfs : s.fs.rename (job.temporaryPlace (process t.1) n) (job.destination (process t.1)) =
        .ok fs) :
      Transition process s (.step t) (s.change t fs (.done (.ok ())))
  | renameFails {t job n e} (hpc : s.pc t = .replacing job n) :
      Transition process s (.step t) (s.goto t (.removing job n e))
  | remove {t job n e fs} (hpc : s.pc t = .removing job n e)
      (hfs : s.fs.removeFile (job.temporaryPlace (process t.1) n) = .ok fs) :
      Transition process s (.step t)
        (s.change t fs (.done (.error (renameError job (process t.1).pid n e))))
  | removeFails {t job n e e'} (hpc : s.pc t = .removing job n e)
      (hfs : s.fs.removeFile (job.temporaryPlace (process t.1) n) = .error e') :
      Transition process s (.step t)
        (s.goto t (.done (.error (renameError job (process t.1).pid n e))))
  | write {t job n inode written count} (hpc : s.pc t = .writing job n inode written)
      (hcount : written + count ≤ job.data.length) :
      Transition process s (.write t count)
        (s.change t (s.fs.writeAt inode written ((job.data.drop written).take count))
          (.writing job n inode (written + count)))
  | failMakeDir {t call dirs e} (hpc : s.pc t = .making call dirs) :
      Transition process s (.fail t e) (s.goto t (.done (.error (mkdirError call e))))
  | failCreate {t job n e} (hpc : s.pc t = .opening job n) :
      Transition process s (.fail t e)
        (s.goto t (.done (.error (writeError job (process t.1).pid n e))))
  | failWrite {t job n inode written e} (hpc : s.pc t = .writing job n inode written) :
      Transition process s (.fail t e)
        (s.goto t (.done (.error (writeError job (process t.1).pid n e))))
  | failRename {t job n e} (hpc : s.pc t = .replacing job n) :
      Transition process s (.fail t e) (s.goto t (.removing job n e))
  | failRemove {t job n cause e} (hpc : s.pc t = .removing job n cause) :
      Transition process s (.fail t e)
        (s.goto t (.done (.error (renameError job (process t.1).pid n cause))))
  | crash {i} :
      Transition process s (.crash i)
        { s with pc := fun t => if t.1 = i then .crashed else s.pc t }

section Transition

variable {process : ι → Process} {s s' : State ι τ} {t : ι × τ}

theorem transition_of_stepThread (h : stepThread (process t.1) s t = some s') :
    Transition process s (.step t) s' := by
  unfold stepThread at h
  split at h
  · next hpc =>
    split at h
    · next hfs =>
      cases h
      exact .makeDir hpc hfs
    · split_ifs at h
      · cases h
        exact .foundDir hpc
      · cases h
        exact .makeDirFails hpc
  · next hpc =>
    cases h
    exact .findName hpc
  · next hpc =>
    cases h
    exact .fetchAdd hpc
  · next hpc =>
    split at h
    · next hfs =>
      cases h
      exact .create hpc hfs
    · cases h
      exact .createFails hpc
  · next hpc =>
    split_ifs at h with hall
    cases h
    exact .close (hall ▸ hpc)
  · next hpc =>
    split at h
    · next hfs =>
      cases h
      exact .rename hpc hfs
    · cases h
      exact .renameFails hpc
  · next hpc =>
    dsimp only at h
    split at h
    · next hfs =>
      cases h
      exact .remove hpc hfs
    · next hfs =>
      cases h
      exact .removeFails hpc hfs
  · cases h

theorem transition_of_failThread {error : String}
    (h : failThread (process t.1) s t error = some s') :
    Transition process s (.fail t error) s' := by
  unfold failThread at h
  split at h
  · next hpc =>
    split_ifs at h
    cases h
    exact .failMakeDir hpc
  · next hpc =>
    cases h
    exact .failCreate hpc
  · next hpc =>
    cases h
    exact .failWrite hpc
  · next hpc =>
    cases h
    exact .failRename hpc
  · next hpc =>
    cases h
    exact .failRemove hpc
  · cases h

theorem transition_of_step {e : Event ι τ} (h : step process s e = some s') :
    Transition process s e s' := by
  cases e with
  | call t outPath data =>
    rw [step] at h
    split at h
    · next hpc =>
      cases h
      exact .call (.inl hpc)
    · next r hpc =>
      cases h
      exact .call (.inr ⟨r, hpc⟩)
    · cases h
  | step t => exact transition_of_stepThread h
  | write t count =>
    rw [step] at h
    split at h
    · next hpc =>
      split_ifs at h with hcount
      cases h
      exact .write hpc hcount.2
    · cases h
  | fail t error => exact transition_of_failThread h
  | crash i =>
    cases h
    exact .crash

end Transition

end Machine

/-! ### What is asked of the calls, and what is written -/

/-- A place is the destination of a call. -/
def IsDestination (process : ι → Process) (es : List (Event ι τ)) (p : List FileName) : Prop :=
  ∃ t outPath data, Event.call t outPath data ∈ es ∧ (process t.1).place outPath = some p

/-- A call for a place has the data. -/
def Offered (process : ι → Process) (es : List (Event ι τ)) (p : List FileName)
    (data : List UInt8) : Prop :=
  ∃ t outPath, Event.call t outPath data ∈ es ∧ (process t.1).place outPath = some p

/-- The destinations: none has a name that ends in `.partial`, and none is a directory on the
way to one. -/
structure Admissible (process : ι → Process) (es : List (Event ι τ)) : Prop where
  not_partial : ∀ t outPath data, Event.call t outPath data ∈ es →
    ∀ name, outPath.fileName = some name → ¬partialSuffix <:+ name.bytes
  not_directory : ∀ t outPath data, Event.call t outPath data ∈ es →
    ∀ p, IsDestination process es p → p ∉ (process t.1).directories outPath

/-- The call a thread is in. -/
def Pc.request : Pc → Option (PathBuf × List UInt8)
  | .making call _ => some (call.outPath, call.data)
  | .numbering job => some (job.outPath, job.data)
  | .opening job _ => some (job.outPath, job.data)
  | .writing job _ _ _ => some (job.outPath, job.data)
  | .replacing job _ => some (job.outPath, job.data)
  | .removing job _ _ => some (job.outPath, job.data)
  | _ => none

/-- The call a thread is in, with its number, from the moment it has one. -/
def Pc.numbered : Pc → Option (Job × UInt64)
  | .opening job number => some (job, number)
  | .writing job number _ _ => some (job, number)
  | .replacing job number => some (job, number)
  | .removing job number _ => some (job, number)
  | _ => none

/-- The numbers that a call may still take. -/
def Pc.unnumbered : Pc → ℕ
  | .making _ _ => 1
  | .numbering _ => 1
  | _ => 0

/-- The temporary name a call in flight uses. -/
def State.temporaryName (process : ι → Process) (s : State ι τ) (t : ι × τ) : Option String :=
  (s.pc t).numbered.map fun (job, number) =>
    WriteToPath.temporaryName job.name (process t.1).pid number

/-- **What a thread knows of its temporary file**: while it writes, the file has the first
bytes of the data; before it renames, all of them. -/
def Pc.Sound (process : Process) (fs : FileSystem FileName) : Pc → Prop
  | .making call dirs => ∀ dir ∈ dirs, dir ∈ call.parent.prefixes
  | .writing job number inode written =>
    written ≤ job.data.length ∧ fs.node (job.temporaryPlace process number) = some (.file inode) ∧
      fs.data inode = job.data.take written
  | .replacing job number => fs.look (job.temporaryPlace process number) = some (.file job.data)
  | _ => True

/-- What holds in every state of a run: `es` are all the calls there will ever be, `now` those
made so far, and `taken` says how many numbers every process has given. -/
structure Sound (process : ι → Process) (fs₀ : FileSystem FileName) (es now : List (Event ι τ))
    (taken : ι → ℕ) (s : State ι τ) : Prop where
  requested : ∀ t outPath data, (s.pc t).request = some (outPath, data) →
    Event.call t outPath data ∈ now
  below : ∀ t job number, (s.pc t).numbered = some (job, number) → number.toNat < taken t.1
  distinct : ∀ t t' job job' number, t.1 = t'.1 → (s.pc t).numbered = some (job, number) →
    (s.pc t').numbered = some (job', number) → t = t'
  thread : ∀ t, (s.pc t).Sound (process t.1) s.fs
  whole : ∀ p, IsDestination process es p →
    s.fs.look p = fs₀.look p ∨ ∃ data, Offered process now p data ∧ s.fs.look p = some (.file data)

variable {process : ι → Process} {fs₀ : FileSystem FileName} {es now : List (Event ι τ)}
  {taken : ι → ℕ} {s s' : State ι τ} {t t' : ι × τ}

theorem sound_initial : Sound process fs₀ es now taken (.initial fs₀ : State ι τ) where
  requested := by rintro t outPath data ⟨⟩
  below := by rintro t job number ⟨⟩
  distinct := by rintro t t' job job' number - ⟨⟩
  thread := fun _ => trivial
  whole := fun _ _ => .inl rfl

/-! ### Places that differ -/

/-- The destination of a job is the place of its path. -/
theorem Job.place_outPath (job : Job) (process : Process) :
    process.place job.outPath = some (job.destination process) := by
  rw [Process.place, job.parent_eq, job.name_eq]
  rfl

/-- **Two calls with different numbers, or of different processes, write different files.** -/
theorem temporaryPlace_inj {job job' : Job} {p p' : Process} {n n' : UInt64}
    (h : job.temporaryPlace p n = job'.temporaryPlace p' n') : p.pid = p'.pid ∧ n = n' := by
  unfold Job.temporaryPlace at h
  obtain ⟨-, hlast⟩ := List.append_inj' h (by simp)
  have hfile := (List.cons.inj hlast).1
  exact temporaryFile_inj hfile

/-- **A temporary file is at no destination.** -/
theorem temporaryPlace_ne_destination (hes : Admissible process es) {p : List FileName}
    (hp : IsDestination process es p) (job : Job) (q : Process) (n : UInt64) :
    job.temporaryPlace q n ≠ p := by
  rintro rfl
  obtain ⟨t, outPath, data, hcall, hplace⟩ := hp
  obtain ⟨parent, -, hname⟩ := Option.bind_eq_some_iff.mp hplace
  obtain ⟨name, hname, hq⟩ := Option.map_eq_some_iff.mp hname
  unfold Job.temporaryPlace at hq
  obtain ⟨-, hlast⟩ := List.append_inj' hq (by simp)
  have hsuffix := partialSuffix_suffix_temporaryName job.name q.pid n
  rw [← bytes_temporaryFile] at hsuffix
  rw [(List.cons.inj hlast).1] at hname
  exact hes.not_partial t outPath data hcall _ hname hsuffix

/-- A directory that is made is no destination. -/
theorem resolve_ne_destination (hes : Admissible process es) {p : List FileName}
    (hp : IsDestination process es p) {call : Call}
    (hcall : Event.call t call.outPath call.data ∈ es) {dir : PathBuf}
    (hdir : dir ∈ call.parent.prefixes) : (process t.1).resolve dir ≠ p := by
  rintro rfl
  refine hes.not_directory t call.outPath call.data hcall _ hp ?_
  rw [Process.directories, call.parent_eq]
  exact List.mem_map_of_mem hdir

/-! ### One step -/

/-- What a thread knows of its temporary file stays true when the file is left alone. -/
theorem Pc.Sound.mono {p : Process} {fs fs' : FileSystem FileName} {pc : Pc} (h : pc.Sound p fs)
    (hkeep : ∀ job n, pc.numbered = some (job, n) → fs.node (job.temporaryPlace p n) ≠ none →
      fs.Keeps fs' (job.temporaryPlace p n)) : pc.Sound p fs' := by
  cases pc with
  | making call dirs => exact h
  | writing job n inode written =>
    obtain ⟨hle, hnode, hdata⟩ := h
    have hsame := hkeep job n rfl (by rw [hnode]; exact Option.some_ne_none _)
    exact ⟨hle, hsame.node.trans hnode, (hsame.data inode hnode).trans hdata⟩
  | replacing job n =>
    have hnode : fs.node (job.temporaryPlace p n) ≠ none := by
      intro hnone
      rw [Pc.Sound, FileSystem.look, hnone] at h
      cases h
    exact (hkeep job n rfl hnode).look.trans h
  | idle => trivial
  | numbering job => trivial
  | opening job n => trivial
  | removing job n e => trivial
  | done r => trivial
  | crashed => trivial

/-- Two threads with numbers have different temporary files. -/
theorem Sound.temporaryPlace_ne (hpid : Function.Injective fun i => (process i).pid)
    (h : Sound process fs₀ es now taken s) (hne : t' ≠ t) {job job' : Job} {n n' : UInt64}
    (hn : (s.pc t).numbered = some (job, n)) (hn' : (s.pc t').numbered = some (job', n')) :
    job'.temporaryPlace (process t'.1) n' ≠ job.temporaryPlace (process t.1) n := by
  intro hplace
  obtain ⟨hpids, rfl⟩ := temporaryPlace_inj hplace
  exact hne (h.distinct t' t job' job n' (hpid hpids) hn' hn)

section Steps

variable [DecidableEq ι] [DecidableEq τ]

/-- **What a step has to respect**: the thread that moves is in a call that was made, its
number is nobody else's, the other threads find their files as they were, and so do the
destinations, or whole. -/
theorem Sound.move (h : Sound process fs₀ es now taken s) {pc' : Pc} {taken' : ι → ℕ}
    (hpc : s'.pc = Function.update s.pc t pc') (htaken : ∀ i, taken i ≤ taken' i)
    (hrequest : ∀ outPath data, pc'.request = some (outPath, data) →
      Event.call t outPath data ∈ now)
    (hnumber : ∀ job n, pc'.numbered = some (job, n) → n.toNat < taken' t.1 ∧
      ∀ t' job', t' ≠ t → t'.1 = t.1 → (s.pc t').numbered ≠ some (job', n))
    (hthread : pc'.Sound (process t.1) s'.fs)
    (hother : ∀ t', t' ≠ t → (s.pc t').Sound (process t'.1) s'.fs)
    (hwhole : ∀ p, IsDestination process es p → s'.fs.look p = s.fs.look p ∨
      ∃ data, Offered process now p data ∧ s'.fs.look p = some (.file data)) :
    Sound process fs₀ es now taken' s' := by
  have hself : s'.pc t = pc' := by rw [hpc, Function.update_self]
  have hrest : ∀ t', t' ≠ t → s'.pc t' = s.pc t' := fun t' hne => by
    rw [hpc, Function.update_of_ne hne]
  refine ⟨?_, ?_, ?_, ?_, ?_⟩
  · intro t' outPath data hreq
    by_cases hne : t' = t
    · subst hne
      rw [hself] at hreq
      exact hrequest outPath data hreq
    · rw [hrest t' hne] at hreq
      exact h.requested t' outPath data hreq
  · intro t' job n hn
    by_cases hne : t' = t
    · subst hne
      rw [hself] at hn
      exact (hnumber job n hn).1
    · rw [hrest t' hne] at hn
      exact Nat.lt_of_lt_of_le (h.below t' job n hn) (htaken _)
  · intro t₁ t₂ job₁ job₂ n hproc hn₁ hn₂
    by_cases hne₁ : t₁ = t
    · by_cases hne₂ : t₂ = t
      · rw [hne₁, hne₂]
      · rw [hne₁] at hproc
        rw [hne₁, hself] at hn₁
        rw [hrest t₂ hne₂] at hn₂
        exact absurd hn₂ ((hnumber job₁ n hn₁).2 t₂ job₂ hne₂ hproc.symm)
    · rw [hrest t₁ hne₁] at hn₁
      by_cases hne₂ : t₂ = t
      · rw [hne₂] at hproc
        rw [hne₂, hself] at hn₂
        exact absurd hn₁ ((hnumber job₂ n hn₂).2 t₁ job₁ hne₁ hproc)
      · rw [hrest t₂ hne₂] at hn₂
        exact h.distinct t₁ t₂ job₁ job₂ n hproc hn₁ hn₂
  · intro t'
    by_cases hne : t' = t
    · subst hne
      rw [hself]
      exact hthread
    · rw [hrest t' hne]
      exact hother t' hne
  · intro p hp
    rcases hwhole p hp with hsame | hnew
    · rw [hsame]
      exact h.whole p hp
    · exact .inr hnew

/-- A step within a call, which keeps its number. -/
theorem Sound.change (h : Sound process fs₀ es now taken s) {fs : FileSystem FileName} {pc' : Pc}
    (hrequest : ∀ r, pc'.request = some r → (s.pc t).request = some r)
    (hnumber : ∀ r, pc'.numbered = some r → (s.pc t).numbered = some r)
    (hthread : pc'.Sound (process t.1) fs)
    (hother : ∀ t' job n, t' ≠ t → (s.pc t').numbered = some (job, n) →
      s.fs.node (job.temporaryPlace (process t'.1) n) ≠ none →
        s.fs.Keeps fs (job.temporaryPlace (process t'.1) n))
    (hwhole : ∀ p, IsDestination process es p → fs.look p = s.fs.look p ∨
      ∃ data, Offered process now p data ∧ fs.look p = some (.file data)) :
    Sound process fs₀ es now taken (s.change t fs pc') := by
  refine h.move rfl (fun _ => Nat.le_refl _) ?_ ?_ hthread ?_ hwhole
  · intro outPath data hreq
    exact h.requested t outPath data (hrequest _ hreq)
  · intro job n hn
    refine ⟨h.below t job n (hnumber _ hn), fun t' job' hne hproc hn' => ?_⟩
    exact hne (h.distinct t' t job' job n hproc hn' (hnumber _ hn))
  · intro t' hne
    exact (h.thread t').mono fun job n hn hnode => hother t' job n hne hn hnode

/-- A step within a call that leaves the file system alone. -/
theorem Sound.goto (h : Sound process fs₀ es now taken s) {pc' : Pc}
    (hrequest : ∀ r, pc'.request = some r → (s.pc t).request = some r)
    (hnumber : ∀ r, pc'.numbered = some r → (s.pc t).numbered = some r)
    (hthread : pc'.Sound (process t.1) s.fs) : Sound process fs₀ es now taken (s.goto t pc') :=
  h.change hrequest hnumber hthread (fun _ _ _ _ _ _ => FileSystem.Keeps.refl _ _)
    (fun _ _ => .inl rfl)

/-- Returning from a call, and dying in it. -/
theorem Sound.goto_done (h : Sound process fs₀ es now taken s) (r : Except String Unit) :
    Sound process fs₀ es now taken (s.goto t (.done r)) :=
  h.goto (by rintro _ ⟨⟩) (by rintro _ ⟨⟩) trivial

theorem sound_begin (h : Sound process fs₀ es now taken s) {outPath : PathBuf} {data : List UInt8}
    (hcall : Event.call t outPath data ∈ now) :
    Sound process fs₀ es now taken (s.goto t (begin outPath data)) := by
  have hnumber : ∀ job n, (begin outPath data).numbered ≠ some (job, n) := by
    intro job n
    unfold begin
    split <;> exact nofun
  refine h.move rfl (fun _ => Nat.le_refl _) ?_ (fun job n hn => absurd hn (hnumber job n)) ?_
    (fun t' _ => h.thread t') (fun _ _ => .inl rfl)
  · intro outPath' data' hreq
    unfold begin at hreq
    split at hreq
    · cases hreq
    · cases hreq
      exact hcall
  · unfold begin
    split
    · trivial
    · exact fun dir hdir => hdir

theorem sound_makeDir (hes : Admissible process es) (hsub : ∀ e ∈ now, e ∈ es)
    (h : Sound process fs₀ es now taken s) {call : Call} {dir : PathBuf} {dirs : List PathBuf}
    (hpc : s.pc t = .making call (dir :: dirs)) {fs : FileSystem FileName}
    (hfs : s.fs.makeDir ((process t.1).resolve dir) = .ok fs) :
    Sound process fs₀ es now taken (s.change t fs (.making call dirs)) := by
  have hdirs : ∀ d ∈ dir :: dirs, d ∈ call.parent.prefixes := by
    have hthread := h.thread t
    rwa [hpc] at hthread
  have hcall : Event.call t call.outPath call.data ∈ es :=
    hsub _ (h.requested t _ _ (by rw [hpc]; rfl))
  refine h.change (fun r hr => by rw [hpc]; exact hr) (by rintro _ ⟨⟩)
    (fun d hd => hdirs d (List.mem_cons_of_mem _ hd))
    (fun _ _ _ _ _ hnode => FileSystem.keeps_makeDir hfs hnode) fun p hp => .inl ?_
  obtain ⟨-, -, hkeep⟩ := FileSystem.makeDir_eq hfs
  have hne := resolve_ne_destination hes hp hcall (hdirs dir List.mem_cons_self)
  exact (hkeep p hne.symm).look

theorem sound_findName (h : Sound process fs₀ es now taken s) {call : Call}
    (hpc : s.pc t = .making call []) :
    Sound process fs₀ es now taken (s.goto t (findName call)) := by
  unfold findName
  split
  · exact h.goto_done _
  · exact h.goto (fun r hr => by rw [hpc]; exact hr) (by rintro _ ⟨⟩) trivial

/-- **`fetch_add` gives a number that no thread of the process has**, if it has not given `2 ^ 64`
of them before. -/
theorem sound_fetchAdd (h : Sound process fs₀ es now taken s) {job : Job}
    (hpc : s.pc t = .numbering job) (hnext : s.nextTemporary t.1 = UInt64.ofNat (taken t.1))
    (hlt : taken t.1 < 2 ^ 64) :
    Sound process fs₀ es now (Function.update taken t.1 (taken t.1 + 1))
      { s.goto t (.opening job (s.nextTemporary t.1)) with
        nextTemporary :=
          Function.update s.nextTemporary t.1 (s.nextTemporary t.1 + 1) } := by
  have hnumber : (s.nextTemporary t.1).toNat = taken t.1 := by
    rw [hnext, UInt64.toNat_ofNat', Nat.mod_eq_of_lt hlt]
  refine h.move rfl ?_ ?_ ?_ trivial (fun t' _ => h.thread t') (fun _ _ => .inl rfl)
  · intro i
    by_cases hi : i = t.1
    · rw [hi, Function.update_self]
      exact Nat.le_succ _
    · rw [Function.update_of_ne hi]
  · rintro outPath data hreq
    exact h.requested t outPath data (by rw [hpc]; exact hreq)
  · rintro job' n ⟨⟩
    constructor
    · rw [Function.update_self, hnumber]
      exact Nat.lt_succ_self _
    · intro t' job' _ hproc hn'
      have hbelow := h.below t' job' _ hn'
      rw [hproc, hnumber] at hbelow
      exact Nat.lt_irrefl _ hbelow

theorem sound_create (hpid : Function.Injective fun i => (process i).pid)
    (hes : Admissible process es) (h : Sound process fs₀ es now taken s) {job : Job} {n : UInt64}
    {inode : ℕ} (hpc : s.pc t = .opening job n) {fs : FileSystem FileName}
    (hfs : s.fs.create (job.temporaryPlace (process t.1) n) = .ok (fs, inode)) :
    Sound process fs₀ es now taken (s.change t fs (.writing job n inode 0)) := by
  obtain ⟨hnode, hdata, hkeep⟩ := FileSystem.create_eq hfs
  refine h.change (fun r hr => by rw [hpc]; exact hr) (fun r hr => by rw [hpc]; exact hr)
    ⟨Nat.zero_le _, hnode, hdata⟩ ?_ ?_
  · intro t' job' n' hne hn' _
    exact hkeep _ (h.temporaryPlace_ne hpid hne (by rw [hpc]; rfl) hn')
  · intro p hp
    exact .inl (hkeep p (temporaryPlace_ne_destination hes hp job _ n).symm).look

/-- **A write is seen at the temporary place only.** -/
theorem sound_write (hpid : Function.Injective fun i => (process i).pid)
    (hes : Admissible process es) (h : Sound process fs₀ es now taken s) {job : Job}
    {n : UInt64} {inode written count : ℕ} (hpc : s.pc t = .writing job n inode written)
    (hcount : written + count ≤ job.data.length) :
    Sound process fs₀ es now taken
      (s.change t (s.fs.writeAt inode written ((job.data.drop written).take count))
        (.writing job n inode (written + count))) := by
  obtain ⟨hle, hnode, hdata⟩ : (Pc.writing job n inode written).Sound (process t.1) s.fs := by
    rw [← hpc]
    exact h.thread t
  -- the file is at one place, so a place that is another one does not lead to it
  have hkeep : ∀ p, p ≠ job.temporaryPlace (process t.1) n → s.fs.Keeps
      (s.fs.writeAt inode written ((job.data.drop written).take count)) p := fun p hp =>
    FileSystem.keeps_writeAt fun hp' => hp (s.fs.one_place _ _ _ hp' hnode)
  refine h.change (fun r hr => by rw [hpc]; exact hr) (fun r hr => by rw [hpc]; exact hr)
    ⟨hcount, hnode, ?_⟩ ?_ ?_
  · change Function.update s.fs.data inode _ inode = _
    rw [Function.update_self, hdata]
    exact overwrite_take job.data written count hle
  · intro t' job' n' hne hn' _
    exact hkeep _ (h.temporaryPlace_ne hpid hne (by rw [hpc]; rfl) hn')
  · intro p hp
    exact .inl (hkeep p (temporaryPlace_ne_destination hes hp job _ n).symm).look

theorem sound_close (h : Sound process fs₀ es now taken s) {job : Job} {n : UInt64}
    {inode : ℕ} (hpc : s.pc t = .writing job n inode job.data.length) :
    Sound process fs₀ es now taken (s.goto t (.replacing job n)) := by
  obtain ⟨-, hnode, hdata⟩ :
      (Pc.writing job n inode job.data.length).Sound (process t.1) s.fs := by
    rw [← hpc]
    exact h.thread t
  refine h.goto (fun r hr => by rw [hpc]; exact hr) (fun r hr => by rw [hpc]; exact hr) ?_
  change s.fs.look _ = _
  rw [FileSystem.look_of_file hnode, hdata, List.take_length]

/-- A directory that is there already is passed over. -/
theorem sound_foundDir (h : Sound process fs₀ es now taken s) {call : Call} {dir : PathBuf}
    {dirs : List PathBuf} (hpc : s.pc t = .making call (dir :: dirs)) :
    Sound process fs₀ es now taken (s.goto t (.making call dirs)) := by
  have hdirs : ∀ d ∈ dir :: dirs, d ∈ call.parent.prefixes := by
    have hthread := h.thread t
    rwa [hpc] at hthread
  exact h.goto (fun r hr => by rw [hpc]; exact hr) (by rintro _ ⟨⟩)
    fun d hd => hdirs d (List.mem_cons_of_mem _ hd)

/-- **The rename makes the destination whole.** -/
theorem sound_rename (hpid : Function.Injective fun i => (process i).pid)
    (hes : Admissible process es) (hsub : ∀ e ∈ now, e ∈ es) (h : Sound process fs₀ es now taken s)
    {job : Job} {n : UInt64} (hpc : s.pc t = .replacing job n) {fs : FileSystem FileName}
    (hfs : s.fs.rename (job.temporaryPlace (process t.1) n) (job.destination (process t.1)) =
      .ok fs) : Sound process fs₀ es now taken (s.change t fs (.done (.ok ()))) := by
  have hlook : s.fs.look (job.temporaryPlace (process t.1) n) = some (.file job.data) := by
    have hthread := h.thread t
    rwa [hpc] at hthread
  have hcall : Event.call t job.outPath job.data ∈ now :=
    h.requested t _ _ (by rw [hpc]; rfl)
  have hdest : IsDestination process es (job.destination (process t.1)) :=
    ⟨t, job.outPath, job.data, hsub _ hcall, job.place_outPath _⟩
  obtain ⟨i, htemp, hnew, hdata, -, hkeep⟩ := FileSystem.rename_eq hfs
  have hwhole : fs.look (job.destination (process t.1)) = some (.file job.data) := by
    rw [FileSystem.look_of_file htemp] at hlook
    rw [FileSystem.look_of_file hnew, hdata, hlook]
  refine h.change (by rintro _ ⟨⟩) (by rintro _ ⟨⟩) trivial ?_ ?_
  · intro t' job' n' hne hn' _
    exact hkeep _ (h.temporaryPlace_ne hpid hne (by rw [hpc]; rfl) hn')
      (temporaryPlace_ne_destination hes hdest job' _ n')
  · intro p hp
    by_cases hpd : p = job.destination (process t.1)
    · rw [hpd]
      exact .inr ⟨job.data, ⟨t, job.outPath, hcall, job.place_outPath _⟩, hwhole⟩
    · exact .inl (hkeep p (temporaryPlace_ne_destination hes hp job _ n).symm hpd).look

theorem sound_removeFile (hpid : Function.Injective fun i => (process i).pid)
    (hes : Admissible process es) (h : Sound process fs₀ es now taken s) {job : Job} {n : UInt64}
    {e : String} (hpc : s.pc t = .removing job n e) {fs : FileSystem FileName}
    (hfs : s.fs.removeFile (job.temporaryPlace (process t.1) n) = .ok fs)
    (r : Except String Unit) : Sound process fs₀ es now taken (s.change t fs (.done r)) := by
  obtain ⟨-, hkeep⟩ := FileSystem.removeFile_eq hfs
  refine h.change (by rintro _ ⟨⟩) (by rintro _ ⟨⟩) trivial ?_ ?_
  · intro t' job' n' hne hn' _
    exact hkeep _ (h.temporaryPlace_ne hpid hne (by rw [hpc]; rfl) hn')
  · intro p hp
    exact .inl (hkeep p (temporaryPlace_ne_destination hes hp job _ n).symm).look

omit [DecidableEq τ] in
/-- Nobody knows anything of the calls of a dead process any more. -/
theorem sound_crash (h : Sound process fs₀ es now taken s) (i : ι) :
    Sound process fs₀ es now taken
      { s with pc := fun t => if t.1 = i then .crashed else s.pc t } := by
  have hpc : ∀ t : ι × τ, (if t.1 = i then Pc.crashed else s.pc t) = .crashed ∨
      (if t.1 = i then Pc.crashed else s.pc t) = s.pc t := fun t => by
    by_cases ht : t.1 = i
    · exact .inl (if_pos ht)
    · exact .inr (if_neg ht)
  refine ⟨?_, ?_, ?_, ?_, h.whole⟩
  · intro t outPath data hreq
    rcases hpc t with hc | hc <;> simp only [hc] at hreq
    · cases hreq
    · exact h.requested t outPath data hreq
  · intro t job n hn
    rcases hpc t with hc | hc <;> simp only [hc] at hn
    · cases hn
    · exact h.below t job n hn
  · intro t t' job job' n hproc hn hn'
    rcases hpc t with hc | hc <;> simp only [hc] at hn
    · cases hn
    · rcases hpc t' with hc' | hc' <;> simp only [hc'] at hn'
      · cases hn'
      · exact h.distinct t t' job job' n hproc hn hn'
  · intro t
    change Pc.Sound _ _ (if t.1 = i then Pc.crashed else s.pc t)
    rcases hpc t with hc | hc <;> rw [hc]
    · trivial
    · exact h.thread t

/-- **Every step but `fetch_add` respects the files of the others and the destinations.** -/
theorem sound_step (hpid : Function.Injective fun i => (process i).pid)
    (hes : Admissible process es) (hsub : ∀ e ∈ now, e ∈ es)
    (h : Sound process fs₀ es now taken s) {e : Event ι τ} (he : e ∈ now)
    (htransition : Transition process s e s')
    (hfetch : ∀ t job, e = .step t → s.pc t ≠ .numbering job) :
    Sound process fs₀ es now taken s' := by
  cases htransition with
  | call => exact sound_begin h he
  | makeDir hpc hfs => exact sound_makeDir hes hsub h hpc hfs
  | foundDir hpc => exact sound_foundDir h hpc
  | findName hpc => exact sound_findName h hpc
  | fetchAdd hpc => exact absurd hpc (hfetch _ _ rfl)
  | create hpc hfs => exact sound_create hpid hes h hpc hfs
  | close hpc => exact sound_close h hpc
  | rename hpc hfs => exact sound_rename hpid hes hsub h hpc hfs
  | remove hpc hfs => exact sound_removeFile hpid hes h hpc hfs _
  | renameFails hpc | failRename hpc =>
    exact h.goto (fun r hr => by rw [hpc]; exact hr) (fun r hr => by rw [hpc]; exact hr) trivial
  | write hpc hcount => exact sound_write hpid hes h hpc hcount
  | makeDirFails | createFails | removeFails | failMakeDir | failCreate | failWrite | failRemove =>
    exact h.goto_done _
  | crash => exact sound_crash h _

/-! ### How many numbers are given -/

/-- Who calls. -/
def Event.caller : Event ι τ → Option (ι × τ)
  | .call t _ _ => some t
  | _ => none

/-- The calls that are made, by the threads that make them. -/
def callers (es : List (Event ι τ)) : List (ι × τ) := es.filterMap Event.caller

/-- How many of some threads are those of a process. -/
def countOf (i : ι) (threads : List (ι × τ)) : ℕ := threads.countP fun t => t.1 = i

/-- **A call takes one number at most**: `tickets` are the threads that took one, behind the
events `past`. -/
structure Numbered (past : List (Event ι τ)) (tickets : List (ι × τ)) (s : State ι τ) :
    Prop where
  made : ∀ t, tickets.count t + (s.pc t).unnumbered ≤ (callers past).count t
  next : ∀ i, s.nextTemporary i = UInt64.ofNat (countOf i tickets)

theorem numbered_initial : Numbered [] [] (.initial fs₀ : State ι τ) :=
  ⟨fun _ => Nat.le_refl _, fun _ => rfl⟩

omit [DecidableEq τ] in
theorem countOf_cons (tickets : List (ι × τ)) (t : ι × τ) (i : ι) :
    countOf i (t :: tickets) =
      Function.update (fun i => countOf i tickets) t.1 (countOf t.1 tickets + 1) i := by
  rw [countOf, List.countP_cons, Function.update_apply]
  by_cases hi : i = t.1
  · rw [if_pos hi, if_pos (decide_eq_true hi.symm), hi]
    rfl
  · rw [if_neg hi, if_neg (by simpa using Ne.symm hi)]
    rfl

omit [DecidableEq τ] in
theorem countOf_le_of_prefix {past : List (Event ι τ)} (h : past <+: now) (i : ι) :
    countOf i (callers past) ≤ countOf i (callers now) :=
  (h.sublist.filterMap Event.caller).countP_le

omit [DecidableEq ι] [DecidableEq τ] in
theorem unnumbered_begin_le (outPath : PathBuf) (data : List UInt8) :
    (begin outPath data).unnumbered ≤ 1 := by
  unfold begin
  split
  · exact Nat.zero_le 1
  · exact Nat.le_refl 1

omit [DecidableEq ι] [DecidableEq τ] in
theorem unnumbered_findName_le (call : Call) : (findName call).unnumbered ≤ 1 := by
  unfold findName
  split
  · exact Nat.zero_le 1
  · exact Nat.le_refl 1

section Numbered

variable {past : List (Event ι τ)} {tickets : List (ι × τ)} {e : Event ι τ}

omit [DecidableEq τ] [DecidableEq ι] in
theorem callers_sublist (past : List (Event ι τ)) (e : Event ι τ) :
    (callers past).Sublist (callers (past ++ [e])) :=
  (List.sublist_append_left past [e]).filterMap Event.caller

/-- A step that takes no number. -/
theorem Numbered.change (h : Numbered past tickets s) {pc' : Pc} {fs : FileSystem FileName}
    (hle : pc'.unnumbered ≤ (s.pc t).unnumbered) :
    Numbered (past ++ [e]) tickets (s.change t fs pc') := by
  refine ⟨fun t' => ?_, h.next⟩
  refine le_trans ?_ ((h.made t').trans ((callers_sublist past e).count_le t'))
  change _ + (Function.update s.pc t pc' t').unnumbered ≤ _
  by_cases ht : t' = t
  · rw [ht, Function.update_self]
    exact Nat.add_le_add_left hle _
  · rw [Function.update_of_ne ht]

/-- A call that begins may take a number. -/
theorem Numbered.call (h : Numbered past tickets s) {outPath : PathBuf} {data : List UInt8}
    (hpc : s.pc t = .idle ∨ ∃ r, s.pc t = .done r) :
    Numbered (past ++ [.call t outPath data]) tickets (s.goto t (begin outPath data)) := by
  refine ⟨fun t' => ?_, h.next⟩
  have hnone : (s.pc t).unnumbered = 0 := by
    rcases hpc with hpc | ⟨r, hpc⟩ <;> rw [hpc] <;> rfl
  have hmade := h.made t'
  rw [callers, List.filterMap_append, List.count_append]
  change _ + (Function.update s.pc t _ t').unnumbered ≤ _ + [t].count t'
  by_cases ht : t' = t
  · subst ht
    rw [hnone] at hmade
    rw [Function.update_self, List.count_singleton_self]
    exact Nat.add_le_add hmade (unnumbered_begin_le outPath data)
  · rw [Function.update_of_ne ht]
    exact hmade.trans (Nat.le_add_right _ _)

/-- **A number is taken for a call that was made.** -/
theorem Numbered.lt (h : Numbered past tickets s) {job : Job} (hpc : s.pc t = .numbering job) :
    countOf t.1 tickets < countOf t.1 (callers past) := by
  have hsub : List.Subperm (t :: tickets) (callers past) := by
    refine List.subperm_ext_iff.mpr fun t' _ => ?_
    have hmade := h.made t'
    by_cases ht : t' = t
    · subst ht
      rw [hpc] at hmade
      rwa [List.count_cons_self]
    · rw [List.count_cons_of_ne (Ne.symm ht)]
      exact (Nat.le_add_right _ _).trans hmade
  have hle : countOf t.1 (t :: tickets) ≤ countOf t.1 (callers past) := hsub.countP_le _
  rwa [countOf_cons, Function.update_self] at hle

theorem Numbered.fetchAdd (h : Numbered past tickets s) {job : Job}
    (hpc : s.pc t = .numbering job) :
    Numbered (past ++ [e]) (t :: tickets)
      { s.goto t (.opening job (s.nextTemporary t.1)) with
        nextTemporary := Function.update s.nextTemporary t.1 (s.nextTemporary t.1 + 1) } := by
  constructor
  · intro t'
    refine le_trans ?_ ((h.made t').trans ((callers_sublist past e).count_le t'))
    change _ + (Function.update s.pc t _ t').unnumbered ≤ _
    by_cases ht : t' = t
    · subst ht
      rw [Function.update_self, List.count_cons_self, hpc]
      exact Nat.le_refl _
    · rw [Function.update_of_ne ht, List.count_cons_of_ne (Ne.symm ht)]
  · intro i
    rw [countOf_cons]
    change Function.update s.nextTemporary t.1 _ i = _
    by_cases hi : i = t.1
    · subst hi
      rw [Function.update_self, Function.update_self, h.next, UInt64.ofNat_add]
      rfl
    · rw [Function.update_of_ne hi, Function.update_of_ne hi, h.next]

/-- Every step but `fetch_add`. -/
theorem Numbered.step (h : Numbered past tickets s) (htransition : Transition process s e s')
    (hfetch : ∀ t job, e = .step t → s.pc t ≠ .numbering job) :
    Numbered (past ++ [e]) tickets s' := by
  cases htransition with
  | call hpc => exact h.call hpc
  | makeDir hpc => exact h.change (by rw [hpc]; exact Nat.le_refl _)
  | foundDir hpc => exact h.change (by rw [hpc]; exact Nat.le_refl _)
  | findName hpc => exact h.change (by rw [hpc]; exact unnumbered_findName_le _)
  | fetchAdd hpc => exact absurd hpc (hfetch _ _ rfl)
  | create | close | rename | remove | renameFails | failRename | write | makeDirFails
  | createFails | removeFails | failMakeDir | failCreate | failWrite | failRemove =>
    exact h.change (Nat.zero_le _)
  | crash =>
    refine ⟨fun t => ?_, h.next⟩
    refine le_trans (Nat.add_le_add_left ?_ _) ((h.made t).trans
      ((callers_sublist past _).count_le t))
    dsimp only
    split_ifs
    · exact Nat.zero_le _
    · exact Nat.le_refl _

end Numbered

/-- What holds behind the events `past`. -/
def Holds (process : ι → Process) (fs₀ : FileSystem FileName) (es now past : List (Event ι τ))
    (s : State ι τ) : Prop :=
  ∃ tickets, Numbered past tickets s ∧ Sound process fs₀ es now (fun i => countOf i tickets) s

/-- **Every step keeps the files of the others and the destinations**, as long as the numbers
last. -/
theorem holds_step (hpid : Function.Injective fun i => (process i).pid)
    (hes : Admissible process es) (hsub : ∀ e ∈ now, e ∈ es)
    (hcalls : ∀ i, countOf i (callers now) ≤ 2 ^ 64) {past : List (Event ι τ)} {e : Event ι τ}
    (hpast : past ++ [e] <+: now) (h : Holds process fs₀ es now past s)
    (hstep : step process s e = some s') : Holds process fs₀ es now (past ++ [e]) s' := by
  obtain ⟨tickets, hnumbered, hsound⟩ := h
  have htransition := transition_of_step hstep
  by_cases hfetch : ∀ t job, e = .step t → s.pc t ≠ .numbering job
  · have he : e ∈ now := hpast.subset (by simp)
    exact ⟨tickets, hnumbered.step htransition hfetch,
      sound_step hpid hes hsub hsound he htransition hfetch⟩
  · push Not at hfetch
    obtain ⟨t, job, rfl, hpc⟩ := hfetch
    rw [step, stepThread, hpc] at hstep
    cases hstep
    have hlt : countOf t.1 tickets < 2 ^ 64 := by
      have hbefore := countOf_le_of_prefix ((List.prefix_append past _).trans hpast) t.1
      exact ((hnumbered.lt hpc).trans_le hbefore).trans_le (hcalls t.1)
    refine ⟨t :: tickets, hnumbered.fetchAdd hpc, ?_⟩
    rw [funext (countOf_cons tickets t)]
    exact sound_fetchAdd hsound hpc (hnumbered.next t.1) hlt

theorem holds_run (hpid : Function.Injective fun i => (process i).pid)
    (hes : Admissible process es) (hsub : ∀ e ∈ now, e ∈ es)
    (hcalls : ∀ i, countOf i (callers now) ≤ 2 ^ 64) {past : List (Event ι τ)}
    (hpast : past <+: now)
    (hrun : Runs.run (step process) (State.initial fs₀) past = some s) :
    Holds process fs₀ es now past s := by
  have hstep : ∀ past u e u', (past <+: now → Holds process fs₀ es now past u) →
      step process u e = some u' → past ++ [e] <+: now →
      Holds process fs₀ es now (past ++ [e]) u' := fun past u e u' h hu hle =>
    holds_step hpid hes hsub hcalls hle (h ((List.prefix_append past [e]).trans hle)) hu
  have hstart : [] <+: now → Holds process fs₀ es now [] (State.initial fs₀) := fun _ =>
    ⟨[], numbered_initial, sound_initial⟩
  exact Runs.invariant_of_past (fun past u => past <+: now → Holds process fs₀ es now past u)
    hstep hstart hrun hpast

/-- What a step does to the file system. -/
theorem fs_of_step {e : Event ι τ} (h : step process s e = some s') :
    s'.fs = s.fs ∨
      (∃ p, s.fs.makeDir p = .ok s'.fs) ∨
      (∃ t job n inode, s.pc t = .opening job n ∧
        s.fs.create (job.temporaryPlace (process t.1) n) = .ok (s'.fs, inode)) ∨
      (∃ t job n inode written piece, s.pc t = .writing job n inode written ∧
        s'.fs = s.fs.writeAt inode written piece) ∨
      (∃ t job n q, s.pc t = .replacing job n ∧
        s.fs.rename (job.temporaryPlace (process t.1) n) q = .ok s'.fs) ∨
      (∃ p, s.fs.removeFile p = .ok s'.fs) := by
  cases transition_of_step h with
  | makeDir hpc hfs => exact .inr (.inl ⟨_, hfs⟩)
  | create hpc hfs => exact .inr (.inr (.inl ⟨_, _, _, _, hpc, hfs⟩))
  | write hpc => exact .inr (.inr (.inr (.inl ⟨_, _, _, _, _, _, hpc, rfl⟩)))
  | rename hpc hfs => exact .inr (.inr (.inr (.inr (.inl ⟨_, _, _, _, hpc, hfs⟩))))
  | remove hpc hfs => exact .inr (.inr (.inr (.inr (.inr ⟨_, hfs⟩))))
  | call | foundDir | makeDirFails | findName | fetchAdd | createFails | close | renameFails
  | removeFails | failMakeDir | failCreate | failWrite | failRename | failRemove | crash =>
    exact .inl rfl

/-- A file that a reader may have opened at a destination: it is at no place but a
destination. -/
structure Opened (process : ι → Process) (es : List (Event ι τ)) (i : ℕ)
    (contents : List UInt8) (s : State ι τ) : Prop where
  below : i < s.fs.next
  data : s.fs.data i = contents
  place : ∀ p, s.fs.node p = some (.file i) → IsDestination process es p

theorem opened_step (hes : Admissible process es)
    (h : Sound process fs₀ es now taken s) {i : ℕ} {contents : List UInt8}
    (hi : Opened process es i contents s) {e : Event ι τ}
    (hstep : step process s e = some s') : Opened process es i contents s' := by
  have hspared : s.fs.Spares s'.fs i → Opened process es i contents s' := fun hs =>
    ⟨Nat.lt_of_lt_of_le hi.below hs.next, hs.data.trans hi.data,
      fun p hp => hi.place p (hs.node p hp)⟩
  -- what is at a temporary place is no file of a reader
  have htemp : ∀ (job : Job) (q : Process) (n : UInt64),
      s.fs.node (job.temporaryPlace q n) ≠ some (.file i) := fun job q n hn =>
    temporaryPlace_ne_destination hes (hi.place _ hn) job q n rfl
  rcases fs_of_step hstep with hfs | ⟨p, hfs⟩ | ⟨t, job, n, inode, -, hfs⟩ |
    ⟨t, job, n, inode, written, piece, hpc, hfs⟩ | ⟨t, job, n, q, -, hfs⟩ | ⟨p, hfs⟩
  · exact hspared (hfs ▸ FileSystem.Spares.refl _ _)
  · exact hspared (FileSystem.spares_makeDir hfs)
  · exact hspared (FileSystem.spares_create hfs hi.below (htemp job _ n))
  · obtain ⟨-, hnode, -⟩ : (Pc.writing job n inode written).Sound (process t.1) s.fs := by
      rw [← hpc]
      exact h.thread t
    have hne : i ≠ inode := fun hne => htemp job _ n (hne ▸ hnode)
    exact hspared (hfs ▸ FileSystem.spares_writeAt hne)
  · exact hspared (FileSystem.spares_rename hfs (htemp job _ n))
  · exact hspared (FileSystem.spares_removeFile hfs)

/-- **A reader sees one version**: the file it has opened at a destination keeps its contents,
however long it takes to read it. -/
theorem reader_sees_one_version (hpid : Function.Injective fun i => (process i).pid)
    {later : List (Event ι τ)} (hes : Admissible process (now ++ later))
    (hcalls : ∀ i, countOf i (callers (now ++ later)) ≤ 2 ^ 64)
    (hrun : Runs.run (step process) (State.initial fs₀) now = some s)
    (hlater : Runs.run (step process) s later = some s') {p : List FileName} {i : ℕ}
    (hp : IsDestination process (now ++ later) p) (hopen : s.fs.node p = some (.file i)) :
    s'.fs.data i = s.fs.data i := by
  have hholds : Holds process fs₀ (now ++ later) (now ++ later) now s :=
    holds_run hpid hes (fun _ he => he) hcalls (List.prefix_append now later) hrun
  have hopened : Opened process (now ++ later) i (s.fs.data i) s :=
    ⟨s.fs.fresh p i hopen, rfl, fun q hq => s.fs.one_place q p i hq hopen ▸ hp⟩
  have hstep : ∀ past u e u', (past <+: now ++ later →
      Holds process fs₀ (now ++ later) (now ++ later) past u ∧
        Opened process (now ++ later) i (s.fs.data i) u) →
      step process u e = some u' → past ++ [e] <+: now ++ later →
      Holds process fs₀ (now ++ later) (now ++ later) (past ++ [e]) u' ∧
        Opened process (now ++ later) i (s.fs.data i) u' := by
    intro past u e u' h hu hle
    obtain ⟨hu₁, hu₂⟩ := h ((List.prefix_append past [e]).trans hle)
    refine ⟨holds_step hpid hes (fun _ he => he) hcalls hle hu₁ hu, ?_⟩
    obtain ⟨tickets, -, hsound⟩ := hu₁
    exact opened_step hes hsound hu₂ hu
  exact (Runs.invariant_of_past (fun past u => past <+: now ++ later →
    Holds process fs₀ (now ++ later) (now ++ later) past u ∧
      Opened process (now ++ later) i (s.fs.data i) u) hstep (fun _ => ⟨hholds, hopened⟩)
    hlater List.prefix_rfl).2.data

end Steps

/-- Two processes, from the root directory. -/
def sampleProcess (i : Bool) : Process where
  pid := if i then 7 else 12
  resolve := fun path => path.components.filterMap fun
    | .normal name => some name
    | _ => none

/-- A file system with nothing in it. -/
def sampleFiles : FileSystem FileName where
  node := fun p => if p = [] then some .dir else none
  data := fun _ => []
  next := 0
  one_place := by
    intro p q i hp
    split_ifs at hp
    cases hp
  fresh := by
    intro p i hp
    split_ifs at hp
    cases hp

/-- What both write. -/
def samplePath : PathBuf := .ofStr "/d/x.m2"

/-- One process dies with half of its data written, the other one writes all of its own. -/
def sampleRun : List (Event Bool ℕ) :=
  [.call (true, 0) samplePath [1, 2], .step (true, 0), .step (true, 0), .step (true, 0),
    .step (true, 0), .step (true, 0), .write (true, 0) 1,
    .call (false, 0) samplePath [7, 8, 9], .step (false, 0), .step (false, 0), .step (false, 0),
    .step (false, 0), .step (false, 0), .write (false, 0) 2, .crash true, .write (false, 0) 1,
    .step (false, 0), .step (false, 0)]

end WriteToPath

end AssetResolver
