import AssetResolver.Hotfix.KeyStore
import AssetResolver.Library.FileSystem
import AssetResolver.Library.Runs

/-!
# Merging into a key store that others merge into

`merge_store` and `write_store_atomic` of the key importer, one system call at a time: the
lock file, the reading of the store, the temporary file, its bytes in as many pieces as it
takes, `fsync`, `chmod`, the replacement and the clean-up. Processes take turns, every
system call may fail, and a process may die between any two of them, which gives up its
lock.

Whoever holds the lock finds the store as it was when it was read, since nobody else
changes it (`AssetResolver.MergeStore.Pc.Sound`). So the merges that are decided form one
sequence, each of them a `AssetResolver.KeyStore.merge` of what the one before has left
(`AssetResolver.MergeStore.Chain`); none is lost, and no name loses its key
(`AssetResolver.MergeStore.mergeStore_correct`).
-/

namespace AssetResolver

namespace MergeStore

open KeyStore

/-! ### The store and its neighbours -/

/-- The names `tempfile` makes: `tmp` and eight more characters. -/
def isTemporaryName (name : FileName) : Bool :=
  name.bytes.take 3 = osString "tmp" ∧ name.bytes.length = 11 ∧
    (name.bytes.drop 3).all fun b => b ∈ osString "abcdefghijklmnopqrstuvwxyz0123456789_"

/-- The store, by its name in its directory, which is none that `tempfile` would make. -/
structure Store where
  /-- `path.name`. -/
  name : FileName
  not_temporary : isTemporaryName name = false

/-- Where the store is, in its directory. -/
def Store.place (store : Store) : List FileName := [store.name]

/-- The content of the store. -/
def Store.content (store : Store) (fs : FileSystem FileName) : Option (List UInt8) :=
  match fs.look store.place with
  | some (.file bytes) => some bytes
  | _ => none

/-! ### The machine -/

/-- What is to be written. -/
structure Draft where
  /-- `additions`. -/
  additions : Additions
  /-- `added`. -/
  added : List Text
  /-- `text`. -/
  text : Text

/-- The bytes of a draft. -/
def Draft.bytes (draft : Draft) : List UInt8 := writeText draft.text

/-- What a call returns or raises. -/
abbrev Result := Except StoreError (List Text)

/-- Where a process is in `merge_store`. The directory of the store and the lock file are
there when they have been made, and nothing removes them. -/
inductive Pc where
  /-- In no call. -/
  | idle : Pc
  /-- Before `mkdir`. -/
  | making (additions : Additions) : Pc
  /-- Before the lock file is opened. -/
  | openingLock (additions : Additions) : Pc
  /-- Before `flock`. -/
  | locking (additions : Additions) : Pc
  /-- Before `path.exists()`. -/
  | looking (additions : Additions) : Pc
  /-- Before `path.read_text()`. -/
  | reading (additions : Additions) : Pc
  /-- Before the temporary file is made. -/
  | creating (draft : Draft) : Pc
  /-- Before the rest of the text is written to it. -/
  | writing (draft : Draft) (temporary : FileName) (inode written : ℕ) : Pc
  /-- Before `fsync`. -/
  | syncing (draft : Draft) (temporary : FileName) : Pc
  /-- Before `chmod`. -/
  | chmodding (draft : Draft) (temporary : FileName) : Pc
  /-- Before `os.replace`. -/
  | replacing (draft : Draft) (temporary : FileName) : Pc
  /-- Before `temporary.unlink`. -/
  | removing (additions : Additions) (temporary : FileName) (result : Result) : Pc
  /-- Before the lock file is closed. -/
  | unlocking (additions : Additions) (result : Result) : Pc
  /-- Returned. -/
  | done (additions : Additions) (result : Result) : Pc
  /-- Dead. -/
  | crashed : Pc

/-- A merge that was decided, of a call of a process: the calls of each process are
numbered. -/
structure Entry (τ : Type) where
  /-- The process. -/
  caller : τ
  /-- The number of the call. -/
  call : ℕ
  /-- `additions`. -/
  additions : Additions
  /-- The content of the store before. -/
  before : Option (List UInt8)
  /-- What the call returns, if nothing fails any more. -/
  verdict : Result
  /-- The content of the store after. -/
  after : Option (List UInt8)

/-- The directory of the store, the lock and the processes. What is counted and recorded is
seen by nobody. -/
structure State (τ : Type) where
  /-- The directory. -/
  fs : FileSystem FileName
  /-- Who holds the lock. -/
  lock : Option τ
  /-- Where the processes are. -/
  pc : τ → Pc
  /-- How many calls each process has begun. -/
  calls : τ → ℕ
  /-- The merges that were decided, in their order. -/
  log : List (Entry τ)

/-- What happens next, and to whom. -/
inductive Event (τ : Type) where
  /-- A process calls `merge_store`. -/
  | call (t : τ) (additions : Additions) : Event τ
  /-- A process does its next statement. -/
  | step (t : τ) : Event τ
  /-- A process makes a temporary file. -/
  | create (t : τ) (name : FileName) : Event τ
  /-- A process writes the next bytes, as many as the system takes. -/
  | write (t : τ) (count : ℕ) : Event τ
  /-- The next system call of a process fails. -/
  | fail (t : τ) (error : String) : Event τ
  /-- A process dies, and its lock with it. -/
  | crash (t : τ) : Event τ

/-- The mapping of the call that a process is in, or was in last. -/
def Pc.additions? : Pc → Option Additions
  | .idle | .crashed => none
  | .making additions | .openingLock additions | .locking additions | .looking additions |
    .reading additions | .removing additions _ _ | .unlocking additions _ | .done additions _ =>
    some additions
  | .creating draft | .writing draft _ _ _ | .syncing draft _ | .chmodding draft _ |
    .replacing draft _ => some draft.additions

variable {τ : Type}

/-- Whom something happens to. -/
def Event.process : Event τ → τ
  | .call t _ | .step t | .create t _ | .write t _ | .fail t _ | .crash t => t

/-- Any directory, and no call yet. -/
def State.initial (fs : FileSystem FileName) : State τ where
  fs := fs
  lock := none
  pc := fun _ => .idle
  calls := fun _ => 0
  log := []

section Machine

variable [DecidableEq τ]

namespace State

/-- A process goes on. -/
def goto (s : State τ) (t : τ) (pc : Pc) : State τ := { s with pc := Function.update s.pc t pc }

/-- A process goes on, having changed the directory. -/
def change (s : State τ) (t : τ) (fs : FileSystem FileName) (pc : Pc) : State τ :=
  { s with fs := fs, pc := Function.update s.pc t pc }

/-- A merge is decided. -/
def record (s : State τ) (t : τ) (additions : Additions) (before : Option (List UInt8))
    (verdict : Result) (after : Option (List UInt8)) : State τ :=
  { s with log := s.log ++ [⟨t, s.calls t, additions, before, verdict, after⟩] }

theorem pc_goto (s : State τ) (t : τ) (pc : Pc) : (s.goto t pc).pc t = pc :=
  Function.update_self _ _ _

theorem pc_change (s : State τ) (t : τ) (fs : FileSystem FileName) (pc : Pc) :
    (s.change t fs pc).pc t = pc := Function.update_self _ _ _

end State

/-- With the text of the store: nothing is to be written, or a draft. -/
def decideStep (s : State τ) (t : τ) (additions : Additions) (before : Option (List UInt8)) :
    State τ :=
  match storeText before with
  | none =>
    (s.record t additions before (.error .unicodeDecodeError) before).goto t
      (.unlocking additions (.error .unicodeDecodeError))
  | some original =>
    match decideMerge original additions with
    | .error e =>
      (s.record t additions before (.error e) before).goto t (.unlocking additions (.error e))
    | .ok (added, none) =>
      (s.record t additions before (.ok added) before).goto t (.unlocking additions (.ok added))
    | .ok (added, some text) => s.goto t (.creating ⟨additions, added, text⟩)

/-- The next statement of a process, the system doing what the directory allows. -/
def stepProcess (store : Store) (s : State τ) (t : τ) : Option (State τ) :=
  match s.pc t with
  | .making additions => some (s.goto t (.openingLock additions))
  | .openingLock additions => some (s.goto t (.locking additions))
  | .locking additions =>
    if s.lock = none then some { s.goto t (.looking additions) with lock := some t } else none
  | .looking additions =>
    if s.fs.node store.place = none then some (decideStep s t additions none)
    else some (s.goto t (.reading additions))
  | .reading additions =>
    match s.fs.look store.place with
    | some (.file bytes) => some (decideStep s t additions (some bytes))
    | some .dir => some (s.goto t (.unlocking additions (.error (.os "Is a directory"))))
    | none => some (s.goto t (.unlocking additions (.error (.os "No such file or directory"))))
  | .writing draft temporary _ written =>
    if written = draft.bytes.length then some (s.goto t (.syncing draft temporary)) else none
  | .syncing draft temporary => some (s.goto t (.chmodding draft temporary))
  | .chmodding draft temporary => some (s.goto t (.replacing draft temporary))
  | .replacing draft temporary =>
    match s.fs.rename [temporary] store.place with
    | .ok fs =>
      some ((s.record t draft.additions (store.content s.fs) (.ok draft.added)
        (some draft.bytes)).change t fs (.removing draft.additions temporary (.ok draft.added)))
    | .error e => some (s.goto t (.removing draft.additions temporary (.error (.os e))))
  | .removing additions temporary result =>
    match s.fs.removeFile [temporary] with
    | .ok fs => some (s.change t fs (.unlocking additions result))
    | .error e =>
      -- a file that is missing will do
      if s.fs.node [temporary] = none then some (s.goto t (.unlocking additions result))
      else some (s.goto t (.unlocking additions (.error (.os e))))
  | .unlocking additions result =>
    some { s.goto t (.done additions result) with lock := none }
  | _ => none

/-- The next system call of a process fails. -/
def failProcess (s : State τ) (t : τ) (error : String) : Option (State τ) :=
  match s.pc t with
  | .making additions => some (s.goto t (.done additions (.error (.os error))))
  | .openingLock additions => some (s.goto t (.done additions (.error (.os error))))
  | .locking additions => some (s.goto t (.done additions (.error (.os error))))
  | .looking additions => some (s.goto t (.unlocking additions (.error (.os error))))
  | .reading additions => some (s.goto t (.unlocking additions (.error (.os error))))
  | .creating draft => some (s.goto t (.unlocking draft.additions (.error (.os error))))
  | .writing draft temporary _ _ =>
    some (s.goto t (.removing draft.additions temporary (.error (.os error))))
  | .syncing draft temporary =>
    some (s.goto t (.removing draft.additions temporary (.error (.os error))))
  | .chmodding draft temporary =>
    some (s.goto t (.removing draft.additions temporary (.error (.os error))))
  | .replacing draft temporary =>
    some (s.goto t (.removing draft.additions temporary (.error (.os error))))
  | .removing additions _ _ => some (s.goto t (.unlocking additions (.error (.os error))))
  | _ => none

/-- One event. -/
def step (store : Store) (s : State τ) : Event τ → Option (State τ)
  | .call t additions =>
    let begun := { s.goto t (.making additions) with
      calls := Function.update s.calls t (s.calls t + 1) }
    match s.pc t with
    | .idle => some begun
    | .done _ _ => some begun
    | _ => none
  | .step t => stepProcess store s t
  | .create t name =>
    match s.pc t with
    | .creating draft =>
      -- `O_EXCL`: a name that is taken is given up for another one
      if isTemporaryName name = true ∧ s.fs.node [name] = none then
        match s.fs.create [name] with
        | .ok (fs, inode) => some (s.change t fs (.writing draft name inode 0))
        | .error e => some (s.goto t (.unlocking draft.additions (.error (.os e))))
      else none
    | _ => none
  | .write t count =>
    match s.pc t with
    | .writing draft temporary inode written =>
      if 0 < count ∧ written + count ≤ draft.bytes.length then
        some (s.change t (s.fs.writeAt inode written ((draft.bytes.drop written).take count))
          (.writing draft temporary inode (written + count)))
      else none
    | _ => none
  | .fail t error => failProcess s t error
  | .crash t =>
    some { s.goto t .crashed with lock := if s.lock = some t then none else s.lock }

end Machine

/-! ### The sequence of the merges -/

/-- **Each merge begins with what the one before has left**, and does what a merge does. -/
def Chain (first : Option (List UInt8)) : List (Entry τ) → Option (List UInt8) → Prop
  | [], last => last = first
  | e :: log, last =>
    e.before = first ∧ merge e.before e.additions = (e.verdict, e.after) ∧ Chain e.after log last

/-- One merge more. -/
theorem Chain.concat {log : List (Entry τ)} {first : Option (List UInt8)} {e : Entry τ}
    (h : Chain first log e.before) (he : merge e.before e.additions = (e.verdict, e.after)) :
    Chain first (log ++ [e]) e.after := by
  induction log generalizing first with
  | nil => exact ⟨h, he, rfl⟩
  | cons e' log ih =>
    obtain ⟨hfirst, he', hrest⟩ := h
    exact ⟨hfirst, he', ih hrest⟩

/-- What was decided later is a chain of its own. -/
theorem Chain.drop {log new : List (Entry τ)} {first middle last : Option (List UInt8)}
    (h : Chain first log middle) (h' : Chain first (log ++ new) last) : Chain middle new last := by
  induction log generalizing first with
  | nil => exact h ▸ h'
  | cons e log ih => exact ih h.2.2 h'.2.2

/-- The store says all of a mapping. -/
def Holds (content : Option (List UInt8)) (additions : Additions) : Prop :=
  ∃ text existing, storeText content = some text ∧ parseStore text = .ok existing ∧
    ∀ name key, additions.lookup name = some key → existing.lookup name = some key

/-- **No merge takes a key away**, whatever becomes of it. -/
theorem Holds.merge {content : Option (List UInt8)} {additions : Additions}
    (h : Holds content additions) (additions' : Additions) :
    Holds (KeyStore.merge content additions').2 additions := by
  obtain ⟨text, existing, htext, hparse, hhas⟩ := h
  by_cases hagrees : Agrees existing additions'
  · obtain ⟨after, text', existing', hmerge, htext', hparse', hunion, -, -⟩ :=
      merge_of_accepted htext hparse hagrees
    rw [hmerge]
    refine ⟨text', existing', htext', hparse', fun name key hkey => ?_⟩
    have hold := hhas name key hkey
    rw [hunion]
    cases hadded : additions'.lookup name with
    | none => exact hold
    | some key' => rw [hagrees name key' key hadded hold]; rfl
  · obtain ⟨name, hmerge, -⟩ := merge_of_conflict htext hparse hagrees
    rw [hmerge]
    exact ⟨text, existing, htext, hparse, hhas⟩

/-- A merge that succeeds leaves all its keys in the store. -/
theorem holds_of_merge {before after : Option (List UInt8)} {additions : Additions}
    {added : List Text} (h : KeyStore.merge before additions = (.ok added, after)) :
    Holds after additions := by
  obtain ⟨text, htext⟩ : ∃ text, storeText before = some text := by
    refine Option.ne_none_iff_exists'.mp fun hnone => ?_
    rw [KeyStore.merge, hnone] at h
    cases h
  obtain ⟨existing, hparse⟩ : ∃ existing, parseStore text = .ok existing := by
    cases hparse : parseStore text with
    | ok existing => exact ⟨existing, rfl⟩
    | error e =>
      unfold KeyStore.merge at h
      rw [htext] at h
      dsimp only at h
      unfold decideMerge at h
      rw [hparse] at h
      cases h
  by_cases hagrees : Agrees existing additions
  · obtain ⟨after', text', existing', hmerge, htext', hparse', hunion, -, -⟩ :=
      merge_of_accepted htext hparse hagrees
    obtain ⟨-, rfl⟩ := Prod.mk.inj (hmerge.symm.trans h)
    refine ⟨text', existing', htext', hparse', fun name key hkey => ?_⟩
    rw [hunion, hkey]
    rfl
  · obtain ⟨name, hmerge, -⟩ := merge_of_conflict htext hparse hagrees
    rw [hmerge] at h
    cases h

/-- **What a merge has put into the store is there after all later ones.** -/
theorem Chain.holds {log : List (Entry τ)} {first last : Option (List UInt8)}
    (h : Chain first log last) {additions : Additions} (hfirst : Holds first additions) :
    Holds last additions := by
  induction log generalizing first with
  | nil => exact h ▸ hfirst
  | cons e log ih =>
    obtain ⟨rfl, he, hrest⟩ := h
    have hafter := hfirst.merge e.additions
    rw [he] at hafter
    exact ih hrest hafter

theorem Chain.holds_of_mem {log : List (Entry τ)} {first last : Option (List UInt8)}
    (h : Chain first log last) {e : Entry τ} (he : e ∈ log) {added : List Text}
    (hok : e.verdict = .ok added) : Holds last e.additions := by
  induction log generalizing first with
  | nil => exact absurd he List.not_mem_nil
  | cons e' log ih =>
    obtain ⟨-, hmerge, hrest⟩ := h
    rcases List.mem_cons.mp he with rfl | he
    · rw [hok] at hmerge
      exact hrest.holds (holds_of_merge hmerge)
    · exact ih hrest he

/-! ### What the lock protects -/

/-- In these places a process has the lock. -/
def Pc.holds : Pc → Bool
  | .idle | .making _ | .openingLock _ | .locking _ | .done _ _ | .crashed => false
  | _ => true

/-- In these places nothing is decided yet. -/
def Pc.pending : Pc → Bool
  | .making _ | .openingLock _ | .locking _ | .looking _ | .reading _ | .creating _ |
    .writing .. | .syncing .. | .chmodding .. | .replacing .. => true
  | _ => false

/-- A draft is what the merge of the store as it is comes to. -/
def Draft.Decided (store : Store) (fs : FileSystem FileName) (draft : Draft) : Prop :=
  merge (store.content fs) draft.additions = (.ok draft.added, some draft.bytes) ∧
    draft.added ≠ []

/-- **What a process in `merge_store` knows of the directory**, from the lock on. -/
def Pc.Sound (store : Store) (fs : FileSystem FileName) : Pc → Prop
  | .creating draft => draft.Decided store fs
  | .writing draft temporary inode written =>
    draft.Decided store fs ∧ isTemporaryName temporary = true ∧ written ≤ draft.bytes.length ∧
      fs.node [temporary] = some (.file inode) ∧ fs.data inode = draft.bytes.take written
  | .syncing draft temporary | .chmodding draft temporary | .replacing draft temporary =>
    draft.Decided store fs ∧ isTemporaryName temporary = true ∧
      fs.look [temporary] = some (.file draft.bytes)
  | .removing _ temporary _ => isTemporaryName temporary = true
  | _ => True

/-- A result that is the verdict of the merge, or an error of the system. -/
def Reported (log : List (Entry τ)) (t : τ) (call : ℕ) (additions : Additions)
    (result : Result) : Prop :=
  (∃ e, result = .error (.os e)) ∨
    ∃ e ∈ log, e.caller = t ∧ e.call = call ∧ e.additions = additions ∧ e.verdict = result

/-- What a process is about to return, or has returned, is reported. -/
def Pc.Reports (log : List (Entry τ)) (t : τ) (call : ℕ) : Pc → Prop
  | .removing additions _ result | .unlocking additions result | .done additions result =>
    Reported log t call additions result
  | _ => True

theorem Pc.sound_of_not_holds {store : Store} {fs : FileSystem FileName} {pc : Pc}
    (h : pc.holds = false) : pc.Sound store fs := by
  cases pc <;> trivial

theorem Reported.append {log : List (Entry τ)} {t : τ} {call : ℕ} {additions : Additions}
    {result : Result} (h : Reported log t call additions result) (later : List (Entry τ)) :
    Reported (log ++ later) t call additions result := by
  rcases h with herror | ⟨e, he, heq⟩
  · exact .inl herror
  · exact .inr ⟨e, List.mem_append_left _ he, heq⟩

theorem Pc.Reports.append {log : List (Entry τ)} {t : τ} {call : ℕ} {pc : Pc}
    (h : pc.Reports log t call) (later : List (Entry τ)) :
    pc.Reports (log ++ later) t call := by
  cases pc <;> first | trivial | exact Reported.append h later

/-- **What the lock does**: it has one holder, who knows the directory. -/
structure Guarded (store : Store) (s : State τ) : Prop where
  locked : ∀ t, (s.pc t).holds = true → s.lock = some t
  sound : ∀ t, (s.pc t).Sound store s.fs

/-- **What the record of the merges is**: a chain from the first content of the store to the
present one, with at most one merge of every call. -/
structure Recorded (store : Store) (first : Option (List UInt8)) (s : State τ) : Prop where
  reports : ∀ t, (s.pc t).Reports s.log t (s.calls t)
  chain : Chain first s.log (store.content s.fs)
  numbered : ∀ e ∈ s.log, e.call ≤ s.calls e.caller
  pending : ∀ t, (s.pc t).pending = true → ∀ e ∈ s.log, e.caller = t → e.call ≠ s.calls t
  distinct : s.log.Pairwise fun e e' => e.caller = e'.caller → e.call ≠ e'.call

theorem guarded_initial (store : Store) (fs : FileSystem FileName) :
    Guarded store (State.initial fs : State τ) :=
  ⟨fun _ h => (nomatch h), fun _ => trivial⟩

theorem recorded_initial (store : Store) (fs : FileSystem FileName) :
    Recorded store (store.content fs) (State.initial fs : State τ) :=
  ⟨fun _ => trivial, rfl, fun _ h => (nomatch h), fun _ h => (nomatch h), List.Pairwise.nil⟩

/-- A process that has the lock is the only one. -/
theorem Guarded.alone {store : Store} {s : State τ} {t t' : τ} (h : Guarded store s)
    (hholds : (s.pc t).holds = true) (hne : t' ≠ t) : (s.pc t').holds = false := by
  by_contra hholds'
  have hsame := (h.locked t' (Bool.eq_true_of_not_eq_false hholds')).symm.trans
    (h.locked t hholds)
  exact hne (Option.some.inj hsame)

/-- **The invariant.** -/
structure Inv (store : Store) (first : Option (List UInt8)) (s : State τ) : Prop where
  guarded : Guarded store s
  recorded : Recorded store first s

/-- A place that is as it was has the content that it had. -/
theorem content_of_keeps {store : Store} {fs fs' : FileSystem FileName}
    (h : fs.Keeps fs' store.place) : store.content fs' = store.content fs := by
  rw [Store.content, Store.content, h.look]

/-- The store is at none of the places of temporary files. -/
theorem place_ne {store : Store} {name : FileName} (h : isTemporaryName name = true) :
    store.place ≠ [name] := by
  intro hsame
  obtain rfl : store.name = name := List.singleton_inj.mp hsame
  rw [store.not_temporary] at h
  cases h

/-- **The replacement makes the store what the merge comes to.** -/
theorem content_of_rename {store : Store} {fs fs' : FileSystem FileName} {temporary : FileName}
    {bytes : List UInt8} (hlook : fs.look [temporary] = some (.file bytes))
    (hfs : fs.rename [temporary] store.place = .ok fs') : store.content fs' = some bytes := by
  obtain ⟨i, htemp, hnew, hdata, -, -⟩ := FileSystem.rename_eq hfs
  rw [FileSystem.look_of_file htemp] at hlook
  rw [Store.content, FileSystem.look_of_file hnew, hdata]
  exact congrArg _ (Entry.file.inj (Option.some.inj hlook))

theorem Draft.Decided.of_content {store : Store} {fs fs' : FileSystem FileName} {draft : Draft}
    (h : draft.Decided store fs) (hcontent : store.content fs' = store.content fs) :
    draft.Decided store fs' := by
  rw [Draft.Decided, hcontent]
  exact h

/-! ### What an event does -/

/-- A draft has a temporary file, and has not replaced the store. -/
def Pc.HasDraft (draft : Draft) (temporary : FileName) (pc : Pc) : Prop :=
  (∃ inode written, pc = .writing draft temporary inode written) ∨ pc = .syncing draft temporary ∨
    pc = .chmodding draft temporary ∨ pc = .replacing draft temporary

section Transition

variable [DecidableEq τ]

/-- **What an event does**, one case for each statement and each way it may go. A call that
fails has no lock yet and is through, or it lets the lock go, or it has a temporary file to
remove before. -/
inductive Transition (store : Store) (s : State τ) : Event τ → State τ → Prop
  | call {t additions} :
      Transition store s (.call t additions) { s.goto t (.making additions) with
        calls := Function.update s.calls t (s.calls t + 1) }
  | mkdir {t additions} (hpc : s.pc t = .making additions) :
      Transition store s (.step t) (s.goto t (.openingLock additions))
  | openLock {t additions} (hpc : s.pc t = .openingLock additions) :
      Transition store s (.step t) (s.goto t (.locking additions))
  | lock {t additions} (hpc : s.pc t = .locking additions) (hfree : s.lock = none) :
      Transition store s (.step t) { s.goto t (.looking additions) with lock := some t }
  | missing {t additions} (hpc : s.pc t = .looking additions)
      (hnone : s.fs.node store.place = none) :
      Transition store s (.step t) (decideStep s t additions none)
  | found {t additions} (hpc : s.pc t = .looking additions) :
      Transition store s (.step t) (s.goto t (.reading additions))
  | read {t additions bytes} (hpc : s.pc t = .reading additions)
      (hlook : s.fs.look store.place = some (.file bytes)) :
      Transition store s (.step t) (decideStep s t additions (some bytes))
  | create {t draft name fs inode} (hpc : s.pc t = .creating draft)
      (hname : isTemporaryName name = true) (hfs : s.fs.create [name] = .ok (fs, inode)) :
      Transition store s (.create t name) (s.change t fs (.writing draft name inode 0))
  | write {t draft temporary inode written count}
      (hpc : s.pc t = .writing draft temporary inode written)
      (hcount : written + count ≤ draft.bytes.length) :
      Transition store s (.write t count)
        (s.change t (s.fs.writeAt inode written ((draft.bytes.drop written).take count))
          (.writing draft temporary inode (written + count)))
  | close {t draft temporary inode}
      (hpc : s.pc t = .writing draft temporary inode draft.bytes.length) :
      Transition store s (.step t) (s.goto t (.syncing draft temporary))
  | sync {t draft temporary} (hpc : s.pc t = .syncing draft temporary) :
      Transition store s (.step t) (s.goto t (.chmodding draft temporary))
  | chmod {t draft temporary} (hpc : s.pc t = .chmodding draft temporary) :
      Transition store s (.step t) (s.goto t (.replacing draft temporary))
  | replace {t draft temporary fs} (hpc : s.pc t = .replacing draft temporary)
      (hfs : s.fs.rename [temporary] store.place = .ok fs) :
      Transition store s (.step t)
        ((s.record t draft.additions (store.content s.fs) (.ok draft.added)
          (some draft.bytes)).change t fs (.removing draft.additions temporary (.ok draft.added)))
  | remove {t additions temporary result fs}
      (hpc : s.pc t = .removing additions temporary result)
      (hfs : s.fs.removeFile [temporary] = .ok fs) :
      Transition store s (.step t) (s.change t fs (.unlocking additions result))
  | removed {t additions temporary result}
      (hpc : s.pc t = .removing additions temporary result) :
      Transition store s (.step t) (s.goto t (.unlocking additions result))
  | unlock {t additions result} (hpc : s.pc t = .unlocking additions result) :
      Transition store s (.step t) { s.goto t (.done additions result) with lock := none }
  | quit {e additions error} (hcall : (s.pc e.process).additions? = some additions) :
      Transition store s e (s.goto e.process (.done additions (.error (.os error))))
  | release {e additions error} (hcall : (s.pc e.process).additions? = some additions)
      (hholds : (s.pc e.process).holds = true) :
      Transition store s e (s.goto e.process (.unlocking additions (.error (.os error))))
  | discard {e draft temporary error} (hdraft : (s.pc e.process).HasDraft draft temporary) :
      Transition store s e
        (s.goto e.process (.removing draft.additions temporary (.error (.os error))))
  | crash {t} :
      Transition store s (.crash t)
        { s.goto t .crashed with lock := if s.lock = some t then none else s.lock }

variable {store : Store} {s s' : State τ} {t : τ}

theorem transition_of_stepProcess (h : stepProcess store s t = some s') :
    Transition store s (.step t) s' := by
  -- what fails lets the lock go
  have hrelease : ∀ additions error, (s.pc t).additions? = some additions →
      (s.pc t).holds = true → Transition store s (.step t)
        (s.goto t (.unlocking additions (.error (.os error)))) :=
    fun additions error hcall hholds => Transition.release (e := .step t) hcall hholds
  unfold stepProcess at h
  split at h
  · next hpc =>
    cases h
    exact .mkdir hpc
  · next hpc =>
    cases h
    exact .openLock hpc
  · next hpc =>
    split_ifs at h with hfree
    cases h
    exact .lock hpc hfree
  · next hpc =>
    split_ifs at h with hnone
    · cases h
      exact .missing hpc hnone
    · cases h
      exact .found hpc
  · next hpc =>
    split at h
    · next hlook =>
      cases h
      exact .read hpc hlook
    · cases h
      exact hrelease _ _ (by rw [hpc]; rfl) (by rw [hpc]; rfl)
    · cases h
      exact hrelease _ _ (by rw [hpc]; rfl) (by rw [hpc]; rfl)
  · next hpc =>
    split_ifs at h with hall
    cases h
    exact .close (hall ▸ hpc)
  · next hpc =>
    cases h
    exact .sync hpc
  · next hpc =>
    cases h
    exact .chmod hpc
  · next hpc =>
    split at h
    · next hfs =>
      cases h
      exact .replace hpc hfs
    · cases h
      exact Transition.discard (e := .step t) (.inr (.inr (.inr hpc)))
  · next hpc =>
    split at h
    · next hfs =>
      cases h
      exact .remove hpc hfs
    · split_ifs at h
      · cases h
        exact .removed hpc
      · cases h
        exact hrelease _ _ (by rw [hpc]; rfl) (by rw [hpc]; rfl)
  · next hpc =>
    cases h
    exact .unlock hpc
  · cases h

theorem transition_of_failProcess {error : String} (h : failProcess s t error = some s') :
    Transition store s (.fail t error) s' := by
  have hquit : ∀ additions, (s.pc t).additions? = some additions →
      Transition store s (.fail t error) (s.goto t (.done additions (.error (.os error)))) :=
    fun additions hcall => Transition.quit (e := .fail t error) hcall
  have hrelease : ∀ additions, (s.pc t).additions? = some additions → (s.pc t).holds = true →
      Transition store s (.fail t error) (s.goto t (.unlocking additions (.error (.os error)))) :=
    fun additions hcall hholds => Transition.release (e := .fail t error) hcall hholds
  have hdiscard : ∀ draft temporary, (s.pc t).HasDraft draft temporary →
      Transition store s (.fail t error)
        (s.goto t (.removing draft.additions temporary (.error (.os error)))) :=
    fun draft temporary hdraft => Transition.discard (e := .fail t error) hdraft
  unfold failProcess at h
  split at h
  · next hpc =>
    cases h
    exact hquit _ (by rw [hpc]; rfl)
  · next hpc =>
    cases h
    exact hquit _ (by rw [hpc]; rfl)
  · next hpc =>
    cases h
    exact hquit _ (by rw [hpc]; rfl)
  · next hpc =>
    cases h
    exact hrelease _ (by rw [hpc]; rfl) (by rw [hpc]; rfl)
  · next hpc =>
    cases h
    exact hrelease _ (by rw [hpc]; rfl) (by rw [hpc]; rfl)
  · next hpc =>
    cases h
    exact hrelease _ (by rw [hpc]; rfl) (by rw [hpc]; rfl)
  · next hpc =>
    cases h
    exact hdiscard _ _ (.inl ⟨_, _, hpc⟩)
  · next hpc =>
    cases h
    exact hdiscard _ _ (.inr (.inl hpc))
  · next hpc =>
    cases h
    exact hdiscard _ _ (.inr (.inr (.inl hpc)))
  · next hpc =>
    cases h
    exact hdiscard _ _ (.inr (.inr (.inr hpc)))
  · next hpc =>
    cases h
    exact hrelease _ (by rw [hpc]; rfl) (by rw [hpc]; rfl)
  · cases h

theorem transition_of_step {e : Event τ} (h : step store s e = some s') :
    Transition store s e s' := by
  cases e with
  | call t additions =>
    rw [step] at h
    split at h
    · cases h
      exact .call
    · cases h
      exact .call
    · cases h
  | step t => exact transition_of_stepProcess h
  | create t name =>
    rw [step] at h
    split at h
    · next hpc =>
      split_ifs at h with hname
      split at h
      · next hfs =>
        cases h
        exact .create hpc hname.1 hfs
      · cases h
        exact Transition.release (e := .create t name) (by rw [Event.process, hpc]; rfl)
          (by rw [Event.process, hpc]; rfl)
    · cases h
  | write t count =>
    rw [step] at h
    split at h
    · next hpc =>
      split_ifs at h with hcount
      cases h
      exact .write hpc hcount.2
    · cases h
  | fail t error => exact transition_of_failProcess h
  | crash t =>
    cases h
    exact .crash

end Transition

section Steps

variable [DecidableEq τ] {store : Store} {first : Option (List UInt8)} {s s' : State τ} {t : τ}
  {fs : FileSystem FileName} {pc : Pc}

/-- What holds where every process is holds when one has gone on. -/
theorem forall_update {motive : τ → Pc → Prop} (hpc : motive t pc)
    (hother : ∀ t', t' ≠ t → motive t' (s.pc t')) (t' : τ) :
    motive t' (Function.update s.pc t pc t') := by
  by_cases ht : t' = t
  · rw [ht, Function.update_self]
    exact hpc
  · rw [Function.update_of_ne ht]
    exact hother t' ht

/-- A process goes on; if it changes the directory, then it has the lock. -/
theorem Guarded.change (h : Guarded store s)
    (hholds : pc.holds = true → (s.pc t).holds = true)
    (hfs : fs = s.fs ∨ (s.pc t).holds = true) (hsound : pc.Sound store fs) :
    Guarded store (s.change t fs pc) where
  locked := forall_update (motive := fun t' pc => pc.holds = true → s.lock = some t')
    (fun hpc => h.locked t (hholds hpc)) fun t' _ => h.locked t'
  sound := forall_update (motive := fun _ pc => pc.Sound store fs) hsound fun t' ht => by
    rcases hfs with rfl | hholder
    · exact h.sound t'
    · exact Pc.sound_of_not_holds (h.alone hholder ht)

omit [DecidableEq τ] in
theorem Guarded.record (h : Guarded store s) (additions : Additions)
    (before : Option (List UInt8)) (verdict : Result) (after : Option (List UInt8)) :
    Guarded store (s.record t additions before verdict after) := ⟨h.locked, h.sound⟩

/-- A process goes on, and the store stays as it is. -/
theorem Recorded.change (h : Recorded store first s)
    (hpending : pc.pending = true → (s.pc t).pending = true)
    (hreports : pc.Reports s.log t (s.calls t))
    (hcontent : store.content fs = store.content s.fs) :
    Recorded store first (s.change t fs pc) where
  reports := forall_update (motive := fun t' pc => pc.Reports s.log t' (s.calls t')) hreports
    fun t' _ => h.reports t'
  chain := hcontent.symm ▸ h.chain
  numbered := h.numbered
  pending := forall_update (motive := fun t' pc => pc.pending = true →
      ∀ e ∈ s.log, e.caller = t' → e.call ≠ s.calls t')
    (fun hpc => h.pending t (hpending hpc)) fun t' _ => h.pending t'
  distinct := h.distinct

/-- **A merge is decided**, and the store is what it comes to. -/
theorem Recorded.record (h : Recorded store first s) {additions : Additions} {verdict : Result}
    (hpending : (s.pc t).pending = true) (hpc : pc.pending = false)
    (hmerge : merge (store.content s.fs) additions = (verdict, store.content fs))
    (hreports : ∀ log, Reported log t (s.calls t) additions verdict →
      pc.Reports log t (s.calls t)) :
    Recorded store first ((s.record t additions (store.content s.fs) verdict
      (store.content fs)).change t fs pc) where
  reports := forall_update
    (motive := fun t' pc => pc.Reports (s.log ++ [_]) t' (s.calls t'))
    (hreports _ (.inr ⟨_, List.mem_concat_self, rfl, rfl, rfl, rfl⟩))
    fun t' _ => (h.reports t').append _
  chain := h.chain.concat hmerge
  numbered e he := by
    rcases List.mem_append.mp he with he | he
    · exact h.numbered e he
    · obtain rfl := List.mem_singleton.mp he
      exact Nat.le_refl _
  pending := forall_update (motive := fun t' pc => pc.pending = true →
      ∀ e : Entry τ, e ∈ s.log ++ [_] → e.caller = t' → e.call ≠ s.calls t')
    (fun hpc' => absurd hpc' (by rw [hpc]; decide)) fun t' ht hpc' e he hcaller => by
      rcases List.mem_append.mp he with he | he
      · exact h.pending t' hpc' e he hcaller
      · obtain rfl := List.mem_singleton.mp he
        exact absurd hcaller.symm ht
  distinct := by
    refine List.pairwise_append.mpr ⟨h.distinct, List.pairwise_singleton _ _, ?_⟩
    intro e he e' he' hcaller
    obtain rfl := List.mem_singleton.mp he'
    exact h.pending t hpending e he hcaller

/-! ### Step by step -/

/-- A process goes on, and nothing else happens. -/
theorem Inv.goto (h : Inv store first s) (hholds : pc.holds = true → (s.pc t).holds = true)
    (hpending : pc.pending = true → (s.pc t).pending = true) (hsound : pc.Sound store s.fs)
    (hreports : pc.Reports s.log t (s.calls t)) : Inv store first (s.goto t pc) :=
  ⟨h.guarded.change hholds (.inl rfl) hsound, h.recorded.change hpending hreports rfl⟩

/-- The holder of the lock changes the directory, and not the store. -/
theorem Inv.change (h : Inv store first s) (hholds : (s.pc t).holds = true)
    (hpending : pc.pending = true → (s.pc t).pending = true) (hsound : pc.Sound store fs)
    (hreports : pc.Reports s.log t (s.calls t)) (hkeep : s.fs.Keeps fs store.place) :
    Inv store first (s.change t fs pc) :=
  ⟨h.guarded.change (fun _ => hholds) (.inr hholds) hsound,
    h.recorded.change hpending hreports (content_of_keeps hkeep)⟩

/-- The holder of the lock decides, and the directory stays as it is. -/
theorem Inv.decided (h : Inv store first s) {additions : Additions} {verdict : Result}
    (hholds : (s.pc t).holds = true) (hpending : (s.pc t).pending = true)
    (hmerge : merge (store.content s.fs) additions = (verdict, store.content s.fs)) :
    Inv store first ((s.record t additions (store.content s.fs) verdict
      (store.content s.fs)).goto t (.unlocking additions verdict)) :=
  ⟨(h.guarded.record _ _ _ _).change (fun _ => hholds) (.inl rfl) trivial,
    h.recorded.record hpending rfl hmerge fun _ hreported => hreported⟩

/-- **With the text of the store, a process knows what the merge comes to**, and has it on
record if there is nothing to be written. -/
theorem decideStep_cases (s : State τ) (t : τ) (additions : Additions)
    (before : Option (List UInt8)) :
    (∃ verdict, merge before additions = (verdict, before) ∧
      decideStep s t additions before = (s.record t additions before verdict before).goto t
        (.unlocking additions verdict)) ∨
    ∃ added text, merge before additions = (.ok added, some (writeText text)) ∧ added ≠ [] ∧
      decideStep s t additions before = s.goto t (.creating ⟨additions, added, text⟩) := by
  cases htext : storeText before with
  | none =>
    refine .inl ⟨.error .unicodeDecodeError, ?_, ?_⟩
    · rw [KeyStore.merge, htext]
    · rw [decideStep, htext]
  | some original =>
    cases hdecide : decideMerge original additions with
    | error e =>
      refine .inl ⟨.error e, ?_, ?_⟩
      · rw [KeyStore.merge, htext]
        dsimp only
        rw [hdecide]
      · rw [decideStep, htext]
        dsimp only
        rw [hdecide]
    | ok decision =>
      obtain ⟨added, text⟩ := decision
      cases text with
      | none =>
        refine .inl ⟨.ok added, ?_, ?_⟩
        · rw [KeyStore.merge, htext]
          dsimp only
          rw [hdecide]
        · rw [decideStep, htext]
          dsimp only
          rw [hdecide]
      | some text =>
        refine .inr ⟨added, text, ?_, added_ne_nil hdecide, ?_⟩
        · rw [KeyStore.merge, htext]
          dsimp only
          rw [hdecide]
        · rw [decideStep, htext]
          dsimp only
          rw [hdecide]

theorem inv_decideStep (h : Inv store first s) {additions : Additions}
    {before : Option (List UInt8)} (hholds : (s.pc t).holds = true)
    (hpending : (s.pc t).pending = true) (hbefore : store.content s.fs = before) :
    Inv store first (decideStep s t additions before) := by
  subst hbefore
  rcases decideStep_cases s t additions (store.content s.fs) with
    ⟨verdict, hmerge, hstep⟩ | ⟨added, text, hmerge, hne, hstep⟩
  · rw [hstep]
    exact h.decided hholds hpending hmerge
  · rw [hstep]
    exact h.goto (fun _ => hholds) (fun _ => hpending) ⟨hmerge, hne⟩ trivial

/-- A call begins, with a number of its own. -/
theorem inv_call (h : Inv store first s) (additions : Additions) :
    Inv store first { s.goto t (.making additions) with
      calls := Function.update s.calls t (s.calls t + 1) } := by
  have hguarded : Guarded store (s.goto t (.making additions)) :=
    h.guarded.change (fun hpc => (nomatch hpc)) (.inl rfl) trivial
  have hcalls : ∀ t', t' ≠ t → Function.update s.calls t (s.calls t + 1) t' = s.calls t' :=
    fun t' ht => Function.update_of_ne ht _ _
  have hself : Function.update s.calls t (s.calls t + 1) t = s.calls t + 1 :=
    Function.update_self _ _ _
  refine ⟨⟨hguarded.locked, hguarded.sound⟩, ?_, h.recorded.chain, ?_, ?_, h.recorded.distinct⟩
  · refine forall_update (motive := fun t' pc => pc.Reports s.log t'
      (Function.update s.calls t (s.calls t + 1) t')) trivial fun t' ht => ?_
    rw [hcalls t' ht]
    exact h.recorded.reports t'
  · intro e he
    have hle := h.recorded.numbered e he
    change e.call ≤ Function.update s.calls t (s.calls t + 1) e.caller
    by_cases ht : e.caller = t
    · rw [ht, hself]
      exact Nat.le_succ_of_le (ht ▸ hle)
    · rwa [hcalls _ ht]
  · refine forall_update (motive := fun t' pc => pc.pending = true → ∀ e : Entry τ, e ∈ s.log →
      e.caller = t' → e.call ≠ Function.update s.calls t (s.calls t + 1) t') ?_ fun t' ht => ?_
    · rintro - e he rfl
      rw [hself]
      exact Nat.ne_of_lt (Nat.lt_succ_of_le (h.recorded.numbered e he))
    · rw [hcalls t' ht]
      exact h.recorded.pending t'

/-- **Nobody has the lock when it is taken.** -/
theorem inv_lock (h : Inv store first s) {additions : Additions}
    (hpc : s.pc t = .locking additions) (hfree : s.lock = none) :
    Inv store first { s.goto t (.looking additions) with lock := some t } := by
  have hrecorded : Recorded store first (s.goto t (.looking additions)) :=
    h.recorded.change (fun _ => by rw [hpc]; rfl) trivial rfl
  refine ⟨⟨?_, ?_⟩, hrecorded.reports, hrecorded.chain, hrecorded.numbered, hrecorded.pending,
    hrecorded.distinct⟩
  · refine forall_update (motive := fun t' pc => pc.holds = true → some t = some t')
      (fun _ => rfl) fun t' _ hholds => ?_
    have hlock := h.guarded.locked t' hholds
    rw [hfree] at hlock
    cases hlock
  · exact forall_update (motive := fun _ pc => pc.Sound store s.fs) trivial
      fun t' _ => h.guarded.sound t'

/-- The lock is given up by a process that is not in it any more. -/
theorem inv_release (h : Inv store first s) {lock : Option τ}
    (hholds : pc.holds = false) (hpending : pc.pending = false)
    (hreports : pc.Reports s.log t (s.calls t))
    (hlock : ∀ t', t' ≠ t → (s.pc t').holds = true → lock = some t') :
    Inv store first { s.goto t pc with lock := lock } := by
  have hrecorded : Recorded store first (s.goto t pc) :=
    h.recorded.change (fun hpc => absurd hpc (by rw [hpending]; decide)) hreports rfl
  refine ⟨⟨?_, ?_⟩, hrecorded.reports, hrecorded.chain, hrecorded.numbered, hrecorded.pending,
    hrecorded.distinct⟩
  · exact forall_update (motive := fun t' pc => pc.holds = true → lock = some t')
      (fun hpc => absurd hpc (by rw [hholds]; decide)) hlock
  · exact forall_update (motive := fun _ pc => pc.Sound store s.fs)
      (Pc.sound_of_not_holds hholds) fun t' _ => h.guarded.sound t'

theorem inv_unlock (h : Inv store first s) {additions : Additions} {result : Result}
    (hpc : s.pc t = .unlocking additions result) :
    Inv store first { s.goto t (.done additions result) with lock := none } := by
  have hreports : (Pc.unlocking additions result).Reports s.log t (s.calls t) :=
    hpc ▸ h.recorded.reports t
  have hholds : (s.pc t).holds = true := by rw [hpc]; rfl
  refine inv_release h rfl rfl hreports fun t' ht hholds' => ?_
  rw [h.guarded.alone hholds ht] at hholds'
  cases hholds'

/-- **A process that dies keeps no lock**, and leaves the store as it is. -/
theorem inv_crash (h : Inv store first s) :
    Inv store first
      { s.goto t .crashed with lock := if s.lock = some t then none else s.lock } := by
  refine inv_release h rfl rfl trivial fun t' ht hholds => ?_
  have hlock := h.guarded.locked t' hholds
  rw [hlock, if_neg fun hsame => ht (Option.some.inj hsame)]

theorem inv_create (h : Inv store first s) {draft : Draft} {name : FileName} {inode : ℕ}
    (hpc : s.pc t = .creating draft) (hname : isTemporaryName name = true)
    (hfs : s.fs.create [name] = .ok (fs, inode)) :
    Inv store first (s.change t fs (.writing draft name inode 0)) := by
  have hdecided : draft.Decided store s.fs := by
    have hsound := h.guarded.sound t
    rwa [hpc] at hsound
  obtain ⟨hnode, hdata, hkeep⟩ := FileSystem.create_eq hfs
  have hstore := hkeep store.place (place_ne hname)
  refine h.change (by rw [hpc]; rfl) (fun _ => by rw [hpc]; rfl) ?_ trivial hstore
  exact ⟨hdecided.of_content (content_of_keeps hstore), hname, Nat.zero_le _, hnode, hdata⟩

theorem inv_write (h : Inv store first s) {draft : Draft} {temporary : FileName}
    {inode written count : ℕ} (hpc : s.pc t = .writing draft temporary inode written)
    (hcount : written + count ≤ draft.bytes.length) :
    Inv store first
      (s.change t (s.fs.writeAt inode written ((draft.bytes.drop written).take count))
        (.writing draft temporary inode (written + count))) := by
  obtain ⟨hdecided, hname, hle, hnode, hdata⟩ :
      (Pc.writing draft temporary inode written).Sound store s.fs := hpc ▸ h.guarded.sound t
  have hstore : s.fs.Keeps (s.fs.writeAt inode written ((draft.bytes.drop written).take count))
      store.place := FileSystem.keeps_writeAt fun hp =>
    place_ne hname (s.fs.one_place _ _ _ hp hnode)
  refine h.change (by rw [hpc]; rfl) (fun _ => by rw [hpc]; rfl) ?_ trivial hstore
  refine ⟨hdecided.of_content (content_of_keeps hstore), hname, hcount, hnode, ?_⟩
  change Function.update s.fs.data inode _ inode = _
  rw [Function.update_self, hdata]
  exact overwrite_take draft.bytes written count hle

/-- The temporary file is whole when it is closed. -/
theorem inv_close (h : Inv store first s) {draft : Draft} {temporary : FileName} {inode : ℕ}
    (hpc : s.pc t = .writing draft temporary inode draft.bytes.length) :
    Inv store first (s.goto t (.syncing draft temporary)) := by
  obtain ⟨hdecided, hname, -, hnode, hdata⟩ :
      (Pc.writing draft temporary inode draft.bytes.length).Sound store s.fs :=
    hpc ▸ h.guarded.sound t
  refine h.goto (fun _ => by rw [hpc]; rfl) (fun _ => by rw [hpc]; rfl) ⟨hdecided, hname, ?_⟩
    trivial
  rw [FileSystem.look_of_file hnode, hdata, List.take_length]

theorem inv_replace (h : Inv store first s) {draft : Draft} {temporary : FileName}
    (hpc : s.pc t = .replacing draft temporary)
    (hfs : s.fs.rename [temporary] store.place = .ok fs) :
    Inv store first ((s.record t draft.additions (store.content s.fs) (.ok draft.added)
      (some draft.bytes)).change t fs (.removing draft.additions temporary
        (.ok draft.added))) := by
  obtain ⟨hdecided, hname, hlook⟩ : (Pc.replacing draft temporary).Sound store s.fs :=
    hpc ▸ h.guarded.sound t
  have hholds : (s.pc t).holds = true := by rw [hpc]; rfl
  have hcontent := content_of_rename hlook hfs
  refine ⟨(h.guarded.record _ _ _ _).change (fun _ => hholds) (.inr hholds) hname, ?_⟩
  rw [← hcontent]
  refine h.recorded.record (by rw [hpc]; rfl) rfl ?_ fun _ hreported => hreported
  rw [hcontent]
  exact hdecided.1

theorem inv_remove (h : Inv store first s) {additions : Additions} {temporary : FileName}
    {result : Result} (hpc : s.pc t = .removing additions temporary result)
    (hfs : s.fs.removeFile [temporary] = .ok fs) :
    Inv store first (s.change t fs (.unlocking additions result)) := by
  have hname : (Pc.removing additions temporary result).Sound store s.fs :=
    hpc ▸ h.guarded.sound t
  have hreports : (Pc.removing additions temporary result).Reports s.log t (s.calls t) :=
    hpc ▸ h.recorded.reports t
  obtain ⟨-, hkeep⟩ := FileSystem.removeFile_eq hfs
  exact h.change (by rw [hpc]; rfl) (absurd · Bool.false_ne_true) trivial hreports
    (hkeep _ (place_ne hname))

omit [DecidableEq τ] in
/-- Who has a draft holds the lock, and its file has a temporary name. -/
theorem Pc.HasDraft.sound {draft : Draft} {temporary : FileName}
    (hdraft : pc.HasDraft draft temporary) (h : pc.Sound store fs) :
    pc.holds = true ∧ isTemporaryName temporary = true := by
  rcases hdraft with ⟨inode, written, rfl⟩ | rfl | rfl | rfl
  · exact ⟨rfl, h.2.1⟩
  · exact ⟨rfl, h.2.1⟩
  · exact ⟨rfl, h.2.1⟩
  · exact ⟨rfl, h.2.1⟩

/-- **Every step keeps the invariant.** A call that fails is through, or on its way out, and
the store is as it was. -/
theorem inv_step (h : Inv store first s) {e : Event τ} (hstep : step store s e = some s') :
    Inv store first s' := by
  cases transition_of_step hstep with
  | call => exact inv_call h _
  | mkdir hpc | openLock hpc =>
    exact h.goto (absurd · Bool.false_ne_true) (fun _ => by rw [hpc]; rfl) trivial trivial
  | lock hpc hfree => exact inv_lock h hpc hfree
  | missing hpc hnone =>
    refine inv_decideStep h (by rw [hpc]; rfl) (by rw [hpc]; rfl) ?_
    rw [Store.content, FileSystem.look, hnone]
    rfl
  | found hpc =>
    exact h.goto (fun _ => by rw [hpc]; rfl) (fun _ => by rw [hpc]; rfl) trivial trivial
  | read hpc hlook =>
    refine inv_decideStep h (by rw [hpc]; rfl) (by rw [hpc]; rfl) ?_
    rw [Store.content, hlook]
  | create hpc hname hfs => exact inv_create h hpc hname hfs
  | write hpc hcount => exact inv_write h hpc hcount
  | close hpc => exact inv_close h hpc
  | @sync t draft temporary hpc =>
    have hsound : (Pc.syncing draft temporary).Sound store s.fs := hpc ▸ h.guarded.sound t
    exact h.goto (fun _ => by rw [hpc]; rfl) (fun _ => by rw [hpc]; rfl) hsound trivial
  | @chmod t draft temporary hpc =>
    have hsound : (Pc.chmodding draft temporary).Sound store s.fs := hpc ▸ h.guarded.sound t
    exact h.goto (fun _ => by rw [hpc]; rfl) (fun _ => by rw [hpc]; rfl) hsound trivial
  | replace hpc hfs => exact inv_replace h hpc hfs
  | remove hpc hfs => exact inv_remove h hpc hfs
  | @removed t additions temporary result hpc =>
    have hreports : (Pc.removing additions temporary result).Reports s.log t (s.calls t) :=
      hpc ▸ h.recorded.reports t
    exact h.goto (fun _ => by rw [hpc]; rfl) (absurd · Bool.false_ne_true) trivial hreports
  | unlock hpc => exact inv_unlock h hpc
  | quit =>
    exact h.goto (absurd · Bool.false_ne_true) (absurd · Bool.false_ne_true) trivial
      (.inl ⟨_, rfl⟩)
  | release _ hholds =>
    exact h.goto (fun _ => hholds) (absurd · Bool.false_ne_true) trivial (.inl ⟨_, rfl⟩)
  | discard hdraft =>
    obtain ⟨hholds, hname⟩ := hdraft.sound (h.guarded.sound e.process)
    exact h.goto (fun _ => hholds) (absurd · Bool.false_ne_true) hname (.inl ⟨_, rfl⟩)
  | crash => exact inv_crash h

theorem inv_run {events : List (Event τ)} {fs₀ : FileSystem FileName}
    (hrun : Runs.run (step store) (State.initial fs₀) events = some s) :
    Inv store (store.content fs₀) s :=
  Runs.invariant (Inv store (store.content fs₀)) (fun _ _ _ h hstep => inv_step h hstep)
    ⟨guarded_initial store fs₀, recorded_initial store fs₀⟩ hrun

/-! ### What becomes of the store and of who reads it -/

theorem decideStep_fs (additions : Additions) (before : Option (List UInt8)) :
    (decideStep s t additions before).fs = s.fs := by
  rcases decideStep_cases s t additions before with ⟨verdict, -, hstep⟩ | ⟨added, text, -, -, hstep⟩
  · rw [hstep]
    rfl
  · rw [hstep]
    rfl

/-- What a call does. -/
theorem call_eq {additions : Additions} (h : step store s (.call t additions) = some s') :
    s'.pc t = .making additions ∧ s'.log = s.log ∧ s'.fs = s.fs := by
  rw [step] at h
  split at h <;> cases h
  · exact ⟨State.pc_goto _ _ _, rfl, rfl⟩
  · exact ⟨State.pc_goto _ _ _, rfl, rfl⟩

/-- What a step does to the directory. -/
theorem fs_of_step {e : Event τ} (h : step store s e = some s') :
    s'.fs = s.fs ∨
      (∃ name inode, isTemporaryName name = true ∧ s.fs.create [name] = .ok (s'.fs, inode)) ∨
      (∃ t draft temporary inode written piece, s.pc t = .writing draft temporary inode written ∧
        s'.fs = s.fs.writeAt inode written piece) ∨
      (∃ t draft temporary, e = .step t ∧ s.pc t = .replacing draft temporary ∧
        s.fs.rename [temporary] store.place = .ok s'.fs ∧
        s'.pc t = .removing draft.additions temporary (.ok draft.added)) ∨
      (∃ t additions temporary result, s.pc t = .removing additions temporary result ∧
        s.fs.removeFile [temporary] = .ok s'.fs) := by
  cases transition_of_step h with
  | missing | read => exact .inl (decideStep_fs _ _)
  | create hpc hname hfs => exact .inr (.inl ⟨_, _, hname, hfs⟩)
  | write hpc => exact .inr (.inr (.inl ⟨_, _, _, _, _, _, hpc, rfl⟩))
  | replace hpc hfs =>
    exact .inr (.inr (.inr (.inl ⟨_, _, _, rfl, hpc, hfs, State.pc_change _ _ _ _⟩)))
  | remove hpc hfs => exact .inr (.inr (.inr (.inr ⟨_, _, _, _, hpc, hfs⟩)))
  | call | mkdir | openLock | lock | found | close | sync | chmod | removed | unlock | quit
  | release | discard | crash => exact .inl rfl

/-- What a step of a call is to the call: it is the same one, and its merge may be decided. -/
structure Continues (s s' : State τ) (t : τ) : Prop where
  calls : s'.calls = s.calls
  additions : ∀ additions, (s'.pc t).additions? = some additions →
    (s.pc t).additions? = some additions
  log : s'.log = s.log ∨ ∃ entry, s'.log = s.log ++ [entry] ∧ entry.caller = t ∧
    entry.call = s.calls t ∧ (s.pc t).additions? = some entry.additions

theorem continues_goto {p : Pc} (h : p.additions? = (s.pc t).additions?) :
    Continues s (s.goto t p) t :=
  ⟨rfl, fun additions hpc => by rwa [State.pc_goto, h] at hpc, .inl rfl⟩

theorem continues_change (h : pc.additions? = (s.pc t).additions?) :
    Continues s (s.change t fs pc) t :=
  ⟨rfl, fun additions hpc => by rwa [State.pc_change, h] at hpc, .inl rfl⟩

theorem continues_record {additions : Additions} {before after : Option (List UInt8)}
    {verdict : Result} (hpc : (s.pc t).additions? = some additions)
    (h : pc.additions? = some additions) :
    Continues s ((s.record t additions before verdict after).change t fs pc) t :=
  ⟨rfl, fun additions hadditions => by rwa [State.pc_change, h, ← hpc] at hadditions,
    .inr ⟨_, rfl, rfl, rfl, hpc⟩⟩

theorem continues_decideStep {additions : Additions} {before : Option (List UInt8)}
    (hpc : (s.pc t).additions? = some additions) :
    Continues s (decideStep s t additions before) t := by
  rcases decideStep_cases s t additions before with
    ⟨verdict, -, hstep⟩ | ⟨added, text, -, -, hstep⟩
  · rw [hstep]
    exact continues_record hpc rfl
  · rw [hstep]
    exact continues_goto hpc.symm

omit [DecidableEq τ] in
theorem Continues.setLock {u : State τ} (h : Continues s u t) (lock : Option τ) :
    Continues s { u with lock := lock } t := ⟨h.calls, h.additions, h.log⟩

omit [DecidableEq τ] in
theorem Pc.HasDraft.additions {draft : Draft} {temporary : FileName}
    (hdraft : pc.HasDraft draft temporary) : pc.additions? = some draft.additions := by
  rcases hdraft with ⟨inode, written, rfl⟩ | rfl | rfl | rfl <;> rfl

/-- **What is not a call goes on with a call.** -/
theorem continues_of_step {e : Event τ} (h : step store s e = some s')
    (hcall : ∀ t additions, e ≠ .call t additions) : Continues s s' e.process := by
  cases transition_of_step h with
  | call => exact absurd rfl (hcall _ _)
  | mkdir hpc | openLock hpc | found hpc | close hpc | sync hpc | chmod hpc | removed hpc =>
    exact continues_goto (congrArg Pc.additions? hpc).symm
  | @lock t additions hpc =>
    have hgoto : Continues s (s.goto t (.looking additions)) t :=
      continues_goto (congrArg Pc.additions? hpc).symm
    exact hgoto.setLock _
  | @unlock t additions result hpc =>
    have hgoto : Continues s (s.goto t (.done additions result)) t :=
      continues_goto (congrArg Pc.additions? hpc).symm
    exact hgoto.setLock _
  | missing hpc | read hpc => exact continues_decideStep (congrArg Pc.additions? hpc)
  | create hpc | write hpc | remove hpc =>
    exact continues_change (congrArg Pc.additions? hpc).symm
  | replace hpc => exact continues_record (congrArg Pc.additions? hpc) rfl
  | quit hadditions | release hadditions => exact continues_goto hadditions.symm
  | discard hdraft => exact continues_goto hdraft.additions.symm
  | @crash t =>
    refine ⟨rfl, fun additions hpc => ?_, .inl rfl⟩
    change (Function.update s.pc t .crashed t).additions? = some additions at hpc
    rw [Function.update_self] at hpc
    cases hpc

/-- **No merge is forgotten.** -/
theorem log_of_step {e : Event τ} (h : step store s e = some s') : s.log <+: s'.log := by
  by_cases hcall : ∃ t additions, e = .call t additions
  · obtain ⟨t, additions, rfl⟩ := hcall
    rw [(call_eq h).2.1]
  · have hcontinues := continues_of_step h fun t additions he => hcall ⟨t, additions, he⟩
    rcases hcontinues.log with hlog | ⟨entry, hlog, -⟩
    · exact hlog ▸ List.prefix_rfl
    · exact hlog ▸ List.prefix_append _ _

/-- **The store is replaced or left alone**: only the last step of a merge that adds something
replaces it, and by what the merge comes to. -/
theorem store_of_step (h : Inv store first s) {e : Event τ} (hstep : step store s e = some s') :
    s.fs.Keeps s'.fs store.place ∨
      ∃ t draft temporary, e = .step t ∧ s.pc t = .replacing draft temporary ∧
        s'.pc t = .removing draft.additions temporary (.ok draft.added) ∧ draft.added ≠ [] ∧
        merge (store.content s.fs) draft.additions =
          (.ok draft.added, store.content s'.fs) := by
  rcases fs_of_step hstep with hfs | ⟨name, inode, hname, hfs⟩ |
    ⟨t, draft, temporary, inode, written, piece, hpc, hfs⟩ |
    ⟨t, draft, temporary, he, hpc, hfs, hpc'⟩ | ⟨t, additions, temporary, result, hpc, hfs⟩
  · exact .inl (hfs ▸ FileSystem.Keeps.refl _ _)
  · exact .inl ((FileSystem.create_eq hfs).2.2 _ (place_ne hname))
  · obtain ⟨-, hname, -, hnode, -⟩ :
        (Pc.writing draft temporary inode written).Sound store s.fs := hpc ▸ h.guarded.sound t
    rw [hfs]
    exact .inl (FileSystem.keeps_writeAt fun hp =>
      place_ne hname (s.fs.one_place _ _ _ hp hnode))
  · obtain ⟨hdecided, -, hlook⟩ : (Pc.replacing draft temporary).Sound store s.fs :=
      hpc ▸ h.guarded.sound t
    refine .inr ⟨t, draft, temporary, he, hpc, hpc', hdecided.2, ?_⟩
    rw [content_of_rename hlook hfs]
    exact hdecided.1
  · have hname : (Pc.removing additions temporary result).Sound store s.fs :=
      hpc ▸ h.guarded.sound t
    exact .inl ((FileSystem.removeFile_eq hfs).2 _ (place_ne hname))

/-- A file that a reader has opened as the store: it is at no other place. -/
structure Opened (store : Store) (i : ℕ) (contents : List UInt8) (s : State τ) : Prop where
  below : i < s.fs.next
  data : s.fs.data i = contents
  place : ∀ p, s.fs.node p = some (.file i) → p = store.place

theorem opened_step (h : Inv store first s) {i : ℕ} {contents : List UInt8}
    (hi : Opened store i contents s) {e : Event τ} (hstep : step store s e = some s') :
    Opened store i contents s' := by
  have hspared : s.fs.Spares s'.fs i → Opened store i contents s' := fun hs =>
    ⟨Nat.lt_of_lt_of_le hi.below hs.next, hs.data.trans hi.data,
      fun p hp => hi.place p (hs.node p hp)⟩
  -- what is at a temporary place is no file of a reader
  have htemp : ∀ name, isTemporaryName name = true → s.fs.node [name] ≠ some (.file i) :=
    fun name hname hn => place_ne hname (hi.place _ hn).symm
  rcases fs_of_step hstep with hfs | ⟨name, inode, hname, hfs⟩ |
    ⟨t, draft, temporary, inode, written, piece, hpc, hfs⟩ |
    ⟨t, draft, temporary, he, hpc, hfs, hpc'⟩ | ⟨t, additions, temporary, result, hpc, hfs⟩
  · exact hspared (hfs ▸ FileSystem.Spares.refl _ _)
  · exact hspared (FileSystem.spares_create hfs hi.below (htemp name hname))
  · obtain ⟨-, hname, -, hnode, -⟩ :
        (Pc.writing draft temporary inode written).Sound store s.fs := hpc ▸ h.guarded.sound t
    have hne : i ≠ inode := fun hne => htemp temporary hname (hne ▸ hnode)
    exact hspared (hfs ▸ FileSystem.spares_writeAt hne)
  · obtain ⟨-, hname, -⟩ : (Pc.replacing draft temporary).Sound store s.fs :=
      hpc ▸ h.guarded.sound t
    exact hspared (FileSystem.spares_rename hfs (htemp temporary hname))
  · exact hspared (FileSystem.spares_removeFile hfs)

/-- What holds later. -/
theorem later_run (h : Inv store first s) {events : List (Event τ)}
    (hrun : Runs.run (step store) s events = some s') :
    Inv store first s' ∧ s.log <+: s'.log :=
  Runs.invariant (fun u => Inv store first u ∧ s.log <+: u.log)
    (fun _ _ _ hu hstep => ⟨inv_step hu.1 hstep, hu.2.trans (log_of_step hstep)⟩)
    ⟨h, List.prefix_rfl⟩ hrun

/-- **A reader sees one version**: the file it has opened as the store keeps its contents. -/
theorem data_of_run (h : Inv store first s) {events : List (Event τ)}
    (hrun : Runs.run (step store) s events = some s') {i : ℕ}
    (hopen : s.fs.node store.place = some (.file i)) : s'.fs.data i = s.fs.data i := by
  have hopened : Opened store i (s.fs.data i) s :=
    ⟨s.fs.fresh _ i hopen, rfl, fun p hp => s.fs.one_place p _ i hp hopen⟩
  have hend := Runs.invariant (fun u => Inv store first u ∧ Opened store i (s.fs.data i) u)
    (fun _ _ _ hu hstep => ⟨inv_step hu.1 hstep, opened_step hu.1 hu.2 hstep⟩) ⟨h, hopened⟩ hrun
  exact hend.2.data

theorem inv_reaches (h : Inv store first s) (hreaches : Runs.Reaches (step store) s s') :
    Inv store first s' := by
  obtain ⟨events, hrun⟩ := hreaches
  exact (later_run h hrun).1

/-! ### A call that nobody disturbs -/

/-- Since a state, nobody but a process has done anything, and it has begun no call. -/
structure AloneSince (s₁ : State τ) (t : τ) (s : State τ) : Prop where
  calls : s.calls = s₁.calls
  additions : ∀ additions, (s.pc t).additions? = some additions →
    (s₁.pc t).additions? = some additions
  log : ∃ new, s.log = s₁.log ++ new ∧ ∀ entry ∈ new, entry.caller = t ∧
    entry.call = s₁.calls t ∧ (s₁.pc t).additions? = some entry.additions

theorem aloneSince_step {s₁ : State τ} (h : AloneSince s₁ t s) {e : Event τ}
    (hprocess : e.process = t) (hcall : ∀ t additions, e ≠ .call t additions)
    (hstep : step store s e = some s') : AloneSince s₁ t s' := by
  obtain ⟨hcalls, hadditions, hlog⟩ := continues_of_step hstep hcall
  rw [hprocess] at hadditions hlog
  refine ⟨hcalls.trans h.calls, fun a ha => h.additions a (hadditions a ha), ?_⟩
  obtain ⟨new, hnew, hown⟩ := h.log
  rcases hlog with hlog | ⟨entry, hlog, hcaller, hnumber, hentry⟩
  · exact ⟨new, hlog.trans hnew, hown⟩
  · refine ⟨new ++ [entry], by rw [hlog, hnew, List.append_assoc], fun e he => ?_⟩
    rcases List.mem_append.mp he with he | he
    · exact hown e he
    · obtain rfl := List.mem_singleton.mp he
      exact ⟨hcaller, hnumber.trans (congrFun h.calls t), h.additions _ hentry⟩

/-- **A call that nobody disturbs does what a merge does**, or fails and has replaced the
store or not. -/
theorem undisturbed (h : Inv store first s) {additions : Additions} {s₁ : State τ}
    (hcall : step store s (.call t additions) = some s₁) {later : List (Event τ)}
    (hlater : ∀ e ∈ later, e.process = t ∧ ∀ t additions, e ≠ .call t additions)
    (hrun : Runs.run (step store) s₁ later = some s') {additions' : Additions} {result : Result}
    (hdone : s'.pc t = .done additions' result) :
    additions' = additions ∧
      ((result, store.content s'.fs) = merge (store.content s.fs) additions ∨
        (∃ e, result = .error (.os e)) ∧ (store.content s'.fs = store.content s.fs ∨
          store.content s'.fs = (merge (store.content s.fs) additions).2)) := by
  have h₁ := inv_step h hcall
  obtain ⟨hmaking, -, hfs₁⟩ := call_eq hcall
  have hpc₁ : (s₁.pc t).additions? = some additions := by rw [hmaking]; rfl
  have hpending₁ : (s₁.pc t).pending = true := by rw [hmaking]; rfl
  have hstart : AloneSince s₁ t s₁ :=
    ⟨rfl, fun _ ha => ha, [], (List.append_nil _).symm, fun _ he => (nomatch he)⟩
  obtain ⟨h', halone⟩ := Runs.invariant_of_guarded
    (fun u => Inv store first u ∧ AloneSince s₁ t u)
    (fun _ e _ hu (hg : e.process = t ∧ ∀ t additions, e ≠ .call t additions) hstep =>
      ⟨inv_step hu.1 hstep, aloneSince_step hu.2 hg.1 hg.2 hstep⟩) ⟨h₁, hstart⟩
    (Runs.guarded_of_forall_mem (fun e he _ => hlater e he) _) hrun
  obtain rfl : additions' = additions := by
    have hsame := halone.additions additions' (by rw [hdone]; rfl)
    exact Option.some.inj (hsame.symm.trans hpc₁)
  refine ⟨rfl, ?_⟩
  obtain ⟨new, hnew, hown⟩ := halone.log
  have hchain : Chain (store.content s.fs) new (store.content s'.fs) := by
    have hbefore := h₁.recorded.chain
    have hafter := h'.recorded.chain
    rw [hfs₁] at hbefore
    rw [hnew] at hafter
    exact hbefore.drop hafter
  have hreported : Reported s'.log t (s'.calls t) additions' result := by
    have hreports := h'.recorded.reports t
    rwa [hdone] at hreports
  have hdistinct := h'.recorded.distinct
  rw [hnew] at hdistinct hreported
  -- the call has one merge at most
  match new, hown, hchain, hdistinct, hreported with
  | [], _, hchain, _, hreported =>
    rcases hreported with herror | ⟨e, he, hcaller, hnumber, -⟩
    · exact .inr ⟨herror, .inl hchain⟩
    · rw [List.append_nil] at he
      rw [halone.calls] at hnumber
      exact absurd hnumber (h₁.recorded.pending t hpending₁ e he hcaller)
  | [entry], hown, ⟨hbefore, hmerge, hlast⟩, _, hreported =>
    obtain ⟨-, -, hentry⟩ := hown entry List.mem_cons_self
    obtain rfl := Option.some.inj (hentry.symm.trans hpc₁)
    rw [hbefore, ← hlast] at hmerge
    rcases hreported with herror | ⟨e, he, hcaller, hnumber, -, hverdict⟩
    · exact .inr ⟨herror, .inr (by rw [hmerge])⟩
    · rcases List.mem_append.mp he with he | he
      · rw [halone.calls] at hnumber
        exact absurd hnumber (h₁.recorded.pending t hpending₁ e he hcaller)
      · obtain rfl := List.mem_singleton.mp he
        exact .inl (by rw [hmerge, hverdict])
  | entry :: entry' :: _, hown, _, hdistinct, _ =>
    have hpair := (List.pairwise_append.mp hdistinct).2.1
    obtain ⟨hcaller, hnumber, -⟩ := hown entry List.mem_cons_self
    obtain ⟨hcaller', hnumber', -⟩ := hown entry' (List.mem_cons_of_mem _ List.mem_cons_self)
    exact absurd (hnumber.trans hnumber'.symm)
      ((List.pairwise_cons.mp hpair).1 entry' List.mem_cons_self (hcaller.trans hcaller'.symm))

/-! ### A call that nothing keeps from its end -/

omit [DecidableEq τ] in
/-- What a temporary file needs: a name that is free, in a directory that is there. -/
structure Ready (store : Store) (s : State τ) : Prop where
  dir : s.fs.node [] = some .dir
  not_dir : s.fs.node store.place ≠ some .dir
  free : ∃ name, isTemporaryName name = true ∧ s.fs.node [name] = none

variable (store) in
/-- A process that is through gives up the lock. -/
theorem reaches_unlock {additions : Additions} {result : Result}
    (hpc : s.pc t = .unlocking additions result) :
    ∃ s', Runs.Reaches (step store) s s' ∧ s'.pc t = .done additions result ∧
      s'.fs = s.fs ∧ s'.lock = none := by
  have hstep : step store s (.step t) =
      some { s.goto t (.done additions result) with lock := none } := by
    rw [step, stepProcess, hpc]
  exact ⟨_, Runs.Reaches.head _ hstep .refl, Function.update_self _ _ _, rfl, rfl⟩

variable (store) in
/-- A process takes the lock. -/
theorem reaches_looking (additions : Additions) (hlock : s.lock = none)
    (hpc : s.pc t = .idle ∨ ∃ additions' result, s.pc t = .done additions' result) :
    ∃ s', Runs.Reaches (step store) s s' ∧ s'.pc t = .looking additions ∧ s'.fs = s.fs := by
  obtain ⟨s₁, hcall, hpc₁, hfs₁, hlock₁⟩ : ∃ s₁, step store s (.call t additions) = some s₁ ∧
      s₁.pc t = .making additions ∧ s₁.fs = s.fs ∧ s₁.lock = none := by
    refine ⟨{ s.goto t (.making additions) with
      calls := Function.update s.calls t (s.calls t + 1) }, ?_, Function.update_self _ _ _, rfl,
      hlock⟩
    rcases hpc with hpc | ⟨additions', result, hpc⟩ <;> rw [step, hpc]
  have hmake : step store s₁ (.step t) = some (s₁.goto t (.openingLock additions)) := by
    rw [step, stepProcess, hpc₁]
  have hopen : step store (s₁.goto t (.openingLock additions)) (.step t) =
      some ((s₁.goto t (.openingLock additions)).goto t (.locking additions)) := by
    rw [step, stepProcess, State.pc_goto]
  have htake : step store ((s₁.goto t (.openingLock additions)).goto t (.locking additions))
      (.step t) = some { ((s₁.goto t (.openingLock additions)).goto t (.locking additions)).goto t
        (.looking additions) with lock := some t } := by
    rw [step, stepProcess, State.pc_goto]
    exact if_pos hlock₁
  exact ⟨_, .head _ hcall (.head _ hmake (.head _ hopen (.head _ htake .refl))),
    Function.update_self _ _ _, hfs₁⟩

/-- A process reads the store and decides. -/
theorem reaches_decideStep {additions : Additions} (hpc : s.pc t = .looking additions)
    (hdir : s.fs.node store.place ≠ some .dir) :
    ∃ s', Runs.Reaches (step store) s (decideStep s' t additions (store.content s.fs)) ∧
      s'.fs = s.fs := by
  cases hnode : s.fs.node store.place with
  | none =>
    refine ⟨s, .head (.step t) ?_ .refl, rfl⟩
    rw [step, stepProcess, hpc]
    dsimp only
    rw [if_pos hnode, Store.content, FileSystem.look, hnode]
    rfl
  | some n =>
    cases n with
    | dir => exact absurd hnode hdir
    | file i =>
      have hlook := FileSystem.look_of_file hnode
      have hread : step store s (.step t) = some (s.goto t (.reading additions)) := by
        rw [step, stepProcess, hpc]
        dsimp only
        rw [if_neg (by rw [hnode]; exact Option.some_ne_none _)]
      refine ⟨s.goto t (.reading additions), .head _ hread (.head (.step t) ?_ .refl), rfl⟩
      have hlook' : (s.goto t (.reading additions)).fs.look store.place =
          some (.file (s.fs.data i)) := hlook
      rw [step, stepProcess, State.pc_goto]
      dsimp only
      rw [hlook', Store.content, hlook]

/-- The temporary file is made and filled. -/
theorem reaches_syncing (hready : Ready store s) {draft : Draft} (hpc : s.pc t = .creating draft) :
    ∃ s' temporary, Runs.Reaches (step store) s s' ∧ s'.pc t = .syncing draft temporary ∧
      isTemporaryName temporary = true ∧ s'.fs.node [] = some .dir ∧
      s'.fs.node store.place ≠ some .dir := by
  obtain ⟨name, hname, hfree⟩ := hready.free
  obtain ⟨fs, inode, hfs⟩ : ∃ fs inode, s.fs.create [name] = .ok (fs, inode) := by
    have hparent : s.fs.parentError [name] = none := FileSystem.parentError_eq_none hready.dir
    unfold FileSystem.create
    split
    · rename_i hnode
      rw [hfree] at hnode
      cases hnode
    · rename_i hnode
      rw [hfree] at hnode
      cases hnode
    · rename_i herror
      rw [hparent] at herror
      cases herror
    · exact ⟨_, _, rfl⟩
  have hcreate : step store s (.create t name) =
      some (s.change t fs (.writing draft name inode 0)) := by
    rw [step, hpc]
    dsimp only
    rw [if_pos ⟨hname, hfree⟩, hfs]
  obtain ⟨hnode, -, hkeep⟩ := FileSystem.create_eq hfs
  have hdir : fs.node [] = some .dir := by
    rw [(hkeep [] (by simp)).node, hready.dir]
  have hnot_dir : fs.node store.place ≠ some .dir := by
    rw [(hkeep _ (place_ne hname)).node]
    exact hready.not_dir
  have hclose : ∀ u : State τ, u.pc t = .writing draft name inode draft.bytes.length →
      step store u (.step t) = some (u.goto t (.syncing draft name)) := by
    intro u hu
    rw [step, stepProcess, hu]
    exact if_pos rfl
  by_cases hempty : draft.bytes.length = 0
  · have hpc' : (s.change t fs (.writing draft name inode 0)).pc t =
        .writing draft name inode draft.bytes.length := by
      rw [hempty]
      exact Function.update_self _ _ _
    exact ⟨_, name, .head _ hcreate (.head _ (hclose _ hpc') .refl), Function.update_self _ _ _,
      hname, hdir, hnot_dir⟩
  · have hwrite : step store (s.change t fs (.writing draft name inode 0))
        (.write t draft.bytes.length) = some ((s.change t fs (.writing draft name inode 0)).change t
          (fs.writeAt inode 0 ((draft.bytes.drop 0).take draft.bytes.length))
          (.writing draft name inode (0 + draft.bytes.length))) := by
      rw [step, State.pc_change]
      exact if_pos ⟨Nat.pos_of_ne_zero hempty, Nat.le_of_eq (Nat.zero_add _)⟩
    have hpc' : ((s.change t fs (.writing draft name inode 0)).change t
        (fs.writeAt inode 0 ((draft.bytes.drop 0).take draft.bytes.length))
        (.writing draft name inode (0 + draft.bytes.length))).pc t =
          .writing draft name inode draft.bytes.length := by
      rw [Nat.zero_add]
      exact Function.update_self _ _ _
    exact ⟨_, name, .head _ hcreate (.head _ hwrite (.head _ (hclose _ hpc') .refl)),
      Function.update_self _ _ _, hname, hdir, hnot_dir⟩

theorem step_replacing {draft : Draft} {temporary : FileName}
    (hpc : s.pc t = .replacing draft temporary)
    (hfs : s.fs.rename [temporary] store.place = .ok fs) :
    step store s (.step t) = some ((s.record t draft.additions (store.content s.fs)
      (.ok draft.added) (some draft.bytes)).change t fs
        (.removing draft.additions temporary (.ok draft.added))) := by
  rw [step, stepProcess, hpc]
  dsimp only
  rw [hfs]

/-- The temporary file replaces the store. -/
theorem reaches_replaced (h : Inv store first s) {draft : Draft} {temporary : FileName}
    (hpc : s.pc t = .syncing draft temporary) (hdir : s.fs.node [] = some .dir)
    (hnot_dir : s.fs.node store.place ≠ some .dir) :
    ∃ s', Runs.Reaches (step store) s s' ∧
      s'.pc t = .unlocking draft.additions (.ok draft.added) ∧
      store.content s'.fs = some draft.bytes := by
  obtain ⟨-, hname, hlook⟩ : (Pc.syncing draft temporary).Sound store s.fs :=
    hpc ▸ h.guarded.sound t
  obtain ⟨fs, hfs⟩ : ∃ fs, s.fs.rename [temporary] store.place = .ok fs := by
    have hparent : s.fs.parentError store.place = none := FileSystem.parentError_eq_none hdir
    unfold FileSystem.rename
    split
    · rw [if_neg hnot_dir, hparent]
      exact ⟨_, rfl⟩
    · rename_i hnode
      obtain ⟨n, hn, hentry⟩ := Option.map_eq_some_iff.mp hlook
      cases n with
      | dir => cases hentry
      | file i => exact absurd hn (hnode i)
  obtain ⟨-, -, -, -, hgone, -⟩ := FileSystem.rename_eq hfs
  have hsync : step store s (.step t) = some (s.goto t (.chmodding draft temporary)) := by
    rw [step, stepProcess, hpc]
  have hchmod : step store (s.goto t (.chmodding draft temporary)) (.step t) =
      some ((s.goto t (.chmodding draft temporary)).goto t (.replacing draft temporary)) := by
    rw [step, stepProcess, State.pc_goto]
  obtain ⟨u, hreplace, hpc', hfs'⟩ : ∃ u, step store ((s.goto t (.chmodding draft temporary)).goto
      t (.replacing draft temporary)) (.step t) = some u ∧
        u.pc t = .removing draft.additions temporary (.ok draft.added) ∧ u.fs = fs :=
    ⟨_, step_replacing (State.pc_goto _ _ _) hfs, State.pc_change _ _ _ _, rfl⟩
  have hmissing : u.fs.node [temporary] = none := by
    rw [hfs']
    exact hgone (place_ne hname).symm
  have hremove : step store u (.step t) =
      some (u.goto t (.unlocking draft.additions (.ok draft.added))) := by
    have hnothing : u.fs.removeFile [temporary] =
        .error "No such file or directory (os error 2)" := by
      rw [FileSystem.removeFile, hmissing]
    rw [step, stepProcess, hpc']
    dsimp only
    rw [hnothing]
    exact if_pos hmissing
  refine ⟨_, .head _ hsync (.head _ hchmod (.head _ hreplace (.head _ hremove .refl))),
    Function.update_self _ _ _, ?_⟩
  change store.content u.fs = _
  rw [hfs']
  exact content_of_rename hlook hfs

/-- **A call that nothing keeps from its end does what a merge does.** -/
theorem reaches_done (h : Inv store first s) (hready : Ready store s) (additions : Additions)
    (hlock : s.lock = none)
    (hpc : s.pc t = .idle ∨ ∃ additions' result, s.pc t = .done additions' result) :
    ∃ s', Runs.Reaches (step store) s s' ∧ s'.lock = none ∧
      s'.pc t = .done additions (merge (store.content s.fs) additions).1 ∧
      store.content s'.fs = (merge (store.content s.fs) additions).2 := by
  obtain ⟨s₁, hr₁, hpc₁, hfs₁⟩ := reaches_looking store additions hlock hpc
  obtain ⟨s₂, hr₂, hfs₂⟩ := reaches_decideStep hpc₁ (hfs₁ ▸ hready.not_dir)
  have hr := hr₁.trans hr₂
  rw [hfs₁] at hr hfs₂
  rcases decideStep_cases s₂ t additions (store.content s.fs) with
    ⟨verdict, hmerge, hstep⟩ | ⟨added, text, hmerge, -, hstep⟩
  · rw [hstep] at hr
    obtain ⟨s', hr', hpc', hfs', hlock'⟩ := reaches_unlock store
      (State.pc_goto (s₂.record t additions (store.content s.fs) verdict (store.content s.fs)) t
        (.unlocking additions verdict))
    refine ⟨s', hr.trans hr', hlock', by rw [hmerge]; exact hpc', ?_⟩
    rw [hmerge, hfs']
    exact congrArg store.content hfs₂
  · rw [hstep] at hr
    have hready₂ : Ready store (s₂.goto t (.creating ⟨additions, added, text⟩)) :=
      ⟨hfs₂ ▸ hready.dir, hfs₂ ▸ hready.not_dir, hfs₂ ▸ hready.free⟩
    obtain ⟨s₃, temporary, hr₃, hpc₃, hname, hdir, hnot_dir⟩ :=
      reaches_syncing hready₂ (State.pc_goto _ _ _)
    obtain ⟨s₄, hr₄, hpc₄, hcontent⟩ :=
      reaches_replaced (inv_reaches h (hr.trans hr₃)) hpc₃ hdir hnot_dir
    obtain ⟨s', hr', hpc', hfs', hlock'⟩ := reaches_unlock store hpc₄
    refine ⟨s', ((hr.trans hr₃).trans hr₄).trans hr', hlock', by rw [hmerge]; exact hpc', ?_⟩
    rw [hmerge, hfs']
    exact hcontent

/-! ### Merging alone and with others -/

/-- **Merging is additive, safe from conflicts and idempotent, and loses nothing.** First what a
merge is: without a conflict it makes the store say the union, after its old text up to the
last newlines, and returns the names that were absent, and again it does nothing; with one it
raises and does nothing. Then, after any run of any processes, failures and deaths included:
what was decided is a chain of merges from the first content to the present one, at most one
of each call, and what a call has returned is the verdict of its merge or an error of the
system. The store is untouched but for the replacement that ends a merge which adds something.
A call that finds the lock free and is left alone comes to its end and has done what a merge
does, and can end otherwise by an error of the system only. Whatever happens later, the store
has all the keys of each call that has succeeded, and a reader that has it open reads on what
it has opened. -/
theorem mergeStore_correct (store : Store) :
    (∀ (before : Option (List UInt8)) (additions : Additions) (text : Text) (existing : Keys),
      storeText before = some text → parseStore text = .ok existing →
      (Agrees existing additions → ∃ added after text' existing',
        merge before additions = (.ok added, after) ∧ added.Nodup ∧
        (∀ name, name ∈ added ↔
          (additions.lookup name).isSome = true ∧ existing.lookup name = none) ∧
        storeText after = some text' ∧ parseStore text' = .ok existing' ∧
        (∀ name, existing'.lookup name = (additions.lookup name).or (existing.lookup name)) ∧
        rstripNewlines text <+: text' ∧ merge after additions = (.ok [], after)) ∧
      (¬Agrees existing additions → ∃ e, e.isValueError = true ∧
        merge before additions = (.error e, before))) ∧
    ∀ (fs₀ : FileSystem FileName) (events : List (Event τ)) (s : State τ),
      Runs.run (step store) (State.initial fs₀) events = some s →
      Chain (store.content fs₀) s.log (store.content s.fs) ∧
      (s.log.Pairwise fun e e' => e.caller = e'.caller → e.call ≠ e'.call) ∧
      (∀ t additions result, s.pc t = .done additions result →
        Reported s.log t (s.calls t) additions result) ∧
      (∀ e s', step store s e = some s' → s.fs.Keeps s'.fs store.place ∨
        ∃ t draft temporary, e = .step t ∧ s.pc t = .replacing draft temporary ∧
          s'.pc t = .removing draft.additions temporary (.ok draft.added) ∧ draft.added ≠ [] ∧
          merge (store.content s.fs) draft.additions =
            (.ok draft.added, store.content s'.fs)) ∧
      (∀ t additions, s.lock = none → Ready store s →
        (s.pc t = .idle ∨ ∃ additions' result, s.pc t = .done additions' result) →
        ∃ s', Runs.Reaches (step store) s s' ∧ s'.lock = none ∧
          s'.pc t = .done additions (merge (store.content s.fs) additions).1 ∧
          store.content s'.fs = (merge (store.content s.fs) additions).2) ∧
      (∀ t additions s₁ later s' additions' result,
        step store s (.call t additions) = some s₁ →
        (∀ e ∈ later, e.process = t ∧ ∀ t additions, e ≠ .call t additions) →
        Runs.run (step store) s₁ later = some s' → s'.pc t = .done additions' result →
        additions' = additions ∧
          ((result, store.content s'.fs) = merge (store.content s.fs) additions ∨
            (∃ e, result = .error (.os e)) ∧ (store.content s'.fs = store.content s.fs ∨
              store.content s'.fs = (merge (store.content s.fs) additions).2))) ∧
      ∀ later s', Runs.run (step store) s later = some s' →
        (∀ t additions added, s.pc t = .done additions (.ok added) →
          Holds (store.content s'.fs) additions) ∧
        ∀ i, s.fs.node store.place = some (.file i) → s'.fs.data i = s.fs.data i := by
  refine ⟨fun before additions text existing htext hparse => ⟨fun hagrees => ?_, ?_⟩, ?_⟩
  · obtain ⟨after, text', existing', hmerge, hrest⟩ := merge_of_accepted htext hparse hagrees
    exact ⟨_, after, text', existing', hmerge, nodup_absentNames, fun _ => mem_absentNames, hrest⟩
  · intro hconflict
    obtain ⟨name, hmerge, -⟩ := merge_of_conflict htext hparse hconflict
    exact ⟨_, rfl, hmerge⟩
  · intro fs₀ events s hrun
    have h := inv_run hrun
    refine ⟨h.recorded.chain, h.recorded.distinct, fun t additions result hpc => ?_,
      fun e s' hstep => store_of_step h hstep,
      fun t additions hlock hready hpc => reaches_done h hready additions hlock hpc,
      fun t additions s₁ later s' additions' result hcall hlater hrun hdone =>
        undisturbed h hcall hlater hrun hdone,
      fun later s' hlater => ⟨fun t additions added hpc => ?_,
        fun i hopen => data_of_run h hlater hopen⟩⟩
    · have hreports := h.recorded.reports t
      rwa [hpc] at hreports
    · have hreports : Reported s.log t (s.calls t) additions (.ok added) := by
        have hreports := h.recorded.reports t
        rwa [hpc] at hreports
      obtain ⟨h', hlog⟩ := later_run h hlater
      rcases hreports with ⟨e, herror⟩ | ⟨e, he, -, -, rfl, hverdict⟩
      · cases herror
      · exact h'.recorded.chain.holds_of_mem (hlog.subset he) hverdict

end Steps

/-- The store of the sample. -/
def keysStore : Store :=
  ⟨⟨osString "keys.txt", by decide, by decide, by decide, by decide⟩, by decide⟩

/-- A directory with an empty store in it. -/
def storedFiles : FileSystem FileName where
  node p := if p = [] then some .dir else if p = keysStore.place then some (.file 0) else none
  data _ := []
  next := 1
  one_place := by
    intro p q i hp hq
    have hplace : ∀ r, (if r = [] then some Node.dir else
        if r = keysStore.place then some (.file 0) else none) = some (.file i) →
        r = keysStore.place := by
      intro r hr
      split_ifs at hr with hnil hname
      · cases hr
      · exact hname
    rw [hplace p hp, hplace q hq]
  fresh := by
    intro p i hp
    split_ifs at hp
    · cases hp
    · cases hp
      exact Nat.one_pos

/-- A name, with a key of one byte over and over. -/
def addition (name : ℕ) (b : UInt8) : HexText 16 × HexText 32 :=
  (HexText.ofNat 16 name, HexText.ofBytes (List.replicate 16 b) List.length_replicate)

/-- A name that is new. -/
def newName : Additions := ⟨[addition 0x22 0xbb], by decide⟩

/-- The name again, and another one. -/
def moreNames : Additions := ⟨[addition 0x22 0xbb, addition 0x11 0xcc], by decide⟩

/-- Another key for the name. -/
def otherKey : Additions := ⟨[addition 0x22 0xee], by decide⟩

/-- Three calls that wait for the lock. The first writes its text in two pieces, and is through
before the second begins; the third finds a conflict with the first. -/
def concurrentRun : List (Event ℕ) :=
  [.call 0 newName, .call 1 moreNames, .call 2 otherKey] ++
    [0, 1, 2, 0, 1, 2, 0, 0, 0].map .step ++
    [.create 0 ⟨osString "tmpabcdefg1", by decide, by decide, by decide, by decide⟩,
      .write 0 20, .write 0 31] ++ List.replicate 6 (.step 0) ++ List.replicate 3 (.step 1) ++
    [.create 1 ⟨osString "tmpabcdefg2", by decide, by decide, by decide, by decide⟩,
      .write 1 101] ++ List.replicate 6 (.step 1) ++ List.replicate 4 (.step 2)

/-- What is seen of a state: the merges that were decided, and a call that has succeeded. -/
structure Seen where
  decided : List (ℕ × Option (List Text))
  merged : Option Additions
  deriving DecidableEq

/-- The mapping of a call that has succeeded. -/
def State.merged (s : State ℕ) (t : ℕ) : Option Additions :=
  match s.pc t with
  | .done additions (.ok _) => some additions
  | _ => none

/-- What is seen of a state and its first call. -/
def State.seen (s : State ℕ) : Seen :=
  ⟨s.log.map fun e => (e.caller, e.verdict.toOption), s.merged 0⟩

theorem State.pc_of_merged {s : State ℕ} {t : ℕ} {additions : Additions}
    (h : s.merged t = some additions) : ∃ added, s.pc t = .done additions (.ok added) := by
  unfold State.merged at h
  split at h
  · next added hpc => exact ⟨added, Option.some.inj h ▸ hpc⟩
  · cases h

/-- Two names are added and a key is refused, each merge on top of the one before, and the name
of the first call stays. -/
theorem mergeStore_correct_sample :
    ∃ s, Runs.run (step keysStore) (State.initial storedFiles) concurrentRun = some s ∧
      s.seen.decided = [(0, some ["0000000000000022".toList]),
        (1, some ["0000000000000011".toList]), (2, none)] ∧
      Chain (keysStore.content storedFiles) s.log (keysStore.content s.fs) ∧
      ∀ later s', Runs.run (step keysStore) s later = some s' →
        Holds (keysStore.content s'.fs) newName := by
  have hseen : (Runs.run (step keysStore) (State.initial storedFiles) concurrentRun).map
      State.seen = some ⟨[(0, some ["0000000000000022".toList]),
        (1, some ["0000000000000011".toList]), (2, none)], some newName⟩ := by decide +kernel
  obtain ⟨s, hrun, hs⟩ := Option.map_eq_some_iff.mp hseen
  obtain ⟨added, hpc⟩ := State.pc_of_merged (congrArg Seen.merged hs)
  obtain ⟨hchain, -, -, -, -, -, hlater⟩ := (mergeStore_correct keysStore).2 _ _ _ hrun
  exact ⟨s, hrun, congrArg Seen.decided hs, hchain,
    fun later s' h => (hlater later s' h).1 0 newName added hpc⟩

end MergeStore

end AssetResolver
