import AssetResolver.Resolution.Namespace
import AssetResolver.Library.Runs
import Mathlib.Logic.Function.Basic

/-!
# Publishing a namespace

`publish_resolution_namespace` of `casc_cache.rs`, run by any number of callers on
one directory: take the lock beside it, judge it, build into a private staging
directory, judge that, clear what an older builder left, and rename.

The machine below takes one file-system operation a step, and any caller may
crash before any of them. Questions are answered by the directory of that moment
(`AssetResolver.DirProgram`), a removal unlinks one file a step in any order, and
what a builder does to its staging directory is a parameter
(`AssetResolver.Publish.Builder`), so that everything here holds for every
`write_cache`.

**The lock makes every judgement current.** What a caller has learnt about the
directory stays true until it lets go of the lock, because whoever changes the
directory holds it: this is `AssetResolver.Publish.Discipline`, and
`AssetResolver.Publish.Discipline.move` is its only step lemma. Instantiated with
the phases of a caller (`AssetResolver.Publish.Knows`) it gives the whole protocol
for a directory that is absent at first: nobody builds once it is there, and
nothing changes it any more.
-/

namespace AssetResolver

namespace Publish

open Runs

/-! ### Places -/

/-- The directory that is published, with the parent and the name without which a
call returns an error at once. -/
structure Site where
  /-- `casc_dir.parent()`. -/
  parent : PathBuf
  /-- `casc_dir.file_name()`. -/
  name : FileName

/-- The name of a staging directory. -/
structure StagingName where
  /-- The process that created it. -/
  pid : ℕ
  /-- The nanoseconds of the epoch at which it did. -/
  nonce : ℕ
  deriving DecidableEq

/-- `casc_dir`. -/
def Site.cascDir (site : Site) : PathBuf := site.parent.join (.ofOs site.name.bytes)

/-- The directory of `create_namespace_staging`. -/
def Site.stagingPath (site : Site) (n : StagingName) : PathBuf :=
  site.parent.join (.ofStr s!".{toStringLossy site.name.bytes}.{n.pid}.{n.nonce}.partial")

/-! ### Callers -/

/-- Where a caller stands. -/
inductive Pc where
  /-- In no call. -/
  | idle : Pc
  /-- `acquire_namespace_lock`. -/
  | locking : Pc
  /-- `resolution_cache_is_fresh(casc_dir)`, so far. -/
  | judging (rest : DirProgram (Except String Bool)) : Pc
  /-- `create_namespace_staging`. -/
  | creating : Pc
  /-- `write_cache(&staging)`. -/
  | writing (n : StagingName) : Pc
  /-- `resolution_cache_is_fresh(staging)`, so far. -/
  | checking (n : StagingName) (rest : DirProgram (Except String Bool)) : Pc
  /-- `casc_dir.exists()`. -/
  | looking (n : StagingName) : Pc
  /-- `remove_dir_all(casc_dir)`. -/
  | removing (n : StagingName) : Pc
  /-- `rename(staging, casc_dir)`. -/
  | renaming (n : StagingName) : Pc
  /-- `staging.exists()`, before `result` is returned. -/
  | tidying (n : StagingName) (result : Except String Unit) : Pc
  /-- `remove_dir_all(&staging)`, before `result` is returned. -/
  | sweeping (n : StagingName) (result : Except String Unit) : Pc
  /-- Dropping the lock and returning. -/
  | returning (result : Except String Unit) : Pc
  /-- `CascResolutionCache::open`, so far. -/
  | opening (rest : DirProgram (Except String Contents)) : Pc

/-- Between acquiring the lock and releasing it. -/
def Pc.Critical : Pc → Prop
  | .idle => False
  | .locking => False
  | .opening _ => False
  | _ => True

/-- What a builder may do to the directory it was given. -/
structure Builder where
  /-- Its operations. -/
  Op : Type
  /-- The directory after an operation, `none` when it is not possible. -/
  apply : Op → Option NamespaceDir → Option (Option NamespaceDir)

/-- The builder nothing is known about: any directory may become any other. -/
def anyBuilder : Builder := ⟨Option NamespaceDir, fun d _ => some d⟩

/-- The file system and the callers. -/
structure State (ι : Type) where
  /-- The caller that holds the lock. -/
  lock : Option ι
  /-- The published directory. -/
  target : Option NamespaceDir
  /-- The staging directories, those of killed builders included. -/
  staging : StagingName → Option NamespaceDir
  /-- Where each caller stands. -/
  pc : ι → Pc

/-- A step of a caller. -/
inductive Event (B : Builder) (ι : Type) where
  /-- Calls `publish_resolution_namespace`. -/
  | publish (c : ι) : Event B ι
  /-- Takes the lock. -/
  | acquire (c : ι) : Event B ι
  /-- Its next operation fails with this text. -/
  | fail (c : ι) (e : String) : Event B ι
  /-- Its next question is answered, or its last answer acted upon. -/
  | inspect (c : ι) : Event B ι
  /-- Creates this staging directory. -/
  | create (c : ι) (n : StagingName) : Event B ι
  /-- One operation of its builder. -/
  | write (c : ι) (op : B.Op) : Event B ι
  /-- Its builder returns. -/
  | written (c : ι) (result : Except String Unit) : Event B ι
  /-- Looks whether the directory is there. -/
  | look (c : ι) : Event B ι
  /-- Unlinks one file of the directory it is removing. -/
  | unlink (c : ι) (f : FileKind) : Event B ι
  /-- Removes the directory, which has become empty. -/
  | rmdir (c : ι) : Event B ι
  /-- Renames its staging directory. -/
  | rename (c : ι) : Event B ι
  /-- Looks whether its staging directory is there. -/
  | tidy (c : ι) : Event B ι
  /-- Drops the lock and returns. -/
  | release (c : ι) : Event B ι
  /-- Its process dies. -/
  | crash (c : ι) : Event B ι
  /-- Calls `CascResolutionCache::open`. -/
  | openCache (c : ι) : Event B ι
  /-- Returns from it. -/
  | close (c : ι) : Event B ι

/-! ### The machine -/

variable {ι : Type} [DecidableEq ι]

/-- A caller moves on. -/
def State.goto (s : State ι) (c : ι) (p : Pc) : State ι :=
  { s with pc := Function.update s.pc c p }

/-- A staging directory changes. -/
def State.stage (s : State ι) (n : StagingName) (d : Option NamespaceDir) : State ι :=
  { s with staging := Function.update s.staging n d }

/-- How a call goes on after its first judgement. -/
def afterJudgement : Except String Bool → Pc
  | .error e => .returning (.error e)
  | .ok true => .returning (.ok ())
  | .ok false => .creating

/-- How a call goes on after the judgement of its staging directory. -/
def afterCheck (site : Site) (n : StagingName) : Except String Bool → Pc
  | .error e => .tidying n (.error e)
  | .ok true => .looking n
  | .ok false => .tidying n (.error s!"incomplete CASC namespace {(site.stagingPath n).display}")

/-- How a call goes on after its builder. -/
def afterWrite (site : Site) (n : StagingName) : Except String Unit → Pc
  | .error e => .tidying n (.error e)
  | .ok () => .checking n (resolutionCacheIsFresh (site.stagingPath n))

/-- Where a failing operation takes a call. -/
def afterFailure (e : String) : Pc → Option Pc
  | .locking => some .idle
  | .creating => some (.returning (.error e))
  | .removing n => some (.tidying n (.error e))
  | .renaming n => some (.tidying n (.error e))
  | .sweeping _ _ => some (.returning (.error e))
  | _ => none

/-- What an event does, `none` when it cannot happen. -/
def step (B : Builder) (site : Site) (s : State ι) : Event B ι → Option (State ι)
  | .publish c =>
    match s.pc c with
    | .idle => some (s.goto c .locking)
    | _ => none
  | .acquire c =>
    match s.pc c, s.lock with
    | .locking, none =>
      some { s.goto c (.judging (resolutionCacheIsFresh site.cascDir)) with lock := some c }
    | _, _ => none
  -- a builder or a judgement that fails has a result of its own
  | .fail c e => (afterFailure e (s.pc c)).map (s.goto c)
  | .inspect c =>
    match s.pc c with
    | .judging (.ret r) => some (s.goto c (afterJudgement r))
    | .judging rest => some (s.goto c (.judging (rest.step (dirAnswer site.cascDir s.target))))
    | .checking n (.ret r) => some (s.goto c (afterCheck site n r))
    | .checking n rest =>
      some (s.goto c (.checking n (rest.step (dirAnswer (site.stagingPath n) (s.staging n)))))
    | .opening rest => some (s.goto c (.opening (rest.step (dirAnswer site.cascDir s.target))))
    | _ => none
  | .create c n =>
    match s.pc c, s.staging n with
    | .creating, none => some ((s.stage n (some .empty)).goto c (.writing n))
    | _, _ => none
  | .write c op =>
    match s.pc c with
    | .writing n => (B.apply op (s.staging n)).map fun d => (s.stage n d).goto c (.writing n)
    | _ => none
  | .written c result =>
    match s.pc c with
    | .writing n => some (s.goto c (afterWrite site n result))
    | _ => none
  | .look c =>
    match s.pc c with
    -- what was there when the call judged it may be a leftover, which has to go first
    | .looking n => some (s.goto c (if s.target.isSome then .removing n else .renaming n))
    | _ => none
  | .unlink c f =>
    match s.pc c with
    | .removing n =>
      match s.target with
      | some d =>
        if d.has f then some { s.goto c (.removing n) with target := some (d.erase f) } else none
      | none => none
    | .sweeping n result =>
      match s.staging n with
      | some d =>
        if d.has f then some ((s.stage n (some (d.erase f))).goto c (.sweeping n result)) else none
      | none => none
    | _ => none
  | .rmdir c =>
    match s.pc c with
    | .removing n =>
      if s.target = some .empty then some { s.goto c (.renaming n) with target := none } else none
    | .sweeping n result =>
      if s.staging n = some .empty then some ((s.stage n none).goto c (.returning result)) else none
    | _ => none
  | .rename c =>
    match s.pc c with
    | .renaming n =>
      -- a directory may replace an absent or an empty one
      match s.staging n with
      | some d =>
        if s.target = none ∨ s.target = some .empty then
          some { (s.stage n none).goto c (.tidying n (.ok ())) with target := some d }
        else none
      | none => none
    | _ => none
  | .tidy c =>
    match s.pc c with
    | .tidying n result =>
      some (s.goto c (if (s.staging n).isSome then .sweeping n result else .returning result))
    | _ => none
  | .release c =>
    match s.pc c with
    | .returning _ => some { s.goto c .idle with lock := none }
    | _ => none
  -- the system releases the lock; the staging directory stays
  | .crash c => some { s.goto c .idle with lock := if s.lock = some c then none else s.lock }
  | .openCache c =>
    match s.pc c with
    | .idle => some (s.goto c (.opening (openResolution site.cascDir)))
    | _ => none
  | .close c =>
    match s.pc c with
    | .opening (.ret _) => some (s.goto c .idle)
    | _ => none

/-- **What a step can do**, one case for each thing a caller can be at. -/
inductive Transition (B : Builder) (site : Site) (s : State ι) : Event B ι → State ι → Prop
  | publish {c} (h : s.pc c = .idle) : Transition B site s (.publish c) (s.goto c .locking)
  | acquire {c} (h : s.pc c = .locking) (hlock : s.lock = none) :
      Transition B site s (.acquire c)
        { s.goto c (.judging (resolutionCacheIsFresh site.cascDir)) with lock := some c }
  | fail {c e p} (h : afterFailure e (s.pc c) = some p) :
      Transition B site s (.fail c e) (s.goto c p)
  | judge {c rest} (h : s.pc c = .judging rest) :
      Transition B site s (.inspect c)
        (s.goto c (.judging (rest.step (dirAnswer site.cascDir s.target))))
  | judged {c r} (h : s.pc c = .judging (.ret r)) :
      Transition B site s (.inspect c) (s.goto c (afterJudgement r))
  | check {c n rest} (h : s.pc c = .checking n rest) :
      Transition B site s (.inspect c)
        (s.goto c (.checking n (rest.step (dirAnswer (site.stagingPath n) (s.staging n)))))
  | checked {c n r} (h : s.pc c = .checking n (.ret r)) :
      Transition B site s (.inspect c) (s.goto c (afterCheck site n r))
  | read {c rest} (h : s.pc c = .opening rest) :
      Transition B site s (.inspect c)
        (s.goto c (.opening (rest.step (dirAnswer site.cascDir s.target))))
  | create {c n} (h : s.pc c = .creating) (hn : s.staging n = none) :
      Transition B site s (.create c n) ((s.stage n (some .empty)).goto c (.writing n))
  | write {c n op d} (h : s.pc c = .writing n) (hd : B.apply op (s.staging n) = some d) :
      Transition B site s (.write c op) ((s.stage n d).goto c (.writing n))
  | written {c n result} (h : s.pc c = .writing n) :
      Transition B site s (.written c result) (s.goto c (afterWrite site n result))
  | look {c n} (h : s.pc c = .looking n) :
      Transition B site s (.look c)
        (s.goto c (if s.target.isSome then .removing n else .renaming n))
  | unlink {c n f d} (h : s.pc c = .removing n) (hd : s.target = some d) (hf : d.has f) :
      Transition B site s (.unlink c f)
        { s.goto c (.removing n) with target := some (d.erase f) }
  | unlinkStaging {c n result f d} (h : s.pc c = .sweeping n result) (hd : s.staging n = some d) :
      Transition B site s (.unlink c f)
        ((s.stage n (some (d.erase f))).goto c (.sweeping n result))
  | rmdir {c n} (h : s.pc c = .removing n) (hd : s.target = some .empty) :
      Transition B site s (.rmdir c) { s.goto c (.renaming n) with target := none }
  | rmdirStaging {c n result} (h : s.pc c = .sweeping n result) :
      Transition B site s (.rmdir c) ((s.stage n none).goto c (.returning result))
  | rename {c n d} (h : s.pc c = .renaming n) (hd : s.staging n = some d) :
      Transition B site s (.rename c)
        { (s.stage n none).goto c (.tidying n (.ok ())) with target := some d }
  | tidy {c n result} (h : s.pc c = .tidying n result) :
      Transition B site s (.tidy c)
        (s.goto c (if (s.staging n).isSome then .sweeping n result else .returning result))
  | release {c result} (h : s.pc c = .returning result) :
      Transition B site s (.release c) { s.goto c .idle with lock := none }
  | crash {c} :
      Transition B site s (.crash c)
        { s.goto c .idle with lock := if s.lock = some c then none else s.lock }
  | openCache {c} (h : s.pc c = .idle) :
      Transition B site s (.openCache c) (s.goto c (.opening (openResolution site.cascDir)))
  | close {c r} (h : s.pc c = .opening (.ret r)) :
      Transition B site s (.close c) (s.goto c .idle)

variable {B : Builder} {site : Site} {s t : State ι} {e : Event B ι}

theorem transition_of_step (h : step B site s e = some t) : Transition B site s e t := by
  cases e with
  | publish c =>
    simp only [step] at h
    split at h
    · next hpc => cases h; exact .publish hpc
    · cases h
  | acquire c =>
    simp only [step] at h
    split at h
    · next hpc hlock => cases h; exact .acquire hpc hlock
    · cases h
  | fail c e =>
    obtain ⟨p, hp, rfl⟩ := Option.map_eq_some_iff.mp h
    exact .fail hp
  | inspect c =>
    simp only [step] at h
    split at h
    · next hpc => cases h; exact .judged hpc
    · next hpc => cases h; exact .judge hpc
    · next hpc => cases h; exact .checked hpc
    · next hpc => cases h; exact .check hpc
    · next hpc => cases h; exact .read hpc
    · cases h
  | create c n =>
    simp only [step] at h
    split at h
    · next hpc hn => cases h; exact .create hpc hn
    · cases h
  | write c op =>
    simp only [step] at h
    split at h
    · next hpc =>
      obtain ⟨d, hd, rfl⟩ := Option.map_eq_some_iff.mp h
      exact .write hpc hd
    · cases h
  | written c result =>
    simp only [step] at h
    split at h
    · next hpc => cases h; exact .written hpc
    · cases h
  | look c =>
    simp only [step] at h
    split at h
    · next hpc => cases h; exact .look hpc
    · cases h
  | unlink c f =>
    simp only [step] at h
    split at h
    · next hpc =>
      split at h
      · next hd =>
        split_ifs at h with hf
        cases h
        exact .unlink hpc hd hf
      · cases h
    · next hpc =>
      split at h
      · next hd =>
        split_ifs at h
        cases h
        exact .unlinkStaging hpc hd
      · cases h
    · cases h
  | rmdir c =>
    simp only [step] at h
    split at h
    · next hpc =>
      split_ifs at h with hd
      cases h
      exact .rmdir hpc hd
    · next hpc =>
      split_ifs at h
      cases h
      exact .rmdirStaging hpc
    · cases h
  | rename c =>
    simp only [step] at h
    split at h
    · next hpc =>
      split at h
      · next hd =>
        split_ifs at h
        cases h
        exact .rename hpc hd
      · cases h
    · cases h
  | tidy c =>
    simp only [step] at h
    split at h
    · next hpc => cases h; exact .tidy hpc
    · cases h
  | release c =>
    simp only [step] at h
    split at h
    · next hpc => cases h; exact .release hpc
    · cases h
  | crash c =>
    cases h
    exact .crash
  | openCache c =>
    simp only [step] at h
    split at h
    · next hpc => cases h; exact .openCache hpc
    · cases h
  | close c =>
    simp only [step] at h
    split at h
    · next hpc => cases h; exact .close hpc
    · cases h

/-! ### What the lock protects -/

/-- **The discipline of the lock**: whoever is critical holds it, and knows `P`; of
the directory itself `T` holds. -/
structure Discipline (P : Option NamespaceDir → (StagingName → Option NamespaceDir) → Pc → Prop)
    (T : Option NamespaceDir → Prop) (s : State ι) : Prop where
  lock : ∀ c, (s.pc c).Critical → s.lock = some c
  phase : ∀ c, (s.pc c).Critical → P s.target s.staging (s.pc c)
  target : T s.target

section Discipline

variable {P : Option NamespaceDir → (StagingName → Option NamespaceDir) → Pc → Prop}
  {T : Option NamespaceDir → Prop} {c : ι} {p : Pc}

/-- **Only the caller that moves has to be looked at**: the others are not
critical, or nothing they know about has changed. -/
theorem Discipline.move (h : Discipline P T s) (hpc : t.pc = Function.update s.pc c p)
    (hlock : ∀ c', c' ≠ c → s.lock = some c' → t.lock = some c')
    (hown : p.Critical → t.lock = some c) (hphase : p.Critical → P t.target t.staging p)
    (hframe : (t.target = s.target ∧ t.staging = s.staging) ∨ (s.pc c).Critical)
    (htarget : T t.target) : Discipline P T t := by
  have hsame : t.pc c = p := by rw [hpc, Function.update_self]
  have hother : ∀ c', c' ≠ c → t.pc c' = s.pc c' := fun c' hc' => by
    rw [hpc, Function.update_of_ne hc']
  refine ⟨fun c' hcrit => ?_, fun c' hcrit => ?_, htarget⟩
  · by_cases hc' : c' = c
    · subst hc'
      exact hown (hsame ▸ hcrit)
    · rw [hother c' hc'] at hcrit
      exact hlock c' hc' (h.lock c' hcrit)
  · by_cases hc' : c' = c
    · subst hc'
      rw [hsame] at hcrit ⊢
      exact hphase hcrit
    · rw [hother c' hc'] at hcrit ⊢
      rcases hframe with ⟨htgt, hstg⟩ | hmover
      · rw [htgt, hstg]
        exact h.phase c' hcrit
      · exact absurd (Option.some.inj ((h.lock c' hcrit).symm.trans (h.lock c hmover))) hc'

omit [DecidableEq ι] in
/-- A caller that stands at a critical place is critical. -/
theorem State.critical (hpc : s.pc c = p) (hcrit : p.Critical) : (s.pc c).Critical :=
  hpc ▸ hcrit

omit [DecidableEq ι] in
/-- What a critical caller knows, where it stands. -/
theorem Discipline.knows (h : Discipline P T s) (hpc : s.pc c = p) (hcrit : p.Critical) :
    P s.target s.staging p :=
  hpc ▸ h.phase c (State.critical hpc hcrit)

/-- A caller that moves on without touching anything. -/
theorem Discipline.goto (h : Discipline P T s) (hown : p.Critical → s.lock = some c)
    (hphase : p.Critical → P s.target s.staging p) : Discipline P T (s.goto c p) :=
  h.move rfl (fun _ _ hl => hl) hown hphase (Or.inl ⟨rfl, rfl⟩) h.target

/-- A critical caller that moves on within its critical section. -/
theorem Discipline.advance (h : Discipline P T s) (hpc : (s.pc c).Critical)
    (hphase : P s.target s.staging p) : Discipline P T (s.goto c p) :=
  h.goto (fun _ => h.lock c hpc) fun _ => hphase

/-- A critical caller that changes a staging directory. -/
theorem Discipline.stage (h : Discipline P T s) (hpc : (s.pc c).Critical) {n : StagingName}
    {d : Option NamespaceDir} (hphase : P s.target (s.stage n d).staging p) :
    Discipline P T ((s.stage n d).goto c p) :=
  h.move rfl (fun _ _ hl => hl) (fun _ => h.lock c hpc) (fun _ => hphase) (Or.inr hpc) h.target

/-- Leaving the critical section, or dying. -/
theorem Discipline.leave (h : Discipline P T s) :
    Discipline P T { s.goto c .idle with lock := if s.lock = some c then none else s.lock } := by
  refine h.move rfl (fun c' hc' hl => ?_) False.elim False.elim (Or.inl ⟨rfl, rfl⟩) h.target
  change (if s.lock = some c then none else s.lock) = some c'
  rw [if_neg (by rw [hl]; exact fun heq => hc' (Option.some.inj heq)), hl]

omit [DecidableEq ι] in
/-- **Mutual exclusion.** -/
theorem Discipline.exclusive (h : Discipline P T s) {c c' : ι} (hc : (s.pc c).Critical)
    (hc' : (s.pc c').Critical) : c = c' :=
  Option.some.inj ((h.lock c hc).symm.trans (h.lock c' hc'))

end Discipline

/-! ### A directory that is absent at first -/

/-- What a caller knows about the two directories. -/
def Knows (site : Site) (target : Option NamespaceDir)
    (staging : StagingName → Option NamespaceDir) : Pc → Prop
  | .judging rest =>
    rest.run (dirAnswer site.cascDir target) =
      (resolutionCacheIsFresh site.cascDir).run (dirAnswer site.cascDir target)
  | .creating => target = none
  | .writing _ => target = none
  | .checking n rest =>
    target = none ∧ rest.run (dirAnswer (site.stagingPath n) (staging n)) =
      (resolutionCacheIsFresh (site.stagingPath n)).run
        (dirAnswer (site.stagingPath n) (staging n))
  | .looking n => target = none ∧ ∃ d, staging n = some d ∧ d.Fresh
  | .removing _ => False
  | .renaming n => target = none ∧ ∃ d, staging n = some d ∧ d.Fresh
  | .tidying _ result => result = .ok () → target.isSome
  | .sweeping _ result => result = .ok () → target.isSome
  | .returning result => result = .ok () → target.isSome
  | _ => True

/-- The invariant: what is published is fresh. -/
def Inv (site : Site) : State ι → Prop :=
  Discipline (Knows site) fun target => ∀ d, target = some d → d.Fresh

/-- At first there is no directory and nobody is in a call; there may be staging
directories of killed builders. -/
structure Initial (s : State ι) : Prop where
  lock : s.lock = none
  target : s.target = none
  idle : ∀ c, s.pc c = .idle

omit [DecidableEq ι] in
theorem Initial.inv (h : Initial s) : Inv site s where
  lock c hc := by rw [h.idle c] at hc; exact hc.elim
  phase c hc := by rw [h.idle c] at hc; exact hc.elim
  target d hd := by rw [h.target] at hd; cases hd

theorem knows_afterJudgement {target : Option NamespaceDir}
    {staging : StagingName → Option NamespaceDir} {r : Except String Bool}
    (hfresh : ∀ d, target = some d → d.Fresh)
    (hr : r = (resolutionCacheIsFresh site.cascDir).run (dirAnswer site.cascDir target)) :
    Knows site target staging (afterJudgement r) := by
  have hiff := resolutionCacheIsFresh_run site.cascDir target
  rw [← hr] at hiff
  cases r with
  | error e => exact fun h => by cases h
  | ok fresh =>
    cases fresh with
    | true =>
      obtain ⟨d, hd, -⟩ := hiff.mp rfl
      exact fun _ => by rw [hd]; rfl
    | false =>
      cases htarget : target with
      | none => rfl
      | some d => exact absurd (hiff.mpr ⟨d, htarget, hfresh d htarget⟩) (by simp)

theorem knows_afterCheck {n : StagingName} {target : Option NamespaceDir}
    {staging : StagingName → Option NamespaceDir} {r : Except String Bool} (htarget : target = none)
    (hr : r = (resolutionCacheIsFresh (site.stagingPath n)).run
      (dirAnswer (site.stagingPath n) (staging n))) :
    Knows site target staging (afterCheck site n r) := by
  have hiff := resolutionCacheIsFresh_run (site.stagingPath n) (staging n)
  rw [← hr] at hiff
  cases r with
  | error e => exact fun h => by cases h
  | ok fresh =>
    cases fresh with
    | true => exact ⟨htarget, hiff.mp rfl⟩
    | false => exact fun h => by cases h

/-- **One step keeps the invariant.** -/
theorem Inv.of_step (h : Inv site s) (hstep : step B site s e = some t) : Inv site t := by
  cases transition_of_step hstep with
  | publish hpc => exact h.goto False.elim False.elim
  | acquire hpc hlock =>
    exact h.move rfl (fun c' _ hl => by rw [hlock] at hl; cases hl) (fun _ => rfl) (fun _ => rfl)
      (Or.inl ⟨rfl, rfl⟩) h.target
  | @fail c e p hp =>
    unfold afterFailure at hp
    split at hp
    · cases hp; exact h.goto False.elim False.elim
    · next hpc => cases hp; exact h.advance (State.critical hpc trivial) fun hr => by cases hr
    · next hpc => exact (h.knows hpc trivial).elim
    · next hpc => cases hp; exact h.advance (State.critical hpc trivial) fun hr => by cases hr
    · next hpc => cases hp; exact h.advance (State.critical hpc trivial) fun hr => by cases hr
    · cases hp
  | judge hpc =>
    refine h.advance (State.critical hpc trivial) ?_
    have hrun := h.knows hpc trivial
    exact (Program.run_step _ _).trans hrun
  | judged hpc =>
    exact h.advance (State.critical hpc trivial)
      (knows_afterJudgement h.target (h.knows hpc trivial))
  | check hpc =>
    refine h.advance (State.critical hpc trivial) ?_
    obtain ⟨htarget, hrun⟩ := h.knows hpc trivial
    exact ⟨htarget, (Program.run_step _ _).trans hrun⟩
  | checked hpc =>
    obtain ⟨htarget, hrun⟩ := h.knows hpc trivial
    exact h.advance (State.critical hpc trivial) (knows_afterCheck htarget hrun)
  | read hpc => exact h.goto False.elim False.elim
  | create hpc hn =>
    have htarget : s.target = none := h.knows hpc trivial
    exact h.stage (State.critical hpc trivial) htarget
  | write hpc hd =>
    have htarget : s.target = none := h.knows hpc trivial
    exact h.stage (State.critical hpc trivial) htarget
  | @written c n result hpc =>
    have htarget : s.target = none := h.knows hpc trivial
    refine h.advance (State.critical hpc trivial) ?_
    cases result with
    | error e => exact fun hr => by cases hr
    | ok _ => exact ⟨htarget, rfl⟩
  | look hpc =>
    obtain ⟨htarget, hfresh⟩ := h.knows hpc trivial
    refine h.advance (State.critical hpc trivial) ?_
    rw [if_neg (by rw [htarget]; simp)]
    exact ⟨htarget, hfresh⟩
  -- nobody removes the directory: it was absent when the caller looked
  | unlink hpc hd hf => exact (h.knows hpc trivial).elim
  | unlinkStaging hpc hd => exact h.stage (State.critical hpc trivial) (h.knows hpc trivial)
  | rmdir hpc hd => exact (h.knows hpc trivial).elim
  | rmdirStaging hpc => exact h.stage (State.critical hpc trivial) (h.knows hpc trivial)
  | @rename c n d hpc hd =>
    -- what is published is what was judged, for nobody else knows the staging directory
    obtain ⟨-, d', hd', hfresh⟩ := h.knows hpc trivial
    rw [hd] at hd'
    cases hd'
    have hcrit := State.critical hpc trivial
    refine h.move rfl (fun _ _ hl => hl) (fun _ => h.lock c hcrit) (fun _ _ => rfl)
      (Or.inr hcrit) ?_
    rintro d' ⟨⟩
    exact hfresh
  | @tidy c n result hpc =>
    have hresult : result = .ok () → s.target.isSome := h.knows hpc trivial
    refine h.advance (State.critical hpc trivial) ?_
    split_ifs
    · exact hresult
    · exact hresult
  | @release c result hpc =>
    have hlock := h.lock c (State.critical hpc trivial)
    have hleave := h.leave (c := c)
    rw [if_pos hlock] at hleave
    exact hleave
  | crash => exact h.leave
  | openCache hpc => exact h.goto False.elim False.elim
  | close hpc => exact h.goto False.elim False.elim

/-- **The only step that changes the directory** is the rename of a staging
directory that was judged fresh, and it finds the directory absent. -/
theorem Inv.target_step (h : Inv site s) (hstep : step B site s e = some t) :
    t.target = s.target ∨ ∃ c n d, e = .rename c ∧ s.pc c = .renaming n ∧ s.staging n = some d ∧
      d.Fresh ∧ s.target = none ∧ t.target = some d := by
  cases transition_of_step hstep with
  | unlink hpc hd hf => exact (h.knows hpc trivial).elim
  | rmdir hpc hd => exact (h.knows hpc trivial).elim
  | @rename c n d hpc hd =>
    obtain ⟨htarget, d', hd', hfresh⟩ := h.knows hpc trivial
    rw [hd] at hd'
    cases hd'
    exact Or.inr ⟨c, n, d, rfl, hpc, hd, hfresh, htarget, rfl⟩
  | _ => exact Or.inl rfl

/-- **A published directory never changes again.** -/
theorem Inv.target_run (h : Inv site s) {d : NamespaceDir} (hd : s.target = some d)
    {es : List (Event B ι)} (hrun : run (step B site) s es = some t) :
    Inv site t ∧ t.target = some d := by
  refine invariant (fun s => Inv site s ∧ s.target = some d) ?_ ⟨h, hd⟩ hrun
  rintro s e t ⟨h, hd⟩ hstep
  refine ⟨h.of_step hstep, ?_⟩
  rcases h.target_step hstep with heq | ⟨-, -, -, -, -, -, -, hnone, -⟩
  · exact heq.trans hd
  · rw [hd] at hnone
    cases hnone

omit [DecidableEq ι] in
/-- Nobody builds for a directory that is there. -/
theorem Inv.not_writing (h : Inv site s) {d : NamespaceDir} (hd : s.target = some d) (c : ι)
    (n : StagingName) : s.pc c ≠ .writing n := by
  intro hpc
  have htarget : Knows site s.target s.staging (.writing n) := h.knows hpc trivial
  exact absurd (hd.symm.trans htarget) (by simp)

/-! ### Opening what is published -/

/-- An opening that began in front of the directory `d`, and finds nothing else. -/
def OpensTo (site : Site) (d : NamespaceDir) : Pc → Prop
  | .opening rest =>
    rest.run (dirAnswer site.cascDir (some d)) =
      (openResolution site.cascDir).run (dirAnswer site.cascDir (some d))
  | _ => True

theorem opensTo_step {d : NamespaceDir} {c : ι} (hd : s.target = some d)
    (hc : OpensTo site d (s.pc c)) (hstep : step B site s e = some t) :
    OpensTo site d (t.pc c) := by
  -- only a caller that opens, or that begins to, has anything to keep
  have hgoto : ∀ {s : State ι} {c' : ι} {p : Pc}, OpensTo site d (s.pc c) →
      (c' = c → OpensTo site d p) → OpensTo site d ((s.goto c' p).pc c) := fun {s c' p} hs hp => by
    by_cases hc' : c' = c
    · subst hc'
      change OpensTo site d (Function.update s.pc c' p c')
      rw [Function.update_self]
      exact hp rfl
    · change OpensTo site d (Function.update s.pc c' p c)
      rw [Function.update_of_ne (Ne.symm hc')]
      exact hs
  cases transition_of_step hstep with
  | @fail c' e p hp =>
    refine hgoto hc fun _ => ?_
    unfold afterFailure at hp
    split at hp <;> cases hp <;> trivial
  | @judged c' r hpc =>
    refine hgoto hc fun _ => ?_
    rcases r with _ | _ | _ <;> trivial
  | @checked c' n r hpc =>
    refine hgoto hc fun _ => ?_
    rcases r with _ | _ | _ <;> trivial
  | @written c' n result hpc =>
    refine hgoto hc fun _ => ?_
    rcases result with _ | _ <;> trivial
  | read hpc =>
    refine hgoto hc fun hc' => ?_
    subst hc'
    rw [hpc] at hc
    rw [hd]
    exact (Program.run_step _ _).trans hc
  | look hpc =>
    refine hgoto hc fun _ => ?_
    split_ifs <;> trivial
  | tidy hpc =>
    refine hgoto hc fun _ => ?_
    split_ifs <;> trivial
  | openCache hpc => exact hgoto hc fun _ => rfl
  | _ => exact hgoto hc fun _ => trivial

/-- **An opening that begins in front of a published directory finds it**, however
its questions are interleaved with other callers. -/
theorem Inv.opened (h : Inv site s) {d : NamespaceDir} (hd : s.target = some d) {c : ι}
    (hc : OpensTo site d (s.pc c)) {es : List (Event B ι)} (hrun : run (step B site) s es = some t)
    {result : Except String Contents} (hresult : t.pc c = .opening (.ret result)) :
    result = (countEntries (namespacePath site.cascDir .database) d.contents).map
      fun _ => d.contents := by
  have hkept : (Inv site t ∧ t.target = some d) ∧ OpensTo site d (t.pc c) := by
    refine invariant (fun s => (Inv site s ∧ s.target = some d) ∧ OpensTo site d (s.pc c)) ?_
      ⟨⟨h, hd⟩, hc⟩ hrun
    rintro s e t ⟨⟨h, hd⟩, hc⟩ hstep
    have hone : run (step B site) s [e] = some t := by rw [run_cons, hstep]; rfl
    exact ⟨h.target_run hd hone, opensTo_step hd hc hstep⟩
  have hopens := hkept.2
  rw [hresult] at hopens
  exact hopens.trans (openResolution_run (h.target d hd))

/-- **The publication protocol** on a directory that is absent at first, for every
builder, interleaving and crash: one caller at a time is critical; a fresh
directory is never touched again, and nobody builds for it any more; the directory
appears only by the rename of a staging directory that was judged fresh; and once
a call returns `Ok`, every opening finds the database there and not stale. -/
theorem publication_protocol {s₀ : State ι} {es : List (Event B ι)} (h₀ : Initial s₀)
    (hrun : run (step B site) s₀ es = some s) :
    (∀ c c', (s.pc c).Critical → (s.pc c').Critical → c = c') ∧
    (∀ d, s.target = some d → d.Fresh → ∀ es' t, run (step B site) s es' = some t →
      t.target = some d ∧ ∀ c n, t.pc c ≠ .writing n) ∧
    ((∀ d, s.target = some d → d.Fresh) ∧
      ∀ e t, step B site s e = some t → t.target = s.target ∨
        ∃ c n d, e = .rename c ∧ s.pc c = .renaming n ∧ s.staging n = some d ∧ d.Fresh ∧
          s.target = none ∧ t.target = some d) ∧
    (∀ c, s.pc c = .returning (.ok ()) → ∃ d, s.target = some d ∧ d.Fresh ∧
      ∀ c' es' t t' es'' u result, run (step B site) s es' = some t →
        step B site t (.openCache c') = some t' → run (step B site) t' es'' = some u →
        u.pc c' = .opening (.ret result) →
        result = (countEntries (namespacePath site.cascDir .database) d.contents).map
          fun _ => d.contents) := by
  have h : Inv site s := invariant (Inv site) (fun s e t => Inv.of_step) h₀.inv hrun
  refine ⟨fun c c' => h.exclusive, ?_, ⟨h.target, fun e t => h.target_step⟩, ?_⟩
  · intro d hd _ es' t hrun'
    obtain ⟨ht, hd'⟩ := h.target_run hd hrun'
    exact ⟨hd', ht.not_writing hd'⟩
  · intro c hc
    have hsome : Knows site s.target s.staging (.returning (.ok ())) := h.knows hc trivial
    obtain ⟨d, hd⟩ := Option.isSome_iff_exists.mp (hsome rfl)
    refine ⟨d, hd, h.target d hd, ?_⟩
    intro c' es' t t' es'' u result hrun' hopen hrun'' hresult
    obtain ⟨ht, htd⟩ := h.target_run hd hrun'
    have hone : run (step B site) t [.openCache c'] = some t' := by rw [run_cons, hopen]; rfl
    obtain ⟨ht', htd'⟩ := ht.target_run htd hone
    refine ht'.opened htd' ?_ hrun'' hresult
    cases transition_of_step hopen with
    | openCache hpc =>
      change OpensTo site d (Function.update t.pc c' _ c')
      rw [Function.update_self]
      rfl

/-- A complete directory. -/
def completeDir : NamespaceDir where
  root := some ⟨[], 10⟩
  encoding := some ⟨[], 10⟩
  database := some ⟨.tables (some [⟨10, 10, 2⟩]) (some []), .tables (some [⟨10, 10, 2⟩]) (some [])⟩
  journal := false
  wal := false

/-- The steps of a call that publishes a complete directory, while another waits. -/
def completeRun : List (Event anyBuilder Bool) :=
  [.publish true, .acquire true, .publish false, .inspect true, .inspect true,
    .create true ⟨1, 1⟩, .write true (some completeDir), .written true (.ok ())] ++
    List.replicate 7 (.inspect true) ++ [.look true, .rename true, .tidy true]

/-- What it publishes. -/
theorem publication_protocol_complete :
    ∃ s d, run (step anyBuilder ⟨.ofStr "/c", dataName⟩)
        (⟨none, none, fun _ => none, fun _ => .idle⟩ : State Bool) completeRun = some s ∧
      s.target = some d ∧ d.Fresh := by
  obtain ⟨s, hrun, htarget⟩ : ∃ s, run (step anyBuilder ⟨.ofStr "/c", dataName⟩)
      (⟨none, none, fun _ => none, fun _ => .idle⟩ : State Bool) completeRun = some s ∧
      s.target = some completeDir := ⟨_, rfl, rfl⟩
  have hprotocol := publication_protocol ⟨rfl, rfl, fun _ => rfl⟩ hrun
  exact ⟨s, completeDir, hrun, htarget, hprotocol.2.2.1.1 completeDir htarget⟩

end Publish

end AssetResolver
