import AssetResolver.Casc.Resolver
import AssetResolver.Library.Runs
import Mathlib.Logic.Function.Basic

/-!
# Calls that share the states of a process

The threads of a process, the cells it keeps for a cache root and an identity, and
the world outside that a patch may replace between any two questions. A step is one
question of one thread, so every interleaving of calls and patches is a run of
`AssetResolver.Casc.step`.

A cell is initialised by **one** of the threads that ask for it while the others
wait, and what it holds then is never replaced. An initialisation is a program of
its own, which suspends the call it runs in (`AssetResolver.Casc.Activity`), and a
thread that unwinds out of it leaves the cell as it was.

Threads and cells keep the record of their questions. The record decides nothing; it
is what the theorems speak about, by `AssetResolver.Casc.Inv`: every call is where
the answers on its record lead (`Program.Leads`), a cell holds the outcome of an
initialisation on the answers on its own record, and whatever a call got for a cell
is what the cell holds.
-/

namespace AssetResolver

namespace Casc

open Program

variable {ι : Type} [DecidableEq ι]

/-! ### The machine -/

/-- A key of the map `CASC`: a cache root and an identity. -/
abbrev CascNamespace := PathBuf × AssetIdentity

/-- A record of questions to the world outside. -/
abbrev InstallTrace := Trace InstallQuery InstallQuery.Answer

/-- A record of the questions of a call. -/
abbrev CallTrace := Trace CascQuery CascQuery.Answer

/-- A `OnceLock`. -/
inductive Cell (ι : Type) where
  /-- Nobody has initialised it. -/
  | vacant : Cell ι
  /-- A thread is initialising it. -/
  | initializing (t : ι) : Cell ι
  /-- It holds the outcome of an initialisation that asked this. -/
  | ready (asked : InstallTrace) (outcome : Except String CascState) : Cell ι

/-- A call that may need a state. -/
inductive Job where
  /-- `initialize_with_paths`. -/
  | initializeResolver (paths : ResolverPaths) : Job
  /-- `resolve_bytes_with_paths`. -/
  | resolveBytes (paths : ResolverPaths) (fdid : UInt32) : Job
  /-- `extract_fdid_to_path`, of the default resolver. -/
  | extract (fdid : UInt32) (outPath : PathBuf) : Job
  /-- `ensure_file_cached_checked_with_paths`. -/
  | ensureFileCached (paths : ResolverPaths) (fdid : UInt32) (outPath : PathBuf) : Job
  /-- `ensure_cached_checked`. -/
  | ensureCached (paths : ResolverPaths) (fdid : UInt32) (outPath : PathBuf) : Job
  deriving DecidableEq

/-- What a call returns. -/
inductive Outcome where
  /-- Nothing but the success. -/
  | initialized : Outcome
  /-- The bytes of an asset. -/
  | bytes (data : Option (List UInt8)) : Outcome
  /-- An extracted file. -/
  | extracted (file : ExtractedFile) : Outcome
  /-- The path of a cached asset. -/
  | cached (path : PathBuf) : Outcome

/-- The program of a call. -/
def Job.program (process : Process) : Job → CascProgram Outcome
  | .initializeResolver paths => do
    initializeWithPaths process paths
    return .initialized
  | .resolveBytes paths fdid => do
    let data ← resolveBytesWithPaths process paths fdid
    return .bytes data
  | .extract fdid outPath => do
    settled (guardCascAccess process.mode process.mode "direct CASC extraction")
    let file ← extractFdidToPathWithPaths process process.defaultPaths fdid outPath
    return .extracted file
  | .ensureFileCached paths fdid outPath => do
    let path ← ensureFileCachedCheckedWithPaths process paths fdid outPath
    return .cached path
  | .ensureCached paths fdid outPath => do
    let path ← ensureCachedChecked process paths fdid outPath
    return .cached path

/-- The rest of a call. -/
abbrev Rest := Program CascQuery CascQuery.Answer (Except String Outcome)

/-- What a thread is doing. -/
inductive Activity where
  /-- It runs its call. -/
  | running (rest : Rest) : Activity
  /-- It initialises the cell its call has asked for. -/
  | initializing (paths : ResolverPaths) (identity : AssetIdentity) (asked : InstallTrace)
      (rest : Program InstallQuery InstallQuery.Answer (Except String CascState))
      (resume : Except String CascState → Rest) : Activity

/-- A thread in a call. -/
structure Thread where
  /-- The call. -/
  job : Job
  /-- What it has asked so far. -/
  trace : CallTrace
  /-- What it is doing. -/
  activity : Activity

/-- A call that has not asked anything yet. -/
def Thread.start (process : Process) (job : Job) : Thread :=
  ⟨job, [], .running (job.program process).run⟩

/-- The call has returned. -/
def Thread.isFinished (th : Thread) : Bool :=
  match th.activity with
  | .running (.ret _) => true
  | _ => false

/-- The process and the world outside. -/
structure State (ι : Type) where
  /-- What the world outside answers now. -/
  env : (q : InstallQuery) → q.Answer
  /-- The map `CASC`. -/
  cells : CascNamespace → Cell ι
  /-- The threads, each with its last call. -/
  threads : ι → Option Thread

namespace State

/-- A process that has just started. -/
def initial (env : (q : InstallQuery) → q.Answer) : State ι :=
  ⟨env, fun _ => .vacant, fun _ => none⟩

/-- A thread goes on. -/
def put (s : State ι) (t : ι) (th : Option Thread) : State ι :=
  { s with threads := Function.update s.threads t th }

/-- A cell changes. -/
def setCell (s : State ι) (ns : CascNamespace) (cell : Cell ι) : State ι :=
  { s with cells := Function.update s.cells ns cell }

variable {s : State ι} {t t' : ι} {th : Option Thread} {ns ns' : CascNamespace} {cell : Cell ι}

@[simp] theorem put_cells : (s.put t th).cells = s.cells := rfl

@[simp] theorem put_threads_self : (s.put t th).threads t = th := Function.update_self ..

theorem put_threads_of_ne (h : t' ≠ t) : (s.put t th).threads t' = s.threads t' :=
  Function.update_of_ne h ..

omit [DecidableEq ι] in
@[simp] theorem setCell_cells_self : (s.setCell ns cell).cells ns = cell := Function.update_self ..

omit [DecidableEq ι] in
theorem setCell_cells_of_ne (h : ns' ≠ ns) : (s.setCell ns cell).cells ns' = s.cells ns' :=
  Function.update_of_ne h ..

/-- What holds of every thread once one of them goes on. -/
theorem forall_put {P : ι → Thread → Prop} (h : ∀ t th, s.threads t = some th → P t th)
    (hth : ∀ th', th = some th' → P t th') :
    ∀ t' th', (s.put t th).threads t' = some th' → P t' th' := by
  intro t' th' h'
  by_cases ht : t' = t
  · subst ht
    rw [put_threads_self] at h'
    exact hth th' h'
  · rw [put_threads_of_ne ht] at h'
    exact h t' th' h'

end State

/-- What may happen. -/
inductive Event (ι : Type) where
  /-- The world outside is replaced. -/
  | patch (env : (q : InstallQuery) → q.Answer) : Event ι
  /-- A thread that is in no call begins one. -/
  | call (t : ι) (job : Job) : Event ι
  /-- A thread takes its next step. -/
  | step (t : ι) : Event ι
  /-- A thread unwinds. -/
  | unwind (t : ι) : Event ι

/-- The next step of a thread. -/
def stepThread (process : Process) (s : State ι) (t : ι) : Thread → Option (State ι)
  | ⟨_, _, .running (.ret _)⟩ => none
  | ⟨job, trace, .running (.ask (.outside q) k)⟩ =>
    some (s.put t (some ⟨job, ⟨.outside q, s.env q⟩ :: trace, .running (k (s.env q))⟩))
  | ⟨job, trace, .running (.ask (.getOrInit paths identity) k)⟩ =>
    match s.cells (paths.cacheRoot, identity) with
    -- the thread that finds the cell vacant initialises it, the others wait
    | .vacant =>
      some ((s.setCell (paths.cacheRoot, identity) (.initializing t)).put t
        (some ⟨job, trace, .initializing paths identity [] (initCasc process paths).run k⟩))
    | .initializing _ => none
    -- an outcome is kept, be it a failure
    | .ready _ outcome =>
      some (s.put t
        (some ⟨job, ⟨.getOrInit paths identity, outcome⟩ :: trace, .running (k outcome)⟩))
  | ⟨job, trace, .initializing paths identity asked (.ask q rest) k⟩ =>
    some (s.put t
      (some ⟨job, trace,
        .initializing paths identity (⟨q, s.env q⟩ :: asked) (rest (s.env q)) k⟩))
  | ⟨job, trace, .initializing paths identity asked (.ret outcome) k⟩ =>
    some ((s.setCell (paths.cacheRoot, identity) (.ready asked outcome)).put t
      (some ⟨job, ⟨.getOrInit paths identity, outcome⟩ :: trace, .running (k outcome)⟩))

/-- A thread is gone, and with it the initialisation it was in. -/
def unwindThread (s : State ι) (t : ι) : Thread → State ι
  | ⟨_, _, .running _⟩ => s.put t none
  | ⟨_, _, .initializing paths identity _ _ _⟩ =>
    (s.setCell (paths.cacheRoot, identity) .vacant).put t none

/-- What an event does. -/
def step (process : Process) (s : State ι) : Event ι → Option (State ι)
  | .patch env => some { s with env := env }
  | .call t job =>
    if (s.threads t).all Thread.isFinished then some (s.put t (some (.start process job))) else none
  | .step t => (s.threads t).bind (stepThread process s t)
  | .unwind t => (s.threads t).map (unwindThread s t)

/-- **What a step can do**, one case for each thing a thread can be at. -/
inductive Transition (process : Process) (s : State ι) : Event ι → State ι → Prop
  | patch {env} : Transition process s (.patch env) { s with env := env }
  | call {t job} (h : (s.threads t).all Thread.isFinished) :
      Transition process s (.call t job) (s.put t (some (.start process job)))
  | ask {t job trace q k} (h : s.threads t = some ⟨job, trace, .running (.ask (.outside q) k)⟩) :
      Transition process s (.step t)
        (s.put t (some ⟨job, ⟨.outside q, s.env q⟩ :: trace, .running (k (s.env q))⟩))
  | enter {t job trace paths identity k}
      (h : s.threads t = some ⟨job, trace, .running (.ask (.getOrInit paths identity) k)⟩)
      (hcell : s.cells (paths.cacheRoot, identity) = .vacant) :
      Transition process s (.step t)
        ((s.setCell (paths.cacheRoot, identity) (.initializing t)).put t
          (some ⟨job, trace, .initializing paths identity [] (initCasc process paths).run k⟩))
  | take {t job trace paths identity k asked outcome}
      (h : s.threads t = some ⟨job, trace, .running (.ask (.getOrInit paths identity) k)⟩)
      (hcell : s.cells (paths.cacheRoot, identity) = .ready asked outcome) :
      Transition process s (.step t)
        (s.put t
          (some ⟨job, ⟨.getOrInit paths identity, outcome⟩ :: trace, .running (k outcome)⟩))
  | proceed {t job trace paths identity asked q rest k}
      (h : s.threads t =
        some ⟨job, trace, .initializing paths identity asked (.ask q rest) k⟩) :
      Transition process s (.step t)
        (s.put t
          (some ⟨job, trace,
            .initializing paths identity (⟨q, s.env q⟩ :: asked) (rest (s.env q)) k⟩))
  | finish {t job trace paths identity asked outcome k}
      (h : s.threads t =
        some ⟨job, trace, .initializing paths identity asked (.ret outcome) k⟩) :
      Transition process s (.step t)
        ((s.setCell (paths.cacheRoot, identity) (.ready asked outcome)).put t
          (some ⟨job, ⟨.getOrInit paths identity, outcome⟩ :: trace, .running (k outcome)⟩))
  | unwind {t job trace rest} (h : s.threads t = some ⟨job, trace, .running rest⟩) :
      Transition process s (.unwind t) (s.put t none)
  | abandon {t job trace paths identity asked rest k}
      (h : s.threads t = some ⟨job, trace, .initializing paths identity asked rest k⟩) :
      Transition process s (.unwind t)
        ((s.setCell (paths.cacheRoot, identity) .vacant).put t none)

variable {process : Process} {s s' : State ι} {e : Event ι}

theorem transition_of_step (h : step process s e = some s') : Transition process s e s' := by
  cases e with
  | patch env =>
    cases h
    exact .patch
  | call t job =>
    simp only [step] at h
    split_ifs at h with hidle
    cases h
    exact .call hidle
  | step t =>
    obtain ⟨⟨job, trace, activity⟩, hth, h⟩ := Option.bind_eq_some_iff.mp h
    cases activity with
    | running rest =>
      cases rest with
      | ret r => cases h
      | ask q k =>
        cases q with
        | outside q =>
          cases h
          exact .ask hth
        | getOrInit paths identity =>
          simp only [stepThread] at h
          split at h
          · next hcell =>
            cases h
            exact .enter hth hcell
          · cases h
          · next hcell =>
            cases h
            exact .take hth hcell
    | initializing paths identity asked rest k =>
      cases rest with
      | ret outcome =>
        cases h
        exact .finish hth
      | ask q rest =>
        cases h
        exact .proceed hth
  | unwind t =>
    obtain ⟨⟨job, trace, activity⟩, hth, h⟩ := Option.map_eq_some_iff.mp h
    cases activity with
    | running rest =>
      cases h
      exact .unwind hth
    | initializing paths identity asked rest k =>
      cases h
      exact .abandon hth

/-! ### The invariant -/

/-- A call, and the initialisation it is in, is where the answers on its record
lead. -/
def Thread.Followed (process : Process) (th : Thread) : Prop :=
  match th.activity with
  | .running rest => (th.job.program process).run.Leads th.trace rest
  | .initializing paths identity asked rest k =>
    (th.job.program process).run.Leads th.trace (.ask (.getOrInit paths identity) k) ∧
      (initCasc process paths).run.Leads asked rest

/-- The cell a thread is initialising. -/
def Thread.filling (th : Thread) : Option CascNamespace :=
  match th.activity with
  | .running _ => none
  | .initializing paths identity _ _ _ => some (paths.cacheRoot, identity)

/-- **The invariant of every run.** -/
structure Inv (process : Process) (s : State ι) : Prop where
  /-- Every thread is where its record leads. -/
  followed : ∀ t th, s.threads t = some th → th.Followed process
  /-- A cell that is being initialised has one thread that does it. -/
  holder : ∀ t th, s.threads t = some th → ∀ ns, th.filling = some ns →
    s.cells ns = .initializing t
  /-- A cell holds the outcome of an initialisation below its own cache root. -/
  built : ∀ ns asked outcome, s.cells ns = .ready asked outcome →
    ∃ paths, paths.cacheRoot = ns.1 ∧
      (initCasc process paths).run.Leads asked (.ret outcome)
  /-- What a call got for a cell the cell holds. -/
  kept : ∀ t th, s.threads t = some th → ∀ paths identity outcome,
    ⟨.getOrInit paths identity, outcome⟩ ∈ th.trace →
      ∃ asked, s.cells (paths.cacheRoot, identity) = .ready asked outcome

omit [DecidableEq ι] in
theorem inv_initial (env : (q : InstallQuery) → q.Answer) :
    Inv process (State.initial env : State ι) where
  followed := by rintro t th ⟨⟩
  holder := by rintro t th ⟨⟩
  built := by rintro ns asked outcome ⟨⟩
  kept := by rintro t th ⟨⟩

/-- **A cell that holds an outcome keeps it.** -/
theorem Inv.cells_ready (hs : Inv process s) (h : Transition process s e s') {ns : CascNamespace}
    {asked : InstallTrace} {outcome : Except String CascState}
    (hready : s.cells ns = .ready asked outcome) : s'.cells ns = .ready asked outcome := by
  cases h with
  | patch => exact hready
  | call h => exact hready
  | ask h => exact hready
  | take h hcell => exact hready
  | proceed h => exact hready
  | unwind h => exact hready
  | @enter t job trace paths identity k h hcell =>
    rw [State.put_cells, State.setCell_cells_of_ne, hready]
    rintro rfl
    rw [hcell] at hready
    cases hready
  | @finish t job trace paths identity asked outcome k h =>
    rw [State.put_cells, State.setCell_cells_of_ne, hready]
    rintro rfl
    rw [hs.holder t _ h _ rfl] at hready
    cases hready
  | @abandon t job trace paths identity asked rest k h =>
    rw [State.put_cells, State.setCell_cells_of_ne, hready]
    rintro rfl
    rw [hs.holder t _ h _ rfl] at hready
    cases hready

theorem Inv.followed_step (hs : Inv process s) (h : Transition process s e s') :
    ∀ t th, s'.threads t = some th → th.Followed process := by
  cases h with
  | patch => exact hs.followed
  | call h =>
    refine State.forall_put hs.followed ?_
    rintro th ⟨⟩
    exact .start
  | @ask t job trace q k h =>
    refine State.forall_put hs.followed ?_
    rintro th ⟨⟩
    have hled : (job.program process).run.Leads trace (.ask (.outside q) k) := hs.followed t _ h
    exact hled.next (s.env q)
  | @enter t job trace paths identity k h hcell =>
    refine State.forall_put (s := s.setCell _ _) hs.followed ?_
    rintro th ⟨⟩
    exact ⟨hs.followed t _ h, .start⟩
  | @take t job trace paths identity k asked outcome h hcell =>
    refine State.forall_put hs.followed ?_
    rintro th ⟨⟩
    have hled : (job.program process).run.Leads trace (.ask (.getOrInit paths identity) k) :=
      hs.followed t _ h
    exact hled.next outcome
  | @proceed t job trace paths identity asked q rest k h =>
    refine State.forall_put hs.followed ?_
    rintro th ⟨⟩
    obtain ⟨hcall, hinit⟩ := hs.followed t _ h
    exact ⟨hcall, hinit.next (s.env q)⟩
  | @finish t job trace paths identity asked outcome k h =>
    refine State.forall_put (s := s.setCell _ _) hs.followed ?_
    rintro th ⟨⟩
    obtain ⟨hcall, -⟩ := hs.followed t _ h
    exact hcall.next outcome
  | unwind h =>
    refine State.forall_put hs.followed ?_
    rintro th ⟨⟩
  | abandon h =>
    refine State.forall_put (s := s.setCell _ _) hs.followed ?_
    rintro th ⟨⟩

omit [DecidableEq ι] in
/-- A step that changes a cell is of the thread that initialises it. -/
theorem Inv.holder_setCell (hs : Inv process s) {t : ι} {ns : CascNamespace} {cell : Cell ι}
    (hcell : s.cells ns = .vacant ∨ s.cells ns = .initializing t) {t' : ι} {th : Thread}
    (h : s.threads t' = some th) (hne : t' ≠ t) {ns' : CascNamespace}
    (hfilling : th.filling = some ns') : (s.setCell ns cell).cells ns' = .initializing t' := by
  have hheld := hs.holder t' th h ns' hfilling
  rw [State.setCell_cells_of_ne, hheld]
  rintro rfl
  rcases hcell with hcell | hcell
  · rw [hheld] at hcell
    cases hcell
  · rw [hheld] at hcell
    exact hne (Cell.initializing.inj hcell)

theorem Inv.holder_step (hs : Inv process s) (h : Transition process s e s') :
    ∀ t th, s'.threads t = some th → ∀ ns, th.filling = some ns →
      s'.cells ns = .initializing t := by
  -- a thread that runs its call fills no cell
  have hrunning : ∀ (t : ι) {job trace rest} (th : Thread),
      some (⟨job, trace, .running rest⟩ : Thread) = some th → ∀ ns, th.filling = some ns →
        s'.cells ns = .initializing t := by
    rintro t job trace rest th ⟨⟩ ns ⟨⟩
  cases h with
  | patch => exact hs.holder
  | call h => exact State.forall_put hs.holder fun th => hrunning _ th
  | ask h => exact State.forall_put hs.holder fun th => hrunning _ th
  | take h hcell => exact State.forall_put hs.holder fun th => hrunning _ th
  | @proceed t job trace paths identity asked q rest k h =>
    refine State.forall_put hs.holder ?_
    rintro th ⟨⟩ ns hns
    exact hs.holder t _ h ns hns
  | unwind h =>
    refine State.forall_put hs.holder ?_
    rintro th ⟨⟩
  | @enter t job trace paths identity k h hcell =>
    intro t' th h' ns hns
    by_cases ht : t' = t
    · subst ht
      rw [State.put_threads_self] at h'
      cases h'
      cases hns
      exact State.setCell_cells_self
    · rw [State.put_threads_of_ne ht] at h'
      exact hs.holder_setCell (Or.inl hcell) h' ht hns
  | @finish t job trace paths identity asked outcome k h =>
    intro t' th h' ns hns
    by_cases ht : t' = t
    · subst ht
      rw [State.put_threads_self] at h'
      exact hrunning _ th h' ns hns
    · rw [State.put_threads_of_ne ht] at h'
      exact hs.holder_setCell (Or.inr (hs.holder t _ h _ rfl)) h' ht hns
  | @abandon t job trace paths identity asked rest k h =>
    intro t' th h' ns hns
    by_cases ht : t' = t
    · subst ht
      rw [State.put_threads_self] at h'
      cases h'
    · rw [State.put_threads_of_ne ht] at h'
      exact hs.holder_setCell (Or.inr (hs.holder t _ h _ rfl)) h' ht hns

theorem Inv.built_step (hs : Inv process s) (h : Transition process s e s') :
    ∀ ns asked outcome, s'.cells ns = .ready asked outcome → ∃ paths, paths.cacheRoot = ns.1 ∧
      (initCasc process paths).run.Leads asked (.ret outcome) := by
  -- a cell that is set to something else than an outcome
  have hset : ∀ (ns : CascNamespace) {cell : Cell ι},
      (∀ asked outcome, cell ≠ .ready asked outcome) →
      ∀ ns' asked outcome, (s.setCell ns cell).cells ns' = .ready asked outcome →
        ∃ paths, paths.cacheRoot = ns'.1 ∧
          (initCasc process paths).run.Leads asked (.ret outcome) := by
    intro ns cell hcell ns' asked outcome hready
    by_cases hns : ns' = ns
    · subst hns
      rw [State.setCell_cells_self] at hready
      exact absurd hready (hcell asked outcome)
    · rw [State.setCell_cells_of_ne hns] at hready
      exact hs.built ns' asked outcome hready
  cases h with
  | patch => exact hs.built
  | call h => exact hs.built
  | ask h => exact hs.built
  | take h hcell => exact hs.built
  | proceed h => exact hs.built
  | unwind h => exact hs.built
  | enter h hcell => exact hset _ (by rintro asked outcome ⟨⟩)
  | abandon h => exact hset _ (by rintro asked outcome ⟨⟩)
  | @finish t job trace paths identity asked outcome k h =>
    intro ns asked' outcome' hready
    by_cases hns : ns = (paths.cacheRoot, identity)
    · subst hns
      rw [State.put_cells, State.setCell_cells_self] at hready
      cases hready
      exact ⟨paths, rfl, (hs.followed t _ h).2⟩
    · rw [State.put_cells, State.setCell_cells_of_ne hns] at hready
      exact hs.built ns asked' outcome' hready

theorem Inv.kept_step (hs : Inv process s) (h : Transition process s e s') :
    ∀ t th, s'.threads t = some th → ∀ paths identity outcome,
      ⟨.getOrInit paths identity, outcome⟩ ∈ th.trace →
        ∃ asked, s'.cells (paths.cacheRoot, identity) = .ready asked outcome := by
  have hkept : ∀ t th, s.threads t = some th → ∀ paths identity outcome,
      ⟨.getOrInit paths identity, outcome⟩ ∈ th.trace →
        ∃ asked, s'.cells (paths.cacheRoot, identity) = .ready asked outcome :=
    fun t th hth paths identity outcome hmem =>
      (hs.kept t th hth paths identity outcome hmem).imp fun _ hready => hs.cells_ready h hready
  cases h with
  | patch => exact hkept
  | call h =>
    refine State.forall_put hkept ?_
    rintro th ⟨⟩ paths identity outcome hmem
    cases hmem
  | @ask t job trace q k h =>
    refine State.forall_put hkept ?_
    rintro th ⟨⟩ paths identity outcome hmem
    rcases List.mem_cons.mp hmem with heq | hmem
    · cases heq
    · exact hkept t _ h paths identity outcome hmem
  | @enter t job trace paths identity k h hcell =>
    refine State.forall_put (s := s.setCell _ _) hkept ?_
    rintro th ⟨⟩ paths' identity' outcome hmem
    exact hkept t _ h paths' identity' outcome hmem
  | @take t job trace paths identity k asked outcome h hcell =>
    refine State.forall_put hkept ?_
    rintro th ⟨⟩ paths' identity' outcome' hmem
    rcases List.mem_cons.mp hmem with heq | hmem
    · cases heq
      exact ⟨asked, hcell⟩
    · exact hkept t _ h paths' identity' outcome' hmem
  | @proceed t job trace paths identity asked q rest k h =>
    refine State.forall_put hkept ?_
    rintro th ⟨⟩ paths' identity' outcome hmem
    exact hkept t _ h paths' identity' outcome hmem
  | @finish t job trace paths identity asked outcome k h =>
    refine State.forall_put (s := s.setCell _ _) hkept ?_
    rintro th ⟨⟩ paths' identity' outcome' hmem
    rcases List.mem_cons.mp hmem with heq | hmem
    · cases heq
      exact ⟨asked, State.setCell_cells_self⟩
    · exact hkept t _ h paths' identity' outcome' hmem
  | unwind h =>
    refine State.forall_put hkept ?_
    rintro th ⟨⟩
  | abandon h =>
    refine State.forall_put (s := s.setCell _ _) hkept ?_
    rintro th ⟨⟩

theorem inv_step (hs : Inv process s) (h : step process s e = some s') : Inv process s' where
  followed := hs.followed_step (transition_of_step h)
  holder := hs.holder_step (transition_of_step h)
  built := hs.built_step (transition_of_step h)
  kept := hs.kept_step (transition_of_step h)

/-- **The invariant holds in every reachable state.** -/
theorem inv_run {env : (q : InstallQuery) → q.Answer} {es : List (Event ι)}
    (hrun : Runs.run (step process) (State.initial env) es = some s) : Inv process s :=
  Runs.invariant (Inv process) (fun _ _ _ hs h => inv_step hs h) (inv_initial env) hrun

/-! ### A sample process -/

/-- The build of the second key. -/
def secondBuild : AssetIdentity := .wow secondKey (by decide +kernel) (by decide)

/-- A process that has found the sample installation. -/
def sampleProcess : Process where
  mode := .localCasc
  installPath := some (.ofStr "/wow")
  defaultPaths := samplePaths none
  formats := sampleInstallFormats

/-- It starts while the first build is active. -/
def sampleStart : State ℕ := .initial (sampleInstall (buildInfoText firstKey))

/-- A patch to the second build. -/
def patchToSecond : Event ℕ := .patch (sampleInstall (buildInfoText secondKey))

/-- The identity of the state a cell holds. -/
def Cell.stateIdentity : Cell ι → Option AssetIdentity
  | .ready _ (.ok casc) => casc.identity
  | _ => none

omit [DecidableEq ι] in
theorem Cell.stateIdentity_eq_some {cell : Cell ι} {identity : AssetIdentity}
    (h : cell.stateIdentity = some identity) :
    ∃ asked casc, cell = .ready asked (.ok casc) ∧ casc.identity = some identity := by
  unfold stateIdentity at h
  split at h
  · next asked casc => exact ⟨asked, casc, rfl, h⟩
  · cases h

end Casc

end AssetResolver
