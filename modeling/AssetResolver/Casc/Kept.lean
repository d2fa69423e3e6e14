import AssetResolver.Casc.Frozen
import AssetResolver.Formats.BlteContainer
import AssetResolver.Library.Mutex

/-!
# What a state keeps

A `CascState` initialises two things lazily, each behind a mutex of its own: the installation
(`ensure_initialized`) and the access to the local archives (`ensure_local_access`). The second
mutex stays locked while a container is looked up, read and decoded.

The calls of a process may come in any order and any number of them at a time. Still **the first
outcome is everyone's** (`AssetResolver.Kept.initialized_once`,
`AssetResolver.Kept.reads_of_kept`), so that the rest of this development may ask for it as if
it were an answer of the environment, and the archives are opened at most once.

A container whose header flags are unknown is another matter: its parser panics, which poisons
the mutex, and **no read returns any more** (`AssetResolver.Kept.panic_poisons`).
-/

namespace AssetResolver

namespace Kept

open Program Mutex Blte

/-! ### The installation -/

/-- `InitState`. -/
inductive InitState where
  /-- `Uninitialized`. -/
  | uninitialized : InitState
  /-- `Initialized`. -/
  | initialized : InitState
  /-- `Failed`. -/
  | failed (err : String) : InitState
  deriving DecidableEq

/-- What is stored of an outcome. -/
def InitState.ofOutcome : Except String Unit → InitState
  | .ok () => .initialized
  | .error err => .failed err

/-- `CascState::ensure_initialized`, with the mutex locked. -/
def ensureInitialized (dataRoot : PathBuf) :
    Body InstallQuery InstallQuery.Answer InitState Unit (Except String Unit) := fun _ init =>
  match init with
  | .initialized => ret (some (init, .ok ()))
  | .failed err => ret (some (init, .error err))
  | .uninitialized => do
    let answer ← question (.initializeInstall dataRoot)
    let result := answer.mapError fun e => s!"CASC init: {e}"
    return some (.ofOutcome result, result)

/-- The outcome that is kept. -/
def InitState.outcome : InitState → Option (Except String Unit)
  | .uninitialized => none
  | .initialized => some (.ok ())
  | .failed err => some (.error err)

@[simp] theorem InitState.outcome_ofOutcome (result : Except String Unit) :
    (InitState.ofOutcome result).outcome = some result := by
  cases result <;> rfl

section Installation

variable {ι : Type} {dataRoot : PathBuf} {init next : InitState}
  {asked : Trace InstallQuery InstallQuery.Answer} {result : Except String Unit}

/-- A call returns the outcome that it leaves, and changes none that is kept. -/
theorem outcome_of_ensureInitialized
    (h : (ensureInitialized dataRoot () init).Leads asked (.ret (some (next, result)))) :
    next.outcome = some result ∧ ∀ r, init.outcome = some r → next.outcome = some r := by
  cases init with
  | uninitialized =>
    obtain ⟨answer, later, -, hlater⟩ := leads_ask_ret_iff.mp h
    cases (leads_ret_iff.mp hlater).2
    exact ⟨InitState.outcome_ofOutcome _, by rintro r ⟨⟩⟩
  | initialized =>
    cases (leads_ret_iff.mp h).2
    exact ⟨rfl, fun _ hr => hr⟩
  | failed err =>
    cases (leads_ret_iff.mp h).2
    exact ⟨rfl, fun _ hr => hr⟩

/-- The installation is initialized where nothing is kept yet. -/
theorem askedOnce_ensureInitialized : Serial.AskedOnce (ensureInitialized dataRoot)
    (fun _ => true) fun init => init.outcome.isNone where
  atMostOnce _ init := by
    cases init with
    | uninitialized => exact ⟨0, rfl, fun _ => trivial⟩
    | initialized => trivial
    | failed err => trivial
  never _ init h := by
    cases init with
    | uninitialized => cases h
    | initialized => trivial
    | failed err => trivial
  leave _ init asked next result h hnext := by
    rw [(outcome_of_ensureInitialized h).1] at hnext
    cases hnext

variable [DecidableEq ι]
  {s : State InstallQuery InstallQuery.Answer InitState Unit (Except String Unit) ι}
  {env : (q : InstallQuery) → q.Answer} {es : List (Event InstallQuery InstallQuery.Answer Unit ι)}

/-- **The installation is initialized once, and its outcome is everyone's**: in every run all
calls that return return one result, and they ask for the installation at most once together,
with the call that is under way. -/
theorem initialized_once
    (hrun : Runs.run (step (ensureInitialized dataRoot)) (.initial env .uninitialized) es =
      some s) :
    (∀ entry ∈ s.history, ∀ entry' ∈ s.history, ∀ result result', entry.result = some result →
      entry'.result = some result' → result = result') ∧
    (s.history.flatMap Entry.asked).length ≤ 1 ∧
    ∀ t call asked rest, s.phases t = some (.inside call asked rest) →
      asked.length + (s.history.flatMap Entry.asked).length ≤ 1 := by
  have hs := inv_run hrun
  have hkept := hs.serial.forall_result (fun _ => True)
    (fun init _ _ result => init.outcome = some result) trivial (fun _ _ _ _ _ _ _ => trivial)
    (fun _ _ _ _ _ _ hled => (outcome_of_ensureInitialized hled).1)
    fun _ _ _ _ _ hled _ _ r hr => (outcome_of_ensureInitialized hled).2 r hr
  have hcount := (Serial.count_le askedOnce_ensureInitialized hs.serial).1
  have hlength : ∀ trace : Trace InstallQuery InstallQuery.Answer,
      trace.countP (fun _ => true) = trace.length := fun _ => by simp
  rw [Serial.count, hlength] at hcount
  refine ⟨fun entry hentry entry' hentry' result result' hr hr' => ?_, hcount, ?_⟩
  · exact Option.some.inj ((hkept entry hentry result hr).symm.trans
      (hkept entry' hentry' result' hr'))
  · intro t call asked rest hinside
    have hle := hs.count_inside_le askedOnce_ensureInitialized hinside
    rwa [Serial.count, hlength, hlength] at hle

/-- Two calls, the second of which waits. -/
def twoCalls : List (Event InstallQuery InstallQuery.Answer Unit ℕ) :=
  [.call 0 (), .call 1 (), .step 0, .step 0, .step 0, .step 1, .step 1]

/-- Both calls return, and one of them has asked. -/
theorem initialized_once_sample :
    ∃ s, Runs.run (step (ensureInitialized (.ofStr "/wow/Data")))
        (.initial (sampleInstall "") .uninitialized) twoCalls = some s ∧
      s.history.length = 2 ∧ (s.history.flatMap Entry.asked).length ≤ 1 := by
  have hrun : Runs.run (step (ensureInitialized (.ofStr "/wow/Data")))
      (.initial (sampleInstall "") .uninitialized) twoCalls = some _ := rfl
  exact ⟨_, hrun, rfl, (initialized_once hrun).2.1⟩

end Installation

/-! ### The local archives -/

/-- The directory of the local archives. -/
def dataDir (process : Process) : Option PathBuf :=
  process.wowInstallPath.map fun installRoot =>
    (installRoot.join (.ofStr "Data")).join (.ofStr "data")

/-- `LocalArchiveAccess`: the indices and the archives of the directory. -/
structure LocalArchiveAccess (process : Process) where
  /-- Where they were opened. -/
  dir : PathBuf
  /-- That is where the archives of the process are. -/
  found : dataDir process = some dir

/-- `LocalAccessState`. -/
inductive LocalAccessState (process : Process) where
  /-- `Uninitialized`. -/
  | uninitialized : LocalAccessState process
  /-- `Initialized`. -/
  | initialized (access : LocalArchiveAccess process) : LocalAccessState process
  /-- `Failed`. -/
  | failed (err : String) : LocalAccessState process

/-- What is stored of an outcome. -/
def LocalAccessState.ofOutcome {process : Process} :
    Except String (LocalArchiveAccess process) → LocalAccessState process
  | .ok access => .initialized access
  | .error err => .failed err

/-- The closure of `ensure_local_access`. -/
def openLocalArchives {process : Process} (access : LocalArchiveAccess process) :
    InstallProgram (LocalArchiveAccess process) := do
  raise (question (.loadIndices access.dir)) fun e => s!"load CASC indices: {e}"
  raise (question (.openArchives access.dir)) fun e => s!"open CASC archives: {e}"
  return access

/-- `CascState::ensure_local_access`, with the mutex locked: what is stored behind it, and the
outcome. That no installation is found is not stored. -/
def ensureLocalAccess {process : Process} : LocalAccessState process →
    Program InstallQuery InstallQuery.Answer
      (LocalAccessState process × Except String (LocalArchiveAccess process))
  | .initialized access => ret (.initialized access, .ok access)
  | .failed err => ret (.failed err, .error err)
  | .uninitialized =>
    match hfound : dataDir process with
    | none => ret (.uninitialized, .error "WoW install not found for local archive access")
    | some dir => do
      let result ← (openLocalArchives ⟨dir, hfound⟩).run
      return (.ofOutcome result, result)

/-- What is made of an entry: nothing where the parser panics. -/
def decodeEntry (codecs : Codecs) (keys : TactKeyStore) (rawBlte : List UInt8) :
    Option (Except String FileContent) :=
  match parse (localBlte rawBlte) with
  | .error .panic => none
  | .error e => some (.error s!"parse BLTE container: {codecs.showParseError e}")
  | .ok file =>
    some (((decompressZeroingMissingKeys codecs keys file).map FileContent.ofPartial).mapError
      fun e => s!"decrypt/decompress BLTE container: {e.display}")

/-- The part of `read_file_by_encoding_key_with_keys` behind `ensure_local_access`. -/
def readEntry (codecs : Codecs) (keys : TactKeyStore) (dir : PathBuf) (encodingKey : Key) :
    Program InstallQuery InstallQuery.Answer (Option (Except String FileContent)) := do
  let found ← question (.lookup dir encodingKey)
  match found with
  | none =>
    return some (.error s!"missing archive location for encoding key {encodingKey.display}")
  | some entry =>
    let raw ← question (.readRaw dir entry)
    match raw with
    | .error e => return some (.error s!"read raw BLTE archive entry: {e}")
    | .ok rawBlte => return decodeEntry codecs keys rawBlte

/-- What a call does once the access is ensured. -/
def readWith {process : Process} (codecs : Codecs) (keys : TactKeyStore) (encodingKey : Key) :
    LocalAccessState process × Except String (LocalArchiveAccess process) →
    Program InstallQuery InstallQuery.Answer
      (Option (LocalAccessState process × Except String FileContent))
  | (stored, .error err) => ret (some (stored, .error err))
  | (stored, .ok access) => do
    let result ← readEntry codecs keys access.dir encodingKey
    return result.map fun content => (stored, content)

/-- `CascState::read_file_by_encoding_key_with_keys`, all of it with the mutex locked. -/
def readLocked (process : Process) (codecs : Codecs) (keys : TactKeyStore) :
    Body InstallQuery InstallQuery.Answer (LocalAccessState process) Key
      (Except String FileContent) :=
  fun encodingKey stored => ensureLocalAccess stored >>= readWith codecs keys encodingKey

/-- The outcome that is kept. -/
def LocalAccessState.outcome {process : Process} :
    LocalAccessState process → Option (Except String Unit)
  | .uninitialized => none
  | .initialized _ => some (.ok ())
  | .failed err => some (.error err)

section Archives

variable {ι : Type} {process : Process} {codecs : Codecs} {keys : TactKeyStore}
  {stored next : LocalAccessState process} {asked : Trace InstallQuery InstallQuery.Answer}
  {encodingKey : Key} {result : Except String FileContent}

/-- What `ensure_local_access` leaves: nothing new where something is kept; nothing at all where
there is no installation; what it returns, otherwise. -/
theorem leads_ensureLocalAccess {opened : Except String (LocalArchiveAccess process)}
    (h : (ensureLocalAccess stored).Leads asked (.ret (next, opened))) :
    (∀ o, stored.outcome = some o → next.outcome = some o) ∧
    ((next.outcome = some (opened.map fun _ => ())) ∨
      (dataDir process = none ∧ asked = [] ∧ next = .uninitialized ∧
        opened = .error "WoW install not found for local archive access")) := by
  cases stored with
  | initialized access =>
    cases (leads_ret_iff.mp h).2
    exact ⟨fun _ ho => ho, .inl rfl⟩
  | failed err =>
    cases (leads_ret_iff.mp h).2
    exact ⟨fun _ ho => ho, .inl rfl⟩
  | uninitialized =>
    refine ⟨(by rintro o ⟨⟩), ?_⟩
    rw [ensureLocalAccess] at h
    split at h
    · next hnone =>
      obtain ⟨rfl, heq⟩ := leads_ret_iff.mp h
      cases heq
      exact .inr ⟨hnone, rfl, rfl, rfl⟩
    · next dir hfound =>
      obtain ⟨result, first, later, -, -, hlater⟩ := leads_bind_iff.mp h
      cases (leads_ret_iff.mp hlater).2
      cases opened <;> exact .inl rfl

/-- The kinds of question that open the archives. -/
structure Opens (kind : InstallQuery → Bool) : Prop where
  lookup : ∀ dir key, kind (.lookup dir key) = false
  readRaw : ∀ dir entry, kind (.readRaw dir entry) = false
  either : ∀ dir, kind (.loadIndices dir) = true → kind (.openArchives dir) = false

theorem asksAtMost_openLocalArchives {kind : InstallQuery → Bool} (hkind : Opens kind)
    (access : LocalArchiveAccess process) :
    (openLocalArchives access).run.AsksAtMost kind 1 := by
  change (ask _ _ : Program _ _ _).AsksAtMost kind 1
  rw [AsksAtMost]
  split_ifs with hload
  · refine ⟨0, rfl, fun answer => ?_⟩
    cases answer with
    | error e => trivial
    | ok _ =>
      change (ask _ _ : Program _ _ _).AsksAtMost kind 0
      rw [AsksAtMost, if_neg (by simp [hkind.either _ hload])]
      rintro (e | _) <;> trivial
  · intro answer
    cases answer with
    | error e => trivial
    | ok _ =>
      change (ask _ _ : Program _ _ _).AsksAtMost kind 1
      rw [AsksAtMost]
      split_ifs
      · exact ⟨0, rfl, by rintro (e | _) <;> trivial⟩
      · rintro (e | _) <;> trivial

theorem asksAtMost_readWith {kind : InstallQuery → Bool} (hkind : Opens kind)
    (opened : LocalAccessState process × Except String (LocalArchiveAccess process)) :
    (readWith codecs keys encodingKey opened).AsksAtMost kind 0 := by
  obtain ⟨stored, err | access⟩ := opened
  · trivial
  · change (ask _ _ : Program _ _ _).AsksAtMost kind 0
    rw [AsksAtMost, if_neg (by simp [hkind.lookup])]
    rintro (- | entry)
    · trivial
    · change (ask _ _ : Program _ _ _).AsksAtMost kind 0
      rw [AsksAtMost, if_neg (by simp [hkind.readRaw])]
      rintro (e | raw) <;> trivial

/-- A call keeps what is stored, and returns the error or what is read. -/
theorem leads_readWith {opened : Except String (LocalArchiveAccess process)}
    (h : (readWith codecs keys encodingKey (stored, opened)).Leads asked
      (.ret (some (next, result)))) :
    stored = next ∧ ((∃ err, opened = .error err ∧ asked = [] ∧ result = .error err) ∨
      ∃ access, opened = .ok access ∧
        (readEntry codecs keys access.dir encodingKey).Leads asked (.ret (some result))) := by
  cases opened with
  | error err =>
    obtain ⟨rfl, heq⟩ := leads_ret_iff.mp h
    cases heq
    exact ⟨rfl, .inl ⟨err, rfl, rfl, rfl⟩⟩
  | ok access =>
    obtain ⟨content, first, later, rfl, hentry, hcontent⟩ := leads_bind_iff.mp h
    obtain ⟨rfl, hmap⟩ := leads_ret_iff.mp hcontent
    obtain ⟨_, rfl, heq⟩ := Option.map_eq_some_iff.mp hmap
    cases heq
    exact ⟨rfl, .inr ⟨access, rfl, hentry⟩⟩

/-- **The archives are opened where nothing is kept yet.** -/
theorem askedOnce_readLocked {kind : InstallQuery → Bool} (hkind : Opens kind) :
    Serial.AskedOnce (readLocked process codecs keys) kind fun stored => stored.outcome.isNone where
  atMostOnce key stored := by
    have hensure : (ensureLocalAccess stored).AsksAtMost kind 1 := by
      cases stored with
      | initialized access => trivial
      | failed err => trivial
      | uninitialized =>
        rw [ensureLocalAccess]
        split
        · trivial
        · exact (asksAtMost_openLocalArchives hkind _).bind (m := 0) fun _ => trivial
    exact hensure.bind fun opened => asksAtMost_readWith hkind opened
  never key stored h := by
    have hensure : (ensureLocalAccess stored).AsksAtMost kind 0 := by
      cases stored with
      | initialized access => trivial
      | failed err => trivial
      | uninitialized => cases h
    exact hensure.bind fun opened => asksAtMost_readWith hkind opened
  leave key stored asked next result h hnext := by
    obtain ⟨⟨stored', opened⟩, first, later, rfl, hfirst, hlater⟩ := leads_bind_iff.mp h
    obtain ⟨rfl, -⟩ := leads_readWith hlater
    obtain ⟨hkeep, hkept | ⟨-, rfl, -, -⟩⟩ := leads_ensureLocalAccess hfirst
    · rw [hkept] at hnext
      cases hnext
    · refine ⟨?_, ?_⟩
      · cases hstored : stored.outcome with
        | none => rfl
        | some o =>
          rw [hkeep o hstored] at hnext
          cases hnext
      · rw [List.append_nil]
        exact Nat.le_zero.mp (hlater.countP_le (asksAtMost_readWith hkind _))

/-! ### What the calls return -/

/-- The answers on record, and the outcome that is kept. -/
def answersWith (kept : Except String Unit) (asked : Trace InstallQuery InstallQuery.Answer)
    (q : InstallQuery) (answer : q.Answer) : Prop :=
  asked.answers q answer ∨
    ∃ dir, (⟨q, answer⟩ : Sigma InstallQuery.Answer) = ⟨.ensureLocalAccess dir, kept⟩

/-- `decodeEntry` is the decoding of the resolver's program, but for the panic. -/
theorem run_decode (rawBlte : List UInt8) :
    (do
      let decoded ← settled (((process.decoding codecs).formats.decodeBlteZeroing keys
        (localBlte rawBlte)).mapError fun e => s!"parse BLTE container: {e}")
      settled (decoded.mapError fun e => s!"decrypt/decompress BLTE container: {e}") :
        InstallProgram FileContent).run = .ret ((decodeEntry codecs keys rawBlte).getD
          (.error s!"parse BLTE container: {codecs.showParseError .panic}")) := by
  rw [decodeEntry]
  simp only [Process.decoding]
  rcases parse (localBlte rawBlte) with e | file
  · cases e <;> rfl
  · dsimp only [Option.getD_some]
    change Program.ret ((((decompressZeroingMissingKeys codecs keys file).map
      FileContent.ofPartial).mapError BlteError.display).mapError _) = _
    cases decompressZeroingMissingKeys codecs keys file <;> rfl

/-- **The resolver's program** asks for the access, and then does what a call does. -/
theorem run_readFileByEncodingKeyWithKeys {casc : CascState} {dir : PathBuf}
    (hdir : dataDir process = some dir) :
    (readFileByEncodingKeyWithKeys (process.decoding codecs) casc encodingKey).run =
      ask (.ensureLocalAccess dir) fun kept =>
        match kept with
        | .error err => ret (.error err)
        | .ok () => readEntry codecs casc.keys dir encodingKey >>= fun r =>
            ret (r.getD (.error s!"parse BLTE container: {codecs.showParseError .panic}")) := by
  obtain ⟨installRoot, hroot, rfl⟩ := Option.map_eq_some_iff.mp hdir
  have hsame : (process.decoding codecs).wowInstallPath = some installRoot := hroot
  rw [readFileByEncodingKeyWithKeys, AssetResolver.ensureLocalAccess, hsame]
  refine congrArg (ask _) (funext fun kept => ?_)
  rcases kept with err | -
  · rfl
  · refine congrArg (ask _) (funext fun found => ?_)
    rcases found with - | entry
    · rfl
    · refine congrArg (ask _) (funext fun raw => ?_)
      rcases raw with e | rawBlte
      · rfl
      · exact run_decode rawBlte

/-- Where there is no installation, the program says so. -/
theorem run_readFileByEncodingKeyWithKeys_none {casc : CascState}
    (hdir : dataDir process = none) :
    (readFileByEncodingKeyWithKeys (process.decoding codecs) casc encodingKey).run =
      ret (.error "WoW install not found for local archive access") := by
  have hnone : (process.decoding codecs).wowInstallPath = none := Option.map_eq_none_iff.mp hdir
  rw [readFileByEncodingKeyWithKeys, AssetResolver.ensureLocalAccess, hnone]
  rfl

/-- Nothing is kept where there is no installation. -/
def Found (stored : LocalAccessState process) : Prop :=
  dataDir process = none → stored = .uninitialized

theorem found_of_readLocked (hfound : Found stored)
    (h : (readLocked process codecs keys encodingKey stored).Leads asked
      (.ret (some (next, result)))) : Found next := by
  intro hnone
  obtain ⟨⟨stored', opened⟩, first, later, rfl, hfirst, hlater⟩ := leads_bind_iff.mp h
  obtain ⟨rfl, -⟩ := leads_readWith hlater
  rw [hfound hnone, ensureLocalAccess] at hfirst
  split at hfirst
  · cases (leads_ret_iff.mp hfirst).2
    rfl
  · next dir hsome => cases hnone.symm.trans hsome

/-- **A call returns what the resolver's program returns**, on the answers that the call got and
the outcome that it leaves. -/
theorem yields_of_readLocked {casc : CascState} {kept : Except String Unit} (hfound : Found stored)
    (h : (readLocked process codecs casc.keys encodingKey stored).Leads asked
      (.ret (some (next, result))))
    (hkept : ∀ o, next.outcome = some o → o = kept) :
    (readFileByEncodingKeyWithKeys (process.decoding codecs) casc encodingKey).run.Yields
      (answersWith kept asked) result := by
  have hnext := found_of_readLocked hfound h
  obtain ⟨⟨stored', opened⟩, first, later, rfl, hfirst, hlater⟩ := leads_bind_iff.mp h
  obtain ⟨rfl, hresult⟩ := leads_readWith hlater
  obtain ⟨-, houtcome | ⟨hnone, rfl, -, rfl⟩⟩ := leads_ensureLocalAccess hfirst
  · obtain ⟨dir, hdir⟩ : ∃ dir, dataDir process = some dir := by
      refine Option.ne_none_iff_exists'.mp fun hnone => ?_
      rw [hnext hnone] at houtcome
      cases houtcome
    obtain rfl := hkept _ houtcome
    rw [run_readFileByEncodingKeyWithKeys hdir]
    refine ⟨opened.map fun _ => (), .inr ⟨dir, rfl⟩, ?_⟩
    rcases hresult with ⟨err, rfl, rfl, rfl⟩ | ⟨access, rfl, hentry⟩
    · exact rfl
    · obtain rfl := Option.some.inj (hdir.symm.trans access.found)
      refine yields_bind_iff.mpr ⟨some result, ?_, rfl⟩
      exact hentry.yields_of_answers
        (fun q answer hq => .inl (List.mem_append_left first hq)) rfl
  · rw [run_readFileByEncodingKeyWithKeys_none hnone]
    rcases hresult with ⟨err, heq, rfl, rfl⟩ | ⟨access, heq, -⟩
    · cases heq
      exact rfl
    · cases heq

/-! ### Every run -/

variable [DecidableEq ι] {casc : CascState}
  {s : State InstallQuery InstallQuery.Answer (LocalAccessState process) Key
    (Except String FileContent) ι}
  {env : (q : InstallQuery) → q.Answer} {es : List (Event InstallQuery InstallQuery.Answer Key ι)}

/-- `IndexManager::load_all` is asked for. -/
def loadsIndices : InstallQuery → Bool
  | .loadIndices _ => true
  | _ => false

/-- `ArchiveManager::open_all` is asked for. -/
def opensArchives : InstallQuery → Bool
  | .openArchives _ => true
  | _ => false

/-- **The local archives are opened once, and the outcome is everyone's**: in every run there is
one outcome with which every call that returns returns what the resolver's program does, on the
answers that it got itself; and all calls together, with the one that is under way, load the
indices at most once, and open the archives at most once. -/
theorem reads_of_kept
    (hrun : Runs.run (step (readLocked process codecs casc.keys)) (.initial env .uninitialized) es =
      some s) :
    (∃ kept, ∀ entry ∈ s.history, ∀ result, entry.result = some result →
      (readFileByEncodingKeyWithKeys (process.decoding codecs) casc entry.call).run.Yields
        (answersWith kept entry.asked) result) ∧
    ∀ kind ∈ [loadsIndices, opensArchives], Serial.count kind s.history ≤ 1 ∧
      ∀ t call asked rest, s.phases t = some (.inside call asked rest) →
        asked.countP (fun e => kind e.1) + Serial.count kind s.history ≤ 1 := by
  have hs := inv_run hrun
  have hfits := hs.serial.forall_result Found
    (fun stored call asked result => ∀ kept, (∀ o, stored.outcome = some o → o = kept) →
      (readFileByEncodingKeyWithKeys (process.decoding codecs) casc call).run.Yields
        (answersWith kept asked) result)
    (fun _ => rfl) (fun _ _ _ _ _ hfound hled => found_of_readLocked hfound hled)
    (fun _ _ _ _ _ hfound hled kept hkept => yields_of_readLocked hfound hled hkept) ?_
  · refine ⟨⟨s.value.outcome.getD (.ok ()), fun entry hentry result hr => ?_⟩, ?_⟩
    · refine hfits entry hentry result hr _ fun o ho => ?_
      rw [ho]
      rfl
    · have hopens : ∀ kind ∈ [loadsIndices, opensArchives], Opens kind := by
        simp only [List.forall_mem_cons, List.not_mem_nil, false_imp_iff, implies_true, and_true]
        exact ⟨⟨fun _ _ => rfl, fun _ _ => rfl, fun _ _ => rfl⟩,
          ⟨fun _ _ => rfl, fun _ _ => rfl, by rintro dir ⟨⟩⟩⟩
      intro kind hkind
      have honce : Serial.AskedOnce (readLocked process codecs casc.keys) kind _ :=
        askedOnce_readLocked (hopens kind hkind)
      exact ⟨(Serial.count_le honce hs.serial).1,
        fun t call asked rest hinside => hs.count_inside_le honce hinside⟩
  · intro call stored asked next result hled call' asked' result' h kept hkept
    obtain ⟨⟨stored', opened⟩, first, later, -, hfirst, hlater⟩ := leads_bind_iff.mp hled
    obtain ⟨rfl, -⟩ := leads_readWith hlater
    exact h kept fun o ho => hkept o ((leads_ensureLocalAccess hfirst).1 o ho)

/-- `ArchiveManager::read_raw` is asked for. -/
def readsRaw : InstallQuery → Bool
  | .readRaw _ _ => true
  | _ => false

/-- Opening the archives reads no entry. -/
theorem not_readRaw_of_ensureLocalAccess {opened : Except String (LocalArchiveAccess process)}
    (h : (ensureLocalAccess stored).Leads asked (.ret (next, opened))) {dir : PathBuf}
    {entry : IndexEntry} {raw : (InstallQuery.readRaw dir entry).Answer} :
    ⟨.readRaw dir entry, raw⟩ ∉ asked := by
  have hnone : (ensureLocalAccess stored).AsksAtMost readsRaw 0 := by
    cases stored with
    | initialized access => trivial
    | failed err => trivial
    | uninitialized =>
      rw [ensureLocalAccess]
      split
      · trivial
      · rintro (e | -)
        · trivial
        · rintro (e | -) <;> trivial
  have hcount := Nat.le_zero.mp (h.countP_le hnone)
  rw [List.countP_eq_zero] at hcount
  exact fun hmem => hcount _ hmem rfl

/-- **A call that returns has met no unknown flags.** -/
theorem not_unknownFlags_of_readLocked
    (h : (readLocked process codecs keys encodingKey stored).Leads asked
      (.ret (some (next, result)))) {dir : PathBuf} {entry : IndexEntry} {raw : List UInt8}
    (hread : ⟨.readRaw dir entry, .ok raw⟩ ∈ asked) : ¬UnknownFlags (localBlte raw) := by
  intro hflags
  have hpanic := parse_eq_panic_iff.mpr hflags
  obtain ⟨⟨stored', opened⟩, first, later, rfl, hfirst, hlater⟩ := leads_bind_iff.mp h
  have hmem := (List.mem_append.mp hread).resolve_right (not_readRaw_of_ensureLocalAccess hfirst)
  obtain ⟨-, ⟨err, -, rfl, -⟩ | ⟨access, -, hentry⟩⟩ := leads_readWith hlater
  · exact List.not_mem_nil hmem
  · obtain ⟨found, asked', rfl, hfound⟩ := leads_ask_ret_iff.mp hentry
    have hmem' := (List.mem_append.mp hmem).resolve_right (by simp)
    cases found with
    | none =>
      rw [(leads_ret_iff.mp hfound).1] at hmem'
      exact List.not_mem_nil hmem'
    | some entry' =>
      obtain ⟨answer, asked'', rfl, hanswer⟩ := leads_ask_ret_iff.mp hfound
      cases answer with
      | error e =>
        rw [(leads_ret_iff.mp hanswer).1] at hmem'
        simp at hmem'
      | ok rawBlte =>
        obtain ⟨rfl, hdecode⟩ := leads_ret_iff.mp hanswer
        have hraw : rawBlte = raw := by
          rw [List.nil_append, List.mem_singleton, Sigma.mk.injEq] at hmem'
          obtain ⟨hquery, hsame⟩ := hmem'
          cases hquery
          exact (Except.ok.inj (eq_of_heq hsame)).symm
        rw [decodeEntry, hraw, hpanic] at hdecode
        cases hdecode

/-- **A panic is the end of all reads**: a call that has read a container whose header flags are
unknown does not return, the mutex is poisoned from then on, and every call that ends behind it
returns nothing and asks nothing. -/
theorem panic_poisons
    (hrun : Runs.run (step (readLocked process codecs casc.keys)) (.initial env .uninitialized) es =
      some s)
    {later earlier :
      List (Entry InstallQuery InstallQuery.Answer Key (Except String FileContent) ι)}
    {entry : Entry InstallQuery InstallQuery.Answer Key (Except String FileContent) ι}
    (hhistory : s.history = later ++ entry :: earlier) {dir : PathBuf} {index : IndexEntry}
    {raw : List UInt8} (hread : ⟨.readRaw dir index, .ok raw⟩ ∈ entry.asked)
    (hflags : UnknownFlags (localBlte raw)) :
    entry.result = none ∧ s.poisoned = true ∧ ∀ e ∈ later, e.result = none ∧ e.asked = [] := by
  have hs := inv_run hrun
  have hmet := hs.serial.forall_result (fun _ => True)
    (fun _ _ asked _ => ∀ (dir : PathBuf) (index : IndexEntry) (raw : List UInt8),
      (⟨.readRaw dir index, .ok raw⟩ : Sigma InstallQuery.Answer) ∈ asked →
        ¬UnknownFlags (localBlte raw))
    trivial (fun _ _ _ _ _ _ _ => trivial)
    (fun _ _ _ _ _ _ hled _ _ _ hmem => not_unknownFlags_of_readLocked hled hmem)
    (fun _ _ _ _ _ _ _ _ _ h => h)
  have hentry : entry ∈ s.history := by
    rw [hhistory]
    simp
  have hnone : entry.result = none := by
    by_contra hsome
    obtain ⟨result, hresult⟩ := Option.ne_none_iff_exists'.mp hsome
    exact hmet entry hentry result hresult dir index raw hread hflags
  exact ⟨hnone, hs.serial.poisoned_iff.mpr ⟨entry, hentry, hnone⟩,
    hs.serial.refused_of_panicked hhistory hnone⟩

end Archives

/-! ### Two reads -/

/-- A state with a key. -/
def keptCasc : CascState where
  identity := none
  install := .ofStr "/wow/Data"
  keys := [⟨1, [9]⟩]
  cache := ⟨.ofStr "/c", sampleContents⟩

/-- An archive with one container, whose flags are none. -/
def flagsArchive : (q : InstallQuery) → q.Answer
  | .lookup _ _ => some ⟨0, 0, 9⟩
  | .readRaw _ _ => .ok (osString "BLTE" ++ [0, 0, 0, 1, 0])
  | q => sampleInstall "" q

theorem unknownFlags_sample : UnknownFlags (localBlte (osString "BLTE" ++ [0, 0, 0, 1, 0])) :=
  ⟨1, 0, [], by decide +kernel, by decide, rfl⟩

/-- Two reads. The first takes some steps, and then the second does. -/
def twoReads (first second : ℕ) : List (Event InstallQuery InstallQuery.Answer Key ℕ) :=
  .call 0 sampleEncodingKey :: .call 1 sampleEncodingKey ::
    (List.replicate first (.step 0) ++ List.replicate second (.step 1))

/-- The second read finds the archives open. -/
theorem reads_of_kept_sample :
    ∃ s, Runs.run (step (readLocked foundProcess sampleCodecs keptCasc.keys))
        (.initial lockedArchive .uninitialized) (twoReads 6 4) = some s ∧
      s.history.length = 2 ∧
      (∃ kept, ∀ entry ∈ s.history, ∀ result, entry.result = some result →
        (readFileByEncodingKeyWithKeys (foundProcess.decoding sampleCodecs) keptCasc
          entry.call).run.Yields (answersWith kept entry.asked) result) ∧
      Serial.count opensArchives s.history ≤ 1 := by
  have hrun : Runs.run (step (readLocked foundProcess sampleCodecs keptCasc.keys))
      (.initial lockedArchive .uninitialized) (twoReads 6 4) = some _ := rfl
  have hkept := reads_of_kept hrun
  exact ⟨_, hrun, rfl, hkept.1, (hkept.2 opensArchives (by simp)).1⟩

/-- The second read finds the mutex poisoned. -/
theorem panic_poisons_sample :
    ∃ s first second, Runs.run (step (readLocked foundProcess sampleCodecs keptCasc.keys))
        (.initial flagsArchive .uninitialized) (twoReads 6 1) = some s ∧
      s.history = [second, first] ∧ first.result = none ∧ s.poisoned = true ∧
      second.result = none := by
  have hrun : Runs.run (step (readLocked foundProcess sampleCodecs keptCasc.keys))
      (.initial flagsArchive .uninitialized) (twoReads 6 1) = some _ := rfl
  have hpanic := panic_poisons hrun (show _ = [_] ++ _ :: [] from rfl) List.mem_cons_self
    unknownFlags_sample
  exact ⟨_, _, _, hrun, rfl, hpanic.1, hpanic.2.1, (hpanic.2.2 _ (List.mem_singleton_self _)).1⟩

end Kept

end AssetResolver
