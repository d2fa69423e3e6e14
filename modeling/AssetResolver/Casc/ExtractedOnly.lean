import AssetResolver.Casc.Denied
import AssetResolver.Library.Runs

/-!
# Extracted-only mode never touches CASC

A process in which any number of public calls are on their way, and every step is one
question of one of them: every interleaving of calls, from any threads, is a run of
`AssetResolver.Policy.step`. The process itself answers for the mode, the count and the
hook (`AssetResolver.Policy.reply`); the world outside answers the rest, in each state as
it likes. A call may unwind where it stands, except in the middle of the count.

A call keeps the record of its questions, so that what it has done is what is on record
(`AssetResolver.Policy.Inv`), and what a program may ask (`AssetResolver.Policy.Call.spares`,
`AssetResolver.Policy.Call.counts_program`, `AssetResolver.Policy.Call.disciplined`) is
brought to bear on every call of every run.
-/

namespace AssetResolver

namespace Policy

open Program

/-! ### The process -/

/-- A record of the questions of a call. -/
abbrev PolicyTrace := Trace PolicyQuery PolicyQuery.Answer

/-- A call on its way. -/
structure Running where
  /-- The call. -/
  call : Call
  /-- What it has asked so far. -/
  trace : PolicyTrace
  /-- What is left of it. -/
  rest : Program PolicyQuery PolicyQuery.Answer (Except String call.Result)
  /-- It has unwound. -/
  unwound : Bool

/-- The statics of `runtime_mode.rs`. -/
structure Memory where
  /-- `PROCESS_MODE`. -/
  mode : Option AssetRuntimeMode
  /-- `FORBIDDEN_ACCESSES`. -/
  forbidden : UInt64
  /-- `ACCESS_HOOK`. -/
  hook : Option Hook

/-- A process. -/
structure State where
  /-- Its statics. -/
  memory : Memory
  /-- The calls so far. -/
  calls : List Running

/-- A process that has just started. -/
def State.initial : State := ⟨⟨none, 0, none⟩, []⟩

/-- **The world outside**: what it answers in a state. It may be patched, and may react to
all that has happened. -/
abbrev World : Type := State → (q : PolicyQuery) → q.Answer

/-- `PROCESS_MODE.get_or_init`, of the variable. -/
def observeMode (world : World) (s : State) : Option (AssetRuntimeMode × Memory) :=
  match s.memory.mode with
  | some mode => some (mode, s.memory)
  | none =>
    match (world s .assetMode).mode with
    | .ok mode => some (mode, { s.memory with mode := some mode })
    -- the closure panics, and the cell stays empty
    | .error _ => none

/-- `ACCESS_HOOK.set`. -/
def installHook (memory : Memory) (hook : Hook) : Bool × Memory :=
  match memory.hook with
  | none => (true, { memory with hook := some hook })
  | some _ => (false, memory)

/-- What is answered, and what the process remembers then; there is no answer where the
process panics. -/
def reply (world : World) (s : State) : (q : PolicyQuery) → Option (q.Answer × Memory)
  | .selectMode mode =>
    let selected := s.memory.mode.getD mode
    some (selected, { s.memory with mode := some selected })
  | .processMode => observeMode world s
  | .recordForbidden => some ((), { s.memory with forbidden := s.memory.forbidden + 1 })
  | .forbiddenCount => some (s.memory.forbidden, s.memory)
  | .accessHook => some (s.memory.hook, s.memory)
  | .setHook hook => some (installHook s.memory hook)
  | .panicking _ _ => none
  | .assetMode => some (world s .assetMode, s.memory)
  | .callHook hook error => some (world s (.callHook hook error), s.memory)
  | .defaultPaths => some (world s .defaultPaths, s.memory)
  | .newDefaultPaths => some (world s .newDefaultPaths, s.memory)
  | .lookupPath path => some (world s (.lookupPath path), s.memory)
  | .discoverInstall => some (world s .discoverInstall, s.memory)
  | .cascCell paths identity => some (world s (.cascCell paths identity), s.memory)
  | .setCascCell paths identity outcome =>
    some (world s (.setCascCell paths identity outcome), s.memory)
  | .localAccess casc => some (world s (.localAccess casc), s.memory)
  | .outside q => some (world s (.outside q), s.memory)

variable (formats : Formats)

/-- A call that has not asked anything yet. -/
def Running.start (call : Call) : Running := ⟨call, [], (call.program formats).run, false⟩

variable {formats} in
@[simp] theorem Running.trace_start {call : Call} : (start formats call).trace = [] := rfl

/-- A call may unwind where it asks something, which the count is too short for. -/
def Running.mayUnwind : Running → Bool
  | ⟨_, _, .ask q _, false⟩ => !q.counts
  | _ => false

/-- What may happen. -/
inductive Event where
  /-- A call begins. -/
  | call (call : Call) : Event
  /-- A call takes its next step. -/
  | step (i : ℕ) : Event
  /-- A call unwinds. -/
  | unwind (i : ℕ) : Event

/-- The next step of a call. -/
def stepCall (world : World) (s : State) (i : ℕ) : Running → Option State
  | ⟨call, trace, .ask q k, false⟩ =>
    match reply world s q with
    | some (answer, memory) =>
      some ⟨memory, s.calls.set i ⟨call, ⟨q, answer⟩ :: trace, k answer, false⟩⟩
    | none => some ⟨s.memory, s.calls.set i ⟨call, trace, .ask q k, true⟩⟩
  | _ => none

/-- **One step of a process.** -/
def step (world : World) (s : State) : Event → Option State
  | .call call => some ⟨s.memory, s.calls ++ [.start formats call]⟩
  | .step i => s.calls[i]?.bind (stepCall world s i)
  | .unwind i => s.calls[i]?.bind fun c =>
    if c.mayUnwind then some ⟨s.memory, s.calls.set i { c with unwound := true }⟩ else none

/-! ### What a step does -/

section Step

variable {formats} {world world' : World} {s s' : State} {e : Event}

/-- What a step leads to. -/
inductive Steps (formats : Formats) (world : World) (s : State) : State → Prop where
  /-- A call begins. -/
  | begun (call : Call) : Steps formats world s ⟨s.memory, s.calls ++ [.start formats call]⟩
  /-- A question is answered. -/
  | answered {before after : List Running} {call : Call} {trace : PolicyTrace} {q : PolicyQuery}
      {k : q.Answer → Program PolicyQuery PolicyQuery.Answer (Except String call.Result)}
      {answer : q.Answer} {memory : Memory}
      (hcalls : s.calls = before ++ ⟨call, trace, .ask q k, false⟩ :: after)
      (hreply : reply world s q = some (answer, memory)) :
      Steps formats world s
        ⟨memory, before ++ ⟨call, ⟨q, answer⟩ :: trace, k answer, false⟩ :: after⟩
  /-- A call unwinds. -/
  | unwound {before after : List Running} {c : Running} (hcalls : s.calls = before ++ c :: after) :
      Steps formats world s ⟨s.memory, before ++ { c with unwound := true } :: after⟩

/-- A list, around one of its elements. -/
theorem exists_around {α : Type} {xs : List α} {i : ℕ} {x : α} (h : xs[i]? = some x) :
    ∃ before after, xs = before ++ x :: after ∧
      ∀ y, xs.set i y = before ++ y :: after := by
  obtain ⟨hi, rfl⟩ := List.getElem?_eq_some_iff.mp h
  refine ⟨xs.take i, xs.drop (i + 1), ?_, fun y => List.set_eq_take_append_cons_drop.trans ?_⟩
  · rw [List.getElem_cons_drop, List.take_append_drop]
  · rw [if_pos hi]

theorem steps_of_stepCall {i : ℕ} {c : Running} (hc : s.calls[i]? = some c)
    (h : stepCall world s i c = some s') : Steps formats world s s' := by
  obtain ⟨before, after, hcalls, hset⟩ := exists_around hc
  unfold stepCall at h
  split at h
  · split at h
    · next hreply =>
      cases h
      rw [hset]
      exact .answered hcalls hreply
    · cases h
      rw [hset]
      exact .unwound hcalls
  · cases h

/-- **What a step does.** -/
theorem steps_of_step (h : step formats world s e = some s') : Steps formats world s s' := by
  cases e with
  | call call =>
    cases h
    exact .begun call
  | step i =>
    obtain ⟨c, hc, h⟩ := Option.bind_eq_some_iff.mp h
    exact steps_of_stepCall hc h
  | unwind i =>
    obtain ⟨c, hc, h⟩ := Option.bind_eq_some_iff.mp h
    obtain ⟨before, after, hcalls, hset⟩ := exists_around hc
    split_ifs at h
    cases h
    rw [hset]
    exact .unwound hcalls

end Step

/-! ### What the process answers -/

/-- The mode that an answer says the process has. -/
def PolicyQuery.observes : (q : PolicyQuery) → q.Answer → Option AssetRuntimeMode
  | .selectMode _, mode => some mode
  | .processMode, mode => some mode
  | _, _ => none

section Reply

variable {world world' : World} {s : State} {q : PolicyQuery} {answer : q.Answer}
  {memory : Memory}

/-- **The mode is observed once**: it is that of the cell, or the cell takes it. -/
theorem eq_of_observeMode {mode : AssetRuntimeMode}
    (h : observeMode world s = some (mode, memory)) :
    (s.memory.mode = some mode ∨ s.memory.mode = none) ∧
      memory = { s.memory with mode := some mode } := by
  unfold observeMode at h
  split at h
  · next hheld =>
    cases h
    exact ⟨.inl hheld, by rw [← hheld]⟩
  · next hnone =>
    split at h
    · cases h
      exact ⟨.inr hnone, rfl⟩
    · cases h

/-- A hook does not touch the other statics. -/
theorem installHook_snd (memory : Memory) (hook : Hook) :
    (installHook memory hook).2.mode = memory.mode ∧
      (installHook memory hook).2.forbidden = memory.forbidden := by
  unfold installHook
  split
  · exact ⟨rfl, rfl⟩
  · exact ⟨rfl, rfl⟩

/-- **A mode that is set stays**, and what is answered is what is set. -/
theorem mode_of_reply (h : reply world s q = some (answer, memory)) {mode : AssetRuntimeMode} :
    (s.memory.mode = some mode → memory.mode = some mode) ∧
      (q.observes answer = some mode → memory.mode = some mode) := by
  cases q with
  | selectMode selected =>
    cases h
    refine ⟨fun hmode => ?_, fun hobserved => hobserved⟩
    rw [hmode]
    rfl
  | processMode =>
    obtain ⟨hheld, rfl⟩ := eq_of_observeMode h
    refine ⟨fun hmode => ?_, fun hobserved => hobserved⟩
    rw [hmode] at hheld
    rcases hheld with hheld | hnone
    · exact hheld.symm
    · cases hnone
  | setHook hook =>
    obtain rfl : (installHook s.memory hook).2 = memory := congrArg Prod.snd (Option.some.inj h)
    exact ⟨fun hmode => (installHook_snd _ hook).1.trans hmode, nofun⟩
  | panicking message error => cases h
  | _ =>
    cases h
    exact ⟨id, nofun⟩

/-- **Only counting counts**, by one. -/
theorem forbidden_of_reply (h : reply world s q = some (answer, memory)) :
    memory.forbidden = s.memory.forbidden + UInt64.ofNat (if q.counts then 1 else 0) := by
  cases q with
  | processMode =>
    obtain ⟨-, rfl⟩ := eq_of_observeMode h
    exact (UInt64.add_zero _).symm
  | setHook hook =>
    obtain rfl : (installHook s.memory hook).2 = memory := congrArg Prod.snd (Option.some.inj h)
    exact (installHook_snd _ hook).2.trans (UInt64.add_zero _).symm
  | recordForbidden =>
    cases h
    rfl
  | panicking message error => cases h
  | _ =>
    cases h
    exact (UInt64.add_zero _).symm

/-- **What does not touch CASC is answered without it.** -/
theorem reply_congr (hagree : ∀ q, q.touchesCasc = false → world s q = world' s q)
    (hq : q.touchesCasc = false) : reply world s q = reply world' s q := by
  cases q with
  | processMode =>
    change observeMode world s = observeMode world' s
    rw [observeMode, observeMode, hagree .assetMode rfl]
  | discoverInstall | cascCell | setCascCell | localAccess => cases hq
  | assetMode | callHook | defaultPaths | newDefaultPaths | lookupPath | outside =>
    rw [reply, reply, hagree _ hq]
  | _ => rfl

end Reply

/-! ### The invariant -/

/-- What a call has counted. -/
def Running.entries (c : Running) : ℕ := c.trace.countP fun entry => entry.1.counts

/-- What a call may count where it is denied CASC. -/
def Call.budget (call : Call) : ℕ := if call.isGuarded then 1 else 0

/-- **The call asks `q` when `earlier` is on its record.** -/
def Running.Asks (c : Running) (q : PolicyQuery) (earlier : PolicyTrace) : Prop :=
  c.trace.Asks c.rest q earlier

/-- **The invariant of a process.** -/
structure Inv (s : State) : Prop where
  /-- Every call is where its record leads. -/
  leads : ∀ c ∈ s.calls, (c.call.program formats).run.Leads c.trace c.rest
  /-- Whatever a call has observed is the mode of the process. -/
  observed : ∀ c ∈ s.calls, ∀ entry ∈ c.trace, ∀ mode,
    entry.1.observes entry.2 = some mode → s.memory.mode = some mode
  /-- The count is that of the entries on record. -/
  counted : s.memory.forbidden = UInt64.ofNat (s.calls.map Running.entries).sum

section Invariant

variable {formats} {world world' : World} {s s' : State} {e : Event}

theorem inv_initial : Inv formats State.initial where
  leads := by rintro c ⟨⟩
  observed := by rintro c ⟨⟩
  counted := rfl

/-- What holds of every call once one of them goes on. -/
theorem forall_mem_replace {α : Type} {P : α → Prop} {before after : List α} {x y : α}
    (h : ∀ z ∈ before ++ x :: after, P z) (hy : P y) : ∀ z ∈ before ++ y :: after, P z := by
  rw [List.forall_mem_append, List.forall_mem_cons] at h ⊢
  exact ⟨h.1, hy, h.2.2⟩

/-- **The mode of a process stays.** -/
theorem mode_of_steps (h : Steps formats world s s') {mode : AssetRuntimeMode}
    (hmode : s.memory.mode = some mode) : s'.memory.mode = some mode := by
  cases h with
  | begun call => exact hmode
  | answered hcalls hreply => exact (mode_of_reply hreply).1 hmode
  | unwound hcalls => exact hmode

/-- **A step keeps the invariant.** -/
theorem inv_steps (hs : Inv formats s) (h : Steps formats world s s') : Inv formats s' := by
  have hmode : ∀ mode, s.memory.mode = some mode → s'.memory.mode = some mode :=
    fun mode => mode_of_steps h
  obtain ⟨hleads, hobserved, hcounted⟩ := hs
  cases h with
  | begun call =>
    refine ⟨?_, ?_, ?_⟩
    · rw [List.forall_mem_append, List.forall_mem_singleton]
      exact ⟨hleads, .start⟩
    · rw [List.forall_mem_append, List.forall_mem_singleton]
      refine ⟨hobserved, fun entry hentry => ?_⟩
      rw [Running.trace_start] at hentry
      exact absurd hentry List.not_mem_nil
    · simpa [Running.entries] using hcounted
  | @answered before after call trace q k answer memory hcalls hreply =>
    rw [hcalls] at hleads hobserved hcounted
    have hc : (⟨call, trace, .ask q k, false⟩ : Running) ∈ before ++ _ :: after :=
      List.mem_append_right before List.mem_cons_self
    refine ⟨forall_mem_replace hleads ((hleads _ hc).next answer), ?_, ?_⟩
    · have hstays : ∀ c ∈ before ++ _ :: after, ∀ entry ∈ c.trace, ∀ mode,
          entry.1.observes entry.2 = some mode → memory.mode = some mode :=
        fun c hc entry hentry mode hobs => hmode mode (hobserved c hc entry hentry mode hobs)
      refine forall_mem_replace hstays fun entry hentry mode hobs => ?_
      rcases List.mem_cons.mp hentry with rfl | hentry
      · exact (mode_of_reply hreply).2 hobs
      · exact hstays _ hc entry hentry mode hobs
    · change memory.forbidden = _
      rw [forbidden_of_reply hreply, hcounted, ← UInt64.ofNat_add]
      congr 1
      simp only [List.map_append, List.map_cons, List.sum_append, List.sum_cons,
        Running.entries, List.countP_cons]
      omega
  | @unwound before after c hcalls =>
    rw [hcalls] at hleads hobserved hcounted
    have hc : c ∈ before ++ c :: after := List.mem_append_right before List.mem_cons_self
    refine ⟨forall_mem_replace hleads (hleads c hc), forall_mem_replace hobserved
      (hobserved c hc), ?_⟩
    simpa [Running.entries] using hcounted

/-- **The invariant holds in every run.** -/
theorem inv_run {events : List Event}
    (hrun : Runs.run (step formats world) State.initial events = some s) : Inv formats s :=
  Runs.invariant (Inv formats) (fun _ _ _ hs h => inv_steps hs (steps_of_step h)) inv_initial hrun

theorem mode_of_run {events : List Event} {mode : AssetRuntimeMode}
    (hmode : s.memory.mode = some mode)
    (hrun : Runs.run (step formats world) s events = some s') : s'.memory.mode = some mode :=
  Runs.invariant (fun t => t.memory.mode = some mode)
    (fun _ _ _ hmode h => mode_of_steps (steps_of_step h) hmode) hmode hrun

end Invariant

/-! ### What the record of a call says -/

/-- **A call is denied CASC**: by its own mode, or by that of the process. A process that has
no mode yet has let nobody pass. -/
def State.denies (s : State) (c : Running) : Prop :=
  c.call.mode = .extractedOnly ∨ s.memory.mode ≠ some .localCasc

/-- The call has returned, or it reports that it is denied. -/
def Running.isDecided : Running → Bool
  | ⟨_, _, .ret _, _⟩ => true
  | ⟨_, _, .ask q _, _⟩ => q.reports

/-- What is on the record of a call beside CASC. -/
def Running.visible (c : Running) : PolicyTrace :=
  c.trace.filter fun entry => !entry.1.touchesCasc

section Records

variable {formats} {s s' : State} {c c' : Running} {q : PolicyQuery} {earlier : PolicyTrace}

/-- What is on a record was denied by the modes that are on it. -/
theorem Inv.denies (hs : Inv formats s) (hc : c ∈ s.calls) (hdeny : s.denies c)
    (hearlier : earlier ⊆ c.trace) : Denies c.call.mode earlier.answers := by
  rcases hdeny with hext | hprocess
  · exact .inl hext
  · exact .inr fun hlocal => hprocess (hs.observed c hc _ (hearlier hlocal) _ rfl)

/-- **A denied call does not touch CASC.** -/
theorem Inv.touchesCasc_of_asks (hs : Inv formats s) (hc : c ∈ s.calls) (hdeny : s.denies c)
    (hask : c.Asks q earlier) : q.touchesCasc = false :=
  (c.call.spares (hs.denies hc hdeny hask.subset) (hask.mayAsk (hs.leads c hc))).1

/-- **What is reported has been counted.** -/
theorem Inv.recordForbidden_of_asks (hs : Inv formats s) (hc : c ∈ s.calls)
    (hask : c.Asks q earlier) (hreports : q.reports = true) :
    earlier.answers .recordForbidden () :=
  (c.call.disciplined formats).counted q hreports (hask.mayAsk (hs.leads c hc))

/-- **Only a denied entry counts.** -/
theorem Inv.denied_of_entries (hs : Inv formats s) (hc : c ∈ s.calls) (hentries : 0 < c.entries) :
    c.call.mode = .extractedOnly ∨ s.memory.mode = some .extractedOnly := by
  obtain ⟨entry, hentry, hcounts⟩ := List.countP_pos_iff.mp hentries
  obtain ⟨earlier, hask⟩ := Trace.exists_asks c.rest hentry
  rcases (c.call.disciplined formats).denied _ hcounts (hask.mayAsk (hs.leads c hc)) with
    hext | hprocess
  · exact .inl hext
  · exact .inr (hs.observed c hc _ (hask.subset hprocess) _ rfl)

/-- **What a denied call has counted and will count** is one entry behind a guard, and none
otherwise. -/
theorem Inv.budget_eq (hs : Inv formats s) (hc : c ∈ s.calls) (hdeny : s.denies c) :
    ∃ m, c.rest.Asks c.trace.answers (fun q => q.counts = true) m ∧
      c.call.budget = c.entries + m := by
  obtain ⟨m, hm, hbudget⟩ := (hs.leads c hc).asks (fun _ _ h => h)
    (c.call.counts_program (hs.denies hc hdeny (List.Subset.refl _)))
  refine ⟨m, hm, hbudget.trans ?_⟩
  simp [Running.entries]

/-- **A denied entry is counted once**, when the call returns or reports it. -/
theorem Inv.entries_eq (hs : Inv formats s) (hc : c ∈ s.calls) (hdeny : s.denies c)
    (hdecided : c.isDecided = true) : c.entries = c.call.budget := by
  obtain ⟨m, hm, hbudget⟩ := hs.budget_eq hc hdeny
  obtain ⟨call, trace, rest, unwound⟩ := c
  cases rest with
  | ret r =>
    obtain rfl : m = 0 := hm
    exact hbudget.symm
  | ask q k =>
    have hrecord : Trace.answers trace .recordForbidden () :=
      hs.recordForbidden_of_asks hc (.inl ⟨rfl, k, rfl⟩) hdecided
    have hpos : 0 < Running.entries ⟨call, trace, .ask q k, unwound⟩ :=
      List.countP_pos_iff.mpr ⟨_, hrecord, rfl⟩
    have hle : call.budget ≤ 1 := by
      unfold Call.budget
      split_ifs <;> omega
    change call.budget = _ at hbudget
    change _ = call.budget
    omega

/-- Nothing on the record of a denied call is hidden. -/
theorem Inv.visible_eq (hs : Inv formats s) (hc : c ∈ s.calls) (hdeny : s.denies c) :
    c.visible = c.trace := by
  refine List.filter_eq_self.mpr fun entry hentry => ?_
  obtain ⟨earlier, hask⟩ := Trace.exists_asks c.rest hentry
  rw [hs.touchesCasc_of_asks hc hdeny hask]
  rfl

/-- **A denied call is what it is without CASC**: the answers beside it decide where it is. -/
theorem Inv.eq_of_visible (hs : Inv formats s) (hs' : Inv formats s') (hc : c ∈ s.calls)
    (hc' : c' ∈ s'.calls) (hdeny : s.denies c) (hdeny' : s'.denies c') (hcall : c.call = c'.call)
    (hunwound : c.unwound = c'.unwound) (hvisible : c.visible = c'.visible) : c = c' := by
  rw [hs.visible_eq hc hdeny, hs'.visible_eq hc' hdeny'] at hvisible
  have hleads := hs.leads c hc
  have hleads' := hs'.leads c' hc'
  obtain ⟨call, trace, rest, unwound⟩ := c
  obtain ⟨call', trace', rest', unwound'⟩ := c'
  cases hcall
  cases hunwound
  cases hvisible
  cases hleads.unique hleads'
  rfl

end Records

/-! ### Two worlds -/

/-- **Two worlds differ only in what touches CASC**, which is the installation and what is
made of it. -/
def World.Agrees (world world' : World) : Prop :=
  ∀ s q, q.touchesCasc = false → world s q = world' s q

/-- Every call of a process is denied CASC. -/
def State.deniesAll (s : State) : Prop := ∀ c ∈ s.calls, s.denies c

section Worlds

variable {formats} {world world' : World} {s s' : State} {e : Event}

/-- A call that is denied CASC was denied it before. -/
theorem denies_of_steps (h : Steps formats world s s') {c c' : Running} (hcall : c'.call = c.call)
    (hdeny : s'.denies c') : s.denies c := by
  rcases hdeny with hext | hprocess
  · exact .inl (hcall ▸ hext)
  · exact .inr fun hlocal => hprocess (mode_of_steps h hlocal)

/-- A call goes on, and is the same call. -/
theorem exists_mem_of_steps (h : Steps formats world s s') {c : Running} (hc : c ∈ s.calls) :
    ∃ c' ∈ s'.calls, c'.call = c.call := by
  cases h with
  | begun call => exact ⟨c, List.mem_append_left _ hc, rfl⟩
  | answered hcalls hreply =>
    rw [hcalls, List.mem_append, List.mem_cons] at hc
    rcases hc with hc | rfl | hc
    · exact ⟨c, List.mem_append_left _ hc, rfl⟩
    · exact ⟨_, List.mem_append_right _ List.mem_cons_self, rfl⟩
    · exact ⟨c, List.mem_append_right _ (List.mem_cons_of_mem _ hc), rfl⟩
  | unwound hcalls =>
    rw [hcalls, List.mem_append, List.mem_cons] at hc
    rcases hc with hc | rfl | hc
    · exact ⟨c, List.mem_append_left _ hc, rfl⟩
    · exact ⟨_, List.mem_append_right _ List.mem_cons_self, rfl⟩
    · exact ⟨c, List.mem_append_right _ (List.mem_cons_of_mem _ hc), rfl⟩

theorem deniesAll_of_steps (h : Steps formats world s s') (hdeny : s'.deniesAll) :
    s.deniesAll := by
  intro c hc
  obtain ⟨c', hc', hcall⟩ := exists_mem_of_steps h hc
  exact denies_of_steps h hcall (hdeny c' hc')

theorem deniesAll_of_run {events : List Event} :
    ∀ {s : State}, Runs.run (step formats world) s events = some s' → s'.deniesAll →
      s.deniesAll := by
  induction events with
  | nil =>
    rintro s ⟨⟩ hdeny
    exact hdeny
  | cons e events ih =>
    intro s hrun hdeny
    obtain ⟨t, ht, hrun⟩ := Runs.run_cons_eq_some.mp hrun
    exact deniesAll_of_steps (steps_of_step ht) (ih hrun hdeny)

/-- **Where all is denied, a step does not see the installation.** -/
theorem step_congr (hagree : world.Agrees world') (hs : Inv formats s) (hdeny : s.deniesAll) :
    step formats world s e = step formats world' s e := by
  cases e with
  | call call => rfl
  | unwind i => rfl
  | step i =>
    refine Option.bind_congr fun c hc => ?_
    have hmem : c ∈ s.calls := List.mem_of_getElem? hc
    obtain ⟨call, trace, rest, unwound⟩ := c
    cases rest with
    | ret r => rfl
    | ask q k =>
      cases unwound with
      | true => rfl
      | false =>
        have hq := hs.touchesCasc_of_asks hmem (hdeny _ hmem) (.inl ⟨rfl, k, rfl⟩)
        rw [stepCall, stepCall, reply_congr (fun q hq => hagree s q hq) hq]

/-- **Where all is denied, a run does not see the installation.** -/
theorem run_congr {events : List Event} (hagree : world.Agrees world') :
    ∀ {s : State}, Inv formats s → Runs.run (step formats world) s events = some s' →
      s'.deniesAll → Runs.run (step formats world') s events = some s' := by
  induction events with
  | nil => exact fun _ hrun _ => hrun
  | cons e events ih =>
    intro s hs hrun hdeny
    have hdeny₀ := deniesAll_of_run hrun hdeny
    obtain ⟨t, ht, hrun⟩ := Runs.run_cons_eq_some.mp hrun
    refine Runs.run_cons_eq_some.mpr ⟨t, ?_, ih (inv_steps hs (steps_of_step ht)) hrun hdeny⟩
    rw [← step_congr hagree hs hdeny₀]
    exact ht

end Worlds

/-! ### Extracted-only -/

/-- **Extracted-only mode never touches CASC**, in any run of public calls from any threads.

The mode of the process, once set, stays, and is what every call observes. The count is that
of the entries that were denied. A call that is denied CASC, be it by its resolver or by the
process, asks nothing that touches it; it counts at most one entry, exactly one once its
guard has decided, and none if it is legal. What is reported to the hook, or by a panic, has
been counted **before**, and nothing counts where nothing is denied.

Runs that differ only in the installation come to the same state if all is denied there; and
in any two runs, whatever else happens in them, a denied call is determined by its answers
that have nothing to do with CASC. -/
theorem extractedOnly_correct (world : World) :
    ∀ events s, Runs.run (step formats world) State.initial events = some s →
      (∀ mode, s.memory.mode = some mode →
        ∀ later s', Runs.run (step formats world) s later = some s' →
          s'.memory.mode = some mode) ∧
      s.memory.forbidden = UInt64.ofNat (s.calls.map Running.entries).sum ∧
      (∀ c ∈ s.calls,
        (∀ entry ∈ c.trace, ∀ mode, entry.1.observes entry.2 = some mode →
          s.memory.mode = some mode) ∧
        (∀ q earlier, c.Asks q earlier → q.reports = true →
          earlier.answers .recordForbidden ()) ∧
        (0 < c.entries →
          c.call.mode = .extractedOnly ∨ s.memory.mode = some .extractedOnly) ∧
        (s.denies c →
          (∀ q earlier, c.Asks q earlier → q.touchesCasc = false) ∧
          c.entries ≤ c.call.budget ∧
          (c.isDecided = true → c.entries = c.call.budget))) ∧
      (∀ world', world.Agrees world' → s.deniesAll →
        Runs.run (step formats world') State.initial events = some s) ∧
      ∀ world' events' s', Runs.run (step formats world') State.initial events' = some s' →
        ∀ c ∈ s.calls, ∀ c' ∈ s'.calls, s.denies c → s'.denies c' → c.call = c'.call →
          c.unwound = c'.unwound → c.visible = c'.visible → c = c' := by
  intro events s hrun
  have hs := inv_run hrun
  refine ⟨fun mode hmode later s' hlater => mode_of_run hmode hlater, hs.counted,
    fun c hc => ⟨hs.observed c hc, fun q earlier => hs.recordForbidden_of_asks hc,
      hs.denied_of_entries hc, fun hdeny => ⟨fun q earlier => hs.touchesCasc_of_asks hc hdeny,
        ?_, hs.entries_eq hc hdeny⟩⟩,
    fun world' hagree hdeny => run_congr hagree inv_initial hrun hdeny, ?_⟩
  · obtain ⟨m, -, hbudget⟩ := hs.budget_eq hc hdeny
    omega
  · intro world' events' s' hrun' c hc c' hc' hdeny hdeny'
    exact hs.eq_of_visible (inv_run hrun') hc hc' hdeny hdeny'

/-- The formats of the samples. -/
def sampleProcessFormats : Formats := ⟨sampleInstallFormats, sampleCodecs⟩

/-- A process that is told to be extracted-only, beside an installation. -/
def sampleWorld : World
  | _, .assetMode => .value "extracted-only"
  | _, .selectMode mode => mode
  | _, .processMode => .localCasc
  | _, .recordForbidden => ()
  | _, .forbiddenCount => 0
  | _, .accessHook => none
  | _, .callHook _ _ => ()
  | _, .setHook _ => true
  | _, .panicking _ _ => ()
  | _, .defaultPaths | _, .newDefaultPaths => ⟨.ofStr "/d", .ofStr "/d", .ofStr "/c"⟩
  | _, .lookupPath _ => none
  | _, .discoverInstall => some (.ofStr "/wow")
  | _, .cascCell _ _ => none
  | _, .setCascCell _ _ _ => ()
  | _, .localAccess _ => .uninitialized
  | _, .outside q => sampleInstall (buildInfoText firstKey) q

/-- Two guarded calls that take turns, once a hook is set, and one that is legal. -/
def sampleRun : List Event :=
  [.call (.setCascAccessHook 7), .step 0, .call (.resolveBytes 1), .call .wowDataPath, .step 1,
    .step 2, .step 1, .step 2, .step 2, .step 1, .step 2, .step 1,
    .call (.resolver (samplePaths none) .initializeResolver), .step 3]

/-- **Two entries are denied**, and the process never looks for the installation. -/
theorem extractedOnly_correct_sample :
    ∃ s, Runs.run (step sampleProcessFormats sampleWorld) State.initial sampleRun = some s ∧
      s.memory.forbidden = 2 ∧
      ∀ c ∈ s.calls, c.isDecided = true ∧ c.entries = c.call.budget ∧
        ∀ q earlier, c.Asks q earlier → q.touchesCasc = false := by
  have hend : (Runs.run (step sampleProcessFormats sampleWorld) State.initial sampleRun).map
      (fun s => (s.memory.mode, s.memory.forbidden, s.calls.all Running.isDecided)) =
        some (some .extractedOnly, 2, true) := by decide +kernel
  obtain ⟨s, hrun, hs⟩ := Option.map_eq_some_iff.mp hend
  obtain ⟨hmode, hforbidden, hdecided⟩ : s.memory.mode = some .extractedOnly ∧
      s.memory.forbidden = 2 ∧ s.calls.all Running.isDecided = true := by
    simpa only [Prod.mk.injEq] using hs
  have hprocess : s.memory.mode ≠ some .localCasc := by
    rw [hmode]
    decide
  obtain ⟨-, -, hcalls, -⟩ := extractedOnly_correct sampleProcessFormats sampleWorld _ s hrun
  refine ⟨s, hrun, hforbidden, fun c hc => ?_⟩
  have hover : c.isDecided = true := List.all_eq_true.mp hdecided c hc
  obtain ⟨-, -, -, hdenied⟩ := hcalls c hc
  obtain ⟨hspares, -, hbudget⟩ := hdenied (.inr hprocess)
  exact ⟨hover, hbudget hover, hspares⟩

end Policy

end AssetResolver
