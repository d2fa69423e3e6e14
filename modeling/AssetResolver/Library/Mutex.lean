import AssetResolver.Library.Runs
import AssetResolver.Library.Traces

/-!
# Calls behind a mutex

Several calls share a value behind a mutex. A call locks it, runs a program on the value, stores
the value that the program computes and unlocks (`Mutex.step`). Between two questions of the
program anything may happen to the other calls and to the environment, and a call that panics
poisons the mutex: who locks it later panics as well.

**Every interleaving is a sequence of whole calls** (`Mutex.inv_run`): in the order in which they
unlock, each call did what it would have done alone on the value that the calls before it left
(`Mutex.Serial`). What calls can say about each other is then an induction over that sequence,
in which no other call is under way (`Mutex.Serial.invariant`).
-/

namespace Mutex

open Program

variable {Query : Type} {Answer : Query → Type} {σ κ ρ ι : Type}

/-- What calls do with the value: the new one and the result, or a panic. -/
abbrev Body (Query : Type) (Answer : Query → Type) (σ κ ρ : Type) : Type :=
  κ → σ → Program Query Answer (Option (σ × ρ))

/-- Where a call is. -/
inductive Phase (Query : Type) (Answer : Query → Type) (σ κ ρ : Type) : Type where
  /-- It waits for the lock. -/
  | waiting (call : κ) : Phase Query Answer σ κ ρ
  /-- It holds the lock, has asked something, and goes on. -/
  | inside (call : κ) (asked : Trace Query Answer)
      (rest : Program Query Answer (Option (σ × ρ))) : Phase Query Answer σ κ ρ
  /-- It is over. -/
  | left : Phase Query Answer σ κ ρ

/-- A call that is over: what it asked, and what it returned unless it panicked. -/
structure Entry (Query : Type) (Answer : Query → Type) (κ ρ ι : Type) : Type where
  /-- Who called. -/
  party : ι
  /-- The call. -/
  call : κ
  /-- What it asked. -/
  asked : Trace Query Answer
  /-- What it returned. -/
  result : Option ρ

/-- The calls, the mutex and the environment. -/
structure State (Query : Type) (Answer : Query → Type) (σ κ ρ ι : Type) : Type where
  /-- What the environment answers now. -/
  env : (q : Query) → Answer q
  /-- The value behind the mutex. -/
  value : σ
  /-- The mutex is poisoned. -/
  poisoned : Bool
  /-- Who holds the lock. -/
  holder : Option ι
  /-- The calls. -/
  phases : ι → Option (Phase Query Answer σ κ ρ)
  /-- The calls that are over, the latest first. -/
  history : List (Entry Query Answer κ ρ ι)

/-- Nobody has called. -/
def State.initial (env : (q : Query) → Answer q) (value : σ) : State Query Answer σ κ ρ ι :=
  ⟨env, value, false, none, fun _ => none, []⟩

/-- What may happen. -/
inductive Event (Query : Type) (Answer : Query → Type) (κ ι : Type) : Type where
  /-- The environment is replaced. -/
  | patch (env : (q : Query) → Answer q) : Event Query Answer κ ι
  /-- Somebody calls. -/
  | call (t : ι) (call : κ) : Event Query Answer κ ι
  /-- A call takes its next step. -/
  | step (t : ι) : Event Query Answer κ ι
  /-- The call that holds the lock panics. -/
  | unwind (t : ι) : Event Query Answer κ ι

variable [DecidableEq ι] (body : Body Query Answer σ κ ρ)

/-- A call goes on. -/
def State.put (s : State Query Answer σ κ ρ ι) (t : ι) (phase : Phase Query Answer σ κ ρ) :
    State Query Answer σ κ ρ ι :=
  { s with phases := Function.update s.phases t (some phase) }

/-- A call is over, and unlocks. -/
def State.leave (s : State Query Answer σ κ ρ ι) (entry : Entry Query Answer κ ρ ι) (value : σ)
    (poisoned : Bool) : State Query Answer σ κ ρ ι :=
  { s.put entry.party .left with
    value, poisoned, holder := none, history := entry :: s.history }

/-- The next step of a call. -/
def stepPhase (s : State Query Answer σ κ ρ ι) (t : ι) :
    Phase Query Answer σ κ ρ → Option (State Query Answer σ κ ρ ι)
  | .waiting call =>
    if s.holder.isSome then none
    -- `lock().unwrap()`
    else if s.poisoned then some (s.leave ⟨t, call, [], none⟩ s.value true)
    else some { s.put t (.inside call [] (body call s.value)) with holder := some t }
  | .inside call asked (.ask q k) =>
    some (s.put t (.inside call (⟨q, s.env q⟩ :: asked) (k (s.env q))))
  | .inside call asked (.ret (some (value, result))) =>
    some (s.leave ⟨t, call, asked, some result⟩ value false)
  | .inside call asked (.ret none) => some (s.leave ⟨t, call, asked, none⟩ s.value true)
  | .left => none

/-- What an event does. -/
def step (s : State Query Answer σ κ ρ ι) :
    Event Query Answer κ ι → Option (State Query Answer σ κ ρ ι)
  | .patch env => some { s with env }
  | .call t call => if (s.phases t).isNone then some (s.put t (.waiting call)) else none
  | .step t => (s.phases t).bind (stepPhase body s t)
  | .unwind t =>
    match s.phases t with
    | some (.inside call asked _) => some (s.leave ⟨t, call, asked, none⟩ s.value true)
    | _ => none

/-! ### One call after the other -/

/-- **A sequence of whole calls**: what the value is at the end, and whether the mutex is
poisoned. -/
inductive Serial (value : σ) : List (Entry Query Answer κ ρ ι) → σ → Bool → Prop where
  /-- No call. -/
  | start : Serial value [] value false
  /-- A call returns. -/
  | returned {history : List (Entry Query Answer κ ρ ι)} {now next : σ} {t : ι} {call : κ}
      {asked : Trace Query Answer} {result : ρ} (h : Serial value history now false)
      (hled : (body call now).Leads asked (.ret (some (next, result)))) :
      Serial value (⟨t, call, asked, some result⟩ :: history) next false
  /-- A call panics. -/
  | panicked {history : List (Entry Query Answer κ ρ ι)} {now : σ} {t : ι} {call : κ}
      {asked : Trace Query Answer} {rest : Program Query Answer (Option (σ × ρ))}
      (h : Serial value history now false) (hled : (body call now).Leads asked rest) :
      Serial value (⟨t, call, asked, none⟩ :: history) now true
  /-- A call finds the mutex poisoned. -/
  | refused {history : List (Entry Query Answer κ ρ ι)} {now : σ} {t : ι} {call : κ}
      (h : Serial value history now true) :
      Serial value (⟨t, call, [], none⟩ :: history) now true

namespace Serial

variable {body} {value now : σ} {history : List (Entry Query Answer κ ρ ι)} {poisoned : Bool}

omit [DecidableEq ι] in
/-- **The invariant rule for whole calls.** -/
theorem invariant {Inv : σ → Prop} (h : Serial body value history now poisoned)
    (hvalue : Inv value) (hstep : ∀ call v asked v' r, Inv v →
      (body call v).Leads asked (.ret (some (v', r))) → Inv v') :
    Inv now := by
  induction h with
  | start => exact hvalue
  | returned _ hled ih => exact hstep _ _ _ _ _ ih hled
  | panicked _ _ ih => exact ih
  | refused _ ih => exact ih

omit [DecidableEq ι] in
/-- The mutex is poisoned exactly if a call panicked. -/
theorem poisoned_iff (h : Serial body value history now poisoned) :
    poisoned = true ↔ ∃ entry ∈ history, entry.result = none := by
  induction h with
  | start => simp
  | returned _ _ ih => simpa using ih
  | panicked _ _ _ => simp
  | refused _ _ => simp

omit [DecidableEq ι] in
/-- **Behind a panic nothing returns**, and nothing is asked. -/
theorem refused_of_panicked (h : Serial body value history now poisoned)
    {later earlier : List (Entry Query Answer κ ρ ι)} {entry : Entry Query Answer κ ρ ι}
    (hhistory : history = later ++ entry :: earlier) (hentry : entry.result = none) :
    ∀ e ∈ later, e.result = none ∧ e.asked = [] := by
  induction later generalizing history now poisoned with
  | nil => exact fun _ hmem => absurd hmem List.not_mem_nil
  | cons e later ih =>
    subst hhistory
    have hpanicked : ∃ entry' ∈ later ++ entry :: earlier, entry'.result = none :=
      ⟨entry, by simp, hentry⟩
    cases h with
    | returned h _ => exact absurd (h.poisoned_iff.mpr hpanicked) Bool.false_ne_true
    | panicked h _ => exact absurd (h.poisoned_iff.mpr hpanicked) Bool.false_ne_true
    | refused h => exact List.forall_mem_cons.mpr ⟨⟨rfl, rfl⟩, ih h rfl⟩

omit [DecidableEq ι] in
/-- **The rule for results**: what holds of a call when it returns, and is kept by the calls behind
it, holds of every call at the end. -/
theorem forall_result (Inv : σ → Prop) (Fits : σ → κ → Trace Query Answer → ρ → Prop)
    (h : Serial body value history now poisoned) (hvalue : Inv value)
    (hstep : ∀ call v asked v' r, Inv v → (body call v).Leads asked (.ret (some (v', r))) → Inv v')
    (hreturn : ∀ call v asked v' r, Inv v → (body call v).Leads asked (.ret (some (v', r))) →
      Fits v' call asked r)
    (hkeep : ∀ call v asked v' r, (body call v).Leads asked (.ret (some (v', r))) →
      ∀ call' asked' r', Fits v call' asked' r' → Fits v' call' asked' r') :
    ∀ entry ∈ history, ∀ r, entry.result = some r → Fits now entry.call entry.asked r := by
  induction h with
  | start => exact fun _ hmem => absurd hmem List.not_mem_nil
  | returned h hled ih =>
    refine List.forall_mem_cons.mpr ⟨?_, fun entry hentry r hr => ?_⟩
    · rintro r ⟨⟩
      exact hreturn _ _ _ _ _ (h.invariant hvalue hstep) hled
    · exact hkeep _ _ _ _ _ hled _ _ _ (ih entry hentry r hr)
  | panicked _ _ ih => exact List.forall_mem_cons.mpr ⟨by rintro r ⟨⟩, ih⟩
  | refused _ ih => exact List.forall_mem_cons.mpr ⟨by rintro r ⟨⟩, ih⟩

/-- **A question that is asked once**: by a call that finds the value fresh, and does not leave it
fresh behind. -/
structure AskedOnce (body : Body Query Answer σ κ ρ) (kind : Query → Bool) (fresh : σ → Bool) :
    Prop where
  /-- Who finds a fresh value asks at most once. -/
  atMostOnce : ∀ call v, (body call v).AsksAtMost kind 1
  /-- Who finds another one does not ask. -/
  never : ∀ call v, fresh v = false → (body call v).AsksAtMost kind 0
  /-- Who leaves a fresh value has not asked. -/
  leave : ∀ call v asked v' r, (body call v).Leads asked (.ret (some (v', r))) →
    fresh v' = true → fresh v = true ∧ asked.countP (fun e => kind e.1) = 0

/-- How often some calls have asked. -/
def count (kind : Query → Bool) (history : List (Entry Query Answer κ ρ ι)) : ℕ :=
  (history.flatMap Entry.asked).countP fun e => kind e.1

omit [DecidableEq ι] in
@[simp] theorem count_cons (kind : Query → Bool) (entry : Entry Query Answer κ ρ ι) :
    count kind (entry :: history) =
      entry.asked.countP (fun e => kind e.1) + count kind history := by
  rw [count, List.flatMap_cons, List.countP_append, ← count]

variable {kind : Query → Bool} {fresh : σ → Bool}

omit [DecidableEq ι] in
/-- One more call asks only if nobody has. -/
theorem count_add_le {call : κ} {asked : Trace Query Answer}
    {rest : Program Query Answer (Option (σ × ρ))} (honce : AskedOnce body kind fresh)
    (hcount : count kind history ≤ 1 ∧ (fresh now = true → count kind history = 0))
    (hled : (body call now).Leads asked rest) :
    asked.countP (fun e => kind e.1) + count kind history ≤ 1 := by
  cases hfresh : fresh now with
  | true =>
    rw [hcount.2 hfresh, Nat.add_zero]
    exact hled.countP_le (honce.atMostOnce call now)
  | false =>
    have hnone := hled.countP_le (honce.never call now hfresh)
    omega

omit [DecidableEq ι] in
/-- **It is asked once, by all calls together.** -/
theorem count_le (honce : AskedOnce body kind fresh) (h : Serial body value history now poisoned) :
    count kind history ≤ 1 ∧ (poisoned = false → fresh now = true → count kind history = 0) := by
  induction h with
  | start => exact ⟨Nat.zero_le 1, fun _ _ => rfl⟩
  | returned _ hled ih =>
    rw [count_cons]
    refine ⟨count_add_le honce ⟨ih.1, ih.2 rfl⟩ hled, fun _ hnext => ?_⟩
    obtain ⟨hnow, hnone⟩ := honce.leave _ _ _ _ _ hled hnext
    rw [hnone, ih.2 rfl hnow]
  | panicked _ hled ih =>
    rw [count_cons]
    exact ⟨count_add_le honce ⟨ih.1, ih.2 rfl⟩ hled, by rintro ⟨⟩⟩
  | refused _ ih =>
    rw [count_cons]
    exact ⟨by simpa using ih.1, by rintro ⟨⟩⟩

end Serial

/-! ### Every interleaving is a sequence of whole calls -/

/-- **The invariant of every run.** -/
structure Inv (value : σ) (s : State Query Answer σ κ ρ ι) : Prop where
  /-- The calls that are over were whole. -/
  serial : Serial body value s.history s.value s.poisoned
  /-- A call that is under way holds the lock, and is where its record leads. -/
  inside : ∀ t call asked rest, s.phases t = some (.inside call asked rest) →
    s.holder = some t ∧ s.poisoned = false ∧ (body call s.value).Leads asked rest
  /-- Nobody else holds it. -/
  holder : ∀ t, s.holder = some t → ∃ call asked rest, s.phases t = some (.inside call asked rest)

variable {body} {value : σ} {s s' : State Query Answer σ κ ρ ι} {e : Event Query Answer κ ι}

omit [DecidableEq ι] in
theorem inv_initial (env : (q : Query) → Answer q) :
    Inv body value (State.initial env value : State Query Answer σ κ ρ ι) where
  serial := .start
  inside := by rintro t call asked rest ⟨⟩
  holder := by rintro t ⟨⟩

@[simp] theorem put_phases_self {t : ι} {phase : Phase Query Answer σ κ ρ} :
    (s.put t phase).phases t = some phase := Function.update_self ..

theorem put_phases_of_ne {t t' : ι} {phase : Phase Query Answer σ κ ρ} (h : t' ≠ t) :
    (s.put t phase).phases t' = s.phases t' := Function.update_of_ne h ..

/-- A call that goes on while the others stay. -/
theorem inside_put {P : ι → κ → Trace Query Answer → Program Query Answer (Option (σ × ρ)) → Prop}
    (h : ∀ t call asked rest, s.phases t = some (.inside call asked rest) → P t call asked rest)
    {t : ι} {phase : Phase Query Answer σ κ ρ}
    (hphase : ∀ call asked rest, phase = .inside call asked rest → P t call asked rest) :
    ∀ t' call asked rest, (s.put t phase).phases t' = some (.inside call asked rest) →
      P t' call asked rest := by
  intro t' call asked rest h'
  by_cases ht : t' = t
  · subst ht
    rw [put_phases_self] at h'
    exact hphase call asked rest (Option.some.inj h')
  · rw [put_phases_of_ne ht] at h'
    exact h t' call asked rest h'

/-- Behind the only call that is under way there is none. -/
theorem inside_leave (hs : Inv body value s) {entry : Entry Query Answer κ ρ ι}
    (hholder : ∀ t, s.holder = some t → t = entry.party) {v : σ} {b : Bool} {t : ι} {call : κ}
    {asked : Trace Query Answer} {rest : Program Query Answer (Option (σ × ρ))} :
    (s.leave entry v b).phases t ≠ some (.inside call asked rest) := by
  intro h
  change (s.put entry.party .left).phases t = _ at h
  by_cases ht : t = entry.party
  · subst ht
    rw [put_phases_self] at h
    cases h
  · rw [put_phases_of_ne ht] at h
    exact ht (hholder t (hs.inside t _ _ _ h).1)

theorem inv_leave (hs : Inv body value s) {entry : Entry Query Answer κ ρ ι}
    (hholder : ∀ t, s.holder = some t → t = entry.party) {v : σ} {b : Bool}
    (hserial : Serial body value (entry :: s.history) v b) :
    Inv body value (s.leave entry v b) where
  serial := hserial
  inside _ _ _ _ h := absurd h (inside_leave hs hholder)
  holder := by rintro t ⟨⟩

theorem inv_step (hs : Inv body value s) (h : step body s e = some s') : Inv body value s' := by
  cases e with
  | patch env =>
    cases h
    exact ⟨hs.serial, hs.inside, hs.holder⟩
  | call t call =>
    rw [step] at h
    split_ifs at h with hnew
    cases h
    refine ⟨hs.serial, inside_put hs.inside (by rintro _ _ _ ⟨⟩), fun t' ht' => ?_⟩
    obtain ⟨call', asked, rest, hinside⟩ := hs.holder t' ht'
    refine ⟨call', asked, rest, ?_⟩
    rw [put_phases_of_ne, hinside]
    rintro rfl
    rw [hinside] at hnew
    cases hnew
  | step t =>
    obtain ⟨phase, hphase, h⟩ := Option.bind_eq_some_iff.mp h
    cases phase with
    | waiting call =>
      rw [stepPhase] at h
      split_ifs at h with hholder hpoisoned
      · cases h
        have hserial := hs.serial
        rw [hpoisoned] at hserial
        exact inv_leave hs (fun t ht => absurd (by rw [ht]; rfl) hholder) hserial.refused
      · cases h
        -- nobody is inside before
        have hnobody : ∀ t' call' asked' rest', s.phases t' = some (.inside call' asked' rest') →
            False := fun t' call' asked' rest' h' =>
          hholder (by rw [(hs.inside t' call' asked' rest' h').1]; rfl)
        refine ⟨hs.serial, ?_, ?_⟩
        · refine inside_put (s := s) (fun _ _ _ _ h' => (hnobody _ _ _ _ h').elim) ?_
          rintro _ _ _ ⟨⟩
          exact ⟨rfl, eq_false_of_ne_true hpoisoned, .start⟩
        · rintro t' ⟨⟩
          exact ⟨_, _, _, put_phases_self⟩
    | inside call asked rest =>
      obtain ⟨hholder, hpoisoned, hled⟩ := hs.inside t _ _ _ hphase
      have hown : ∀ t', s.holder = some t' → t' = t := fun t' ht' =>
        Option.some.inj (ht'.symm.trans hholder)
      have hserial := hs.serial
      rw [hpoisoned] at hserial
      rcases rest with outcome | ⟨q, k⟩
      · rcases outcome with - | ⟨v, result⟩
        · cases h
          exact inv_leave hs hown (hserial.panicked hled)
        · cases h
          exact inv_leave hs hown (hserial.returned hled)
      · cases h
        refine ⟨hs.serial, inside_put hs.inside ?_, fun t' ht' => ?_⟩
        · rintro _ _ _ ⟨⟩
          exact ⟨hholder, hpoisoned, hled.next _⟩
        · obtain rfl := hown t' ht'
          exact ⟨_, _, _, put_phases_self⟩
    | left => cases h
  | unwind t =>
    rw [step] at h
    split at h
    · next call asked rest hphase =>
      cases h
      obtain ⟨hholder, hpoisoned, hled⟩ := hs.inside t _ _ _ hphase
      have hserial := hs.serial
      rw [hpoisoned] at hserial
      exact inv_leave hs (fun t' ht' => Option.some.inj (ht'.symm.trans hholder))
        (hserial.panicked hled)
    · cases h

/-- **Every interleaving is a sequence of whole calls**, and of a part of one. -/
theorem inv_run {env : (q : Query) → Answer q} {es : List (Event Query Answer κ ι)}
    (hrun : Runs.run (step body) (State.initial env value) es = some s) : Inv body value s :=
  Runs.invariant (Inv body value) (fun _ _ _ hs h => inv_step hs h) (inv_initial env) hrun

omit [DecidableEq ι] in
/-- Two calls are never under way together. -/
theorem Inv.exclusive (hs : Inv body value s) {t t' : ι} {call call' : κ}
    {asked asked' : Trace Query Answer} {rest rest' : Program Query Answer (Option (σ × ρ))}
    (h : s.phases t = some (.inside call asked rest))
    (h' : s.phases t' = some (.inside call' asked' rest')) : t = t' :=
  Option.some.inj ((hs.inside t _ _ _ h).1.symm.trans (hs.inside t' _ _ _ h').1)

omit [DecidableEq ι] in
/-- **It is asked once**, also by the call that is under way. -/
theorem Inv.count_inside_le (hs : Inv body value s) {kind : Query → Bool} {fresh : σ → Bool}
    (honce : Serial.AskedOnce body kind fresh) {t : ι} {call : κ} {asked : Trace Query Answer}
    {rest : Program Query Answer (Option (σ × ρ))}
    (h : s.phases t = some (.inside call asked rest)) :
    asked.countP (fun e => kind e.1) + Serial.count kind s.history ≤ 1 := by
  obtain ⟨-, hpoisoned, hled⟩ := hs.inside t _ _ _ h
  obtain ⟨hle, hfresh⟩ := Serial.count_le honce hs.serial
  exact Serial.count_add_le honce ⟨hle, hfresh hpoisoned⟩ hled

end Mutex
