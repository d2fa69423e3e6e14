import Mathlib.Data.List.Basic

/-!
# Runs of a machine

A machine is a partial function `step : State → Event → Option State`: what an
event does to a state, `none` when it cannot happen there. Several parties that
take turns are one machine whose events say who moves, so a run is any list of
events that can happen one after the other, and **every interleaving is a run**.

Three rules carry every invariant of a run. `Runs.invariant` is the plain one: what
one step preserves a run preserves. `Runs.invariant_of_guarded` needs the step to
preserve it only where a guard holds, and gives it along runs all of whose steps
meet the guard (`Runs.Guarded`). `Runs.invariant_of_past` is for what speaks of the
events that led to a state.

That something **can** happen is said by `Runs.Reaches`, whose rules put runs one
behind the other.
-/

namespace Runs

variable {State Event : Type*} (step : State → Event → Option State)

/-- The state a run of events leads to, if all of them can happen. -/
def run (s : State) (es : List Event) : Option State := es.foldlM step s

variable {step} {s s' : State} {e : Event} {es : List Event}

theorem run_cons : run step s (e :: es) = (step s e).bind fun t => run step t es := rfl

/-- A run begins with its first step. -/
theorem run_cons_eq_some :
    run step s (e :: es) = some s' ↔ ∃ t, step s e = some t ∧ run step t es = some s' := by
  rw [run_cons, Option.bind_eq_some_iff]

/-- Every step of a run from `s` that can happen meets the guard. -/
def Guarded (step : State → Event → Option State) (guard : State → Event → Prop) :
    State → List Event → Prop
  | _, [] => True
  | s, e :: es => guard s e ∧ ∀ t, step s e = some t → Guarded step guard t es

/-- Whether every step of a run meets a guard can be computed along the run. -/
instance decidableGuarded (guard : State → Event → Prop) [∀ s e, Decidable (guard s e)] :
    (s : State) → (es : List Event) → Decidable (Guarded step guard s es)
  | _, [] => .isTrue trivial
  | s, e :: es =>
    match h : step s e with
    | none => decidable_of_iff (guard s e)
        ⟨fun hg => ⟨hg, fun t ht => by rw [h] at ht; cases ht⟩, And.left⟩
    | some t =>
      have := decidableGuarded guard t es
      decidable_of_iff (guard s e ∧ Guarded step guard t es)
        ⟨fun hg => ⟨hg.1, fun t' ht => by rw [h] at ht; cases ht; exact hg.2⟩,
          fun hg => ⟨hg.1, hg.2 t h⟩⟩

/-- **The guarded invariant rule.** -/
theorem invariant_of_guarded (Inv : State → Prop) {guard : State → Event → Prop}
    (hstep : ∀ s e t, Inv s → guard s e → step s e = some t → Inv t) :
    ∀ {es : List Event} {s s' : State}, Inv s → Guarded step guard s es →
      run step s es = some s' → Inv s' := by
  intro es
  induction es with
  | nil =>
    rintro s s' hs - ⟨⟩
    exact hs
  | cons e es ih =>
    rintro s s' hs ⟨hguard, hrest⟩ hrun
    obtain ⟨t, ht, hrun⟩ := run_cons_eq_some.mp hrun
    exact ih (hstep s e t hs hguard ht) (hrest t ht) hrun

/-- A weaker guard is met more often. -/
theorem Guarded.mono {guard guard' : State → Event → Prop} (h : ∀ s e, guard s e → guard' s e) :
    ∀ {es : List Event} {s : State}, Guarded step guard s es → Guarded step guard' s es := by
  intro es
  induction es with
  | nil => exact fun _ => trivial
  | cons e es ih =>
    rintro s ⟨hguard, hrest⟩
    exact ⟨h s e hguard, fun t ht => ih (hrest t ht)⟩

/-- Two guards are met together. -/
theorem Guarded.and {guard guard' : State → Event → Prop} :
    ∀ {es : List Event} {s : State}, Guarded step guard s es → Guarded step guard' s es →
      Guarded step (fun s e => guard s e ∧ guard' s e) s es := by
  intro es
  induction es with
  | nil => exact fun _ _ => trivial
  | cons e es ih =>
    rintro s ⟨hguard, hrest⟩ ⟨hguard', hrest'⟩
    exact ⟨⟨hguard, hguard'⟩, fun t ht => ih (hrest t ht) (hrest' t ht)⟩

/-- The front of a run meets the guard. -/
theorem Guarded.front {guard : State → Event → Prop} {front back : List Event} :
    ∀ {s : State}, Guarded step guard s (front ++ back) → Guarded step guard s front := by
  induction front with
  | nil => exact fun _ => trivial
  | cons e front ih =>
    rintro s ⟨hguard, hrest⟩
    exact ⟨hguard, fun t ht => ih (hrest t ht)⟩

/-- A run after another one. -/
theorem run_append {es' : List Event} :
    run step s (es ++ es') = (run step s es).bind fun t => run step t es' :=
  List.foldlM_append

/-- Both parts of a run meet the guard. -/
theorem Guarded.append {guard : State → Event → Prop} {front back : List Event} {t : State} :
    ∀ {s : State}, Guarded step guard s front → run step s front = some t →
      Guarded step guard t back → Guarded step guard s (front ++ back) := by
  induction front with
  | nil =>
    rintro s - ⟨⟩ hback
    exact hback
  | cons e front ih =>
    rintro s ⟨hguard, hfront⟩ hrun hback
    obtain ⟨u, hu, hrun⟩ := run_cons_eq_some.mp hrun
    refine ⟨hguard, fun u' hu' => ?_⟩
    obtain rfl : u = u' := Option.some.inj (hu.symm.trans hu')
    exact ih (hfront u hu) hrun hback

/-- **A run that misses the guard has a first step that does.** -/
theorem exists_of_not_guarded {guard : State → Event → Prop}
    (hrun : run step s es = some s') (hnot : ¬Guarded step guard s es) :
    ∃ front e back t, es = front ++ e :: back ∧ Guarded step guard s front ∧
      run step s front = some t ∧ ¬guard t e := by
  induction es generalizing s with
  | nil => exact absurd trivial hnot
  | cons e es ih =>
    by_cases hguard : guard s e
    · obtain ⟨t, ht, hrest⟩ := run_cons_eq_some.mp hrun
      obtain ⟨front, e', back, u, rfl, hfront, hu, hnot'⟩ := ih hrest fun h =>
        hnot ⟨hguard, fun t' ht' => by
          rw [ht] at ht'
          exact Option.some.inj ht' ▸ h⟩
      refine ⟨e :: front, e', back, u, rfl, ⟨hguard, fun t' ht' => ?_⟩, ?_, hnot'⟩
      · rw [ht] at ht'
        exact Option.some.inj ht' ▸ hfront
      · exact run_cons_eq_some.mpr ⟨t, ht, hu⟩
    · exact ⟨[], e, es, s, rfl, trivial, rfl, hguard⟩

/-- A run of events that meet the guard in every state. -/
theorem guarded_of_forall_mem {guard : State → Event → Prop} {es : List Event}
    (h : ∀ e ∈ es, ∀ s, guard s e) (s : State) : Guarded step guard s es := by
  induction es generalizing s with
  | nil => trivial
  | cons e es ih =>
    exact ⟨h e List.mem_cons_self s, fun t _ => ih (fun e he => h e (List.mem_cons_of_mem _ he)) t⟩

/-- **The invariant rule.** -/
theorem invariant (Inv : State → Prop) (hstep : ∀ s e t, Inv s → step s e = some t → Inv t)
    {es : List Event} {s s' : State} (hs : Inv s) (hrun : run step s es = some s') : Inv s' :=
  invariant_of_guarded Inv (fun s e t hs _ => hstep s e t hs) hs
    (guarded_of_forall_mem (fun _ _ _ => trivial) s) hrun

/-- **The invariant rule for what depends on the events so far.** -/
theorem invariant_of_past (Inv : List Event → State → Prop)
    (hstep : ∀ past s e t, Inv past s → step s e = some t → Inv (past ++ [e]) t) :
    ∀ {es past : List Event} {s s' : State}, Inv past s → run step s es = some s' →
      Inv (past ++ es) s' := by
  intro es
  induction es with
  | nil =>
    rintro past s s' hs ⟨⟩
    rwa [List.append_nil]
  | cons e es ih =>
    intro past s s' hs hrun
    obtain ⟨t, ht, hrun⟩ := run_cons_eq_some.mp hrun
    have hrest := ih (hstep past s e t hs ht) hrun
    rwa [List.append_assoc] at hrest

/-! ### Reachability -/

/-- A state that some run leads to. -/
def Reaches (step : State → Event → Option State) (s s' : State) : Prop :=
  ∃ es, run step s es = some s'

theorem Reaches.refl : Reaches step s s := ⟨[], rfl⟩

/-- A step in front. -/
theorem Reaches.head {t : State} (e : Event) (he : step s e = some t) (h : Reaches step t s') :
    Reaches step s s' := by
  obtain ⟨es, hes⟩ := h
  exact ⟨e :: es, run_cons_eq_some.mpr ⟨t, he, hes⟩⟩

theorem Reaches.trans {t : State} (h : Reaches step s t) (h' : Reaches step t s') :
    Reaches step s s' := by
  obtain ⟨es, hes⟩ := h
  induction es generalizing s with
  | nil =>
    cases hes
    exact h'
  | cons e es ih =>
    obtain ⟨u, hu, hrest⟩ := run_cons_eq_some.mp hes
    exact (ih hrest).head e hu

end Runs
