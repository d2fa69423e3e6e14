import Mathlib.Tactic.SplitIfs

/-!
# Programs that question an environment

A program either returns or asks its environment a question and goes on with the
answer. Between two questions the environment may have become another one: a
program is therefore run one question at a time (`Program.step`), each of them
answered by the environment of that moment.

What can be said about the result is said against the **answers the questions may
have got**: `Program.Yields` collects the results a program can return when every
answer is an allowed one. Its rules follow the program: `Program.yields_bind_iff`
cuts a sequence where it is written. When the environment does not change,
`Program.run` is the only result (`Program.yields_run`).
-/

/-- A program over the questions `Query`: it returns, or asks one of them. -/
inductive Program (Query : Type) (Answer : Query → Type) (α : Type) : Type where
  /-- Return a value. -/
  | ret (a : α) : Program Query Answer α
  /-- Ask, and go on with the answer. -/
  | ask (q : Query) (k : Answer q → Program Query Answer α) : Program Query Answer α

namespace Program

variable {Query : Type} {Answer : Query → Type} {α β : Type}

/-- Sequencing. -/
def bind : Program Query Answer α → (α → Program Query Answer β) → Program Query Answer β
  | ret a, f => f a
  | ask q k, f => ask q fun answer => (k answer).bind f

instance : Monad (Program Query Answer) where
  pure := ret
  bind := bind

/-- The program that asks one question. -/
def query (q : Query) : Program Query Answer (Answer q) := ask q ret

@[simp] theorem pure_eq_ret (a : α) : (pure a : Program Query Answer α) = ret a := rfl

@[simp] theorem ret_bind (a : α) (f : α → Program Query Answer β) : (ret a >>= f) = f a := rfl

@[simp] theorem ask_bind (q : Query) (k : Answer q → Program Query Answer α)
    (f : α → Program Query Answer β) :
    (ask q k >>= f) = ask q fun answer => k answer >>= f := rfl

section Run

variable (env : (q : Query) → Answer q)

/-- The program after its next question, answered by the environment. -/
def step : Program Query Answer α → Program Query Answer α
  | ret a => ret a
  | ask q k => k (env q)

/-- The result in an environment that does not change. -/
def run : Program Query Answer α → α
  | ret a => a
  | ask q k => (k (env q)).run

@[simp] theorem run_ret (a : α) : (ret a : Program Query Answer α).run env = a := rfl

@[simp] theorem run_ask (q : Query) (k : Answer q → Program Query Answer α) :
    (ask q k).run env = (k (env q)).run env := rfl

@[simp] theorem run_ite {c : Prop} [Decidable c] (p p' : Program Query Answer α) :
    (if c then p else p').run env = if c then p.run env else p'.run env := by
  split_ifs <;> rfl

theorem run_step (p : Program Query Answer α) : (p.step env).run env = p.run env := by
  cases p <;> rfl

end Run

/-! ### The results of a program -/

/-- **The results of a program** whose answers are all allowed by `A`. -/
def Yields (A : (q : Query) → Answer q → Prop) : Program Query Answer α → α → Prop
  | ret b, a => b = a
  | ask q k, a => ∃ answer, A q answer ∧ (k answer).Yields A a

variable {A A' : (q : Query) → Answer q → Prop} {env : (q : Query) → Answer q}

@[simp] theorem yields_ret {a b : α} :
    (ret b : Program Query Answer α).Yields A a ↔ b = a := Iff.rfl

@[simp] theorem yields_ask {q : Query} {k : Answer q → Program Query Answer α} {a : α} :
    (ask q k).Yields A a ↔ ∃ answer, A q answer ∧ (k answer).Yields A a := Iff.rfl

@[simp] theorem yields_query {q : Query} {answer : Answer q} :
    (query q).Yields A answer ↔ A q answer := by
  constructor
  · rintro ⟨answer', h, rfl⟩
    exact h
  · exact fun h => ⟨answer, h, rfl⟩

/-- More answers give more results. -/
theorem Yields.mono (hA : ∀ q answer, A q answer → A' q answer) {p : Program Query Answer α} {a : α}
    (h : p.Yields A a) : p.Yields A' a := by
  induction p with
  | ret b => exact h
  | ask q k ih =>
    obtain ⟨answer, hanswer, h⟩ := h
    exact ⟨answer, hA q answer hanswer, ih answer h⟩

/-- **The rule of sequencing.** -/
theorem yields_bind_iff {p : Program Query Answer α} {f : α → Program Query Answer β} {b : β} :
    (p >>= f).Yields A b ↔ ∃ a, p.Yields A a ∧ (f a).Yields A b := by
  induction p with
  | ret a => simp
  | ask q k ih =>
    simp only [ask_bind, yields_ask, ih]
    constructor
    · rintro ⟨answer, hanswer, a, ha, hb⟩
      exact ⟨a, ⟨answer, hanswer, ha⟩, hb⟩
    · rintro ⟨a, ⟨answer, hanswer, ha⟩, hb⟩
      exact ⟨answer, hanswer, a, ha, hb⟩

/-- An environment that does not change leaves one result. -/
theorem yields_run {p : Program Query Answer α} {a : α} :
    p.Yields (fun q answer => env q = answer) a ↔ p.run env = a := by
  induction p with
  | ret b => rfl
  | ask q k ih => simp [ih]

/-! ### Programs that may fail -/

/-- A sequence succeeds when both parts do. -/
theorem except_bind_eq_ok_iff {ε α β : Type} {x : Except ε α} {f : α → Except ε β} {b : β} :
    (x >>= f) = .ok b ↔ ∃ a, x = .ok a ∧ f a = .ok b := by
  cases x with
  | error e =>
    constructor
    · rintro ⟨⟩
    · rintro ⟨a, ⟨⟩, -⟩
  | ok a =>
    constructor
    · exact fun h => ⟨a, rfl, h⟩
    · rintro ⟨a', ⟨⟩, h⟩
      exact h

/-- Where every element has a result, all have. -/
theorem except_mapM_of_forall {ε α β : Type} {f : α → Except ε β} {g : α → β} {l : List α}
    (h : ∀ a ∈ l, f a = .ok (g a)) : l.mapM f = .ok (l.map g) := by
  induction l with
  | nil => rfl
  | cons a l ih =>
    rw [List.forall_mem_cons] at h
    rw [List.mapM_cons, h.1, ih h.2]
    rfl

/-- Reporting a failure in other words does not make it a success. -/
@[simp] theorem mapError_eq_ok_iff {ε ε' α : Type} {x : Except ε α} {f : ε → ε'} {a : α} :
    x.mapError f = .ok a ↔ x = .ok a := by
  cases x with
  | error e => simp [Except.mapError]
  | ok b => simp [Except.mapError]

variable {ε ε' : Type}

/-- A question, or a program, whose result may be a failure that is reported in
other words. -/
def raise (p : Program Query Answer (Except ε α)) (f : ε → ε') :
    ExceptT ε' (Program Query Answer) α :=
  ExceptT.mk (p >>= fun r => ret (r.mapError f))

/-- A result that asks nothing. -/
def settled (r : Except ε α) : ExceptT ε (Program Query Answer) α := ExceptT.mk (ret r)

/-- A question that cannot fail. -/
def inquire (q : Query) : ExceptT ε (Program Query Answer) (Answer q) :=
  ExceptT.mk (query q >>= fun answer => ret (.ok answer))

/-- **What comes after a result** matters for the successful ones only. -/
theorem settled_bind_congr {r : Except ε α} {f g : α → ExceptT ε (Program Query Answer) β}
    (h : ∀ a, r = .ok a → f a = g a) : (settled r >>= f) = (settled r >>= g) := by
  cases r with
  | error e => rfl
  | ok a => exact h a rfl

@[simp] theorem yields_raise {p : Program Query Answer (Except ε α)} {f : ε → ε'} {a : α} :
    (raise p f).run.Yields A (.ok a) ↔ p.Yields A (.ok a) := by
  change (p >>= fun r => ret (r.mapError f)).Yields A (.ok a) ↔ _
  simp [yields_bind_iff]

@[simp] theorem yields_settled {r : Except ε α} {a : α} :
    (settled r : ExceptT ε (Program Query Answer) α).run.Yields A (.ok a) ↔ r = .ok a := Iff.rfl

@[simp] theorem yields_inquire {q : Query} {answer : Answer q} :
    (inquire q : ExceptT ε (Program Query Answer) (Answer q)).run.Yields A (.ok answer) ↔
      A q answer := by
  have hquery : (query q >>= fun answer => ret (Except.ok (ε := ε) answer)).Yields A (.ok answer) ↔
      A q answer := by simp [yields_bind_iff]
  exact hquery

@[simp] theorem yields_pure {a b : α} :
    (pure b : ExceptT ε (Program Query Answer) α).run.Yields A (.ok a) ↔ b = a := by
  change (Except.ok b = Except.ok a) ↔ _
  exact ⟨Except.ok.inj, congrArg _⟩

/-- **Sequencing succeeds when both parts do.** -/
theorem yields_ok_bind_iff {p : ExceptT ε (Program Query Answer) α}
    {f : α → ExceptT ε (Program Query Answer) β} {b : β} :
    (p >>= f).run.Yields A (.ok b) ↔
      ∃ a, p.run.Yields A (.ok a) ∧ (f a).run.Yields A (.ok b) := by
  change (p.run >>= ExceptT.bindCont f).Yields A (.ok b) ↔ _
  rw [yields_bind_iff]
  constructor
  · rintro ⟨_ | a, ha, hb⟩
    · cases hb
    · exact ⟨a, ha, hb⟩
  · rintro ⟨a, ha, hb⟩
    exact ⟨.ok a, ha, hb⟩

end Program
