import AssetResolver.Library.Programs
import Mathlib.Data.List.Basic

/-!
# What a program has asked, and may ask

`Program.Yields` speaks of results. A program that is stopped halfway has none yet,
and still it has asked questions: this file follows a program through the record
of its questions and their answers (`Program.Trace`).

A record **leads** from a program to what is left of it (`Program.Leads`). Two rules
turn that into statements about the whole program, in which the allowed answers are
those on record: a result of what is left is one of the whole
(`Program.Leads.yields`), and a question of what is left is one the whole may ask
(`Program.Leads.mayAsk`). `Program.MayAsk` has the same rules of sequencing as
`Program.Yields`, so that both are read off the text of a program.

A program over few questions is one over more of them (`Program.embed`).
-/

namespace Program

variable {Query Query' : Type} {Answer : Query → Type} {Answer' : Query' → Type} {α β : Type}

/-- A record of questions and answers, the latest first. -/
abbrev Trace (Query : Type) (Answer : Query → Type) : Type := List (Sigma Answer)

/-- The answers on record. -/
def Trace.answers (trace : Trace Query Answer) (q : Query) (answer : Answer q) : Prop :=
  ⟨q, answer⟩ ∈ trace

/-! ### The questions of a program -/

/-- **The questions a program may ask** when every answer is allowed by `A`. -/
def MayAsk (A : (q : Query) → Answer q → Prop) : Program Query Answer α → Query → Prop
  | ret _, _ => False
  | ask q k, q' => q = q' ∨ ∃ answer, A q answer ∧ (k answer).MayAsk A q'

variable {A A' : (q : Query) → Answer q → Prop} {q' : Query}

@[simp] theorem mayAsk_ret {a : α} : ¬(ret a : Program Query Answer α).MayAsk A q' := id

@[simp] theorem mayAsk_ask {q : Query} {k : Answer q → Program Query Answer α} :
    (ask q k).MayAsk A q' ↔ q = q' ∨ ∃ answer, A q answer ∧ (k answer).MayAsk A q' := Iff.rfl

@[simp] theorem mayAsk_query {q : Query} :
    (query q : Program Query Answer _).MayAsk A q' ↔ q = q' := by
  constructor
  · rintro (h | ⟨answer, -, h⟩)
    · exact h
    · exact absurd h mayAsk_ret
  · exact Or.inl

/-- More answers allow more questions. -/
theorem MayAsk.mono (hA : ∀ q answer, A q answer → A' q answer) {p : Program Query Answer α}
    (h : p.MayAsk A q') : p.MayAsk A' q' := by
  induction p with
  | ret a => exact h
  | ask q k ih =>
    rcases h with h | ⟨answer, hanswer, h⟩
    · exact Or.inl h
    · exact Or.inr ⟨answer, hA q answer hanswer, ih answer h⟩

/-- **The rule of sequencing**: the second part asks once the first has a result. -/
theorem mayAsk_bind_iff {p : Program Query Answer α} {f : α → Program Query Answer β} :
    (p >>= f).MayAsk A q' ↔ p.MayAsk A q' ∨ ∃ a, p.Yields A a ∧ (f a).MayAsk A q' := by
  induction p with
  | ret a => simp
  | ask q k ih =>
    simp only [ask_bind, mayAsk_ask, yields_ask, ih]
    constructor
    · rintro (h | ⟨answer, hanswer, h | ⟨a, ha, h⟩⟩)
      · exact Or.inl (Or.inl h)
      · exact Or.inl (Or.inr ⟨answer, hanswer, h⟩)
      · exact Or.inr ⟨a, ⟨answer, hanswer, ha⟩, h⟩
    · rintro ((h | ⟨answer, hanswer, h⟩) | ⟨a, ⟨answer, hanswer, ha⟩, h⟩)
      · exact Or.inl h
      · exact Or.inr ⟨answer, hanswer, Or.inl h⟩
      · exact Or.inr ⟨answer, hanswer, Or.inr ⟨a, ha, h⟩⟩

section Fallible

variable {ε ε' : Type}

@[simp] theorem mayAsk_raise {p : Program Query Answer (Except ε α)} {f : ε → ε'} :
    (raise p f).run.MayAsk A q' ↔ p.MayAsk A q' := by
  change (p >>= fun r => ret (r.mapError f)).MayAsk A q' ↔ _
  simp [mayAsk_bind_iff]

@[simp] theorem mayAsk_settled {r : Except ε α} :
    ¬(settled r : ExceptT ε (Program Query Answer) α).run.MayAsk A q' := id

@[simp] theorem mayAsk_inquire {q : Query} :
    (inquire q : ExceptT ε (Program Query Answer) (Answer q)).run.MayAsk A q' ↔ q = q' := by
  have hquery : (query q >>= fun answer => ret (Except.ok (ε := ε) answer)).MayAsk A q' ↔
      q = q' := by simp [mayAsk_bind_iff]
  exact hquery

@[simp] theorem mayAsk_pure {a : α} :
    ¬(pure a : ExceptT ε (Program Query Answer) α).run.MayAsk A q' := id

/-- **Sequencing asks more once the first part succeeds.** -/
theorem mayAsk_ok_bind_iff {p : ExceptT ε (Program Query Answer) α}
    {f : α → ExceptT ε (Program Query Answer) β} :
    (p >>= f).run.MayAsk A q' ↔
      p.run.MayAsk A q' ∨ ∃ a, p.run.Yields A (.ok a) ∧ (f a).run.MayAsk A q' := by
  change (p.run >>= ExceptT.bindCont f).MayAsk A q' ↔ _
  rw [mayAsk_bind_iff]
  constructor
  · rintro (h | ⟨_ | a, ha, h⟩)
    · exact Or.inl h
    · exact absurd h mayAsk_ret
    · exact Or.inr ⟨a, ha, h⟩
  · rintro (h | ⟨a, ha, h⟩)
    · exact Or.inl h
    · exact Or.inr ⟨.ok a, ha, h⟩

end Fallible

/-! ### Following a program -/

/-- **A record leads from a program to what is left of it.** -/
inductive Leads (p : Program Query Answer α) : Trace Query Answer → Program Query Answer α → Prop
  /-- Nothing is asked yet. -/
  | start : Leads p [] p
  /-- The next question is answered. -/
  | next {trace : Trace Query Answer} {q : Query} {k : Answer q → Program Query Answer α}
      (h : Leads p trace (ask q k)) (answer : Answer q) : Leads p (⟨q, answer⟩ :: trace) (k answer)

namespace Leads

variable {p rest : Program Query Answer α} {trace : Trace Query Answer}

theorem yields_of_answers (h : p.Leads trace rest) {a : α}
    (hA : ∀ q answer, trace.answers q answer → A q answer) (ha : rest.Yields A a) :
    p.Yields A a := by
  induction h with
  | start => exact ha
  | @next trace q k h answer ih =>
    refine ih (fun q' answer' h' => hA q' answer' (List.mem_cons_of_mem _ h')) ?_
    exact ⟨answer, hA q answer List.mem_cons_self, ha⟩

/-- **A result of what is left is a result of the program**, on the answers on
record. -/
theorem yields {a : α} (h : p.Leads trace (ret a)) : p.Yields trace.answers a :=
  h.yields_of_answers (fun _ _ h => h) rfl

theorem mayAsk_of_answers (h : p.Leads trace rest) {q : Query}
    (hA : ∀ q answer, trace.answers q answer → A q answer) (hq : rest.MayAsk A q) :
    p.MayAsk A q := by
  induction h with
  | start => exact hq
  | @next trace q' k h answer ih =>
    refine ih (fun q answer' h' => hA q answer' (List.mem_cons_of_mem _ h')) ?_
    exact Or.inr ⟨answer, hA q' answer List.mem_cons_self, hq⟩

/-- **The next question is one the program may ask**, on the answers on record. -/
theorem mayAsk {q : Query} {k : Answer q → Program Query Answer α}
    (h : p.Leads trace (ask q k)) : p.MayAsk trace.answers q :=
  h.mayAsk_of_answers (fun _ _ h => h) (Or.inl rfl)

/-- **Every question on record is one the program may ask**, on the answers it had
by then. -/
theorem mayAsk_of_suffix (h : p.Leads trace rest) {q : Query} {answer : Answer q}
    {earlier : Trace Query Answer} (hsuffix : ⟨q, answer⟩ :: earlier <:+ trace) :
    p.MayAsk earlier.answers q := by
  induction h with
  | start => exact absurd (List.suffix_nil.mp hsuffix) (List.cons_ne_nil _ _)
  | @next trace q' k h answer' ih =>
    rcases List.suffix_cons_iff.mp hsuffix with heq | hsuffix
    · obtain ⟨hhead, rfl⟩ := List.cons_eq_cons.mp heq
      cases hhead
      exact h.mayAsk
    · exact ih hsuffix

end Leads

/-! ### Complete records -/

/-- A program begins with its first question. -/
theorem leads_ask_iff {q : Query} {k : Answer q → Program Query Answer α}
    {rest : Program Query Answer α} {trace : Trace Query Answer} :
    (ask q k).Leads trace rest ↔ (trace = [] ∧ rest = ask q k) ∨
      ∃ answer later, trace = later ++ [⟨q, answer⟩] ∧ (k answer).Leads later rest := by
  constructor
  · intro h
    induction h with
    | start => exact Or.inl ⟨rfl, rfl⟩
    | @next trace q' k' h answer ih =>
      rcases ih with ⟨rfl, heq⟩ | ⟨first, later, rfl, hlater⟩
      · cases heq
        exact Or.inr ⟨answer, [], rfl, .start⟩
      · exact Or.inr ⟨first, ⟨q', answer⟩ :: later, rfl, hlater.next answer⟩
  · rintro (⟨rfl, rfl⟩ | ⟨answer, later, rfl, h⟩)
    · exact .start
    · induction h with
      | start => exact Leads.next .start answer
      | next _ answer' ih => exact ih.next answer'

/-- A program that has returned goes nowhere. -/
theorem eq_of_leads_ret {b : α} {rest : Program Query Answer α} {trace : Trace Query Answer}
    (h : (ret b : Program Query Answer α).Leads trace rest) : trace = [] ∧ rest = ret b := by
  induction h with
  | start => exact ⟨rfl, rfl⟩
  | next _ _ ih => cases ih.2

@[simp] theorem leads_ret_iff {a b : α} {trace : Trace Query Answer} :
    (ret b : Program Query Answer α).Leads trace (ret a) ↔ trace = [] ∧ b = a := by
  constructor
  · intro h
    obtain ⟨rfl, heq⟩ := eq_of_leads_ret h
    cases heq
    exact ⟨rfl, rfl⟩
  · rintro ⟨rfl, rfl⟩
    exact .start

@[simp] theorem leads_ask_ret_iff {q : Query} {k : Answer q → Program Query Answer α} {a : α}
    {trace : Trace Query Answer} :
    (ask q k).Leads trace (ret a) ↔
      ∃ answer later, trace = later ++ [⟨q, answer⟩] ∧ (k answer).Leads later (ret a) := by
  rw [leads_ask_iff]
  constructor
  · rintro (⟨-, h⟩ | h)
    · cases h
    · exact h
  · exact Or.inr

/-- **The record of a sequence** is the records of its parts, one after the other. -/
theorem leads_bind_iff {p : Program Query Answer α} {f : α → Program Query Answer β} {b : β}
    {trace : Trace Query Answer} :
    (p >>= f).Leads trace (ret b) ↔ ∃ a first later, trace = later ++ first ∧
      p.Leads first (ret a) ∧ (f a).Leads later (ret b) := by
  induction p generalizing trace with
  | ret a =>
    constructor
    · exact fun h => ⟨a, [], trace, (List.append_nil _).symm, .start, h⟩
    · rintro ⟨a', first, later, rfl, ha, h⟩
      obtain ⟨rfl, rfl⟩ := leads_ret_iff.mp ha
      simpa using h
  | ask q k ih =>
    rw [ask_bind, leads_ask_ret_iff]
    constructor
    · rintro ⟨answer, later, rfl, h⟩
      obtain ⟨a, first, rest, rfl, ha, h⟩ := (ih answer).mp h
      exact ⟨a, first ++ [⟨q, answer⟩], rest, by rw [List.append_assoc],
        leads_ask_ret_iff.mpr ⟨answer, first, rfl, ha⟩, h⟩
    · rintro ⟨a, first, rest, rfl, ha, h⟩
      obtain ⟨answer, later, rfl, hk⟩ := leads_ask_ret_iff.mp ha
      exact ⟨answer, rest ++ later, by rw [List.append_assoc],
        (ih answer).mpr ⟨a, later, rest, rfl, hk, h⟩⟩

section Fallible

variable {ε ε' : Type} {trace : Trace Query Answer}

@[simp] theorem leads_raise {p : Program Query Answer (Except ε α)} {f : ε → ε'} {a : α} :
    (raise p f).run.Leads trace (ret (.ok a)) ↔ p.Leads trace (ret (.ok a)) := by
  change (p >>= fun r => ret (r.mapError f)).Leads trace (ret (.ok a)) ↔ _
  rw [leads_bind_iff]
  constructor
  · rintro ⟨r, first, later, rfl, hr, h⟩
    obtain ⟨rfl, hok⟩ := leads_ret_iff.mp h
    rwa [mapError_eq_ok_iff.mp hok] at hr
  · exact fun h => ⟨.ok a, trace, [], rfl, h, leads_ret_iff.mpr ⟨rfl, rfl⟩⟩

@[simp] theorem leads_settled {r : Except ε α} {a : α} :
    (settled r : ExceptT ε (Program Query Answer) α).run.Leads trace (ret (.ok a)) ↔
      trace = [] ∧ r = .ok a := leads_ret_iff

@[simp] theorem leads_pure {a b : α} :
    (pure b : ExceptT ε (Program Query Answer) α).run.Leads trace (ret (.ok a)) ↔
      trace = [] ∧ b = a := by
  change (ret (Except.ok b)).Leads trace (ret (Except.ok a)) ↔ _
  rw [leads_ret_iff, Except.ok.injEq]

/-- **The record of a sequence that succeeds.** -/
theorem leads_ok_bind_iff {p : ExceptT ε (Program Query Answer) α}
    {f : α → ExceptT ε (Program Query Answer) β} {b : β} :
    (p >>= f).run.Leads trace (ret (.ok b)) ↔ ∃ a first later, trace = later ++ first ∧
      p.run.Leads first (ret (.ok a)) ∧ (f a).run.Leads later (ret (.ok b)) := by
  change (p.run >>= ExceptT.bindCont f).Leads trace (ret (.ok b)) ↔ _
  rw [leads_bind_iff]
  constructor
  · rintro ⟨_ | a, first, later, htrace, ha, h⟩
    · cases (leads_ret_iff.mp h).2
    · exact ⟨a, first, later, htrace, ha, h⟩
  · rintro ⟨a, first, later, htrace, ha, h⟩
    exact ⟨.ok a, first, later, htrace, ha, h⟩

end Fallible

/-! ### Counting questions -/

/-- However it is answered, the program asks at most so many questions of a kind. -/
def AsksAtMost (kind : Query → Bool) : ℕ → Program Query Answer α → Prop
  | _, ret _ => True
  | n, ask q k =>
    if kind q then ∃ m, n = m + 1 ∧ ∀ answer, (k answer).AsksAtMost kind m
    else ∀ answer, (k answer).AsksAtMost kind n

section Count

variable {kind : Query → Bool} {n m : ℕ}

/-- A bound may be met by less. -/
theorem AsksAtMost.mono {p : Program Query Answer α} (h : p.AsksAtMost kind n) (hle : n ≤ m) :
    p.AsksAtMost kind m := by
  induction p generalizing n m with
  | ret => trivial
  | ask q k ih =>
    rw [AsksAtMost] at h ⊢
    split_ifs at h ⊢
    · obtain ⟨n, rfl, h⟩ := h
      obtain ⟨m, rfl⟩ := Nat.exists_eq_succ_of_ne_zero (by omega : m ≠ 0)
      exact ⟨m, rfl, fun answer => ih answer (h answer) (by omega)⟩
    · exact fun answer => ih answer (h answer) hle

/-- The rule of sequencing. -/
theorem AsksAtMost.bind {p : Program Query Answer α} {f : α → Program Query Answer β}
    (h : p.AsksAtMost kind n) (hf : ∀ a, (f a).AsksAtMost kind m) :
    (p >>= f).AsksAtMost kind (n + m) := by
  induction p generalizing n with
  | ret a =>
    exact (hf a).mono (by omega)
  | ask q k ih =>
    rw [ask_bind, AsksAtMost]
    rw [AsksAtMost] at h
    split_ifs at h ⊢
    · obtain ⟨n, rfl, h⟩ := h
      exact ⟨n + m, by omega, fun answer => ih answer (h answer)⟩
    · exact fun answer => ih answer (h answer)

/-- **What is on record was counted.** -/
theorem Leads.countP_le {p rest : Program Query Answer α} {trace : Trace Query Answer}
    (h : p.Leads trace rest) (hp : p.AsksAtMost kind n) :
    trace.countP (fun e => kind e.1) ≤ n := by
  suffices hrest : ∃ m, n = m + trace.countP (fun e => kind e.1) ∧ rest.AsksAtMost kind m by
    obtain ⟨m, rfl, -⟩ := hrest
    exact Nat.le_add_left _ _
  induction h with
  | start => exact ⟨n, rfl, hp⟩
  | @next trace q k h answer ih =>
    obtain ⟨m, rfl, hask⟩ := ih
    rw [AsksAtMost] at hask
    rw [List.countP_cons]
    split_ifs at hask ⊢
    · obtain ⟨m, rfl, hask⟩ := hask
      exact ⟨m, by omega, hask answer⟩
    · exact ⟨m, rfl, hask answer⟩

end Count

/-! ### More questions -/

/-- The same program over more questions. -/
def embed (f : Query → Query') (back : (q : Query) → Answer' (f q) → Answer q) :
    Program Query Answer α → Program Query' Answer' α
  | ret a => ret a
  | ask q k => ask (f q) fun answer => (k (back q answer)).embed f back

variable {f : Query → Query'} {back : (q : Query) → Answer' (f q) → Answer q}
  {B : (q : Query') → Answer' q → Prop}

theorem yields_embed {p : Program Query Answer α} {a : α} :
    (p.embed f back).Yields B a ↔
      p.Yields (fun q answer => ∃ given, B (f q) given ∧ back q given = answer) a := by
  induction p with
  | ret b => rfl
  | ask q k ih =>
    simp only [embed, yields_ask, ih]
    constructor
    · rintro ⟨given, hgiven, h⟩
      exact ⟨back q given, ⟨given, hgiven, rfl⟩, h⟩
    · rintro ⟨_, ⟨given, hgiven, rfl⟩, h⟩
      exact ⟨given, hgiven, h⟩

theorem mayAsk_embed {p : Program Query Answer α} {q' : Query'} :
    (p.embed f back).MayAsk B q' ↔ ∃ q, f q = q' ∧
      p.MayAsk (fun q answer => ∃ given, B (f q) given ∧ back q given = answer) q := by
  induction p with
  | ret b => simp [embed]
  | ask q k ih =>
    simp only [embed, mayAsk_ask, ih]
    constructor
    · rintro (rfl | ⟨given, hgiven, q'', rfl, h⟩)
      · exact ⟨q, rfl, Or.inl rfl⟩
      · exact ⟨q'', rfl, Or.inr ⟨back q given, ⟨given, hgiven, rfl⟩, h⟩⟩
    · rintro ⟨q'', rfl, rfl | ⟨_, ⟨given, hgiven, rfl⟩, h⟩⟩
      · exact Or.inl rfl
      · exact Or.inr ⟨given, hgiven, q'', rfl, h⟩

end Program
