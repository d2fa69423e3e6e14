import AssetResolver.Library.Traces

/-!
# How often a program asks, when, and who answers it

More readings of a program (`Program`), beside its results and the questions it may ask.

`Program.Asks` counts: a program asks **so many** of some questions, whichever of its paths
is taken. The rule of the record, `Program.Leads.asks`, turns the count into one of what is
on record and what is still to come, so that a program that is stopped halfway is counted
too.

`Program.Trace.Asks` says when: a question on record, or the pending one, was asked when
less was on record, and the program may ask it on **those** answers
(`Program.Trace.Asks.mayAsk`).

`Program.handle` answers: every question is answered by a program over other questions,
and the whole is one program over these. It respects sequencing, by `Program.handle_bind`
and by `Program.handleT_bind` of programs that may fail, so that a handled program is
rewritten piece by piece.
-/

namespace Program

variable {Query Query' : Type} {Answer : Query → Type} {Answer' : Query' → Type} {α β : Type}

/-! ### Counting questions -/

section Counting

variable (A : (q : Query) → Answer q → Prop) (P : Query → Prop) [DecidablePred P]

/-- **A program asks exactly so many of the questions `P`** on each of its paths, when every
answer is allowed by `A`. -/
def Asks : Program Query Answer α → ℕ → Prop
  | ret _, n => n = 0
  | ask q k, n => ∃ m, n = (if P q then 1 else 0) + m ∧ ∀ answer, A q answer → (k answer).Asks m

variable {A P}

@[simp] theorem asks_ret {a : α} {n : ℕ} :
    (ret a : Program Query Answer α).Asks A P n ↔ n = 0 := Iff.rfl

/-- A question that is none of them. -/
theorem asks_ask_of_neg {q : Query} {k : Answer q → Program Query Answer α} {n : ℕ} (hq : ¬P q)
    (h : ∀ answer, A q answer → (k answer).Asks A P n) : (ask q k).Asks A P n :=
  ⟨n, by rw [if_neg hq, Nat.zero_add], h⟩

/-- **A program that may ask none of them asks none of them.** -/
theorem asks_zero {p : Program Query Answer α} (h : ∀ q, P q → ¬p.MayAsk A q) :
    p.Asks A P 0 := by
  induction p with
  | ret a => rfl
  | ask q k ih =>
    refine asks_ask_of_neg (fun hq => h q hq (.inl rfl)) fun answer hanswer => ?_
    exact ih answer fun q' hq' hask => h q' hq' (.inr ⟨answer, hanswer, hask⟩)

/-- **The count of a sequence** is the sum of the counts of its parts. -/
theorem Asks.bind {p : Program Query Answer α} {f : α → Program Query Answer β} {n m : ℕ}
    (hp : p.Asks A P n) (hf : ∀ a, p.Yields A a → (f a).Asks A P m) :
    (p >>= f).Asks A P (n + m) := by
  induction p generalizing n with
  | ret a =>
    obtain rfl : n = 0 := hp
    rw [Nat.zero_add]
    exact hf a rfl
  | ask q k ih =>
    obtain ⟨n', rfl, hk⟩ := hp
    refine ⟨n' + m, by rw [Nat.add_assoc], fun answer hanswer => ?_⟩
    exact ih answer (hk answer hanswer) fun a ha => hf a ⟨answer, hanswer, ha⟩

section Fallible

variable {ε : Type}

/-- A sequence whose later part asks none of them. -/
theorem Asks.ok_bind {p : ExceptT ε (Program Query Answer) α}
    {f : α → ExceptT ε (Program Query Answer) β} {n : ℕ} (hp : p.run.Asks A P n)
    (hf : ∀ a, p.run.Yields A (.ok a) → (f a).run.Asks A P 0) :
    (p >>= f).run.Asks A P n := by
  change (p.run >>= ExceptT.bindCont f).Asks A P n
  rw [← Nat.add_zero n]
  refine hp.bind fun r hr => ?_
  cases r with
  | error e => rfl
  | ok a => exact hf a hr

/-- A question that cannot fail. -/
theorem asks_inquire {q : Query} :
    (inquire q : ExceptT ε (Program Query Answer) (Answer q)).run.Asks A P (if P q then 1 else 0) :=
  ⟨0, rfl, fun _ _ => rfl⟩

/-- A sequence fails where one of its parts does. -/
theorem yields_error_bind {p : ExceptT ε (Program Query Answer) α}
    {f : α → ExceptT ε (Program Query Answer) β} {e : ε}
    (h : (p >>= f).run.Yields A (.error e)) :
    p.run.Yields A (.error e) ∨ ∃ a, p.run.Yields A (.ok a) ∧ (f a).run.Yields A (.error e) := by
  change (p.run >>= ExceptT.bindCont f).Yields A (.error e) at h
  obtain ⟨r, hr, h⟩ := yields_bind_iff.mp h
  cases r with
  | error e' =>
    obtain rfl : e' = e := by cases h; rfl
    exact .inl hr
  | ok a => exact .inr ⟨a, hr, h⟩

theorem not_yields_error_inquire {q : Query} {e : ε} :
    ¬(inquire q : ExceptT ε (Program Query Answer) (Answer q)).run.Yields A (.error e) := by
  rintro ⟨answer, -, h⟩
  cases h

/-- A sequence whose first part asks none of them, and never fails. -/
theorem Asks.ok_bind_of_zero {p : ExceptT ε (Program Query Answer) α}
    {f : α → ExceptT ε (Program Query Answer) β} {n : ℕ} (hp : p.run.Asks A P 0)
    (hok : ∀ e, ¬p.run.Yields A (.error e))
    (hf : ∀ a, p.run.Yields A (.ok a) → (f a).run.Asks A P n) :
    (p >>= f).run.Asks A P n := by
  change (p.run >>= ExceptT.bindCont f).Asks A P n
  rw [← Nat.zero_add n]
  refine hp.bind fun r hr => ?_
  cases r with
  | error e => exact absurd hr (hok e)
  | ok a => exact hf a hr

end Fallible

/-- **The rule of the record**: what is on record and what is still to come make up the
count. -/
theorem Leads.asks {p rest : Program Query Answer α} {trace : Trace Query Answer} {n : ℕ}
    (h : p.Leads trace rest) (hA : ∀ q answer, trace.answers q answer → A q answer)
    (hp : p.Asks A P n) :
    ∃ m, rest.Asks A P m ∧ n = trace.countP (fun entry => P entry.1) + m := by
  induction h with
  | start => exact ⟨n, hp, by rw [List.countP_nil, Nat.zero_add]⟩
  | @next trace q k h answer ih =>
    obtain ⟨m, ⟨m', rfl, hk⟩, hn⟩ :=
      ih fun q' answer' h' => hA q' answer' (List.mem_cons_of_mem _ h')
    refine ⟨m', hk answer (hA q answer List.mem_cons_self), ?_⟩
    rw [hn, List.countP_cons]
    simp only [decide_eq_true_eq]
    omega

end Counting

/-! ### What is asked when -/

namespace Leads

variable {p rest rest' : Program Query Answer α} {trace : Trace Query Answer}

/-- **A record leads to one place.** -/
theorem unique (h : p.Leads trace rest) (h' : p.Leads trace rest') : rest = rest' := by
  induction h generalizing rest' with
  | start =>
    cases h' with
    | start => rfl
  | next _ _ ih =>
    cases h' with
    | next h' _ =>
      cases ih h'
      rfl

end Leads

/-- **A question is asked when `earlier` is on record**: it is pending, or it has been
answered since. -/
def Trace.Asks (trace : Trace Query Answer) (rest : Program Query Answer α) (q : Query)
    (earlier : Trace Query Answer) : Prop :=
  (earlier = trace ∧ ∃ k, rest = ask q k) ∨ ∃ answer, ⟨q, answer⟩ :: earlier <:+ trace

namespace Trace

variable {p rest : Program Query Answer α} {trace earlier : Trace Query Answer} {q : Query}

theorem Asks.subset (h : trace.Asks rest q earlier) : earlier ⊆ trace := by
  rcases h with ⟨rfl, -⟩ | ⟨answer, hsuffix⟩
  · exact fun _ h => h
  · exact fun _ h => hsuffix.subset (List.mem_cons_of_mem _ h)

/-- **What is asked, the program may ask**, on the answers it had by then. -/
theorem Asks.mayAsk (h : trace.Asks rest q earlier) (hleads : p.Leads trace rest) :
    p.MayAsk earlier.answers q := by
  rcases h with ⟨rfl, k, rfl⟩ | ⟨answer, hsuffix⟩
  · exact hleads.mayAsk
  · exact hleads.mayAsk_of_suffix hsuffix

/-- What is on record has been asked. -/
theorem exists_asks (rest : Program Query Answer α) {entry : Sigma Answer}
    (h : entry ∈ trace) : ∃ earlier, trace.Asks rest entry.1 earlier := by
  obtain ⟨later, earlier, rfl⟩ := List.append_of_mem h
  exact ⟨earlier, .inr ⟨entry.2, List.suffix_append later (entry :: earlier)⟩⟩

end Trace

/-! ### Answering by programs -/

theorem bind_assoc {γ : Type} (p : Program Query Answer α) (f : α → Program Query Answer β)
    (g : β → Program Query Answer γ) : p >>= f >>= g = p >>= fun a => f a >>= g := by
  induction p with
  | ret a => rfl
  | ask q k ih => exact congrArg (ask q) (funext ih)

theorem bind_ret (p : Program Query Answer α) : p >>= ret = p := by
  induction p with
  | ret a => rfl
  | ask q k ih => exact congrArg (ask q) (funext ih)

instance : LawfulMonad (Program Query Answer) :=
  .mk' _ bind_ret (fun _ _ => rfl) bind_assoc

theorem embed_bind {g : Query → Query'} {back : (q : Query) → Answer' (g q) → Answer q}
    (p : Program Query Answer α) (f : α → Program Query Answer β) :
    (p >>= f).embed g back = p.embed g back >>= fun a => (f a).embed g back := by
  induction p with
  | ret a => rfl
  | ask q k ih => exact congrArg (ask (g q)) (funext fun answer => ih (back q answer))

/-- The program in which every question is answered by a program. -/
def handle (f : (q : Query) → Program Query' Answer' (Answer q)) :
    Program Query Answer α → Program Query' Answer' α
  | ret a => ret a
  | ask q k => f q >>= fun answer => (k answer).handle f

variable {f : (q : Query) → Program Query' Answer' (Answer q)}

@[simp] theorem handle_ret (a : α) : (ret a : Program Query Answer α).handle f = ret a := rfl

/-- **Answering respects sequencing.** -/
theorem handle_bind (p : Program Query Answer α) (g : α → Program Query Answer β) :
    (p >>= g).handle f = p.handle f >>= fun a => (g a).handle f := by
  induction p with
  | ret a => rfl
  | ask q k ih =>
    change (f q >>= fun answer => (k answer >>= g).handle f) = _
    rw [handle, bind_assoc]
    exact congrArg _ (funext ih)

/-- The same of a program that may fail. -/
def handleT {ε : Type} (f : (q : Query) → Program Query' Answer' (Answer q))
    (p : ExceptT ε (Program Query Answer) α) : ExceptT ε (Program Query' Answer') α :=
  ExceptT.mk (p.run.handle f)

theorem handleT_bind {ε : Type} (p : ExceptT ε (Program Query Answer) α)
    (g : α → ExceptT ε (Program Query Answer) β) :
    handleT f (p >>= g) = handleT f p >>= fun a => handleT f (g a) := by
  change (p.run >>= ExceptT.bindCont g).handle f =
    p.run.handle f >>= ExceptT.bindCont fun a => handleT f (g a)
  rw [handle_bind]
  refine congrArg _ (funext fun r => ?_)
  cases r with
  | error e => rfl
  | ok a => rfl

end Program
