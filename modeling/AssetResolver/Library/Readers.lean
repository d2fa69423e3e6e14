import AssetResolver.Library.Layout
import AssetResolver.Library.Programs

/-!
# Readers of bytes

A reader takes bytes from the front of an input, and returns a value and what is left, or
fails. What a format is about is said by two notions.

* `ByteReader.Reads`: a value is read from some bytes **whatever comes behind them**. It is
  composed along the program, as the writer of the format is (`ByteReader.Reads.bind`), so
  that a round trip is proved field by field.
* `ByteReader.Exact`: a reader that looks at nothing but the bytes it takes. Every value it
  returns is then read from bytes that stand at the front of the input, in the sense of the
  first notion, and what is read of an input that is cut is read of the whole one
  (`ByteReader.Exact.take`).

A reader that is used over and over until the input ends makes a run (`ByteReader.Run`). There
is one longest run, and a cut input has a run that is a part of it (`ByteReader.Run.isPrefix`).
-/

/-- A part of a parser, with errors of a type. -/
abbrev ByteReader (ε : Type) := StateT (List UInt8) (Except ε)

namespace ByteReader

variable {ε α β : Type} {p : ByteReader ε α} {f : α → ByteReader ε β} {a : α} {b : β}
  {input rest bytes bytes' : List UInt8}

/-! ### Sequences -/

/-- A sequence reads what its parts read, one behind the other. -/
theorem bind_eq_ok_iff :
    (p >>= f) input = .ok (b, rest) ↔
      ∃ a later, p input = .ok (a, later) ∧ f a later = .ok (b, rest) := by
  change (p input >>= fun r => f r.1 r.2) = .ok (b, rest) ↔ _
  rw [Program.except_bind_eq_ok_iff]
  constructor
  · rintro ⟨⟨a, later⟩, hp, hf⟩
    exact ⟨a, later, hp, hf⟩
  · rintro ⟨a, later, hp, hf⟩
    exact ⟨⟨a, later⟩, hp, hf⟩

/-- A value that is there already takes nothing. -/
theorem pure_eq_ok_iff {a' : α} :
    (pure a' : ByteReader ε α) input = .ok (a, rest) ↔ a' = a ∧ input = rest := by
  change (Except.ok (a', input) : Except ε _) = .ok (a, rest) ↔ _
  rw [Except.ok.injEq, Prod.mk.injEq]

/-- A function of what is read takes no more than that. -/
theorem fmap_eq_ok_iff {g : α → β} :
    (g <$> p) input = .ok (b, rest) ↔ ∃ a, p input = .ok (a, rest) ∧ g a = b := by
  rw [← bind_pure_comp, bind_eq_ok_iff]
  constructor
  · rintro ⟨a, later, ha, h⟩
    obtain ⟨rfl, rfl⟩ := pure_eq_ok_iff.mp h
    exact ⟨a, ha, rfl⟩
  · rintro ⟨a, ha, rfl⟩
    exact ⟨a, rest, ha, rfl⟩

theorem throw_ne_ok {e : ε} : (throw e : ByteReader ε α) input ≠ .ok (a, rest) := nofun

/-- What a sequence does is known when its first part is. -/
theorem bind_of_eq_ok (h : p input = .ok (a, rest)) : (p >>= f) input = f a rest := by
  change (p input >>= fun r => f r.1 r.2) = _
  rw [h]
  rfl

theorem bind_of_eq_error {e : ε} (h : p input = .error e) : (p >>= f) input = .error e := by
  change (p input >>= fun r => f r.1 r.2) = _
  rw [h]
  rfl

/-! ### Readers -/

/-- So many bytes. -/
def exactly (eof : ε) (size : ℕ) : ByteReader ε (List UInt8) := fun input =>
  if input.length < size then .error eof else .ok (input.take size, input.drop size)

/-- A value of a layout. -/
def value (eof : ε) (layout : Layout α) : ByteReader ε α := do
  let bytes ← exactly eof layout.width
  return layout.decode bytes

/-- The same reader several times. -/
def several (p : ByteReader ε α) : ℕ → ByteReader ε (List α)
  | 0 => return []
  | count + 1 => do
    let a ← p
    let rest ← several p count
    return a :: rest

/-- A reader for every element of a list. -/
def each (f : α → ByteReader ε β) : List α → ByteReader ε (List β)
  | [] => return []
  | a :: l => do
    let b ← f a
    let rest ← each f l
    return b :: rest

/-- A result that takes no bytes. -/
def result (r : Except ε α) : ByteReader ε α := fun input => r.map fun a => (a, input)

/-! ### Reading whatever comes behind -/

/-- **A value is read from these bytes**, whatever comes behind them. -/
def Reads (p : ByteReader ε α) (bytes : List UInt8) (a : α) : Prop :=
  ∀ rest, p (bytes ++ rest) = .ok (a, rest)

/-- In particular with nothing behind them. -/
theorem Reads.eq_ok (h : Reads p bytes a) : p bytes = .ok (a, []) := by
  simpa using h []

theorem reads_pure (a : α) : Reads (pure a : ByteReader ε α) [] a := fun _ => rfl

/-- **The rule of sequencing.** -/
theorem Reads.bind (hp : Reads p bytes a) (hf : Reads (f a) bytes' b) :
    Reads (p >>= f) (bytes ++ bytes') b := fun rest => by
  rw [List.append_assoc, bind_of_eq_ok (hp (bytes' ++ rest)), hf rest]

/-- The rule of sequencing, for a part that takes no bytes. -/
theorem Reads.bind_nil (hp : Reads p bytes a) (hf : Reads (f a) [] b) :
    Reads (p >>= f) bytes b := by
  simpa using hp.bind hf

theorem Reads.nil_bind (hp : Reads p [] a) (hf : Reads (f a) bytes b) :
    Reads (p >>= f) bytes b :=
  hp.bind hf

/-- The rule of functions. -/
theorem Reads.map {g : α → β} (hp : Reads p bytes a) : Reads (g <$> p) bytes (g a) := by
  rw [← bind_pure_comp]
  exact hp.bind_nil (reads_pure (g a))

/-- So many bytes are read from themselves. -/
theorem reads_exactly (eof : ε) {size : ℕ} (h : bytes.length = size) :
    Reads (exactly eof size) bytes bytes := fun rest => by
  have hlong : ¬(bytes ++ rest).length < size := by
    rw [List.length_append]
    omega
  rw [exactly, if_neg hlong, ← h, List.take_left, List.drop_left]

/-- **A value is read from its writing.** -/
theorem reads_value (eof : ε) (layout : Layout α) (a : α) :
    Reads (value eof layout) (layout.encode a) a := by
  have h := (reads_exactly eof (layout.length_encode a)).bind_nil
    (f := fun bytes => pure (layout.decode bytes)) (reads_pure _)
  rw [layout.decode_encode] at h
  exact h

/-- **Several values are read from their writings, one behind the other.** -/
theorem reads_several {write : α → List UInt8} {g : α → β} {p : ByteReader ε β} {values : List α}
    (h : ∀ a ∈ values, Reads p (write a) (g a)) :
    Reads (several p values.length) (values.flatMap write) (values.map g) := by
  induction values with
  | nil => exact reads_pure []
  | cons a values ih =>
    rw [List.forall_mem_cons] at h
    exact h.1.bind ((ih h.2).bind_nil (reads_pure _))

/-- **A value for every element is read from the writings.** -/
theorem reads_each {f : α → ByteReader ε β} {write : β → List UInt8} {l : List α} {values : List β}
    (h : List.Forall₂ (fun a b => Reads (f a) (write b) b) l values) :
    Reads (each f l) (values.flatMap write) values := by
  induction h with
  | nil => exact reads_pure []
  | cons ha _ ih => exact ha.bind (ih.bind_nil (reads_pure _))

/-- The values that were read for the elements of a list. -/
theorem forall₂_of_each {f : α → ByteReader ε β} {R : α → β → Prop}
    (hf : ∀ a input b rest, f a input = .ok (b, rest) → R a b) {l : List α} {values : List β}
    (h : each f l input = .ok (values, rest)) : List.Forall₂ R l values := by
  induction l generalizing input values with
  | nil =>
    obtain ⟨rfl, -⟩ := pure_eq_ok_iff.mp h
    exact .nil
  | cons a l ih =>
    obtain ⟨b, later, hb, h⟩ := bind_eq_ok_iff.mp h
    obtain ⟨values', later', hvalues, h⟩ := bind_eq_ok_iff.mp h
    obtain ⟨rfl, rfl⟩ := pure_eq_ok_iff.mp h
    exact .cons (hf a input b later hb) (ih hvalues)

theorem result_eq_ok_iff {r : Except ε α} :
    result r input = .ok (a, rest) ↔ r = .ok a ∧ input = rest := by
  cases r <;> simp [result, Except.map]

theorem reads_result {r : Except ε α} (h : r = .ok a) : Reads (result r) [] a := fun _ => by
  rw [h]
  rfl

/-! ### Reading what a writer writes -/

/-- **What is read stands there as a writer writes it.** -/
def Spells (p : ByteReader ε α) (write : α → List UInt8) : Prop :=
  ∀ input a rest, p input = .ok (a, rest) → input = write a ++ rest

/-- The bytes that were read are what stands there. -/
theorem spells_exactly (eof : ε) (size : ℕ) : Spells (exactly eof size) id := by
  intro input a rest h
  unfold exactly at h
  split_ifs at h
  obtain ⟨rfl, rfl⟩ := Prod.mk.inj (Except.ok.inj h)
  exact (List.take_append_drop size input).symm

theorem length_of_exactly_eq_ok {eof : ε} {size : ℕ}
    (h : exactly eof size input = .ok (bytes, rest)) : bytes.length = size := by
  unfold exactly at h
  split_ifs at h with hshort
  obtain ⟨rfl, rfl⟩ := Prod.mk.inj (Except.ok.inj h)
  rw [List.length_take]
  omega

/-- **The writing of the value that was read is what stands there.** -/
theorem spells_value (eof : ε) (layout : Layout α) : Spells (value eof layout) layout.encode := by
  intro input a rest h
  obtain ⟨bytes, later, hbytes, h⟩ := bind_eq_ok_iff.mp h
  obtain ⟨rfl, rfl⟩ := pure_eq_ok_iff.mp h
  rw [layout.encode_decode _ (length_of_exactly_eq_ok hbytes)]
  exact spells_exactly _ _ _ _ _ hbytes

/-- Several values are written one behind the other. -/
theorem Spells.several {write : α → List UInt8} (hp : Spells p write) (count : ℕ) :
    Spells (several p count) fun values => values.flatMap write := by
  induction count with
  | zero =>
    intro input values rest h
    obtain ⟨rfl, rfl⟩ := pure_eq_ok_iff.mp h
    rfl
  | succ count ih =>
    intro input values rest h
    obtain ⟨a, later, ha, h⟩ := bind_eq_ok_iff.mp h
    obtain ⟨values', later', hvalues, h⟩ := bind_eq_ok_iff.mp h
    obtain ⟨rfl, rfl⟩ := pure_eq_ok_iff.mp h
    have hlater := ih _ _ _ hvalues
    dsimp only at hlater ⊢
    rw [List.flatMap_cons, List.append_assoc, ← hlater]
    exact hp _ _ _ ha

/-- So are the values of the elements of a list. -/
theorem Spells.each {f : α → ByteReader ε β} {write : β → List UInt8}
    (hf : ∀ a, Spells (f a) write) (l : List α) :
    Spells (each f l) fun values => values.flatMap write := by
  induction l with
  | nil =>
    intro input values rest h
    obtain ⟨rfl, rfl⟩ := pure_eq_ok_iff.mp h
    rfl
  | cons a l ih =>
    intro input values rest h
    obtain ⟨b, later, hb, h⟩ := bind_eq_ok_iff.mp h
    obtain ⟨values', later', hvalues, h⟩ := bind_eq_ok_iff.mp h
    obtain ⟨rfl, rfl⟩ := pure_eq_ok_iff.mp h
    have hlater := ih _ _ _ hvalues
    dsimp only at hlater ⊢
    rw [List.flatMap_cons, List.append_assoc, ← hlater]
    exact hf a _ _ _ hb

/-! ### Errors that a reader does not have -/

/-- **The reader never fails like this**, whatever the input. -/
def Avoids (p : ByteReader ε α) (e : ε) : Prop := ∀ input, p input ≠ .error e

/-- A sequence fails where one of its parts does. -/
theorem bind_eq_error_iff {e : ε} : (p >>= f) input = .error e ↔
    p input = .error e ∨ ∃ a later, p input = .ok (a, later) ∧ f a later = .error e := by
  change (p input >>= fun r => f r.1 r.2) = .error e ↔ _
  rcases p input with e' | ⟨a, later⟩
  · simp [bind, Except.bind]
  · simp [bind, Except.bind]

theorem avoids_pure (a : α) (e : ε) : Avoids (pure a : ByteReader ε α) e := nofun

theorem avoids_throw {e e' : ε} (h : e' ≠ e) : Avoids (throw e' : ByteReader ε α) e :=
  fun _ hthrow => h (Except.error.inj hthrow)

/-- An input that is too short is the only error of its reader. -/
theorem avoids_exactly {eof e : ε} (h : eof ≠ e) (size : ℕ) : Avoids (exactly eof size) e := by
  intro input herror
  rw [exactly] at herror
  split_ifs at herror
  exact h (Except.error.inj herror)

/-- The rule of sequencing, for errors. -/
theorem Avoids.bind {e : ε} (hp : Avoids p e) (hf : ∀ a, Avoids (f a) e) : Avoids (p >>= f) e := by
  intro input h
  rcases bind_eq_error_iff.mp h with h | ⟨a, later, -, h⟩
  · exact hp input h
  · exact hf a later h

theorem Avoids.map {e : ε} {g : α → β} (hp : Avoids p e) : Avoids (g <$> p) e := by
  rw [← bind_pure_comp]
  exact hp.bind fun a => avoids_pure (g a) e

theorem avoids_value {eof e : ε} (h : eof ≠ e) (layout : Layout α) :
    Avoids (value eof layout) e :=
  (avoids_exactly h _).bind fun _ => avoids_pure _ e

theorem Avoids.several {e : ε} (hp : Avoids p e) (count : ℕ) : Avoids (several p count) e := by
  induction count with
  | zero => exact avoids_pure _ e
  | succ count ih => exact hp.bind fun _ => ih.bind fun _ => avoids_pure _ e

theorem Avoids.each {e : ε} {f : α → ByteReader ε β} (hf : ∀ a, Avoids (f a) e) (l : List α) :
    Avoids (each f l) e := by
  induction l with
  | nil => exact avoids_pure _ e
  | cons a l ih => exact (hf a).bind fun _ => ih.bind fun _ => avoids_pure _ e

/-! ### Looking at nothing else -/

/-- **A reader that looks at nothing but the bytes it takes.** -/
def Exact (p : ByteReader ε α) : Prop :=
  ∀ input a rest, p input = .ok (a, rest) → ∃ bytes, input = bytes ++ rest ∧ Reads p bytes a

theorem exact_pure (a : α) : Exact (pure a : ByteReader ε α) := by
  intro input a' rest h
  obtain ⟨rfl, rfl⟩ := pure_eq_ok_iff.mp h
  exact ⟨[], rfl, reads_pure a⟩

theorem exact_throw (e : ε) : Exact (throw e : ByteReader ε α) :=
  fun _ _ _ h => absurd h throw_ne_ok

/-- **The rule of sequencing.** -/
theorem Exact.bind (hp : Exact p) (hf : ∀ a, Exact (f a)) : Exact (p >>= f) := by
  intro input b rest h
  obtain ⟨a, later, hpa, hfb⟩ := bind_eq_ok_iff.mp h
  obtain ⟨bytes, rfl, hbytes⟩ := hp _ _ _ hpa
  obtain ⟨bytes', rfl, hbytes'⟩ := hf a _ _ _ hfb
  exact ⟨bytes ++ bytes', (List.append_assoc _ _ _).symm, hbytes.bind hbytes'⟩

theorem Exact.map {g : α → β} (hp : Exact p) : Exact (g <$> p) := by
  rw [← bind_pure_comp]
  exact hp.bind fun a => exact_pure (g a)

/-- The rule of branches. -/
theorem Exact.ite {c : Prop} [Decidable c] {p p' : ByteReader ε α} (hp : Exact p)
    (hp' : Exact p') : Exact (if c then p else p') := by
  split_ifs
  · exact hp
  · exact hp'

/-- So many bytes are read without a look at the others. -/
theorem exact_exactly (eof : ε) (size : ℕ) : Exact (exactly eof size) := by
  intro input a rest h
  unfold exactly at h
  split_ifs at h with hshort
  obtain ⟨rfl, rfl⟩ := Prod.mk.inj (Except.ok.inj h)
  refine ⟨input.take size, (List.take_append_drop size input).symm, reads_exactly eof ?_⟩
  rw [List.length_take]
  omega

theorem exact_value (eof : ε) (layout : Layout α) : Exact (value eof layout) :=
  (exact_exactly eof _).bind fun _ => exact_pure _

theorem Exact.several (hp : Exact p) (count : ℕ) : Exact (several p count) := by
  induction count with
  | zero => exact exact_pure []
  | succ count ih => exact hp.bind fun a => ih.bind fun rest => exact_pure (a :: rest)

theorem Exact.each {f : α → ByteReader ε β} (hf : ∀ a, Exact (f a)) (l : List α) :
    Exact (each f l) := by
  induction l with
  | nil => exact exact_pure []
  | cons a l ih => exact (hf a).bind fun b => ih.bind fun rest => exact_pure (b :: rest)

/-- What is read takes bytes from the front. -/
theorem Exact.suffix (hp : Exact p) (h : p input = .ok (a, rest)) : rest <:+ input := by
  obtain ⟨bytes, rfl, -⟩ := hp _ _ _ h
  exact List.suffix_append _ _

/-- What is left is no longer than what was there. -/
theorem Exact.length_le (hp : Exact p) (h : p input = .ok (a, rest)) :
    rest.length ≤ input.length :=
  (hp.suffix h).length_le

/-- So many bytes fewer are left. -/
theorem length_of_exactly {eof : ε} {size : ℕ}
    (h : exactly eof size input = .ok (bytes, rest)) : rest.length + size = input.length := by
  unfold exactly at h
  split_ifs at h with hshort
  obtain ⟨-, rfl⟩ := Prod.mk.inj (Except.ok.inj h)
  rw [List.length_drop]
  omega

theorem length_of_value {eof : ε} {layout : Layout α} (h : value eof layout input = .ok (a, rest)) :
    rest.length + layout.width = input.length := by
  obtain ⟨bytes, later, hbytes, h⟩ := bind_eq_ok_iff.mp h
  obtain ⟨-, rfl⟩ := pure_eq_ok_iff.mp h
  exact length_of_exactly hbytes

/-- A value for each time. -/
theorem length_of_several {count : ℕ} {values : List α}
    (h : several p count input = .ok (values, rest)) : values.length = count := by
  induction count generalizing input values rest with
  | zero =>
    obtain ⟨rfl, -⟩ := pure_eq_ok_iff.mp h
    rfl
  | succ count ih =>
    obtain ⟨a, later, -, h⟩ := bind_eq_ok_iff.mp h
    obtain ⟨values', later', hvalues, h⟩ := bind_eq_ok_iff.mp h
    obtain ⟨rfl, -⟩ := pure_eq_ok_iff.mp h
    rw [List.length_cons, ih hvalues]

/-- Several values that take as much each. -/
theorem length_of_several_exactly {width : ℕ}
    (hp : ∀ {input a rest}, p input = .ok (a, rest) → rest.length + width = input.length)
    {count : ℕ} {values : List α} (h : several p count input = .ok (values, rest)) :
    rest.length + count * width = input.length := by
  induction count generalizing input values rest with
  | zero =>
    obtain ⟨-, rfl⟩ := pure_eq_ok_iff.mp h
    rw [Nat.zero_mul, Nat.add_zero]
  | succ count ih =>
    obtain ⟨a, later, ha, h⟩ := bind_eq_ok_iff.mp h
    obtain ⟨values', later', hvalues, h⟩ := bind_eq_ok_iff.mp h
    obtain ⟨-, rfl⟩ := pure_eq_ok_iff.mp h
    rw [← hp ha, ← ih hvalues, Nat.succ_mul, Nat.add_assoc]

/-- What the reader makes sure of holds of every value. -/
theorem forall_mem_several {P : α → Prop} (hp : ∀ input a rest, p input = .ok (a, rest) → P a)
    {count : ℕ} {values : List α} (h : several p count input = .ok (values, rest)) :
    ∀ a ∈ values, P a := by
  induction count generalizing input values rest with
  | zero =>
    obtain ⟨rfl, -⟩ := pure_eq_ok_iff.mp h
    exact fun _ hmem => absurd hmem List.not_mem_nil
  | succ count ih =>
    obtain ⟨a, later, ha, h⟩ := bind_eq_ok_iff.mp h
    obtain ⟨values', later', hvalues, h⟩ := bind_eq_ok_iff.mp h
    obtain ⟨rfl, -⟩ := pure_eq_ok_iff.mp h
    exact List.forall_mem_cons.mpr ⟨hp _ _ _ ha, ih hvalues⟩

/-- What begins with a value of some bytes takes them. -/
theorem length_lt_of_value_bind {eof : ε} {layout : Layout α} (hwidth : 0 < layout.width)
    (hf : ∀ a, Exact (f a)) (h : (value eof layout >>= f) input = .ok (b, rest)) :
    rest.length < input.length := by
  obtain ⟨a, later, ha, hb⟩ := bind_eq_ok_iff.mp h
  have hle := (hf a).length_le hb
  have hlength := length_of_value ha
  omega

/-- **What is read from an input that was cut is read from the whole of it.** -/
theorem Exact.take (hp : Exact p) {n : ℕ} (h : p (input.take n) = .ok (a, rest)) :
    p input = .ok (a, rest ++ input.drop n) := by
  obtain ⟨bytes, hbytes, hreads⟩ := hp _ _ _ h
  have hwhole : input = bytes ++ (rest ++ input.drop n) := by
    rw [← List.append_assoc, ← hbytes, List.take_append_drop]
  calc p input = p (bytes ++ (rest ++ input.drop n)) := congrArg p hwhole
    _ = .ok (a, rest ++ input.drop n) := hreads _

/-! ### Runs -/

/-- **Values that are read one behind the other**, from an input on, and what is left. -/
inductive Run (p : ByteReader ε α) : List UInt8 → List α → List UInt8 → Prop
  /-- Nothing is read. -/
  | nil (input : List UInt8) : Run p input [] input
  /-- A value is read, and then others. -/
  | cons {input later rest : List UInt8} {a : α} {values : List α}
      (h : p input = .ok (a, later)) (hrun : Run p later values rest) :
      Run p input (a :: values) rest

/-- The reader can go on no further. -/
def Stuck (p : ByteReader ε α) (input : List UInt8) : Prop := ∀ r, p input ≠ .ok r

/-- A reader is stuck where it fails. -/
theorem stuck_iff : Stuck p input ↔ ∃ e, p input = .error e := by
  rcases h : p input with e | r
  · simp [Stuck, h]
  · simp only [Stuck, h, reduceCtorEq, exists_false, iff_false, not_forall, not_not]
    exact ⟨r, rfl⟩

/-- One run begins another, if that one can go on no further. -/
theorem Run.isPrefix {values values' : List α} {rest rest' : List UInt8}
    (h : Run p input values rest) (h' : Run p input values' rest') (hstuck : Stuck p rest') :
    values <+: values' := by
  induction h generalizing values' with
  | nil input => exact List.nil_prefix
  | cons ha _ ih =>
    cases h' with
    | nil => exact absurd ha (hstuck _)
    | cons ha' hrun' =>
      obtain ⟨rfl, rfl⟩ := Prod.mk.inj (Except.ok.inj (ha.symm.trans ha'))
      exact List.cons_prefix_cons.mpr ⟨rfl, ih hrun'⟩

/-- **A run over an input that was cut is a run over the whole of it.** -/
theorem Run.of_take (hp : Exact p) {values : List α} {n : ℕ}
    (h : Run p (input.take n) values rest) : Run p input values (rest ++ input.drop n) := by
  generalize hcut : input.take n = cut at h
  induction h generalizing input n with
  | nil =>
    rw [← hcut, List.take_append_drop]
    exact .nil input
  | @cons cut later rest a values ha _ ih =>
    subst hcut
    -- what comes behind the value is the rest of the input, cut where the piece ends
    have hlater := @ih (later ++ input.drop n) later.length (List.take_left' rfl)
    rw [List.drop_left' rfl] at hlater
    exact .cons (hp.take ha) hlater

/-- What the reader makes sure of holds of every value of a run. -/
theorem Run.forall_mem {P : α → Prop} (hp : ∀ input a rest, p input = .ok (a, rest) → P a)
    {values : List α} (h : Run p input values rest) : ∀ a ∈ values, P a := by
  induction h with
  | nil => exact fun _ hmem => absurd hmem List.not_mem_nil
  | cons ha _ ih => exact List.forall_mem_cons.mpr ⟨hp _ _ _ ha, ih⟩

/-- The values of a run take what is not left of its input. -/
theorem Run.length_eq {size : α → ℕ}
    (hp : ∀ input a rest, p input = .ok (a, rest) → rest.length + size a = input.length)
    {values : List α} (h : Run p input values rest) :
    rest.length + (values.map size).sum = input.length := by
  induction h with
  | nil => rw [List.map_nil, List.sum_nil, Nat.add_zero]
  | cons ha _ ih => rw [List.map_cons, List.sum_cons, ← hp _ _ _ ha, ← ih]; omega

/-- Values that are read from their writings make a run. -/
theorem run_of_reads {write : α → List UInt8} {g : α → β} {p : ByteReader ε β} {values : List α}
    (h : ∀ a ∈ values, Reads p (write a) (g a)) (rest : List UInt8) :
    Run p (values.flatMap write ++ rest) (values.map g) rest := by
  induction values with
  | nil => exact .nil rest
  | cons a values ih =>
    rw [List.forall_mem_cons] at h
    rw [List.flatMap_cons, List.append_assoc]
    exact .cons (h.1 _) (ih h.2)

end ByteReader
