import Mathlib.Data.List.Basic
import Mathlib.Tactic.Ring

/-!
# Values of a fixed width

A `Layout` writes the values of a type with a fixed number of bytes, and **every**
string of that many bytes is the writing of one value. Reading and writing are
therefore inverse on both sides, which is what makes a format decide its input: what
was read is what stands there (`Layout.encode_decode`).

Little-endian numbers are the base case (`Layout.littleEndian`), of which big-endian ones
are the mirror image (`Layout.reversed`), a record is the product of its fields
(`Layout.prod`), and an array is its values one behind the other (`Layout.encodeAll`).
-/

/-! ### Little-endian numbers -/

/-- The number that bytes spell, the least significant one first. -/
def leNat : List UInt8 → ℕ
  | [] => 0
  | b :: bs => b.toNat + 256 * leNat bs

/-- The lowest bytes of a number, the least significant one first. -/
def leBytes : ℕ → ℕ → List UInt8
  | 0, _ => []
  | width + 1, n => UInt8.ofNat n :: leBytes width (n / 256)

@[simp] theorem length_leBytes (width n : ℕ) : (leBytes width n).length = width := by
  induction width generalizing n with
  | zero => rfl
  | succ width ih => rw [leBytes, List.length_cons, ih]

/-- Bytes spell a number below the next power. -/
theorem leNat_lt (bs : List UInt8) : leNat bs < 256 ^ bs.length := by
  induction bs with
  | nil => simp [leNat]
  | cons b bs ih =>
    have hb : b.toNat < 256 := b.toNat_lt
    rw [leNat, List.length_cons, pow_succ]
    omega

/-- **What is written is read back**, up to the width. -/
theorem leNat_leBytes (width n : ℕ) : leNat (leBytes width n) = n % 256 ^ width := by
  induction width generalizing n with
  | zero => simp [leBytes, leNat, Nat.mod_one]
  | succ width ih =>
    have hlow : (UInt8.ofNat n).toNat = n % 256 := by simp
    rw [leBytes, leNat, hlow, ih, pow_succ', Nat.mod_mul]

/-- **What is read is what was written.** -/
theorem leBytes_leNat (bs : List UInt8) : leBytes bs.length (leNat bs) = bs := by
  induction bs with
  | nil => rfl
  | cons b bs ih =>
    have hb : b.toNat < 256 := b.toNat_lt
    have hlow : UInt8.ofNat (b.toNat + 256 * leNat bs) = b := by
      apply UInt8.toNat_inj.mp
      rw [UInt8.toNat_ofNat']
      omega
    have hhigh : (b.toNat + 256 * leNat bs) / 256 = leNat bs := by omega
    rw [leNat, List.length_cons, leBytes, hlow, hhigh, ih]

/-- Only zeros spell zero. -/
theorem leNat_eq_zero_iff (bs : List UInt8) : leNat bs = 0 ↔ ∀ b ∈ bs, b = 0 := by
  induction bs with
  | nil => simp [leNat]
  | cons b bs ih =>
    rw [leNat, List.forall_mem_cons, ← ih, ← UInt8.toNat_inj]
    have hzero : (0 : UInt8).toNat = 0 := rfl
    omega

/-! ### Layouts -/

/-- The values of a type, written with a fixed number of bytes. -/
structure Layout (α : Type) where
  /-- The number of bytes. -/
  width : ℕ
  /-- Writing a value. -/
  encode : α → List UInt8
  /-- Reading a value, from as many bytes. -/
  decode : List UInt8 → α
  length_encode : ∀ a, (encode a).length = width
  decode_encode : ∀ a, decode (encode a) = a
  encode_decode : ∀ bytes, bytes.length = width → encode (decode bytes) = bytes

namespace Layout

attribute [simp] length_encode decode_encode

variable {α β : Type}

/-- A writing is the writing of one value. -/
theorem encode_injective (layout : Layout α) : Function.Injective layout.encode :=
  Function.LeftInverse.injective layout.decode_encode

/-- Numbers below a power of 256, the least significant byte first. -/
def littleEndian (width : ℕ) (toNat : α → ℕ) (ofNat : ℕ → α)
    (toNat_lt : ∀ a, toNat a < 256 ^ width) (ofNat_toNat : ∀ a, ofNat (toNat a) = a)
    (toNat_ofNat : ∀ n < 256 ^ width, toNat (ofNat n) = n) : Layout α where
  width := width
  encode a := leBytes width (toNat a)
  decode bytes := ofNat (leNat bytes)
  length_encode a := length_leBytes width (toNat a)
  decode_encode a := by rw [leNat_leBytes, Nat.mod_eq_of_lt (toNat_lt a), ofNat_toNat]
  encode_decode bytes hlength := by
    have hlt : leNat bytes < 256 ^ width := hlength ▸ leNat_lt bytes
    rw [toNat_ofNat _ hlt, ← hlength, leBytes_leNat]

/-- The bytes the other way round. -/
def reversed (layout : Layout α) : Layout α where
  width := layout.width
  encode a := (layout.encode a).reverse
  decode bytes := layout.decode bytes.reverse
  length_encode a := by rw [List.length_reverse, length_encode]
  decode_encode a := by rw [List.reverse_reverse, decode_encode]
  encode_decode bytes hlength := by
    rw [layout.encode_decode _ (by rw [List.length_reverse, hlength]), List.reverse_reverse]

@[simp] theorem width_reversed (layout : Layout α) : layout.reversed.width = layout.width := rfl

/-- A byte. -/
def uint8 : Layout UInt8 :=
  littleEndian 1 UInt8.toNat UInt8.ofNat UInt8.toNat_lt
    (fun _ => UInt8.ofNat_toNat) fun _ hlt => UInt8.toNat_ofNat_of_lt' hlt

/-- A number of 16 bits, the least significant byte first. -/
def uint16 : Layout UInt16 :=
  littleEndian 2 UInt16.toNat UInt16.ofNat UInt16.toNat_lt
    (fun _ => UInt16.ofNat_toNat) fun _ hlt => UInt16.toNat_ofNat_of_lt' hlt

/-- A number of 32 bits, the least significant byte first. -/
def uint32 : Layout UInt32 :=
  littleEndian 4 UInt32.toNat UInt32.ofNat UInt32.toNat_lt
    (fun _ => UInt32.ofNat_toNat) fun _ hlt => UInt32.toNat_ofNat_of_lt' hlt

/-- A number of 64 bits, the least significant byte first. -/
def uint64 : Layout UInt64 :=
  littleEndian 8 UInt64.toNat UInt64.ofNat UInt64.toNat_lt
    (fun _ => UInt64.ofNat_toNat) fun _ hlt => UInt64.toNat_ofNat_of_lt' hlt

@[simp] theorem width_uint8 : uint8.width = 1 := rfl

@[simp] theorem width_uint16 : uint16.width = 2 := rfl

@[simp] theorem width_uint32 : uint32.width = 4 := rfl

@[simp] theorem width_uint64 : uint64.width = 8 := rfl

/-- No bytes. -/
def unit : Layout Unit where
  width := 0
  encode _ := []
  decode _ := ()
  length_encode _ := rfl
  decode_encode _ := rfl
  encode_decode _ hlength := (List.length_eq_zero_iff.mp hlength).symm

/-- One value after the other. -/
def prod (first : Layout α) (second : Layout β) : Layout (α × β) where
  width := first.width + second.width
  encode a := first.encode a.1 ++ second.encode a.2
  decode bytes := (first.decode (bytes.take first.width), second.decode (bytes.drop first.width))
  length_encode a := by rw [List.length_append, length_encode, length_encode]
  decode_encode a := by
    have htake : (first.encode a.1 ++ second.encode a.2).take first.width = first.encode a.1 := by
      rw [← first.length_encode a.1, List.take_left]
    have hdrop : (first.encode a.1 ++ second.encode a.2).drop first.width = second.encode a.2 := by
      rw [← first.length_encode a.1, List.drop_left]
    rw [htake, hdrop, decode_encode, decode_encode]
  encode_decode bytes hlength := by
    have hfirst : (bytes.take first.width).length = first.width := by
      rw [List.length_take]
      omega
    have hsecond : (bytes.drop first.width).length = second.width := by
      rw [List.length_drop]
      omega
    rw [first.encode_decode _ hfirst, second.encode_decode _ hsecond, List.take_append_drop]

@[simp] theorem width_prod (first : Layout α) (second : Layout β) :
    (first.prod second).width = first.width + second.width := rfl

theorem encode_prod (first : Layout α) (second : Layout β) (a : α × β) :
    (first.prod second).encode a = first.encode a.1 ++ second.encode a.2 := rfl

/-! ### Arrays -/

variable (layout : Layout α)

/-- Several values, one behind the other. -/
def encodeAll (values : List α) : List UInt8 := values.flatMap layout.encode

/-- Reading so many values. -/
def decodeAll : ℕ → List UInt8 → List α
  | 0, _ => []
  | n + 1, bytes =>
    layout.decode (bytes.take layout.width) :: decodeAll n (bytes.drop layout.width)

@[simp] theorem length_decodeAll (n : ℕ) (bytes : List UInt8) :
    (layout.decodeAll n bytes).length = n := by
  induction n generalizing bytes with
  | zero => rfl
  | succ n ih => rw [decodeAll, List.length_cons, ih]

@[simp] theorem length_encodeAll (values : List α) :
    (layout.encodeAll values).length = values.length * layout.width := by
  induction values with
  | nil => simp [encodeAll]
  | cons a values ih =>
    have hcons : layout.encodeAll (a :: values) = layout.encode a ++ layout.encodeAll values := rfl
    rw [hcons, List.length_append, length_encode, ih, List.length_cons, Nat.add_mul, Nat.one_mul,
      Nat.add_comm]

/-- **What is written is read back.** -/
theorem decodeAll_encodeAll (values : List α) :
    layout.decodeAll values.length (layout.encodeAll values) = values := by
  induction values with
  | nil => rfl
  | cons a values ih =>
    have hcons : layout.encodeAll (a :: values) = layout.encode a ++ layout.encodeAll values := rfl
    have hwidth := layout.length_encode a
    have htake : (layout.encode a ++ layout.encodeAll values).take layout.width =
        layout.encode a := by
      rw [← hwidth, List.take_left]
    have hdrop : (layout.encode a ++ layout.encodeAll values).drop layout.width =
        layout.encodeAll values := by
      rw [← hwidth, List.drop_left]
    rw [hcons, List.length_cons, decodeAll, htake, hdrop, decode_encode, ih]

/-- **Bytes of the right number are the writing of some values.** -/
theorem encodeAll_decodeAll {n : ℕ} {bytes : List UInt8}
    (hlength : bytes.length = n * layout.width) :
    layout.encodeAll (layout.decodeAll n bytes) = bytes := by
  induction n generalizing bytes with
  | zero =>
    rw [Nat.zero_mul] at hlength
    exact (List.length_eq_zero_iff.mp hlength).symm
  | succ n ih =>
    rw [Nat.add_mul, Nat.one_mul] at hlength
    have hfirst : (bytes.take layout.width).length = layout.width := by
      rw [List.length_take]
      omega
    have hrest : (bytes.drop layout.width).length = n * layout.width := by
      rw [List.length_drop]
      omega
    have hcons : layout.encodeAll (layout.decodeAll (n + 1) bytes) =
        layout.encode (layout.decode (bytes.take layout.width)) ++
          layout.encodeAll (layout.decodeAll n (bytes.drop layout.width)) := rfl
    rw [hcons, layout.encode_decode _ hfirst, ih hrest, List.take_append_drop]

/-- The values before one stand before it, and the others behind it. -/
theorem encodeAll_eq_append (values : List α) {i : ℕ} (hi : i < values.length) :
    layout.encodeAll values = layout.encodeAll (values.take i) ++
      (layout.encode values[i] ++ layout.encodeAll (values.drop (i + 1))) := by
  have hsplit : values = values.take i ++ values[i] :: values.drop (i + 1) := by
    rw [List.getElem_cons_drop, List.take_append_drop]
  conv_lhs => rw [hsplit]
  rw [encodeAll, List.flatMap_append, List.flatMap_cons]
  rfl

end Layout
