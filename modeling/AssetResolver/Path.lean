import Mathlib.Data.List.Infix
import Mathlib.Data.List.TakeWhile

/-!
# Paths as sequences of components

The `std::path` layer every module above rests on, on Unix. A path is the
sequence of its components: two paths are equal, one starts with another, or a
prefix is stripped from it, exactly when this holds of the component sequences,
so repeated separators and inner `.` components never matter.

Three operations carry the resolver's routing:

* `AssetResolver.PathBuf.join` appends, but an **absolute** right-hand side
  replaces the left one;
* `AssetResolver.PathBuf.stripPrefix` drops a component prefix;
* `AssetResolver.PathBuf.ofStr` reads a string as a path, which may produce any
  number of components.

A component that is a file name carries the proof that it is one
(`AssetResolver.FileName`), and a path the proof that the root and the leading
`.` stand first (`AssetResolver.PathBuf.inner_tail`), so that a path value is
always one the operating system could have been handed.
-/

namespace AssetResolver

/-! ### Operating-system strings -/

/-- An operating-system string: its raw bytes, which need not be UTF-8. -/
abbrev OsString := List UInt8

/-- The bytes of a UTF-8 string. -/
def osString (s : String) : OsString := s.toList.flatMap String.utf8EncodeChar

/-- The bytes of a string determine it. -/
theorem osString_injective : Function.Injective osString := by
  intro s t h
  have hb : (osString s).toByteArray = (osString t).toByteArray := by rw [h]
  have hs : ∀ u : String, (osString u).toByteArray = u.toByteArray := fun u => by
    conv_rhs => rw [← String.ofList_toList (s := u)]
    rfl
  rw [hs, hs] at hb
  exact String.toByteArray_inj.mp hb

/-- The character lossy decoding puts for an ill-formed sequence. -/
def replacementChar : Char := Char.ofNat 0xfffd

/-- A UTF-8 continuation byte. -/
def isContinuation (b : UInt8) : Bool := 0x80 ≤ b && b ≤ 0xbf

/-- The second bytes a three- or four-byte sequence opened by `b` may have. -/
def isSecondByte (b c : UInt8) : Bool :=
  if b = 0xe0 then 0xa0 ≤ c && c ≤ 0xbf
  else if b = 0xed then 0x80 ≤ c && c ≤ 0x9f
  else if b = 0xf0 then 0x90 ≤ c && c ≤ 0xbf
  else if b = 0xf4 then 0x80 ≤ c && c ≤ 0x8f
  else isContinuation c

/-- The scalar the bytes of a multi-byte sequence spell, most significant first. -/
def scalar (lead : ℕ) (conts : List UInt8) : Char :=
  Char.ofNat (conts.foldl (fun acc b => acc * 64 + b.toNat % 64) lead)

/-- The character lossy decoding reads at a byte, and how many of the bytes that
follow it consumes: a well-formed sequence, or the replacement character for the
maximal ill-formed part. -/
def decodeFirst (b : UInt8) (rest : List UInt8) : Char × ℕ :=
  if b < 0x80 then (Char.ofNat b.toNat, 0)
  else if 0xc2 ≤ b && b ≤ 0xdf then
    match rest with
    | c :: _ => if isContinuation c then (scalar (b.toNat % 32) [c], 1) else (replacementChar, 0)
    | [] => (replacementChar, 0)
  else if 0xe0 ≤ b && b ≤ 0xef then
    match rest with
    | c :: tail =>
      if isSecondByte b c then
        match tail with
        | d :: _ =>
          if isContinuation d then (scalar (b.toNat % 16) [c, d], 2) else (replacementChar, 1)
        | [] => (replacementChar, 1)
      else (replacementChar, 0)
    | [] => (replacementChar, 0)
  else if 0xf0 ≤ b && b ≤ 0xf4 then
    match rest with
    | c :: tail =>
      if isSecondByte b c then
        match tail with
        | d :: tail' =>
          if isContinuation d then
            match tail' with
            | e :: _ =>
              if isContinuation e then (scalar (b.toNat % 8) [c, d, e], 3)
              else (replacementChar, 2)
            | [] => (replacementChar, 2)
          else (replacementChar, 1)
        | [] => (replacementChar, 1)
      else (replacementChar, 0)
    | [] => (replacementChar, 0)
  else (replacementChar, 0)

/-- Lossy decoding with a bound on the number of characters. -/
def decodeLossy : ℕ → List UInt8 → List Char
  | 0, _ => []
  | _ + 1, [] => []
  | n + 1, b :: rest =>
    let (c, k) := decodeFirst b rest
    c :: decodeLossy n (rest.drop k)

/-- `OsStr::to_string_lossy`. -/
def toStringLossy (s : OsString) : String := String.ofList (decodeLossy s.length s)

/-- **An ASCII byte of an encoding is a character of its own.** -/
theorem toNat_of_mem_utf8EncodeChar {c : Char} {b : UInt8} (hb : b ∈ String.utf8EncodeChar c)
    (hlow : b.toNat < 128) : c.toNat = b.toNat := by
  have hhigh : ∀ n : ℕ, 128 ≤ n → n < 256 → b ≠ UInt8.ofNat n := by
    rintro n h1 h2 rfl
    rw [UInt8.toNat_ofNat', Nat.mod_eq_of_lt h2] at hlow
    omega
  unfold String.utf8EncodeChar at hb
  dsimp only at hb
  split_ifs at hb with h1 h2 h3
  · rw [List.mem_singleton] at hb
    rw [hb, UInt8.toNat_ofNat', Nat.mod_eq_of_lt (by omega)]
    rfl
  · simp only [List.mem_cons, List.not_mem_nil, or_false] at hb
    rcases hb with hb | hb
    · exact absurd hb (hhigh _ (by omega) (by omega))
    · exact absurd hb (hhigh _ (by omega) (by omega))
  · simp only [List.mem_cons, List.not_mem_nil, or_false] at hb
    rcases hb with hb | hb | hb
    · exact absurd hb (hhigh _ (by omega) (by omega))
    · exact absurd hb (hhigh _ (by omega) (by omega))
    · exact absurd hb (hhigh _ (by omega) (by omega))
  · simp only [List.mem_cons, List.not_mem_nil, or_false] at hb
    rcases hb with hb | hb | hb | hb
    · exact absurd hb (hhigh _ (by omega) (by omega))
    · exact absurd hb (hhigh _ (by omega) (by omega))
    · exact absurd hb (hhigh _ (by omega) (by omega))
    · exact absurd hb (hhigh _ (by omega) (by omega))

/-- A scalar beyond ASCII is read as no character of ASCII, except for the null character
that `Char.ofNat` puts for a surrogate. -/
theorem ofNat_ne_of_le {n : ℕ} {c : Char} (hn : 128 ≤ n) (h0 : 0 < c.toNat)
    (hc : c.toNat < 128) : Char.ofNat n ≠ c := by
  rintro rfl
  by_cases hvalid : n.isValidChar
  · have hval : (Char.ofNat n).toNat = n := by
      rw [Char.ofNat, dif_pos hvalid]
      rfl
    omega
  · have hnull : (Char.ofNat n).toNat = 0 := by
      rw [Char.ofNat, dif_neg hvalid]
      rfl
    omega

/-- After the two bytes that open the shortest long forms, the second byte keeps the form
from being an overlong one. -/
theorem le_of_isSecondByte {b c : UInt8} (h : isSecondByte b c) :
    (b.toNat = 224 → 160 ≤ c.toNat ∧ c.toNat ≤ 191) ∧
      (b.toNat = 240 → 144 ≤ c.toNat ∧ c.toNat ≤ 191) := by
  constructor
  · intro hb
    obtain rfl : b = 0xe0 := UInt8.toNat_inj.mp hb
    simpa [isSecondByte, UInt8.le_iff_toNat_le] using h
  · intro hb
    obtain rfl : b = 0xf0 := UInt8.toNat_inj.mp hb
    simpa [isSecondByte, UInt8.le_iff_toNat_le] using h

/-- **Lossy decoding reads a character of ASCII at its byte only.** -/
theorem toNat_of_decodeFirst {b : UInt8} {rest : List UInt8} {c : Char}
    (h : (decodeFirst b rest).1 = c) (h0 : 0 < c.toNat) (hc : c.toNat < 128) :
    b.toNat = c.toNat := by
  have hrepl : replacementChar ≠ c := by
    rintro rfl
    exact absurd hc (by decide)
  have hscalar : ∀ n : ℕ, 128 ≤ n → Char.ofNat n ≠ c := fun n hn => ofNat_ne_of_le hn h0 hc
  unfold decodeFirst at h
  split_ifs at h with h1 h2 h3 h4
  · rw [← h]
    have hb : b.toNat < 128 := by simpa [UInt8.lt_iff_toNat_lt] using h1
    unfold Char.ofNat
    rw [dif_pos (Or.inl (by omega))]
    rfl
  · -- two bytes
    simp only [Bool.and_eq_true, decide_eq_true_eq, UInt8.le_iff_toNat_le] at h2
    have hlead : 194 ≤ b.toNat ∧ b.toNat ≤ 223 := h2
    split at h
    · split_ifs at h
      · exact absurd h (hscalar _ (by simp only [List.foldl_cons, List.foldl_nil]; omega))
      · exact absurd h hrepl
    · exact absurd h hrepl
  · -- three bytes
    simp only [Bool.and_eq_true, decide_eq_true_eq, UInt8.le_iff_toNat_le] at h3
    have hlead : 224 ≤ b.toNat ∧ b.toNat ≤ 239 := h3
    split at h
    · rename_i c' tail
      split_ifs at h with hsecond
      · have hpos := le_of_isSecondByte hsecond
        split at h
        · split_ifs at h
          · exact absurd h (hscalar _ (by simp only [List.foldl_cons, List.foldl_nil]; omega))
          · exact absurd h hrepl
        · exact absurd h hrepl
      · exact absurd h hrepl
    · exact absurd h hrepl
  · -- four bytes
    simp only [Bool.and_eq_true, decide_eq_true_eq, UInt8.le_iff_toNat_le] at h4
    have hlead : 240 ≤ b.toNat ∧ b.toNat ≤ 244 := h4
    split at h
    · rename_i c' tail
      split_ifs at h with hsecond
      · have hpos := le_of_isSecondByte hsecond
        split at h
        · split_ifs at h
          · split at h
            · split_ifs at h
              · exact absurd h
                  (hscalar _ (by simp only [List.foldl_cons, List.foldl_nil]; omega))
              · exact absurd h hrepl
            · exact absurd h hrepl
          · exact absurd h hrepl
        · exact absurd h hrepl
      · exact absurd h hrepl
    · exact absurd h hrepl
  · exact absurd h hrepl

/-- Lossy decoding finds a character of ASCII only where its byte is. -/
theorem mem_of_mem_decodeLossy {c : Char} (h0 : 0 < c.toNat) (hc : c.toNat < 128) :
    ∀ {n : ℕ} {s : List UInt8}, c ∈ decodeLossy n s → UInt8.ofNat c.toNat ∈ s := by
  intro n
  induction n with
  | zero => intro s h; exact absurd h List.not_mem_nil
  | succ n ih =>
    intro s h
    rcases s with - | ⟨b, rest⟩
    · exact absurd h List.not_mem_nil
    · rcases List.mem_cons.mp h with hfirst | hlater
      · rw [← toNat_of_decodeFirst hfirst.symm h0 hc, UInt8.ofNat_toNat]
        exact List.mem_cons_self
      · exact List.mem_cons_of_mem _ (List.mem_of_mem_drop (ih hlater))

/-- A byte in a range. -/
theorem between {l u b : UInt8} (h1 : l.toNat ≤ b.toNat) (h2 : b.toNat ≤ u.toNat) :
    (decide (l ≤ b) && decide (b ≤ u)) = true := by
  rw [Bool.and_eq_true, decide_eq_true_eq, decide_eq_true_eq]
  exact ⟨UInt8.le_iff_toNat_le.mpr h1, UInt8.le_iff_toNat_le.mpr h2⟩

theorem not_between {l u b : UInt8} (h : b.toNat < l.toNat ∨ u.toNat < b.toNat) :
    ¬(decide (l ≤ b) && decide (b ≤ u)) = true := by
  rw [Bool.and_eq_true, decide_eq_true_eq, decide_eq_true_eq]
  rintro ⟨h1, h2⟩
  have h1' := UInt8.le_iff_toNat_le.mp h1
  have h2' := UInt8.le_iff_toNat_le.mp h2
  omega

theorem not_lt_of_le_toNat {b : UInt8} (h : 128 ≤ b.toNat) : ¬b < 0x80 := by
  intro hlt
  have hlt' : b.toNat < 128 := UInt8.lt_iff_toNat_lt.mp hlt
  omega

theorem isContinuation_of_toNat {c : UInt8} {y : ℕ} (hc : c.toNat = 128 + y) (hy : y < 64) :
    isContinuation c = true :=
  between (l := 0x80) (u := 0xbf) (by show 128 ≤ _; omega) (by show _ ≤ 191; omega)

theorem isSecondByte_of_toNat {b c : UInt8} {y : ℕ} (hc : c.toNat = 128 + y) (hy : y < 64)
    (h0 : b.toNat = 224 → 32 ≤ y) (hd : b.toNat = 237 → y < 32) (hf : b.toNat = 240 → 16 ≤ y)
    (h4 : b.toNat = 244 → y < 16) : isSecondByte b c = true := by
  unfold isSecondByte
  split_ifs with h h' h' h'
  · subst h
    have hy' := h0 rfl
    exact between (l := 0xa0) (u := 0xbf) (by show 160 ≤ _; omega) (by show _ ≤ 191; omega)
  · subst h'
    have hy' := hd rfl
    exact between (l := 0x80) (u := 0x9f) (by show 128 ≤ _; omega) (by show _ ≤ 159; omega)
  · subst h'
    have hy' := hf rfl
    exact between (l := 0x90) (u := 0xbf) (by show 144 ≤ _; omega) (by show _ ≤ 191; omega)
  · subst h'
    have hy' := h4 rfl
    exact between (l := 0x80) (u := 0x8f) (by show 128 ≤ _; omega) (by show _ ≤ 143; omega)
  · exact isContinuation_of_toNat hc hy

/-- A two-byte sequence. -/
theorem decodeFirst_two {b c : UInt8} {x y : ℕ} (hb : b.toNat = 192 + x) (hc : c.toNat = 128 + y)
    (hx : 2 ≤ x ∧ x < 32) (hy : y < 64) (rest : List UInt8) :
    decodeFirst b (c :: rest) = (Char.ofNat (x * 64 + y), 1) := by
  have hlead := between (l := 0xc2) (u := 0xdf) (b := b) (by show 194 ≤ _; omega)
    (by show _ ≤ 223; omega)
  have hvalue : (b.toNat % 32 * 64 + c.toNat % 64) = x * 64 + y := by omega
  unfold decodeFirst
  rw [if_neg (not_lt_of_le_toNat (by omega)), if_pos hlead]
  dsimp only
  rw [if_pos (isContinuation_of_toNat hc hy)]
  simp only [scalar, List.foldl_cons, List.foldl_nil, hvalue]

/-- A three-byte sequence. -/
theorem decodeFirst_three {b c d : UInt8} {x y z : ℕ} (hb : b.toNat = 224 + x)
    (hc : c.toNat = 128 + y) (hd : d.toNat = 128 + z) (hx : x < 16) (hy : y < 64) (hz : z < 64)
    (hlong : x = 0 → 32 ≤ y) (hsurrogate : x = 13 → y < 32) (rest : List UInt8) :
    decodeFirst b (c :: d :: rest) = (Char.ofNat ((x * 64 + y) * 64 + z), 2) := by
  have hnot := not_between (l := 0xc2) (u := 0xdf) (b := b) (.inr (by show 223 < _; omega))
  have hlead := between (l := 0xe0) (u := 0xef) (b := b) (by show 224 ≤ _; omega)
    (by show _ ≤ 239; omega)
  have hsecond := isSecondByte_of_toNat (b := b) hc hy (fun h => hlong (by omega))
    (fun h => hsurrogate (by omega)) (fun h => by omega) (fun h => by omega)
  have hvalue : ((b.toNat % 16 * 64 + c.toNat % 64) * 64 + d.toNat % 64) =
      (x * 64 + y) * 64 + z := by omega
  unfold decodeFirst
  rw [if_neg (not_lt_of_le_toNat (by omega)), if_neg hnot, if_pos hlead]
  dsimp only
  rw [if_pos hsecond]
  rw [if_pos (isContinuation_of_toNat hd hz)]
  simp only [scalar, List.foldl_cons, List.foldl_nil, hvalue]

/-- A four-byte sequence. -/
theorem decodeFirst_four {b c d e : UInt8} {x y z w : ℕ} (hb : b.toNat = 240 + x)
    (hc : c.toNat = 128 + y) (hd : d.toNat = 128 + z) (he : e.toNat = 128 + w) (hx : x ≤ 4)
    (hy : y < 64) (hz : z < 64) (hw : w < 64) (hlong : x = 0 → 16 ≤ y) (hmax : x = 4 → y < 16)
    (rest : List UInt8) :
    decodeFirst b (c :: d :: e :: rest) =
      (Char.ofNat (((x * 64 + y) * 64 + z) * 64 + w), 3) := by
  have hnot := not_between (l := 0xc2) (u := 0xdf) (b := b) (.inr (by show 223 < _; omega))
  have hnot' := not_between (l := 0xe0) (u := 0xef) (b := b) (.inr (by show 239 < _; omega))
  have hlead := between (l := 0xf0) (u := 0xf4) (b := b) (by show 240 ≤ _; omega)
    (by show _ ≤ 244; omega)
  have hsecond := isSecondByte_of_toNat (b := b) hc hy (fun h => by omega) (fun h => by omega)
    (fun h => hlong (by omega)) (fun h => hmax (by omega))
  have hvalue : (((b.toNat % 8 * 64 + c.toNat % 64) * 64 + d.toNat % 64) * 64 + e.toNat % 64) =
      ((x * 64 + y) * 64 + z) * 64 + w := by omega
  unfold decodeFirst
  rw [if_neg (not_lt_of_le_toNat (by omega)), if_neg hnot, if_neg hnot', if_pos hlead]
  dsimp only
  rw [if_pos hsecond]
  rw [if_pos (isContinuation_of_toNat hd hz)]
  rw [if_pos (isContinuation_of_toNat he hw)]
  simp only [scalar, List.foldl_cons, List.foldl_nil, hvalue]

/-- **Decoding undoes encoding**, character by character. -/
theorem decodeFirst_encode (c : Char) (rest : List UInt8) :
    ∃ b bs, String.utf8EncodeChar c = b :: bs ∧ decodeFirst b (bs ++ rest) = (c, bs.length) := by
  have hvalid : c.val.toNat < 0xd800 ∨ (0xdfff < c.val.toNat ∧ c.val.toNat < 0x110000) := c.valid
  have hc : Char.ofNat c.val.toNat = c := Char.ofNat_toNat c
  have hbyte : ∀ n : ℕ, n < 256 → (UInt8.ofNat n).toNat = n := fun n hn => by
    rw [UInt8.toNat_ofNat', Nat.mod_eq_of_lt hn]
  unfold String.utf8EncodeChar
  dsimp only
  generalize hv : c.val.toNat = v at hvalid hc ⊢
  split_ifs with h1 h2 h3
  · refine ⟨_, _, rfl, ?_⟩
    have hlt : UInt8.ofNat v < 0x80 := UInt8.lt_iff_toNat_lt.mpr (by
      rw [hbyte v (by omega)]
      show v < 128
      omega)
    unfold decodeFirst
    rw [if_pos hlt, hbyte v (by omega), hc]
    rfl
  · refine ⟨_, _, rfl, ?_⟩
    rw [List.cons_append, decodeFirst_two (x := v / 64) (y := v % 64)
      ((hbyte _ (by omega)).trans (by omega)) ((hbyte _ (by omega)).trans (by omega)) (by omega)
      (by omega)]
    have hvalue : v / 64 * 64 + v % 64 = v := by omega
    rw [hvalue, hc]
    rfl
  · refine ⟨_, _, rfl, ?_⟩
    rw [List.cons_append, List.cons_append, decodeFirst_three (x := v / 4096) (y := v / 64 % 64)
      (z := v % 64) ((hbyte _ (by omega)).trans (by omega)) ((hbyte _ (by omega)).trans (by omega))
      ((hbyte _ (by omega)).trans (by omega)) (by omega) (by omega) (by omega) (by omega)
      (by omega)]
    have hvalue : (v / 4096 * 64 + v / 64 % 64) * 64 + v % 64 = v := by omega
    rw [hvalue, hc]
    rfl
  · refine ⟨_, _, rfl, ?_⟩
    rw [List.cons_append, List.cons_append, List.cons_append,
      decodeFirst_four (x := v / 262144) (y := v / 4096 % 64) (z := v / 64 % 64) (w := v % 64)
      ((hbyte _ (by omega)).trans (by omega)) ((hbyte _ (by omega)).trans (by omega))
      ((hbyte _ (by omega)).trans (by omega)) ((hbyte _ (by omega)).trans (by omega)) (by omega)
      (by omega) (by omega) (by omega) (by omega) (by omega)]
    have hvalue : ((v / 262144 * 64 + v / 4096 % 64) * 64 + v / 64 % 64) * 64 + v % 64 = v := by
      omega
    rw [hvalue, hc]
    rfl

/-- Encoding and decoding leave a text as it is. -/
theorem decodeLossy_encode (cs : List Char) :
    ∀ n, (cs.flatMap String.utf8EncodeChar).length ≤ n →
      decodeLossy n (cs.flatMap String.utf8EncodeChar) = cs := by
  induction cs with
  | nil =>
    rintro (- | n) -
    · rfl
    · rfl
  | cons c cs ih =>
    intro n hn
    rw [List.flatMap_cons] at hn ⊢
    obtain ⟨b, bs, hbytes, hfirst⟩ := decodeFirst_encode c (cs.flatMap String.utf8EncodeChar)
    rw [hbytes] at hn ⊢
    rcases n with - | n
    · simp at hn
    · rw [List.cons_append, decodeLossy, hfirst]
      dsimp only
      rw [List.drop_left, ih n (by simp only [List.length_cons, List.length_append] at hn; omega)]

/-- **Lossy decoding loses nothing of a string.** -/
theorem toStringLossy_osString (s : String) : toStringLossy (osString s) = s := by
  rw [toStringLossy, osString, decodeLossy_encode _ _ (Nat.le_refl _), String.ofList_toList]

/-! ### Components -/

/-- The separator of path components, `/`. -/
def sep : UInt8 := 0x2f

/-- The byte `.`. -/
def dot : UInt8 := 0x2e

/-- A single file name: not empty, without a separator, and neither `.` nor
`..`. -/
structure FileName where
  /-- The bytes of the name. -/
  bytes : OsString
  ne_nil : bytes ≠ []
  sep_notMem : sep ∉ bytes
  ne_dot : bytes ≠ [dot]
  ne_dotdot : bytes ≠ [dot, dot]
  deriving DecidableEq

/-- A component of a path. -/
inductive Component where
  /-- The root directory, of an absolute path. -/
  | rootDir : Component
  /-- A leading `.`. -/
  | curDir : Component
  /-- A `..`. -/
  | parentDir : Component
  /-- A file name. -/
  | normal (name : FileName) : Component
  deriving DecidableEq

/-- A file name. -/
def Component.isNormal : Component → Bool
  | .normal _ => true
  | _ => false

/-- A component that may stand after another one. -/
def Component.isInner : Component → Bool
  | .normal _ => true
  | .parentDir => true
  | _ => false

theorem Component.isInner_of_isNormal {c : Component} (h : c.isNormal) : c.isInner := by
  cases c <;> simp_all [isNormal, isInner]

/-- A path: its components, of which only the first may be the root or `.`. -/
@[ext] structure PathBuf where
  /-- The components, outermost first. -/
  components : List Component
  inner_tail : ∀ c ∈ components.tail, c.isInner
  deriving DecidableEq

namespace PathBuf

/-- The empty path. -/
def empty : PathBuf := ⟨[], by simp⟩

/-- The path of some file names below nothing. -/
def ofNames (names : List FileName) : PathBuf :=
  ⟨names.map Component.normal, fun c hc => by
    obtain ⟨n, -, rfl⟩ := List.mem_map.mp (List.mem_of_mem_tail hc)
    rfl⟩

@[simp] theorem ofNames_components (names : List FileName) :
    (ofNames names).components = names.map Component.normal := rfl

/-! ### Reading a string as a path -/

/-- The component a piece between two separators stands for: nothing for an
empty piece or a `.`. -/
def piece (bytes : OsString) : Option Component :=
  if h₁ : bytes = [] then none
  else if h₂ : bytes = [dot] then none
  else if h₃ : bytes = [dot, dot] then some .parentDir
  else if h₄ : sep ∈ bytes then none
  else some (.normal ⟨bytes, h₁, h₄, h₂, h₃⟩)

/-- What opens a path: the root of an absolute one, or a leading `.`. -/
def lead (bytes : OsString) : List Component :=
  if bytes.head? = some sep then [.rootDir]
  else if bytes = [dot] ∨ [dot, sep] <+: bytes then [.curDir]
  else []

theorem isInner_of_piece {bytes : OsString} {c : Component} (h : piece bytes = some c) :
    c.isInner := by
  unfold piece at h
  split_ifs at h <;> cases h <;> rfl

/-- `Path::new` on raw bytes. -/
def ofOs (bytes : OsString) : PathBuf where
  components := lead bytes ++ (bytes.splitOn sep).filterMap piece
  inner_tail := by
    intro c hc
    have hmem : c ∈ (bytes.splitOn sep).filterMap piece := by
      unfold lead at hc
      split_ifs at hc
      · simpa using hc
      · simpa using hc
      · exact List.mem_of_mem_tail (by simpa using hc)
    obtain ⟨b, -, hb⟩ := List.mem_filterMap.mp hmem
    exact isInner_of_piece hb

/-- `Path::new` on a string. -/
def ofStr (s : String) : PathBuf := ofOs (osString s)

/-- **A string that is a file name reads as the one component it names.** -/
theorem ofOs_fileName (n : FileName) : (ofOs n.bytes).components = [.normal n] := by
  have hpiece : piece n.bytes = some (.normal n) := by
    simp [piece, n.ne_nil, n.ne_dot, n.ne_dotdot, n.sep_notMem]
  have hlead : lead n.bytes = [] := by
    have hhead : n.bytes.head? ≠ some sep := fun h => n.sep_notMem (List.mem_of_mem_head? h)
    have hpre : ¬[dot, sep] <+: n.bytes := fun h => n.sep_notMem (h.subset (by simp))
    simp [lead, hhead, n.ne_dot, hpre]
  have hsplit : n.bytes.splitOn sep = [n.bytes] := List.splitOn_eq_singleton n.sep_notMem
  simp [ofOs, hlead, hsplit, hpiece]

/-! ### Showing a path -/

/-- The bytes of a component. -/
def componentBytes : Component → OsString
  | .rootDir => [sep]
  | .curDir => [dot]
  | .parentDir => [dot, dot]
  | .normal n => n.bytes

/-- The bytes of a path. -/
def toOs (p : PathBuf) : OsString :=
  match p.components with
  | .rootDir :: rest => sep :: [sep].intercalate (rest.map componentBytes)
  | cs => [sep].intercalate (cs.map componentBytes)

/-- `Path::display`, of a path that is spelled as its components are: the texts of errors show
another spelling as it is in the source. -/
def display (p : PathBuf) : String := toStringLossy p.toOs

/-! ### Joining -/

/-- The path is absolute. -/
def isAbsolute (p : PathBuf) : Bool := p.components.head? = some .rootDir

/-- The components a relative path adds behind another one: a leading `.` adds
none. -/
def relativeComponents (p : PathBuf) : List Component :=
  p.components.dropWhile (· = .curDir)

theorem isInner_relativeComponents {p : PathBuf} (h : ¬p.isAbsolute) :
    ∀ c ∈ p.relativeComponents, c.isInner := by
  intro c hc
  obtain ⟨cs, htail⟩ := p
  cases cs with
  | nil => simp [relativeComponents] at hc
  | cons d ds =>
    have htail' : ∀ e ∈ ds, e.isInner := by simpa using htail
    cases d with
    | rootDir => simp [isAbsolute] at h
    | curDir =>
      have hmem : c ∈ ds :=
        (List.dropWhile_suffix _).subset (by simpa [relativeComponents] using hc)
      exact htail' c hmem
    | parentDir =>
      rcases List.mem_cons.mp (by simpa [relativeComponents] using hc) with rfl | hmem
      · rfl
      · exact htail' c hmem
    | normal n =>
      rcases List.mem_cons.mp (by simpa [relativeComponents] using hc) with rfl | hmem
      · rfl
      · exact htail' c hmem

/-- `Path::join`. An absolute right-hand side replaces the path. -/
def join (p q : PathBuf) : PathBuf :=
  if habs : q.isAbsolute then q
  else if hp : p.components = [] then q
  else
    { components := p.components ++ q.relativeComponents
      inner_tail := by
        intro c hc
        rw [List.tail_append_of_ne_nil hp] at hc
        rcases List.mem_append.mp hc with h | h
        · exact p.inner_tail c h
        · exact isInner_relativeComponents habs c h }

theorem join_components_of_not_isAbsolute {p q : PathBuf} (hp : p.components ≠ [])
    (hq : ¬q.isAbsolute) : (p.join q).components = p.components ++ q.relativeComponents := by
  unfold join
  rw [dif_neg hq, dif_neg hp]

/-- A path of file names only. -/
def AllNormal (p : PathBuf) : Prop := ∀ c ∈ p.components, c.isNormal

instance (p : PathBuf) : Decidable p.AllNormal :=
  inferInstanceAs (Decidable (∀ c ∈ p.components, c.isNormal))

theorem relativeComponents_of_isInner {p : PathBuf} (h : ∀ c ∈ p.components, c.isInner) :
    p.relativeComponents = p.components := by
  refine List.dropWhile_eq_self_iff.mpr fun hlen hcur => ?_
  have hinner := h _ (List.getElem_mem hlen)
  rw [of_decide_eq_true hcur] at hinner
  simp [Component.isInner] at hinner

/-- **Joining a path that opens with neither the root nor `.` appends it**,
whatever the left-hand side. -/
theorem join_components_of_isInner {p q : PathBuf} (h : ∀ c ∈ q.components, c.isInner) :
    (p.join q).components = p.components ++ q.components := by
  have habs : ¬q.isAbsolute := fun habs => by
    have hmem : Component.rootDir ∈ q.components :=
      List.mem_of_mem_head? (by simpa [isAbsolute] using habs)
    exact absurd (h _ hmem) (by simp [Component.isInner])
  by_cases hp : p.components = []
  · rw [join, dif_neg habs, dif_pos hp, hp, List.nil_append]
  · rw [join_components_of_not_isAbsolute hp habs, relativeComponents_of_isInner h]

/-- Joining file names appends them. -/
theorem join_components {p q : PathBuf} (h : q.AllNormal) :
    (p.join q).components = p.components ++ q.components :=
  join_components_of_isInner fun c hc => Component.isInner_of_isNormal (h c hc)

theorem allNormal_ofNames (names : List FileName) : (ofNames names).AllNormal := by
  intro c hc
  obtain ⟨n, -, rfl⟩ := List.mem_map.mp hc
  rfl

/-- A path of file names only is given by them. -/
theorem exists_ofNames {p : PathBuf} (h : p.AllNormal) : ∃ names, p = ofNames names := by
  suffices hlist : ∀ cs : List Component, (∀ c ∈ cs, c.isNormal) →
      ∃ names : List FileName, cs = names.map Component.normal by
    obtain ⟨names, hnames⟩ := hlist p.components h
    exact ⟨names, PathBuf.ext hnames⟩
  intro cs
  induction cs with
  | nil => exact fun _ => ⟨[], rfl⟩
  | cons c cs ih =>
    intro hcs
    obtain ⟨names, rfl⟩ := ih fun d hd => hcs d (List.mem_cons_of_mem _ hd)
    have hc : c.isNormal := hcs c List.mem_cons_self
    cases c with
    | normal n => exact ⟨n :: names, rfl⟩
    | rootDir => simp [Component.isNormal] at hc
    | curDir => simp [Component.isNormal] at hc
    | parentDir => simp [Component.isNormal] at hc

/-! ### Parents -/

/-- The first components of a path. -/
def take (p : PathBuf) (n : ℕ) : PathBuf where
  components := p.components.take n
  inner_tail := by
    intro c hc
    rw [← List.drop_one, List.drop_take, List.drop_one] at hc
    exact p.inner_tail c (List.mem_of_mem_take hc)

/-- `Path::parent`. -/
def parent (p : PathBuf) : Option PathBuf :=
  match p.components.getLast? with
  | none => none
  | some .rootDir => none
  | some _ => some (p.take (p.components.length - 1))

/-- `Path::file_name`. -/
def fileName (p : PathBuf) : Option FileName :=
  match p.components.getLast? with
  | some (.normal n) => some n
  | _ => none

/-- A file in a directory. -/
theorem parent_of_components {p q : PathBuf} {n : FileName}
    (h : p.components = q.components ++ [.normal n]) : p.parent = some q ∧ p.fileName = some n := by
  have hlast : p.components.getLast? = some (.normal n) := by
    rw [h]
    exact List.getLast?_concat
  have hfront : p.take (p.components.length - 1) = q := by
    refine PathBuf.ext ?_
    change p.components.take (p.components.length - 1) = q.components
    rw [h]
    simp
  constructor
  · rw [parent, hlast]
    exact congrArg some hfront
  · rw [fileName, hlast]

/-- The directories on the way to a path and the path itself, outermost first. -/
def prefixes (p : PathBuf) : List PathBuf :=
  (List.range p.components.length).map fun n => p.take (n + 1)

example : (ofStr "/a/../b").prefixes = [ofStr "/", ofStr "/a", ofStr "/a/..", ofStr "/a/../b"] := by
  decide +kernel

/-! ### Prefixes -/

/-- `Path::starts_with`. -/
def startsWith (p base : PathBuf) : Bool := base.components.isPrefixOf p.components

/-- `Path::strip_prefix`. -/
def stripPrefix (p base : PathBuf) : Option PathBuf :=
  if p.startsWith base then
    some
      { components := p.components.drop base.components.length
        inner_tail := fun c hc => p.inner_tail c (by
          rw [List.tail_drop] at hc
          exact List.mem_of_mem_drop (by rwa [List.drop_tail]) ) }
  else none

theorem startsWith_iff {p base : PathBuf} :
    p.startsWith base ↔ base.components <+: p.components := by
  simp [startsWith]

/-- **Stripping a prefix undoes appending it.** -/
theorem stripPrefix_eq_some_iff {p base r : PathBuf} :
    p.stripPrefix base = some r ↔ p.components = base.components ++ r.components := by
  unfold stripPrefix
  constructor
  · intro h
    split_ifs at h with hpre
    obtain ⟨t, ht⟩ := startsWith_iff.mp hpre
    have hr : r.components = p.components.drop base.components.length := by
      rw [← Option.some.inj h]
    rw [hr, ← ht, List.drop_left]
  · intro h
    rw [if_pos (startsWith_iff.mpr ⟨r.components, h.symm⟩)]
    exact congrArg some (PathBuf.ext (by simp [h]))

theorem stripPrefix_eq_none_iff {p base : PathBuf} :
    p.stripPrefix base = none ↔ ¬base.components <+: p.components := by
  rw [← startsWith_iff]
  simp [stripPrefix]

/-- What is left behind a prefix opens with neither the root nor `.`, unless the prefix is
empty. -/
theorem isInner_of_stripPrefix {p base r : PathBuf} (hbase : base.components ≠ [])
    (h : p.stripPrefix base = some r) : ∀ c ∈ r.components, c.isInner := by
  intro c hc
  refine p.inner_tail c ?_
  rw [stripPrefix_eq_some_iff.mp h, List.tail_append_of_ne_nil hbase]
  exact List.mem_append_right _ hc

/-- What is left behind a prefix of file names only consists of file names. -/
theorem allNormal_of_stripPrefix {p base r : PathBuf} (hp : p.AllNormal)
    (h : p.stripPrefix base = some r) : r.AllNormal := by
  intro c hc
  exact hp c (by rw [stripPrefix_eq_some_iff.mp h]; exact List.mem_append_right _ hc)

end PathBuf

end AssetResolver
