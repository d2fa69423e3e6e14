import AssetResolver.Listfile.Entries
import Mathlib.Data.Bool.AllAny
import Mathlib.Data.Char
import Mathlib.Data.List.AList
import Mathlib.Data.List.DropRight
import Mathlib.Data.List.GetD
import Mathlib.Data.List.Lex
import Mathlib.Data.List.Sort

/-!
# The text of the key store

`parse_store` of the key importer, and what `merge_store` makes of the text of a store: the
lines of the names that are not there yet, behind the text without its last newlines. The
strings are Python's, a sequence of characters, and so is their vocabulary: what a line is,
what a field is, and which texts `int` reads in base 16.

Merging is a function of what is in the file (`AssetResolver.KeyStore.merge`). The parser
reads the written text as the old one and then the new lines, because a newline ends
whatever line the old text ended in (`AssetResolver.KeyStore.parseStore_append`); so the
mapping afterwards is the union, and merging once more finds nothing to add
(`AssetResolver.KeyStore.merge_of_accepted`).
-/

namespace AssetResolver

namespace KeyStore

/-- A Python string. -/
abbrev Text := List Char

/-! ### Reading and writing text -/

/-- What reading in text mode makes of the ends of lines. -/
def universalNewlines : Text → Text
  | [] => []
  | c :: rest =>
    if c = '\r' then
      if rest.head? = some '\n' then universalNewlines rest else '\n' :: universalNewlines rest
    else c :: universalNewlines rest

/-- `read_text`: `none` is a `UnicodeDecodeError`. -/
def readText (bytes : List UInt8) : Option Text :=
  (fromUtf8 bytes).map fun s => universalNewlines s.toList

/-- What `write` puts into a file. -/
def writeText (text : Text) : List UInt8 := osString (String.ofList text)

/-- The characters `splitlines` splits at. -/
def isLineBoundary (c : Char) : Bool :=
  c ∈ ['\n', '\x0b', '\x0c', '\r', '\x1c', '\x1d', '\x1e', '\x85', '\u2028', '\u2029']

/-- `\r\n` ends one line. -/
def joinCrLf : Text → Text
  | [] => []
  | c :: rest => if c = '\r' ∧ rest.head? = some '\n' then joinCrLf rest else c :: joinCrLf rest

/-- `str.splitlines`. -/
def splitlines (text : Text) : List Text :=
  let pieces := (joinCrLf text).splitOnP isLineBoundary
  if pieces.getLast? = some [] then pieces.dropLast else pieces

/-- The characters `split` splits at. -/
def isSpace (c : Char) : Bool :=
  c ∈ ['\t', '\n', '\x0b', '\x0c', '\r', '\x1c', '\x1d', '\x1e', '\x1f', ' ', '\x85', '\u00a0',
    '\u1680', '\u2000', '\u2001', '\u2002', '\u2003', '\u2004', '\u2005', '\u2006', '\u2007',
    '\u2008', '\u2009', '\u200a', '\u2028', '\u2029', '\u202f', '\u205f', '\u3000']

/-- `str.split`. -/
def split (line : Text) : List Text := (line.splitOnP isSpace).filter (· ≠ [])

example : splitlines "a\r\nb\n\nc\u0085".toList = ["a".toList, "b".toList, [], "c".toList] := by
  decide +kernel

/-! ### Numbers in base 16 -/

/-- The zeros of the decimal digits of Unicode 14.0; the nine others follow each of them. -/
def decimalZeros : List ℕ :=
  [0x0030, 0x0660, 0x06f0, 0x07c0, 0x0966, 0x09e6, 0x0a66, 0x0ae6, 0x0b66, 0x0be6, 0x0c66, 0x0ce6,
    0x0d66, 0x0de6, 0x0e50, 0x0ed0, 0x0f20, 0x1040, 0x1090, 0x17e0, 0x1810, 0x1946, 0x19d0, 0x1a80,
    0x1a90, 0x1b50, 0x1bb0, 0x1c40, 0x1c50, 0xa620, 0xa8d0, 0xa900, 0xa9d0, 0xa9f0, 0xaa50, 0xabf0,
    0xff10, 0x104a0, 0x10d30, 0x11066, 0x110f0, 0x11136, 0x111d0, 0x112f0, 0x11450, 0x114d0,
    0x11650, 0x116c0, 0x11730, 0x118e0, 0x11950, 0x11c50, 0x11d50, 0x11da0, 0x16a60, 0x16ac0,
    0x16b50, 0x1d7ce, 0x1d7d8, 0x1d7e2, 0x1d7ec, 0x1d7f6, 0x1e140, 0x1e2f0, 0x1e950, 0x1fbf0]

/-- A decimal digit of any script is read as the one of ASCII. -/
def toAsciiDigit (c : Char) : Char :=
  if c.toNat < 128 then c
  else
    match decimalZeros.find? fun first => first ≤ c.toNat ∧ c.toNat < first + 10 with
    | some first => Char.ofNat (0x30 + (c.toNat - first))
    | none => '?'

/-- A hexadecimal digit. -/
def isHexDigit (c : Char) : Bool := c ∈ "0123456789abcdefABCDEF".toList

/-- Digits, with single underscores between them. -/
def digitsFrom (afterDigit : Bool) : Text → Bool
  | [] => afterDigit
  | c :: rest =>
    if c = '_' then afterDigit && digitsFrom false rest
    else isHexDigit c && digitsFrom true rest

/-- The sign of a number. -/
def dropSign (text : Text) : Text :=
  if text.head? = some '+' ∨ text.head? = some '-' then text.tail else text

/-- The prefix of a number in base 16, with the underscore that may follow it. -/
def dropBase (text : Text) : Text :=
  if text.head? = some '0' ∧ (text.tail.head? = some 'x' ∨ text.tail.head? = some 'X') then
    if (text.drop 2).head? = some '_' then text.drop 3 else text.drop 2
  else text

/-- What `int(text, 16)` reads, of a text without spaces. -/
def isInt16 (text : Text) : Bool := digitsFrom false (dropBase (dropSign (text.map toAsciiDigit)))

example : ["0x_1", "+a_F", "-\u0661", "0X1"].map (fun s => isInt16 s.toList) =
    [true, true, true, true] := by decide +kernel

example : ["0x__1", "_1", "1_", "+-1", "0x", "", "g"].map (fun s => isInt16 s.toList) =
    [false, false, false, false, false, false, false] := by decide +kernel

/-! ### The parser -/

/-- The names and their keys. -/
abbrev Keys := AList fun _ : Text => Text

/-- What `merge_store` raises. -/
inductive StoreError where
  /-- `UnicodeDecodeError`, which is a `ValueError`. -/
  | unicodeDecodeError : StoreError
  /-- `ValueError('invalid existing key-store line')`. -/
  | invalidLine : StoreError
  /-- The `ValueError` of `int`. -/
  | invalidLiteral (text : Text) : StoreError
  /-- `ValueError(f'conflicting key name {name}')`. -/
  | conflict (name : Text) : StoreError
  /-- `OSError`. -/
  | os (text : String) : StoreError
  deriving DecidableEq

/-- The error is a `ValueError`. -/
def StoreError.isValueError : StoreError → Bool
  | .os _ => false
  | _ => true

/-- `str.upper`. Of the characters of a number only the letters of ASCII have a case. -/
def upper (text : Text) : Text := text.map Char.toUpper

/-- What a line says: nothing, or a name and a key. -/
def parseLine (line : Text) : Except StoreError (Option (Text × Text)) :=
  match split line with
  | [] => .ok none
  | name :: rest =>
    if name.head? = some '#' then .ok none
    else
      match rest with
      | [] => .error .invalidLine
      | key :: _ =>
        if name.length ≠ 16 ∨ key.length ≠ 32 then .error .invalidLine
        else if isInt16 name = false then .error (.invalidLiteral name)
        else if isInt16 key = false then .error (.invalidLiteral key)
        else .ok (some (upper name, upper key))

/-- The loop over the lines. -/
def parseLines (result : Keys) : List Text → Except StoreError Keys
  | [] => .ok result
  | line :: lines =>
    match parseLine line with
    | .error e => .error e
    | .ok none => parseLines result lines
    | .ok (some (name, key)) => parseLines (result.insert name key) lines

/-- `parse_store`. -/
def parseStore (text : Text) : Except StoreError Keys := parseLines ∅ (splitlines text)

/-! ### Merging -/

/-- The digits of the names and keys that are added. -/
def upperHexDigits : Text := "0123456789ABCDEF".toList

/-- A text of so many hexadecimal digits, in upper case. -/
structure HexText (size : ℕ) where
  /-- The digits. -/
  text : Text
  length_eq : text.length = size
  digits : ∀ c ∈ text, c ∈ upperHexDigits
  deriving DecidableEq

theorem HexText.ext_text {size : ℕ} {hex hex' : HexText size} (h : hex.text = hex'.text) :
    hex = hex' := by
  cases hex
  cases hex'
  congr

/-- The lowest digits of a number in base 16, the most significant one first. -/
def upperHex : ℕ → ℕ → Text
  | 0, _ => []
  | width + 1, n => upperHex width (n / 16) ++ [upperHexDigits.getD (n % 16) '0']

theorem length_upperHex (width n : ℕ) : (upperHex width n).length = width := by
  induction width generalizing n with
  | zero => rfl
  | succ width ih => rw [upperHex, List.length_append, ih, List.length_singleton]

theorem mem_upperHex (width n : ℕ) : ∀ c ∈ upperHex width n, c ∈ upperHexDigits := by
  induction width generalizing n with
  | zero => exact fun c hc => absurd hc List.not_mem_nil
  | succ width ih =>
    intro c hc
    have hlt : n % 16 < upperHexDigits.length := Nat.mod_lt n (by decide)
    rcases List.mem_append.mp hc with hc | hc
    · exact ih (n / 16) c hc
    · rw [List.mem_singleton.mp hc, List.getD_eq_getElem _ _ hlt]
      exact List.getElem_mem hlt

/-- `f'{n:016X}'`, of a number of so many digits. -/
def HexText.ofNat (size n : ℕ) : HexText size :=
  ⟨upperHex size n, length_upperHex size n, mem_upperHex size n⟩

/-- `.hex().upper()`: two digits for each byte. -/
def upperHexBytes (bytes : List UInt8) : Text := bytes.flatMap fun b => upperHex 2 b.toNat

theorem length_upperHexBytes (bytes : List UInt8) :
    (upperHexBytes bytes).length = 2 * bytes.length := by
  induction bytes with
  | nil => rfl
  | cons b bytes ih =>
    have hcons : upperHexBytes (b :: bytes) = upperHex 2 b.toNat ++ upperHexBytes bytes := rfl
    rw [hcons, List.length_append, length_upperHex, ih, List.length_cons]
    omega

/-- `.hex().upper()` of sixteen bytes. -/
def HexText.ofBytes (bytes : List UInt8) (h : bytes.length = 16) : HexText 32 where
  text := upperHexBytes bytes
  length_eq := by rw [length_upperHexBytes, h]
  digits c hc := by
    obtain ⟨b, -, hb⟩ := List.mem_flatMap.mp hc
    exact mem_upperHex 2 b.toNat c hb

/-- `additions`: a mapping from names to keys. -/
structure Additions where
  /-- The pairs, in the order of the mapping. -/
  entries : List (HexText 16 × HexText 32)
  nodup : (entries.map fun e => e.1.text).Nodup
  deriving DecidableEq

/-- `additions[name]`. -/
def Additions.lookup (additions : Additions) (name : Text) : Option Text :=
  (additions.entries.find? fun e => e.1.text = name).map fun e => e.2.text

/-- The first name whose key is another one in the store. -/
def conflicting (existing : Keys) (additions : Additions) : Option Text :=
  (additions.entries.find? fun e =>
    (existing.lookup e.1.text).any fun key => key ≠ e.2.text).map fun e => e.1.text

/-- `sorted(additions.keys() - existing.keys())`. -/
def absentNames (existing : Keys) (additions : Additions) : List Text :=
  ((additions.entries.map fun e => e.1.text).filter fun name =>
    existing.lookup name = none).insertionSort (· ≤ ·)

/-- The line of a name. -/
def storeLine (additions : Additions) (name : Text) : Text :=
  name ++ ' ' :: (additions.lookup name).getD []

/-- `suffix`. -/
def suffix (additions : Additions) (added : List Text) : Text :=
  added.flatMap fun name => storeLine additions name ++ ['\n']

/-- `original.rstrip('\n')`. -/
def rstripNewlines (text : Text) : Text := text.rdropWhile (· = '\n')

/-- The text that is written. -/
def newText (original : Text) (additions : Additions) (added : List Text) : Text :=
  rstripNewlines original ++ '\n' :: suffix additions added

/-- `original`: the text of the store, of a missing one the empty text. -/
def storeText : Option (List UInt8) → Option Text
  | none => some []
  | some bytes => readText bytes

/-- What `merge_store` decides when it has the text: the names that are added, and the new
text if there are any. -/
def decideMerge (original : Text) (additions : Additions) :
    Except StoreError (List Text × Option Text) := do
  let existing ← parseStore original
  match conflicting existing additions with
  | some name => .error (.conflict name)
  | none =>
    let added := absentNames existing additions
    return (added, if added = [] then none else some (newText original additions added))

/-- **What a merge does to the content of the store**, nothing else happening meanwhile. -/
def merge (before : Option (List UInt8)) (additions : Additions) :
    Except StoreError (List Text) × Option (List UInt8) :=
  match storeText before with
  | none => (.error .unicodeDecodeError, before)
  | some original =>
    match decideMerge original additions with
    | .error e => (.error e, before)
    | .ok (added, none) => (.ok added, before)
    | .ok (added, some text) => (.ok added, some (writeText text))

/-! ### Texts and their bytes -/

/-- Text that was read has no carriage return. -/
theorem notMem_universalNewlines (text : Text) : '\r' ∉ universalNewlines text := by
  induction text with
  | nil => exact List.not_mem_nil
  | cons c rest ih =>
    unfold universalNewlines
    split_ifs with hc hnl
    · exact ih
    · exact List.not_mem_cons_of_ne_of_not_mem (by decide) ih
    · exact List.not_mem_cons_of_ne_of_not_mem (Ne.symm hc) ih

theorem universalNewlines_of_notMem {text : Text} (h : '\r' ∉ text) :
    universalNewlines text = text := by
  induction text with
  | nil => rfl
  | cons c rest ih =>
    rw [List.mem_cons, not_or] at h
    rw [universalNewlines, if_neg (Ne.symm h.1), ih h.2]

theorem joinCrLf_of_notMem {text : Text} (h : '\r' ∉ text) : joinCrLf text = text := by
  induction text with
  | nil => rfl
  | cons c rest ih =>
    rw [List.mem_cons, not_or] at h
    rw [joinCrLf, if_neg fun hc => h.1 hc.1.symm, ih h.2]

/-- **What is written is what is read**, as long as it has no carriage return. -/
theorem readText_writeText {text : Text} (h : '\r' ∉ text) :
    readText (writeText text) = some text := by
  rw [readText, writeText, fromUtf8_osString]
  change some (universalNewlines (String.ofList text).toList) = some text
  rw [String.toList_ofList, universalNewlines_of_notMem h]

theorem notMem_of_storeText {before : Option (List UInt8)} {text : Text}
    (h : storeText before = some text) : '\r' ∉ text := by
  cases before with
  | none =>
    obtain rfl := Option.some.inj h
    exact List.not_mem_nil
  | some bytes =>
    obtain ⟨s, -, rfl⟩ := Option.map_eq_some_iff.mp h
    exact notMem_universalNewlines _

/-! ### Parsing the lines one after the other -/

theorem parseLines_append (lines later : List Text) :
    ∀ result, parseLines result (lines ++ later) =
      (parseLines result lines).bind fun r => parseLines r later := by
  induction lines with
  | nil => exact fun _ => rfl
  | cons line lines ih =>
    intro result
    rw [List.cons_append, parseLines, parseLines]
    cases parseLine line with
    | error e => rfl
    | ok entry =>
      cases entry with
      | none => exact ih result
      | some pair => exact ih _

/-- An empty line says nothing. -/
theorem parseLines_nonempty (lines : List Text) :
    ∀ result, parseLines result (lines.filter (· ≠ [])) = parseLines result lines := by
  induction lines with
  | nil => exact fun _ => rfl
  | cons line lines ih =>
    intro result
    by_cases hline : line = []
    · subst hline
      rw [List.filter_cons_of_neg (by simp), ih]
      rfl
    · rw [List.filter_cons_of_pos (by simpa using hline), parseLines, parseLines]
      cases parseLine line with
      | error e => rfl
      | ok entry =>
        cases entry with
        | none => exact ih result
        | some pair => exact ih _

/-- The empty piece that `splitlines` drops says nothing. -/
theorem parseLines_splitlines {text : Text} (h : '\r' ∉ text) (result : Keys) :
    parseLines result (splitlines text) = parseLines result (text.splitOnP isLineBoundary) := by
  unfold splitlines
  rw [joinCrLf_of_notMem h]
  dsimp only
  split_ifs with hlast
  · have hpieces := List.dropLast_append_getLast? _ hlast
    rw [← parseLines_nonempty, ← parseLines_nonempty (text.splitOnP isLineBoundary), ← hpieces]
    simp
  · rfl

/-- **A newline separates what is parsed.** -/
theorem parseStore_append {text later : Text} (h : '\r' ∉ text) (hlater : '\r' ∉ later) :
    parseStore (text ++ '\n' :: later) =
      (parseStore text).bind fun r => parseLines r (later.splitOnP isLineBoundary) := by
  have hall : '\r' ∉ text ++ '\n' :: later := by
    rw [List.mem_append, List.mem_cons]
    rintro (hmem | hmem | hmem)
    · exact h hmem
    · exact absurd hmem (by decide)
    · exact hlater hmem
  unfold parseStore
  rw [parseLines_splitlines hall, parseLines_splitlines h,
    List.splitOnP_append_cons _ _ (by decide), parseLines_append]

/-- The newlines at the end of a text say nothing. -/
theorem parseStore_rstripNewlines {text : Text} (h : '\r' ∉ text) :
    parseStore (rstripNewlines text) = parseStore text := by
  induction text using List.reverseRecOn with
  | nil => rfl
  | append_singleton text c ih =>
    rw [List.mem_append, List.mem_singleton, not_or] at h
    by_cases hc : c = '\n'
    · subst hc
      rw [rstripNewlines, List.rdropWhile_concat_pos _ _ _ (by decide), parseStore_append h.1
        List.not_mem_nil]
      change parseStore (rstripNewlines text) = _
      rw [ih h.1]
      cases parseStore text with
      | error e => rfl
      | ok r => rfl
    · rw [rstripNewlines, List.rdropWhile_concat_neg _ _ _ (by simpa using hc)]

/-! ### The lines that are added -/

/-- What is known of a digit. -/
theorem of_mem_upperHexDigits : ∀ c ∈ upperHexDigits, isSpace c = false ∧ isLineBoundary c = false ∧
    c ≠ '#' ∧ c ≠ '+' ∧ c ≠ '-' ∧ c ≠ '_' ∧ c ≠ 'x' ∧ c ≠ 'X' ∧ c ≠ '\r' ∧ c ≠ '\n' ∧
    toAsciiDigit c = c ∧ isHexDigit c = true ∧ c.toUpper = c :=
  -- digit by digit: characters are many, and these are sixteen
  List.all_iff_forall_prop.mp (by decide +kernel)

variable {additions : Additions} {existing : Keys} {size : ℕ}

theorem digitsFrom_of_digits {text : Text} (h : ∀ c ∈ text, c ∈ upperHexDigits) :
    digitsFrom true text = true := by
  induction text with
  | nil => rfl
  | cons c text ih =>
    obtain ⟨-, -, -, -, -, hunderscore, -, -, -, -, -, hdigit, -⟩ :=
      of_mem_upperHexDigits c (h c List.mem_cons_self)
    rw [digitsFrom, if_neg hunderscore, hdigit, ih fun d hd => h d (List.mem_cons_of_mem _ hd)]
    rfl

namespace HexText

variable (hex : HexText (size + 1))

theorem eq_cons : ∃ c rest, hex.text = c :: rest ∧ c ∈ upperHexDigits ∧
    ∀ d ∈ rest, d ∈ upperHexDigits := by
  obtain ⟨text, hlength, hdigits⟩ := hex
  rcases text with - | ⟨c, rest⟩
  · cases hlength
  · exact ⟨c, rest, rfl, hdigits c List.mem_cons_self, fun d hd =>
      hdigits d (List.mem_cons_of_mem _ hd)⟩

theorem upper_text : upper hex.text = hex.text := by
  have hupper : ∀ c ∈ hex.text, c.toUpper = c := fun c hc =>
    (of_mem_upperHexDigits c (hex.digits c hc)).2.2.2.2.2.2.2.2.2.2.2.2
  exact (List.map_congr_left hupper).trans (List.map_id _)

/-- **`int` reads the digits.** -/
theorem isInt16_text : isInt16 hex.text = true := by
  have hascii : hex.text.map toAsciiDigit = hex.text := by
    have hsame : ∀ c ∈ hex.text, toAsciiDigit c = c := fun c hc =>
      (of_mem_upperHexDigits c (hex.digits c hc)).2.2.2.2.2.2.2.2.2.2.1
    exact (List.map_congr_left hsame).trans (List.map_id _)
  obtain ⟨c, rest, htext, hc, hrest⟩ := hex.eq_cons
  obtain ⟨-, -, -, hplus, hminus, hunderscore, -, -, -, -, -, hdigit, -⟩ :=
    of_mem_upperHexDigits c hc
  have hsign : dropSign (c :: rest) = c :: rest := by
    rw [dropSign, if_neg]
    simp [hplus, hminus]
  have hbase : dropBase (c :: rest) = c :: rest := by
    rw [dropBase, if_neg]
    rintro ⟨-, hx⟩
    rcases rest with - | ⟨d, rest⟩
    · simp at hx
    · obtain ⟨-, -, -, -, -, -, hx', hX', -⟩ := of_mem_upperHexDigits d (hrest d List.mem_cons_self)
      simp [hx', hX'] at hx
  unfold isInt16
  rw [hascii, htext, hsign, hbase, digitsFrom, if_neg hunderscore, hdigit,
    digitsFrom_of_digits hrest]
  rfl

end HexText

/-- **The line of a name is read back.** -/
theorem parseLine_hex (name : HexText 16) (key : HexText 32) :
    parseLine (name.text ++ ' ' :: key.text) = .ok (some (name.text, key.text)) := by
  have hname : ∀ c ∈ name.text, isSpace c = false := fun c hc =>
    (of_mem_upperHexDigits c (name.digits c hc)).1
  have hkey : ∀ c ∈ key.text, isSpace c = false := fun c hc =>
    (of_mem_upperHexDigits c (key.digits c hc)).1
  obtain ⟨c, rest, htext, hc, -⟩ := name.eq_cons
  obtain ⟨d, rest', htext', -, -⟩ := key.eq_cons
  have hsplit : split (name.text ++ ' ' :: key.text) = [name.text, key.text] := by
    rw [split, List.splitOnP_append_cons _ _ (by decide), List.splitOnP_eq_singleton hname,
      List.splitOnP_eq_singleton hkey, htext, htext']
    rfl
  have hhash : name.text.head? ≠ some '#' := by
    rw [htext, List.head?_cons]
    intro h
    exact (of_mem_upperHexDigits c hc).2.2.1 (Option.some.inj h)
  unfold parseLine
  rw [hsplit]
  dsimp only
  rw [if_neg hhash, if_neg (by simp [name.length_eq, key.length_eq]),
    if_neg (by simp [name.isInt16_text]), if_neg (by simp [key.isInt16_text]), name.upper_text,
    key.upper_text]

/-- A name that has a key is one of the pairs. -/
theorem Additions.exists_of_mem {name : Text} (h : name ∈ additions.entries.map fun e => e.1.text) :
    ∃ e ∈ additions.entries, e.1.text = name ∧ additions.lookup name = some e.2.text := by
  obtain ⟨e, he, rfl⟩ := List.mem_map.mp h
  cases hfind : additions.entries.find? fun e' => e'.1.text = e.1.text with
  | none =>
    exact absurd (List.find?_eq_none.mp hfind e he) (by simp)
  | some e' =>
    have hname : e'.1.text = e.1.text := by simpa using List.find?_some hfind
    exact ⟨e', List.mem_of_find?_eq_some hfind, hname, by rw [Additions.lookup, hfind]; rfl⟩

theorem Additions.mem_of_lookup {name key : Text} (h : additions.lookup name = some key) :
    name ∈ additions.entries.map fun e => e.1.text := by
  obtain ⟨e, he, -⟩ := Option.map_eq_some_iff.mp h
  have hname : e.1.text = name := by simpa using List.find?_some he
  exact List.mem_map.mpr ⟨e, List.mem_of_find?_eq_some he, hname⟩

/-- **The names that are added** are those that were absent. -/
theorem mem_absentNames {name : Text} :
    name ∈ absentNames existing additions ↔
      (additions.lookup name).isSome ∧ existing.lookup name = none := by
  rw [absentNames, List.mem_insertionSort, List.mem_filter, decide_eq_true_eq]
  refine and_congr_left fun _ => ⟨fun h => ?_, fun h => ?_⟩
  · obtain ⟨e, -, -, hlookup⟩ := Additions.exists_of_mem h
    rw [hlookup]
    rfl
  · obtain ⟨key, hkey⟩ := Option.isSome_iff_exists.mp h
    exact Additions.mem_of_lookup hkey

theorem nodup_absentNames : (absentNames existing additions).Nodup :=
  (List.perm_insertionSort _ _).nodup_iff.mpr (additions.nodup.filter _)

/-- The mapping after the names have been added. -/
def insertAll (additions : Additions) (existing : Keys) (added : List Text) : Keys :=
  added.foldl (fun keys name => keys.insert name ((additions.lookup name).getD [])) existing

theorem lookup_insertAll (added : List Text) (name : Text) :
    ∀ existing, (insertAll additions existing added).lookup name =
      if name ∈ added then some ((additions.lookup name).getD []) else existing.lookup name := by
  induction added with
  | nil => exact fun _ => rfl
  | cons first added ih =>
    intro existing
    change (insertAll additions (existing.insert first _) added).lookup name = _
    rw [ih]
    by_cases hlater : name ∈ added
    · rw [if_pos hlater, if_pos (List.mem_cons_of_mem _ hlater)]
    · rw [if_neg hlater]
      by_cases hfirst : name = first
      · subst hfirst
        rw [if_pos List.mem_cons_self, AList.lookup_insert]
      · rw [AList.lookup_insert_ne hfirst, if_neg]
        rw [List.mem_cons, not_or]
        exact ⟨hfirst, hlater⟩

/-- **The lines that are added are read back as their names and keys.** -/
theorem parseLines_suffix {added : List Text}
    (h : ∀ name ∈ added, name ∈ additions.entries.map fun e => e.1.text) :
    ∀ existing, parseLines existing ((suffix additions added).splitOnP isLineBoundary) =
      .ok (insertAll additions existing added) := by
  induction added with
  | nil => exact fun _ => rfl
  | cons name added ih =>
    intro existing
    obtain ⟨e, -, rfl, hlookup⟩ := Additions.exists_of_mem (h name List.mem_cons_self)
    have hline : storeLine additions e.1.text = e.1.text ++ ' ' :: e.2.text := by
      rw [storeLine, hlookup]
      rfl
    have hboundary : ∀ c ∈ e.1.text ++ ' ' :: e.2.text, isLineBoundary c = false := by
      intro c hc
      rcases List.mem_append.mp hc with hc | hc
      · exact (of_mem_upperHexDigits c (e.1.digits c hc)).2.1
      · rcases List.mem_cons.mp hc with rfl | hc
        · decide
        · exact (of_mem_upperHexDigits c (e.2.digits c hc)).2.1
    have hsuffix : suffix additions (e.1.text :: added) =
        (e.1.text ++ ' ' :: e.2.text) ++ '\n' :: suffix additions added := by
      rw [suffix, List.flatMap_cons, hline, List.append_assoc]
      rfl
    rw [hsuffix, List.splitOnP_append_cons _ _ (by decide), List.splitOnP_eq_singleton hboundary,
      List.singleton_append, parseLines, parseLine_hex]
    dsimp only
    rw [ih fun name hname => h name (List.mem_cons_of_mem _ hname)]
    change _ = Except.ok (insertAll additions (existing.insert _ _) added)
    rw [hlookup]
    rfl

/-! ### What a merge does -/

/-- No name has another key in the store. -/
def Agrees (existing : Keys) (additions : Additions) : Prop :=
  ∀ name key key', additions.lookup name = some key → existing.lookup name = some key' → key' = key

/-- The pairs of a mapping are what its names have. -/
theorem Additions.lookup_of_mem {e : HexText 16 × HexText 32} (h : e ∈ additions.entries) :
    additions.lookup e.1.text = some e.2.text := by
  obtain ⟨e', he', hname, hlookup⟩ := Additions.exists_of_mem (List.mem_map_of_mem h)
  obtain rfl : e' = e := List.inj_on_of_nodup_map additions.nodup he' h hname
  exact hlookup

theorem conflicting_eq_none_iff :
    conflicting existing additions = none ↔ Agrees existing additions := by
  rw [conflicting, Option.map_eq_none_iff, List.find?_eq_none]
  constructor
  · intro h name key key' hkey hkey'
    obtain ⟨e, he, rfl, hlookup⟩ := Additions.exists_of_mem (Additions.mem_of_lookup hkey)
    obtain rfl := Option.some.inj (hlookup.symm.trans hkey)
    simpa [hkey'] using h e he
  · intro h e he
    cases hlookup : existing.lookup e.1.text with
    | none => simp
    | some key' => simp [h _ _ _ (Additions.lookup_of_mem he) hlookup]

theorem mem_of_conflicting {name : Text} (h : conflicting existing additions = some name) :
    ∃ key key', additions.lookup name = some key ∧ existing.lookup name = some key' ∧
      key' ≠ key := by
  obtain ⟨e, he, rfl⟩ := Option.map_eq_some_iff.mp h
  have hmem := List.mem_of_find?_eq_some he
  have hdiffers := List.find?_some he
  cases hlookup : existing.lookup e.1.text with
  | none => simp [hlookup] at hdiffers
  | some key' =>
    exact ⟨e.2.text, key', Additions.lookup_of_mem hmem, rfl, by simpa [hlookup] using hdiffers⟩

theorem decideMerge_of_agrees {text : Text} (hparse : parseStore text = .ok existing)
    (hagrees : Agrees existing additions) :
    decideMerge text additions =
      .ok (absentNames existing additions,
        if absentNames existing additions = [] then none
        else some (newText text additions (absentNames existing additions))) := by
  unfold decideMerge
  rw [hparse]
  change (match conflicting existing additions with
    | some name => _
    | none => _) = _
  rw [conflicting_eq_none_iff.mpr hagrees]
  rfl

/-- **There is a new text if some name is added.** -/
theorem added_ne_nil {original text : Text} {added : List Text}
    (h : decideMerge original additions = .ok (added, some text)) : added ≠ [] := by
  unfold decideMerge at h
  cases hparse : parseStore original with
  | error e =>
    rw [hparse] at h
    cases h
  | ok existing =>
    rw [hparse] at h
    change (match conflicting existing additions with
      | some name => Except.error (StoreError.conflict name)
      | none => Except.ok (absentNames existing additions, _)) = _ at h
    cases hname : conflicting existing additions with
    | some name =>
      rw [hname] at h
      cases h
    | none =>
      rw [hname] at h
      obtain ⟨rfl, htext⟩ := Prod.mk.inj (Except.ok.inj h)
      intro hnil
      rw [if_pos hnil] at htext
      cases htext

theorem notMem_suffix {added : List Text}
    (h : ∀ name ∈ added, name ∈ additions.entries.map fun e => e.1.text) :
    '\r' ∉ suffix additions added := by
  intro hmem
  obtain ⟨name, hname, hmem⟩ := List.mem_flatMap.mp hmem
  obtain ⟨e, -, rfl, hlookup⟩ := Additions.exists_of_mem (h name hname)
  have hdigit : ∀ c ∈ upperHexDigits, c ≠ '\r' := fun c hc =>
    (of_mem_upperHexDigits c hc).2.2.2.2.2.2.2.2.1
  rw [storeLine, hlookup] at hmem
  rcases List.mem_append.mp hmem with hmem | hmem
  · rcases List.mem_append.mp hmem with hmem | hmem
    · exact hdigit _ (e.1.digits _ hmem) rfl
    · rcases List.mem_cons.mp hmem with hmem | hmem
      · exact absurd hmem (by decide)
      · exact hdigit _ (e.2.digits _ hmem) rfl
  · exact absurd hmem (by decide)

theorem names_of_absentNames {name : Text} (h : name ∈ absentNames existing additions) :
    name ∈ additions.entries.map fun e => e.1.text := by
  obtain ⟨key, hkey⟩ := Option.isSome_iff_exists.mp (mem_absentNames.mp h).1
  exact Additions.mem_of_lookup hkey

theorem notMem_newText {text : Text} (h : '\r' ∉ text) :
    '\r' ∉ newText text additions (absentNames existing additions) := by
  have hsuffix : '\r' ∉ suffix additions (absentNames existing additions) :=
    notMem_suffix fun name hname => names_of_absentNames hname
  rw [newText, List.mem_append, List.mem_cons]
  rintro (hmem | hmem | hmem)
  · exact h ((List.rdropWhile_prefix _ _).subset hmem)
  · exact absurd hmem (by decide)
  · exact hsuffix hmem

/-- **The new text says what the old one says, and the new lines.** -/
theorem parseStore_newText {text : Text} (h : '\r' ∉ text)
    (hparse : parseStore text = .ok existing) :
    parseStore (newText text additions (absentNames existing additions)) =
      .ok (insertAll additions existing (absentNames existing additions)) := by
  have hnames : ∀ name ∈ absentNames existing additions,
      name ∈ additions.entries.map fun e => e.1.text := fun name => names_of_absentNames
  have hstripped : '\r' ∉ rstripNewlines text := fun hmem =>
    h ((List.rdropWhile_prefix _ _).subset hmem)
  rw [newText, parseStore_append hstripped (notMem_suffix hnames), parseStore_rstripNewlines h,
    hparse]
  exact parseLines_suffix hnames existing

/-- **The mapping afterwards is the union.** -/
theorem lookup_union (hagrees : Agrees existing additions) (name : Text) :
    (insertAll additions existing (absentNames existing additions)).lookup name =
      (additions.lookup name).or (existing.lookup name) := by
  rw [lookup_insertAll]
  split_ifs with habsent
  · obtain ⟨hsome, -⟩ := mem_absentNames.mp habsent
    obtain ⟨key, hkey⟩ := Option.isSome_iff_exists.mp hsome
    rw [hkey]
    rfl
  · cases hkey : additions.lookup name with
    | none => rfl
    | some key =>
      cases hkey' : existing.lookup name with
      | none => exact absurd (mem_absentNames.mpr ⟨by rw [hkey]; rfl, hkey'⟩) habsent
      | some key' =>
        rw [hagrees name key key' hkey hkey']
        rfl

/-- The mapping afterwards has nothing to be added. -/
theorem absentNames_union {existing' : Keys}
    (h : ∀ name, existing'.lookup name = (additions.lookup name).or (existing.lookup name)) :
    absentNames existing' additions = [] := by
  refine List.eq_nil_iff_forall_not_mem.mpr fun name hname => ?_
  obtain ⟨hsome, hnone⟩ := mem_absentNames.mp hname
  obtain ⟨key, hkey⟩ := Option.isSome_iff_exists.mp hsome
  rw [h, hkey] at hnone
  cases hnone

theorem agrees_union {existing' : Keys}
    (h : ∀ name, existing'.lookup name = (additions.lookup name).or (existing.lookup name)) :
    Agrees existing' additions := by
  intro name key key' hkey hkey'
  rw [h, hkey] at hkey'
  exact (Option.some.inj hkey').symm

/-- A store that has everything is left as it is. -/
theorem merge_of_nothing {before : Option (List UInt8)} {text : Text}
    (htext : storeText before = some text) (hparse : parseStore text = .ok existing)
    (hagrees : Agrees existing additions) (hnone : absentNames existing additions = []) :
    merge before additions = (.ok [], before) := by
  rw [merge, htext]
  dsimp only
  rw [decideMerge_of_agrees hparse hagrees, hnone]
  rfl

/-- **What a merge without a conflict does.** The store then says the union, its old text
up to the last newlines comes first, the names that are returned are those that were absent,
and merging again adds nothing. -/
theorem merge_of_accepted {before : Option (List UInt8)} {text : Text}
    (htext : storeText before = some text) (hparse : parseStore text = .ok existing)
    (hagrees : Agrees existing additions) :
    ∃ after text' existing',
      merge before additions = (.ok (absentNames existing additions), after) ∧
      storeText after = some text' ∧ parseStore text' = .ok existing' ∧
      (∀ name, existing'.lookup name = (additions.lookup name).or (existing.lookup name)) ∧
      rstripNewlines text <+: text' ∧ merge after additions = (.ok [], after) := by
  by_cases hnone : absentNames existing additions = []
  · have hmerge := merge_of_nothing htext hparse hagrees hnone
    have hunion := lookup_union hagrees
    rw [hnone] at hunion
    exact ⟨before, text, existing, by rw [hnone]; exact hmerge, htext, hparse, hunion,
      List.rdropWhile_prefix _ _, hmerge⟩
  · have htext' : storeText (some (writeText (newText text additions
        (absentNames existing additions)))) =
        some (newText text additions (absentNames existing additions)) :=
      readText_writeText (notMem_newText (notMem_of_storeText htext))
    have hparse' : parseStore (newText text additions (absentNames existing additions)) =
        .ok (insertAll additions existing (absentNames existing additions)) :=
      parseStore_newText (notMem_of_storeText htext) hparse
    have hunion := lookup_union hagrees
    refine ⟨_, _, _, ?_, htext', hparse', hunion, List.prefix_append _ _, ?_⟩
    · rw [merge, htext]
      dsimp only
      rw [decideMerge_of_agrees hparse hagrees, if_neg hnone]
    · exact merge_of_nothing htext' hparse' (agrees_union hunion) (absentNames_union hunion)

/-- **What a merge with a conflict does**: nothing but raise. -/
theorem merge_of_conflict {before : Option (List UInt8)} {text : Text}
    (htext : storeText before = some text) (hparse : parseStore text = .ok existing)
    (hconflict : ¬Agrees existing additions) :
    ∃ name, merge before additions = (.error (.conflict name), before) ∧
      ∃ key key', additions.lookup name = some key ∧ existing.lookup name = some key' ∧
        key' ≠ key := by
  cases hname : conflicting existing additions with
  | none => exact absurd (conflicting_eq_none_iff.mp hname) hconflict
  | some name =>
    refine ⟨name, ?_, mem_of_conflicting hname⟩
    rw [merge, htext]
    dsimp only
    have hdecide : decideMerge text additions = .error (.conflict name) := by
      unfold decideMerge
      rw [hparse]
      change (match conflicting existing additions with
        | some name => _
        | none => _) = _
      rw [hname]
    rw [hdecide]

/-! ### What a merge raises -/

theorem isValueError_of_parseLine {line : Text} {e : StoreError} (h : parseLine line = .error e) :
    e.isValueError = true := by
  unfold parseLine at h
  split at h
  · cases h
  · split at h
    · cases h
    · split at h
      · rw [← Except.error.inj h]
        rfl
      · split at h
        · rw [← Except.error.inj h]
          rfl
        · split at h
          · rw [← Except.error.inj h]
            rfl
          · split at h
            · rw [← Except.error.inj h]
              rfl
            · cases h

theorem isValueError_of_parseLines {lines : List Text} {e : StoreError} :
    ∀ {result}, parseLines result lines = .error e → e.isValueError = true := by
  induction lines with
  | nil =>
    intro result h
    cases h
  | cons line lines ih =>
    intro result h
    rw [parseLines] at h
    rcases hline : parseLine line with e' | entry
    · rw [hline] at h
      rw [← Except.error.inj h]
      exact isValueError_of_parseLine hline
    · rw [hline] at h
      rcases entry with _ | ⟨name, key⟩
      · exact ih h
      · exact ih h

/-- A store that cannot be read is left as it is. -/
theorem merge_of_unreadable {before : Option (List UInt8)}
    (h : ∀ text existing, storeText before = some text → parseStore text ≠ .ok existing) :
    ∃ e, merge before additions = (.error e, before) ∧ e.isValueError = true := by
  unfold merge
  rcases htext : storeText before with _ | text
  · exact ⟨.unicodeDecodeError, rfl, rfl⟩
  · rcases hparse : parseStore text with e | existing
    · have hdecide : decideMerge text additions = .error e := by
        unfold decideMerge
        rw [hparse]
        rfl
      refine ⟨e, ?_, isValueError_of_parseLines hparse⟩
      dsimp only
      rw [hdecide]
    · exact absurd hparse (h text existing htext)

/-! ### The order of the additions -/

section Order

variable {additions' : Additions} (hlookup : ∀ name, additions.lookup name = additions'.lookup name)
include hlookup

/-- The names that are added are sorted, so that their order is no matter. -/
theorem absentNames_congr : absentNames existing additions = absentNames existing additions' := by
  have hperm : (absentNames existing additions).Perm (absentNames existing additions') := by
    refine (List.perm_ext_iff_of_nodup nodup_absentNames nodup_absentNames).mpr fun name => ?_
    rw [mem_absentNames, mem_absentNames, hlookup]
  exact hperm.eq_of_pairwise' (List.pairwise_insertionSort _ _) (List.pairwise_insertionSort _ _)

theorem newText_congr (original : Text) (added : List Text) :
    newText original additions added = newText original additions' added := by
  have hline : ∀ name, storeLine additions name = storeLine additions' name := fun name => by
    rw [storeLine, storeLine, hlookup]
  simp only [newText, suffix, hline]

/-- **Only which keys the names have matters**, not their order, up to which conflict is
named. -/
theorem merge_congr (before : Option (List UInt8)) :
    (merge before additions).1.toOption = (merge before additions').1.toOption ∧
      (merge before additions).2 = (merge before additions').2 := by
  by_cases hread : ∃ text existing, storeText before = some text ∧ parseStore text = .ok existing
  · obtain ⟨text, existing, htext, hparse⟩ := hread
    by_cases hagrees : Agrees existing additions
    · have hagrees' : Agrees existing additions' := fun name key key' h =>
        hagrees name key key' ((hlookup name).trans h)
      simp only [merge, htext, decideMerge_of_agrees hparse hagrees,
        decideMerge_of_agrees hparse hagrees', absentNames_congr hlookup, newText_congr hlookup,
        and_self]
    · have hagrees' : ¬Agrees existing additions' := fun h => hagrees fun name key key' hkey =>
        h name key key' ((hlookup name).symm.trans hkey)
      obtain ⟨name, hmerge, -⟩ := merge_of_conflict htext hparse hagrees
      obtain ⟨name', hmerge', -⟩ := merge_of_conflict htext hparse hagrees'
      rw [hmerge, hmerge']
      exact ⟨rfl, rfl⟩
  · have hnone : ∀ text existing, storeText before = some text → parseStore text ≠ .ok existing :=
      fun text existing htext hparse => hread ⟨text, existing, htext, hparse⟩
    obtain ⟨e, hmerge, -⟩ := @merge_of_unreadable additions before hnone
    obtain ⟨e', hmerge', -⟩ := @merge_of_unreadable additions' before hnone
    rw [hmerge, hmerge']
    exact ⟨rfl, rfl⟩

end Order

end KeyStore

end AssetResolver
