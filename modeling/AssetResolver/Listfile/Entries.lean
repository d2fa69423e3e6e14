import AssetResolver.Identity
import AssetResolver.Library.KeyedTable

/-!
# Entries of a listfile

The rows of `listfile_cache.rs`, shared by the local and the community cache, and how
a listfile's text becomes a table of them.

A table has one row for each fdid and one for each lowercased path
(`AssetResolver.ListfileTable`), and every row is written by `INSERT OR REPLACE`, so a
text means the table that its lines leave one after the other
(`AssetResolver.importRows`). Lines that are no entries are passed over, and a line
that is no UTF-8 fails the whole import.

What an entry is can be said without the parser: a number in decimal digits, a semicolon
and the path (`AssetResolver.Lists`). The parser takes these lines and no others
(`AssetResolver.parseRow_eq_some_iff`).
-/

namespace AssetResolver

/-- A row. The third column, `lower_path`, is computed from the second. -/
structure ListfileRow where
  /-- The primary key. -/
  fdid : UInt32
  /-- The path, as it was listed. -/
  path : String
  deriving DecidableEq

/-- The column with the second unique index. -/
def ListfileRow.lowerPath (row : ListfileRow) : String := toAsciiLowercase row.path

/-- `listfile_entries`, and `local_listfile_entries`. -/
abbrev ListfileTable := KeyedTable ListfileRow.fdid ListfileRow.lowerPath

/-! ### Lines -/

/-- What `BufRead::lines` cuts off the end of a line besides the newline. -/
def stripCarriageReturn (line : List UInt8) : List UInt8 :=
  if line.getLast? = some 0x0d then line.dropLast else line

/-- `BufRead::lines`, less the decoding; `line` is what was read of a line so far. The
rest behind the last newline is a line unless it is empty. -/
def readLines (line : List UInt8) : List UInt8 → List (List UInt8)
  | [] => if line = [] then [] else [line]
  | b :: rest =>
    if b = 0x0a then stripCarriageReturn line :: readLines [] rest
    else readLines (line ++ [b]) rest

/-- `String::from_utf8`: bytes that are the encoding of what they decode to. -/
def fromUtf8 (bytes : List UInt8) : Option String :=
  if osString (toStringLossy bytes) = bytes then some (toStringLossy bytes) else none

/-- The bytes of a string are decoded to it. -/
theorem fromUtf8_osString (s : String) : fromUtf8 (osString s) = some s := by
  rw [fromUtf8, toStringLossy_osString, if_pos rfl]

/-- `str::split_once` at a semicolon. -/
def splitOnce : List Char → Option (List Char × List Char)
  | [] => none
  | c :: cs => if c = ';' then some ([], cs) else (splitOnce cs).map fun (a, b) => (c :: a, b)

/-- One more decimal digit of a `u32`. -/
def pushDigit (value : ℕ) (c : Char) : Option ℕ :=
  if c.isDigit then
    if 10 * value + (c.toNat - 0x30) < UInt32.size then some (10 * value + (c.toNat - 0x30))
    else none
  else none

/-- `str::parse::<u32>`: digits, behind a `+` or not. -/
def parseU32 (cs : List Char) : Option UInt32 :=
  let digits :=
    match cs with
    | '+' :: digits => digits
    | _ => cs
  if digits = [] then none else (digits.foldlM pushDigit 0).map UInt32.ofNat

/-- The entry of a line, if it is one. -/
def parseRow (line : String) : Option ListfileRow :=
  (splitOnce line.toList).bind fun (fdid, path) =>
    (parseU32 fdid).map fun fdid => ⟨fdid, String.ofList path⟩

/-! ### Lines that are entries -/

/-- **A line lists an entry**: what stands before its first semicolon is the fdid in decimal
digits, behind a `+` or not, and what stands behind it is the path. -/
def Lists (line : String) (row : ListfileRow) : Prop :=
  ∃ sign digits, (sign = [] ∨ sign = ['+']) ∧ digits ≠ [] ∧ (∀ c ∈ digits, c.isDigit) ∧
    line.toList = sign ++ digits ++ ';' :: row.path.toList ∧
    Nat.ofDigitChars 10 digits 0 = row.fdid.toNat

theorem splitOnce_eq_some_iff {cs front back : List Char} :
    splitOnce cs = some (front, back) ↔ cs = front ++ ';' :: back ∧ ';' ∉ front := by
  induction cs generalizing front with
  | nil => simp [splitOnce]
  | cons c cs ih =>
    rw [splitOnce]
    split_ifs with hc
    · subst hc
      cases front with
      | nil => simp
      | cons d front => simp +contextual [eq_comm]
    · rw [Option.map_eq_some_iff]
      constructor
      · rintro ⟨⟨front', back'⟩, hsplit, heq⟩
        obtain ⟨rfl, rfl⟩ := Prod.mk.inj heq
        obtain ⟨rfl, hnot⟩ := ih.mp hsplit
        exact ⟨rfl, by simp [hnot, Ne.symm hc]⟩
      · rintro ⟨hcs, hnot⟩
        cases front with
        | nil => exact absurd (List.cons.inj hcs).1 hc
        | cons d front =>
          obtain ⟨rfl, rfl⟩ := List.cons.inj hcs
          exact ⟨(front, back), ih.mpr ⟨rfl, fun h => hnot (List.mem_cons_of_mem _ h)⟩, rfl⟩

/-- A number does not get smaller by more digits. -/
theorem le_ofDigitChars (digits : List Char) (value : ℕ) :
    value ≤ Nat.ofDigitChars 10 digits value := by
  induction digits generalizing value with
  | nil => exact Nat.le_of_eq Nat.ofDigitChars_nil.symm
  | cons c digits ih =>
    rw [Nat.ofDigitChars_cons]
    exact le_trans (by omega) (ih _)

/-- **The digits are read as the number they spell**, as long as it is a `u32`. -/
theorem foldlM_pushDigit_eq_some_iff {digits : List Char} {value result : ℕ}
    (hvalue : value < UInt32.size) :
    digits.foldlM pushDigit value = some result ↔ (∀ c ∈ digits, c.isDigit) ∧
      Nat.ofDigitChars 10 digits value = result ∧ result < UInt32.size := by
  induction digits generalizing value with
  | nil =>
    rw [List.foldlM_nil, Nat.ofDigitChars_nil]
    constructor
    · rintro ⟨⟩
      exact ⟨fun _ h => absurd h List.not_mem_nil, rfl, hvalue⟩
    · rintro ⟨-, rfl, -⟩
      rfl
  | cons c digits ih =>
    rw [List.foldlM_cons, Nat.ofDigitChars_cons, List.forall_mem_cons, Option.bind_eq_bind,
      Option.bind_eq_some_iff]
    have hzero : '0'.toNat = 0x30 := rfl
    rw [hzero]
    constructor
    · rintro ⟨next, hpush, hrest⟩
      unfold pushDigit at hpush
      split_ifs at hpush with hdigit hlt
      obtain rfl := Option.some.inj hpush
      obtain ⟨hdigits, hresult, hsize⟩ := (ih hlt).mp hrest
      exact ⟨⟨hdigit, hdigits⟩, hresult, hsize⟩
    · rintro ⟨⟨hdigit, hdigits⟩, hresult, hsize⟩
      -- the number so far is no greater than the whole one
      have hlt : 10 * value + (c.toNat - 0x30) < UInt32.size :=
        (hresult ▸ le_ofDigitChars digits _).trans_lt hsize
      refine ⟨_, ?_, (ih hlt).mpr ⟨hdigits, hresult, hsize⟩⟩
      rw [pushDigit, if_pos hdigit, if_pos hlt]

theorem parseU32_eq_some_iff {cs : List Char} {value : UInt32} :
    parseU32 cs = some value ↔ ∃ sign digits, (sign = [] ∨ sign = ['+']) ∧ digits ≠ [] ∧
      (∀ c ∈ digits, c.isDigit) ∧ cs = sign ++ digits ∧
      Nat.ofDigitChars 10 digits 0 = value.toNat := by
  have hdigits : ∀ digits : List Char, (if digits = [] then none else
      (digits.foldlM pushDigit 0).map UInt32.ofNat) = some value ↔ digits ≠ [] ∧
        (∀ c ∈ digits, c.isDigit) ∧ Nat.ofDigitChars 10 digits 0 = value.toNat := fun digits => by
    split_ifs with hnil
    · simp [hnil]
    · rw [Option.map_eq_some_iff]
      constructor
      · rintro ⟨n, hfold, rfl⟩
        obtain ⟨hall, hn, hsize⟩ := (foldlM_pushDigit_eq_some_iff (by decide)).mp hfold
        exact ⟨hnil, hall, by rw [hn, UInt32.toNat_ofNat', Nat.mod_eq_of_lt hsize]⟩
      · rintro ⟨-, hall, hn⟩
        exact ⟨value.toNat, (foldlM_pushDigit_eq_some_iff (by decide)).mpr
          ⟨hall, hn, value.toNat_lt⟩, UInt32.ofNat_toNat⟩
  unfold parseU32
  dsimp only
  rw [hdigits]
  split
  · next digits =>
    constructor
    · rintro ⟨hne, hall, hn⟩
      exact ⟨['+'], digits, Or.inr rfl, hne, hall, rfl, hn⟩
    · rintro ⟨sign, digits', rfl | rfl, hne, hall, hcs, hn⟩
      · rw [List.nil_append] at hcs
        rw [← hcs] at hall
        exact absurd (hall '+' List.mem_cons_self) (by decide)
      · obtain rfl := (List.cons.inj hcs).2
        exact ⟨hne, hall, hn⟩
  · next hsign =>
    constructor
    · rintro ⟨hne, hall, hn⟩
      exact ⟨[], cs, Or.inl rfl, hne, hall, rfl, hn⟩
    · rintro ⟨sign, digits, rfl | rfl, hne, hall, rfl, hn⟩
      · exact ⟨hne, hall, hn⟩
      · exact absurd rfl (hsign digits)

/-- **The lines that are entries are those that list one.** -/
theorem parseRow_eq_some_iff {line : String} {row : ListfileRow} :
    parseRow line = some row ↔ Lists line row := by
  unfold parseRow Lists
  rw [Option.bind_eq_some_iff]
  constructor
  · rintro ⟨⟨front, back⟩, hsplit, hrow⟩
    obtain ⟨fdid, hfdid, rfl⟩ := Option.map_eq_some_iff.mp hrow
    obtain ⟨hline, -⟩ := splitOnce_eq_some_iff.mp hsplit
    obtain ⟨sign, digits, hsign, hne, hall, rfl, hn⟩ := parseU32_eq_some_iff.mp hfdid
    exact ⟨sign, digits, hsign, hne, hall, by rw [hline, String.toList_ofList], hn⟩
  · rintro ⟨sign, digits, hsign, hne, hall, hline, hn⟩
    have hfree : ';' ∉ sign ++ digits := by
      rw [List.mem_append]
      rintro (h | h)
      · rcases hsign with rfl | rfl
        · exact absurd h List.not_mem_nil
        · exact absurd h (by decide)
      · exact absurd (hall ';' h) (by decide)
    refine ⟨(sign ++ digits, row.path.toList), splitOnce_eq_some_iff.mpr ⟨hline, hfree⟩, ?_⟩
    have hfdid := parseU32_eq_some_iff.mpr ⟨sign, digits, hsign, hne, hall, rfl, hn⟩
    dsimp only
    rw [hfdid, Option.map_some, String.ofList_toList]

/-- A line that lists an entry. -/
def IsEntry (line : String) : Prop := ∃ row, Lists line row

instance (line : String) : Decidable (IsEntry line) :=
  decidable_of_iff (parseRow line).isSome (by
    simp only [Option.isSome_iff_exists, parseRow_eq_some_iff, IsEntry])

/-! ### The import -/

/-- `import_rows`, of the text the source had when it was read. -/
def importRows (sourcePath : PathBuf) (content : List UInt8) : Except String ListfileTable :=
  (readLines [] content).foldlM (fun table line =>
    match fromUtf8 line with
    | none => .error s!"read {sourcePath.display} row: stream did not contain valid UTF-8"
    | some line =>
      match parseRow line with
      | none => .ok table
      | some row => .ok (table.insertOrReplace row)) .empty

end AssetResolver
