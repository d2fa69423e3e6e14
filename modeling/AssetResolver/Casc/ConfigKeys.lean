import AssetResolver.Install

/-!
# Keys of an installation that panic or escape

`parse_hex_16` and `data_config_path` once more, with their **panics**: both cut a string at
fixed byte offsets, and a cut through a character ends the process (`AssetResolver.slice`). A
result of `none` is such an end; where there is a result, it is the one of
`AssetResolver.parseHex16` and `AssetResolver.dataConfigPath`
(`AssetResolver.eq_of_parseHex16Checked`, `AssetResolver.eq_of_dataConfigPathChecked`).

The strings are keys of `.build.info`, and nothing has looked at a keyring key before it names a
file. Two oversights meet: the integer parser takes a `+` for a sign, so that 32 bytes may be a
key and not 32 digits, and the path builder takes its pieces for file names, which they need not
be. `AssetResolver.configKeys_iff` says for which strings neither matters.
-/

namespace AssetResolver

/-! ### Slices of a string -/

/-- `str::is_char_boundary`. -/
def isCharBoundary (bytes : OsString) (i : ℕ) : Bool :=
  match bytes[i]? with
  | some b => i == 0 || !isContinuation b
  | none => i == bytes.length

/-- `&s[start..end]`, which panics when it cuts a character. -/
def slice (bytes : OsString) (start stop : ℕ) : Option OsString :=
  if start ≤ stop ∧ isCharBoundary bytes start ∧ isCharBoundary bytes stop then
    some ((bytes.drop start).take (stop - start))
  else none

/-! ### Keys in hexadecimal -/

/-- The digits of `u8::from_str_radix(_, 16)`, after the sign. -/
def fromDigits16 (acc : ℕ) : OsString → Except String UInt8
  | [] => .ok (UInt8.ofNat acc)
  | b :: rest =>
    match hexDigit b with
    | none => .error "invalid digit found in string"
    | some d =>
      if acc * 16 + d.toNat < 256 then fromDigits16 (acc * 16 + d.toNat) rest
      else .error "number too large to fit in target type"

/-- `u8::from_str_radix(_, 16)`: a `+` in front of the digits is a sign. -/
def fromStrRadix (s : OsString) : Except String UInt8 :=
  match s with
  | [] => .error "cannot parse integer from empty string"
  | [b] =>
    if b = 0x2b ∨ b = 0x2d then .error "invalid digit found in string" else fromDigits16 0 [b]
  | b :: rest => if b = 0x2b then fromDigits16 0 rest else fromDigits16 0 (b :: rest)

/-- The loop of `parse_hex_16`, over the numbers of the groups that are left. -/
def hexGroups (value : OsString) : List ℕ → Option (Except String (List UInt8))
  | [] => some (.ok [])
  | i :: is =>
    match slice value (i * 2) (i * 2 + 2) with
    | none => none
    | some group =>
      match fromStrRadix group with
      | .error e => some (.error e)
      | .ok x => (hexGroups value is).map fun r => r.map (x :: ·)

/-- A loop that ends has a byte for each group. -/
theorem length_of_hexGroups {value : OsString} {is : List ℕ} {out : List UInt8}
    (h : hexGroups value is = some (.ok out)) : out.length = is.length := by
  induction is generalizing out with
  | nil =>
    cases h
    rfl
  | cons i is ih =>
    unfold hexGroups at h
    split at h
    · cases h
    · split at h
      · cases h
      · obtain ⟨r, hr, h⟩ := Option.map_eq_some_iff.mp h
        cases r with
        | error e => cases h
        | ok xs =>
          cases h
          rw [List.length_cons, List.length_cons, ih hr]

/-- `parse_hex_16`, with its panics. -/
def parseHex16Checked (value : String) : Option (Except String Key) :=
  if (osString value).length = 32 then
    match h : hexGroups (osString value) (List.range 16) with
    | none => none
    | some (.error e) => some (.error s!"invalid hex key {value}: {e}")
    | some (.ok out) => some (.ok ⟨out, by rw [length_of_hexGroups h, List.length_range]⟩)
  else some (.error s!"expected 32 hex characters, got {value}")

/-- `data_config_path`, with its panics. -/
def dataConfigPathChecked (installRoot : PathBuf) (key : String) :
    Option (Except String PathBuf) :=
  if (osString key).length < 4 then some (.error s!"invalid config key: {key}")
  else
    match slice (osString key) 0 2, slice (osString key) 2 4 with
    | some first, some second =>
      some (.ok ((((installRoot.join (.ofStr "Data/config")).join (.ofOs first)).join
        (.ofOs second)).join (.ofStr key)))
    | _, _ => none

example : parseHex16Checked "00112233445566778899aabbCCddeeff" =
    some (parseHex16 "00112233445566778899aabbCCddeeff") := by decide +kernel

/-! ### The results are those without the panics -/

theorem slice_eq_some {bytes s : OsString} {start stop : ℕ} (h : slice bytes start stop = some s) :
    s = (bytes.drop start).take (stop - start) := by
  unfold slice at h
  split_ifs at h
  exact (Option.some.inj h).symm

/-- What a digit spells, and how it is shown. -/
theorem hexDigit_spec {b d : UInt8} (h : hexDigit b = some d) :
    d.toNat < 16 ∧ isAsciiHexdigit b ∧
      String.utf8EncodeChar (hexChar d) = [byteToAsciiLowercase b] := by
  have hall : ∀ n : Fin 256, ∀ d ∈ hexDigit (UInt8.ofNat n), d.toNat < 16 ∧
      isAsciiHexdigit (UInt8.ofNat n) ∧
      String.utf8EncodeChar (hexChar d) = [byteToAsciiLowercase (UInt8.ofNat n)] := by
    decide +kernel
  have hb := hall ⟨b.toNat, b.toNat_lt⟩ d
  rw [show UInt8.ofNat b.toNat = b from UInt8.ofNat_toNat] at hb
  exact hb h

theorem hexDigit_of_isAsciiHexdigit {b : UInt8} (h : isAsciiHexdigit b) :
    ∃ d, hexDigit b = some d := by
  have hall : ∀ n : Fin 256, isAsciiHexdigit (UInt8.ofNat n) →
      (hexDigit (UInt8.ofNat n)).isSome := by
    decide +kernel
  have hb := hall ⟨b.toNat, b.toNat_lt⟩
  rw [show UInt8.ofNat b.toNat = b from UInt8.ofNat_toNat] at hb
  exact Option.isSome_iff_exists.mp (hb h)

theorem fromDigits16_singleton (b : UInt8) : fromDigits16 0 [b] =
    match hexDigit b with
    | some d => .ok d
    | none => .error "invalid digit found in string" := by
  unfold fromDigits16
  cases hb : hexDigit b with
  | none => rfl
  | some d =>
    have hlt := (hexDigit_spec hb).1
    dsimp only
    rw [if_pos (by omega), fromDigits16, Nat.zero_mul, Nat.zero_add, UInt8.ofNat_toNat]

theorem fromDigits16_pair (a b : UInt8) : fromDigits16 0 [a, b] =
    match hexDigit a, hexDigit b with
    | some x, some y => .ok (16 * x + y)
    | _, _ => .error "invalid digit found in string" := by
  unfold fromDigits16
  cases ha : hexDigit a with
  | none => rfl
  | some x =>
    have hx := (hexDigit_spec ha).1
    dsimp only
    rw [if_pos (by omega), fromDigits16]
    cases hb : hexDigit b with
    | none => rfl
    | some y =>
      have hy := (hexDigit_spec hb).1
      dsimp only
      rw [if_pos (by omega), fromDigits16]
      refine congrArg Except.ok (UInt8.toNat_inj.mp ?_)
      have h16 : (16 : UInt8).toNat = 16 := rfl
      rw [UInt8.toNat_ofNat', UInt8.toNat_add, UInt8.toNat_mul, h16]
      omega

/-- **On two bytes the integer parser is the one without sign and overflow**, but for the `+`. -/
theorem fromStrRadix_pair (a b : UInt8) : fromStrRadix [a, b] = fromStrRadix16 a b := by
  have hplus : hexDigit 0x2b = none := by decide
  unfold fromStrRadix fromStrRadix16
  dsimp only
  by_cases ha : a = 0x2b
  · subst ha
    rw [if_pos rfl, fromDigits16_singleton, hplus]
    cases hexDigit b with
    | none => rfl
    | some y => rfl
  · rw [if_neg ha, fromDigits16_pair]
    cases hexDigit a with
    | none =>
      cases hexDigit b with
      | none => rfl
      | some y => exact (if_neg ha).symm
    | some x =>
      cases hexDigit b with
      | none => rfl
      | some y => rfl

/-- A group of the loop: the next two bytes. -/
theorem slice_group {value group : OsString} {i n : ℕ} (hlen : value.length = 2 * (i + (n + 1)))
    (h : slice value (i * 2) (i * 2 + 2) = some group) :
    ∃ a b, group = [a, b] ∧ value.drop (i * 2) = a :: b :: value.drop ((i + 1) * 2) := by
  rw [slice_eq_some h]
  have hlong : (value.drop (i * 2)).length = 2 * n + 2 := by
    rw [List.length_drop]
    omega
  rcases hdrop : value.drop (i * 2) with _ | ⟨a, _ | ⟨b, rest⟩⟩
  · rw [hdrop] at hlong
    cases hlong
  · rw [hdrop, List.length_singleton] at hlong
    omega
  · have hrest : value.drop ((i + 1) * 2) = rest := by
      have h2 : (i + 1) * 2 = i * 2 + 2 := by omega
      rw [h2, ← List.drop_drop, hdrop]
      rfl
    refine ⟨a, b, ?_, by rw [hrest]⟩
    rw [Nat.add_sub_cancel_left]
    rfl

/-- **A loop that does not panic reads the bytes in pairs.** -/
theorem hexBytes_of_hexGroups {value : OsString} {n : ℕ} :
    ∀ {i : ℕ} {r : Except String (List UInt8)}, value.length = 2 * (i + n) →
      hexGroups value (List.range' i n) = some r → hexBytes (value.drop (i * 2)) = r := by
  induction n with
  | zero =>
    intro i r hlen h
    have hnil : value.drop (i * 2) = [] := List.drop_eq_nil_of_le (by omega)
    rw [hnil]
    exact Option.some.inj h
  | succ n ih =>
    intro i r hlen h
    rw [List.range'_succ, hexGroups] at h
    split at h
    · cases h
    · rename_i group hgroup
      obtain ⟨a, b, rfl, hdrop⟩ := slice_group hlen hgroup
      rw [fromStrRadix_pair] at h
      rw [hdrop, hexBytes]
      split at h
      · rename_i e he
        rw [he]
        exact Option.some.inj h
      · rename_i x hx
        obtain ⟨r', hr', rfl⟩ := Option.map_eq_some_iff.mp h
        rw [hx, ih (by omega) hr']
        cases r' <;> rfl

/-- **Where `parse_hex_16` returns**, it returns what the model without panics does. -/
theorem eq_of_parseHex16Checked {value : String} {r : Except String Key}
    (h : parseHex16Checked value = some r) : parseHex16 value = r := by
  unfold parseHex16Checked at h
  unfold parseHex16
  split_ifs at h ⊢ with hlen
  · have hbytes : ∀ r', hexGroups (osString value) (List.range 16) = some r' →
        hexBytes (osString value) = r' := by
      intro r' hr'
      rw [List.range_eq_range'] at hr'
      exact hexBytes_of_hexGroups (i := 0) (n := 16) hlen hr'
    split at h
    · cases h
    · rename_i e he
      split
      · rename_i e' he'
        obtain rfl := Except.error.inj ((hbytes _ he).symm.trans he')
        exact Option.some.inj h
      · rename_i out hout
        cases (hbytes _ he).symm.trans hout
    · rename_i out hout
      split
      · rename_i e he
        cases (hbytes _ hout).symm.trans he
      · rename_i out' hout'
        obtain rfl := Except.ok.inj ((hbytes _ hout).symm.trans hout')
        exact Option.some.inj h
  · exact Option.some.inj h

theorem eq_of_dataConfigPathChecked {installRoot : PathBuf} {key : String}
    {r : Except String PathBuf} (h : dataConfigPathChecked installRoot key = some r) :
    dataConfigPath installRoot key = r := by
  unfold dataConfigPathChecked at h
  unfold dataConfigPath
  split_ifs at h ⊢ with hlen
  · exact Option.some.inj h
  · split at h
    · rename_i first second hfirst hsecond
      rw [← Option.some.inj h, slice_eq_some hfirst, slice_eq_some hsecond, List.drop_zero]
    · cases h

/-! ### When a key is parsed exactly -/

/-- **What is expected of `parse_hex_16`**: it returns, a key exactly for 32 hexadecimal digits,
which are what `AssetIdentity::new` accepts, and the key shows those digits. -/
structure ParsesExactly (value : String) : Prop where
  returns : parseHex16Checked value ≠ none
  ok_iff : (∃ k, parseHex16Checked value = some (.ok k)) ↔ IsBuildKey (osString value)
  ok_iff_new : ∀ product, product = "wow" ∨ product = "wow_classic_beta" →
    ((∃ k, parseHex16Checked value = some (.ok k)) ↔ ∃ i, AssetIdentity.new product value = .ok i)
  display : ∀ k, parseHex16Checked value = some (.ok k) → k.display = toAsciiLowercase value

/-- Two bytes the integer parser takes: two digits, or a `+` and a digit. -/
def IsGroup (value : OsString) (i : ℕ) : Prop :=
  ∃ a b, value[i * 2]? = some a ∧ value[i * 2 + 1]? = some b ∧
    (isAsciiHexdigit a ∨ a = 0x2b) ∧ isAsciiHexdigit b

/-- **A group is refused**, before any cut through a character. -/
def IsRefused (value : OsString) : Prop :=
  ∃ i < 16, (∀ j < i, IsGroup value j) ∧ ¬IsGroup value i ∧
    isCharBoundary value (i * 2) ∧ isCharBoundary value (i * 2 + 2)

theorem slice_eq_none_iff {bytes : OsString} {start stop : ℕ} (h : start ≤ stop) :
    slice bytes start stop = none ↔ ¬(isCharBoundary bytes start ∧ isCharBoundary bytes stop) := by
  unfold slice
  by_cases hb : isCharBoundary bytes start ∧ isCharBoundary bytes stop
  · rw [if_pos ⟨h, hb⟩]
    exact iff_of_false (Option.some_ne_none _) (not_not.mpr hb)
  · rw [if_neg fun hb' => hb hb'.2]
    exact iff_of_true rfl hb

theorem fromStrRadix16_ok_iff {a b : UInt8} :
    (∃ x, fromStrRadix16 a b = .ok x) ↔
      (isAsciiHexdigit a ∨ a = 0x2b) ∧ isAsciiHexdigit b := by
  have hdigit : ∀ {c : UInt8}, hexDigit c = none → ¬isAsciiHexdigit c := fun hc h => by
    obtain ⟨d, hd⟩ := hexDigit_of_isAsciiHexdigit h
    rw [hc] at hd
    cases hd
  unfold fromStrRadix16
  cases hb : hexDigit b with
  | none =>
    have hno := hdigit hb
    cases hexDigit a <;> exact iff_of_false (by rintro ⟨x, ⟨⟩⟩) fun h => hno h.2
  | some y =>
    have hyes := (hexDigit_spec hb).2.1
    cases ha : hexDigit a with
    | none =>
      dsimp only
      split_ifs with hplus
      · exact iff_of_true ⟨y, rfl⟩ ⟨Or.inr hplus, hyes⟩
      · exact iff_of_false (by rintro ⟨x, ⟨⟩⟩) fun h => h.1.elim (hdigit ha) hplus
    | some x => exact iff_of_true ⟨_, rfl⟩ ⟨Or.inl (hexDigit_spec ha).2.1, hyes⟩

/-- A group of the loop is taken exactly if it is one. -/
theorem isGroup_iff {value : OsString} {i : ℕ} {a b : UInt8} {rest : OsString}
    (h : value.drop (i * 2) = a :: b :: rest) :
    IsGroup value i ↔ ∃ x, fromStrRadix16 a b = .ok x := by
  have ha : value[i * 2]? = some a := by
    rw [← List.head?_drop, h]
    rfl
  have hb : value[i * 2 + 1]? = some b := by
    rw [← List.getElem?_drop, h]
    rfl
  rw [fromStrRadix16_ok_iff, IsGroup, ha, hb]
  constructor
  · rintro ⟨_, _, ⟨⟩, ⟨⟩, h⟩
    exact h
  · exact fun h => ⟨a, b, rfl, rfl, h⟩

/-- **How the loop ends**: with a byte for every group, with the first group that is refused, or
with the first cut. -/
theorem hexGroups_cases {value : OsString} {n : ℕ} :
    ∀ {i : ℕ}, value.length = 2 * (i + n) →
      ((∃ out, hexGroups value (List.range' i n) = some (.ok out)) ∧
        ∀ j, i ≤ j → j < i + n → IsGroup value j) ∨
      ((∃ e, hexGroups value (List.range' i n) = some (.error e)) ∧
        ∃ j, i ≤ j ∧ j < i + n ∧ (∀ k, i ≤ k → k < j → IsGroup value k) ∧ ¬IsGroup value j ∧
          isCharBoundary value (j * 2) ∧ isCharBoundary value (j * 2 + 2)) ∨
      (hexGroups value (List.range' i n) = none ∧
        ∃ j, i ≤ j ∧ j < i + n ∧ (∀ k, i ≤ k → k < j → IsGroup value k) ∧
          ¬(isCharBoundary value (j * 2) ∧ isCharBoundary value (j * 2 + 2))) := by
  induction n with
  | zero => exact fun _ => Or.inl ⟨⟨[], rfl⟩, fun j h h' => absurd h' (by omega)⟩
  | succ n ih =>
    intro i hlen
    rw [List.range'_succ, hexGroups]
    cases hslice : slice value (i * 2) (i * 2 + 2) with
    | none =>
      have hcut := (slice_eq_none_iff (by omega)).mp hslice
      exact Or.inr (Or.inr ⟨rfl, i, le_rfl, by omega, fun k h h' => absurd h' (by omega), hcut⟩)
    | some group =>
      obtain ⟨a, b, rfl, hdrop⟩ := slice_group hlen hslice
      have hboundaries : isCharBoundary value (i * 2) ∧ isCharBoundary value (i * 2 + 2) := by
        by_contra hcut
        rw [(slice_eq_none_iff (by omega)).mpr hcut] at hslice
        cases hslice
      dsimp only
      rw [fromStrRadix_pair]
      cases hpair : fromStrRadix16 a b with
      | error e =>
        have hno : ¬IsGroup value i := fun h => by
          obtain ⟨x, hx⟩ := (isGroup_iff hdrop).mp h
          rw [hpair] at hx
          cases hx
        exact Or.inr (Or.inl ⟨⟨e, rfl⟩, i, le_rfl, by omega, fun k h h' => absurd h' (by omega),
          hno, hboundaries⟩)
      | ok x =>
        have hgroup : IsGroup value i := (isGroup_iff hdrop).mpr ⟨x, hpair⟩
        -- the first group goes on with those behind it
        have hfront : ∀ j, (∀ k, i + 1 ≤ k → k < j → IsGroup value k) →
            ∀ k, i ≤ k → k < j → IsGroup value k := fun j hj k hik hkj => by
          rcases Nat.eq_or_lt_of_le hik with rfl | hlt
          · exact hgroup
          · exact hj k hlt hkj
        dsimp only
        rcases ih (i := i + 1) (by omega) with ⟨⟨out, hout⟩, hall⟩ |
          ⟨⟨e, he⟩, j, hij, hjn, hj, hrest⟩ | ⟨hnone, j, hij, hjn, hj, hcut⟩
        · rw [hout]
          exact Or.inl ⟨⟨x :: out, rfl⟩, fun j hij hjn => hfront (i + (n + 1))
            (fun k h h' => hall k h (by omega)) j hij hjn⟩
        · rw [he]
          exact Or.inr (Or.inl ⟨⟨e, rfl⟩, j, by omega, by omega, hfront j hj, hrest⟩)
        · rw [hnone]
          exact Or.inr (Or.inr ⟨rfl, j, by omega, by omega, hfront j hj, hcut⟩)

/-- **The digits of a key** are shown again, in lowercase. -/
theorem encode_hexBytes {bytes out : List UInt8} (hdigits : ∀ b ∈ bytes, isAsciiHexdigit b)
    (heven : bytes.length % 2 = 0) (h : hexBytes bytes = .ok out) :
    (out.flatMap fun b => [hexChar (b / 16), hexChar (b % 16)]).flatMap String.utf8EncodeChar =
      bytes.map byteToAsciiLowercase := by
  induction bytes using hexBytes.induct generalizing out with
  | case1 a b rest ih =>
    obtain ⟨x, hx, h⟩ := Program.except_bind_eq_ok_iff.mp h
    obtain ⟨xs, hxs, h⟩ := Program.except_bind_eq_ok_iff.mp h
    cases h
    obtain ⟨m, hm⟩ := hexDigit_of_isAsciiHexdigit (hdigits a List.mem_cons_self)
    obtain ⟨n, hn⟩ := hexDigit_of_isAsciiHexdigit
      (hdigits b (List.mem_cons_of_mem _ List.mem_cons_self))
    obtain ⟨hm16, -, hma⟩ := hexDigit_spec hm
    obtain ⟨hn16, -, hnb⟩ := hexDigit_spec hn
    rw [fromStrRadix16, hm, hn] at hx
    obtain rfl := Except.ok.inj hx
    have h16 : (16 : UInt8).toNat = 16 := rfl
    have hdiv : (16 * m + n) / 16 = m := by
      refine UInt8.toNat_inj.mp ?_
      rw [UInt8.toNat_div, UInt8.toNat_add, UInt8.toNat_mul, h16]
      omega
    have hmod : (16 * m + n) % 16 = n := by
      refine UInt8.toNat_inj.mp ?_
      rw [UInt8.toNat_mod, UInt8.toNat_add, UInt8.toNat_mul, h16]
      omega
    have hrest := ih (fun c hc => hdigits c (List.mem_cons_of_mem _ (List.mem_cons_of_mem _ hc)))
      (by rw [List.length_cons, List.length_cons] at heven; omega) hxs
    rw [List.flatMap_cons, List.flatMap_append, hrest, hdiv, hmod, List.flatMap_cons,
      List.flatMap_singleton, hma, hnb]
    rfl
  | case2 bytes hshort =>
    rcases bytes with _ | ⟨a, _ | ⟨b, rest⟩⟩
    · rw [hexBytes.eq_2 [] hshort] at h
      cases h
      rfl
    · cases heven
    · exact absurd rfl (hshort a b rest)

/-- What `parse_hex_16` makes of an end of the loop. -/
theorem parseHex16Checked_of_length {value : String} (hlen : (osString value).length = 32) :
    ((∃ out, hexGroups (osString value) (List.range' 0 16) = some (.ok out)) →
      ∃ k, parseHex16Checked value = some (.ok k)) ∧
    ((∃ e, hexGroups (osString value) (List.range' 0 16) = some (.error e)) →
      ∃ e, parseHex16Checked value = some (.error e)) ∧
    (hexGroups (osString value) (List.range' 0 16) = none → parseHex16Checked value = none) := by
  rw [← List.range_eq_range']
  unfold parseHex16Checked
  rw [if_pos hlen]
  refine ⟨?_, ?_, ?_⟩
  · rintro ⟨out, hout⟩
    split
    · rename_i h
      cases h.symm.trans hout
    · rename_i h
      cases h.symm.trans hout
    · exact ⟨_, rfl⟩
  · rintro ⟨e, he⟩
    split
    · rename_i h
      cases h.symm.trans he
    · exact ⟨_, rfl⟩
    · rename_i h
      cases h.symm.trans he
  · intro hnone
    split
    · rfl
    · rename_i h
      cases h.symm.trans hnone
    · rename_i h
      cases h.symm.trans hnone

theorem new_ok_iff {product value : String} (hp : product = "wow" ∨ product = "wow_classic_beta") :
    (∃ i, AssetIdentity.new product value = .ok i) ↔ IsBuildKey (osString value) := by
  unfold AssetIdentity.new
  rw [dif_pos hp]
  split_ifs with hk
  · exact iff_of_true ⟨_, rfl⟩ hk
  · exact iff_of_false (by rintro ⟨i, ⟨⟩⟩) hk

/-- The key of 32 digits shows them. -/
theorem display_of_isBuildKey {value : String} {k : Key} (hkey : IsBuildKey (osString value))
    (h : parseHex16Checked value = some (.ok k)) : k.display = toAsciiLowercase value := by
  have hparse := eq_of_parseHex16Checked h
  unfold parseHex16 at hparse
  rw [dif_pos hkey.1] at hparse
  split at hparse
  · cases hparse
  · rename_i out hout
    obtain rfl := Except.ok.inj hparse
    refine osString_injective ?_
    rw [osString_toAsciiLowercase, ← encode_hexBytes hkey.2 (by rw [hkey.1]) hout, osString,
      Key.display, String.toList_ofList]

/-- A parse that refuses what it should. -/
theorem parsesExactly_of_error {value : String} (hkey : ¬IsBuildKey (osString value))
    (h : ∃ e, parseHex16Checked value = some (.error e)) : ParsesExactly value := by
  obtain ⟨e, he⟩ := h
  have hno : ¬∃ k, parseHex16Checked value = some (.ok k) := by
    rintro ⟨k, hk⟩
    rw [he] at hk
    cases hk
  refine ⟨?_, iff_of_false hno hkey, fun product hp => iff_of_false hno ?_, fun k hk => ?_⟩
  · rw [he]
    exact Option.some_ne_none _
  · rwa [new_ok_iff hp]
  · exact absurd ⟨k, hk⟩ hno

/-- A parse that accepts what it should. -/
theorem parsesExactly_of_ok {value : String} (hkey : IsBuildKey (osString value))
    (h : ∃ k, parseHex16Checked value = some (.ok k)) : ParsesExactly value := by
  refine ⟨?_, iff_of_true h hkey, fun product hp => iff_of_true h ((new_ok_iff hp).mpr hkey),
    fun k => display_of_isBuildKey hkey⟩
  obtain ⟨k, hk⟩ := h
  rw [hk]
  exact Option.some_ne_none _

theorem isCharBoundary_of_getElem? {bytes : OsString} {i : ℕ} {b : UInt8}
    (h : bytes[i]? = some b) (hb : isAsciiHexdigit b ∨ b = 0x2b) : isCharBoundary bytes i := by
  have hall : ∀ n : Fin 256, isAsciiHexdigit (UInt8.ofNat n) ∨ UInt8.ofNat n = 0x2b →
      isContinuation (UInt8.ofNat n) = false := by
    decide +kernel
  have hno := hall ⟨b.toNat, b.toNat_lt⟩
  rw [show UInt8.ofNat b.toNat = b from UInt8.ofNat_toNat] at hno
  rw [isCharBoundary, h]
  dsimp only
  rw [hno hb]
  exact Bool.or_true _

/-- A group begins at the beginning of a character. -/
theorem IsGroup.isCharBoundary {value : OsString} {i : ℕ} (h : IsGroup value i) :
    isCharBoundary value (i * 2) := by
  obtain ⟨a, b, ha, -, hsign, -⟩ := h
  exact isCharBoundary_of_getElem? ha hsign

/-- The digits of a build key are groups. -/
theorem isGroup_of_isBuildKey {value : OsString} (h : IsBuildKey value) {i : ℕ} (hi : i < 16) :
    IsGroup value i := by
  have ha : i * 2 < value.length := by
    rw [h.1]
    omega
  have hb : i * 2 + 1 < value.length := by
    rw [h.1]
    omega
  exact ⟨_, _, List.getElem?_eq_getElem ha, List.getElem?_eq_getElem hb,
    Or.inl (h.2 _ (List.getElem_mem ha)), h.2 _ (List.getElem_mem hb)⟩

theorem isCharBoundary_length (bytes : OsString) : isCharBoundary bytes bytes.length := by
  rw [isCharBoundary, List.getElem?_eq_none le_rfl]
  exact beq_self_eq_true _

/-- **When `parse_hex_16` is exact**: for a value that is not of 32 bytes, for 32 digits, and
for a value with a group that is refused. -/
theorem parsesExactly_iff (value : String) :
    ParsesExactly value ↔ (osString value).length ≠ 32 ∨ IsBuildKey (osString value) ∨
      IsRefused (osString value) := by
  by_cases hlen : (osString value).length = 32
  · obtain ⟨hok, herror, hnone⟩ := parseHex16Checked_of_length hlen
    rcases hexGroups_cases (n := 16) (i := 0) (by rw [hlen]) with ⟨hout, hall⟩ |
      ⟨he, j, -, hj, hfront, hno, hboundaries⟩ | ⟨hpanic, j, -, hj, hfront, hcut⟩
    · constructor
      · exact fun h => Or.inr (Or.inl (h.ok_iff.mp (hok hout)))
      · rintro (h | h | ⟨i, hi, -, hno, -⟩)
        · exact absurd hlen h
        · exact parsesExactly_of_ok h (hok hout)
        · exact absurd (hall i (Nat.zero_le i) (by omega)) hno
    · have hkey : ¬IsBuildKey (osString value) := fun h =>
        hno (isGroup_of_isBuildKey h (by omega))
      refine iff_of_true (parsesExactly_of_error hkey (herror he)) (Or.inr (Or.inr ?_))
      exact ⟨j, by omega, fun k hk => hfront k (Nat.zero_le k) hk, hno, hboundaries⟩
    · refine iff_of_false (fun h => h.returns (hnone hpanic)) ?_
      rintro (h | h | ⟨i, hi, hgroups, hno, hboundaries⟩)
      · exact h hlen
      · -- no digit is cut
        refine hcut ⟨(isGroup_of_isBuildKey h (by omega)).isCharBoundary, ?_⟩
        rcases Nat.lt_or_ge (j + 1) 16 with hlt | hge
        · have hnext := (isGroup_of_isBuildKey h hlt).isCharBoundary
          rwa [Nat.add_mul, Nat.one_mul] at hnext
        · have hend := isCharBoundary_length (osString value)
          have h32 : j * 2 + 2 = 32 := by omega
          rwa [hlen, ← h32] at hend
      · -- the refused group stands before every cut
        rcases Nat.lt_trichotomy j i with hlt | rfl | hgt
        · refine hcut ⟨(hgroups j hlt).isCharBoundary, ?_⟩
          rcases Nat.lt_or_ge (j + 1) i with hlt' | hge
          · have hnext := (hgroups (j + 1) hlt').isCharBoundary
            rwa [Nat.add_mul, Nat.one_mul] at hnext
          · obtain rfl : i = j + 1 := by omega
            have hnext := hboundaries.1
            rwa [Nat.add_mul, Nat.one_mul] at hnext
        · exact hcut hboundaries
        · exact hno (hfront i (Nat.zero_le i) hgt)
  · refine iff_of_true (parsesExactly_of_error (fun h => hlen h.1) ?_) (Or.inl hlen)
    exact ⟨_, by rw [parseHex16Checked, if_neg hlen]⟩

/-! ### When a path stays below the configurations -/

/-- The directory of the configurations. -/
def configRoot (installRoot : PathBuf) : PathBuf := installRoot.join (.ofStr "Data/config")

/-- **A path below a directory**: some file names behind it. -/
def IsBelow (base path : PathBuf) : Prop :=
  ∃ names : List FileName, names ≠ [] ∧
    path.components = base.components ++ names.map Component.normal

/-- **What is expected of `data_config_path`**: it returns, and a path is one below the directory
of the configurations. -/
structure StaysBelow (installRoot : PathBuf) (key : String) : Prop where
  returns : dataConfigPathChecked installRoot key ≠ none
  below : ∀ path, dataConfigPathChecked installRoot key = some (.ok path) →
    IsBelow (configRoot installRoot) path

/-- The first two bytes of a key, as a path. -/
def firstPiece (key : String) : PathBuf := .ofOs ((osString key).take 2)

/-- The next two bytes of a key, as a path. -/
def secondPiece (key : String) : PathBuf := .ofOs (((osString key).drop 2).take 2)

/-- **The pieces of a key name a file below the configurations**: no piece is a `..`, and one of
them is a name. Where the key or its third byte opens with `/`, the rest of the path counts for
nothing, and they have to spell the whole path themselves. -/
def NamesFile (installRoot : PathBuf) (key : String) : Prop :=
  if ((secondPiece key).join (.ofStr key)).isAbsolute then
    IsBelow (configRoot installRoot) ((secondPiece key).join (.ofStr key))
  else
    (∀ piece ∈ [firstPiece key, secondPiece key, .ofStr key],
      Component.parentDir ∉ piece.components) ∧
    ∃ piece ∈ [firstPiece key, secondPiece key, .ofStr key], ∃ c ∈ piece.components, c.isNormal

theorem isAbsolute_ofOs {bytes : OsString} :
    (PathBuf.ofOs bytes).isAbsolute ↔ bytes.head? = some sep := by
  have hinner : ∀ c ∈ (bytes.splitOn sep).filterMap PathBuf.piece, c.isInner := fun c hc => by
    obtain ⟨b, -, hb⟩ := List.mem_filterMap.mp hc
    exact PathBuf.isInner_of_piece hb
  unfold PathBuf.isAbsolute PathBuf.ofOs PathBuf.lead
  rw [decide_eq_true_eq]
  split_ifs with hroot hcur
  · exact iff_of_true rfl hroot
  · exact iff_of_false (fun h => by cases h) hroot
  · refine iff_of_false (fun h => ?_) hroot
    exact absurd (hinner _ (List.mem_of_mem_head? h)) (by decide)

/-- The components a path adds are those it has, but for a `.`. -/
theorem mem_relativeComponents {p : PathBuf} {c : Component} (hc : c ≠ .curDir) :
    c ∈ p.relativeComponents ↔ c ∈ p.components := by
  refine ⟨fun h => (List.dropWhile_suffix _).subset h, fun h => ?_⟩
  rw [← List.takeWhile_append_dropWhile (p := (· = Component.curDir)) (l := p.components)] at h
  rcases List.mem_append.mp h with htake | hdrop
  · have hcur := List.mem_takeWhile_imp (p := fun x => decide (x = Component.curDir)) htake
    exact absurd (of_decide_eq_true hcur) hc
  · exact hdrop

theorem configRoot_ne_nil (installRoot : PathBuf) : (configRoot installRoot).components ≠ [] := by
  have hinner : ∀ c ∈ (PathBuf.ofStr "Data/config").components, c.isInner := by decide +kernel
  have hne : (PathBuf.ofStr "Data/config").components ≠ [] := by decide +kernel
  rw [configRoot, PathBuf.join_components_of_isInner hinner]
  exact List.append_ne_nil_of_right_ne_nil _ hne

/-- **What stands behind a directory** names a file below it if no part of it is a `..`, and
one is a name. -/
theorem isBelow_iff_of_components {base path : PathBuf} {cs : List Component}
    (hpath : path.components = base.components ++ cs) (hinner : ∀ c ∈ cs, c.isInner) :
    IsBelow base path ↔ Component.parentDir ∉ cs ∧ ∃ c ∈ cs, c.isNormal := by
  unfold IsBelow
  rw [hpath]
  constructor
  · rintro ⟨names, hne, hnames⟩
    obtain rfl := List.append_cancel_left hnames
    obtain ⟨name, hname⟩ := List.exists_mem_of_ne_nil names hne
    refine ⟨fun hparent => ?_, .normal name, List.mem_map_of_mem hname, rfl⟩
    obtain ⟨name, -, hname⟩ := List.mem_map.mp hparent
    cases hname
  · rintro ⟨hparent, c, hc, -⟩
    have hnormal : ∀ c ∈ cs, c.isNormal := fun c hc => by
      have hc' := hinner c hc
      cases c with
      | normal name => rfl
      | parentDir => exact absurd hc hparent
      | rootDir => cases hc'
      | curDir => cases hc'
    obtain ⟨names, hnames⟩ := PathBuf.exists_ofNames
      (p := ⟨cs, fun c hc => hinner c (List.mem_of_mem_tail hc)⟩) hnormal
    obtain rfl : cs = names.map Component.normal := congrArg PathBuf.components hnames
    refine ⟨names, ?_, rfl⟩
    rintro rfl
    exact absurd hc List.not_mem_nil

/-- Relative pieces that are joined stand one behind the other. -/
theorem join_join_join_components {base p q r : PathBuf} (hbase : base.components ≠ [])
    (hp : ¬p.isAbsolute) (hq : ¬q.isAbsolute) (hr : ¬r.isAbsolute) :
    (((base.join p).join q).join r).components = base.components ++
      (p.relativeComponents ++ (q.relativeComponents ++ r.relativeComponents)) := by
  have h₁ := PathBuf.join_components_of_not_isAbsolute hbase hp
  have hne₁ : (base.join p).components ≠ [] := by
    rw [h₁]
    exact List.append_ne_nil_of_left_ne_nil hbase _
  have h₂ := PathBuf.join_components_of_not_isAbsolute hne₁ hq
  have hne₂ : ((base.join p).join q).components ≠ [] := by
    rw [h₂]
    exact List.append_ne_nil_of_left_ne_nil hne₁ _
  rw [PathBuf.join_components_of_not_isAbsolute hne₂ hr, h₂, h₁, List.append_assoc,
    List.append_assoc]

/-- **Relative pieces that are joined** name a file below if none is a `..` and one is a name. -/
theorem isBelow_join_iff {base p q r : PathBuf} (hbase : base.components ≠ [])
    (hp : ¬p.isAbsolute) (hq : ¬q.isAbsolute) (hr : ¬r.isAbsolute) :
    IsBelow base (((base.join p).join q).join r) ↔
      (∀ piece ∈ [p, q, r], Component.parentDir ∉ piece.components) ∧
      ∃ piece ∈ [p, q, r], ∃ c ∈ piece.components, c.isNormal := by
  have hmem : ∀ c : Component, c ≠ .curDir →
      (c ∈ p.relativeComponents ++ (q.relativeComponents ++ r.relativeComponents) ↔
        ∃ piece ∈ [p, q, r], c ∈ piece.components) := fun c hc => by
    simp only [List.mem_append, mem_relativeComponents hc, List.mem_cons, List.not_mem_nil,
      or_false, exists_eq_or_imp, exists_eq_left]
  have hinner : ∀ c ∈ p.relativeComponents ++ (q.relativeComponents ++ r.relativeComponents),
      c.isInner := fun c hc => by
    rcases List.mem_append.mp hc with h | h
    · exact PathBuf.isInner_relativeComponents hp c h
    · rcases List.mem_append.mp h with h | h
      · exact PathBuf.isInner_relativeComponents hq c h
      · exact PathBuf.isInner_relativeComponents hr c h
  rw [isBelow_iff_of_components (join_join_join_components hbase hp hq hr) hinner,
    hmem .parentDir (by rintro ⟨⟩)]
  refine and_congr ?_ ?_
  · rw [not_exists]
    exact forall_congr' fun piece => not_and
  · constructor
    · rintro ⟨c, hc, hnormal⟩
      obtain ⟨piece, hpiece, hc⟩ := (hmem c (by rintro rfl; cases hnormal)).mp hc
      exact ⟨piece, hpiece, c, hc, hnormal⟩
    · rintro ⟨piece, hpiece, c, hc, hnormal⟩
      exact ⟨c, (hmem c (by rintro rfl; cases hnormal)).mpr ⟨piece, hpiece, hc⟩, hnormal⟩

/-- The last absolute piece replaces what stands before it. -/
theorem isBelow_pieces_iff {installRoot : PathBuf} {key : String} :
    IsBelow (configRoot installRoot)
        ((((configRoot installRoot).join (firstPiece key)).join (secondPiece key)).join
          (.ofStr key)) ↔
      NamesFile installRoot key := by
  unfold NamesFile
  by_cases hwhole : (PathBuf.ofStr key).isAbsolute
  · have hjoin : ∀ p : PathBuf, p.join (.ofStr key) = .ofStr key := fun p => dif_pos hwhole
    rw [hjoin, hjoin, if_pos hwhole]
  · by_cases hsecond : (secondPiece key).isAbsolute
    · have hjoin : ∀ p : PathBuf, p.join (secondPiece key) = secondPiece key := fun p =>
        dif_pos hsecond
      have hne : (secondPiece key).components ≠ [] := by
        intro h
        rw [PathBuf.isAbsolute, h] at hsecond
        cases hsecond
      have habs : ((secondPiece key).join (.ofStr key)).isAbsolute := by
        rw [PathBuf.isAbsolute, PathBuf.join_components_of_not_isAbsolute hne hwhole,
          List.head?_append_of_ne_nil _ hne]
        exact hsecond
      rw [hjoin, if_pos habs]
    · -- the first piece opens as the whole key does
      have hfirst : ¬(firstPiece key).isAbsolute := by
        rw [firstPiece, isAbsolute_ofOs, List.head?_take]
        rw [PathBuf.ofStr, isAbsolute_ofOs] at hwhole
        exact hwhole
      have habs : ¬((secondPiece key).join (.ofStr key)).isAbsolute := by
        by_cases hne : (secondPiece key).components = []
        · rw [PathBuf.join, dif_neg hwhole, dif_pos hne]
          exact hwhole
        · rw [PathBuf.isAbsolute, PathBuf.join_components_of_not_isAbsolute hne hwhole,
            List.head?_append_of_ne_nil _ hne]
          exact hsecond
      rw [if_neg habs]
      exact isBelow_join_iff (configRoot_ne_nil installRoot) hfirst hsecond hwhole

/-- A key that is cut between characters names a path. -/
theorem dataConfigPathChecked_of_boundaries {installRoot : PathBuf} {key : String}
    (hlen : ¬(osString key).length < 4)
    (hcut : isCharBoundary (osString key) 2 ∧ isCharBoundary (osString key) 4) :
    dataConfigPathChecked installRoot key =
      some (.ok ((((configRoot installRoot).join (firstPiece key)).join (secondPiece key)).join
        (.ofStr key))) := by
  have hzero : isCharBoundary (osString key) 0 := by
    rw [isCharBoundary, List.getElem?_eq_getElem (by omega)]
    rfl
  have hfirst : slice (osString key) 0 2 = some ((osString key).take 2) :=
    if_pos ⟨by omega, hzero, hcut.1⟩
  have hsecond : slice (osString key) 2 4 = some (((osString key).drop 2).take 2) :=
    if_pos ⟨by omega, hcut⟩
  rw [dataConfigPathChecked, if_neg hlen, hfirst, hsecond]
  rfl

/-- A key that is cut through a character is the end of the process. -/
theorem dataConfigPathChecked_of_cut {installRoot : PathBuf} {key : String}
    (hlen : ¬(osString key).length < 4)
    (hcut : ¬(isCharBoundary (osString key) 2 ∧ isCharBoundary (osString key) 4)) :
    dataConfigPathChecked installRoot key = none := by
  rw [dataConfigPathChecked, if_neg hlen]
  by_cases htwo : isCharBoundary (osString key) 2
  · have hsecond : slice (osString key) 2 4 = none := (slice_eq_none_iff (by omega)).mpr hcut
    rw [hsecond]
    split
    · rename_i h
      cases h
    · rfl
  · have hfirst : slice (osString key) 0 2 = none :=
      (slice_eq_none_iff (by omega)).mpr fun h => htwo h.2
    rw [hfirst]

/-- **When a path of `data_config_path` stays below**: for a key that is too short, and for one
that is not cut and whose pieces name a file. -/
theorem staysBelow_iff (installRoot : PathBuf) (key : String) :
    StaysBelow installRoot key ↔ (osString key).length < 4 ∨
      (isCharBoundary (osString key) 2 ∧ isCharBoundary (osString key) 4 ∧
        NamesFile installRoot key) := by
  by_cases hlen : (osString key).length < 4
  · have herror : dataConfigPathChecked installRoot key =
        some (.error s!"invalid config key: {key}") := if_pos hlen
    refine iff_of_true ⟨?_, fun path hpath => ?_⟩ (Or.inl hlen)
    · rw [herror]
      exact Option.some_ne_none _
    · rw [herror] at hpath
      cases hpath
  · by_cases hcut : isCharBoundary (osString key) 2 ∧ isCharBoundary (osString key) 4
    · have hpath := @dataConfigPathChecked_of_boundaries installRoot key hlen hcut
      have hbelow : StaysBelow installRoot key ↔ IsBelow (configRoot installRoot)
          ((((configRoot installRoot).join (firstPiece key)).join (secondPiece key)).join
            (.ofStr key)) := by
        refine ⟨fun h => h.below _ hpath, fun h => ⟨?_, fun path hp => ?_⟩⟩
        · rw [hpath]
          exact Option.some_ne_none _
        · rw [hpath] at hp
          obtain rfl := Except.ok.inj (Option.some.inj hp)
          exact h
      rw [hbelow, isBelow_pieces_iff]
      exact ⟨fun h => Or.inr ⟨hcut.1, hcut.2, h⟩, fun h => (h.resolve_left hlen).2.2⟩
    · refine iff_of_false (fun h => h.returns (dataConfigPathChecked_of_cut hlen hcut)) ?_
      rintro (h | ⟨h2, h4, -⟩)
      · exact hlen h
      · exact hcut ⟨h2, h4⟩

/-- **Which strings the two functions treat as keys should be treated**, as a build key and as a
key that names a configuration. -/
theorem configKeys_iff (installRoot : PathBuf) (value : String) :
    (ParsesExactly value ↔ (osString value).length ≠ 32 ∨ IsBuildKey (osString value) ∨
      IsRefused (osString value)) ∧
    (StaysBelow installRoot value ↔ (osString value).length < 4 ∨
      (isCharBoundary (osString value) 2 ∧ isCharBoundary (osString value) 4 ∧
        NamesFile installRoot value)) :=
  ⟨parsesExactly_iff value, staysBelow_iff installRoot value⟩

/-- Sixteen signs and digits. -/
def signedKey : String := "+0+0+0+0+0+0+0+0+0+0+0+0+0+0+0+0"

/-- Thirty-two bytes, of which the second and the third are one character. -/
def cutKey : String := "0é00000000000000000000000000000"

/-- **Signs are parsed, cuts panic, and a key may name any file**: as a build key or as the
keyring of a row. -/
theorem configKeys_fail :
    parseHex16Checked signedKey = some (.ok (Key.constant 0)) ∧ ¬ParsesExactly signedKey ∧
      (osString cutKey).length = 32 ∧ parseHex16Checked cutKey = none ∧
      dataConfigPathChecked (.ofStr "/wow") cutKey = none ∧
      dataConfigPathChecked (.ofStr "/wow") "/etc/passwd" = some (.ok (.ofStr "/etc/passwd")) ∧
      ¬StaysBelow (.ofStr "/wow") "/etc/passwd" := by
  have hsigned : parseHex16Checked signedKey = some (.ok (Key.constant 0)) := by decide +kernel
  have hescape : dataConfigPathChecked (.ofStr "/wow") "/etc/passwd" =
      some (.ok (.ofStr "/etc/passwd")) := by decide +kernel
  refine ⟨hsigned, fun h => ?_, by decide +kernel, by decide +kernel, by decide +kernel, hescape,
    fun h => ?_⟩
  · have hkey : ¬IsBuildKey (osString signedKey) := by decide +kernel
    exact hkey (h.ok_iff.mp ⟨_, hsigned⟩)
  · obtain ⟨names, -, hnames⟩ := h.below _ hescape
    have hlength := congrArg List.length hnames
    have hshort : (PathBuf.ofStr "/etc/passwd").components.length = 3 := by decide +kernel
    have hlong : (configRoot (.ofStr "/wow")).components.length = 4 := by decide +kernel
    rw [List.length_append, hshort, hlong] at hlength
    omega

end AssetResolver
