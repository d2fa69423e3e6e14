import AssetResolver.Casc.Blte

/-!
# Four- and eight-byte IVs

`decrypt_chunk_with_keys` and the Salsa20 of the formats crate with their **panics**: an index
or a slice out of bounds, and an IV that is longer than the nonce. There are none
(`AssetResolver.Blte.decryptChunkWithKeysChecked_eq`): every access stands behind the test that
it needs, so the function is the one of the model of the container.

The cipher starts from the state of a 128-bit key (`AssetResolver.Blte.salsa20State`), whose
nonce is the IV, filled up with zeros to eight bytes and combined with the number of the chunk
(`AssetResolver.Blte.initializeSalsa20State_eq`). So an IV of four bytes **is** the one of eight
bytes that ends with four zeros. Only the parser tells them apart: it refuses less than 17 bytes
before it has read the size of the IV, and the header with an IV of four bytes has 15
(`AssetResolver.Blte.ivs_agree_iff`).
-/

namespace AssetResolver

namespace Blte

/-! ### The cipher -/

/-- The words that some bytes spell, four bytes each: `u32::from_le_bytes` over
`chunks_exact(4)`. -/
def words : List UInt8 → List UInt32
  | a :: b :: c :: d :: rest => UInt32.ofNat (leNat [a, b, c, d]) :: words rest
  | _ => []

/-- `state[start + index] = word`, for the words of a key or a nonce. -/
def putWords (state : List UInt32) (start : ℕ) : List UInt32 → Option (List UInt32)
  | [] => some state
  | word :: rest =>
    if start < state.length then putWords (state.set start word) (start + 1) rest else none

/-- `nonce[..iv.len()].copy_from_slice(iv)`, of eight zeros. -/
def paddedNonce (iv : List UInt8) : Option (List UInt8) :=
  if iv.length ≤ 8 then some (iv ++ List.replicate (8 - iv.length) 0) else none

/-- The index of the block, combined with the first four bytes of the nonce. -/
def xorIndex (nonce : List UInt8) (blockIndex : ℕ) : List UInt8 :=
  List.zipWith (· ^^^ ·) (nonce.take 4) (leBytes 8 blockIndex) ++ nonce.drop 4

/-- The constants of a 128-bit key, in an empty state. -/
def emptyState : List UInt32 :=
  ((((List.replicate 16 (0 : UInt32)).set 0 0x61707865).set 5 0x3120646e).set 10 0x79622d36).set
    15 0x6b206574

/-- `initialize_salsa20_state`. The two loops over the key are one in the source. -/
def initializeSalsa20State (key : Key) (iv : List UInt8) (blockIndex : ℕ) :
    Option (List UInt32) :=
  match paddedNonce iv with
  | none => none
  | some nonce =>
    (putWords emptyState 1 (words key.bytes)).bind fun state =>
      (putWords state 11 (words key.bytes)).bind fun state =>
        putWords state 6 (words (xorIndex nonce blockIndex))

/-- The code of other crates that decoding a chunk uses. -/
structure Crates where
  /-- The hash, the decompressors and the other cipher. -/
  codecs : Codecs
  /-- `TactKeyStore::get`. -/
  get : TactKeyStore → UInt64 → Option Key
  /-- `Salsa20::from_core` and `try_apply_keystream`: a state and the bytes. -/
  applyKeystream : List UInt32 → List UInt8 → Except String (List UInt8)

/-- `decrypt_salsa20`. Its error is shown as one of the container. -/
def decryptSalsa20 (crates : Crates) (data : List UInt8) (key : Key) (iv : List UInt8)
    (blockIndex : ℕ) : Option (Except String (List UInt8)) :=
  (initializeSalsa20State key iv blockIndex).map fun state =>
    (crates.applyKeystream state data).mapError fun e =>
      s!"compression error: Salsa20 keystream exhausted: {e}"

/-! ### The parser -/

/-- `&data[start..stop]`. -/
def sliceBytes (data : List UInt8) (start stop : ℕ) : Option (List UInt8) :=
  if start ≤ stop ∧ stop ≤ data.length then some ((data.drop start).take (stop - start)) else none

/-- The `match` on the cipher. -/
def decryptData (crates : Crates) (cipher : EncryptionType) (encryptedData : List UInt8)
    (key : Key) (iv : List UInt8) (blockIndex : ℕ) :
    Option (Except BlteError (List UInt8)) :=
  match cipher with
  | .salsa20 =>
    (decryptSalsa20 crates encryptedData key iv blockIndex).map fun decrypted =>
      decrypted.mapError fun e => .compressionError s!"Salsa20 decryption failed: {e}"
  | .arc4 =>
    match crates.codecs.arc4 key.bytes with
    | .error e => some (.error (.compressionError s!"ARC4 initialization failed: {e}"))
    | .ok cipher => some (.ok (cipher encryptedData))

/-- `decrypt_chunk_with_keys`, `none` where it panics. -/
def decryptChunkWithKeysChecked (crates : Crates) (keys : TactKeyStore) (data : List UInt8)
    (blockIndex : ℕ) : Option (Except BlteError (List UInt8)) :=
  if data.length < 17 then
    some (.error (.compressionError
      s!"Encrypted chunk too short: {data.length} bytes (minimum 17)"))
  else
    data[0]?.bind fun keyNameSize =>
    if keyNameSize ≠ 8 then
      some (.error (.compressionError s!"Invalid key name size: {keyNameSize} (expected 8)"))
    else if data.length < 1 + 8 then
      some (.error (.compressionError "Encrypted chunk too short for key name"))
    else
      (sliceBytes data 1 (1 + 8)).bind fun keyNameBytes =>
      let keyName := UInt64.ofNat (leNat keyNameBytes)
      if data.length < 9 + 1 then
        some (.error (.compressionError "Encrypted chunk too short for IV size"))
      else
        data[9]?.bind fun ivSize =>
        if ivSize ≠ 4 ∧ ivSize ≠ 8 then
          some (.error (.compressionError s!"Invalid IV size: {ivSize} (expected 4 or 8)"))
        else if data.length < 10 + ivSize.toNat then
          some (.error (.compressionError "Encrypted chunk too short for IV"))
        else
          (sliceBytes data 10 (10 + ivSize.toNat)).bind fun iv =>
          let offset := 10 + ivSize.toNat
          if data.length < offset + 1 then
            some (.error (.compressionError "Encrypted chunk too short for encryption type"))
          else
            data[offset]?.bind fun encryptionType =>
            match EncryptionType.fromByte encryptionType with
            | none =>
              some (.error (.compressionError
                s!"Unknown encryption type: 0x{upperHex 2 encryptionType.toNat}"))
            | some cipher =>
              match crates.get keys keyName with
              | none => some (.error (.keyNotFound keyName))
              | some key =>
                (sliceBytes data (offset + 1) data.length).bind fun encryptedData =>
                (decryptData crates cipher encryptedData key iv blockIndex).map fun decrypted =>
                decrypted.bind (decompressDecrypted crates.codecs)

/-! ### The state that the cipher starts from -/

/-- `expand 16-byte k`: the constants of a 128-bit key. -/
def expand16 : List UInt8 := osString "expand 16-byte k"

/-- **The state of Salsa20 for a key of 128 bits**: the key stands in it twice, the nonce and a
counter of zero between them, and the constants on the diagonal. -/
def salsa20State (key nonce : List UInt8) : List UInt32 :=
  words (expand16.take 4) ++ words key ++ words ((expand16.drop 4).take 4) ++ words nonce ++
    [0, 0] ++ words ((expand16.drop 8).take 4) ++ words key ++ words (expand16.drop 12)

/-- The nonce of a block: the IV, filled up to eight bytes, with the index of the block
combined into the first four. -/
def blockNonce (iv : List UInt8) (blockIndex : ℕ) : List UInt8 :=
  List.zipWith (· ^^^ ·) ((iv ++ List.replicate (8 - iv.length) 0).take 4) (leBytes 4 blockIndex) ++
    (iv ++ List.replicate (8 - iv.length) 0).drop 4

/-- Eight bytes spell two words. -/
theorem words_of_length_eight {bytes : List UInt8} (h : bytes.length = 8) :
    ∃ v w, words bytes = [v, w] := by
  match bytes, h with
  | [_, _, _, _, _, _, _, _], _ => exact ⟨_, _, rfl⟩

/-- A key spells four words. -/
theorem words_of_length_sixteen {bytes : List UInt8} (h : bytes.length = 16) :
    ∃ v w x y, words bytes = [v, w, x, y] := by
  match bytes, h with
  | [_, _, _, _, _, _, _, _, _, _, _, _, _, _, _, _], _ => exact ⟨_, _, _, _, rfl⟩

/-- Only the four lowest bytes of the index are used. -/
theorem xorIndex_eq {nonce : List UInt8} (h : nonce.length = 8) (blockIndex : ℕ) :
    xorIndex nonce blockIndex =
      List.zipWith (· ^^^ ·) (nonce.take 4) (leBytes 4 blockIndex) ++ nonce.drop 4 := by
  match nonce, h with
  | [_, _, _, _, _, _, _, _], _ => rfl

theorem length_padded {iv : List UInt8} (h : iv.length ≤ 8) :
    (iv ++ List.replicate (8 - iv.length) 0).length = 8 := by
  rw [List.length_append, List.length_replicate]
  omega

@[simp] theorem length_blockNonce {iv : List UInt8} (h : iv.length ≤ 8) (blockIndex : ℕ) :
    (blockNonce iv blockIndex).length = 8 := by
  rw [blockNonce, List.length_append, List.length_zipWith, List.length_take, List.length_drop,
    length_leBytes, length_padded h]
  rfl

/-- **The state is the one of a 128-bit key**, and no index is out of bounds. -/
theorem initializeSalsa20State_eq (key : Key) {iv : List UInt8} (h : iv.length ≤ 8)
    (blockIndex : ℕ) :
    initializeSalsa20State key iv blockIndex =
      some (salsa20State key.bytes (blockNonce iv blockIndex)) := by
  have hnonce : xorIndex (iv ++ List.replicate (8 - iv.length) 0) blockIndex =
      blockNonce iv blockIndex := xorIndex_eq (length_padded h) blockIndex
  obtain ⟨k₀, k₁, k₂, k₃, hkey⟩ := words_of_length_sixteen key.length_eq
  obtain ⟨n₀, n₁, hwords⟩ := words_of_length_eight (length_blockNonce h blockIndex)
  rw [initializeSalsa20State, paddedNonce, if_pos h]
  change ((putWords emptyState 1 (words key.bytes)).bind fun state =>
    (putWords state 11 (words key.bytes)).bind fun state =>
      putWords state 6 (words (xorIndex _ blockIndex))) = _
  rw [hnonce, salsa20State, hkey, hwords]
  rfl

/-- An IV of eight bytes is the nonce, but for the index. -/
theorem blockNonce_of_length_eight {iv : List UInt8} (h : iv.length = 8) (blockIndex : ℕ) :
    blockNonce iv blockIndex =
      List.zipWith (· ^^^ ·) (iv.take 4) (leBytes 4 blockIndex) ++ iv.drop 4 := by
  rw [blockNonce, h, Nat.sub_self, List.replicate_zero, List.append_nil]

/-- **An IV of four bytes is one of eight that ends with zeros.** -/
theorem blockNonce_append_zeros {iv : List UInt8} (h : iv.length = 4) (blockIndex : ℕ) :
    blockNonce (iv ++ [0, 0, 0, 0]) blockIndex = blockNonce iv blockIndex := by
  match iv, h with
  | [_, _, _, _], _ => rfl

/-! ### There are no panics -/

/-- The code of other crates as the model of the container takes it: with the cipher that
starts from the state of the key and the nonce. -/
def Crates.toCodecs (crates : Crates) : Codecs :=
  { crates.codecs with
    salsa20 := fun key iv blockIndex data =>
      (crates.applyKeystream (salsa20State key (blockNonce iv blockIndex)) data).mapError fun e =>
        s!"compression error: Salsa20 keystream exhausted: {e}"
    get := fun keys keyName => (crates.get keys keyName).map Key.bytes }

section Checked

variable {crates : Crates} {keys : TactKeyStore} {data : List UInt8} {blockIndex : ℕ}

theorem getElem?_eq_some_getD {i : ℕ} (h : i < data.length) :
    data[i]? = some (data.getD i 0) := by
  rw [List.getD_eq_getElem?_getD, List.getElem?_eq_getElem h, Option.getD_some]

theorem drop_eq_getD_cons {i : ℕ} (h : i < data.length) :
    data.drop i = data.getD i 0 :: data.drop (i + 1) := by
  rw [List.getD_eq_getElem?_getD, List.getElem?_eq_getElem h, Option.getD_some,
    List.getElem_cons_drop]

theorem sliceBytes_eq {start stop : ℕ} (h : start ≤ stop) (hstop : stop ≤ data.length) :
    sliceBytes data start stop = some ((data.drop start).take (stop - start)) :=
  if_pos ⟨h, hstop⟩

/-- The bytes behind the header. -/
theorem sliceBytes_to_length {start : ℕ} (h : start ≤ data.length) :
    sliceBytes data start data.length = some (data.drop start) := by
  rw [sliceBytes_eq h (Nat.le_refl _)]
  exact congrArg some (List.take_of_length_le (Nat.le_of_eq List.length_drop))

/-- What was encrypted is decompressed by other code. -/
theorem decompressDecrypted_toCodecs :
    decompressDecrypted crates.toCodecs = decompressDecrypted crates.codecs := by
  funext decrypted
  cases decrypted <;> rfl

/-- The cipher does not panic on an IV that the parser lets through. -/
theorem decryptData_eq (crates : Crates) (chunk : EncryptedChunk) (hiv : chunk.iv.length ≤ 8)
    (key : Key) (blockIndex : ℕ) :
    decryptData crates chunk.cipher chunk.encryptedData key chunk.iv blockIndex =
      some (decrypt crates.toCodecs chunk key.bytes blockIndex) := by
  unfold decryptData decrypt
  cases chunk.cipher with
  | salsa20 =>
    simp only [decryptSalsa20, initializeSalsa20State_eq key hiv, Option.map_some]
    rfl
  | arc4 =>
    change (match crates.codecs.arc4 key.bytes with | .error e => _ | .ok cipher => _) =
      some (match crates.codecs.arc4 key.bytes with | .error e => _ | .ok cipher => _)
    cases crates.codecs.arc4 key.bytes <;> rfl

/-- **There are no panics**: every access stands behind the test that it needs. The tests for
the name of the key and the size of the IV never fail, as 17 bytes have both. -/
theorem decryptChunkWithKeysChecked_eq :
    decryptChunkWithKeysChecked crates keys data blockIndex =
      some (decryptChunkWithKeys crates.toCodecs keys data blockIndex) := by
  unfold decryptChunkWithKeysChecked decryptChunkWithKeys readEncrypted
  by_cases hshort : data.length < 17
  · rw [if_pos hshort, if_pos hshort]
    rfl
  rw [if_neg hshort, if_neg hshort, getElem?_eq_some_getD (by omega), Option.bind_some]
  by_cases hname : data.getD 0 0 ≠ 8
  · rw [if_pos hname, if_pos hname]
    rfl
  rw [if_neg hname, if_neg hname, if_neg (by omega), sliceBytes_eq (by omega) (by omega),
    Option.bind_some]
  change (if data.length < 9 + 1 then _ else _) = _
  rw [if_neg (by omega), getElem?_eq_some_getD (by omega), Option.bind_some]
  by_cases hsize : data.getD 9 0 ≠ 4 ∧ data.getD 9 0 ≠ 8
  · rw [if_pos hsize, if_pos hsize]
    rfl
  rw [if_neg hsize, if_neg hsize]
  by_cases hiv : data.length < 10 + (data.getD 9 0).toNat
  · rw [if_pos hiv, if_pos hiv]
    rfl
  rw [if_neg hiv, if_neg hiv, sliceBytes_eq (by omega) (by omega), Option.bind_some]
  change (if data.length < 10 + (data.getD 9 0).toNat + 1 then _ else _) = _
  by_cases htype : data.length < 10 + (data.getD 9 0).toNat + 1
  · rw [if_pos htype, if_pos htype]
    rfl
  rw [if_neg htype, if_neg htype, getElem?_eq_some_getD (by omega), Option.bind_some]
  have hlength : ((data.drop 10).take (data.getD 9 0).toNat).length ≤ 8 := by
    rw [List.length_take]
    have hle : (data.getD 9 0).toNat ≤ 8 := by
      by_cases hfour : data.getD 9 0 = 4
      · rw [hfour]
        decide
      · rw [not_not.mp fun height => hsize ⟨hfour, height⟩]
        decide
    omega
  cases EncryptionType.fromByte (data.getD (10 + (data.getD 9 0).toNat) 0) with
  | none => rfl
  | some cipher =>
    have hget : ∀ keyName, crates.toCodecs.get keys keyName =
        (crates.get keys keyName).map Key.bytes := fun _ => rfl
    change (match crates.get keys (UInt64.ofNat (leNat ((data.drop 1).take 8))) with
      | none => _ | some key => _) = some (((crates.toCodecs.get keys _).elim _ _) >>= _)
    rw [hget]
    cases crates.get keys (UInt64.ofNat (leNat ((data.drop 1).take 8))) with
    | none => rfl
    | some key =>
      rw [Option.map_some, Option.elim_some]
      change ((sliceBytes data _ data.length).bind _) = _
      rw [sliceBytes_to_length (by omega), Option.bind_some, Nat.add_sub_cancel_left]
      have hdecrypt := decryptData_eq crates
        ⟨UInt64.ofNat (leNat ((data.drop 1).take 8)), (data.drop 10).take (data.getD 9 0).toNat,
          cipher, data.drop (10 + (data.getD 9 0).toNat + 1)⟩ hlength key blockIndex
      rw [hdecrypt, Option.map_some, ← decompressDecrypted_toCodecs]
      rfl

end Checked

/-! ### What the header says -/

/-- A chunk of a key, an IV, a type and the bytes behind them: `encrypted_chunk` of the
tests, and what `encrypt_chunk_with_key` puts together. -/
def encryptedChunk (keyName : UInt64) (iv : List UInt8) (encryptionType : UInt8)
    (ciphertext : List UInt8) : List UInt8 :=
  8 :: (leBytes 8 keyName.toNat ++
    (UInt8.ofNat iv.length :: (iv ++ encryptionType :: ciphertext)))

/-- A chunk has a complete header, and this is the name of the key in it. -/
def HasHeader (data : List UInt8) (keyName : UInt64) : Prop :=
  ∃ iv encryptionType ciphertext, (iv.length = 4 ∨ iv.length = 8) ∧
    (EncryptionType.fromByte encryptionType).isSome ∧
    data = encryptedChunk keyName iv encryptionType ciphertext

section Header

variable {keyName : UInt64} {iv ciphertext data : List UInt8} {encryptionType : UInt8}

@[simp] theorem length_encryptedChunk :
    (encryptedChunk keyName iv encryptionType ciphertext).length =
      11 + iv.length + ciphertext.length := by
  simp only [encryptedChunk, List.length_cons, List.length_append, length_leBytes]
  omega

/-- The bytes behind the first nine. -/
theorem drop_encryptedChunk :
    (encryptedChunk keyName iv encryptionType ciphertext).drop 9 =
      UInt8.ofNat iv.length :: (iv ++ encryptionType :: ciphertext) := by
  have hlength := length_leBytes 8 keyName.toNat
  rw [encryptedChunk, List.drop_succ_cons, List.drop_left' hlength]

theorem getD_encryptedChunk (i : ℕ) :
    (encryptedChunk keyName iv encryptionType ciphertext).getD (9 + i) 0 =
      (UInt8.ofNat iv.length :: (iv ++ encryptionType :: ciphertext)).getD i 0 := by
  have hdrop : (encryptedChunk keyName iv encryptionType ciphertext).drop 9 = _ :=
    drop_encryptedChunk
  rw [← hdrop, List.getD_eq_getElem?_getD, List.getD_eq_getElem?_getD, List.getElem?_drop]

/-- What the parser tests, and what it reads. -/
theorem readEncrypted_eq_ok_iff {chunk : EncryptedChunk} :
    readEncrypted data = .ok chunk ↔
      17 ≤ data.length ∧ data.getD 0 0 = 8 ∧ (data.getD 9 0 = 4 ∨ data.getD 9 0 = 8) ∧
        11 + (data.getD 9 0).toNat ≤ data.length ∧
        ∃ cipher, EncryptionType.fromByte (data.getD (10 + (data.getD 9 0).toNat) 0) = some cipher ∧
          chunk = ⟨UInt64.ofNat (leNat ((data.drop 1).take 8)),
            (data.drop 10).take (data.getD 9 0).toNat, cipher,
            data.drop (10 + (data.getD 9 0).toNat + 1)⟩ := by
  dsimp only [readEncrypted]
  constructor
  · intro h
    split_ifs at h with hshort hname hsize hiv htype
    cases hcipher : EncryptionType.fromByte (data.getD (10 + (data.getD 9 0).toNat) 0) with
    | none =>
      rw [hcipher] at h
      cases h
    | some cipher =>
      rw [hcipher] at h
      refine ⟨by omega, not_not.mp hname, ?_, by omega, cipher, rfl, (Except.ok.inj h).symm⟩
      by_cases hfour : data.getD 9 0 = 4
      · exact .inl hfour
      · exact .inr (not_not.mp fun height => hsize ⟨hfour, height⟩)
  · rintro ⟨hlength, hname, hsize, htype, cipher, hcipher, rfl⟩
    have hallowed : ¬(data.getD 9 0 ≠ 4 ∧ data.getD 9 0 ≠ 8) := by
      rintro ⟨hfour, height⟩
      exact hsize.elim hfour height
    rw [if_neg (by omega), if_neg (not_not.mpr hname), if_neg hallowed, if_neg (by omega),
      if_neg (by omega), hcipher]

/-- **An error of the parser is never that of a missing key.** -/
theorem compressionError_of_readEncrypted {e : BlteError} (h : readEncrypted data = .error e) :
    ∃ text, e = .compressionError text := by
  dsimp only [readEncrypted] at h
  split_ifs at h
  · exact ⟨_, (Except.error.inj h).symm⟩
  · exact ⟨_, (Except.error.inj h).symm⟩
  · exact ⟨_, (Except.error.inj h).symm⟩
  · exact ⟨_, (Except.error.inj h).symm⟩
  · exact ⟨_, (Except.error.inj h).symm⟩
  · cases hcipher : EncryptionType.fromByte (data.getD (10 + (data.getD 9 0).toNat) 0) with
    | none =>
      rw [hcipher] at h
      exact ⟨_, (Except.error.inj h).symm⟩
    | some cipher =>
      rw [hcipher] at h
      cases h

/-- The name of the key stands behind its size. -/
theorem keyName_encryptedChunk :
    UInt64.ofNat (leNat (((encryptedChunk keyName iv encryptionType ciphertext).drop 1).take 8)) =
      keyName := by
  have hlt : keyName.toNat < 256 ^ 8 := keyName.toNat_lt
  rw [encryptedChunk, List.drop_succ_cons, List.drop_zero,
    List.take_left' (length_leBytes 8 keyName.toNat), leNat_leBytes, Nat.mod_eq_of_lt hlt,
    UInt64.ofNat_toNat]

/-- The bytes behind the size of the IV. -/
theorem drop_ten_encryptedChunk :
    (encryptedChunk keyName iv encryptionType ciphertext).drop 10 =
      iv ++ encryptionType :: ciphertext := by
  rw [show 10 = 9 + 1 from rfl, ← List.drop_drop, drop_encryptedChunk, List.drop_succ_cons,
    List.drop_zero]

theorem encryptionType_encryptedChunk :
    (encryptedChunk keyName iv encryptionType ciphertext).getD (10 + iv.length) 0 =
      encryptionType := by
  have hindex : 10 + iv.length = 9 + (iv.length + 1) := by omega
  rw [hindex, getD_encryptedChunk, List.getD_cons_succ, List.getD_eq_getElem?_getD,
    List.getElem?_append_right (Nat.le_refl _), Nat.sub_self]
  rfl

/-- The ciphertext is all that stands behind the header. -/
theorem ciphertext_encryptedChunk :
    (encryptedChunk keyName iv encryptionType ciphertext).drop (10 + iv.length + 1) =
      ciphertext := by
  rw [Nat.add_assoc, ← List.drop_drop, drop_ten_encryptedChunk, ← List.drop_drop, List.drop_left]
  rfl

/-- **A complete header is read**, if there are 17 bytes. -/
theorem readEncrypted_encryptedChunk (hiv : iv.length = 4 ∨ iv.length = 8)
    (hlength : 17 ≤ 11 + iv.length + ciphertext.length) {cipher : EncryptionType}
    (hcipher : EncryptionType.fromByte encryptionType = some cipher) :
    readEncrypted (encryptedChunk keyName iv encryptionType ciphertext) =
      .ok ⟨keyName, iv, cipher, ciphertext⟩ := by
  have hsize : (encryptedChunk keyName iv encryptionType ciphertext).getD 9 0 =
      UInt8.ofNat iv.length := getD_encryptedChunk 0
  have htoNat : (UInt8.ofNat iv.length).toNat = iv.length := by
    rw [UInt8.toNat_ofNat']
    omega
  refine readEncrypted_eq_ok_iff.mpr ⟨?_, rfl, ?_, ?_, cipher, ?_, ?_⟩
  · rw [length_encryptedChunk]
    exact hlength
  · rw [hsize]
    exact hiv.imp (congrArg UInt8.ofNat) (congrArg UInt8.ofNat)
  · rw [length_encryptedChunk, hsize, htoNat]
    omega
  · rw [hsize, htoNat, encryptionType_encryptedChunk]
    exact hcipher
  · rw [hsize, htoNat, keyName_encryptedChunk, drop_ten_encryptedChunk, List.take_left,
      ciphertext_encryptedChunk]

/-- **What is read is a complete header.** -/
theorem hasHeader_of_readEncrypted {chunk : EncryptedChunk} (h : readEncrypted data = .ok chunk) :
    HasHeader data chunk.keyName := by
  obtain ⟨hlength, hname, hsize, htype, cipher, hcipher, rfl⟩ := readEncrypted_eq_ok_iff.mp h
  have hiv : ((data.drop 10).take (data.getD 9 0).toNat).length = (data.getD 9 0).toNat := by
    rw [List.length_take, List.length_drop]
    omega
  have hspelled : leBytes 8 (UInt64.ofNat (leNat ((data.drop 1).take 8))).toNat =
      (data.drop 1).take 8 := by
    have height : ((data.drop 1).take 8).length = 8 := by
      rw [List.length_take, List.length_drop]
      omega
    have hlt : leNat ((data.drop 1).take 8) < 2 ^ 64 := by
      have h := leNat_lt ((data.drop 1).take 8)
      rw [height] at h
      exact h
    have hread := leBytes_leNat ((data.drop 1).take 8)
    rw [height] at hread
    rw [UInt64.toNat_ofNat', Nat.mod_eq_of_lt hlt, hread]
  have hbehind : data.drop 10 = (data.drop 10).take (data.getD 9 0).toNat ++
      data.getD (10 + (data.getD 9 0).toNat) 0 :: data.drop (10 + (data.getD 9 0).toNat + 1) := by
    rw [← drop_eq_getD_cons (by omega), ← List.drop_drop, List.take_append_drop]
  have hdata : data = data.getD 0 0 :: ((data.drop 1).take 8 ++
      data.getD 9 0 :: data.drop 10) := by
    rw [← drop_eq_getD_cons (by omega), show 9 = 1 + 8 from rfl, ← List.drop_drop,
      List.take_append_drop, ← drop_eq_getD_cons (by omega), List.drop_zero]
  refine ⟨(data.drop 10).take (data.getD 9 0).toNat, data.getD (10 + (data.getD 9 0).toNat) 0,
    data.drop (10 + (data.getD 9 0).toNat + 1), ?_, ?_, ?_⟩
  · rw [hiv]
    exact hsize.imp (congrArg UInt8.toNat) (congrArg UInt8.toNat)
  · rw [hcipher]
    rfl
  · rw [encryptedChunk, hspelled, hiv, UInt8.ofNat_toNat, ← hbehind]
    exact hdata.trans (by rw [hname])

end Header

/-! ### What goes wrong behind the header -/

/-- A text does not begin as those of the parser do. -/
def BeginsOtherwise (text : String) : Prop := text.toList.head?.any (· ≠ 'E')

instance : DecidablePred BeginsOtherwise := fun text =>
  inferInstanceAs (Decidable (text.toList.head?.any (· ≠ 'E') = true))

/-- A text begins with its first piece. -/
theorem BeginsOtherwise.append {piece : String} (h : BeginsOtherwise piece) (rest : String) :
    BeginsOtherwise (piece ++ rest) := by
  unfold BeginsOtherwise at *
  rw [String.toList_append]
  cases hpiece : piece.toList with
  | nil =>
    rw [hpiece] at h
    cases h
  | cons c cs =>
    rw [hpiece] at h
    exact h

theorem BeginsOtherwise.of_append {piece rest : String} (h : BeginsOtherwise (piece ++ rest))
    (hpiece : piece.toList ≠ []) : BeginsOtherwise piece := by
  unfold BeginsOtherwise at *
  rw [String.toList_append, List.head?_append_of_ne_nil _ hpiece] at h
  exact h

/-- An error of the part behind the header: it is not that of a missing key, and not one of
the parser. -/
def BlteError.OfPayload : BlteError → Prop
  | .compressionError text => BeginsOtherwise text
  | .keyNotFound _ => False
  | _ => True

section Payload

variable {codecs : Codecs} {data : List UInt8} {e : BlteError}

theorem ofPayload_inflate {pieces : List (List UInt8)} {failure : Option String}
    {decompressed : List UInt8} (h : inflate decompressed pieces failure = .error e) :
    e.OfPayload := by
  induction pieces generalizing decompressed with
  | nil =>
    cases failure with
    | none => cases h
    | some text =>
      obtain rfl := Except.error.inj h
      exact BeginsOtherwise.append (by decide) _
  | cons piece pieces ih =>
    rw [inflate] at h
    split_ifs at h
    · obtain rfl := Except.error.inj h
      exact BeginsOtherwise.append (by decide) _
    · exact ih h

theorem ofPayload_decompressLz4 (h : decompressLz4 codecs data = .error e) : e.OfPayload := by
  dsimp only [decompressLz4] at h
  split_ifs at h
  · obtain rfl := Except.error.inj h
    change BeginsOtherwise _
    decide
  · obtain rfl := Except.error.inj h
    exact (((BeginsOtherwise.append (by decide) _).append _).append _).append _
  · cases hlz4 : codecs.lz4 (data.drop 8) (leNat (data.take 8)) with
    | error text =>
      rw [hlz4] at h
      obtain rfl := Except.error.inj h
      exact BeginsOtherwise.append (by decide) _
    | ok decompressed =>
      rw [hlz4] at h
      dsimp only at h
      split_ifs at h
      obtain rfl := Except.error.inj h
      exact (((BeginsOtherwise.append (by decide) _).append _).append _)

theorem ofPayload_decompressChunk {mode : CompressionMode}
    (h : decompressChunk codecs data mode = .error e) : e.OfPayload := by
  cases mode with
  | none => cases h
  | zlib => exact ofPayload_inflate h
  | lz4 => exact ofPayload_decompressLz4 h
  | encrypted =>
    obtain rfl := Except.error.inj h
    change BeginsOtherwise _
    decide
  | frame =>
    obtain rfl := Except.error.inj h
    trivial

theorem ofPayload_decompressDecrypted (h : decompressDecrypted codecs data = .error e) :
    e.OfPayload := by
  cases data with
  | nil => cases h
  | cons byte rest =>
    rw [decompressDecrypted] at h
    cases hmode : CompressionMode.fromByte byte with
    | none =>
      rw [hmode] at h
      cases h
    | some mode =>
      rw [hmode] at h
      dsimp only at h
      split_ifs at h
      exact ofPayload_decompressChunk h

theorem ofPayload_decrypt {chunk : EncryptedChunk} {key : List UInt8} {index : ℕ}
    (h : decrypt codecs chunk key index = .error e) : e.OfPayload := by
  unfold decrypt at h
  cases hcipher : chunk.cipher with
  | salsa20 =>
    rw [hcipher] at h
    dsimp only at h
    cases hsalsa20 : codecs.salsa20 key chunk.iv index chunk.encryptedData with
    | error text =>
      rw [hsalsa20] at h
      obtain rfl := Except.error.inj h
      exact BeginsOtherwise.append (by decide) _
    | ok decrypted =>
      rw [hsalsa20] at h
      cases h
  | arc4 =>
    rw [hcipher] at h
    dsimp only at h
    cases harc4 : codecs.arc4 key with
    | error text =>
      rw [harc4] at h
      obtain rfl := Except.error.inj h
      exact BeginsOtherwise.append (by decide) _
    | ok cipher =>
      rw [harc4] at h
      cases h

/-- **Behind a header** only its key can be missing. -/
theorem error_of_header {keys : TactKeyStore} {chunk : EncryptedChunk} {index : ℕ}
    (hread : readEncrypted data = .ok chunk)
    (h : decryptChunkWithKeys codecs keys data index = .error e) :
    e = .keyNotFound chunk.keyName ∨ e.OfPayload := by
  rw [decryptChunkWithKeys, hread] at h
  change (((codecs.get keys chunk.keyName).elim
    (Except.error (BlteError.keyNotFound chunk.keyName)) Except.ok) >>= _) = _ at h
  cases hget : codecs.get keys chunk.keyName with
  | none =>
    rw [hget] at h
    exact .inl (Except.error.inj h).symm
  | some key =>
    rw [hget] at h
    change (decrypt codecs chunk key index >>= _) = _ at h
    cases hdecrypt : decrypt codecs chunk key index with
    | error e' =>
      rw [hdecrypt] at h
      obtain rfl := Except.error.inj h
      exact .inr (ofPayload_decrypt hdecrypt)
    | ok decrypted =>
      rw [hdecrypt] at h
      exact .inr (ofPayload_decompressDecrypted h)

/-- What the parser refuses is refused with its error. -/
theorem decryptChunkWithKeys_of_error {keys : TactKeyStore} {index : ℕ}
    (hread : readEncrypted data = .error e) :
    decryptChunkWithKeys codecs keys data index = .error e := by
  rw [decryptChunkWithKeys, hread]
  rfl

/-- **A key that is reported missing is named by a complete header.** -/
theorem hasHeader_of_keyNotFound {keys : TactKeyStore} {index : ℕ} {keyName : UInt64}
    (h : decryptChunkWithKeys codecs keys data index = .error (.keyNotFound keyName)) :
    HasHeader data keyName := by
  cases hread : readEncrypted data with
  | error e =>
    obtain ⟨text, rfl⟩ := compressionError_of_readEncrypted hread
    rw [decryptChunkWithKeys_of_error hread] at h
    cases h
  | ok chunk =>
    rcases error_of_header hread h with hname | hpayload
    · obtain rfl := BlteError.keyNotFound.inj hname
      exact hasHeader_of_readEncrypted hread
    · exact hpayload.elim

/-- **A header that ends early, or an IV of another size, is an error of the parser.** -/
theorem compressionError_of_malformed {keys : TactKeyStore} {index : ℕ}
    (h : data.length < 11 + (data.getD 9 0).toNat ∨ (data.getD 9 0 ≠ 4 ∧ data.getD 9 0 ≠ 8)) :
    ∃ text, decryptChunkWithKeys codecs keys data index = .error (.compressionError text) := by
  cases hread : readEncrypted data with
  | error e =>
    obtain ⟨text, rfl⟩ := compressionError_of_readEncrypted hread
    exact ⟨text, decryptChunkWithKeys_of_error hread⟩
  | ok chunk =>
    obtain ⟨-, -, hsize, hlength, -⟩ := readEncrypted_eq_ok_iff.mp hread
    rcases h with hshort | ⟨hfour, height⟩
    · omega
    · exact (hsize.elim hfour height).elim

end Payload

/-! ### Two sizes of the IV -/

section Ivs

variable {crates : Crates} {keys : TactKeyStore} {keyName : UInt64} {iv ciphertext : List UInt8}
  {blockIndex : ℕ}

theorem length_append_zeros (hiv : iv.length = 4) : (iv ++ [0, 0, 0, 0]).length = 8 := by
  rw [List.length_append, hiv]
  rfl

/-- The cipher does not see which of the two the IV was. -/
theorem decrypt_append_zeros (hiv : iv.length = 4) (key : List UInt8) :
    decrypt crates.toCodecs ⟨keyName, iv ++ [0, 0, 0, 0], .salsa20, ciphertext⟩ key blockIndex =
      decrypt crates.toCodecs ⟨keyName, iv, .salsa20, ciphertext⟩ key blockIndex := by
  have hnonce := blockNonce_append_zeros hiv blockIndex
  change (Except.mapError _ (Except.mapError _ (crates.applyKeystream (salsa20State key
    (blockNonce (iv ++ [0, 0, 0, 0]) blockIndex)) ciphertext))) = _
  rw [hnonce]
  rfl

/-- **With 17 bytes** the results are the same. -/
theorem decryptChunkWithKeys_append_zeros (hiv : iv.length = 4) (h : 2 ≤ ciphertext.length) :
    decryptChunkWithKeys crates.toCodecs keys (encryptedChunk keyName iv 0x53 ciphertext)
        blockIndex =
      decryptChunkWithKeys crates.toCodecs keys
        (encryptedChunk keyName (iv ++ [0, 0, 0, 0]) 0x53 ciphertext) blockIndex := by
  have hlong := length_append_zeros hiv
  rw [decryptChunkWithKeys, decryptChunkWithKeys,
    readEncrypted_encryptedChunk (.inl hiv) (by omega) rfl,
    readEncrypted_encryptedChunk (.inr hlong) (by omega) rfl]
  change (((crates.toCodecs.get keys keyName).elim _ Except.ok) >>= _) =
    (((crates.toCodecs.get keys keyName).elim _ Except.ok) >>= _)
  cases crates.toCodecs.get keys keyName with
  | none => rfl
  | some key =>
    change (decrypt _ _ key blockIndex >>= _) = (decrypt _ _ key blockIndex >>= _)
    rw [decrypt_append_zeros hiv]

/-- **With less** the shorter chunk is refused by the parser, and the longer one is not. -/
theorem decryptChunkWithKeys_ne_append_zeros (hiv : iv.length = 4) (h : ciphertext.length < 2) :
    decryptChunkWithKeys crates.toCodecs keys (encryptedChunk keyName iv 0x53 ciphertext)
        blockIndex ≠
      decryptChunkWithKeys crates.toCodecs keys
        (encryptedChunk keyName (iv ++ [0, 0, 0, 0]) 0x53 ciphertext) blockIndex := by
  have hlong := length_append_zeros hiv
  have hshort : readEncrypted (encryptedChunk keyName iv 0x53 ciphertext) =
      let size := 11 + iv.length + ciphertext.length
      .error (.compressionError s!"Encrypted chunk too short: {size} bytes (minimum 17)") := by
    dsimp only [readEncrypted]
    rw [length_encryptedChunk, if_pos (by omega)]
  intro heq
  rw [decryptChunkWithKeys_of_error hshort] at heq
  rcases error_of_header (readEncrypted_encryptedChunk (.inr hlong) (by omega) rfl) heq.symm with
    hname | hpayload
  · cases hname
  · change BeginsOtherwise ("Encrypted chunk too short: " ++ _ ++ _) at hpayload
    rw [String.append_assoc] at hpayload
    exact absurd (hpayload.of_append (by decide)) (by decide)

/-- **Two sizes of the IV are one scheme from two bytes of ciphertext on**, and for less they
are not: the header of an IV of four bytes is 15 bytes long, and the parser wants 17. The
nonce of eight bytes is the IV with the index of the block; nothing panics; and a key that is
reported missing is named by a complete header. -/
theorem ivs_agree_iff (crates : Crates) (keys : TactKeyStore) (keyName : UInt64)
    (a b c d : UInt8) (ciphertext : List UInt8) (blockIndex : ℕ) :
    (decryptChunkWithKeysChecked crates keys
          (encryptedChunk keyName [a, b, c, d] 0x53 ciphertext) blockIndex =
        decryptChunkWithKeysChecked crates keys
          (encryptedChunk keyName [a, b, c, d, 0, 0, 0, 0] 0x53 ciphertext) blockIndex ↔
      2 ≤ ciphertext.length) ∧
    (∀ (key : Key) (iv : List UInt8), iv.length = 8 →
      initializeSalsa20State key iv blockIndex = some (salsa20State key.bytes
        (List.zipWith (· ^^^ ·) (iv.take 4) (leBytes 4 blockIndex) ++ iv.drop 4))) ∧
    ∀ data : List UInt8, ∃ result,
      decryptChunkWithKeysChecked crates keys data blockIndex = some result ∧
      (data.length < 11 + (data.getD 9 0).toNat ∨ (data.getD 9 0 ≠ 4 ∧ data.getD 9 0 ≠ 8) →
        ∃ e, result = .error e ∧ ∀ name, e ≠ .keyNotFound name) ∧
      ∀ name, result = .error (.keyNotFound name) → HasHeader data name := by
  have hiv : [a, b, c, d].length = 4 := rfl
  refine ⟨?_, ?_, ?_⟩
  · rw [decryptChunkWithKeysChecked_eq, decryptChunkWithKeysChecked_eq, Option.some.injEq]
    constructor
    · intro h
      by_contra hshort
      exact decryptChunkWithKeys_ne_append_zeros hiv (by omega) h
    · exact decryptChunkWithKeys_append_zeros hiv
  · intro key iv h
    rw [initializeSalsa20State_eq key (Nat.le_of_eq h), blockNonce_of_length_eight h]
  · intro data
    refine ⟨_, decryptChunkWithKeysChecked_eq, ?_, fun name => hasHeader_of_keyNotFound⟩
    intro h
    obtain ⟨text, herror⟩ := compressionError_of_malformed h
    refine ⟨_, herror, ?_⟩
    intro name hname
    cases hname

end Ivs

/-- A store that is searched by the name of the key, and a keystream of which no byte is used. -/
def sampleCrates : Crates where
  codecs :=
    { zlib := fun _ => ([], some "corrupt deflate stream")
      lz4 := fun _ _ => .error "invalid input"
      salsa20 := fun _ _ _ data => .ok data
      arc4 := fun _ => .ok id
      md5 := fun _ => Key.constant 0
      get := fun _ _ => none
      showParseError := fun _ => "invalid data" }
  get keys name := (keys.find? fun key => key.id = name).bind fun key => Key.tryFrom key.key
  applyKeystream _ data := .ok data

/-- **Nothing, encrypted, is nothing with the longer IV and an error with the shorter one.** -/
theorem ivs_disagree :
    let key : TactKey := ⟨1, List.replicate 16 7⟩
    decryptChunkWithKeysChecked sampleCrates [key] (encryptedChunk 1 [1, 2, 3, 4] 0x53 []) 0 =
      some (.error (.compressionError "Encrypted chunk too short: 15 bytes (minimum 17)")) ∧
    decryptChunkWithKeysChecked sampleCrates [key]
      (encryptedChunk 1 [1, 2, 3, 4, 0, 0, 0, 0] 0x53 []) 0 = some (.ok []) ∧
    decryptChunkWithKeysChecked sampleCrates [key] (encryptedChunk 1 [1, 2, 3, 4] 0x53 []) 0 ≠
      decryptChunkWithKeysChecked sampleCrates [key]
        (encryptedChunk 1 [1, 2, 3, 4, 0, 0, 0, 0] 0x53 []) 0 := by
  decide +kernel

end Blte

end AssetResolver
