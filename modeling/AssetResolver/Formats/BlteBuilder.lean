import AssetResolver.Casc.Holes
import AssetResolver.Casc.Salsa20
import AssetResolver.Formats.BlteContainer

/-!
# Making containers

`ChunkData::new`, `encrypt_chunk_with_key`, the tables of `BlteHeader::multi_chunk` and
`BlteBuilder`, with the compressors and the ciphers of other crates as a parameter that the
decoders undo (`AssetResolver.Blte.Encoders.Inverse`).

Whatever calls make a container, **it decodes to what was added, in the order in which it was
added** (`AssetResolver.Blte.decompress_of_reached`), and it is read back from its bytes
exactly if every chunk of a table is shorter than 4 GiB
(`AssetResolver.Blte.parse_write_build_iff`). Out of an archive, it is the same data
(`AssetResolver.Blte.readEncodingKey_of_reached`), and with fewer keys the same data with holes
(`AssetResolver.Blte.BlteBuilder.holes_of_reached`).

What is asked of a call is what the formats leave no place for: that an encrypted piece without
compression has two bytes (`AssetResolver.Blte.decryptChunkWithKeys_of_short`) and does not begin
with the mark of a mode; that `add_data`, which numbers its chunks from zero in every call, is not
used on top of other chunks with the cipher that the number matters to. With a chunk size of
zero, which `with_chunk_size_unchecked` and `compress` take, a call with data does not come back
(`AssetResolver.Blte.chunksOf_zero_ne_ok`).
-/

namespace AssetResolver

namespace Blte

open ByteReader Layout Program

/-! ### The encoders -/

/-- The compressors and the ciphers, as they are used in writing: the code of other crates. -/
structure Encoders where
  /-- What `ZlibEncoder` writes. -/
  zlib : List UInt8 → Except String (List UInt8)
  /-- What `lz4_flex::block::compress_into` writes. -/
  lz4 : List UInt8 → Except String (List UInt8)
  /-- `encrypt_salsa20`: a key, an IV and the index of the block. -/
  salsa20 : List UInt8 → List UInt8 → ℕ → List UInt8 → Except String (List UInt8)
  /-- `Arc4Cipher::new`, and `encrypt` of what it returns. -/
  arc4 : List UInt8 → Except String (List UInt8 → List UInt8)

/-- **The decoders undo what the encoders do**, as the tests of the builder expect of them. -/
structure Encoders.Inverse (encoders : Encoders) (codecs : Codecs) : Prop where
  /-- The reads of a `ZlibDecoder` return the data, and a compressed stream has a header. -/
  zlib : ∀ data out, encoders.zlib data = .ok out → out ≠ [] ∧ (codecs.zlib out).1.flatten = data ∧
    (∀ piece ∈ (codecs.zlib out).1, piece ≠ []) ∧ (codecs.zlib out).2 = none
  /-- `decompress` is told the size of the data. -/
  lz4 : ∀ data out, encoders.lz4 data = .ok out → codecs.lz4 out data.length = .ok data
  /-- A stream cipher, under the same index: with an IV of four bytes, which is what
  `EncryptionSpec` has. -/
  salsa20 : ∀ (key : Key) iv index data out, iv.length = 4 →
    encoders.salsa20 key.bytes iv index data = .ok out →
      out.length = data.length ∧ codecs.salsa20 key.bytes iv index out = .ok data
  /-- A stream cipher. -/
  arc4 : ∀ (key : Key) encrypt, encoders.arc4 key.bytes = .ok encrypt →
    ∃ decrypt, codecs.arc4 key.bytes = .ok decrypt ∧
      ∀ data, (encrypt data).length = data.length ∧ decrypt (encrypt data) = data

/-- `compress_chunk`. -/
def compressChunk (encoders : Encoders) (data : List UInt8) :
    CompressionMode → Except BlteError (List UInt8)
  | .none => .ok data
  | .zlib =>
    (encoders.zlib data).mapError fun e => .compressionError s!"ZLib compression failed: {e}"
  | .lz4 =>
    ((encoders.lz4 data).map fun compressed => leBytes 8 data.length ++ compressed).mapError
      fun e => .compressionError s!"LZ4 compression failed: {e}"
  | .encrypted => .error (.compressionError "Use encrypt_chunk_with_key for encryption mode")
  | .frame => .error (.unsupportedCompressionMode CompressionMode.frame.asByte)

/-- `EncryptionSpec`. -/
structure EncryptionSpec where
  /-- `key_name`. -/
  keyName : UInt64
  /-- `iv`. -/
  iv : List UInt8
  /-- Four bytes. -/
  length_iv : iv.length = 4
  /-- `encryption_type`. -/
  encryptionType : UInt8

/-- `encrypt_chunk_with_key`. -/
def encryptChunkWithKey (encoders : Encoders) (data : List UInt8) (spec : EncryptionSpec)
    (key : Key) (blockIndex : ℕ) : Except BlteError (List UInt8) :=
  let encrypted : Except BlteError (List UInt8) :=
    match EncryptionType.fromByte spec.encryptionType with
    | some .salsa20 =>
      (encoders.salsa20 key.bytes spec.iv blockIndex data).mapError fun e =>
        .compressionError s!"Salsa20 encryption failed: {e}"
    | some .arc4 =>
      ((encoders.arc4 key.bytes).map fun encrypt => encrypt data).mapError fun e =>
        .compressionError s!"ARC4 initialization failed: {e}"
    | none =>
      .error (.compressionError
        s!"Unknown encryption type: 0x{upperHex 2 spec.encryptionType.toNat}")
  encrypted.map (encryptedChunk spec.keyName spec.iv spec.encryptionType)

section Encoding

variable {encoders : Encoders} {codecs : Codecs} {data out : List UInt8} {mode : CompressionMode}

/-- What the reads return is put together, up to the limit. -/
theorem inflate_of_ne_nil {pieces : List (List UInt8)} {done : List UInt8}
    (hpieces : ∀ piece ∈ pieces, piece ≠ [])
    (hsmall : done.length + pieces.flatten.length ≤ maxDecompressionSize) :
    inflate done pieces none = .ok (done ++ pieces.flatten) := by
  induction pieces generalizing done with
  | nil => rw [inflate, List.flatten_nil, List.append_nil]
  | cons piece pieces ih =>
    rw [List.forall_mem_cons] at hpieces
    rw [List.flatten_cons, List.length_append] at hsmall
    have hpiece : piece.length ≠ 0 := fun hzero => hpieces.1 (List.length_eq_zero_iff.mp hzero)
    rw [inflate, if_neg hpiece, if_neg (by omega), ih hpieces.2 (by rw [List.length_append]; omega),
      List.flatten_cons, List.append_assoc]

/-- Beyond the limit nothing is returned. -/
theorem inflate_of_large {pieces : List (List UInt8)} {done : List UInt8}
    (hpieces : ∀ piece ∈ pieces, piece ≠ []) (hdone : done.length ≤ maxDecompressionSize)
    (hlarge : maxDecompressionSize < done.length + pieces.flatten.length) :
    ∃ e, inflate done pieces none = .error e := by
  induction pieces generalizing done with
  | nil =>
    rw [List.flatten_nil, List.length_nil] at hlarge
    omega
  | cons piece pieces ih =>
    rw [List.forall_mem_cons] at hpieces
    rw [List.flatten_cons, List.length_append] at hlarge
    have hpiece : piece.length ≠ 0 := fun hzero => hpieces.1 (List.length_eq_zero_iff.mp hzero)
    rw [inflate, if_neg hpiece]
    split_ifs with hlimit
    · exact ⟨_, rfl⟩
    · refine ih hpieces.2 ?_ ?_
      · rw [List.length_append]
        omega
      · rw [List.length_append]
        omega

/-- The size in front is read back. -/
theorem decompressLz4_leBytes {compressed : List UInt8} {size : ℕ} (hsize : size < 2 ^ 64) :
    decompressLz4 codecs (leBytes 8 size ++ compressed) =
      if size > maxDecompressionSize then
        .error (.compressionError
          s!"LZ4 decompressed size {size} exceeds limit of {maxDecompressionSize} bytes")
      else
        match codecs.lz4 compressed size with
        | .error e => .error (.compressionError s!"LZ4 decompression failed: {e}")
        | .ok decompressed =>
          if decompressed.length ≠ size then
            .error (.compressionError
              s!"LZ4 decompression size mismatch: expected {size}, got {decompressed.length}")
          else .ok decompressed := by
  have hprefix : (leBytes 8 size ++ compressed).take 8 = leBytes 8 size :=
    List.take_left' (length_leBytes _ _)
  have hrest : (leBytes 8 size ++ compressed).drop 8 = compressed :=
    List.drop_left' (length_leBytes _ _)
  have hread : leNat (leBytes 8 size) = size := by
    rw [leNat_leBytes]
    exact Nat.mod_eq_of_lt hsize
  rw [decompressLz4, hprefix, hrest, hread]
  exact if_neg (by rw [List.length_append, length_leBytes]; omega)

/-- **What is compressed is decompressed again**, up to the limit. -/
theorem decompressChunk_of_compressChunk (hinverse : encoders.Inverse codecs)
    (h : compressChunk encoders data mode = .ok out)
    (hlimit : mode ≠ .none → data.length ≤ maxDecompressionSize) :
    decompressChunk codecs out mode = .ok data := by
  cases mode with
  | none =>
    cases h
    rfl
  | zlib =>
    obtain ⟨-, hflatten, hpieces, hend⟩ := hinverse.zlib data out (mapError_eq_ok_iff.mp h)
    have hsmall := hlimit nofun
    rw [decompressChunk, hend, inflate_of_ne_nil hpieces
      (by rw [hflatten, List.length_nil, Nat.zero_add]; exact hsmall), hflatten, List.nil_append]
  | lz4 =>
    obtain ⟨compressed, hcompressed, rfl⟩ := map_eq_ok_iff.mp (mapError_eq_ok_iff.mp h)
    have hsmall := hlimit nofun
    have hsize : maxDecompressionSize < 2 ^ 64 := by decide
    rw [decompressChunk, decompressLz4_leBytes (by omega), if_neg (by omega),
      hinverse.lz4 data compressed hcompressed]
    simp
  | encrypted => cases h
  | frame => cases h

/-- **Beyond the limit it is not.** -/
theorem error_of_compressChunk (hinverse : encoders.Inverse codecs)
    (h : compressChunk encoders data mode = .ok out) (hmode : mode ≠ .none)
    (hlarge : maxDecompressionSize < data.length) (hsize : data.length < 2 ^ 64) :
    ∃ e, decompressChunk codecs out mode = .error e := by
  cases mode with
  | none => exact absurd rfl hmode
  | zlib =>
    obtain ⟨-, hflatten, hpieces, hend⟩ := hinverse.zlib data out (mapError_eq_ok_iff.mp h)
    have hnone : ([] : List UInt8).length ≤ maxDecompressionSize := Nat.zero_le _
    rw [decompressChunk, hend]
    exact inflate_of_large hpieces hnone (by rwa [hflatten, List.length_nil, Nat.zero_add])
  | lz4 =>
    obtain ⟨compressed, hcompressed, rfl⟩ := map_eq_ok_iff.mp (mapError_eq_ok_iff.mp h)
    rw [decompressChunk, decompressLz4_leBytes hsize, if_pos hlarge]
    exact ⟨_, rfl⟩
  | encrypted => cases h
  | frame => cases h

/-- What is compressed by another mode than none has a byte. -/
theorem ne_nil_of_compressChunk (hinverse : encoders.Inverse codecs)
    (h : compressChunk encoders data mode = .ok out) (hmode : mode ≠ .none) : out ≠ [] := by
  cases mode with
  | none => exact absurd rfl hmode
  | zlib => exact (hinverse.zlib data out (mapError_eq_ok_iff.mp h)).1
  | lz4 =>
    obtain ⟨compressed, -, rfl⟩ := map_eq_ok_iff.mp (mapError_eq_ok_iff.mp h)
    exact List.cons_ne_nil _ _
  | encrypted => cases h
  | frame => cases h

/-! ### Encryption -/

/-- The index of a block matters to one of the ciphers. -/
def EncryptionSpec.NumbersBlocks (spec : EncryptionSpec) : Prop :=
  EncryptionType.fromByte spec.encryptionType = some .salsa20

instance (spec : EncryptionSpec) : Decidable spec.NumbersBlocks :=
  inferInstanceAs (Decidable (_ = _))

variable {keys : TactKeyStore} {spec : EncryptionSpec} {key : Key} {index place : ℕ}

/-- What is encrypted stands behind a header, in as many bytes, and is decrypted under the same
index, or under any where the cipher does not number blocks. -/
theorem decrypt_of_encryptChunkWithKey (hinverse : encoders.Inverse codecs)
    (h : encryptChunkWithKey encoders data spec key index = .ok out)
    (hplace : spec.NumbersBlocks → place = index) :
    ∃ cipher ciphertext, EncryptionType.fromByte spec.encryptionType = some cipher ∧
      out = encryptedChunk spec.keyName spec.iv spec.encryptionType ciphertext ∧
      ciphertext.length = data.length ∧
      decrypt codecs ⟨spec.keyName, spec.iv, cipher, ciphertext⟩ key.bytes place = .ok data := by
  obtain ⟨ciphertext, hciphertext, rfl⟩ := map_eq_ok_iff.mp h
  split at hciphertext
  · next hcipher =>
    obtain rfl := hplace hcipher
    obtain ⟨hlength, hdecrypt⟩ := hinverse.salsa20 key _ _ _ _ spec.length_iv
      (mapError_eq_ok_iff.mp hciphertext)
    refine ⟨_, ciphertext, hcipher, rfl, hlength, ?_⟩
    rw [decrypt, hdecrypt]
    rfl
  · next hcipher =>
    obtain ⟨encrypt, hencrypt, rfl⟩ := map_eq_ok_iff.mp (mapError_eq_ok_iff.mp hciphertext)
    obtain ⟨decrypt', hdecrypt, hback⟩ := hinverse.arc4 key _ hencrypt
    refine ⟨_, encrypt data, hcipher, rfl, (hback data).1, ?_⟩
    rw [decrypt, hdecrypt]
    exact congrArg Except.ok (hback data).2
  · cases hciphertext

/-- **What is encrypted is decrypted**, and then decompressed, if it has two bytes. -/
theorem decryptChunkWithKeys_of_encrypt (hinverse : encoders.Inverse codecs)
    (h : encryptChunkWithKey encoders data spec key index = .ok out)
    (hkey : codecs.get keys spec.keyName = some key.bytes)
    (hplace : spec.NumbersBlocks → place = index) (hlength : 2 ≤ data.length) :
    decryptChunkWithKeys codecs keys out place = decompressDecrypted codecs data := by
  obtain ⟨cipher, ciphertext, hcipher, rfl, hsame, hdecrypt⟩ :=
    decrypt_of_encryptChunkWithKey hinverse h hplace
  have hread : readEncrypted (encryptedChunk spec.keyName spec.iv spec.encryptionType ciphertext) =
      .ok ⟨spec.keyName, spec.iv, cipher, ciphertext⟩ :=
    readEncrypted_encryptedChunk (.inl spec.length_iv) (by rw [spec.length_iv, hsame]; omega)
      hcipher
  rw [decryptChunkWithKeys, hread]
  change (Option.elim (codecs.get keys spec.keyName) _ _ >>= fun key =>
    decrypt codecs ⟨spec.keyName, spec.iv, cipher, ciphertext⟩ key place >>=
      decompressDecrypted codecs) = _
  rw [hkey]
  change (decrypt codecs ⟨spec.keyName, spec.iv, cipher, ciphertext⟩ key.bytes place >>= _) = _
  rw [hdecrypt]
  rfl

/-- With less it is not read at all. -/
theorem decryptChunkWithKeys_of_short (hinverse : encoders.Inverse codecs)
    (h : encryptChunkWithKey encoders data spec key index = .ok out) (hlength : data.length < 2)
    (place : ℕ) : ∃ e, decryptChunkWithKeys codecs keys out place = .error e := by
  obtain ⟨cipher, ciphertext, -, rfl, hsame, -⟩ :=
    decrypt_of_encryptChunkWithKey hinverse h (fun _ => rfl)
  have hshort :
      (encryptedChunk spec.keyName spec.iv spec.encryptionType ciphertext).length < 17 := by
    rw [length_encryptedChunk, spec.length_iv, hsame]
    omega
  obtain ⟨e, he⟩ : ∃ e, readEncrypted
      (encryptedChunk spec.keyName spec.iv spec.encryptionType ciphertext) = .error e :=
    ⟨_, if_pos hshort⟩
  refine ⟨e, ?_⟩
  rw [decryptChunkWithKeys, he]
  rfl

end Encoding

/-! ### Chunks -/

/-- `ChunkData`, as it is made: the size of what is compressed in it may be known. -/
structure SizedChunk where
  /-- `mode` and `data`. -/
  chunk : ChunkData
  /-- `decompressed_size`. -/
  decompressedSize : Option ℕ

/-- `decompressed_size()`. -/
def SizedChunk.size (chunk : SizedChunk) : ℕ :=
  chunk.decompressedSize.getD chunk.chunk.data.length

/-- `ChunkData::new`. -/
def SizedChunk.new (encoders : Encoders) (data : List UInt8) (mode : CompressionMode) :
    Except BlteError SizedChunk :=
  if mode = .none then .ok ⟨⟨mode, data⟩, some data.length⟩
  else (compressChunk encoders data mode).map fun compressed =>
    ⟨⟨mode, compressed⟩, some data.length⟩

/-- What is encrypted: compressed data with the byte of its mode, or data without any. -/
def innerData (encoders : Encoders) (mode : CompressionMode) (data : List UInt8) :
    Except BlteError (List UInt8) :=
  if mode ≠ .none ∧ mode ≠ .encrypted then
    (compressChunk encoders data mode).map fun compressed => mode.asByte :: compressed
  else .ok data

/-- `create_encrypted_chunk_with_params`. -/
def createEncryptedChunkWithParams (encoders : Encoders) (mode : CompressionMode)
    (data : List UInt8) (spec : EncryptionSpec) (key : Key) (blockIndex : ℕ) :
    Except BlteError SizedChunk := do
  let inner ← innerData encoders mode data
  let encrypted ← encryptChunkWithKey encoders inner spec key blockIndex
  return ⟨⟨.encrypted, encrypted⟩, some inner.length⟩

/-- One chunk, encrypted or not. -/
def createChunk (encoders : Encoders) (mode : CompressionMode)
    (encryption : Option (EncryptionSpec × Key)) (data : List UInt8) (blockIndex : ℕ) :
    Except BlteError SizedChunk :=
  match encryption with
  | some (spec, key) => createEncryptedChunkWithParams encoders mode data spec key blockIndex
  | none => SizedChunk.new encoders data mode

/-! ### Pieces -/

/-- The loop that cuts data. -/
def piecesFrom (size : ℕ) (hsize : 0 < size) (data : List UInt8) : List (List UInt8) :=
  if data = [] then [] else data.take size :: piecesFrom size hsize (data.drop size)
termination_by data.length
decreasing_by
  have hdata : 0 < data.length := List.length_pos_iff.mpr (by assumption)
  rw [List.length_drop]
  omega

/-- What becomes of data: one piece, if it is short enough. With a size of zero **the loop stays
where it is**, and there is no list of all its pieces. -/
def pieces (size : ℕ) (data : List UInt8) : Option (List (List UInt8)) :=
  if data.length ≤ size then some [data]
  else if hsize : 0 < size then some (piecesFrom size hsize data) else none

theorem flatten_piecesFrom (size : ℕ) (hsize : 0 < size) (data : List UInt8) :
    (piecesFrom size hsize data).flatten = data := by
  fun_induction piecesFrom size hsize data with
  | case1 => rfl
  | case2 data hdata ih => rw [List.flatten_cons, ih, List.take_append_drop]

section Pieces

variable {size : ℕ} {data : List UInt8} {ps : List (List UInt8)}

/-- Only data that is not empty, and a size of zero, have no end. -/
theorem pieces_eq_none_iff : pieces size data = none ↔ size = 0 ∧ data ≠ [] := by
  rw [pieces]
  split_ifs with hshort hsize
  · refine iff_of_false nofun ?_
    rintro ⟨rfl, hdata⟩
    exact hdata (List.length_eq_zero_iff.mp (Nat.le_zero.mp hshort))
  · exact iff_of_false nofun fun h => hsize.ne' h.1
  · have hdata : data ≠ [] := List.length_pos_iff.mp (by omega)
    exact iff_of_true rfl ⟨Nat.eq_zero_of_not_pos hsize, hdata⟩

/-- **Nothing is lost between the pieces.** -/
theorem flatten_pieces (h : pieces size data = some ps) : ps.flatten = data := by
  rw [pieces] at h
  split_ifs at h with hshort hsize
  · cases h
    exact List.flatten_singleton
  · cases h
    exact flatten_piecesFrom size hsize data

/-- Data that is not short makes two pieces. -/
theorem two_le_length_pieces (hlong : size < data.length) (h : pieces size data = some ps) :
    2 ≤ ps.length := by
  rw [pieces, if_neg (by omega)] at h
  split_ifs at h with hsize
  cases h
  have hdata : data ≠ [] := List.length_pos_iff.mp (by omega)
  have hrest : data.drop size ≠ [] := by
    rw [← List.length_pos_iff, List.length_drop]
    omega
  rw [piecesFrom, if_neg hdata, piecesFrom, if_neg hrest, List.length_cons, List.length_cons]
  omega

/-- A piece is no longer than what it is a piece of. -/
theorem length_lt_of_mem_pieces {piece : List UInt8} (h : pieces size data = some ps)
    (hmem : piece ∈ ps) {n : ℕ} (hdata : data.length < n) : piece.length < n := by
  rw [← flatten_pieces h] at hdata
  exact (List.sublist_flatten_of_mem hmem).length_le.trans_lt hdata

end Pieces

/-! ### Headers -/

/-- The other errors of `BlteError`. -/
inductive BuildError where
  /-- An error of an encoder. -/
  | blte (e : BlteError) : BuildError
  /-- `InvalidChunkCount`. -/
  | invalidChunkCount (count : UInt32) : BuildError
  /-- `InvalidChunkSize`. -/
  | invalidChunkSize (size min max : ℕ) : BuildError
  /-- No error of the source: the call does not come back. -/
  | noEnd : BuildError
  deriving DecidableEq

/-- The loop over the pieces, whose chunks are numbered. -/
def createChunks (encoders : Encoders) (mode : CompressionMode)
    (encryption : Option (EncryptionSpec × Key)) :
    ℕ → List (List UInt8) → Except BlteError (List SizedChunk)
  | _, [] => .ok []
  | index, piece :: pieces => do
    let chunk ← createChunk encoders mode encryption piece index
    let chunks ← createChunks encoders mode encryption (index + 1) pieces
    return chunk :: chunks

/-- One piece makes one chunk. -/
theorem createChunks_singleton {encoders : Encoders} {mode : CompressionMode}
    {encryption : Option (EncryptionSpec × Key)} {index : ℕ} {data : List UInt8} :
    createChunks encoders mode encryption index [data] =
      (createChunk encoders mode encryption data index).map fun chunk => [chunk] := by
  change (createChunk encoders mode encryption data index >>= fun chunk => .ok [chunk]) = _
  cases createChunk encoders mode encryption data index <;> rfl

/-- The chunks of some data. With a chunk size of zero they are empty ones, until one of them is
an error (the first, as far as the number of a chunk has no say in that); else there is no end of
them. -/
def chunksOf (encoders : Encoders) (mode : CompressionMode)
    (encryption : Option (EncryptionSpec × Key)) (chunkSize index : ℕ) (data : List UInt8) :
    Except BuildError (List SizedChunk) :=
  match pieces chunkSize data with
  | some ps => (createChunks encoders mode encryption index ps).mapError .blte
  | none => do
    let _ ← (createChunk encoders mode encryption [] index).mapError BuildError.blte
    .error .noEnd

/-- What is returned is made of all the pieces. -/
theorem chunksOf_eq_ok_iff {encoders : Encoders} {mode : CompressionMode}
    {encryption : Option (EncryptionSpec × Key)} {chunkSize index : ℕ} {data : List UInt8}
    {chunks : List SizedChunk} :
    chunksOf encoders mode encryption chunkSize index data = .ok chunks ↔
      ∃ ps, pieces chunkSize data = some ps ∧
        createChunks encoders mode encryption index ps = .ok chunks := by
  rw [chunksOf]
  cases hpieces : pieces chunkSize data with
  | none =>
    refine iff_of_false ?_ ?_
    · intro h
      obtain ⟨_, -, h⟩ := except_bind_eq_ok_iff.mp h
      cases h
    · rintro ⟨ps, hps, -⟩
      cases hps
  | some ps =>
    rw [mapError_eq_ok_iff]
    constructor
    · exact fun h => ⟨ps, rfl, h⟩
    · rintro ⟨_, ⟨⟩, h⟩
      exact h

/-- **With a chunk size of zero no data is added.** -/
theorem chunksOf_zero_ne_ok {encoders : Encoders} {mode : CompressionMode}
    {encryption : Option (EncryptionSpec × Key)} {index : ℕ} {data : List UInt8}
    (hdata : data ≠ []) (chunks : List SizedChunk) :
    chunksOf encoders mode encryption 0 index data ≠ .ok chunks := by
  intro h
  obtain ⟨ps, hps, -⟩ := chunksOf_eq_ok_iff.mp h
  cases (pieces_eq_none_iff.mpr ⟨rfl, hdata⟩).symm.trans hps

/-- `ChunkInfo::from_chunk_data` and `from_chunk_data_extended`. -/
def ChunkInfo.ofChunk (codecs : Codecs) (flags : HeaderFlags) (chunk : SizedChunk) : ChunkInfo where
  compressedSize := UInt32.ofNat chunk.chunk.compressedData.length
  decompressedSize := UInt32.ofNat chunk.size
  checksum := codecs.md5 chunk.chunk.compressedData
  decompressedChecksum :=
    match flags with
    | .standard => none
    | .extended => some (codecs.md5
        (match decompressChunk codecs chunk.chunk.data chunk.chunk.mode with
        | .ok decompressed => decompressed
        | .error _ => chunk.chunk.compressedData))

/-- `chunk_info_size`. -/
def HeaderFlags.chunkInfoSize : HeaderFlags → ℕ
  | .standard => 24
  | .extended => 40

/-- `BlteHeader::single_chunk`. -/
def BlteHeader.singleChunk : BlteHeader := ⟨0, none⟩

/-- `BlteHeader::multi_chunk_with_flags`. -/
def BlteHeader.multiChunkWithFlags (codecs : Codecs) (chunks : List SizedChunk)
    (flags : HeaderFlags) : Except BuildError BlteHeader :=
  if chunks = [] then .error (.invalidChunkCount 0)
  else if chunks.length > 0xFFFFFF then .error (.invalidChunkCount (UInt32.ofNat chunks.length))
  else .ok ⟨UInt32.ofNat (12 + chunks.length * flags.chunkInfoSize),
    some ⟨flags, chunks.length, chunks.map (ChunkInfo.ofChunk codecs flags)⟩⟩

/-- `BlteFile::single_chunk`. -/
def BlteFile.singleChunk (encoders : Encoders) (data : List UInt8) (mode : CompressionMode) :
    Except BuildError BlteFile :=
  ((SizedChunk.new encoders data mode).map fun chunk =>
    BlteFile.mk .singleChunk [chunk.chunk]).mapError .blte

/-- `BlteFile::multi_chunk`. -/
def BlteFile.multiChunk (codecs : Codecs) (chunks : List SizedChunk) :
    Except BuildError BlteFile :=
  (BlteHeader.multiChunkWithFlags codecs chunks .standard).map fun header =>
    ⟨header, chunks.map SizedChunk.chunk⟩

/-- `BlteFile::compress`. -/
def BlteFile.compress (encoders : Encoders) (codecs : Codecs) (data : List UInt8) (chunkSize : ℕ)
    (mode : CompressionMode) : Except BuildError BlteFile :=
  if data.length ≤ chunkSize then BlteFile.singleChunk encoders data mode
  else do
    let chunks ← chunksOf encoders mode none chunkSize 0 data
    BlteFile.multiChunk codecs chunks

/-! ### The builder -/

/-- `BlteBuilder`. -/
structure BlteBuilder where
  /-- `chunks`. -/
  chunks : List SizedChunk
  /-- `default_mode`. -/
  defaultMode : CompressionMode
  /-- `chunk_size`. -/
  chunkSize : ℕ
  /-- `encryption`: an `EncryptionConfig`. -/
  encryption : Option (EncryptionSpec × Key)

namespace BlteBuilder

/-- `MIN_CHUNK_SIZE`. -/
def minChunkSize : ℕ := 1024

/-- `MAX_CHUNK_SIZE`. -/
def maxChunkSize : ℕ := 16 * 1024 * 1024

/-- `DEFAULT_CHUNK_SIZE`. -/
def defaultChunkSize : ℕ := 256 * 1024

/-- `BlteBuilder::new`. -/
def new : BlteBuilder := ⟨[], .none, defaultChunkSize, none⟩

/-- A call of the builder. -/
inductive Call where
  /-- `with_compression`. -/
  | withCompression (mode : CompressionMode) : Call
  /-- `with_chunk_size`. -/
  | withChunkSize (size : ℕ) : Call
  /-- `with_chunk_size_unchecked`. -/
  | withChunkSizeUnchecked (size : ℕ) : Call
  /-- `with_encryption`. -/
  | withEncryption (spec : EncryptionSpec) (key : Key) : Call
  /-- `without_encryption`. -/
  | withoutEncryption : Call
  /-- `add_chunk`. -/
  | addChunk (chunk : SizedChunk) : Call
  /-- `add_data`. -/
  | addData (data : List UInt8) : Call
  /-- `add_encrypted_data`. -/
  | addEncryptedData (data : List UInt8) (spec : EncryptionSpec) (key : Key) (blockIndex : ℕ) : Call
  /-- `add_mixed_data`. -/
  | addMixedData (data : List UInt8) (encryptionPerChunk : Option (EncryptionSpec × Key)) : Call

/-- Some chunks are pushed. -/
def push (builder : BlteBuilder) (chunks : Except BuildError (List SizedChunk)) :
    Except BuildError BlteBuilder :=
  chunks.map fun chunks => { builder with chunks := builder.chunks ++ chunks }

/-- What a call does. `add_data` numbers from zero, `add_mixed_data` from the chunks there are. -/
def step (encoders : Encoders) (builder : BlteBuilder) : Call → Except BuildError BlteBuilder
  | .withCompression mode => .ok { builder with defaultMode := mode }
  | .withChunkSize size =>
    if minChunkSize ≤ size ∧ size ≤ maxChunkSize then .ok { builder with chunkSize := size }
    else .error (.invalidChunkSize size minChunkSize maxChunkSize)
  | .withChunkSizeUnchecked size => .ok { builder with chunkSize := size }
  | .withEncryption spec key => .ok { builder with encryption := some (spec, key) }
  | .withoutEncryption => .ok { builder with encryption := none }
  | .addChunk chunk => .ok { builder with chunks := builder.chunks ++ [chunk] }
  | .addData data => builder.push
      (chunksOf encoders builder.defaultMode builder.encryption builder.chunkSize 0 data)
  | .addEncryptedData data spec key blockIndex => builder.push ((createChunks encoders
      builder.defaultMode (some (spec, key)) blockIndex [data]).mapError .blte)
  | .addMixedData data encryptionPerChunk => builder.push (chunksOf encoders builder.defaultMode
      encryptionPerChunk builder.chunkSize builder.chunks.length data)

/-- `BlteBuilder::build`. -/
def build (codecs : Codecs) (builder : BlteBuilder) : Except BuildError BlteFile :=
  if builder.chunks = [] then .error (.invalidChunkCount 0)
  else if builder.chunks.length = 1 then
    .ok ⟨.singleChunk, builder.chunks.map SizedChunk.chunk⟩
  else BlteFile.multiChunk codecs builder.chunks

end BlteBuilder

/-! ### What a chunk decodes to -/

section Decoding

variable {encoders : Encoders} {codecs : Codecs} {keys : TactKeyStore} {mode : CompressionMode}
  {encryption : Option (EncryptionSpec × Key)} {data : List UInt8} {index place : ℕ}
  {chunk : SizedChunk}

/-- The first byte of some data is not taken for a mode. -/
def Unmarked (data : List UInt8) : Prop :=
  ∀ byte ∈ data.head?, CompressionMode.fromByte byte = none ∨
    CompressionMode.fromByte byte = some .encrypted

/-- **A piece that can be had back**: one that is compressed, up to the limit of the
decompressors, and one that is encrypted as it is, if it has two bytes and no mark. -/
structure Recoverable (mode : CompressionMode) (encryption : Option (EncryptionSpec × Key))
    (data : List UInt8) : Prop where
  limit : mode ≠ .none → mode ≠ .encrypted → data.length ≤ maxDecompressionSize
  plain : encryption.isSome → mode = .none ∨ mode = .encrypted → 2 ≤ data.length ∧ Unmarked data

/-- The store has the key of the encryption. -/
def KeyKnown (codecs : Codecs) (keys : TactKeyStore) (encryption : Option (EncryptionSpec × Key)) :
    Prop :=
  ∀ spec key, encryption = some (spec, key) → codecs.get keys spec.keyName = some key.bytes

/-- The encryption counts its blocks. -/
def NumbersBlocks (encryption : Option (EncryptionSpec × Key)) : Prop :=
  ∃ spec key, encryption = some (spec, key) ∧ spec.NumbersBlocks

theorem decode_new (hinverse : encoders.Inverse codecs)
    (h : SizedChunk.new encoders data mode = .ok chunk)
    (hlimit : mode ≠ .none → mode ≠ .encrypted → data.length ≤ maxDecompressionSize) :
    decodeChunkWithKeys codecs keys chunk.chunk place = .ok data := by
  rw [SizedChunk.new] at h
  split_ifs at h with hmode
  · cases h
    rw [decodeChunkWithKeys, if_neg (by simp [hmode]), hmode]
    rfl
  · obtain ⟨compressed, hcompressed, rfl⟩ := map_eq_ok_iff.mp h
    have hother : mode ≠ .encrypted := by
      rintro rfl
      cases hcompressed
    rw [decodeChunkWithKeys, if_neg hother]
    exact decompressChunk_of_compressChunk hinverse hcompressed fun hmode => hlimit hmode hother

theorem decompressDecrypted_of_unmarked (h : Unmarked data) :
    decompressDecrypted codecs data = .ok data := by
  cases data with
  | nil => rfl
  | cons byte rest =>
    rw [decompressDecrypted]
    rcases h byte rfl with hnone | hencrypted
    · rw [hnone]
    · rw [hencrypted]
      exact if_pos rfl

/-- What is encrypted has two bytes, and is decompressed to the data. -/
theorem decompressDecrypted_innerData (hinverse : encoders.Inverse codecs) {inner : List UInt8}
    (h : innerData encoders mode data = .ok inner) {spec : EncryptionSpec} {key : Key}
    (hdata : Recoverable mode (some (spec, key)) data) :
    2 ≤ inner.length ∧ decompressDecrypted codecs inner = .ok data := by
  rw [innerData] at h
  split_ifs at h with hmode
  · obtain ⟨compressed, hcompressed, rfl⟩ := map_eq_ok_iff.mp h
    have hne := List.length_pos_iff.mpr (ne_nil_of_compressChunk hinverse hcompressed hmode.1)
    refine ⟨by rw [List.length_cons]; omega, ?_⟩
    rw [decompressDecrypted, fromByte_asByte]
    exact (if_neg hmode.2).trans (decompressChunk_of_compressChunk hinverse hcompressed
      fun _ => hdata.limit hmode.1 hmode.2)
  · cases h
    have hplain : mode = .none ∨ mode = .encrypted := by
      rw [not_and_or, not_not, not_not] at hmode
      exact hmode
    obtain ⟨hlength, hunmarked⟩ := hdata.plain rfl hplain
    exact ⟨hlength, decompressDecrypted_of_unmarked hunmarked⟩

/-- **A chunk decodes to its piece**, at the place of its number. -/
theorem decode_createChunk (hinverse : encoders.Inverse codecs)
    (h : createChunk encoders mode encryption data index = .ok chunk)
    (hdata : Recoverable mode encryption data) (hkey : KeyKnown codecs keys encryption)
    (hplace : NumbersBlocks encryption → place = index) :
    decodeChunkWithKeys codecs keys chunk.chunk place = .ok data := by
  cases encryption with
  | none => exact decode_new hinverse h hdata.limit
  | some encryption =>
    obtain ⟨spec, key⟩ := encryption
    obtain ⟨inner, hinner, h⟩ := except_bind_eq_ok_iff.mp h
    obtain ⟨encrypted, hencrypted, h⟩ := except_bind_eq_ok_iff.mp h
    cases h
    obtain ⟨hlength, hinner'⟩ := decompressDecrypted_innerData hinverse hinner hdata
    rw [decodeChunkWithKeys, if_pos rfl, decryptChunkWithKeys_of_encrypt hinverse hencrypted
      (hkey spec key rfl) (fun hnumbers => hplace ⟨spec, key, rfl, hnumbers⟩) hlength]
    exact hinner'

theorem decodeFrom_append {a b : List ChunkData} {d d' : List UInt8}
    (ha : decodeFrom codecs keys index a = .ok d)
    (hb : decodeFrom codecs keys (index + a.length) b = .ok d') :
    decodeFrom codecs keys index (a ++ b) = .ok (d ++ d') := by
  induction a generalizing index d with
  | nil =>
    cases ha
    exact hb
  | cons first a ih =>
    obtain ⟨decoded, hfirst, ha⟩ := except_bind_eq_ok_iff.mp ha
    obtain ⟨rest, hrest, hd⟩ := except_bind_eq_ok_iff.mp ha
    cases hd
    rw [List.length_cons, Nat.add_comm a.length 1, ← Nat.add_assoc] at hb
    rw [List.cons_append, List.append_assoc]
    exact except_bind_eq_ok_iff.mpr ⟨decoded, hfirst,
      except_bind_eq_ok_iff.mpr ⟨rest ++ d', ih hrest hb, rfl⟩⟩

/-- **Numbered chunks decode to their pieces**, if they begin at the place of the first number. -/
theorem decodeFrom_createChunks (hinverse : encoders.Inverse codecs) {ps : List (List UInt8)}
    {chunks : List SizedChunk}
    (h : createChunks encoders mode encryption index ps = .ok chunks)
    (hdata : ∀ piece ∈ ps, Recoverable mode encryption piece)
    (hkey : KeyKnown codecs keys encryption) (hplace : NumbersBlocks encryption → place = index) :
    decodeFrom codecs keys place (chunks.map SizedChunk.chunk) = .ok ps.flatten := by
  induction ps generalizing index place chunks with
  | nil =>
    cases h
    rfl
  | cons piece ps ih =>
    rw [List.forall_mem_cons] at hdata
    obtain ⟨chunk, hchunk, h⟩ := except_bind_eq_ok_iff.mp h
    obtain ⟨later, hlater, h⟩ := except_bind_eq_ok_iff.mp h
    cases h
    refine except_bind_eq_ok_iff.mpr ⟨piece,
      decode_createChunk hinverse hchunk hdata.1 hkey hplace,
      except_bind_eq_ok_iff.mpr ⟨ps.flatten, ih hlater hdata.2 ?_, rfl⟩⟩
    intro hnumbers
    rw [hplace hnumbers]

end Decoding

/-! ### What a built container decodes to -/

namespace BlteBuilder

/-- **What a call adds to what the builder holds**, if it can be had back with these keys. -/
def Adds (codecs : Codecs) (keys : TactKeyStore) (builder : BlteBuilder) (added : List UInt8) :
    Call → Prop
  | .addChunk chunk =>
    decodeChunkWithKeys codecs keys chunk.chunk builder.chunks.length = .ok added
  | .addData data => data = added ∧
    (∀ ps ∈ pieces builder.chunkSize data, ∀ piece ∈ ps,
      Recoverable builder.defaultMode builder.encryption piece) ∧
    KeyKnown codecs keys builder.encryption ∧
    -- the numbers begin at zero, whatever is there
    (NumbersBlocks builder.encryption → builder.chunks = [])
  | .addEncryptedData data spec key blockIndex => data = added ∧
    Recoverable builder.defaultMode (some (spec, key)) data ∧
    codecs.get keys spec.keyName = some key.bytes ∧
    (spec.NumbersBlocks → blockIndex = builder.chunks.length)
  | .addMixedData data encryptionPerChunk => data = added ∧
    (∀ ps ∈ pieces builder.chunkSize data, ∀ piece ∈ ps,
      Recoverable builder.defaultMode encryptionPerChunk piece) ∧
    KeyKnown codecs keys encryptionPerChunk
  | _ => added = []

variable {encoders : Encoders} {codecs : Codecs} {keys : TactKeyStore}
  {builder builder' : BlteBuilder} {call : Call} {data added : List UInt8}

/-- What the builder holds. -/
def Holds (codecs : Codecs) (keys : TactKeyStore) (builder : BlteBuilder) (data : List UInt8) :
    Prop :=
  decodeFrom codecs keys 0 (builder.chunks.map SizedChunk.chunk) = .ok data

/-- Chunks that decode at their place are added. -/
theorem Holds.push (h : builder.Holds codecs keys data)
    {chunks : Except BuildError (List SizedChunk)} (hpush : builder.push chunks = .ok builder')
    (hchunks : ∀ cs, chunks = .ok cs →
      decodeFrom codecs keys builder.chunks.length (cs.map SizedChunk.chunk) = .ok added) :
    builder'.Holds codecs keys (data ++ added) := by
  obtain ⟨cs, hcs, rfl⟩ := map_eq_ok_iff.mp hpush
  unfold Holds
  rw [List.map_append]
  refine decodeFrom_append h ?_
  rw [List.length_map, Nat.zero_add]
  exact hchunks cs hcs

/-- **One call adds what it says**, behind what the builder holds. -/
theorem Holds.step (hinverse : encoders.Inverse codecs) (h : builder.Holds codecs keys data)
    (hstep : builder.step encoders call = .ok builder')
    (hadds : builder.Adds codecs keys added call) : builder'.Holds codecs keys (data ++ added) := by
  cases call with
  | withCompression mode | withChunkSizeUnchecked size | withEncryption spec key
  | withoutEncryption =>
    cases hstep
    rw [(hadds : added = []), List.append_nil]
    exact h
  | withChunkSize size =>
    rw [BlteBuilder.step] at hstep
    split_ifs at hstep with hsize
    cases hstep
    rw [(hadds : added = []), List.append_nil]
    exact h
  | addChunk chunk =>
    have hpush : builder.push (.ok [chunk]) = .ok builder' := hstep
    refine h.push hpush fun cs hcs => ?_
    cases hcs
    exact except_bind_eq_ok_iff.mpr ⟨added, hadds, congrArg Except.ok (List.append_nil added)⟩
  | addData d =>
    obtain ⟨rfl, hpieces, hkey, hnumbers⟩ := hadds
    refine h.push hstep fun cs hcs => ?_
    obtain ⟨ps, hps, hcs⟩ := chunksOf_eq_ok_iff.mp hcs
    rw [decodeFrom_createChunks hinverse hcs (hpieces ps hps) hkey
      fun hn => by rw [hnumbers hn]; rfl, flatten_pieces hps]
  | addEncryptedData d spec key blockIndex =>
    obtain ⟨rfl, hdata, hkey, hnumbers⟩ := hadds
    refine h.push hstep fun cs hcs => ?_
    have hone : ∀ piece ∈ [d], Recoverable builder.defaultMode (some (spec, key)) piece := by
      simpa using hdata
    rw [decodeFrom_createChunks hinverse (mapError_eq_ok_iff.mp hcs) hone,
      List.flatten_singleton]
    · rintro _ _ ⟨⟩
      exact hkey
    · rintro ⟨_, _, heq, hn⟩
      cases heq
      exact (hnumbers hn).symm
  | addMixedData d encryptionPerChunk =>
    obtain ⟨rfl, hpieces, hkey⟩ := hadds
    refine h.push hstep fun cs hcs => ?_
    obtain ⟨ps, hps, hcs⟩ := chunksOf_eq_ok_iff.mp hcs
    rw [decodeFrom_createChunks hinverse hcs (hpieces ps hps) hkey fun _ => rfl,
      flatten_pieces hps]

/-- **Calls that lead to a builder**, each of which meets a guard on the builder before it and on
what it adds, and what they add together. -/
inductive Reached (encoders : Encoders) (guard : BlteBuilder → List UInt8 → Call → Prop) :
    BlteBuilder → List UInt8 → Prop
  /-- `BlteBuilder::new`. -/
  | new : Reached encoders guard .new []
  /-- One more call. -/
  | call {builder builder' : BlteBuilder} {data added : List UInt8} {call : Call}
      (h : Reached encoders guard builder data)
      (hstep : builder.step encoders call = .ok builder') (hguard : guard builder added call) :
      Reached encoders guard builder' (data ++ added)

/-- Calls that meet a guard meet a weaker one. -/
theorem Reached.mono {guard guard' : BlteBuilder → List UInt8 → Call → Prop}
    (h : Reached encoders guard builder data)
    (hguard : ∀ builder added call, guard builder added call → guard' builder added call) :
    Reached encoders guard' builder data := by
  induction h with
  | new => exact .new
  | call _ hstep h ih => exact ih.call hstep (hguard _ _ _ h)

/-- A call that adds nothing. -/
theorem Reached.configure {guard : BlteBuilder → List UInt8 → Call → Prop}
    (h : Reached encoders guard builder data) (call : Call)
    (hstep : builder.step encoders call = .ok builder') (hguard : guard builder [] call) :
    Reached encoders guard builder' data := by
  simpa using h.call hstep hguard

theorem Reached.holds (hinverse : encoders.Inverse codecs)
    (h : Reached encoders (Adds codecs keys) builder data) : builder.Holds codecs keys data := by
  induction h with
  | new => rfl
  | call _ hstep hadds ih => exact ih.step hinverse hstep hadds

end BlteBuilder

/-! ### What is written of it -/

section Written

variable {codecs : Codecs} {keys : TactKeyStore} {chunks : List SizedChunk} {flags : HeaderFlags}
  {header : BlteHeader} {builder : BlteBuilder} {file : BlteFile}

theorem fits_ofChunk (chunk : SizedChunk) : (ChunkInfo.ofChunk codecs flags chunk).Fits flags := by
  cases flags <;> simp [ChunkInfo.Fits, ChunkInfo.ofChunk]

/-- A table has a size, and a row for each chunk. -/
theorem multiChunkWithFlags_eq_ok
    (h : BlteHeader.multiChunkWithFlags codecs chunks flags = .ok header) :
    header.headerSize ≠ 0 ∧ chunks.length ≤ 0xFFFFFF ∧ header.extended =
      some ⟨flags, chunks.length, chunks.map (ChunkInfo.ofChunk codecs flags)⟩ := by
  rw [BlteHeader.multiChunkWithFlags] at h
  split_ifs at h with hempty hmany
  cases h
  refine ⟨?_, by omega, rfl⟩
  have hrow : flags.chunkInfoSize ≤ 40 := by cases flags <;> decide
  have hrows : chunks.length * flags.chunkInfoSize ≤ 0xFFFFFF * 40 :=
    Nat.mul_le_mul (by omega) hrow
  intro hzero
  have hnat := congrArg UInt32.toNat hzero
  rw [UInt32.toNat_ofNat', UInt32.toNat_zero, Nat.mod_eq_of_lt (by omega)] at hnat
  omega

/-- A size is written in 32 bits. -/
theorem toNat_compressedSize_iff (chunk : SizedChunk) :
    (ChunkInfo.ofChunk codecs flags chunk).compressedSize.toNat =
      chunk.chunk.compressedData.length ↔ chunk.chunk.compressedData.length < 2 ^ 32 := by
  change (UInt32.ofNat chunk.chunk.compressedData.length).toNat = _ ↔ _
  rw [UInt32.toNat_ofNat']
  constructor
  · intro h
    rw [← h]
    exact Nat.mod_lt _ (by decide)
  · exact Nat.mod_eq_of_lt

theorem stands_multiChunk_iff
    (h : BlteHeader.multiChunkWithFlags codecs chunks flags = .ok header) :
    (BlteFile.mk header (chunks.map SizedChunk.chunk)).Stands ↔
      ∀ chunk ∈ chunks, chunk.chunk.compressedData.length < 2 ^ 32 := by
  obtain ⟨hsize, hcount, hextended⟩ := multiChunkWithFlags_eq_ok h
  have hpairs : List.Forall₂
      (fun (info : ChunkInfo) (chunk : ChunkData) =>
        info.compressedSize.toNat = chunk.compressedData.length)
      (chunks.map (ChunkInfo.ofChunk codecs flags)) (chunks.map SizedChunk.chunk) ↔
      ∀ chunk ∈ chunks, chunk.chunk.compressedData.length < 2 ^ 32 := by
    rw [List.forall₂_map_left_iff, List.forall₂_map_right_iff, List.forall₂_same]
    exact forall₂_congr fun chunk _ => toNat_compressedSize_iff chunk
  rw [← hpairs]
  constructor
  · exact fun hstands => (hstands.table _ hextended).2
  · intro hforall
    refine ⟨⟨fun hzero => absurd hzero hsize, fun hnone => ?_⟩, fun hnone => ?_, ?_⟩
    · cases hextended.symm.trans hnone
    · cases hextended.symm.trans hnone
    · intro extended hsome
      obtain rfl := Option.some.inj (hextended.symm.trans hsome)
      refine ⟨⟨?_, List.length_map _, ?_⟩, hforall⟩
      · change chunks.length < 2 ^ 24
        omega
      · intro info hinfo
        obtain ⟨chunk, -, rfl⟩ := List.mem_map.mp hinfo
        exact fits_ofChunk chunk

/-- What `build` makes: one chunk without a table, or more with one. -/
theorem build_eq_ok_iff {file : BlteFile} : builder.build codecs = .ok file ↔
    (builder.chunks.length = 1 ∧ file = ⟨.singleChunk, builder.chunks.map SizedChunk.chunk⟩) ∨
      (2 ≤ builder.chunks.length ∧ ∃ header,
        BlteHeader.multiChunkWithFlags codecs builder.chunks .standard = .ok header ∧
        file = ⟨header, builder.chunks.map SizedChunk.chunk⟩) := by
  rw [BlteBuilder.build]
  split_ifs with hempty hone
  · simp [hempty]
  · constructor
    · intro h
      exact .inl ⟨hone, (Except.ok.inj h).symm⟩
    · rintro (⟨-, rfl⟩ | ⟨htwo, -⟩)
      · rfl
      · omega
  · have htwo : 2 ≤ builder.chunks.length := by
      have := List.length_pos_iff.mpr hempty
      omega
    rw [BlteFile.multiChunk, map_eq_ok_iff]
    constructor
    · rintro ⟨header, hheader, rfl⟩
      exact .inr ⟨htwo, header, hheader, rfl⟩
    · rintro (⟨habs, -⟩ | ⟨-, header, hheader, rfl⟩)
      · exact absurd habs hone
      · exact ⟨header, hheader, rfl⟩

/-- A container that stands is read from what is written of it, and no other is. -/
theorem parse_write_iff {file : BlteFile} : parse file.write = .ok file ↔ file.Stands := by
  rw [parse_eq_ok_iff]
  exact ⟨And.left, fun h => ⟨h, [], (List.append_nil _).symm, fun _ => rfl⟩⟩

/-- **A built container is read back exactly if its table can say how long its chunks are.** -/
theorem parse_write_build_iff (h : builder.build codecs = .ok file) :
    parse file.write = .ok file ↔ file.chunks.length = 1 ∨
      ∀ chunk ∈ file.chunks, chunk.compressedData.length < 2 ^ 32 := by
  rw [parse_write_iff]
  rcases build_eq_ok_iff.mp h with ⟨hone, rfl⟩ | ⟨htwo, header, hheader, rfl⟩
  · rw [List.length_map]
    refine ⟨fun _ => .inl hone, fun _ => ⟨⟨fun _ => rfl, fun _ => rfl⟩, fun _ => ?_, ?_⟩⟩
    · rw [List.length_map, hone]
    · rintro _ ⟨⟩
  · rw [stands_multiChunk_iff hheader, List.length_map, List.forall_mem_map]
    exact ⟨.inr, fun h => h.resolve_left (by omega)⟩

/-- **The table holds the sums of the chunks.** -/
theorem zeroingFrom_ofChunk {index : ℕ} {done : PartialDecode} {d : List UInt8}
    (h : decodeFrom codecs keys index (chunks.map SizedChunk.chunk) = .ok d) :
    zeroingFrom codecs keys index ((chunks.map SizedChunk.chunk).zip
      (chunks.map (ChunkInfo.ofChunk codecs flags))) done =
        .ok { done with data := done.data ++ d } := by
  induction chunks generalizing index done d with
  | nil =>
    cases h
    simp [zeroingFrom]
  | cons chunk chunks ih =>
    obtain ⟨decoded, hfirst, h⟩ := except_bind_eq_ok_iff.mp h
    obtain ⟨rest, hrest, h⟩ := except_bind_eq_ok_iff.mp h
    cases h
    have hsum : verifyChunkChecksum codecs chunk.chunk
        (ChunkInfo.ofChunk codecs flags chunk) index = .ok () := by
      rw [verifyChunkChecksum, if_pos]
      simp [ChunkData.verifyChecksum, ChunkInfo.ofChunk]
    rw [List.map_cons, List.map_cons, List.zip_cons_cons, zeroingFrom, hsum, hfirst]
    refine (ih hrest).trans ?_
    simp

/-- Where nothing is missing, both decoders agree on a built container. -/
theorem decompress_of_build (h : builder.build codecs = .ok file) {d : List UInt8}
    (hd : builder.Holds codecs keys d) :
    decompressWithKeys codecs keys file = .ok d ∧
      decompressZeroingMissingKeys codecs keys file = .ok ⟨d, []⟩ := by
  rcases build_eq_ok_iff.mp h with ⟨-, rfl⟩ | ⟨-, header, hheader, rfl⟩
  · refine ⟨hd, ?_⟩
    exact map_eq_ok_iff.mpr ⟨d, hd, rfl⟩
  · refine ⟨hd, ?_⟩
    rw [decompressZeroingMissingKeys, (multiChunkWithFlags_eq_ok hheader).2.2]
    exact (zeroingFrom_ofChunk hd).trans (by rw [List.nil_append])

end Written

/-! ### The sizes that are declared -/

/-- A chunk, and its row in the table. -/
def SizedChunk.row (codecs : Codecs) (chunk : SizedChunk) : ChunkData × ChunkInfo :=
  (chunk.chunk, ChunkInfo.ofChunk codecs .standard chunk)

/-- What is encrypted is not compressed. -/
def Uncompressed (mode : CompressionMode) (encryption : Option (EncryptionSpec × Key)) : Prop :=
  encryption.isSome → mode = .none ∨ mode = .encrypted

section Declared

variable {encoders : Encoders} {codecs : Codecs} {keys : TactKeyStore} {mode : CompressionMode}
  {encryption : Option (EncryptionSpec × Key)} {data : List UInt8} {index place : ℕ}

/-- A chunk knows the size of its piece, unless that was compressed before it was encrypted: then
it is the size of what was encrypted. -/
theorem size_createChunk {chunk : SizedChunk} (hmode : Uncompressed mode encryption)
    (h : createChunk encoders mode encryption data index = .ok chunk) :
    chunk.size = data.length := by
  cases encryption with
  | none =>
    have hnew : SizedChunk.new encoders data mode = .ok chunk := h
    rw [SizedChunk.new] at hnew
    split_ifs at hnew
    · cases hnew
      rfl
    · obtain ⟨compressed, -, rfl⟩ := map_eq_ok_iff.mp hnew
      rfl
  | some encryption =>
    obtain ⟨spec, key⟩ := encryption
    obtain ⟨inner, hinner, h⟩ := except_bind_eq_ok_iff.mp h
    obtain ⟨encrypted, -, h⟩ := except_bind_eq_ok_iff.mp h
    cases h
    rw [innerData, if_neg (by have := hmode rfl; tauto)] at hinner
    cases hinner
    rfl

/-- A chunk that knows the size of what it decodes to has it in its row. -/
theorem declaresFrom_row {chunk : SizedChunk}
    (hdecode : decodeChunkWithKeys codecs keys chunk.chunk place = .ok data)
    (hsize : chunk.size = data.length) (hsmall : data.length < 2 ^ 32) :
    DeclaresFrom codecs keys place [chunk.row codecs] := by
  refine ⟨fun decoded hdecoded => ?_, trivial⟩
  obtain rfl := Except.ok.inj (hdecode.symm.trans hdecoded)
  change _ = (UInt32.ofNat chunk.size).toNat
  rw [UInt32.toNat_ofNat', hsize, Nat.mod_eq_of_lt hsmall]

theorem declaresFrom_createChunks (hinverse : encoders.Inverse codecs) {ps : List (List UInt8)}
    {chunks : List SizedChunk}
    (h : createChunks encoders mode encryption index ps = .ok chunks)
    (hdata : ∀ piece ∈ ps, Recoverable mode encryption piece)
    (hkey : KeyKnown codecs keys encryption) (hplace : NumbersBlocks encryption → place = index)
    (hmode : Uncompressed mode encryption) (hsmall : ∀ piece ∈ ps, piece.length < 2 ^ 32) :
    DeclaresFrom codecs keys place (chunks.map (SizedChunk.row codecs)) := by
  induction ps generalizing index place chunks with
  | nil =>
    cases h
    trivial
  | cons piece ps ih =>
    rw [List.forall_mem_cons] at hdata hsmall
    obtain ⟨chunk, hchunk, h⟩ := except_bind_eq_ok_iff.mp h
    obtain ⟨later, hlater, h⟩ := except_bind_eq_ok_iff.mp h
    cases h
    refine ⟨(declaresFrom_row (decode_createChunk hinverse hchunk hdata.1 hkey hplace)
      (size_createChunk hmode hchunk) hsmall.1).1, ih hlater hdata.2 ?_ hsmall.2⟩
    intro hnumbers
    rw [hplace hnumbers]

end Declared

namespace BlteBuilder

variable {encoders : Encoders} {codecs : Codecs} {keys keys' : TactKeyStore}
  {builder builder' : BlteBuilder} {call : Call} {data added : List UInt8} {file : BlteFile}

/-- **A call whose chunks know the sizes of their contents.** -/
def Measures (builder : BlteBuilder) (added : List UInt8) : Call → Prop
  | .addChunk chunk => chunk.size = added.length ∧ added.length < 2 ^ 32
  | .addData _ => Uncompressed builder.defaultMode builder.encryption ∧ added.length < 2 ^ 32
  | .addEncryptedData _ spec key _ =>
    Uncompressed builder.defaultMode (some (spec, key)) ∧ added.length < 2 ^ 32
  | .addMixedData _ encryptionPerChunk =>
    Uncompressed builder.defaultMode encryptionPerChunk ∧ added.length < 2 ^ 32
  | _ => True

/-- The table will declare the sizes of what the chunks decode to. -/
def Declares (codecs : Codecs) (keys : TactKeyStore) (builder : BlteBuilder) : Prop :=
  DeclaresFrom codecs keys 0 (builder.chunks.map (SizedChunk.row codecs))

theorem Declares.push (h : builder.Declares codecs keys)
    {chunks : Except BuildError (List SizedChunk)} (hpush : builder.push chunks = .ok builder')
    (hchunks : ∀ cs, chunks = .ok cs →
      DeclaresFrom codecs keys builder.chunks.length (cs.map (SizedChunk.row codecs))) :
    builder'.Declares codecs keys := by
  obtain ⟨cs, hcs, rfl⟩ := map_eq_ok_iff.mp hpush
  unfold Declares
  rw [List.map_append]
  refine h.append ?_
  rw [List.length_map, Nat.zero_add]
  exact hchunks cs hcs

theorem Declares.step (hinverse : encoders.Inverse codecs) (h : builder.Declares codecs keys)
    (hstep : builder.step encoders call = .ok builder')
    (hadds : builder.Adds codecs keys added call) (hmeasures : builder.Measures added call) :
    builder'.Declares codecs keys := by
  cases call with
  | withCompression mode | withChunkSizeUnchecked size | withEncryption spec key
  | withoutEncryption =>
    cases hstep
    exact h
  | withChunkSize size =>
    rw [BlteBuilder.step] at hstep
    split_ifs at hstep with hsize
    cases hstep
    exact h
  | addChunk chunk =>
    have hpush : builder.push (.ok [chunk]) = .ok builder' := hstep
    refine h.push hpush fun cs hcs => ?_
    cases hcs
    exact declaresFrom_row hadds hmeasures.1 hmeasures.2
  | addData d =>
    obtain ⟨rfl, hpieces, hkey, hnumbers⟩ := hadds
    refine h.push hstep fun cs hcs => ?_
    obtain ⟨ps, hps, hcs⟩ := chunksOf_eq_ok_iff.mp hcs
    exact declaresFrom_createChunks hinverse hcs (hpieces ps hps) hkey
      (fun hn => by rw [hnumbers hn]; rfl) hmeasures.1
      fun piece hmem => length_lt_of_mem_pieces hps hmem hmeasures.2
  | addEncryptedData d spec key blockIndex =>
    obtain ⟨rfl, hdata, hkey, hnumbers⟩ := hadds
    refine h.push hstep fun cs hcs => declaresFrom_createChunks hinverse
      (mapError_eq_ok_iff.mp hcs) (List.forall_mem_singleton.mpr hdata) ?_ ?_ hmeasures.1
      (List.forall_mem_singleton.mpr hmeasures.2)
    · rintro _ _ ⟨⟩
      exact hkey
    · rintro ⟨_, _, heq, hn⟩
      cases heq
      exact (hnumbers hn).symm
  | addMixedData d encryptionPerChunk =>
    obtain ⟨rfl, hpieces, hkey⟩ := hadds
    refine h.push hstep fun cs hcs => ?_
    obtain ⟨ps, hps, hcs⟩ := chunksOf_eq_ok_iff.mp hcs
    exact declaresFrom_createChunks hinverse hcs (hpieces ps hps) hkey (fun _ => rfl)
      hmeasures.1 fun piece hmem => length_lt_of_mem_pieces hps hmem hmeasures.2

theorem Reached.declares (hinverse : encoders.Inverse codecs)
    (h : Reached encoders (fun builder added call => builder.Adds codecs keys added call ∧
      builder.Measures added call) builder data) : builder.Declares codecs keys := by
  induction h with
  | new => trivial
  | call _ hstep hguard ih => exact ih.step hinverse hstep hguard.1 hguard.2

/-- **A built container has holes where keys are missing**: with fewer keys than it was built with,
a container of several chunks decodes to what was added, but for the ranges that are reported. -/
theorem holes_of_reached (hinverse : encoders.Inverse codecs)
    (hreached : Reached encoders (fun builder added call => builder.Adds codecs keys' added call ∧
      builder.Measures added call) builder data)
    (hbuild : builder.build codecs = .ok file) (htable : 2 ≤ builder.chunks.length)
    (hknows : Knows codecs keys keys') :
    ∃ out, decompressZeroingMissingKeys codecs keys file = .ok out ∧
      out.data = punch out.missingKeys data ∧
      ∀ hole ∈ out.missingKeys, codecs.get keys hole.keyName = none ∧
        hole.offset + hole.size ≤ data.length := by
  have hholds : builder.Holds codecs keys' data :=
    (hreached.mono fun _ _ _ => And.left).holds hinverse
  have hdeclares := hreached.declares hinverse
  obtain ⟨hcontent, -⟩ := decompress_of_build hbuild hholds
  rcases build_eq_ok_iff.mp hbuild with ⟨hone, -⟩ | ⟨-, header, hheader, rfl⟩
  · omega
  · have hextended := (multiChunkWithFlags_eq_ok hheader).2.2
    refine exists_punch hextended (by simp) hknows hcontent ?_ ?_
    · rintro ⟨chunk, info⟩ hpair
      rw [List.zip_map', List.mem_map] at hpair
      obtain ⟨sized, -, heq⟩ := hpair
      cases heq
      simp [ChunkData.verifyChecksum, ChunkInfo.ofChunk]
    · rw [List.zip_map']
      exact hdeclares

end BlteBuilder

/-! ### Compressing at once -/

section Compress

variable {encoders : Encoders} {codecs : Codecs} {keys : TactKeyStore} {data : List UInt8}
  {size : ℕ} {mode : CompressionMode} {file : BlteFile}

theorem length_of_createChunks {encryption : Option (EncryptionSpec × Key)} {index : ℕ}
    {ps : List (List UInt8)} {chunks : List SizedChunk}
    (h : createChunks encoders mode encryption index ps = .ok chunks) :
    chunks.length = ps.length := by
  induction ps generalizing index chunks with
  | nil =>
    cases h
    rfl
  | cons piece ps ih =>
    obtain ⟨chunk, -, h⟩ := except_bind_eq_ok_iff.mp h
    obtain ⟨later, hlater, h⟩ := except_bind_eq_ok_iff.mp h
    cases h
    rw [List.length_cons, List.length_cons, ih hlater]

/-- The builder that `compress` is a short way for. -/
def compressor (mode : CompressionMode) (size : ℕ) : BlteBuilder := ⟨[], mode, size, none⟩

/-- **`compress` makes what the builder makes** of one call of `add_data`. -/
theorem compress_eq_build : BlteFile.compress encoders codecs data size mode =
    (compressor mode size).step encoders (.addData data) >>= BlteBuilder.build codecs := by
  change _ = (compressor mode size).push (chunksOf encoders mode none size 0 data) >>= _
  rw [BlteFile.compress]
  split_ifs with hshort
  · rw [chunksOf, pieces, if_pos hshort, BlteFile.singleChunk]
    change _ = (compressor mode size).push
      ((createChunks encoders mode none 0 [data]).mapError .blte) >>= _
    rw [createChunks_singleton, createChunk]
    cases SizedChunk.new encoders data mode <;> rfl
  · cases hchunks : chunksOf encoders mode none size 0 data with
    | error e => rfl
    | ok chunks =>
      obtain ⟨ps, hps, hcreate⟩ := chunksOf_eq_ok_iff.mp hchunks
      have htwo := two_le_length_pieces (Nat.not_le.mp hshort) hps
      have hlength := length_of_createChunks hcreate
      have hempty : chunks ≠ [] := List.length_pos_iff.mp (by omega)
      change BlteFile.multiChunk codecs chunks =
        BlteBuilder.build codecs ⟨[] ++ chunks, mode, size, none⟩
      rw [List.nil_append, BlteBuilder.build, if_neg hempty, if_neg (by dsimp only; omega)]

/-- A piece beyond the limit cannot be had back. -/
theorem decodeFrom_of_large (hinverse : encoders.Inverse codecs) (hmode : mode ≠ .none)
    {ps : List (List UInt8)} {chunks : List SizedChunk}
    {number : ℕ} (h : createChunks encoders mode none number ps = .ok chunks)
    {piece : List UInt8} (hmem : piece ∈ ps) (hlarge : maxDecompressionSize < piece.length)
    (hsize : piece.length < 2 ^ 64) (index : ℕ) (d : List UInt8) :
    decodeFrom codecs keys index (chunks.map SizedChunk.chunk) ≠ .ok d := by
  intro hd
  induction ps generalizing chunks index number d with
  | nil => exact absurd hmem List.not_mem_nil
  | cons first ps ih =>
    obtain ⟨chunk, hchunk, h⟩ := except_bind_eq_ok_iff.mp h
    obtain ⟨later, hlater, h⟩ := except_bind_eq_ok_iff.mp h
    cases h
    obtain ⟨decoded, hfirst, hd⟩ := except_bind_eq_ok_iff.mp hd
    obtain ⟨rest, hrest, -⟩ := except_bind_eq_ok_iff.mp hd
    rcases List.mem_cons.mp hmem with rfl | hmem
    · rw [createChunk, SizedChunk.new, if_neg hmode] at hchunk
      obtain ⟨compressed, hcompressed, rfl⟩ := map_eq_ok_iff.mp hchunk
      obtain ⟨e, he⟩ := error_of_compressChunk hinverse hcompressed hmode hlarge hsize
      have hother : mode ≠ .encrypted := by
        rintro rfl
        cases hcompressed
      rw [decodeChunkWithKeys, if_neg hother, he] at hfirst
      cases hfirst
    · exact ih hlater hmem (index + 1) rest hrest

/-- **What `compress` makes decodes to its data, exactly if no compressed piece is beyond the
limit of the decompressors**; it is read back from its bytes exactly if its table can say how long
the chunks are. -/
theorem decompress_compress_iff (hinverse : encoders.Inverse codecs) (hsize : data.length < 2 ^ 64)
    (h : BlteFile.compress encoders codecs data size mode = .ok file) :
    (decompressWithKeys codecs keys file = .ok data ↔
      mode = .none ∨
        ∀ ps ∈ pieces size data, ∀ piece ∈ ps, piece.length ≤ maxDecompressionSize) ∧
    (parse file.write = .ok file ↔ file.chunks.length = 1 ∨
      ∀ chunk ∈ file.chunks, chunk.compressedData.length < 2 ^ 32) := by
  rw [compress_eq_build, except_bind_eq_ok_iff] at h
  obtain ⟨builder, hstep, hbuild⟩ := h
  refine ⟨⟨fun hd => ?_, fun hlimit => ?_⟩, parse_write_build_iff hbuild⟩
  · by_contra hnot
    push Not at hnot
    obtain ⟨hmode, ps, hps, piece, hmem, hlarge⟩ := hnot
    obtain ⟨cs, hcs, rfl⟩ := map_eq_ok_iff.mp hstep
    obtain ⟨ps', hps', hcs⟩ := chunksOf_eq_ok_iff.mp hcs
    obtain rfl := Option.some.inj (hps.symm.trans hps')
    have hchunks : file.chunks = cs.map SizedChunk.chunk := by
      rcases build_eq_ok_iff.mp hbuild with ⟨-, rfl⟩ | ⟨-, header, -, rfl⟩ <;> rfl
    rw [decompressWithKeys, hchunks] at hd
    exact decodeFrom_of_large hinverse hmode hcs hmem hlarge
      (length_lt_of_mem_pieces hps hmem hsize) 0 data hd
  · have hadds : (compressor mode size).Adds codecs keys data (.addData data) := by
      refine ⟨rfl, fun ps hps piece hpiece => ⟨fun hmode _ => ?_, ?_⟩, ?_, fun _ => rfl⟩
      · exact hlimit.resolve_left hmode ps hps piece hpiece
      · rintro ⟨⟩
      · rintro _ _ ⟨⟩
    have hempty : (compressor mode size).Holds codecs keys [] := rfl
    exact (decompress_of_build hbuild (hempty.step hinverse hstep hadds)).1

end Compress

/-! ### Reading a built container from an archive -/

section Archive

variable {encoders : Encoders} {codecs : Codecs} {process : Process}
  {reader : FrozenArchiveReader} {builder : BlteBuilder} {data header : List UInt8}
  {file : BlteFile}
  {env : (q : InstallQuery) → q.Answer} {key : Key} {entry : IndexEntry}

theorem take_write (file : BlteFile) : file.write.take 4 = osString "BLTE" := by
  rw [BlteFile.write, writeHeader, List.append_assoc, List.take_left' length_magic]

/-- A container behind a local header is found there. -/
theorem localBlte_write (hheader : header.length = 30) :
    localBlte (header ++ file.write) = file.write := by
  have hdrop : (header ++ file.write).drop 30 = file.write := List.drop_left' hheader
  have hmagic : MagicBehindHeader (header ++ file.write) := by
    have hlength := congrArg List.length (take_write file)
    rw [List.length_take, length_magic] at hlength
    refine ⟨?_, by rw [hdrop, take_write]⟩
    rw [List.length_append, hheader]
    omega
  rw [localBlte_of_magicBehindHeader hmagic, hdrop]

/-- **What is added to a builder is what a frozen reader returns**, when the container stands in
its archive behind a header of 30 bytes. -/
theorem readEncodingKey_of_reached (hinverse : encoders.Inverse codecs)
    (hreached : BlteBuilder.Reached encoders (BlteBuilder.Adds codecs reader.keys) builder data)
    (hbuild : builder.build codecs = .ok file)
    (hsizes : file.chunks.length = 1 ∨
      ∀ chunk ∈ file.chunks, chunk.compressedData.length < 2 ^ 32)
    (hmode : process.mode = .localCasc)
    (hlookup : env (.lookup reader.archiveDir key) = some entry)
    (hraw : env (.readRaw reader.archiveDir entry) = .ok (header ++ file.write))
    (hheader : header.length = 30) :
    (reader.readEncodingKey process codecs key).run.run env = .ok data := by
  have hparse := (parse_write_build_iff hbuild).mpr hsizes
  have hzeroing := (decompress_of_build hbuild (hreached.holds hinverse)).2
  rw [← localBlte_write hheader] at hparse
  rw [← yields_run]
  simp only [FrozenArchiveReader.readEncodingKey, yields_ok_bind_iff, yields_raise, yields_settled,
    yields_query, yields_inquire, yields_pure, elim_error_ok_eq_ok, parseLocalBlte_eq_ok,
    mapError_eq_ok_iff]
  have hguard : guardCascAccess process.mode process.mode "read frozen local CASC bytes" =
      .ok () := by
    rw [hmode]
    rfl
  exact ⟨(), hguard, _, rfl, entry, hlookup, _, hraw, file, hparse, _, hzeroing, (), rfl, rfl⟩

end Archive

/-! ### A container of seven calls -/

/-- Data under a stream cipher. -/
def xorStream (stream data : List UInt8) : List UInt8 :=
  data.mapIdx fun place byte => byte ^^^ stream.getD place 0

@[simp] theorem length_xorStream (stream data : List UInt8) :
    (xorStream stream data).length = data.length :=
  List.length_mapIdx

/-- The same stream takes it away again. -/
@[simp] theorem xorStream_xorStream (stream data : List UInt8) :
    xorStream stream (xorStream stream data) = data := by
  refine List.ext_getElem (by simp) fun place _ _ => ?_
  simp only [xorStream, List.getElem_mapIdx, UInt8.xor_assoc, UInt8.xor_self, UInt8.xor_zero]

/-- A key of 128 bits. -/
def cipherKey : Key := ⟨[1, 2, 3, 4, 5, 6, 7, 8, 9, 10, 11, 12, 13, 14, 15, 16], rfl⟩

/-- How the third and the fourth chunk of a container are encrypted. -/
def salsaSpec : EncryptionSpec := ⟨1, [1, 2, 3, 4], rfl, 0x53⟩

/-- How the fifth is. -/
def arcSpec : EncryptionSpec := ⟨1, [1, 2, 3, 4], rfl, 0x41⟩

/-- What Salsa20 gives for the key and the IV, to begin with: for the chunks of these indices. -/
def salsaStream : ℕ → List UInt8
  | 2 => [65, 135, 92, 153, 72, 220, 199, 99]
  | 3 => [113, 226, 63, 218, 2, 59, 192, 160]
  | _ => []

/-- What ARC4 gives for the key, to begin with. -/
def arcStream : List UInt8 :=
  [154, 199, 204, 154, 96, 157, 30, 247, 178, 147, 40, 153, 205, 228, 27, 151]

/-- Salsa20, as far as the container asks for it. -/
def salsa20 (key iv : List UInt8) (index : ℕ) (data : List UInt8) :
    Except String (List UInt8) :=
  if key = cipherKey.bytes ∧ iv = salsaSpec.iv then .ok (xorStream (salsaStream index) data)
  else .error "keystream exhausted"

/-- ARC4, as far as the container asks for it. -/
def arc4 (key : List UInt8) : Except String (List UInt8 → List UInt8) :=
  if key = cipherKey.bytes then .ok (xorStream arcStream) else .error "invalid key length"

/-- Four letters, and the stream that they are compressed to. -/
def deflated : List (List UInt8 × List UInt8) :=
  [([97, 97, 97, 97], [120, 156, 75, 76, 76, 76, 4, 0, 3, 206, 1, 133]),
    ([98, 98, 98, 98], [120, 156, 75, 74, 74, 74, 2, 0, 3, 216, 1, 137])]

/-- The encoders on what is in the container. A block of LZ4 below 13 bytes is a token with their
number, and the bytes. -/
def containerEncoders : Encoders where
  zlib data :=
    match deflated.find? fun row => row.1 = data with
    | some (_, stream) => .ok stream
    | none => .error "out of memory"
  lz4 data :=
    if data.length < 13 then .ok (UInt8.ofNat (16 * data.length) :: data)
    else .error "out of memory"
  salsa20 := salsa20
  arc4 := arc4

/-- The sums of the chunks, as MD5 has them. -/
def containerSums : List (List UInt8 × List UInt8) := [
  ([0x5a, 120, 156, 75, 76, 76, 76, 4, 0, 3, 206, 1, 133],
    [0xef, 0x96, 0x53, 0xfc, 0xe4, 0x60, 0x35, 0x65, 0xac, 0x53, 0x72, 0, 0xd2, 0xd7, 0xe1, 0x74]),
  ([0x5a, 120, 156, 75, 74, 74, 74, 2, 0, 3, 216, 1, 137],
    [0x17, 0xf9, 0xdb, 0x73, 0xb6, 0x43, 0x1a, 0xf8, 0x76, 0x6b, 0x1e, 0x30, 0xfc, 0x51, 0x10,
      0x55]),
  ([0x45, 8, 1, 0, 0, 0, 0, 0, 0, 0, 4, 1, 2, 3, 4, 0x53, 57, 254, 38, 236],
    [0xbd, 0xab, 0x93, 0xf0, 0x7e, 0x9d, 0xbe, 0x7c, 0x9b, 0xf1, 0x65, 0x6e, 0x27, 0xee, 0x96,
      0x91]),
  ([0x45, 8, 1, 0, 0, 0, 0, 0, 0, 0, 4, 1, 2, 3, 4, 0x53, 7, 149],
    [0xbd, 0x1f, 0x82, 0x1b, 0x5b, 0xea, 0xf, 0x2b, 0xcf, 0x5e, 0x4c, 0x1a, 0x8b, 2, 0x3b, 0x42]),
  ([0x45, 8, 1, 0, 0, 0, 0, 0, 0, 0, 4, 1, 2, 3, 4, 0x41, 174, 193, 204, 154, 96, 157, 30, 247,
      178, 243, 75, 253, 174, 128, 120, 243],
    [0x90, 0x93, 0xba, 0x1a, 0x9f, 0x40, 0xe8, 0x35, 0x83, 0xf4, 0x7e, 0xd8, 0xfd, 0xcd, 0x93,
      0xd4])]

/-- The decoders and the hash on what is in the container. -/
def containerCodecs : Codecs where
  zlib out :=
    match deflated.find? fun row => row.2 = out with
    | some (data, _) => ([data], none)
    | none => ([], some "corrupt deflate stream")
  lz4 out size :=
    match out with
    | token :: literals =>
      if token = UInt8.ofNat (16 * literals.length) ∧ literals.length = size ∧ size < 13 then
        .ok literals
      else .error "invalid input"
    | [] => .error "invalid input"
  salsa20 := salsa20
  arc4 := arc4
  md5 data :=
    ((containerSums.find? fun row => row.1 = data).bind fun row => Key.tryFrom row.2).getD
      (Key.constant 0)
  get keys id := (keys.find? fun key => key.id = id).map TactKey.key
  showParseError _ := "invalid data"

theorem inverse_containerEncoders : containerEncoders.Inverse containerCodecs where
  zlib data out h := by
    have hstreams : ∀ row ∈ deflated, row.2 ≠ [] ∧ containerCodecs.zlib row.2 = ([row.1], none) ∧
        row.1 ≠ [] := by
      decide
    change (match deflated.find? fun row => row.1 = data with
      | some (_, stream) => Except.ok stream
      | none => .error "out of memory") = .ok out at h
    split at h
    · next text stream hfind =>
      cases h
      obtain ⟨hout, hback, hdata⟩ := hstreams _ (List.mem_of_find?_eq_some hfind)
      obtain rfl : text = data := by simpa using List.find?_some hfind
      rw [hback]
      exact ⟨hout, List.flatten_singleton, by simpa using hdata, rfl⟩
    · cases h
  lz4 data out h := by
    simp only [containerEncoders] at h
    split_ifs at h with hlength
    cases h
    exact if_pos ⟨rfl, rfl, hlength⟩
  salsa20 key iv index data out _ h := by
    simp only [containerEncoders, salsa20] at h
    split_ifs at h with hknown
    cases h
    refine ⟨length_xorStream _ _, (if_pos hknown).trans ?_⟩
    rw [xorStream_xorStream]
  arc4 key encrypt h := by
    simp only [containerEncoders, arc4] at h
    split_ifs at h with hknown
    cases h
    exact ⟨_, if_pos hknown, fun data => ⟨length_xorStream _ _, xorStream_xorStream _ _⟩⟩

/-- The letters that are compressed. -/
def letters : List UInt8 := [97, 97, 97, 97, 98, 98, 98, 98]

/-- What is encrypted as it is. -/
def secret : List UInt8 := [120, 121, 122, 117, 118, 119]

theorem pieces_letters :
    pieces 4 letters = some [[97, 97, 97, 97], [98, 98, 98, 98]] := by
  simp [pieces, piecesFrom, letters]

theorem pieces_secret : pieces 4 secret = some [[120, 121, 122, 117], [118, 119]] := by
  simp [pieces, piecesFrom, secret]

/-- The chunks of the letters. -/
def letterChunks : List SizedChunk := [
  ⟨⟨.zlib, [120, 156, 75, 76, 76, 76, 4, 0, 3, 206, 1, 133]⟩, some 4⟩,
  ⟨⟨.zlib, [120, 156, 75, 74, 74, 74, 2, 0, 3, 216, 1, 137]⟩, some 4⟩]

/-- The chunks of what is encrypted, behind them. -/
def secretChunks : List SizedChunk := [
  ⟨⟨.encrypted, [8, 1, 0, 0, 0, 0, 0, 0, 0, 4, 1, 2, 3, 4, 0x53, 57, 254, 38, 236]⟩, some 4⟩,
  ⟨⟨.encrypted, [8, 1, 0, 0, 0, 0, 0, 0, 0, 4, 1, 2, 3, 4, 0x53, 7, 149]⟩, some 2⟩]

/-- A chunk that is compressed, and then encrypted. -/
def arcChunk : SizedChunk where
  chunk := ⟨.encrypted, [8, 1, 0, 0, 0, 0, 0, 0, 0, 4, 1, 2, 3, 4, 0x41, 174, 193, 204, 154, 96,
    157, 30, 247, 178, 243, 75, 253, 174, 128, 120, 243]⟩
  decompressedSize := some 16

/-- The builder with four chunks. -/
def fourChunks : BlteBuilder := ⟨letterChunks ++ secretChunks, .none, 4, none⟩

/-- The builder with five. -/
def fiveChunks : BlteBuilder := ⟨letterChunks ++ secretChunks ++ [arcChunk], .lz4, 4, none⟩

/-- The store with the key. -/
def cipherKeys : TactKeyStore := [⟨1, cipherKey.bytes⟩]

/-- Five calls: the letters are compressed, and what comes behind them is encrypted. -/
theorem reached_fourChunks :
    BlteBuilder.Reached containerEncoders (fun builder added call =>
      builder.Adds containerCodecs cipherKeys added call ∧ builder.Measures added call)
      fourChunks (letters ++ secret) := by
  have hzlib : BlteBuilder.Reached containerEncoders (fun builder added call =>
      builder.Adds containerCodecs cipherKeys added call ∧ builder.Measures added call)
      ⟨[], .zlib, 4, none⟩ [] :=
    (BlteBuilder.Reached.new.configure (.withChunkSizeUnchecked 4) rfl ⟨rfl, trivial⟩).configure
      (.withCompression .zlib) rfl ⟨rfl, trivial⟩
  have hletters : BlteBuilder.step containerEncoders ⟨[], .zlib, 4, none⟩ (.addData letters) =
      .ok ⟨letterChunks, .zlib, 4, none⟩ := by
    change BlteBuilder.push _ (chunksOf containerEncoders .zlib none 4 0 letters) = _
    rw [chunksOf, pieces_letters]
    rfl
  have hadds : BlteBuilder.Adds containerCodecs cipherKeys ⟨[], .zlib, 4, none⟩ letters
      (.addData letters) := by
    refine ⟨rfl, fun ps hps piece hpiece => ⟨fun _ _ => ?_, nofun⟩, nofun, nofun⟩
    exact (length_lt_of_mem_pieces hps hpiece (by decide : letters.length < 9)).le.trans (by decide)
  have hmeasures : BlteBuilder.Measures ⟨[], .zlib, 4, none⟩ letters (.addData letters) :=
    ⟨nofun, by decide⟩
  have hnone := (hzlib.call hletters ⟨hadds, hmeasures⟩).configure (.withCompression .none) rfl
    ⟨rfl, trivial⟩
  have hsecret : BlteBuilder.step containerEncoders ⟨letterChunks, .none, 4, none⟩
      (.addMixedData secret (some (salsaSpec, cipherKey))) = .ok fourChunks := by
    change BlteBuilder.push _
      (chunksOf containerEncoders .none (some (salsaSpec, cipherKey)) 4 2 secret) = _
    rw [chunksOf, pieces_secret]
    rfl
  have hadds' : BlteBuilder.Adds containerCodecs cipherKeys ⟨letterChunks, .none, 4, none⟩ secret
      (.addMixedData secret (some (salsaSpec, cipherKey))) := by
    refine ⟨rfl, fun ps hps piece hpiece => ⟨fun hmode => absurd rfl hmode, fun _ _ => ?_⟩, ?_⟩
    · obtain rfl := Option.some.inj (pieces_secret.symm.trans hps)
      rcases List.mem_pair.mp hpiece with rfl | rfl
      · refine ⟨by decide, ?_⟩
        rintro _ ⟨⟩
        exact .inl rfl
      · refine ⟨by decide, ?_⟩
        rintro _ ⟨⟩
        exact .inl rfl
    · rintro _ _ ⟨⟩
      rfl
  have hmeasures' : BlteBuilder.Measures ⟨letterChunks, .none, 4, none⟩ secret
      (.addMixedData secret (some (salsaSpec, cipherKey))) :=
    ⟨fun _ => .inl rfl, by decide⟩
  exact hnone.call hsecret ⟨hadds', hmeasures'⟩

/-- Two more: the next piece is both. -/
theorem reached_fiveChunks :
    BlteBuilder.Reached containerEncoders (BlteBuilder.Adds containerCodecs cipherKeys)
      fiveChunks (letters ++ secret ++ [99, 100, 99, 100, 99, 100]) := by
  have hlz4 : BlteBuilder.Reached containerEncoders (BlteBuilder.Adds containerCodecs cipherKeys)
      ⟨letterChunks ++ secretChunks, .lz4, 4, none⟩ (letters ++ secret) :=
    (reached_fourChunks.mono fun _ _ _ => And.left).configure (.withCompression .lz4) rfl rfl
  have hadds : BlteBuilder.Adds containerCodecs cipherKeys
      ⟨letterChunks ++ secretChunks, .lz4, 4, none⟩ [99, 100, 99, 100, 99, 100]
      (.addEncryptedData [99, 100, 99, 100, 99, 100] arcSpec cipherKey 7) :=
    ⟨rfl, ⟨fun _ _ => by decide, fun _ hmode => nomatch hmode⟩, rfl, nofun⟩
  exact hlz4.call rfl hadds

/-- Without the key, what is encrypted is a hole. -/
theorem holes_of_reached_sample :
    ∃ file out, fourChunks.build containerCodecs = .ok file ∧
      decompressZeroingMissingKeys containerCodecs [] file = .ok out ∧
      out.data = letters ++ List.replicate 6 0 ∧
      out.data = punch out.missingKeys (letters ++ secret) := by
  have hbuild : fourChunks.build containerCodecs = .ok _ := rfl
  have hknows : Knows containerCodecs [] cipherKeys := nofun
  obtain ⟨out, hout, hdata, -⟩ := BlteBuilder.holes_of_reached inverse_containerEncoders
    reached_fourChunks hbuild (by decide) hknows
  have hholes : out.data = letters ++ List.replicate 6 0 :=
    congrArg PartialDecode.data (Except.ok.inj hout).symm
  exact ⟨_, out, hbuild, hout, hholes, hdata⟩

/-- An archive with the container behind a header of zeros. -/
def builtArchive (file : BlteFile) : (q : InstallQuery) → q.Answer
  | .lookup _ _ => some ⟨0, 0, 0⟩
  | .readRaw _ _ => .ok (List.replicate 30 0 ++ file.write)
  | q => sampleInstall "" q

theorem readEncodingKey_of_reached_sample :
    ∃ file, fiveChunks.build containerCodecs = .ok file ∧
      (FrozenArchiveReader.readEncodingKey openProcess containerCodecs ⟨.empty, cipherKeys⟩
        sampleEncodingKey).run.run (builtArchive file) =
        .ok (letters ++ secret ++ [99, 100, 99, 100, 99, 100]) := by
  have hbuild : fiveChunks.build containerCodecs = .ok _ := rfl
  exact ⟨_, hbuild, readEncodingKey_of_reached inverse_containerEncoders reached_fiveChunks
    hbuild (.inr (by decide)) rfl rfl rfl (List.length_replicate ..)⟩

/-- Two pieces, both of them compressed. -/
theorem compress_letters :
    BlteFile.compress containerEncoders containerCodecs letters 4 .zlib =
      BlteFile.multiChunk containerCodecs letterChunks := by
  rw [BlteFile.compress, if_neg (by decide), chunksOf, pieces_letters]
  rfl

theorem decompress_compress_iff_sample :
    ∃ file, BlteFile.compress containerEncoders containerCodecs letters 4 .zlib = .ok file ∧
      file.chunks = letterChunks.map SizedChunk.chunk ∧
      decompressWithKeys containerCodecs [] file = .ok letters ∧ parse file.write = .ok file := by
  have h : BlteFile.compress containerEncoders containerCodecs letters 4 .zlib = .ok _ :=
    compress_letters.trans rfl
  have hsize : letters.length < 2 ^ 64 := by decide
  obtain ⟨hdecode, hparse⟩ := @decompress_compress_iff _ _ [] _ _ _ _ inverse_containerEncoders
    hsize h
  refine ⟨_, h, rfl, hdecode.mpr (.inr fun ps hps piece hpiece => ?_),
    hparse.mpr (.inr (by decide))⟩
  exact (length_lt_of_mem_pieces hps hpiece (by decide : letters.length < 9)).le.trans (by decide)

end Blte

end AssetResolver
