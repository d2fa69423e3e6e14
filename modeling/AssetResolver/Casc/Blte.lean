import AssetResolver.Casc.Resolver
import AssetResolver.Library.Readers

/-!
# Containers with encrypted chunks

The BLTE container: its parser, the decoder that fails on a chunk whose key is missing
(`AssetResolver.Blte.decompressWithKeys`), and the one that puts zeros in its place and
reports it (`AssetResolver.Blte.decompressZeroingMissingKeys`). The second pairs the
chunks with the rows of the chunk table by position, which is all of them because the
parser reads one chunk for each row (`AssetResolver.Blte.length_chunks`). Chunk by chunk,
then, a decoding that reports nothing missing **is** the strict one
(`AssetResolver.Blte.zeroingFrom_eq_ok`), and one that meets a chunk without its key
reports it, whatever size the table declares.

The two readers that use the second decoder refuse what it reports: the frozen archive
reader always, the extraction of a resolver with an identity before it writes. So the
zeros get nowhere (`AssetResolver.zeros_never_accepted`).
-/

namespace AssetResolver

open Program

namespace Blte

/-! ### The container -/

/-- `CompressionMode`. -/
inductive CompressionMode where
  /-- `N`: no compression. -/
  | none : CompressionMode
  /-- `Z`. -/
  | zlib : CompressionMode
  /-- `4`. -/
  | lz4 : CompressionMode
  /-- `E`. -/
  | encrypted : CompressionMode
  /-- `F`: a container in a container. -/
  | frame : CompressionMode
  deriving DecidableEq

/-- `as_byte`. -/
def CompressionMode.asByte : CompressionMode → UInt8
  | .none => 0x4e
  | .zlib => 0x5a
  | .lz4 => 0x34
  | .encrypted => 0x45
  | .frame => 0x46

/-- `CompressionMode::from_byte`. -/
def CompressionMode.fromByte (byte : UInt8) : Option CompressionMode :=
  [.none, .zlib, .lz4, .encrypted, .frame].find? fun mode => mode.asByte = byte

/-- `ChunkData`, as it is read. -/
structure ChunkData where
  /-- `mode`. -/
  mode : CompressionMode
  /-- `data`, without the byte of the mode. -/
  data : List UInt8
  deriving DecidableEq

/-- `compressed_data`. -/
def ChunkData.compressedData (chunk : ChunkData) : List UInt8 := chunk.mode.asByte :: chunk.data

/-- `HeaderFlags`. -/
inductive HeaderFlags where
  /-- Rows of 24 bytes. -/
  | standard : HeaderFlags
  /-- Rows of 40 bytes. -/
  | extended : HeaderFlags
  deriving DecidableEq

/-- `HeaderFlags::from_byte`. -/
def HeaderFlags.fromByte (byte : UInt8) : Option HeaderFlags :=
  if byte = 0x0f then some .standard else if byte = 0x10 then some .extended else none

/-- `ChunkInfo`: a row of the chunk table. -/
structure ChunkInfo where
  /-- `compressed_size`. -/
  compressedSize : UInt32
  /-- `decompressed_size`. -/
  decompressedSize : UInt32
  /-- `checksum`, of the compressed data. -/
  checksum : Key
  /-- `decompressed_checksum`. -/
  decompressedChecksum : Option Key
  deriving DecidableEq

/-- `ExtendedHeader`: the chunk table. -/
structure ExtendedHeader where
  /-- `flags`. -/
  flags : HeaderFlags
  /-- `chunk_count`. -/
  chunkCount : ℕ
  /-- `chunk_infos`. -/
  chunkInfos : List ChunkInfo
  deriving DecidableEq

/-- `BlteHeader`, less the magic. -/
structure BlteHeader where
  /-- `header_size`. -/
  headerSize : UInt32
  /-- `extended`. -/
  extended : Option ExtendedHeader
  deriving DecidableEq

/-- `BlteFile`. -/
structure BlteFile where
  /-- `header`. -/
  header : BlteHeader
  /-- `chunks`. -/
  chunks : List ChunkData
  deriving DecidableEq

/-! ### The parser -/

/-- Why a container is not read. -/
inductive ParseError where
  /-- `BlteError::InvalidMagic`. -/
  | invalidMagic (magic : List UInt8) : ParseError
  /-- `BlteError::EmptyChunk`. -/
  | emptyChunk : ParseError
  /-- `BlteError::UnknownCompressionMode`. -/
  | unknownCompressionMode (byte : UInt8) : ParseError
  /-- The input ends. -/
  | unexpectedEof : ParseError
  /-- `expect("valid header flags byte")`, which panics. Nobody catches it, so that the call
  ends without a value here as well. -/
  | panic : ParseError
  deriving DecidableEq

/-- A part of the parser: it reads from the front of what is left of the input. -/
abbrev Reader := ByteReader ParseError

/-- `read_exact`. -/
def readExact (size : ℕ) : Reader (List UInt8) := ByteReader.exactly .unexpectedEof size

/-- The 16 bytes of a checksum. -/
def readChecksum : Reader Key := fun input =>
  if h : input.length < 16 then .error .unexpectedEof
  else .ok (⟨input.take 16, by rw [List.length_take]; omega⟩, input.drop 16)

/-- A big-endian number of 32 bits. -/
def readU32 : Reader UInt32 := ByteReader.value .unexpectedEof Layout.uint32.reversed

/-- A big-endian number of 24 bits. -/
def readU24 : Reader ℕ := (fun bytes => leNat bytes.reverse) <$> readExact 3

/-- `ChunkInfo::read_options`. -/
def readChunkInfo (flags : HeaderFlags) : Reader ChunkInfo := do
  let compressedSize ← readU32
  let decompressedSize ← readU32
  let checksum ← readChecksum
  let decompressedChecksum ←
    match flags with
    | .extended => some <$> readChecksum
    | .standard => pure none
  return ⟨compressedSize, decompressedSize, checksum, decompressedChecksum⟩

/-- A table of some rows. -/
def readChunkInfos (flags : HeaderFlags) : ℕ → Reader (List ChunkInfo)
  | 0 => return []
  | count + 1 => do
    let info ← readChunkInfo flags
    let infos ← readChunkInfos flags count
    return info :: infos

/-- `ExtendedHeader::read_options`. -/
def readExtendedHeader : Reader ExtendedHeader := do
  let byte ← readExact 1
  let flags ← ((byte.head?.bind HeaderFlags.fromByte).elim (throw .panic) pure : Reader HeaderFlags)
  let chunkCount ← readU24
  let chunkInfos ← readChunkInfos flags chunkCount
  return ⟨flags, chunkCount, chunkInfos⟩

/-- `BlteHeader::read_options`. -/
def readHeader : Reader BlteHeader := do
  let magic ← readExact 4
  if magic ≠ osString "BLTE" then throw (.invalidMagic magic)
  let headerSize ← readU32
  if headerSize = 0 then return ⟨headerSize, none⟩
  let extended ← readExtendedHeader
  return ⟨headerSize, some extended⟩

/-- `ChunkData::read_options`. -/
def readChunk (compressedSize : ℕ) : Reader ChunkData := do
  if compressedSize = 0 then throw .emptyChunk
  let byte ← (·.headD 0) <$> readExact 1
  let mode ← ((CompressionMode.fromByte byte).elim (throw (.unknownCompressionMode byte)) pure :
    Reader CompressionMode)
  let data ← readExact (compressedSize - 1)
  return ⟨mode, data⟩

/-- One chunk for each row of the table. -/
def readChunks : List ChunkInfo → Reader (List ChunkData)
  | [] => return []
  | info :: infos => do
    let chunk ← readChunk info.compressedSize.toNat
    let chunks ← readChunks infos
    return chunk :: chunks

/-- `BlteFile::read_options`. -/
def readBlteFile : Reader BlteFile := do
  let header ← readHeader
  if header.headerSize = 0 then
    let rest ← get
    if rest.length = 0 then return ⟨header, []⟩
    let chunk ← readChunk rest.length
    return ⟨header, [chunk]⟩
  match header.extended with
  | none => return ⟨header, []⟩
  | some extended =>
    let chunks ← readChunks extended.chunkInfos
    return ⟨header, chunks⟩

/-- The container at the front of some bytes. -/
def parse (data : List UInt8) : Except ParseError BlteFile := Prod.fst <$> readBlteFile data

section Parser

open ByteReader

variable {input rest : List UInt8}

theorem length_readChunks {infos : List ChunkInfo} {chunks : List ChunkData}
    (h : readChunks infos input = .ok (chunks, rest)) : chunks.length = infos.length := by
  induction infos generalizing input rest chunks with
  | nil =>
    obtain ⟨rfl, -⟩ := pure_eq_ok_iff.mp h
    rfl
  | cons info infos ih =>
    obtain ⟨chunk, _, -, h⟩ := bind_eq_ok_iff.mp h
    obtain ⟨later, _, hlater, h⟩ := bind_eq_ok_iff.mp h
    obtain ⟨rfl, -⟩ := pure_eq_ok_iff.mp h
    rw [List.length_cons, List.length_cons, ih hlater]

theorem extended_readHeader {header : BlteHeader} (h : readHeader input = .ok (header, rest))
    (hsize : header.headerSize = 0) : header.extended = none := by
  obtain ⟨magic, _, -, h⟩ := bind_eq_ok_iff.mp h
  split_ifs at h
  · obtain ⟨_, _, hthrow, -⟩ := bind_eq_ok_iff.mp h
    cases hthrow
  · obtain ⟨headerSize, _, -, h⟩ := bind_eq_ok_iff.mp h
    split_ifs at h with hzero
    · obtain ⟨rfl, -⟩ := pure_eq_ok_iff.mp h
      rfl
    · obtain ⟨extended, _, -, h⟩ := bind_eq_ok_iff.mp h
      obtain ⟨rfl, -⟩ := pure_eq_ok_iff.mp h
      exact absurd hsize hzero

/-- **There is a chunk for each row of the table.** A header without a size has no table. -/
theorem length_readBlteFile {file : BlteFile} {extended : ExtendedHeader}
    (h : readBlteFile input = .ok (file, rest)) (hextended : file.header.extended = some extended) :
    file.chunks.length = extended.chunkInfos.length := by
  obtain ⟨header, _, hheader, h⟩ := bind_eq_ok_iff.mp h
  split_ifs at h with hsize
  · exfalso
    have hnone : header.extended = none := extended_readHeader hheader hsize
    obtain ⟨left, _, -, h⟩ := bind_eq_ok_iff.mp h
    split_ifs at h
    · obtain ⟨rfl, -⟩ := pure_eq_ok_iff.mp h
      rw [hnone] at hextended
      cases hextended
    · obtain ⟨chunk, _, -, h⟩ := bind_eq_ok_iff.mp h
      obtain ⟨rfl, -⟩ := pure_eq_ok_iff.mp h
      rw [hnone] at hextended
      cases hextended
  · rcases hsome : header.extended with - | extended'
    · rw [hsome] at h
      obtain ⟨rfl, -⟩ := pure_eq_ok_iff.mp h
      rw [hsome] at hextended
      cases hextended
    · rw [hsome] at h
      obtain ⟨chunks, _, hchunks, h⟩ := bind_eq_ok_iff.mp h
      obtain ⟨rfl, -⟩ := pure_eq_ok_iff.mp h
      obtain rfl := Option.some.inj (hsome.symm.trans hextended)
      exact length_readChunks hchunks

theorem length_chunks {data : List UInt8} {file : BlteFile} {extended : ExtendedHeader}
    (h : parse data = .ok file) (hextended : file.header.extended = some extended) :
    file.chunks.length = extended.chunkInfos.length := by
  cases hread : readBlteFile data with
  | error e =>
    rw [parse, hread] at h
    cases h
  | ok r =>
    obtain ⟨parsed, rest⟩ := r
    rw [parse, hread] at h
    obtain rfl := Except.ok.inj h
    exact length_readBlteFile hread hextended

end Parser

/-! ### Decoding a chunk -/

/-- The hash, the decompressors, the ciphers and the key store: the code of other crates. -/
structure Codecs where
  /-- `ZlibDecoder`: what its reads return, and the error of the one after them, if it fails. -/
  zlib : List UInt8 → List (List UInt8) × Option String
  /-- `lz4_flex::block::decompress`. -/
  lz4 : List UInt8 → ℕ → Except String (List UInt8)
  /-- `decrypt_salsa20`: a key, an IV and the index of the block. -/
  salsa20 : List UInt8 → List UInt8 → ℕ → List UInt8 → Except String (List UInt8)
  /-- `Arc4Cipher::new`, and `decrypt` of what it returns. -/
  arc4 : List UInt8 → Except String (List UInt8 → List UInt8)
  /-- `ContentKey::from_data`. -/
  md5 : List UInt8 → Key
  /-- `TactKeyStore::get`. -/
  get : TactKeyStore → UInt64 → Option (List UInt8)
  /-- How an error of the parser is shown. -/
  showParseError : ParseError → String

/-- `BlteError`, as far as decoding goes. -/
inductive BlteError where
  /-- `UnsupportedCompressionMode`. -/
  | unsupportedCompressionMode (byte : UInt8) : BlteError
  /-- `ChecksumMismatch`. -/
  | checksumMismatch (expected actual : String) : BlteError
  /-- `CompressionError`. -/
  | compressionError (text : String) : BlteError
  /-- `KeyNotFound`. -/
  | keyNotFound (keyName : UInt64) : BlteError
  deriving DecidableEq

/-- `{:0width$X}`, which has more digits where the number needs them. -/
def upperHex (width n : ℕ) : String :=
  String.ofList (((Nat.toDigits 16 n).map Char.toUpper).leftpad width '0')

/-- How an error is shown. -/
def BlteError.display : BlteError → String
  | .unsupportedCompressionMode byte =>
    s!"unsupported compression mode: 0x{upperHex 2 byte.toNat}"
  | .checksumMismatch expected actual => s!"checksum mismatch: expected {expected}, got {actual}"
  | .compressionError text => s!"compression error: {text}"
  | .keyNotFound keyName => s!"encryption key not found: {upperHex 16 keyName.toNat}"

/-- `MAX_DECOMPRESSION_SIZE`. -/
def maxDecompressionSize : ℕ := 1024 * 1024 * 1024

/-- The loop that reads from a `ZlibDecoder`. -/
def inflate (decompressed : List UInt8) :
    List (List UInt8) → Option String → Except BlteError (List UInt8)
  | [], none => .ok decompressed
  | [], some e => .error (.compressionError s!"ZLib decompression failed: {e}")
  | piece :: pieces, failure =>
    if piece.length = 0 then .ok decompressed
    else if decompressed.length + piece.length > maxDecompressionSize then
      .error (.compressionError
        s!"Decompressed size exceeds limit of {maxDecompressionSize} bytes")
    else inflate (decompressed ++ piece) pieces failure

/-- The branch of LZ4: the size, and the data. -/
def decompressLz4 (codecs : Codecs) (data : List UInt8) : Except BlteError (List UInt8) :=
  let size := leNat (data.take 8)
  if data.length < 8 then
    .error (.compressionError "LZ4 data too short - missing size header")
  else if size > maxDecompressionSize then
    .error (.compressionError
      s!"LZ4 decompressed size {size} exceeds limit of {maxDecompressionSize} bytes")
  else
    match codecs.lz4 (data.drop 8) size with
    | .error e => .error (.compressionError s!"LZ4 decompression failed: {e}")
    | .ok decompressed =>
      if decompressed.length ≠ size then
        .error (.compressionError
          s!"LZ4 decompression size mismatch: expected {size}, got {decompressed.length}")
      else .ok decompressed

/-- `decompress_chunk`. -/
def decompressChunk (codecs : Codecs) (data : List UInt8) :
    CompressionMode → Except BlteError (List UInt8)
  | .none => .ok data
  | .zlib => inflate [] (codecs.zlib data).1 (codecs.zlib data).2
  | .lz4 => decompressLz4 codecs data
  | .encrypted => .error (.compressionError "Use decrypt_chunk_with_keys for encrypted chunks")
  | .frame => .error (.unsupportedCompressionMode CompressionMode.frame.asByte)

/-- `EncryptionType`. -/
inductive EncryptionType where
  /-- `S`. -/
  | salsa20 : EncryptionType
  /-- `A`. -/
  | arc4 : EncryptionType
  deriving DecidableEq

/-- `EncryptionType::from_byte`. -/
def EncryptionType.fromByte (byte : UInt8) : Option EncryptionType :=
  if byte = 0x53 then some .salsa20 else if byte = 0x41 then some .arc4 else none

/-- What stands in an encrypted chunk. -/
structure EncryptedChunk where
  /-- `key_name`. -/
  keyName : UInt64
  /-- `iv`. -/
  iv : List UInt8
  /-- `cipher`. -/
  cipher : EncryptionType
  /-- `encrypted_data`. -/
  encryptedData : List UInt8

/-- The first part of `decrypt_chunk_with_keys`: the header is read and checked before any
key is looked up. -/
def readEncrypted (data : List UInt8) : Except BlteError EncryptedChunk :=
  let keyNameSize := data.getD 0 0
  let keyName := UInt64.ofNat (leNat ((data.drop 1).take 8))
  let ivSize := data.getD 9 0
  let offset := 10 + ivSize.toNat
  let encryptionType := data.getD offset 0
  if data.length < 17 then
    .error (.compressionError s!"Encrypted chunk too short: {data.length} bytes (minimum 17)")
  else if keyNameSize ≠ 8 then
    .error (.compressionError s!"Invalid key name size: {keyNameSize} (expected 8)")
  else if ivSize ≠ 4 ∧ ivSize ≠ 8 then
    .error (.compressionError s!"Invalid IV size: {ivSize} (expected 4 or 8)")
  else if data.length < offset then
    .error (.compressionError "Encrypted chunk too short for IV")
  else if data.length < offset + 1 then
    .error (.compressionError "Encrypted chunk too short for encryption type")
  else
    match EncryptionType.fromByte encryptionType with
    | none =>
      .error (.compressionError
        s!"Unknown encryption type: 0x{upperHex 2 encryptionType.toNat}")
    | some cipher =>
      .ok ⟨keyName, (data.drop 10).take ivSize.toNat, cipher, data.drop (offset + 1)⟩

/-- The second part: the cipher. -/
def decrypt (codecs : Codecs) (chunk : EncryptedChunk) (key : List UInt8) (index : ℕ) :
    Except BlteError (List UInt8) :=
  match chunk.cipher with
  | .salsa20 =>
    (codecs.salsa20 key chunk.iv index chunk.encryptedData).mapError fun e =>
      .compressionError s!"Salsa20 decryption failed: {e}"
  | .arc4 =>
    match codecs.arc4 key with
    | .error e => .error (.compressionError s!"ARC4 initialization failed: {e}")
    | .ok cipher => .ok (cipher chunk.encryptedData)

/-- The third part: what was encrypted may have been compressed before. -/
def decompressDecrypted (codecs : Codecs) : List UInt8 → Except BlteError (List UInt8)
  | [] => .ok []
  | byte :: rest =>
    match CompressionMode.fromByte byte with
    | none => .ok (byte :: rest)
    | some mode =>
      if mode = .encrypted then .ok (byte :: rest) else decompressChunk codecs rest mode

/-- `decrypt_chunk_with_keys`. -/
def decryptChunkWithKeys (codecs : Codecs) (keys : TactKeyStore) (data : List UInt8)
    (index : ℕ) : Except BlteError (List UInt8) := do
  let chunk ← readEncrypted data
  let key ← (codecs.get keys chunk.keyName).elim (.error (.keyNotFound chunk.keyName)) .ok
  let decrypted ← decrypt codecs chunk key index
  decompressDecrypted codecs decrypted

/-- `decode_chunk_with_keys`. -/
def decodeChunkWithKeys (codecs : Codecs) (keys : TactKeyStore) (chunk : ChunkData)
    (index : ℕ) : Except BlteError (List UInt8) :=
  if chunk.mode = .encrypted then decryptChunkWithKeys codecs keys chunk.data index
  else decompressChunk codecs chunk.data chunk.mode

/-! ### Decoding a container -/

/-- The strict loop. -/
def decodeFrom (codecs : Codecs) (keys : TactKeyStore) :
    ℕ → List ChunkData → Except BlteError (List UInt8)
  | _, [] => .ok []
  | index, chunk :: chunks => do
    let decoded ← decodeChunkWithKeys codecs keys chunk index
    let rest ← decodeFrom codecs keys (index + 1) chunks
    return decoded ++ rest

/-- `decompress_with_keys`. -/
def decompressWithKeys (codecs : Codecs) (keys : TactKeyStore) (file : BlteFile) :
    Except BlteError (List UInt8) :=
  decodeFrom codecs keys 0 file.chunks

/-- `MissingKeyChunk`: a chunk that was filled with zeros. -/
structure MissingKeyChunk where
  /-- `chunk_index`. -/
  chunkIndex : ℕ
  /-- `key_name`. -/
  keyName : UInt64
  /-- `offset`. -/
  offset : ℕ
  /-- `size`. -/
  size : ℕ
  deriving DecidableEq

/-- `PartialDecode`. -/
structure PartialDecode where
  /-- `data`. -/
  data : List UInt8
  /-- `missing_keys`. -/
  missingKeys : List MissingKeyChunk

/-- `verify_checksum`: a checksum of zeros is none. -/
def ChunkData.verifyChecksum (codecs : Codecs) (chunk : ChunkData) (checksum : Key) : Bool :=
  checksum = Key.constant 0 ∨ codecs.md5 chunk.compressedData = checksum

/-- `verify_chunk_checksum`. -/
def verifyChunkChecksum (codecs : Codecs) (chunk : ChunkData) (info : ChunkInfo) (index : ℕ) :
    Except BlteError Unit :=
  if chunk.verifyChecksum codecs info.checksum then .ok ()
  else
    .error (.checksumMismatch s!"chunk {index} {info.checksum.display}"
      (codecs.md5 chunk.compressedData).display)

/-- The loop that zero-fills. -/
def zeroingFrom (codecs : Codecs) (keys : TactKeyStore) :
    ℕ → List (ChunkData × ChunkInfo) → PartialDecode → Except BlteError PartialDecode
  | _, [], done => .ok done
  | index, (chunk, info) :: rest, done => do
    verifyChunkChecksum codecs chunk info index
    match decodeChunkWithKeys codecs keys chunk index with
    | .ok decoded =>
      zeroingFrom codecs keys (index + 1) rest { done with data := done.data ++ decoded }
    | .error (.keyNotFound keyName) =>
      let size := info.decompressedSize.toNat
      zeroingFrom codecs keys (index + 1) rest
        { data := done.data ++ List.replicate size 0
          missingKeys := done.missingKeys ++ [⟨index, keyName, done.data.length, size⟩] }
    | .error e => .error e

/-- `decompress_zeroing_missing_keys`. -/
def decompressZeroingMissingKeys (codecs : Codecs) (keys : TactKeyStore) (file : BlteFile) :
    Except BlteError PartialDecode :=
  match file.header.extended with
  | none => (decompressWithKeys codecs keys file).map fun data => ⟨data, []⟩
  | some extended => zeroingFrom codecs keys 0 (file.chunks.zip extended.chunkInfos) ⟨[], []⟩

/-- A line of `describe_missing_keys`. -/
def MissingKeyChunk.describe (chunk : MissingKeyChunk) : String :=
  s!"{upperHex 16 chunk.keyName.toNat} (chunk {chunk.chunkIndex}, {chunk.size} bytes " ++
    s!"at offset {chunk.offset})"

/-! ### Decodings that report nothing missing -/

section Decoding

variable {codecs : Codecs} {keys : TactKeyStore} {file : BlteFile} {data : List UInt8}

/-- A chunk is encrypted with a key that the store does not have. -/
def UnknownKey (codecs : Codecs) (keys : TactKeyStore) (chunk : ChunkData) : Prop :=
  chunk.mode = .encrypted ∧
    ∃ header, readEncrypted chunk.data = .ok header ∧ codecs.get keys header.keyName = none

/-- A chunk without its key fails with the error that is turned into zeros, at any place. -/
theorem decode_of_unknownKey {chunk : ChunkData} (h : UnknownKey codecs keys chunk) (index : ℕ) :
    ∃ keyName, decodeChunkWithKeys codecs keys chunk index = .error (.keyNotFound keyName) := by
  obtain ⟨hmode, header, hheader, hnone⟩ := h
  refine ⟨header.keyName, ?_⟩
  rw [decodeChunkWithKeys, if_pos hmode, decryptChunkWithKeys, hheader]
  change (((codecs.get keys header.keyName).elim
    (Except.error (BlteError.keyNotFound header.keyName)) Except.ok) >>= _) = _
  rw [hnone]
  rfl

/-- **The strict loop needs every key.** -/
theorem decodeFrom_of_unknownKey {chunks : List ChunkData} {chunk : ChunkData}
    (hmem : chunk ∈ chunks) (h : UnknownKey codecs keys chunk) :
    ∀ index, ∃ e, decodeFrom codecs keys index chunks = .error e := by
  intro index
  by_contra hnone
  obtain ⟨d, hd⟩ : ∃ d, decodeFrom codecs keys index chunks = .ok d := by
    cases hr : decodeFrom codecs keys index chunks with
    | ok d => exact ⟨d, rfl⟩
    | error e => exact absurd ⟨e, hr⟩ hnone
  clear hnone
  induction chunks generalizing index d with
  | nil => exact absurd hmem List.not_mem_nil
  | cons first chunks ih =>
    rw [decodeFrom, except_bind_eq_ok_iff] at hd
    obtain ⟨decoded, hfirst, hd⟩ := hd
    rcases List.mem_cons.mp hmem with rfl | hlater
    · obtain ⟨keyName, hkey⟩ := decode_of_unknownKey h index
      rw [hkey] at hfirst
      cases hfirst
    · obtain ⟨rest, hrest, -⟩ := except_bind_eq_ok_iff.mp hd
      exact ih hlater (index + 1) rest hrest

/-- **The loop that zero-fills**: it keeps what it has reported, it reports every chunk
without its key, and as long as it reports nothing it decodes as the strict loop does. -/
theorem zeroingFrom_eq_ok {pairs : List (ChunkData × ChunkInfo)} :
    ∀ {index : ℕ} {done out : PartialDecode},
      zeroingFrom codecs keys index pairs done = .ok out →
      done.missingKeys <+: out.missingKeys ∧
      (∀ pair ∈ pairs, UnknownKey codecs keys pair.1 → out.missingKeys ≠ []) ∧
      (out.missingKeys = [] → ∃ rest,
        decodeFrom codecs keys index (pairs.map Prod.fst) = .ok rest ∧
          out.data = done.data ++ rest) := by
  induction pairs with
  | nil =>
    intro index done out h
    obtain rfl := Except.ok.inj h
    exact ⟨List.prefix_rfl, fun pair hmem => absurd hmem List.not_mem_nil,
      fun _ => ⟨[], rfl, (List.append_nil _).symm⟩⟩
  | cons pair pairs ih =>
    obtain ⟨chunk, info⟩ := pair
    intro index done out h
    rw [zeroingFrom, except_bind_eq_ok_iff] at h
    obtain ⟨_, -, h⟩ := h
    split at h
    · rename_i decoded hdecoded
      obtain ⟨hextends, hreport, hstrict⟩ := ih h
      refine ⟨hextends, ?_, ?_⟩
      · rintro pair hmem hunknown
        rcases List.mem_cons.mp hmem with rfl | hmem
        · obtain ⟨keyName, hkey⟩ := decode_of_unknownKey hunknown index
          rw [hkey] at hdecoded
          cases hdecoded
        · exact hreport pair hmem hunknown
      · intro hnone
        obtain ⟨rest, hrest, hdata⟩ := hstrict hnone
        refine ⟨decoded ++ rest, ?_, by rw [hdata, List.append_assoc]⟩
        rw [List.map_cons, decodeFrom, hdecoded]
        change (decodeFrom codecs keys (index + 1) _ >>= _) = _
        rw [hrest]
        rfl
    · rename_i keyName _
      obtain ⟨hextends, -, -⟩ := ih h
      have hreported : out.missingKeys ≠ [] := by
        intro hnone
        rw [hnone] at hextends
        exact absurd (List.prefix_nil.mp hextends) (by simp)
      exact ⟨(List.prefix_append _ _).trans hextends, fun _ _ _ => hreported,
        fun hnone => absurd hnone hreported⟩
    · cases h

/-- The chunks are those that are paired with a row. -/
theorem map_fst_zip {extended : ExtendedHeader} (hparse : parse data = .ok file)
    (hextended : file.header.extended = some extended) :
    (file.chunks.zip extended.chunkInfos).map Prod.fst = file.chunks :=
  List.map_fst_zip (Nat.le_of_eq (length_chunks hparse hextended))

/-- **A container with nothing missing is decoded strictly.** -/
theorem decompressWithKeys_of_zeroing {out : PartialDecode} (hparse : parse data = .ok file)
    (h : decompressZeroingMissingKeys codecs keys file = .ok out) (hnone : out.missingKeys = []) :
    decompressWithKeys codecs keys file = .ok out.data := by
  unfold decompressZeroingMissingKeys at h
  rcases hextended : file.header.extended with - | extended
  · rw [hextended] at h
    rcases hstrict : decompressWithKeys codecs keys file with e | d
    · rw [hstrict] at h
      cases h
    · rw [hstrict] at h
      obtain rfl := Except.ok.inj h
      rfl
  · rw [hextended] at h
    obtain ⟨-, -, hstrict⟩ := zeroingFrom_eq_ok h
    obtain ⟨rest, hrest, hdata⟩ := hstrict hnone
    rw [map_fst_zip hparse hextended] at hrest
    rw [decompressWithKeys, hrest, hdata, List.nil_append]

/-- **A container with a chunk without its key is not decoded without a report.** -/
theorem missingKeys_of_unknownKey {out : PartialDecode} (hparse : parse data = .ok file)
    (h : decompressZeroingMissingKeys codecs keys file = .ok out) {chunk : ChunkData}
    (hmem : chunk ∈ file.chunks) (hunknown : UnknownKey codecs keys chunk) :
    out.missingKeys ≠ [] := by
  unfold decompressZeroingMissingKeys at h
  rcases hextended : file.header.extended with - | extended
  · obtain ⟨e, he⟩ := decodeFrom_of_unknownKey hmem hunknown 0
    rw [hextended] at h
    change (decodeFrom codecs keys 0 file.chunks).map _ = _ at h
    rw [he] at h
    cases h
  · rw [hextended] at h
    obtain ⟨-, hreport, -⟩ := zeroingFrom_eq_ok h
    rw [← map_fst_zip hparse hextended] at hmem
    obtain ⟨pair, hpair, rfl⟩ := List.mem_map.mp hmem
    exact hreport pair hpair hunknown

end Decoding

end Blte

end AssetResolver
