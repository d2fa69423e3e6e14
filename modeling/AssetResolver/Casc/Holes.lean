import AssetResolver.Casc.Frozen

/-!
# What zeros leave of a content

The decoder that fills with zeros, with fewer keys than a content needs. What it returns is then
**the content with holes**: zeros in the ranges that it reports, and the content everywhere else,
at its own place (`AssetResolver.Blte.holes_of_missing_keys`). The reported ranges are those of the
chunks whose key is missing.

That the content keeps its place behind a hole is the doing of the table, whose sizes have to be
those of the chunks (`AssetResolver.Blte.DeclaresFrom`), and which nobody checks; a table that lies
about the size of a chunk that can be decoded does no harm.
-/

namespace AssetResolver

namespace Blte

open Program

/-! ### Holes -/

/-- A byte is in the range of a chunk that was filled with zeros. -/
def MissingKeyChunk.covers (hole : MissingKeyChunk) (i : ℕ) : Bool :=
  hole.offset ≤ i ∧ i < hole.offset + hole.size

/-- A byte, or a zero in its place. -/
def fill (holes : List MissingKeyChunk) (i : ℕ) (byte : UInt8) : UInt8 :=
  if holes.any (·.covers i) then 0 else byte

/-- **Some bytes with holes.** -/
def punch (holes : List MissingKeyChunk) (data : List UInt8) : List UInt8 :=
  data.mapIdx (fill holes)

/-- The ranges end where the bytes do. -/
def Within (holes : List MissingKeyChunk) (length : ℕ) : Prop :=
  ∀ hole ∈ holes, hole.offset + hole.size ≤ length

variable {holes : List MissingKeyChunk} {hole : MissingKeyChunk} {front back : List UInt8}

theorem covers_iff {i : ℕ} : hole.covers i = true ↔ hole.offset ≤ i ∧ i < hole.offset + hole.size :=
  decide_eq_true_iff

theorem fill_of_not_covers {i : ℕ} (h : ∀ hole ∈ holes, ¬hole.covers i) (byte : UInt8) :
    fill holes i byte = byte := by
  refine if_neg ?_
  rw [List.any_eq_true]
  rintro ⟨hole, hmem, hcovers⟩
  exact h hole hmem hcovers

theorem fill_append_of_not_covers {i : ℕ} (h : ¬hole.covers i) (byte : UInt8) :
    fill (holes ++ [hole]) i byte = fill holes i byte := by
  rw [fill, fill, List.any_append]
  simp [h]

@[simp] theorem punch_nil_holes (data : List UInt8) : punch [] data = data := by
  refine List.mapIdx_eq_iff.mpr fun i => ?_
  cases data[i]? <;> rfl

@[simp] theorem length_punch (data : List UInt8) : (punch holes data).length = data.length :=
  List.length_mapIdx

theorem Within.mono {length length' : ℕ} (h : Within holes length) (hle : length ≤ length') :
    Within holes length' := fun hole hmem => (h hole hmem).trans hle

/-- What comes behind all holes is there. -/
theorem punch_append (h : Within holes front.length) :
    punch holes (front ++ back) = punch holes front ++ back := by
  have hback : back.mapIdx (fun i => fill holes (i + front.length)) = back := by
    refine List.mapIdx_eq_iff.mpr fun i => ?_
    have hfill : fill holes (i + front.length) = id := by
      funext byte
      refine fill_of_not_covers (fun hole hmem hcovers => ?_) byte
      have hend := h hole hmem
      have hrange := covers_iff.mp hcovers
      omega
    rw [hfill, Option.map_id, id]
  rw [punch, List.mapIdx_append, hback]
  rfl

/-- One more hole behind all others. -/
theorem punch_append_hole (hoffset : hole.offset = front.length) (hsize : hole.size = back.length) :
    punch (holes ++ [hole]) (front ++ back) = punch holes front ++ List.replicate hole.size 0 := by
  have hfront : front.mapIdx (fill (holes ++ [hole])) = front.mapIdx (fill holes) := by
    refine List.mapIdx_eq_mapIdx_iff.mpr fun i hi => ?_
    refine fill_append_of_not_covers (fun hcovers => ?_) _
    have hrange := covers_iff.mp hcovers
    omega
  have hback : back.mapIdx (fun i => fill (holes ++ [hole]) (i + front.length)) =
      List.replicate back.length 0 := by
    refine List.mapIdx_eq_replicate_iff.mpr fun i hi => if_pos ?_
    rw [List.any_append]
    simp only [List.any_cons, List.any_nil, Bool.or_false, Bool.or_eq_true]
    exact .inr (covers_iff.mpr (by omega))
  rw [punch, List.mapIdx_append, hfront, hback, hsize]
  rfl

/-! ### Fewer keys -/

/-- A store has no other keys than another one. -/
def Knows (codecs : Codecs) (keys keys' : TactKeyStore) : Prop :=
  ∀ name key, codecs.get keys name = some key → codecs.get keys' name = some key

/-- The sizes in the table are those that the chunks decode to. -/
def DeclaresFrom (codecs : Codecs) (keys : TactKeyStore) : ℕ → List (ChunkData × ChunkInfo) → Prop
  | _, [] => True
  | index, (chunk, info) :: rest =>
    (∀ decoded, decodeChunkWithKeys codecs keys chunk index = .ok decoded →
      decoded.length = info.decompressedSize.toNat) ∧ DeclaresFrom codecs keys (index + 1) rest

section Fewer

variable {codecs : Codecs} {keys keys' : TactKeyStore}

/-- **With fewer keys a chunk decodes alike, or its key is reported missing.** -/
theorem decode_or_missing (hknows : Knows codecs keys keys') {chunk : ChunkData} {index : ℕ}
    {decoded : List UInt8} (h : decodeChunkWithKeys codecs keys' chunk index = .ok decoded) :
    decodeChunkWithKeys codecs keys chunk index = .ok decoded ∨
      ∃ name, decodeChunkWithKeys codecs keys chunk index = .error (.keyNotFound name) ∧
        codecs.get keys name = none := by
  rw [decodeChunkWithKeys] at h ⊢
  split_ifs at h ⊢ with hmode
  · obtain ⟨header, hheader, h⟩ := except_bind_eq_ok_iff.mp h
    obtain ⟨key, hkey, h⟩ := except_bind_eq_ok_iff.mp h
    have hkey' : codecs.get keys' header.keyName = some key := by
      cases hsome : codecs.get keys' header.keyName with
      | none =>
        rw [hsome] at hkey
        cases hkey
      | some found =>
        rw [hsome] at hkey
        exact congrArg some (Except.ok.inj hkey)
    cases hget : codecs.get keys header.keyName with
    | none =>
      refine .inr ⟨header.keyName, ?_, hget⟩
      rw [decryptChunkWithKeys, hheader]
      change (((codecs.get keys header.keyName).elim
        (Except.error (BlteError.keyNotFound header.keyName)) Except.ok) >>= _) = _
      rw [hget]
      rfl
    | some found =>
      obtain rfl := Option.some.inj ((hknows _ _ hget).symm.trans hkey')
      refine .inl (except_bind_eq_ok_iff.mpr ⟨header, hheader,
        except_bind_eq_ok_iff.mpr ⟨found, ?_, h⟩⟩)
      rw [hget]
      rfl
  · exact .inl h

theorem DeclaresFrom.append {a b : List (ChunkData × ChunkInfo)} {index : ℕ}
    (ha : DeclaresFrom codecs keys index a) (hb : DeclaresFrom codecs keys (index + a.length) b) :
    DeclaresFrom codecs keys index (a ++ b) := by
  induction a generalizing index with
  | nil => exact hb
  | cons pair a ih =>
    refine ⟨ha.1, ih ha.2 ?_⟩
    rwa [List.length_cons, Nat.add_comm a.length 1, ← Nat.add_assoc] at hb

/-- **The loop that zero-fills makes holes**: it returns what the strict loop returns with all
keys, punched. -/
theorem zeroingFrom_eq_punch (hknows : Knows codecs keys keys')
    {pairs : List (ChunkData × ChunkInfo)} :
    ∀ {index : ℕ} {done out : PartialDecode} (full : List UInt8) {rest : List UInt8},
      zeroingFrom codecs keys index pairs done = .ok out →
      decodeFrom codecs keys' index (pairs.map Prod.fst) = .ok rest →
      DeclaresFrom codecs keys' index pairs →
      done.data = punch done.missingKeys full → Within done.missingKeys full.length →
      (∀ hole ∈ done.missingKeys, codecs.get keys hole.keyName = none) →
      out.data = punch out.missingKeys (full ++ rest) ∧
        Within out.missingKeys (full ++ rest).length ∧
        ∀ hole ∈ out.missingKeys, codecs.get keys hole.keyName = none := by
  induction pairs with
  | nil =>
    intro index done out full rest h hrest _ hdone hwithin hmissing
    cases h
    cases hrest
    rw [List.append_nil]
    exact ⟨hdone, hwithin, hmissing⟩
  | cons pair pairs ih =>
    obtain ⟨chunk, info⟩ := pair
    intro index done out full rest h hrest hdeclares hdone hwithin hmissing
    obtain ⟨_, -, h⟩ := except_bind_eq_ok_iff.mp h
    obtain ⟨decoded, hfirst, hrest⟩ := except_bind_eq_ok_iff.mp hrest
    obtain ⟨later, hlater, hrest⟩ := except_bind_eq_ok_iff.mp hrest
    cases hrest
    have hfull : (full ++ decoded).length = full.length + decoded.length := List.length_append
    rcases decode_or_missing hknows hfirst with hsame | ⟨name, hname, hnone⟩
    · rw [hsame] at h
      have hnext := ih (full ++ decoded) h hlater hdeclares.2
        (by rw [punch_append hwithin, hdone]) (hwithin.mono (by omega)) hmissing
      rwa [List.append_assoc] at hnext
    · rw [hname] at h
      have hsize := hdeclares.1 decoded hfirst
      have hoffset : done.data.length = full.length := by rw [hdone, length_punch]
      have hnext := ih (full ++ decoded) h hlater hdeclares.2 ?_ ?_ ?_
      · rwa [List.append_assoc] at hnext
      · rw [punch_append_hole hoffset hsize.symm, hdone]
      · refine List.forall_mem_append.mpr ⟨hwithin.mono (by omega), ?_⟩
        rw [List.forall_mem_singleton, hfull, hsize]
        change done.data.length + _ ≤ _
        rw [hoffset]
      · exact List.forall_mem_append.mpr ⟨hmissing, List.forall_mem_singleton.mpr hnone⟩

/-- Where the sums are right, the loop that zero-fills does not fail. -/
theorem exists_zeroingFrom (hknows : Knows codecs keys keys')
    {pairs : List (ChunkData × ChunkInfo)}
    (hsums : ∀ pair ∈ pairs, pair.1.verifyChecksum codecs pair.2.checksum = true) :
    ∀ {index : ℕ} {rest : List UInt8} (done : PartialDecode),
      decodeFrom codecs keys' index (pairs.map Prod.fst) = .ok rest →
      ∃ out, zeroingFrom codecs keys index pairs done = .ok out := by
  induction pairs with
  | nil => exact fun done _ => ⟨done, rfl⟩
  | cons pair pairs ih =>
    obtain ⟨chunk, info⟩ := pair
    rw [List.forall_mem_cons] at hsums
    intro index rest done hrest
    obtain ⟨decoded, hfirst, hrest⟩ := except_bind_eq_ok_iff.mp hrest
    obtain ⟨later, hlater, -⟩ := except_bind_eq_ok_iff.mp hrest
    have hsum : verifyChunkChecksum codecs chunk info index = .ok () := if_pos hsums.1
    rcases decode_or_missing hknows hfirst with hsame | ⟨name, hname, -⟩
    · obtain ⟨out, hout⟩ := ih hsums.2 { done with data := done.data ++ decoded } hlater
      refine ⟨out, except_bind_eq_ok_iff.mpr ⟨(), hsum, ?_⟩⟩
      rw [hsame]
      exact hout
    · obtain ⟨out, hout⟩ := ih hsums.2
        { data := done.data ++ List.replicate info.decompressedSize.toNat 0
          missingKeys := done.missingKeys ++
            [⟨index, name, done.data.length, info.decompressedSize.toNat⟩] } hlater
      refine ⟨out, except_bind_eq_ok_iff.mpr ⟨(), hsum, ?_⟩⟩
      rw [hname]
      exact hout

/-- A container whose table has the sums and the sizes of its chunks is decoded with fewer keys. -/
theorem exists_punch {content : List UInt8} {file : BlteFile} {extended : ExtendedHeader}
    (hextended : file.header.extended = some extended)
    (hlength : file.chunks.length = extended.chunkInfos.length) (hknows : Knows codecs keys keys')
    (hcontent : decompressWithKeys codecs keys' file = .ok content)
    (hsums : ∀ pair ∈ file.chunks.zip extended.chunkInfos,
      pair.1.verifyChecksum codecs pair.2.checksum = true)
    (hdeclares : DeclaresFrom codecs keys' 0 (file.chunks.zip extended.chunkInfos)) :
    ∃ out, decompressZeroingMissingKeys codecs keys file = .ok out ∧
      out.data = punch out.missingKeys content ∧
      ∀ hole ∈ out.missingKeys, codecs.get keys hole.keyName = none ∧
        hole.offset + hole.size ≤ content.length := by
  have hfst : (file.chunks.zip extended.chunkInfos).map Prod.fst = file.chunks :=
    List.map_fst_zip (Nat.le_of_eq hlength)
  rw [decompressWithKeys, ← hfst] at hcontent
  obtain ⟨out, hout⟩ := exists_zeroingFrom hknows hsums ⟨[], []⟩ hcontent
  obtain ⟨hdata, hwithin, hmissing⟩ := zeroingFrom_eq_punch hknows [] hout hcontent
    hdeclares rfl (fun _ hmem => absurd hmem List.not_mem_nil)
    fun _ hmem => absurd hmem List.not_mem_nil
  rw [List.nil_append] at hdata hwithin
  refine ⟨out, ?_, hdata, fun hole hmem => ⟨hmissing hole hmem, hwithin hole hmem⟩⟩
  rw [decompressZeroingMissingKeys, hextended]
  exact hout

/-- **With fewer keys a content has holes, and is itself everywhere else.** A container whose table
has the sums and the sizes of its chunks is decoded without a failure, to as many bytes as with all
keys: zeros in the ranges that are reported, each for a key that is missing, and the content
around them. -/
theorem holes_of_missing_keys {data content : List UInt8} {file : BlteFile}
    {extended : ExtendedHeader} (hparse : parse data = .ok file)
    (hextended : file.header.extended = some extended) (hknows : Knows codecs keys keys')
    (hcontent : decompressWithKeys codecs keys' file = .ok content)
    (hsums : ∀ pair ∈ file.chunks.zip extended.chunkInfos,
      pair.1.verifyChecksum codecs pair.2.checksum = true)
    (hdeclares : DeclaresFrom codecs keys' 0 (file.chunks.zip extended.chunkInfos)) :
    ∃ out, decompressZeroingMissingKeys codecs keys file = .ok out ∧
      out.data = punch out.missingKeys content ∧ out.data.length = content.length ∧
      ∀ hole ∈ out.missingKeys, codecs.get keys hole.keyName = none ∧
        hole.offset + hole.size ≤ content.length := by
  obtain ⟨out, hout, hdata, hholes⟩ := exists_punch hextended (length_chunks hparse hextended)
    hknows hcontent hsums hdeclares
  exact ⟨out, hout, hdata, by rw [hdata, length_punch], hholes⟩

end Fewer

/-- A container with an encrypted chunk of one byte and one of two bytes that is not. -/
def holedContainer : List UInt8 :=
  osString "BLTE" ++ [0, 0, 0, 60, 0x0f, 0, 0, 2] ++
    ([0, 0, 0, 18, 0, 0, 0, 1] ++ List.replicate 16 0) ++
    ([0, 0, 0, 3, 0, 0, 0, 2] ++ List.replicate 16 0) ++
    (osString "E" ++ [8, 1, 0, 0, 0, 0, 0, 0, 0, 4, 0, 0, 0, 0] ++ osString "SN" ++ [5]) ++
    (osString "N" ++ [6, 7])

/-- Without its key, the first chunk is a hole. -/
theorem holes_of_missing_keys_sample :
    ∃ file out, parse holedContainer = .ok file ∧
      decompressWithKeys sampleCodecs [⟨1, [9]⟩] file = .ok [5, 6, 7] ∧
      decompressZeroingMissingKeys sampleCodecs [] file = .ok out ∧
      out.data = punch out.missingKeys [5, 6, 7] := by
  have hparse : parse holedContainer = .ok _ := rfl
  have hknows : Knows sampleCodecs [] [⟨1, [9]⟩] := nofun
  obtain ⟨out, hout, hdata, -⟩ := holes_of_missing_keys hparse rfl hknows rfl (by decide +kernel)
    ⟨by rintro _ ⟨⟩; rfl, by rintro _ ⟨⟩; rfl, trivial⟩
  exact ⟨_, out, hparse, rfl, hout, hdata⟩

end Blte

end AssetResolver
