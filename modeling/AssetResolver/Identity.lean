import AssetResolver.Path

/-!
# Authored asset namespaces

`identity.rs`: the product and build key an asset was published under, and the
directory of a data root that belongs to them.

The constructor is the only way to a value, and what it checks travels with the
value: the product is one of two literal names and the build key is 32 lowercase
hexadecimal digits (`AssetResolver.AssetIdentity`). That is exactly what makes
the two strings single file names, so that the joins of
`AssetResolver.AssetIdentity.assetRoot` append two components and can neither
leave the data root nor replace it
(`AssetResolver.AssetIdentity.assetRoot_components`).
-/

namespace AssetResolver

/-! ### ASCII strings -/

/-- `u8::is_ascii_hexdigit`. -/
def isAsciiHexdigit (b : UInt8) : Bool :=
  (0x30 ≤ b && b ≤ 0x39) || (0x61 ≤ b && b ≤ 0x66) || (0x41 ≤ b && b ≤ 0x46)

/-- `u8::to_ascii_lowercase`. -/
def byteToAsciiLowercase (b : UInt8) : UInt8 := if 0x41 ≤ b && b ≤ 0x5a then b + 0x20 else b

/-- `str::to_ascii_lowercase`. -/
def toAsciiLowercase (s : String) : String := String.ofList (s.toList.map Char.toLower)

/-- Lowercasing an uppercase letter adds the distance between the alphabets. -/
theorem val_toLower {c : Char} (h : 65 ≤ c.val.toNat ∧ c.val.toNat ≤ 90) :
    c.toLower.val.toNat = c.val.toNat + 32 := by
  have hc : 'A'.val ≤ c.val ∧ c.val ≤ 'Z'.val := h
  have hshift : c.toLower.val = c.val + 32 := congrArg Char.val (dif_pos hc)
  rw [hshift, UInt32.toNat_add]
  have h32 : (32 : UInt32).toNat = 32 := rfl
  omega

theorem toLower_of_not_upper {c : Char} (h : ¬(65 ≤ c.val.toNat ∧ c.val.toNat ≤ 90)) :
    c.toLower = c :=
  have hc : ¬('A'.val ≤ c.val ∧ c.val ≤ 'Z'.val) := h
  dif_neg hc

theorem toLower_toLower (c : Char) : c.toLower.toLower = c.toLower := by
  by_cases h : 65 ≤ c.val.toNat ∧ c.val.toNat ≤ 90
  · refine toLower_of_not_upper ?_
    rw [val_toLower h]
    omega
  · rw [toLower_of_not_upper h, toLower_of_not_upper h]

/-- Lowercasing twice is lowercasing once. -/
@[simp] theorem toAsciiLowercase_idem (s : String) :
    toAsciiLowercase (toAsciiLowercase s) = toAsciiLowercase s := by
  simp only [toAsciiLowercase, String.toList_ofList, List.map_map, Function.comp_def,
    toLower_toLower]

theorem byteToAsciiLowercase_ofNat {n : ℕ} (hn : n < 256) :
    byteToAsciiLowercase (UInt8.ofNat n) =
      UInt8.ofNat (if 65 ≤ n ∧ n ≤ 90 then n + 32 else n) := by
  have hval : (UInt8.ofNat n).toNat = n := by
    rw [UInt8.toNat_ofNat', Nat.mod_eq_of_lt (by omega)]
  have h1 : (0x41 ≤ UInt8.ofNat n && UInt8.ofNat n ≤ 0x5a) = decide (65 ≤ n ∧ n ≤ 90) := by
    rw [Bool.eq_iff_iff]
    simp only [Bool.and_eq_true, decide_eq_true_eq, UInt8.le_iff_toNat_le, hval]
    rfl
  unfold byteToAsciiLowercase
  rw [h1]
  split_ifs with h
  · refine UInt8.toNat_inj.mp ?_
    simp only [UInt8.toNat_add, UInt8.toNat_ofNat']
    change (n % 256 + 32) % 256 = (n + 32) % 256
    omega
  · simp_all
  · simp_all
  · rfl

/-- The bytes of a character outside ASCII are no letters of ASCII. -/
theorem utf8EncodeChar_toLower (c : Char) :
    String.utf8EncodeChar c.toLower = (String.utf8EncodeChar c).map byteToAsciiLowercase := by
  by_cases hup : 65 ≤ c.val.toNat ∧ c.val.toNat ≤ 90
  · have hlow := val_toLower hup
    rw [String.utf8EncodeChar, String.utf8EncodeChar, hlow, if_pos (by omega), if_pos (by omega),
      List.map_singleton, byteToAsciiLowercase_ofNat (by omega), if_pos hup]
  · rw [toLower_of_not_upper hup]
    -- a byte at or above 0x80 is left alone, and so is an ASCII byte that is no capital
    have hkeep : ∀ n : ℕ, 128 ≤ n → n < 256 →
        byteToAsciiLowercase (UInt8.ofNat n) = UInt8.ofNat n := fun n h1 h2 => by
      rw [byteToAsciiLowercase_ofNat h2, if_neg (by omega)]
    unfold String.utf8EncodeChar
    dsimp only
    split_ifs with h1 h2 h3
    · rw [List.map_singleton, byteToAsciiLowercase_ofNat (by omega), if_neg hup]
    · simp only [List.map_cons, List.map_nil]
      rw [hkeep _ (by omega) (by omega), hkeep _ (by omega) (by omega)]
    · simp only [List.map_cons, List.map_nil]
      rw [hkeep _ (by omega) (by omega), hkeep _ (by omega) (by omega),
        hkeep _ (by omega) (by omega)]
    · simp only [List.map_cons, List.map_nil]
      rw [hkeep _ (by omega) (by omega), hkeep _ (by omega) (by omega),
        hkeep _ (by omega) (by omega), hkeep _ (by omega) (by omega)]

/-- **Lowercasing a string lowercases its bytes one by one.** -/
theorem osString_toAsciiLowercase (s : String) :
    osString (toAsciiLowercase s) = (osString s).map byteToAsciiLowercase := by
  simp only [osString, toAsciiLowercase, String.toList_ofList, List.flatMap_map, List.map_flatMap,
    utf8EncodeChar_toLower]

theorem isAsciiHexdigit_ofNat {n : ℕ} (hn : n < 256) :
    isAsciiHexdigit (UInt8.ofNat n) ↔
      (48 ≤ n ∧ n ≤ 57) ∨ (97 ≤ n ∧ n ≤ 102) ∨ (65 ≤ n ∧ n ≤ 70) := by
  have hval : (UInt8.ofNat n).toNat = n := by
    rw [UInt8.toNat_ofNat', Nat.mod_eq_of_lt (by omega)]
  simp only [isAsciiHexdigit, Bool.or_eq_true, Bool.and_eq_true, decide_eq_true_eq,
    UInt8.le_iff_toNat_le, hval, or_assoc]
  rfl

/-- Lowercasing keeps a hexadecimal digit one. -/
theorem isAsciiHexdigit_lowercase {b : UInt8} (h : isAsciiHexdigit b) :
    isAsciiHexdigit (byteToAsciiLowercase b) := by
  obtain ⟨n, hlt, rfl⟩ : ∃ n < 256, UInt8.ofNat n = b := ⟨b.toNat, b.toNat_lt, UInt8.ofNat_toNat⟩
  rw [isAsciiHexdigit_ofNat hlt] at h
  rw [byteToAsciiLowercase_ofNat hlt]
  split_ifs
  · rw [isAsciiHexdigit_ofNat (by omega)]
    omega
  · rw [isAsciiHexdigit_ofNat hlt]
    omega

/-! ### Identities -/

/-- The bytes are the 32 hexadecimal digits of a build key. -/
def IsBuildKey (bytes : OsString) : Prop :=
  bytes.length = 32 ∧ ∀ b ∈ bytes, isAsciiHexdigit b

instance (bytes : OsString) : Decidable (IsBuildKey bytes) :=
  inferInstanceAs (Decidable (_ ∧ _))

/-- An authored asset namespace: a supported product and one of its builds. -/
structure AssetIdentity where
  /-- The product the asset was authored for. -/
  product : String
  /-- The build key, in lowercase. -/
  buildKey : String
  product_supported : product = "wow" ∨ product = "wow_classic_beta"
  buildKey_valid : IsBuildKey (osString buildKey)
  buildKey_lower : toAsciiLowercase buildKey = buildKey
  deriving DecidableEq

namespace AssetIdentity

theorem isBuildKey_lowercase {buildKey : String} (h : IsBuildKey (osString buildKey)) :
    IsBuildKey (osString (toAsciiLowercase buildKey)) := by
  rw [osString_toAsciiLowercase]
  refine ⟨by rw [List.length_map]; exact h.1, fun b hb => ?_⟩
  obtain ⟨a, ha, rfl⟩ := List.mem_map.mp hb
  exact isAsciiHexdigit_lowercase (h.2 a ha)

/-- `AssetIdentity::new`. -/
def new (product buildKey : String) : Except String AssetIdentity :=
  if hp : product = "wow" ∨ product = "wow_classic_beta" then
    if hk : IsBuildKey (osString buildKey) then
      .ok
        { product
          buildKey := toAsciiLowercase buildKey
          product_supported := hp
          buildKey_valid := isBuildKey_lowercase hk
          buildKey_lower := toAsciiLowercase_idem buildKey }
    else .error s!"invalid authored asset build key: {buildKey}"
  else .error s!"unsupported authored asset product: {product}"

/-- What a successful construction has checked, and what it keeps of the key. -/
theorem new_eq_ok {product buildKey : String} {i : AssetIdentity}
    (h : new product buildKey = .ok i) :
    i.product = product ∧ i.buildKey = toAsciiLowercase buildKey ∧
      IsBuildKey (osString buildKey) := by
  unfold new at h
  split_ifs at h with hp hk
  cases h
  exact ⟨rfl, rfl, hk⟩

/-- A build of the retail product, from its key. -/
def wow (buildKey : String) (valid : IsBuildKey (osString buildKey))
    (lower : toAsciiLowercase buildKey = buildKey) : AssetIdentity :=
  ⟨"wow", buildKey, Or.inl rfl, valid, lower⟩

/-- Two identities of one product and one build are the same. -/
theorem ext_iff {i j : AssetIdentity} :
    i = j ↔ i.product = j.product ∧ i.buildKey = j.buildKey := by
  constructor
  · rintro rfl
    exact ⟨rfl, rfl⟩
  · rintro ⟨h₁, h₂⟩
    cases i
    cases j
    simp_all

/-! ### The namespace of an identity -/

/-- The directory all authored namespaces live in. -/
def productsName : FileName :=
  ⟨osString "products", by decide, by decide, by decide, by decide⟩

/-- A product is a single file name. -/
def productName (i : AssetIdentity) : FileName where
  bytes := osString i.product
  ne_nil := by rcases i.product_supported with h | h <;> rw [h] <;> decide
  sep_notMem := by rcases i.product_supported with h | h <;> rw [h] <;> decide
  ne_dot := by rcases i.product_supported with h | h <;> rw [h] <;> decide
  ne_dotdot := by rcases i.product_supported with h | h <;> rw [h] <;> decide

/-- A build key is a single file name. -/
def buildKeyName (i : AssetIdentity) : FileName where
  bytes := osString i.buildKey
  ne_nil := fun h => by simpa [h] using i.buildKey_valid.1
  sep_notMem := fun h => absurd (i.buildKey_valid.2 _ h) (by decide)
  ne_dot := fun h => by simpa [h] using i.buildKey_valid.1
  ne_dotdot := fun h => by simpa [h] using i.buildKey_valid.1

/-- `AssetIdentity::asset_root`. -/
def assetRoot (i : AssetIdentity) (dataRoot : PathBuf) : PathBuf :=
  ((dataRoot.join (.ofStr "products")).join (.ofStr i.product)).join (.ofStr i.buildKey)

/-- `AssetIdentity::asset_path`: `relative` is the path within the namespace. -/
def assetPath (i : AssetIdentity) (dataRoot relative : PathBuf) : PathBuf :=
  (i.assetRoot dataRoot).join relative

/-- The three components that name a namespace below a data root. -/
def scope (i : AssetIdentity) : List Component :=
  [.normal productsName, .normal i.productName, .normal i.buildKeyName]

/-- **The namespace of an identity is three components below the data root**,
whatever the data root is: neither the product nor the build key can be read as
anything but a file name. -/
@[simp] theorem assetRoot_components (i : AssetIdentity) (dataRoot : PathBuf) :
    (i.assetRoot dataRoot).components = dataRoot.components ++ i.scope := by
  have hnormal : ∀ n : FileName, (PathBuf.ofOs n.bytes).AllNormal := fun n c hc => by
    rw [PathBuf.ofOs_fileName, List.mem_singleton] at hc
    rw [hc]
    rfl
  have hjoin : ∀ (p : PathBuf) (n : FileName),
      (p.join (.ofOs n.bytes)).components = p.components ++ [.normal n] := fun p n => by
    rw [PathBuf.join_components (hnormal n), PathBuf.ofOs_fileName]
  have h₁ := hjoin dataRoot productsName
  have h₂ := hjoin (dataRoot.join (.ofStr "products")) i.productName
  have h₃ := hjoin ((dataRoot.join (.ofStr "products")).join (.ofStr i.product)) i.buildKeyName
  change ((dataRoot.join (.ofStr "products")).components) = _ at h₁
  change ((((dataRoot.join (.ofStr "products")).join (.ofStr i.product))).components) = _ at h₂
  change (i.assetRoot dataRoot).components = _ at h₃
  rw [h₃, h₂, h₁]
  simp [scope]

/-- A path of file names within a namespace stays behind its three components. -/
theorem assetPath_components (i : AssetIdentity) (dataRoot : PathBuf) {relative : PathBuf}
    (h : relative.AllNormal) :
    (i.assetPath dataRoot relative).components =
      dataRoot.components ++ i.scope ++ relative.components := by
  rw [assetPath, PathBuf.join_components h, assetRoot_components]

/-- **The three components determine the identity.** -/
theorem scope_injective : Function.Injective scope := by
  intro i j h
  have h' : i.productName = j.productName ∧ i.buildKeyName = j.buildKeyName := by
    simpa [scope] using h
  refine ext_iff.mpr ⟨?_, ?_⟩
  · exact osString_injective (congrArg FileName.bytes h'.1)
  · exact osString_injective (congrArg FileName.bytes h'.2)

theorem length_scope (i : AssetIdentity) : i.scope.length = 3 := rfl

theorem isNormal_of_mem_scope (i : AssetIdentity) : ∀ c ∈ i.scope, c.isNormal := by
  simp [scope, Component.isNormal]

end AssetIdentity

end AssetResolver
