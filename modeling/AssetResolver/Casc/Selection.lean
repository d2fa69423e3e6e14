import AssetResolver.Install

/-!
# Which rows of `.build.info` a build depends on

`read_product_build` and `read_keyring_keys` each search the rows of `.build.info`: the one for
the only active row of a product, the other for the first active row of a product and a build
key. Of all rows both see only **the active ones of that product**
(`AssetResolver.ownRows`), in their order; what stands between them does not matter.

So the two searches come to the same row (`AssetResolver.keyringRow_of_ownRows`), and two
installations whose own rows agree select the same build and the same keys, or both nothing
(`AssetResolver.selection_of_rows`): `AssetResolver.editsOthers_iff` says that own rows agree
exactly if one list comes from the other by adding and taking away other rows.
-/

namespace AssetResolver

open Program

/-! ### Own rows -/

/-- Whether a row is an active one of a product. -/
def BuildRow.isOwn (product : String) (row : BuildRow) : Bool :=
  row.isActive && row.product == some product

/-- The active rows of a product. -/
def ownRows (product : String) (rows : List BuildRow) : List BuildRow :=
  rows.filter (BuildRow.isOwn product)

/-- **Two lists of rows that differ only in rows of other products and inactive rows**: some
are added, some are taken away. To change one, or to move it, is to take it away and to add
it. -/
inductive EditsOthers (product : String) : List BuildRow → List BuildRow → Prop where
  /-- Nothing is changed. -/
  | refl (rows : List BuildRow) : EditsOthers product rows rows
  /-- Another row is added. -/
  | add (front back : List BuildRow) (row : BuildRow) (h : row.isOwn product = false) :
      EditsOthers product (front ++ back) (front ++ row :: back)
  /-- Another row is taken away. -/
  | remove (front back : List BuildRow) (row : BuildRow) (h : row.isOwn product = false) :
      EditsOthers product (front ++ row :: back) (front ++ back)
  /-- One edit after another. -/
  | trans {rows rows' rows'' : List BuildRow} (h : EditsOthers product rows rows')
      (h' : EditsOthers product rows' rows'') : EditsOthers product rows rows''

variable {product : String} {rows rows' : List BuildRow}

theorem ownRows_insert {row : BuildRow} (h : row.isOwn product = false)
    (front back : List BuildRow) :
    ownRows product (front ++ row :: back) = ownRows product (front ++ back) := by
  rw [ownRows, ownRows, List.filter_append, List.filter_append,
    List.filter_cons_of_neg (by rw [h]; exact Bool.false_ne_true)]

theorem EditsOthers.symm (h : EditsOthers product rows rows') :
    EditsOthers product rows' rows := by
  induction h with
  | refl rows => exact .refl rows
  | add front back row h => exact .remove front back row h
  | remove front back row h => exact .add front back row h
  | trans _ _ ih ih' => exact .trans ih' ih

/-- All other rows can be taken away. -/
theorem editsOthers_ownRows (product : String) (front rows : List BuildRow) :
    EditsOthers product (front ++ rows) (front ++ ownRows product rows) := by
  induction rows generalizing front with
  | nil => exact .refl _
  | cons row rows ih =>
    cases hown : row.isOwn product with
    | true =>
      have h := ih (front ++ [row])
      rw [List.append_assoc, List.append_assoc] at h
      rw [ownRows, List.filter_cons_of_pos hown]
      exact h
    | false =>
      rw [ownRows, List.filter_cons_of_neg (by rw [hown]; exact Bool.false_ne_true)]
      exact .trans (.remove front rows row hown) (ih front)

/-- **The own rows are all that such edits keep**, and all that counts for them. -/
theorem editsOthers_iff :
    EditsOthers product rows rows' ↔ ownRows product rows = ownRows product rows' := by
  constructor
  · intro h
    induction h with
    | refl rows => rfl
    | add front back row h => exact (ownRows_insert h front back).symm
    | remove front back row h => exact ownRows_insert h front back
    | trans _ _ ih ih' => exact ih.trans ih'
  · intro h
    have hleft := editsOthers_ownRows product [] rows
    rw [h] at hleft
    exact .trans hleft (editsOthers_ownRows product [] rows').symm

/-! ### The two searches -/

/-- **The search for the build** sees the own rows. -/
theorem activeBuildKey_eq_ok_iff {infoPath : PathBuf} {key : String} :
    activeBuildKey infoPath product rows = .ok key ↔
      ∃ row, ownRows product rows = [row] ∧ row.buildKey = some key := by
  have hown : (rows.filter fun row => row.isActive && row.product == some product) =
      ownRows product rows := rfl
  unfold activeBuildKey
  rw [hown]
  rcases ownRows product rows with _ | ⟨row, _ | ⟨row', rest⟩⟩
  · simp
  · dsimp only
    cases hkey : row.buildKey with
    | none => simp [hkey]
    | some key' => simp [hkey]
  · simp

/-- The row `read_keyring_keys` looks for. -/
def keyringRow (product buildKey : String) (rows : List BuildRow) : Option BuildRow :=
  rows.find? fun row =>
    row.isActive && row.product == some product && row.buildKey == some buildKey

/-- **The search for the keyring** sees the own rows. -/
theorem keyringRow_eq (product buildKey : String) (rows : List BuildRow) :
    keyringRow product buildKey rows =
      (ownRows product rows).find? fun row => row.buildKey == some buildKey := by
  unfold keyringRow ownRows
  rw [List.find?_filter]
  refine congrArg (fun p => rows.find? p) (funext fun row => ?_)
  rw [Bool.eq_iff_iff]
  simp [BuildRow.isOwn]

/-- The two searches come to the same row. -/
theorem keyringRow_of_ownRows {row : BuildRow} {key : String}
    (hown : ownRows product rows = [row]) (hkey : row.buildKey = some key) :
    keyringRow product key rows = some row := by
  rw [keyringRow_eq, hown, List.find?_cons_of_pos (by rw [hkey]; exact beq_self_eq_true _)]

/-! ### What the reads come to -/

variable {formats : InstallFormats} {installRoot installRoot' : PathBuf}
  {env env' : (q : InstallQuery) → q.Answer}

/-- The keys of the keyring a row names: the end of `read_keyring_keys`. -/
def readRowKeyring (formats : InstallFormats) (installRoot : PathBuf) (row : BuildRow) :
    InstallProgram (List TactKey) :=
  match row.keyring with
  | none => return []
  | some keyringKey => do
    let keyringPath ← settled (dataConfigPath installRoot keyringKey)
    let file ← raise (question (.openFile keyringPath)) fun e =>
      s!"open keyring {keyringPath.display}: {e}"
    let keyring ← settled ((formats.parseKeyring file).mapError fun e =>
      s!"parse keyring {keyringPath.display}: {e}")
    settled (keyring.mapError fun e => s!"invalid keyring {keyringPath.display}: {e}")

/-- `.build.info` of an installation, whose text is parsed into some rows. -/
def ShowsRows (formats : InstallFormats) (installRoot : PathBuf)
    (env : (q : InstallQuery) → q.Answer) (rows : List BuildRow) : Prop :=
  ∃ content, (∀ product, env (.readBuildInfo (buildInfoPath installRoot) product) = .ok content) ∧
    env (.readToString (buildInfoPath installRoot)) = .ok content ∧
    formats.parseBuildInfo content = .ok rows

/-- Two installations with the same configuration files. -/
def SameConfigs (installRoot installRoot' : PathBuf) (env env' : (q : InstallQuery) → q.Answer) :
    Prop :=
  ∀ key path path', dataConfigPath installRoot key = .ok path →
    dataConfigPath installRoot' key = .ok path' → env (.openFile path) = env' (.openFile path')

theorem SameConfigs.symm (h : SameConfigs installRoot installRoot' env env') :
    SameConfigs installRoot' installRoot env' env :=
  fun key path path' hpath hpath' => (h key path' path hpath' hpath).symm

/-- Whether there is a path does not depend on the installation. -/
theorem dataConfigPath_ok {key : String} {path : PathBuf}
    (h : dataConfigPath installRoot key = .ok path) (installRoot' : PathBuf) :
    ∃ path', dataConfigPath installRoot' key = .ok path' := by
  unfold dataConfigPath at h ⊢
  split_ifs at h ⊢ with hlen
  exact ⟨_, rfl⟩

/-- **When a build is picked**: the only own row names it, and its configuration is there. -/
theorem readProductBuild_eq_ok_iff (hrows : ShowsRows formats installRoot env rows)
    {active : ActiveBuild} :
    (readProductBuild formats installRoot product).run.run env = .ok active ↔
      ∃ row key path file config, ownRows product rows = [row] ∧ row.buildKey = some key ∧
        (∃ k, parseHex16 key = .ok k) ∧ dataConfigPath installRoot key = .ok path ∧
        env (.openFile path) = .ok file ∧ formats.parseBuildConfig file = .ok config ∧
        active = ⟨product, key, config⟩ := by
  obtain ⟨content, hinfo, -, hparse⟩ := hrows
  have hselected : ∀ key, selectedBuildKey formats (buildInfoPath installRoot) product content =
      .ok key ↔ ∃ row, ownRows product rows = [row] ∧ row.buildKey = some key := by
    intro key
    unfold selectedBuildKey
    rw [hparse]
    exact activeBuildKey_eq_ok_iff
  rw [← yields_run]
  simp only [readProductBuild, yields_ok_bind_iff, yields_raise, yields_settled, yields_query,
    yields_pure, mapError_eq_ok_iff]
  constructor
  · rintro ⟨content', hcontent, key, hkey, k, hk, path, hpath, file, hfile, config, hconfig, rfl⟩
    obtain rfl := Except.ok.inj ((hinfo product).symm.trans hcontent)
    obtain ⟨row, hrow, hkey⟩ := (hselected key).mp hkey
    exact ⟨row, key, path, file, config, hrow, hkey, ⟨k, hk⟩, hpath, hfile, hconfig, rfl⟩
  · rintro ⟨row, key, path, file, config, hrow, hkey, ⟨k, hk⟩, hpath, hfile, hconfig, rfl⟩
    exact ⟨content, hinfo product, key, (hselected key).mpr ⟨row, hrow, hkey⟩, k, hk, path, hpath,
      file, hfile, config, hconfig, rfl⟩

/-- The keys are those of the keyring of the row that is found. -/
theorem readKeyringKeys_eq_ok_iff (hrows : ShowsRows formats installRoot env rows)
    {buildKey : String} {keys : List TactKey} :
    (readKeyringKeys formats installRoot product buildKey).run.run env = .ok keys ↔
      ∃ row, keyringRow product buildKey rows = some row ∧
        (readRowKeyring formats installRoot row).run.run env = .ok keys := by
  obtain ⟨content, -, hinfo, hparse⟩ := hrows
  rw [← yields_run]
  simp only [readKeyringKeys, yields_ok_bind_iff, yields_raise, yields_settled, yields_query,
    mapError_eq_ok_iff]
  constructor
  · rintro ⟨content', hcontent, rows', hrows', row, hrow, h⟩
    obtain rfl := Except.ok.inj (hinfo.symm.trans hcontent)
    obtain rfl := Except.ok.inj (hparse.symm.trans hrows')
    split at hrow
    · rename_i row' hfind
      obtain rfl := Except.ok.inj hrow
      exact ⟨row', hfind, yields_run.mp h⟩
    · cases hrow
  · rintro ⟨row, hfind, h⟩
    refine ⟨content, hinfo, rows, hparse, row, ?_, yields_run.mpr h⟩
    unfold keyringRow at hfind
    rw [hfind]

theorem readRowKeyring_eq_ok_iff {row : BuildRow} {keys : List TactKey} :
    (readRowKeyring formats installRoot row).run.run env = .ok keys ↔
      row.keyring = none ∧ keys = [] ∨
      ∃ key path file, row.keyring = some key ∧ dataConfigPath installRoot key = .ok path ∧
        env (.openFile path) = .ok file ∧ formats.parseKeyring file = .ok (.ok keys) := by
  rw [← yields_run]
  unfold readRowKeyring
  cases hkeyring : row.keyring with
  | none =>
    rw [yields_pure]
    constructor
    · rintro rfl
      exact Or.inl ⟨rfl, rfl⟩
    · rintro (⟨-, rfl⟩ | ⟨_, _, _, ⟨⟩, -⟩)
      rfl
  | some key =>
    simp only [yields_ok_bind_iff, yields_raise, yields_settled, yields_query, mapError_eq_ok_iff]
    constructor
    · rintro ⟨path, hpath, file, hfile, keyring, hparse, rfl⟩
      exact Or.inr ⟨key, path, file, rfl, hpath, hfile, hparse⟩
    · rintro (⟨⟨⟩, -⟩ | ⟨key', path, file, ⟨⟩, hpath, hfile, hparse⟩)
      exact ⟨path, hpath, file, hfile, .ok keys, hparse, rfl⟩

/-! ### Installations whose own rows agree -/

section Agree

variable (hrows : ShowsRows formats installRoot env rows)
  (hrows' : ShowsRows formats installRoot' env' rows')
  (hconfigs : SameConfigs installRoot installRoot' env env')
  (hown : ownRows product rows = ownRows product rows')
include hrows hrows' hconfigs hown

/-- What the one selects the other one does. -/
theorem readProductBuild_of_ownRows {active : ActiveBuild}
    (h : (readProductBuild formats installRoot product).run.run env = .ok active) :
    (readProductBuild formats installRoot' product).run.run env' = .ok active := by
  obtain ⟨row, key, path, file, config, hrow, hkey, hk, hpath, hfile, hconfig, rfl⟩ :=
    (readProductBuild_eq_ok_iff hrows).mp h
  obtain ⟨path', hpath'⟩ := dataConfigPath_ok hpath installRoot'
  exact (readProductBuild_eq_ok_iff hrows').mpr ⟨row, key, path', file, config, hown ▸ hrow, hkey,
    hk, hpath', (hconfigs key path path' hpath hpath').symm.trans hfile, hconfig, rfl⟩

/-- The keys of the one are those of the other. -/
theorem readKeyringKeys_of_ownRows {buildKey : String} {keys : List TactKey}
    (h : (readKeyringKeys formats installRoot product buildKey).run.run env = .ok keys) :
    (readKeyringKeys formats installRoot' product buildKey).run.run env' = .ok keys := by
  obtain ⟨row, hfind, hkeys⟩ := (readKeyringKeys_eq_ok_iff hrows).mp h
  rw [keyringRow_eq, hown, ← keyringRow_eq] at hfind
  refine (readKeyringKeys_eq_ok_iff hrows').mpr ⟨row, hfind, readRowKeyring_eq_ok_iff.mpr ?_⟩
  rcases readRowKeyring_eq_ok_iff.mp hkeys with
    hnone | ⟨key, path, file, hkey, hpath, hfile, hparse⟩
  · exact Or.inl hnone
  · obtain ⟨path', hpath'⟩ := dataConfigPath_ok hpath installRoot'
    exact Or.inr ⟨key, path', file, hkey, hpath',
      (hconfigs key path path' hpath hpath').symm.trans hfile, hparse⟩

end Agree

/-- Two results of which one is a success exactly if the other one is the same one. -/
theorem toOption_eq {ε α : Type} {r r' : Except ε α} (h : ∀ a, r = .ok a → r' = .ok a)
    (h' : ∀ a, r' = .ok a → r = .ok a) : r.toOption = r'.toOption := by
  cases r with
  | ok a => rw [h a rfl]
  | error e =>
    cases r' with
    | ok a => cases h' a rfl
    | error e' => rfl

/-- **A build depends on the own rows of its product.** A build is picked exactly if there is
one own row whose build key passes `parse_hex_16` and whose configuration opens and parses, and
then it is the build of that row; its keys are read from the keyring of the same row. Two
installations with the same configuration files whose rows differ only in rows of other products
and inactive rows come to the same build and the same keys, or both fail. -/
theorem selection_of_rows (hrows : ShowsRows formats installRoot env rows) (product : String) :
    (∀ active, (readProductBuild formats installRoot product).run.run env = .ok active ↔
      ∃ row key path file config, ownRows product rows = [row] ∧ row.buildKey = some key ∧
        (∃ k, parseHex16 key = .ok k) ∧ dataConfigPath installRoot key = .ok path ∧
        env (.openFile path) = .ok file ∧ formats.parseBuildConfig file = .ok config ∧
        active = ⟨product, key, config⟩) ∧
    (∀ active row, (readProductBuild formats installRoot product).run.run env = .ok active →
      ownRows product rows = [row] →
      ((readKeyringKeys formats installRoot active.product active.buildKey).run.run env).toOption =
        ((readRowKeyring formats installRoot row).run.run env).toOption) ∧
    ∀ installRoot' env' rows', ShowsRows formats installRoot' env' rows' →
      SameConfigs installRoot installRoot' env env' → EditsOthers product rows rows' →
      ((readProductBuild formats installRoot product).run.run env).toOption =
        ((readProductBuild formats installRoot' product).run.run env').toOption ∧
      ∀ buildKey,
        ((readKeyringKeys formats installRoot product buildKey).run.run env).toOption =
          ((readKeyringKeys formats installRoot' product buildKey).run.run env').toOption := by
  refine ⟨fun active => readProductBuild_eq_ok_iff hrows, ?_, ?_⟩
  · intro active row hactive hown
    obtain ⟨row', key, path, file, config, hrow', hkey, -, -, -, -, rfl⟩ :=
      (readProductBuild_eq_ok_iff hrows).mp hactive
    obtain ⟨rfl, -⟩ := List.cons.inj (hown.symm.trans hrow')
    have hfound := keyringRow_of_ownRows hown hkey
    refine toOption_eq (fun keys h => ?_) fun keys h => ?_
    · obtain ⟨row', hfind, hkeys⟩ := (readKeyringKeys_eq_ok_iff hrows).mp h
      obtain rfl := Option.some.inj (hfound.symm.trans hfind)
      exact hkeys
    · exact (readKeyringKeys_eq_ok_iff hrows).mpr ⟨row, hfound, h⟩
  · intro installRoot' env' rows' hrows' hconfigs hedits
    have hown := editsOthers_iff.mp hedits
    refine ⟨toOption_eq ?_ ?_, fun buildKey => toOption_eq ?_ ?_⟩
    · exact fun active => readProductBuild_of_ownRows hrows hrows' hconfigs hown
    · exact fun active => readProductBuild_of_ownRows hrows' hrows hconfigs.symm hown.symm
    · exact fun keys => readKeyringKeys_of_ownRows hrows hrows' hconfigs hown
    · exact fun keys => readKeyringKeys_of_ownRows hrows' hrows hconfigs.symm hown.symm

/-! ### A sample -/

/-- An inactive row of the same build with a keyring, and the active row of another product,
before the row of the build. -/
def sampleRows : List BuildRow :=
  [⟨false, some "wow", some firstKey, some secondKey⟩,
    ⟨true, some "wow_classic_beta", some secondKey, none⟩, activeRow firstKey]

/-- The text of these rows. -/
def sampleRowsText : String :=
  s!"Active!DEC:1|Build Key!HEX:16|KeyRing!HEX:16|Product!STRING:0\n" ++
    s!"0|{firstKey}|{secondKey}|wow\n1|{secondKey}||wow_classic_beta\n1|{firstKey}||wow\n"

/-- Parsers that read them from it. -/
def sampleRowsFormats : InstallFormats :=
  { sampleInstallFormats with
    parseBuildInfo := fun text =>
      if text = sampleRowsText then .ok sampleRows else sampleInstallFormats.parseBuildInfo text }

theorem showsRows_sampleInstall {text : String} {rows : List BuildRow}
    (h : sampleRowsFormats.parseBuildInfo text = .ok rows) :
    ShowsRows sampleRowsFormats (.ofStr "/wow") (sampleInstall text) rows :=
  ⟨text, fun _ => by simp [sampleInstall], by simp [sampleInstall], h⟩

/-- The build is picked among the three rows as if it were alone. -/
theorem selection_of_sampleRows :
    let build : ActiveBuild := ⟨"wow", firstKey, sampleConfig⟩
    let read := fun text =>
      (readProductBuild sampleRowsFormats (.ofStr "/wow") "wow").run.run (sampleInstall text)
    read (buildInfoText firstKey) = .ok build ∧
      (read (buildInfoText firstKey)).toOption = (read sampleRowsText).toOption := by
  intro build read
  have hother : sampleRowsFormats.parseBuildInfo (buildInfoText firstKey) =
      .ok [activeRow firstKey] := by
    decide +kernel
  have hone : ShowsRows sampleRowsFormats (.ofStr "/wow") (sampleInstall (buildInfoText firstKey))
      [activeRow firstKey] :=
    showsRows_sampleInstall hother
  have hthree : ShowsRows sampleRowsFormats (.ofStr "/wow") (sampleInstall sampleRowsText)
      sampleRows := showsRows_sampleInstall (by decide +kernel)
  have hedits : EditsOthers "wow" [activeRow firstKey] sampleRows :=
    editsOthers_iff.mpr (by decide)
  have hconfigs : SameConfigs (.ofStr "/wow") (.ofStr "/wow")
      (sampleInstall (buildInfoText firstKey)) (sampleInstall sampleRowsText) :=
    fun _ _ _ _ _ => rfl
  have hspec := selection_of_rows hone "wow"
  refine ⟨(hspec.1 build).mpr ?_, (hspec.2.2 _ _ _ hthree hconfigs hedits).1⟩
  have hkey : (parseHex16 firstKey).toOption.isSome ∧
      (dataConfigPath (.ofStr "/wow") firstKey).toOption.isSome := by decide +kernel
  cases hhex : parseHex16 firstKey with
  | error e => simp [hhex, Except.toOption] at hkey
  | ok k =>
    cases hpath : dataConfigPath (.ofStr "/wow") firstKey with
    | error e => simp [hpath, Except.toOption] at hkey
    | ok path =>
      exact ⟨activeRow firstKey, firstKey, path, sampleConfigBytes, sampleConfig, by decide, rfl,
        ⟨k, hhex⟩, hpath, rfl, by simp [sampleRowsFormats, sampleInstallFormats], rfl⟩

end AssetResolver
