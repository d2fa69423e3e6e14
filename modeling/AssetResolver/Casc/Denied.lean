import AssetResolver.Casc.Policy

/-!
# What a denied call asks

The public calls of `lib.rs` and `casc_resolver.rs` as programs of the policy
(`AssetResolver.Policy.Call.program`), and what is read off them when the mode is
extracted-only, be it that of the process or that of the resolver.

* Such a call asks nothing that touches CASC (`AssetResolver.Policy.Call.spares`).
* One behind a guard counts **once**, one that is legal does not count
  (`AssetResolver.Policy.Call.counts_program`).

And whatever the mode: a call counts only where the mode is extracted-only, and calls the
hook or panics only when it has counted (`AssetResolver.Policy.Call.disciplined`).
-/

namespace AssetResolver

namespace Policy

open Program

/-! ### The calls -/

/-- A method of `CascListfileResolver`. -/
inductive Method where
  /-- `cache_path`. -/
  | cachePath (destination : PathBuf) : Method
  /-- `runtime_mode`. -/
  | runtimeMode : Method
  /-- `initialize`. -/
  | initializeResolver : Method
  /-- `resolve_bytes`. -/
  | resolveBytes (fdid : UInt32) : Method
  /-- `ensure_cached_checked`. -/
  | ensureCachedChecked (fdid : UInt32) (outPath : PathBuf) : Method
  /-- `ensure_cached`. -/
  | ensureCached (fdid : UInt32) (outPath : PathBuf) : Method
  /-- `resolve_path`. -/
  | resolvePath (fdid : UInt32) : Method
  /-- `lookup_path`. -/
  | lookupPath (path : String) : Method

/-- A public call. -/
inductive Call where
  /-- `configure_runtime_mode_from_env`. -/
  | configureRuntimeModeFromEnv : Call
  /-- `set_casc_access_hook`. -/
  | setCascAccessHook (hook : Hook) : Call
  /-- `forbidden_casc_access_count`. -/
  | forbiddenCascAccessCount : Call
  /-- `guard_casc_access`. -/
  | guardCascAccess (mode : AssetRuntimeMode) (operation : String) : Call
  /-- `wow_install_path`. -/
  | wowInstallPath : Call
  /-- `wow_data_path`. -/
  | wowDataPath : Call
  /-- `FrozenArchiveReader::open`. -/
  | openFrozen (archiveDir : PathBuf) (keyFile : Option PathBuf) : Call
  /-- `FrozenArchiveReader::read_encoding_key`. -/
  | readEncodingKey (reader : FrozenArchiveReader) (key : Key) : Call
  /-- `resolve_bytes`. -/
  | resolveBytes (fdid : UInt32) : Call
  /-- `extract_fdid_to_path`. -/
  | extractFdidToPath (fdid : UInt32) (outPath : PathBuf) : Call
  /-- `ensure_file_cached_at_path`. -/
  | ensureFileCachedAtPath (fdid : UInt32) (outPath : PathBuf) : Call
  /-- `casc_cache_dir_for_install`. -/
  | cascCacheDirForInstall (installRoot : PathBuf) : Call
  /-- `open_resolution_cache_for_install`. -/
  | openResolutionCacheForInstall (installRoot : PathBuf) : Call
  /-- `refresh_resolution_cache_for_install`. -/
  | refreshResolutionCacheForInstall (installRoot : PathBuf) : Call
  /-- A method of a resolver. -/
  | resolver (paths : ResolverPaths) (method : Method) : Call

/-- What a method returns. -/
@[reducible] def Method.Result : Method → Type
  | .cachePath _ => PathBuf
  | .runtimeMode => AssetRuntimeMode
  | .initializeResolver => Unit
  | .resolveBytes _ => Option (List UInt8)
  | .ensureCachedChecked _ _ => PathBuf
  | .ensureCached _ _ => Option PathBuf
  | .resolvePath _ => Option String
  | .lookupPath _ => Option UInt32

/-- What a call returns. -/
@[reducible] def Call.Result : Call → Type
  | .configureRuntimeModeFromEnv => AssetRuntimeMode
  | .setCascAccessHook _ => Unit
  | .forbiddenCascAccessCount => UInt64
  | .guardCascAccess _ _ => Unit
  | .wowInstallPath => Option PathBuf
  | .wowDataPath => Option PathBuf
  | .openFrozen _ _ => FrozenArchiveReader
  | .readEncodingKey _ _ => List UInt8
  | .resolveBytes _ => Option (List UInt8)
  | .extractFdidToPath _ _ => ExtractedFile
  | .ensureFileCachedAtPath _ _ => Option PathBuf
  | .cascCacheDirForInstall _ => PathBuf
  | .openResolutionCacheForInstall _ => CascResolutionCache
  | .refreshResolutionCacheForInstall _ => PathBuf
  | .resolver _ method => method.Result

/-- The parsers and decoders of other crates. -/
structure Formats where
  /-- What an installation is read with. -/
  install : InstallFormats
  /-- What a container is decoded with. -/
  codecs : Blte.Codecs

/-- The program of a method. -/
def Method.program (formats : InstallFormats) (paths : ResolverPaths) :
    (method : Method) → PolicyProgram method.Result
  | .cachePath destination => settled (paths.cachePath destination)
  | .runtimeMode => Policy.runtimeMode paths
  | .initializeResolver => Policy.initializeResolver formats paths
  | .resolveBytes fdid => resolverResolveBytes formats paths fdid
  | .ensureCachedChecked fdid outPath => Policy.ensureCachedChecked formats paths fdid outPath
  | .ensureCached fdid outPath => Policy.ensureCached formats paths fdid outPath
  | .resolvePath fdid => ofInstall (answer (.lookupFdid fdid))
  | .lookupPath path => demand (.lookupPath path)

/-- The program of a call. -/
def Call.program (formats : Formats) : (call : Call) → PolicyProgram call.Result
  | .configureRuntimeModeFromEnv => Policy.configureRuntimeModeFromEnv
  | .setCascAccessHook hook => Policy.setCascAccessHook hook
  | .forbiddenCascAccessCount => demand .forbiddenCount
  | .guardCascAccess mode operation => Policy.guardCascAccess mode operation
  | .wowInstallPath => Policy.wowInstallPath
  | .wowDataPath => Policy.wowDataPath
  | .openFrozen archiveDir keyFile => Policy.openFrozen formats.install archiveDir keyFile
  | .readEncodingKey reader key => Policy.readEncodingKey formats.codecs reader key
  | .resolveBytes fdid => Policy.resolveBytes formats.install fdid
  | .extractFdidToPath fdid outPath => Policy.extractFdidToPath formats.install fdid outPath
  | .ensureFileCachedAtPath fdid outPath =>
    Policy.ensureFileCachedAtPath formats.install fdid outPath
  | .cascCacheDirForInstall installRoot =>
    Policy.cascCacheDirForInstall formats.install installRoot
  | .openResolutionCacheForInstall installRoot =>
    Policy.openResolutionCacheForInstall formats.install installRoot
  | .refreshResolutionCacheForInstall installRoot =>
    Policy.refreshResolutionCacheForInstall formats.install installRoot
  | .resolver paths method => method.program formats.install paths

/-- The mode a call is configured with, besides that of the process. -/
def Call.mode : Call → AssetRuntimeMode
  | .guardCascAccess mode _ => mode
  | .resolver paths _ => paths.runtimeMode
  | _ => .localCasc

/-- **The calls that extracted-only denies**; the others are legal. -/
def Call.isGuarded : Call → Bool
  | .guardCascAccess _ _ | .wowInstallPath | .wowDataPath | .openFrozen _ _ |
    .readEncodingKey _ _ | .resolveBytes _ | .extractFdidToPath _ _ | .cascCacheDirForInstall _ |
    .openResolutionCacheForInstall _ | .refreshResolutionCacheForInstall _ |
    .resolver _ (.resolveBytes _) => true
  | _ => false

/-- The question counts a denied entry. -/
def PolicyQuery.counts : PolicyQuery → Bool
  | .recordForbidden => true
  | _ => false

/-- The question reports a denied entry: it calls the hook, or it panics. -/
def PolicyQuery.reports : PolicyQuery → Bool
  | .callHook _ _ | .panicking _ _ => true
  | _ => false

/-- A question that only a guard asks. -/
def PolicyQuery.ofGuard : PolicyQuery → Bool
  | .processMode | .recordForbidden | .accessHook | .callHook _ _ => true
  | _ => false

theorem touchesCasc_of_ofGuard {q : PolicyQuery} (h : q.ofGuard = true) :
    q.touchesCasc = false := by
  cases q <;> first | rfl | cases h

/-! ### Guards -/

section Guards

variable {A : (q : PolicyQuery) → q.Answer → Prop} {q : PolicyQuery} {α β : Type}

@[simp] theorem mayAsk_attempt {p : PolicyProgram α} :
    (attempt p).run.MayAsk A q ↔ p.run.MayAsk A q := by
  change (p.run >>= fun r => ret (Except.ok r)).MayAsk A q ↔ _
  simp [mayAsk_bind_iff]

@[simp] theorem yields_attempt {p : PolicyProgram α} {r : Except String α} :
    (attempt p).run.Yields A (.ok r) ↔ p.run.Yields A r := by
  change (p.run >>= fun r => ret (Except.ok r)).Yields A (.ok r) ↔ _
  simp [yields_bind_iff]

@[simp] theorem mayAsk_ofInstall {p : InstallProgram α} :
    (ofInstall p).run.MayAsk A q ↔ ∃ q', PolicyQuery.outside q' = q ∧
      p.run.MayAsk (fun q answer => A (.outside q) answer) q' := by
  change (p.run.embed PolicyQuery.outside fun _ answer => answer).MayAsk A q ↔ _
  rw [mayAsk_embed]
  simp

theorem mayAsk_effectiveRuntimeMode {mode : AssetRuntimeMode}
    (h : (effectiveRuntimeMode mode).run.MayAsk A q) : q = .processMode := by
  unfold effectiveRuntimeMode at h
  split_ifs at h
  · exact absurd h mayAsk_pure
  · rcases mayAsk_ok_bind_iff.mp h with h | ⟨processMode, -, h⟩
    · exact (mayAsk_inquire.mp h).symm
    · split_ifs at h
      · exact absurd h mayAsk_pure
      · exact absurd h mayAsk_pure

/-- **The effective mode** is extracted-only if the mode or the process says so. -/
theorem yields_effectiveRuntimeMode {mode effective : AssetRuntimeMode}
    (h : (effectiveRuntimeMode mode).run.Yields A (.ok effective)) :
    (effective = .extractedOnly ∧ (mode = .extractedOnly ∨ A .processMode .extractedOnly)) ∨
      (effective = .localCasc ∧ mode = .localCasc ∧ A .processMode .localCasc) := by
  unfold effectiveRuntimeMode at h
  split_ifs at h with hmode
  · exact .inl ⟨(yields_pure.mp h).symm, .inl hmode⟩
  · obtain ⟨processMode, hprocess, h⟩ := yields_ok_bind_iff.mp h
    have hA : A .processMode processMode := yields_inquire.mp hprocess
    split_ifs at h with hext
    · exact .inl ⟨(yields_pure.mp h).symm, .inr (hext ▸ hA)⟩
    · cases processMode with
      | extractedOnly => exact absurd rfl hext
      | localCasc =>
        cases mode with
        | extractedOnly => exact absurd rfl hmode
        | localCasc => exact .inr ⟨(yields_pure.mp h).symm, rfl, hA⟩

theorem mayAsk_callAccessHook {error : String} (h : (callAccessHook error).run.MayAsk A q) :
    q.ofGuard = true ∧ q.counts = false := by
  unfold callAccessHook at h
  rcases mayAsk_ok_bind_iff.mp h with h | ⟨hook, -, h⟩
  · obtain rfl := mayAsk_inquire.mp h
    exact ⟨rfl, rfl⟩
  · cases hook with
    | none => exact absurd h mayAsk_pure
    | some hook =>
      obtain rfl := mayAsk_inquire.mp h
      exact ⟨rfl, rfl⟩

/-- **What a guard asks**: the mode, and where it denies, to count and the hook. -/
theorem mayAsk_guardCascAccess {mode : AssetRuntimeMode} {operation : String}
    (h : (guardCascAccess mode operation).run.MayAsk A q) :
    q = .processMode ∨ (mode = .extractedOnly ∨ A .processMode .extractedOnly) ∧
      (q = .recordForbidden ∨ A .recordForbidden () ∧ q.ofGuard = true ∧ q.counts = false) := by
  unfold guardCascAccess at h
  rcases mayAsk_ok_bind_iff.mp h with h | ⟨effective, heffective, h⟩
  · exact .inl (mayAsk_effectiveRuntimeMode h)
  · rcases yields_effectiveRuntimeMode heffective with ⟨rfl, hdenied⟩ | ⟨rfl, -, -⟩
    · refine .inr ⟨hdenied, ?_⟩
      rw [if_neg (by decide)] at h
      rcases mayAsk_ok_bind_iff.mp h with h | ⟨_, hrecord, h⟩
      · exact .inl (mayAsk_inquire.mp h).symm
      · have hA : A .recordForbidden () := yields_inquire.mp hrecord
        rcases mayAsk_ok_bind_iff.mp h with h | ⟨_, -, h⟩
        · exact .inr ⟨hA, mayAsk_callAccessHook h⟩
        · exact absurd h mayAsk_settled
    · rw [if_pos rfl] at h
      exact absurd h mayAsk_pure

theorem not_yields_error_effectiveRuntimeMode {mode : AssetRuntimeMode} {e : String} :
    ¬(effectiveRuntimeMode mode).run.Yields A (.error e) := by
  unfold effectiveRuntimeMode
  split_ifs
  · rintro ⟨⟩
  · rintro ⟨process, -, h⟩
    change (if process = .extractedOnly then pure AssetRuntimeMode.extractedOnly
      else pure AssetRuntimeMode.localCasc : PolicyProgram AssetRuntimeMode).run.Yields A
        (.error e) at h
    split_ifs at h
    · cases h
    · cases h

/-- **A guard that fails** has counted. -/
theorem recordForbidden_of_yields {mode : AssetRuntimeMode} {operation e : String}
    (h : (guardCascAccess mode operation).run.Yields A (.error e)) : A .recordForbidden () := by
  unfold guardCascAccess at h
  rcases yields_error_bind h with h | ⟨effective, -, h⟩
  · exact absurd h not_yields_error_effectiveRuntimeMode
  · split_ifs at h
    · cases h
    · rcases yields_error_bind h with h | ⟨_, hrecord, -⟩
      · exact absurd h not_yields_error_inquire
      · exact yields_inquire.mp hrecord

theorem ofGuard_of_mayAsk {mode : AssetRuntimeMode} {operation : String}
    (h : (guardCascAccess mode operation).run.MayAsk A q) : q.ofGuard = true := by
  rcases mayAsk_guardCascAccess h with rfl | ⟨-, rfl | ⟨-, hguard, -⟩⟩
  · rfl
  · rfl
  · exact hguard

/-- **A guard that lets pass** has found both modes to be local. -/
theorem yields_guardCascAccess {mode : AssetRuntimeMode} {operation : String} {u : Unit}
    (h : (guardCascAccess mode operation).run.Yields A (.ok u)) :
    mode = .localCasc ∧ A .processMode .localCasc := by
  unfold guardCascAccess at h
  obtain ⟨effective, heffective, h⟩ := yields_ok_bind_iff.mp h
  rcases yields_effectiveRuntimeMode heffective with ⟨rfl, -⟩ | ⟨-, hlocal⟩
  · rw [if_neg (by decide)] at h
    obtain ⟨_, -, h⟩ := yields_ok_bind_iff.mp h
    obtain ⟨_, -, h⟩ := yields_ok_bind_iff.mp h
    cases yields_settled.mp h
  · exact hlocal

theorem yields_processRuntimeMode {mode : AssetRuntimeMode}
    (h : processRuntimeMode.run.Yields A (.ok mode)) : A .processMode mode := yields_inquire.mp h

end Guards

/-! ### Where the mode is extracted-only -/

/-- A mode is extracted-only, that of a call or, on the answers that are allowed, that of
the process. -/
def Denies (mode : AssetRuntimeMode) (A : (q : PolicyQuery) → q.Answer → Prop) : Prop :=
  mode = .extractedOnly ∨ ¬A .processMode .localCasc

section Denied

variable {A : (q : PolicyQuery) → q.Answer → Prop} {q : PolicyQuery} {α : Type}
  {paths : ResolverPaths} {formats : InstallFormats} {fdid : UInt32} {outPath : PathBuf}

theorem Denies.eq_of_yields {mode effective : AssetRuntimeMode} (hdeny : Denies mode A)
    (h : (effectiveRuntimeMode mode).run.Yields A (.ok effective)) :
    effective = .extractedOnly := by
  rcases yields_effectiveRuntimeMode h with ⟨heq, -⟩ | ⟨-, rfl, hlocal⟩
  · exact heq
  · rcases hdeny with hmode | hprocess
    · cases hmode
    · exact absurd hlocal hprocess

theorem Denies.not_yields {mode : AssetRuntimeMode} {operation : String} {u : Unit}
    (hdeny : Denies mode A) : ¬(guardCascAccess mode operation).run.Yields A (.ok u) := by
  intro h
  obtain ⟨rfl, hlocal⟩ := yields_guardCascAccess h
  rcases hdeny with hmode | hprocess
  · cases hmode
  · exact hprocess hlocal

/-- The mode of a process that is not local denies. -/
theorem denies_of_yields {mode : AssetRuntimeMode} (hlocal : ¬A .processMode .localCasc)
    (h : processRuntimeMode.run.Yields A (.ok mode)) : Denies mode A := by
  cases mode with
  | extractedOnly => exact .inl rfl
  | localCasc => exact absurd (yields_processRuntimeMode h) hlocal

/-- **Nothing behind a guard that denies is asked.** -/
theorem ofGuard_of_guarded {operation : String} {rest : Unit → PolicyProgram α}
    (hlocal : ¬A .processMode .localCasc)
    (h : (processRuntimeMode >>= fun mode =>
      guardCascAccess mode operation >>= rest).run.MayAsk A q) : q.ofGuard = true := by
  rcases mayAsk_ok_bind_iff.mp h with h | ⟨mode, hmode, h⟩
  · obtain rfl := mayAsk_inquire.mp h
    rfl
  · rcases mayAsk_ok_bind_iff.mp h with h | ⟨u, hpass, -⟩
    · exact ofGuard_of_mayAsk h
    · exact absurd hpass (denies_of_yields hlocal hmode).not_yields

theorem not_yields_of_guarded {operation : String} {rest : Unit → PolicyProgram α} {a : α}
    (hlocal : ¬A .processMode .localCasc) :
    ¬(processRuntimeMode >>= fun mode =>
      guardCascAccess mode operation >>= rest).run.Yields A (.ok a) := by
  intro h
  obtain ⟨mode, hmode, h⟩ := yields_ok_bind_iff.mp h
  obtain ⟨u, hpass, -⟩ := yields_ok_bind_iff.mp h
  exact (denies_of_yields hlocal hmode).not_yields hpass

/-- The same of a guard whose error is not returned. -/
theorem ofGuard_of_attempted {operation : String} {rest : Except String Unit → PolicyProgram α}
    (hlocal : ¬A .processMode .localCasc) (hrest : ∀ e, ¬(rest (.error e)).run.MayAsk A q)
    (h : (processRuntimeMode >>= fun mode =>
      attempt (guardCascAccess mode operation) >>= rest).run.MayAsk A q) : q.ofGuard = true := by
  rcases mayAsk_ok_bind_iff.mp h with h | ⟨mode, hmode, h⟩
  · obtain rfl := mayAsk_inquire.mp h
    rfl
  · rcases mayAsk_ok_bind_iff.mp h with h | ⟨allowed, hallowed, h⟩
    · exact ofGuard_of_mayAsk (mayAsk_attempt.mp h)
    · cases allowed with
      | ok u =>
        exact absurd (yields_attempt.mp hallowed) (denies_of_yields hlocal hmode).not_yields
      | error e => exact absurd h (hrest e)

theorem ofGuard_of_wowInstallPath (hlocal : ¬A .processMode .localCasc)
    (h : wowInstallPath.run.MayAsk A q) : q.ofGuard = true := by
  refine ofGuard_of_attempted hlocal ?_ h
  exact fun _ => mayAsk_pure

theorem mayAsk_runtimeMode (h : (runtimeMode paths).run.MayAsk A q) : q = .processMode := by
  rcases mayAsk_ok_bind_iff.mp h with h | ⟨mode, -, h⟩
  · exact mayAsk_effectiveRuntimeMode h
  · exact mayAsk_effectiveRuntimeMode h

theorem eq_of_yields_runtimeMode {mode : AssetRuntimeMode} (hdeny : Denies paths.runtimeMode A)
    (h : (runtimeMode paths).run.Yields A (.ok mode)) : mode = .extractedOnly := by
  obtain ⟨inner, hinner, h⟩ := yields_ok_bind_iff.mp h
  obtain rfl := hdeny.eq_of_yields hinner
  exact Denies.eq_of_yields (.inl rfl) h

theorem mayAsk_initializeResolver (hdeny : Denies paths.runtimeMode A)
    (h : (initializeResolver formats paths).run.MayAsk A q) : q = .processMode := by
  rcases mayAsk_ok_bind_iff.mp h with h | ⟨mode, hmode, h⟩
  · exact mayAsk_runtimeMode h
  · obtain rfl := eq_of_yields_runtimeMode hdeny hmode
    exact absurd h mayAsk_pure

theorem mayAsk_expect {message : String} {outcome : Except String Unit}
    (h : (expect message outcome).run.MayAsk A q) : ∃ e, q = .panicking message e := by
  cases outcome with
  | ok u => exact absurd h mayAsk_pure
  | error e =>
    rcases mayAsk_ok_bind_iff.mp h with h | ⟨_, -, h⟩
    · exact ⟨e, (mayAsk_inquire.mp h).symm⟩
    · exact absurd h mayAsk_settled

theorem eq_ok_of_expect {message : String} {outcome : Except String Unit} {u : Unit}
    (h : (expect message outcome).run.Yields A (.ok u)) : outcome = .ok () := by
  cases outcome with
  | ok u => rfl
  | error e =>
    obtain ⟨_, -, h⟩ := yields_ok_bind_iff.mp h
    cases yields_settled.mp h

theorem mayAsk_resolverResolveBytes (hdeny : Denies paths.runtimeMode A)
    (h : (resolverResolveBytes formats paths fdid).run.MayAsk A q) :
    q.ofGuard = true ∨ ∃ message e, q = .panicking message e := by
  rcases mayAsk_ok_bind_iff.mp h with h | ⟨mode, hmode, h⟩
  · rw [mayAsk_runtimeMode h]
    exact .inl rfl
  · obtain rfl := eq_of_yields_runtimeMode hdeny hmode
    rw [if_pos rfl] at h
    rcases mayAsk_ok_bind_iff.mp h with h | ⟨mode, hmode, h⟩
    · rw [mayAsk_runtimeMode h]
      exact .inl rfl
    · obtain rfl := eq_of_yields_runtimeMode hdeny hmode
      rcases mayAsk_ok_bind_iff.mp h with h | ⟨allowed, hallowed, h⟩
      · exact .inl (ofGuard_of_mayAsk (mayAsk_attempt.mp h))
      · rcases mayAsk_ok_bind_iff.mp h with h | ⟨u, hpass, -⟩
        · obtain ⟨e, he⟩ := mayAsk_expect h
          exact .inr ⟨_, e, he⟩
        · obtain rfl := eq_ok_of_expect hpass
          exact absurd (yields_attempt.mp hallowed) (Denies.not_yields (.inl rfl))

theorem mayAsk_ensureCachedChecked (hdeny : Denies paths.runtimeMode A)
    (h : (ensureCachedChecked formats paths fdid outPath).run.MayAsk A q) :
    q = .processMode ∨ ∃ path, q = .outside (.isFile path) := by
  rcases mayAsk_ok_bind_iff.mp h with h | ⟨expected, -, h⟩
  · exact absurd h mayAsk_settled
  · rcases mayAsk_ok_bind_iff.mp h with h | ⟨published, -, h⟩
    · obtain ⟨q', rfl, hask⟩ := mayAsk_ofInstall.mp h
      exact .inr ⟨expected, by rw [mayAsk_inquire.mp hask]⟩
    · by_cases hpublished : published = true
      · rw [if_pos hpublished] at h
        exact absurd h mayAsk_pure
      · rw [if_neg hpublished] at h
        rcases mayAsk_ok_bind_iff.mp h with h | ⟨mode, hmode, h⟩
        · exact .inl (mayAsk_runtimeMode h)
        · obtain rfl := eq_of_yields_runtimeMode hdeny hmode
          rcases mayAsk_ok_bind_iff.mp h with h | ⟨_, hpass, -⟩
          · exact absurd h mayAsk_settled
          · cases yields_settled.mp hpass

theorem mayAsk_ensureCached (hdeny : Denies paths.runtimeMode A)
    (h : (ensureCached formats paths fdid outPath).run.MayAsk A q) :
    q = .processMode ∨ ∃ path, q = .outside (.isFile path) := by
  rcases mayAsk_ok_bind_iff.mp h with h | ⟨cached, -, h⟩
  · exact mayAsk_ensureCachedChecked hdeny (mayAsk_attempt.mp h)
  · cases cached with
    | ok path => exact absurd h mayAsk_pure
    | error e =>
      rcases mayAsk_ok_bind_iff.mp h with h | ⟨mode, -, h⟩
      · exact .inl (mayAsk_runtimeMode h)
      · exact absurd h mayAsk_settled

theorem mayAsk_ensureFileCachedAtPath (hlocal : ¬A .processMode .localCasc)
    (h : (ensureFileCachedAtPath formats fdid outPath).run.MayAsk A q) :
    q = .newDefaultPaths ∨ q = .processMode ∨ ∃ path, q = .outside (.isFile path) := by
  rcases mayAsk_ok_bind_iff.mp h with h | ⟨roots, -, h⟩
  · exact .inl (mayAsk_inquire.mp h).symm
  · exact .inr (mayAsk_ensureCached (.inr hlocal) h)

theorem ofGuard_of_openResolutionCacheForInstall {installRoot : PathBuf}
    (hlocal : ¬A .processMode .localCasc)
    (h : (openResolutionCacheForInstall formats installRoot).run.MayAsk A q) :
    q.ofGuard = true := by
  rcases mayAsk_ok_bind_iff.mp h with h | ⟨cascDir, hdir, -⟩
  · exact ofGuard_of_guarded hlocal h
  · exact absurd hdir (not_yields_of_guarded hlocal)

end Denied

/-! ### Every call -/

section Calls

variable {A : (q : PolicyQuery) → q.Answer → Prop} {q : PolicyQuery} {formats : Formats}

/-- What a method asks where its resolver is denied CASC. -/
theorem Method.spares {paths : ResolverPaths} (hdeny : Denies paths.runtimeMode A)
    (method : Method) (h : (method.program formats.install paths).run.MayAsk A q) :
    q.touchesCasc = false ∧
      ((Call.resolver paths method).isGuarded = false → q.counts = false) := by
  cases method with
  | cachePath destination => exact absurd h mayAsk_settled
  | runtimeMode =>
    obtain rfl := mayAsk_runtimeMode h
    exact ⟨rfl, fun _ => rfl⟩
  | initializeResolver =>
    obtain rfl := mayAsk_initializeResolver hdeny h
    exact ⟨rfl, fun _ => rfl⟩
  | resolveBytes fdid =>
    refine ⟨?_, fun hlegal => (nomatch hlegal)⟩
    rcases mayAsk_resolverResolveBytes hdeny h with hguard | ⟨message, e, rfl⟩
    · exact touchesCasc_of_ofGuard hguard
    · rfl
  | ensureCachedChecked fdid outPath =>
    rcases mayAsk_ensureCachedChecked hdeny h with rfl | ⟨path, rfl⟩
    · exact ⟨rfl, fun _ => rfl⟩
    · exact ⟨rfl, fun _ => rfl⟩
  | ensureCached fdid outPath =>
    rcases mayAsk_ensureCached hdeny h with rfl | ⟨path, rfl⟩
    · exact ⟨rfl, fun _ => rfl⟩
    · exact ⟨rfl, fun _ => rfl⟩
  | resolvePath fdid =>
    obtain ⟨q', rfl, hask⟩ := mayAsk_ofInstall.mp h
    obtain rfl := mayAsk_inquire.mp hask
    exact ⟨rfl, fun _ => rfl⟩
  | lookupPath path =>
    obtain rfl := mayAsk_inquire.mp h
    exact ⟨rfl, fun _ => rfl⟩

/-- **What a call asks where it is denied CASC**: nothing that touches it, and a legal call
does not count. -/
theorem Call.spares (call : Call) (hdeny : Denies call.mode A)
    (h : (call.program formats).run.MayAsk A q) :
    q.touchesCasc = false ∧ (call.isGuarded = false → q.counts = false) := by
  have hlocal : call.mode = .localCasc → ¬A .processMode .localCasc := by
    intro hmode
    rcases hdeny with hext | hlocal
    · rw [hmode] at hext
      cases hext
    · exact hlocal
  have hguarded : call.isGuarded = true → q.ofGuard = true → q.touchesCasc = false ∧
      (call.isGuarded = false → q.counts = false) := by
    intro htrue hguard
    refine ⟨touchesCasc_of_ofGuard hguard, fun hfalse => ?_⟩
    rw [htrue] at hfalse
    cases hfalse
  cases call with
  | configureRuntimeModeFromEnv =>
    rcases mayAsk_ok_bind_iff.mp h with h | ⟨value, -, h⟩
    · obtain rfl := mayAsk_inquire.mp h
      exact ⟨rfl, fun _ => rfl⟩
    · rcases mayAsk_ok_bind_iff.mp h with h | ⟨mode, -, h⟩
      · exact absurd h mayAsk_settled
      · rcases mayAsk_ok_bind_iff.mp h with h | ⟨selected, -, h⟩
        · obtain rfl := mayAsk_inquire.mp h
          exact ⟨rfl, fun _ => rfl⟩
        · split_ifs at h
          · exact absurd h mayAsk_pure
          · exact absurd h mayAsk_settled
  | setCascAccessHook hook =>
    rcases mayAsk_ok_bind_iff.mp h with h | ⟨installed, -, h⟩
    · obtain rfl := mayAsk_inquire.mp h
      exact ⟨rfl, fun _ => rfl⟩
    · exact absurd h mayAsk_settled
  | forbiddenCascAccessCount =>
    obtain rfl := mayAsk_inquire.mp h
    exact ⟨rfl, fun _ => rfl⟩
  | guardCascAccess mode operation => exact hguarded rfl (ofGuard_of_mayAsk h)
  | wowInstallPath => exact hguarded rfl (ofGuard_of_wowInstallPath (hlocal rfl) h)
  | wowDataPath =>
    rcases mayAsk_ok_bind_iff.mp h with h | ⟨root, -, h⟩
    · exact hguarded rfl (ofGuard_of_wowInstallPath (hlocal rfl) h)
    · exact absurd h mayAsk_pure
  | openFrozen archiveDir keyFile => exact hguarded rfl (ofGuard_of_guarded (hlocal rfl) h)
  | readEncodingKey reader key => exact hguarded rfl (ofGuard_of_guarded (hlocal rfl) h)
  | resolveBytes fdid =>
    refine hguarded rfl (ofGuard_of_attempted (hlocal rfl) ?_ h)
    exact fun _ => mayAsk_pure
  | extractFdidToPath fdid outPath => exact hguarded rfl (ofGuard_of_guarded (hlocal rfl) h)
  | ensureFileCachedAtPath fdid outPath =>
    rcases mayAsk_ensureFileCachedAtPath (hlocal rfl) h with rfl | rfl | ⟨path, rfl⟩
    · exact ⟨rfl, fun _ => rfl⟩
    · exact ⟨rfl, fun _ => rfl⟩
    · exact ⟨rfl, fun _ => rfl⟩
  | cascCacheDirForInstall installRoot =>
    exact hguarded rfl (ofGuard_of_guarded (hlocal rfl) h)
  | openResolutionCacheForInstall installRoot =>
    exact hguarded rfl (ofGuard_of_openResolutionCacheForInstall (hlocal rfl) h)
  | refreshResolutionCacheForInstall installRoot =>
    exact hguarded rfl (ofGuard_of_guarded (hlocal rfl) h)
  | resolver paths method => exact method.spares hdeny h

/-! ### Counting -/

/-- How often a program counts. -/
abbrev Counts {α : Type} (A : (q : PolicyQuery) → q.Answer → Prop) (p : PolicyProgram α)
    (n : ℕ) : Prop :=
  p.run.Asks A (fun q => q.counts = true) n

variable {α : Type} {paths : ResolverPaths}

/-- A program that only asks for the mode does not count. -/
theorem counts_zero {p : PolicyProgram α} (h : ∀ q, p.run.MayAsk A q → q.counts = false) :
    Counts A p 0 :=
  asks_zero fun q hcounts hask => by
    rw [h q hask] at hcounts
    cases hcounts

theorem counts_effectiveRuntimeMode (mode : AssetRuntimeMode) :
    Counts A (effectiveRuntimeMode mode) 0 :=
  counts_zero fun q hask => by rw [mayAsk_effectiveRuntimeMode hask]; rfl

/-- **A guard that denies counts once.** -/
theorem counts_guardCascAccess {mode : AssetRuntimeMode} {operation : String}
    (hdeny : Denies mode A) : Counts A (guardCascAccess mode operation) 1 := by
  refine (counts_effectiveRuntimeMode mode).ok_bind_of_zero
    (fun _ => not_yields_error_effectiveRuntimeMode) fun effective heffective => ?_
  obtain rfl := hdeny.eq_of_yields heffective
  rw [if_neg (by decide)]
  have hrecord : Counts A (demand .recordForbidden) 1 := asks_inquire
  refine hrecord.ok_bind fun _ _ => counts_zero fun q hask => ?_
  rcases mayAsk_ok_bind_iff.mp hask with hask | ⟨_, -, hask⟩
  · exact (mayAsk_callAccessHook hask).2
  · exact absurd hask mayAsk_settled

theorem Counts.attempt {p : PolicyProgram α} {n : ℕ} (h : Counts A p n) :
    Counts A (attempt p) n := by
  change (p.run >>= fun r => ret (Except.ok r)).Asks A _ n
  rw [← Nat.add_zero n]
  exact h.bind fun _ _ => rfl

/-- **What is behind a guard that denies does not count again.** -/
theorem counts_guarded {operation : String} {rest : Unit → PolicyProgram α}
    (hlocal : ¬A .processMode .localCasc) :
    Counts A (processRuntimeMode >>= fun mode => guardCascAccess mode operation >>= rest) 1 := by
  have hmode : Counts A processRuntimeMode 0 := asks_inquire
  refine hmode.ok_bind_of_zero (fun _ => not_yields_error_inquire) fun mode hyields => ?_
  have hdeny := denies_of_yields hlocal hyields
  exact (counts_guardCascAccess hdeny).ok_bind fun _ hpass => absurd hpass hdeny.not_yields

theorem counts_attempted {operation : String} {rest : Except String Unit → PolicyProgram α}
    (hlocal : ¬A .processMode .localCasc) (hrest : ∀ e, Counts A (rest (.error e)) 0) :
    Counts A (processRuntimeMode >>= fun mode =>
      attempt (guardCascAccess mode operation) >>= rest) 1 := by
  have hmode : Counts A processRuntimeMode 0 := asks_inquire
  refine hmode.ok_bind_of_zero (fun _ => not_yields_error_inquire) fun mode hyields => ?_
  have hdeny := denies_of_yields hlocal hyields
  refine (counts_guardCascAccess hdeny).attempt.ok_bind fun allowed hallowed => ?_
  cases allowed with
  | ok u => exact absurd (yields_attempt.mp hallowed) hdeny.not_yields
  | error e => exact hrest e

theorem counts_wowInstallPath (hlocal : ¬A .processMode .localCasc) :
    Counts A wowInstallPath 1 := by
  refine counts_attempted hlocal ?_
  exact fun _ => rfl

theorem counts_runtimeMode : Counts A (runtimeMode paths) 0 :=
  counts_zero fun q hask => by rw [mayAsk_runtimeMode hask]; rfl

theorem not_yields_error_runtimeMode {e : String} :
    ¬(runtimeMode paths).run.Yields A (.error e) := by
  intro h
  rcases yields_error_bind h with h | ⟨mode, -, h⟩
  · exact not_yields_error_effectiveRuntimeMode h
  · exact not_yields_error_effectiveRuntimeMode h

theorem counts_resolverResolveBytes {fdid : UInt32} (hdeny : Denies paths.runtimeMode A) :
    Counts A (resolverResolveBytes formats.install paths fdid) 1 := by
  refine counts_runtimeMode.ok_bind_of_zero (fun _ => not_yields_error_runtimeMode)
    fun mode hmode => ?_
  obtain rfl := eq_of_yields_runtimeMode hdeny hmode
  rw [if_pos rfl]
  refine counts_runtimeMode.ok_bind_of_zero (fun _ => not_yields_error_runtimeMode)
    fun mode hmode => ?_
  obtain rfl := eq_of_yields_runtimeMode hdeny hmode
  have hext : Denies .extractedOnly A := .inl rfl
  refine (counts_guardCascAccess hext).attempt.ok_bind fun allowed hallowed => ?_
  refine counts_zero fun q hask => ?_
  rcases mayAsk_ok_bind_iff.mp hask with hask | ⟨u, hpass, -⟩
  · obtain ⟨e, rfl⟩ := mayAsk_expect hask
    rfl
  · obtain rfl := eq_ok_of_expect hpass
    exact absurd (yields_attempt.mp hallowed) hext.not_yields

/-- **Where it is denied CASC, a guarded call counts once and a legal one does not count.** -/
theorem Call.counts_program (call : Call) (hdeny : Denies call.mode A) :
    Counts A (call.program formats) (if call.isGuarded then 1 else 0) := by
  have hlocal : call.mode = .localCasc → ¬A .processMode .localCasc := by
    intro hmode
    rcases hdeny with hext | hlocal
    · rw [hmode] at hext
      cases hext
    · exact hlocal
  by_cases hlegal : call.isGuarded = false
  · rw [hlegal]
    exact counts_zero fun q hask => (call.spares hdeny hask).2 hlegal
  · cases call with
    | guardCascAccess mode operation => exact counts_guardCascAccess hdeny
    | wowInstallPath => exact counts_wowInstallPath (hlocal rfl)
    | wowDataPath => exact (counts_wowInstallPath (hlocal rfl)).ok_bind fun _ _ => rfl
    | openFrozen archiveDir keyFile => exact counts_guarded (hlocal rfl)
    | readEncodingKey reader key => exact counts_guarded (hlocal rfl)
    | resolveBytes fdid =>
      refine counts_attempted (hlocal rfl) ?_
      exact fun _ => rfl
    | extractFdidToPath fdid outPath => exact counts_guarded (hlocal rfl)
    | cascCacheDirForInstall installRoot => exact counts_guarded (hlocal rfl)
    | openResolutionCacheForInstall installRoot =>
      refine (counts_guarded (hlocal rfl)).ok_bind fun _ hdir => ?_
      exact absurd hdir (not_yields_of_guarded (hlocal rfl))
    | refreshResolutionCacheForInstall installRoot => exact counts_guarded (hlocal rfl)
    | resolver paths method =>
      cases method with
      | resolveBytes fdid => exact counts_resolverResolveBytes hdeny
      | _ => exact absurd rfl hlegal
    | _ => exact absurd rfl hlegal

end Calls

/-! ### Whatever the mode -/

/-- **Only where the mode is extracted-only does a program count, and it reports only what it
has counted.** -/
structure Disciplined (A : (q : PolicyQuery) → q.Answer → Prop) (mode : AssetRuntimeMode)
    {α : Type} (p : PolicyProgram α) : Prop where
  denied : ∀ q, q.counts = true → p.run.MayAsk A q →
    mode = .extractedOnly ∨ A .processMode .extractedOnly
  counted : ∀ q, q.reports = true → p.run.MayAsk A q → A .recordForbidden ()

section Discipline

variable {A : (q : PolicyQuery) → q.Answer → Prop} {mode : AssetRuntimeMode} {α β : Type}
  {paths : ResolverPaths} {formats : InstallFormats} {fdid : UInt32} {outPath : PathBuf}
  {casc : CascState}

namespace Disciplined

/-- A program that neither counts nor reports. -/
theorem silent {p : PolicyProgram α}
    (h : ∀ q, p.run.MayAsk A q → q.counts = false ∧ q.reports = false) :
    Disciplined A mode p where
  denied q hcounts hask := by
    rw [(h q hask).1] at hcounts
    cases hcounts
  counted q hreports hask := by
    rw [(h q hask).2] at hreports
    cases hreports

theorem pure (a : α) : Disciplined A mode (pure a : PolicyProgram α) :=
  silent fun _ hask => absurd hask mayAsk_pure

theorem settled (r : Except String α) : Disciplined A mode (Program.settled r) :=
  silent fun _ hask => absurd hask mayAsk_settled

theorem ofInstall (p : InstallProgram α) : Disciplined A mode (Policy.ofInstall p) :=
  silent fun q hask => by
    obtain ⟨q', rfl, -⟩ := mayAsk_ofInstall.mp hask
    exact ⟨rfl, rfl⟩

theorem demand {q : PolicyQuery} (hcounts : q.counts = false) (hreports : q.reports = false) :
    Disciplined A mode (Policy.demand q) :=
  silent fun q' hask => by
    obtain rfl := mayAsk_inquire.mp hask
    exact ⟨hcounts, hreports⟩

/-- A panic, once an entry is counted. -/
theorem panicking {message e : String} (hrecord : A .recordForbidden ()) :
    Disciplined A mode (Policy.demand (.panicking message e)) where
  denied q hcounts hask := by
    obtain rfl := mayAsk_inquire.mp hask
    cases hcounts
  counted _ _ _ := hrecord

/-- **Sequencing keeps the discipline.** -/
theorem bind {p : PolicyProgram α} {f : α → PolicyProgram β} (hp : Disciplined A mode p)
    (hf : ∀ a, p.run.Yields A (.ok a) → Disciplined A mode (f a)) :
    Disciplined A mode (p >>= f) where
  denied q hcounts hask := by
    rcases mayAsk_ok_bind_iff.mp hask with hask | ⟨a, ha, hask⟩
    · exact hp.denied q hcounts hask
    · exact (hf a ha).denied q hcounts hask
  counted q hreports hask := by
    rcases mayAsk_ok_bind_iff.mp hask with hask | ⟨a, ha, hask⟩
    · exact hp.counted q hreports hask
    · exact (hf a ha).counted q hreports hask

theorem attempt {p : PolicyProgram α} (hp : Disciplined A mode p) :
    Disciplined A mode (Policy.attempt p) :=
  ⟨fun q hcounts hask => hp.denied q hcounts (mayAsk_attempt.mp hask),
    fun q hreports hask => hp.counted q hreports (mayAsk_attempt.mp hask)⟩

theorem raise {p : PolicyProgram α} (hp : Disciplined A mode p) (f : String → String) :
    Disciplined A mode (Program.raise p.run f) :=
  ⟨fun q hcounts hask => hp.denied q hcounts (mayAsk_raise.mp hask),
    fun q hreports hask => hp.counted q hreports (mayAsk_raise.mp hask)⟩

theorem effectiveRuntimeMode (m : AssetRuntimeMode) :
    Disciplined A mode (Policy.effectiveRuntimeMode m) :=
  silent fun q hask => by
    rw [mayAsk_effectiveRuntimeMode hask]
    exact ⟨rfl, rfl⟩

/-- **A guard keeps the discipline** when its mode is that of the call or of the process. -/
theorem guardCascAccess {m : AssetRuntimeMode} {operation : String}
    (hm : m = .extractedOnly → mode = .extractedOnly ∨ A .processMode .extractedOnly) :
    Disciplined A mode (Policy.guardCascAccess m operation) where
  denied q hcounts hask := by
    rcases mayAsk_guardCascAccess hask with rfl | ⟨hext | hprocess, -⟩
    · cases hcounts
    · exact hm hext
    · exact .inr hprocess
  counted q hreports hask := by
    rcases mayAsk_guardCascAccess hask with rfl | ⟨-, rfl | ⟨hrecord, -⟩⟩
    · cases hreports
    · cases hreports
    · exact hrecord

/-- The guard of a function that asks for the mode of the process. -/
theorem guarded {operation : String} {rest : Unit → PolicyProgram α}
    (hrest : ∀ u, Disciplined A mode (rest u)) :
    Disciplined A mode (processRuntimeMode >>= fun m =>
      Policy.guardCascAccess m operation >>= rest) := by
  refine (demand rfl rfl).bind fun m hm => (guardCascAccess fun hext => ?_).bind fun u _ => hrest u
  subst hext
  exact .inr (yields_processRuntimeMode hm)

theorem attempted {operation : String} {rest : Except String Unit → PolicyProgram α}
    (hrest : ∀ allowed, Disciplined A mode (rest allowed)) :
    Disciplined A mode (processRuntimeMode >>= fun m =>
      Policy.attempt (Policy.guardCascAccess m operation) >>= rest) := by
  refine (demand rfl rfl).bind fun m hm =>
    (guardCascAccess fun hext => ?_).attempt.bind fun allowed _ => hrest allowed
  subst hext
  exact .inr (yields_processRuntimeMode hm)

end Disciplined

theorem disciplined_wowInstallPath : Disciplined A mode wowInstallPath := by
  refine .attempted fun allowed => ?_
  cases allowed with
  | ok u => exact .demand rfl rfl
  | error e => exact .pure none

theorem disciplined_initCasc : Disciplined A mode (initCasc formats paths) :=
  disciplined_wowInstallPath.bind fun _ _ => (Disciplined.settled _).bind fun _ _ => .ofInstall _

theorem disciplined_getOrInit {identity : AssetIdentity} :
    Disciplined A mode (getOrInit formats paths identity) := by
  refine (Disciplined.demand rfl rfl).bind fun held _ => ?_
  cases held with
  | some outcome => exact .settled outcome
  | none =>
    exact disciplined_initCasc.attempt.bind fun _ _ =>
      (Disciplined.demand rfl rfl).bind fun _ _ => .settled _

/-- The mode of a resolver is its own or that of the process. -/
theorem eq_or_of_yields {m : AssetRuntimeMode}
    (h : (effectiveRuntimeMode mode).run.Yields A (.ok m)) (hext : m = .extractedOnly) :
    mode = .extractedOnly ∨ A .processMode .extractedOnly := by
  subst hext
  rcases yields_effectiveRuntimeMode h with ⟨-, hsource⟩ | ⟨hlocal, -⟩
  · exact hsource
  · cases hlocal

theorem disciplined_getCasc : Disciplined A paths.runtimeMode (getCasc formats paths) :=
  (Disciplined.effectiveRuntimeMode _).bind fun _ hm =>
    (Disciplined.guardCascAccess fun hext => eq_or_of_yields hm hext).bind fun _ _ =>
      disciplined_wowInstallPath.bind fun _ _ => (Disciplined.settled _).bind fun _ _ =>
        (Disciplined.ofInstall _).bind fun _ _ => (Disciplined.settled _).bind fun _ _ =>
          disciplined_getOrInit

theorem disciplined_ensureLocalAccess : Disciplined A mode (ensureLocalAccess casc) := by
  refine (Disciplined.demand rfl rfl).bind fun access _ => ?_
  cases access with
  | initialized dataDir => exact .pure dataDir
  | failed e => exact .settled _
  | uninitialized =>
    exact disciplined_wowInstallPath.bind fun _ _ => (Disciplined.settled _).bind fun _ _ =>
      .ofInstall _

theorem disciplined_readFileByEncodingKey {key : Key} :
    Disciplined A mode (readFileByEncodingKey formats casc key) := by
  refine (Disciplined.ofInstall _).bind fun primary _ => ?_
  cases primary with
  | ok data => exact .pure _
  | error e =>
    have hwithKeys : Disciplined A mode (readFileByEncodingKeyWithKeys formats casc key) :=
      disciplined_ensureLocalAccess.bind fun _ _ => .ofInstall _
    exact hwithKeys.raise _

theorem disciplined_readFdidBytes : Disciplined A mode (readFdidBytes formats casc fdid) := by
  unfold readFdidBytes
  split
  · exact disciplined_readFileByEncodingKey.raise _
  · split
    · exact .settled _
    · exact .ofInstall _

theorem disciplined_initializeWithPaths :
    Disciplined A paths.runtimeMode (initializeWithPaths formats paths) := by
  refine (Disciplined.effectiveRuntimeMode _).bind fun m _ => ?_
  split_ifs
  · exact .pure ()
  · exact disciplined_getCasc.bind fun _ _ => (Disciplined.ofInstall _).bind fun _ _ =>
      disciplined_ensureLocalAccess.attempt.bind fun _ _ => .pure ()

theorem disciplined_resolveBytesWithPaths :
    Disciplined A paths.runtimeMode (resolveBytesWithPaths formats paths fdid) := by
  have hread : Disciplined A paths.runtimeMode (do
      let casc ← getCasc formats paths
      ensureInitialized casc
      readFdidBytes formats casc fdid) :=
    disciplined_getCasc.bind fun _ _ => (Disciplined.ofInstall _).bind fun _ _ =>
      disciplined_readFdidBytes
  exact hread.attempt.bind fun _ _ => .pure _

theorem disciplined_extractFdidToPathWithPaths :
    Disciplined A paths.runtimeMode (extractFdidToPathWithPaths formats paths fdid outPath) :=
  disciplined_getCasc.bind fun _ _ => (Disciplined.ofInstall _).bind fun _ _ =>
    disciplined_readFdidBytes.bind fun _ _ => (Disciplined.settled _).bind fun _ _ =>
      (Disciplined.ofInstall _).bind fun _ _ => .pure _

theorem disciplined_ensureFileCachedCheckedWithPaths :
    Disciplined A paths.runtimeMode
      (ensureFileCachedCheckedWithPaths formats paths fdid outPath) := by
  refine (Disciplined.settled _).bind fun sharedPath _ =>
    (Disciplined.ofInstall _).bind fun published _ => ?_
  by_cases hpublished : published = true
  · rw [if_pos hpublished]
    exact .pure _
  · rw [if_neg hpublished]
    have hcurrent : Disciplined A paths.runtimeMode
        (readCurrentAssetPath formats paths sharedPath) := by
      unfold readCurrentAssetPath
      split
      · exact .pure _
      · exact disciplined_wowInstallPath.bind fun _ _ => (Disciplined.settled _).bind fun _ _ =>
          .ofInstall _
    refine (Disciplined.effectiveRuntimeMode _).bind fun m _ => (Disciplined.settled _).bind
      fun _ _ => hcurrent.bind fun currentPath _ => (Disciplined.ofInstall _).bind
        fun extracted _ => ?_
    by_cases hextracted : extracted = true
    · rw [if_pos hextracted]
      exact .pure _
    · rw [if_neg hextracted]
      exact (disciplined_extractFdidToPathWithPaths.raise _).bind fun _ _ => .pure _

theorem disciplined_runtimeMode : Disciplined A mode (runtimeMode paths) :=
  (Disciplined.effectiveRuntimeMode _).bind fun _ _ => .effectiveRuntimeMode _

theorem disciplined_ensureCached :
    Disciplined A paths.runtimeMode (ensureCachedChecked formats paths fdid outPath) ∧
      Disciplined A paths.runtimeMode (ensureCached formats paths fdid outPath) := by
  have hchecked : Disciplined A paths.runtimeMode
      (ensureCachedChecked formats paths fdid outPath) := by
    refine (Disciplined.settled _).bind fun expected _ =>
      (Disciplined.ofInstall _).bind fun published _ => ?_
    by_cases hpublished : published = true
    · rw [if_pos hpublished]
      exact .pure _
    · rw [if_neg hpublished]
      exact disciplined_runtimeMode.bind fun _ _ => (Disciplined.settled _).bind fun _ _ =>
        disciplined_ensureFileCachedCheckedWithPaths
  refine ⟨hchecked, hchecked.attempt.bind fun cached _ => ?_⟩
  cases cached with
  | ok path => exact .pure _
  | error e => exact disciplined_runtimeMode.bind fun _ _ => .settled _

theorem disciplined_ensureNamespaceForInstall {operation : String} {installRoot : PathBuf} :
    Disciplined A mode (ensureNamespaceForInstall formats operation installRoot) :=
  .guarded fun _ => (Disciplined.ofInstall _).bind fun _ _ =>
    (Disciplined.ofInstall _).bind fun _ _ => (Disciplined.demand rfl rfl).bind fun _ _ =>
      (Disciplined.ofInstall _).bind fun _ _ => .pure _

theorem disciplined_resolverResolveBytes :
    Disciplined A paths.runtimeMode (resolverResolveBytes formats paths fdid) := by
  refine disciplined_runtimeMode.bind fun m _ => ?_
  split_ifs
  · refine disciplined_runtimeMode.bind fun m hm =>
      (Disciplined.guardCascAccess fun hext => ?_).attempt.bind fun allowed hallowed => ?_
    · obtain ⟨inner, hinner, hm⟩ := yields_ok_bind_iff.mp hm
      rcases eq_or_of_yields hm hext with hext | hprocess
      · exact eq_or_of_yields hinner hext
      · exact .inr hprocess
    · have hexpect : ∀ message, Disciplined A paths.runtimeMode (expect message allowed) := by
        intro message
        cases allowed with
        | ok u => exact .pure ()
        | error e =>
          have hrecord := recordForbidden_of_yields (yields_attempt.mp hallowed)
          exact (Disciplined.panicking hrecord).bind fun _ _ => .settled _
      exact (hexpect _).bind fun _ _ => disciplined_resolveBytesWithPaths
  · exact disciplined_resolveBytesWithPaths

/-- **Every call keeps the discipline.** -/
theorem Call.disciplined (formats : Formats) (call : Call) :
    Disciplined A call.mode (call.program formats) := by
  cases call with
  | configureRuntimeModeFromEnv =>
    refine (Disciplined.demand rfl rfl).bind fun _ _ => (Disciplined.settled _).bind fun _ _ =>
      (Disciplined.demand rfl rfl).bind fun _ _ => ?_
    split_ifs
    · exact .pure _
    · exact .settled _
  | setCascAccessHook hook => exact (Disciplined.demand rfl rfl).bind fun _ _ => .settled _
  | forbiddenCascAccessCount => exact .demand rfl rfl
  | guardCascAccess mode operation => exact .guardCascAccess .inl
  | wowInstallPath => exact disciplined_wowInstallPath
  | wowDataPath => exact disciplined_wowInstallPath.bind fun _ _ => .pure _
  | openFrozen archiveDir keyFile => exact .guarded fun _ => .ofInstall _
  | readEncodingKey reader key => exact .guarded fun _ => .ofInstall _
  | resolveBytes fdid =>
    refine .attempted fun allowed => ?_
    cases allowed with
    | ok u =>
      exact (Disciplined.demand rfl rfl).bind fun roots _ =>
        (disciplined_resolveBytesWithPaths : Disciplined A roots.paths.runtimeMode _)
    | error e => exact .pure _
  | extractFdidToPath fdid outPath =>
    exact .guarded fun _ => (Disciplined.demand rfl rfl).bind fun roots _ =>
      (disciplined_extractFdidToPathWithPaths : Disciplined A roots.paths.runtimeMode _)
  | ensureFileCachedAtPath fdid outPath =>
    exact (Disciplined.demand rfl rfl).bind fun roots _ =>
      (disciplined_ensureCached.2 : Disciplined A roots.paths.runtimeMode _)
  | cascCacheDirForInstall installRoot =>
    exact .guarded fun _ => (Disciplined.ofInstall _).bind fun _ _ =>
      (Disciplined.demand rfl rfl).bind fun _ _ => .pure _
  | openResolutionCacheForInstall installRoot =>
    exact disciplined_ensureNamespaceForInstall.bind fun _ _ =>
      (Disciplined.ofInstall _).bind fun _ _ => .pure _
  | refreshResolutionCacheForInstall installRoot => exact disciplined_ensureNamespaceForInstall
  | resolver paths method =>
    cases method with
    | cachePath destination => exact .settled _
    | runtimeMode => exact disciplined_runtimeMode
    | initializeResolver =>
      refine disciplined_runtimeMode.bind fun m _ => ?_
      split_ifs
      · exact .pure ()
      · exact disciplined_initializeWithPaths
    | resolveBytes fdid => exact disciplined_resolverResolveBytes
    | ensureCachedChecked fdid outPath => exact disciplined_ensureCached.1
    | ensureCached fdid outPath => exact disciplined_ensureCached.2
    | resolvePath fdid => exact .ofInstall _
    | lookupPath path => exact .demand rfl rfl

end Discipline

end Policy

end AssetResolver
