import AssetResolver.Paths

/-!
# Passing a returned path back

An importer keeps the path `cache_path` returned and may pass it in again. This
file says for which configurations the second answer is the first one.

With an identity the canonical path of a file `r` is `asset_path(shared, r)`.
By `AssetResolver.ResolverPaths.scopedCachePath_eq_assetPath_iff` a path is
answered by it exactly when what `relative_data_path` leaves of the path is `r`
or is `r` behind the three components of the identity. So every question about
the canonical path is a question about **which root is stripped**, and the root
that is stripped is the first of source, shared and `data` that is a prefix.

The answers are `AssetResolver.ResolverPaths.agrees_iff` for a resolver with an
identity, and `AssetResolver.ResolverPaths.remap_idem_iff` for one without. Both
fail for the same reason: when the shared root lies below the source root, a path
under the shared root is read as one under the source root, and the components
between the two roots are kept.
-/

namespace AssetResolver

namespace ResolverPaths

variable {paths : ResolverPaths} {i : AssetIdentity}

/-! ### Which root is stripped -/

/-- **The first root that is a prefix is the one that is stripped.** -/
theorem relativeDataPath_eq_ok_iff {p rel : PathBuf} :
    paths.relativeDataPath p = .ok rel ↔
      p.components = paths.sourceDataRoot.components ++ rel.components ∨
      (¬paths.sourceDataRoot.components <+: p.components ∧
        p.components = paths.sharedDataRoot.components ++ rel.components) ∨
      (¬paths.sourceDataRoot.components <+: p.components ∧
        ¬paths.sharedDataRoot.components <+: p.components ∧
          p.components = .normal dataName :: rel.components) := by
  have hleads : ∀ {base : List Component}, p.components = base ++ rel.components →
      base <+: p.components := fun h => ⟨_, h.symm⟩
  unfold relativeDataPath
  cases hsource : p.stripPrefix paths.sourceDataRoot with
  | some s =>
    have hs := PathBuf.stripPrefix_eq_some_iff.mp hsource
    have hpre : paths.sourceDataRoot.components <+: p.components := ⟨_, hs.symm⟩
    constructor
    · rintro ⟨⟩
      exact Or.inl hs
    · rintro (h | ⟨h, -⟩ | ⟨h, -⟩)
      · rw [PathBuf.ext (List.append_cancel_left (hs.symm.trans h))]
      · exact absurd hpre h
      · exact absurd hpre h
  | none =>
    have hnot := PathBuf.stripPrefix_eq_none_iff.mp hsource
    cases hshared : p.stripPrefix paths.sharedDataRoot with
    | some s =>
      have hs := PathBuf.stripPrefix_eq_some_iff.mp hshared
      constructor
      · rintro ⟨⟩
        exact Or.inr (Or.inl ⟨hnot, hs⟩)
      · rintro (h | ⟨-, h⟩ | ⟨-, h, -⟩)
        · exact absurd (hleads h) hnot
        · dsimp only
          rw [PathBuf.ext (List.append_cancel_left (hs.symm.trans h))]
        · exact absurd ⟨_, hs.symm⟩ h
    | none =>
      have hnot' := PathBuf.stripPrefix_eq_none_iff.mp hshared
      cases hdata : p.stripPrefix (.ofStr "data") with
      | some s =>
        have hs := PathBuf.stripPrefix_eq_some_iff.mp hdata
        rw [ofStr_data, List.singleton_append] at hs
        constructor
        · rintro ⟨⟩
          exact Or.inr (Or.inr ⟨hnot, hnot', hs⟩)
        · rintro (h | ⟨-, h⟩ | ⟨-, -, h⟩)
          · exact absurd (hleads h) hnot
          · exact absurd (hleads h) hnot'
          · dsimp only
            rw [PathBuf.ext (List.cons_inj_right _ |>.mp (hs.symm.trans h))]
      | none =>
        have hnot'' := PathBuf.stripPrefix_eq_none_iff.mp hdata
        rw [ofStr_data] at hnot''
        refine ⟨fun h => by simp at h, ?_⟩
        rintro (h | ⟨-, h⟩ | ⟨-, -, h⟩)
        · exact absurd (hleads h) hnot
        · exact absurd (hleads h) hnot'
        · exact absurd ⟨_, h.symm⟩ hnot''

/-- A file below `data` rather than below a namespace: its path consists of file
names, of which the first is not `products`. -/
structure PlainAsset (r : PathBuf) : Prop where
  allNormal : r.AllNormal
  head_ne : r.components.head? ≠ some (.normal AssetIdentity.productsName)

theorem PlainAsset.not_startsWith {r : PathBuf} (hr : PlainAsset r) :
    ¬r.startsWith (.ofStr "products") := by
  rw [PathBuf.startsWith_iff, ofStr_products]
  rintro ⟨t, ht⟩
  exact hr.head_ne (by rw [← ht]; rfl)

/-- The paths an identity answers by the canonical path of a file: what is left
of them is the file, bare or already qualified. -/
theorem assetPart_eq_iff {r rel a : PathBuf} (hr : PlainAsset r)
    (ha : a.components = r.components) :
    i.assetPart rel = some a ↔
      rel.components = r.components ∨ rel.components = i.scope ++ r.components := by
  obtain rfl : a = r := PathBuf.ext ha
  have hscope : ∀ {q : PathBuf}, q.components = i.scope ++ a.components →
      q.startsWith (.ofStr "products") := fun {q} h => by
    rw [PathBuf.startsWith_iff, ofStr_products, h]
    exact ⟨_, rfl⟩
  unfold AssetIdentity.assetPart
  constructor
  · intro h
    split_ifs at h
    · refine Or.inr ?_
      rw [PathBuf.stripPrefix_eq_some_iff.mp h, AssetIdentity.assetRoot_empty_components]
    · cases h
      exact Or.inl rfl
  · rintro (h | h)
    · obtain rfl : rel = a := PathBuf.ext h
      rw [if_neg hr.not_startsWith]
    · rw [if_pos (hscope h), PathBuf.stripPrefix_eq_some_iff,
        AssetIdentity.assetRoot_empty_components]
      exact h

/-- **When a path is answered by the canonical path of a file.** -/
theorem scopedCachePath_eq_assetPath_iff (hi : paths.identity = some i) {p r : PathBuf}
    (hr : PlainAsset r) :
    paths.scopedCachePath p = .ok (i.assetPath paths.sharedDataRoot r) ↔
      ∃ rel, paths.relativeDataPath p = .ok rel ∧
        (rel.components = r.components ∨ rel.components = i.scope ++ r.components) := by
  rw [scopedCachePath_eq_ok_iff hi]
  constructor
  · rintro ⟨rel, a, hrel, hnormal, ha, hq⟩
    have haN := AssetIdentity.allNormal_of_assetPart hnormal ha
    have hcomp : a.components = r.components := by
      have h := congrArg PathBuf.components hq
      rw [i.assetPath_components _ hr.allNormal, i.assetPath_components _ haN] at h
      exact (List.append_cancel_left h).symm
    exact ⟨rel, hrel, (assetPart_eq_iff hr hcomp).mp ha⟩
  · rintro ⟨rel, hrel, hcomp⟩
    refine ⟨rel, r, hrel, ?_, (assetPart_eq_iff hr rfl).mpr hcomp, rfl⟩
    intro c hc
    rcases hcomp with h | h
    · exact hr.allNormal c (h ▸ hc)
    · rcases List.mem_append.mp (h ▸ hc) with hmem | hmem
      · exact i.isNormal_of_mem_scope c hmem
      · exact hr.allNormal c hmem

/-! ### A resolver with an identity -/

theorem assetPath_empty_components {r : PathBuf} (hr : r.AllNormal) :
    (i.assetPath .empty r).components = i.scope ++ r.components := by
  rw [i.assetPath_components _ hr]
  rfl

/-- A path under the source root is answered by the canonical path. -/
theorem cachePath_source (hi : paths.identity = some i) {r : PathBuf} (hr : PlainAsset r) :
    paths.cachePath (paths.sourceDataRoot.join r) =
      .ok (i.assetPath paths.sharedDataRoot r) := by
  refine (scopedCachePath_eq_assetPath_iff hi hr).mpr ⟨r, ?_, Or.inl rfl⟩
  exact relativeDataPath_eq_ok_iff.mpr (Or.inl (PathBuf.join_components hr.allNormal))

/-- A path under the shared root is answered by the canonical path unless the
source root is stripped off it instead, and leaves something else. -/
theorem cachePath_shared_iff (hi : paths.identity = some i) {r : PathBuf} (hr : PlainAsset r) :
    paths.cachePath (paths.sharedDataRoot.join r) = .ok (i.assetPath paths.sharedDataRoot r) ↔
      (paths.sourceDataRoot.components <+: paths.sharedDataRoot.components ++ r.components →
        paths.sourceDataRoot.components = paths.sharedDataRoot.components ∨
        paths.sharedDataRoot.components = paths.sourceDataRoot.components ++ i.scope) := by
  rw [cachePath, scopedCachePath_eq_assetPath_iff hi hr]
  simp only [relativeDataPath_eq_ok_iff, PathBuf.join_components hr.allNormal]
  constructor
  · rintro ⟨rel, h | ⟨h, -⟩ | ⟨h, -⟩, hrel⟩ hpre
    · rcases hrel with hrel | hrel
      · rw [hrel] at h
        exact Or.inl (List.append_cancel_right h).symm
      · rw [hrel, ← List.append_assoc] at h
        exact Or.inr (List.append_cancel_right h)
    · exact absurd hpre h
    · exact absurd hpre h
  · intro h
    by_cases hpre :
        paths.sourceDataRoot.components <+: paths.sharedDataRoot.components ++ r.components
    · rcases h hpre with heq | heq
      · exact ⟨r, Or.inl (by rw [heq]), Or.inl rfl⟩
      · refine ⟨i.assetPath .empty r, Or.inl ?_, Or.inr (assetPath_empty_components hr.allNormal)⟩
        rw [assetPath_empty_components hr.allNormal, heq, List.append_assoc]
    · exact ⟨r, Or.inr (Or.inl ⟨hpre, rfl⟩), Or.inl rfl⟩

/-- A path under `data` is answered by the canonical path unless one of the two
roots is stripped off it instead, and is not `data` itself. -/
theorem cachePath_data_iff (hi : paths.identity = some i) {r : PathBuf} (hr : PlainAsset r) :
    paths.cachePath ((PathBuf.ofStr "data").join r) = .ok (i.assetPath paths.sharedDataRoot r) ↔
      (paths.sourceDataRoot.components <+: .normal dataName :: r.components →
        paths.sourceDataRoot.components = [.normal dataName]) ∧
      (¬paths.sourceDataRoot.components <+: .normal dataName :: r.components →
        paths.sharedDataRoot.components <+: .normal dataName :: r.components →
        paths.sharedDataRoot.components = [.normal dataName]) := by
  -- the root that is stripped is `data`, for otherwise what is left is too short
  have hroot : ∀ {base rel : List Component}, .normal dataName :: r.components = base ++ rel →
      (rel = r.components ∨ rel = i.scope ++ r.components) → base = [.normal dataName] := by
    rintro base rel h (rfl | rfl)
    · rw [← List.singleton_append] at h
      exact (List.append_cancel_right h).symm
    · have hlen := congrArg List.length h
      simp [AssetIdentity.length_scope] at hlen
      omega
  rw [cachePath, scopedCachePath_eq_assetPath_iff hi hr]
  simp only [relativeDataPath_eq_ok_iff, PathBuf.join_components hr.allNormal, ofStr_data,
    List.singleton_append]
  constructor
  · rintro ⟨rel, h | ⟨hsource, h⟩ | ⟨hsource, hshared, -⟩, hrel⟩
    · exact ⟨fun _ => hroot h hrel, fun hnot => absurd ⟨_, h.symm⟩ hnot⟩
    · exact ⟨fun hpre => absurd hpre hsource, fun _ _ => hroot h hrel⟩
    · exact ⟨fun hpre => absurd hpre hsource, fun _ hpre => absurd hpre hshared⟩
  · rintro ⟨hsource, hshared⟩
    refine ⟨r, ?_, Or.inl rfl⟩
    by_cases hpre : paths.sourceDataRoot.components <+: .normal dataName :: r.components
    · exact Or.inl (by rw [hsource hpre]; rfl)
    · by_cases hpre' : paths.sharedDataRoot.components <+: .normal dataName :: r.components
      · exact Or.inr (Or.inl ⟨hpre, by rw [hshared hpre hpre']; rfl⟩)
      · exact Or.inr (Or.inr ⟨hpre, hpre', rfl⟩)

/-- **The canonical path is a fixed point** unless the source root is stripped
off it, and is neither the shared root nor the namespace. -/
theorem cachePath_canonical_iff (hi : paths.identity = some i) {r : PathBuf}
    (hr : PlainAsset r) :
    paths.cachePath (i.assetPath paths.sharedDataRoot r) =
        .ok (i.assetPath paths.sharedDataRoot r) ↔
      (paths.sourceDataRoot.components <+:
          paths.sharedDataRoot.components ++ i.scope ++ r.components →
        paths.sourceDataRoot.components = paths.sharedDataRoot.components ∨
        paths.sourceDataRoot.components = paths.sharedDataRoot.components ++ i.scope) := by
  rw [cachePath, scopedCachePath_eq_assetPath_iff hi hr]
  simp only [relativeDataPath_eq_ok_iff, i.assetPath_components _ hr.allNormal]
  constructor
  · rintro ⟨rel, h | ⟨h, -⟩ | ⟨h, -⟩, hrel⟩ hpre
    · rcases hrel with hrel | hrel
      · rw [hrel] at h
        exact Or.inr (List.append_cancel_right h).symm
      · rw [hrel, List.append_assoc] at h
        exact Or.inl (List.append_cancel_right h).symm
    · exact absurd hpre h
    · exact absurd hpre h
  · intro h
    have hscope := assetPath_empty_components (i := i) hr.allNormal
    by_cases hpre : paths.sourceDataRoot.components <+:
        paths.sharedDataRoot.components ++ i.scope ++ r.components
    · rcases h hpre with heq | heq
      · exact ⟨i.assetPath .empty r, Or.inl (by rw [heq, hscope, List.append_assoc]),
          Or.inr hscope⟩
      · exact ⟨r, Or.inl (by rw [heq]), Or.inl rfl⟩
    · exact ⟨i.assetPath .empty r,
        Or.inr (Or.inl ⟨hpre, by rw [hscope, List.append_assoc]⟩), Or.inr hscope⟩

/-- The roots under which no spelling of `r` has the wrong root stripped off it. -/
structure RootsAgree (paths : ResolverPaths) (i : AssetIdentity) (r : PathBuf) : Prop where
  /-- The source root is not a strict part of a path under the shared root. -/
  shared : paths.sourceDataRoot.components <+: paths.sharedDataRoot.components ++ r.components →
    paths.sourceDataRoot.components = paths.sharedDataRoot.components
  /-- Nor of a path under `data`, -/
  data_source : paths.sourceDataRoot.components <+: .normal dataName :: r.components →
    paths.sourceDataRoot.components = [.normal dataName]
  /-- and neither is the shared root, which is tried next. -/
  data_shared : ¬paths.sourceDataRoot.components <+: .normal dataName :: r.components →
    paths.sharedDataRoot.components <+: .normal dataName :: r.components →
    paths.sharedDataRoot.components = [.normal dataName]
  /-- The source root is not a strict part of the canonical path, its namespace apart. -/
  canonical : paths.sourceDataRoot.components <+:
      paths.sharedDataRoot.components ++ i.scope ++ r.components →
    paths.sourceDataRoot.components = paths.sharedDataRoot.components ∨
    paths.sourceDataRoot.components = paths.sharedDataRoot.components ++ i.scope

/-- All spellings of `r` are answered by one path, which answers itself. -/
def Agrees (paths : ResolverPaths) (r : PathBuf) : Prop :=
  ∃ q, paths.cachePath (paths.sourceDataRoot.join r) = .ok q ∧
    paths.cachePath (paths.sharedDataRoot.join r) = .ok q ∧
    paths.cachePath ((PathBuf.ofStr "data").join r) = .ok q ∧
    paths.cachePath q = .ok q

/-- **Exactly when one asset has one cache path.** -/
theorem agrees_iff (hi : paths.identity = some i) {r : PathBuf} (hr : PlainAsset r) :
    paths.Agrees r ↔ paths.RootsAgree i r := by
  have hall : paths.Agrees r ↔
      paths.cachePath (paths.sharedDataRoot.join r) = .ok (i.assetPath paths.sharedDataRoot r) ∧
      paths.cachePath ((PathBuf.ofStr "data").join r) =
        .ok (i.assetPath paths.sharedDataRoot r) ∧
      paths.cachePath (i.assetPath paths.sharedDataRoot r) =
        .ok (i.assetPath paths.sharedDataRoot r) := by
    unfold Agrees
    rw [cachePath_source hi hr]
    constructor
    · rintro ⟨q, ⟨⟩, h⟩
      exact h
    · exact fun h => ⟨_, rfl, h⟩
  rw [hall, cachePath_shared_iff hi hr, cachePath_data_iff hi hr, cachePath_canonical_iff hi hr]
  constructor
  · rintro ⟨hshared, ⟨hsource, hdata⟩, hcanonical⟩
    refine ⟨fun hpre => ?_, hsource, hdata, hcanonical⟩
    rcases hshared hpre with heq | heq
    · exact heq
    · -- the shared root is then no namespace of the source root: its own canonical path
      -- would have the source root stripped off it
      have hstrip := hcanonical ⟨i.scope ++ i.scope ++ r.components, by
        rw [heq]
        simp only [List.append_assoc]⟩
      have hscope := i.length_scope
      rcases hstrip with h | h
      · exact h
      · have hlen := congrArg List.length h
        rw [heq, List.length_append, List.length_append] at hlen
        omega
  · exact fun h => ⟨fun hpre => Or.inl (h.shared hpre), ⟨h.data_source, h.data_shared⟩, h.canonical⟩

/-! ### A resolver without an identity -/

/-- What the root that `remap_to_shared_data_path` recognises leaves of a path. -/
def remappedPart (paths : ResolverPaths) (p : PathBuf) : Option PathBuf :=
  (p.stripPrefix paths.sourceDataRoot).or (p.stripPrefix (.ofStr "data"))

theorem remapToSharedDataPath_of_some {p x : PathBuf} (h : paths.remappedPart p = some x) :
    paths.remapToSharedDataPath p = paths.sharedDataRoot.join x := by
  unfold remappedPart at h
  unfold remapToSharedDataPath sharedDataPath
  cases hs : p.stripPrefix paths.sourceDataRoot with
  | some s =>
    rw [hs] at h
    rw [Option.some.inj h]
  | none =>
    rw [hs, Option.none_or] at h
    rw [h]

theorem remapToSharedDataPath_of_none {p : PathBuf} (h : paths.remappedPart p = none) :
    paths.remapToSharedDataPath p = p := by
  unfold remappedPart at h
  obtain ⟨hs, hd⟩ := Option.or_eq_none_iff.mp h
  simp [remapToSharedDataPath, hs, hd]

/-- Joining the same directory twice changes nothing exactly when one of the two
sides absorbs the other. -/
theorem join_join_self_iff {b q : PathBuf} :
    b.join (b.join q) = b.join q ↔
      q.isAbsolute ∨ b.isAbsolute ∨ b.components = [] ∨ b.components = [.curDir] := by
  by_cases hq : q.isAbsolute
  · simp [PathBuf.join, hq]
  by_cases hb : b.components = []
  · simp [PathBuf.join, hb, hq]
  have hjoin := PathBuf.join_components_of_not_isAbsolute hb hq
  obtain ⟨c, cs, hcs⟩ := List.exists_cons_of_ne_nil hb
  have hinner : ∀ d ∈ cs ++ q.relativeComponents, d.isInner := fun d hd => by
    rcases List.mem_append.mp hd with hd | hd
    · exact b.inner_tail d (by rw [hcs]; exact hd)
    · exact PathBuf.isInner_relativeComponents hq d hd
  by_cases habs : c = .rootDir
  · have hbabs : b.isAbsolute := by simp [PathBuf.isAbsolute, hcs, habs]
    have hjabs : (b.join q).isAbsolute := by simp [PathBuf.isAbsolute, hjoin, hcs, habs]
    refine ⟨fun _ => Or.inr (Or.inl hbabs), fun _ => ?_⟩
    conv_lhs => rw [PathBuf.join, dif_pos hjabs]
  have hnot : ¬(b.join q).isAbsolute := by simp [PathBuf.isAbsolute, hjoin, hcs, habs]
  have hnot' : ¬b.isAbsolute := by simp [PathBuf.isAbsolute, hcs, habs]
  -- what a second join appends: the first one, less a leading `.`
  have hrel : (b.join q).relativeComponents =
      (if c = .curDir then cs else c :: cs) ++ q.relativeComponents := by
    rw [PathBuf.relativeComponents, hjoin, hcs, List.cons_append]
    split_ifs with hc
    · have hdrop := PathBuf.relativeComponents_of_isInner
        (p := ⟨cs ++ q.relativeComponents, fun d hd => hinner d (List.mem_of_mem_tail hd)⟩) hinner
      simpa [hc, PathBuf.relativeComponents] using hdrop
    · simp [hc]
  rw [PathBuf.ext_iff, PathBuf.join_components_of_not_isAbsolute hb hnot, hjoin, hrel,
    List.append_cancel_left_eq]
  constructor
  · intro h
    split_ifs at h with hc
    · refine Or.inr (Or.inr (Or.inr ?_))
      rw [hcs, hc, List.append_left_eq_self.mp h]
    · exact absurd (List.append_left_eq_self.mp h) (List.cons_ne_nil _ _)
  · rintro (h | h | h | h)
    · exact absurd h hq
    · exact absurd h hnot'
    · exact absurd h hb
    · rw [hcs] at h
      obtain ⟨rfl, rfl⟩ := List.cons_eq_cons.mp h
      rfl

/-- The roots under which the shared copy of `x` is left where it is. -/
def Remapped (paths : ResolverPaths) (x : PathBuf) : Prop :=
  if paths.sourceDataRoot.components = [] then
    -- every path is remapped, the shared ones included
    x.isAbsolute ∨ paths.sharedDataRoot.isAbsolute ∨ paths.sharedDataRoot.components = [] ∨
      paths.sharedDataRoot.components = [.curDir]
  else
    (paths.sourceDataRoot.components <+: paths.sharedDataRoot.components ++ x.components →
      paths.sourceDataRoot.components = paths.sharedDataRoot.components) ∧
    (¬paths.sourceDataRoot.components <+: paths.sharedDataRoot.components ++ x.components →
      [.normal dataName] <+: paths.sharedDataRoot.components ++ x.components →
      paths.sharedDataRoot.components = [.normal dataName])

/-- Behind a root that is not empty there is neither a root nor a leading `.`. -/
theorem isInner_of_remappedPart (hne : paths.sourceDataRoot.components ≠ []) {p x : PathBuf}
    (h : paths.remappedPart p = some x) : ∀ c ∈ x.components, c.isInner := by
  unfold remappedPart at h
  rcases Option.or_eq_some_iff.mp h with hs | ⟨-, hs⟩
  · exact PathBuf.isInner_of_stripPrefix hne hs
  · exact PathBuf.isInner_of_stripPrefix (by simp) hs

/-- Stripping `base` off a joined path and joining the rest again gives the path
back exactly when `base` is what it was joined to. -/
theorem join_of_stripPrefix_iff {b x base y : PathBuf}
    (hbase : base.components ≠ []) (hs : (b.join x).stripPrefix base = some y) :
    b.join y = b.join x ↔ base.components = b.components := by
  have hy := PathBuf.stripPrefix_eq_some_iff.mp hs
  have hyinner : ∀ c ∈ y.components, c.isInner := fun c hc =>
    (b.join x).inner_tail c (by
      rw [hy, List.tail_append_of_ne_nil hbase]
      exact List.mem_append_right _ hc)
  rw [PathBuf.ext_iff, PathBuf.join_components_of_isInner hyinner, hy, List.append_left_inj]
  exact eq_comm

/-- Below an empty source root every path is remapped, and a shared copy once more. -/
theorem remap_join_iff_of_nil (hnil : paths.sourceDataRoot.components = []) {x : PathBuf} :
    paths.remapToSharedDataPath (paths.sharedDataRoot.join x) = paths.sharedDataRoot.join x ↔
      x.isAbsolute ∨ paths.sharedDataRoot.isAbsolute ∨ paths.sharedDataRoot.components = [] ∨
        paths.sharedDataRoot.components = [.curDir] := by
  have hall : ∀ y : PathBuf, paths.remappedPart y = some y := fun y => by
    have hs : y.stripPrefix paths.sourceDataRoot = some y :=
      PathBuf.stripPrefix_eq_some_iff.mpr (by rw [hnil, List.nil_append])
    rw [remappedPart, hs, Option.some_or]
  rw [remapToSharedDataPath_of_some (hall _), join_join_self_iff]

/-- A shared copy is left alone when no root is recognised in it, or the one that is
recognised is the shared root itself. -/
theorem remap_join_iff_of_ne_nil (hne : paths.sourceDataRoot.components ≠ []) {x : PathBuf}
    (hinner : ∀ c ∈ x.components, c.isInner) :
    paths.remapToSharedDataPath (paths.sharedDataRoot.join x) = paths.sharedDataRoot.join x ↔
      (paths.sourceDataRoot.components <+: paths.sharedDataRoot.components ++ x.components →
        paths.sourceDataRoot.components = paths.sharedDataRoot.components) ∧
      (¬paths.sourceDataRoot.components <+: paths.sharedDataRoot.components ++ x.components →
        [.normal dataName] <+: paths.sharedDataRoot.components ++ x.components →
        paths.sharedDataRoot.components = [.normal dataName]) := by
  have hjoin := PathBuf.join_components_of_isInner (p := paths.sharedDataRoot) hinner
  rw [← hjoin]
  cases hs : (paths.sharedDataRoot.join x).stripPrefix paths.sourceDataRoot with
  | some y =>
    have hpart : paths.remappedPart (paths.sharedDataRoot.join x) = some y := by
      rw [remappedPart, hs, Option.some_or]
    have hpre : paths.sourceDataRoot.components <+: (paths.sharedDataRoot.join x).components :=
      ⟨_, (PathBuf.stripPrefix_eq_some_iff.mp hs).symm⟩
    rw [remapToSharedDataPath_of_some hpart, join_of_stripPrefix_iff hne hs]
    exact ⟨fun h => ⟨fun _ => h, fun hnot => absurd hpre hnot⟩, fun h => h.1 hpre⟩
  | none =>
    have hnot := PathBuf.stripPrefix_eq_none_iff.mp hs
    cases hd : (paths.sharedDataRoot.join x).stripPrefix (.ofStr "data") with
    | some y =>
      have hpart : paths.remappedPart (paths.sharedDataRoot.join x) = some y := by
        rw [remappedPart, hs, Option.none_or, hd]
      have hpre : [.normal dataName] <+: (paths.sharedDataRoot.join x).components := by
        rw [← ofStr_data]
        exact ⟨_, (PathBuf.stripPrefix_eq_some_iff.mp hd).symm⟩
      rw [remapToSharedDataPath_of_some hpart, join_of_stripPrefix_iff (by simp) hd, ofStr_data]
      exact ⟨fun h => ⟨fun hp => absurd hp hnot, fun _ _ => h.symm⟩,
        fun h => (h.2 hnot hpre).symm⟩
    | none =>
      have hpart : paths.remappedPart (paths.sharedDataRoot.join x) = none := by
        rw [remappedPart, hs, Option.none_or, hd]
      have hnot' : ¬[.normal dataName] <+: (paths.sharedDataRoot.join x).components := by
        rw [← ofStr_data]
        exact PathBuf.stripPrefix_eq_none_iff.mp hd
      rw [remapToSharedDataPath_of_none hpart]
      exact ⟨fun _ => ⟨fun hp => absurd hp hnot, fun _ hp => absurd hp hnot'⟩, fun _ => rfl⟩

/-- **Exactly when remapping twice is remapping once.** -/
theorem remap_idem_iff (p : PathBuf) :
    paths.remapToSharedDataPath (paths.remapToSharedDataPath p) = paths.remapToSharedDataPath p ↔
      ∀ x, paths.remappedPart p = some x → paths.Remapped x := by
  cases hx : paths.remappedPart p with
  | none => simp [remapToSharedDataPath_of_none hx]
  | some x =>
    have hmain : paths.remapToSharedDataPath (paths.sharedDataRoot.join x) =
        paths.sharedDataRoot.join x ↔ paths.Remapped x := by
      unfold Remapped
      split_ifs with hnil
      · exact remap_join_iff_of_nil hnil
      · exact remap_join_iff_of_ne_nil hnil (isInner_of_remappedPart hnil hx)
    rw [remapToSharedDataPath_of_some hx, hmain]
    exact ⟨fun h y hy => Option.some.inj hy ▸ h, fun h => h x rfl⟩

/-! ### Both resolvers -/

/-- A path answered by one that answers itself. -/
def Settles (paths : ResolverPaths) (p : PathBuf) : Prop :=
  ∃ q, paths.cachePath p = .ok q ∧ paths.cachePath q = .ok q

/-- **When a returned path can be passed back.** A resolver with an identity
answers the source, shared and `data` spelling of a file by one fixed point
exactly when none of them has the wrong root stripped off it; a resolver without
one answers a path by a fixed point exactly when its shared copy is left alone. -/
theorem cachePath_fixed_iff (paths : ResolverPaths) :
    (∀ i r, paths.identity = some i → PlainAsset r →
      (paths.Agrees r ↔ paths.RootsAgree i r)) ∧
    (paths.identity = none → ∀ p,
      (paths.Settles p ↔ ∀ x, paths.remappedPart p = some x → paths.Remapped x)) := by
  refine ⟨fun i r hi hr => agrees_iff hi hr, fun hnone p => ?_⟩
  have hpath : ∀ p, paths.cachePath p = .ok (paths.remapToSharedDataPath p) := fun p => by
    rw [cachePath, scopedCachePath, hnone]
  rw [← remap_idem_iff]
  constructor
  · rintro ⟨q, hq, hfix⟩
    rw [hpath] at hq hfix
    cases hq
    exact Except.ok.inj hfix
  · intro h
    exact ⟨_, hpath p, by rw [hpath, h]⟩

/-- The identity of the build whose key is all zeros. -/
def zeroBuild : AssetIdentity :=
  .wow "00000000000000000000000000000000" (by decide +kernel) (by decide)

/-- A resolver whose shared root is a directory of the source root. -/
def nestedRoots (identity : Option AssetIdentity) : ResolverPaths where
  sourceDataRoot := .ofStr "/d"
  sharedDataRoot := .ofStr "/d/cache"
  cacheRoot := .ofStr "/c"
  identity := identity
  runtimeMode := .localCasc

/-- **Below nested roots one asset has two cache paths**: the path under the
shared root, and the canonical path itself, are answered by another one. -/
theorem nestedRoots_not_fixed :
    ¬(nestedRoots (some zeroBuild)).Agrees (.ofStr "x") ∧
      ¬(nestedRoots none).Settles (.ofStr "/d/x") := by
  have hplain : PlainAsset (.ofStr "x") := ⟨by decide, by decide⟩
  refine ⟨fun h => ?_, ?_⟩
  · have hagree : (nestedRoots (some zeroBuild)).RootsAgree zeroBuild (.ofStr "x") :=
      (agrees_iff rfl hplain).mp h
    exact absurd (hagree.shared (by decide)) (by decide)
  · rintro ⟨q, hq, hfix⟩
    cases hq
    exact absurd (Except.ok.inj hfix) (by decide)

/-- The source and the shared root of the examples in the documentation agree. -/
theorem cachePath_fixed_iff_data :
    (({ nestedRoots (some zeroBuild) with sharedDataRoot := .ofStr "/d" }).Agrees (.ofStr "x") ↔
      ({ nestedRoots (some zeroBuild) with sharedDataRoot := .ofStr "/d" }).RootsAgree zeroBuild
        (.ofStr "x")) ∧
    ((nestedRoots none).Settles (.ofStr "/d/x") ↔
      ∀ x, (nestedRoots none).remappedPart (.ofStr "/d/x") = some x →
        (nestedRoots none).Remapped x) :=
  ⟨(cachePath_fixed_iff _).1 zeroBuild (.ofStr "x") rfl ⟨by decide, by decide⟩,
    (cachePath_fixed_iff _).2 rfl (.ofStr "/d/x")⟩

end ResolverPaths

end AssetResolver
