import AssetResolver.Casc.Resolver
import AssetResolver.Casc.WriteToPath

/-!
# The names of extracted files

`casc-local` extracts a file to a name of its FDID, with the extension that the listfile path of
the FDID has. Only this name and the directory decide where the file is written
(`AssetResolver.CascLocal.mayAsk_extractFdid`), so whether the files lie **flat** in the directory
is a question about names (`AssetResolver.CascLocal.Flat`).

The extension is searched for in the whole path: it is what stands behind the last dot. That
is right for a path whose last component has a dot. If only a directory has one, then the
extension is the end of the name of that directory and all that follows it, so the name has a
separator (`AssetResolver.CascLocal.slash_mem_of_dotted`), and the file is not written to the
directory but below it. These are the only paths that go wrong
(`AssetResolver.CascLocal.flat_iff`).
-/

namespace AssetResolver

namespace CascLocal

open Program

/-! ### Splitting at the last separator -/

section Split

variable {α : Type} [DecidableEq α] {c : α} {cs front behind : List α}

/-- `str::rsplit_once`. -/
def rsplitOnce (separator : α) : List α → Option (List α × List α)
  | [] => none
  | c :: cs =>
    match rsplitOnce separator cs with
    | some (front, behind) => some (c :: front, behind)
    | none => if c = separator then some ([], cs) else none

theorem rsplitOnce_of_notMem (h : c ∉ cs) : rsplitOnce c cs = none := by
  induction cs with
  | nil => rfl
  | cons d cs ih =>
    rw [List.mem_cons, not_or] at h
    rw [rsplitOnce, ih h.2]
    exact if_neg (Ne.symm h.1)

/-- **The separator that is found is the last one.** -/
theorem rsplitOnce_append (h : c ∉ behind) :
    rsplitOnce c (front ++ c :: behind) = some (front, behind) := by
  induction front with
  | nil =>
    rw [List.nil_append, rsplitOnce, rsplitOnce_of_notMem h]
    exact if_pos rfl
  | cons d front ih => rw [List.cons_append, rsplitOnce, ih]

omit [DecidableEq α] in
/-- A text with a separator has a last one. -/
theorem exists_last (h : c ∈ cs) : ∃ front behind, cs = front ++ c :: behind ∧ c ∉ behind := by
  obtain ⟨front, behind, hcs, hlast⟩ := List.eq_append_cons_of_mem (List.mem_reverse.mpr h)
  refine ⟨behind.reverse, front.reverse, ?_, fun hmem => hlast (List.mem_reverse.mp hmem)⟩
  rw [← List.reverse_reverse cs, hcs]
  simp

end Split

/-! ### The names -/

/-- `extension_from_listfile_path`. -/
def extensionFromListfilePath (path : String) : Option String :=
  (rsplitOnce '.' path.toList).map fun parts => String.ofList parts.2

/-- The name of a file whose FDID has this path in the listfile. -/
def filenameOf (fdid : UInt32) (found : Option String) : String :=
  let ext := (found.bind extensionFromListfilePath).getD "dat"
  s!"{fdid}.{ext}"

/-- `resolve_filename`. -/
def resolveFilename (fdid : UInt32) : InstallProgram String := do
  let found ← answer (.lookupFdid fdid)
  return filenameOf fdid found

/-- `extract_fdid`. -/
def extractFdid (process : Process) (fdid : UInt32) (outputDir : PathBuf) :
    CascProgram (Option ExtractedFile) := do
  let filename ← ofInstall (resolveFilename fdid)
  let outPath := outputDir.join (.ofStr filename)
  let present ← ofInstall (answer (.pathExists outPath))
  if present = true then return none
  settled (guardCascAccess process.mode process.mode "direct CASC extraction")
  let extracted ← extractFdidToPathWithPaths process process.defaultPaths fdid outPath
  return some extracted

/-- Where the file of an FDID is written. -/
def outPath (outputDir : PathBuf) (fdid : UInt32) (found : Option String) : PathBuf :=
  outputDir.join (.ofStr (filenameOf fdid found))

/-! ### What the names are meant to be -/

/-- The last component of a path in the listfile. -/
def finalComponent (path : String) : List Char :=
  ((rsplitOnce '/' path.toList).map Prod.snd).getD path.toList

/-- **The name of a file**: the FDID, and the extension of the last component. -/
def expectedName (fdid : UInt32) (found : Option String) : String :=
  let ext := (found.bind fun path =>
    (rsplitOnce '.' (finalComponent path)).map fun parts => String.ofList parts.2).getD "dat"
  s!"{fdid}.{ext}"

/-- **The files lie flat**: a file has its own name, which is one component, in the directory. -/
structure Flat (outputDir : PathBuf) (fdid : UInt32) (found : Option String) : Prop where
  name : filenameOf fdid found = expectedName fdid found
  no_separator : '/' ∉ (filenameOf fdid found).toList
  parent : (outPath outputDir fdid found).parent = some outputDir
  fileName : (outPath outputDir fdid found).fileName.map FileName.bytes =
    some (osString (expectedName fdid found))

/-! ### Dots of directories -/

section Names

variable {fdid : UInt32} {found : Option String} {path : String} {outputDir : PathBuf}

/-- A path is its last component, or it ends with a separator and its last component. -/
theorem finalComponent_cases (path : String) :
    ('/' ∉ path.toList ∧ finalComponent path = path.toList) ∨
      ∃ dir, path.toList = dir ++ '/' :: finalComponent path ∧ '/' ∉ finalComponent path := by
  by_cases h : '/' ∈ path.toList
  · obtain ⟨dir, last, hpath, hlast⟩ := exists_last h
    have hfinal : finalComponent path = last := by
      rw [finalComponent, hpath, rsplitOnce_append hlast]
      rfl
    exact .inr ⟨dir, by rw [hfinal, hpath], hfinal ▸ hlast⟩
  · refine .inl ⟨h, ?_⟩
    rw [finalComponent, rsplitOnce_of_notMem h]
    rfl

theorem slash_notMem_finalComponent (path : String) : '/' ∉ finalComponent path := by
  rcases finalComponent_cases path with ⟨hslash, hfinal⟩ | ⟨dir, -, hslash⟩
  · rw [hfinal]
    exact hslash
  · exact hslash

/-- A path ends with its last component. -/
theorem finalComponent_suffix (path : String) : finalComponent path <:+ path.toList := by
  rcases finalComponent_cases path with ⟨-, hfinal⟩ | ⟨dir, hpath, -⟩
  · rw [hfinal]
  · rw [hpath]
    exact ⟨dir ++ ['/'], by rw [List.append_assoc]; rfl⟩

/-- **A dot in the last component** is found from the whole path as well. -/
theorem rsplitOnce_of_dot_mem (h : '.' ∈ finalComponent path) :
    ∃ front front' ext, rsplitOnce '.' (finalComponent path) = some (front, ext) ∧
      rsplitOnce '.' path.toList = some (front', ext) ∧ '/' ∉ ext := by
  obtain ⟨front, ext, hfinal, hext⟩ := exists_last h
  obtain ⟨dir, hpath⟩ := finalComponent_suffix path
  refine ⟨front, dir ++ front, ext, ?_, ?_, ?_⟩
  · rw [hfinal, rsplitOnce_append hext]
  · rw [← hpath, hfinal, ← List.append_assoc, rsplitOnce_append hext]
  · intro hslash
    refine slash_notMem_finalComponent path ?_
    rw [hfinal]
    exact List.mem_append_right _ (List.mem_cons_of_mem _ hslash)

/-- **A dot of a directory only** is followed by a separator. -/
theorem rsplitOnce_of_dot_notMem (h : '.' ∈ path.toList) (hfinal : '.' ∉ finalComponent path) :
    ∃ front ext, rsplitOnce '.' path.toList = some (front, ext) ∧ '/' ∈ ext := by
  rcases finalComponent_cases path with ⟨-, heq⟩ | ⟨dir, hpath, -⟩
  · rw [heq] at hfinal
    exact absurd h hfinal
  · have hdir : '.' ∈ dir := by
      rw [hpath] at h
      rcases List.mem_append.mp h with hmem | hmem
      · exact hmem
      · rcases List.mem_cons.mp hmem with hdot | hmem
        · exact absurd hdot (by decide)
        · exact absurd hmem hfinal
    obtain ⟨front, rest, rfl, hrest⟩ := exists_last hdir
    refine ⟨front, rest ++ '/' :: finalComponent path, ?_, by simp⟩
    rw [hpath, List.append_assoc, List.cons_append]
    refine rsplitOnce_append fun hmem => ?_
    rcases List.mem_append.mp hmem with hmem | hmem
    · exact hrest hmem
    · rcases List.mem_cons.mp hmem with hdot | hmem
      · exact absurd hdot (by decide)
      · exact hfinal hmem

/-- The characters of a name. -/
theorem toList_name (fdid : UInt32) (ext : String) :
    (s!"{fdid}.{ext}").toList = Nat.toDigits 10 fdid.toNat ++ '.' :: ext.toList := by
  have hfdid : (toString fdid).toList = Nat.toDigits 10 fdid.toNat := Nat.toList_repr
  rw [String.toList_append]
  simp only [String.toList_append, hfdid]
  simp [toString]

/-- A name begins with a digit. -/
theorem head?_name (fdid : UInt32) (ext : String) : (s!"{fdid}.{ext}").toList.head? ≠ some '.' := by
  intro h
  rw [toList_name, List.head?_append_of_ne_nil _ Nat.toDigits_ne_nil] at h
  exact WriteToPath.notMem_toDigits (by decide) _ (List.mem_of_mem_head? h)

/-- **A name is one file name**, if its extension has no separator: it begins with a digit. -/
def nameFile (fdid : UInt32) (ext : String) (h : '/' ∉ ext.toList) : FileName where
  bytes := osString s!"{fdid}.{ext}"
  ne_nil := by
    intro hnil
    have hname : s!"{fdid}.{ext}" = "" := osString_injective hnil
    have hchars := congrArg String.toList hname
    rw [toList_name] at hchars
    simp at hchars
  sep_notMem := by
    refine WriteToPath.sep_notMem_osString ?_
    rw [toList_name]
    simp [WriteToPath.notMem_toDigits, h]
  ne_dot := by
    intro hdot
    have hname : s!"{fdid}.{ext}" = "." := osString_injective (hdot.trans (by decide +kernel))
    exact head?_name fdid ext (by rw [hname]; rfl)
  ne_dotdot := by
    intro hdots
    have hname : s!"{fdid}.{ext}" = ".." := osString_injective (hdots.trans (by decide +kernel))
    exact head?_name fdid ext (by rw [hname]; rfl)

/-- The file of such a name is in the directory. -/
theorem parent_join_name (fdid : UInt32) {ext : String} (h : '/' ∉ ext.toList)
    (outputDir : PathBuf) :
    (outputDir.join (.ofStr s!"{fdid}.{ext}")).parent = some outputDir ∧
      (outputDir.join (.ofStr s!"{fdid}.{ext}")).fileName = some (nameFile fdid ext h) := by
  have hone : (PathBuf.ofStr s!"{fdid}.{ext}").components = [.normal (nameFile fdid ext h)] :=
    PathBuf.ofOs_fileName (nameFile fdid ext h)
  refine PathBuf.parent_of_components ?_
  rw [PathBuf.join_components_of_isInner, hone]
  intro c hc
  rw [hone, List.mem_singleton] at hc
  rw [hc]
  rfl

/-- The extension that is found, and the one that is meant. -/
theorem extension_eq (h : ∀ path ∈ found, '.' ∈ path.toList → '.' ∈ finalComponent path) :
    (found.bind extensionFromListfilePath).getD "dat" =
        (found.bind fun path => (rsplitOnce '.' (finalComponent path)).map fun parts =>
          String.ofList parts.2).getD "dat" ∧
      '/' ∉ ((found.bind extensionFromListfilePath).getD "dat").toList := by
  cases found with
  | none => exact ⟨rfl, by decide⟩
  | some path =>
    rw [Option.bind_some, Option.bind_some, extensionFromListfilePath]
    by_cases hdot : '.' ∈ path.toList
    · obtain ⟨front, front', ext, hfinal, hpath, hslash⟩ := rsplitOnce_of_dot_mem (h path rfl hdot)
      rw [hfinal, hpath]
      refine ⟨rfl, ?_⟩
      rw [Option.map_some, Option.getD_some, String.toList_ofList]
      exact hslash
    · have hfinal : '.' ∉ finalComponent path := fun hmem =>
        hdot ((finalComponent_suffix path).subset hmem)
      rw [rsplitOnce_of_notMem hdot, rsplitOnce_of_notMem hfinal]
      exact ⟨rfl, by decide⟩

/-- **The name below the directory**: if only directories have dots, the name has a separator. -/
theorem slash_mem_of_dotted (hdot : '.' ∈ path.toList) (hfinal : '.' ∉ finalComponent path) :
    '/' ∈ (filenameOf fdid (some path)).toList := by
  obtain ⟨front, ext, hpath, hslash⟩ := rsplitOnce_of_dot_notMem hdot hfinal
  rw [filenameOf, toList_name, Option.bind_some, extensionFromListfilePath, hpath,
    Option.map_some, Option.getD_some, String.toList_ofList]
  exact List.mem_append_right _ (List.mem_cons_of_mem _ hslash)

theorem flat_of_dot_mem (h : ∀ path ∈ found, '.' ∈ path.toList → '.' ∈ finalComponent path) :
    Flat outputDir fdid found := by
  obtain ⟨hext, hslash⟩ := extension_eq h
  have hname : filenameOf fdid found = expectedName fdid found := by
    rw [filenameOf, expectedName, hext]
  obtain ⟨hparent, hfile⟩ := parent_join_name fdid hslash outputDir
  refine ⟨hname, ?_, hparent, ?_⟩
  · rw [filenameOf, toList_name]
    simp [WriteToPath.notMem_toDigits, hslash]
  · rw [← hname]
    exact congrArg (Option.map FileName.bytes) hfile

end Names

/-! ### What is written -/

section Runs

variable {process : Process} {fdid : UInt32} {outputDir : PathBuf}
  {B : (q : CascQuery) → q.Answer → Prop}

/-- **The only file that is written** is the one of the name, for the path that the listfile
has answered. -/
theorem mayAsk_extractFdid {path : PathBuf} {data : List UInt8}
    (h : (extractFdid process fdid outputDir).run.MayAsk B (.outside (.writeToPath path data))) :
    ∃ found, B (.outside (.lookupFdid fdid)) found ∧ path = outPath outputDir fdid found := by
  simp only [extractFdid, resolveFilename, mayAsk_ok_bind_iff, mayAsk_ofInstall, mayAsk_inquire,
    yields_ofInstall, yields_ok_bind_iff, yields_inquire, yields_pure] at h
  rcases h with ⟨q, hq, rfl | ⟨_, -, hnone⟩⟩ |
    ⟨_, ⟨found, hfound, rfl⟩, ⟨q, hq, rfl⟩ | ⟨present, -, h⟩⟩
  · cases hq
  · exact absurd hnone mayAsk_pure
  · cases hq
  · refine ⟨found, hfound, ?_⟩
    by_cases hpresent : present = true
    · rw [if_pos hpresent] at h
      exact absurd h mayAsk_pure
    · rw [if_neg hpresent] at h
      simp only [mayAsk_ok_bind_iff, mayAsk_settled, false_or] at h
      obtain ⟨-, -, h | ⟨_, -, hnone⟩⟩ := h
      · exact assetPath?_extractFdidToPathWithPaths h path rfl
      · exact absurd hnone mayAsk_pure

/-- **The file that is returned** is that one as well. -/
theorem yields_extractFdid {file : ExtractedFile}
    (h : (extractFdid process fdid outputDir).run.Yields B (.ok (some file))) :
    ∃ found, B (.outside (.lookupFdid fdid)) found ∧ file.path = outPath outputDir fdid found := by
  simp only [extractFdid, resolveFilename, yields_ofInstall, yields_ok_bind_iff, yields_inquire,
    yields_pure] at h
  obtain ⟨_, ⟨found, hfound, rfl⟩, present, -, h⟩ := h
  refine ⟨found, hfound, ?_⟩
  by_cases hpresent : present = true
  · rw [if_pos hpresent, yields_pure] at h
    cases h
  · rw [if_neg hpresent] at h
    simp only [yields_ok_bind_iff, yields_pure] at h
    obtain ⟨_, -, extracted, hextracted, hfile⟩ := h
    rw [← Option.some.inj hfile]
    exact (yields_extractFdidToPathWithPaths hextracted).1

end Runs

/-- **The files lie flat, unless only directories have dots.** The file that is written, and
the one that is returned, is the one that the name and the directory say, for the path that the
listfile has answered; and it lies flat in the directory if and only if there is no path, or no
dot in it, or one in its last component. -/
theorem flat_iff (outputDir : PathBuf) (fdid : UInt32) (found : Option String) :
    (Flat outputDir fdid found ↔
      ∀ path ∈ found, '.' ∈ path.toList → '.' ∈ finalComponent path) ∧
    ∀ (process : Process) (B : (q : CascQuery) → q.Answer → Prop),
      (∀ answer, B (.outside (.lookupFdid fdid)) answer → answer = found) →
      (∀ path data, (extractFdid process fdid outputDir).run.MayAsk B
        (.outside (.writeToPath path data)) → path = outPath outputDir fdid found) ∧
      ∀ file, (extractFdid process fdid outputDir).run.Yields B (.ok (some file)) →
        file.path = outPath outputDir fdid found := by
  constructor
  · constructor
    · rintro hflat path rfl hdot
      by_contra hfinal
      exact hflat.no_separator (slash_mem_of_dotted hdot hfinal)
    · exact flat_of_dot_mem
  · intro process B hanswer
    constructor
    · intro path data h
      obtain ⟨answer, hlookup, rfl⟩ := mayAsk_extractFdid h
      rw [hanswer answer hlookup]
    · intro file h
      obtain ⟨answer, hlookup, hpath⟩ := yields_extractFdid h
      rw [hpath, hanswer answer hlookup]

/-- **A directory with a version in its name** and a file without an extension: the file is
written to another directory. -/
theorem dotted_directory :
    filenameOf 7 (some "world.v2/readme") = "7.v2/readme" ∧
    expectedName 7 (some "world.v2/readme") = "7.dat" ∧
    outPath (.ofStr "out") 7 (some "world.v2/readme") = .ofStr "out/7.v2/readme" ∧
    ¬Flat (.ofStr "out") 7 (some "world.v2/readme") := by
  refine ⟨by decide +kernel, by decide +kernel, by decide +kernel, ?_⟩
  rintro ⟨hname, -, -, -⟩
  exact absurd hname (by decide +kernel)

end CascLocal

end AssetResolver
