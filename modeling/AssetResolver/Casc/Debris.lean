import AssetResolver.Casc.WriteToPath

/-!
# What a failed write leaves behind

One call of `write_to_path` from any file system, with a failure wherever it may come: of a
directory, of the temporary file, of a write after any number of bytes, of the rename.

The temporary file is removed after a failed rename, and **only then**: when
`std::fs::write` fails half way, the disk being full, it stays
(`AssetResolver.WriteToPath.failed_write_leaves_temporary`). And a destination that is reached
through `..` may be made a directory on the way to itself. A call that does neither leaves
nothing (`AssetResolver.WriteToPath.noDebris_iff`): until the rename the file system has grown
by directories, and else is as it was but for the temporary place
(`AssetResolver.WriteToPath.Progress`).
-/

namespace AssetResolver

namespace WriteToPath

variable {ι τ : Type}

/-! ### A call on its own -/

/-- An event of a thread in a call. -/
def Event.IsOf (t : ι × τ) : Event ι τ → Prop
  | .step t' => t' = t
  | .write t' _ => t' = t
  | .fail t' _ => t' = t
  | _ => False

/-- Where the temporary file of a call with a number is. -/
def Process.temporaryPlace (process : Process) (outPath : PathBuf) (number : UInt64) :
    Option (List FileName) :=
  outPath.parent.bind fun parent =>
    outPath.fileName.map fun name =>
      process.resolve parent ++ [temporaryFile name process.pid number]

theorem Job.temporaryPlace_outPath (job : Job) (process : Process) (number : UInt64) :
    process.temporaryPlace job.outPath number = some (job.temporaryPlace process number) := by
  rw [Process.temporaryPlace, job.parent_eq, job.name_eq]
  rfl

/-- **What is expected of a call** with a result, from one file system to another: a failed one
leaves the destination as it was and no new file in its directory, and one that returns `Ok`
has written the destination and left no temporary file. -/
structure NoDebris (process : Process) (outPath : PathBuf) (data : List UInt8) (number : UInt64)
    (fs₀ fs : FileSystem FileName) (result : Except String Unit) : Prop where
  destination : ∀ e, result = .error e → ∀ p, process.place outPath = some p →
    fs.look p = fs₀.look p
  directory : ∀ e, result = .error e → ∀ parent, outPath.parent = some parent →
    ∀ name contents, fs.look (process.resolve parent ++ [name]) = some (.file contents) →
      ∃ contents', fs₀.look (process.resolve parent ++ [name]) = some (.file contents')
  written : result = .ok () → ∃ p, process.place outPath = some p ∧
    fs.look p = some (.file data)
  removed : result = .ok () → ∀ p, process.temporaryPlace outPath number = some p →
    fs.look p = none

/-- A write fails, and the temporary file was not there before the call. -/
def LeavesTemporary (process : Process) (fs₀ : FileSystem FileName) (t : ι × τ)
    (s : State ι τ) (e : Event ι τ) : Prop :=
  ∃ error job number inode written, e = .fail t error ∧
    s.pc t = .writing job number inode written ∧
    ∀ i, fs₀.node (job.temporaryPlace process number) ≠ some (.file i)

/-- The destination is made a directory on the way to it. -/
def MakesDestination (process : Process) (t : ι × τ) (s : State ι τ) (e : Event ι τ) : Prop :=
  ∃ call dir dirs fs, e = .step t ∧ s.pc t = .making call (dir :: dirs) ∧
    process.place call.outPath = some (process.resolve dir) ∧
    s.fs.makeDir (process.resolve dir) = .ok fs

/-- The removal of the temporary file fails. -/
def RemovalFails (t : ι × τ) (s : State ι τ) (e : Event ι τ) : Prop :=
  ∃ error job number cause, e = .fail t error ∧ s.pc t = .removing job number cause

/-! ### How far a call has come -/

/-- A place is as it was, or a directory was made there. -/
def Grown (fs₀ fs : FileSystem FileName) (p : List FileName) : Prop :=
  fs₀.Keeps fs p ∨ fs₀.node p = none ∧ fs.node p = some .dir

/-- Nothing but directories was made, and the destination is as it was. -/
def Untouched (process : Process) (outPath : PathBuf) (fs₀ fs : FileSystem FileName)
    (p : List FileName) : Prop :=
  Grown fs₀ fs p ∧ (process.place outPath = some p → fs₀.Keeps fs p)

/-- **How far a call has come**, by where its thread is: `n` is its number, and `next` the
next number of its process. -/
def Progress (process : Process) (outPath : PathBuf) (data : List UInt8) (n : UInt64)
    (fs₀ fs : FileSystem FileName) (next : UInt64) : Pc → Prop
  | .making call _ => call.outPath = outPath ∧ call.data = data ∧ next = n ∧
      ∀ p, Untouched process outPath fs₀ fs p
  | .numbering job => job.outPath = outPath ∧ job.data = data ∧ next = n ∧
      ∀ p, Untouched process outPath fs₀ fs p
  | .opening job number => job.outPath = outPath ∧ job.data = data ∧ number = n ∧
      ∀ p, Untouched process outPath fs₀ fs p
  | .writing job number inode written => job.outPath = outPath ∧ job.data = data ∧ number = n ∧
      (∀ p, p ≠ job.temporaryPlace process n → Untouched process outPath fs₀ fs p) ∧
      (Pc.writing job number inode written).Sound process fs
  | .replacing job number => job.outPath = outPath ∧ job.data = data ∧ number = n ∧
      (∀ p, p ≠ job.temporaryPlace process n → Untouched process outPath fs₀ fs p) ∧
      fs.look (job.temporaryPlace process n) = some (.file data)
  | .removing job number _ => job.outPath = outPath ∧ job.data = data ∧ number = n ∧
      (∀ p, p ≠ job.temporaryPlace process n → Untouched process outPath fs₀ fs p) ∧
      fs.look (job.temporaryPlace process n) = some (.file data)
  | .done (.ok _) => (∃ p, process.place outPath = some p ∧ fs.look p = some (.file data)) ∧
      ∀ p, process.temporaryPlace outPath n = some p → fs.look p = none
  | .done (.error _) => ∀ p, (process.place outPath = some p → fs₀.Keeps fs p) ∧
      (Grown fs₀ fs p ∨ fs.node p = none ∨ ∃ i, fs₀.node p = some (.file i))
  | _ => False

/-- **The temporary file is not the destination**: its name is longer. -/
theorem temporaryFile_ne (name : FileName) (pid : UInt32) (number : UInt64) :
    temporaryFile name pid number ≠ name := by
  intro h
  -- a name that is a text is shown as it is
  have hbytes : osString (temporaryName name pid number) = name.bytes := by
    rw [← bytes_temporaryFile, h]
  have hshown : (toStringLossy name.bytes).toList = (temporaryName name pid number).toList := by
    rw [← hbytes, toStringLossy_osString]
  have hlength := congrArg List.length (toList_temporaryName name pid number)
  rw [← hshown] at hlength
  simp only [List.length_append, List.length_cons] at hlength
  omega

theorem Job.temporaryPlace_ne_destination (job : Job) (process : Process) (number : UInt64) :
    job.temporaryPlace process number ≠ job.destination process := by
  intro h
  obtain ⟨-, hlast⟩ := List.append_inj' h (by simp)
  exact temporaryFile_ne job.name process.pid number (List.cons.inj hlast).1

/-! ### One step of the call -/

section Steps

variable {process : Process} {outPath : PathBuf} {data : List UInt8} {n : UInt64}
  {fs₀ fs fs' : FileSystem FileName} {next next' : UInt64} {job : Job} {p : List FileName}

theorem Untouched.refl (fs : FileSystem FileName) (p : List FileName) :
    Untouched process outPath fs fs p :=
  ⟨Or.inl (FileSystem.Keeps.refl fs p), fun _ => FileSystem.Keeps.refl fs p⟩

theorem keeps_trans {fs'' : FileSystem FileName} (h : fs.Keeps fs' p) (h' : fs'.Keeps fs'' p) :
    fs.Keeps fs'' p :=
  ⟨h'.node.trans h.node, fun i hi => (h'.data i (h.node.trans hi)).trans (h.data i hi)⟩

/-- What an operation leaves alone is as it was before. -/
theorem Untouched.keeps (h : Untouched process outPath fs₀ fs p) (hkeeps : fs.Keeps fs' p) :
    Untouched process outPath fs₀ fs' p := by
  refine ⟨?_, fun hp => keeps_trans (h.2 hp) hkeeps⟩
  rcases h.1 with hold | ⟨hnone, hdir⟩
  · exact Or.inl (keeps_trans hold hkeeps)
  · exact Or.inr ⟨hnone, hkeeps.node.trans hdir⟩

/-- Making a directory elsewhere than at the destination. -/
theorem untouched_makeDir (h : ∀ p, Untouched process outPath fs₀ fs p) {dir : List FileName}
    (hfs : fs.makeDir dir = .ok fs') (hdest : process.place outPath ≠ some dir) :
    ∀ p, Untouched process outPath fs₀ fs' p := by
  obtain ⟨hnone, hdir, hkeep⟩ := FileSystem.makeDir_eq hfs
  intro p
  by_cases hp : p = dir
  · subst hp
    refine ⟨?_, fun hplace => absurd hplace hdest⟩
    rcases (h p).1 with hold | ⟨-, hmade⟩
    · exact Or.inr ⟨hold.node.symm.trans hnone, hdir⟩
    · rw [hnone] at hmade
      cases hmade
  · exact (h p).keeps (hkeep p hp)

/-- A call that fails before it has a temporary file leaves nothing. -/
theorem progress_failed (h : ∀ p, Untouched process outPath fs₀ fs p) (e : String) :
    Progress process outPath data n fs₀ fs next (.done (.error e)) :=
  fun p => ⟨(h p).2, Or.inl (h p).1⟩

theorem progress_begin (fs : FileSystem FileName) (next : UInt64) :
    Progress process outPath data next fs fs next (begin outPath data) := by
  unfold begin
  split
  · exact progress_failed (Untouched.refl fs) _
  · exact ⟨rfl, rfl, rfl, Untouched.refl fs⟩

theorem progress_findName {call : Call}
    (h : Progress process outPath data n fs₀ fs next (.making call [])) :
    Progress process outPath data n fs₀ fs next (findName call) := by
  obtain ⟨hpath, hdata, hnext, hall⟩ := h
  unfold findName
  split
  · exact progress_failed hall _
  · exact ⟨hpath, hdata, hnext, hall⟩

theorem progress_create (h : Progress process outPath data n fs₀ fs next (.opening job n))
    {inode : ℕ} (hfs : fs.create (job.temporaryPlace process n) = .ok (fs', inode)) :
    Progress process outPath data n fs₀ fs' next' (.writing job n inode 0) := by
  obtain ⟨hpath, hdata, -, hall⟩ := h
  obtain ⟨hnode, hempty, hkeep⟩ := FileSystem.create_eq hfs
  exact ⟨hpath, hdata, rfl, fun p hp => (hall p).keeps (hkeep p hp), Nat.zero_le _, hnode, hempty⟩

theorem progress_write {inode written count : ℕ}
    (h : Progress process outPath data n fs₀ fs next (.writing job n inode written))
    (hcount : written + count ≤ job.data.length) :
    Progress process outPath data n fs₀
      (fs.writeAt inode written ((job.data.drop written).take count)) next'
      (.writing job n inode (written + count)) := by
  obtain ⟨hpath, hdata, -, hall, hle, hnode, hcontents⟩ := h
  refine ⟨hpath, hdata, rfl, fun p hp => (hall p hp).keeps ?_, hcount, hnode, ?_⟩
  · exact FileSystem.keeps_writeAt fun hp' => hp (fs.one_place _ _ _ hp' hnode)
  · show Function.update fs.data inode _ inode = _
    rw [Function.update_self, hcontents]
    exact overwrite_take job.data written count hle

theorem progress_close {inode : ℕ}
    (h : Progress process outPath data n fs₀ fs next (.writing job n inode job.data.length)) :
    Progress process outPath data n fs₀ fs next' (.replacing job n) := by
  obtain ⟨hpath, hdata, -, hall, -, hnode, hcontents⟩ := h
  refine ⟨hpath, hdata, rfl, hall, ?_⟩
  rw [FileSystem.look_of_file hnode, hcontents, List.take_length, hdata]

/-- **A write that fails leaves nothing new if the temporary file was there before.** -/
theorem progress_writeFailed {inode written : ℕ} {e : String} {i : ℕ}
    (h : Progress process outPath data n fs₀ fs next (.writing job n inode written))
    (hbefore : fs₀.node (job.temporaryPlace process n) = some (.file i)) :
    Progress process outPath data n fs₀ fs next' (.done (.error e)) := by
  obtain ⟨rfl, -, -, hall, -⟩ := h
  intro p
  by_cases hp : p = job.temporaryPlace process n
  · subst hp
    refine ⟨fun hplace => ?_, Or.inr (Or.inr ⟨i, hbefore⟩)⟩
    rw [job.place_outPath] at hplace
    exact absurd (Option.some.inj hplace).symm (job.temporaryPlace_ne_destination process n)
  · exact ⟨(hall p hp).2, Or.inl (hall p hp).1⟩

theorem progress_rename (h : Progress process outPath data n fs₀ fs next (.replacing job n))
    (hfs : fs.rename (job.temporaryPlace process n) (job.destination process) = .ok fs') :
    Progress process outPath data n fs₀ fs' next' (.done (.ok ())) := by
  obtain ⟨rfl, rfl, -, -, hlook⟩ := h
  obtain ⟨i, htemp, hnew, hdata, hgone, -⟩ := FileSystem.rename_eq hfs
  rw [FileSystem.look_of_file htemp] at hlook
  refine ⟨⟨job.destination process, job.place_outPath process, ?_⟩, fun p hp => ?_⟩
  · rw [FileSystem.look_of_file hnew, hdata, hlook]
  · rw [job.temporaryPlace_outPath] at hp
    obtain rfl := Option.some.inj hp
    rw [FileSystem.look, hgone (job.temporaryPlace_ne_destination process n)]
    rfl

/-- **After a failed rename the temporary file is removed.** -/
theorem progress_remove {cause e : String}
    (h : Progress process outPath data n fs₀ fs next (.removing job n cause))
    (hfs : fs.removeFile (job.temporaryPlace process n) = .ok fs') :
    Progress process outPath data n fs₀ fs' next' (.done (.error e)) := by
  obtain ⟨rfl, -, -, hall, -⟩ := h
  obtain ⟨hnone, hkeep⟩ := FileSystem.removeFile_eq hfs
  intro p
  by_cases hp : p = job.temporaryPlace process n
  · subst hp
    refine ⟨fun hplace => ?_, Or.inr (Or.inl hnone)⟩
    rw [job.place_outPath] at hplace
    exact absurd (Option.some.inj hplace).symm (job.temporaryPlace_ne_destination process n)
  · have hp' := (hall p hp).keeps (hkeep p hp)
    exact ⟨hp'.2, Or.inl hp'.1⟩

/-- The temporary file can be removed. -/
theorem removeFile_of_look {contents : List UInt8} (h : fs.look p = some (.file contents)) :
    ∃ fs', fs.removeFile p = .ok fs' := by
  obtain ⟨i, hnode, -⟩ := FileSystem.exists_of_look h
  exact ⟨fs.remove p, by rw [FileSystem.removeFile, hnode]⟩

end Steps

section Machine

variable [DecidableEq ι] [DecidableEq τ] {process : ι → Process} {s s' : State ι τ} {t : ι × τ}
  {outPath : PathBuf} {data : List UInt8} {n : UInt64} {fs₀ : FileSystem FileName}

/-- How far the call of a thread has come. -/
def Advances (process : ι → Process) (outPath : PathBuf) (data : List UInt8) (n : UInt64)
    (fs₀ : FileSystem FileName) (t : ι × τ) (s : State ι τ) : Prop :=
  Progress (process t.1) outPath data n fs₀ s.fs (s.nextTemporary t.1) (s.pc t)

theorem advances_change {fs : FileSystem FileName} {pc : Pc}
    (h : Progress (process t.1) outPath data n fs₀ fs (s.nextTemporary t.1) pc) :
    Advances process outPath data n fs₀ t (s.change t fs pc) := by
  have hpc : (s.change t fs pc).pc t = pc := Function.update_self _ _ _
  unfold Advances
  rw [hpc]
  exact h

theorem advances_goto {pc : Pc}
    (h : Progress (process t.1) outPath data n fs₀ s.fs (s.nextTemporary t.1) pc) :
    Advances process outPath data n fs₀ t (s.goto t pc) :=
  advances_change h

omit [DecidableEq ι] [DecidableEq τ] in
/-- How far it has come is a matter of where it is. -/
theorem Advances.progress (h : Advances process outPath data n fs₀ t s) {pc : Pc}
    (hpc : s.pc t = pc) : Progress (process t.1) outPath data n fs₀ s.fs (s.nextTemporary t.1) pc :=
  hpc ▸ h

/-- **Every step of the call goes on as it should.** -/
theorem advances_step (h : Advances process outPath data n fs₀ t s) {e : Event ι τ}
    (hof : e.IsOf t) (hleave : ¬LeavesTemporary (process t.1) fs₀ t s e)
    (hmake : ¬MakesDestination (process t.1) t s e) (hremoval : ¬RemovalFails t s e)
    (hstep : step process s e = some s') : Advances process outPath data n fs₀ t s' := by
  cases transition_of_step hstep with
  | call | crash => exact hof.elim
  | @makeDir t' call dir dirs fs hpc hfs =>
    obtain rfl : t' = t := hof
    obtain ⟨rfl, rfl, hnext, hall⟩ := h.progress hpc
    refine advances_change ⟨rfl, rfl, hnext, untouched_makeDir hall hfs fun hdest => ?_⟩
    exact hmake ⟨call, dir, dirs, fs, rfl, hpc, hdest, hfs⟩
  | @foundDir t' call dir dirs hpc =>
    obtain rfl : t' = t := hof
    obtain ⟨rfl, rfl, hnext, hall⟩ := h.progress hpc
    exact advances_goto ⟨rfl, rfl, hnext, hall⟩
  | @makeDirFails t' _ _ _ hpc | @failMakeDir t' _ _ _ hpc | @createFails t' _ _ _ hpc
  | @failCreate t' _ _ _ hpc =>
    obtain rfl : t' = t := hof
    obtain ⟨-, -, -, hall⟩ := h.progress hpc
    exact advances_goto (progress_failed hall _)
  | @findName t' call hpc =>
    obtain rfl : t' = t := hof
    exact advances_goto (progress_findName (h.progress hpc))
  | @fetchAdd t' job hpc =>
    obtain rfl : t' = t := hof
    obtain ⟨hpath, hdata, hnext, hall⟩ := h.progress hpc
    have hopening : (s.goto t' (.opening job (s.nextTemporary t'.1))).pc t' =
        .opening job (s.nextTemporary t'.1) := Function.update_self _ _ _
    unfold Advances
    dsimp only
    rw [hopening]
    exact ⟨hpath, hdata, hnext, hall⟩
  | @create t' job number fs inode hpc hfs =>
    obtain rfl : t' = t := hof
    obtain ⟨-, -, rfl, -⟩ := h.progress hpc
    exact advances_change (progress_create (h.progress hpc) hfs)
  | @write t' job number inode written count hpc hcount =>
    obtain rfl : t' = t := hof
    obtain ⟨-, -, rfl, -⟩ := h.progress hpc
    exact advances_change (progress_write (h.progress hpc) hcount)
  | @failWrite t' job number inode written error hpc =>
    obtain rfl : t' = t := hof
    obtain ⟨-, -, rfl, -⟩ := h.progress hpc
    -- the write may fail only if the temporary file was there before
    obtain ⟨i, hi⟩ : ∃ i, fs₀.node (job.temporaryPlace (process t'.1) number) =
        some (.file i) := by
      by_contra hnone
      exact hleave ⟨error, job, number, inode, written, rfl, hpc, fun i hi => hnone ⟨i, hi⟩⟩
    exact advances_goto (progress_writeFailed (h.progress hpc) hi)
  | @close t' job number inode hpc =>
    obtain rfl : t' = t := hof
    obtain ⟨-, -, rfl, -⟩ := h.progress hpc
    exact advances_goto (progress_close (h.progress hpc))
  | @rename t' job number fs hpc hfs =>
    obtain rfl : t' = t := hof
    obtain ⟨-, -, rfl, -⟩ := h.progress hpc
    exact advances_change (progress_rename (h.progress hpc) hfs)
  | @renameFails t' job number error hpc | @failRename t' job number error hpc =>
    obtain rfl : t' = t := hof
    obtain ⟨hpath, hdata, rfl, hall, hlook⟩ := h.progress hpc
    exact advances_goto ⟨hpath, hdata, rfl, hall, hlook⟩
  | @remove t' job number cause fs hpc hfs =>
    obtain rfl : t' = t := hof
    obtain ⟨-, -, rfl, -⟩ := h.progress hpc
    exact advances_change (progress_remove (h.progress hpc) hfs)
  | @removeFails t' job number cause e' hpc hfs =>
    obtain rfl : t' = t := hof
    obtain ⟨-, -, rfl, -, hlook⟩ := h.progress hpc
    obtain ⟨fs, hremoved⟩ := removeFile_of_look hlook
    rw [hremoved] at hfs
    cases hfs
  | @failRemove t' job number cause error hpc =>
    obtain rfl : t' = t := hof
    exact absurd ⟨error, job, number, cause, rfl, hpc⟩ hremoval

/-- **Steps of the call that leave nothing** go on as they should, however many they are. -/
theorem advances_run {events : List (Event ι τ)} (h : Advances process outPath data n fs₀ t s)
    (hof : ∀ e ∈ events, e.IsOf t)
    (hguarded : Runs.Guarded (step process) (fun u e => ¬LeavesTemporary (process t.1) fs₀ t u e ∧
      ¬MakesDestination (process t.1) t u e) s events)
    (hremoval : Runs.Guarded (step process) (fun u e => ¬RemovalFails t u e) s events)
    (hrun : Runs.run (step process) s events = some s') :
    Advances process outPath data n fs₀ t s' := by
  have hadvances : ∀ u e u', Advances process outPath data n fs₀ t u →
      (e.IsOf t ∧ (¬LeavesTemporary (process t.1) fs₀ t u e ∧
        ¬MakesDestination (process t.1) t u e) ∧ ¬RemovalFails t u e) →
      step process u e = some u' → Advances process outPath data n fs₀ t u' :=
    fun u e u' hu he hstep => advances_step hu he.1 he.2.1.1 he.2.1.2 he.2.2 hstep
  exact Runs.invariant_of_guarded _ hadvances h
    ((Runs.guarded_of_forall_mem (fun e he _ => hof e he) s).and (hguarded.and hremoval)) hrun

/-- The beginning of a call. -/
theorem advances_call (hstep : step process s (.call t outPath data) = some s') :
    s'.fs = s.fs ∧ Advances process outPath data (s.nextTemporary t.1) s.fs t s' := by
  cases transition_of_step hstep with
  | call => exact ⟨rfl, advances_goto (progress_begin _ _)⟩

omit [DecidableEq ι] [DecidableEq τ] in
/-- **What a call leaves that has come to its end as it should.** -/
theorem noDebris_of_advances {result : Except String Unit}
    (h : Advances process outPath data n fs₀ t s) (hdone : s.pc t = .done result) :
    NoDebris (process t.1) outPath data n fs₀ s.fs result := by
  unfold Advances at h
  rw [hdone] at h
  rcases result with e | ⟨⟩
  · refine ⟨fun _ _ p hp => ((h p).1 hp).look, ?_, fun hok => absurd hok ?_,
      fun hok => absurd hok ?_⟩
    · intro _ _ parent _ name contents hlook
      obtain ⟨i, hi, -⟩ := FileSystem.exists_of_look hlook
      rcases (h _).2 with (hkeeps | ⟨-, hdir⟩) | hnone | ⟨j, hj⟩
      · exact ⟨contents, hkeeps.look.symm.trans hlook⟩
      · rw [hi] at hdir
        cases hdir
      · rw [hi] at hnone
        cases hnone
      · exact ⟨_, FileSystem.look_of_file hj⟩
    · rintro ⟨⟩
    · rintro ⟨⟩
  · refine ⟨fun e herror => absurd herror ?_, fun e herror => absurd herror ?_, fun _ => h.1,
      fun _ => h.2⟩
    · rintro ⟨⟩
    · rintro ⟨⟩

/-! ### The two ways to leave something -/

/-- After its end a thread does nothing more of the call. -/
theorem run_of_done {result : Except String Unit} {events : List (Event ι τ)}
    (hdone : s.pc t = .done result) (hof : ∀ e ∈ events, e.IsOf t)
    (hrun : Runs.run (step process) s events = some s') : s' = s := by
  cases events with
  | nil =>
    cases hrun
    rfl
  | cons e events =>
    obtain ⟨u, hstep, -⟩ := Runs.run_cons_eq_some.mp hrun
    have hof := hof e List.mem_cons_self
    cases e with
    | call t' outPath data => exact hof.elim
    | step t' =>
      obtain rfl : t' = t := hof
      rw [step, stepThread, hdone] at hstep
      cases hstep
    | write t' count =>
      obtain rfl : t' = t := hof
      rw [step, hdone] at hstep
      cases hstep
    | fail t' error =>
      obtain rfl : t' = t := hof
      rw [step, failThread, hdone] at hstep
      cases hstep
    | crash i => exact hof.elim

/-- **A write that fails leaves its temporary file behind.** -/
theorem not_noDebris_of_leaves {result : Except String Unit} {u : State ι τ} {e : Event ι τ}
    {back : List (Event ι τ)} (h : Advances process outPath data n fs₀ t u)
    (hleaves : LeavesTemporary (process t.1) fs₀ t u e) (hof : ∀ e ∈ back, e.IsOf t)
    (hrun : Runs.run (step process) u (e :: back) = some s) (hdone : s.pc t = .done result) :
    ¬NoDebris (process t.1) outPath data n fs₀ s.fs result := by
  obtain ⟨error, job, number, inode, written, rfl, hpc, hnew⟩ := hleaves
  obtain ⟨u', hstep, hrest⟩ := Runs.run_cons_eq_some.mp hrun
  rw [step, failThread, hpc] at hstep
  cases hstep
  have hdone' := Function.update_self t
    (Pc.done (.error (writeError job (process t.1).pid number error))) u.pc
  obtain rfl := run_of_done (s := u.goto t _) hdone' hof hrest
  obtain rfl := Pc.done.inj (hdone'.symm.trans hdone)
  unfold Advances at h
  rw [hpc] at h
  obtain ⟨rfl, -, rfl, -, -, hnode, -⟩ := h
  intro hno
  obtain ⟨contents, hbefore⟩ := hno.directory _ rfl job.parent job.parent_eq
    (temporaryFile job.name (process t.1).pid number) _ (FileSystem.look_of_file hnode)
  obtain ⟨i, hi, -⟩ := FileSystem.exists_of_look hbefore
  exact hnew i hi

/-- The destination of the call is a directory. -/
structure DirectoryInTheWay (process : Process) (dest : List FileName) (t : ι × τ)
    (s : State ι τ) : Prop where
  dir : s.fs.node dest = some .dir
  request : ∀ outPath data, (s.pc t).request = some (outPath, data) →
    process.place outPath = some dest

theorem DirectoryInTheWay.change {process : Process} {dest : List FileName}
    (h : DirectoryInTheWay process dest t s) {fs : FileSystem FileName} {pc : Pc}
    (hdir : fs.node dest = some .dir) (hrequest : ∀ r, pc.request = some r →
      (s.pc t).request = some r) :
    DirectoryInTheWay process dest t (s.change t fs pc) := by
  have hpc : (s.change t fs pc).pc t = pc := Function.update_self _ _ _
  refine ⟨hdir, fun outPath data hreq => h.request outPath data (hrequest _ ?_)⟩
  rwa [hpc] at hreq

omit [DecidableEq ι] [DecidableEq τ] in
/-- The temporary file is not there. -/
theorem DirectoryInTheWay.ne {process : Process} {dest : List FileName}
    (h : DirectoryInTheWay process dest t s) {job : Job}
    (hrequest : (s.pc t).request = some (job.outPath, job.data)) (number : UInt64) :
    dest ≠ job.temporaryPlace process number := by
  have hplace := h.request _ _ hrequest
  rw [job.place_outPath] at hplace
  rw [← Option.some.inj hplace]
  exact (job.temporaryPlace_ne_destination process number).symm

/-- **A directory at the destination stays there to the end of the call.** -/
theorem directoryInTheWay_step {dest : List FileName} {e : Event ι τ}
    (h : DirectoryInTheWay (process t.1) dest t s) (hof : e.IsOf t)
    (hstep : step process s e = some s') : DirectoryInTheWay (process t.1) dest t s' := by
  have hthere : s.fs.node dest ≠ none := by
    rw [h.dir]
    exact Option.some_ne_none _
  cases transition_of_step hstep with
  | call | crash => exact hof.elim
  | @makeDir t' call dir dirs fs hpc hfs =>
    obtain rfl : t' = t := hof
    exact h.change ((FileSystem.keeps_makeDir hfs hthere).node.trans h.dir)
      fun r hr => by rw [hpc]; exact hr
  | @findName t' call hpc =>
    obtain rfl : t' = t := hof
    refine h.change h.dir fun r hr => ?_
    unfold findName at hr
    split at hr
    · cases hr
    · rw [hpc]
      exact hr
  | @fetchAdd t' job hpc =>
    obtain rfl : t' = t := hof
    have hpc' : (s.goto t' (.opening job (s.nextTemporary t'.1))).pc t' =
        .opening job (s.nextTemporary t'.1) := Function.update_self _ _ _
    refine ⟨h.dir, fun outPath data hreq => h.request outPath data ?_⟩
    rw [hpc]
    exact (congrArg Pc.request hpc').symm.trans hreq
  | @create t' job number fs inode hpc hfs =>
    obtain rfl : t' = t := hof
    obtain ⟨-, -, hkeep⟩ := FileSystem.create_eq hfs
    have hne : dest ≠ job.temporaryPlace (process t'.1) number := h.ne (by rw [hpc]; rfl) number
    exact h.change ((hkeep dest hne).node.trans h.dir) fun r hr => by rw [hpc]; exact hr
  | @rename t' job number fs hpc hfs =>
    obtain rfl : t' = t := hof
    have hne : dest ≠ job.temporaryPlace (process t'.1) number := h.ne (by rw [hpc]; rfl) number
    exact h.change (FileSystem.dir_of_rename hfs h.dir hne) (by rintro _ ⟨⟩)
  | @remove t' job number cause fs hpc hfs =>
    obtain rfl : t' = t := hof
    obtain ⟨-, hkeep⟩ := FileSystem.removeFile_eq hfs
    have hne : dest ≠ job.temporaryPlace (process t'.1) number := h.ne (by rw [hpc]; rfl) number
    exact h.change ((hkeep dest hne).node.trans h.dir) (by rintro _ ⟨⟩)
  | @foundDir t' _ _ _ hpc | @close t' _ _ _ hpc | @renameFails t' _ _ _ hpc
  | @failRename t' _ _ _ hpc | @write t' _ _ _ _ _ hpc _ =>
    obtain rfl : t' = t := hof
    exact h.change h.dir fun r hr => by rw [hpc]; exact hr
  | @makeDirFails t' | @createFails t' | @removeFails t' | @failMakeDir t' | @failCreate t'
  | @failWrite t' | @failRemove t' =>
    obtain rfl : t' = t := hof
    exact h.change h.dir (by rintro _ ⟨⟩)

/-- **A destination that was made a directory stays one**, which it was not before. -/
theorem not_noDebris_of_makes {result : Except String Unit} {u : State ι τ} {e : Event ι τ}
    {back : List (Event ι τ)} (h : Advances process outPath data n fs₀ t u)
    (hmakes : MakesDestination (process t.1) t u e) (hof : ∀ e ∈ back, e.IsOf t)
    (hrun : Runs.run (step process) u (e :: back) = some s) :
    ¬NoDebris (process t.1) outPath data n fs₀ s.fs result := by
  obtain ⟨call, dir, dirs, fs, rfl, hpc, hplace, hfs⟩ := hmakes
  obtain ⟨u', hstep, hrest⟩ := Runs.run_cons_eq_some.mp hrun
  rw [step, stepThread, hpc] at hstep
  dsimp only at hstep
  rw [hfs] at hstep
  cases hstep
  obtain ⟨hnone, hdir, -⟩ := FileSystem.makeDir_eq hfs
  unfold Advances at h
  rw [hpc] at h
  obtain ⟨rfl, -, -, hall⟩ := h
  have hstart : DirectoryInTheWay (process t.1) ((process t.1).resolve dir) t
      (u.change t fs (.making call dirs)) := by
    have hpc' : (u.change t fs (.making call dirs)).pc t = .making call dirs :=
      Function.update_self _ _ _
    refine ⟨hdir, fun outPath data hreq => ?_⟩
    rw [hpc'] at hreq
    cases hreq
    exact hplace
  have hpreserved : ∀ u e u', DirectoryInTheWay (process t.1) ((process t.1).resolve dir) t u →
      e.IsOf t → step process u e = some u' →
      DirectoryInTheWay (process t.1) ((process t.1).resolve dir) t u' :=
    fun u e u' hu he hstep => directoryInTheWay_step hu he hstep
  have hend : DirectoryInTheWay (process t.1) ((process t.1).resolve dir) t s :=
    Runs.invariant_of_guarded _ hpreserved hstart
      (Runs.guarded_of_forall_mem (fun e he _ => hof e he) _) hrest
  have hlook : s.fs.look ((process t.1).resolve dir) = some .dir := by
    rw [FileSystem.look, hend.dir]
    rfl
  have hbefore : fs₀.look ((process t.1).resolve dir) = none := by
    rw [← ((hall _).2 hplace).look, FileSystem.look, hnone]
    rfl
  intro hno
  rcases result with error | ⟨⟩
  · have hsame := hno.destination error rfl _ hplace
    rw [hlook, hbefore] at hsame
    cases hsame
  · obtain ⟨p, hp, hfile⟩ := hno.written rfl
    obtain rfl := Option.some.inj (hp.symm.trans hplace)
    rw [hlook] at hfile
    cases hfile

/-! ### When nothing is left -/

/-- The beginning of a call leaves nothing. -/
theorem guarded_call {u : State ι τ} {events : List (Event ι τ)}
    (hcall : step process s (.call t outPath data) = some u)
    (h : Runs.Guarded (step process) (fun u e => ¬LeavesTemporary (process t.1) fs₀ t u e ∧
      ¬MakesDestination (process t.1) t u e) u events) :
    Runs.Guarded (step process) (fun u e => ¬LeavesTemporary (process t.1) fs₀ t u e ∧
      ¬MakesDestination (process t.1) t u e) s (.call t outPath data :: events) := by
  refine ⟨⟨?_, ?_⟩, fun u' hu' => ?_⟩
  · rintro ⟨_, _, _, _, _, he, -⟩
    cases he
  · rintro ⟨_, _, _, _, he, -⟩
    cases he
  · rw [hcall] at hu'
    exact Option.some.inj hu' ▸ h

/-- **When a failed write leaves no debris.** A call that runs to its end, one of its steps
failing or none, and not the removal of its temporary file, does what is expected of it
exactly if no write fails after the temporary file was created, it having been there before
apart, and no directory is made at the destination on the way to it. -/
theorem noDebris_iff {events : List (Event ι τ)} {result : Except String Unit}
    (hof : ∀ e ∈ events, e.IsOf t)
    (hrun : Runs.run (step process) s (.call t outPath data :: events) = some s')
    (hdone : s'.pc t = .done result)
    (hremoval : Runs.Guarded (step process) (fun u e => ¬RemovalFails t u e) s
      (.call t outPath data :: events)) :
    NoDebris (process t.1) outPath data (s.nextTemporary t.1) s.fs s'.fs result ↔
      Runs.Guarded (step process) (fun u e => ¬LeavesTemporary (process t.1) s.fs t u e ∧
        ¬MakesDestination (process t.1) t u e) s (.call t outPath data :: events) := by
  obtain ⟨u, hcall, hrest⟩ := Runs.run_cons_eq_some.mp hrun
  have hstart := (advances_call hcall).2
  have hremoval' := hremoval.2 u hcall
  constructor
  · intro hno
    by_contra hnot
    -- the first step that leaves something
    have hrest' : ¬Runs.Guarded (step process) (fun u e =>
        ¬LeavesTemporary (process t.1) s.fs t u e ∧ ¬MakesDestination (process t.1) t u e)
        u events := fun h => hnot (guarded_call hcall h)
    obtain ⟨front, e, back, v, rfl, hfront, hv, hbad⟩ := Runs.exists_of_not_guarded hrest hrest'
    have hvadvances : Advances process outPath data (s.nextTemporary t.1) s.fs t v :=
      advances_run hstart (fun e he => hof e (List.mem_append_left _ he)) hfront
        (Runs.Guarded.front hremoval') hv
    have hlast : Runs.run (step process) v (e :: back) = some s' := by
      rw [Runs.run_append, hv] at hrest
      exact hrest
    have hback : ∀ e' ∈ back, e'.IsOf t := fun e' he' =>
      hof e' (List.mem_append_right _ (List.mem_cons_of_mem _ he'))
    by_cases hleaves : LeavesTemporary (process t.1) s.fs t v e
    · exact not_noDebris_of_leaves hvadvances hleaves hback hlast hdone hno
    · have hmakes := not_not.mp fun hmakes => hbad ⟨hleaves, hmakes⟩
      exact not_noDebris_of_makes hvadvances hmakes hback hlast hno
  · intro hguarded
    exact noDebris_of_advances
      (advances_run hstart hof (hguarded.2 u hcall) hremoval' hrest) hdone

end Machine

/-! ### A full disk -/

/-- The disk is full after the first of two bytes. -/
def fullDisk : List (Event Bool ℕ) :=
  [.call (true, 0) samplePath [1, 2], .step (true, 0), .step (true, 0), .step (true, 0),
    .step (true, 0), .step (true, 0), .write (true, 0) 1,
    .fail (true, 0) "No space left on device (os error 28)"]

/-- The place of its temporary file. -/
def fullDiskTemporary : List FileName :=
  (((sampleProcess true).temporaryPlace samplePath 0).getD [])

/-- With what the call of the sample has ended. -/
def sampleResult (s : State Bool ℕ) : Option (Except String Unit) :=
  match s.pc (true, 0) with
  | .done result => some result
  | _ => none

theorem pc_of_sampleResult {s : State Bool ℕ} {result : Except String Unit}
    (h : sampleResult s = some result) : s.pc (true, 0) = .done result := by
  unfold sampleResult at h
  split at h
  · rename_i result' hpc
    cases h
    exact hpc
  · cases h

/-- **Half a temporary file stays in the directory of the destination.** -/
theorem failed_write_leaves_temporary :
    ∃ s e, Runs.run (step sampleProcess) (State.initial sampleFiles) fullDisk = some s ∧
      s.pc (true, 0) = .done (.error e) ∧
      e = "write /d/.x.m2.7.0.partial: No space left on device (os error 28)" ∧
      sampleFiles.look fullDiskTemporary = none ∧
      s.fs.look fullDiskTemporary = some (.file [1]) ∧
      ¬NoDebris (sampleProcess true) samplePath [1, 2] 0 sampleFiles s.fs (.error e) := by
  have hend : (Runs.run (step sampleProcess) (State.initial sampleFiles) fullDisk).map
      (fun s => (sampleResult s, s.fs.look fullDiskTemporary)) =
      some (some (.error "write /d/.x.m2.7.0.partial: No space left on device (os error 28)"),
        some (.file [1])) := by
    decide +kernel
  obtain ⟨s, hrun, hs⟩ := Option.map_eq_some_iff.mp hend
  obtain ⟨herror, hleft⟩ := Prod.mk.inj hs
  have hbefore : sampleFiles.look fullDiskTemporary = none := by decide +kernel
  refine ⟨s, _, hrun, pc_of_sampleResult herror, rfl, hbefore, hleft, fun hno => ?_⟩
  have hplace : ∃ parent ∈ samplePath.parent, ∃ name,
      fullDiskTemporary = (sampleProcess true).resolve parent ++ [name] := by
    have hsome : samplePath.parent.isSome ∧ samplePath.fileName.isSome := by decide +kernel
    obtain ⟨parent, hparent⟩ := Option.isSome_iff_exists.mp hsome.1
    obtain ⟨name, hname⟩ := Option.isSome_iff_exists.mp hsome.2
    refine ⟨parent, hparent, temporaryFile name 7 0, ?_⟩
    rw [fullDiskTemporary, Process.temporaryPlace, hparent, hname]
    rfl
  obtain ⟨parent, hparent, name, hname⟩ := hplace
  rw [hname] at hleft hbefore
  obtain ⟨contents, hold⟩ := hno.directory _ rfl parent hparent name _ hleft
  rw [hbefore] at hold
  cases hold

/-- A call whose steps all work. -/
def sampleCall : List (Event Bool ℕ) :=
  [.step (true, 0), .step (true, 0), .step (true, 0), .step (true, 0), .step (true, 0),
    .write (true, 0) 2, .step (true, 0), .step (true, 0)]

/-- It ends with `Ok`. -/
theorem noDebris_iff_sample :
    ∃ s, Runs.run (step sampleProcess) (State.initial sampleFiles)
        (.call (true, 0) samplePath [1, 2] :: sampleCall) = some s ∧
      s.pc (true, 0) = .done (.ok ()) ∧
      (NoDebris (sampleProcess true) samplePath [1, 2] 0 sampleFiles s.fs (.ok ()) ↔
        Runs.Guarded (step sampleProcess) (fun u e =>
          ¬LeavesTemporary (sampleProcess true) sampleFiles (true, 0) u e ∧
          ¬MakesDestination (sampleProcess true) (true, 0) u e) (State.initial sampleFiles)
          (.call (true, 0) samplePath [1, 2] :: sampleCall)) := by
  have hof : ∀ e ∈ sampleCall, e.IsOf (true, 0) := by
    intro e he
    simp only [sampleCall, List.mem_cons, List.not_mem_nil, or_false] at he
    rcases he with rfl | rfl | rfl | rfl | rfl | rfl | rfl | rfl <;> rfl
  have hfails : ∀ e ∈ .call (true, 0) samplePath [1, 2] :: sampleCall, ∀ s,
      ¬RemovalFails (true, 0) s e := by
    rintro e he s ⟨error, job, number, cause, rfl, -⟩
    simp [sampleCall] at he
  have hend : (Runs.run (step sampleProcess) (State.initial sampleFiles)
      (.call (true, 0) samplePath [1, 2] :: sampleCall)).map sampleResult =
      some (some (.ok ())) := by
    decide +kernel
  obtain ⟨s, hrun, hs⟩ := Option.map_eq_some_iff.mp hend
  have hdone := pc_of_sampleResult hs
  exact ⟨s, hrun, hdone, noDebris_iff hof hrun hdone
    (Runs.guarded_of_forall_mem hfails _)⟩

end WriteToPath

end AssetResolver
