import DumpBridge.Command.Convert
import DumpBridge.Proofs.Disk.Files

/-!
# A conversion writes all or nothing

On every machine that keeps the promises of `Disk.Files` a job changes no file if it fails,
and otherwise at most the one that its script is for.  `runOn` tells what an action comes to
from a state of the machine; each stage of a job has its lemma about it.  A temporary file is
the one thing that a job adds before it is sure to succeed, so `place_writes` carries the
state before it was added.
-/

namespace DumpBridge.Command

open Disk (Host ReadError Files)
open Source (Unpackers StreamError)

section

variable {σ : Type} {α β : Type}

/-- What an action comes to from a state of the machine, and the state after it. -/
def runOn (action : Action (StateM σ) α) (s : σ) : Except Failure α × σ :=
  action.run.run s

@[simp] theorem runOn_lift_bind (x : StateM σ α) (next : α → Action (StateM σ) β) (s : σ) :
    runOn (liftM x >>= next) s = runOn (next (x.run s).1) (x.run s).2 := rfl

/-- An action that fails keeps the next one from running. -/
theorem runOn_bind (action : Action (StateM σ) α) (next : α → Action (StateM σ) β) (s : σ) :
    runOn (action >>= next) s =
      match runOn action s with
      | (.ok a, s') => runOn (next a) s'
      | (.error failure, s') => (.error failure, s') := by
  unfold runOn
  rw [ExceptT.run_bind, StateT.run_bind]
  generalize action.run.run s = ran
  obtain ⟨_ | _, s'⟩ := ran <;> rfl

end

section

variable {σ : Type} [Host (StateM σ)] {files : Files σ}

/-- A temporary file leads to its content at its place and to nothing else, or is gone. -/
theorem place_writes {s s₀ : σ} {temporary : Host.Temporary (StateM σ)}
    (hnew : files.content s₀ (files.ofTemporary temporary) = none)
    (hs : ∀ file, file ≠ files.ofTemporary temporary → files.content s file = files.content s₀ file)
    (path : Text) (bytes : List UInt8) :
    match runOn (place temporary path bytes) s with
    | (.ok (), s') => files.OnlyAt path bytes s₀ s'
    | (.error _, s') => files.Same s₀ s' := by
  -- Whatever happened to the temporary file, once discarded it is as absent as it was at first.
  have hdiscard : ∀ t, (∀ file, file ≠ files.ofTemporary temporary →
      files.content t file = files.content s₀ file) →
      files.Same s₀ ((Host.discard temporary : StateM σ _).run t).2 := by
    intro t ht file
    by_cases hfile : file = files.ofTemporary temporary
    · rw [hfile, files.discard_removes, hnew]
    · rw [files.discard_keeps _ _ _ hfile, ht file hfile]
  unfold place
  rw [runOn_lift_bind]
  have hfill := files.fill_keeps temporary bytes s
  have hfilled := files.fill_ok temporary bytes s
  generalize (Host.fill temporary bytes : StateM σ _).run s = filled at hfill hfilled ⊢
  obtain ⟨_ | _, t⟩ := filled
  case error cause =>
    exact hdiscard t fun file hfile => (hfill file hfile).trans (hs file hfile)
  simp only [runOn_lift_bind]
  have hrefused := files.persist_error temporary path t
  have hpersist := files.persist_ok temporary path t
  generalize (Host.persist temporary path : StateM σ _).run t = persisted at hrefused hpersist ⊢
  obtain ⟨_ | _, u⟩ := persisted
  case error cause =>
    exact hdiscard u fun file hfile =>
      (hrefused cause rfl file hfile).trans ((hfill file hfile).trans (hs file hfile))
  obtain ⟨target, hat, hcontent, hgone, hothers⟩ := hpersist rfl
  refine ⟨target, hat, hcontent.trans (hfilled rfl), fun file hfile => ?_⟩
  by_cases htemporary : file = files.ofTemporary temporary
  · rw [htemporary, hnew]
    exact hgone fun h => hfile (htemporary.trans h)
  · rw [hothers file hfile htemporary, hfill file htemporary, hs file htemporary]

/-- A script is written at its path and nowhere else, or not at all. -/
theorem writeScript_writes (files : Files σ) (path script : Text) (s : σ) :
    match runOn (writeScript (some path) script) s with
    | (.ok (), s') => files.OnlyAt path (Text.toBytes script) s s'
    | (.error _, s') => files.Same s s' := by
  unfold writeScript
  simp only [runOn_lift_bind]
  have hdirs : files.Same s ((Host.createDirs (directoryOf path) : StateM σ _).run s).2 :=
    files.createDirs_keeps (directoryOf path) s
  generalize (Host.createDirs (directoryOf path) : StateM σ _).run s = created at hdirs ⊢
  obtain ⟨_ | _, t⟩ := created
  case error cause => exact hdirs
  simp only [runOn_lift_bind]
  have hrefused := files.createTemporary_error (directoryOf path) t
  have hcreated := files.createTemporary_ok (directoryOf path) t
  generalize (Host.createTemporary (directoryOf path) : StateM σ _).run t = opened
    at hrefused hcreated ⊢
  obtain ⟨cause | temporary, u⟩ := opened
  · exact hdirs.trans (hrefused cause rfl)
  · obtain ⟨hnew, hkept⟩ := hcreated temporary rfl
    have hplaced := place_writes hnew hkept path (Text.toBytes script)
    simp only
    generalize runOn (place temporary path (Text.toBytes script)) u = placed at hplaced ⊢
    obtain ⟨_ | _, v⟩ := placed
    · exact hdirs.trans hplaced
    · exact hdirs.onlyAt hplaced

end

/-- Why a dump's file cannot be read. -/
def readFailure (path : Text) : ReadError → Failure
  | .opening cause => .cannotOpen path cause
  | .reading cause => .cannotRead path cause.message

/-- Why a packed dump has no content. -/
def streamFailure (path : Text) : StreamError → Failure
  | .opening cause => .cannotOpenStream (.ofPath path) path cause
  | .reading cause => .cannotRead path cause

namespace Job

/-- What comes of a dump's file before anything is written. -/
def outcome (unpackers : Unpackers) (job : Job) :
    Except ReadError (List UInt8) → Except Failure Conversion
  | .error cause => .error (readFailure job.input cause)
  | .ok bytes =>
    match unpackers.unpack (.ofPath job.input) bytes with
    | .error cause => .error (streamFailure job.input cause)
    | .ok dump =>
      let conversion := Conversion.run job.options (Source.decode dump)
      if job.strict && conversion.warnings.hasWarnings then
        .error (.strict conversion.warnings.total job.input)
      else .ok conversion

/-- The file that the script is for. -/
def target? (job : Job) : Option Text :=
  if job.dryRun then none else job.output

/-- What is left of a job once the dump is converted. -/
def finish {m : Type → Type} [Monad m] [Host m] (job : Job) (conversion : Conversion) :
    Action m Conversion := do
  if !job.dryRun then writeScript job.output conversion.text
  return conversion

end Job

section

variable {σ : Type} [Host (StateM σ)] {unpackers : Unpackers} {job : Job} {s : σ}
  {conversion : Conversion} {failure : Failure}

/-- Reading a dump comes to what its file holds, or to why it does not. -/
theorem runOn_readDump (unpackers : Unpackers) (path : Text) (s : σ) :
    runOn (readDump unpackers path : Action (StateM σ) Text) s =
      (match ((Host.read path : StateM σ _).run s).1 with
        | .error cause => .error (readFailure path cause)
        | .ok bytes =>
          match unpackers.unpack (.ofPath path) bytes with
          | .ok dump => .ok (Source.decode dump)
          | .error cause => .error (streamFailure path cause),
        ((Host.read path : StateM σ _).run s).2) := by
  unfold readDump
  rw [runOn_lift_bind]
  generalize (Host.read path : StateM σ _).run s = found
  obtain ⟨cause | bytes, t⟩ := found
  · cases cause <;> rfl
  · simp only
    cases unpackers.unpack (.ofPath path) bytes with
    | ok dump => rfl
    | error cause => cases cause <;> rfl

/-- What is converted is a file's content. -/
theorem exists_source_of_outcome (files : Files σ)
    (h : job.outcome unpackers ((Host.read job.input : StateM σ _).run s).1 = .ok conversion) :
    ∃ file bytes, files.fileAt s job.input = some file ∧ files.content s file = some bytes ∧
      job.outcome unpackers (.ok bytes) = .ok conversion := by
  cases hread : ((Host.read job.input : StateM σ _).run s).1 with
  | error cause => rw [hread] at h; cases h
  | ok bytes =>
    obtain ⟨file, hat, hcontent⟩ := files.read_ok job.input s bytes hread
    exact ⟨file, bytes, hat, hcontent, hread ▸ h⟩

/-- A job that fails on what it read has touched no file. -/
theorem runOn_convertFile_of_error (files : Files σ)
    (h : job.outcome unpackers ((Host.read job.input : StateM σ _).run s).1 = .error failure) :
    (runOn (convertFile unpackers job : Action (StateM σ) Conversion) s).1 = .error failure ∧
      files.Same s (runOn (convertFile unpackers job : Action (StateM σ) Conversion) s).2 := by
  have hread := files.same_read job.input s
  unfold convertFile
  rw [runOn_bind, runOn_readDump]
  generalize (Host.read job.input : StateM σ _).run s = found at h hread ⊢
  obtain ⟨cause | bytes, t⟩ := found
  · cases h
    exact ⟨rfl, hread⟩
  simp only [Job.outcome] at h ⊢
  cases hunpacked : unpackers.unpack (.ofPath job.input) bytes with
  | error cause =>
    simp only [hunpacked] at h
    cases h
    exact ⟨rfl, hread⟩
  | ok dump =>
    simp only [hunpacked] at h ⊢
    generalize Conversion.run job.options (Source.decode dump) = converted at h ⊢
    cases hstrict : job.strict && converted.warnings.hasWarnings with
    | false => simp [hstrict] at h
    | true =>
      -- The summary goes to the standard error before the job fails.
      simp only [hstrict, if_true] at h ⊢
      cases h
      exact ⟨rfl, hread.trans (files.err_keeps _ t)⟩

/-- Once the dump is converted, only what is left of the job can fail. -/
theorem runOn_convertFile_of_ok
    (h : job.outcome unpackers ((Host.read job.input : StateM σ _).run s).1 = .ok conversion) :
    runOn (convertFile unpackers job : Action (StateM σ) Conversion) s =
      runOn (job.finish conversion) ((Host.read job.input : StateM σ _).run s).2 := by
  unfold convertFile
  rw [runOn_bind, runOn_readDump]
  generalize (Host.read job.input : StateM σ _).run s = found at h ⊢
  obtain ⟨cause | bytes, t⟩ := found
  · cases h
  simp only [Job.outcome] at h ⊢
  cases hunpacked : unpackers.unpack (.ofPath job.input) bytes with
  | error cause => simp [hunpacked] at h
  | ok dump =>
    simp only [hunpacked] at h ⊢
    generalize Conversion.run job.options (Source.decode dump) = converted at h ⊢
    cases hstrict : job.strict && converted.warnings.hasWarnings with
    | true => simp [hstrict] at h
    | false =>
      simp only [hstrict, Bool.false_eq_true, if_false, Except.ok.injEq] at h ⊢
      rw [← h]
      rfl

/-- A script without a file is printed, or the standard output does not take it. -/
theorem runOn_writeScript_none (script : Text) (s : σ) :
    runOn (writeScript none script : Action (StateM σ) Unit) s =
      (match ((Host.out script : StateM σ _).run s).1 with
        | .ok () => .ok ()
        | .error cause => .error (.cannotPrint cause),
        ((Host.out script : StateM σ _).run s).2) := by
  unfold writeScript
  rw [runOn_lift_bind]
  generalize (Host.out script : StateM σ _).run s = printed
  obtain ⟨_ | _, s'⟩ := printed <;> rfl

/-- What is left of a job writes its script and nothing else, or fails and writes nothing. -/
theorem runOn_finish (files : Files σ) (job : Job) (conversion : Conversion) (s : σ) :
    match runOn (job.finish conversion : Action (StateM σ) Conversion) s with
    | (.ok converted, s') =>
      converted = conversion ∧
        match job.target? with
        | none => files.Same s s'
        | some path => files.OnlyAt path (Text.toBytes conversion.text) s s'
    | (.error _, s') => files.Same s s' := by
  obtain ⟨input, output, options, dryRun, strict⟩ := job
  cases dryRun with
  | true => exact ⟨rfl, .refl s⟩
  | false =>
    simp only [Job.finish, Job.target?, Bool.false_eq_true, if_false, Bool.not_false, if_true,
      runOn_bind]
    cases output with
    | none =>
      have hkept := files.out_keeps conversion.text s
      rw [runOn_writeScript_none]
      generalize (Host.out conversion.text : StateM σ _).run s = printed at hkept ⊢
      obtain ⟨_ | _, s'⟩ := printed
      · exact hkept
      · exact ⟨rfl, hkept⟩
    | some path =>
      have hwrites := writeScript_writes files path conversion.text s
      generalize runOn (writeScript (some path) conversion.text : Action (StateM σ) Unit) s =
        written at hwrites ⊢
      obtain ⟨_ | _, s'⟩ := written
      · exact hwrites
      · exact ⟨rfl, hwrites⟩

/-- A dry run has nothing left that could fail. -/
theorem runOn_finish_of_dryRun (hdry : job.dryRun) (conversion : Conversion) (s : σ) :
    runOn (job.finish conversion : Action (StateM σ) Conversion) s = (.ok conversion, s) := by
  unfold Job.finish
  rw [hdry]
  rfl

/-- Without a file, a job succeeds just if the standard output takes the script. -/
theorem runOn_finish_of_stdout (hdry : job.dryRun = false) (houtput : job.output = none)
    (conversion : Conversion) (s : σ) :
    (runOn (job.finish conversion : Action (StateM σ) Conversion) s).1 =
      match ((Host.out conversion.text : StateM σ _).run s).1 with
      | .ok () => .ok conversion
      | .error cause => .error (.cannotPrint cause) := by
  unfold Job.finish
  simp only [hdry, houtput, Bool.not_false, if_true, runOn_bind, runOn_writeScript_none]
  generalize (Host.out conversion.text : StateM σ _).run s = printed
  obtain ⟨_ | _, s'⟩ := printed <;> rfl

/-- **All or nothing.**  A failed job changes no file, and neither does one that has no file to
write; a job that succeeds otherwise leaves its script at its path and every other file as it was.
The script is that of the dump's file as it was at first, even if it takes that file's place.
Whatever is wrong with the dump makes the job fail.  A dry run fails for no other reason, and a job
that prints its script only if the standard output does not take it.  All this holds on every
machine that keeps its promises, and whatever unpacks the packed formats. -/
theorem convertFile_all_or_nothing (unpackers : Unpackers) (files : Files σ) (job : Job) (s : σ) :
    let read := (Host.read job.input : StateM σ _).run s
    let result := runOn (convertFile unpackers job : Action (StateM σ) Conversion) s
    (∀ failure, result.1 = .error failure → files.Same s result.2) ∧
      (∀ conversion, result.1 = .ok conversion →
        (∃ file bytes, files.fileAt s job.input = some file ∧ files.content s file = some bytes ∧
            job.outcome unpackers (.ok bytes) = .ok conversion) ∧
          match job.target? with
          | none => files.Same s result.2
          | some path => files.OnlyAt path (Text.toBytes conversion.text) s result.2) ∧
      (∀ failure, job.outcome unpackers read.1 = .error failure → result.1 = .error failure) ∧
      (job.dryRun → result.1 = job.outcome unpackers read.1) ∧
      (job.dryRun = false → job.output = none →
        ∀ conversion, job.outcome unpackers read.1 = .ok conversion →
          result.1 = match ((Host.out conversion.text : StateM σ _).run read.2).1 with
            | .ok () => .ok conversion
            | .error cause => .error (.cannotPrint cause)) := by
  intro read result
  have hread : files.Same s read.2 := files.same_read job.input s
  cases hfound : job.outcome unpackers read.1 with
  | error failure =>
    obtain ⟨hfailed, hsame⟩ := runOn_convertFile_of_error files hfound
    have hresult : result.1 = .error failure := hfailed
    refine ⟨fun _ _ => hsame, fun c hc => ?_, fun _ h => ?_, fun _ => hresult, fun _ _ _ h => ?_⟩
    · rw [hresult] at hc
      cases hc
    · cases h
      exact hresult
    · cases h
  | ok conversion =>
    have hsource : ∃ file bytes, files.fileAt s job.input = some file ∧
        files.content s file = some bytes ∧ job.outcome unpackers (.ok bytes) = .ok conversion :=
      exists_source_of_outcome files hfound
    have hresult : result = runOn (job.finish conversion) read.2 := runOn_convertFile_of_ok hfound
    have hfinish := runOn_finish files job conversion read.2
    rw [← hresult] at hfinish
    refine ⟨fun failure hfailed => ?_, fun c hc => ?_, nofun, fun hdry => ?_,
      fun hdry houtput c hc => ?_⟩
    · generalize result = ran at hfailed hfinish ⊢
      obtain ⟨_, s'⟩ := ran
      obtain rfl := hfailed
      exact hread.trans hfinish
    · generalize result = ran at hc hfinish ⊢
      obtain ⟨_, s'⟩ := ran
      obtain rfl := hc
      obtain ⟨rfl, hwritten⟩ := hfinish
      refine ⟨hsource, ?_⟩
      cases htarget : job.target? with
      | none =>
        rw [htarget] at hwritten
        exact hread.trans hwritten
      | some path =>
        rw [htarget] at hwritten
        exact hread.onlyAt hwritten
    · rw [hresult, runOn_finish_of_dryRun hdry]
    · cases hc
      rw [hresult, runOn_finish_of_stdout hdry houtput]

end

/-- Unpackers of formats that put one byte in front of the content. -/
def behindMark : Unpackers :=
  let unpacker : Source.Unpacker := fun
    | [] => .error (.reading "no mark".toList)
    | _ :: content => .ok content
  { gzip := unpacker, bzip2 := unpacker, xz := unpacker, zstd := unpacker }

/-- A directory with a packed dump and another file. -/
def dumpDirectory : Disk.World :=
  { tree := {
      files := [([['d'], "t.sql.xz".toList], 0 :: Text.toBytes "UNLOCK TABLES;\n".toList),
        ([['d'], ['x']], [1, 2])]
      dirs := [[['d']]]
      workingDir := [['d']] } }

/-- A job whose script takes the place of its dump. -/
def inPlace : Job :=
  { input := "t.sql.xz".toList, output := some "../d/t.sql.xz".toList, options := {}
    dryRun := false
    strict := true }

/-- The dump's file, reached by another path, gets the script of what it held.  With the standard
output closed, a job for it fails, and the file stays. -/
theorem convertFile_all_or_nothing_in_place :
    let closed : Disk.World := { dumpDirectory with stdoutClosed := true }
    let printing : Job := { inPlace with output := none }
    (∃ conversion, (runOn (convertFile behindMark inPlace) dumpDirectory).1 = .ok conversion ∧
        Disk.World.files.OnlyAt "../d/t.sql.xz".toList (Text.toBytes conversion.text) dumpDirectory
          (runOn (convertFile behindMark inPlace) dumpDirectory).2) ∧
      (runOn (convertFile behindMark printing) closed).1 = .error (.cannotPrint .brokenPipe) ∧
        Disk.World.files.Same closed (runOn (convertFile behindMark printing) closed).2 := by
  intro closed printing
  have hplaced := convertFile_all_or_nothing behindMark Disk.World.files inPlace dumpDirectory
  have hprinted := convertFile_all_or_nothing behindMark Disk.World.files printing closed
  constructor
  · have hok : (runOn (convertFile behindMark inPlace) dumpDirectory).1.isOk := by
      decide +kernel
    cases hresult : (runOn (convertFile behindMark inPlace) dumpDirectory).1 with
    | error failure => rw [hresult] at hok; cases hok
    | ok conversion => exact ⟨conversion, rfl, (hplaced.2.1 conversion hresult).2⟩
  · obtain ⟨hsame, -, -, -, hrefused⟩ := hprinted
    have hok : (printing.outcome behindMark
        ((Host.read printing.input : StateM Disk.World _).run closed).1).isOk := by
      decide +kernel
    cases houtcome : printing.outcome behindMark
        ((Host.read printing.input : StateM Disk.World _).run closed).1 with
    | error failure => rw [houtcome] at hok; cases hok
    | ok conversion =>
      have hfailed := hrefused rfl rfl conversion houtcome
      exact ⟨hfailed, hsame _ hfailed⟩

end DumpBridge.Command
