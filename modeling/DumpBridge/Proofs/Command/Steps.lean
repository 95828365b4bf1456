import DumpBridge.Proofs.Command.Writing
import DumpBridge.Proofs.Disk.Growth

/-!
# One of several dumps

What a run does with one of its dumps is a step from one tree to the next.  The
step of a dump that fails is `Idle`: it adds nothing but directories.  The step of
a dump that is converted `Writes` the dump's script, in a file that has the
script's name, and touches no other file.

That directories stay is shown of every action that takes part (`Steady`).  That
the file has the script's name rests on the last thing done for a script, which
is to move it to its place (`exists_persist_of_writeScript`).
-/

namespace DumpBridge.Command

open Disk (Host World Tree Location SystemError)
open Source (Unpackers)

/-! ## Actions that keep directories -/

section

variable {α β : Type}

/-- Whatever comes of the action, every directory that there was is still there. -/
def Steady (action : Action (StateM World) α) : Prop :=
  ∀ w : World, w.tree.Extends (runOn action w).2.tree

/-- **Steady actions are steady in a row.** -/
theorem Steady.bind {action : Action (StateM World) α} {next : α → Action (StateM World) β}
    (h : Steady action) (hnext : ∀ a, Steady (next a)) : Steady (action >>= next) := by
  intro w
  rw [runOn_bind]
  have hfirst := h w
  generalize runOn action w = ran at hfirst ⊢
  obtain ⟨failure | a, w'⟩ := ran
  · exact hfirst
  · exact hfirst.trans (hnext a w')

theorem steady_pure (a : α) : Steady (pure a) :=
  fun w => .refl w.tree

theorem steady_throw (failure : Failure) : Steady (throw failure : Action (StateM World) α) :=
  fun w => .refl w.tree

/-- A change is steady if it only extends the tree. -/
theorem steady_change {edit : Tree → Except SystemError (α × Tree)}
    (h : ∀ tree result tree', edit tree = .ok (result, tree') → tree.Extends tree') :
    Steady (liftM (World.change edit)) := by
  intro w
  change w.tree.Extends ((World.change edit).run w).2.tree
  cases hrun : ((World.change edit).run w).1 with
  | error cause => rw [World.change_error hrun]; exact .refl w.tree
  | ok result =>
    obtain ⟨tree, hedit, rfl⟩ := World.change_ok hrun
    exact h _ _ _ hedit

/-- The same holds of a change without a result. -/
theorem steady_change_map {edit : Tree → Except SystemError Tree}
    (h : ∀ tree tree', edit tree = .ok tree' → tree.Extends tree') :
    Steady (liftM (World.change fun tree => (edit tree).map ((), ·))) := by
  apply steady_change
  intro tree _ tree' hmap
  cases hedit : edit tree with
  | error cause => rw [hedit] at hmap; cases hmap
  | ok edited => rw [hedit] at hmap; cases hmap; exact h _ _ hedit

end

/-- Putting a script in its place is steady. -/
theorem steady_place (temporary : Location) (path : Text) (bytes : List UInt8) :
    Steady (place (m := StateM World) temporary path bytes) := by
  have hdiscard : Steady (liftM (Host.discard temporary : StateM World _)) :=
    fun w => w.tree.extends_removeFile temporary
  refine .bind (steady_change ?_) fun filled => ?_
  · intro tree _ tree' hfill
    cases hfill
    exact tree.extends_setFile temporary bytes
  cases filled with
  | error cause => exact hdiscard.bind fun _ => steady_throw _
  | ok _ =>
    refine .bind (steady_change_map fun _ _ => Tree.extends_rename) fun persisted => ?_
    cases persisted with
    | error cause => exact hdiscard.bind fun _ => steady_throw _
    | ok _ => exact steady_pure _

/-- **Writing a script is steady**, to a path or to the standard output. -/
theorem steady_writeScript (output : Option Text) (script : Text) :
    Steady (writeScript output script) := by
  cases output with
  | none =>
    intro w
    rw [runOn_writeScript_none, World.tree_out]
    exact .refl w.tree
  | some path =>
    refine .bind (steady_change_map fun _ _ => Tree.extends_createDirs) fun created => ?_
    cases created with
    | error cause => exact steady_throw _
    | ok _ =>
      refine .bind (steady_change ?_) fun opened => ?_
      · intro tree location tree' hcreate
        obtain ⟨-, rfl⟩ := Tree.createTemporary_eq_ok hcreate
        exact tree.extends_setFile location []
      cases opened with
      | error cause => exact steady_throw _
      | ok temporary => exact steady_place temporary path (Text.toBytes script)

/-- **Converting a file is steady.** -/
theorem steady_convertFile (unpackers : Unpackers) (job : Job) :
    Steady (convertFile unpackers job) := by
  have hread : Steady (readDump unpackers job.input) := by
    intro w
    rw [runOn_readDump]
    exact .refl w.tree
  refine hread.bind fun dump => ?_
  dsimp only
  split
  · exact .bind (fun w => .refl w.tree) fun _ => steady_throw _
  · split
    · exact (steady_writeScript _ _).bind fun _ => steady_pure _
    · exact steady_pure _

/-! ## What a job comes to -/

section

variable {σ : Type} [Host (StateM σ)] {s : σ} {path : Text}

/-- A script that is written gets its place last of all. -/
theorem exists_persist_of_writeScript {script : Text}
    (h : (runOn (writeScript (some path) script : Action (StateM σ) Unit) s).1 = .ok ()) :
    ∃ temporary t, (Host.persist temporary path : StateM σ _).run t =
      (.ok (), (runOn (writeScript (some path) script : Action (StateM σ) Unit) s).2) := by
  unfold writeScript at h ⊢
  simp only [runOn_lift_bind] at h ⊢
  generalize (Host.createDirs (directoryOf path) : StateM σ _).run s = created at h ⊢
  obtain ⟨_ | _, t⟩ := created
  case error cause => cases h
  simp only [runOn_lift_bind] at h ⊢
  generalize (Host.createTemporary (directoryOf path) : StateM σ _).run t = opened at h ⊢
  obtain ⟨cause | temporary, u⟩ := opened
  · cases h
  simp only [place, runOn_lift_bind] at h ⊢
  generalize (Host.fill temporary (Text.toBytes script) : StateM σ _).run u = filled at h ⊢
  obtain ⟨_ | _, v⟩ := filled
  case error cause => cases h
  simp only [runOn_lift_bind] at h ⊢
  refine ⟨temporary, v, ?_⟩
  generalize (Host.persist temporary path : StateM σ _).run v = persisted at h ⊢
  obtain ⟨_ | _, x⟩ := persisted
  · cases h
  · rfl

variable {unpackers : Unpackers} {job : Job} (files : Disk.Files σ)

/-- A job with a file succeeds only if its dump is converted and the script written. -/
theorem exists_writeScript_of_convertFile (htarget : job.target? = some path)
    {conversion : Conversion}
    (h : (runOn (convertFile unpackers job : Action (StateM σ) Conversion) s).1 = .ok conversion) :
    job.outcome unpackers ((Host.read job.input : StateM σ _).run s).1 = .ok conversion ∧
      ∃ t, files.Same s t ∧
        runOn (writeScript (some path) conversion.text : Action (StateM σ) Unit) t =
          (.ok (), (runOn (convertFile unpackers job : Action (StateM σ) Conversion) s).2) := by
  cases hread : job.outcome unpackers ((Host.read job.input : StateM σ _).run s).1 with
  | error failure =>
    rw [(runOn_convertFile_of_error files hread).1] at h
    cases h
  | ok converted =>
    obtain ⟨input, output, options, dryRun, strict⟩ := job
    cases dryRun with
    | true => cases htarget
    | false =>
      obtain rfl : output = some path := htarget
      rw [runOn_convertFile_of_ok hread] at h ⊢
      simp only [Job.finish, Bool.not_false, if_true, runOn_bind] at h ⊢
      generalize hscript :
        runOn (writeScript (some path) converted.text : Action (StateM σ) Unit) _ =
        written at h ⊢
      obtain ⟨_ | _, u⟩ := written
      · cases h
      · cases h
        exact ⟨rfl, _, files.same_read input s, hscript⟩

/-- A job that fails changes no file. -/
theorem same_of_convertFile {failure : Failure}
    (h : (runOn (convertFile unpackers job : Action (StateM σ) Conversion) s).1 = .error failure) :
    files.Same s (runOn (convertFile unpackers job : Action (StateM σ) Conversion) s).2 := by
  cases hread : job.outcome unpackers ((Host.read job.input : StateM σ _).run s).1 with
  | error failure => exact (runOn_convertFile_of_error files hread).2
  | ok conversion =>
    have hfinish := runOn_finish files job conversion
      ((Host.read job.input : StateM σ _).run s).2
    rw [runOn_convertFile_of_ok hread] at h ⊢
    generalize runOn (job.finish conversion : Action (StateM σ) Conversion) _ = ran
      at h hfinish ⊢
    obtain ⟨_, s'⟩ := ran
    obtain rfl := h
    exact (files.same_read job.input s).trans hfinish

end

/-! ## The step of a dump -/

/-- A dump that was converted, with its number. -/
structure Done where
  number : Nat
  file : Text
  conversion : Conversion

namespace Done

/-- The name of the script. -/
def name (d : Done) : Text :=
  scriptName d.file d.number

/-- The path of the script. -/
def path (dir : Text) (d : Done) : Text :=
  Disk.Path.join dir d.name

end Done

/-- What is done with one of several dumps. -/
def ConvertArgs.job (args : ConvertArgs) (options : Options) (dir : Text) (number : Nat)
    (file : Text) : Job :=
  { input := file
    output := if args.dryRun then none else some (Disk.Path.join dir (scriptName file number))
    options := options
    dryRun := args.dryRun
    strict := args.strict }

/-- A state goes through two computations in a row. -/
theorem run_bind {σ α β : Type} (x : StateM σ α) (next : α → StateM σ β) (s : σ) :
    (x >>= next).run s = (next (x.run s).1).run (x.run s).2 := rfl

/-- Asking for a size changes nothing. -/
theorem run_fileSize (path : Text) (w : World) :
    ((fileSize path : StateM World Nat).run w).2 = w := by
  unfold fileSize
  rw [run_bind]
  cases ((Host.read path : StateM World _).run w).1 <;> rfl

/-- Telling about a dump touches no file. -/
theorem run_convertNext (unpackers : Unpackers) (args : ConvertArgs) (options : Options)
    (dir : Text) (total number : Nat) (file : Text) (w : World) :
    ∃ w₁ : World, w₁.tree = w.tree ∧
      ((convertNext unpackers args options dir total number file : StateM World _).run w).1 =
        (runOn (convertFile unpackers (args.job options dir number file)) w₁).1 ∧
      ((convertNext unpackers args options dir total number file : StateM World _).run w).2.tree =
        (runOn (convertFile unpackers (args.job options dir number file)) w₁).2.tree := by
  refine ⟨((Host.err (s!"[{number + 1}/{total}] Converting: ".toList ++ file ++ ['\n']) :
    StateM World _).run w).2, rfl, ?_⟩
  unfold convertNext runOn ConvertArgs.job
  simp only [run_bind, run_fileSize]
  generalize (convertFile _ _ : Action (StateM World) Conversion).run.run _ = result
  obtain ⟨failure | conversion, w'⟩ := result
  · exact ⟨rfl, rfl⟩
  · exact ⟨rfl, rfl⟩

/-- The name of a script is a single component. -/
theorem slash_not_mem_scriptName (file : Text) (number : Nat) : '/' ∉ scriptName file number := by
  unfold scriptName
  split
  next name hname =>
    have hslash := Disk.Path.slash_not_mem_of_fileName? hname
    unfold Source.Compression.stripExtension
    split
    · exact hslash
    · intro hmem
      rw [List.mem_reverse] at hmem
      have hrest := (List.dropWhile_suffix _).subset (List.mem_of_mem_drop hmem)
      exact hslash (List.mem_reverse.mp hrest)
  · have hdigits : '/' ∉ (toString number).toList := by
      intro hmem
      change '/' ∈ (Nat.repr number).toList at hmem
      rw [Nat.toList_repr] at hmem
      exact absurd (Nat.isDigit_of_mem_toDigits (by decide) (by decide) hmem) (by decide)
    simp only [String.toList_append, List.mem_append, not_or]
    exact ⟨⟨by decide, hdigits⟩, by decide⟩

/-- A step that adds nothing but directories. -/
structure Idle (tree tree' : Tree) : Prop extends tree.Extends tree' where
  same : ∀ l, tree'.file? l = tree.file? l

/-- A step that reads a dump and writes its script. -/
structure Writes (unpackers : Unpackers) (args : ConvertArgs) (options : Options) (dir : Text)
    (d : Done) (tree tree' : Tree) : Prop extends tree.Extends tree' where
  source : ∃ place bytes, tree.fileAt d.file = some place ∧ tree.file? place = some bytes ∧
    (args.job options dir d.number d.file).outcome unpackers (.ok bytes) = .ok d.conversion
  target : ∃ place, tree'.fileAt (d.path dir) = some place ∧ place.getLast? = some d.name ∧
    tree'.file? place = some (Text.toBytes d.conversion.text) ∧
    ∀ l, l ≠ place → tree'.file? l = tree.file? l

section

variable {unpackers : Unpackers} {args : ConvertArgs} {options : Options} {dir : Text} {d : Done}
  {tree tree' : Tree}
  {total number : Nat} {file : Text} {w : World}

/-- What changes no file makes the tree grow at most. -/
theorem Idle.grows (h : Idle tree tree') : tree.Grows tree' :=
  ⟨h.toExtends, fun l hl => by rwa [h.same l]⟩

/-- So does what writes one script. -/
theorem Writes.grows (h : Writes unpackers args options dir d tree tree') : tree.Grows tree' := by
  obtain ⟨place, -, -, hcontent, hothers⟩ := h.target
  refine ⟨h.toExtends, fun l hl => ?_⟩
  by_cases hplace : l = place
  · rw [hplace, hcontent]; rfl
  · rwa [hothers l hplace]

/-- **A conversion that fails changes no file.** -/
theorem idle_of_convertNext {failure : Failure}
    (h : ((convertNext unpackers args options dir total number file : StateM World _).run w).1 =
      .error failure) :
    Idle w.tree
      ((convertNext unpackers args options dir total number file : StateM World _).run
        w).2.tree := by
  obtain ⟨w₁, htree, hresult, htree'⟩ :=
    run_convertNext unpackers args options dir total number file w
  rw [htree', ← htree]
  refine ⟨steady_convertFile _ _ w₁, fun l => ?_⟩
  exact same_of_convertFile World.files (hresult.symm.trans h) l

/-- **A conversion that succeeds writes one script**, that of its dump. -/
theorem writes_of_convertNext (hdry : args.dryRun = false) {conversion : Conversion}
    (h : ((convertNext unpackers args options dir total number file : StateM World _).run w).1 =
      .ok conversion) :
    Writes unpackers args options dir ⟨number, file, conversion⟩ w.tree
      ((convertNext unpackers args options dir total number file : StateM World _).run
        w).2.tree := by
  obtain ⟨w₁, htree, hresult, htree'⟩ :=
    run_convertNext unpackers args options dir total number file w
  have htarget : (args.job options dir number file).target? =
      some (Disk.Path.join dir (scriptName file number)) := by
    simp [ConvertArgs.job, Job.target?, hdry]
  obtain ⟨hsource, t, hsame, hscript⟩ :=
    exists_writeScript_of_convertFile World.files htarget (hresult.symm.trans h)
  rw [htree', ← htree]
  refine ⟨steady_convertFile _ _ w₁, exists_source_of_outcome World.files hsource, ?_⟩
  have hwrites := writeScript_writes World.files (Disk.Path.join dir (scriptName file number))
    conversion.text t
  rw [hscript] at hwrites
  obtain ⟨place, hat, hcontent, hothers⟩ := hsame.onlyAt hwrites
  obtain ⟨temporary, u, hpersist⟩ := exists_persist_of_writeScript (congrArg Prod.fst hscript)
  rw [hscript] at hpersist
  have hname := (World.getLast?_of_persist hpersist hat).trans
    (Disk.Path.getLast?_cut_join dir (slash_not_mem_scriptName file number))
  exact ⟨place, hat, hname, hcontent, hothers⟩

end

end DumpBridge.Command
