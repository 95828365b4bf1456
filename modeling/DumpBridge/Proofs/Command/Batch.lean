import DumpBridge.Proofs.Command.Steps

/-!
# Several dumps, each with its script

A run over several dumps is a `Chain` of their steps, in which files are added
and replaced but never go away.  What a script holds in the end is then settled
by the steps after its own (`Chain.exists_script`), and what a dump held when it
was read by the steps before (`Chain.exists_source`).

A script has the last name of its dump's path, so dumps in different directories
may have one place for their scripts.  `convertSeveral_keeps_iff` says that this
is all that can go wrong: the scripts of the dumps that were converted are all
kept if and only if they have different names.
-/

namespace DumpBridge.Command

open Disk (Host World Tree Location)
open Source (Unpackers)

/-- Steps that write the scripts of the dumps in a list, in its order. -/
inductive Chain (unpackers : Unpackers) (args : ConvertArgs) (options : Options) (dir : Text) :
    Tree → List Done → Tree → Prop
  | nil (tree : Tree) : Chain unpackers args options dir tree [] tree
  | idle {tree tree' tree'' : Tree} {done : List Done} (h : Idle tree tree')
      (rest : Chain unpackers args options dir tree' done tree'') :
      Chain unpackers args options dir tree done tree''
  | writes {tree tree' tree'' : Tree} {d : Done} {done : List Done}
      (h : Writes unpackers args options dir d tree tree')
      (rest : Chain unpackers args options dir tree' done tree'') :
      Chain unpackers args options dir tree (d :: done) tree''

section

variable {unpackers : Unpackers} {args : ConvertArgs} {options : Options} {dir : Text}
  {tree tree' : Tree} {d : Done} {done before after : List Done} {l : Location}

namespace Chain

theorem grows (h : Chain unpackers args options dir tree done tree') : tree.Grows tree' := by
  induction h with
  | nil tree => exact .refl tree
  | idle h _ ih | writes h _ ih => exact h.grows.trans ih

/-- A file that no script is for stays as it was. -/
theorem file?_eq (h : Chain unpackers args options dir tree done tree')
    (hl : ∀ d ∈ done, tree'.fileAt (d.path dir) ≠ some l) : tree'.file? l = tree.file? l := by
  induction h with
  | nil tree => rfl
  | idle h _ ih => exact (ih hl).trans (h.same l)
  | writes h rest ih =>
    obtain ⟨hd, hl⟩ := List.forall_mem_cons.mp hl
    obtain ⟨place, hat, -, -, hothers⟩ := h.target
    have hne : l ≠ place := by
      rintro rfl
      exact hd (rest.grows.fileAt hat)
    exact (ih hl).trans (hothers l hne)

/-- The step of a dump, with the steps before and after it. -/
theorem exists_writes (h : Chain unpackers args options dir tree (before ++ d :: after) tree') :
    ∃ s s', Chain unpackers args options dir tree before s ∧
      Writes unpackers args options dir d s s' ∧
      Chain unpackers args options dir s' after tree' := by
  generalize hdone : before ++ d :: after = done at h
  induction h generalizing before with
  | nil tree => simp at hdone
  | idle h _ ih =>
    obtain ⟨s, s', hbefore, hwrites, hafter⟩ := ih hdone
    exact ⟨s, s', .idle h hbefore, hwrites, hafter⟩
  | writes h rest ih =>
    cases before with
    | nil =>
      obtain ⟨rfl, rfl⟩ := List.cons.inj hdone
      exact ⟨_, _, .nil _, h, rest⟩
    | cons e before =>
      obtain ⟨rfl, hrest⟩ := List.cons.inj hdone
      obtain ⟨s, s', hbefore, hwrites, hafter⟩ := ih hrest
      exact ⟨s, s', .writes h hbefore, hwrites, hafter⟩

/-- Each script of a chain is found at its path in the end. -/
theorem exists_place (h : Chain unpackers args options dir tree done tree') (hd : d ∈ done) :
    ∃ place, tree'.fileAt (d.path dir) = some place ∧ place.getLast? = some d.name := by
  obtain ⟨before, after, rfl⟩ := List.append_of_mem hd
  obtain ⟨s, s', -, hwrites, hafter⟩ := h.exists_writes
  obtain ⟨place, hat, hname, -⟩ := hwrites.target
  exact ⟨place, hafter.grows.fileAt hat, hname⟩

/-- A script stays if none of the same name comes after it. -/
theorem exists_script (h : Chain unpackers args options dir tree (before ++ d :: after) tree')
    (hnames : ∀ e ∈ after, e.name ≠ d.name) :
    ∃ place, tree'.fileAt (d.path dir) = some place ∧
      tree'.file? place = some (Text.toBytes d.conversion.text) := by
  obtain ⟨s, s', -, hwrites, hafter⟩ := h.exists_writes
  obtain ⟨place, hat, hname, hcontent, -⟩ := hwrites.target
  refine ⟨place, hafter.grows.fileAt hat, (hafter.file?_eq fun e he hplace => ?_).trans hcontent⟩
  obtain ⟨place', hat', hname'⟩ := hafter.exists_place he
  obtain rfl : place' = place := Option.some.inj (hat'.symm.trans hplace)
  exact hnames e he (Option.some.inj (hname'.symm.trans hname))

/-- A dump is read as it was at first if no script takes its place before that. -/
theorem exists_source (h : Chain unpackers args options dir tree (before ++ d :: after) tree')
    (hbefore : ∀ e ∈ before, tree'.fileAt (e.path dir) ≠ tree'.fileAt d.file) :
    ∃ place bytes, tree'.fileAt d.file = some place ∧ tree.file? place = some bytes ∧
      (args.job options dir d.number d.file).outcome unpackers (.ok bytes) = .ok d.conversion := by
  obtain ⟨s, s', hchain, hwrites, hafter⟩ := h.exists_writes
  obtain ⟨place, bytes, hat, hcontent, houtcome⟩ := hwrites.source
  have hgrows : s.Grows tree' := hwrites.grows.trans hafter.grows
  have hkept : s.file? place = tree.file? place := by
    refine hchain.file?_eq fun e he hplace => hbefore e he ?_
    rw [hgrows.fileAt hplace, hgrows.fileAt hat]
  exact ⟨place, bytes, hgrows.fileAt hat, hkept.symm.trans hcontent, houtcome⟩

end Chain

/-- Every script is there, each in a file of its own. -/
def EachKept (dir : Text) (tree : Tree) (done : List Done) : Prop :=
  done.Pairwise (fun e d => tree.fileAt (e.path dir) ≠ tree.fileAt (d.path dir)) ∧
    ∀ d ∈ done, ∃ place, tree.fileAt (d.path dir) = some place ∧
      tree.file? place = some (Text.toBytes d.conversion.text)

/-- Scripts of one name have one path, and so one file. -/
theorem EachKept.nodup (h : EachKept dir tree done) : (done.map Done.name).Nodup := by
  refine List.pairwise_map.mpr (h.1.imp fun hne hname => hne ?_)
  unfold Done.path
  rw [hname]

/-- **Every script is kept** just if no two have the same name. -/
theorem Chain.eachKept_iff (h : Chain unpackers args options dir tree done tree') :
    EachKept dir tree' done ↔ (done.map Done.name).Nodup := by
  refine ⟨EachKept.nodup, fun hnames => ?_⟩
  have hapart : done.Pairwise fun e d => e.name ≠ d.name := List.pairwise_map.mp hnames
  refine ⟨?_, fun d hd => ?_⟩
  · refine hapart.imp_of_mem fun he hd hne hsame => hne ?_
    obtain ⟨place, hat, hname⟩ := h.exists_place he
    obtain ⟨place', hat', hname'⟩ := h.exists_place hd
    obtain rfl : place = place' := Option.some.inj (hat.symm.trans (hsame.trans hat'))
    exact Option.some.inj (hname.symm.trans hname')
  · obtain ⟨before, after, rfl⟩ := List.append_of_mem hd
    obtain ⟨-, hafter, -⟩ := List.pairwise_append.mp hapart
    exact h.exists_script fun e he => (List.rel_of_pairwise_cons hafter he).symm

end

/-! ## The whole run -/

section

variable (unpackers : Unpackers) (args : ConvertArgs) (options : Options) (dir : Text)

/-- The dumps that are converted when dumps are converted one after the other. -/
def doneFrom (total : Nat) : Nat → List Text → World → List Done
  | _, [], _ => []
  | number, file :: rest, w =>
    match (convertNext unpackers args options dir total number file : StateM World _).run w with
    | (.ok conversion, w') => ⟨number, file, conversion⟩ :: doneFrom total (number + 1) rest w'
    | (.error _, w') => if args.failFast then [] else doneFrom total (number + 1) rest w'

variable {unpackers args options dir}

/-- **The conversions of a run are such a chain.** -/
theorem chain_convertEach (hdry : args.dryRun = false) (total number : Nat) (batch : Batch)
    (files : List Text) (w : World) :
    Chain unpackers args options dir w.tree
      (doneFrom unpackers args options dir total number files w)
      ((convertEach unpackers args options dir total number batch files : StateM World Batch).run
        w).2.tree := by
  induction files generalizing number batch w with
  | nil => exact .nil w.tree
  | cons file rest ih =>
    unfold convertEach doneFrom
    rw [run_bind]
    have hidle := @idle_of_convertNext unpackers args options dir total number file w
    have hwrites := @writes_of_convertNext unpackers args options dir total number file w hdry
    generalize
      (convertNext unpackers args options dir total number file : StateM World _).run w = ran
      at hidle hwrites ⊢
    obtain ⟨failure | conversion, w'⟩ := ran
    · refine .idle (hidle rfl) ?_
      dsimp only
      split
      · exact .nil w'.tree
      · exact ih _ _ w'
    · exact .writes (hwrites rfl) (ih _ _ w')

/-- The conversions that a run reports are those that succeeded. -/
theorem done_convertEach (total number : Nat) (batch : Batch) (files : List Text) (w : World) :
    ((convertEach unpackers args options dir total number batch files : StateM World Batch).run
        w).1.done =
      batch.done ++
        (doneFrom unpackers args options dir total number files w).map Done.conversion := by
  induction files generalizing number batch w with
  | nil => exact (List.append_nil _).symm
  | cons file rest ih =>
    unfold convertEach doneFrom
    rw [run_bind]
    generalize
      (convertNext unpackers args options dir total number file : StateM World _).run w = ran
    obtain ⟨failure | conversion, w'⟩ := ran
    · dsimp only
      split
      · exact (List.append_nil _).symm
      · exact ih _ _ w'
    · refine (ih _ _ w').trans ?_
      simp

/-- They come in the order of the files, each with its number. -/
theorem sublist_doneFrom (total number : Nat) (files : List Text) (w : World) :
    ((doneFrom unpackers args options dir total number files w).map
      fun d => (d.file, d.number)).Sublist (files.zipIdx number) := by
  induction files generalizing number w with
  | nil => exact .slnil
  | cons file rest ih =>
    unfold doneFrom
    generalize
      (convertNext unpackers args options dir total number file : StateM World _).run w = ran
    obtain ⟨failure | conversion, w'⟩ := ran
    · dsimp only
      split
      · exact List.nil_sublist _
      · exact (ih _ w').cons _
    · exact (ih _ w').cons_cons _

variable (unpackers args options dir)

/-- The dumps that are converted when several are converted into a directory. -/
def succeeded (files : List Text) (w : World) : List Done :=
  let created := ((Host.createDirs dir : StateM World _).run w).2
  let greeting := Script.render [s!"Converting {files.length} files to PostgreSQL...".toList, []]
  doneFrom unpackers args options dir files.length 0 files
    ((Host.err greeting : StateM World _).run created).2

variable {unpackers args options dir}

/-- Figures on the standard output do not touch the tree. -/
theorem tree_report (lines : List Text) (w : World) :
    (runOn (report lines) w).2.tree = w.tree := by
  unfold report
  rw [runOn_lift_bind]
  refine Eq.trans ?_ (World.tree_out (Script.render lines) w)
  generalize (Host.out (Script.render lines) : StateM World _).run w = printed
  obtain ⟨_ | _, w'⟩ := printed <;> rfl

/-- A run that comes to an end writes the scripts of the dumps it has converted, and counts
them in its report. -/
theorem run_convertSeveral (hdry : args.dryRun = false) {files : List Text} {w : World}
    {allWell : Bool}
    (hrun :
      (runOn (convertSeveral unpackers args options dir files : Action (StateM World) Bool) w).1 =
      .ok allWell) :
    let w' :=
      (runOn (convertSeveral unpackers args options dir files : Action (StateM World) Bool) w).2
    Chain unpackers args options dir w.tree (succeeded unpackers args options dir files w) w'.tree ∧
      ∃ front failed, allWell = failed.isEmpty ∧ w'.stderr = front ++ Script.render (batchLines
        files.length
        ⟨(succeeded unpackers args options dir files w).map Done.conversion, failed⟩) := by
  have hcreate : Steady (liftM (Host.createDirs dir : StateM World _)) :=
    steady_change_map fun _ _ => Tree.extends_createDirs
  have hidle : Idle w.tree ((Host.createDirs dir : StateM World _).run w).2.tree :=
    ⟨hcreate w, World.files.createDirs_keeps dir w⟩
  unfold succeeded
  unfold convertSeveral at hrun ⊢
  simp only [hdry, Bool.not_false, if_true, runOn_lift_bind] at hrun ⊢
  generalize (Host.createDirs dir : StateM World _).run w = created at hrun hidle ⊢
  obtain ⟨_ | _, w₁⟩ := created
  case error cause => cases hrun
  simp only [runOn_lift_bind] at hrun ⊢
  generalize Script.render [_, []] = greeting at hrun ⊢
  have hchain := @chain_convertEach unpackers args options dir hdry files.length 0 {} files
    ((Host.err greeting : StateM World _).run w₁).2
  have hdone := @done_convertEach unpackers args options dir files.length 0 {} files
    ((Host.err greeting : StateM World _).run w₁).2
  generalize
    (convertEach unpackers args options dir files.length 0 {} files : StateM World Batch).run _ =
    ran
    at hrun hchain hdone ⊢
  obtain ⟨batch, w₂⟩ := ran
  rw [List.nil_append] at hdone
  rw [← hdone]
  -- With or without figures, the tree is the same when the report is written.
  by_cases hjson : args.json
  · rw [if_pos hjson, runOn_bind] at hrun ⊢
    have htree := tree_report [(Json.array (batch.done.map statsJson)).pretty] w₂
    generalize runOn (report _) w₂ = reported at hrun htree ⊢
    obtain ⟨_ | _, w₃⟩ := reported
    · cases hrun
    · cases hrun
      rw [← htree] at hchain
      exact ⟨.idle hidle hchain, w₃.stderr, batch.failed, rfl, rfl⟩
  · rw [if_neg hjson] at hrun ⊢
    cases hrun
    exact ⟨.idle hidle hchain, w₂.stderr, batch.failed, rfl, rfl⟩

/-- **Which scripts are kept.** When several dumps are converted into a directory, the report
counts the dumps that were converted.  All their scripts are there in the end, each in a file
of its own, if and only if no two of them have the same name.  Each is the script of its dump
as it was at first, unless the script of a dump before it took that dump's place.  Nothing is
assumed of what unpacks packed dumps, so plain dumps and packed ones may come together. -/
theorem convertSeveral_keeps_iff (unpackers : Unpackers) (args : ConvertArgs)
    (options : Options) (dir : Text) (files : List Text) (w : World) (allWell : Bool)
    (hdry : args.dryRun = false)
    (hrun :
      (runOn (convertSeveral unpackers args options dir files : Action (StateM World) Bool) w).1 =
      .ok allWell) :
    let w' :=
      (runOn (convertSeveral unpackers args options dir files : Action (StateM World) Bool) w).2
    let done := succeeded unpackers args options dir files w
    (done.map fun d => (d.file, d.number)).Sublist files.zipIdx ∧
      (∃ front failed, allWell = failed.isEmpty ∧ w'.stderr = front ++ Script.render
        (batchLines files.length ⟨done.map Done.conversion, failed⟩)) ∧
      (EachKept dir w'.tree done ↔ (done.map Done.name).Nodup) ∧
      ∀ before d after, done = before ++ d :: after →
        (∀ e ∈ before, w'.tree.fileAt (e.path dir) ≠ w'.tree.fileAt d.file) →
          ∃ place bytes, w'.tree.fileAt d.file = some place ∧ w.tree.file? place = some bytes ∧
            (args.job options dir d.number d.file).outcome unpackers (.ok bytes) =
              .ok d.conversion := by
  intro w' done
  obtain ⟨hchain, hreport⟩ := run_convertSeveral hdry hrun
  refine ⟨sublist_doneFrom _ _ _ _, hreport, hchain.eachKept_iff, ?_⟩
  intro before d after hdone hbefore
  rw [show succeeded unpackers args options dir files w = _ from hdone] at hchain
  exact hchain.exists_source hbefore

end

/-- A dump `x.sql` in one directory, and a dump of some name and content in another. -/
def twoDumps (name : Text) (bytes : List UInt8) : World :=
  { tree := {
      files := [(["dumps".toList, ['a'], "x.sql".toList], Text.toBytes "-- a\n".toList),
        (["dumps".toList, ['b'], name], bytes)]
      dirs := [["dumps".toList], ["dumps".toList, ['a']], ["dumps".toList, ['b']]]
      workingDir := [] } }

/-- The paths of the two dumps. -/
def dumpPaths (name : Text) : List Text :=
  ["dumps/a/x.sql".toList, "dumps/b/".toList ++ name]

/-- All dumps are to be converted into one directory. -/
def everyDump : ConvertArgs :=
  { file := "dumps/**/*.sql".toList, output := some "out".toList, config := none, strict := false
    progress := false, dryRun := false, json := false, failFast := false }

/-- What the conversion of the two dumps comes to. -/
def convertBoth (unpackers : Unpackers) (name : Text) (bytes : List UInt8) :
    Except Failure Bool × World :=
  runOn (convertSeveral unpackers everyDump {} "out".toList (dumpPaths name)) (twoDumps name bytes)

/-- The two dumps, once converted. -/
def bothDone (unpackers : Unpackers) (name : Text) (bytes : List UInt8) : List Done :=
  succeeded unpackers everyDump {} "out".toList (dumpPaths name) (twoDumps name bytes)

theorem eq_ok_of_toOption {ε α : Type} {result : Except ε α} {a : α}
    (h : result.toOption = some a) : result = .ok a := by
  cases result with
  | error cause => cases h
  | ok b => cases h; rfl

/-- A dump packed behind a mark. -/
def packedDump : List UInt8 :=
  0 :: Text.toBytes "-- b\n".toList

/-- A plain dump and a packed one of another name have their scripts. -/
theorem convertSeveral_keeps_iff_two_names :
    (convertBoth behindMark "y.sql.bz2".toList packedDump).1 = .ok true ∧
      (bothDone behindMark "y.sql.bz2".toList packedDump).map Done.name =
        ["x.sql".toList, "y.sql".toList] ∧
      EachKept "out".toList (convertBoth behindMark "y.sql.bz2".toList packedDump).2.tree
        (bothDone behindMark "y.sql.bz2".toList packedDump) := by
  have hrun : (convertBoth behindMark "y.sql.bz2".toList packedDump).1 = .ok true :=
    eq_ok_of_toOption (by decide +kernel)
  have hnames : (bothDone behindMark "y.sql.bz2".toList packedDump).map Done.name =
      ["x.sql".toList, "y.sql".toList] := by
    decide +kernel
  have hnodup : ((bothDone behindMark "y.sql.bz2".toList packedDump).map Done.name).Nodup := by
    rw [hnames]
    decide
  -- Written out, the runs are the same term, and none has to be evaluated again.
  unfold convertBoth bothDone at *
  have h := convertSeveral_keeps_iff behindMark everyDump {} "out".toList
    (dumpPaths "y.sql.bz2".toList) (twoDumps "y.sql.bz2".toList packedDump) true rfl hrun
  exact ⟨hrun, hnames, h.2.2.1.mpr hnodup⟩

/-- A pattern stands for the files that it finds, in order. -/
theorem runOn_selectInput {path : Text} {pattern : Disk.Glob.Pattern} {files : List Text}
    {w : World} (hpath : Disk.Glob.isPattern path) (hpattern : Disk.Glob.parse path = .ok pattern)
    (hfiles : ((Disk.search pattern >>= (·.filterM Disk.isFile) : StateM World _).run w).1 = files)
    (hne : files ≠ []) :
    (runOn (selectInput path : Action (StateM World) Input) w).1 =
      .ok (.several (Disk.Path.sort files)) := by
  unfold selectInput
  rw [if_pos hpath, hpattern]
  simp only [runOn_lift_bind]
  rw [run_bind] at hfiles
  rw [hfiles, if_neg (by simpa using hne)]
  rfl

/-- The pattern of all dumps, as it is read. -/
def everyPattern : Disk.Glob.Pattern :=
  { start := ['.']
    components := [.literal "dumps".toList, .directories,
      .form [.anySequence, .char '.', .char 's', .char 'q', .char 'l']]
    wantsDirectory := false }

/-- The second of two dumps of one name. -/
def secondDump : List UInt8 :=
  Text.toBytes "-- b\n".toList

/-- The pattern finds two dumps of one name.  Both are converted, and one file is left. -/
theorem not_eachKept_same_name :
    (runOn (selectInput everyDump.file : Action (StateM World) Input)
        (twoDumps "x.sql".toList secondDump)).1 = .ok (.several (dumpPaths "x.sql".toList)) ∧
      (convertBoth .builtin "x.sql".toList secondDump).1 = .ok true ∧
      (bothDone .builtin "x.sql".toList secondDump).map Done.name =
        ["x.sql".toList, "x.sql".toList] ∧
      (convertBoth .builtin "x.sql".toList secondDump).2.tree.namesAt ["out".toList] =
        ["x.sql".toList] ∧
      ¬ EachKept "out".toList (convertBoth .builtin "x.sql".toList secondDump).2.tree
        (bothDone .builtin "x.sql".toList secondDump) := by
  have hpattern : Disk.Glob.parse everyDump.file = .ok everyPattern :=
    eq_ok_of_toOption (by decide)
  have hsort : Disk.Path.sort (dumpPaths "x.sql".toList) = dumpPaths "x.sql".toList := by
    unfold Disk.Path.sort
    rw [List.mergeSort_of_pairwise (by decide)]
    decide +kernel
  have hfiles : ((Disk.search everyPattern >>= (·.filterM Disk.isFile) : StateM World _).run
      (twoDumps "x.sql".toList secondDump)).1 = dumpPaths "x.sql".toList := by
    decide +kernel
  have hselect := runOn_selectInput (by decide) hpattern hfiles (by decide)
  rw [hsort] at hselect
  obtain ⟨hrun, hnames, hleft⟩ :
      (convertBoth .builtin "x.sql".toList secondDump).1.toOption = some true ∧
        (bothDone .builtin "x.sql".toList secondDump).map Done.name =
          ["x.sql".toList, "x.sql".toList] ∧
        (convertBoth .builtin "x.sql".toList secondDump).2.tree.namesAt ["out".toList] =
          ["x.sql".toList] := by
    decide +kernel
  refine ⟨hselect, eq_ok_of_toOption hrun, hnames, hleft, fun hkept => ?_⟩
  have hnodup := hkept.nodup
  rw [hnames] at hnodup
  exact absurd hnodup (by decide)

end DumpBridge.Command
