import DumpBridge.Disk.Tree

/-!
# What a machine promises of its files

`Files` says it one operation at a time: reading and creating directories touch no file, a
temporary file is new, filling it touches no other, and moving it to its place is a single
change that happens or does not.  Nothing is said of when an operation is refused.  The
machine in memory keeps these promises; the one step that takes an argument is that a moved
file is then found at the path it was moved to.
-/

namespace DumpBridge.Disk

/-- What a machine promises of its files. -/
structure Files (σ : Type) [Host (StateM σ)] where
  /-- What tells one file from another, under whatever path it is reached. -/
  File : Type
  content : σ → File → Option (List UInt8)
  fileAt : σ → Text → Option File
  ofTemporary : Host.Temporary (StateM σ) → File
  read_keeps : ∀ path s file,
    content ((Host.read path : StateM σ _).run s).2 file = content s file
  read_ok : ∀ path s bytes, ((Host.read path : StateM σ _).run s).1 = .ok bytes →
    ∃ file, fileAt s path = some file ∧ content s file = some bytes
  out_keeps : ∀ text s file, content ((Host.out text : StateM σ _).run s).2 file = content s file
  err_keeps : ∀ text s file, content ((Host.err text : StateM σ _).run s).2 file = content s file
  createDirs_keeps : ∀ path s file,
    content ((Host.createDirs path : StateM σ _).run s).2 file = content s file
  createTemporary_error : ∀ path s cause,
    ((Host.createTemporary path : StateM σ _).run s).1 = .error cause →
      ∀ file, content ((Host.createTemporary path : StateM σ _).run s).2 file = content s file
  createTemporary_ok : ∀ path s temporary,
    ((Host.createTemporary path : StateM σ _).run s).1 = .ok temporary →
      content s (ofTemporary temporary) = none ∧
        ∀ file, file ≠ ofTemporary temporary →
          content ((Host.createTemporary path : StateM σ _).run s).2 file = content s file
  fill_keeps : ∀ temporary bytes s file, file ≠ ofTemporary temporary →
    content ((Host.fill temporary bytes : StateM σ _).run s).2 file = content s file
  fill_ok : ∀ temporary bytes s, ((Host.fill temporary bytes : StateM σ _).run s).1 = .ok () →
    content ((Host.fill temporary bytes : StateM σ _).run s).2 (ofTemporary temporary) = some bytes
  persist_error : ∀ temporary path s cause,
    ((Host.persist temporary path : StateM σ _).run s).1 = .error cause →
      ∀ file, file ≠ ofTemporary temporary →
        content ((Host.persist temporary path : StateM σ _).run s).2 file = content s file
  /-- The place of the temporary file may be its own. -/
  persist_ok : ∀ temporary path s, ((Host.persist temporary path : StateM σ _).run s).1 = .ok () →
    ∃ target,
      fileAt ((Host.persist temporary path : StateM σ _).run s).2 path = some target ∧
        content ((Host.persist temporary path : StateM σ _).run s).2 target =
          content s (ofTemporary temporary) ∧
        (ofTemporary temporary ≠ target →
          content ((Host.persist temporary path : StateM σ _).run s).2 (ofTemporary temporary) =
            none) ∧
        ∀ file, file ≠ target → file ≠ ofTemporary temporary →
          content ((Host.persist temporary path : StateM σ _).run s).2 file = content s file
  discard_removes : ∀ temporary s,
    content ((Host.discard temporary : StateM σ _).run s).2 (ofTemporary temporary) = none
  discard_keeps : ∀ temporary s file, file ≠ ofTemporary temporary →
    content ((Host.discard temporary : StateM σ _).run s).2 file = content s file

namespace Files

variable {σ : Type} [Host (StateM σ)] (files : Files σ)

/-- Every file is the same in both states. -/
def Same (s s' : σ) : Prop :=
  ∀ file, files.content s' file = files.content s file

/-- The file at a path has a content, and every other file is as before. -/
def OnlyAt (path : Text) (bytes : List UInt8) (s s' : σ) : Prop :=
  ∃ target, files.fileAt s' path = some target ∧ files.content s' target = some bytes ∧
    ∀ file, file ≠ target → files.content s' file = files.content s file

variable {files}

theorem Same.refl (s : σ) : files.Same s s := fun _ => rfl

theorem Same.trans {s t u : σ} (h : files.Same s t) (h' : files.Same t u) : files.Same s u :=
  fun file => (h' file).trans (h file)

/-- Reading leaves every file the same. -/
theorem same_read (files : Files σ) (path : Text) (s : σ) :
    files.Same s ((Host.read path : StateM σ _).run s).2 :=
  files.read_keeps path s

theorem Same.onlyAt {path : Text} {bytes : List UInt8} {s t u : σ} (h : files.Same s t)
    (h' : files.OnlyAt path bytes t u) : files.OnlyAt path bytes s u := by
  obtain ⟨target, hat, hcontent, hothers⟩ := h'
  exact ⟨target, hat, hcontent, fun file hfile => (hothers file hfile).trans (h file)⟩

end Files

/-! ## The machine in memory -/

/-- A step that depends on another succeeds only after it. -/
theorem bind_eq_ok {α β : Type} {x : Except SystemError α} {next : α → Except SystemError β} {b : β}
    (h : x >>= next = .ok b) : ∃ a, x = .ok a ∧ next a = .ok b := by
  cases x with
  | error cause => cases h
  | ok a => exact ⟨a, rfl, h⟩

/-- A step behind a guard succeeds only if the guard lets it. -/
theorem guard_eq_ok {β : Type} {c : Prop} [Decidable c] {cause : SystemError}
    {next : Unit → Except SystemError β} {b : β}
    (h : (if c then throw cause >>= next else next ()) = .ok b) : ¬ c ∧ next () = .ok b := by
  by_cases hc : c
  · rw [if_pos hc] at h
    cases h
  · rw [if_neg hc] at h
    exact ⟨hc, h⟩

/-- The last piece of a text is not empty unless the text is or a separator ends it. -/
theorem exists_cutFrom_eq {sep : Char} (piece : Text) {t : Text} (ht : t ≠ [])
    (hend : Text.endsWith sep t = false) :
    ∃ above last, Text.cutFrom sep piece t = above ++ [last] ∧ last ≠ [] := by
  induction t generalizing piece with
  | nil => exact absurd rfl ht
  | cons c rest ih =>
    unfold Text.cutFrom
    cases rest with
    | nil =>
      have hc : c ≠ sep := by simpa [Text.endsWith] using hend
      exact ⟨[], (c :: piece).reverse, by rw [if_neg hc]; rfl, by simp⟩
    | cons d rest =>
      have hrest : Text.endsWith sep (d :: rest) = false := by simpa [Text.endsWith] using hend
      split
      · obtain ⟨above, last, heq, hlast⟩ := ih [] (by simp) hrest
        exact ⟨piece.reverse :: above, last, by rw [heq]; rfl, hlast⟩
      · exact ih (c :: piece) (by simp) hrest

namespace Tree

/-- A directory is the root or one of those listed. -/
theorem kindAt?_eq_directory_iff {tree : Tree} {location : Location} :
    tree.kindAt? location = some .directory ↔ location = [] ∨ location ∈ tree.dirs := by
  unfold kindAt?
  split <;> simp_all

theorem isSome_kindAt?_iff {tree : Tree} {location : Location} :
    (tree.kindAt? location).isSome ↔
      (location = [] ∨ location ∈ tree.dirs) ∨ (tree.file? location).isSome := by
  unfold kindAt?
  split <;> simp_all

theorem file?_of_kindAt? {tree : Tree} {location : Location} (h : tree.kindAt? location = none) :
    tree.file? location = none := by
  have hnone := mt isSome_kindAt?_iff.mpr (by rw [h]; simp)
  simpa using (not_or.mp hnone).2

/-- A file that is removed is gone. -/
theorem file?_removeFile_self (tree : Tree) (location : Location) :
    (tree.removeFile location).file? location = none := by
  simp [file?, removeFile]

/-- Others stay. -/
theorem file?_removeFile {tree : Tree} {location other : Location} (h : other ≠ location) :
    (tree.removeFile location).file? other = tree.file? other := by
  unfold file? removeFile
  rw [List.find?_filter]
  congr 2
  funext entry
  by_cases hentry : entry.1 = other
  · simp [hentry, h]
  · simp [hentry]

/-- A file that is written has its bytes. -/
theorem file?_setFile_self (tree : Tree) (location : Location) (bytes : List UInt8) :
    (tree.setFile location bytes).file? location = some bytes := by
  have hremoved := tree.file?_removeFile_self location
  simp only [file?, removeFile, Option.map_eq_none_iff] at hremoved
  simp [file?, setFile, List.find?_append, hremoved]

/-- Others keep theirs. -/
theorem file?_setFile {tree : Tree} {location other : Location} {bytes : List UInt8}
    (h : other ≠ location) : (tree.setFile location bytes).file? other = tree.file? other := by
  refine Eq.trans ?_ (file?_removeFile h)
  change (((tree.removeFile location).files ++ [(location, bytes)]).find? (·.1 = other)).map
    (·.2) = _
  rw [List.find?_append, List.find?_singleton, if_neg (by simpa using h.symm), Option.or_none]
  rfl

/-- Adding directories does nothing else. -/
theorem addDirs_eq_ok {tree tree' : Tree} {location : Location} {pieces : List Text}
    (h : tree.addDirs location pieces = .ok tree') :
    ∃ added, tree' = { tree with dirs := tree.dirs ++ added } := by
  induction pieces generalizing tree location with
  | nil =>
    cases h
    exact ⟨[], by rw [List.append_nil]⟩
  | cons piece rest ih =>
    unfold addDirs at h
    split at h
    · exact ih h
    · obtain ⟨below, -, h⟩ := bind_eq_ok h
      split at h
      · exact ih h
      · cases h
      · obtain ⟨added, rfl⟩ := ih h
        exact ⟨below :: added, by simp⟩
    · exact ih h

/-- Making directories only adds directories. -/
theorem createDirs_eq_ok {tree tree' : Tree} {path : Text} (h : tree.createDirs path = .ok tree') :
    ∃ added, tree' = { tree with dirs := tree.dirs ++ added } := by
  unfold createDirs at h
  split at h
  · cases hlocate : tree.locate path with
    | error cause => rw [hlocate] at h; cases h
    | ok location =>
      rw [hlocate] at h
      cases h
      exact ⟨[], by rw [List.append_nil]⟩
  · obtain ⟨location, -, h⟩ := bind_eq_ok h
    exact addDirs_eq_ok h

theorem files_createDirs {tree tree' : Tree} {path : Text} (h : tree.createDirs path = .ok tree') :
    tree'.files = tree.files := by
  obtain ⟨added, rfl⟩ := createDirs_eq_ok h
  rfl

/-- The pieces of a path that no separator ends. -/
theorem cut_eq_of_lastPiece? {path last : Text} {above : List Text}
    (h : lastPiece? path = some (last, above)) (hend : Text.endsWith '/' path = false) :
    path ≠ [] ∧ last ≠ [] ∧ Text.cut '/' path = above.reverse ++ [last] := by
  have hne : path ≠ [] := by
    rintro rfl
    cases h
  obtain ⟨pieces, piece, hcut, hpiece⟩ := exists_cutFrom_eq [] hne hend
  rw [← Text.cut] at hcut
  simp only [lastPiece?, hcut, List.reverse_append, List.reverse_singleton, List.singleton_append,
    List.dropWhile_cons, List.isEmpty_iff, hpiece, if_false, Option.some.injEq, Prod.mk.injEq] at h
  exact ⟨hne, h.1 ▸ hpiece, by rw [hcut, ← h.1, ← h.2, List.reverse_reverse]⟩

/-- What must hold for a file to be written. -/
theorem replaceFile_eq_ok {tree tree' : Tree} {path : Text} {bytes : List UInt8}
    (h : tree.replaceFile path bytes = .ok tree') :
    ∃ last above start directory location, lastPiece? path = some (last, above) ∧
      tree.start path = .ok start ∧ tree.walk start above.reverse = .ok directory ∧
      tree.kindAt? directory = some .directory ∧ last ≠ ['.'] ∧ last ≠ ['.', '.'] ∧
      entry directory last = .ok location ∧ Text.endsWith '/' path = false ∧
      tree' = tree.setFile location bytes := by
  unfold replaceFile at h
  split at h
  · cases h
  case h_2 last above hlast =>
    obtain ⟨start, hstart, h⟩ := bind_eq_ok h
    obtain ⟨directory, hwalk, h⟩ := bind_eq_ok h
    obtain ⟨hdirectory, h⟩ := guard_eq_ok h
    obtain ⟨hname, h⟩ := guard_eq_ok h
    obtain ⟨location, hentry, h⟩ := bind_eq_ok h
    obtain ⟨hend, h⟩ := guard_eq_ok h
    obtain ⟨-, h⟩ := guard_eq_ok h
    cases h
    simp only [Bool.or_eq_true, decide_eq_true_eq, not_or] at hname
    exact ⟨last, above, start, directory, location, hlast, hstart, hwalk, by simpa using hdirectory,
      hname.1, hname.2, hentry, by simpa using hend, rfl⟩

/-- With more entries a path still leads where it led, and on from there. -/
theorem walk_append {tree tree' : Tree}
    (hdirs : ∀ l, tree.kindAt? l = some .directory → tree'.kindAt? l = some .directory)
    (hkinds : ∀ l, (tree.kindAt? l).isSome → (tree'.kindAt? l).isSome)
    {location target : Location} {pieces : List Text} (rest : List Text)
    (h : tree.walk location pieces = .ok target) :
    tree'.walk location (pieces ++ rest) = tree'.walk target rest := by
  induction pieces generalizing location with
  | nil => cases h; rfl
  | cons piece pieces ih =>
    rw [List.cons_append, walk]
    unfold walk at h
    split at h
    · cases h
    case isFalse hdirectory =>
      have hdirectory' : tree'.kindAt? location = some .directory :=
        hdirs location (by simpa using hdirectory)
      rw [if_neg (by simpa using hdirectory')]
      split at h
      · exact ih h
      · obtain ⟨below, hentry, h⟩ := bind_eq_ok h
        split at h
        case isTrue hsome =>
          rw [hentry]
          change (if _ then _ else _) = _
          rw [if_pos (hkinds below hsome)]
          exact ih h
        · cases h
      · exact ih h

theorem kindAt?_setFile_of_directory {tree : Tree} {location l : Location} {bytes : List UInt8}
    (h : tree.kindAt? l = some .directory) :
    (tree.setFile location bytes).kindAt? l = some .directory := by
  rw [kindAt?_eq_directory_iff] at h ⊢
  exact h

/-- What was there before is there after a file is written, and so is the file. -/
theorem isSome_kindAt?_setFile {tree : Tree} {location l : Location} {bytes : List UInt8}
    (h : l = location ∨ (tree.kindAt? l).isSome) :
    ((tree.setFile location bytes).kindAt? l).isSome := by
  rw [isSome_kindAt?_iff] at h ⊢
  by_cases hl : l = location
  · exact .inr (by rw [hl, file?_setFile_self]; rfl)
  · rw [file?_setFile hl]
    exact h.resolve_left hl

/-- A file that is written at a path is found there. -/
theorem locate_of_replaceFile {tree tree' : Tree} {path : Text} {bytes : List UInt8}
    (h : tree.replaceFile path bytes = .ok tree') :
    ∃ location, tree'.locate path = .ok location ∧ tree' = tree.setFile location bytes := by
  obtain ⟨last, above, start, directory, location, hlast, hstart, hwalk, hdirectory, hdot, hup,
    hentry, hend, rfl⟩ := replaceFile_eq_ok h
  refine ⟨location, ?_, rfl⟩
  obtain ⟨hne, hlast, hcut⟩ := cut_eq_of_lastPiece? hlast hend
  unfold locate
  rw [if_neg (by simpa using hne), hcut]
  change ((tree.start path).bind fun start => _) = _
  rw [hstart]
  change walk _ start _ = _
  rw [walk_append (fun _ => kindAt?_setFile_of_directory)
    (fun _ hl => isSome_kindAt?_setFile (.inr hl)) [last] hwalk]
  -- The last piece is a name in that directory, and the file is under it.
  have hname : Path.part? last = some (.name last) := by
    simp [Path.part?, hlast, hdot, hup]
  unfold walk
  rw [if_neg (by simpa using kindAt?_setFile_of_directory hdirectory), hname]
  change ((entry directory last).bind fun location => _) = _
  rw [hentry]
  exact if_pos (isSome_kindAt?_setFile (.inl rfl))

/-- A fresh name is not taken. -/
theorem kindAt?_of_freshName? {tree : Tree} {location : Location} {tries n : Nat} {name : Text}
    (h : tree.freshName? location tries n = some name) :
    tree.kindAt? (location ++ [name]) = none := by
  induction tries generalizing n with
  | zero => cases h
  | succ tries ih =>
    unfold freshName? at h
    split at h
    · exact ih h
    case isFalse hfree =>
      cases h
      simpa using hfree

/-- A temporary file is new, and the only one. -/
theorem createTemporary_eq_ok {tree tree' : Tree} {path : Text} {location : Location}
    (h : tree.createTemporary path = .ok (location, tree')) :
    tree.file? location = none ∧ tree' = tree.setFile location [] := by
  unfold createTemporary at h
  obtain ⟨above, -, h⟩ := bind_eq_ok h
  obtain ⟨-, h⟩ := guard_eq_ok h
  split at h
  · cases h
  case h_2 name hname =>
    obtain ⟨-, -, h⟩ := bind_eq_ok h
    cases h
    exact ⟨file?_of_kindAt? (kindAt?_of_freshName? hname), rfl⟩

/-- A file that is moved is found at its new path with its old content, and no longer
where it was. -/
theorem rename_eq_ok {tree tree' : Tree} {source : Location} {path : Text}
    (h : tree.rename source path = .ok tree') :
    ∃ bytes target, tree.file? source = some bytes ∧ tree'.locate path = .ok target ∧
      tree' = (tree.removeFile source).setFile target bytes := by
  unfold rename at h
  split at h
  · cases h
  case h_2 bytes hbytes =>
    obtain ⟨target, hlocate, rfl⟩ := locate_of_replaceFile h
    exact ⟨bytes, target, hbytes, hlocate, rfl⟩

/-- The file at a path. -/
def fileAt (tree : Tree) (path : Text) : Option Location :=
  (tree.locate path).toOption.filter fun location => (tree.file? location).isSome

theorem fileAt_eq_some {tree : Tree} {path : Text} {location : Location} {bytes : List UInt8}
    (hlocate : tree.locate path = .ok location) (hfile : tree.file? location = some bytes) :
    tree.fileAt path = some location := by
  simp [fileAt, hlocate, hfile, Except.toOption]

end Tree

namespace World

variable {α : Type} {edit : Tree → Except SystemError (α × Tree)} {world : World}

/-- A change that is refused changes nothing. -/
theorem change_error {cause : SystemError} (h : ((change edit).run world).1 = .error cause) :
    ((change edit).run world).2 = world := by
  simp only [change, StateT.run] at h ⊢
  cases hedit : edit world.tree with
  | error _ => rfl
  | ok edited => rw [hedit] at h; cases h

/-- **A change that succeeds** leaves the tree that the edit gives. -/
theorem change_ok {result : α} (h : ((change edit).run world).1 = .ok result) :
    ∃ tree, edit world.tree = .ok (result, tree) ∧ ((change edit).run world).2.tree = tree := by
  simp only [change, StateT.run] at h ⊢
  cases hedit : edit world.tree with
  | error _ => rw [hedit] at h; cases h
  | ok edited => rw [hedit] at h; cases h; exact ⟨edited.2, rfl, rfl⟩

/-- A change with no result of its own. -/
theorem change_map_ok {edit : Tree → Except SystemError Tree}
    (h : ((change fun tree => (edit tree).map ((), ·)).run world).1 = .ok ()) :
    edit world.tree = .ok ((change fun tree => (edit tree).map ((), ·)).run world).2.tree := by
  obtain ⟨tree, hedit, rfl⟩ := change_ok h
  revert hedit
  cases edit world.tree with
  | error _ => nofun
  | ok edited => intro hedit; cases hedit; rfl

/-- What is read are the bytes of the file that the path names. -/
theorem read_ok {tree : Tree} {path : Text} {bytes : List UInt8} (h : tree.read path = .ok bytes) :
    ∃ location, tree.fileAt path = some location ∧ tree.file? location = some bytes := by
  unfold Tree.read at h
  split at h
  · cases h
  case h_2 location hlocate =>
    split at h
    case h_1 found hfile =>
      cases h
      exact ⟨location, Tree.fileAt_eq_some hlocate hfile, hfile⟩
    case h_2 => cases h

/-- What is printed does not touch the tree, whether it is taken or not. -/
theorem tree_out (text : Text) (world : World) :
    ((Host.out text : StateM World _).run world).2.tree = world.tree := by
  change (ite _ _ _ : Except SystemError Unit × World).2.tree = _
  split <;> rfl

/-- The machine in memory keeps the promises. -/
def files : Files World where
  File := Location
  content world location := world.tree.file? location
  fileAt world path := world.tree.fileAt path
  ofTemporary location := location
  read_keeps _ _ _ := rfl
  read_ok _ _ _ h := read_ok h
  out_keeps text world location := congrArg (·.file? location) (tree_out text world)
  err_keeps _ _ _ := rfl
  createDirs_keeps path world location := by
    cases hrun : ((Host.createDirs path : StateM World _).run world).1 with
    | error cause => exact congrArg (fun w : World => w.tree.file? location) (change_error hrun)
    | ok _ =>
      have hfiles := Tree.files_createDirs (change_map_ok hrun)
      exact congrArg (fun files => (files.find? (·.1 = location)).map (·.2)) hfiles
  createTemporary_error _ _ _ h _ := congrArg (fun w : World => w.tree.file? _) (change_error h)
  createTemporary_ok path world location h := by
    obtain ⟨tree, hcreate, htree⟩ := change_ok h
    obtain ⟨hnew, rfl⟩ := Tree.createTemporary_eq_ok hcreate
    exact ⟨hnew, fun other hother =>
      (congrArg (·.file? other) htree).trans (Tree.file?_setFile hother)⟩
  fill_keeps _ _ _ _ h := Tree.file?_setFile h
  fill_ok location bytes world _ := Tree.file?_setFile_self world.tree location bytes
  persist_error _ _ _ _ h _ _ := congrArg (fun w : World => w.tree.file? _) (change_error h)
  persist_ok location path world h := by
    obtain ⟨bytes, target, hbytes, hlocate, htree⟩ := Tree.rename_eq_ok (change_map_ok h)
    have hmoved : ((Host.persist location path : StateM World _).run world).2.tree.file? target =
        some bytes := (congrArg (·.file? target) htree).trans (Tree.file?_setFile_self _ _ _)
    have hothers : ∀ other, other ≠ target →
        ((Host.persist location path : StateM World _).run world).2.tree.file? other =
          (world.tree.removeFile location).file? other :=
      fun other hother => (congrArg (·.file? other) htree).trans (Tree.file?_setFile hother)
    refine ⟨target, Tree.fileAt_eq_some hlocate hmoved, hmoved.trans hbytes.symm, fun hne => ?_,
      fun other hother hsource => ?_⟩
    · exact (hothers location hne).trans (Tree.file?_removeFile_self _ _)
    · exact (hothers other hother).trans (Tree.file?_removeFile hsource)
  discard_removes location world := Tree.file?_removeFile_self world.tree location
  discard_keeps _ _ _ h := Tree.file?_removeFile h

end World

end DumpBridge.Disk
