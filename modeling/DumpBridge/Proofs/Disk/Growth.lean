import DumpBridge.Proofs.Disk.Files
import DumpBridge.Proofs.Text.Span

/-!
# What stays while files are written

No operation takes away a directory (`Tree.Extends`).  Where no file goes
either, a path goes on to lead where it led (`Tree.Grows.fileAt`).

A file that is moved to a path has the last piece of the path for its name
(`Tree.getLast?_of_rename`), so files that are moved to different names never
take each other's place.
-/

namespace DumpBridge.Disk

/-- The name of a file has no slash. -/
theorem Path.slash_not_mem_of_fileName? {path name : Text} (h : Path.fileName? path = some name) :
    '/' ∉ name := by
  have hlast : (Path.parts path).getLast? = some (.name name) := by
    unfold Path.fileName? at h
    split at h
    next t ht => rw [ht, Option.some.inj h]
    · cases h
  have hmem : Path.Part.name name ∈ (Text.cut '/' path).filterMap Path.part? := by
    have hparts : Path.Part.name name ∈ Path.parts path := List.mem_of_getLast? hlast
    unfold Path.parts at hparts
    refine (List.mem_append.mp hparts).resolve_left ?_
    split <;> [skip; split] <;> simp
  obtain ⟨piece, hpiece, hpart⟩ := List.mem_filterMap.mp hmem
  obtain rfl : piece = name := by
    unfold Path.part? at hpart
    split at hpart
    · cases hpart
    · split at hpart
      · cases hpart
      · simpa using hpart
  exact Text.not_mem_cutFrom (by simp) piece hpiece

/-- The last piece of the path of an entry is the entry's name. -/
theorem Path.getLast?_cut_join (dir : Text) {name : Text} (hname : '/' ∉ name) :
    (Text.cut '/' (Path.join dir name)).getLast? = some name := by
  have hstart : Text.startsWith '/' name = false := by
    cases name with
    | nil => rfl
    | cons c name =>
      obtain ⟨hc, -⟩ := not_or.mp (mt List.mem_cons.mpr hname)
      simpa [Text.startsWith] using Ne.symm hc
  have hslash : ∀ above, (Text.cut '/' (above ++ '/' :: name)).getLast? = some name := by
    intro above
    rw [Text.cut_append, Text.cut_of_not_mem hname]
    simp
  unfold Path.join
  rw [hstart, Bool.false_or]
  split
  · rw [Text.cut_of_not_mem hname]
    rfl
  · split
    next hend =>
      -- The slash between the two is the one that ends the directory's path.
      obtain ⟨above, rfl⟩ : ∃ above, dir = above ++ ['/'] :=
        List.getLast?_eq_some_iff.mp (by simpa [Text.endsWith] using hend)
      rw [List.append_assoc]
      exact hslash above
    · exact hslash dir

namespace Tree

/-- The same working directory, and every directory that there was. -/
structure Extends (tree tree' : Tree) : Prop where
  workingDir : tree'.workingDir = tree.workingDir
  dirs : ∀ l ∈ tree.dirs, l ∈ tree'.dirs

/-- The same working directory, and every directory and every file that there was. -/
structure Grows (tree tree' : Tree) : Prop extends Extends tree tree' where
  files : ∀ l, (tree.file? l).isSome → (tree'.file? l).isSome

variable {tree tree' tree'' : Tree} {l : Location} {path : Text}

theorem Extends.refl (tree : Tree) : tree.Extends tree :=
  ⟨rfl, fun _ h => h⟩

theorem Extends.trans (h : tree.Extends tree') (h' : tree'.Extends tree'') : tree.Extends tree'' :=
  ⟨h'.workingDir.trans h.workingDir, fun l hl => h'.dirs l (h.dirs l hl)⟩

theorem Grows.refl (tree : Tree) : tree.Grows tree :=
  ⟨.refl tree, fun _ h => h⟩

/-- A tree that grows twice has grown. -/
theorem Grows.trans (h : tree.Grows tree') (h' : tree'.Grows tree'') : tree.Grows tree'' :=
  ⟨h.toExtends.trans h'.toExtends, fun l hl => h'.files l (h.files l hl)⟩

/-! ## Paths -/

/-- **A path leads to the same location** in a tree that has grown. -/
theorem Grows.locate_eq_ok (h : tree.Grows tree') (hl : tree.locate path = .ok l) :
    tree'.locate path = .ok l := by
  have hdirs : ∀ l, tree.kindAt? l = some .directory → tree'.kindAt? l = some .directory := by
    intro l hl
    rw [kindAt?_eq_directory_iff] at hl ⊢
    exact hl.imp_right (h.dirs l)
  have hkinds : ∀ l, (tree.kindAt? l).isSome → (tree'.kindAt? l).isSome := by
    intro l hl
    rw [isSome_kindAt?_iff] at hl ⊢
    exact hl.imp (Or.imp_right (h.dirs l)) (h.files l)
  unfold Tree.locate at hl ⊢
  split at hl
  · cases hl
  next hne =>
    rw [if_neg hne]
    obtain ⟨start, hstart, hwalk⟩ := bind_eq_ok hl
    have hstart' : tree'.start path = .ok start := by
      rw [← hstart, Tree.start, Tree.start, h.workingDir]
    have hrest := walk_append hdirs hkinds [] hwalk
    rw [List.append_nil] at hrest
    change ((tree'.start path).bind fun start => _) = _
    rw [hstart']
    exact hrest

/-- A path names a file just if it leads to where one is. -/
theorem fileAt_eq_some_iff :
    tree.fileAt path = some l ↔ tree.locate path = .ok l ∧ (tree.file? l).isSome := by
  unfold Tree.fileAt
  cases tree.locate path with
  | error cause => simp [Except.toOption]
  | ok found => simp +contextual [Except.toOption, Option.filter_eq_some_iff]

/-- **A path to a file** leads to it as long as the tree only grows. -/
theorem Grows.fileAt (h : tree.Grows tree') (hl : tree.fileAt path = some l) :
    tree'.fileAt path = some l := by
  rw [fileAt_eq_some_iff] at hl ⊢
  exact ⟨h.locate_eq_ok hl.1, h.files l hl.2⟩

/-! ## What the operations keep -/

/-- Making directories keeps those that there are. -/
theorem extends_createDirs (h : tree.createDirs path = .ok tree') : tree.Extends tree' := by
  obtain ⟨added, rfl⟩ := createDirs_eq_ok h
  exact ⟨rfl, fun _ hl => List.mem_append_left _ hl⟩

/-- Writing a file keeps them. -/
theorem extends_setFile (tree : Tree) (location : Location) (bytes : List UInt8) :
    tree.Extends (tree.setFile location bytes) :=
  ⟨rfl, fun _ h => h⟩

/-- Removing one keeps them. -/
theorem extends_removeFile (tree : Tree) (location : Location) :
    tree.Extends (tree.removeFile location) :=
  ⟨rfl, fun _ h => h⟩

theorem extends_rename {source : Location} (h : tree.rename source path = .ok tree') :
    tree.Extends tree' := by
  obtain ⟨bytes, target, -, -, rfl⟩ := rename_eq_ok h
  exact (tree.extends_removeFile source).trans (extends_setFile _ target bytes)

/-- **A moved file** has the last piece of its path for its name. -/
theorem getLast?_of_rename {source : Location} (h : tree.rename source path = .ok tree')
    (hl : tree'.locate path = .ok l) : l.getLast? = (Text.cut '/' path).getLast? := by
  unfold rename at h
  split at h
  · cases h
  case h_2 bytes hbytes =>
    obtain ⟨place, hplace, htree⟩ := locate_of_replaceFile h
    obtain ⟨last, above, start, directory, location, hlast, -, -, -, -, -, hentry, hend, htree'⟩ :=
      replaceFile_eq_ok h
    -- The file that was written last is at the end of the list.
    have hsame : place = location := by
      have hfiles := congrArg (fun tree => tree.files.getLast?) (htree.symm.trans htree')
      simpa [setFile] using hfiles
    obtain rfl : l = location := by
      rw [hplace] at hl
      exact (Except.ok.inj hl).symm.trans hsame
    have hname : l = directory ++ [last] := by
      unfold entry at hentry
      split at hentry
      · cases hentry
      · exact (Except.ok.inj hentry).symm
    rw [(cut_eq_of_lastPiece? hlast hend).2.2, hname]
    simp

end Tree

/-- A file that is moved to a path is called like the path's last component. -/
theorem World.getLast?_of_persist {source l : Location} {path : Text} {w w' : World}
    (h : (Host.persist source path : StateM World _).run w = (.ok (), w'))
    (hl : w'.tree.fileAt path = some l) : l.getLast? = (Text.cut '/' path).getLast? := by
  have hw : ((Host.persist source path : StateM World _).run w).2 = w' := congrArg Prod.snd h
  have hrename : w.tree.rename source path = .ok w'.tree := by
    rw [← hw]
    exact World.change_map_ok (congrArg Prod.fst h)
  exact Tree.getLast?_of_rename hrename (Tree.fileAt_eq_some_iff.mp hl).1

end DumpBridge.Disk
