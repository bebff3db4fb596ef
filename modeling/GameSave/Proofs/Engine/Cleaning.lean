import GameSave.Proofs.Engine.FileDesk

/-! Cleaning a directory. What saves have left behind there is removed, and nothing else.
But what is left of a save to no name at all has no extension, and stays. -/

namespace GameSave.FileDesk

/-! ### What is left behind -/

/-- A file that passes for one that was left behind in a directory. -/
structure LeftIn (files : FileSystem) (directory : String) (place : Location) : Prop where
  exists_content : ∃ content, files.node? place = some (.file content)
  dropLast_eq : place.dropLast = Path.place directory
  exists_name : ∃ name, place.getLast? = some name ∧ Path.extension? name = some "tmp" ∧
    (FileSystem.permit (Path.inside directory name)).isOk = true

variable {files : FileSystem} {directory : String} {place : Location}

theorem LeftIn.ne_nil (h : LeftIn files directory place) : place ≠ [] := by
  obtain ⟨name, hName, -⟩ := h.exists_name
  rintro rfl
  cases hName

theorem isLeftover_file_iff (content : Bytes) :
    isLeftover directory (place, .file content) = true ↔
      ∃ name, place.getLast? = some name ∧ Path.extension? name = some "tmp" ∧
        (FileSystem.permit (Path.inside directory name)).isOk = true := by
  simp only [isLeftover, Option.any_eq_true, Bool.and_eq_true, beq_iff_eq]

/-- The places of the files that pass for left behind in a directory. -/
def leftovers (files : FileSystem) (directory : String) : List Location :=
  ((files.children (Path.place directory)).filter (isLeftover directory)).map Prod.fst

/-- What the listing of a directory yields is just what passes for left behind in it. -/
theorem mem_leftovers_iff : place ∈ leftovers files directory ↔ LeftIn files directory place := by
  rw [leftovers, List.mem_map]
  constructor
  · rintro ⟨⟨place, node⟩, hEntry, rfl⟩
    obtain ⟨hChild, hLeftover⟩ := List.mem_filter.mp hEntry
    obtain ⟨-, hInside, hNode⟩ := FileSystem.mem_children_iff.mp hChild
    cases node with
    | directory => cases hLeftover
    | file content => exact ⟨⟨content, hNode⟩, hInside, (isLeftover_file_iff content).mp hLeftover⟩
  · intro h
    obtain ⟨content, hNode⟩ := h.exists_content
    have hChild := FileSystem.mem_children_iff.mpr ⟨h.ne_nil, h.dropLast_eq, hNode⟩
    have hLeftover := (isLeftover_file_iff content).mpr h.exists_name
    exact ⟨_, List.mem_filter.mpr ⟨hChild, hLeftover⟩, rfl⟩

theorem nodup_leftovers : (leftovers files directory).Nodup :=
  files.nodup.sublist ((List.filter_sublist.trans List.filter_sublist).map Prod.fst)

/-- The temporary file of a path passes for left behind in its directory, unless the path has no
name at its end. -/
theorem leftIn_temporary_iff {path name : String} {content : Bytes}
    (hPlace : Path.place (Path.temporary path) = Path.place directory ++ [name])
    (hNode : files.node? (Path.place (Path.temporary path)) = some (.file content))
    (hPermit : (FileSystem.permit (Path.inside directory name)).isOk = true) :
    LeftIn files directory (Path.place (Path.temporary path)) ↔
      path ≠ "" ∧ path.toList.getLast? ≠ some '/' := by
  obtain ⟨front, last, hPieces⟩ := Path.exists_pieces path
  obtain ⟨-, hName⟩ := List.append_inj' ((Path.place_temporary hPieces).symm.trans hPlace) rfl
  obtain rfl := List.singleton_inj.mp hName
  rw [← not_or, ← Path.last_eq_empty_iff hPieces, ← ne_eq, ← Path.extension?_append_tmp]
  constructor
  · intro h
    obtain ⟨found, hFound, hExtension, -⟩ := h.exists_name
    rw [hPlace, List.getLast?_concat] at hFound
    exact Option.some.inj hFound ▸ hExtension
  · intro hExtension
    refine ⟨⟨content, hNode⟩, ?_, _, ?_, hExtension, hPermit⟩
    · rw [hPlace, List.dropLast_concat]
    · rw [hPlace, List.getLast?_concat]

/-! ### Runs -/

variable {held : Location → Bool} {desk : FileDesk}

/-- The files that cleaning a directory removes if some are held. -/
def removed (held : Location → Bool) (files : FileSystem) (directory : String) : List Location :=
  (leftovers files directory).filter fun place => !held place

/-- What is removed is left behind and let go. -/
theorem mem_removed_iff :
    place ∈ removed held files directory ↔ LeftIn files directory place ∧ held place = false := by
  rw [removed, List.mem_filter, mem_leftovers_iff, Bool.not_eq_true']

theorem run_cleanExcept_of_not_isDirectory (held : Location → Bool)
    (h : desk.files.isDirectory directory = false) :
    ∃ fault, (cleanExcept held directory).run desk = (.error fault, ⟨desk.files, .free⟩) := by
  rw [cleanExcept, run_exclusively, StateT.run_modifyGet]
  cases hList : desk.files.list directory with
  | error fault => exact ⟨fault, rfl⟩
  | ok entries =>
      have hDirectory := FileSystem.exists_list_iff.mp ⟨entries, hList⟩
      rw [h] at hDirectory
      cases hDirectory

/-- The lock is free again afterwards, and all that is let go is gone. -/
theorem run_cleanExcept_of_isDirectory (held : Location → Bool)
    (h : desk.files.isDirectory directory = true) :
    (cleanExcept held directory).run desk =
      (.ok (removed held desk.files directory).length,
        ⟨(removed held desk.files directory).foldl FileSystem.erase desk.files, .free⟩) := by
  obtain ⟨entries, hList⟩ := FileSystem.exists_list_iff.mpr h
  rw [cleanExcept, run_exclusively, StateT.run_modifyGet, hList, FileSystem.list_eq_ok hList]
  rfl

/-- Only the removed files are gone. -/
theorem node?_removed (place : Location) :
    ((removed held files directory).foldl FileSystem.erase files).node? place =
      if place ∈ removed held files directory then none else files.node? place := by
  refine FileSystem.node?_foldl_erase (fun hRoot => ?_) place
  exact (mem_removed_iff.mp hRoot).1.ne_nil rfl

/-- Cleaning touches what stands in its directory and has the extension of temporary files. -/
theorem changesOnly_cleanExcept (held : Location → Bool) (directory : String) (desk : FileDesk) :
    FileSystem.ChangesOnly (fun place => place.dropLast = Path.place directory ∧
        place.getLast?.bind Path.extension? = some "tmp")
      desk.files ((cleanExcept held directory).run desk).2.files := by
  cases hDirectory : desk.files.isDirectory directory with
  | false =>
      obtain ⟨fault, hRun⟩ := run_cleanExcept_of_not_isDirectory held hDirectory
      rw [hRun]
      exact .refl _
  | true =>
      rw [run_cleanExcept_of_isDirectory held hDirectory]
      constructor
      · intro place hUntouched
        rw [node?_removed, if_neg]
        · exact .inl rfl
        · intro hRemoved
          have hLeft := (mem_removed_iff.mp hRemoved).1
          obtain ⟨name, hName, hExtension, -⟩ := hLeft.exists_name
          have hTmp := Option.bind_eq_some_iff.mpr ⟨name, hName, hExtension⟩
          exact hUntouched ⟨hLeft.dropLast_eq, hTmp⟩
      · intro place hNode
        rw [node?_removed, if_neg]
        · exact hNode
        · intro hRemoved
          obtain ⟨content, hContent⟩ := (mem_removed_iff.mp hRemoved).1.exists_content
          rw [hNode] at hContent
          cases hContent

/-- If all could be removed, there is nothing to be removed after that. -/
theorem removed_of_removed {others : Location → Bool}
    (hHeld : ∀ place, LeftIn files directory place → held place = false) :
    removed others ((removed held files directory).foldl FileSystem.erase files) directory =
      [] := by
  refine List.eq_nil_iff_forall_not_mem.mpr fun place hPlace => ?_
  obtain ⟨hLeft, -⟩ := mem_removed_iff.mp hPlace
  obtain ⟨content, hContent⟩ := hLeft.exists_content
  rw [node?_removed] at hContent
  split at hContent
  · cases hContent
  · next hKept =>
    have hBefore : LeftIn files directory place :=
      ⟨⟨content, hContent⟩, hLeft.dropLast_eq, hLeft.exists_name⟩
    exact hKept (mem_removed_iff.mpr ⟨hBefore, hHeld place hBefore⟩)

/-- Cleaning a directory removes exactly the files that pass for left behind in it, as far as they
are let go, and counts them. Once all of them are gone it finds nothing any more. Of what a save has
left behind it misses a file only if the path of the save had no name at its end. All this is said
of trees without links and permissions; a file that is not let go is one that is held. -/
theorem cleanExcept_removes_leftovers (held : Location → Bool) (directory : String)
    (desk : FileDesk) :
    (desk.files.isDirectory directory = false →
      ∃ fault, (cleanExcept held directory).run desk = (.error fault, ⟨desk.files, .free⟩)) ∧
    (desk.files.isDirectory directory = true → ∃ (gone : List Location) (after : FileSystem),
      (cleanExcept held directory).run desk = (.ok gone.length, ⟨after, .free⟩) ∧ gone.Nodup ∧
      (∀ place, place ∈ gone ↔ LeftIn desk.files directory place ∧ held place = false) ∧
      (∀ place, after.node? place = if place ∈ gone then none else desk.files.node? place) ∧
      ((∀ place, LeftIn desk.files directory place → held place = false) → ∀ others,
        (cleanExcept others directory).run ⟨after, .free⟩ = (.ok 0, ⟨after, .free⟩)) ∧
      ∀ path name content,
        Path.place (Path.temporary path) = Path.place directory ++ [name] →
        desk.files.node? (Path.place (Path.temporary path)) = some (.file content) →
        (FileSystem.permit (Path.inside directory name)).isOk = true →
        held (Path.place (Path.temporary path)) = false →
          (after.node? (Path.place (Path.temporary path)) = none ↔
            path ≠ "" ∧ path.toList.getLast? ≠ some '/')) := by
  refine ⟨run_cleanExcept_of_not_isDirectory held, fun hDirectory => ?_⟩
  have hRun := run_cleanExcept_of_isDirectory held hDirectory
  have hChanges := changesOnly_cleanExcept held directory desk
  rw [hRun] at hChanges
  refine ⟨removed held desk.files directory, _, hRun, nodup_leftovers.filter _,
    fun place => mem_removed_iff, node?_removed, fun hHeld others => ?_, ?_⟩
  · rw [run_cleanExcept_of_isDirectory others (hChanges.isDirectory hDirectory),
      removed_of_removed hHeld]
    rfl
  · intro path name content hPlace hNode hPermit hFree
    rw [← leftIn_temporary_iff hPlace hNode hPermit, node?_removed, hNode]
    simp [mem_removed_iff, hFree]

/-- A save to the place of a directory fails, and cleaning removes what it has left behind. -/
theorem cleanExcept_removes_leftovers_failed_save :
    let e : Engine BuiltinDelegate := .standard id { Settings.standard with compress := false }
    let files := (FileSystem.empty.put ["saves"] .directory).put ["saves", "a"] .directory
    let failed := (save e .blank "saves/a").run (.ofFiles files)
    failed.1.toOption = none ∧ ∃ content after,
      failed.2.files.node? ["saves", "a.tmp"] = some (.file content) ∧
        (clean "saves").run failed.2 = (.ok 1, ⟨after, .free⟩) ∧
          after.node? ["saves", "a.tmp"] = none := by
  intro e files failed
  refine ⟨by decide +kernel, ?_⟩
  cases hNode : failed.2.files.node? ["saves", "a.tmp"] with
  | none => exact absurd hNode (by decide +kernel)
  | some node =>
      cases node with
      | directory => exact absurd hNode (by decide +kernel)
      | file content =>
          obtain ⟨gone, after, hRun, -, -, -, -, hTemporary⟩ :=
            (cleanExcept_removes_leftovers (fun _ => false) "saves" failed.2).2 (by decide +kernel)
          have hOne : ((clean "saves").run failed.2).1.toOption = some 1 := by decide +kernel
          have hPlace :
              Path.place (Path.temporary "saves/a") = Path.place "saves" ++ ["a.tmp"] := by
            decide +kernel
          rw [← clean] at hRun
          rw [hRun] at hOne
          obtain hLength : gone.length = 1 := Option.some.inj hOne
          rw [hLength] at hRun
          refine ⟨content, after, rfl, hRun, ?_⟩
          exact (hTemporary "saves/a" "a.tmp" content hPlace hNode (by decide +kernel) rfl).mpr
            (by decide +kernel)

/-- A save to a directory with a slash behind it fails, and cleaning does not remove what it has
left behind: the temporary file has nothing but an extension for a name. -/
theorem clean_misses_leftover :
    let e : Engine BuiltinDelegate := .standard id { Settings.standard with compress := false }
    let files := FileSystem.empty.put ["saves"] .directory
    let failed := (save e .blank "saves/").run (.ofFiles files)
    let cleaned := (clean "saves").run failed.2
    failed.1.toOption = none ∧ Path.place (Path.temporary "saves/") = ["saves", ".tmp"] ∧
      files.node? ["saves", ".tmp"] = none ∧ failed.2.files.node? ["saves", ".tmp"] ≠ none ∧
        cleaned.1.toOption = some 0 ∧ cleaned.2.files = failed.2.files := by
  decide +kernel

end GameSave.FileDesk
