import Mathlib.Order.Defs.Unbundled
import GameSave.FileSystem.Replace
import GameSave.Proofs.FileSystem.Basic

/-! What changes in a file system, and where. An operation touches the places that
its paths stand for and no others, except that missing directories may be made. -/

namespace GameSave

namespace FileSystem

/-- A tree in which only some places are touched. Elsewhere nothing changes, but there may be a
directory where nothing was. No directory is lost. -/
structure ChangesOnly (touched : Location → Prop) (before after : FileSystem) : Prop where
  node?_eq : ∀ place, ¬touched place → after.node? place = before.node? place ∨
    before.node? place = none ∧ after.node? place = some .directory
  directory : ∀ place, before.node? place = some .directory → after.node? place = some .directory

variable {touched : Location → Prop} {before between after : FileSystem} {path : String}

namespace ChangesOnly

theorem refl (fs : FileSystem) : ChangesOnly touched fs fs :=
  ⟨fun _ _ => .inl rfl, fun _ h => h⟩

/-- Changes in a row touch what either of them touches. -/
theorem trans (hFirst : ChangesOnly touched before between)
    (hSecond : ChangesOnly touched between after) : ChangesOnly touched before after where
  directory place h := hSecond.directory place (hFirst.directory place h)
  node?_eq place hPlace := by
    rcases hFirst.node?_eq place hPlace with hSame | ⟨hNone, hMade⟩
    · rw [← hSame]
      exact hSecond.node?_eq place hPlace
    · exact .inr ⟨hNone, hSecond.directory place hMade⟩

instance : IsPreorder FileSystem (ChangesOnly touched) where
  refl := .refl
  trans _ _ _ := .trans

/-- What may touch more is said of more places. -/
theorem mono {more : Location → Prop} (h : ChangesOnly touched before after)
    (hMore : ∀ place, touched place → more place) : ChangesOnly more before after :=
  ⟨fun place hPlace => h.node?_eq place (fun hTouched => hPlace (hMore place hTouched)),
    h.directory⟩

/-- A file that is not touched stays as it is. -/
theorem file {place : Location} {content : Bytes} (h : ChangesOnly touched before after)
    (hPlace : ¬touched place) (hFile : before.node? place = some (.file content)) :
    after.node? place = some (.file content) := by
  rcases h.node?_eq place hPlace with hSame | ⟨hNone, -⟩
  · exact hSame.trans hFile
  · rw [hNone] at hFile
    cases hFile

/-! ### Single changes -/

theorem put_file {place : Location} (hPlace : place ≠ [])
    (hNode : before.node? place ≠ some .directory) (content : Bytes) :
    ChangesOnly (· = place) before (before.put place (.file content)) where
  node?_eq other hOther := by
    rw [node?_put before hPlace, if_neg hOther]
    exact .inl rfl
  directory other hDirectory := by
    rw [node?_put before hPlace, if_neg]
    · exact hDirectory
    · rintro rfl
      exact hNode hDirectory

theorem put_directory {place : Location} (hPlace : place ≠ [])
    (hNode : before.node? place = none) :
    ChangesOnly (fun _ => False) before (before.put place .directory) where
  node?_eq other _ := by
    rw [node?_put before hPlace]
    split
    · next hOther => exact .inr ⟨hOther ▸ hNode, rfl⟩
    · exact .inl rfl
  directory other hDirectory := by
    rw [node?_put before hPlace]
    split
    · rfl
    · exact hDirectory

theorem erase_file {place : Location} (hPlace : place ≠ [])
    (hNode : before.node? place ≠ some .directory) :
    ChangesOnly (· = place) before (before.erase place) where
  node?_eq other hOther := by
    rw [node?_erase before hPlace, if_neg hOther]
    exact .inl rfl
  directory other hDirectory := by
    rw [node?_erase before hPlace, if_neg]
    · exact hDirectory
    · rintro rfl
      exact hNode hDirectory

/-! ### What is still found -/

/-- Directories can be entered as before. -/
theorem enter_eq_ok (h : ChangesOnly touched before after) {here next : Location} {name : String}
    (hEnter : before.enter here name = .ok next) : after.enter here name = .ok next := by
  unfold enter at hEnter ⊢
  split at hEnter
  · next hBack =>
    rw [if_pos hBack]
    exact hEnter
  · next hName =>
    rw [if_neg hName]
    split at hEnter
    · next hDirectory =>
      rw [h.directory _ hDirectory]
      exact hEnter
    · cases hEnter
    · cases hEnter

/-- Ways through directories are open as before. -/
theorem walk_eq_ok (h : ChangesOnly touched before after) {names : List String} {last : Location}
    (hWalk : before.walk names = .ok last) : after.walk names = .ok last := by
  unfold walk at hWalk ⊢
  generalize ([] : Location) = here at hWalk ⊢
  induction names generalizing here with
  | nil => exact hWalk
  | cons name names ih =>
      rw [List.foldlM_cons] at hWalk ⊢
      obtain ⟨next, hEnter, hRest⟩ := Except.bind_eq_ok.mp hWalk
      exact Except.bind_eq_ok.mpr ⟨next, h.enter_eq_ok hEnter, ih next hRest⟩

/-- A path leads where it led before, because no directory is lost. -/
theorem resolve_eq_ok (h : ChangesOnly touched before after) {target : Target}
    (hResolve : before.resolve path = .ok target) : after.resolve path = .ok target := by
  unfold resolve locate at hResolve ⊢
  obtain ⟨_, hPermit, hResolve⟩ := Except.bind_eq_ok.mp hResolve
  refine Except.bind_eq_ok.mpr ⟨_, hPermit, ?_⟩
  dsimp only at hResolve ⊢
  split at hResolve
  · cases hResolve
  · next hNonempty =>
    rw [if_neg hNonempty]
    split at hResolve
    · exact hResolve
    · split at hResolve
      · next hDirectory =>
        obtain ⟨place, hWalk, hTarget⟩ := Except.map_eq_ok.mp hResolve
        rw [if_pos hDirectory]
        exact Except.map_eq_ok.mpr ⟨place, h.walk_eq_ok hWalk, hTarget⟩
      · next hEntry =>
        obtain ⟨place, hWalk, hTarget⟩ := Except.map_eq_ok.mp hResolve
        rw [if_neg hEntry]
        exact Except.map_eq_ok.mpr ⟨place, h.walk_eq_ok hWalk, hTarget⟩

/-- A path that names a file does so afterwards. -/
theorem names (h : ChangesOnly touched before after) (hNames : before.Names path) :
    after.Names path := by
  obtain ⟨directory, name, hResolve⟩ := hNames
  exact ⟨directory, name, h.resolve_eq_ok hResolve⟩

theorem isDirectory (h : ChangesOnly touched before after)
    (hDirectory : before.isDirectory path = true) : after.isDirectory path = true := by
  unfold FileSystem.isDirectory at hDirectory ⊢
  cases hResolve : before.resolve path with
  | error fault =>
      rw [hResolve] at hDirectory
      cases hDirectory
  | ok target =>
      rw [hResolve] at hDirectory
      rw [h.resolve_eq_ok hResolve]
      cases target with
      | directory place => rfl
      | entry directory name slash =>
          rw [beq_iff_eq] at hDirectory ⊢
          exact h.directory _ hDirectory

/-- A file that is not touched is read as before. -/
theorem read_eq_ok (h : ChangesOnly touched before after) (hPlace : ¬touched (Path.place path))
    {content : Bytes} (hRead : before.read path = .ok content) :
    after.read path = .ok content := by
  obtain ⟨hNames, hFile⟩ := read_eq_ok_iff.mp hRead
  exact read_eq_ok_iff.mpr ⟨h.names hNames, h.file hPlace hFile⟩

end ChangesOnly

/-! ### Operations -/

theorem ne_directory_of_read {content : Bytes} (h : before.read path = .ok content) :
    before.node? (Path.place path) ≠ some .directory := by
  rw [(read_eq_ok_iff.mp h).2]
  exact fun hNode => nomatch hNode

/-- Creating a file changes its own place. -/
theorem changesOnly_of_create (h : before.create path = .ok after) :
    ChangesOnly (· = Path.place path) before after := by
  obtain ⟨hNames, hNode, rfl⟩ := create_eq_ok h
  exact .put_file hNames.place_ne_nil hNode []

theorem changesOnly_of_append {bytes : Bytes} (h : before.append path bytes = .ok after) :
    ChangesOnly (· = Path.place path) before after := by
  obtain ⟨content, hRead, rfl⟩ := append_eq_ok h
  exact .put_file (read_eq_ok_iff.mp hRead).1.place_ne_nil (ne_directory_of_read hRead) _

/-- A new directory is in the way of nothing: it changes no place that was taken. -/
theorem changesOnly_of_makeDirectory (h : before.makeDirectory path = .ok after) :
    ChangesOnly (fun _ => False) before after := by
  obtain ⟨hPlace, hNode, rfl⟩ := makeDirectory_eq_ok h
  exact .put_directory hPlace hNode

/-- Renaming a file changes its old place and its new one. -/
theorem changesOnly_of_renameFile {source target : String}
    (h : before.renameFile source target = .ok after) :
    ChangesOnly (fun place => place = Path.place source ∨ place = Path.place target)
      before after := by
  obtain ⟨content, hRead, hNames, hNode, rfl⟩ := renameFile_eq_ok h
  have hErase : ChangesOnly (· = Path.place source) before (before.erase (Path.place source)) :=
    .erase_file (read_eq_ok_iff.mp hRead).1.place_ne_nil (ne_directory_of_read hRead)
  have hFormer : (before.erase (Path.place source)).node? (Path.place target) ≠
      some .directory := by
    rw [node?_erase before (read_eq_ok_iff.mp hRead).1.place_ne_nil]
    split
    · exact fun hNone => nomatch hNone
    · exact hNode
  exact (hErase.mono fun _ => .inl).trans
    ((ChangesOnly.put_file hNames.place_ne_nil hFormer content).mono fun _ => .inr)

/-- A renamed file has its content at its new place, and none at its old one. -/
theorem read_of_renameFile {source target : String} {content : Bytes}
    (h : before.renameFile source target = .ok after) (hRead : before.read source = .ok content) :
    after.read target = .ok content ∧
      (Path.place source ≠ Path.place target → after.node? (Path.place source) = none) := by
  have hChanges := changesOnly_of_renameFile h
  obtain ⟨found, hFound, hNames, -, rfl⟩ := renameFile_eq_ok h
  obtain rfl := Except.ok.inj (hFound.symm.trans hRead)
  refine ⟨read_eq_ok_iff.mpr ⟨hChanges.names hNames, ?_⟩, fun hSource => ?_⟩
  · rw [node?_put _ hNames.place_ne_nil, if_pos rfl]
  · rw [node?_put _ hNames.place_ne_nil, if_neg hSource,
      node?_erase before (read_eq_ok_iff.mp hRead).1.place_ne_nil, if_pos rfl]

end FileSystem

end GameSave
