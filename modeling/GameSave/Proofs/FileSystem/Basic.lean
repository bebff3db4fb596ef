import Mathlib.Data.List.Nodup
import GameSave.Proofs.Except
import GameSave.Proofs.FileSystem.Path

/-! What operations on a file system do, if they do not fail. A path that leads
anywhere leads to the place that it stands for. -/

namespace GameSave

/-- The place of a target. -/
def FileSystem.Target.place : FileSystem.Target → Location
  | .entry here name _ => here ++ [name]
  | .directory place => place

namespace FileSystem

variable {fs after : FileSystem} {path : String}

theorem node?_of_mem {place : Location} {node : Node} (hPlace : place ≠ [])
    (h : (place, node) ∈ fs.nodes) : fs.node? place = some node := by
  rw [node?, if_neg hPlace]
  cases hFind : fs.nodes.find? fun entry => entry.1 == place with
  | none =>
      have hAbsent := List.find?_eq_none.mp hFind (place, node) h
      simp at hAbsent
  | some entry =>
      have hSame : entry.1 = place := by simpa using List.find?_some hFind
      have hEntry : entry = (place, node) :=
        List.inj_on_of_nodup_map fs.nodup (List.mem_of_find?_eq_some hFind) h hSame
      rw [hEntry, Option.map_some]

theorem mem_of_node? {place : Location} {node : Node} (hPlace : place ≠ [])
    (h : fs.node? place = some node) : (place, node) ∈ fs.nodes := by
  rw [node?, if_neg hPlace, Option.map_eq_some_iff] at h
  obtain ⟨⟨found, _⟩, hFind, rfl⟩ := h
  obtain rfl : found = place := by simpa using List.find?_some hFind
  exact List.mem_of_find?_eq_some hFind

/-- What stands directly in a directory is found there, and nothing else is. -/
theorem mem_children_iff {directory place : Location} {node : Node} :
    (place, node) ∈ fs.children directory ↔
      place ≠ [] ∧ place.dropLast = directory ∧ fs.node? place = some node := by
  rw [children, List.mem_filter, Bool.and_eq_true, decide_eq_true_iff, beq_iff_eq]
  constructor
  · rintro ⟨hNode, hPlace, hInside⟩
    exact ⟨hPlace, hInside, node?_of_mem hPlace hNode⟩
  · rintro ⟨hPlace, hInside, hNode⟩
    exact ⟨mem_of_node? hPlace hNode, hPlace, hInside⟩

/-- What is removed is gone, and nothing else is. -/
theorem node?_foldl_erase {places : List Location} (hPlaces : [] ∉ places) (other : Location) :
    (places.foldl erase fs).node? other = if other ∈ places then none else fs.node? other := by
  induction places generalizing fs with
  | nil => rfl
  | cons place places ih =>
      obtain ⟨hPlace, hRest⟩ := not_or.mp (mt List.mem_cons.mpr hPlaces)
      rw [List.foldl_cons, ih hRest, node?_erase fs (Ne.symm hPlace)]
      by_cases hOther : other = place <;> by_cases hMem : other ∈ places <;> simp [hOther, hMem]

/-! ### Where paths lead -/

/-- A name that can be entered leads where it would in any tree. -/
theorem enter_eq_ok {here next : Location} {name : String} (h : fs.enter here name = .ok next) :
    next = Path.step here name := by
  unfold enter at h
  unfold Path.step
  split at h
  · next hBack =>
    cases h
    rw [if_pos hBack]
  · next hName =>
    rw [if_neg hName]
    split at h
    · exact (Except.ok.inj h).symm
    · cases h
    · cases h

theorem foldlM_enter_eq_ok {names : List String} {here last : Location}
    (h : names.foldlM fs.enter here = .ok last) : last = names.foldl Path.step here := by
  induction names generalizing here with
  | nil => exact (Except.ok.inj h).symm
  | cons name names ih =>
      rw [List.foldlM_cons] at h
      obtain ⟨next, hEnter, hRest⟩ := Except.bind_eq_ok.mp h
      rw [List.foldl_cons, ← enter_eq_ok hEnter]
      exact ih hRest

/-- A path that can be followed leads to its place. -/
theorem place_of_locate {names : List String} {ending : Path.Ending} {target : Target}
    (h : fs.locate names ending = .ok target) : target.place = names.foldl Path.step [] := by
  unfold locate at h
  split at h
  · next hNone =>
    cases h
    rw [List.getLast?_eq_none_iff.mp hNone]
    rfl
  · next name hLast =>
    split at h
    · obtain ⟨place, hWalk, rfl⟩ := Except.map_eq_ok.mp h
      exact foldlM_enter_eq_ok hWalk
    · next hName =>
      obtain ⟨directory, hWalk, rfl⟩ := Except.map_eq_ok.mp h
      rw [not_or] at hName
      obtain ⟨outer, rfl⟩ := List.getLast?_eq_some_iff.mp hLast
      rw [List.dropLast_concat] at hWalk
      rw [List.foldl_append, List.foldl_cons, List.foldl_nil, Path.step, if_neg hName.2,
        ← foldlM_enter_eq_ok hWalk]
      rfl

/-- A path that leads anywhere leads to the place that it stands for. -/
theorem place_of_resolve {target : Target} (h : fs.resolve path = .ok target) :
    target.place = Path.place path := by
  unfold resolve at h
  obtain ⟨-, -, h⟩ := Except.bind_eq_ok.mp h
  dsimp only at h
  split at h
  · cases h
  · exact place_of_locate h

/-- A file or directory that a path calls by its name, without a slash behind it. -/
def Names (fs : FileSystem) (path : String) : Prop :=
  ∃ directory name, fs.resolve path = .ok (.entry directory name false)

/-- A path that names a file does not lead to the root. -/
theorem Names.place_ne_nil (h : fs.Names path) : Path.place path ≠ [] := by
  obtain ⟨directory, name, hResolve⟩ := h
  rw [← place_of_resolve hResolve]
  exact List.append_ne_nil_of_right_ne_nil directory (List.cons_ne_nil name [])

/-! ### Operations that succeed -/

theorem eq_of_unless_eq_ok {permitted : Prop} [Decidable permitted] {fault : FileFault}
    {changed : FileSystem}
    (h : (do unless permitted do throw fault
             return changed : Except FileFault FileSystem) = .ok after) : after = changed := by
  split at h
  · exact (Except.ok.inj h).symm
  · cases h

/-- What is read is the content of the file at the place of the path. -/
theorem read_eq_ok_iff {content : Bytes} : fs.read path = .ok content ↔
    fs.Names path ∧ fs.node? (Path.place path) = some (.file content) := by
  constructor
  · intro h
    obtain ⟨target, hResolve, h⟩ := Except.bind_eq_ok.mp h
    rw [← place_of_resolve hResolve]
    cases target with
    | directory place => cases h
    | entry directory name slash =>
        dsimp only at h
        split at h
        · cases h
        · cases h
        · next found hNode =>
          cases slash with
          | true => cases h
          | false =>
              cases h
              exact ⟨⟨directory, name, hResolve⟩, hNode⟩
  · rintro ⟨⟨directory, name, hResolve⟩, hNode⟩
    rw [← place_of_resolve hResolve, Target.place] at hNode
    simp only [read, hResolve, hNode, bind, Except.bind]
    rfl

theorem eq_of_read_put {content found : Bytes}
    (h : (fs.put (Path.place path) (.file content)).read path = .ok found) : found = content := by
  obtain ⟨hNames, hNode⟩ := read_eq_ok_iff.mp h
  rw [node?_put fs hNames.place_ne_nil, if_pos rfl] at hNode
  cases hNode
  rfl

/-- A file is created empty, or emptied if it was there. -/
theorem create_eq_ok (h : fs.create path = .ok after) :
    fs.Names path ∧ fs.node? (Path.place path) ≠ some .directory ∧
      after = fs.put (Path.place path) (.file []) := by
  obtain ⟨target, hResolve, h⟩ := Except.bind_eq_ok.mp h
  rw [← place_of_resolve hResolve]
  cases target with
  | directory place => cases h
  | entry directory name slash =>
      cases slash with
      | true => cases h
      | false =>
          dsimp only at h
          split at h
          · cases h
          · next hNode =>
            exact ⟨⟨directory, name, hResolve⟩, hNode, eq_of_unless_eq_ok h⟩

/-- Bytes are added to what is in the file. -/
theorem append_eq_ok {bytes : Bytes} (h : fs.append path bytes = .ok after) :
    ∃ content, fs.read path = .ok content ∧
      after = fs.put (Path.place path) (.file (content ++ bytes)) := by
  obtain ⟨content, hRead, h⟩ := Except.bind_eq_ok.mp h
  obtain ⟨target, hResolve, h⟩ := Except.bind_eq_ok.mp h
  refine ⟨content, hRead, ?_⟩
  rw [← place_of_resolve hResolve]
  cases target with
  | directory place => cases h
  | entry directory name slash => exact (Except.ok.inj h).symm

/-- A directory is made where nothing was. -/
theorem makeDirectory_eq_ok (h : fs.makeDirectory path = .ok after) :
    Path.place path ≠ [] ∧ fs.node? (Path.place path) = none ∧
      after = fs.put (Path.place path) .directory := by
  obtain ⟨target, hResolve, h⟩ := Except.bind_eq_ok.mp h
  rw [← place_of_resolve hResolve]
  cases target with
  | directory place => cases h
  | entry directory name slash =>
      dsimp only at h
      split at h
      · cases h
      · next hNode =>
        exact ⟨List.append_ne_nil_of_right_ne_nil directory (List.cons_ne_nil name []), hNode,
          eq_of_unless_eq_ok h⟩

/-- A renamed file is gone from its old place and has replaced what was at the new one. -/
theorem renameFile_eq_ok {source target : String} (h : fs.renameFile source target = .ok after) :
    ∃ content, fs.read source = .ok content ∧ fs.Names target ∧
      fs.node? (Path.place target) ≠ some .directory ∧
      after = (fs.erase (Path.place source)).put (Path.place target) (.file content) := by
  obtain ⟨from?, hSource, h⟩ := Except.bind_eq_ok.mp h
  obtain ⟨to?, hTarget, h⟩ := Except.bind_eq_ok.mp h
  rw [← place_of_resolve hSource, ← place_of_resolve hTarget]
  cases from? with
  | directory place => cases h
  | entry sourceDirectory sourceName sourceSlash =>
      cases to? with
      | directory place => cases h
      | entry directory name slash =>
          dsimp only at h
          split at h
          · cases h
          · cases h
          · next former content hFile =>
            split at h
            · cases h
            · next hSlash =>
              split at h
              · cases h
              · next hFormer =>
                have hAfter := eq_of_unless_eq_ok h
                rw [Bool.or_eq_true, not_or, Bool.not_eq_true, Bool.not_eq_true] at hSlash
                obtain ⟨rfl, rfl⟩ := hSlash
                have hRead : fs.read source = .ok content := by
                  refine read_eq_ok_iff.mpr ⟨⟨_, _, hSource⟩, ?_⟩
                  rw [← place_of_resolve hSource]
                  exact hFile
                exact ⟨content, hRead, ⟨directory, name, hTarget⟩, hFormer, hAfter⟩

theorem node?_of_create (h : fs.create path = .ok after) {place : Location}
    (hPlace : place ≠ Path.place path) : after.node? place = fs.node? place := by
  obtain ⟨hNames, -, rfl⟩ := create_eq_ok h
  rw [node?_put fs hNames.place_ne_nil, if_neg hPlace]

theorem node?_of_append {bytes : Bytes} (h : fs.append path bytes = .ok after) {place : Location}
    (hPlace : place ≠ Path.place path) : after.node? place = fs.node? place := by
  obtain ⟨content, hRead, rfl⟩ := append_eq_ok h
  rw [node?_put fs (read_eq_ok_iff.mp hRead).1.place_ne_nil, if_neg hPlace]

theorem node?_of_renameFile {source target : String} (h : fs.renameFile source target = .ok after)
    {place : Location} (hSource : place ≠ Path.place source) (hTarget : place ≠ Path.place target) :
    after.node? place = fs.node? place := by
  obtain ⟨content, hRead, hNames, -, rfl⟩ := renameFile_eq_ok h
  rw [node?_put _ hNames.place_ne_nil, if_neg hTarget,
    node?_erase fs (read_eq_ok_iff.mp hRead).1.place_ne_nil, if_neg hSource]

theorem list_eq_ok {entries : List (Location × Node)} (h : fs.list path = .ok entries) :
    entries = fs.children (Path.place path) := by
  obtain ⟨target, hResolve, h⟩ := Except.bind_eq_ok.mp h
  rw [← place_of_resolve hResolve]
  cases target with
  | directory place => exact (Except.ok.inj h).symm
  | entry directory name slash =>
      dsimp only at h
      split at h
      · cases h
      · cases h
      · exact (Except.ok.inj h).symm

/-- Exactly a directory can be listed. -/
theorem exists_list_iff : (∃ entries, fs.list path = .ok entries) ↔ fs.isDirectory path = true := by
  unfold isDirectory list
  cases hResolve : fs.resolve path with
  | error fault => exact iff_of_false (fun ⟨_, h⟩ => nomatch h) (fun h => nomatch h)
  | ok target =>
      cases target with
      | directory place => exact iff_of_true ⟨_, rfl⟩ rfl
      | entry directory name slash =>
          simp only [bind, Except.bind]
          cases hNode : fs.node? (directory ++ [name]) with
          | none => exact iff_of_false (fun ⟨_, h⟩ => nomatch h) (fun h => nomatch h)
          | some node =>
              cases node with
              | file content => exact iff_of_false (fun ⟨_, h⟩ => nomatch h) (fun h => nomatch h)
              | directory => exact iff_of_true ⟨_, rfl⟩ rfl

end FileSystem

end GameSave
