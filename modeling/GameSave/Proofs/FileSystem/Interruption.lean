import Mathlib.Logic.Relation
import GameSave.Proofs.FileSystem.Replace

/-! Replacing a file while something goes wrong. Any step may fail, and the machine may
stop at any moment. Until the temporary file is whole and takes its place, the file
stays as it was. Only missing directories are left behind, and the temporary file. -/

namespace GameSave

/-! ### What is kept -/

namespace FileSystem

/-- At a place all is as it was, or nothing was there and there is now a directory that one of some
paths stands for. -/
def KeptAt (paths : List String) (before after : FileSystem) (place : Location) : Prop :=
  after.node? place = before.node? place ∨
    before.node? place = none ∧ after.node? place = some .directory ∧
      ∃ path ∈ paths, Path.place path = place

variable {paths : List String} {before between after : FileSystem} {place : Location}

/-- What is kept twice is kept. -/
theorem KeptAt.trans (hFirst : KeptAt paths before between place)
    (hSecond : KeptAt paths between after place) : KeptAt paths before after place := by
  rcases hFirst with hSame | ⟨hNone, hMade, hPath⟩
  · rwa [KeptAt, hSame] at hSecond
  · rcases hSecond with hSame | ⟨hNothing, -, -⟩
    · exact .inr ⟨hNone, hSame.trans hMade, hPath⟩
    · rw [hMade] at hNothing
      cases hNothing

theorem KeptAt.mono {more : List String} (h : KeptAt paths before after place)
    (hMore : paths ⊆ more) : KeptAt more before after place :=
  h.imp_right fun ⟨hNone, hMade, path, hPath, hPlace⟩ => ⟨hNone, hMade, path, hMore hPath, hPlace⟩

instance : IsPreorder FileSystem fun before after => KeptAt paths before after place where
  refl _ := .inl rfl
  trans _ _ _ := .trans

/-- Where no path leads nothing changes. -/
theorem KeptAt.eq (h : KeptAt paths before after place)
    (hPaths : ∀ path ∈ paths, Path.place path ≠ place) :
    after.node? place = before.node? place := by
  rcases h with hSame | ⟨-, -, path, hPath, hPlace⟩
  · exact hSame
  · exact absurd hPlace (hPaths path hPath)

/-- One of some directories is made. -/
def MakesOne (paths : List String) (before after : FileSystem) : Prop :=
  ∃ path ∈ paths, before.makeDirectory path = .ok after

/-- A directory that is made takes a place that was free. -/
theorem keptAt_of_makesOne (h : MakesOne paths before after) (place : Location) :
    KeptAt paths before after place := by
  obtain ⟨path, hPath, hMake⟩ := h
  obtain ⟨hPlace, hNone, rfl⟩ := makeDirectory_eq_ok hMake
  rw [KeptAt, node?_put before hPlace]
  split
  · next hSame =>
    obtain rfl := hSame
    exact .inr ⟨hNone, rfl, path, hPath, rfl⟩
  · exact .inl rfl

end FileSystem

/-! ### How steps end -/

namespace ReplaceStep

open FileSystem

/-- How a sequence of steps can end. -/
inductive Outcome where
  | done
  /-- A step failed, and those after it were not begun. -/
  | failed
  /-- The machine stopped. -/
  | cutOff
deriving DecidableEq, Repr

def Outcome.ofResult : Except FileFault Unit → Outcome
  | .ok _ => .done
  | .error _ => .failed

/-- What a step has done that came to its end. Which directories it made depends on those that were
there, and nothing more is said of that. -/
def Does : ReplaceStep → FileSystem → FileSystem → Prop
  | makeDirectories paths => Relation.ReflTransGen (MakesOne paths)
  | create path => fun before after => before.create path = .ok after
  | append path bytes => fun before after => before.append path bytes = .ok after
  | flush _ => fun before after => after = before
  | rename source target => fun before after => before.renameFile source target = .ok after

/-- What a step can have done that failed or was cut off. A part of the directories can be made, and
a part of the bytes written. A file is renamed as a whole or not at all. -/
def DoesPart : ReplaceStep → FileSystem → FileSystem → Prop
  | makeDirectories paths => Relation.ReflTransGen (MakesOne paths)
  | create path => fun before after => after = before ∨ before.create path = .ok after
  | append path bytes => fun before after =>
    after = before ∨ ∃ written, written <+: bytes ∧ before.append path written = .ok after
  | flush _ => fun before after => after = before
  | rename _ _ => fun before after => after = before

/-- The ways in which a sequence of steps can end if any of them may fail, for reasons of its own,
and the machine may stop before, in and after any of them. -/
inductive Ends : List ReplaceStep → FileSystem → Outcome → FileSystem → Prop where
  | done (fs : FileSystem) : Ends [] fs .done fs
  | cutOff (steps : List ReplaceStep) (fs : FileSystem) : Ends steps fs .cutOff fs
  | failsIn {step : ReplaceStep} {later : List ReplaceStep} {before after : FileSystem}
      (hPart : step.DoesPart before after) : Ends (step :: later) before .failed after
  | cutOffIn {step : ReplaceStep} {later : List ReplaceStep} {before after : FileSystem}
      (hPart : step.DoesPart before after) : Ends (step :: later) before .cutOff after
  | next {step : ReplaceStep} {later : List ReplaceStep} {outcome : Outcome}
      {before between after : FileSystem} (hStep : step.Does before between)
      (hLater : Ends later between outcome after) : Ends (step :: later) before outcome after

variable {step : ReplaceStep} {steps : List ReplaceStep} {before between after : FileSystem}
  {outcome : Outcome}

/-! ### Runs without interruption -/

/-- The directories that the program makes are made one by one. -/
theorem makes_of_run (paths : List String) (fs : FileSystem) :
    Relation.ReflTransGen (MakesOne paths) fs ((makeDirectories paths).run.run.run fs).2 := by
  have : IsPreorder FileSystem (Relation.ReflTransGen (MakesOne paths)) := {}
  exact FileOperation.Leads.makeDirectories
    (fun path hPath _ _ hMake => .single ⟨path, hPath, hMake⟩) fs

/-- A step that is run to its end has been done. -/
theorem does_of_run (h : step.run.run.run before = (.ok (), after)) : step.Does before after := by
  cases step with
  | makeDirectories paths =>
      have hMade := makes_of_run paths before
      rwa [h] at hMade
  | create path => exact FileOperation.run_change_eq_ok.mp h
  | append path bytes => exact FileOperation.run_change_eq_ok.mp h
  | flush path => exact (congrArg Prod.snd h).symm
  | rename source target => exact FileOperation.run_change_eq_ok.mp h

/-- A step that fails when it is run has been done in part at most. -/
theorem doesPart_of_run {fault : FileFault} (h : step.run.run.run before = (.error fault, after)) :
    step.DoesPart before after := by
  cases step with
  | makeDirectories paths =>
      have hMade := makes_of_run paths before
      rwa [h] at hMade
  | create path => exact .inl (FileOperation.eq_of_run_change_eq_error h)
  | append path bytes => exact .inl (FileOperation.eq_of_run_change_eq_error h)
  | flush path => cases congrArg Prod.fst h
  | rename source target => exact FileOperation.eq_of_run_change_eq_error h

/-- What is run without interruption ends in one of these ways. -/
theorem ends_of_run (steps : List ReplaceStep) (fs : FileSystem) :
    Ends steps fs (.ofResult ((forM steps run).run.run fs).1) ((forM steps run).run.run fs).2 := by
  induction steps generalizing fs with
  | nil => exact .done fs
  | cons step later ih =>
      rw [List.forM_cons, FileOperation.run_bind]
      rcases hRun : step.run.run.run fs with ⟨fault | ⟨⟩, between⟩
      · exact .failsIn (doesPart_of_run hRun)
      · exact .next (does_of_run hRun) (ih between)

/-! ### What steps spare and change -/

/-- The directories that a step makes. -/
def directories : ReplaceStep → List String
  | makeDirectories paths => paths
  | _ => []

/-- One operation of those that a step is made of. A part of the bytes is here written by an
operation of its own. -/
def Alters : ReplaceStep → FileSystem → FileSystem → Prop
  | makeDirectories paths => MakesOne paths
  | create path => fun before after => before.create path = .ok after
  | append path bytes => fun before after =>
    ∃ written, written <+: bytes ∧ before.append path written = .ok after
  | flush _ => fun _ _ => False
  | rename source target => fun before after => before.renameFile source target = .ok after

/-- What is so between the trees before and after each operation is so of a step, whether it comes
to its end or not, if it can be chained. -/
theorem rel_of_does {R : FileSystem → FileSystem → Prop} [IsPreorder FileSystem R]
    (hAlters : ∀ before after, step.Alters before after → R before after)
    (h : step.Does before after ∨ step.DoesPart before after) : R before after := by
  cases step with
  | makeDirectories paths =>
      have hMade : Relation.ReflTransGen (MakesOne paths) before after := or_self_iff.mp h
      induction hMade with
      | refl => exact refl_of R before
      | tail hFirst hLast ih => exact trans_of R (ih (.inl hFirst)) (hAlters _ _ hLast)
  | create path =>
      rcases h with hCreate | rfl | hCreate
      · exact hAlters _ _ hCreate
      · exact refl_of R _
      · exact hAlters _ _ hCreate
  | append path bytes =>
      rcases h with hAppend | rfl | hPart
      · exact hAlters _ _ ⟨bytes, List.prefix_refl bytes, hAppend⟩
      · exact refl_of R _
      · exact hAlters _ _ hPart
  | flush path =>
      obtain rfl := or_self_iff.mp h
      exact refl_of R _
  | rename source target =>
      rcases h with hRename | rfl
      · exact hAlters _ _ hRename
      · exact refl_of R _

/-- The same of a whole sequence of steps, however it ends. -/
theorem rel_of_ends {R : FileSystem → FileSystem → Prop} [IsPreorder FileSystem R]
    (hAlters : ∀ step ∈ steps, ∀ before after, step.Alters before after → R before after)
    (h : Ends steps before outcome after) : R before after := by
  induction h with
  | done fs => exact refl_of R fs
  | cutOff steps fs => exact refl_of R fs
  | failsIn hPart => exact rel_of_does (hAlters _ List.mem_cons_self) (.inr hPart)
  | cutOffIn hPart => exact rel_of_does (hAlters _ List.mem_cons_self) (.inr hPart)
  | next hFirst hLater ih =>
      refine trans_of R (rel_of_does (hAlters _ List.mem_cons_self) (.inl hFirst)) (ih ?_)
      exact fun step hMem => hAlters step (List.mem_cons_of_mem _ hMem)

/-- An operation makes a directory of its step, and touches nothing but what the step has to. -/
theorem keptAt_of_alters {place : Location} (hPlace : ¬step.Touches place)
    (h : step.Alters before after) : KeptAt step.directories before after place := by
  cases step with
  | makeDirectories paths => exact keptAt_of_makesOne h place
  | create path => exact .inl (node?_of_create h hPlace)
  | append path bytes =>
      obtain ⟨written, -, hAppend⟩ := h
      exact .inl (node?_of_append hAppend hPlace)
  | flush path => exact h.elim
  | rename source target =>
      obtain ⟨hSource, hTarget⟩ := not_or.mp hPlace
      exact .inl (node?_of_renameFile h hSource hTarget)

/-- However some steps end, what none of them touches is kept. -/
theorem keptAt_of_ends {paths : List String} {place : Location}
    (hPlace : ∀ step ∈ steps, ¬step.Touches place)
    (hPaths : ∀ step ∈ steps, step.directories ⊆ paths)
    (h : Ends steps before outcome after) : KeptAt paths before after place := by
  refine rel_of_ends (R := fun before after => KeptAt paths before after place) ?_ h
  intro step hMem before after hAlters
  exact (keptAt_of_alters (hPlace step hMem) hAlters).mono (hPaths step hMem)

/-- An operation changes only what its step touches. -/
theorem changesOnly_of_alters (h : step.Alters before after) :
    ChangesOnly step.Touches before after := by
  cases step with
  | makeDirectories paths =>
      obtain ⟨path, -, hMake⟩ := h
      exact changesOnly_of_makeDirectory hMake
  | create path => exact changesOnly_of_create h
  | append path bytes =>
      obtain ⟨written, -, hAppend⟩ := h
      exact changesOnly_of_append hAppend
  | flush path => exact h.elim
  | rename source target => exact changesOnly_of_renameFile h

/-- However some steps end, they change only what they touch. -/
theorem changesOnly_of_ends {touched : Location → Prop}
    (hTouched : ∀ step ∈ steps, ∀ place, step.Touches place → touched place)
    (h : Ends steps before outcome after) : ChangesOnly touched before after := by
  refine rel_of_ends (fun step hMem before after hAlters => ?_) h
  exact (changesOnly_of_alters hAlters).mono (hTouched step hMem)

/-! ### Sequences of steps -/

/-- Steps end before the last of them are begun, or these end where the first came to their end. -/
theorem ends_append {first second : List ReplaceStep}
    (h : Ends (first ++ second) before outcome after) :
    outcome ≠ .done ∧ Ends first before outcome after ∨
      ∃ between, Ends first before .done between ∧ Ends second between outcome after := by
  induction first generalizing before with
  | nil => exact .inr ⟨before, .done before, h⟩
  | cons step first ih =>
      cases h with
      | cutOff => exact .inl ⟨by decide, .cutOff _ _⟩
      | failsIn hPart => exact .inl ⟨by decide, .failsIn hPart⟩
      | cutOffIn hPart => exact .inl ⟨by decide, .cutOffIn hPart⟩
      | next hStep hLater =>
          rcases ih hLater with ⟨hNotDone, hFirst⟩ | ⟨between, hFirst, hSecond⟩
          · exact .inl ⟨hNotDone, .next hStep hFirst⟩
          · exact .inr ⟨between, .next hStep hFirst, hSecond⟩

/-! ### Replacing a file -/

/-- The steps before the old file is touched. -/
def preparation (path : String) (content : Bytes) : List ReplaceStep :=
  [makeDirectories (Path.around path), create (Path.temporary path),
    append (Path.temporary path) content, flush (Path.temporary path)]

theorem all_eq (path : String) (content : Bytes) :
    all path content = preparation path content ++ [rename (Path.temporary path) path] := rfl

/-- Until the temporary file is renamed, only its own place is touched. -/
theorem not_touches_of_mem_preparation {path : String} {content : Bytes} {place : Location}
    (hPlace : place ≠ Path.place (Path.temporary path)) :
    ∀ step ∈ preparation path content, ¬step.Touches place := by
  simp [preparation, Touches, hPlace]

/-- A file is replaced without touching any place but its own and that of its temporary file. -/
theorem touches_of_mem_all {path : String} {content : Bytes} {place : Location} :
    ∀ step ∈ all path content, step.Touches place →
      place = Path.place path ∨ place = Path.place (Path.temporary path) := by
  intro step hStep hTouches
  simp only [all, List.mem_cons, List.not_mem_nil, or_false] at hStep
  rcases hStep with rfl | rfl | rfl | rfl | rfl
  · exact hTouches.elim
  · exact .inr hTouches
  · exact .inr hTouches
  · exact hTouches.elim
  · exact hTouches.symm

theorem directories_of_mem_all {path : String} {content : Bytes} :
    ∀ step ∈ all path content, step.directories ⊆ Path.around path := by
  simp [all, directories]

/-- When all is prepared, the temporary file has the whole content. -/
theorem read_of_preparation {path : String} {content : Bytes}
    (h : Ends (preparation path content) before .done after) :
    after.read (Path.temporary path) = .ok content := by
  obtain _ | _ | _ | _ | ⟨hDirectories, h⟩ := h
  obtain _ | _ | _ | _ | ⟨hCreate, h⟩ := h
  obtain _ | _ | _ | _ | ⟨hAppend, h⟩ := h
  obtain _ | _ | _ | _ | ⟨hFlush, h⟩ := h
  cases h
  cases hFlush
  obtain ⟨hNames, -, rfl⟩ := create_eq_ok hCreate
  have hKept := (changesOnly_of_create hCreate).trans (changesOnly_of_append hAppend)
  obtain ⟨nothing, hNothing, rfl⟩ := append_eq_ok hAppend
  obtain rfl := eq_of_read_put hNothing
  refine read_eq_ok_iff.mpr ⟨hKept.names hNames, ?_⟩
  rw [node?_put _ hNames.place_ne_nil, if_pos rfl]
  rfl

/-- A rename is done as a whole or not at all. -/
theorem ends_rename {source target : String}
    (h : Ends [rename source target] before outcome after) :
    outcome ≠ .done ∧ after = before ∨
      outcome ≠ .failed ∧ before.renameFile source target = .ok after := by
  cases h with
  | cutOff => exact .inl ⟨by decide, rfl⟩
  | failsIn hPart => exact .inl ⟨by decide, hPart⟩
  | cutOffIn hPart => exact .inl ⟨by decide, hPart⟩
  | next hStep hLater =>
      cases hLater with
      | done => exact .inr ⟨by decide, hStep⟩
      | cutOff => exact .inr ⟨by decide, hStep⟩

/-- What is at the place of a file is kept until the temporary file is put there, and by then that
one has the whole content. -/
theorem ends_all {path : String} {content : Bytes}
    (h : Ends (all path content) before outcome after) :
    outcome ≠ .done ∧ KeptAt (Path.around path) before after (Path.place path) ∨
      outcome ≠ .failed ∧ after.read path = .ok content ∧
        after.node? (Path.place (Path.temporary path)) = none := by
  have hSpared : ∀ step ∈ preparation path content, ¬step.Touches (Path.place path) :=
    not_touches_of_mem_preparation (Path.place_temporary_ne path).symm
  have hPaths : ∀ step ∈ preparation path content, step.directories ⊆ Path.around path :=
    fun step hMem => directories_of_mem_all step (List.mem_append_left _ hMem)
  rw [all_eq] at h
  rcases ends_append h with ⟨hNotDone, hEnds⟩ | ⟨between, hPrepared, hRename⟩
  · exact .inl ⟨hNotDone, keptAt_of_ends hSpared hPaths hEnds⟩
  · rcases ends_rename hRename with ⟨hNotDone, rfl⟩ | ⟨hNotFailed, hRenamed⟩
    · exact .inl ⟨hNotDone, keptAt_of_ends hSpared hPaths hPrepared⟩
    · obtain ⟨hRead, hGone⟩ := read_of_renameFile hRenamed (read_of_preparation hPrepared)
      exact .inr ⟨hNotFailed, hRead, hGone (Path.place_temporary_ne path)⟩

/-- However the replacement of a file ends, it changes that file and its temporary file. -/
theorem changesOnly_of_ends_all {path : String} {content : Bytes}
    (h : Ends (all path content) before outcome after) :
    ChangesOnly (fun place => place = Path.place path ∨ place = Path.place (Path.temporary path))
      before after :=
  changesOnly_of_ends (fun step hMem _ => touches_of_mem_all step hMem) h

end ReplaceStep

namespace FileOperation

open FileSystem ReplaceStep

/-- The program's own replacement of a file is one of the ways in which its steps can end. -/
theorem ends_replaceFile (path : String) (content : Bytes) (before : FileSystem) :
    Ends (all path content) before (.ofResult ((replaceFile path content).run.run before).1)
      ((replaceFile path content).run.run before).2 := by
  rw [replaceFile, List.forM_eq_forM]
  exact ends_of_run (all path content) before

/-- Replacing a file is done as a whole or not at all, whichever step fails and whenever the machine
stops. If it comes to its end, the file has the new content and its temporary file is gone; if a
step fails, what was at its place is kept; and after a stop there is one or the other. Elsewhere
only the temporary file can change, and missing directories around the file are made. None of these
is at the place of the file itself unless its path turns back somewhere. All this is said of trees
without links and permissions, in which paths with the same place lead to the same file. -/
theorem replaceFile_whole_or_not_at_all (path : String) (content : Bytes) (before : FileSystem) :
    Ends (all path content) before (.ofResult ((replaceFile path content).run.run before).1)
      ((replaceFile path content).run.run before).2 ∧
    (∀ outcome after, Ends (all path content) before outcome after →
      (outcome = .done → after.read path = .ok content ∧
        after.node? (Path.place path) = some (.file content) ∧
        after.node? (Path.place (Path.temporary path)) = none) ∧
      (outcome = .failed → KeptAt (Path.around path) before after (Path.place path)) ∧
      (outcome = .cutOff → KeptAt (Path.around path) before after (Path.place path) ∨
        after.node? (Path.place path) = some (.file content)) ∧
      ∀ place, place ≠ Path.place path → place ≠ Path.place (Path.temporary path) →
        KeptAt (Path.around path) before after place) ∧
    (".." ∉ Path.names path → ∀ directory ∈ Path.around path,
      Path.place directory ≠ Path.place path) := by
  refine ⟨ends_replaceFile path content before, fun outcome after hEnds => ?_,
    fun hBack directory => Path.place_ne_of_mem_around hBack⟩
  have hElsewhere (place : Location) (hPath : place ≠ Path.place path)
      (hTemporary : place ≠ Path.place (Path.temporary path)) :
      KeptAt (Path.around path) before after place := by
    refine keptAt_of_ends (fun step hMem hTouches => ?_) directories_of_mem_all hEnds
    exact (touches_of_mem_all step hMem hTouches).elim hPath hTemporary
  rcases ends_all hEnds with ⟨hNotDone, hKept⟩ | ⟨hNotFailed, hRead, hGone⟩
  · exact ⟨fun hDone => absurd hDone hNotDone, fun _ => hKept, fun _ => .inl hKept, hElsewhere⟩
  · have hNode := (read_eq_ok_iff.mp hRead).2
    exact ⟨fun _ => ⟨hRead, hNode, hGone⟩, fun hFailed => absurd hFailed hNotFailed,
      fun _ => .inr hNode, hElsewhere⟩

/-- The medium is full after one byte, and there was a temporary file from an earlier attempt. -/
theorem replaceFile_whole_or_not_at_all_full_medium :
    let before := (FileSystem.empty.put ["a"] (.file [1])).put ["a.tmp"] (.file [9, 9])
    ∃ after, Ends (all "a" [7, 8]) before .failed after ∧
      after.node? ["a.tmp"] = some (.file [7]) ∧ after.node? ["a"] = some (.file [1]) := by
  intro before
  let created := before.put ["a.tmp"] (.file [])
  let after := created.put ["a.tmp"] (.file [7])
  have hCreate : before.create "a.tmp" = .ok created :=
    Except.toOption_eq_some.mp (by decide +kernel)
  have hAppend : created.append "a.tmp" [7] = .ok after :=
    Except.toOption_eq_some.mp (by decide +kernel)
  have hPart : (append "a.tmp" [7, 8]).DoesPart created after := .inr ⟨[7], ⟨[8], rfl⟩, hAppend⟩
  have hEnds : Ends (all "a" [7, 8]) before .failed after :=
    .next .refl (.next hCreate (.failsIn hPart))
  obtain ⟨-, hAll, hApart⟩ := replaceFile_whole_or_not_at_all "a" [7, 8] before
  have hKept := (hAll .failed after hEnds).2.1 rfl
  refine ⟨after, hEnds, by decide +kernel, ?_⟩
  exact hKept.eq (hApart (by decide +kernel))

/-- A path that goes through its own place. The missing directory around the file is made at the
place of the file, and so the file can never be put there. -/
theorem replaceFile_makes_directory :
    let before := FileSystem.empty
    let run := (replaceFile "f/../f" [0]).run.run before
    Outcome.ofResult run.1 = .failed ∧ before.node? (Path.place "f/../f") = none ∧
      run.2.node? (Path.place "f/../f") = some .directory := by
  decide +kernel

end FileOperation

end GameSave
