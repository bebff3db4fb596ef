import GameSave.Proofs.Engine.Cleaning
import GameSave.Proofs.FileSystem.Interruption

/-! Work at a file desk, one operation after the other, any of which may fail. Each
has only certain places that it may touch, and keeps what is at all others. -/

namespace GameSave

/-- What can be done at a file desk. -/
inductive DeskOperation (δ : Type) where
  | save (game : RunningGame δ) (path : String)
  | load (path : String)
  | clean (directory : String)

/-- What is answered to an operation. -/
inductive DeskAnswer (δ : Type) where
  /-- The size of the file, unless the save failed. -/
  | saved (result : Except SaveFault Nat)
  | loaded (run : LoadRun δ)
  /-- How many files were removed, unless the directory could not be listed. -/
  | cleaned (result : Except TransferFault Nat)

namespace DeskOperation

open ReplaceStep (Ends)

variable {δ : Type}

/-- The places that an operation may touch. A save touches its file and the temporary file beside
it, and cleaning touches what has the extension of temporary files. -/
def Touches : DeskOperation δ → Location → Prop
  | save _ path, place => place = Path.place path ∨ place = Path.place (Path.temporary path)
  | load _, _ => False
  | clean directory, place =>
    place.dropLast = Path.place directory ∧ place.getLast?.bind Path.extension? = some "tmp"

instance (op : DeskOperation δ) (place : Location) : Decidable (op.Touches place) :=
  match op with
  | save _ _ => inferInstanceAs (Decidable (_ ∨ _))
  | load _ => inferInstanceAs (Decidable False)
  | clean _ => inferInstanceAs (Decidable (_ ∧ _))

/-- Nothing but a save to the same file touches a file that has no temporary name. -/
theorem touches_iff_of_not_isTemporaryName {place : Location}
    (hName : ∀ name ∈ place.getLast?, ¬Path.IsTemporaryName name) (op : DeskOperation δ) :
    op.Touches place ↔ ∃ game path, op = .save game path ∧ Path.place path = place := by
  constructor
  · intro hTouches
    cases op with
    | save game path =>
        rcases hTouches with hPlace | hTemporary
        · exact ⟨game, path, rfl, hPlace.symm⟩
        · obtain ⟨outer, name, hEnd, hIs⟩ := Path.exists_place_temporary path
          rw [hTemporary, hEnd, List.getLast?_concat] at hName
          exact (hName name rfl hIs).elim
    | load path => exact hTouches.elim
    | clean directory =>
        obtain ⟨name, hLast, hExtension⟩ := Option.bind_eq_some_iff.mp hTouches.2
        exact (hName name hLast (Path.isTemporaryName_of_extension? hExtension)).elim
  · rintro ⟨game, path, rfl, rfl⟩
    exact .inl rfl

variable [Delegate δ]

/-- An operation at the desk, if nothing goes wrong but what the tree of files forces. -/
def run (e : Engine δ) : DeskOperation δ → StateM FileDesk (DeskAnswer δ)
  | save game path => .saved <$> FileDesk.save e game path
  | load path => .loaded <$> FileDesk.load e path
  | clean directory => do return .cleaned ((← FileDesk.clean directory).mapError .file)

/-- The ways in which an operation can end, with the answer to it and the desk that it leaves
behind. Beyond what the tree of files forces, any step of a save may fail, a file may not be there
to be read, a directory may not be there to be listed, and files may be held when they should be
removed. Nothing is said of the reasons. -/
inductive CanEnd (e : Engine δ) (desk : FileDesk) :
    DeskOperation δ → DeskAnswer δ → FileDesk → Prop where
  /-- What cannot be saved does not come near the files. -/
  | unsaved {game : RunningGame δ} {path : String} {fault : SaveFault}
      (hSave : e.save game = .error fault) :
      CanEnd e desk (.save game path) (.saved (.error fault)) ⟨desk.files, .free⟩
  | saved {game : RunningGame δ} {path : String} {file : Bytes} {files : FileSystem}
      (hSave : e.save game = .ok file)
      (hEnds : Ends (ReplaceStep.all path file) desk.files .done files) :
      CanEnd e desk (.save game path) (.saved (.ok file.length)) ⟨files, .free⟩
  | brokenOff {game : RunningGame δ} {path : String} {file : Bytes} {files : FileSystem}
      (fault : TransferFault) (hSave : e.save game = .ok file)
      (hEnds : Ends (ReplaceStep.all path file) desk.files .failed files) :
      CanEnd e desk (.save game path) (.saved (.error (.io fault))) ⟨files, .free⟩
  | loaded (path : String) :
      CanEnd e desk (.load path) (.loaded (e.loadFile path desk.files)) ⟨desk.files, .free⟩
  | unread (path : String) (fault : TransferFault) :
      CanEnd e desk (.load path) (.loaded ⟨[], .error (.io fault)⟩) ⟨desk.files, .free⟩
  | cleaned {directory : String} {held : Location → Bool} {result : Except FileFault Nat}
      {after : FileDesk}
      (hClean : (FileDesk.cleanExcept held directory).run desk = (result, after)) :
      CanEnd e desk (.clean directory) (.cleaned (result.mapError .file)) after
  | unlisted (directory : String) (fault : TransferFault) :
      CanEnd e desk (.clean directory) (.cleaned (.error fault)) ⟨desk.files, .free⟩

variable {e : Engine δ} {op : DeskOperation δ} {answer : DeskAnswer δ} {desk after : FileDesk}

/-! ### Single operations -/

/-- The save that is run is one of those that there may be, whether it comes to its end or not. -/
theorem canEnd_save (e : Engine δ) (game : RunningGame δ) (path : String) (desk : FileDesk) :
    CanEnd e desk (.save game path) (.saved ((FileDesk.save e game path).run desk).1)
      ((FileDesk.save e game path).run desk).2 := by
  rw [FileDesk.run_save, Engine.run_saveToFile]
  cases hSave : e.save game with
  | error fault => exact .unsaved hSave
  | ok file =>
      have hEnds := FileOperation.ends_replaceFile path file desk.files
      dsimp only
      cases hResult : ((FileOperation.replaceFile path file).run.run desk.files).1 with
      | error fault =>
          rw [hResult] at hEnds
          exact .brokenOff (.file fault) hSave hEnds
      | ok done =>
          rw [hResult] at hEnds
          exact .saved hSave hEnds

/-- What is run at the desk ends in one of these ways. -/
theorem canEnd_run (e : Engine δ) (op : DeskOperation δ) (desk : FileDesk) :
    op.CanEnd e desk ((op.run e).run desk).1 ((op.run e).run desk).2 := by
  cases op with
  | save game path =>
      rw [run, StateT.run_map]
      exact canEnd_save e game path desk
  | load path => exact .loaded path
  | clean directory => exact .cleaned rfl

/-- However an operation ends, it changes only what it touches. -/
theorem CanEnd.changesOnly (h : op.CanEnd e desk answer after) :
    FileSystem.ChangesOnly op.Touches desk.files after.files := by
  cases h with
  | unsaved hSave => exact .refl _
  | saved hSave hEnds => exact ReplaceStep.changesOnly_of_ends_all hEnds
  | brokenOff fault hSave hEnds => exact ReplaceStep.changesOnly_of_ends_all hEnds
  | loaded path => exact .refl _
  | unread path fault => exact .refl _
  | @cleaned directory held result after hClean =>
      have hChanges := FileDesk.changesOnly_cleanExcept held directory desk
      rwa [hClean] at hChanges
  | unlisted directory fault => exact .refl _

/-- A save that tells the size of its file has written it. -/
theorem CanEnd.exists_file {game : RunningGame δ} {path : String} {n : Nat}
    (h : CanEnd e desk (.save game path) (.saved (.ok n)) after) :
    ∃ file, e.save game = .ok file ∧ file.length = n ∧ after.files.read path = .ok file := by
  cases h with
  | @saved _ _ file files hSave hEnds =>
      refine ⟨file, hSave, rfl, ?_⟩
      rcases ReplaceStep.ends_all hEnds with ⟨hNotDone, -⟩ | ⟨-, hRead, -⟩
      · exact absurd rfl hNotDone
      · exact hRead

/-- A load that can read its file gives what the bytes in it give. -/
theorem CanEnd.answer_of_read {path : String} {file : Bytes}
    (h : CanEnd e desk (.load path) answer after) (hRead : desk.files.read path = .ok file) :
    answer = .loaded (e.load file (some path)) ∨
      ∃ fault, answer = .loaded ⟨[], .error (.io fault)⟩ := by
  cases h with
  | loaded =>
      rw [Engine.loadFile, hRead]
      exact .inl rfl
  | unread _ fault => exact .inr ⟨fault, rfl⟩

end DeskOperation

/-! ### Runs -/

/-- An operation and the answer to it. -/
structure DeskEvent (δ : Type) where
  operation : DeskOperation δ
  answer : DeskAnswer δ

namespace DeskEvent

variable {δ : Type} [Delegate δ] {e : Engine δ}

/-- The runs of operations at a desk, each of which may end in any way in which it can. -/
inductive Runs (e : Engine δ) : FileDesk → List (DeskEvent δ) → FileDesk → Prop where
  | nil (desk : FileDesk) : Runs e desk [] desk
  | cons {desk between after : FileDesk} {event : DeskEvent δ} {later : List (DeskEvent δ)}
      (hFirst : event.operation.CanEnd e desk event.answer between)
      (hLater : Runs e between later after) : Runs e desk (event :: later) after

theorem runs_cons_iff {desk after : FileDesk} {event : DeskEvent δ} {later : List (DeskEvent δ)} :
    Runs e desk (event :: later) after ↔
      ∃ between, event.operation.CanEnd e desk event.answer between ∧
        Runs e between later after := by
  constructor
  · rintro (_ | ⟨hFirst, hLater⟩)
    exact ⟨_, hFirst, hLater⟩
  · rintro ⟨between, hFirst, hLater⟩
    exact .cons hFirst hLater

/-- A run that goes on behind some operations has come to a desk behind them. -/
theorem Runs.of_append {desk after : FileDesk} {first later : List (DeskEvent δ)}
    (h : Runs e desk (first ++ later) after) :
    ∃ between, Runs e desk first between ∧ Runs e between later after := by
  induction first generalizing desk with
  | nil => exact ⟨desk, .nil desk, h⟩
  | cons event first ih =>
      obtain ⟨next, hFirst, hRest⟩ := runs_cons_iff.mp h
      obtain ⟨between, hBefore, hBehind⟩ := ih hRest
      exact ⟨between, .cons hFirst hBefore, hBehind⟩

/-- A run changes only what its operations touch. -/
theorem Runs.changesOnly {desk after : FileDesk} {events : List (DeskEvent δ)}
    (h : Runs e desk events after) :
    FileSystem.ChangesOnly (fun place => ∃ event ∈ events, event.operation.Touches place)
      desk.files after.files := by
  induction h with
  | nil desk => exact .refl _
  | cons hFirst hLater ih =>
      refine (hFirst.changesOnly.mono fun place hTouches => ?_).trans (ih.mono ?_)
      · exact ⟨_, List.mem_cons_self, hTouches⟩
      · rintro place ⟨event, hEvent, hTouches⟩
        exact ⟨event, List.mem_cons_of_mem _ hEvent, hTouches⟩

/-- A file that no operation of a run touches is read as before. -/
theorem Runs.read_eq_ok {desk after : FileDesk} {events : List (DeskEvent δ)}
    (h : Runs e desk events after) {path : String} {file : Bytes}
    (hSpared : ∀ event ∈ events, ¬event.operation.Touches (Path.place path))
    (hRead : desk.files.read path = .ok file) : after.files.read path = .ok file := by
  refine h.changesOnly.read_eq_ok ?_ hRead
  rintro ⟨event, hEvent, hTouches⟩
  exact hSpared event hEvent hTouches

end DeskEvent

end GameSave
