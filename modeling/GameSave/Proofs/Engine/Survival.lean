import GameSave.Proofs.Engine.DeskRun

/-! Saves in files. A completed save stays as it is, whatever else is saved, loaded
and cleaned and however that ends, unless something is written to its place or it
passes for a temporary file. -/

namespace GameSave.FileDesk

variable {δ : Type} [Delegate δ]

/-- Once a game is saved, its file has exactly the bytes of the save and loads as they do, whatever
is done at the desk after that, until its place is touched: by a save to it, by a save that has
it for a temporary file, or by cleaning if it has the extension of such files. If its name does not
end as theirs do, only a save to the same place touches it. Any of the operations may fail, as far
as they get, for reasons that are not in the tree of files, such as a full medium or a file that is
held. Only a load has to be able to read the file. The tree is one without links and permissions,
so a file is known by its place. -/
theorem load_of_completed_save (e : Engine δ) :
    (∀ (op : DeskOperation δ) desk,
      op.CanEnd e desk ((op.run e).run desk).1 ((op.run e).run desk).2) ∧
    (∀ desk earlier (game : RunningGame δ) path n later after,
      DeskEvent.Runs e desk (earlier ++ ⟨.save game path, .saved (.ok n)⟩ :: later) after →
      (∀ event ∈ later, ¬event.operation.Touches (Path.place path)) →
      ∃ file, e.save game = .ok file ∧ file.length = n ∧ after.files.read path = .ok file ∧
        ((load e path).run after).1 = e.load file (some path) ∧
        ∀ answer last, DeskOperation.CanEnd e after (.load path) answer last →
          answer = .loaded (e.load file (some path)) ∨
            ∃ fault, answer = .loaded ⟨[], .error (.io fault)⟩) ∧
    ∀ path, (∀ name ∈ (Path.place path).getLast?, ¬Path.IsTemporaryName name) →
      ∀ op : DeskOperation δ, op.Touches (Path.place path) ↔
        ∃ game other, op = .save game other ∧ Path.place other = Path.place path := by
  refine ⟨fun op desk => op.canEnd_run e desk, ?_,
    fun path => DeskOperation.touches_iff_of_not_isTemporaryName⟩
  intro desk earlier game path n later after hRuns hSpared
  obtain ⟨before, -, hBehind⟩ := hRuns.of_append
  obtain ⟨saved, hSaved, hLater⟩ := DeskEvent.runs_cons_iff.mp hBehind
  obtain ⟨file, hFile, hLength, hWritten⟩ := hSaved.exists_file
  have hRead := hLater.read_eq_ok hSpared hWritten
  refine ⟨file, hFile, hLength, hRead, ?_, fun answer last hLoad => hLoad.answer_of_read hRead⟩
  rw [run_load, Engine.loadFile, hRead]

/-- A save that stays as it is while the medium is full after one byte of the next, another file is
not there to be read, and what is left of the second save is held when the directory is cleaned. -/
theorem load_of_completed_save_full_medium :
    let e : Engine BuiltinDelegate := .standard id { Settings.standard with compress := false }
    let full : TransferFault := .other "No space left on device"
    let broken : TransferFault := .other "Input/output error"
    let later : List (DeskEvent BuiltinDelegate) :=
      [⟨.save .blank "saves/b", .saved (.error (.io full))⟩,
        ⟨.load "c", .loaded ⟨[], .error (.io broken)⟩⟩, ⟨.clean "saves", .cleaned (.ok 0)⟩]
    ∃ file after, DeskEvent.Runs e (.ofFiles .empty)
        ([] ++ ⟨.save .blank "saves/a", .saved (.ok 52)⟩ :: later) after ∧
      after.files.node? ["saves", "b.tmp"] = some (.file [84]) ∧ e.save .blank = .ok file ∧
        file.length = 52 ∧ after.files.read "saves/a" = .ok file ∧
          ((load e "saves/a").run after).1 = e.load file (some "saves/a") := by
  intro e full broken later
  let file : Bytes := [84, 71, 83, 86, 1, 0, 0, 0, 0, 0, 0, 0, 32, 0, 0, 0, 49, 160, 47, 31,
    71, 68, 65, 84, 1, 0, 0, 0, 9, 0, 0, 0, 0, 0, 0, 0, 3, 0, 0, 0, 7, 0, 0, 0, 0, 4, 0, 0, 0, 0,
    0, 223]
  let saved := ((save e .blank "saves/a").run (.ofFiles .empty)).2
  let created := saved.files.put ["saves", "b.tmp"] (.file [])
  let left := created.put ["saves", "b.tmp"] (.file [84])
  obtain ⟨-, hSurvives, -⟩ := load_of_completed_save e
  have hSaved : DeskOperation.CanEnd e (.ofFiles .empty) (.save .blank "saves/a")
      (.saved (.ok 52)) saved := by
    have hResult : ((save e .blank "saves/a").run (.ofFiles .empty)).1 = .ok 52 :=
      Except.toOption_eq_some.mp (by decide +kernel)
    rw [← hResult]
    exact DeskOperation.canEnd_save e .blank "saves/a" (.ofFiles .empty)
  have hBrokenOff : DeskOperation.CanEnd e saved (.save .blank "saves/b")
      (.saved (.error (.io full))) ⟨left, .free⟩ := by
    have hSave : e.save .blank = .ok file := Except.toOption_eq_some.mp (by decide +kernel)
    have hCreate : saved.files.create "saves/b.tmp" = .ok created :=
      Except.toOption_eq_some.mp (by decide +kernel)
    have hAppend : created.append "saves/b.tmp" [84] = .ok left :=
      Except.toOption_eq_some.mp (by decide +kernel)
    exact .brokenOff full hSave
      (.next .refl (.next hCreate (.failsIn (.inr ⟨[84], ⟨file.tail, rfl⟩, hAppend⟩))))
  have hClean : (cleanExcept (fun _ => true) "saves").run ⟨left, .free⟩ =
      (.ok 0, ⟨left, .free⟩) :=
    Prod.ext (Except.toOption_eq_some.mp (by decide +kernel)) (by decide +kernel)
  have hRuns : DeskEvent.Runs e (.ofFiles .empty)
      ([] ++ ⟨.save .blank "saves/a", .saved (.ok 52)⟩ :: later) ⟨left, .free⟩ :=
    .cons hSaved (.cons hBrokenOff (.cons (.unread "c" broken) (.cons (.cleaned hClean) (.nil _))))
  obtain ⟨file, hFile, hLength, hRead, hLoad, -⟩ :=
    hSurvives _ _ _ _ _ _ _ hRuns (by decide +kernel)
  exact ⟨file, _, hRuns, by decide +kernel, hFile, hLength, hRead, hLoad⟩

/-- A save whose name is that of a temporary file is lost to a save at another place, which needs
that name while it is written. -/
theorem read_of_save_lost :
    let e : Engine BuiltinDelegate := .standard id { Settings.standard with compress := false }
    let saved := (save e .blank "a.tmp").run (.ofFiles .empty)
    let later := ((save e .blank "a").run saved.2).2
    saved.1.toOption = some 52 ∧ (saved.2.files.read "a.tmp").toOption = (e.save .blank).toOption ∧
      Path.place "a" ≠ Path.place "a.tmp" ∧ (later.files.read "a.tmp").toOption = none ∧
        ((load e "a.tmp").run later).1.outcome.toOption = none := by
  decide +kernel

end GameSave.FileDesk
