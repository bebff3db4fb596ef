import Mathlib.Order.Defs.Unbundled
import GameSave.Proofs.FileSystem.Change

/-! Sequences of operations on a file system, run by run, and what the steps touch by
which a file is replaced. -/

namespace GameSave

namespace FileOperation

variable {α β φ : Type}

/-! ### Runs -/

/-- Operations in a row go on with the files as the first has left them, also if it fails. -/
theorem run_bind (op : ExceptT φ (StateM FileSystem) α)
    (next : α → ExceptT φ (StateM FileSystem) β) (fs : FileSystem) :
    (op >>= next).run.run fs = match op.run.run fs with
      | (.ok a, after) => (next a).run.run after
      | (.error fault, after) => (.error fault, after) := by
  rw [ExceptT.run_bind, StateT.run_bind]
  rcases op.run.run fs with ⟨_ | _, _⟩ <;> rfl

/-- What was done before a fault is not undone by catching it. -/
theorem run_tryCatch (op : FileOperation α) (handler : FileFault → FileOperation α)
    (fs : FileSystem) : (tryCatch op handler).run.run fs = match op.run.run fs with
      | (.ok a, after) => (.ok a, after)
      | (.error fault, after) => (handler fault).run.run after := by
  rw [ExceptT.run_tryCatch, StateT.run_bind]
  rcases op.run.run fs with ⟨_ | _, _⟩ <;> rfl

theorem run_adapt {ψ : Type} (op : ExceptT φ (StateM FileSystem) α) (f : φ → ψ)
    (fs : FileSystem) :
    (op.adapt f).run.run fs = ((op.run.run fs).1.mapError f, (op.run.run fs).2) := rfl

/-- A change that fails leaves all files as they were. -/
theorem run_change (f : FileSystem → Except FileFault FileSystem) (fs : FileSystem) :
    (change f).run.run fs = match f fs with
      | .ok after => (.ok (), after)
      | .error fault => (.error fault, fs) := by
  have hGet : (ExceptT.mk (f <$> get) : FileOperation FileSystem).run.run fs = (f fs, fs) := rfl
  rw [change, run_bind, hGet]
  cases f fs <;> rfl

theorem run_change_eq_ok {f : FileSystem → Except FileFault FileSystem} {fs after : FileSystem} :
    (change f).run.run fs = (.ok (), after) ↔ f fs = .ok after := by
  rw [run_change]
  cases f fs with
  | error fault => exact iff_of_false (fun h => nomatch h) (fun h => nomatch h)
  | ok found =>
      constructor
      · rintro ⟨⟩
        rfl
      · rintro ⟨⟩
        rfl

theorem eq_of_run_change_eq_error {f : FileSystem → Except FileFault FileSystem} {fault : FileFault}
    {fs after : FileSystem} (h : (change f).run.run fs = (.error fault, after)) : after = fs := by
  rw [run_change] at h
  cases hAfter : f fs with
  | ok found =>
      rw [hAfter] at h
      cases h
  | error found =>
      rw [hAfter] at h
      exact (congrArg Prod.snd h).symm

/-! ### Where operations lead -/

/-- An operation that leaves a tree behind to which the one before has some relation, however it
ends. -/
def Leads (R : FileSystem → FileSystem → Prop) (op : FileOperation α) : Prop :=
  ∀ fs, R fs (op.run.run fs).2

namespace Leads

variable {R : FileSystem → FileSystem → Prop} [IsPreorder FileSystem R] {op : FileOperation α}

theorem pure (a : α) : Leads R (Pure.pure a : FileOperation α) := fun fs => refl_of R fs

theorem get : Leads R (MonadState.get : FileOperation FileSystem) := fun fs => refl_of R fs

theorem throw (fault : FileFault) : Leads R (MonadExcept.throw fault : FileOperation α) :=
  fun fs => refl_of R fs

/-- Operations in a row lead where both of them do. -/
theorem bind {next : α → FileOperation β} (hOp : Leads R op) (hNext : ∀ a, Leads R (next a)) :
    Leads R (op >>= next) := by
  intro fs
  have hFirst := hOp fs
  rw [run_bind]
  rcases hRun : op.run.run fs with ⟨fault | a, after⟩
  · rwa [hRun] at hFirst
  · rw [hRun] at hFirst
    exact trans_of R hFirst (hNext a after)

/-- An operation with a handler leads where both of them do. -/
theorem tryCatch {handler : FileFault → FileOperation α} (hOp : Leads R op)
    (hHandler : ∀ fault, Leads R (handler fault)) :
    Leads R (MonadExcept.tryCatch op handler) := by
  intro fs
  have hFirst := hOp fs
  rw [run_tryCatch]
  rcases hRun : op.run.run fs with ⟨fault | a, after⟩
  · rw [hRun] at hFirst
    exact trans_of R hFirst (hHandler fault after)
  · rwa [hRun] at hFirst

/-- A change leads as far as it does when it succeeds. -/
theorem change {f : FileSystem → Except FileFault FileSystem}
    (h : ∀ before after, f before = .ok after → R before after) :
    Leads R (FileOperation.change f) := by
  intro fs
  rw [run_change]
  cases hAfter : f fs with
  | error fault => exact refl_of R fs
  | ok after => exact h fs after hAfter

/-- Directories are made one after the other, each at one of the given paths. -/
theorem makeDirectories {paths : List String} (h : ∀ path ∈ paths, ∀ before after,
    before.makeDirectory path = .ok after → R before after) :
    Leads R (FileOperation.makeDirectories paths) := by
  induction paths with
  | nil => exact .pure ()
  | cons path outer ih =>
      obtain ⟨hPath, hOuter⟩ := List.forall_mem_cons.mp h
      have hMake : Leads R (FileOperation.change fun fs => fs.makeDirectory path) := .change hPath
      have hKeep (fault : FileFault) : Leads R
          (do unless (← MonadState.get).isDirectory path do MonadExcept.throw fault :
            FileOperation Unit) := by
        refine .bind .get fun fs => ?_
        split
        · exact .pure ()
        · exact .throw fault
      rw [FileOperation.makeDirectories]
      refine .tryCatch hMake fun fault => ?_
      split
      · exact .bind (ih hOuter) fun _ => .tryCatch hMake hKeep
      · exact hKeep _

end Leads

end FileOperation

/-! ### Replacing a file -/

namespace ReplaceStep

/-- The places that a step touches. -/
def Touches : ReplaceStep → Location → Prop
  | makeDirectories _, _ => False
  | create path, place => place = Path.place path
  | append path _, place => place = Path.place path
  | flush _, _ => False
  | rename source target, place => place = Path.place source ∨ place = Path.place target

end ReplaceStep

end GameSave
