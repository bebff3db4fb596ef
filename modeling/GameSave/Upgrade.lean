import GameSave.Game.Basic
import GameSave.Version.Basic
/-!
Upgrades: what has to be changed in the world of a game that an older build saved.

An engine loads only saves of its own first three components, so that builds are all that can
differ. A step of the table belongs to the build that made it necessary.
-/

namespace GameSave

/-- A step, due for games saved before its build. -/
structure Upgrade where
  build : UInt32
  description : String
  apply : Game → Game

/-- Two steps for one build. -/
structure DuplicateUpgrade where
  build : UInt32
deriving DecidableEq, Repr

def DuplicateUpgrade.message (e : DuplicateUpgrade) : String :=
  "Duplicate data upgrade step for build " ++ e.build.toNat.repr

/-- What was done to a game. -/
structure UpgradeReport where
  /-- The build that saved the game. -/
  fromBuild : UInt32
  /-- The build that loads it. -/
  toBuild : UInt32
  /-- The descriptions of the steps taken, in order. -/
  applied : List String
deriving DecidableEq, Repr

def UpgradeReport.size (r : UpgradeReport) : Nat := r.applied.length

/-- Steps in the order of their builds, at most one for each. -/
structure UpgradeTable where
  steps : List Upgrade
  ascending : steps.Pairwise (fun a b => a.build < b.build)

namespace UpgradeTable

def empty : UpgradeTable := ⟨[], .nil⟩

instance : Inhabited UpgradeTable := ⟨empty⟩

/-- The first build of a list that occurs before in it. -/
def firstRepeated? : (before builds : List UInt32) → Option UInt32
  | _, [] => none
  | before, build :: builds =>
    if build ∈ before then some build else firstRepeated? (build :: before) builds

/-- If no build is found to come twice, then none does, and none was there before. -/
theorem nodup_of_firstRepeated?_eq_none {before builds : List UInt32}
    (h : firstRepeated? before builds = none) :
    builds.Nodup ∧ ∀ build ∈ builds, build ∉ before := by
  induction builds generalizing before with
  | nil => simp
  | cons build builds ih =>
    simp only [firstRepeated?] at h
    split at h
    · cases h
    · next hNew =>
      obtain ⟨hNodup, hDisjoint⟩ := ih h
      refine ⟨List.nodup_cons.mpr ⟨fun hMem => ?_, hNodup⟩, fun b hMem => ?_⟩
      · exact hDisjoint build hMem List.mem_cons_self
      · rcases List.mem_cons.mp hMem with rfl | hMem
        · exact hNew
        · exact fun hBefore => hDisjoint b hMem (List.mem_cons_of_mem _ hBefore)

/-- Whether a step comes before another, or belongs to the same build. -/
def isNotAfter (a b : Upgrade) : Bool := a.build ≤ b.build

def sort (steps : List Upgrade) : List Upgrade := steps.mergeSort isNotAfter

private theorem pairwise_build_ne {steps : List Upgrade} (h : (steps.map Upgrade.build).Nodup) :
    steps.Pairwise (fun a b => a.build ≠ b.build) := by
  simpa [List.Nodup, List.pairwise_map] using h

/-- Steps for different builds are in strict order once they are sorted. -/
theorem ascending_sort {steps : List Upgrade} (h : (steps.map Upgrade.build).Nodup) :
    (sort steps).Pairwise (fun a b => a.build < b.build) := by
  have hTrans (a b c : Upgrade) : isNotAfter a b → isNotAfter b c → isNotAfter a c := by
    simp only [isNotAfter, decide_eq_true_eq]
    exact UInt32.le_trans
  have hTotal (a b : Upgrade) : isNotAfter a b || isNotAfter b a := by
    simp only [isNotAfter, Bool.or_eq_true, decide_eq_true_eq]
    exact UInt32.le_total a.build b.build
  have hSorted : (sort steps).Pairwise (fun a b => a.build ≤ b.build) :=
    (List.pairwise_mergeSort hTrans hTotal steps).imp fun h => by simpa [isNotAfter] using h
  have hDistinct : (sort steps).Pairwise (fun a b => a.build ≠ b.build) := by
    refine List.Pairwise.perm (pairwise_build_ne h) ?_ fun hNe => Ne.symm hNe
    exact (List.mergeSort_perm steps _).symm
  exact (hSorted.and hDistinct).imp fun ⟨hLe, hNe⟩ => UInt32.lt_of_le_of_ne hLe hNe

/-- The table of some steps, in any order. -/
def ofList (steps : List Upgrade) : Except DuplicateUpgrade UpgradeTable :=
  match h : firstRepeated? [] (steps.map Upgrade.build) with
  | some build => .error ⟨build⟩
  | none => .ok ⟨sort steps, ascending_sort (nodup_of_firstRepeated?_eq_none h).1⟩

def size (t : UpgradeTable) : Nat := t.steps.length

/-- Whether a step is due for a game that goes from one build to another. -/
def isDue (loaded running : Version) (step : Upgrade) : Bool :=
  loaded.build < step.build && step.build ≤ running.build

/-- Takes all steps that are newer than the build that saved a game and not newer than the one that
loads it. -/
def apply (t : UpgradeTable) (g : Game) (loaded running : Version) : Game × UpgradeReport :=
  let due := t.steps.filter (isDue loaded running)
  (due.foldl (fun g step => step.apply g) g,
    ⟨loaded.build, running.build, due.map Upgrade.description⟩)

end UpgradeTable

end GameSave
