import GameSave.Version.Admission

/-! Versions in order. A comparison has a mode, with a say for the build or without one,
and in each mode it goes by one order. Where only the build makes a difference, a player
is asked before a save is loaded. -/

namespace GameSave.Version

/-! ### Engines -/

/-- The first three components agree. -/
structure SameEngine (a b : Version) : Prop where
  major : a.major = b.major
  minor : a.minor = b.minor
  patch : a.patch = b.patch

theorem sameEngine_iff {a b : Version} :
    a.SameEngine b ↔ a.major = b.major ∧ a.minor = b.minor ∧ a.patch = b.patch := by
  constructor
  · rintro ⟨hMajor, hMinor, hPatch⟩
    exact ⟨hMajor, hMinor, hPatch⟩
  · rintro ⟨hMajor, hMinor, hPatch⟩
    exact ⟨hMajor, hMinor, hPatch⟩

/-- The build is all that versions of one engine can differ in. -/
theorem SameEngine.eq {a b : Version} (h : a.SameEngine b) (hBuild : a.build = b.build) :
    a = b := by
  obtain ⟨hMajor, hMinor, hPatch⟩ := h
  cases a
  cases b
  cases hMajor
  cases hMinor
  cases hPatch
  cases hBuild
  rfl

/-- Engines are compatible exactly if they are the same up to the build. -/
theorem isEngineCompatible_iff {a b : Version} :
    a.isEngineCompatible b = true ↔ a.SameEngine b := by
  rw [sameEngine_iff, isEngineCompatible, Bool.and_eq_true, Bool.and_eq_true, beq_iff_eq,
    beq_iff_eq, beq_iff_eq, and_assoc]

/-- Engines compare as equal exactly if they are the same. -/
theorem compareEngine_eq_eq_iff {a b : Version} : a.compareEngine b = .eq ↔ a.SameEngine b := by
  simp only [sameEngine_iff, compareEngine, Ordering.then_eq_eq, Std.compare_eq_iff_eq]

/-! ### Orders -/

instance : Std.TransCmp compareEngine :=
  inferInstanceAs (Std.TransCmp (compareLex (compareOn major)
    (compareLex (compareOn minor) (compareOn patch))))

instance : Std.TransOrd Version :=
  inferInstanceAs (Std.TransCmp (compareLex (compareOn major) (compareLex (compareOn minor)
    (compareLex (compareOn patch) (compareOn build)))))

/-- The build decides between versions that no earlier component tells apart. -/
theorem compare_eq_then (a b : Version) :
    compare a b = (a.compareEngine b).then (compare a.build b.build) := by
  rw [compareEngine, Ordering.then_assoc, Ordering.then_assoc]
  rfl

instance : Std.LawfulEqOrd Version where
  eq_of_compare {a b} h := by
    rw [compare_eq_then, Ordering.then_eq_eq, compareEngine_eq_eq_iff, Std.compare_eq_iff_eq] at h
    exact h.1.eq h.2

/-- The components in the order in which they decide. -/
def components (v : Version) : List UInt32 := [v.major, v.minor, v.patch, v.build]

/-- Of two versions that one is greater which has the greater component where they first differ. -/
theorem compare_eq_gt_iff {a b : Version} : compare a b = .gt ↔ b.components < a.components := by
  show ((compare a.major b.major).then ((compare a.minor b.minor).then
    ((compare a.patch b.patch).then (compare a.build b.build)))) = .gt ↔ _
  simp only [components, List.cons_lt_cons_iff, Ordering.then_eq_gt, Std.compare_eq_gt,
    Std.compare_eq_iff_eq, List.not_lt_nil, and_false, or_false, @eq_comm _ a.major,
    @eq_comm _ a.minor, @eq_comm _ a.patch]

/-- The order that a comparison goes by, depending on whether it ignores the build. -/
def comparison : Bool → Version → Version → Ordering
  | true => compareEngine
  | false => compare

instance (ignoreBuild : Bool) : Std.TransCmp (comparison ignoreBuild) := by
  cases ignoreBuild with
  | true => exact inferInstanceAs (Std.TransCmp compareEngine)
  | false => exact inferInstanceAs (Std.TransCmp (compare : Version → Version → Ordering))

/-- Being greater is what the comparison says, with builds or without. -/
theorem isGreaterThan_eq_true_iff {a b : Version} {ignoreBuild : Bool} :
    a.isGreaterThan b ignoreBuild = true ↔ comparison ignoreBuild a b = .gt := by
  cases ignoreBuild with
  | true => exact beq_iff_eq
  | false =>
      rw [isGreaterThan, comparison, compare_eq_then]
      cases a.compareEngine b with
      | eq => exact decide_eq_true_iff.trans Std.compare_eq_gt.symm
      | lt => exact beq_iff_eq
      | gt => exact beq_iff_eq

theorem equals_eq_true_iff {a b : Version} {ignoreBuild : Bool} :
    a.equals b ignoreBuild = true ↔ comparison ignoreBuild a b = .eq := by
  cases ignoreBuild with
  | true => exact isEngineCompatible_iff.trans compareEngine_eq_eq_iff.symm
  | false => exact beq_iff_eq.trans Std.compare_eq_iff_eq.symm

/-- A version is greater than another, or less, or equal to it, and only one of these. -/
theorem count_comparisons (a b : Version) (ignoreBuild : Bool) :
    [a.isGreaterThan b ignoreBuild, b.isGreaterThan a ignoreBuild, a.equals b ignoreBuild].count
      true = 1 := by
  have hGreater : a.isGreaterThan b ignoreBuild = (comparison ignoreBuild a b == .gt) := by
    rw [Bool.eq_iff_iff, isGreaterThan_eq_true_iff, beq_iff_eq]
  have hLess : b.isGreaterThan a ignoreBuild = (comparison ignoreBuild a b == .lt) := by
    rw [Bool.eq_iff_iff, isGreaterThan_eq_true_iff, beq_iff_eq, Std.OrientedCmp.gt_iff_lt]
  have hEqual : a.equals b ignoreBuild = (comparison ignoreBuild a b == .eq) := by
    rw [Bool.eq_iff_iff, equals_eq_true_iff, beq_iff_eq]
  rw [hGreater, hLess, hEqual]
  cases comparison ignoreBuild a b <;> rfl

/-- Being greater carries over, with builds or without. -/
theorem isGreaterThan_trans {a b c : Version} {ignoreBuild : Bool}
    (hFirst : a.isGreaterThan b ignoreBuild = true)
    (hNext : b.isGreaterThan c ignoreBuild = true) : a.isGreaterThan c ignoreBuild = true := by
  rw [isGreaterThan_eq_true_iff] at hFirst hNext ⊢
  exact Std.TransCmp.gt_trans hFirst hNext

/-! ### The say of the build -/

/-- A version is greater by its engine, or by its build if the engine is the same. -/
theorem isGreaterThan_iff {a b : Version} : a.isGreaterThan b false = true ↔
    a.isGreaterThan b true = true ∨ a.SameEngine b ∧ b.build < a.build := by
  rw [isGreaterThan_eq_true_iff, isGreaterThan_eq_true_iff, comparison, comparison,
    compare_eq_then, Ordering.then_eq_gt, compareEngine_eq_eq_iff, Std.compare_eq_gt]

/-- No version is greater than another of the same engine, unless the build has a say. -/
theorem SameEngine.isGreaterThan_eq_false {a b : Version} (h : a.SameEngine b) :
    a.isGreaterThan b true = false := by
  rw [← Bool.not_eq_true, isGreaterThan_eq_true_iff, comparison, compareEngine_eq_eq_iff.mpr h]
  exact Ordering.noConfusion

/-- Among versions of one engine the build decides. -/
theorem SameEngine.isGreaterThan_iff {a b : Version} (h : a.SameEngine b) :
    a.isGreaterThan b false = true ↔ b.build < a.build := by
  rw [Version.isGreaterThan_iff, h.isGreaterThan_eq_false]
  simp [h]

/-- The build alone makes a version the greater one of two exactly if both are of one engine. -/
theorem isGreaterThan_by_build_iff {a b : Version} :
    a.isGreaterThan b false = true ∧ a.isGreaterThan b true = false ↔
      a.SameEngine b ∧ b.build < a.build := by
  rw [isGreaterThan_iff]
  constructor
  · rintro ⟨hGreater | hBuild, hEngine⟩
    · exact absurd hGreater (Bool.not_eq_true _ ▸ hEngine)
    · exact hBuild
  · intro hBuild
    exact ⟨.inr hBuild, hBuild.1.isGreaterThan_eq_false⟩

/-! ### Admission -/

/-- Saves of another engine are never loaded. -/
theorem admission_of_not_sameEngine {loaded running : Version} (h : ¬loaded.SameEngine running)
    (unattended : Bool) : loaded.admission running unattended =
      if unattended then .rejectIncompatible else .requireLegacyRuntime := by
  have hIncompatible : loaded.isEngineCompatible running = false := by
    rw [← Bool.not_eq_true, isEngineCompatible_iff]
    exact h
  simp [admission, hIncompatible]

/-- Saves of this engine are loaded, but a player is asked about those of a newer build. -/
theorem SameEngine.admission_eq {loaded running : Version} (h : loaded.SameEngine running)
    (unattended : Bool) : loaded.admission running unattended =
      if unattended = false ∧ running.build < loaded.build then .acceptWithUpgradeWarning
      else .accept := by
  have hCompatible := isEngineCompatible_iff.mpr h
  simp [admission, hCompatible, h.isGreaterThan_iff]

/-- A player is asked about exactly the saves of newer builds of this engine. -/
theorem admission_eq_acceptWithUpgradeWarning_iff {loaded running : Version} :
    loaded.admission running false = .acceptWithUpgradeWarning ↔
      loaded.SameEngine running ∧ running.build < loaded.build := by
  by_cases hSame : loaded.SameEngine running
  · simp [hSame.admission_eq, hSame]
  · simp [admission_of_not_sameEngine hSame, hSame]

/-- Both modes of comparison are strict orders with an equality that belongs to them. With a say for
the build it is the lexicographic order of all components, and it says more than the other exactly
about the versions of which a player is asked. -/
theorem comparisons_agree (a b c : Version) :
    (a.isGreaterThan b false = true ↔ compare a b = .gt) ∧
    (compare a b = .gt ↔ b.components < a.components) ∧
    (∀ ignoreBuild,
      [a.isGreaterThan b ignoreBuild, b.isGreaterThan a ignoreBuild,
        a.equals b ignoreBuild].count true = 1 ∧
      (a.isGreaterThan b ignoreBuild = true → b.isGreaterThan c ignoreBuild = true →
        a.isGreaterThan c ignoreBuild = true)) ∧
    (∀ first second,
      { a with build := first }.isGreaterThan { b with build := second } true =
          a.isGreaterThan b true ∧
        { a with build := first }.equals { b with build := second } true = a.equals b true) ∧
    (a.isGreaterThan b true = true → a.isGreaterThan b false = true) ∧
    (a.isGreaterThan b false = true ∧ a.isGreaterThan b true = false ↔
      a.isEngineCompatible b = true ∧ b.build < a.build) ∧
    (a.isEngineCompatible b = true ∧ b.build < a.build ↔
      a.admission b false = .acceptWithUpgradeWarning) := by
  rw [isEngineCompatible_iff]
  refine ⟨isGreaterThan_eq_true_iff, compare_eq_gt_iff, fun ignoreBuild => ?_,
    fun first second => ⟨rfl, rfl⟩, fun hGreater => isGreaterThan_iff.mpr (.inl hGreater),
    isGreaterThan_by_build_iff, admission_eq_acceptWithUpgradeWarning_iff.symm⟩
  exact ⟨count_comparisons a b ignoreBuild, isGreaterThan_trans⟩

/-- A later engine is greater than any build of an earlier one, and a build than those before it. -/
theorem comparisons_agree_releases :
    let next : Version := ⟨1, 10, 0, 0⟩
    let ours : Version := ⟨1, 9, 0, 3⟩
    let older : Version := ⟨1, 9, 0, 2⟩
    (next.isGreaterThan ours true = true ∧ next.isGreaterThan ours false = true) ∧
      (ours.isGreaterThan older false = true ∧ ours.isGreaterThan older true = false ∧
        ours.admission older false = .acceptWithUpgradeWarning) ∧
      next.isGreaterThan older false = true := by
  intro next ours older
  obtain ⟨-, -, hOrder, -, hFull, -, -⟩ := comparisons_agree next ours older
  obtain ⟨-, -, -, -, -, hBuild, hAsked⟩ := comparisons_agree ours older older
  have hNext : next.isGreaterThan ours false = true := hFull (by decide)
  have hOurs : ours.isGreaterThan older false = true := by decide
  exact ⟨⟨by decide, hNext⟩, ⟨hOurs, by decide, hAsked.mp (hBuild.mp ⟨hOurs, by decide⟩)⟩,
    (hOrder false).2 hNext hOurs⟩

end GameSave.Version
