import Mathlib.Data.List.Sort
import GameSave.Upgrade

/-! Upgrades that are due between two builds. Which steps a game takes, and in which
order, hangs on nothing but the builds: the order in which the table was written does
not matter, and neither does a stop on the way. -/

namespace GameSave.UpgradeTable

/-- The steps that are due between two versions, in order. -/
def due (t : UpgradeTable) (loaded running : Version) : List Upgrade :=
  t.steps.filter (isDue loaded running)

theorem apply_eq (t : UpgradeTable) (g : Game) (loaded running : Version) :
    t.apply g loaded running = ((t.due loaded running).foldl (fun g step => step.apply g) g,
      ⟨loaded.build, running.build, (t.due loaded running).map Upgrade.description⟩) := rfl

/-- The steps that are due are those for builds behind the one that was loaded, up to the running
one. -/
theorem mem_due_iff {t : UpgradeTable} {loaded running : Version} {step : Upgrade} :
    step ∈ t.due loaded running ↔
      step ∈ t.steps ∧ loaded.build < step.build ∧ step.build ≤ running.build := by
  rw [due, List.mem_filter, isDue, Bool.and_eq_true, decide_eq_true_eq, decide_eq_true_eq]

/-- Between two versions no step is due twice. -/
theorem nodup_builds_due (t : UpgradeTable) (loaded running : Version) :
    ((t.due loaded running).map Upgrade.build).Nodup :=
  List.pairwise_map.mpr ((t.ascending.filter _).imp UInt32.ne_of_lt)

/-! ### The order of steps -/

/-- The steps of a list that are due between two versions, in the order of their builds. The order
of the list itself does not count. -/
structure AreDue (steps : List Upgrade) (loaded running : Version) (taken : List Upgrade) :
    Prop where
  ascending : taken.Pairwise (fun a b => a.build < b.build)
  mem_iff : ∀ step, step ∈ taken ↔
    step ∈ steps ∧ loaded.build < step.build ∧ step.build ≤ running.build

variable {steps written taken others : List Upgrade} {loaded running : Version}

namespace AreDue

/-- Members and order leave no choice: at most one list is due. -/
theorem unique (h : AreDue steps loaded running taken)
    (hOthers : AreDue steps loaded running others) : taken = others := by
  have : Std.Irrefl (fun a b : Upgrade => a.build < b.build) := ⟨fun a => UInt32.lt_irrefl a.build⟩
  have : Std.Antisymm (fun a b : Upgrade => a.build < b.build) :=
    ⟨fun _ _ hLess hMore => absurd hMore (UInt32.lt_asymm hLess)⟩
  refine h.ascending.eq_of_mem_iff hOthers.ascending fun step => ?_
  rw [h.mem_iff, hOthers.mem_iff]

/-- What is due does not depend on the order in which steps were written down. -/
theorem perm (h : AreDue steps loaded running taken) (hWritten : written.Perm steps) :
    AreDue written loaded running taken :=
  ⟨h.ascending, fun step => by rw [h.mem_iff, hWritten.mem_iff]⟩

/-- Between a build and one that is not newer there is nothing to be done. -/
theorem nil (h : running.build ≤ loaded.build) : AreDue steps loaded running [] where
  ascending := .nil
  mem_iff step := by
    have hNone : ¬(loaded.build < step.build ∧ step.build ≤ running.build) :=
      fun ⟨hNew, hOld⟩ => UInt32.not_le.mpr hNew (UInt32.le_trans hOld h)
    simp [hNone]

/-- What is due on the way from one build to another, and then on to a third, is due from the
first to the third. -/
theorem append {first next last : Version} (hFirst : first.build ≤ next.build)
    (hNext : next.build ≤ last.build) (hTaken : AreDue steps first next taken)
    (hOthers : AreDue steps next last others) : AreDue steps first last (taken ++ others) where
  ascending := by
    refine List.pairwise_append.mpr ⟨hTaken.ascending, hOthers.ascending, fun a hA b hB => ?_⟩
    have hUpTo := ((hTaken.mem_iff a).mp hA).2.2
    have hBeyond := ((hOthers.mem_iff b).mp hB).2.1
    exact UInt32.lt_of_le_of_lt hUpTo hBeyond
  mem_iff step := by
    rw [List.mem_append, hTaken.mem_iff, hOthers.mem_iff]
    constructor
    · rintro (⟨hStep, hNew, hOld⟩ | ⟨hStep, hNew, hOld⟩)
      · exact ⟨hStep, hNew, UInt32.le_trans hOld hNext⟩
      · exact ⟨hStep, UInt32.lt_of_le_of_lt hFirst hNew, hOld⟩
    · rintro ⟨hStep, hNew, hOld⟩
      by_cases hStop : step.build ≤ next.build
      · exact .inl ⟨hStep, hNew, hStop⟩
      · exact .inr ⟨hStep, UInt32.not_le.mp hStop, hOld⟩

end AreDue

/-- The table yields what is due. -/
theorem areDue_due (t : UpgradeTable) (loaded running : Version) :
    AreDue t.steps loaded running (t.due loaded running) :=
  ⟨t.ascending.filter _, fun _ => mem_due_iff⟩

/-- A table takes the steps that are due, in the order of their builds, and reports them. -/
theorem apply_of_areDue {t : UpgradeTable} (h : AreDue t.steps loaded running taken) (g : Game) :
    t.apply g loaded running = (taken.foldl (fun g step => step.apply g) g,
      ⟨loaded.build, running.build, taken.map Upgrade.description⟩) := by
  rw [apply_eq, (t.areDue_due loaded running).unique h]

/-- A game that is not older than the build that loads it stays as it is. -/
theorem apply_of_le (t : UpgradeTable) (g : Game) (h : running.build ≤ loaded.build) :
    t.apply g loaded running = (g, ⟨loaded.build, running.build, []⟩) :=
  apply_of_areDue (AreDue.nil h) g

/-! ### Tables from lists -/

/-- The build that is found is the first that was there before. -/
theorem firstRepeated?_eq_some_iff {before builds : List UInt32} {build : UInt32} :
    firstRepeated? before builds = some build ↔ ∃ first rest, builds = first ++ build :: rest ∧
      first.Nodup ∧ (∀ b ∈ first, b ∉ before) ∧ (build ∈ before ∨ build ∈ first) := by
  induction builds generalizing before with
  | nil => simp [firstRepeated?]
  | cons b builds ih =>
      rw [firstRepeated?]
      split
      · next hBefore =>
        rw [Option.some_inj]
        constructor
        · rintro rfl
          exact ⟨[], builds, rfl, .nil, by simp, .inl hBefore⟩
        · rintro ⟨_ | ⟨c, first⟩, rest, hBuilds, -, hNew, -⟩
          · exact (List.cons.inj hBuilds).1
          · obtain rfl := (List.cons.inj hBuilds).1
            exact absurd hBefore (hNew b List.mem_cons_self)
      · next hBefore =>
        rw [ih]
        constructor
        · rintro ⟨first, rest, rfl, hNodup, hNew, hBuild⟩
          refine ⟨b :: first, rest, rfl, List.nodup_cons.mpr ⟨fun hB => ?_, hNodup⟩, ?_, ?_⟩
          · exact hNew b hB List.mem_cons_self
          · rintro c (_ | ⟨_, hC⟩)
            · exact hBefore
            · exact fun hOld => hNew c hC (List.mem_cons_of_mem _ hOld)
          · simpa [or_comm, or_left_comm, or_assoc] using hBuild
        · rintro ⟨_ | ⟨c, first⟩, rest, hBuilds, hNodup, hNew, hBuild⟩
          · obtain rfl := (List.cons.inj hBuilds).1
            simp [hBefore] at hBuild
          · obtain ⟨rfl, rfl⟩ := List.cons.inj hBuilds
            obtain ⟨hNotIn, hNodup⟩ := List.nodup_cons.mp hNodup
            refine ⟨first, rest, rfl, hNodup, fun d hD => ?_, ?_⟩
            · rw [List.mem_cons, not_or]
              exact ⟨fun hSame => hNotIn (hSame ▸ hD), hNew d (List.mem_cons_of_mem _ hD)⟩
            · simpa [or_comm, or_left_comm, or_assoc] using hBuild

theorem sort_perm (steps : List Upgrade) : (sort steps).Perm steps :=
  List.mergeSort_perm steps _

/-- A table is made of steps for different builds, and has them sorted. -/
theorem ofList_eq_ok_iff {t : UpgradeTable} :
    ofList steps = .ok t ↔ (steps.map Upgrade.build).Nodup ∧ t.steps = sort steps := by
  obtain ⟨stored, hAscending⟩ := t
  unfold ofList
  split
  · next build hBuild =>
    refine iff_of_false (fun hOk => nomatch hOk) fun ⟨hNodup, _⟩ => ?_
    obtain ⟨first, rest, hBuilds, -, -, hRepeated⟩ := firstRepeated?_eq_some_iff.mp hBuild
    rw [hBuilds, List.nodup_append] at hNodup
    have hIn : build ∈ first := hRepeated.resolve_left List.not_mem_nil
    exact hNodup.2.2 build hIn build List.mem_cons_self rfl
  · next hBuild =>
    have hNodup := (nodup_of_firstRepeated?_eq_none hBuild).1
    simp [hNodup, eq_comm]

theorem exists_ofList (h : (steps.map Upgrade.build).Nodup) : ∃ t, ofList steps = .ok t :=
  ⟨⟨sort steps, ascending_sort h⟩, ofList_eq_ok_iff.mpr ⟨h, rfl⟩⟩

/-- The table of a list takes the steps of the list that are due. -/
theorem areDue_of_ofList {t : UpgradeTable} (h : ofList steps = .ok t) :
    AreDue t.steps loaded running taken ↔ AreDue steps loaded running taken := by
  rw [(ofList_eq_ok_iff.mp h).2]
  exact ⟨fun hTaken => hTaken.perm (sort_perm steps).symm,
    fun hTaken => hTaken.perm (sort_perm steps)⟩

/-- The first build of a list of steps that an earlier step of the list has too. -/
def FirstShared (steps : List Upgrade) (build : UInt32) : Prop :=
  ∃ before step after, steps = before ++ step :: after ∧ step.build = build ∧
    (before.map Upgrade.build).Nodup ∧ build ∈ before.map Upgrade.build

/-- If there is no table, it is for the first build that is shared. -/
theorem ofList_eq_error_iff {e : DuplicateUpgrade} :
    ofList steps = .error e ↔ FirstShared steps e.build := by
  have hFirst : ofList steps = .error e ↔
      firstRepeated? [] (steps.map Upgrade.build) = some e.build := by
    obtain ⟨shared⟩ := e
    unfold ofList
    split
    · next build hBuild => simp [hBuild]
    · next hBuild => simp [hBuild]
  rw [hFirst, firstRepeated?_eq_some_iff]
  constructor
  · rintro ⟨first, rest, hBuilds, hNodup, -, hBuild⟩
    obtain ⟨before, later, rfl, rfl, hLater⟩ := List.map_eq_append_iff.mp hBuilds
    obtain ⟨step, after, rfl, hStep, -⟩ := List.map_eq_cons_iff.mp hLater
    exact ⟨before, step, after, rfl, hStep, hNodup, hBuild.resolve_left List.not_mem_nil⟩
  · rintro ⟨before, step, after, rfl, hStep, hNodup, hBuild⟩
    refine ⟨before.map Upgrade.build, after.map Upgrade.build, ?_, hNodup, by simp, .inr hBuild⟩
    rw [List.map_append, List.map_cons, hStep]

/-- However a list of steps is written, its table takes the steps that are due, in the order of
their builds and none of them twice. A list has no table if two steps share a build. -/
theorem apply_in_build_order (steps : List Upgrade) :
    ((steps.map Upgrade.build).Nodup →
      (∀ loaded running, ∃! taken, AreDue steps loaded running taken) ∧
      ∀ written, written.Perm steps → ∃ t, ofList written = .ok t ∧
        ∀ loaded running taken, AreDue steps loaded running taken → ∀ g,
          t.apply g loaded running = (taken.foldl (fun g step => step.apply g) g,
            ⟨loaded.build, running.build, taken.map Upgrade.description⟩)) ∧
    (∀ loaded running, running.build ≤ loaded.build → AreDue steps loaded running []) ∧
    (¬(steps.map Upgrade.build).Nodup → ∃ e, ofList steps = .error e ∧
      FirstShared steps e.build ∧
      e.message = "Duplicate data upgrade step for build " ++ e.build.toNat.repr) := by
  refine ⟨fun hNodup => ⟨fun loaded running => ?_, fun written hWritten => ?_⟩,
    fun loaded running => .nil, fun hShared => ?_⟩
  · obtain ⟨t, hList⟩ := exists_ofList hNodup
    have hDue := (areDue_of_ofList hList).mp (t.areDue_due loaded running)
    exact ⟨_, hDue, fun others hOthers => hOthers.unique hDue⟩
  · obtain ⟨t, hList⟩ := exists_ofList ((hWritten.map Upgrade.build).nodup_iff.mpr hNodup)
    refine ⟨t, hList, fun loaded running taken hTaken => apply_of_areDue ?_⟩
    exact (areDue_of_ofList hList).mpr (hTaken.perm hWritten)
  · cases hList : ofList steps with
    | ok t => exact absurd (ofList_eq_ok_iff.mp hList).1 hShared
    | error e => exact ⟨e, rfl, ofList_eq_error_iff.mp hList, rfl⟩

/-- Two steps that do not commute, written in the wrong order, and a third that has no place. -/
theorem apply_in_build_order_reversed :
    let next : Upgrade := ⟨4, "next round", fun g => { g with round := g.round + 1 }⟩
    let first : Upgrade := ⟨6, "first round", fun g => { g with round := 1 }⟩
    (∃ t, ofList [first, next] = .ok t ∧ t.apply .blank ⟨1, 2, 3, 3⟩ ⟨1, 2, 3, 6⟩ =
      ({ Game.blank with round := 1 }, ⟨3, 6, ["next round", "first round"]⟩)) ∧
    ∃ e, ofList [first, next, first] = .error e ∧ FirstShared [first, next, first] e.build ∧
      e.message = "Duplicate data upgrade step for build 6" := by
  intro next first
  constructor
  · obtain ⟨-, hWritten⟩ := (apply_in_build_order [next, first]).1 (by decide)
    obtain ⟨t, hList, hApply⟩ := hWritten [first, next] (.swap next first [])
    have hDue : AreDue [next, first] ⟨1, 2, 3, 3⟩ ⟨1, 2, 3, 6⟩ [next, first] :=
      ⟨by decide, fun step => by simp; rintro (rfl | rfl) <;> decide⟩
    exact ⟨t, hList, hApply _ _ _ hDue .blank⟩
  · obtain ⟨e, hList, hShared, hMessage⟩ :=
      (apply_in_build_order [first, next, first]).2.2 (by decide)
    have hSix : ofList [first, next, first] = .error ⟨6⟩ := rfl
    obtain rfl := Except.error.inj (hList.symm.trans hSix)
    exact ⟨_, hList, hShared, hMessage⟩

/-! ### Stops on the way -/

/-- What becomes of a game that is upgraded from version to version, with a report for each way. -/
def applyAlong (t : UpgradeTable) (g : Game) (first : Version) :
    List Version → Game × List UpgradeReport
  | [] => (g, [])
  | next :: later =>
    let (upgraded, report) := t.apply g first next
    let (last, reports) := t.applyAlong upgraded next later
    (last, report :: reports)

/-- The steps between two builds are those up to a build between them, and then the others. -/
theorem due_append (t : UpgradeTable) {first next last : Version}
    (hFirst : first.build ≤ next.build) (hNext : next.build ≤ last.build) :
    t.due first last = t.due first next ++ t.due next last :=
  (t.areDue_due first last).unique
    ((t.areDue_due first next).append hFirst hNext (t.areDue_due next last))

/-- If builds never go back, the last is not behind the first. -/
theorem build_le_of_isChain {first : Version} {later : List Version}
    (h : (first :: later).IsChain (fun a b => a.build ≤ b.build)) :
    first.build ≤ (later.getLastD first).build := by
  induction later generalizing first with
  | nil => exact UInt32.le_refl _
  | cons next later ih =>
      obtain ⟨hFirst, hLater⟩ := List.isChain_cons_cons.mp h
      rw [List.getLastD_cons]
      exact UInt32.le_trans hFirst (ih hLater)

/-- It makes no difference whether a game is upgraded at once or with stops on the way: the same
steps are taken in the same order. -/
theorem applyAlong_eq_apply (t : UpgradeTable) (g : Game) {first : Version} {later : List Version}
    (h : (first :: later).IsChain (fun a b => a.build ≤ b.build)) :
    (t.applyAlong g first later).1 = (t.apply g first (later.getLastD first)).1 ∧
      (t.applyAlong g first later).2.flatMap UpgradeReport.applied =
        (t.apply g first (later.getLastD first)).2.applied := by
  induction later generalizing g first with
  | nil =>
      rw [List.getLastD_nil, apply_of_le t g (UInt32.le_refl first.build)]
      exact ⟨rfl, rfl⟩
  | cons next later ih =>
      obtain ⟨hFirst, hLater⟩ := List.isChain_cons_cons.mp h
      obtain ⟨hData, hReports⟩ := ih (t.apply g first next).1 hLater
      have hNext := build_le_of_isChain hLater
      rw [List.getLastD_cons, applyAlong]
      simp only [apply_eq, due_append t hFirst hNext, List.foldl_append, List.map_append,
        List.flatMap_cons] at hData hReports ⊢
      exact ⟨hData, by rw [hReports]⟩

/-- Two steps that do not commute, with a stop between them and one at which nothing is due. -/
theorem applyAlong_eq_apply_two_stops :
    let t : UpgradeTable := ⟨[⟨4, "next round", fun g => { g with round := g.round + 1 }⟩,
      ⟨6, "first round", fun g => { g with round := 1 }⟩], by simp⟩
    let along := t.applyAlong .blank ⟨1, 2, 3, 3⟩ [⟨1, 2, 3, 4⟩, ⟨1, 2, 3, 4⟩, ⟨1, 2, 3, 6⟩]
    along.2.map UpgradeReport.applied = [["next round"], [], ["first round"]] ∧
      along.1 = (t.apply .blank ⟨1, 2, 3, 3⟩ ⟨1, 2, 3, 6⟩).1 ∧
        along.2.flatMap UpgradeReport.applied = ["next round", "first round"] := by
  intro t along
  obtain ⟨hData, hReports⟩ := @applyAlong_eq_apply t .blank ⟨1, 2, 3, 3⟩
    [⟨1, 2, 3, 4⟩, ⟨1, 2, 3, 4⟩, ⟨1, 2, 3, 6⟩] (by decide)
  exact ⟨rfl, hData, hReports⟩

end GameSave.UpgradeTable
