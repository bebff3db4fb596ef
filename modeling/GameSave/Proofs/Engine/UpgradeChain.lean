import GameSave.Proofs.Engine.RoundTrip
import GameSave.Proofs.Upgrade

/-! Upgrades along a chain of engines. Which steps a load takes hangs on nothing but
the build that saved last. So a step is taken a second time only if an older build
has saved the game in between, and the save of an older build is not told apart from
one that was never upgraded. -/

namespace GameSave

/-- One who takes part in handing a game on: the engine, what it loads, and what it saves after the
game was played. -/
structure Turn (δ : Type) where
  engine : Engine δ
  loaded : LoadedGame δ
  saved : RunningGame δ

namespace Turn

variable {δ : Type}

def build (turn : Turn δ) : UInt32 := turn.engine.version.build

/-- The steps of a table that are taken when a turn begins. -/
def taken (t : UpgradeTable) (turn : Turn δ) : List Upgrade :=
  t.due turn.loaded.version turn.engine.version

end Turn

variable {δ : Type} [Delegate δ]

/-- A game that an engine has saved is handed on. In each turn an engine with the same table loads
the last save, and then saves the game itself. -/
inductive Relay (t : UpgradeTable) : Engine δ → RunningGame δ → List (Turn δ) → Prop where
  | rest (saver : Engine δ) (game : RunningGame δ) : Relay t saver game []
  | next {saver : Engine δ} {game : RunningGame δ} {turn : Turn δ} {later : List (Turn δ)}
      {file : Bytes} {path : Option String} (hSave : saver.save game = .ok file)
      (hTable : turn.engine.upgrades = t)
      (hLoad : (turn.engine.load file path).outcome = .ok (.loaded turn.loaded))
      (hLater : Relay t turn.engine turn.saved later) : Relay t saver game (turn :: later)

namespace Relay

variable {t : UpgradeTable} {saver : Engine δ} {game : RunningGame δ} {turns : List (Turn δ)}

/-! ### Turns -/

/-- A load sees the version of the engine that saved, and takes the steps that are due from there to
its own version. -/
structure Upgrades (t : UpgradeTable) (saver : Engine δ) (game : RunningGame δ) (turn : Turn δ) :
    Prop where
  version : turn.loaded.version = saver.version
  data : turn.loaded.game.data = (turn.taken t).foldl (fun g step => step.apply g) game.data
  report : turn.loaded.upgrades.applied = (turn.taken t).map Upgrade.description

theorem upgrades_of_load {turn : Turn δ} {file : Bytes} {path : Option String}
    (hSave : saver.save game = .ok file) (hTable : turn.engine.upgrades = t)
    (hLoad : (turn.engine.load file path).outcome = .ok (.loaded turn.loaded)) :
    Upgrades t saver game turn := by
  obtain ⟨c, data, l, hHolds, hLoaded⟩ := Engine.outcome_eq_loaded_iff_holds.mp hLoad
  obtain ⟨rfl, rfl, -⟩ := Engine.capture_of_holds (Engine.isSaveOf_of_save hSave) hHolds
  rw [Engine.gameOf, hTable, UpgradeTable.apply_eq] at hLoaded
  have hVersion : turn.loaded.version = saver.version := congrArg LoadedGame.version hLoaded
  refine ⟨hVersion, ?_, ?_⟩
  · rw [Turn.taken, hVersion, hLoaded]
    rfl
  · rw [Turn.taken, hVersion, hLoaded]
    rfl

/-- In every turn the steps are taken that are due since the last save. -/
def UpgradesAll (t : UpgradeTable) : Engine δ → RunningGame δ → List (Turn δ) → Prop
  | _, _, [] => True
  | saver, game, turn :: later =>
    Upgrades t saver game turn ∧ UpgradesAll t turn.engine turn.saved later

/-- Every turn of a relay takes the steps that are due in it. -/
theorem upgradesAll (h : Relay t saver game turns) : UpgradesAll t saver game turns := by
  induction h with
  | rest saver game => trivial
  | next hSave hTable hLoad hLater ih => exact ⟨upgrades_of_load hSave hTable hLoad, ih⟩

/-! ### Chains -/

/-- What follows some turns is a relay too. -/
theorem exists_later {before later : List (Turn δ)} (h : Relay t saver game (before ++ later)) :
    ∃ saver game, Relay t saver game later := by
  induction before generalizing saver game with
  | nil => exact ⟨saver, game, h⟩
  | cons turn before ih =>
      cases h with
      | next hSave hTable hLoad hLater => exact ih hLater

/-- A step is taken behind an engine that has it only if an engine comes between that lacks it. -/
theorem exists_older {between after : List (Turn δ)} {last : Turn δ}
    (h : Relay t saver game (between ++ last :: after)) {step : Upgrade}
    (hSaver : step.build ≤ saver.version.build) (hStep : step ∈ last.taken t) :
    ∃ turn ∈ between, turn.build < step.build := by
  induction between generalizing saver game with
  | nil =>
      cases h with
      | next hSave hTable hLoad hLater =>
          have hVersion := (upgrades_of_load hSave hTable hLoad).version
          have hNewer := (UpgradeTable.mem_due_iff.mp hStep).2.1
          rw [hVersion] at hNewer
          exact absurd hSaver (UInt32.not_le.mpr hNewer)
  | cons turn between ih =>
      cases h with
      | next hSave hTable hLoad hLater =>
          by_cases hOlder : turn.build < step.build
          · exact ⟨turn, List.mem_cons_self, hOlder⟩
          · obtain ⟨found, hMem, hFound⟩ := ih hLater (UInt32.not_lt.mp hOlder)
            exact ⟨found, List.mem_cons_of_mem _ hMem, hFound⟩

/-- Behind an engine that has a step nobody takes it again as long as every engine has it. -/
theorem not_taken {build : UInt32} (h : Relay t saver game turns)
    (hSaver : build ≤ saver.version.build) (hTurns : ∀ turn ∈ turns, build ≤ turn.build) :
    build ∉ (turns.flatMap (Turn.taken t)).map Upgrade.build := by
  intro hFound
  obtain ⟨step, hStep, rfl⟩ := List.mem_map.mp hFound
  obtain ⟨last, hMem, hTaken⟩ := List.mem_flatMap.mp hStep
  obtain ⟨between, after, rfl⟩ := List.append_of_mem hMem
  obtain ⟨turn, hTurn, hOlder⟩ := h.exists_older hSaver hTaken
  exact absurd (hTurns turn (List.mem_append_left _ hTurn)) (UInt32.not_le.mpr hOlder)

/-- A step is taken once at most if no engine that lacks it comes behind one that has it. -/
theorem count_taken_le_one {build : UInt32} (h : Relay t saver game turns)
    (hKept : (turns.map Turn.build).Pairwise fun a b => build ≤ a → build ≤ b) :
    ((turns.flatMap (Turn.taken t)).map Upgrade.build).count build ≤ 1 := by
  induction h with
  | rest saver game => exact Nat.zero_le _
  | @next saver game turn later file path hSave hTable hLoad hLater ih =>
      rw [List.map_cons, List.pairwise_cons] at hKept
      obtain ⟨hFirst, hRest⟩ := hKept
      rw [List.flatMap_cons, List.map_append, List.count_append]
      by_cases hTaken : build ∈ (turn.taken t).map Upgrade.build
      · obtain ⟨step, hStep, rfl⟩ := List.mem_map.mp hTaken
        have hHas : step.build ≤ turn.build := (UpgradeTable.mem_due_iff.mp hStep).2.2
        have hLaterHas : ∀ found ∈ later, step.build ≤ found.build :=
          fun found hMem => hFirst _ (List.mem_map_of_mem hMem) hHas
        have hOnce := List.nodup_iff_count.mp
          (t.nodup_builds_due turn.loaded.version turn.engine.version) step.build
        rw [List.count_eq_zero.mpr (hLater.not_taken hHas hLaterHas)]
        exact hOnce
      · rw [List.count_eq_zero.mpr hTaken, Nat.zero_add]
        exact ih hRest

/-- No step is taken twice unless an engine that lacks it has saved the game in between. So each is
taken once at most if no engine that lacks it comes behind one that has it, and all are if builds
never fall. -/
theorem taken_twice_only_behind_older (h : Relay t saver game turns) :
    UpgradesAll t saver game turns ∧
      (∀ before first between last after step,
        turns = before ++ first :: (between ++ last :: after) → step ∈ first.taken t →
          step ∈ last.taken t → ∃ turn ∈ between, turn.build < step.build) ∧
      (∀ build, (turns.map Turn.build).Pairwise (fun a b => build ≤ a → build ≤ b) →
        ((turns.flatMap (Turn.taken t)).map Upgrade.build).count build ≤ 1) ∧
      ((turns.map Turn.build).Pairwise (· ≤ ·) →
        ((turns.flatMap (Turn.taken t)).map Upgrade.build).Nodup) := by
  refine ⟨h.upgradesAll, ?_, fun build hKept => h.count_taken_le_one hKept, ?_⟩
  · rintro before first between last after step rfl hFirst hLast
    obtain ⟨saver, game, hLater⟩ := h.exists_later
    cases hLater with
    | next hSave hTable hLoad hLater =>
        exact hLater.exists_older (UpgradeTable.mem_due_iff.mp hFirst).2.2 hLast
  · intro hRising
    refine List.nodup_iff_count.mpr fun build => ?_
    exact h.count_taken_le_one (hRising.imp fun hLe hHas => UInt32.le_trans hHas hLe)

/-! ### Relays without play -/

/-- The turns of some engines that hand a game on as they find it, if all of them can load it. -/
def pass? (saver : Engine δ) (game : RunningGame δ) : List (Engine δ) → Option (List (Turn δ))
  | [] => some []
  | engine :: later => do
    let file ← (saver.save game).toOption
    let result ← (engine.load file none).outcome.toOption
    let loaded ← result.game?
    let turns ← pass? engine loaded.game later
    return ⟨engine, loaded, loaded.game⟩ :: turns

/-- What engines pass on in turn is a relay. -/
theorem relay_of_pass? {engines : List (Engine δ)} (hTable : ∀ e ∈ engines, e.upgrades = t)
    (h : pass? saver game engines = some turns) : Relay t saver game turns := by
  induction engines generalizing saver game turns with
  | nil =>
      obtain rfl := Option.some.inj h
      exact .rest saver game
  | cons engine later ih =>
      obtain ⟨hFirst, hRest⟩ := List.forall_mem_cons.mp hTable
      simp only [pass?, Option.bind_eq_bind, Option.bind_eq_some_iff, Except.toOption_eq_some] at h
      obtain ⟨file, hSave, result, hLoad, loaded, hGame, found, hLater, hTurns⟩ := h
      obtain rfl := Option.some.inj hTurns
      cases result with
      | notLoaded reason => cases hGame
      | loaded game =>
          obtain rfl := Option.some.inj hGame
          exact .next hSave hFirst hLoad (ih hRest hLater)

/-- Two steps, the first of which does more if it is taken twice. -/
def rounds : UpgradeTable where
  steps := [⟨4, "next round", fun g => { g with round := g.round + 1 }⟩,
    ⟨6, "first round", fun g => { g with round := 1 }⟩]
  ascending := by simp

/-- An engine of a build with these steps. -/
def engineOf (build : UInt32) : Engine BuiltinDelegate :=
  { Engine.standard id { Settings.standard with
      engineVersion := ⟨1, 2, 3, build⟩, compress := false } with upgrades := rounds }

theorem upgrades_engineOf (builds : List UInt32) :
    ∀ e ∈ builds.map engineOf, e.upgrades = rounds := by
  simp [engineOf]

/-- Builds that fall, but never below a step that was taken. -/
theorem taken_twice_only_behind_older_kept :
    ∃ turns, Relay rounds (engineOf 3) .blank turns ∧ turns.map Turn.build = [5, 4, 6, 4] ∧
      ((turns.flatMap (Turn.taken rounds)).map Upgrade.build).count 4 ≤ 1 := by
  have hPass : (pass? (engineOf 3) .blank ([5, 4, 6, 4].map engineOf)).any
      (fun turns => turns.map Turn.build == [5, 4, 6, 4]) = true := by
    decide +kernel
  obtain ⟨turns, hTurns, hBuilds⟩ := (Option.any_eq_true _ _).mp hPass
  have hRelay := relay_of_pass? (upgrades_engineOf _) hTurns
  rw [beq_iff_eq] at hBuilds
  refine ⟨turns, hRelay, hBuilds, ?_⟩
  exact (taken_twice_only_behind_older hRelay).2.2.1 4 (by rw [hBuilds]; decide)

/-- A game goes from build 3 to build 5, back to 3 and to 5 again, and each time build 5 takes the
step of build 4. -/
theorem taken_twice_behind_older :
    ∃ turns, Relay rounds (engineOf 3) .blank turns ∧ turns.map Turn.build = [5, 3, 5] ∧
      (turns.flatMap (Turn.taken rounds)).map Upgrade.build = [4, 4] ∧
      turns.map (fun turn => turn.loaded.game.data.round) = [1, 1, 2] := by
  have hPass : (pass? (engineOf 3) .blank ([5, 3, 5].map engineOf)).any (fun turns =>
      turns.map Turn.build == [5, 3, 5] &&
        ((turns.flatMap (Turn.taken rounds)).map Upgrade.build == [4, 4] &&
          turns.map (fun turn => turn.loaded.game.data.round) == [1, 1, 2])) = true := by
    decide +kernel
  obtain ⟨turns, hTurns, hFound⟩ := (Option.any_eq_true _ _).mp hPass
  simp only [Bool.and_eq_true, beq_iff_eq] at hFound
  exact ⟨turns, relay_of_pass? (upgrades_engineOf _) hTurns, hFound⟩

end Relay

end GameSave
