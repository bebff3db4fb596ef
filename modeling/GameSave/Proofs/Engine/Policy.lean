import GameSave.Proofs.Container.Canonical
import GameSave.Proofs.Engine.Save

/-! The policy on versions. It looks at the version in front of a container and
at nothing behind it, and it has exactly those consulted who have a say. -/

namespace GameSave.Engine

open ContainerReader

variable {δ : Type}

/-! ### Versions in files -/

/-- The container in a file begins with a version. What follows it may be anything. -/
def Shows (file : Bytes) (loaded : Version) : Prop :=
  ∃ tail, Envelope.unwrap file = .ok (Container.magic ++ loaded.encode ++ tail)

/-- A file shows its version exactly if it opens. -/
theorem shows_iff {file : Bytes} {loaded : Version} :
    Shows file loaded ↔ ∃ rest, openSave file = .ok (loaded, rest) := by
  simp only [openSave_eq_ok_iff]
  constructor
  · rintro ⟨tail, hUnwrap⟩
    obtain ⟨rest, hVersion, -⟩ := reads_readVersion loaded (.ofBytes _) tail rfl rfl
    exact ⟨rest, _, hUnwrap, hVersion⟩
  · rintro ⟨rest, container, hUnwrap, hVersion⟩
    have hTakes := takes_readVersion rfl hVersion
    exact ⟨rest.pending, hUnwrap.trans (congrArg Except.ok hTakes.pending_eq)⟩

/-! ### Loads and rulings -/

/-- Whom the policy has a load consult about the version of a save, and when. -/
inductive Consults (e : Engine δ) (loaded : Version) : Option String → Consultation → Prop where
  | operator {path : Option String} (hOther : ¬loaded.SameEngine e.version)
      (hUnattended : e.settings.unattended = true) :
      Consults e loaded path (.notified loaded e.version)
  | legacyRuntime {path : String} (hOther : ¬loaded.SameEngine e.version)
      (hAttended : e.settings.unattended = false) :
      Consults e loaded (some path) (.askedForLegacyRuntime loaded path)
  | player {path : Option String} (hSame : loaded.SameEngine e.version)
      (hAttended : e.settings.unattended = false) (hNewer : e.version.build < loaded.build) :
      Consults e loaded path (.askedToUpgrade loaded e.version)

/-- The policy asks for one consultation at most. -/
theorem Consults.unique {e : Engine δ} {loaded : Version} {path : Option String}
    {c d : Consultation} (hC : e.Consults loaded path c) (hD : e.Consults loaded path d) :
    c = d := by
  cases hC with
  | operator hOther hUnattended =>
      cases hD with
      | operator => rfl
      | legacyRuntime _ hAttended => simp [hUnattended] at hAttended
      | player hSame => exact absurd hSame hOther
  | legacyRuntime hOther hAttended =>
      cases hD with
      | operator _ hUnattended => simp [hUnattended] at hAttended
      | legacyRuntime => rfl
      | player hSame => exact absurd hSame hOther
  | player hSame hAttended hNewer =>
      cases hD with
      | operator hOther => exact absurd hSame hOther
      | legacyRuntime hOther => exact absurd hSame hOther
      | player => rfl

theorem Consults.singleton_iff {e : Engine δ} {loaded : Version} {path : Option String}
    {c : Consultation} (h : e.Consults loaded path c) (d : Consultation) :
    [c] = [d] ↔ e.Consults loaded path d := by
  constructor
  · rintro ⟨⟩
    exact h
  · intro hD
    rw [h.unique hD]

/-- A ruling comes after the one consultation that the policy asks for, or after none. -/
theorem Ruling.consults_iff {e : Engine δ} {loaded : Version} {path : Option String}
    {ruling : List Consultation × Verdict} (h : e.Ruling loaded path ruling) (c : Consultation) :
    ruling.1 = [c] ↔ e.Consults loaded path c := by
  cases h with
  | reject hOther hUnattended => exact (Consults.operator hOther hUnattended).singleton_iff c
  | pathless hOther hAttended =>
      refine iff_of_false (nomatch ·) fun hC => ?_
      cases hC with
      | operator _ hUnattended => simp [hUnattended] at hAttended
      | player hSame => exact hOther hSame
  | launch hOther hAttended => exact (Consults.legacyRuntime hOther hAttended).singleton_iff c
  | unresolvable hOther hAttended =>
      exact (Consults.legacyRuntime hOther hAttended).singleton_iff c
  | decline hSame hAttended hNewer => exact (Consults.player hSame hAttended hNewer).singleton_iff c
  | proceed hSame hAttended hNewer => exact (Consults.player hSame hAttended hNewer).singleton_iff c
  | accept hSame hSilent =>
      refine iff_of_false (nomatch ·) fun hC => ?_
      cases hC with
      | operator hOther => exact hOther hSame
      | legacyRuntime hOther => exact hOther hSame
      | player _ hAttended hNewer => exact not_asked_iff.mpr hSilent ⟨hAttended, hNewer⟩

/-- At most one question is asked. -/
theorem Ruling.length_le {e : Engine δ} {loaded : Version} {path : Option String}
    {ruling : List Consultation × Verdict} (h : e.Ruling loaded path ruling) :
    ruling.1.length ≤ 1 := by
  cases h <;> simp

/-- A version has one ruling only. -/
theorem Ruling.judge_eq {e : Engine δ} {loaded : Version} {path : Option String}
    {ruling : List Consultation × Verdict} (h : e.Ruling loaded path ruling) :
    e.judge loaded path = ruling := by
  cases h with
  | reject hOther hUnattended =>
      simp [judge, Version.admission_of_not_sameEngine hOther, hUnattended]
  | pathless hOther hAttended =>
      simp [judge, Version.admission_of_not_sameEngine hOther, hAttended]
  | launch hOther hAttended hAnswer =>
      simp [judge, Version.admission_of_not_sameEngine hOther, hAttended, hAnswer]
  | unresolvable hOther hAttended hAnswer =>
      simp [judge, Version.admission_of_not_sameEngine hOther, hAttended, hAnswer]
  | decline hSame hAttended hNewer hAnswer =>
      simp [judge, hSame.admission_eq, hAttended, hNewer, hAnswer]
  | proceed hSame hAttended hNewer hAnswer =>
      simp [judge, hSame.admission_eq, hAttended, hNewer, hAnswer]
  | accept hSame hSilent =>
      simp only [judge, hSame.admission_eq, if_neg (not_asked_iff.mpr hSilent)]

/-- What stands against a version: another engine made the save, or the player does not want to open
the save of a newer build. -/
theorem not_admits_iff {e : Engine δ} {loaded : Version} : ¬e.Admits loaded ↔
    ¬loaded.SameEngine e.version ∨ e.settings.unattended = false ∧
      e.version.build < loaded.build ∧ e.advisors.upgradePrompt loaded e.version = .cancel := by
  by_cases hSame : loaded.SameEngine e.version
  · have hAdmits : e.Admits loaded ↔ e.settings.unattended = true ∨
        loaded.build ≤ e.version.build ∨ e.advisors.upgradePrompt loaded e.version = .proceed :=
      ⟨Admits.agreed, fun h => ⟨hSame, h⟩⟩
    have hAnswer : ¬e.advisors.upgradePrompt loaded e.version = .proceed ↔
        e.advisors.upgradePrompt loaded e.version = .cancel := by
      cases e.advisors.upgradePrompt loaded e.version <;> simp
    rw [hAdmits, not_or, not_or, Bool.not_eq_true, UInt32.not_le, hAnswer,
      or_iff_right (not_not_intro hSame)]
  · exact iff_of_true (fun h => hSame h.sameEngine) (.inl hSame)

section Loads

variable [Delegate δ] {e : Engine δ} {file : Bytes} {path : Option String} {loaded : Version}
  {rest : ByteSource} {consultations : List Consultation}

/-- A load that is stopped ends without a game, and that is no fault. -/
theorem load_of_stop (hOpen : openSave file = .ok (loaded, rest)) {reason : NotLoadedReason}
    (hJudge : e.judge loaded path = (consultations, .stop reason)) :
    e.load file path = ⟨consultations, .ok (.notLoaded reason)⟩ := by
  simp only [load, hOpen, hJudge]

theorem load_of_incompatible (hOpen : openSave file = .ok (loaded, rest))
    (hJudge : e.judge loaded path = (consultations, .incompatible)) :
    e.load file path = ⟨consultations, .error (.versionIncompatible loaded e.version)⟩ := by
  simp only [load, hOpen, hJudge]

/-- A load that goes on rebuilds the game and asks nothing more. -/
theorem load_of_goOn (hOpen : openSave file = .ok (loaded, rest))
    (hJudge : e.judge loaded path = (consultations, .goOn)) :
    e.load file path = ⟨consultations, (e.rebuildGame loaded rest).map .loaded⟩ := by
  simp only [load, hOpen, hJudge]

/-- Whoever is consulted is consulted about the version. -/
theorem load_consultations (hOpen : openSave file = .ok (loaded, rest)) :
    (e.load file path).consultations = (e.judge loaded path).1 := by
  cases hJudge : e.judge loaded path with
  | mk consultations verdict =>
      cases verdict with
      | goOn => rw [load_of_goOn hOpen hJudge]
      | stop reason => rw [load_of_stop hOpen hJudge]
      | incompatible => rw [load_of_incompatible hOpen hJudge]

end Loads

/-- The same engine with nobody there to be asked. -/
def leftAlone (e : Engine δ) : Engine δ :=
  { e with settings := { e.settings with unattended := true } }

variable [Delegate δ]

/-- What the policy asks of a load of a file. -/
structure FollowsPolicy (e : Engine δ) (file : Bytes) (path : Option String) (run : LoadRun δ) :
    Prop where
  /-- Someone is consulted once, and with these words, exactly if the file shows a version about
  which the policy wants them consulted. -/
  consults : ∀ c, run.consultations = [c] ↔ ∃ loaded, Shows file loaded ∧ e.Consults loaded path c
  /-- Nobody is consulted twice, and no two are consulted. -/
  at_most_one : run.consultations.length ≤ 1
  /-- A file that shows no version is refused. -/
  unreadable : (¬∃ loaded, Shows file loaded) → ∃ fault, run.outcome = .error fault
  rejected : ∀ loaded, Shows file loaded → ¬loaded.SameEngine e.version →
    e.settings.unattended = true → run.outcome = .ok (.notLoaded .rejectedIncompatible)
  handed_over : ∀ loaded place, Shows file loaded → ¬loaded.SameEngine e.version →
    e.settings.unattended = false → path = some place →
      run.outcome = match e.advisors.legacyRuntime loaded place with
        | .launched => .ok (.notLoaded .handedToLegacyRuntime)
        | .unresolvable => .error (.versionIncompatible loaded e.version)
  without_path : ∀ loaded, Shows file loaded → ¬loaded.SameEngine e.version →
    e.settings.unattended = false → path = none →
      run.outcome = .error (.versionIncompatible loaded e.version)
  declined : ∀ loaded, Shows file loaded → loaded.SameEngine e.version →
    e.settings.unattended = false → e.version.build < loaded.build →
      e.advisors.upgradePrompt loaded e.version = .cancel →
        run.outcome = .ok (.notLoaded .upgradeDeclined)
  /-- Once nothing stands against the version, nobody has a say in what comes of the load. -/
  goes_on : ∀ loaded, Shows file loaded → e.Admits loaded →
    run.outcome = (e.leftAlone.load file path).outcome

/-- A version that is not admitted decides alone how the load goes. -/
theorem load_eq_of_not_admits {e : Engine δ} {file other : Bytes} {path : Option String}
    {loaded : Version} (hFile : Shows file loaded) (hOther : Shows other loaded)
    (hStands : ¬e.Admits loaded) : e.load file path = e.load other path := by
  obtain ⟨rest, hOpen⟩ := shows_iff.mp hFile
  obtain ⟨behind, hOpenOther⟩ := shows_iff.mp hOther
  cases hJudge : e.judge loaded path with
  | mk consultations verdict =>
      cases verdict with
      | goOn => exact absurd ((e.judge_goOn_iff loaded path).mp (by rw [hJudge])) hStands
      | stop reason => rw [load_of_stop hOpen hJudge, load_of_stop hOpenOther hJudge]
      | incompatible =>
          rw [load_of_incompatible hOpen hJudge, load_of_incompatible hOpenOther hJudge]

theorem load_outcome_of_admits {e : Engine δ} {file : Bytes} {path : Option String}
    {loaded : Version} {rest : ByteSource} (hOpen : openSave file = .ok (loaded, rest))
    (hAdmits : e.Admits loaded) :
    (e.load file path).outcome = (e.rebuildGame loaded rest).map .loaded := by
  have hGoOn := (e.judge_goOn_iff loaded path).mpr hAdmits
  rw [load_of_goOn hOpen (Prod.ext rfl hGoOn)]

/-- Every load follows the policy. -/
theorem followsPolicy_load (e : Engine δ) (file : Bytes) (path : Option String) :
    e.FollowsPolicy file path (e.load file path) where
  consults c := by
    constructor
    · intro hLog
      cases hOpen : openSave file with
      | error fault => simp [load, hOpen] at hLog
      | ok found =>
          obtain ⟨loaded, rest⟩ := found
          rw [load_consultations hOpen] at hLog
          exact ⟨loaded, shows_iff.mpr ⟨rest, hOpen⟩,
            ((e.ruling_judge loaded path).consults_iff c).mp hLog⟩
    · rintro ⟨loaded, hShows, hConsults⟩
      obtain ⟨rest, hOpen⟩ := shows_iff.mp hShows
      rw [load_consultations hOpen]
      exact ((e.ruling_judge loaded path).consults_iff c).mpr hConsults
  at_most_one := by
    cases hOpen : openSave file with
    | error fault => simp [load, hOpen]
    | ok found =>
        obtain ⟨loaded, rest⟩ := found
        rw [load_consultations hOpen]
        exact (e.ruling_judge loaded path).length_le
  unreadable hNone := by
    cases hOpen : openSave file with
    | error fault => exact ⟨fault, load_of_openSave_error hOpen⟩
    | ok found => exact absurd ⟨found.1, shows_iff.mpr ⟨found.2, hOpen⟩⟩ hNone
  rejected loaded hShows hOther hUnattended := by
    obtain ⟨rest, hOpen⟩ := shows_iff.mp hShows
    rw [load_of_stop hOpen (Ruling.reject hOther hUnattended).judge_eq]
  handed_over loaded place hShows hOther hAttended hPath := by
    obtain ⟨rest, hOpen⟩ := shows_iff.mp hShows
    subst hPath
    cases hAnswer : e.advisors.legacyRuntime loaded place with
    | launched => rw [load_of_stop hOpen (Ruling.launch hOther hAttended hAnswer).judge_eq]
    | unresolvable =>
        rw [load_of_incompatible hOpen (Ruling.unresolvable hOther hAttended hAnswer).judge_eq]
  without_path loaded hShows hOther hAttended hPath := by
    obtain ⟨rest, hOpen⟩ := shows_iff.mp hShows
    subst hPath
    rw [load_of_incompatible hOpen (Ruling.pathless hOther hAttended).judge_eq]
  declined loaded hShows hSame hAttended hNewer hAnswer := by
    obtain ⟨rest, hOpen⟩ := shows_iff.mp hShows
    rw [load_of_stop hOpen (Ruling.decline hSame hAttended hNewer hAnswer).judge_eq]
  goes_on loaded hShows hAdmits := by
    obtain ⟨rest, hOpen⟩ := shows_iff.mp hShows
    have hAlone : e.leftAlone.Admits loaded := ⟨hAdmits.sameEngine, .inl rfl⟩
    rw [load_outcome_of_admits hOpen hAdmits, load_outcome_of_admits hOpen hAlone]
    rfl

/-- If another engine made a save, or the player declines to open the save of a newer build, a load
sees nothing of the save but the version: files that show the same version load with the same
result, whatever follows it. And in every load exactly those are consulted whom the policy wants
consulted, each of them once. -/
theorem load_sees_version_only (e : Engine δ) (path : Option String) :
    (∀ file other loaded, Shows file loaded → Shows other loaded →
      (¬loaded.SameEngine e.version ∨ e.settings.unattended = false ∧
        e.version.build < loaded.build ∧ e.advisors.upgradePrompt loaded e.version = .cancel) →
      e.load file path = e.load other path) ∧
    ∀ file, e.FollowsPolicy file path (e.load file path) :=
  ⟨fun _ _ _ hFile hOther hStands =>
    load_eq_of_not_admits hFile hOther (not_admits_iff.mpr hStands),
    fun file => e.followsPolicy_load file path⟩

/-- A file with nothing but a version of another engine, and one with an undecodable byte behind it.
Both are handed to that engine. -/
theorem load_sees_version_only_handover :
    let e : Engine BuiltinDelegate :=
      { Engine.standard id .standard with advisors := ⟨fun _ _ => .launched, fun _ _ => .cancel⟩ }
    let loaded : Version := ⟨2, 0, 0, 0⟩
    ∃ file other, Envelope.unwrap file = .ok (Container.magic ++ loaded.encode) ∧
      Envelope.unwrap other = .ok (Container.magic ++ loaded.encode ++ [0xFF]) ∧
      e.load file (some "old.sav") = e.load other (some "old.sav") ∧
      (e.load other (some "old.sav")).consultations = [.askedForLegacyRuntime loaded "old.sav"] ∧
      (e.load other (some "old.sav")).outcome = .ok (.notLoaded .handedToLegacyRuntime) := by
  intro e loaded
  obtain ⟨file, hFile⟩ :
      ∃ file, Envelope.wrap (Container.magic ++ loaded.encode) false = .ok file := ⟨_, rfl⟩
  obtain ⟨other, hOther⟩ :
      ∃ file, Envelope.wrap (Container.magic ++ loaded.encode ++ [0xFF]) false = .ok file :=
    ⟨_, rfl⟩
  have hUnwrap := Envelope.unwrap_wrap hFile
  have hUnwrapOther := Envelope.unwrap_wrap hOther
  have hShows : Shows file loaded := ⟨[], by rw [hUnwrap, List.append_nil]⟩
  have hShowsOther : Shows other loaded := ⟨[0xFF], hUnwrapOther⟩
  have hDifferent : ¬loaded.SameEngine e.version := fun h => absurd h.major (by decide)
  obtain ⟨hSame, hPolicy⟩ := e.load_sees_version_only (some "old.sav")
  refine ⟨file, other, hUnwrap, hUnwrapOther, hSame file other loaded hShows hShowsOther
    (.inl hDifferent), ?_, ?_⟩
  · exact ((hPolicy other).consults _).mpr ⟨loaded, hShowsOther, .legacyRuntime hDifferent rfl⟩
  · exact (hPolicy other).handed_over loaded "old.sav" hShowsOther hDifferent rfl rfl

end GameSave.Engine
