import GameSave.Engine.Load
import GameSave.Proofs.Container.RoundTrip
import GameSave.Proofs.Version.Order

/-! Loads yield a whole game or nothing. The stages of a load, with the decision
on the version between them, accept exactly the files whose container decodes in
one go, and make of them exactly what it holds. -/

namespace GameSave

namespace Engine

variable {δ : Type}

/-- Nothing stands against a save of this version: it comes from the same engine, and whoever has
to be asked about a newer build agrees. -/
structure Admits (e : Engine δ) (loaded : Version) : Prop where
  sameEngine : loaded.SameEngine e.version
  agreed : e.settings.unattended = true ∨ loaded.build ≤ e.version.build ∨
    e.advisors.upgradePrompt loaded e.version = .proceed

/-- Whom a load consults about a version, and what comes of it. -/
inductive Ruling (e : Engine δ) (loaded : Version) :
    Option String → List Consultation × Verdict → Prop where
  | reject {path : Option String} (hOther : ¬loaded.SameEngine e.version)
      (hUnattended : e.settings.unattended = true) :
      Ruling e loaded path ([.notified loaded e.version], .stop .rejectedIncompatible)
  | pathless (hOther : ¬loaded.SameEngine e.version) (hAttended : e.settings.unattended = false) :
      Ruling e loaded none ([], .incompatible)
  | launch {path : String} (hOther : ¬loaded.SameEngine e.version)
      (hAttended : e.settings.unattended = false)
      (hAnswer : e.advisors.legacyRuntime loaded path = .launched) :
      Ruling e loaded (some path)
        ([.askedForLegacyRuntime loaded path], .stop .handedToLegacyRuntime)
  | unresolvable {path : String} (hOther : ¬loaded.SameEngine e.version)
      (hAttended : e.settings.unattended = false)
      (hAnswer : e.advisors.legacyRuntime loaded path = .unresolvable) :
      Ruling e loaded (some path) ([.askedForLegacyRuntime loaded path], .incompatible)
  | decline {path : Option String} (hSame : loaded.SameEngine e.version)
      (hAttended : e.settings.unattended = false) (hNewer : e.version.build < loaded.build)
      (hAnswer : e.advisors.upgradePrompt loaded e.version = .cancel) :
      Ruling e loaded path ([.askedToUpgrade loaded e.version], .stop .upgradeDeclined)
  | proceed {path : Option String} (hSame : loaded.SameEngine e.version)
      (hAttended : e.settings.unattended = false) (hNewer : e.version.build < loaded.build)
      (hAnswer : e.advisors.upgradePrompt loaded e.version = .proceed) :
      Ruling e loaded path ([.askedToUpgrade loaded e.version], .goOn)
  | accept {path : Option String} (hSame : loaded.SameEngine e.version)
      (hSilent : e.settings.unattended = true ∨ loaded.build ≤ e.version.build) :
      Ruling e loaded path ([], .goOn)

/-- A player is asked, unless there is none or the build is not newer. -/
theorem not_asked_iff {e : Engine δ} {loaded : Version} :
    ¬(e.settings.unattended = false ∧ e.version.build < loaded.build) ↔
      e.settings.unattended = true ∨ loaded.build ≤ e.version.build := by
  rw [Decidable.not_and_iff_or_not, Bool.not_eq_false, UInt32.not_lt]

/-- What the engine decides about a version is its ruling. -/
theorem ruling_judge (e : Engine δ) (loaded : Version) (path : Option String) :
    e.Ruling loaded path (e.judge loaded path) := by
  unfold judge
  by_cases hSame : loaded.SameEngine e.version
  · rw [hSame.admission_eq]
    by_cases hAsked : e.settings.unattended = false ∧ e.version.build < loaded.build
    · rw [if_pos hAsked]
      cases hAnswer : e.advisors.upgradePrompt loaded e.version with
      | proceed => simpa only [hAnswer] using .proceed hSame hAsked.1 hAsked.2 hAnswer
      | cancel => simpa only [hAnswer] using .decline hSame hAsked.1 hAsked.2 hAnswer
    · rw [if_neg hAsked]
      exact .accept hSame (not_asked_iff.mp hAsked)
  · rw [Version.admission_of_not_sameEngine hSame]
    cases hUnattended : e.settings.unattended with
    | true => exact .reject hSame hUnattended
    | false =>
        cases path with
        | none => exact .pathless hSame hUnattended
        | some path =>
            cases hAnswer : e.advisors.legacyRuntime loaded path with
            | launched => simpa only [hAnswer] using .launch hSame hUnattended hAnswer
            | unresolvable => simpa only [hAnswer] using .unresolvable hSame hUnattended hAnswer

/-- A load goes on exactly if nothing stands against the version. -/
theorem Ruling.goOn_iff {e : Engine δ} {loaded : Version} {path : Option String}
    {ruling : List Consultation × Verdict} (h : e.Ruling loaded path ruling) :
    ruling.2 = .goOn ↔ e.Admits loaded := by
  cases h with
  | reject hOther hUnattended => exact iff_of_false (nomatch ·) fun h => hOther h.sameEngine
  | pathless hOther hAttended => exact iff_of_false (nomatch ·) fun h => hOther h.sameEngine
  | launch hOther hAttended hAnswer => exact iff_of_false (nomatch ·) fun h => hOther h.sameEngine
  | unresolvable hOther hAttended hAnswer =>
      exact iff_of_false (nomatch ·) fun h => hOther h.sameEngine
  | decline hSame hAttended hNewer hAnswer =>
      refine iff_of_false (nomatch ·) fun ⟨_, hAgreed⟩ => ?_
      rcases hAgreed with h | h | h
      · simp [hAttended] at h
      · exact UInt32.not_le.mpr hNewer h
      · simp [hAnswer] at h
  | proceed hSame hAttended hNewer hAnswer => exact iff_of_true rfl ⟨hSame, .inr (.inr hAnswer)⟩
  | accept hSame hSilent => exact iff_of_true rfl ⟨hSame, hSilent.imp_right .inl⟩

/-- A load goes on exactly with the versions that are admitted. -/
theorem judge_goOn_iff (e : Engine δ) (loaded : Version) (path : Option String) :
    (e.judge loaded path).2 = .goOn ↔ e.Admits loaded :=
  (e.ruling_judge loaded path).goOn_iff

/-! ### Stages and the whole -/

/-- A file opens if its envelope does and the container in it begins with a version. -/
theorem openSave_eq_ok_iff {file : Bytes} {loaded : Version} {rest : ByteSource} :
    openSave file = .ok (loaded, rest) ↔ ∃ container, Envelope.unwrap file = .ok container ∧
      ContainerReader.readVersion (.ofBytes container) = .ok (loaded, rest) := by
  simp [openSave, StateT.run]

/-- A container decodes in one go exactly if its stages succeed one after the other. -/
theorem decode_eq_ok_iff {container : Bytes} {c : Container} :
    Container.decode container = .ok c ↔ ∃ rest,
      ContainerReader.readVersion (.ofBytes container) = .ok (c.version, rest) ∧
        readSections.run' rest = .ok (c.snapshot, c.delegates) := by
  have hStages : ContainerReader.readContainer = ContainerReader.readVersion >>= fun version =>
      readSections >>= fun sections => pure ⟨version, sections.1, sections.2⟩ := by
    simp [ContainerReader.readContainer, readSections]
  rw [Container.decode, ContainerReader.run'_eq_ok_iff, hStages]
  constructor
  · rintro ⟨t, h⟩
    obtain ⟨version, rest, hVersion, h⟩ := ContainerReader.bind_eq_ok h
    obtain ⟨sections, u, hSections, h⟩ := ContainerReader.bind_eq_ok h
    cases h
    exact ⟨rest, hVersion, ContainerReader.run'_eq_ok_iff.mpr ⟨_, hSections⟩⟩
  · rintro ⟨rest, hVersion, h⟩
    obtain ⟨t, hSections⟩ := ContainerReader.run'_eq_ok_iff.mp h
    refine ⟨t, ?_⟩
    rw [ContainerReader.bind_of_ok hVersion, ContainerReader.bind_of_ok hSections]
    rfl

variable [Delegate δ]

/-- Behind the version, a game is rebuilt from all of its sections or not at all. -/
theorem rebuildGame_eq_ok_iff {e : Engine δ} {loaded : Version} {rest : ByteSource}
    {g : LoadedGame δ} : e.rebuildGame loaded rest = .ok g ↔ ∃ snapshot entries data l,
      readSections.run' rest = .ok (snapshot, entries) ∧ Game.decode snapshot = some data ∧
        e.catalog.reconstruct entries = .ok l ∧
        g = ⟨loaded, ⟨(e.upgrades.apply data loaded e.version).1, l⟩,
          (e.upgrades.apply data loaded e.version).2⟩ := by
  simp only [rebuildGame, Except.bind_eq_ok, Except.mapError_eq_ok]
  constructor
  · rintro ⟨⟨snapshot, entries⟩, hSections, h⟩
    cases hData : Game.decode snapshot with
    | none => simp [hData] at h
    | some data =>
        simp only [hData, Except.bind_eq_ok, Except.pure_eq_ok] at h
        obtain ⟨l, hDelegates, rfl⟩ := h
        exact ⟨snapshot, entries, data, l, hSections, hData, hDelegates, rfl⟩
  · rintro ⟨snapshot, entries, data, l, hSections, hData, hDelegates, rfl⟩
    refine ⟨(snapshot, entries), hSections, ?_⟩
    simp only [hData, hDelegates]
    rfl

/-- A load ends with a game exactly if every stage of it succeeds. -/
theorem load_outcome_eq_loaded_iff {e : Engine δ} {file : Bytes} {path : Option String}
    {g : LoadedGame δ} : (e.load file path).outcome = .ok (.loaded g) ↔ ∃ loaded rest,
      openSave file = .ok (loaded, rest) ∧ e.Admits loaded ∧ e.rebuildGame loaded rest = .ok g := by
  unfold load
  cases hOpen : openSave file with
  | error fault => simp
  | ok found =>
      obtain ⟨loaded, rest⟩ := found
      have hGoOn := e.judge_goOn_iff loaded path
      simp only [Except.ok.injEq, Prod.mk.injEq]
      generalize e.judge loaded path = judged at hGoOn
      obtain ⟨consultations, verdict⟩ := judged
      constructor
      · intro h
        cases verdict with
        | goOn =>
            simp only [Except.map_eq_ok, LoadResult.loaded.injEq] at h
            obtain ⟨_, hGame, rfl⟩ := h
            exact ⟨loaded, rest, ⟨rfl, rfl⟩, hGoOn.mp rfl, hGame⟩
        | stop reason => simp at h
        | incompatible => simp at h
      · rintro ⟨_, _, ⟨rfl, rfl⟩, hAdmits, hGame⟩
        obtain rfl : verdict = .goOn := hGoOn.mpr hAdmits
        simp only [Except.map_eq_ok, LoadResult.loaded.injEq]
        exact ⟨g, hGame, rfl⟩

/-- What a file holds if it is read in one go, for an engine that may load it. -/
structure Holds (e : Engine δ) (file : Bytes) (c : Container) (data : Game)
    (l : DelegateRoster δ) : Prop where
  container : ∃ bytes, Envelope.unwrap file = .ok bytes ∧ Container.decode bytes = .ok c
  admits : e.Admits c.version
  snapshot : Game.decode c.snapshot = some data
  delegates : e.catalog.reconstruct c.delegates = .ok l

/-- The game that an engine makes of what a file holds. -/
def gameOf (e : Engine δ) (loaded : Version) (data : Game) (l : DelegateRoster δ) : LoadedGame δ :=
  let (data, upgrades) := e.upgrades.apply data loaded e.version
  ⟨loaded, ⟨data, l⟩, upgrades⟩

/-- A load ends with a game exactly if the file holds one for the engine. -/
theorem outcome_eq_loaded_iff_holds {e : Engine δ} {file : Bytes} {path : Option String}
    {g : LoadedGame δ} : (e.load file path).outcome = .ok (.loaded g) ↔
      ∃ c data l, e.Holds file c data l ∧ g = e.gameOf c.version data l := by
  rw [load_outcome_eq_loaded_iff]
  constructor
  · rintro ⟨loaded, rest, hOpen, hAdmits, hGame⟩
    obtain ⟨bytes, hUnwrap, hVersion⟩ := openSave_eq_ok_iff.mp hOpen
    obtain ⟨snapshot, entries, data, l, hSections, hData, hDelegates, rfl⟩ :=
      rebuildGame_eq_ok_iff.mp hGame
    have hDecode : Container.decode bytes = .ok ⟨loaded, snapshot, entries⟩ :=
      decode_eq_ok_iff.mpr ⟨rest, hVersion, hSections⟩
    exact ⟨_, data, l, ⟨⟨bytes, hUnwrap, hDecode⟩, hAdmits, hData, hDelegates⟩, rfl⟩
  · rintro ⟨c, data, l, ⟨⟨bytes, hUnwrap, hDecode⟩, hAdmits, hData, hDelegates⟩, rfl⟩
    obtain ⟨rest, hVersion, hSections⟩ := decode_eq_ok_iff.mp hDecode
    exact ⟨c.version, rest, openSave_eq_ok_iff.mpr ⟨bytes, hUnwrap, hVersion⟩, hAdmits,
      rebuildGame_eq_ok_iff.mpr ⟨_, _, data, l, hSections, hData, hDelegates, rfl⟩⟩

/-- A load ends with a game exactly if the file holds one that the engine may load. Then it is the
whole of what the file holds, brought up to the build of the engine. In all other cases there is
no game at all. -/
theorem load_whole_or_nothing (e : Engine δ) (file : Bytes) (path : Option String) :
    (∀ g, (e.load file path).outcome = .ok (.loaded g) ↔
      ∃ c data l, e.Holds file c data l ∧ g.version = c.version ∧ g.game.delegates = l ∧
        (g.game.data, g.upgrades) = e.upgrades.apply data c.version e.version) ∧
    ((¬∃ c data l, e.Holds file c data l) →
      (∃ fault, (e.load file path).outcome = .error fault) ∨
        ∃ reason, (e.load file path).outcome = .ok (.notLoaded reason)) := by
  constructor
  · intro g
    rw [outcome_eq_loaded_iff_holds]
    constructor
    · rintro ⟨c, data, l, hHolds, rfl⟩
      exact ⟨c, data, l, hHolds, rfl, rfl, rfl⟩
    · rintro ⟨c, data, l, hHolds, hVersion, rfl, hApply⟩
      refine ⟨c, data, _, hHolds, ?_⟩
      obtain ⟨version, ⟨data', l⟩, upgrades⟩ := g
      subst hVersion
      simp only [gameOf, ← hApply]
  · intro hNothing
    cases hOutcome : (e.load file path).outcome with
    | error fault => exact .inl ⟨fault, rfl⟩
    | ok result =>
        cases result with
        | loaded g =>
            obtain ⟨c, data, l, hHolds, -⟩ := outcome_eq_loaded_iff_holds.mp hOutcome
            exact (hNothing ⟨c, data, l, hHolds⟩).elim
        | notLoaded reason => exact .inr ⟨reason, rfl⟩

end Engine

end GameSave
