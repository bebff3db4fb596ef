import GameSave.Proofs.Delegate.Catalog
import Mathlib.Data.List.Forall2
import Mathlib.Data.List.Nodup

/-! Delegates of a whole save, put together one by one. Which entries give delegates
is a matter of each entry by itself, apart from names that come twice. If some entry
gives none, the first one decides what the error is. -/

namespace GameSave

/-! ### Lists of the same length -/

section

variable {α β γ : Type} {R : α → β → Prop} {xs : List α} {ys : List β}

/-- Members can be found side by side if each can be found by itself. -/
theorem exists_forall₂_iff : (∃ ys, List.Forall₂ R xs ys) ↔ ∀ x ∈ xs, ∃ y, R x y := by
  induction xs with
  | nil => exact iff_of_true ⟨[], .nil⟩ fun x h => nomatch h
  | cons x xs ih =>
      rw [List.forall_mem_cons, ← ih]
      constructor
      · rintro ⟨_, _ | ⟨hFirst, hRest⟩⟩
        exact ⟨⟨_, hFirst⟩, _, hRest⟩
      · rintro ⟨⟨y, hFirst⟩, ys, hRest⟩
        exact ⟨y :: ys, .cons hFirst hRest⟩

theorem map_eq_map_of_forall₂ {f : α → γ} {g : β → γ}
    (h : List.Forall₂ (fun x y => g y = f x) xs ys) : ys.map g = xs.map f := by
  induction h with
  | nil => rfl
  | cons hFirst _ ih => rw [List.map_cons, List.map_cons, hFirst, ih]

end

namespace DelegateCatalog

variable {δ ε : Type} {r : DelegateCatalog δ}

/-! ### One entry -/

/-- A type is found under its key and under no other, since keys are different. -/
theorem resolve_eq_ok_iff {key : String} {blank : δ} :
    r.resolve key = .ok blank ↔ ∃ type ∈ r.types, type.key = key ∧ type.blank = blank := by
  unfold resolve
  constructor
  · intro h
    split at h
    · next type hFound =>
      exact ⟨type, List.mem_of_find?_eq_some hFound, by simpa using List.find?_some hFound,
        Except.ok.inj h⟩
    · cases h
  · rintro ⟨type, hMem, rfl, rfl⟩
    cases hFound : r.types.find? fun other => other.key == type.key with
    | none =>
        have hOther := List.find?_eq_none.mp hFound type hMem
        simp at hOther
    | some other =>
        have hKey : other.key = type.key := by simpa using List.find?_some hFound
        rw [List.inj_on_of_nodup_map r.nodup (List.mem_of_find?_eq_some hFound) hMem hKey]

/-- Only a key that is not in the catalog is unknown. -/
theorem resolve_eq_error_iff {key : String} {fault : SaveFault} :
    r.resolve key = .error fault ↔ key ∉ r.keys ∧ fault = .unknownDelegateType key := by
  have hNone : (r.types.find? fun type => type.key == key) = none ↔ key ∉ r.keys := by
    simp [keys]
  unfold resolve
  split
  · next type hFound =>
    rw [hFound] at hNone
    exact iff_of_false (nomatch ·) fun h => nomatch hNone.mpr h.1
  · next hFound =>
    rw [Except.error.injEq, eq_comm]
    exact (and_iff_right (hNone.mp hFound)).symm

variable [Delegate δ] [Delegate ε]

/-- The name in a refusal is the one that the new delegate reports at that time. -/
theorem rebuild_eq (r : DelegateCatalog δ) (entry : DelegateEntry) :
    r.rebuild entry = (do
      let blank ← r.resolve entry.typeKey
      (settle blank entry.identity entry.state).mapError
        (.delegateStateCorrupt (Delegate.name (Delegate.withIdentity blank entry.identity)))) := by
  unfold rebuild construct settle
  cases r.resolve entry.typeKey with
  | error fault => rfl
  | ok blank => cases entry.state <;> rfl

/-- The delegate is a new one of the type of the entry, with the identity of the entry and then with
its state if there is one. -/
def Builds (r : DelegateCatalog δ) (entry : DelegateEntry) (d : δ) : Prop :=
  ∃ type ∈ r.types, type.key = entry.typeKey ∧
    settle type.blank entry.identity entry.state = .ok d

/-- A new delegate of the type of the entry, with the identity of the entry, refuses its state. -/
def Rejects (r : DelegateCatalog δ) (entry : DelegateEntry) (d : δ) (reason : StateRejection) :
    Prop :=
  ∃ type ∈ r.types, type.key = entry.typeKey ∧ Delegate.withIdentity type.blank entry.identity = d ∧
    ∃ state, entry.state = some state ∧ Delegate.loadState d state = .error reason

/-- One entry gives just the delegate that it builds. -/
theorem rebuild_eq_ok_iff {entry : DelegateEntry} {d : δ} :
    r.rebuild entry = .ok d ↔ r.Builds entry d := by
  simp only [rebuild_eq, Except.bind_eq_ok, Except.mapError_eq_ok, resolve_eq_ok_iff, Builds]
  constructor
  · rintro ⟨_, ⟨type, hMem, hKey, rfl⟩, hSettle⟩
    exact ⟨type, hMem, hKey, hSettle⟩
  · rintro ⟨type, hMem, hKey, hSettle⟩
    exact ⟨_, ⟨type, hMem, hKey, rfl⟩, hSettle⟩

theorem settle_eq_error_iff {blank : δ} {identity : Identity} {state : Option Bytes}
    {reason : StateRejection} : settle blank identity state = .error reason ↔
      ∃ bytes, state = some bytes ∧
        Delegate.loadState (Delegate.withIdentity blank identity) bytes = .error reason := by
  cases state <;> simp [settle]

/-- One entry by itself fails in two ways: its type is unknown, or its state is refused. -/
theorem rebuild_eq_error_iff {entry : DelegateEntry} {fault : SaveFault} :
    r.rebuild entry = .error fault ↔
      (entry.typeKey ∉ r.keys ∧ fault = .unknownDelegateType entry.typeKey) ∨
        ∃ d reason, r.Rejects entry d reason ∧
          fault = .delegateStateCorrupt (Delegate.name d) reason := by
  simp only [rebuild_eq, Except.bind_eq_error, Except.mapError_eq_error, resolve_eq_error_iff,
    resolve_eq_ok_iff, settle_eq_error_iff]
  refine or_congr_right ⟨?_, ?_⟩
  · rintro ⟨_, ⟨type, hMem, hKey, rfl⟩, reason, hRefused, rfl⟩
    exact ⟨_, reason, ⟨type, hMem, hKey, rfl, hRefused⟩, rfl⟩
  · rintro ⟨_, reason, ⟨type, hMem, hKey, rfl, hRefused⟩, rfl⟩
    exact ⟨_, ⟨type, hMem, hKey, rfl⟩, reason, hRefused, rfl⟩

/-- The next delegate comes in at the end, under a name that is free. -/
theorem rebuildNext_eq_ok_iff {l l' : DelegateRoster δ} {entry : DelegateEntry} :
    r.rebuildNext l entry = .ok l' ↔
      ∃ d, r.Builds entry d ∧ Delegate.name d ∉ l.names ∧ l' = ⟨l.toList ++ [d]⟩ := by
  rw [rebuildNext, Except.bind_eq_ok]
  simp only [rebuild_eq_ok_iff, ← DelegateRoster.add?_eq_some_iff]
  refine exists_congr fun d => and_congr_right fun _ => ?_
  cases l.add? d <;> simp

/-- The next entry fails by itself, or its name is taken. -/
theorem rebuildNext_eq_error_iff {l : DelegateRoster δ} {entry : DelegateEntry}
    {fault : SaveFault} : r.rebuildNext l entry = .error fault ↔ r.rebuild entry = .error fault ∨
      ∃ d, r.Builds entry d ∧ Delegate.name d ∈ l.names ∧
        fault = .ofContainer (.repeatedName entry.name) := by
  rw [rebuildNext, Except.bind_eq_error]
  simp only [rebuild_eq_ok_iff]
  refine or_congr_right (exists_congr fun d => and_congr_right fun _ => ?_)
  by_cases hTaken : Delegate.name d ∈ l.names
  · rw [DelegateRoster.add?_of_mem hTaken]
    exact ⟨fun h => ⟨hTaken, (Except.error.inj h).symm⟩, fun h => h.2 ▸ rfl⟩
  · rw [DelegateRoster.add?_of_not_mem hTaken]
    exact iff_of_false (nomatch ·) fun h => hTaken h.1

/-! ### All entries -/

/-- Entries give delegates one by one, if their names differ from each other and from those that are
there already. -/
theorem foldlM_rebuildNext_eq_ok_iff {entries : List DelegateEntry} {l l' : DelegateRoster δ}
    (hNames : l.names.Nodup) : entries.foldlM r.rebuildNext l = .ok l' ↔
      ∃ added, List.Forall₂ r.Builds entries added ∧ l' = ⟨l.toList ++ added⟩ ∧
        l'.names.Nodup := by
  induction entries generalizing l with
  | nil =>
      simp only [List.foldlM_nil, Except.pure_eq_ok, List.forall₂_nil_left_iff]
      constructor
      · rintro rfl
        exact ⟨[], rfl, by rw [List.append_nil], hNames⟩
      · rintro ⟨_, rfl, rfl, -⟩
        rw [List.append_nil]
  | cons entry entries ih =>
      simp only [List.foldlM_cons, Except.bind_eq_ok, rebuildNext_eq_ok_iff,
        List.forall₂_cons_left_iff]
      constructor
      · rintro ⟨_, ⟨d, hBuilds, hFree, rfl⟩, hRest⟩
        have hNext := DelegateRoster.nodup_names_of_add? hNames
          (DelegateRoster.add?_of_not_mem hFree)
        obtain ⟨added, hAdded, rfl, hAll⟩ := (ih hNext).mp hRest
        exact ⟨d :: added, ⟨d, added, hBuilds, hAdded, rfl⟩, by simp, hAll⟩
      · rintro ⟨_, ⟨d, added, hBuilds, hAdded, rfl⟩, rfl, hAll⟩
        have hFree : Delegate.name d ∉ l.names := by
          rw [DelegateRoster.names, List.map_append] at hAll
          exact fun hTaken => (List.nodup_append.mp hAll).2.2 _ hTaken _ List.mem_cons_self rfl
        have hNext := DelegateRoster.nodup_names_of_add? hNames
          (DelegateRoster.add?_of_not_mem hFree)
        exact ⟨_, ⟨d, hBuilds, hFree, rfl⟩, (ih hNext).mpr ⟨added, hAdded, by simp, hAll⟩⟩

/-- A roster is reconstructed if its delegates come from the entries in order, under names that are
all different. -/
theorem reconstruct_eq_ok_iff {entries : List DelegateEntry} {l : DelegateRoster δ} :
    r.reconstruct entries = .ok l ↔ List.Forall₂ r.Builds entries l.toList ∧ l.names.Nodup := by
  have hEmpty : (DelegateRoster.empty : DelegateRoster δ).names.Nodup := List.nodup_nil
  rw [reconstruct, foldlM_rebuildNext_eq_ok_iff hEmpty]
  constructor
  · rintro ⟨added, hBuilds, rfl, hNames⟩
    exact ⟨hBuilds, hNames⟩
  · rintro ⟨hBuilds, hNames⟩
    exact ⟨l.toList, hBuilds, rfl, hNames⟩

/-- A delegate that can be restored comes back from its entry and says the same of itself. -/
theorem Restores.exists_builds {r : DelegateCatalog ε} {d : δ} (h : r.Restores d) :
    ∃ restored, r.Builds (.capture d) restored ∧
      Delegate.report restored = Delegate.report d := by
  obtain ⟨type, hMem, hKey, hGiven, restored, hSettle, hState, hType⟩ := h
  have hIdentity := hGiven _ _ _ hSettle
  refine ⟨restored, ⟨type, hMem, hKey, hSettle⟩, ?_⟩
  simp only [Delegate.report, Delegate.name, Delegate.displayName, hIdentity, hState, hType]

/-- The delegates of a roster come back in order, and each says the same of itself. -/
theorem reconstruct_map_capture {r : DelegateCatalog ε} {ds : List δ}
    (hRestores : ∀ d ∈ ds, r.Restores d) (hNames : (ds.map Delegate.name).Nodup) :
    ∃ l, r.reconstruct (ds.map DelegateEntry.capture) = .ok l ∧
      l.toList.map Delegate.report = ds.map Delegate.report := by
  obtain ⟨restored, hRestored⟩ :=
    exists_forall₂_iff.mpr fun d hMem => (hRestores d hMem).exists_builds
  have hBuilds : List.Forall₂ r.Builds (ds.map DelegateEntry.capture) restored :=
    List.forall₂_map_left_iff.mpr (hRestored.imp fun _ _ h => h.1)
  have hSame : restored.map Delegate.report = ds.map Delegate.report :=
    map_eq_map_of_forall₂ (hRestored.imp fun _ _ h => h.2)
  refine ⟨⟨restored⟩, reconstruct_eq_ok_iff.mpr ⟨hBuilds, ?_⟩, hSame⟩
  have hSameNames := congrArg (List.map Prod.fst) hSame
  rw [List.map_map, List.map_map] at hSameNames
  show (restored.map Delegate.name).Nodup
  exact hSameNames ▸ hNames

/-! ### What is accepted, and what is wrong otherwise -/

/-- Delegates of all types report the identity that they were given. -/
def ReportsGiven (r : DelegateCatalog δ) : Prop := ∀ type ∈ r.types, type.ReportsGiven

/-- Entries that a catalog can make a roster of. -/
structure Accepts (r : DelegateCatalog δ) (entries : List DelegateEntry) : Prop where
  known : ∀ entry ∈ entries, entry.typeKey ∈ r.keys
  /-- A new delegate of the type takes on the state, once it has its identity. -/
  loadable : ∀ entry ∈ entries, ∀ type ∈ r.types, type.key = entry.typeKey →
    ∀ state, entry.state = some state →
      ∃ d, Delegate.loadState (Delegate.withIdentity type.blank entry.identity) state = .ok d
  distinct : (entries.map DelegateEntry.name).Nodup

/-- What is wrong with an entry behind others that are accepted. A state counts only if the type is
known, and a name only if there is a delegate to bear it. -/
inductive FailsAfter (r : DelegateCatalog δ) (front : List DelegateEntry) (entry : DelegateEntry) :
    SaveFault → Prop where
  | unknown (hKey : entry.typeKey ∉ r.keys) :
      FailsAfter r front entry (.unknownDelegateType entry.typeKey)
  | rejected {d : δ} {reason : StateRejection} (hRejects : r.Rejects entry d reason) :
      FailsAfter r front entry (.delegateStateCorrupt entry.name reason)
  | repeated {d : δ} (hBuilds : r.Builds entry d)
      (hTaken : entry.name ∈ front.map DelegateEntry.name) :
      FailsAfter r front entry (.ofContainer (.repeatedName entry.name))

/-- An entry builds a delegate if its type is known and takes the state. -/
theorem exists_builds_iff {entry : DelegateEntry} :
    (∃ d, r.Builds entry d) ↔ entry.typeKey ∈ r.keys ∧ ∀ type ∈ r.types,
      type.key = entry.typeKey → ∀ state, entry.state = some state → ∃ d,
        Delegate.loadState (Delegate.withIdentity type.blank entry.identity) state = .ok d := by
  constructor
  · rintro ⟨d, type, hMem, hKey, hSettle⟩
    refine ⟨hKey ▸ List.mem_map_of_mem hMem, fun other hOther hOtherKey state hState => ⟨d, ?_⟩⟩
    rw [List.inj_on_of_nodup_map r.nodup hOther hMem (hOtherKey.trans hKey.symm)]
    rwa [hState] at hSettle
  · rintro ⟨hKnown, hLoadable⟩
    obtain ⟨type, hMem, hKey⟩ := List.mem_map.mp hKnown
    cases hState : entry.state with
    | none => exact ⟨_, type, hMem, hKey, by rw [hState]; rfl⟩
    | some state =>
        obtain ⟨d, hLoad⟩ := hLoadable type hMem hKey state hState
        exact ⟨d, type, hMem, hKey, by rw [hState]; exact hLoad⟩

/-- A catalog of lawful delegates keeps all identities. -/
theorem reportsGiven_of_lawful [LawfulDelegate δ] (r : DelegateCatalog δ) : r.ReportsGiven :=
  fun type _ => type.reportsGiven_of_lawful

theorem ReportsGiven.identity_of_builds (hGiven : r.ReportsGiven) {entry : DelegateEntry} {d : δ}
    (h : r.Builds entry d) : Delegate.identity d = entry.identity := by
  obtain ⟨type, hMem, -, hSettle⟩ := h
  exact hGiven type hMem _ _ _ hSettle

theorem ReportsGiven.name_of_builds (hGiven : r.ReportsGiven) {entry : DelegateEntry} {d : δ}
    (h : r.Builds entry d) : Delegate.name d = entry.name :=
  congrArg Identity.name (hGiven.identity_of_builds h)

/-- A refusal names the entry, since the delegate had its identity before its state. -/
theorem ReportsGiven.name_of_rejects (hGiven : r.ReportsGiven) {entry : DelegateEntry} {d : δ}
    {reason : StateRejection} (h : r.Rejects entry d reason) : Delegate.name d = entry.name := by
  obtain ⟨type, hMem, -, rfl, -⟩ := h
  exact congrArg Identity.name (hGiven type hMem entry.identity none _ rfl)

theorem ReportsGiven.map_identity (hGiven : r.ReportsGiven) {entries : List DelegateEntry}
    {ds : List δ} (h : List.Forall₂ r.Builds entries ds) :
    ds.map Delegate.identity = entries.map DelegateEntry.identity :=
  map_eq_map_of_forall₂ (h.imp fun _ _ hBuilds => hGiven.identity_of_builds hBuilds)

/-- The names in a roster are those of its entries. -/
theorem ReportsGiven.names_eq (hGiven : r.ReportsGiven) {entries : List DelegateEntry}
    {l : DelegateRoster δ} (h : List.Forall₂ r.Builds entries l.toList) :
    l.names = entries.map DelegateEntry.name := by
  have hNames := congrArg (List.map Identity.name) (hGiven.map_identity h)
  rwa [List.map_map, List.map_map] at hNames

/-- A roster can be reconstructed exactly from entries that are accepted. -/
theorem ReportsGiven.reconstruct_isOk_iff (hGiven : r.ReportsGiven)
    {entries : List DelegateEntry} :
    (∃ l, r.reconstruct entries = .ok l) ↔ r.Accepts entries := by
  simp only [reconstruct_eq_ok_iff]
  constructor
  · rintro ⟨l, hBuilds, hNames⟩
    have hEach := exists_forall₂_iff.mp ⟨_, hBuilds⟩
    rw [hGiven.names_eq hBuilds] at hNames
    exact ⟨fun entry hMem => (exists_builds_iff.mp (hEach entry hMem)).1,
      fun entry hMem => (exists_builds_iff.mp (hEach entry hMem)).2, hNames⟩
  · rintro ⟨hKnown, hLoadable, hDistinct⟩
    obtain ⟨ds, hBuilds⟩ := exists_forall₂_iff.mpr fun entry hMem =>
      exists_builds_iff.mpr ⟨hKnown entry hMem, hLoadable entry hMem⟩
    have hNames : (DelegateRoster.mk ds).names = entries.map DelegateEntry.name :=
      hGiven.names_eq hBuilds
    exact ⟨⟨ds⟩, hBuilds, hNames ▸ hDistinct⟩

/-- The next entry fails, in one of three ways, or it does not. -/
theorem ReportsGiven.rebuildNext_eq_error_iff (hGiven : r.ReportsGiven)
    {front : List DelegateEntry} {l : DelegateRoster δ} (hFront : r.reconstruct front = .ok l)
    {entry : DelegateEntry} {fault : SaveFault} :
    r.rebuildNext l entry = .error fault ↔ r.FailsAfter front entry fault := by
  rw [DelegateCatalog.rebuildNext_eq_error_iff, rebuild_eq_error_iff,
    hGiven.names_eq (reconstruct_eq_ok_iff.mp hFront).1]
  constructor
  · rintro ((⟨hKey, rfl⟩ | ⟨d, reason, hRejects, rfl⟩) | ⟨d, hBuilds, hTaken, rfl⟩)
    · exact .unknown hKey
    · rw [hGiven.name_of_rejects hRejects]
      exact .rejected hRejects
    · rw [hGiven.name_of_builds hBuilds] at hTaken
      exact .repeated hBuilds hTaken
  · rintro (hKey | @⟨d, reason, hRejects⟩ | @⟨d, hBuilds, hTaken⟩)
    · exact .inl (.inl ⟨hKey, rfl⟩)
    · exact .inl (.inr ⟨d, reason, hRejects, by rw [hGiven.name_of_rejects hRejects]⟩)
    · rw [← hGiven.name_of_builds hBuilds] at hTaken
      exact .inr ⟨d, hBuilds, hTaken, rfl⟩

/-- A roster is reconstructed exactly if its entries are accepted. It then has a delegate for each
entry, in order, made by the type of the entry, with the names and the state of the entry. Otherwise
the first entry that fails says what the error is. -/
theorem reconstruct_exact (hGiven : r.ReportsGiven) (entries : List DelegateEntry) :
    ((∃ l, r.reconstruct entries = .ok l) ↔ r.Accepts entries) ∧
      (∀ l, r.reconstruct entries = .ok l → List.Forall₂ r.Builds entries l.toList ∧
        l.toList.map Delegate.identity = entries.map DelegateEntry.identity) ∧
      ∀ fault, r.reconstruct entries = .error fault ↔ ∃ front entry back,
        entries = front ++ entry :: back ∧ r.Accepts front ∧ r.FailsAfter front entry fault := by
  refine ⟨hGiven.reconstruct_isOk_iff, fun l hOk => ?_, fun fault => ?_⟩
  · have hBuilds := (reconstruct_eq_ok_iff.mp hOk).1
    exact ⟨hBuilds, hGiven.map_identity hBuilds⟩
  · rw [reconstruct, Except.foldlM_eq_error_iff]
    constructor
    · rintro ⟨front, entry, back, l, hEntries, hFront, hFault⟩
      exact ⟨front, entry, back, hEntries, hGiven.reconstruct_isOk_iff.mp ⟨l, hFront⟩,
        (hGiven.rebuildNext_eq_error_iff hFront).mp hFault⟩
    · rintro ⟨front, entry, back, hEntries, hAccepts, hFails⟩
      obtain ⟨l, hFront⟩ := hGiven.reconstruct_isOk_iff.mpr hAccepts
      exact ⟨front, entry, back, l, hEntries, hFront,
        (hGiven.rebuildNext_eq_error_iff hFront).mpr hFails⟩

/-- The delegates of a turn, and entries of which the second is wrong in two ways and the third in
one. What counts is the state of the second. -/
theorem reconstruct_exact_turn :
    let r : DelegateCatalog BuiltinDelegate := .builtin id
    let moves := MovementState.blank.record ⟨"armour", 2, "Kent", "Sussex"⟩
    let buy : DelegateEntry := ⟨"buy", "Buy", "purchase", none⟩
    let move : DelegateEntry := ⟨"move", "Move", "move", some (MovementState.column.encode moves)⟩
    let turn : DelegateEntry := ⟨"end", "End", "end_turn", none⟩
    let cut : DelegateEntry := ⟨"buy", "Move", "move", some []⟩
    let lost : DelegateEntry := ⟨"fight", "Fight", "battle", none⟩
    r.ReportsGiven ∧ r.Accepts [buy, move, turn] ∧
      (∃ l, r.reconstruct [buy, move, turn] = .ok l ∧
        r.Builds move (.movement ⟨⟨"move", "Move"⟩, moves⟩) ∧
        l.toList.map Delegate.identity = [⟨"buy", "Buy"⟩, ⟨"move", "Move"⟩, ⟨"end", "End"⟩]) ∧
      r.reconstruct [buy, cut, lost] =
        .error (.delegateStateCorrupt "buy" (.undecodable "buy" 0)) := by
  intro r moves buy move turn cut lost
  have hGiven := r.reportsGiven_of_lawful
  obtain ⟨hAccepts, hDelegates, -⟩ := reconstruct_exact hGiven [buy, move, turn]
  obtain ⟨hFront, -, -⟩ := reconstruct_exact hGiven [buy]
  obtain ⟨-, -, hFault⟩ := reconstruct_exact hGiven [buy, cut, lost]
  obtain ⟨l, hOk⟩ : ∃ l, r.reconstruct [buy, move, turn] = .ok l :=
    Except.toBool_eq_true.mp (by decide +kernel)
  have hMove : (⟨"move", .movement .blank⟩ : DelegateType BuiltinDelegate) ∈ r.types :=
    .tail _ (.head _)
  have hBuilds : r.Builds move (.movement ⟨⟨"move", "Move"⟩, moves⟩) :=
    ⟨_, hMove, rfl, by decide +kernel⟩
  have hRejects : r.Rejects cut (.movement ⟨⟨"buy", "Move"⟩, .blank⟩) (.undecodable "buy" 0) :=
    ⟨_, hMove, rfl, rfl, [], rfl, by decide +kernel⟩
  exact ⟨hGiven, hAccepts.mp ⟨l, hOk⟩, ⟨l, hOk, hBuilds, (hDelegates l hOk).2⟩,
    (hFault _).mpr ⟨[buy], cut, [lost], rfl, hFront.mp ⟨_, rfl⟩, .rejected hRejects⟩⟩

end DelegateCatalog

end GameSave
