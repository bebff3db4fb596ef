import GameSave.Proofs.Container.Canonical

/-! Containers from any source. However a source cuts its bytes into bursts, every
stage makes the same of them and takes no more than its own section. A source that
fails can stop a stage, and that is all it can do. -/

namespace GameSave

open ByteSource ContainerReader

namespace ByteSource

/-! ### Steps on two sources of the same bytes -/

/-- The second source has the bytes of the first and never fails. Their bursts are unrelated. -/
structure Mirrors (s t : ByteSource) : Prop where
  failure_eq : t.failure = none
  pending_eq : t.pending = s.pending

/-- What a step makes of a source, beside what it makes of the same bytes where nothing fails: the
same value, with the same bytes left over, or the same fault. If the source may fail, there may
be another fault. -/
inductive Delivery {α ε : Type} (failure : Option SourceFailure) :
    Except ε (α × ByteSource) → Except ε (α × ByteSource) → Prop where
  | value {x : α} {s t : ByteSource} (hFailure : s.failure = failure) (hMirrors : Mirrors s t) :
      Delivery failure (.ok (x, s)) (.ok (x, t))
  | fault (e : ε) : Delivery failure (.error e) (.error e)
  | failed (e : ε) (whole : Except ε (α × ByteSource)) (hFails : failure ≠ none) :
      Delivery failure (.error e) whole

/-- A step does not see how its source delivers the bytes. -/
def IsSteady {α ε : Type} (step : ByteSource → Except ε (α × ByteSource)) : Prop :=
  ∀ s t, Mirrors s t → Delivery s.failure (step s) (step t)

/-- Sources of the same bytes are so still when the same number is taken from each. -/
theorem Mirrors.advance {s t : ByteSource} (h : Mirrors s t) (n : Nat) :
    (t.advance n).1 = (s.advance n).1 ∧ Mirrors (s.advance n).2 (t.advance n).2 := by
  refine ⟨?_, h.failure_eq, ?_⟩
  · rw [advance_fst, advance_fst, h.pending_eq]
  · rw [advance_pending, advance_pending, h.pending_eq]

theorem delivery_advance {s t : ByteSource} {ε : Type} (h : Mirrors s t) (n : Nat) :
    Delivery (ε := ε) s.failure (.ok (s.advance n)) (.ok (t.advance n)) := by
  obtain ⟨hFront, hRest⟩ := h.advance n
  have hWhole : t.advance n = ((s.advance n).1, (t.advance n).2) := Prod.ext hFront rfl
  rw [hWhole]
  exact .value rfl hRest

/-- A read that stops at the end of the bytes is steady. -/
theorem isSteady_readUpTo (n : Nat) : IsSteady fun s => s.readUpTo n := by
  intro s t hMirrors
  dsimp only
  rw [readUpTo_eq_advance hMirrors.failure_eq]
  rcases s.readUpTo_cases n with ⟨hFails, fault, hRead⟩ | hRead
  · rw [hRead]
    exact .failed fault _ hFails
  · rw [hRead]
    exact delivery_advance hMirrors n

/-- A read that needs so many bytes is steady: if they are not there, both sources have ended. -/
theorem isSteady_readExactly (n : Nat) : IsSteady fun s => s.readExactly n := by
  intro s t hMirrors
  have hRead : Delivery s.failure (s.readUpTo n) (t.readUpTo n) :=
    isSteady_readUpTo n s t hMirrors
  simp only [readExactly]
  generalize s.readUpTo n = found at hRead
  generalize t.readUpTo n = whole at hRead
  cases hRead with
  | value hFailure hRest =>
      dsimp only
      split
      · exact .value hFailure hRest
      · exact .fault _
  | fault e => exact .fault e
  | failed e whole hFails => exact .failed e _ hFails

/-- A read for one byte has only one burst to deliver. -/
theorem isSteady_read_one : IsSteady fun s => s.read 1 := by
  intro s t hMirrors
  obtain ⟨m, hPosM, hLeM, hWhole⟩ := read_eq_advance hMirrors.failure_eq Nat.one_pos
  obtain rfl : m = 1 := by omega
  dsimp only
  rw [hWhole]
  rcases s.read_cases Nat.one_pos with ⟨hFails, fault, hRead⟩ | ⟨n, hPos, hLe, hRead⟩
  · rw [hRead]
    exact .failed fault _ hFails
  · obtain rfl : n = 1 := by omega
    rw [hRead]
    exact delivery_advance hMirrors 1

end ByteSource

namespace Field

/-- A field is the same from every delivery. -/
theorem isSteady_read : IsSteady read := by
  intro s t hMirrors
  have hLength : Delivery s.failure (s.readExactly 4) (t.readExactly 4) :=
    isSteady_readExactly 4 s t hMirrors
  simp only [read]
  generalize s.readExactly 4 = found at hLength
  generalize t.readExactly 4 = whole at hLength
  cases hLength with
  | fault e => exact .fault _
  | failed e whole hFails => exact .failed _ _ hFails
  | @value digits u v hFailure hRest =>
      dsimp only
      split
      · exact .fault _
      · have hBytes : Delivery u.failure (u.readUpTo (LittleEndian.toNat digits))
            (v.readUpTo (LittleEndian.toNat digits)) :=
          isSteady_readUpTo _ u v hRest
        rw [hFailure] at hBytes
        generalize u.readUpTo (LittleEndian.toNat digits) = found at hBytes
        generalize v.readUpTo (LittleEndian.toNat digits) = whole at hBytes
        cases hBytes with
        | fault e => exact .fault _
        | failed e whole hFails => exact .failed _ _ hFails
        | value hFailure hRest =>
            dsimp only
            split
            · exact .value hFailure hRest
            · exact .fault _

theorem isSteady_readText : IsSteady readText := by
  intro s t hMirrors
  have hBytes := isSteady_read s t hMirrors
  simp only [readText]
  generalize read s = found at hBytes
  generalize read t = whole at hBytes
  cases hBytes with
  | fault e => exact .fault _
  | failed e whole hFails => exact .failed _ _ hFails
  | value hFailure hRest =>
      dsimp only
      split
      · exact .fault _
      · exact .value hFailure hRest

end Field

namespace ContainerReader

variable {α β ε : Type}

/-! ### Stages -/

theorem isSteady_pure (x : α) : IsSteady (pure x : ContainerReader α) :=
  fun _ _ hMirrors => .value rfl hMirrors

theorem isSteady_throw (fault : ContainerFault) : IsSteady (throw fault : ContainerReader α) :=
  fun _ _ _ => .fault fault

/-- Steady steps in a row are steady: the second starts where both sources have the same left. -/
theorem isSteady_bind {r : ContainerReader α} {f : α → ContainerReader β} (hFirst : IsSteady r)
    (hSecond : ∀ x, IsSteady (f x)) : IsSteady (r >>= f) := by
  intro s t hMirrors
  have hFound := hFirst s t hMirrors
  show Delivery s.failure (Except.bind (r s) fun found => f found.1 found.2)
    (Except.bind (r t) fun found => f found.1 found.2)
  generalize r s = found at hFound
  generalize r t = whole at hFound
  cases hFound with
  | value hFailure hRest => exact hFailure ▸ hSecond _ _ _ hRest
  | fault e => exact .fault e
  | failed e whole hFails => exact .failed e _ hFails

theorem isSteady_map {r : ContainerReader α} (f : α → β) (h : IsSteady r) : IsSteady (f <$> r) := by
  rw [map_eq_pure_bind]
  exact isSteady_bind h fun x => isSteady_pure (f x)

/-- How a fault is described does not touch what is read. -/
theorem isSteady_lift {describe : ε → ContainerFault}
    {step : ByteSource → Except ε (α × ByteSource)} (h : IsSteady step) :
    IsSteady (lift describe step) := by
  intro s t hMirrors
  have hStep := h s t hMirrors
  simp only [lift]
  generalize step s = found at hStep
  generalize step t = whole at hStep
  cases hStep with
  | value hFailure hRest => exact .value hFailure hRest
  | fault e => exact .fault _
  | failed e whole hFails => exact .failed _ _ hFails

theorem isSteady_readComponent : IsSteady readComponent :=
  isSteady_map _ (isSteady_lift (isSteady_readExactly 4))

theorem isSteady_readComponents : IsSteady readComponents :=
  isSteady_bind isSteady_readComponent fun _ => isSteady_bind isSteady_readComponent fun _ =>
    isSteady_bind isSteady_readComponent fun _ => isSteady_bind isSteady_readComponent fun _ =>
      isSteady_pure _

theorem isSteady_readVersion : IsSteady readVersion := by
  refine isSteady_bind (isSteady_lift (isSteady_readExactly _)) fun found => ?_
  dsimp only
  split
  · exact isSteady_bind (isSteady_throw _) fun _ => isSteady_readComponents
  · exact isSteady_readComponents

theorem isSteady_readSnapshot : IsSteady readSnapshot := isSteady_lift Field.isSteady_read

theorem isSteady_readMarker : IsSteady readMarker := by
  refine isSteady_bind (isSteady_lift (isSteady_readExactly _)) fun found => ?_
  dsimp only
  split
  · exact isSteady_pure _
  · exact isSteady_throw _

theorem isSteady_readState (delegate : String) : IsSteady (readState delegate) := by
  refine isSteady_bind isSteady_readMarker fun marker => ?_
  split
  · exact isSteady_bind (isSteady_lift Field.isSteady_read) fun _ =>
      isSteady_bind isSteady_readMarker fun _ => isSteady_pure _
  · exact isSteady_pure _

theorem isSteady_readEntry : IsSteady readEntry :=
  isSteady_bind (isSteady_lift Field.isSteady_readText) fun _ =>
    isSteady_bind (isSteady_lift Field.isSteady_readText) fun _ =>
      isSteady_bind (isSteady_lift Field.isSteady_readText) fun _ =>
        isSteady_bind (isSteady_readState _) fun _ => isSteady_pure _

/-- The loop over the entries is steady, however often it goes around. -/
theorem isSteady_readEntries (fuel : Nat) (done : List DelegateEntry) (marker : Marker) :
    IsSteady (readEntries fuel done marker) := by
  induction fuel generalizing done marker with
  | zero =>
      cases marker with
      | delegateListEnd => exact isSteady_pure _
      | delegateData => exact isSteady_throw _
      | delegateStart => exact isSteady_throw _
  | succ fuel ih =>
      cases marker with
      | delegateListEnd => exact isSteady_pure _
      | delegateData => exact isSteady_throw _
      | delegateStart =>
          rw [readEntries_start]
          refine isSteady_bind isSteady_readEntry fun found => ?_
          split
          · exact isSteady_throw _
          · exact ih _ _

/-- The list of delegates is the same from every delivery. -/
theorem isSteady_readDelegates : IsSteady readDelegates := by
  intro s t hMirrors
  rw [readDelegates_apply, readDelegates_apply, hMirrors.pending_eq]
  exact isSteady_bind isSteady_readMarker (isSteady_readEntries _ _) s t hMirrors

/-- The check for trailing bytes is steady. -/
theorem isSteady_finish : IsSteady finish := by
  refine isSteady_bind (isSteady_lift isSteady_read_one) fun found => ?_
  split
  · exact isSteady_throw _
  · exact isSteady_pure _

/-- At the end of a container no byte is taken. -/
theorem takes_finish {s t : ByteSource} (hFailure : s.failure = none) (h : finish s = .ok ((), t)) :
    Takes s t [] := by
  obtain ⟨found, u, hFound, h⟩ := bind_eq_ok h
  obtain ⟨n, -, -, hRead⟩ := read_eq_advance hFailure Nat.one_pos
  have hTakes := takes_advance hFailure n
  rw [Except.ok.inj (hRead.symm.trans (lift_eq_ok hFound))] at hTakes
  dsimp only at h hTakes
  split at h
  · cases h
  · next hNothing =>
    cases h
    rwa [Decidable.not_not.mp hNothing] at hTakes

/-! ### All stages -/

/-- What a stage returns. -/
inductive StageValue where
  | version (version : Version)
  | snapshot (bytes : Bytes)
  | delegates (entries : List DelegateEntry)
  | finished
deriving DecidableEq, Repr

/-- The section of a container that a stage returns the content of. -/
def StageValue.encode : StageValue → Except OversizedField Bytes
  | .version v => .ok (Container.magic ++ v.encode)
  | .snapshot bytes => Field.encode bytes
  | .delegates entries => do
    let encoded ← entries.mapM DelegateEntry.encode
    return encoded.flatten ++ [Marker.delegateListEnd.toByte]
  | .finished => .ok []

def stages : List (ContainerReader StageValue) :=
  [.version <$> readVersion, .snapshot <$> readSnapshot, .delegates <$> readDelegates,
    (fun _ => .finished) <$> finish]

/-- What some stages return one after the other, up to the first that finds a fault, each with what
it leaves of the source. -/
def readStages : List (ContainerReader α) → ByteSource →
    List (Except ContainerFault (α × ByteSource))
  | [], _ => []
  | stage :: later, s =>
    match stage s with
    | .error fault => [.error fault]
    | .ok (x, t) => .ok (x, t) :: readStages later t

/-- The answers of stages, without what they leave. -/
def values (answers : List (Except ContainerFault (α × ByteSource))) :
    List (Except ContainerFault α) :=
  answers.map (Except.map Prod.fst)

/-- All stages are steady. -/
theorem isSteady_of_mem_stages : ∀ stage ∈ stages, IsSteady stage := by
  simp only [stages, List.forall_mem_cons, List.not_mem_nil, false_imp_iff, implies_true, and_true]
  exact ⟨isSteady_map _ isSteady_readVersion, isSteady_map _ isSteady_readSnapshot,
    isSteady_map _ isSteady_readDelegates, isSteady_map _ isSteady_finish⟩

/-- Stages that do not see how a source delivers the bytes return the same for all sources, but for
a fault at last if the source may fail. -/
theorem values_readStages {stages : List (ContainerReader α)}
    (hSteady : ∀ stage ∈ stages, IsSteady stage) {s t : ByteSource} (hMirrors : Mirrors s t) :
    values (readStages stages s) = values (readStages stages t) ∨
      s.failure ≠ none ∧ ∃ n fault, n < (values (readStages stages t)).length ∧
        values (readStages stages s) = (values (readStages stages t)).take n ++ [.error fault] := by
  induction stages generalizing s t with
  | nil => exact .inl rfl
  | cons stage later ih =>
      have hFirst := hSteady stage List.mem_cons_self s t hMirrors
      simp only [readStages]
      generalize stage s = found at hFirst
      generalize stage t = whole at hFirst
      cases hFirst with
      | fault e => exact .inl rfl
      | failed e whole hFails =>
          refine .inr ⟨hFails, 0, e, ?_, rfl⟩
          cases whole <;> simp [values]
      | value hFailure hRest =>
          rcases ih (fun stage hMem => hSteady stage (List.mem_cons_of_mem _ hMem)) hRest with
            hSame | ⟨hFails, n, fault, hLength, hCut⟩
          · exact .inl (congrArg (List.cons _) hSame)
          · exact .inr ⟨hFailure ▸ hFails, n + 1, fault, Nat.succ_lt_succ hLength,
              congrArg (List.cons _) hCut⟩

/-! ### What stages take -/

/-- If nothing fails, a stage that returns a value has taken the section of this value. -/
def IsExact (stage : ContainerReader StageValue) : Prop :=
  ∀ s t value, s.failure = none → stage s = .ok (value, t) →
    ∃ bytes, value.encode = .ok bytes ∧ Takes s t bytes

/-- A stage is exact if it takes just the bytes in which its value would be written. -/
theorem isExact_map {r : ContainerReader α} {f : α → StageValue}
    (h : ∀ s t x, s.failure = none → r s = .ok (x, t) →
      ∃ bytes, (f x).encode = .ok bytes ∧ Takes s t bytes) : IsExact (f <$> r) := by
  intro s t value hFailure hStage
  rw [map_eq_pure_bind] at hStage
  obtain ⟨x, t, hValue, hPure⟩ := bind_eq_ok hStage
  cases hPure
  exact h s t x hFailure hValue

/-- All stages are exact. -/
theorem isExact_of_mem_stages : ∀ stage ∈ stages, IsExact stage := by
  simp only [stages, List.forall_mem_cons, List.not_mem_nil, false_imp_iff, implies_true, and_true]
  refine ⟨isExact_map ?_, isExact_map ?_, isExact_map ?_, isExact_map ?_⟩
  · intro s t v hFailure hVersion
    exact ⟨_, rfl, takes_readVersion hFailure hVersion⟩
  · intro s t bytes hFailure hSnapshot
    exact Field.takes_read hFailure (lift_eq_ok hSnapshot)
  · intro s t entries hFailure hEntries
    obtain ⟨encoded, hEncoded, hTakes, -⟩ := takes_readDelegates hFailure hEntries
    refine ⟨_, ?_, hTakes⟩
    rw [StageValue.encode, hEncoded]
    rfl
  · intro s t _ hFailure hFinish
    exact ⟨[], rfl, takes_finish hFailure hFinish⟩

/-- Each value has its section taken off the source, one behind the other, and no stage comes after
a fault. -/
def Accounted : ByteSource → List (Except ContainerFault (StageValue × ByteSource)) → Prop
  | _, [] => True
  | _, .error _ :: later => later = []
  | s, .ok (value, t) :: later =>
    (∃ bytes, value.encode = .ok bytes ∧ s.pending = bytes ++ t.pending) ∧ Accounted t later

/-- What a stage takes of a source that may fail it also takes of one that does not. -/
theorem accounted_readStages {stages : List (ContainerReader StageValue)}
    (hSteady : ∀ stage ∈ stages, IsSteady stage) (hExact : ∀ stage ∈ stages, IsExact stage)
    (s : ByteSource) : Accounted s (readStages stages s) := by
  induction stages generalizing s with
  | nil => trivial
  | cons stage later ih =>
      have hMirrors : Mirrors s (.ofBytes s.pending) := ⟨rfl, rfl⟩
      have hStage := hSteady stage List.mem_cons_self s _ hMirrors
      have hTaken := hExact stage List.mem_cons_self (.ofBytes s.pending)
      simp only [readStages]
      generalize stage s = found at hStage
      generalize stage (.ofBytes s.pending) = whole at hStage hTaken
      cases hStage with
      | fault e => exact rfl
      | failed e whole hFails => exact rfl
      | @value x t u hFailure hRest =>
          obtain ⟨bytes, hBytes, hTakes⟩ := hTaken u x rfl rfl
          refine ⟨⟨bytes, hBytes, ?_⟩, ?_⟩
          · rw [← hRest.pending_eq]
            exact hTakes.pending_eq
          · exact ih (fun stage hMem => hSteady stage (List.mem_cons_of_mem _ hMem))
              (fun stage hMem => hExact stage (List.mem_cons_of_mem _ hMem)) t

/-- What a caller is told who asks for one stage after the other, up to the first that fails. -/
def answers (s : ByteSource) : List (Except SaveFault StageValue) :=
  (values (readStages stages s)).map (Except.mapError SaveFault.ofContainer)

/-- The bursts of a source never show. All that a failing source can do is to end the stages with
damage. Each value has taken its own section and nothing more. A caller stops at the first stage
that fails: where a source stands after a fault is not known, so the stages behind a failed one are
not asked for here. -/
theorem answers_of_any_source (bytes : Bytes) (burst : Nat → Nat) (failure : Option SourceFailure) :
    answers ⟨bytes, 0, burst, none⟩ = answers (.ofBytes bytes) ∧
      (answers ⟨bytes, 0, burst, failure⟩ = answers (.ofBytes bytes) ∨
        ∃ n damage, n < (answers (.ofBytes bytes)).length ∧
          answers ⟨bytes, 0, burst, failure⟩ =
            (answers (.ofBytes bytes)).take n ++ [.error (.corruptContainer damage)]) ∧
      Accounted ⟨bytes, 0, burst, failure⟩ (readStages stages ⟨bytes, 0, burst, failure⟩) := by
  have hSource : ∀ failure, Mirrors ⟨bytes, 0, burst, failure⟩ (.ofBytes bytes) :=
    fun _ => ⟨rfl, rfl⟩
  refine ⟨?_, ?_, accounted_readStages isSteady_of_mem_stages isExact_of_mem_stages _⟩
  · rcases values_readStages isSteady_of_mem_stages (hSource none) with hSame | ⟨hFails, -⟩
    · exact congrArg (List.map (Except.mapError SaveFault.ofContainer)) hSame
    · exact absurd rfl hFails
  · rcases values_readStages isSteady_of_mem_stages (hSource failure) with
      hSame | ⟨-, n, fault, hLength, hCut⟩
    · exact .inl (congrArg (List.map (Except.mapError SaveFault.ofContainer)) hSame)
    · refine .inr ⟨n, .container fault, ?_, ?_⟩
      · rw [answers, List.length_map]
        exact hLength
      · rw [answers, hCut, List.map_append, List.map_take]
        rfl

end ContainerReader

end GameSave
