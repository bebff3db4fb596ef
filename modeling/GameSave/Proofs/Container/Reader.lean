import GameSave.Container.Reader
import GameSave.Proofs.Container.Field
import GameSave.Proofs.Except

/-! The stages of reading a container, put together from steps. Every stage but
the last one is local: what it takes does not depend on what follows. -/

namespace GameSave.ContainerReader

open ByteSource

variable {α β ε : Type}

/-! ### Steps put together -/

/-- A step that succeeds hands on its value and what is left of the source. -/
theorem bind_of_ok {r : ContainerReader α} {f : α → ContainerReader β} {s t : ByteSource} {x : α}
    (h : r s = .ok (x, t)) : (r >>= f) s = f x t := by
  show Except.bind (r s) (fun p => f p.1 p.2) = f x t
  rw [h]
  rfl

/-- A step that fails ends the whole. -/
theorem bind_of_error {r : ContainerReader α} {f : α → ContainerReader β} {s : ByteSource}
    {fault : ContainerFault} (h : r s = .error fault) : (r >>= f) s = .error fault := by
  show Except.bind (r s) (fun p => f p.1 p.2) = .error fault
  rw [h]
  rfl

/-- A step that is followed by another succeeds only if both do. -/
theorem bind_eq_ok {r : ContainerReader α} {f : α → ContainerReader β} {s u : ByteSource} {y : β}
    (h : (r >>= f) s = .ok (y, u)) : ∃ x t, r s = .ok (x, t) ∧ f x t = .ok (y, u) := by
  cases hFirst : r s with
  | error fault =>
      rw [bind_of_error hFirst] at h
      cases h
  | ok found =>
      rw [bind_of_ok (x := found.1) (t := found.2) hFirst] at h
      exact ⟨found.1, found.2, rfl, h⟩

/-- A value alone tells nothing of where the source stands. -/
theorem run'_eq_ok_iff {r : ContainerReader α} {s : ByteSource} {x : α} :
    r.run' s = .ok x ↔ ∃ t, r s = .ok (x, t) := by
  show (r s).map Prod.fst = .ok x ↔ _
  rw [Except.map_eq_ok]
  constructor
  · rintro ⟨⟨x, t⟩, h, rfl⟩
    exact ⟨t, h⟩
  · rintro ⟨t, h⟩
    exact ⟨(x, t), h, rfl⟩

theorem run'_of_error {r : ContainerReader α} {s : ByteSource} {fault : ContainerFault}
    (h : r s = .error fault) : r.run' s = .error fault := by
  show (r s).map Prod.fst = .error fault
  rw [h]
  rfl

/-- A step that succeeds needs no description of its faults. -/
theorem lift_of_ok {describe : ε → ContainerFault}
    {step : ByteSource → Except ε (α × ByteSource)} {s t : ByteSource} {x : α}
    (h : step s = .ok (x, t)) : lift describe step s = .ok (x, t) := by
  rw [lift, h]
  rfl

/-- A success was one before its faults were described. -/
theorem lift_eq_ok {describe : ε → ContainerFault}
    {step : ByteSource → Except ε (α × ByteSource)} {s t : ByteSource} {x : α}
    (h : lift describe step s = .ok (x, t)) : step s = .ok (x, t) := by
  cases hStep : step s with
  | error fault =>
      rw [lift, hStep] at h
      cases h
  | ok found =>
      rw [lift, hStep] at h
      cases h
      rfl

theorem reads_pure (x : α) : Reads (pure x : ContainerReader α) [] x :=
  fun s _ hFailure hPending => ⟨s, rfl, hFailure, hPending⟩

/-- Steps in a row read their parts in a row. -/
theorem reads_bind {r : ContainerReader α} {f : α → ContainerReader β} {front back : Bytes} {x : α}
    {y : β} (hFront : Reads r front x) (hBack : Reads (f x) back y) :
    Reads (r >>= f) (front ++ back) y := by
  intro s rest hFailure hPending
  rw [List.append_assoc] at hPending
  obtain ⟨t, hFirst, hFailureT, hPendingT⟩ := hFront s _ hFailure hPending
  obtain ⟨u, hSecond, hRest⟩ := hBack t rest hFailureT hPendingT
  exact ⟨u, (bind_of_ok hFirst).trans hSecond, hRest⟩

/-- Whoever describes the faults, the same is read. -/
theorem reads_lift {describe : ε → ContainerFault}
    {step : ByteSource → Except ε (α × ByteSource)} {bytes : Bytes} {x : α}
    (h : Reads step bytes x) : Reads (lift describe step) bytes x := by
  intro s rest hFailure hPending
  obtain ⟨t, hStep, hRest⟩ := h s rest hFailure hPending
  exact ⟨t, lift_of_ok hStep, hRest⟩

theorem reads_map {r : ContainerReader α} {bytes : Bytes} {x : α} (f : α → β)
    (h : Reads r bytes x) : Reads (f <$> r) bytes (f x) := by
  rw [map_eq_pure_bind, ← List.append_nil bytes]
  exact reads_bind h (reads_pure _)

theorem isLocal_pure (x : α) : IsLocal (pure x : ContainerReader α) := by
  intro s t more value s' hExtends h
  cases h
  exact ⟨t, rfl, hExtends⟩

theorem isLocal_throw (fault : ContainerFault) : IsLocal (throw fault : ContainerReader α) := by
  intro s t more value s' hExtends h
  cases h

/-- Local steps in a row are local. -/
theorem isLocal_bind {r : ContainerReader α} {f : α → ContainerReader β} (hFirst : IsLocal r)
    (hSecond : ∀ x, IsLocal (f x)) : IsLocal (r >>= f) := by
  intro s t more value s' hExtends h
  obtain ⟨x, u, hR, hF⟩ := bind_eq_ok h
  obtain ⟨v, hRT, hExtendsU⟩ := hFirst _ _ _ _ _ hExtends hR
  obtain ⟨w, hFT, hExtendsS⟩ := hSecond x _ _ _ _ _ hExtendsU hF
  exact ⟨w, (bind_of_ok hRT).trans hFT, hExtendsS⟩

theorem isLocal_map {r : ContainerReader α} (f : α → β) (h : IsLocal r) : IsLocal (f <$> r) := by
  rw [map_eq_pure_bind]
  exact isLocal_bind h fun x => isLocal_pure (f x)

/-- Whoever describes the faults, a local step stays local. -/
theorem isLocal_lift {describe : ε → ContainerFault}
    {step : ByteSource → Except ε (α × ByteSource)} (h : IsLocal step) :
    IsLocal (lift describe step) := by
  intro s t more value s' hExtends hLift
  obtain ⟨t', hStep, hExtends'⟩ := h _ _ _ _ _ hExtends (lift_eq_ok hLift)
  exact ⟨t', lift_of_ok hStep, hExtends'⟩

/-! ### Stages -/

/-- A component of a version is read back. -/
theorem reads_readComponent (w : UInt32) : Reads readComponent (LittleEndian.ofWord w) w := by
  have hBytes : Reads (lift ContainerFault.truncatedHeader fun s => s.readExactly 4)
      (LittleEndian.ofWord w) (LittleEndian.ofWord w) :=
    reads_lift (reads_readExactly (LittleEndian.length_ofWord w))
  have hWord := reads_map LittleEndian.toWord hBytes
  rw [LittleEndian.toWord_ofWord] at hWord
  exact hWord

theorem isLocal_readComponent : IsLocal readComponent :=
  isLocal_map _ (isLocal_lift (isLocal_readExactly 4))

/-- A version is read back from behind the magic bytes. -/
theorem reads_readVersion (v : Version) : Reads readVersion (Container.magic ++ v.encode) v := by
  unfold readVersion Version.encode
  refine reads_bind (reads_lift (reads_readExactly rfl)) ?_
  simp only [ne_eq, not_true_eq_false, if_false, List.append_assoc]
  rw [← List.append_nil (LittleEndian.ofWord v.build)]
  exact reads_bind (reads_readComponent _) (reads_bind (reads_readComponent _)
    (reads_bind (reads_readComponent _) (reads_bind (reads_readComponent _) (reads_pure _))))

/-- Nothing is read of bytes that begin as no container does. -/
theorem readVersion_of_magic_ne {s : ByteSource} (hFailure : s.failure = none)
    (hMagic : s.pending.take 4 ≠ Container.magic) : ∃ fault, readVersion s = .error fault := by
  unfold readVersion
  by_cases hLe : Container.magic.length ≤ s.pending.length
  · have hFound : (s.advance Container.magic.length).1 ≠ Container.magic := by
      rw [advance_fst]
      exact hMagic
    have hRead := readExactly_of_le hFailure hLe
    generalize s.advance Container.magic.length = advanced at hFound hRead
    obtain ⟨found, t⟩ := advanced
    refine ⟨.badMagic found, ?_⟩
    rw [bind_of_ok (lift_of_ok hRead), if_pos hFound]
    rfl
  · have hEnded := readExactly_of_lt hFailure (Nat.lt_of_not_le hLe)
    refine ⟨.missingHeader .ended, bind_of_error ?_⟩
    rw [lift, hEnded]
    rfl

/-- What is read of a version behind the magic bytes. -/
def readComponents : ContainerReader Version := do
  let major ← readComponent
  let minor ← readComponent
  let patch ← readComponent
  let build ← readComponent
  return ⟨major, minor, patch, build⟩

theorem isLocal_readComponents : IsLocal readComponents :=
  isLocal_bind isLocal_readComponent fun _ => isLocal_bind isLocal_readComponent fun _ =>
    isLocal_bind isLocal_readComponent fun _ => isLocal_bind isLocal_readComponent fun _ =>
      isLocal_pure _

/-- A version is read without a look at what stands behind it. -/
theorem isLocal_readVersion : IsLocal readVersion := by
  unfold readVersion
  refine isLocal_bind (isLocal_lift (isLocal_readExactly _)) fun found => ?_
  dsimp only
  split
  · exact isLocal_bind (isLocal_throw _) fun _ => isLocal_readComponents
  · exact isLocal_readComponents

theorem reads_readSnapshot {snapshot framed : Bytes} (h : Field.encode snapshot = .ok framed) :
    Reads readSnapshot framed snapshot :=
  reads_lift (Field.reads_read h)

theorem isLocal_readSnapshot : IsLocal readSnapshot := isLocal_lift Field.isLocal_read

/-- Every marker is read back. -/
theorem reads_readMarker (m : Marker) : Reads readMarker [m.toByte] m := by
  unfold readMarker
  rw [← List.append_nil [m.toByte]]
  refine reads_bind (reads_lift (reads_readExactly rfl)) ?_
  simp only [List.headD_cons, Marker.ofByte?_toByte]
  exact reads_pure m

theorem isLocal_readMarker : IsLocal readMarker := by
  unfold readMarker
  refine isLocal_bind (isLocal_lift (isLocal_readExactly _)) fun found => ?_
  dsimp only
  split
  · exact isLocal_pure _
  · exact isLocal_throw _

/-- A state is read without a look at what stands behind it. -/
theorem isLocal_readState (delegate : String) : IsLocal (readState delegate) := by
  unfold readState
  refine isLocal_bind isLocal_readMarker fun marker => ?_
  split
  · exact isLocal_bind (isLocal_lift Field.isLocal_read) fun _ =>
      isLocal_bind isLocal_readMarker fun _ => isLocal_pure _
  · exact isLocal_pure _

theorem isLocal_readEntry : IsLocal readEntry := by
  unfold readEntry
  exact isLocal_bind (isLocal_lift Field.isLocal_readText) fun _ =>
    isLocal_bind (isLocal_lift Field.isLocal_readText) fun _ =>
      isLocal_bind (isLocal_lift Field.isLocal_readText) fun _ =>
        isLocal_bind (isLocal_readState _) fun _ => isLocal_pure _

/-- At the marker of its end, the list is what was read so far. -/
theorem readEntries_listEnd (fuel : Nat) (done : List DelegateEntry) :
    readEntries fuel done .delegateListEnd = pure done.reverse := by
  cases fuel <;> rfl

/-- An entry read before the others, with the check that its name is new. -/
theorem readEntries_start (fuel : Nat) (done : List DelegateEntry) :
    readEntries (fuel + 1) done .delegateStart = readEntry >>= fun found =>
      if done.any fun e => e.name == found.1.name then throw (.repeatedName found.1.name)
      else readEntries fuel (found.1 :: done) found.2 := by
  rw [readEntries]
  congr 1

/-- More bytes behind the list and more fuel change nothing about the entries that are read. -/
theorem readEntries_extends {fuel fuel' : Nat} (hFuel : fuel ≤ fuel') {done : List DelegateEntry}
    {marker : Marker} {s t s' : ByteSource} {more : Bytes} {entries : List DelegateEntry}
    (hExtends : Extends s t more) (h : readEntries fuel done marker s = .ok (entries, s')) :
    ∃ t', readEntries fuel' done marker t = .ok (entries, t') ∧ Extends s' t' more := by
  induction fuel generalizing fuel' done marker s t with
  | zero =>
      cases marker with
      | delegateListEnd =>
          rw [readEntries_listEnd] at h ⊢
          exact isLocal_pure _ _ _ _ _ _ hExtends h
      | delegateData => cases h
      | delegateStart => cases h
  | succ fuel ih =>
      cases marker with
      | delegateListEnd =>
          rw [readEntries_listEnd] at h ⊢
          exact isLocal_pure _ _ _ _ _ _ hExtends h
      | delegateData => cases h
      | delegateStart =>
          obtain ⟨extra, rfl⟩ := Nat.exists_eq_add_of_le hFuel
          rw [readEntries_start] at h
          rw [Nat.add_right_comm, readEntries_start]
          obtain ⟨found, u, hEntry, hRest⟩ := bind_eq_ok h
          obtain ⟨v, hEntryT, hExtendsU⟩ := isLocal_readEntry _ _ _ _ _ hExtends hEntry
          rw [bind_of_ok hEntryT]
          split at hRest
          · cases hRest
          · next hNew =>
            rw [if_neg hNew]
            exact ih (Nat.le_add_right _ _) hExtendsU hRest

/-- The loop over the entries is given as many rounds as there are bytes left. -/
theorem readDelegates_apply (s : ByteSource) :
    readDelegates s = (readMarker >>= readEntries s.pending.length []) s := rfl

/-- The list of delegates shows where it ends, so it is read without a look at what stands behind
it. -/
theorem isLocal_readDelegates : IsLocal readDelegates := by
  intro s t more entries s' hExtends h
  rw [readDelegates_apply] at h ⊢
  obtain ⟨marker, u, hMarker, hEntries⟩ := bind_eq_ok h
  obtain ⟨v, hMarkerT, hExtendsU⟩ := isLocal_readMarker _ _ _ _ _ hExtends hMarker
  have hFuel : s.pending.length ≤ t.pending.length := by
    rw [hExtends.pending_eq, List.length_append]
    omega
  rw [bind_of_ok hMarkerT]
  exact readEntries_extends hFuel hExtendsU hEntries

/-- The last stage looks for one more byte, which should not be there. -/
theorem finish_eq {s : ByteSource} (hFailure : s.failure = none) :
    ∃ t, finish s = if s.pending = [] then .ok ((), t) else .error .trailingBytes := by
  obtain ⟨n, hPos, -, hRead⟩ := read_eq_advance hFailure Nat.one_pos
  have hFront : (s.advance n).1 = [] ↔ s.pending = [] := by
    rw [advance_fst, List.take_eq_nil_iff]
    exact or_iff_right (Nat.ne_of_gt hPos)
  simp only [← hFront]
  generalize s.advance n = found at hRead
  obtain ⟨front, t⟩ := found
  unfold finish
  rw [bind_of_ok (lift_of_ok hRead)]
  cases front with
  | nil => exact ⟨t, rfl⟩
  | cons b front => exact ⟨t, rfl⟩

/-- The last stage succeeds exactly at the end of the bytes. -/
theorem finish_eq_ok_iff {s : ByteSource} (hFailure : s.failure = none) :
    (∃ t, finish s = .ok ((), t)) ↔ s.pending = [] := by
  obtain ⟨t, hFinish⟩ := finish_eq hFailure
  rw [hFinish]
  split
  · next hEnd => exact iff_of_true ⟨t, rfl⟩ hEnd
  · next hMore => exact iff_of_false (fun ⟨u, h⟩ => nomatch h) hMore

/-- Whatever is left is too much. -/
theorem finish_of_pending_ne_nil {s : ByteSource} (hFailure : s.failure = none)
    (h : s.pending ≠ []) : finish s = .error .trailingBytes := by
  obtain ⟨t, hFinish⟩ := finish_eq hFailure
  rw [hFinish, if_neg h]

end GameSave.ContainerReader
