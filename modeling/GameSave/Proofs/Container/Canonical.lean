import GameSave.Proofs.Container.RoundTrip
import GameSave.SaveFault

/-! Containers have one form in bytes. Whatever a stage accepts is exactly what
its value is written as, so that every byte of a container that decodes is
accounted for. -/

namespace GameSave

open ByteSource ContainerReader

namespace ByteSource

/-! ### Bytes taken off a source -/

/-- The second source is the first without these bytes at its front. -/
structure Takes (s t : ByteSource) (bytes : Bytes) : Prop where
  failure_eq : t.failure = none
  pending_eq : s.pending = bytes ++ t.pending

/-- What is taken in two steps is taken one behind the other. -/
theorem Takes.trans {s t u : ByteSource} {front back : Bytes} (hFront : Takes s t front)
    (hBack : Takes t u back) : Takes s u (front ++ back) := by
  refine ⟨hBack.failure_eq, ?_⟩
  rw [hFront.pending_eq, hBack.pending_eq, List.append_assoc]

theorem takes_advance {s : ByteSource} (h : s.failure = none) (n : Nat) :
    Takes s (s.advance n).2 (s.advance n).1 := by
  refine ⟨h, ?_⟩
  rw [advance_fst, advance_pending, List.take_append_drop]

/-- As many bytes are taken as were asked for, not one more. -/
theorem takes_readExactly {s t : ByteSource} {n : Nat} {bytes : Bytes} (hFailure : s.failure = none)
    (h : s.readExactly n = .ok (bytes, t)) : bytes.length = n ∧ Takes s t bytes := by
  by_cases hLe : n ≤ s.pending.length
  · have hTakes := takes_advance hFailure n
    have hLength := s.advance_fst n
    rw [readExactly_of_le hFailure hLe] at h
    rw [Except.ok.inj h] at hTakes hLength
    refine ⟨?_, hTakes⟩
    exact (congrArg List.length hLength).trans (List.length_take_of_le hLe)
  · rw [readExactly_of_lt hFailure (Nat.lt_of_not_le hLe)] at h
    cases h

end ByteSource

/-! ### Fields -/

namespace LittleEndian

/-- The digits of the number that some digits stand for are those digits. -/
theorem ofNat_toNat (bytes : Bytes) : ofNat bytes.length (toNat bytes) = bytes := by
  apply eq_of_toNat_eq (length_ofNat _ _)
  exact toNat_ofNat_of_lt (toNat_lt_span bytes)

/-- A word has only one form in bytes. -/
theorem ofWord_toWord {bytes : Bytes} (h : bytes.length = 4) : ofWord (toWord bytes) = bytes :=
  eq_of_toWord_eq (length_ofWord _) h (toWord_ofWord _)

end LittleEndian

namespace Field

/-- A field that is read has taken just the bytes in which it would be written. -/
theorem takes_read {s t : ByteSource} {bytes : Bytes} (hFailure : s.failure = none)
    (h : read s = .ok (bytes, t)) : ∃ framed, encode bytes = .ok framed ∧ Takes s t framed := by
  unfold read at h
  cases hLength : s.readExactly 4 with
  | error fault =>
      rw [hLength] at h
      cases h
  | ok found =>
      obtain ⟨digits, u⟩ := found
      obtain ⟨hDigits, hTakesDigits⟩ := takes_readExactly hFailure hLength
      have hTakesBytes := takes_advance hTakesDigits.failure_eq (LittleEndian.toNat digits)
      rw [hLength] at h
      simp only [readUpTo_eq_advance hTakesDigits.failure_eq] at h
      split at h
      · cases h
      · next hMax =>
        split at h
        · next hWhole =>
          rw [Prod.mk.inj (Except.ok.inj h) |>.1, Prod.mk.inj (Except.ok.inj h) |>.2] at hTakesBytes
          rw [Prod.mk.inj (Except.ok.inj h) |>.1] at hWhole
          refine ⟨digits ++ bytes, ?_, hTakesDigits.trans hTakesBytes⟩
          rw [encode_of_length_le (by omega), hWhole, ← hDigits, LittleEndian.ofNat_toNat]
        · cases h

/-- A text that is read has taken just the bytes in which it would be written. -/
theorem takes_readText {s t : ByteSource} {text : String} (hFailure : s.failure = none)
    (h : readText s = .ok (text, t)) :
    ∃ framed, encodeText text = .ok framed ∧ Takes s t framed := by
  unfold readText at h
  cases hRead : read s with
  | error fault =>
      rw [hRead] at h
      cases h
  | ok found =>
      obtain ⟨bytes, u⟩ := found
      obtain ⟨framed, hFramed, hTakes⟩ := takes_read hFailure hRead
      simp only [hRead, Text.Utf8.decode] at h
      cases hText : Text.Utf8.decode? bytes with
      | none =>
          simp only [hText] at h
          cases h
      | some found =>
          simp only [hText] at h
          obtain ⟨rfl, rfl⟩ := Prod.mk.inj (Except.ok.inj h)
          refine ⟨framed, ?_, hTakes⟩
          rw [encodeText, Text.Utf8.encode_of_decode? hText, hFramed]

end Field

/-! ### Stages -/

/-- A marker has only one form as a byte. -/
theorem Marker.toByte_of_ofByte? {b : UInt8} {m : Marker} (h : ofByte? b = some m) :
    m.toByte = b := by
  unfold ofByte? at h
  split at h
  · next hByte =>
    cases h
    exact hByte.symm
  · split at h
    · next hByte =>
      cases h
      exact hByte.symm
    · split at h
      · next hByte =>
        cases h
        exact hByte.symm
      · cases h

namespace ContainerReader

theorem takes_readComponent {s t : ByteSource} {w : UInt32} (hFailure : s.failure = none)
    (h : readComponent s = .ok (w, t)) : Takes s t (LittleEndian.ofWord w) := by
  rw [readComponent, map_eq_pure_bind] at h
  obtain ⟨bytes, u, hBytes, hWord⟩ := bind_eq_ok h
  obtain ⟨hLength, hTakes⟩ := takes_readExactly hFailure (lift_eq_ok hBytes)
  cases hWord
  rwa [LittleEndian.ofWord_toWord hLength]

/-- A version that is read stands behind the magic bytes. -/
theorem takes_readVersion {s t : ByteSource} {v : Version} (hFailure : s.failure = none)
    (h : readVersion s = .ok (v, t)) : Takes s t (Container.magic ++ v.encode) := by
  obtain ⟨found, s₀, hFound, h⟩ := bind_eq_ok h
  obtain ⟨-, hMagic⟩ := takes_readExactly hFailure (lift_eq_ok hFound)
  dsimp only at h
  split at h
  · obtain ⟨_, _, hThrow, -⟩ := bind_eq_ok h
    cases hThrow
  · next hSame =>
    rw [Decidable.not_not.mp hSame] at hMagic
    obtain ⟨major, s₁, hMajor, h⟩ := bind_eq_ok h
    have hMajor := takes_readComponent hMagic.failure_eq hMajor
    obtain ⟨minor, s₂, hMinor, h⟩ := bind_eq_ok h
    have hMinor := takes_readComponent hMajor.failure_eq hMinor
    obtain ⟨patch, s₃, hPatch, h⟩ := bind_eq_ok h
    have hPatch := takes_readComponent hMinor.failure_eq hPatch
    obtain ⟨build, s₄, hBuild, h⟩ := bind_eq_ok h
    have hBuild := takes_readComponent hPatch.failure_eq hBuild
    cases h
    exact hMagic.trans (((hMajor.trans hMinor).trans hPatch).trans hBuild)

theorem takes_readMarker {s t : ByteSource} {m : Marker} (hFailure : s.failure = none)
    (h : readMarker s = .ok (m, t)) : Takes s t [m.toByte] := by
  obtain ⟨found, u, hFound, h⟩ := bind_eq_ok h
  obtain ⟨hLength, hTakes⟩ := takes_readExactly hFailure (lift_eq_ok hFound)
  obtain ⟨b, rfl⟩ := List.length_eq_one_iff.mp hLength
  dsimp only [List.headD_cons] at h
  cases hMarker : Marker.ofByte? b with
  | none =>
      rw [hMarker] at h
      cases h
  | some marker =>
      rw [hMarker] at h
      cases h
      rwa [Marker.toByte_of_ofByte? hMarker]

/-- What comes after the texts of an entry is its state, if it has one, and the next marker. -/
theorem takes_readState {delegate : String} {s t : ByteSource} {state : Option Bytes}
    {next : Marker} (hFailure : s.failure = none)
    (h : readState delegate s = .ok ((state, next), t)) :
    (state = none ∧ Takes s t [next.toByte]) ∨ ∃ blob framed, state = some blob ∧
      Field.encode blob = .ok framed ∧
        Takes s t (Marker.delegateData.toByte :: framed ++ [next.toByte]) := by
  obtain ⟨marker, u, hMarker, h⟩ := bind_eq_ok h
  have hMarker := takes_readMarker hFailure hMarker
  split at h
  · next hData =>
    subst hData
    obtain ⟨blob, v, hBlob, h⟩ := bind_eq_ok h
    obtain ⟨framed, hFramed, hBlob⟩ := Field.takes_read hMarker.failure_eq (lift_eq_ok hBlob)
    obtain ⟨last, w, hLast, h⟩ := bind_eq_ok h
    have hLast := takes_readMarker hBlob.failure_eq hLast
    cases h
    exact .inr ⟨blob, framed, rfl, hFramed, (hMarker.trans hBlob).trans hLast⟩
  · cases h
    exact .inl ⟨rfl, hMarker⟩

/-- An entry takes the bytes that it is written as. Its own marker was read before it, and the
marker of whatever comes next is read with it. -/
theorem takes_readEntry {s t : ByteSource} {e : DelegateEntry} {next : Marker}
    (hFailure : s.failure = none) (h : readEntry s = .ok ((e, next), t)) :
    ∃ body, e.encode = .ok (Marker.delegateStart.toByte :: body) ∧
      Takes s t (body ++ [next.toByte]) := by
  obtain ⟨name, s₁, hName, h⟩ := bind_eq_ok h
  obtain ⟨nameBytes, hNameBytes, hName⟩ := Field.takes_readText hFailure (lift_eq_ok hName)
  obtain ⟨displayName, s₂, hDisplay, h⟩ := bind_eq_ok h
  obtain ⟨displayBytes, hDisplayBytes, hDisplay⟩ :=
    Field.takes_readText hName.failure_eq (lift_eq_ok hDisplay)
  obtain ⟨typeKey, s₃, hType, h⟩ := bind_eq_ok h
  obtain ⟨typeBytes, hTypeBytes, hType⟩ :=
    Field.takes_readText hDisplay.failure_eq (lift_eq_ok hType)
  obtain ⟨⟨state, last⟩, s₄, hState, h⟩ := bind_eq_ok h
  have hTexts := (hName.trans hDisplay).trans hType
  cases h
  rcases takes_readState hType.failure_eq hState with
    ⟨rfl, hLast⟩ | ⟨blob, framed, rfl, hFramed, hLast⟩
  · refine ⟨nameBytes ++ displayBytes ++ typeBytes, ?_, hTexts.trans hLast⟩
    rw [DelegateEntry.encode, hNameBytes, hDisplayBytes, hTypeBytes]
    rfl
  · refine ⟨nameBytes ++ displayBytes ++ typeBytes ++ Marker.delegateData.toByte :: framed, ?_, ?_⟩
    · simp only [DelegateEntry.encode, hNameBytes, hDisplayBytes, hTypeBytes, hFramed]
      rfl
    · simpa using hTexts.trans hLast

/-- The marker of the end ends the list as it is. -/
theorem takes_readEntries_listEnd {fuel : Nat} {done entries : List DelegateEntry}
    {s t : ByteSource} (hFailure : s.failure = none)
    (hDone : (done.map DelegateEntry.name).Nodup)
    (h : readEntries fuel done .delegateListEnd s = .ok (entries, t)) :
    ∃ new encoded rest, entries = done.reverse ++ new ∧
      new.mapM DelegateEntry.encode = .ok encoded ∧
        encoded.flatten ++ [Marker.delegateListEnd.toByte] =
          Marker.delegateListEnd.toByte :: rest ∧
            Takes s t rest ∧ (entries.map DelegateEntry.name).Nodup := by
  rw [readEntries_listEnd] at h
  cases h
  refine ⟨[], [], [], (List.append_nil _).symm, rfl, rfl, ⟨hFailure, rfl⟩, ?_⟩
  rw [List.map_reverse]
  exact (List.reverse_perm _).nodup_iff.mpr hDone

/-- Entries that were read behind others take the bytes that they are written as, and no name
occurs twice among all of them. -/
theorem takes_readEntries {fuel : Nat} {done entries : List DelegateEntry} {marker : Marker}
    {s t : ByteSource} (hFailure : s.failure = none)
    (hDone : (done.map DelegateEntry.name).Nodup)
    (h : readEntries fuel done marker s = .ok (entries, t)) :
    ∃ new encoded rest, entries = done.reverse ++ new ∧
      new.mapM DelegateEntry.encode = .ok encoded ∧
        encoded.flatten ++ [Marker.delegateListEnd.toByte] = marker.toByte :: rest ∧
          Takes s t rest ∧ (entries.map DelegateEntry.name).Nodup := by
  induction fuel generalizing done marker s with
  | zero =>
      cases marker with
      | delegateListEnd => exact takes_readEntries_listEnd hFailure hDone h
      | delegateData => cases h
      | delegateStart => cases h
  | succ fuel ih =>
      cases marker with
      | delegateListEnd => exact takes_readEntries_listEnd hFailure hDone h
      | delegateData => cases h
      | delegateStart =>
          rw [readEntries_start] at h
          obtain ⟨⟨e, next⟩, u, hEntry, h⟩ := bind_eq_ok h
          obtain ⟨body, hBody, hTakes⟩ := takes_readEntry hFailure hEntry
          split at h
          · cases h
          · next hNew =>
            have hNodup : ((e :: done).map DelegateEntry.name).Nodup := by
              rw [List.map_cons, List.nodup_cons]
              exact ⟨fun hMem => hNew (DelegateEntry.any_name_iff.mpr hMem), hDone⟩
            obtain ⟨new, encoded, rest, rfl, hEncoded, hFlatten, hRest, hNames⟩ :=
              ih hTakes.failure_eq hNodup h
            refine ⟨e :: new, (Marker.delegateStart.toByte :: body) :: encoded,
              body ++ [next.toByte] ++ rest, by simp, ?_, ?_, hTakes.trans hRest, hNames⟩
            · rw [List.mapM_cons, hBody, hEncoded]
              rfl
            · simp [hFlatten]

/-- Delegates that are read have taken just the bytes in which they would be written, with the end
of the list, and have different names. -/
theorem takes_readDelegates {s t : ByteSource} {entries : List DelegateEntry}
    (hFailure : s.failure = none) (h : readDelegates s = .ok (entries, t)) :
    ∃ encoded, entries.mapM DelegateEntry.encode = .ok encoded ∧
      Takes s t (encoded.flatten ++ [Marker.delegateListEnd.toByte]) ∧
        (entries.map DelegateEntry.name).Nodup := by
  rw [readDelegates_apply] at h
  obtain ⟨marker, u, hMarker, h⟩ := bind_eq_ok h
  have hMarker := takes_readMarker hFailure hMarker
  have hNone : (([] : List DelegateEntry).map DelegateEntry.name).Nodup := List.Pairwise.nil
  obtain ⟨new, encoded, rest, rfl, hEncoded, hFlatten, hRest, hNames⟩ :=
    takes_readEntries hMarker.failure_eq hNone h
  refine ⟨encoded, hEncoded, ?_, hNames⟩
  rw [hFlatten]
  exact hMarker.trans hRest

end ContainerReader

namespace Container

/-- A container that decodes takes all the bytes, which are what it is written as, and its delegates
have different names. -/
theorem encode_of_decode {c : Container} {bytes : Bytes} (h : decode bytes = .ok c) :
    c.encode = .ok bytes ∧ (c.delegates.map DelegateEntry.name).Nodup := by
  obtain ⟨u, h⟩ := run'_eq_ok_iff.mp h
  obtain ⟨version, s₁, hVersion, h⟩ := bind_eq_ok h
  have hVersion := takes_readVersion rfl hVersion
  obtain ⟨snapshot, s₂, hSnapshot, h⟩ := bind_eq_ok h
  obtain ⟨framed, hFramed, hSnapshot⟩ := Field.takes_read hVersion.failure_eq (lift_eq_ok hSnapshot)
  obtain ⟨delegates, s₃, hDelegates, h⟩ := bind_eq_ok h
  obtain ⟨encoded, hEncoded, hDelegates, hNames⟩ :=
    takes_readDelegates hSnapshot.failure_eq hDelegates
  obtain ⟨_, s₄, hFinish, h⟩ := bind_eq_ok h
  have hEnd := (finish_eq_ok_iff hDelegates.failure_eq).mp ⟨s₄, hFinish⟩
  have hWhole := ((hVersion.trans hSnapshot).trans hDelegates).pending_eq
  cases h
  refine ⟨?_, hNames⟩
  rw [hEnd, List.append_nil] at hWhole
  change bytes = _ at hWhole
  simp only [encode, hFramed, hEncoded, hWhole]
  simp [bind, Except.bind, pure, Except.pure]

/-- Bytes decode to a container exactly if they are what it is written as and its delegates have
different names. So no other bytes decode to it, and bytes that do not decode are reported as a
damaged container. -/
theorem decode_eq_ok_iff_encode (bytes : Bytes) :
    (∀ c, decode bytes = .ok c ↔
      c.encode = .ok bytes ∧ (c.delegates.map DelegateEntry.name).Nodup) ∧
    (∀ c other, decode bytes = .ok c → decode other = .ok c → other = bytes) ∧
    ((∃ c, decode bytes = .ok c) ∨ ∃ damage,
      (decode bytes).mapError SaveFault.ofContainer = .error (.corruptContainer damage)) := by
  refine ⟨fun c => ⟨encode_of_decode, fun h => decode_of_encode h.1 h.2⟩, ?_, ?_⟩
  · intro c other hBytes hOther
    have hSame := (encode_of_decode hOther).1.symm.trans (encode_of_decode hBytes).1
    exact Except.ok.inj hSame
  · cases hDecode : decode bytes with
    | ok c => exact .inl ⟨c, rfl⟩
    | error fault => exact .inr ⟨.container fault, rfl⟩

/-- A container with two delegates, of which there is one byte string and no other. -/
theorem decode_eq_ok_iff_encode_two_delegates :
    let c : Container :=
      ⟨.engine, [0xDF], [⟨"buy", "Buy", "purchase", some []⟩, ⟨"end", "End", "end_turn", none⟩]⟩
    ∃ bytes, decode bytes = .ok c ∧ ∀ other, decode other = .ok c → other = bytes := by
  intro c
  have hFits : c.Fits := by unfold Fits; decide +kernel
  obtain ⟨bytes, hEncode⟩ := encode_isOk_iff.mpr hFits
  obtain ⟨hIff, hOnly, -⟩ := decode_eq_ok_iff_encode bytes
  have hDecode := (hIff c).mpr ⟨hEncode, by decide⟩
  exact ⟨bytes, hDecode, fun other => hOnly c other hDecode⟩

end Container

end GameSave
