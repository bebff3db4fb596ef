import GameSave.Container.Field
import GameSave.Proofs.Bytes
import GameSave.Proofs.Container.Source

/-! Fields read back what they were written from, and end where their length
says. -/

namespace GameSave.Field

open ByteSource

/-- Only what fits in a field is written as one. -/
theorem length_le_of_encode {bytes framed : Bytes} (h : encode bytes = .ok framed) :
    bytes.length ≤ maxLength := by
  unfold encode at h
  split at h
  · assumption
  · cases h

/-- A field is its length and then its bytes. -/
theorem encode_of_length_le {bytes : Bytes} (h : bytes.length ≤ maxLength) :
    encode bytes = .ok (LittleEndian.ofNat 4 bytes.length ++ bytes) := if_pos h

/-- A field that was written is read back. -/
theorem reads_read {bytes framed : Bytes} (h : encode bytes = .ok framed) :
    Reads read framed bytes := by
  have hLe := length_le_of_encode h
  rw [encode_of_length_le hLe] at h
  cases h
  intro s rest hFailure hPending
  rw [List.append_assoc] at hPending
  obtain ⟨t, hLength, hFailureT, hPendingT⟩ :=
    reads_readExactly (LittleEndian.length_ofNat 4 _) s _ hFailure hPending
  dsimp only at hLength
  have hSpan : bytes.length < LittleEndian.span 4 := by
    have hMax : maxLength < LittleEndian.span 4 := by decide
    omega
  refine ⟨(t.advance bytes.length).2, ?_, hFailureT, ?_⟩
  · unfold read
    rw [hLength]
    simp only [LittleEndian.toNat_ofNat_of_lt hSpan, readUpTo_eq_advance hFailureT]
    have hFront : (t.advance bytes.length).1 = bytes := by
      rw [advance_fst, hPendingT, List.take_left]
    rw [if_neg (by omega), hFront, if_pos rfl]
  · rw [advance_pending, hPendingT, List.drop_left]

/-- A field is read without a look at what stands behind it. -/
theorem isLocal_read : IsLocal read := by
  intro s t more value s' hExtends hRead
  unfold read at hRead ⊢
  cases hLength : s.readExactly 4 with
  | error fault =>
      rw [hLength] at hRead
      cases hRead
  | ok found =>
      obtain ⟨length, u⟩ := found
      obtain ⟨v, hLengthT, hExtendsU⟩ := isLocal_readExactly 4 _ _ _ _ _ hExtends hLength
      dsimp only at hLengthT
      rw [hLength] at hRead
      rw [hLengthT]
      simp only [readUpTo_eq_advance hExtendsU.failure_left] at hRead
      simp only [readUpTo_eq_advance hExtendsU.failure_right]
      split at hRead
      · cases hRead
      · next hMax =>
        split at hRead
        · next hWhole =>
          have hLe : LittleEndian.toNat length ≤ u.pending.length := by
            rw [advance_fst, List.length_take] at hWhole
            omega
          obtain ⟨hFront, hRest⟩ := hExtendsU.advance hLe
          cases hRead
          refine ⟨_, ?_, hRest⟩
          rw [if_neg hMax, hFront, if_pos hWhole]
        · cases hRead

/-- A text that was written as a field is read back. -/
theorem reads_readText {text : String} {framed : Bytes} (h : encodeText text = .ok framed) :
    Reads readText framed text := by
  intro s rest hFailure hPending
  obtain ⟨t, hRead, hRest⟩ := reads_read h s rest hFailure hPending
  refine ⟨t, ?_, hRest⟩
  unfold readText
  rw [hRead]
  simp [Text.Utf8.decode]

theorem isLocal_readText : IsLocal readText := by
  intro s t more value s' hExtends hRead
  unfold readText at hRead ⊢
  cases hBytes : read s with
  | error fault =>
      rw [hBytes] at hRead
      cases hRead
  | ok found =>
      obtain ⟨bytes, u⟩ := found
      obtain ⟨v, hBytesT, hExtendsU⟩ := isLocal_read _ _ _ _ _ hExtends hBytes
      rw [hBytes] at hRead
      rw [hBytesT]
      cases hText : Text.Utf8.decode bytes with
      | error fault =>
          simp only [hText] at hRead
          cases hRead
      | ok text =>
          simp only [hText, Except.ok.injEq, Prod.mk.injEq] at hRead ⊢
          obtain ⟨rfl, rfl⟩ := hRead
          exact ⟨v, ⟨rfl, rfl⟩, hExtendsU⟩

end GameSave.Field
