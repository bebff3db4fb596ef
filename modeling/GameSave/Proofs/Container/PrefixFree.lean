import GameSave.Proofs.Container.Canonical

/-! Containers say themselves where they end. No beginning of a container is a
container, and nothing may stand behind one. -/

namespace GameSave

open ByteSource ContainerReader

namespace ContainerReader

/-- All stages before the last. -/
def readContent : ContainerReader (Version × Bytes × List DelegateEntry) := do
  let version ← readVersion
  let body ← readBody
  return (version, body)

theorem isLocal_readContent : IsLocal readContent :=
  isLocal_bind isLocal_readVersion fun _ => isLocal_bind isLocal_readBody fun _ => isLocal_pure _

/-- A container is its content, with a check behind it that nothing follows. -/
theorem readContainer_eq_readContent : readContainer = readContent >>= fun content =>
    finish >>= fun _ => pure ⟨content.1, content.2.1, content.2.2⟩ := by
  simp [readContainer_eq, readContent]

end ContainerReader

namespace Container

/-- A container that is cut off anywhere lacks its end, whatever the cut leaves of it. -/
theorem decode_of_cut {c : Container} {bytes front : Bytes} (h : c.encode = .ok bytes)
    (hPrefix : front <+: bytes) (hNe : front ≠ bytes) :
    ∃ fault, decode front = .error fault := by
  cases hVersion : readVersion (.ofBytes front) with
  | error fault =>
      refine ⟨fault, run'_of_error ?_⟩
      rw [readContainer_eq, bind_of_error hVersion]
  | ok found =>
      obtain ⟨version, rest⟩ := found
      obtain ⟨-, fault, hBody⟩ := readBody_of_cut h hPrefix hNe hVersion
      refine ⟨fault, run'_of_error ?_⟩
      rw [readContainer_eq, bind_of_ok hVersion, bind_of_error hBody]

/-- What stands behind a container is never taken for a part of it. -/
theorem decode_append {c : Container} {bytes more : Bytes} (h : decode bytes = .ok c)
    (hMore : more ≠ []) : decode (bytes ++ more) = .error .trailingBytes := by
  obtain ⟨u, h⟩ := run'_eq_ok_iff.mp h
  rw [readContainer_eq_readContent] at h
  obtain ⟨content, s, hContent, h⟩ := bind_eq_ok h
  have hExtends : Extends (.ofBytes bytes) (.ofBytes (bytes ++ more)) more := ⟨rfl, rfl, rfl⟩
  obtain ⟨t, hWhole, hEnd⟩ := isLocal_readContent _ _ _ _ _ hExtends hContent
  obtain ⟨_, v, hFinish, -⟩ := bind_eq_ok h
  have hNothing := (finish_eq_ok_iff hEnd.failure_left).mp ⟨v, hFinish⟩
  have hPending : t.pending ≠ [] := by
    rw [hEnd.pending_eq, hNothing]
    exact hMore
  apply run'_of_error
  rw [readContainer_eq_readContent, bind_of_ok hWhole,
    bind_of_error (finish_of_pending_ne_nil hEnd.failure_right hPending)]

/-- The bytes of a container are damaged if any of them are missing at the end, wherever the cut
falls, and bytes that decode are damaged if any more of them follow. -/
theorem decode_prefix_free (bytes : Bytes) :
    (∀ (c : Container) (front : Bytes), c.encode = .ok bytes → front <+: bytes → front ≠ bytes →
      ∃ damage, (decode front).mapError SaveFault.ofContainer =
        .error (.corruptContainer damage)) ∧
    ∀ (c : Container) (more : Bytes), decode bytes = .ok c → more ≠ [] →
      (decode (bytes ++ more)).mapError SaveFault.ofContainer =
        .error (.corruptContainer (.container .trailingBytes)) := by
  constructor
  · intro c front hEncode hPrefix hNe
    obtain ⟨fault, hDecode⟩ := decode_of_cut hEncode hPrefix hNe
    exact ⟨.container fault, by rw [hDecode]; rfl⟩
  · intro c more hDecode hMore
    rw [decode_append hDecode hMore]
    rfl

/-- A container whose last delegate ends like a list of delegates, cut there, and one with a second
end behind it. -/
theorem decode_prefix_free_end_in_state :
    let c : Container := ⟨.engine, [], [⟨"move", "Move", "move", some [0xDF]⟩]⟩
    ∃ bytes damage, c.encode = .ok bytes ∧
      (decode bytes.dropLast).mapError SaveFault.ofContainer =
        .error (.corruptContainer damage) ∧
      (decode (bytes ++ [0xDF])).mapError SaveFault.ofContainer =
        .error (.corruptContainer (.container .trailingBytes)) := by
  intro c
  have hFits : c.Fits := by unfold Fits; decide +kernel
  obtain ⟨bytes, hEncode⟩ := encode_isOk_iff.mpr hFits
  obtain ⟨hCut, hMore⟩ := decode_prefix_free bytes
  have hNe : bytes.dropLast ≠ bytes := by
    intro hSame
    have hLength := congrArg List.length hSame
    obtain ⟨body, rfl, -⟩ := encode_eq_ok hEncode
    simp only [List.length_dropLast, List.length_append, magic, List.length_cons] at hLength
    omega
  obtain ⟨damage, hDamage⟩ := hCut c bytes.dropLast hEncode (List.dropLast_prefix bytes) hNe
  have hDecode := decode_of_encode hEncode (by decide)
  exact ⟨bytes, damage, hEncode, hDamage, hMore c [0xDF] hDecode (by decide)⟩

end Container

end GameSave
