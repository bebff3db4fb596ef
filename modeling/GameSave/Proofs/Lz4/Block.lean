import GameSave.Lz4.Block

/-! What a block stands for does not depend on the output before it, if it must
not refer back to that output, and not on the room that is left. Output is never
taken back. -/

namespace GameSave.Lz4.Block.Output

/-! ### Other output in front -/

/-- Output with other bytes in front of it, which cannot be seen. -/
def behind (front : Array UInt8) (out : Output) : Output :=
  ⟨front ++ out.bytes, front.size + out.floor⟩

theorem addLiterals_behind (front : Array UInt8) (out : Output) (literals : Bytes) :
    (out.behind front).addLiterals literals = (out.addLiterals literals).behind front := by
  simp [addLiterals, behind]

/-- Copies from behind the front are the same copies. -/
theorem addCopies_append (front : Array UInt8) {offset : Nat} (length : Nat) {bytes : Array UInt8}
    (hOffset : offset ≤ bytes.size) :
    addCopies offset length (front ++ bytes) = front ++ addCopies offset length bytes := by
  induction length generalizing bytes with
  | zero => rfl
  | succ length ih =>
      have hIndex : (front ++ bytes).size - offset = front.size + (bytes.size - offset) := by
        rw [Array.size_append]
        omega
      have hByte : (front ++ bytes).getD ((front ++ bytes).size - offset) 0 =
          bytes.getD (bytes.size - offset) 0 := by
        rw [hIndex, Array.getD_eq_getD_getElem?, Array.getD_eq_getD_getElem?,
          Array.getElem?_append_right (Nat.le_add_right _ _), Nat.add_sub_cancel_left]
      rw [addCopies, addCopies, hByte, Array.push_append]
      exact ih (by rw [Array.size_push]; omega)

/-- Matches reach back from the end, so what stands in front of all does not matter. -/
theorem addMatch?_behind (front : Array UInt8) (out : Output) (m : Match) :
    (out.behind front).addMatch? m = (out.addMatch? m).map (behind front) := by
  have hReach : (m.offset = 0 ∨ (out.behind front).bytes.size < (out.behind front).floor + m.offset)
      ↔ (m.offset = 0 ∨ out.bytes.size < out.floor + m.offset) := by
    simp only [behind, Array.size_append]
    omega
  unfold addMatch?
  by_cases hNone : m.offset = 0 ∨ out.bytes.size < out.floor + m.offset
  · rw [if_pos (hReach.mpr hNone), if_pos hNone]
    rfl
  · rw [if_neg (fun h => hNone (hReach.mp h)), if_neg hNone]
    have hCopies : addCopies m.offset m.length (front ++ out.bytes) =
        front ++ addCopies m.offset m.length out.bytes :=
      addCopies_append front m.length (by omega)
    simp only [behind, hCopies, Option.map_some]

/-- With as much more room, a sequence does the same behind other bytes. -/
theorem addSequence?_behind (front : Array UInt8) (most : Nat) (out : Output) (s : Sequence) :
    addSequence? (front.size + most) (out.behind front) s =
      (addSequence? most out s).map (behind front) := by
  have hRoom : front.size + most <
        (out.behind front).bytes.size + s.literals.length + s.copy.length ↔
      most < out.bytes.size + s.literals.length + s.copy.length := by
    simp only [behind, Array.size_append]
    omega
  unfold addSequence?
  by_cases hFull : most < out.bytes.size + s.literals.length + s.copy.length
  · rw [if_pos (hRoom.mpr hFull), if_pos hFull]
    rfl
  · rw [if_neg (fun h => hFull (hRoom.mp h)), if_neg hFull, addLiterals_behind, addMatch?_behind]

theorem foldlM_addSequence?_behind (front : Array UInt8) (most : Nat) (out : Output)
    (sequences : List Sequence) :
    sequences.foldlM (addSequence? (front.size + most)) (out.behind front) =
      (sequences.foldlM (addSequence? most) out).map (behind front) := by
  induction sequences generalizing out with
  | nil => rfl
  | cons s sequences ih =>
      rw [List.foldlM_cons, List.foldlM_cons, addSequence?_behind]
      cases hStep : addSequence? most out s with
      | none => rfl
      | some next => exact ih next

/-- A block adds the same bytes behind any output that it cannot see. -/
theorem addBlock?_behind (front : Array UInt8) (most : Nat) (out : Output) (block : Block) :
    addBlock? (front.size + most) (out.behind front) block =
      (addBlock? most out block).map (behind front) := by
  unfold addBlock?
  rw [foldlM_addSequence?_behind]
  cases hSequences : block.sequences.foldlM (addSequence? most) out with
  | none => rfl
  | some next =>
      have hRoom : front.size + most < (next.behind front).bytes.size + block.lastLiterals.length ↔
          most < next.bytes.size + block.lastLiterals.length := by
        simp only [behind, Array.size_append]
        omega
      simp only [Option.map_some, bind, Option.bind]
      by_cases hFull : most < next.bytes.size + block.lastLiterals.length
      · rw [if_pos (hRoom.mpr hFull), if_pos hFull]
        rfl
      · rw [if_neg (fun h => hFull (hRoom.mp h)), if_neg hFull, addLiterals_behind]
        rfl

/-! ### More room -/

/-- What has room has it in more room too. -/
theorem addSequence?_mono {most more : Nat} (hMore : most ≤ more) {out next : Output}
    {s : Sequence} (h : addSequence? most out s = some next) :
    addSequence? more out s = some next := by
  unfold addSequence? at h ⊢
  split at h
  · cases h
  · next hRoom =>
    rw [if_neg (fun hFull => hRoom (Nat.lt_of_le_of_lt hMore hFull))]
    exact h

/-- Sequences that have room have it in more room too, and give the same. -/
theorem foldlM_addSequence?_mono {most more : Nat} (hMore : most ≤ more) {sequences : List Sequence}
    {out next : Output} (h : sequences.foldlM (addSequence? most) out = some next) :
    sequences.foldlM (addSequence? more) out = some next := by
  induction sequences generalizing out with
  | nil => exact h
  | cons s sequences ih =>
      rw [List.foldlM_cons, Option.bind_eq_bind, Option.bind_eq_some_iff] at h ⊢
      obtain ⟨between, hStep, hRest⟩ := h
      exact ⟨between, addSequence?_mono hMore hStep, ih hRest⟩

/-- A block that has room adds the same bytes if there is more room. -/
theorem addBlock?_mono {most more : Nat} (hMore : most ≤ more) {out next : Output} {block : Block}
    (h : addBlock? most out block = some next) : addBlock? more out block = some next := by
  unfold addBlock? at h ⊢
  rw [Option.bind_eq_bind, Option.bind_eq_some_iff] at h ⊢
  obtain ⟨between, hSequences, hLast⟩ := h
  refine ⟨between, foldlM_addSequence?_mono hMore hSequences, ?_⟩
  split at hLast
  · cases hLast
  · next hRoom =>
    rw [if_neg (fun hFull => hRoom (Nat.lt_of_le_of_lt hMore hFull))]
    exact hLast

/-! ### Growth -/

theorem size_addLiterals (out : Output) (literals : Bytes) :
    (out.addLiterals literals).bytes.size = out.bytes.size + literals.length := by
  simp [addLiterals]

theorem size_addCopies (offset length : Nat) (bytes : Array UInt8) :
    (addCopies offset length bytes).size = bytes.size + length := by
  induction length generalizing bytes with
  | zero => rfl
  | succ length ih =>
      rw [addCopies, ih, Array.size_push]
      omega

theorem size_le_of_addMatch? {out next : Output} {m : Match} (h : out.addMatch? m = some next) :
    out.bytes.size ≤ next.bytes.size := by
  unfold addMatch? at h
  split at h
  · cases h
  · cases h
    rw [size_addCopies]
    exact Nat.le_add_right _ _

/-- Output only grows. -/
theorem size_le_of_addSequence? {most : Nat} {out next : Output} {s : Sequence}
    (h : addSequence? most out s = some next) : out.bytes.size ≤ next.bytes.size := by
  unfold addSequence? at h
  split at h
  · cases h
  · have hCopy := size_le_of_addMatch? h
    rw [size_addLiterals] at hCopy
    omega

theorem size_le_of_foldlM_addSequence? {most : Nat} {sequences : List Sequence} {out next : Output}
    (h : sequences.foldlM (addSequence? most) out = some next) :
    out.bytes.size ≤ next.bytes.size := by
  induction sequences generalizing out with
  | nil =>
      obtain rfl := Option.some.inj h
      exact Nat.le_refl _
  | cons s sequences ih =>
      rw [List.foldlM_cons, Option.bind_eq_bind, Option.bind_eq_some_iff] at h
      obtain ⟨between, hStep, hRest⟩ := h
      exact Nat.le_trans (size_le_of_addSequence? hStep) (ih hRest)

/-- A whole block takes nothing away from the output. -/
theorem size_le_of_addBlock? {most : Nat} {out next : Output} {block : Block}
    (h : addBlock? most out block = some next) : out.bytes.size ≤ next.bytes.size := by
  unfold addBlock? at h
  rw [Option.bind_eq_bind, Option.bind_eq_some_iff] at h
  obtain ⟨between, hSequences, hLast⟩ := h
  have hGrowth := size_le_of_foldlM_addSequence? hSequences
  split at hLast
  · cases hLast
  · obtain rfl := Option.some.inj hLast
    rw [size_addLiterals]
    omega

end GameSave.Lz4.Block.Output
