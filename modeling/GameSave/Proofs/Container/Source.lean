import GameSave.Container.Source

/-! Reading from sources. How a source cuts its bytes into bursts never shows: a
read of any size takes that many bytes off the front, unless the source fails. A
step that succeeds on a source that does not fail does the same with more bytes
behind, and leaves those bytes where they are. -/

namespace GameSave.ByteSource

/-! ### Reads as cuts -/

@[simp] theorem advance_fst (s : ByteSource) (n : Nat) : (s.advance n).1 = s.pending.take n := by
  simp [advance, List.splitAt_eq]

@[simp] theorem advance_pending (s : ByteSource) (n : Nat) :
    (s.advance n).2.pending = s.pending.drop n := by
  simp [advance, List.splitAt_eq]

@[simp] theorem advance_failure (s : ByteSource) (n : Nat) :
    (s.advance n).2.failure = s.failure := rfl

theorem advance_zero (s : ByteSource) : s.advance 0 = ([], s) := by
  simp [advance, List.splitAt_eq]

/-- Two cuts, one behind the other, are one. -/
theorem advance_add (s : ByteSource) (m n : Nat) :
    s.advance (m + n) =
      ((s.advance m).1 ++ ((s.advance m).2.advance n).1, ((s.advance m).2.advance n).2) := by
  simp only [advance, List.splitAt_eq, List.take_add, List.drop_drop, List.length_append,
    Nat.add_assoc]

/-- A cut beyond the end takes what there is. -/
theorem advance_of_length_le {s : ByteSource} {m n : Nat} (hM : s.pending.length ≤ m)
    (hN : s.pending.length ≤ n) : s.advance m = s.advance n := by
  simp only [advance, List.splitAt_eq, List.take_of_length_le hM, List.take_of_length_le hN,
    List.drop_eq_nil_of_le hM, List.drop_eq_nil_of_le hN]

/-- At the end there is nothing to take. -/
theorem advance_of_pending_nil {s : ByteSource} (h : s.pending = []) (n : Nat) :
    s.advance n = ([], s) := by
  have hEmpty : s.pending.length = 0 := List.length_eq_zero_iff.mpr h
  rw [← s.advance_zero]
  exact advance_of_length_le (by omega) (by omega)

/-- A burst and then the rest of what is wanted are one cut. -/
theorem advance_burst (s : ByteSource) {n wanted : Nat} (hLe : n ≤ wanted) :
    s.advance wanted = ((s.advance n).1 ++
        ((s.advance n).2.advance (wanted - (s.advance n).1.length)).1,
      ((s.advance n).2.advance (wanted - (s.advance n).1.length)).2) := by
  -- A burst that is shorter than the cut leaves nothing behind.
  have hRest : (s.advance n).2.advance (wanted - (s.advance n).1.length) =
      (s.advance n).2.advance (wanted - n) := by
    rw [advance_fst, List.length_take]
    by_cases hShort : s.pending.length < n
    · have hEnd : (s.advance n).2.pending = [] := by
        rw [advance_pending]
        exact List.drop_eq_nil_of_le (Nat.le_of_lt hShort)
      rw [advance_of_pending_nil hEnd, advance_of_pending_nil hEnd]
    · rw [Nat.min_eq_left (Nat.le_of_not_lt hShort)]
  rw [hRest, ← advance_add, Nat.add_sub_cancel' hLe]

theorem read_zero (s : ByteSource) : s.read 0 = .ok ([], s) := rfl

/-- A read fails only if the source may fail. If it does not, it delivers a byte at least, and no
more than it was asked for. -/
theorem read_cases (s : ByteSource) {most : Nat} (hMost : 0 < most) :
    (s.failure ≠ none ∧ ∃ fault, s.read most = .error fault) ∨
      ∃ n, 0 < n ∧ n ≤ most ∧ s.read most = .ok (s.advance n) := by
  cases hFailure : s.failure with
  | none =>
      refine .inr ⟨s.request most, ?_, ?_, ?_⟩
      · simp only [request, hFailure]
        omega
      · simp only [request, hFailure]
        omega
      · simp [read, hFailure, Nat.ne_of_gt hMost]
  | some failure =>
      by_cases hReached : failure.offset ≤ s.offset
      · exact .inl ⟨nofun, .failed failure.reason,
          by simp [read, hFailure, Nat.ne_of_gt hMost, hReached]⟩
      · refine .inr ⟨s.request most, ?_, ?_, ?_⟩
        · simp only [request, hFailure]
          omega
        · simp only [request, hFailure]
          omega
        · simp [read, hFailure, Nat.ne_of_gt hMost, hReached]

/-- A source that does not fail gives a burst, of at least one byte before its end, and of no more
than were asked for. -/
theorem read_eq_advance {s : ByteSource} (h : s.failure = none) {most : Nat} (hMost : 0 < most) :
    ∃ n, 0 < n ∧ n ≤ most ∧ s.read most = .ok (s.advance n) :=
  (s.read_cases hMost).resolve_left fun hFails => hFails.1 h

/-- The bursts are put together to what one cut takes, unless the source fails on the way. -/
theorem gather_cases (s : ByteSource) {fuel wanted : Nat} (hFuel : wanted ≤ fuel)
    (bursts : List Bytes) :
    (s.failure ≠ none ∧ ∃ fault, gather fuel wanted bursts s = .error fault) ∨
      gather fuel wanted bursts s =
        .ok (bursts.reverse.flatten ++ (s.advance wanted).1, (s.advance wanted).2) := by
  induction fuel generalizing wanted bursts s with
  | zero =>
      have hWanted : wanted = 0 := by omega
      right
      rw [hWanted, gather, advance_zero, List.append_nil]
  | succ fuel ih =>
      by_cases hZero : wanted = 0
      · right
        rw [hZero, gather, read_zero, advance_zero, List.append_nil]
      · rcases s.read_cases (Nat.pos_of_ne_zero hZero) with
          ⟨hFails, fault, hRead⟩ | ⟨n, hPos, hLe, hRead⟩
        · exact .inl ⟨hFails, fault, by rw [gather, hRead]⟩
        · have hFront := s.advance_fst n
          have hPending := s.advance_pending n
          have hFailure := s.advance_failure n
          rw [gather, hRead, s.advance_burst hLe]
          generalize s.advance n = found at hFront hPending hFailure
          obtain ⟨front, t⟩ := found
          cases front with
          | nil =>
              -- Nothing came although something was asked for, so the source is at its end.
              have hEnd : s.pending = [] :=
                (List.take_eq_nil_iff.mp hFront.symm).resolve_left (Nat.ne_of_gt hPos)
              rw [hEnd, List.drop_nil] at hPending
              rw [advance_of_pending_nil hPending]
              simp
          | cons b burst =>
              have hRest : wanted - (b :: burst).length ≤ fuel := by
                simp only [List.length_cons]
                omega
              rcases ih t hRest ((b :: burst) :: bursts) with ⟨hFails, hFault⟩ | hGather
              · exact .inl ⟨hFailure ▸ hFails, hFault⟩
              · right
                dsimp only
                rw [hGather]
                simp

/-- A read of up to so many bytes gives as many as there are, or the source fails. -/
theorem readUpTo_cases (s : ByteSource) (n : Nat) :
    (s.failure ≠ none ∧ ∃ fault, s.readUpTo n = .error fault) ∨ s.readUpTo n = .ok (s.advance n) :=
  s.gather_cases (Nat.le_refl n) []

theorem readUpTo_eq_advance {s : ByteSource} (h : s.failure = none) (n : Nat) :
    s.readUpTo n = .ok (s.advance n) :=
  (s.readUpTo_cases n).resolve_left fun hFails => hFails.1 h

/-- As many bytes as there are can be asked for. -/
theorem readExactly_of_le {s : ByteSource} (h : s.failure = none) {n : Nat}
    (hLe : n ≤ s.pending.length) : s.readExactly n = .ok (s.advance n) := by
  have hLength : (s.advance n).1.length = n := by
    rw [advance_fst, List.length_take, Nat.min_eq_left hLe]
  simp only [readExactly, readUpTo_eq_advance h]
  rw [if_pos hLength]

/-- A source that has less than is asked for has ended. -/
theorem readExactly_of_lt {s : ByteSource} (h : s.failure = none) {n : Nat}
    (hLt : s.pending.length < n) : s.readExactly n = .error .ended := by
  have hLength : (s.advance n).1.length ≠ n := by
    rw [advance_fst, List.length_take]
    omega
  simp only [readExactly, readUpTo_eq_advance h]
  rw [if_neg hLength]

/-! ### Steps -/

section Steps

variable {α ε : Type}

/-- A step makes a value of exactly these bytes, whatever follows them. -/
def Reads (step : ByteSource → Except ε (α × ByteSource)) (bytes : Bytes) (value : α) : Prop :=
  ∀ s rest, s.failure = none → s.pending = bytes ++ rest →
    ∃ t, step s = .ok (value, t) ∧ t.failure = none ∧ t.pending = rest

/-- The second source has the bytes of the first and then some more. Neither of
them fails, and their bursts are unrelated. -/
structure Extends (s t : ByteSource) (more : Bytes) : Prop where
  failure_left : s.failure = none
  failure_right : t.failure = none
  pending_eq : t.pending = s.pending ++ more

/-- A step that succeeds does the same if more bytes follow. -/
def IsLocal (step : ByteSource → Except ε (α × ByteSource)) : Prop :=
  ∀ s t more value s', Extends s t more → step s = .ok (value, s') →
    ∃ t', step t = .ok (value, t') ∧ Extends s' t' more

end Steps

/-- Bytes are read back if their number is known. -/
theorem reads_readExactly {bytes : Bytes} {n : Nat} (h : bytes.length = n) :
    Reads (fun s => s.readExactly n) bytes bytes := by
  intro s rest hFailure hPending
  have hLe : n ≤ s.pending.length := by
    rw [hPending, List.length_append]
    omega
  have hAdvance : s.advance n = (bytes, (s.advance n).2) :=
    Prod.ext (by rw [advance_fst, hPending, List.take_left' h]) rfl
  refine ⟨(s.advance n).2, ?_, hFailure, ?_⟩
  · exact (readExactly_of_le hFailure hLe).trans (congrArg Except.ok hAdvance)
  · rw [advance_pending, hPending, List.drop_left' h]

/-- Cutting bytes that are there is the same with more bytes behind them. -/
theorem Extends.advance {s t : ByteSource} {more : Bytes} (h : Extends s t more) {n : Nat}
    (hLe : n ≤ s.pending.length) :
    (t.advance n).1 = (s.advance n).1 ∧ Extends (s.advance n).2 (t.advance n).2 more := by
  refine ⟨?_, h.failure_left, h.failure_right, ?_⟩
  · rw [advance_fst, advance_fst, h.pending_eq, List.take_append_of_le_length hLe]
  · rw [advance_pending, advance_pending, h.pending_eq, List.drop_append_of_le_length hLe]

/-- Bytes are taken without a look at what stands behind them. -/
theorem isLocal_readExactly (n : Nat) : IsLocal fun s => s.readExactly n := by
  intro s t more value s' hExtends hRead
  by_cases hLe : n ≤ s.pending.length
  · obtain ⟨hFront, hRest⟩ := hExtends.advance hLe
    have hLeRight : n ≤ t.pending.length := by
      rw [hExtends.pending_eq, List.length_append]
      omega
    simp only [readExactly_of_le hExtends.failure_left hLe, Except.ok.injEq] at hRead
    refine ⟨(t.advance n).2, ?_, ?_⟩
    · show t.readExactly n = _
      rw [readExactly_of_le hExtends.failure_right hLeRight]
      exact congrArg Except.ok (Prod.ext (by rw [hFront, hRead]) rfl)
    · rw [hRead] at hRest
      exact hRest
  · have hEnded := readExactly_of_lt hExtends.failure_left (Nat.lt_of_not_le hLe)
    exact nomatch hEnded.symm.trans hRead

end GameSave.ByteSource
