/-! Successes and failures of computations that can fail, taken apart step by step. -/

namespace GameSave.Except

variable {α β ε φ : Type}

@[simp] theorem pure_eq_ok {a b : α} : (pure a : Except ε α) = .ok b ↔ a = b :=
  Except.ok.injEq a b ▸ Iff.rfl

/-- Two computations in a row succeed if the first does, and then the second on its result. -/
@[simp] theorem bind_eq_ok {x : Except ε α} {f : α → Except ε β} {b : β} :
    (x >>= f) = .ok b ↔ ∃ a, x = .ok a ∧ f a = .ok b := by
  cases x with
  | error e => exact ⟨(nomatch ·), fun ⟨_, h, _⟩ => nomatch h⟩
  | ok a =>
      constructor
      · exact fun h => ⟨a, rfl, h⟩
      · rintro ⟨_, ⟨⟩, h⟩
        exact h

/-- What is made of a result does not decide whether there is one. -/
@[simp] theorem map_eq_ok {x : Except ε α} {f : α → β} {b : β} :
    x.map f = .ok b ↔ ∃ a, x = .ok a ∧ f a = b := by
  cases x with
  | error e => simp [Except.map]
  | ok a => simp [Except.map]

/-- A success does not depend on how faults are put. -/
@[simp] theorem mapError_eq_ok {x : Except ε α} {f : ε → φ} {a : α} :
    x.mapError f = .ok a ↔ x = .ok a := by
  cases x with
  | error e => exact iff_of_false (fun h => nomatch h) (fun h => nomatch h)
  | ok b =>
      constructor
      · rintro ⟨⟩
        rfl
      · rintro ⟨⟩
        rfl

/-- Two computations in a row fail where the first does, or else where the second does. There is no
other fault. -/
@[simp] theorem bind_eq_error {x : Except ε α} {f : α → Except ε β} {e : ε} :
    (x >>= f) = .error e ↔ x = .error e ∨ ∃ a, x = .ok a ∧ f a = .error e := by
  cases x with
  | error e' =>
      constructor
      · rintro ⟨⟩
        exact .inl rfl
      · rintro (⟨⟨⟩⟩ | ⟨_, ⟨⟩, _⟩)
        rfl
  | ok a =>
      constructor
      · exact fun h => .inr ⟨a, rfl, h⟩
      · rintro (h | ⟨_, ⟨⟩, h⟩)
        · cases h
        · exact h

/-- A fault that was put differently comes from one before. -/
@[simp] theorem mapError_eq_error {x : Except ε α} {f : ε → φ} {e' : φ} :
    x.mapError f = .error e' ↔ ∃ e, x = .error e ∧ f e = e' := by
  cases x with
  | error e =>
      constructor
      · rintro ⟨⟩
        exact ⟨e, rfl, rfl⟩
      · rintro ⟨_, ⟨⟩, rfl⟩
        rfl
  | ok a => exact iff_of_false (fun h => nomatch h) (fun ⟨_, h, _⟩ => nomatch h)

theorem toOption_eq_some {x : Except ε α} {a : α} : x.toOption = some a ↔ x = .ok a := by
  cases x with
  | error e => exact iff_of_false (fun h => nomatch h) (fun h => nomatch h)
  | ok b =>
      constructor
      · rintro ⟨⟩
        rfl
      · rintro ⟨⟩
        rfl

/-- That a closed computation succeeds can so be decided without naming its result. -/
theorem toBool_eq_true {x : Except ε α} : x.toBool = true ↔ ∃ a, x = .ok a := by
  cases x with
  | error e => exact iff_of_false (fun h => nomatch h) (fun ⟨_, h⟩ => nomatch h)
  | ok a => exact iff_of_true rfl ⟨a, rfl⟩

theorem toOption_eq_none {x : Except ε α} : x.toOption = none ↔ ∃ e, x = .error e := by
  cases x with
  | error e => exact iff_of_true rfl ⟨e, rfl⟩
  | ok a => exact iff_of_false (fun h => nomatch h) (fun ⟨_, h⟩ => nomatch h)

/-- A computation succeeds on a whole list if it succeeds on every member. -/
theorem mapM_isOk_iff {f : α → Except ε β} {xs : List α} :
    (∃ ys, xs.mapM f = .ok ys) ↔ ∀ x ∈ xs, ∃ y, f x = .ok y := by
  induction xs with
  | nil => exact iff_of_true ⟨[], rfl⟩ fun x h => nomatch h
  | cons x xs ih =>
      simp only [List.mapM_cons, bind_eq_ok, pure_eq_ok, List.forall_mem_cons, ← ih]
      constructor
      · rintro ⟨_, y, hY, ys, hYs, rfl⟩
        exact ⟨⟨y, hY⟩, ys, hYs⟩
      · rintro ⟨⟨y, hY⟩, ys, hYs⟩
        exact ⟨y :: ys, y, hY, ys, hYs, rfl⟩

/-- A fold fails with the fault of the first step that fails. -/
theorem foldlM_eq_error_iff {f : β → α → Except ε β} {xs : List α} {start : β} {e : ε} :
    xs.foldlM f start = .error e ↔ ∃ front x back last, xs = front ++ x :: back ∧
      front.foldlM f start = .ok last ∧ f last x = .error e := by
  induction xs generalizing start with
  | nil => exact iff_of_false (nomatch ·) fun ⟨front, _, _, _, h, _⟩ => by cases front <;> cases h
  | cons y xs ih =>
      simp only [List.foldlM_cons, bind_eq_error, ih]
      constructor
      · rintro (hNow | ⟨next, hNext, front, x, back, last, rfl, hFront, hFault⟩)
        · exact ⟨[], y, xs, start, rfl, rfl, hNow⟩
        · refine ⟨y :: front, x, back, last, rfl, ?_, hFault⟩
          rw [List.foldlM_cons, bind_eq_ok]
          exact ⟨next, hNext, hFront⟩
      · rintro ⟨_ | ⟨_, front⟩, x, back, last, hList, hFront, hFault⟩
        · obtain ⟨rfl, rfl⟩ := List.cons.inj hList
          cases hFront
          exact .inl hFault
        · obtain ⟨rfl, rfl⟩ := List.cons.inj hList
          rw [List.foldlM_cons, bind_eq_ok] at hFront
          obtain ⟨next, hNext, hRest⟩ := hFront
          exact .inr ⟨next, hNext, front, x, back, last, rfl, hRest, hFault⟩

end GameSave.Except
