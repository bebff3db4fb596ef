import GameSave.Text.Blank
import Mathlib.Data.List.TakeWhile

/-! Texts without the white space around them. Stripping a text leaves what begins and
ends with something else, and nothing but white space is lost. -/

namespace GameSave.Text

/-- What is left of a text without the white space at both ends. -/
structure StripsTo (text core : List Char) : Prop where
  around : ∃ front back, text = front ++ core ++ back ∧
    (∀ c ∈ front, isBlank c = true) ∧ ∀ c ∈ back, isBlank c = true
  first : ∀ c ∈ core.head?, isBlank c = false
  last : ∀ c ∈ core.getLast?, isBlank c = false

/-- A text without white space is its own core. -/
theorem StripsTo.refl {text : List Char} (h : ∀ c ∈ text, isBlank c = false) :
    StripsTo text text where
  around := ⟨[], [], by simp, by simp, by simp⟩
  first c hFirst := h c (List.mem_of_mem_head? hFirst)
  last c hLast := h c (List.mem_of_getLast? hLast)

theorem dropWhile_eq_self {α : Type} {p : α → Bool} {xs : List α}
    (h : ∀ x ∈ xs.head?, p x = false) : xs.dropWhile p = xs := by
  cases xs with
  | nil => rfl
  | cons x xs => exact List.dropWhile_cons_of_neg (by simpa using h)

theorem eq_false_of_head?_dropWhile {α : Type} {p : α → Bool} {xs : List α} {x : α}
    (h : x ∈ (xs.dropWhile p).head?) : p x = false := by
  have hHead := List.head?_dropWhile_not p xs
  rw [Option.mem_def.mp h] at hHead
  exact hHead

/-- What trimming leaves is a core. -/
theorem stripsTo_trim (text : List Char) : StripsTo text (trim text) := by
  let back := ((text.dropWhile isBlank).reverse.takeWhile isBlank).reverse
  have hBack : trim text ++ back = text.dropWhile isBlank := by
    rw [trim, ← List.reverse_append, List.takeWhile_append_dropWhile, List.reverse_reverse]
  refine ⟨⟨text.takeWhile isBlank, back, ?_, fun c => List.mem_takeWhile_imp, fun c hC => ?_⟩,
    fun c hFirst => ?_, fun c hLast => ?_⟩
  · rw [List.append_assoc, hBack, List.takeWhile_append_dropWhile]
  · exact List.mem_takeWhile_imp (List.mem_reverse.mp hC)
  · have hHead : c ∈ (text.dropWhile isBlank).head? := by
      rw [← hBack, List.head?_append, Option.mem_def.mp hFirst]
      rfl
    exact eq_false_of_head?_dropWhile hHead
  · rw [trim, List.getLast?_reverse] at hLast
    exact eq_false_of_head?_dropWhile hLast

/-- A text has only one core, and trimming finds it. -/
theorem StripsTo.trim_eq {text core : List Char} (h : StripsTo text core) : trim text = core := by
  obtain ⟨⟨front, back, rfl, hFront, hBack⟩, hFirst, hLast⟩ := h
  rw [trim, List.append_assoc, List.dropWhile_append_of_pos hFront]
  cases core with
  | nil =>
      rw [List.nil_append, List.dropWhile_eq_nil_iff.mpr hBack]
      rfl
  | cons c core =>
      have hStart : (c :: core ++ back).dropWhile isBlank = c :: core ++ back :=
        dropWhile_eq_self hFirst
      have hReverse : ∀ c ∈ back.reverse, isBlank c = true := by simpa using hBack
      have hEnd : (c :: core).reverse.dropWhile isBlank = (c :: core).reverse :=
        dropWhile_eq_self fun x hX => hLast x (by simpa only [List.head?_reverse] using hX)
      rw [hStart, List.reverse_append, List.dropWhile_append_of_pos hReverse, hEnd,
        List.reverse_reverse]

theorem isBlank_eq_false_of_isDigit {c : Char} (h : c.isDigit = true) : isBlank c = false := by
  have hDigit : 48 ≤ c.toNat ∧ c.toNat ≤ 57 := Char.isDigit_iff_toNat.mp h
  rw [isBlank, List.any_eq_false]
  simp only [blankRanges, List.mem_cons, List.not_mem_nil, or_false, Bool.and_eq_true,
    decide_eq_true_eq, not_and, not_le, forall_eq_or_imp, forall_eq]
  omega

end GameSave.Text
