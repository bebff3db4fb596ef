import GameSave.Column.Integer
import GameSave.Proofs.Column.Packing

/-! Columns of integers. The width that a column chooses holds all its numbers,
with or without a base taken away from them. -/

namespace GameSave

open Decoder

namespace IntegerForm

/-! ### Widths -/

/-- The widths that columns have in full. -/
def IsFull (full : Nat) : Prop := full = 4 ∨ full = 8

theorem widthFor_cases (greatest : Nat) : widthFor greatest = 1 ∨ widthFor greatest = 2 ∨
    widthFor greatest = 4 ∨ widthFor greatest = 8 := by
  unfold widthFor
  repeat' split
  all_goals simp

/-- The width that is chosen has room for the greatest value, unless it is the widest of all. -/
theorem lt_span_widthFor {greatest : Nat} (h : widthFor greatest < 8) :
    greatest < LittleEndian.span (widthFor greatest) := by
  unfold widthFor at h ⊢
  split
  · assumption
  · split
    · assumption
    · split
      · assumption
      · simp_all

/-- Halving the full width gives the width that is needed, if that is less. -/
theorem width?_halvingsFor {full : Nat} (hFull : IsFull full) (greatest : Nat) :
    halvingsFor full greatest < 128 ∧
      width? full (halvingsFor full greatest) = some (min full (widthFor greatest)) := by
  unfold halvingsFor
  rcases hFull with rfl | rfl
  all_goals
    rcases widthFor_cases greatest with h | h | h | h
    all_goals
      rw [h]
      decide

theorem width?_pos {full halvings width : Nat} (h : width? full halvings = some width) :
    0 < width := by
  unfold width? at h
  dsimp only at h
  split at h
  · cases h
  · next hNe =>
    rw [← Option.some.inj h]
    exact Nat.pos_of_ne_zero hNe

/-- Values that need more than four bytes are not narrowed. -/
theorem halvingsFor_eq_zero {full greatest : Nat} (hFull : IsFull full)
    (h : LittleEndian.span 4 ≤ greatest) : halvingsFor full greatest = 0 := by
  have hOne : LittleEndian.span 1 ≤ LittleEndian.span 4 := by decide
  have hTwo : LittleEndian.span 2 ≤ LittleEndian.span 4 := by decide
  have hWidth : widthFor greatest = 8 := by
    rw [widthFor, if_neg (by omega), if_neg (by omega), if_neg (by omega)]
  unfold halvingsFor
  rw [hWidth]
  rcases hFull with rfl | rfl <;> decide

/-- Every value has room in the width that is chosen for the greatest. -/
theorem lt_span_min {full greatest x : Nat} (hFull : IsFull full) (hLe : x ≤ greatest)
    (hLt : x < LittleEndian.span full) : x < LittleEndian.span (min full (widthFor greatest)) := by
  by_cases hWide : full ≤ widthFor greatest
  · rwa [Nat.min_eq_left hWide]
  · rw [Nat.min_eq_right (Nat.le_of_not_le hWide)]
    have hNarrow : widthFor greatest < 8 := by
      rcases hFull with rfl | rfl <;> omega
    exact Nat.lt_of_le_of_lt hLe (lt_span_widthFor hNarrow)

/-! ### Numbers of one width -/

/-- Numbers that fit in the width are read back, all of them. -/
theorem map_toNat_ofNat {width : Nat} {xs : List Nat}
    (hXs : ∀ x ∈ xs, x < LittleEndian.span width) :
    (xs.map (LittleEndian.ofNat width)).map LittleEndian.toNat = xs := by
  apply map_map_eq_self
  intro x hx
  exact LittleEndian.toNat_ofNat_of_lt (hXs x hx)

/-- Integers of a fixed width take up at least a bit each. -/
theorem length_le_write {width : Nat} (hPos : 0 < width) (xs : List Nat) :
    xs.length ≤ 8 * (write width xs).length := by
  unfold write
  split
  · have hBytes := Column.dense_byte (xs.map UInt8.ofNat)
    rwa [List.length_map] at hBytes
  · rw [length_flatMap_of_length_eq (LittleEndian.length_ofNat width)]
    have hMul := Nat.le_mul_of_pos_right xs.length hPos
    omega

/-- Numbers of one width are taken back. -/
theorem reads_read {width : Nat} (hPos : 0 < width) {xs : List Nat}
    (hXs : ∀ x ∈ xs, x < LittleEndian.span width) :
    Reads (read width xs.length) (write width xs) xs := by
  unfold read write
  by_cases hOne : width = 1
  · subst hOne
    simp only [if_true]
    have hBytes := reads_map (List.map UInt8.toNat) (Column.reads_bytes (xs.map UInt8.ofNat))
    have hBack : (xs.map UInt8.ofNat).map UInt8.toNat = xs := by
      apply map_map_eq_self
      intro x hx
      exact UInt8.toNat_ofNat_of_lt (hXs x hx)
    rw [List.length_map, hBack] at hBytes
    exact hBytes
  · simp only [if_neg hOne]
    have hParts : ∀ part ∈ xs.map (LittleEndian.ofNat width), part.length = width := by
      intro part hPart
      obtain ⟨x, -, rfl⟩ := List.mem_map.mp hPart
      exact LittleEndian.length_ofNat width x
    have hChunks := chunks_flatten hPos hParts
    rw [← List.append_nil (xs.flatMap _)]
    have hLength := length_flatMap_of_length_eq (LittleEndian.length_ofNat width) xs
    refine reads_bind (reads_take hLength) ?_
    rw [List.flatMap_def, hChunks, map_toNat_ofNat hXs]
    exact reads_pure xs

/-- As many integers are read as were asked for. -/
theorem makes_read {width : Nat} (hPos : 0 < width) (n : Nat) :
    Makes (read width n) fun xs => xs.length = n := by
  unfold read
  split
  · exact makes_map (Column.makes_bytes n) fun bytes hBytes => by rw [List.length_map, hBytes]
  · refine makes_bind (makes_take _) fun bytes hBytes => makes_pure ?_
    rw [List.length_map, length_chunks hPos, hBytes, Nat.div_eq_iff hPos]
    omega

end IntegerForm

namespace Column

open IntegerForm

/-! ### Columns -/

/-- The scale of a column of numbers suits them. -/
theorem suits_scaleFor {full : Nat} (hFull : IsFull full) (xs : List Nat) :
    (scaleFor full xs).Suits (halvingsFor full) xs := by
  unfold scaleFor
  dsimp only
  split
  · refine ⟨fun x _ => Nat.zero_le x, fun _ h => (nomatch h),
      (extremes xs).2 + LittleEndian.span 4, ?_, ?_⟩
    · exact (halvingsFor_eq_zero hFull (Nat.le_add_left _ _)).symm
    · intro x hx
      exact Nat.le_trans (extremes_le hx).2 (Nat.le_add_right _ _)
  · exact Scale.suits_choose _ _ _

/-- Integers are written in a frame that says which form they have. -/
theorem integer_write_of_ne_nil {full : Nat} {xs : List Nat} (hNe : xs ≠ []) {width : Nat}
    (hWidth : width? full (scaleFor full xs).rank = some width) :
    (integer full).write xs = (scaleFor full xs).frame full (IntegerForm.write width) xs := by
  simp only [integer, if_neg hNe, hWidth, Option.getD_some]
  exact Scale.frame_eq _ _ _ _

/-- The width of a column of numbers holds them all. -/
theorem exists_width {full : Nat} (hFull : IsFull full) {xs : List Nat}
    (hXs : ∀ x ∈ xs, x < LittleEndian.span full) : ∃ width, 0 < width ∧
      (scaleFor full xs).rank < 128 ∧ width? full (scaleFor full xs).rank = some width ∧
      ∀ x ∈ xs, x - (scaleFor full xs).base.getD 0 < LittleEndian.span width := by
  obtain ⟨greatest, hRank, hLe⟩ := (suits_scaleFor hFull xs).rank_eq
  obtain ⟨hSmall, hWidth⟩ := width?_halvingsFor hFull greatest
  rw [hRank]
  refine ⟨_, ?_, hSmall, hWidth, fun x hx => ?_⟩
  · rcases hFull with rfl | rfl
    all_goals
      rcases widthFor_cases greatest with h | h | h | h
      all_goals
        rw [h]
        decide
  · have hValue := hXs x hx
    exact lt_span_min hFull (hLe x hx) (by omega)

/-- Integers take up at least a bit each, also those that are packed. -/
theorem dense_integer {full : Nat} (hFull : IsFull full) {xs : List Nat}
    (hXs : ∀ x ∈ xs, x < LittleEndian.span full) :
    xs.length ≤ 8 * ((integer full).write xs).length := by
  by_cases hNe : xs = []
  · simp [hNe]
  · obtain ⟨width, hPos, -, hWidth, -⟩ := exists_width hFull hXs
    have hNumbers := length_le_write hPos
      (xs.map fun x => x - (scaleFor full xs).base.getD 0)
    rw [List.length_map] at hNumbers
    rw [integer_write_of_ne_nil hNe hWidth, Scale.frame, List.length_append]
    omega

/-- Numbers that fit into the full width are taken back. -/
theorem reads_integer {full : Nat} (hFull : IsFull full) {xs : List Nat}
    (hXs : ∀ x ∈ xs, x < LittleEndian.span full) :
    Reads ((integer full).read xs.length) ((integer full).write xs) xs := by
  by_cases hNe : xs = []
  · subst hNe
    exact reads_pure []
  · obtain ⟨width, hPos, hRank, hWidth, hLt⟩ := exists_width hFull hXs
    have hSuits := suits_scaleFor hFull xs
    rw [integer_write_of_ne_nil hNe hWidth]
    generalize scaleFor full xs = scale at hRank hWidth hLt hSuits
    have hNumbers := IntegerForm.reads_read hPos (List.forall_mem_map.mpr hLt)
    rw [List.length_map] at hNumbers
    have hBack : (xs.map fun x => x - scale.base.getD 0).map
        (fun x => (x + scale.base.getD 0) % LittleEndian.span full) = xs := by
      apply map_map_eq_self
      intro x hx
      rw [Nat.sub_add_cancel (hSuits.base_le x hx), Nat.mod_eq_of_lt (hXs x hx)]
    have hLength : ¬xs.length = 0 := fun h => hNe (List.eq_nil_of_length_eq_zero h)
    simp only [integer, if_neg hLength]
    refine hSuits.reads_frame hNe hRank hXs ?_
    rw [hWidth, ← List.append_nil (IntegerForm.write width _),
      ← List.nil_append (IntegerForm.write width _ ++ [])]
    refine reads_bind (reads_ofOption width) (reads_bind hNumbers ?_)
    rw [hBack]
    exact reads_pure xs

/-- Words fit in four bytes. -/
theorem toNat_lt_of_mem (xs : List UInt32) :
    ∀ x ∈ xs.map UInt32.toNat, x < LittleEndian.span 4 := by
  intro x hx
  obtain ⟨w, -, rfl⟩ := List.mem_map.mp hx
  exact w.toNat_lt

/-- Whatever the form, as many integers are read as were asked for. -/
theorem makes_integer (full n : Nat) : Makes ((integer full).read n) fun xs => xs.length = n := by
  by_cases hNone : n = 0
  · subst hNone
    exact makes_pure rfl
  · simp only [integer, if_neg hNone]
    refine makes_bind (makes_any _) fun scale _ => ?_
    have hWidth : Makes (ofOption (width? full scale.rank)) fun width => 0 < width :=
      makes_ofOption fun width h => width?_pos h
    refine makes_bind hWidth fun width hPos => ?_
    refine makes_bind (makes_read hPos n) fun values hValues => makes_pure ?_
    rw [List.length_map, hValues]

theorem dense_word (xs : List UInt32) : xs.length ≤ 8 * (word.write xs).length := by
  have hNumbers := dense_integer (.inl rfl) (toNat_lt_of_mem xs)
  rwa [List.length_map] at hNumbers

/-- Words are read back, whatever form they were written in. -/
theorem reads_words (xs : List UInt32) : Reads (word.read xs.length) (word.write xs) xs := by
  have hNumbers := reads_map (List.map UInt32.ofNat)
    (reads_integer (.inl rfl) (toNat_lt_of_mem xs))
  have hBack : UInt32.ofNat ∘ UInt32.toNat = id := funext fun w => UInt32.ofNat_toNat
  rw [List.length_map, List.map_map, hBack, List.map_id] at hNumbers
  exact hNumbers

theorem makes_words (n : Nat) : Makes (word.read n) fun xs => xs.length = n :=
  makes_map (makes_integer 4 n) fun numbers hNumbers => by rw [List.length_map, hNumbers]

/-- Nothing is counted in words, which are always read back. -/
theorem countedBy_word : word.CountedBy [] := countedBy_nil dense_word reads_words makes_words

end Column

end GameSave
