import GameSave.Bytes

/-! Cuts of byte strings and of lists, and what is left of them when the parts
are put together again. A change of one byte falls on one side of every cut.
Little-endian digits determine their number, and the number determines the
digits once their count is known. -/

namespace GameSave

namespace Bytes

/-- A front of the right length is split off again. -/
@[simp] theorem split?_append {n : Nat} {front : Bytes} (rest : Bytes) (h : front.length = n) :
    split? n (front ++ rest) = some (front, rest) :=
  split?_eq_some_iff.mpr ⟨rfl, h⟩

theorem split?_eq_none {n : Nat} {bytes : Bytes} (h : bytes.length < n) :
    split? n bytes = none := by
  have hTake : ¬min n bytes.length = n := by omega
  simp [split?, List.splitAt_eq, hTake]

/-- What is left of bytes when some are missing at the end. -/
def IsCutOf (front whole : Bytes) : Prop := front <+: whole ∧ front ≠ whole

namespace IsCutOf

variable {front whole first second : Bytes}

/-- A cut is shorter than the whole. -/
theorem length_lt (h : IsCutOf front whole) : front.length < whole.length :=
  Nat.lt_of_le_of_ne h.1.length_le fun hSame => h.2 (h.1.eq_of_length hSame)

/-- A cut falls into the first part, or that is whole and the cut falls into the second. -/
theorem of_append (h : IsCutOf front (first ++ second)) :
    IsCutOf front first ∨ ∃ behind, front = first ++ behind ∧ IsCutOf behind second := by
  obtain ⟨hPrefix, hNe⟩ := h
  by_cases hShort : front.length < first.length
  · refine .inl ⟨?_, fun hSame => Nat.lt_irrefl _ (hSame ▸ hShort)⟩
    exact List.prefix_of_prefix_length_le hPrefix (List.prefix_append _ _) (Nat.le_of_lt hShort)
  · obtain ⟨behind, rfl⟩ : first <+: front :=
      List.prefix_of_prefix_length_le (List.prefix_append _ _) hPrefix (Nat.le_of_not_lt hShort)
    exact .inr ⟨behind, rfl, (List.prefix_append_right_inj first).mp hPrefix,
      fun hSame => hNe (congrArg (first ++ ·) hSame)⟩

end IsCutOf

/-- The second byte string is the first with exactly one byte changed. -/
inductive OneChanged : Bytes → Bytes → Prop where
  | head {a b : UInt8} (rest : Bytes) (hNe : a ≠ b) : OneChanged (a :: rest) (b :: rest)
  | tail (a : UInt8) {xs ys : Bytes} (h : OneChanged xs ys) : OneChanged (a :: xs) (a :: ys)

namespace OneChanged

/-- Another value at one place is one change. -/
theorem of_set {bytes : Bytes} {i : Nat} {v : UInt8} (hi : i < bytes.length)
    (hv : v ≠ bytes[i]) : OneChanged bytes (bytes.set i v) := by
  induction bytes generalizing i with
  | nil => simp at hi
  | cons b bytes ih =>
      cases i with
      | zero => exact .head bytes fun h => hv h.symm
      | succ i => exact .tail b (ih (by simpa using hi) hv)

theorem ne {xs ys : Bytes} (h : OneChanged xs ys) : xs ≠ ys := by
  induction h with
  | head rest hNe => exact fun h => hNe (List.cons.inj h).1
  | tail a h ih => exact fun h => ih (List.cons.inj h).2

theorem length_eq {xs ys : Bytes} (h : OneChanged xs ys) : xs.length = ys.length := by
  induction h with
  | head rest hNe => rfl
  | tail a h ih => rw [List.length_cons, List.length_cons, ih]

/-- The changed byte stands on one side of a cut. The other side is the same. -/
theorem split {xs ys : Bytes} (h : OneChanged xs ys) (n : Nat) :
    (OneChanged (xs.take n) (ys.take n) ∧ xs.drop n = ys.drop n) ∨
      (xs.take n = ys.take n ∧ OneChanged (xs.drop n) (ys.drop n)) := by
  induction h generalizing n with
  | head rest hNe =>
      cases n with
      | zero => exact .inr ⟨rfl, .head rest hNe⟩
      | succ n => exact .inl ⟨.head _ hNe, rfl⟩
  | tail a h ih =>
      cases n with
      | zero => exact .inr ⟨rfl, .tail a h⟩
      | succ n =>
          rcases ih n with ⟨hTake, hDrop⟩ | ⟨hTake, hDrop⟩
          · exact .inl ⟨.tail a hTake, hDrop⟩
          · exact .inr ⟨congrArg (List.cons a) hTake, hDrop⟩

/-- A change falls on one of two parts and leaves the other as it is. -/
theorem of_append {xs ys zs : Bytes} (h : OneChanged (xs ++ ys) zs) :
    (∃ xs', OneChanged xs xs' ∧ zs = xs' ++ ys) ∨ ∃ ys', OneChanged ys ys' ∧ zs = xs ++ ys' := by
  have hZs := List.take_append_drop xs.length zs
  rcases h.split xs.length with ⟨hTake, hDrop⟩ | ⟨hTake, hDrop⟩
  · rw [List.take_left] at hTake
    rw [List.drop_left] at hDrop
    exact .inl ⟨_, hTake, by rw [hDrop, hZs]⟩
  · rw [List.take_left] at hTake
    rw [List.drop_left] at hDrop
    exact .inr ⟨_, hDrop, by rw [← hZs, ← hTake]; simp⟩

end OneChanged

end Bytes

theorem map_map_eq_self {α β : Type} {f : β → α} {g : α → β} {xs : List α}
    (h : ∀ x ∈ xs, f (g x) = x) : (xs.map g).map f = xs := by
  induction xs with
  | nil => rfl
  | cons x xs ih =>
      rw [List.map_cons, List.map_cons, h x List.mem_cons_self,
        ih fun y hy => h y (List.mem_cons_of_mem x hy)]

theorem length_flatMap_of_length_eq {α β : Type} {f : α → List β} {size : Nat}
    (h : ∀ x, (f x).length = size) (xs : List α) : (xs.flatMap f).length = xs.length * size := by
  induction xs with
  | nil => simp
  | cons x xs ih =>
      rw [List.flatMap_cons, List.length_append, h, ih, List.length_cons, Nat.succ_mul,
        Nat.add_comm]

section Chunks

variable {α : Type}

/-- The pieces that are done already stay in front of those to come. -/
private theorem chunks_go_done (size fuel : Nat) (done : List (List α)) (xs : List α) :
    chunks.go size fuel done xs = done.reverse ++ chunks.go size fuel [] xs := by
  induction fuel generalizing done xs with
  | zero => simp [chunks.go]
  | succ fuel ih =>
      cases xs with
      | nil => simp [chunks.go]
      | cons x xs =>
          rw [chunks.go, chunks.go, ih, ih [_]]
          simp

/-- More steps than there are elements change nothing. -/
private theorem chunks_go_fuel {size : Nat} (hSize : 0 < size) (fuel : Nat) (xs : List α)
    (hFuel : xs.length ≤ fuel) : chunks.go size fuel [] xs = chunks size xs := by
  induction fuel using Nat.strongRecOn generalizing xs with
  | ind fuel ih =>
      cases xs with
      | nil => cases fuel <;> rfl
      | cons x xs =>
          cases fuel with
          | zero => simp at hFuel
          | succ fuel =>
              have hDrop : ((x :: xs).drop size).length ≤ xs.length := by
                simp only [List.length_drop, List.length_cons]
                omega
              have hXs : xs.length ≤ fuel := by simpa using hFuel
              rw [chunks, List.length_cons, chunks.go, chunks.go, chunks_go_done,
                chunks_go_done size xs.length, ih fuel (by omega) _ (Nat.le_trans hDrop hXs)]
              by_cases hEq : xs.length = fuel
              · rw [hEq, ih fuel (by omega) _ (Nat.le_trans hDrop hXs)]
              · rw [ih xs.length (by omega) _ hDrop]

@[simp] theorem chunks_nil (size : Nat) : chunks size ([] : List α) = [] := rfl

/-- The first group is cut off the front, and the others are those of the rest. -/
theorem chunks_eq_cons {size : Nat} (hSize : 0 < size) {xs : List α} (hXs : xs ≠ []) :
    chunks size xs = xs.take size :: chunks size (xs.drop size) := by
  cases xs with
  | nil => exact (hXs rfl).elim
  | cons x xs =>
      have hDrop : ((x :: xs).drop size).length ≤ xs.length := by
        simp only [List.length_drop, List.length_cons]
        omega
      rw [chunks, List.length_cons, chunks.go, chunks_go_done, chunks_go_fuel hSize _ _ hDrop]
      rfl

/-- Induction on a list that cuts groups off its front. -/
@[elab_as_elim]
theorem drop_induction {size : Nat} (hSize : 0 < size) {motive : List α → Prop}
    (nil : motive []) (group : ∀ xs, xs ≠ [] → motive (xs.drop size) → motive xs)
    (xs : List α) : motive xs := by
  induction hLength : xs.length using Nat.strongRecOn generalizing xs with
  | ind n ih =>
      by_cases hXs : xs = []
      · exact hXs ▸ nil
      · have hPos := List.length_pos_iff.mpr hXs
        refine group xs hXs (ih _ ?_ _ rfl)
        rw [List.length_drop]
        omega

/-- Pieces put together again are the whole. -/
theorem flatten_chunks {size : Nat} (hSize : 0 < size) (xs : List α) :
    (chunks size xs).flatten = xs := by
  induction xs using drop_induction hSize with
  | nil => rfl
  | group xs hXs ih => rw [chunks_eq_cons hSize hXs, List.flatten_cons, ih, List.take_append_drop]

/-- No group is empty, and none is longer than asked for. -/
theorem length_of_mem_chunks {size : Nat} (hSize : 0 < size) {xs group : List α}
    (h : group ∈ chunks size xs) : 0 < group.length ∧ group.length ≤ size := by
  induction xs using drop_induction hSize with
  | nil => simp at h
  | group xs hXs ih =>
      rw [chunks_eq_cons hSize hXs, List.mem_cons] at h
      rcases h with rfl | h
      · have hPos := List.length_pos_iff.mpr hXs
        rw [List.length_take]
        omega
      · exact ih h

/-- The groups hold all elements, so there are not fewer than the elements take. -/
theorem length_le_chunks {size : Nat} (hSize : 0 < size) (xs : List α) :
    xs.length ≤ size * (chunks size xs).length := by
  induction xs using drop_induction hSize with
  | nil => simp
  | group xs hXs ih =>
      rw [chunks_eq_cons hSize hXs, List.length_cons, Nat.mul_succ]
      rw [List.length_drop] at ih
      omega

/-- There are no more groups than the elements take. -/
theorem length_chunks {size : Nat} (hSize : 0 < size) (xs : List α) :
    (chunks size xs).length = (xs.length + size - 1) / size := by
  induction xs using drop_induction hSize with
  | nil => simp [Nat.div_eq_of_lt (by omega : size - 1 < size)]
  | group xs hXs ih =>
      have hPos := List.length_pos_iff.mpr hXs
      rw [chunks_eq_cons hSize hXs, List.length_cons, ih, List.length_drop]
      by_cases hLe : xs.length ≤ size
      · have hLast : (xs.length + size - 1) / size = 1 := by
          rw [Nat.div_eq_iff (by omega)]
          omega
        rw [hLast, Nat.div_eq_of_lt (by omega)]
      · have hSum : xs.length + size - 1 = xs.length - size + size - 1 + size := by omega
        rw [hSum, Nat.add_div_right _ hSize]

/-- Parts of one length are the groups of what they make up together. -/
theorem chunks_flatten {size : Nat} (hSize : 0 < size) {parts : List (List α)}
    (hParts : ∀ part ∈ parts, part.length = size) : chunks size parts.flatten = parts := by
  induction parts with
  | nil => rfl
  | cons part parts ih =>
      have hPart : part.length = size := hParts part List.mem_cons_self
      have hNe : part ++ parts.flatten ≠ [] := by
        intro h
        rw [List.append_eq_nil_iff] at h
        rw [h.1] at hPart
        simp only [List.length_nil] at hPart
        omega
      rw [List.flatten_cons, chunks_eq_cons hSize hNe, List.take_left' hPart,
        List.drop_left' hPart, ih fun part h => hParts part (List.mem_cons_of_mem _ h)]

end Chunks

namespace LittleEndian

theorem span_four : span 4 = UInt32.size := rfl

theorem toNat_lt_span (bytes : Bytes) : toNat bytes < span bytes.length := by
  induction bytes with
  | nil => simp [toNat, span]
  | cons b bytes ih =>
      have hByte : b.toNat < 256 := b.toNat_lt
      simp only [toNat, List.length_cons, span]
      omega

/-- A number that fits in the width is read back. -/
theorem toNat_ofNat_of_lt {width n : Nat} (h : n < span width) : toNat (ofNat width n) = n := by
  rw [toNat_ofNat, Nat.mod_eq_of_lt h]

/-- Digits of one count that stand for the same number are the same digits. -/
theorem eq_of_toNat_eq {a b : Bytes} (hLength : a.length = b.length) (h : toNat a = toNat b) :
    a = b := by
  induction a generalizing b with
  | nil => exact (List.length_eq_zero_iff.mp hLength.symm).symm
  | cons x a ih =>
      cases b with
      | nil => simp at hLength
      | cons y b =>
          have hX : x.toNat < 256 := x.toNat_lt
          have hY : y.toNat < 256 := y.toNat_lt
          simp only [toNat] at h
          have hHead : x = y := UInt8.toNat_inj.mp (by omega)
          rw [hHead, ih (by simpa using hLength) (by omega)]

/-- Four bytes are determined by the word that they hold. -/
theorem eq_of_toWord_eq {a b : Bytes} (hA : a.length = 4) (hB : b.length = 4)
    (h : toWord a = toWord b) : a = b := by
  have hLtA := toNat_lt_span a
  have hLtB := toNat_lt_span b
  rw [hA, span_four] at hLtA
  rw [hB, span_four] at hLtB
  apply eq_of_toNat_eq (hA.trans hB.symm)
  have hNat := congrArg UInt32.toNat h
  simpa only [toWord, UInt32.toNat_ofNat', Nat.mod_eq_of_lt hLtA, Nat.mod_eq_of_lt hLtB] using hNat

end LittleEndian

end GameSave
