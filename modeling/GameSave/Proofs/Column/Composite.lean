import GameSave.Column.Composite
import GameSave.Proofs.Column.Integer
import GameSave.Proofs.StringMap

/-! Columns of values that vary in size. The parts of all values together are
cut again where the lengths say. -/

namespace GameSave

open Decoder

/-! ### Lengths -/

namespace Lengths

/-- A short length stands for itself, and the mark for the next of the long ones. -/
theorem fill_cons (b : UInt8) (short : List UInt8) (long : List Nat) :
    fill (b :: short) long =
      if b.toNat = mark then long.headD 0 :: fill short long.tail
      else b.toNat :: fill short long := by
  have hFill (xs : List Nat) : ((b :: short).mapM next).run xs =
      ((((next b).run xs).1 :: ((short.mapM next).run ((next b).run xs).2).1),
        ((short.mapM next).run ((next b).run xs).2).2) := by
    rw [List.mapM_cons]
    rfl
  simp only [fill, hFill]
  by_cases hMark : b.toNat = mark
  · have hNext : (next b).run long = (long.headD 0, long.tail) := by
      show (if b.toNat = mark then (long.headD 0, long.tail) else (b.toNat, long)) = _
      rw [if_pos hMark]
    rw [hNext, if_pos hMark]
  · have hNext : (next b).run long = (b.toNat, long) := by
      show (if b.toNat = mark then (long.headD 0, long.tail) else (b.toNat, long)) = _
      rw [if_neg hMark]
    rw [hNext, if_neg hMark]

/-- The byte of a length. -/
def shorten (n : Nat) : UInt8 := UInt8.ofNat (min n mark)

/-- A short form never exceeds the mark. -/
theorem toNat_shorten (n : Nat) : (shorten n).toNat = min n mark := by
  have hLt : min n mark < 256 := by
    have hMark : mark < 256 := by decide
    omega
  exact UInt8.toNat_ofNat_of_lt hLt

/-- The long lengths go back to the places of their marks. -/
theorem fill_shorten (lengths : List Nat) :
    fill (lengths.map shorten) (lengths.filter fun n => mark ≤ n) = lengths := by
  induction lengths with
  | nil => rfl
  | cons n lengths ih =>
      rw [List.map_cons, fill_cons, toNat_shorten]
      by_cases hLong : mark ≤ n
      · rw [List.filter_cons_of_pos (by simpa using hLong), if_pos (Nat.min_eq_right hLong)]
        simp only [List.headD_cons, List.tail_cons, ih]
      · rw [List.filter_cons_of_neg (by simpa using hLong), if_neg (by omega), ih,
          Nat.min_eq_left (by omega)]

/-- The marks are as many as the lengths that are written at full width. -/
theorem countP_shorten (lengths : List Nat) :
    (lengths.map shorten).countP (fun b => b.toNat = mark) =
      (lengths.filter fun n => mark ≤ n).length := by
  rw [List.countP_map, ← List.countP_eq_length_filter]
  apply List.countP_congr
  intro n _
  simp only [Function.comp_apply, toNat_shorten, decide_eq_true_eq]
  omega

theorem le_total {lengths : List Nat} {n : Nat} (h : n ∈ lengths) : n ≤ total lengths := by
  induction lengths with
  | nil => simp at h
  | cons m lengths ih =>
      rw [total_cons]
      rcases List.mem_cons.mp h with rfl | h
      · omega
      · have hLe := ih h
        omega

/-- Lengths take up at least a bit each. -/
theorem dense_write (lengths : List Nat) : lengths.length ≤ 8 * (write lengths).length := by
  have hBytes := Column.dense_byte (lengths.map shorten)
  rw [List.length_map] at hBytes
  simp only [write, List.length_append]
  show lengths.length ≤ 8 * ((Column.byte.write (lengths.map shorten)).length + _)
  omega

/-- Takes `n` lengths back, whatever their sum is. -/
def readUnbounded (n : Nat) : Decoder (List Nat) := do
  let short ← Column.byte.read n
  let long ← (Column.integer 8).read (short.countP fun b => b.toNat = mark)
  return fill short long

/-- The bound on the total is checked once all lengths are there. -/
theorem read_eq (n : Nat) : read n = readUnbounded n >>= fun lengths =>
    if total lengths < limit then pure lengths else failure := by
  simp [read, readUnbounded]

/-- Without the bound, lengths of eight bytes are read back. -/
theorem reads_readUnbounded {lengths : List Nat} (h : ∀ n ∈ lengths, n < LittleEndian.span 8) :
    Reads (readUnbounded lengths.length) (write lengths) lengths := by
  have hLong : ∀ n ∈ lengths.filter (fun n => mark ≤ n), n < LittleEndian.span 8 :=
    fun n hn => h n (List.mem_filter.mp hn).1
  have hShortRead := Column.reads_bytes (lengths.map shorten)
  have hLongRead := Column.reads_integer (.inr rfl) hLong
  rw [List.length_map] at hShortRead
  rw [← countP_shorten] at hLongRead
  unfold readUnbounded write
  rw [← List.append_nil ((Column.integer 8).write _)]
  refine reads_bind hShortRead (reads_bind hLongRead ?_)
  rw [fill_shorten]
  exact reads_pure lengths

/-- Lengths are taken back, if their sum is bounded. -/
theorem reads_read {lengths : List Nat} (hTotal : total lengths < limit) :
    Reads (read lengths.length) (write lengths) lengths := by
  have hSpan : limit < LittleEndian.span 8 := by decide
  have hLengths : ∀ n ∈ lengths, n < LittleEndian.span 8 := by
    intro n hn
    have hLe := le_total hn
    omega
  rw [read_eq, ← List.append_nil (write lengths)]
  refine reads_bind (reads_readUnbounded hLengths) ?_
  rw [if_pos hTotal]
  exact reads_pure lengths

theorem length_fill (short : List UInt8) (long : List Nat) :
    (fill short long).length = short.length := by
  induction short generalizing long with
  | nil => rfl
  | cons b short ih =>
      rw [fill_cons]
      split
      · rw [List.length_cons, List.length_cons, ih]
      · rw [List.length_cons, List.length_cons, ih]

/-- No lengths are taken but as many as were asked for, with a bounded sum. -/
theorem makes_read (n : Nat) :
    Makes (read n) fun lengths => lengths.length = n ∧ total lengths < limit := by
  refine makes_bind (Column.makes_bytes n) fun short hShort => ?_
  refine makes_bind (makes_any _) fun long _ => ?_
  dsimp only
  split
  · next hTotal => exact makes_pure ⟨by rw [length_fill, hShort], hTotal⟩
  · rintro _ _ _ ⟨⟩

end Lengths

/-! ### Cuts -/

theorem cutAt_cons {α : Type} (n : Nat) (lengths : List Nat) (xs : List α) :
    cutAt (n :: lengths) xs = xs.take n :: cutAt lengths (xs.drop n) := by
  have hCut : ((n :: lengths).mapM takeFront).run xs =
      ((((takeFront n).run xs).1 :: ((lengths.mapM takeFront).run ((takeFront n).run xs).2).1),
        ((lengths.mapM takeFront).run ((takeFront n).run xs).2).2) := by
    rw [List.mapM_cons]
    rfl
  have hFront : (takeFront n).run xs = (xs.take n, xs.drop n) := by
    show xs.splitAt n = _
    rw [List.splitAt_eq]
  simp only [cutAt, hCut, hFront]

/-- Parts that are put together are cut apart again. -/
theorem cutAt_flatten {α : Type} (parts : List (List α)) :
    cutAt (parts.map List.length) parts.flatten = parts := by
  induction parts with
  | nil => rfl
  | cons part parts ih =>
      rw [List.map_cons, List.flatten_cons, cutAt_cons, List.take_left, List.drop_left, ih]

theorem length_cutAt {α : Type} (lengths : List Nat) (xs : List α) :
    (cutAt lengths xs).length = lengths.length := by
  induction lengths generalizing xs with
  | nil => rfl
  | cons n lengths ih => rw [cutAt_cons, List.length_cons, List.length_cons, ih]

/-- Parts that are cut apart everywhere are all there. -/
theorem flatten_cutAt {α : Type} {lengths : List Nat} {xs : List α}
    (h : xs.length = Lengths.total lengths) : (cutAt lengths xs).flatten = xs := by
  induction lengths generalizing xs with
  | nil => exact (List.eq_nil_of_length_eq_zero h).symm
  | cons n lengths ih =>
      rw [Lengths.total_cons] at h
      have hRest : (xs.drop n).length = Lengths.total lengths := by
        rw [List.length_drop]
        omega
      rw [cutAt_cons, List.flatten_cons, ih hRest, List.take_append_drop]

namespace StringMap

variable {β : Type}

/-- An entry that is put into a map adds at most its own weight to the map's. -/
theorem total_insertEntry_le (weight : String × β → Nat) (key : String) (value : β)
    (entries : List (String × β)) :
    Lengths.total ((insertEntry key value entries).map weight) ≤
      Lengths.total (entries.map weight) + weight (key, value) := by
  induction entries with
  | nil => exact Nat.le_of_eq (Nat.add_comm _ _)
  | cons entry entries ih =>
      rw [insertEntry]
      split
      · simp only [List.map_cons, Lengths.total_cons]
        omega
      · split
        · simp only [List.map_cons, Lengths.total_cons]
          omega
        · simp only [List.map_cons, Lengths.total_cons]
          omega

/-- Entries add no more than their own weights, since some of them may replace others. -/
theorem total_foldl_insert_le (weight : String × β → Nat) (entries : List (String × β))
    (m : StringMap β) :
    Lengths.total ((entries.foldl (fun m entry => m.insert entry.1 entry.2) m).toList.map weight) ≤
      Lengths.total (m.toList.map weight) + Lengths.total (entries.map weight) := by
  induction entries generalizing m with
  | nil => exact Nat.le_refl _
  | cons entry entries ih =>
      have hEntry : Lengths.total ((m.insert entry.1 entry.2).toList.map weight) ≤
          Lengths.total (m.toList.map weight) + weight entry :=
        total_insertEntry_le weight entry.1 entry.2 m.toList
      have hRest := ih (m.insert entry.1 entry.2)
      rw [List.foldl_cons, List.map_cons, Lengths.total_cons]
      omega

/-- A map weighs no more than the entries that it is made of, some of which it may leave out. -/
theorem total_ofList_le (weight : String × β → Nat) (entries : List (String × β)) :
    Lengths.total ((ofList entries).toList.map weight) ≤ Lengths.total (entries.map weight) := by
  have hLe := total_foldl_insert_le weight entries empty
  exact Nat.le_trans hLe (Nat.le_of_eq (Nat.zero_add _))

end StringMap

namespace Column

variable {α : Type}

/-! ### Columns -/

/-- Texts are read back from their bytes, all of them. -/
theorem mapM_decode?_encode (xs : List String) :
    (xs.map Text.Utf8.encode).mapM Text.Utf8.decode? = some xs := by
  induction xs with
  | nil => rfl
  | cons x xs ih => simp [ih]

theorem map_encode_of_mapM {parts : List Bytes} {xs : List String}
    (h : parts.mapM Text.Utf8.decode? = some xs) : xs.map Text.Utf8.encode = parts := by
  induction parts generalizing xs with
  | nil =>
      cases h
      rfl
  | cons part parts ih =>
      rw [List.mapM_cons] at h
      obtain ⟨x, hX, h⟩ := Option.bind_eq_some_iff.mp h
      obtain ⟨rest, hRest, h⟩ := Option.bind_eq_some_iff.mp h
      cases h
      rw [List.map_cons, ih hRest, Text.Utf8.encode_of_decode? hX]

/-- Of texts as many bytes are counted as are stored. -/
theorem total_text (xs : List String) :
    Lengths.total (xs.map Text.Utf8.size) = (xs.map Text.Utf8.encode).flatten.length := by
  rw [← Lengths.total_map_length, List.map_map]
  rfl

/-- Texts are written as the lengths of all, and then the bytes of all. -/
theorem countedBy_text : text.CountedBy Counts.text where
  dense xs := by
    have hLengths := Lengths.dense_write ((xs.map Text.Utf8.encode).map List.length)
    simp only [text, List.length_append, List.length_map] at hLengths ⊢
    omega
  count_le count hCount xs := by
    obtain rfl := List.mem_singleton.mp hCount
    rw [total_text]
    simp only [text, List.length_append]
    omega
  reads xs hFit := by
    have hCount := hFit _ List.mem_cons_self
    rw [total_text, ← Lengths.total_map_length] at hCount
    have hLengths := Lengths.reads_read hCount
    have hTotal := Lengths.total_map_length (xs.map Text.Utf8.encode)
    simp only [List.length_map] at hLengths
    have hTexts := mapM_decode?_encode xs
    simp only [text]
    rw [← List.append_nil (xs.map Text.Utf8.encode).flatten]
    refine reads_bind hLengths (reads_bind (reads_take hTotal.symm) ?_)
    rw [cutAt_flatten, hTexts]
    exact reads_ofOption xs
  makes n := by
    refine makes_bind (Lengths.makes_read n) fun lengths ⟨hLength, hTotal⟩ => ?_
    refine makes_bind (makes_take _) fun bytes hBytes => makes_ofOption fun xs hXs => ?_
    have hParts := map_encode_of_mapM hXs
    constructor
    · rw [← hLength, ← length_cutAt lengths bytes, ← hParts, List.length_map]
    · intro count hCount
      obtain rfl := List.mem_singleton.mp hCount
      rwa [total_text, hParts, flatten_cutAt hBytes, hBytes]

theorem count_isSome (xs : List (Option α)) :
    (xs.map Option.isSome).count true = (xs.filterMap id).length := by
  induction xs with
  | nil => rfl
  | cons x xs ih => cases x <;> simp [ih]

/-- Values that are present go back to their places. -/
theorem cutAt_filterMap (xs : List (Option α)) :
    (cutAt ((xs.map Option.isSome).map Bool.toNat) (xs.filterMap id)).map List.head? = xs := by
  induction xs with
  | nil => rfl
  | cons x xs ih =>
      cases x with
      | none => simpa [cutAt_cons] using ih
      | some value => simpa [cutAt_cons] using ih

/-- Values that are handed out to the places where one is present are all there, in order. -/
theorem filterMap_cutAt {present : List Bool} {values : List α}
    (h : values.length = present.count true) :
    ((cutAt (present.map Bool.toNat) values).map List.head?).filterMap id = values := by
  induction present generalizing values with
  | nil => exact (List.eq_nil_of_length_eq_zero h).symm
  | cons b present ih =>
      rw [List.map_cons, cutAt_cons, List.map_cons]
      cases b with
      | false =>
          rw [List.count_cons_of_ne (by decide)] at h
          show List.filterMap id (none :: (cutAt _ values).map List.head?) = _
          rw [List.filterMap_cons_none rfl, ih h]
      | true =>
          rw [List.count_cons_self] at h
          obtain ⟨value, values, rfl⟩ := List.exists_cons_of_length_eq_add_one h
          have hRest : values.length = present.count true := Nat.succ.inj h
          show List.filterMap id (some value :: (cutAt _ values).map List.head?) = _
          rw [List.filterMap_cons_some (by rfl), ih hRest]

/-- Options are written as flags, and then the values that are there. -/
theorem countedBy_option {c : Column α} {counts : Counts α} (h : c.CountedBy counts) :
    (option c).CountedBy counts.option where
  dense xs := by
    have hFlags := dense_flag (xs.map Option.isSome)
    simp only [option, List.length_append, List.length_map] at hFlags ⊢
    omega
  count_le count hCount xs := by
    obtain ⟨count, hMem, rfl⟩ := List.mem_map.mp hCount
    have hLe := h.count_le count hMem (xs.filterMap id)
    rw [Lengths.total_map_filterMap] at hLe
    simp only [option, List.length_append]
    omega
  reads xs hFit := by
    have hFlags := reads_flags (xs.map Option.isSome)
    have hValues := h.reads (xs.filterMap id) (Counts.fit_option_iff.mp hFit)
    have hCut := cutAt_filterMap xs
    rw [List.length_map] at hFlags
    rw [← count_isSome] at hValues
    simp only [option]
    rw [← List.append_nil (c.write _)]
    refine reads_bind hFlags (reads_bind hValues ?_)
    rw [hCut]
    exact reads_pure xs
  makes n := by
    refine makes_bind (makes_flags n) fun present hPresent => ?_
    refine makes_bind (h.makes _) fun values ⟨hValues, hFit⟩ => makes_pure ⟨?_, ?_⟩
    · rw [List.length_map, length_cutAt, List.length_map, hPresent]
    · rwa [Counts.fit_option_iff, filterMap_cutAt hValues]

/-- Lists are written as their lengths, and then the elements of all. -/
theorem countedBy_list {c : Column α} {counts : Counts α} (h : c.CountedBy counts) :
    (list c).CountedBy counts.list where
  dense xs := by
    have hLengths := Lengths.dense_write (xs.map List.length)
    simp only [list, List.length_append, List.length_map] at hLengths ⊢
    omega
  count_le count hCount xs := by
    simp only [list, List.length_append]
    rcases List.mem_cons.mp hCount with rfl | hCount
    · -- An element takes a bit at least, so a short column cannot have too many of them.
      have hDense := h.dense xs.flatten
      rw [Lengths.total_map_length]
      omega
    · obtain ⟨count, hMem, rfl⟩ := List.mem_map.mp hCount
      have hLe := h.count_le count hMem xs.flatten
      rw [Lengths.total_map_flatten] at hLe
      omega
  reads xs hFit := by
    obtain ⟨hCount, hFits⟩ := Counts.fit_list_iff.mp hFit
    have hTotal := Lengths.total_map_length xs
    have hLengths := Lengths.reads_read hCount
    have hElements := h.reads xs.flatten hFits
    rw [List.length_map] at hLengths
    rw [← hTotal] at hElements
    simp only [list]
    rw [← List.append_nil (c.write _)]
    refine reads_bind hLengths (reads_bind hElements ?_)
    rw [cutAt_flatten]
    exact reads_pure xs
  makes n := by
    refine makes_bind (Lengths.makes_read n) fun lengths ⟨hLength, hTotal⟩ => ?_
    refine makes_bind (h.makes _) fun elements ⟨hElements, hFit⟩ => makes_pure ⟨?_, ?_⟩
    · rw [length_cutAt, hLength]
    · rw [Counts.fit_list_iff, Lengths.total_map_length, flatten_cutAt hElements, hElements]
      exact ⟨hTotal, hFit⟩

/-- Entries that were put into a map count no more than before. -/
theorem count_ofList_le (counts : Counts α) :
    ∀ count ∈ (Counts.text.prod counts).list, ∀ entries,
      count (StringMap.ofList entries).toList ≤ count entries := by
  intro count hCount entries
  rcases List.mem_cons.mp hCount with rfl | hCount
  · rw [← Lengths.total_map_one, ← Lengths.total_map_one]
    exact StringMap.total_ofList_le _ entries
  · obtain ⟨count, -, rfl⟩ := List.mem_map.mp hCount
    exact StringMap.total_ofList_le count entries

end Column

end GameSave
