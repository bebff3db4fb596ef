import GameSave.Column.Packing
import GameSave.Proofs.Column.Counts

/-! Packed symbols and columns of bytes. Symbols that fit a packing are the
digits of the bytes that they are packed into, and the form that a column of
bytes chooses holds all its values. -/

namespace GameSave

open Decoder

namespace Packing

/-! ### Digits -/

/-- How many numbers have at most `count` digits. -/
def capacity (radix : Nat) : (count : Nat) → Nat
  | 0 => 1
  | count + 1 => radix * capacity radix count

theorem capacity_pos {radix : Nat} (hRadix : 0 < radix) (count : Nat) :
    0 < capacity radix count := by
  induction count with
  | zero => exact Nat.one_pos
  | succ count ih => exact Nat.mul_pos hRadix ih

/-- A number of some digits is below the capacity for as many. -/
theorem ofDigits_lt {radix count : Nat} {ds : List Nat} (hRadix : 0 < radix)
    (hLength : ds.length ≤ count) (hDigits : ∀ d ∈ ds, d < radix) :
    ofDigits radix ds < capacity radix count := by
  induction ds generalizing count with
  | nil => exact capacity_pos hRadix count
  | cons d ds ih =>
      cases count with
      | zero => simp at hLength
      | succ count =>
          have hDigit := hDigits d List.mem_cons_self
          have hRest := ih (Nat.le_of_succ_le_succ hLength)
            fun x hx => hDigits x (List.mem_cons_of_mem _ hx)
          calc ofDigits radix (d :: ds) = d + radix * ofDigits radix ds := rfl
            _ < radix + radix * ofDigits radix ds := Nat.add_lt_add_right hDigit _
            _ = radix * (ofDigits radix ds + 1) := by rw [Nat.mul_succ, Nat.add_comm]
            _ ≤ radix * capacity radix count := Nat.mul_le_mul_left radix hRest

theorem digits_zero (radix count : Nat) : digits radix count 0 = List.replicate count 0 := by
  induction count with
  | zero => rfl
  | succ count ih => simp [digits, ih, List.replicate_succ]

/-- Digits are found again, with zeros where there were none. -/
theorem digits_ofDigits {radix count : Nat} {ds : List Nat} (hLength : ds.length ≤ count)
    (hDigits : ∀ d ∈ ds, d < radix) :
    digits radix count (ofDigits radix ds) = ds ++ List.replicate (count - ds.length) 0 := by
  induction ds generalizing count with
  | nil => exact digits_zero radix count
  | cons d ds ih =>
      cases count with
      | zero => simp at hLength
      | succ count =>
          have hDigit := hDigits d List.mem_cons_self
          have hRest := ih (Nat.le_of_succ_le_succ hLength)
            fun x hx => hDigits x (List.mem_cons_of_mem _ hx)
          have hValue : ofDigits radix (d :: ds) = d + radix * ofDigits radix ds := rfl
          have hQuotient : (d + radix * ofDigits radix ds) / radix = ofDigits radix ds := by
            rw [Nat.add_mul_div_left _ _ (by omega), Nat.div_eq_of_lt hDigit, Nat.zero_add]
          rw [digits, hValue, Nat.add_mul_mod_self_left, Nat.mod_eq_of_lt hDigit, hQuotient, hRest,
            List.length_cons, Nat.add_sub_add_right, List.cons_append]

/-! ### Bytes -/

theorem radix_pos (p : Packing) : 0 < p.radix := by cases p <;> decide

theorem perByte_pos (p : Packing) : 0 < p.perByte := by cases p <;> decide

theorem perByte_le (p : Packing) : p.perByte ≤ 8 := by cases p <;> decide

/-- What a packing puts into a byte fits in it. -/
theorem capacity_le (p : Packing) : capacity p.radix p.perByte ≤ 256 := by cases p <;> decide

theorem length_pack (p : Packing) (symbols : List Nat) :
    (p.pack symbols).length = p.bytesFor symbols.length := by
  rw [pack, List.length_map, length_chunks p.perByte_pos, bytesFor]

/-- Symbols take up at least a bit each. -/
theorem length_le_pack (p : Packing) (symbols : List Nat) :
    symbols.length ≤ 8 * (p.pack symbols).length := by
  have hChunks := length_le_chunks p.perByte_pos symbols
  have hPerByte := Nat.mul_le_mul_right (chunks p.perByte symbols).length p.perByte_le
  rw [pack, List.length_map]
  omega

/-- The digits of a byte are the symbols that were laid into it. -/
theorem digits_byte (p : Packing) {group : List Nat} (hLength : group.length ≤ p.perByte)
    (hSymbols : ∀ s ∈ group, s < p.radix) :
    digits p.radix p.perByte (UInt8.ofNat (ofDigits p.radix group)).toNat =
      group ++ List.replicate (p.perByte - group.length) 0 := by
  have hLt := ofDigits_lt p.radix_pos hLength hSymbols
  have hByte := p.capacity_le
  rw [UInt8.toNat_ofNat', Nat.mod_eq_of_lt (by omega), digits_ofDigits hLength hSymbols]

/-- Symbols are unpacked again, and what fills up the last byte is dropped. -/
theorem take_digits_pack (p : Packing) {symbols : List Nat}
    (hSymbols : ∀ s ∈ symbols, s < p.radix) :
    ((p.pack symbols).flatMap fun b => digits p.radix p.perByte b.toNat).take symbols.length =
      symbols := by
  induction symbols using drop_induction p.perByte_pos with
  | nil => rfl
  | group symbols hNe ih =>
      have hTake : (symbols.take p.perByte).length ≤ p.perByte := by
        rw [List.length_take]
        omega
      have hGroup := p.digits_byte hTake fun s hs => hSymbols s (List.mem_of_mem_take hs)
      have hRest := ih fun s hs => hSymbols s (List.mem_of_mem_drop hs)
      rw [pack, chunks_eq_cons p.perByte_pos hNe, List.map_cons, List.flatMap_cons, hGroup]
      by_cases hLast : symbols.length ≤ p.perByte
      · have hDrop : symbols.drop p.perByte = [] := List.drop_eq_nil_of_le hLast
        rw [hDrop, List.take_of_length_le hLast, chunks_nil, List.map_nil, List.flatMap_nil,
          List.append_nil, List.take_left]
      · have hFull : (symbols.take p.perByte).length = p.perByte := by
          rw [List.length_take]
          omega
        rw [hFull, Nat.sub_self, List.replicate_zero, List.append_nil, List.take_append, hFull,
          List.take_of_length_le (by omega), ← List.length_drop]
        rw [pack] at hRest
        rw [hRest, List.take_append_drop]

/-- Packed symbols are taken back out. -/
theorem reads_unpack (p : Packing) {symbols : List Nat} (hSymbols : ∀ s ∈ symbols, s < p.radix) :
    Reads (p.unpack symbols.length) (p.pack symbols) symbols := by
  have hBytes : Reads (p.unpack symbols.length) (p.pack symbols ++ [])
      (((p.pack symbols).flatMap fun b => digits p.radix p.perByte b.toNat).take symbols.length) :=
    reads_bind (reads_take (p.length_pack symbols)) (reads_pure _)
  rw [p.take_digits_pack hSymbols, List.append_nil] at hBytes
  exact hBytes

theorem length_digits (radix count n : Nat) : (digits radix count n).length = count := by
  induction count generalizing n with
  | zero => rfl
  | succ count ih => rw [digits, List.length_cons, ih]

/-- There are enough bytes for all symbols. -/
theorem le_bytesFor_mul (p : Packing) (n : Nat) : n ≤ p.bytesFor n * p.perByte := by
  cases p <;> simp only [bytesFor, perByte] <;> omega

/-- As many symbols are unpacked as were asked for. -/
theorem makes_unpack (p : Packing) (n : Nat) :
    Makes (p.unpack n) fun symbols => symbols.length = n := by
  refine makes_bind (makes_take _) fun bytes hBytes => makes_pure ?_
  have hDigits := length_flatMap_of_length_eq
    (fun b : UInt8 => length_digits p.radix p.perByte b.toNat) bytes
  have hRoom := p.le_bytesFor_mul n
  rw [List.length_take, hDigits, hBytes, Nat.min_eq_left hRoom]

/-- The packing for the greatest symbol has room for all others. -/
theorem lt_radix_forGreatest {n greatest : Nat} (hLe : n ≤ greatest) (h : n < 256) :
    n < (forGreatest greatest).radix := by
  unfold forGreatest
  repeat' split
  all_goals simp only [radix]; omega

theorem rank_le (p : Packing) : p.rank ≤ 5 := by cases p <;> decide

end Packing

namespace Scale

/-! ### Scales -/

/-- What stands behind the first byte of a column. -/
def baseBytes (width : Nat) (s : Scale) : Bytes :=
  match s.base with
  | some base => LittleEndian.ofNat width base
  | none => []

/-- The first bytes of a column tell the scale. Only a scale that is not the widest has a base. -/
theorem reads_read {width : Nat} {s : Scale} (hRank : s.rank < 128)
    (hBase : ∀ base, s.base = some base → 0 < s.rank ∧ base < LittleEndian.span width) :
    Reads (read width) (s.code :: s.baseBytes width) s := by
  obtain ⟨rank, base⟩ := s
  dsimp only at hRank hBase
  cases base with
  | none =>
      have hCode : (code ⟨rank, none⟩).toNat = 2 * rank := by
        simp only [code, Option.isSome_none, Bool.false_eq_true, if_false, UInt8.toNat_ofNat']
        omega
      have hRankBack : (2 * rank + 1) / 2 = rank := by omega
      refine reads_bind (reads_byte _) ?_
      dsimp only
      rw [hCode, hRankBack, if_neg (by omega)]
      exact reads_pure _
  | some base =>
      obtain ⟨hPos, hLt⟩ := hBase base rfl
      have hCode : (code ⟨rank, some base⟩).toNat = 2 * rank - 1 := by
        simp only [code, Option.isSome_some, if_true, UInt8.toNat_ofNat']
        omega
      have hRankBack : (2 * rank - 1 + 1) / 2 = rank := by omega
      refine reads_bind (reads_byte _) ?_
      dsimp only
      rw [hCode, hRankBack, if_pos (by omega), ← List.append_nil (LittleEndian.ofNat width base)]
      exact reads_bind (reads_number hLt) (reads_pure _)

end Scale

/-- All values lie between the extremes. -/
theorem extremes_le {xs : List Nat} {x : Nat} (h : x ∈ xs) :
    (extremes xs).1 ≤ x ∧ x ≤ (extremes xs).2 := by
  cases xs with
  | nil => simp at h
  | cons y xs =>
      exact ⟨(List.min?_eq_some_iff.mp List.min?_cons').2 x h,
        (List.max?_eq_some_iff.mp List.max?_cons').2 x h⟩

namespace Scale

/-- A scale suits some values: its base can be taken away from each of them, and what is left is
not greater than what its rank is for. -/
structure Suits (s : Scale) (rankFor : Nat → Nat) (values : List Nat) : Prop where
  base_le : ∀ x ∈ values, s.base.getD 0 ≤ x
  rank_pos : ∀ base, s.base = some base → 0 < s.rank
  rank_eq : ∃ greatest, s.rank = rankFor greatest ∧ ∀ x ∈ values, x - s.base.getD 0 ≤ greatest

/-- The scale that is chosen for some values suits them. -/
theorem suits_choose (rankFor : Nat → Nat) (count : Nat) (values : List Nat) :
    (choose rankFor count (extremes values).1 (extremes values).2).Suits rankFor values := by
  unfold choose
  dsimp only
  split
  · next h =>
    refine ⟨fun x hx => (extremes_le hx).1, fun _ _ => Nat.zero_lt_of_lt h.2, _, rfl, ?_⟩
    intro x hx
    have hLe := (extremes_le hx).2
    simp only [Option.getD_some]
    omega
  · refine ⟨fun x _ => Nat.zero_le x, fun _ h => (nomatch h), _, rfl, ?_⟩
    intro x hx
    exact (extremes_le hx).2

/-- Values behind the scale that they are stored in. -/
def frame (width : Nat) (s : Scale) (write : List Nat → Bytes) (values : List Nat) : Bytes :=
  s.code :: s.baseBytes width ++ write (values.map fun x => x - s.base.getD 0)

/-- With or without a base, what is written is one kind of frame. -/
theorem frame_eq (width : Nat) (s : Scale) (write : List Nat → Bytes) (values : List Nat) :
    (match s.base with
      | some base => s.code :: LittleEndian.ofNat width base ++ write (values.map fun x => x - base)
      | none => s.code :: write values) = s.frame width write values := by
  obtain ⟨rank, base⟩ := s
  cases base with
  | none => simp [frame, baseBytes]
  | some base => simp [frame, baseBytes]

/-- Shifted back, the values are as they were. -/
theorem Suits.map_shift {s : Scale} {rankFor : Nat → Nat} {values : List Nat}
    (h : s.Suits rankFor values) :
    (values.map fun x => x - s.base.getD 0).map (fun x => x + s.base.getD 0) = values := by
  apply map_map_eq_self
  intro x hx
  exact Nat.sub_add_cancel (h.base_le x hx)

/-- A base is below every bound of the values, and no scale of rank zero has one. -/
theorem Suits.base_lt {s : Scale} {rankFor : Nat → Nat} {values : List Nat}
    (h : s.Suits rankFor values) (hNe : values ≠ []) {bound : Nat}
    (hValues : ∀ x ∈ values, x < bound) {base : Nat} (hBase : s.base = some base) :
    0 < s.rank ∧ base < bound := by
  obtain ⟨x, hx⟩ := List.exists_mem_of_ne_nil values hNe
  have hLe := h.base_le x hx
  rw [hBase, Option.getD_some] at hLe
  exact ⟨h.rank_pos base hBase, Nat.lt_of_le_of_lt hLe (hValues x hx)⟩

/-- What is read behind the scale is read behind the values that it was chosen for. -/
theorem Suits.reads_frame {s : Scale} {rankFor : Nat → Nat} {values : List Nat}
    (h : s.Suits rankFor values) (hNe : values ≠ []) (hRank : s.rank < 128) {width : Nat}
    (hValues : ∀ x ∈ values, x < LittleEndian.span width) {write : List Nat → Bytes} {β : Type}
    {next : Scale → Decoder β} {y : β}
    (hNext : Reads (next s) (write (values.map fun x => x - s.base.getD 0)) y) :
    Reads (read width >>= next) (s.frame width write values) y := by
  have hScale : Reads (read width) (s.code :: s.baseBytes width) s :=
    reads_read hRank fun base hBase => h.base_lt hNe hValues hBase
  exact reads_bind hScale hNext

end Scale

namespace Column

open Packing

/-! ### Columns -/

/-- The scale of a column of bytes. -/
def byteScale (values : List Nat) : Scale :=
  Scale.choose (fun n => (forGreatest n).rank) values.length (extremes values).1
    (extremes values).2

/-- More than two bytes are written in a frame that says how they are packed. -/
theorem byte_write_of_lt {xs : List UInt8} (h : 2 < xs.length) {packing : Packing}
    (hRank : (byteScale (xs.map UInt8.toNat)).rank = packing.rank) :
    byte.write xs =
      (byteScale (xs.map UInt8.toNat)).frame 1 packing.pack (xs.map UInt8.toNat) := by
  have hPacking : (ofRank? (byteScale (xs.map UInt8.toNat)).rank).getD .bytes = packing := by
    rw [hRank, ofRank?_rank, Option.getD_some]
  have hWrite : byte.write xs = (byteScale (xs.map UInt8.toNat)).frame 1
      ((ofRank? (byteScale (xs.map UInt8.toNat)).rank).getD .bytes).pack (xs.map UInt8.toNat) := by
    simp only [byte, if_neg (Nat.not_le.mpr h)]
    exact Scale.frame_eq 1 (byteScale (xs.map UInt8.toNat))
      ((ofRank? (byteScale (xs.map UInt8.toNat)).rank).getD .bytes).pack (xs.map UInt8.toNat)
  rw [hWrite, hPacking]

/-- The scale of some bytes is that of a packing in which all of them have room. -/
theorem exists_packing (values : List Nat) : ∃ packing : Packing,
    (byteScale values).rank = packing.rank ∧ ∀ x ∈ values, x < 256 →
      x - (byteScale values).base.getD 0 < packing.radix := by
  obtain ⟨greatest, hRank, hLe⟩ := (Scale.suits_choose (fun n => (forGreatest n).rank)
    values.length values).rank_eq
  refine ⟨forGreatest greatest, hRank, fun x hx hByte => ?_⟩
  exact lt_radix_forGreatest (hLe x hx) (Nat.lt_of_le_of_lt (Nat.sub_le _ _) hByte)

/-- Bytes take up at least a bit each, also those that are packed. -/
theorem dense_byte (xs : List UInt8) : xs.length ≤ 8 * (byte.write xs).length := by
  by_cases hShort : xs.length ≤ 2
  · simp only [byte, if_pos hShort]
    omega
  · obtain ⟨packing, hRank, -⟩ := exists_packing (xs.map UInt8.toNat)
    have hPack := packing.length_le_pack
      ((xs.map UInt8.toNat).map fun x => x - (byteScale (xs.map UInt8.toNat)).base.getD 0)
    simp only [List.length_map] at hPack
    rw [byte_write_of_lt (Nat.lt_of_not_le hShort) hRank, Scale.frame, List.length_append]
    omega

/-- More than two bytes are read back from their frame. -/
theorem reads_byte_of_lt {xs : List UInt8} (hLong : 2 < xs.length) :
    Reads (byte.read xs.length) (byte.write xs) xs := by
  obtain ⟨packing, hRank, hRadix⟩ := exists_packing (xs.map UInt8.toNat)
  rw [byte_write_of_lt hLong hRank]
  have hBytes : ∀ x ∈ xs.map UInt8.toNat, x < LittleEndian.span 1 := by
    intro x hx
    obtain ⟨b, -, rfl⟩ := List.mem_map.mp hx
    exact b.toNat_lt
  have hSuits : (byteScale (xs.map UInt8.toNat)).Suits _ (xs.map UInt8.toNat) :=
    Scale.suits_choose _ _ _
  have hNe : xs.map UInt8.toNat ≠ [] := by
    intro hNil
    rw [List.map_eq_nil_iff] at hNil
    simp [hNil] at hLong
  generalize byteScale (xs.map UInt8.toNat) = scale at hRank hRadix hSuits
  have hRankLe := packing.rank_le
  have hSymbols := packing.reads_unpack
    (List.forall_mem_map.mpr fun x hx => hRadix x hx (hBytes x hx))
  simp only [List.length_map] at hSymbols
  have hBack : ((xs.map UInt8.toNat).map fun x => x - scale.base.getD 0).map
      (fun x => UInt8.ofNat (x + scale.base.getD 0)) = xs := by
    have hShift := congrArg (List.map UInt8.ofNat) hSuits.map_shift
    simpa [List.map_map, Function.comp_def] using hShift
  simp only [byte, if_neg (Nat.not_le.mpr hLong)]
  refine hSuits.reads_frame hNe (by omega) hBytes ?_
  rw [hRank, ofRank?_rank, ← List.append_nil (packing.pack _),
    ← List.nil_append (packing.pack _ ++ [])]
  refine reads_bind (reads_ofOption packing) (reads_bind hSymbols ?_)
  rw [hBack]
  exact reads_pure xs

/-- Bytes are read back, however they are packed. -/
theorem reads_bytes (xs : List UInt8) : Reads (byte.read xs.length) (byte.write xs) xs := by
  by_cases hShort : xs.length ≤ 2
  · simp only [byte, if_pos hShort]
    exact reads_take rfl
  · exact reads_byte_of_lt (Nat.lt_of_not_le hShort)

/-- As many bytes are read as were asked for. -/
theorem makes_bytes (n : Nat) : Makes (byte.read n) fun xs => xs.length = n := by
  by_cases hShort : n ≤ 2
  · simp only [byte, if_pos hShort]
    exact makes_take n
  · simp only [byte, if_neg hShort]
    refine makes_bind (makes_any _) fun scale _ => makes_bind (makes_any _) fun packing _ => ?_
    refine makes_bind (packing.makes_unpack n) fun values hValues => makes_pure ?_
    rw [List.length_map, hValues]

theorem dense_flag (xs : List Bool) : xs.length ≤ 8 * (flag.write xs).length := by
  have hPack := Packing.bits.length_le_pack (xs.map Bool.toNat)
  rwa [List.length_map] at hPack

/-- Flags are read back, eight from a byte. -/
theorem reads_flags (xs : List Bool) : Reads (flag.read xs.length) (flag.write xs) xs := by
  have hBits : ∀ s ∈ xs.map Bool.toNat, s < Packing.bits.radix := by
    intro s hs
    obtain ⟨b, -, rfl⟩ := List.mem_map.mp hs
    cases b <;> decide
  have hRead := reads_map (List.map fun symbol => symbol == 1) (Packing.bits.reads_unpack hBits)
  have hBack : (fun symbol => symbol == 1) ∘ Bool.toNat = id := by
    funext b
    cases b <;> rfl
  rw [List.length_map, List.map_map, hBack, List.map_id] at hRead
  exact hRead

theorem makes_flags (n : Nat) : Makes (flag.read n) fun xs => xs.length = n :=
  makes_map (Packing.bits.makes_unpack n) fun symbols hSymbols => by rw [List.length_map, hSymbols]

/-- Nothing is counted in truth values, which are always read back. -/
theorem countedBy_flag : flag.CountedBy [] :=
  countedBy_nil dense_flag reads_flags makes_flags

end Column

end GameSave
