import GameSave.Checksum
import GameSave.Proofs.Bytes

/-! Checksums separate byte strings of one length that differ in one byte. Each
step of the algorithm is a bijection of the word that it changes, so that a
difference, once it is there, is never lost again. -/

namespace GameSave.Checksum

open Bytes

/-! ### Steps on words -/

/-- A rotation puts the high bits below the low ones, as numbers without overlap. -/
private theorem toNat_rotate {n : UInt32} (hPos : 0 < n.toNat) (hLt : n.toNat < 32) (w : UInt32) :
    (rotate w n).toNat = (w.toNat % (1 <<< (32 - n.toNat))) <<< n.toNat +
      w.toNat >>> (32 - n.toNat) := by
  have hSub : ((32 : UInt32) - n).toNat = 32 - n.toNat :=
    UInt32.toNat_sub_of_le _ _ (UInt32.le_iff_toNat_le.mpr (Nat.le_of_lt hLt))
  have hPow : 2 ^ 32 = 2 ^ (32 - n.toNat) * 2 ^ n.toNat := by
    rw [← Nat.pow_add, Nat.sub_add_cancel (Nat.le_of_lt hLt)]
  have hHigh : w.toNat / 2 ^ (32 - n.toNat) < 2 ^ n.toNat := by
    apply Nat.div_lt_of_lt_mul
    rw [← hPow]
    exact w.toNat_lt
  rw [Nat.one_shiftLeft, Nat.shiftLeft_eq, Nat.shiftRight_eq_div_pow, Nat.mul_comm (_ % _)]
  rw [rotate, UInt32.toNat_or, UInt32.toNat_shiftLeft, UInt32.toNat_shiftRight, hSub,
    Nat.mod_eq_of_lt hLt, Nat.mod_eq_of_lt (by omega : 32 - n.toNat < 32), Nat.shiftLeft_eq,
    Nat.shiftRight_eq_div_pow, hPow, Nat.mul_mod_mul_right, Nat.mul_comm _ (2 ^ n.toNat),
    ← Nat.two_pow_add_eq_or_of_lt hHigh]

/-- A rotation keeps all bits: the two parts that it exchanges can be read off again. -/
theorem rotate_injective {n : UInt32} (hPos : 0 < n.toNat) (hLt : n.toNat < 32) {a b : UInt32}
    (h : rotate a n = rotate b n) : a = b := by
  have hNat := congrArg UInt32.toNat h
  simp only [toNat_rotate hPos hLt, Nat.shiftLeft_eq, Nat.one_mul,
    Nat.shiftRight_eq_div_pow, Nat.mul_comm (_ % _)] at hNat
  have hHigh (w : UInt32) : w.toNat / 2 ^ (32 - n.toNat) < 2 ^ n.toNat := by
    apply Nat.div_lt_of_lt_mul
    rw [← Nat.pow_add, Nat.sub_add_cancel (Nat.le_of_lt hLt)]
    exact w.toNat_lt
  have hDiv := congrArg (· / 2 ^ n.toNat) hNat
  have hMod := congrArg (· % 2 ^ n.toNat) hNat
  simp only [Nat.mul_add_mod, Nat.mod_eq_of_lt (hHigh _)] at hMod
  simp only [Nat.mul_add_div (Nat.two_pow_pos _), Nat.div_eq_of_lt (hHigh _), Nat.add_zero] at hDiv
  apply UInt32.toNat_inj.mp
  rw [← Nat.div_add_mod a.toNat (2 ^ (32 - n.toNat)), ← Nat.div_add_mod b.toNat, hDiv, hMod]

/-- A multiplication with an invertible word can be undone. -/
theorem mul_injective {p q a b : UInt32} (hInverse : p * q = 1) (h : a * p = b * p) : a = b := by
  have hBack (w : UInt32) : w * p * q = w := by
    rw [UInt32.mul_assoc, hInverse, UInt32.mul_one]
  rw [← hBack a, h, hBack b]

/-- Mixing the high bits of a word into its low bits loses nothing: the difference of two words
with one image would be its own upper part. -/
theorem xorShift_injective {n : UInt32} (hPos : 0 < n.toNat) (hLt : n.toNat < 32) {a b : UInt32}
    (h : a ^^^ (a >>> n) = b ^^^ (b >>> n)) : a = b := by
  have hSelf : a ^^^ b = (a ^^^ b) >>> n := by
    rw [UInt32.shiftRight_xor]
    apply (UInt32.xor_right_inj (a >>> n)).mp
    rw [← UInt32.xor_assoc, ← UInt32.xor_assoc, UInt32.xor_self, UInt32.zero_xor,
      UInt32.xor_comm _ a, h, UInt32.xor_comm b, UInt32.xor_assoc, UInt32.xor_self,
      UInt32.xor_zero]
  have hNat := congrArg UInt32.toNat hSelf
  rw [UInt32.toNat_shiftRight, Nat.mod_eq_of_lt hLt, Nat.shiftRight_eq_div_pow] at hNat
  have hZero : (a ^^^ b).toNat = 0 := by
    apply Classical.byContradiction
    intro hNe
    have hDiv := Nat.div_lt_self (Nat.pos_of_ne_zero hNe) (Nat.one_lt_two_pow (Nat.ne_of_gt hPos))
    omega
  exact UInt32.xor_eq_zero_iff.mp (UInt32.toNat_inj.mp hZero)

private theorem prime1_inverse : prime1 * 244002641 = 1 := by decide

private theorem prime2_inverse : prime2 * 3066638151 = 1 := by decide

private theorem prime3_inverse : prime3 * 2828982549 = 1 := by decide

private theorem prime4_inverse : prime4 * 2701016015 = 1 := by decide

private theorem prime5_inverse : prime5 * 2923004241 = 1 := by decide

/-! ### Lanes -/

/-- A round never forgets what was in its lane. -/
theorem round_injective_lane {a b w : UInt32} (h : round a w = round b w) : a = b :=
  (UInt32.add_left_inj _).mp <|
    rotate_injective (by decide) (by decide) (mul_injective prime1_inverse h)

/-- A round never forgets the word that it takes in. -/
theorem round_injective_word {lane a b : UInt32} (h : round lane a = round lane b) : a = b :=
  mul_injective prime2_inverse <| (UInt32.add_right_inj _).mp <|
    rotate_injective (by decide) (by decide) (mul_injective prime1_inverse h)

/-- Exactly one of the four lanes is different. -/
inductive Lanes.OneChanged : Lanes → Lanes → Prop where
  | first {a b : UInt32} (x y z : UInt32) (hNe : a ≠ b) : OneChanged ⟨a, x, y, z⟩ ⟨b, x, y, z⟩
  | second {a b : UInt32} (x y z : UInt32) (hNe : a ≠ b) : OneChanged ⟨x, a, y, z⟩ ⟨x, b, y, z⟩
  | third {a b : UInt32} (x y z : UInt32) (hNe : a ≠ b) : OneChanged ⟨x, y, a, z⟩ ⟨x, y, b, z⟩
  | fourth {a b : UInt32} (x y z : UInt32) (hNe : a ≠ b) : OneChanged ⟨x, y, z, a⟩ ⟨x, y, z, b⟩

namespace Lanes.OneChanged

/-- The same stripe keeps the difference in its lane. -/
theorem absorb {l m : Lanes} (h : OneChanged l m) (w0 w1 w2 w3 : UInt32) :
    OneChanged (l.absorb w0 w1 w2 w3) (m.absorb w0 w1 w2 w3) := by
  cases h with
  | first x y z hNe => exact .first _ _ _ fun h => hNe (round_injective_lane h)
  | second x y z hNe => exact .second _ _ _ fun h => hNe (round_injective_lane h)
  | third x y z hNe => exact .third _ _ _ fun h => hNe (round_injective_lane h)
  | fourth x y z hNe => exact .fourth _ _ _ fun h => hNe (round_injective_lane h)

/-- One changed summand changes the sum of the lanes. -/
theorem merge_ne {l m : Lanes} (h : OneChanged l m) : l.merge ≠ m.merge := by
  cases h with
  | first x y z hNe =>
      simp only [merge, ne_eq, UInt32.add_left_inj]
      exact fun h => hNe (rotate_injective (by decide) (by decide) h)
  | second x y z hNe =>
      simp only [merge, ne_eq, UInt32.add_left_inj, UInt32.add_right_inj]
      exact fun h => hNe (rotate_injective (by decide) (by decide) h)
  | third x y z hNe =>
      simp only [merge, ne_eq, UInt32.add_left_inj, UInt32.add_right_inj]
      exact fun h => hNe (rotate_injective (by decide) (by decide) h)
  | fourth x y z hNe =>
      simp only [merge, ne_eq, UInt32.add_right_inj]
      exact fun h => hNe (rotate_injective (by decide) (by decide) h)

end Lanes.OneChanged

/-! ### Stripes -/

/-- The word that begins at a position. -/
def wordAt (bytes : Bytes) (position : Nat) : UInt32 :=
  LittleEndian.toWord ((bytes.drop position).take 4)

/-- The changed byte stands in the word at a position, or behind it. -/
theorem wordAt_cases (position : Nat) {xs ys : Bytes}
    (h : OneChanged (xs.drop position) (ys.drop position)) (hLength : position + 4 ≤ xs.length) :
    (wordAt xs position ≠ wordAt ys position ∧ xs.drop (position + 4) = ys.drop (position + 4)) ∨
      (wordAt xs position = wordAt ys position ∧
        OneChanged (xs.drop (position + 4)) (ys.drop (position + 4))) := by
  have hSame := h.length_eq
  simp only [List.length_drop] at hSame
  have hX : ((xs.drop position).take 4).length = 4 := by
    rw [List.length_take, List.length_drop]
    omega
  have hY : ((ys.drop position).take 4).length = 4 := by
    rw [List.length_take, List.length_drop]
    omega
  rw [← List.drop_drop, ← List.drop_drop]
  rcases h.split 4 with ⟨hTake, hDrop⟩ | ⟨hTake, hDrop⟩
  · exact .inl ⟨fun hWord => hTake.ne (LittleEndian.eq_of_toWord_eq hX hY hWord), hDrop⟩
  · exact .inr ⟨congrArg LittleEndian.toWord hTake, hDrop⟩

/-- A word depends only on the bytes from its place on. -/
theorem wordAt_eq_of_drop_eq {xs ys : Bytes} {position : Nat}
    (h : xs.drop position = ys.drop position) (later : Nat) (hLe : position ≤ later) :
    wordAt xs later = wordAt ys later := by
  obtain ⟨distance, rfl⟩ := Nat.exists_eq_add_of_le hLe
  rw [wordAt, wordAt, ← List.drop_drop, ← List.drop_drop, h]

/-- The lanes after the first stripe of a byte string. -/
def Lanes.absorbFirst (l : Lanes) (bytes : Bytes) : Lanes :=
  l.absorb (wordAt bytes 0) (wordAt bytes 4) (wordAt bytes 8) (wordAt bytes 12)

/-- As long as there is a whole stripe, it is taken in first. -/
theorem absorbStripes_of_le {bytes : Bytes} (h : 16 ≤ bytes.length) (l : Lanes) :
    absorbStripes l bytes = absorbStripes (l.absorbFirst bytes) (bytes.drop 16) := by
  fun_cases absorbStripes l bytes with
  | case1 => rfl
  | case2 l bytes hShort =>
      refine (hShort bytes[0] bytes[1] bytes[2] bytes[3] bytes[4] bytes[5] bytes[6] bytes[7]
        bytes[8] bytes[9] bytes[10] bytes[11] bytes[12] bytes[13] bytes[14] bytes[15]
        (bytes.drop 16) ?_).elim
      simp only [List.getElem_cons_drop, List.drop_zero]

theorem absorbStripes_of_lt {bytes : Bytes} (h : bytes.length < 16) (l : Lanes) :
    absorbStripes l bytes = (l, bytes) := by
  fun_cases absorbStripes l bytes with
  | case1 =>
      simp only [List.length_cons] at h
      omega
  | case2 => rfl

/-- A changed byte in the first stripe changes exactly the lane that takes it in. -/
theorem Lanes.absorbFirst_cases {xs ys : Bytes} (h : Bytes.OneChanged xs ys)
    (hLength : 16 ≤ xs.length) (l : Lanes) :
    (OneChanged (l.absorbFirst xs) (l.absorbFirst ys) ∧ xs.drop 16 = ys.drop 16) ∨
      (l.absorbFirst xs = l.absorbFirst ys ∧ Bytes.OneChanged (xs.drop 16) (ys.drop 16)) := by
  have later {position : Nat} (hDrop : xs.drop position = ys.drop position) {q : Nat}
      (hLe : position ≤ q) : xs.drop q = ys.drop q := by
    obtain ⟨distance, rfl⟩ := Nat.exists_eq_add_of_le hLe
    rw [← List.drop_drop, ← List.drop_drop, hDrop]
  simp only [absorbFirst, absorb]
  rcases wordAt_cases 0 h (by omega) with ⟨hWord, hDrop⟩ | ⟨hFirst, h⟩
  · rw [wordAt_eq_of_drop_eq hDrop 4 (by omega),
      wordAt_eq_of_drop_eq hDrop 8 (by omega),
      wordAt_eq_of_drop_eq hDrop 12 (by omega)]
    exact .inl ⟨.first _ _ _ fun h => hWord (round_injective_word h), later hDrop (by omega)⟩
  rcases wordAt_cases 4 h (by omega) with ⟨hWord, hDrop⟩ | ⟨hSecond, h⟩
  · rw [hFirst, wordAt_eq_of_drop_eq hDrop 8 (by omega),
      wordAt_eq_of_drop_eq hDrop 12 (by omega)]
    exact .inl ⟨.second _ _ _ fun h => hWord (round_injective_word h), later hDrop (by omega)⟩
  rcases wordAt_cases 8 h (by omega) with ⟨hWord, hDrop⟩ | ⟨hThird, h⟩
  · rw [hFirst, hSecond, wordAt_eq_of_drop_eq hDrop 12 (by omega)]
    exact .inl ⟨.third _ _ _ fun h => hWord (round_injective_word h), later hDrop (by omega)⟩
  rcases wordAt_cases 12 h (by omega) with ⟨hWord, hDrop⟩ | ⟨hFourth, h⟩
  · rw [hFirst, hSecond, hThird]
    exact .inl ⟨.fourth _ _ _ fun h => hWord (round_injective_word h), hDrop⟩
  · rw [hFirst, hSecond, hThird, hFourth]
    exact .inr ⟨rfl, h⟩

/-- The same stripes keep a difference of one lane. -/
theorem absorbStripes_oneChanged {l m : Lanes} (h : Lanes.OneChanged l m) (bytes : Bytes) :
    Lanes.OneChanged (absorbStripes l bytes).1 (absorbStripes m bytes).1 ∧
      (absorbStripes l bytes).2 = (absorbStripes m bytes).2 := by
  induction bytes using drop_induction (by decide : 0 < 16) generalizing l m with
  | nil => exact ⟨h, rfl⟩
  | group bytes _ ih =>
      by_cases hLong : 16 ≤ bytes.length
      · rw [absorbStripes_of_le hLong l, absorbStripes_of_le hLong m]
        exact ih (h.absorb _ _ _ _)
      · have hShort : bytes.length < 16 := by omega
        rw [absorbStripes_of_lt hShort, absorbStripes_of_lt hShort]
        exact ⟨h, rfl⟩

/-- The changed byte reaches one lane, or it is among the bytes that are left after the
stripes. -/
theorem absorbStripes_cases {xs ys : Bytes} (h : OneChanged xs ys) (l : Lanes) :
    (Lanes.OneChanged (absorbStripes l xs).1 (absorbStripes l ys).1 ∧
        (absorbStripes l xs).2 = (absorbStripes l ys).2) ∨
      ((absorbStripes l xs).1 = (absorbStripes l ys).1 ∧
        OneChanged (absorbStripes l xs).2 (absorbStripes l ys).2) := by
  induction xs using drop_induction (by decide : 0 < 16) generalizing ys l with
  | nil => cases h
  | group xs _ ih =>
      by_cases hLong : 16 ≤ xs.length
      · have hLongY : 16 ≤ ys.length := h.length_eq ▸ hLong
        rw [absorbStripes_of_le hLong l, absorbStripes_of_le hLongY l]
        rcases l.absorbFirst_cases h hLong with ⟨hLanes, hDrop⟩ | ⟨hLanes, hDrop⟩
        · rw [hDrop]
          exact .inl (absorbStripes_oneChanged hLanes _)
        · rw [hLanes]
          exact ih hDrop _
      · have hShort : xs.length < 16 := by omega
        have hShortY : ys.length < 16 := h.length_eq ▸ hShort
        rw [absorbStripes_of_lt hShort, absorbStripes_of_lt hShortY]
        exact .inr ⟨rfl, h⟩

/-! ### The rest -/

/-- Words behind the last stripe forget nothing of what was mixed before. -/
theorem mixWord_injective {h g w : UInt32} (hEq : mixWord h w = mixWord g w) : h = g :=
  (UInt32.add_left_inj _).mp <|
    rotate_injective (by decide) (by decide) (mul_injective prime4_inverse hEq)

/-- Different words lead to different hashes. -/
theorem mixWord_injective_word {h v w : UInt32} (hEq : mixWord h v = mixWord h w) : v = w :=
  mul_injective prime3_inverse <| (UInt32.add_right_inj _).mp <|
    rotate_injective (by decide) (by decide) (mul_injective prime4_inverse hEq)

theorem mixByte_injective {h g : UInt32} {b : UInt8} (hEq : mixByte h b = mixByte g b) : h = g :=
  (UInt32.add_left_inj _).mp <|
    rotate_injective (by decide) (by decide) (mul_injective prime1_inverse hEq)

theorem mixByte_injective_byte {h : UInt32} {a b : UInt8} (hEq : mixByte h a = mixByte h b) :
    a = b := by
  have hWord : a.toUInt32 = b.toUInt32 :=
    mul_injective prime5_inverse <| (UInt32.add_right_inj _).mp <|
      rotate_injective (by decide) (by decide) (mul_injective prime1_inverse hEq)
  exact UInt8.toUInt32_inj.mp hWord

theorem mixRest_of_le {bytes : Bytes} (hLength : 4 ≤ bytes.length) (h : UInt32) :
    mixRest h bytes = mixRest (mixWord h (wordAt bytes 0)) (bytes.drop 4) := by
  fun_cases mixRest h bytes with
  | case1 => rfl
  | case2 h bytes hShort =>
      refine (hShort bytes[0] bytes[1] bytes[2] bytes[3] (bytes.drop 4) ?_).elim
      simp only [List.getElem_cons_drop, List.drop_zero]

theorem mixRest_of_lt {bytes : Bytes} (hLength : bytes.length < 4) (h : UInt32) :
    mixRest h bytes = bytes.foldl mixByte h := by
  fun_cases mixRest h bytes with
  | case1 =>
      simp only [List.length_cons] at hLength
      omega
  | case2 => rfl

theorem foldl_mixByte_injective {h g : UInt32} (bytes : Bytes)
    (hEq : bytes.foldl mixByte h = bytes.foldl mixByte g) : h = g := by
  induction bytes generalizing h g with
  | nil => exact hEq
  | cons b bytes ih => exact mixByte_injective (ih hEq)

/-- A change to one of the last bytes shows, whatever comes behind it. -/
theorem foldl_mixByte_ne {xs ys : Bytes} (hChanged : OneChanged xs ys) (h : UInt32) :
    xs.foldl mixByte h ≠ ys.foldl mixByte h := by
  induction hChanged generalizing h with
  | head rest hNe =>
      exact fun hEq => hNe (mixByte_injective_byte (foldl_mixByte_injective rest hEq))
  | tail a _ ih => exact ih (mixByte h a)

/-- What is left behind the stripes forgets nothing of what was mixed before. -/
theorem mixRest_injective {h g : UInt32} (bytes : Bytes)
    (hEq : mixRest h bytes = mixRest g bytes) : h = g := by
  induction bytes using drop_induction (by decide : 0 < 4) generalizing h g with
  | nil => exact hEq
  | group bytes _ ih =>
      by_cases hLong : 4 ≤ bytes.length
      · rw [mixRest_of_le hLong h, mixRest_of_le hLong g] at hEq
        exact mixWord_injective (ih hEq)
      · have hShort : bytes.length < 4 := by omega
        rw [mixRest_of_lt hShort, mixRest_of_lt hShort] at hEq
        exact foldl_mixByte_injective bytes hEq

/-- A change to what is left behind the stripes shows. -/
theorem mixRest_ne {xs ys : Bytes} (hChanged : OneChanged xs ys) (h : UInt32) :
    mixRest h xs ≠ mixRest h ys := by
  induction xs using drop_induction (by decide : 0 < 4) generalizing ys h with
  | nil => cases hChanged
  | group xs _ ih =>
      by_cases hLong : 4 ≤ xs.length
      · have hLongY : 4 ≤ ys.length := hChanged.length_eq ▸ hLong
        rw [mixRest_of_le hLong h, mixRest_of_le hLongY h]
        rcases wordAt_cases 0 hChanged (by omega) with ⟨hWord, hDrop⟩ | ⟨hWord, hDrop⟩
        · rw [Nat.zero_add] at hDrop
          rw [hDrop]
          exact fun hEq => hWord (mixWord_injective_word (mixRest_injective _ hEq))
        · rw [hWord]
          exact ih hDrop _
      · have hShort : xs.length < 4 := by omega
        have hShortY : ys.length < 4 := hChanged.length_eq ▸ hShort
        rw [mixRest_of_lt hShort, mixRest_of_lt hShortY]
        exact foldl_mixByte_ne hChanged h

/-! ### The whole -/

/-- The last steps only stir what is there: each of them can be undone. -/
theorem avalanche_injective {h g : UInt32} (hEq : avalanche h = avalanche g) : h = g := by
  simp only [avalanche] at hEq
  have hThird := xorShift_injective (by decide) (by decide) hEq
  have hSecond := xorShift_injective (by decide) (by decide) (mul_injective prime3_inverse hThird)
  exact xorShift_injective (by decide) (by decide) (mul_injective prime2_inverse hSecond)

/-- Byte strings that differ in exactly one byte have different checksums. -/
theorem xxh32_ne_of_oneChanged {xs ys : Bytes} (h : OneChanged xs ys) : xxh32 xs ≠ xxh32 ys := by
  rw [xxh32, xxh32, ← h.length_eq]
  intro hEq
  split at hEq
  · exact mixRest_ne h _ (avalanche_injective hEq)
  · have hMix := avalanche_injective hEq
    rcases absorbStripes_cases h .start with ⟨hLanes, hRest⟩ | ⟨hLanes, hRest⟩
    · rw [hRest] at hMix
      exact hLanes.merge_ne ((UInt32.add_left_inj _).mp (mixRest_injective _ hMix))
    · rw [hLanes] at hMix
      exact mixRest_ne hRest _ hMix

end GameSave.Checksum
