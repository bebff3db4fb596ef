import GameSave.Proofs.Column.Composite

/-! Columns that show where they end. A reader takes from the front what it needs
and leaves the rest, so it never takes a part of what was written for the whole.
Values that count too much are refused, and what stands behind them does not help. -/

namespace GameSave

namespace Bytes

/-- Bytes that end before a whole byte string does, or go on behind it. -/
def Misended (bytes whole : Bytes) : Prop := bytes ≠ whole ∧ (bytes <+: whole ∨ whole <+: bytes)

/-- What lacks its last byte ends too early. -/
theorem misended_dropLast {whole : Bytes} (h : whole ≠ []) : Misended whole.dropLast whole := by
  refine ⟨fun hSame => ?_, .inl (List.dropLast_prefix whole)⟩
  have hLength := congrArg List.length hSame
  have hPos := List.length_pos_iff.mpr h
  rw [List.length_dropLast] at hLength
  omega

/-- What goes on ends too late. -/
theorem misended_append {whole more : Bytes} (h : more ≠ []) :
    Misended (whole ++ more) whole :=
  ⟨fun hSame => h (List.append_right_eq_self.mp hSame), .inr (List.prefix_append whole more)⟩

end Bytes

namespace Decoder

variable {α β : Type}

/-! ### Decoders -/

/-- A decoder that finds a value finds the same with more bytes behind, and leaves these over. -/
def Settled (d : Decoder α) : Prop :=
  ∀ bytes x rest, d bytes = some (x, rest) → ∀ more, d (bytes ++ more) = some (x, rest ++ more)

theorem settled_pure (x : α) : Settled (pure x) := by
  rintro bytes _ _ ⟨⟩ more
  rfl

theorem settled_failure : Settled (failure : Decoder α) := by
  rintro bytes _ _ ⟨⟩

/-- Decoders in a row never look back at what they were given behind their own part. -/
theorem settled_bind {d : Decoder α} {next : α → Decoder β} (hFirst : Settled d)
    (hNext : ∀ x, Settled (next x)) : Settled (d >>= next) := by
  intro bytes y rest h more
  change (d bytes).bind (fun found => next found.1 found.2) = some (y, rest) at h
  obtain ⟨⟨x, between⟩, hX, hY⟩ := Option.bind_eq_some_iff.mp h
  show (d (bytes ++ more)).bind (fun found => next found.1 found.2) = _
  rw [hFirst _ _ _ hX more, Option.bind_some]
  exact hNext x _ _ _ hY more

theorem settled_map {d : Decoder α} (f : α → β) (h : Settled d) : Settled (f <$> d) := by
  rw [map_eq_pure_bind]
  exact settled_bind h fun x => settled_pure (f x)

/-- Bytes that are taken are the same whatever comes behind them. -/
theorem settled_take (n : Nat) : Settled (take n) := by
  intro bytes front rest h more
  obtain ⟨rfl, hLength⟩ := Bytes.split?_eq_some_iff.mp h
  rw [List.append_assoc]
  exact Bytes.split?_append (rest ++ more) hLength

theorem settled_byte : Settled byte := by
  intro bytes b rest h more
  cases bytes with
  | nil => cases h
  | cons first bytes =>
      cases h
      rfl

theorem settled_ofOption (x : Option α) : Settled (ofOption x) := by
  intro bytes y rest h more
  obtain ⟨z, hZ, hSame⟩ := Option.map_eq_some_iff.mp h
  cases hSame
  rw [ofOption, hZ, Option.map_some]

/-- A decoder finds no value where these bytes are in front, whatever follows them. -/
def Refuses (d : Decoder α) (bytes : Bytes) : Prop := ∀ rest, d (bytes ++ rest) = none

theorem refuses_failure (bytes : Bytes) : Refuses (failure : Decoder α) bytes := fun _ => rfl

/-- Where the first of two decoders finds no value, both together find none. -/
theorem refuses_bind {d : Decoder α} {next : α → Decoder β} {front : Bytes} (back : Bytes)
    (h : Refuses d front) : Refuses (d >>= next) (front ++ back) := by
  intro rest
  show (d (front ++ back ++ rest)).bind (fun found => next found.1 found.2) = none
  rw [List.append_assoc, h, Option.bind_none]

/-- Where the second of two decoders finds no value behind the first, both together find none. -/
theorem refuses_bind_of_reads {d : Decoder α} {next : α → Decoder β} {front back : Bytes} {x : α}
    (hFront : Reads d front x) (hBack : Refuses (next x) back) :
    Refuses (d >>= next) (front ++ back) := by
  intro rest
  show (d (front ++ back ++ rest)).bind (fun found => next found.1 found.2) = none
  rw [List.append_assoc, hFront, Option.bind_some, hBack]

theorem refuses_map {d : Decoder α} {bytes : Bytes} (f : α → β) (h : Refuses d bytes) :
    Refuses (f <$> d) bytes := by
  rw [map_eq_pure_bind, ← List.append_nil bytes]
  exact refuses_bind [] h

/-- No bytes that end in the wrong place are read to their end. -/
theorem Settled.rest_ne_nil {d : Decoder α} (hSettled : Settled d) {whole : Bytes}
    (hWhole : Refuses d whole ∨ ∃ x, Reads d whole x) {bytes rest : Bytes} {y : α}
    (hBytes : bytes.Misended whole) (h : d bytes = some (y, rest)) : rest ≠ [] := by
  obtain ⟨hNe, ⟨more, rfl⟩ | ⟨more, rfl⟩⟩ := hBytes
  · have hMore : more ≠ [] := by
      rintro rfl
      exact hNe (List.append_nil bytes).symm
    have hAll := hSettled _ _ _ h more
    rcases hWhole with hRefuses | ⟨x, hReads⟩
    · have hNone := hRefuses []
      rw [List.append_nil, hAll] at hNone
      cases hNone
    · have hExact := hReads []
      rw [List.append_nil, hAll] at hExact
      obtain ⟨-, hRest⟩ := Prod.mk.inj (Option.some.inj hExact)
      exact (hMore (List.append_eq_nil_iff.mp hRest).2).elim
  · rintro rfl
    rcases hWhole with hRefuses | ⟨x, hReads⟩
    · cases (hRefuses more).symm.trans h
    · obtain ⟨-, rfl⟩ := Prod.mk.inj (Option.some.inj ((hReads more).symm.trans h))
      exact hNe (List.append_nil whole)

end Decoder

open Decoder

/-! ### Columns without counts -/

theorem Packing.settled_unpack (p : Packing) (n : Nat) : Settled (p.unpack n) :=
  settled_bind (settled_take _) fun _ => settled_pure _

theorem Scale.settled_read (width : Nat) : Settled (Scale.read width) := by
  refine settled_bind settled_byte fun code => ?_
  dsimp only
  split
  · exact settled_bind (settled_map _ (settled_take width)) fun _ => settled_pure _
  · exact settled_pure _

namespace Column

theorem settled_bytes (n : Nat) : Settled (byte.read n) := by
  by_cases hShort : n ≤ 2
  · simp only [byte, if_pos hShort]
    exact settled_take n
  · simp only [byte, if_neg hShort]
    refine settled_bind (Scale.settled_read 1) fun scale => ?_
    refine settled_bind (settled_ofOption _) fun packing => ?_
    exact settled_bind (packing.settled_unpack n) fun _ => settled_pure _

theorem settled_flags (n : Nat) : Settled (flag.read n) :=
  settled_map _ (Packing.bits.settled_unpack n)

end Column

/-- Integers of a fixed width show where they end. -/
theorem IntegerForm.settled_read (width n : Nat) : Settled (IntegerForm.read width n) := by
  unfold IntegerForm.read
  split
  · exact settled_map _ (Column.settled_bytes n)
  · exact settled_bind (settled_take _) fun _ => settled_pure _

/-- Integers of any form show where they end: the form is written first. -/
theorem Column.settled_integer (full n : Nat) : Settled ((integer full).read n) := by
  by_cases hNone : n = 0
  · subst hNone
    exact settled_pure _
  · simp only [integer, if_neg hNone]
    refine settled_bind (Scale.settled_read full) fun scale => ?_
    refine settled_bind (settled_ofOption _) fun width => ?_
    exact settled_bind (IntegerForm.settled_read width n) fun _ => settled_pure _

namespace Lengths

/-- Lengths show where they end. -/
theorem settled_read (n : Nat) : Settled (read n) := by
  refine settled_bind (Column.settled_bytes n) fun short => ?_
  refine settled_bind (Column.settled_integer 8 _) fun long => ?_
  dsimp only
  split
  · exact settled_pure _
  · exact settled_failure

/-- Lengths are refused for their sum, as long as each of them fits into a word of eight bytes. -/
theorem refuses_read {lengths : List Nat} (hSpan : total lengths < LittleEndian.span 8)
    (hTotal : limit ≤ total lengths) : Refuses (read lengths.length) (write lengths) := by
  have hLengths : ∀ n ∈ lengths, n < LittleEndian.span 8 :=
    fun n hn => Nat.lt_of_le_of_lt (le_total hn) hSpan
  rw [read_eq, ← List.append_nil (write lengths)]
  refine refuses_bind_of_reads (reads_readUnbounded hLengths) ?_
  rw [if_neg (Nat.not_lt.mpr hTotal)]
  exact refuses_failure []

end Lengths

/-! ### Columns with counts -/

namespace Column

variable {α β : Type} {c : Column α} {counts : Counts α}

/-- A column that shows where its values end: what it reads does not hang on what follows, and what
counts too much to be read back is refused, as long as words of eight bytes can count it. -/
structure DelimitedBy (c : Column α) (counts : Counts α) : Prop extends c.CountedBy counts where
  settled : ∀ n, Settled (c.read n)
  refuses : ∀ xs, counts.Below (LittleEndian.span 8) xs → ¬counts.Fit xs →
    Refuses (c.read xs.length) (c.write xs)

/-- A value that ends in the wrong place is no value. -/
theorem DelimitedBy.decode_of_misended (h : c.DelimitedBy counts) {x : α}
    (hCounts : ∀ count ∈ counts, count x < LittleEndian.span 8) {bytes : Bytes}
    (hBytes : bytes.Misended (c.encode x)) : c.decode bytes = none := by
  have hWhole : Refuses (c.read 1) (c.encode x) ∨ ∃ xs, Reads (c.read 1) (c.encode x) xs := by
    by_cases hFit : counts.Fit [x]
    · exact .inr ⟨[x], h.reads [x] hFit⟩
    · exact .inl (h.refuses [x] hCounts hFit)
  unfold decode
  split
  · next y hRead => exact ((h.settled 1).rest_ne_nil hWhole hBytes hRead rfl).elim
  · rfl

/-- A column that counts nothing is delimited as soon as its decoder is settled. -/
theorem delimitedBy_nil (h : c.CountedBy []) (hSettled : ∀ n, Settled (c.read n)) :
    c.DelimitedBy [] where
  toCountedBy := h
  settled := hSettled
  refuses xs _ hFit := (hFit (Counts.fit_nil xs)).elim

theorem delimitedBy_flag : flag.DelimitedBy [] := delimitedBy_nil countedBy_flag settled_flags

theorem delimitedBy_word : word.DelimitedBy [] :=
  delimitedBy_nil countedBy_word fun n => settled_map _ (settled_integer 4 n)

/-- Two delimited columns in a row are delimited: the second begins where the first has ended. -/
theorem delimitedBy_prod {d : Column β} {others : Counts β} (hC : c.DelimitedBy counts)
    (hD : d.DelimitedBy others) : (c.prod d).DelimitedBy (counts.prod others) where
  toCountedBy := countedBy_prod hC.toCountedBy hD.toCountedBy
  settled n := settled_bind (hC.settled n) fun _ =>
    settled_bind (hD.settled n) fun _ => settled_pure _
  refuses xs hBelow hFit := by
    obtain ⟨hFirsts, hSeconds⟩ := Counts.below_prod_iff.mp hBelow
    rw [Counts.fit_prod_iff] at hFit
    by_cases hFirst : counts.Fit (xs.map Prod.fst)
    · have hSecond : ¬others.Fit (xs.map Prod.snd) := fun hSecond => hFit ⟨hFirst, hSecond⟩
      have hReads := hC.reads _ hFirst
      have hRefuses := hD.refuses _ hSeconds hSecond
      rw [List.length_map] at hReads hRefuses
      refine refuses_bind_of_reads hReads ?_
      rw [← List.append_nil (d.write _)]
      exact refuses_bind [] hRefuses
    · have hRefuses := hC.refuses _ hFirsts hFirst
      rw [List.length_map] at hRefuses
      exact refuses_bind _ hRefuses

/-- A view of a column is delimited as the column is, if it does not count more. -/
theorem delimitedBy_imap (h : c.DelimitedBy counts) {f : β → α} {g : α → β}
    (hInverse : ∀ y, g (f y) = y) (hLess : ∀ count ∈ counts, ∀ x, count (f (g x)) ≤ count x) :
    (c.imap f g).DelimitedBy (counts.comap f) where
  toCountedBy := countedBy_imap h.toCountedBy hInverse hLess
  settled n := settled_map _ (h.settled n)
  refuses ys hBelow hFit := by
    have hRefuses := h.refuses (ys.map f) (Counts.below_comap_iff.mp hBelow)
      fun hImages => hFit (Counts.fit_comap_iff.mpr hImages)
    rw [List.length_map] at hRefuses
    exact refuses_map _ hRefuses

/-- Texts are delimited by their lengths. -/
theorem delimitedBy_text : text.DelimitedBy Counts.text where
  toCountedBy := countedBy_text
  settled n := settled_bind (Lengths.settled_read n) fun _ =>
    settled_bind (settled_take _) fun _ => settled_ofOption _
  refuses xs hBelow hFit := by
    have hLengths := @Lengths.refuses_read ((xs.map Text.Utf8.encode).map List.length)
    rw [Lengths.total_map_length, ← total_text, List.length_map, List.length_map] at hLengths
    have hTotal : Lengths.limit ≤ Lengths.total (xs.map Text.Utf8.size) :=
      Nat.le_of_not_lt fun hBelowLimit => hFit (List.forall_mem_singleton.mpr hBelowLimit)
    exact refuses_bind _ (hLengths (hBelow _ List.mem_cons_self) hTotal)

/-- Options are delimited by their flags. -/
theorem delimitedBy_option (h : c.DelimitedBy counts) :
    (option c).DelimitedBy counts.option where
  toCountedBy := countedBy_option h.toCountedBy
  settled n := settled_bind (settled_flags n) fun _ =>
    settled_bind (h.settled _) fun _ => settled_pure _
  refuses xs hBelow hFit := by
    rw [Counts.fit_option_iff] at hFit
    have hFlags := reads_flags (xs.map Option.isSome)
    have hValues := h.refuses (xs.filterMap id) (Counts.below_option_iff.mp hBelow) hFit
    rw [List.length_map] at hFlags
    rw [← count_isSome] at hValues
    refine refuses_bind_of_reads hFlags ?_
    rw [← List.append_nil (c.write _)]
    exact refuses_bind [] hValues

/-- Lists are delimited by their lengths. -/
theorem delimitedBy_list (h : c.DelimitedBy counts) : (list c).DelimitedBy counts.list where
  toCountedBy := countedBy_list h.toCountedBy
  settled n := settled_bind (Lengths.settled_read n) fun _ =>
    settled_bind (h.settled _) fun _ => settled_pure _
  refuses xs hBelow hFit := by
    obtain ⟨hSpan, hElements⟩ := Counts.below_list_iff.mp hBelow
    rw [Counts.fit_list_iff] at hFit
    by_cases hTotal : Lengths.total (xs.map List.length) < Lengths.limit
    · have hLengths := Lengths.reads_read hTotal
      have hRefuses := h.refuses xs.flatten hElements fun hFits => hFit ⟨hTotal, hFits⟩
      rw [List.length_map] at hLengths
      rw [← Lengths.total_map_length] at hRefuses
      refine refuses_bind_of_reads hLengths ?_
      rw [← List.append_nil (c.write _)]
      exact refuses_bind [] hRefuses
    · have hLengths := Lengths.refuses_read hSpan (Nat.le_of_not_lt hTotal)
      rw [List.length_map] at hLengths
      exact refuses_bind _ hLengths

/-- Maps are delimited as the lists of their entries are. -/
theorem delimitedBy_stringMap (h : c.DelimitedBy counts) :
    (stringMap c).DelimitedBy counts.stringMap :=
  delimitedBy_imap (delimitedBy_list (delimitedBy_prod delimitedBy_text h))
    StringMap.ofList_toList (count_ofList_le counts)

end Column

end GameSave
