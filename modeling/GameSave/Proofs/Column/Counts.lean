import GameSave.Column.Composite
import GameSave.Proofs.Column.Basic

/-! What columns count in their values, such as the bytes of texts. A column reads
back what it wrote exactly if no count is beyond what it can keep, and it spends a
bit at least on everything that it counts. These laws pass from columns to those
that are made of them. -/

namespace GameSave

/-! ### Counts -/

namespace Lengths

variable {α β : Type}

theorem total_cons (n : Nat) (lengths : List Nat) : total (n :: lengths) = n + total lengths := rfl

theorem total_append (front back : List Nat) :
    total (front ++ back) = total front + total back := by
  induction front with
  | nil => exact (Nat.zero_add _).symm
  | cons n front ih => rw [List.cons_append, total_cons, total_cons, ih, Nat.add_assoc]

theorem total_map_le {f g : α → Nat} (h : ∀ x, f x ≤ g x) (xs : List α) :
    total (xs.map f) ≤ total (xs.map g) := by
  induction xs with
  | nil => exact Nat.le_refl _
  | cons x xs ih => exact Nat.add_le_add (h x) ih

theorem total_map_one (xs : List α) : total (xs.map fun _ => 1) = xs.length := by
  induction xs with
  | nil => rfl
  | cons x xs ih => rw [List.map_cons, total_cons, ih, List.length_cons, Nat.add_comm]

/-- It makes no difference whether parts are added up one by one or all at once. -/
theorem total_map_flatten (f : α → Nat) (xs : List (List α)) :
    total (xs.flatten.map f) = total (xs.map fun part => total (part.map f)) := by
  induction xs with
  | nil => rfl
  | cons part xs ih =>
      rw [List.flatten_cons, List.map_append, total_append, ih, List.map_cons, total_cons]

theorem total_map_length (parts : List (List α)) :
    total (parts.map List.length) = parts.flatten.length := by
  induction parts with
  | nil => rfl
  | cons part parts ih =>
      rw [List.map_cons, List.flatten_cons, List.length_append, ← ih, total_cons]

/-- What is absent weighs nothing. -/
theorem total_map_filterMap (f : α → Nat) (xs : List (Option α)) :
    total ((xs.filterMap id).map f) = total (xs.map fun x => x.elim 0 f) := by
  induction xs with
  | nil => rfl
  | cons x xs ih =>
      cases x with
      | none => simpa [total_cons] using ih
      | some value => simpa [total_cons] using ih

end Lengths

/-- How many bytes a text takes up. -/
def Text.Utf8.size (s : String) : Nat := (encode s).length

/-- What is counted in some values: for each thing, how much of it a value adds. -/
abbrev Counts (α : Type) := List (α → Nat)

namespace Counts

open Lengths

variable {α β : Type}

/-- None of the counts reaches a bound. -/
def Below (bound : Nat) (counts : Counts α) (xs : List α) : Prop :=
  ∀ count ∈ counts, total (xs.map count) < bound

/-- None of the counts is beyond what a column can keep. -/
def Fit (counts : Counts α) (xs : List α) : Prop := ∀ count ∈ counts, total (xs.map count) < limit

/-- What is counted in values of another type is counted in their images. -/
def comap (f : β → α) (counts : Counts α) : Counts β := counts.map fun count => count ∘ f

def prod (counts : Counts α) (others : Counts β) : Counts (α × β) :=
  counts.comap Prod.fst ++ others.comap Prod.snd

/-- Of texts the bytes are counted. -/
def text : Counts String := [Text.Utf8.size]

/-- An absent value adds nothing. -/
def option (counts : Counts α) : Counts (Option α) :=
  counts.map fun count x => x.elim 0 count

/-- Of lists the elements are counted, and what is counted in them. -/
def list (counts : Counts α) : Counts (List α) :=
  List.length :: counts.map fun count xs => total (xs.map count)

def stringMap (counts : Counts α) : Counts (StringMap α) :=
  (list (prod text counts)).comap StringMap.toList

theorem fit_nil (xs : List α) : Fit [] xs := fun _ h => nomatch h

/-- A single value fits if each of its counts stays below the limit. -/
theorem fit_singleton_iff {counts : Counts α} {x : α} :
    counts.Fit [x] ↔ ∀ count ∈ counts, count x < limit := Iff.rfl

section Below

variable {bound : Nat} {counts : Counts α} {others : Counts β}

theorem below_comap_iff {f : β → α} {xs : List β} :
    (counts.comap f).Below bound xs ↔ counts.Below bound (xs.map f) := by
  simp only [Below, comap, List.forall_mem_map, List.map_map]

theorem below_prod_iff {xs : List (α × β)} : (counts.prod others).Below bound xs ↔
    counts.Below bound (xs.map Prod.fst) ∧ others.Below bound (xs.map Prod.snd) := by
  rw [← below_comap_iff, ← below_comap_iff]
  exact List.forall_mem_append

/-- Only the values that are there are counted. -/
theorem below_option_iff {xs : List (Option α)} :
    counts.option.Below bound xs ↔ counts.Below bound (xs.filterMap id) := by
  simp only [Below, option, List.forall_mem_map, total_map_filterMap]

/-- The counts of lists are their lengths in all, and those of all elements together. -/
theorem below_list_iff {xs : List (List α)} : counts.list.Below bound xs ↔
    total (xs.map List.length) < bound ∧ counts.Below bound xs.flatten := by
  simp only [Below, list, List.forall_mem_cons, List.forall_mem_map, total_map_flatten]

theorem fit_comap_iff {f : β → α} {xs : List β} :
    (counts.comap f).Fit xs ↔ counts.Fit (xs.map f) := below_comap_iff

theorem fit_prod_iff {xs : List (α × β)} :
    (counts.prod others).Fit xs ↔ counts.Fit (xs.map Prod.fst) ∧ others.Fit (xs.map Prod.snd) :=
  below_prod_iff

theorem fit_option_iff {xs : List (Option α)} :
    counts.option.Fit xs ↔ counts.Fit (xs.filterMap id) := below_option_iff

theorem fit_list_iff {xs : List (List α)} :
    counts.list.Fit xs ↔ total (xs.map List.length) < limit ∧ counts.Fit xs.flatten :=
  below_list_iff

end Below

end Counts

namespace Column

open Decoder Lengths

variable {α β : Type}

/-- A column keeps values of which the counts fit, and it makes no others. -/
structure CountedBy (c : Column α) (counts : Counts α) : Prop where
  dense : ∀ xs, xs.length ≤ 8 * (c.write xs).length
  count_le : ∀ count ∈ counts, ∀ xs, total (xs.map count) ≤ 8 * (c.write xs).length
  reads : ∀ xs, counts.Fit xs → Reads (c.read xs.length) (c.write xs) xs
  makes : ∀ n, Makes (c.read n) fun xs => xs.length = n ∧ counts.Fit xs

namespace CountedBy

variable {c : Column α} {counts : Counts α}

/-- Exactly if the counts of a value fit, the value comes back from its bytes. -/
theorem decode_encode_eq_some_iff (h : c.CountedBy counts) {x : α} :
    c.decode (c.encode x) = some x ↔ ∀ count ∈ counts, count x < limit := by
  rw [← Counts.fit_singleton_iff]
  constructor
  · intro hDecode
    unfold decode at hDecode
    split at hDecode
    · next y hRead =>
      obtain rfl := Option.some.inj hDecode
      exact (h.makes 1 _ _ _ hRead).2
    · cases hDecode
  · exact fun hFit => decode_encode_of_reads (h.reads [x] hFit)

/-- What is counted in a short column cannot be too much. -/
theorem decode_encode (h : c.CountedBy counts) {x : α} (hRoom : (c.encode x).length < room) :
    c.decode (c.encode x) = some x := by
  refine h.decode_encode_eq_some_iff.mpr fun count hCount => ?_
  have hLe : count x ≤ 8 * (c.encode x).length := h.count_le count hCount [x]
  have hLimit : 8 * room ≤ limit := by decide
  omega

end CountedBy

/-- A column in which nothing is counted always reads back what it wrote. -/
theorem countedBy_nil {c : Column α} (hDense : ∀ xs, xs.length ≤ 8 * (c.write xs).length)
    (hReads : ∀ xs, Reads (c.read xs.length) (c.write xs) xs)
    (hMakes : ∀ n, Makes (c.read n) fun xs => xs.length = n) : c.CountedBy [] where
  dense := hDense
  count_le _ h := nomatch h
  reads xs _ := hReads xs
  makes n bytes xs rest h := ⟨hMakes n bytes xs rest h, Counts.fit_nil xs⟩

/-- Pairs are written as two columns, one behind the other. -/
theorem countedBy_prod {c : Column α} {d : Column β} {counts : Counts α} {others : Counts β}
    (hC : c.CountedBy counts) (hD : d.CountedBy others) :
    (c.prod d).CountedBy (counts.prod others) where
  dense xs := by
    have hFirsts := hC.dense (xs.map Prod.fst)
    simp only [prod, List.length_append, List.length_map] at hFirsts ⊢
    omega
  count_le count hCount xs := by
    simp only [prod, List.length_append]
    rcases List.mem_append.mp hCount with h | h
    · obtain ⟨count, hMem, rfl⟩ := List.mem_map.mp h
      have hLe := hC.count_le count hMem (xs.map Prod.fst)
      rw [List.map_map] at hLe
      omega
    · obtain ⟨count, hMem, rfl⟩ := List.mem_map.mp h
      have hLe := hD.count_le count hMem (xs.map Prod.snd)
      rw [List.map_map] at hLe
      omega
  reads xs hFit := by
    obtain ⟨hFits, hFitsOthers⟩ := Counts.fit_prod_iff.mp hFit
    have hFirsts := hC.reads (xs.map Prod.fst) hFits
    have hSeconds := hD.reads (xs.map Prod.snd) hFitsOthers
    rw [List.length_map] at hFirsts hSeconds
    have hZip : (xs.map Prod.fst).zip (xs.map Prod.snd) = xs := by
      rw [List.zip_map']
      exact List.map_id xs
    have hBoth : Reads ((c.prod d).read xs.length)
        (c.write (xs.map Prod.fst) ++ (d.write (xs.map Prod.snd) ++ []))
        ((xs.map Prod.fst).zip (xs.map Prod.snd)) :=
      reads_bind hFirsts (reads_bind hSeconds (reads_pure _))
    rw [hZip, List.append_nil] at hBoth
    exact hBoth
  makes n := by
    refine makes_bind (hC.makes n) fun firsts ⟨hLength, hFit⟩ => ?_
    refine makes_bind (hD.makes n) fun seconds ⟨hLengthOthers, hFitOthers⟩ => makes_pure ⟨?_, ?_⟩
    · rw [List.length_zip, hLength, hLengthOthers, Nat.min_self]
    · refine Counts.fit_prod_iff.mpr ⟨?_, ?_⟩
      · rwa [List.map_fst_zip (by omega)]
      · rwa [List.map_snd_zip (by omega)]

/-- Values may be stored as images that count no less than what is read back from them. -/
theorem countedBy_imap {c : Column α} {counts : Counts α} (h : c.CountedBy counts) {f : β → α}
    {g : α → β} (hInverse : ∀ y, g (f y) = y)
    (hLess : ∀ count ∈ counts, ∀ x, count (f (g x)) ≤ count x) :
    (c.imap f g).CountedBy (counts.comap f) where
  dense ys := by
    have hImages := h.dense (ys.map f)
    rwa [List.length_map] at hImages
  count_le count hCount ys := by
    obtain ⟨count, hMem, rfl⟩ := List.mem_map.mp hCount
    have hLe := h.count_le count hMem (ys.map f)
    rwa [List.map_map] at hLe
  reads ys hFit := by
    have hImages := reads_map (List.map g) (h.reads (ys.map f) (Counts.fit_comap_iff.mp hFit))
    rw [List.length_map, List.map_map] at hImages
    have hBack : g ∘ f = id := funext hInverse
    rw [hBack, List.map_id] at hImages
    exact hImages
  makes n := by
    refine makes_map (h.makes n) fun xs ⟨hLength, hFit⟩ => ⟨by rw [List.length_map, hLength], ?_⟩
    intro count hCount
    obtain ⟨count, hMem, rfl⟩ := List.mem_map.mp hCount
    rw [List.map_map]
    exact Nat.lt_of_le_of_lt (total_map_le (hLess count hMem) xs) (hFit count hMem)

end Column

end GameSave
