import GameSave.FileSystem.Basic

/-! The places that paths stand for. The temporary file of a path always has a name
that shows what it is, and nothing else is taken for a temporary file. But where a path
ends in no name, the name of its temporary file is an extension of nothing. -/

namespace GameSave.Path

/-- Where a name leads to. -/
def step (here : Location) (name : String) : Location :=
  if name = ".." then here.dropLast else here ++ [name]

/-- The place that a path stands for, if nothing is in its way. -/
def place (path : String) : Location := (names path).foldl step []

/-- How the names of temporary files end. -/
def IsTemporaryName (name : String) : Prop := ".tmp".toList <:+ name.toList

instance (name : String) : Decidable (IsTemporaryName name) :=
  inferInstanceAs (Decidable (_ <:+ _))

/-! ### Temporary files -/

/-- What is added to a text stays in its last piece, if it cannot be cut there. -/
theorem exists_splitOnP_append {α : Type} {p : α → Bool} {more : List α}
    (h : ∀ a ∈ more, p a = false) (text : List α) :
    ∃ front last, text.splitOnP p = front ++ [last] ∧
      (text ++ more).splitOnP p = front ++ [last ++ more] := by
  induction text with
  | nil => exact ⟨[], [], List.splitOnP_nil, List.splitOnP_eq_singleton h⟩
  | cons a text ih =>
      obtain ⟨front, last, hText, hMore⟩ := ih
      rw [List.cons_append, List.splitOnP_cons_eq_if_modifyHead,
        List.splitOnP_cons_eq_if_modifyHead, hText, hMore]
      split
      · exact ⟨[] :: front, last, rfl, rfl⟩
      · cases front with
        | nil => exact ⟨[], a :: last, rfl, rfl⟩
        | cons first front => exact ⟨(a :: first) :: front, last, rfl, rfl⟩

theorem exists_pieces (path : String) : ∃ front last, pieces path = front ++ [last] := by
  have hPieces : pieces path ≠ [] := by simp [pieces]
  exact ⟨_, _, (List.dropLast_concat_getLast hPieces).symm⟩

/-- The temporary file has its own name in the same directory. -/
theorem pieces_temporary {path last : String} {front : List String}
    (h : pieces path = front ++ [last]) : pieces (temporary path) = front ++ [last ++ ".tmp"] := by
  have hNoSlash : ∀ c ∈ ".tmp".toList, (c == '/') = false := by simp
  obtain ⟨front', last', hPath, hTemporary⟩ := exists_splitOnP_append hNoSlash path.toList
  rw [pieces, hPath, List.map_append, List.map_singleton] at h
  obtain ⟨rfl, hLast⟩ := List.append_inj' h rfl
  obtain rfl := List.singleton_inj.mp hLast
  rw [pieces, temporary, String.toList_append, hTemporary, List.map_append, List.map_singleton,
    String.ofList_append, String.ofList_toList]

theorem isTemporaryName_append (name : String) : IsTemporaryName (name ++ ".tmp") := by
  rw [IsTemporaryName, String.toList_append]
  exact List.suffix_append _ _

/-- A temporary name is neither nothing nor any number of dots. -/
theorem IsTemporaryName.ne {name : String} (h : IsTemporaryName name) :
    name ≠ "" ∧ name ≠ "." ∧ name ≠ ".." := by
  have hLength := h.length_le
  refine ⟨?_, ?_, ?_⟩ <;> rintro rfl <;> exact absurd hLength (by decide)

/-- The place of a path is found by a last turn behind all pieces but the last. -/
theorem place_of_pieces {path last : String} {front : List String}
    (h : pieces path = front ++ [last]) : place path =
      if isName last then step ((front.filter isName).foldl step []) last
      else (front.filter isName).foldl step [] := by
  rw [place, names, h, List.filter_append, List.foldl_append]
  split
  · next hName => rw [List.filter_cons_of_pos hName]; rfl
  · next hName => rw [List.filter_cons_of_neg hName]; rfl

/-- A temporary file is in the directory that all pieces but the last lead to. -/
theorem place_temporary {path last : String} {front : List String}
    (h : pieces path = front ++ [last]) :
    place (temporary path) = (front.filter isName).foldl step [] ++ [last ++ ".tmp"] := by
  obtain ⟨hNotEmpty, hNotDot, hNotBack⟩ := (isTemporaryName_append last).ne
  have hName : isName (last ++ ".tmp") = true := by simp [isName, hNotEmpty, hNotDot]
  rw [place_of_pieces (pieces_temporary h), if_pos hName, step, if_neg hNotBack]

/-- A temporary file has a temporary name. -/
theorem exists_place_temporary (path : String) :
    ∃ outer name, place (temporary path) = outer ++ [name] ∧ IsTemporaryName name := by
  obtain ⟨front, last, hPieces⟩ := exists_pieces path
  exact ⟨_, _, place_temporary hPieces, isTemporaryName_append last⟩

/-- A temporary file is never at the place of the file that it stands in for. -/
theorem place_temporary_ne (path : String) : place (temporary path) ≠ place path := by
  obtain ⟨front, last, hPieces⟩ := exists_pieces path
  rw [place_temporary hPieces, place_of_pieces hPieces, step]
  generalize (front.filter isName).foldl step [] = here
  intro hSame
  split at hSame
  · split at hSame
    · have hLength := congrArg List.length hSame
      simp at hLength
      omega
    · have hName := List.singleton_inj.mp (List.append_cancel_left hSame)
      simpa using congrArg String.length hName
  · simp at hSame

/-! ### Directories around a path -/

/-- No piece that is cut out between separators has a separator in it. -/
theorem not_mem_of_mem_splitOn {α : Type} [BEq α] [LawfulBEq α] (separator : α) (text : List α) :
    ∀ piece ∈ text.splitOn separator, separator ∉ piece := by
  induction text with
  | nil => simp
  | cons a text ih =>
      rw [List.splitOn] at ih ⊢
      rw [List.splitOnP_cons_eq_if_modifyHead]
      split
      · exact List.forall_mem_cons.mpr ⟨List.not_mem_nil, ih⟩
      · next hA =>
        cases hText : text.splitOnP (· == separator) with
        | nil => exact absurd hText (List.splitOnP_ne_nil _ _)
        | cons first rest =>
            rw [hText] at ih
            obtain ⟨hFirst, hRest⟩ := List.forall_mem_cons.mp ih
            rw [List.modifyHead_cons]
            refine List.forall_mem_cons.mpr ⟨?_, hRest⟩
            rw [List.mem_cons, not_or]
            exact ⟨fun hSame => hA (beq_iff_eq.mpr hSame.symm), hFirst⟩

theorem pieces_eq (path : String) : pieces path = (path.toList.splitOn '/').map String.ofList := rfl

/-- Pieces lie between slashes and have none. -/
theorem slash_not_mem {path piece : String} (h : piece ∈ pieces path) : '/' ∉ piece.toList := by
  rw [pieces_eq] at h
  obtain ⟨cut, hCut, rfl⟩ := List.mem_map.mp h
  rw [String.toList_ofList]
  exact not_mem_of_mem_splitOn '/' path.toList cut hCut

/-- Pieces that are put together with slashes are found again. -/
theorem pieces_intercalate {l : List String} (hSlash : ∀ piece ∈ l, '/' ∉ piece.toList)
    (hPieces : l ≠ []) : pieces ("/".intercalate l) = l := by
  have hCut : ("/".intercalate l).toList = ['/'].intercalate (l.map String.toList) :=
    String.toList_intercalate
  rw [pieces_eq, hCut, List.splitOn_intercalate]
  · simp
  · simpa using hSlash
  · simpa using hPieces

/-- Each path outwards leaves away some of the innermost pieces. -/
theorem exists_of_mem_outward {backwards : List String} {path : String}
    (h : path ∈ outward backwards) : ∃ inner piece outer, backwards = inner ++ piece :: outer ∧
      path = "/".intercalate (piece :: outer).reverse := by
  induction backwards with
  | nil => cases h
  | cons piece outer ih =>
      have hOuter (hMem : path ∈ outward outer) : ∃ inner next rest,
          piece :: outer = inner ++ next :: rest ∧
            path = "/".intercalate (next :: rest).reverse := by
        obtain ⟨inner, next, rest, rfl, hPath⟩ := ih hMem
        exact ⟨piece :: inner, next, rest, rfl, hPath⟩
      rw [outward] at h
      split at h
      · rcases List.mem_cons.mp h with rfl | hMem
        · exact ⟨[], piece, outer, rfl, rfl⟩
        · exact hOuter hMem
      · exact hOuter h

/-- Behind a directory around a path at least one name follows in the path. -/
theorem exists_of_mem_drop_outward {backwards : List String} {path : String}
    (h : path ∈ (outward backwards).drop 1) : ∃ inner piece outer,
      backwards = inner ++ piece :: outer ∧ (∃ name ∈ inner, isName name) ∧
        path = "/".intercalate (piece :: outer).reverse := by
  induction backwards with
  | nil => cases h
  | cons piece outer ih =>
      rw [outward] at h
      split at h
      · next hName =>
        obtain ⟨inner, next, rest, rfl, hPath⟩ := exists_of_mem_outward h
        exact ⟨piece :: inner, next, rest, rfl, ⟨piece, List.mem_cons_self, hName⟩, hPath⟩
      · obtain ⟨inner, next, rest, rfl, ⟨name, hMem, hName⟩, hPath⟩ := ih h
        exact ⟨piece :: inner, next, rest, rfl, ⟨name, List.mem_cons_of_mem _ hMem, hName⟩, hPath⟩

/-- On the way to a path one first comes to the directories around it. -/
theorem exists_names_of_mem_around {path directory : String} (h : directory ∈ around path) :
    ∃ inner, inner ≠ [] ∧ names path = names directory ++ inner := by
  obtain ⟨inner, piece, outer, hPieces, ⟨name, hMem, hName⟩, rfl⟩ := exists_of_mem_drop_outward h
  have hPath : pieces path = (piece :: outer).reverse ++ inner.reverse := by
    rw [← List.reverse_append, ← hPieces, List.reverse_reverse]
  have hSlash : ∀ found ∈ (piece :: outer).reverse, '/' ∉ found.toList := by
    intro found hFound
    have hMem : found ∈ pieces path := hPath ▸ List.mem_append_left _ hFound
    exact slash_not_mem hMem
  have hDirectory := pieces_intercalate hSlash (by simp)
  refine ⟨inner.reverse.filter isName, ?_, ?_⟩
  · exact List.ne_nil_of_mem (List.mem_filter.mpr ⟨List.mem_reverse.mpr hMem, hName⟩)
  · rw [names, names, hDirectory, hPath, List.filter_append]

/-- Without steps back, names lead ever further inwards. -/
theorem foldl_step_eq {names : List String} (h : ".." ∉ names) (here : Location) :
    names.foldl step here = here ++ names := by
  induction names generalizing here with
  | nil => simp
  | cons name names ih =>
      obtain ⟨hName, hNames⟩ := not_or.mp (mt List.mem_cons.mpr h)
      rw [List.foldl_cons, step, if_neg (Ne.symm hName), ih hNames, List.append_assoc]
      rfl

/-- A path that never turns back is not at the place of a directory around it. -/
theorem place_ne_of_mem_around {path directory : String} (hBack : ".." ∉ names path)
    (h : directory ∈ around path) : place directory ≠ place path := by
  obtain ⟨inner, hInner, hNames⟩ := exists_names_of_mem_around h
  rw [hNames, List.mem_append, not_or] at hBack
  rw [place, place, hNames, List.foldl_append, foldl_step_eq hBack.1, foldl_step_eq hBack.2]
  simpa using hInner

/-! ### Extensions -/

/-- In front of what follows the last dot of a name there is that dot. -/
theorem suffix_of_extension? {name ending : String} (h : extension? name = some ending) :
    '.' :: ending.toList <:+ name.toList := by
  unfold extension? at h
  dsimp only at h
  split at h
  · cases h
  · next hStem =>
    obtain rfl := Option.some.inj h
    rw [not_or] at hStem
    cases hRest : name.toList.reverse.dropWhile fun c => c != '.' with
    | nil => simp [hRest] at hStem
    | cons dot stem =>
        obtain rfl : dot = '.' := by
          have hHead := List.head?_dropWhile_not (fun c => c != '.') name.toList.reverse
          rw [hRest] at hHead
          simpa using hHead
        have hSplit : (name.toList.reverse.takeWhile fun c => c != '.') ++ '.' :: stem =
            name.toList.reverse := by
          rw [← hRest, List.takeWhile_append_dropWhile]
        refine ⟨stem.reverse, ?_⟩
        simpa using congrArg List.reverse hSplit

/-- What is taken for a temporary file has a temporary name. -/
theorem isTemporaryName_of_extension? {name : String} (h : extension? name = some "tmp") :
    IsTemporaryName name :=
  suffix_of_extension? h

/-- A temporary file is recognised by its extension, unless it was made for no name at all. -/
theorem extension?_append_tmp (name : String) :
    extension? (name ++ ".tmp") = some "tmp" ↔ name ≠ "" := by
  have hBack : name ++ ".tmp" ≠ ".." := (isTemporaryName_append name).ne.2.2
  have hName : (name ++ ".tmp").toList.reverse =
      'p' :: 'm' :: 't' :: '.' :: name.toList.reverse := by
    simp [String.toList_append]
  rw [extension?, hName]
  simp [hBack]

/-- A path has no name at its end exactly if there is nothing to it or a slash stands there. -/
theorem last_eq_empty_iff {path last : String} {front : List String}
    (h : pieces path = front ++ [last]) :
    last = "" ↔ path = "" ∨ path.toList.getLast? = some '/' := by
  have hLast : (pieces path).getLast? = some last := by rw [h, List.getLast?_concat]
  cases hEnd : path.toList.getLast? with
  | none =>
      obtain rfl := String.toList_eq_nil_iff.mp (List.getLast?_eq_none_iff.mp hEnd)
      obtain rfl := Option.some.inj hLast
      simp
  | some c =>
      obtain ⟨text, hText⟩ := List.getLast?_eq_some_iff.mp hEnd
      have hNonempty : path ≠ "" := by
        rintro rfl
        simp at hText
      rw [Option.some_inj, or_iff_right hNonempty]
      by_cases hSlash : c = '/'
      · rw [pieces, hText, List.splitOnP_append_cons text [] (by simpa using hSlash)] at hLast
        have hNothing : "" = last := by simpa using hLast
        simp [hSlash, ← hNothing]
      · have hNoSlash : ∀ a ∈ [c], (a == '/') = false := by simpa using hSlash
        obtain ⟨front, stem, -, hMore⟩ := exists_splitOnP_append hNoSlash text
        rw [pieces, hText, hMore] at hLast
        have hStem : String.ofList (stem ++ [c]) = last := by simpa using hLast
        simp [hSlash, ← hStem]

end GameSave.Path
