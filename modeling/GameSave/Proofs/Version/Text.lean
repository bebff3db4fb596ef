import GameSave.Proofs.Text.Blank
import GameSave.Version.Text
import Mathlib.Data.List.Induction

/-! Texts that spell versions. Reading accepts exactly the texts of a grammar, which says
how components are written and what may stand between and around them, and what is printed
belongs to it. -/

namespace GameSave.Version

open Text

/-! ### Numerals -/

/-- Decimal numerals with their values: at least one digit, and each counts ten times what the next
one counts. -/
inductive IsNumeral : List Char → Nat → Prop where
  | digit {c : Char} (h : c.isDigit = true) : IsNumeral [c] (c.toNat - '0'.toNat)
  | append {cs : List Char} {n : Nat} {c : Char} (hFront : IsNumeral cs n)
      (h : c.isDigit = true) : IsNumeral (cs ++ [c]) (10 * n + (c.toNat - '0'.toNat))

/-- A numeral is one digit or more, leading zeros included. -/
theorem isNumeral_iff {cs : List Char} {n : Nat} : IsNumeral cs n ↔
    cs ≠ [] ∧ (∀ c ∈ cs, c.isDigit = true) ∧ Nat.ofDigitChars 10 cs 0 = n := by
  constructor
  · intro h
    induction h with
    | @digit c h => simp [h, Nat.ofDigitChars_cons]
    | @append cs n c hFront h ih =>
        obtain ⟨-, hDigits, hValue⟩ := ih
        refine ⟨by simp, ?_, ?_⟩
        · simpa [or_imp, forall_and] using ⟨hDigits, h⟩
        · rw [Nat.ofDigitChars_append, hValue]
          rfl
  · rintro ⟨hNonempty, hDigits, rfl⟩
    induction cs using List.reverseRecOn with
    | nil => exact absurd rfl hNonempty
    | append_singleton cs c ih =>
        have hLast : c.isDigit = true := hDigits c (by simp)
        cases cs with
        | nil => simpa [Nat.ofDigitChars_cons] using IsNumeral.digit hLast
        | cons d cs =>
            rw [Nat.ofDigitChars_append]
            refine .append (ih (by simp) fun e hE => ?_) hLast
            exact hDigits e (List.mem_append_left _ hE)

theorem isNumeral_toDigits (n : Nat) : IsNumeral (Nat.toDigits 10 n) n :=
  isNumeral_iff.mpr ⟨Nat.toDigits_ne_nil,
    fun _ => Nat.isDigit_of_mem_toDigits (by decide) (by decide), Nat.ofDigitChars_ten_toDigits⟩

/-! ### Components -/

/-- Numerals in the range of a word, perhaps behind a plus sign. -/
inductive IsComponent : List Char → UInt32 → Prop where
  | plain {cs : List Char} {n : UInt32} (h : IsNumeral cs n.toNat) : IsComponent cs n
  | signed {cs : List Char} {n : UInt32} (h : IsNumeral cs n.toNat) : IsComponent ('+' :: cs) n

theorem IsNumeral.isDigit {cs : List Char} {n : Nat} (h : IsNumeral cs n) :
    ∀ c ∈ cs, c.isDigit = true :=
  (isNumeral_iff.mp h).2.1

theorem IsComponent.isDigit {cs : List Char} {n : UInt32} (h : IsComponent cs n) :
    ∀ c ∈ cs, c = '+' ∨ c.isDigit = true := by
  cases h with
  | plain h => exact fun c hC => .inr (h.isDigit c hC)
  | signed h =>
      intro c hC
      exact (List.mem_cons.mp hC).imp id (h.isDigit c)

/-- A word is read off exactly the numerals in its range. -/
theorem readWord_eq_some_iff {digits : List Char} {n : UInt32} :
    (if digits ≠ [] ∧ digits.all Char.isDigit then
      if Nat.ofDigitChars 10 digits 0 < UInt32.size then
        some (UInt32.ofNat (Nat.ofDigitChars 10 digits 0)) else none
      else none) = some n ↔ IsNumeral digits n.toNat := by
  rw [isNumeral_iff, ← and_assoc, ← List.all_eq_true]
  split
  · next hDigits =>
    rw [and_iff_right hDigits]
    split
    · next hRange =>
      rw [Option.some_inj, ← UInt32.toNat_inj, UInt32.toNat_ofNat_of_lt' hRange]
    · next hRange =>
      exact iff_of_false nofun fun hValue => hRange (hValue ▸ n.toNat_lt)
  · next hDigits => exact iff_of_false nofun fun hValue => hDigits hValue.1

/-- A component is read exactly if it is one, and then as its number. -/
theorem parseComponent_eq_some_iff {cs : List Char} {n : UInt32} :
    parseComponent cs = some n ↔ IsComponent cs n := by
  rw [parseComponent]
  by_cases hSign : cs.head? = some '+'
  · obtain ⟨digits, rfl⟩ := List.head?_eq_some_iff.mp hSign
    rw [if_pos hSign]
    refine readWord_eq_some_iff.trans ⟨.signed, fun h => ?_⟩
    cases h with
    -- A sign is no digit, so the text is no numeral together with it.
    | plain h => exact absurd (h.isDigit '+' List.mem_cons_self) (by decide)
    | signed h => exact h
  · rw [if_neg hSign]
    refine readWord_eq_some_iff.trans ⟨.plain, fun h => ?_⟩
    cases h with
    | plain h => exact h
    | signed h => exact absurd rfl hSign

/-- Components with dots or low lines between them. -/
inductive AreComponents : List Char → List UInt32 → Prop where
  | single {cs : List Char} {n : UInt32} (h : IsComponent cs n) : AreComponents cs [n]
  | cons {cs rest : List Char} {n : UInt32} {ns : List UInt32} {separator : Char}
      (h : IsComponent cs n) (hSeparator : separator = '.' ∨ separator = '_')
      (hRest : AreComponents rest ns) : AreComponents (cs ++ separator :: rest) (n :: ns)

/-- Within a version there is no white space. -/
theorem AreComponents.isBlank_eq_false {text : List Char} {ns : List UInt32}
    (h : AreComponents text ns) : ∀ c ∈ text, isBlank c = false := by
  have hComponent {cs : List Char} {n : UInt32} (h : IsComponent cs n) :
      ∀ c ∈ cs, isBlank c = false := by
    intro c hC
    rcases h.isDigit c hC with rfl | hDigit
    · rfl
    · exact isBlank_eq_false_of_isDigit hDigit
  induction h with
  | single h => exact hComponent h
  | cons h hSeparator hRest ih =>
      refine List.forall_mem_append.mpr ⟨hComponent h, List.forall_mem_cons.mpr ⟨?_, ih⟩⟩
      rcases hSeparator with rfl | rfl
      · rfl
      · rfl

theorem isSeparator_iff {c : Char} : isSeparator c = true ↔ c = '.' ∨ c = '_' := by
  rw [isSeparator, Bool.or_eq_true, beq_iff_eq, beq_iff_eq]

theorem IsComponent.isSeparator_eq_false {cs : List Char} {n : UInt32} (h : IsComponent cs n) :
    ∀ c ∈ cs, isSeparator c = false := by
  intro c hC
  rw [← Bool.not_eq_true, isSeparator_iff]
  rintro (rfl | rfl)
  · exact absurd (h.isDigit _ hC) (by decide)
  · exact absurd (h.isDigit _ hC) (by decide)

/-- A list that cannot be cut is its own only piece, and otherwise the first piece ends in front of
the first cut. -/
theorem splitOnP_cases {α : Type} (p : α → Bool) (xs : List α) : xs.splitOnP p = [xs] ∨
    ∃ front cut back, xs = front ++ cut :: back ∧ p cut = true ∧
      xs.splitOnP p = front :: back.splitOnP p := by
  induction xs with
  | nil => exact .inl List.splitOnP_nil
  | cons x xs ih =>
      rw [List.splitOnP_cons_eq_if_modifyHead]
      split
      · next hCut => exact .inr ⟨[], x, xs, rfl, hCut, rfl⟩
      · rcases ih with hWhole | ⟨front, cut, back, rfl, hCut, hPieces⟩
        · rw [hWhole]
          exact .inl rfl
        · rw [hPieces]
          exact .inr ⟨x :: front, cut, back, rfl, hCut, rfl⟩

/-- Texts between separators are read exactly if they are components in a row. -/
theorem mapM_splitOnP_eq_some_iff {text : List Char} {ns : List UInt32} :
    (text.splitOnP isSeparator).mapM parseComponent = some ns ↔ AreComponents text ns := by
  constructor
  · intro h
    -- By induction on the pieces: what stands behind the first one is a text with a piece less.
    induction hPieces : text.splitOnP isSeparator generalizing text ns with
    | nil => exact absurd hPieces (List.splitOnP_ne_nil _ _)
    | cons piece pieces ih =>
        rw [hPieces, List.mapM_cons] at h
        obtain ⟨n, hPiece, hLater⟩ := Option.bind_eq_some_iff.mp h
        obtain ⟨later, hPiecesLater, hAll⟩ := Option.bind_eq_some_iff.mp hLater
        obtain rfl := Option.some.inj hAll
        rcases splitOnP_cases isSeparator text with hWhole | ⟨front, cut, back, rfl, hCut, hMore⟩
        · obtain ⟨rfl, rfl⟩ := List.cons.inj (hPieces.symm.trans hWhole)
          obtain rfl := Option.some.inj hPiecesLater
          exact .single (parseComponent_eq_some_iff.mp hPiece)
        · obtain ⟨rfl, rfl⟩ := List.cons.inj (hPieces.symm.trans hMore)
          exact .cons (parseComponent_eq_some_iff.mp hPiece) (isSeparator_iff.mp hCut)
            (ih hPiecesLater rfl)
  · intro h
    induction h with
    | single h =>
        rw [List.splitOnP_eq_singleton h.isSeparator_eq_false, List.mapM_cons,
          parseComponent_eq_some_iff.mpr h]
        rfl
    | cons h hSeparator hRest ih =>
        rw [List.splitOnP_append_cons_of_forall_mem h.isSeparator_eq_false _
          (isSeparator_iff.mpr hSeparator), List.mapM_cons, parseComponent_eq_some_iff.mpr h, ih]
        rfl

/-! ### Versions -/

/-- Texts of versions: three or four components, and white space around them that does not count.
The build is zero if it is left out. -/
inductive Spells (s : String) : Version → Prop where
  | full {core : List Char} {major minor patch build : UInt32} (hCore : StripsTo s.toList core)
      (h : AreComponents core [major, minor, patch, build]) : Spells s ⟨major, minor, patch, build⟩
  | buildless {core : List Char} {major minor patch : UInt32} (hCore : StripsTo s.toList core)
      (h : AreComponents core [major, minor, patch]) : Spells s ⟨major, minor, patch, 0⟩

/-- A version is read exactly from the texts that spell it. -/
theorem parse?_eq_some_iff {s : String} {v : Version} : parse? s = some v ↔ Spells s v := by
  rw [parse?]
  constructor
  · intro h
    split at h
    · next hComponents =>
      obtain rfl := Option.some.inj h
      exact .buildless (stripsTo_trim _) (mapM_splitOnP_eq_some_iff.mp hComponents)
    · next hComponents =>
      obtain rfl := Option.some.inj h
      exact .full (stripsTo_trim _) (mapM_splitOnP_eq_some_iff.mp hComponents)
    · cases h
  · intro h
    cases h with
    | full hCore h => rw [hCore.trim_eq, mapM_splitOnP_eq_some_iff.mpr h]
    | buildless hCore h => rw [hCore.trim_eq, mapM_splitOnP_eq_some_iff.mpr h]

theorem parse_eq_ok_iff {s : String} {v : Version} : parse s = .ok v ↔ Spells s v := by
  rw [← parse?_eq_some_iff, parse]
  cases parse? s with
  | none => exact iff_of_false nofun nofun
  | some found => rw [Except.ok.injEq, Option.some_inj]

/-- A text that spells no version is named in the error, as it is. -/
theorem parse_eq_error_iff {s : String} {e : MalformedVersion} :
    parse s = .error e ↔ (∀ v, ¬Spells s v) ∧ e = ⟨s⟩ := by
  simp only [← parse?_eq_some_iff, parse]
  cases parse? s with
  | none => simp [eq_comm]
  | some found => simp

/-! ### Printed versions -/

theorem isComponent_repr (n : UInt32) : IsComponent n.toNat.repr.toList n := by
  rw [Nat.toList_repr]
  exact .plain (isNumeral_toDigits n.toNat)

/-- What is printed is made of components, with the build or without. -/
theorem areComponents_render {separator : String} {c : Char} (hText : separator.toList = [c])
    (h : c = '.' ∨ c = '_') (v : Version) :
    AreComponents (v.render separator false).toList [v.major, v.minor, v.patch, v.build] ∧
      AreComponents (v.render separator true).toList [v.major, v.minor, v.patch] := by
  have hThree : (v.render separator true).toList = v.major.toNat.repr.toList ++ c ::
      (v.minor.toNat.repr.toList ++ c :: v.patch.toNat.repr.toList) := by
    simp [render, String.toList_append, hText]
  have hFour : (v.render separator false).toList = v.major.toNat.repr.toList ++ c ::
      (v.minor.toNat.repr.toList ++ c ::
        (v.patch.toNat.repr.toList ++ c :: v.build.toNat.repr.toList)) := by
    simp [render, String.toList_append, hText]
  rw [hThree, hFour]
  constructor
  · exact .cons (isComponent_repr _) h (.cons (isComponent_repr _) h
      (.cons (isComponent_repr _) h (.single (isComponent_repr _))))
  · exact .cons (isComponent_repr _) h (.cons (isComponent_repr _) h
      (.single (isComponent_repr _)))

/-- A printed version spells it, all of it or all but the build. -/
theorem spells_render {separator : String} {c : Char} (hText : separator.toList = [c])
    (h : c = '.' ∨ c = '_') (v : Version) :
    Spells (v.render separator false) v ∧
      Spells (v.render separator true) { v with build := 0 } := by
  obtain ⟨hFour, hThree⟩ := areComponents_render hText h v
  exact ⟨.full (.refl hFour.isBlank_eq_false) hFour,
    .buildless (.refl hThree.isBlank_eq_false) hThree⟩

/-- Reading takes the texts that spell a version and no others, quotes a text that it refuses as it
was given, and takes back what is printed, with a build of zero if the build was left out. -/
theorem parse_exact :
    (∀ s v, parse s = .ok v ↔ Spells s v) ∧
    (∀ s e, parse s = .error e ↔ (∀ v, ¬Spells s v) ∧ e = ⟨s⟩ ∧
      e.message = "invalid version string: " ++ s) ∧
    ∀ v : Version, parse (toString v) = .ok v ∧ ∀ separator ∈ [".", "_"],
      parse (v.render separator false) = .ok v ∧
        parse (v.render separator true) = .ok { v with build := 0 } := by
  refine ⟨fun _ _ => parse_eq_ok_iff, fun s e => ?_, fun v => ?_⟩
  · rw [parse_eq_error_iff]
    constructor
    · rintro ⟨hNone, rfl⟩
      exact ⟨hNone, rfl, rfl⟩
    · rintro ⟨hNone, hText, -⟩
      exact ⟨hNone, hText⟩
  · simp only [parse_eq_ok_iff]
    refine ⟨(spells_render rfl (.inl rfl) v).1, fun separator hSeparator => ?_⟩
    rcases List.mem_cons.mp hSeparator with rfl | hOther
    · exact spells_render rfl (.inl rfl) v
    · obtain rfl := List.mem_singleton.mp hOther
      exact spells_render rfl (.inr rfl) v

/-- White space of two kinds, a sign, a leading zero and both separators in one text, and a printed
version without its build. -/
theorem parse_exact_mixed :
    (Spells "\u2003+1_09.0\n" ⟨1, 9, 0, 0⟩ ∧ parse "\u2003+1_09.0\n" = .ok ⟨1, 9, 0, 0⟩) ∧
      "_" ∈ [".", "_"] ∧ render ⟨1, 9, 0, 3⟩ "_" true = "1_9_0" ∧
        parse "1_9_0" = .ok ⟨1, 9, 0, 0⟩ := by
  have hMajor : IsComponent ['+', '1'] 1 := .signed (.digit rfl)
  have hMinor : IsComponent ['0', '9'] 9 := .plain (.append (.digit rfl) rfl)
  have hPatch : IsComponent ['0'] 0 := .plain (.digit rfl)
  have hCore : AreComponents ['+', '1', '_', '0', '9', '.', '0'] [1, 9, 0] :=
    .cons hMajor (.inr rfl) (.cons hMinor (.inl rfl) (.single hPatch))
  have hStrips : StripsTo "\u2003+1_09.0\n".toList ['+', '1', '_', '0', '9', '.', '0'] := by
    refine ⟨⟨['\u2003'], ['\n'], rfl, ?_, ?_⟩, ?_, ?_⟩
    · exact List.forall_mem_singleton.mpr rfl
    · exact List.forall_mem_singleton.mpr rfl
    · rintro _ ⟨⟩
      rfl
    · rintro _ ⟨⟩
      rfl
  have hText : Spells "\u2003+1_09.0\n" ⟨1, 9, 0, 0⟩ := .buildless hStrips hCore
  obtain ⟨hExact, -, hPrinted⟩ := parse_exact
  exact ⟨⟨hText, (hExact _ _).mpr hText⟩, by decide, rfl,
    ((hPrinted ⟨1, 9, 0, 3⟩).2 "_" (by decide)).2⟩

end GameSave.Version
