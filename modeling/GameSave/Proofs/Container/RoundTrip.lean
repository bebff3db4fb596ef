import GameSave.Proofs.Container.Reader
import GameSave.SaveFault

/-! A container reads back from its bytes if its delegates have different
names, and none of its proper beginnings is a container. -/

namespace GameSave

open ByteSource ContainerReader

/-- Markers are different as bytes. -/
theorem Marker.toByte_injective {m n : Marker} (h : m.toByte = n.toByte) : m = n := by
  have hSame := congrArg ofByte? h
  simpa [ofByte?_toByte] using hSame

/-! ### Entries -/

namespace DelegateEntry

/-- An entry begins with its marker. What is read behind the marker ends with
the marker of whatever comes next. -/
theorem reads_readEntry {e : DelegateEntry} {bytes : Bytes} (h : e.encode = .ok bytes) :
    ∃ body, bytes = Marker.delegateStart.toByte :: body ∧ ∀ next : Marker, next ≠ .delegateData →
      Reads readEntry (body ++ [next.toByte]) (e, next) := by
  simp only [encode, Except.bind_eq_ok] at h
  obtain ⟨name, hName, displayName, hDisplayName, typeKey, hTypeKey, h⟩ := h
  have hTexts {rest : Bytes} {state : Option Bytes} {next : Marker}
      (hState : Reads (readState e.name) rest (state, next)) :
      Reads readEntry (name ++ (displayName ++ (typeKey ++ (rest ++ []))))
        (⟨e.name, e.displayName, e.typeKey, state⟩, next) :=
    reads_bind (reads_lift (Field.reads_readText hName)) <|
      reads_bind (reads_lift (Field.reads_readText hDisplayName)) <|
        reads_bind (reads_lift (Field.reads_readText hTypeKey)) <|
          reads_bind hState (reads_pure _)
  cases hState : e.state with
  | none =>
      rw [hState] at h
      cases h
      refine ⟨name ++ displayName ++ typeKey, rfl, fun next hNext => ?_⟩
      have hNone : Reads (readState e.name) ([next.toByte] ++ []) (none, next) := by
        refine reads_bind (reads_readMarker next) ?_
        rw [if_neg hNext]
        exact reads_pure _
      have hEntry := hTexts hNone
      rw [← hState] at hEntry
      simpa using hEntry
  | some state =>
      rw [hState] at h
      simp only [Except.bind_eq_ok, Except.pure_eq_ok] at h
      obtain ⟨framed, hFramed, rfl⟩ := h
      refine ⟨name ++ displayName ++ typeKey ++ Marker.delegateData.toByte :: framed, rfl,
        fun next _ => ?_⟩
      have hSome : Reads (readState e.name)
          ([Marker.delegateData.toByte] ++ (framed ++ ([next.toByte] ++ [])))
          (some state, next) := by
        refine reads_bind (reads_readMarker .delegateData) ?_
        rw [if_pos rfl]
        exact reads_bind (reads_lift (Field.reads_read hFramed))
          (reads_bind (reads_readMarker next) (reads_pure _))
      have hEntry := hTexts hSome
      rw [← hState] at hEntry
      simpa using hEntry

theorem any_name_iff {entries : List DelegateEntry} {found : String} :
    (entries.any fun e => e.name == found) = true ↔ found ∈ entries.map name := by
  rw [List.any_eq_true, List.mem_map]
  constructor
  · rintro ⟨e, hMem, hName⟩
    exact ⟨e, hMem, eq_of_beq hName⟩
  · rintro ⟨e, hMem, hName⟩
    exact ⟨e, hMem, beq_iff_eq.mpr hName⟩

/-- The entries of a list with the marker behind them begin with a marker, and
from there on they read back, after others that have different names. -/
theorem reads_readEntries {entries : List DelegateEntry} {encoded : List Bytes}
    (h : entries.mapM encode = .ok encoded) :
    ∃ (marker : Marker) (rest : Bytes), marker ≠ .delegateData ∧
      encoded.flatten ++ [Marker.delegateListEnd.toByte] = marker.toByte :: rest ∧
      ∀ (fuel : Nat) (done : List DelegateEntry), entries.length ≤ fuel →
        ((done.reverse ++ entries).map name).Nodup →
        Reads (readEntries fuel done marker) rest (done.reverse ++ entries) := by
  induction entries generalizing encoded with
  | nil =>
      cases h
      refine ⟨.delegateListEnd, [], by decide, rfl, fun fuel done _ _ => ?_⟩
      rw [readEntries_listEnd, List.append_nil]
      exact reads_pure _
  | cons e entries ih =>
      simp only [List.mapM_cons, Except.bind_eq_ok, Except.pure_eq_ok] at h
      obtain ⟨bytes, hBytes, encoded, hEncoded, rfl⟩ := h
      obtain ⟨next, rest, hNext, hFlatten, hRest⟩ := ih hEncoded
      obtain ⟨body, rfl, hEntry⟩ := reads_readEntry hBytes
      refine ⟨.delegateStart, body ++ [next.toByte] ++ rest, by decide, ?_, ?_⟩
      · simp [hFlatten]
      · intro fuel done hFuel hNodup
        obtain ⟨fuel, rfl⟩ : ∃ n, fuel = n + 1 := ⟨fuel - 1, by simp at hFuel; omega⟩
        have hNew : ¬(done.any fun d => d.name == e.name) = true := by
          rw [any_name_iff, ← List.mem_reverse, ← List.map_reverse]
          intro hMem
          rw [List.map_append, List.nodup_append] at hNodup
          exact hNodup.2.2 _ hMem _ List.mem_cons_self rfl
        have hDone : (e :: done).reverse ++ entries = done.reverse ++ e :: entries := by simp
        rw [readEntries_start]
        refine reads_bind (hEntry next hNext) ?_
        rw [if_neg hNew, ← hDone]
        exact hRest fuel (e :: done) (by simpa using hFuel) (by rw [hDone]; exact hNodup)

/-- Entries that repeat a name are refused, and the fault says which one it is. -/
theorem readEntries_of_repeated {entries : List DelegateEntry} {encoded : List Bytes}
    (h : entries.mapM encode = .ok encoded) {marker : Marker} {rest : Bytes}
    (hFlatten : encoded.flatten ++ [Marker.delegateListEnd.toByte] = marker.toByte :: rest)
    {fuel : Nat} (hFuel : entries.length ≤ fuel) {done : List DelegateEntry}
    (hDone : (done.map name).Nodup) (hRepeated : ¬((done.reverse ++ entries).map name).Nodup)
    {s : ByteSource} {more : Bytes} (hFailure : s.failure = none)
    (hPending : s.pending = rest ++ more) :
    ∃ repeated, 1 < ((done.reverse ++ entries).map name).count repeated ∧
      readEntries fuel done marker s = .error (.repeatedName repeated) := by
  induction entries generalizing encoded marker rest fuel done s with
  | nil =>
      refine absurd ?_ hRepeated
      rw [List.append_nil, List.map_reverse]
      exact ((List.reverse_perm _).nodup_iff).mpr hDone
  | cons e entries ih =>
      simp only [List.mapM_cons, Except.bind_eq_ok, Except.pure_eq_ok] at h
      obtain ⟨bytes, hBytes, encoded, hEncoded, rfl⟩ := h
      obtain ⟨next, tail, hNext, hTail, -⟩ := reads_readEntries hEncoded
      obtain ⟨body, rfl, hEntry⟩ := reads_readEntry hBytes
      simp only [List.flatten_cons, List.append_assoc, List.cons_append, hTail,
        List.cons.injEq] at hFlatten
      obtain ⟨hMarker, rfl⟩ := hFlatten
      obtain rfl := Marker.toByte_injective hMarker
      obtain ⟨fuel, rfl⟩ : ∃ n, fuel = n + 1 := ⟨fuel - 1, by simp at hFuel; omega⟩
      obtain ⟨t, hRead, hFailureT, hPendingT⟩ :=
        hEntry next hNext s (tail ++ more) hFailure (by rw [hPending]; simp)
      rw [readEntries_start, bind_of_ok hRead]
      by_cases hKnown : (done.any fun d => d.name == e.name) = true
      · refine ⟨e.name, ?_, by rw [if_pos hKnown]; rfl⟩
        have hBefore := List.count_pos_iff.mpr (any_name_iff.mp hKnown)
        rw [List.map_append, List.map_cons, List.map_reverse, List.count_append,
          List.count_reverse, List.count_cons_self]
        omega
      · have hDone' : ((e :: done).map name).Nodup := by
          rw [List.map_cons, List.nodup_cons]
          exact ⟨fun hMem => hKnown (any_name_iff.mpr hMem), hDone⟩
        have hSame : (e :: done).reverse ++ entries = done.reverse ++ e :: entries := by simp
        rw [if_neg hKnown, ← hSame]
        exact ih hEncoded hTail (by simpa using hFuel) hDone' (by rwa [hSame]) hFailureT hPendingT

/-- Every entry takes up at least a byte, so the loop over them goes around often enough. -/
theorem length_mapM_encode {entries : List DelegateEntry} {encoded : List Bytes}
    (h : entries.mapM encode = .ok encoded) : entries.length ≤ encoded.flatten.length := by
  induction entries generalizing encoded with
  | nil => simp
  | cons e entries ih =>
      simp only [List.mapM_cons, Except.bind_eq_ok, Except.pure_eq_ok] at h
      obtain ⟨bytes, hBytes, encoded, hEncoded, rfl⟩ := h
      obtain ⟨body, rfl, -⟩ := reads_readEntry hBytes
      have hLe := ih hEncoded
      simp only [List.length_cons, List.flatten_cons, List.length_append]
      omega

end DelegateEntry

/-! ### Containers -/

namespace ContainerReader

/-- A list with a name in it twice is refused, and the fault names one that is. -/
theorem readDelegates_of_repeated {entries : List DelegateEntry} {encoded : List Bytes}
    (h : entries.mapM DelegateEntry.encode = .ok encoded)
    (hRepeated : ¬(entries.map DelegateEntry.name).Nodup) {s : ByteSource} {rest : Bytes}
    (hFailure : s.failure = none)
    (hPending : s.pending = encoded.flatten ++ [Marker.delegateListEnd.toByte] ++ rest) :
    ∃ repeated, 1 < (entries.map DelegateEntry.name).count repeated ∧
      readDelegates s = .error (.repeatedName repeated) := by
  obtain ⟨marker, tail, -, hFlatten, -⟩ := DelegateEntry.reads_readEntries h
  have hFuel : entries.length ≤ s.pending.length := by
    have hLength := DelegateEntry.length_mapM_encode h
    rw [hPending, List.length_append, List.length_append]
    omega
  rw [hFlatten] at hPending
  obtain ⟨t, hMarker, hFailureT, hPendingT⟩ :=
    reads_readMarker marker s (tail ++ rest) hFailure hPending
  have hDone : (([] : List DelegateEntry).map DelegateEntry.name).Nodup := List.Pairwise.nil
  rw [readDelegates_apply, bind_of_ok hMarker]
  exact DelegateEntry.readEntries_of_repeated h hFlatten hFuel hDone hRepeated hFailureT hPendingT

/-- Delegates with different names are read back. -/
theorem reads_readDelegates {entries : List DelegateEntry} {encoded : List Bytes}
    (h : entries.mapM DelegateEntry.encode = .ok encoded)
    (hNames : (entries.map DelegateEntry.name).Nodup) :
    Reads readDelegates (encoded.flatten ++ [Marker.delegateListEnd.toByte]) entries := by
  obtain ⟨marker, tail, -, hFlatten, hEntries⟩ := DelegateEntry.reads_readEntries h
  intro s rest hFailure hPending
  have hFuel : entries.length ≤ s.pending.length := by
    have hLength := DelegateEntry.length_mapM_encode h
    rw [hPending, List.length_append, List.length_append]
    omega
  rw [hFlatten] at hPending
  exact reads_bind (reads_readMarker marker) (hEntries _ [] hFuel hNames) s rest hFailure hPending

/-- The stages between the version and the end. -/
def readBody : ContainerReader (Bytes × List DelegateEntry) := do
  let snapshot ← readSnapshot
  let delegates ← readDelegates
  return (snapshot, delegates)

/-- The body of a container shows where it ends. -/
theorem isLocal_readBody : IsLocal readBody :=
  isLocal_bind isLocal_readSnapshot fun _ => isLocal_bind isLocal_readDelegates fun _ =>
    isLocal_pure _

/-- A container is its version and its body, with a check behind it that nothing follows. -/
theorem readContainer_eq : readContainer = readVersion >>= fun version => readBody >>= fun body =>
    finish >>= fun _ => pure ⟨version, body.1, body.2⟩ := by
  simp [readContainer, readBody]

end ContainerReader

namespace Container

/-- The bytes of a container are a version and a body. The body reads back, unless the delegates
repeat a name. -/
theorem encode_eq_ok {c : Container} {bytes : Bytes} (h : c.encode = .ok bytes) :
    ∃ body, bytes = (magic ++ c.version.encode) ++ body ∧
      ((c.delegates.map DelegateEntry.name).Nodup →
        Reads readBody body (c.snapshot, c.delegates)) ∧
      (¬(c.delegates.map DelegateEntry.name).Nodup → ∀ s rest, s.failure = none →
        s.pending = body ++ rest → ∃ repeated,
          1 < (c.delegates.map DelegateEntry.name).count repeated ∧
            readBody s = .error (.repeatedName repeated)) := by
  simp only [encode, Except.bind_eq_ok, Except.pure_eq_ok] at h
  obtain ⟨snapshot, hSnapshot, encoded, hEncoded, rfl⟩ := h
  refine ⟨snapshot ++ (encoded.flatten ++ [Marker.delegateListEnd.toByte] ++ []), by simp, ?_, ?_⟩
  · intro hNames
    exact reads_bind (reads_readSnapshot hSnapshot)
      (reads_bind (reads_readDelegates hEncoded hNames) (reads_pure _))
  · intro hRepeated s rest hFailure hPending
    rw [List.append_assoc] at hPending
    obtain ⟨t, hRead, hFailureT, hPendingT⟩ :=
      reads_readSnapshot hSnapshot s _ hFailure hPending
    rw [List.append_nil] at hPendingT
    obtain ⟨repeated, hCount, hDelegates⟩ :=
      readDelegates_of_repeated hEncoded hRepeated hFailureT hPendingT
    exact ⟨repeated, hCount, (bind_of_ok hRead).trans (bind_of_error hDelegates)⟩

/-! ### Fields -/

end Container

/-- The byte strings that an entry is written as, without their lengths. -/
def DelegateEntry.fields (e : DelegateEntry) : List Bytes :=
  Text.Utf8.encode e.name :: Text.Utf8.encode e.displayName :: Text.Utf8.encode e.typeKey ::
    e.state.toList

/-- An entry can be written if each of its fields can. -/
theorem DelegateEntry.encode_isOk_iff {e : DelegateEntry} : (∃ bytes, e.encode = .ok bytes) ↔
    ∀ field ∈ e.fields, field.length ≤ Field.maxLength := by
  simp only [fields, List.forall_mem_cons, Option.mem_toList]
  constructor
  · rintro ⟨bytes, h⟩
    simp only [encode, Except.bind_eq_ok] at h
    obtain ⟨name, hName, displayName, hDisplayName, typeKey, hTypeKey, h⟩ := h
    refine ⟨Field.length_le_of_encode hName, Field.length_le_of_encode hDisplayName,
      Field.length_le_of_encode hTypeKey, fun state hState => ?_⟩
    rw [hState] at h
    simp only [Except.bind_eq_ok] at h
    obtain ⟨framed, hFramed, -⟩ := h
    exact Field.length_le_of_encode hFramed
  · rintro ⟨hName, hDisplayName, hTypeKey, hState⟩
    simp only [encode, Field.encodeText, Field.encode_of_length_le hName,
      Field.encode_of_length_le hDisplayName, Field.encode_of_length_le hTypeKey]
    cases hFound : e.state with
    | none => exact ⟨_, rfl⟩
    | some state =>
        simp only [Field.encode_of_length_le (hState state hFound)]
        exact ⟨_, rfl⟩

namespace Container

/-- All byte strings in a container: the snapshot, and the texts and states of the delegates. -/
def fields (c : Container) : List Bytes := c.snapshot :: c.delegates.flatMap DelegateEntry.fields

/-- No field is too long. -/
def Fits (c : Container) : Prop := ∀ field ∈ c.fields, field.length ≤ Field.maxLength

/-- A container can be written exactly if it fits. -/
theorem encode_isOk_iff {c : Container} : (∃ bytes, c.encode = .ok bytes) ↔ c.Fits := by
  simp only [Fits, fields, List.forall_mem_cons, List.mem_flatMap, forall_exists_index, and_imp]
  constructor
  · rintro ⟨bytes, h⟩
    simp only [encode, Except.bind_eq_ok] at h
    obtain ⟨snapshot, hSnapshot, encoded, hEncoded, -⟩ := h
    refine ⟨Field.length_le_of_encode hSnapshot, fun field e hMem => ?_⟩
    have hEntry := Except.mapM_isOk_iff.mp ⟨encoded, hEncoded⟩ e hMem
    exact DelegateEntry.encode_isOk_iff.mp hEntry field
  · rintro ⟨hSnapshot, hDelegates⟩
    obtain ⟨encoded, hEncoded⟩ := Except.mapM_isOk_iff.mpr fun e hMem =>
      DelegateEntry.encode_isOk_iff.mpr fun field => hDelegates field e hMem
    simp only [encode, Field.encode_of_length_le hSnapshot, hEncoded]
    exact ⟨_, rfl⟩

/-! ### Reading back -/

/-- A container reads back from its bytes if its delegates have different names. -/
theorem decode_of_encode {c : Container} {bytes : Bytes} (h : c.encode = .ok bytes)
    (hNames : (c.delegates.map DelegateEntry.name).Nodup) : decode bytes = .ok c := by
  obtain ⟨body, rfl, hBody, -⟩ := encode_eq_ok h
  obtain ⟨s, hVersion, hFailure, hPending⟩ :=
    reads_readVersion c.version (.ofBytes (magic ++ c.version.encode ++ body)) body rfl rfl
  obtain ⟨t, hRead, hFailure, hPending⟩ :=
    hBody hNames s [] hFailure (by rw [hPending, List.append_nil])
  obtain ⟨u, hFinish⟩ := (finish_eq_ok_iff hFailure).mpr hPending
  refine run'_eq_ok_iff.mpr ⟨u, ?_⟩
  rw [readContainer_eq, bind_of_ok hVersion, bind_of_ok hRead, bind_of_ok hFinish]
  rfl

/-- A container whose delegates repeat a name does not read back, and the fault says which one. -/
theorem decode_of_repeated {c : Container} {bytes : Bytes} (h : c.encode = .ok bytes)
    (hRepeated : ¬(c.delegates.map DelegateEntry.name).Nodup) :
    ∃ repeated, 1 < (c.delegates.map DelegateEntry.name).count repeated ∧
      decode bytes = .error (.repeatedName repeated) := by
  obtain ⟨body, rfl, -, hBody⟩ := encode_eq_ok h
  obtain ⟨s, hVersion, hFailure, hPending⟩ :=
    reads_readVersion c.version (.ofBytes (magic ++ c.version.encode ++ body)) body rfl rfl
  obtain ⟨repeated, hCount, hRead⟩ :=
    hBody hRepeated s [] hFailure (by rw [hPending, List.append_nil])
  refine ⟨repeated, hCount, ?_⟩
  apply run'_of_error
  rw [readContainer_eq, bind_of_ok hVersion, bind_of_error hRead]

/-- A container has bytes if none of its fields is too long, and they decode to the container, with
all its delegates in order, each with a state exactly if it had one. Only if two delegates have one
name the bytes are refused, and the fault says which name that is. -/
theorem decode_encode_of_fits {c : Container} (h : c.Fits) : ∃ bytes, c.encode = .ok bytes ∧
    ((c.delegates.map DelegateEntry.name).Nodup → decode bytes = .ok c) ∧
    (¬(c.delegates.map DelegateEntry.name).Nodup → ∃ repeated,
      1 < (c.delegates.map DelegateEntry.name).count repeated ∧
        (decode bytes).mapError SaveFault.ofContainer =
          .error (.corruptContainer (.container (.repeatedName repeated)))) := by
  obtain ⟨bytes, hEncode⟩ := encode_isOk_iff.mpr h
  refine ⟨bytes, hEncode, decode_of_encode hEncode, fun hRepeated => ?_⟩
  obtain ⟨repeated, hCount, hDecode⟩ := decode_of_repeated hEncode hRepeated
  exact ⟨repeated, hCount, by rw [hDecode]; rfl⟩

/-- Names and states that look like markers, a state without bytes, and one of the names twice. -/
theorem decode_encode_of_fits_marker_names :
    let move : DelegateEntry := ⟨"\u00DF", "", "move", none⟩
    let buy : DelegateEntry := ⟨"\u00D1\u00D2", "\u00DF", "purchase", some []⟩
    let c : Container := ⟨.engine, [0xD1, 0xD2, 0xDF], [move, buy]⟩
    let twice : Container := { c with delegates := [move, buy, { move with state := some [0xDF] }] }
    (∃ bytes, c.encode = .ok bytes ∧ decode bytes = .ok c) ∧
      ∃ bytes repeated, twice.encode = .ok bytes ∧ (decode bytes).mapError SaveFault.ofContainer =
        .error (.corruptContainer (.container (.repeatedName repeated))) := by
  intro move buy c twice
  constructor
  · have hFits : c.Fits := by unfold Fits; decide +kernel
    obtain ⟨bytes, hEncode, hDecode, -⟩ := decode_encode_of_fits hFits
    exact ⟨bytes, hEncode, hDecode (by decide)⟩
  · have hFits : twice.Fits := by unfold Fits; decide +kernel
    obtain ⟨bytes, hEncode, -, hDecode⟩ := decode_encode_of_fits hFits
    obtain ⟨repeated, -, hFault⟩ := hDecode (by decide)
    exact ⟨bytes, repeated, hEncode, hFault⟩

/-- Of a container that is cut off, the version is read if it is all there, and the body is not. -/
theorem readBody_of_cut {c : Container} {bytes front : Bytes} (h : c.encode = .ok bytes)
    (hPrefix : front <+: bytes) (hNe : front ≠ bytes) {version : Version} {rest : ByteSource}
    (hRead : readVersion (.ofBytes front) = .ok (version, rest)) :
    (∃ whole, readVersion (.ofBytes bytes) = .ok (version, whole)) ∧
      ∃ fault, readBody rest = .error fault := by
  obtain ⟨more, rfl⟩ := hPrefix
  obtain ⟨body, hBytes, hBody, hRepeated⟩ := encode_eq_ok h
  have hExtends : Extends (.ofBytes front) (.ofBytes (front ++ more)) more := ⟨rfl, rfl, rfl⟩
  obtain ⟨whole, hWhole, hExtendsRest⟩ := isLocal_readVersion _ _ _ _ _ hExtends hRead
  refine ⟨⟨whole, hWhole⟩, ?_⟩
  obtain ⟨s, hVersion, hFailure, hPending⟩ :=
    reads_readVersion c.version (.ofBytes (front ++ more)) body rfl hBytes
  obtain ⟨-, rfl⟩ := Prod.mk.inj (Except.ok.inj (hWhole.symm.trans hVersion))
  cases hFront : readBody rest with
  | error fault => exact ⟨fault, rfl⟩
  | ok found =>
      -- Then the body is read from the whole bytes as well, but it does not end where they do.
      exfalso
      obtain ⟨t, hBodyWhole, hExtendsEnd⟩ := isLocal_readBody _ _ _ _ _ hExtendsRest hFront
      by_cases hNames : (c.delegates.map DelegateEntry.name).Nodup
      · obtain ⟨u, hU, -, hPendingU⟩ :=
          hBody hNames whole [] hFailure (by rw [hPending, List.append_nil])
        obtain ⟨-, rfl⟩ := Prod.mk.inj (Except.ok.inj (hBodyWhole.symm.trans hU))
        have hEnd := hExtendsEnd.pending_eq
        rw [hPendingU] at hEnd
        have hMore : more = [] := (List.append_eq_nil_iff.mp hEnd.symm).2
        exact hNe (by rw [hMore, List.append_nil])
      · obtain ⟨repeated, -, hError⟩ :=
          hRepeated hNames whole [] hFailure (by rw [hPending, List.append_nil])
        cases hBodyWhole.symm.trans hError

end Container

end GameSave
