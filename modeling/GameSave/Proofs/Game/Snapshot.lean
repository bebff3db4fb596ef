import GameSave.Game.Snapshot
import GameSave.Proofs.Column.Delimited

/-! Snapshots show the game that they were taken of. -/

namespace GameSave

open Column

/-- What is counted in players: the bytes of their names and of their alliances. -/
def Player.counts : Counts Player :=
  (Counts.text.prod (Counts.text.prod (.prod [] []))).comap fun p =>
    (p.name, p.alliance, p.resources, p.ai)

theorem Player.delimitedBy_column : Player.column.DelimitedBy Player.counts := by
  refine delimitedBy_imap ?_ (fun _ => rfl) fun _ _ _ => Nat.le_refl _
  exact delimitedBy_prod delimitedBy_text (delimitedBy_prod delimitedBy_text
    (delimitedBy_prod delimitedBy_word delimitedBy_flag))

/-- What is counted in territories: the bytes of their names and of those of their owners, and their
units. -/
def Territory.counts : Counts Territory :=
  (Counts.text.prod (Counts.text.option.prod (.prod [] (.prod [] (.stringMap []))))).comap fun t =>
    (t.name, t.owner, t.production, t.water, t.units)

theorem Territory.delimitedBy_column : Territory.column.DelimitedBy Territory.counts := by
  refine delimitedBy_imap ?_ (fun _ => rfl) fun _ _ _ => Nat.le_refl _
  exact delimitedBy_prod delimitedBy_text (delimitedBy_prod (delimitedBy_option delimitedBy_text)
    (delimitedBy_prod delimitedBy_word (delimitedBy_prod delimitedBy_flag
      (delimitedBy_stringMap delimitedBy_word))))

namespace Game

def columnCounts : Counts Game :=
  (Counts.text.prod (.prod [] (Counts.text.option.prod (Player.counts.list.prod
    (Territory.counts.list.prod (.stringMap .text)))))).comap fun g =>
      (g.name, g.round, g.currentPlayer, g.players, g.territories, g.properties)

/-- A game is delimited by the counts of all that is in it. -/
theorem delimitedBy_column : column.DelimitedBy columnCounts := by
  refine delimitedBy_imap ?_ (fun _ => rfl) fun _ _ _ => Nat.le_refl _
  exact delimitedBy_prod delimitedBy_text (delimitedBy_prod delimitedBy_word
    (delimitedBy_prod (delimitedBy_option delimitedBy_text) (delimitedBy_prod
      (delimitedBy_list Player.delimitedBy_column) (delimitedBy_prod
        (delimitedBy_list Territory.delimitedBy_column) (delimitedBy_stringMap delimitedBy_text)))))

theorem countedBy_column : column.CountedBy columnCounts := delimitedBy_column.toCountedBy

/-- A snapshot of less than `Column.room` bytes is read back. -/
theorem decode_encode {g : Game} (hRoom : g.encode.length < room) : decode g.encode = some g :=
  countedBy_column.decode_encode hRoom

/-- How much there is of everything in a game: players, territories, entries for units and options,
and the bytes of each kind of text. -/
def counts (g : Game) : List Nat :=
  let size := Text.Utf8.size
  let units := g.territories.map fun t => t.units.toList
  let options := g.properties.toList
  [size g.name, g.currentPlayer.elim 0 size,
    g.players.length,
    Lengths.total (g.players.map fun p => size p.name),
    Lengths.total (g.players.map fun p => size p.alliance),
    g.territories.length,
    Lengths.total (g.territories.map fun t => size t.name),
    Lengths.total (g.territories.map fun t => t.owner.elim 0 size),
    Lengths.total (units.map List.length),
    Lengths.total (units.map fun entries => Lengths.total (entries.map fun entry => size entry.1)),
    options.length,
    Lengths.total (options.map fun option => size option.1),
    Lengths.total (options.map fun option => size option.2)]

theorem map_columnCounts (g : Game) : columnCounts.map (fun count => count g) = g.counts := by
  simp only [counts, List.map_map]
  rfl

/-- A snapshot shows the game that it was taken of, whatever the texts and numbers in it and however
many players, territories, units and options it has. The one bound is that of the format, which
takes no count from `Lengths.limit` on, about two million gigabytes. All that is counted takes up
memory, so this is far beyond every game that there can be. -/
theorem decode_encode_iff (g : Game) :
    decode g.encode = some g ↔ ∀ count ∈ g.counts, count < Lengths.limit := by
  rw [← map_columnCounts, List.forall_mem_map]
  exact countedBy_column.decode_encode_eq_some_iff

/-- A game with a text too long for a byte to hold its length, a territory with units and one
without an owner. -/
theorem decode_encode_iff_long_name :
    let units := (StringMap.empty.insert "armour" 4294967295).insert "" 0
    let g : Game :=
      { Game.new (String.ofList (List.replicate 300 'x')) with
        players := [⟨"Blue", "", 0, true⟩, ⟨"Red", "Reds", 7, false⟩]
        territories := [⟨"Kent", some "Blue", 3, false, units⟩, ⟨"Sea", none, 0, true, .empty⟩] }
    decode g.encode = some g := by
  intro units g
  exact (decode_encode_iff g).mpr (by decide +kernel)

end Game

end GameSave
