/-!
Engine versions: four numbers, of which the first three say which saves an engine can read and
the fourth counts builds of the same engine.
-/

namespace GameSave

/-- The version of an engine. -/
structure Version where
  major : UInt32
  minor : UInt32
  patch : UInt32
  build : UInt32
deriving DecidableEq, Repr, Inhabited

namespace Version

/-- The version of the engine that this library belongs to. -/
def engine : Version := ⟨1, 9, 0, 3⟩

/-- The first three components agree. An engine reads the saves of exactly these engines. -/
def isEngineCompatible (a b : Version) : Bool :=
  a.major == b.major && a.minor == b.minor && a.patch == b.patch

/-- The order of the first three components, the earlier deciding first. -/
def compareEngine (a b : Version) : Ordering :=
  (compare a.major b.major).then <| (compare a.minor b.minor).then <| compare a.patch b.patch

/-- The order of all four components, the earlier deciding first. -/
instance : Ord Version where
  compare a b :=
    (compare a.major b.major).then <| (compare a.minor b.minor).then <|
      (compare a.patch b.patch).then <| compare a.build b.build

/-- Equality, of all components or of those before the build. -/
def equals (a b : Version) (ignoreBuild : Bool) : Bool :=
  if ignoreBuild then a.isEngineCompatible b else a == b

/-- The strict order, with or without a say for the build. -/
def isGreaterThan (a b : Version) (ignoreBuild : Bool) : Bool :=
  if ignoreBuild || a.compareEngine b != .eq then a.compareEngine b == .gt
  else b.build < a.build

end Version

end GameSave
