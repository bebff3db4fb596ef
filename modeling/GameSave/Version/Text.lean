import GameSave.Version.Basic
import GameSave.Text.Blank
/-!
Versions as text: `1.9.0.3`, or `1_9_0_3`, or without the build.
-/

namespace GameSave

/-- A text that is no version. -/
structure MalformedVersion where
  /-- The text as it was given, with any white space around it. -/
  text : String
deriving DecidableEq, Repr

def MalformedVersion.message (e : MalformedVersion) : String :=
  "invalid version string: " ++ e.text

namespace Version

/-- The components in decimal with a separator between them. -/
def render (v : Version) (separator : String) (ignoreBuild : Bool) : String :=
  let engine := v.major.toNat.repr ++ separator ++ v.minor.toNat.repr ++ separator ++
    v.patch.toNat.repr
  if ignoreBuild then engine else engine ++ separator ++ v.build.toNat.repr

/-- The common form, `major.minor.patch.build`. -/
instance : ToString Version where
  toString v := v.render "." false

/-- A component: an optional plus sign and at least one decimal digit, in the range of 32 bits. -/
def parseComponent (cs : List Char) : Option UInt32 :=
  let digits := if cs.head? = some '+' then cs.tail else cs
  if digits ≠ [] ∧ digits.all Char.isDigit then
    let n := Nat.ofDigitChars 10 digits 0
    if n < UInt32.size then some (UInt32.ofNat n) else none
  else none

def isSeparator (c : Char) : Bool := c == '.' || c == '_'

/-- Reads three or four components, between white space that does not count. A missing build is
zero. -/
def parse? (s : String) : Option Version :=
  match ((Text.trim s.toList).splitOnP isSeparator).mapM parseComponent with
  | some [major, minor, patch] => some ⟨major, minor, patch, 0⟩
  | some [major, minor, patch, build] => some ⟨major, minor, patch, build⟩
  | _ => none

/-- The version that a text spells; the error quotes the whole text. -/
def parse (s : String) : Except MalformedVersion Version :=
  match parse? s with
  | some v => .ok v
  | none => .error ⟨s⟩

end Version

end GameSave
