import GameSave.StringMap
/-!
Reading JSON texts straight into values of known types.

A text is read once, from left to right, and the first fault counts. What is not asked for is
skipped, however deep it is nested, but it has to be JSON all the same.
-/

namespace GameSave.Json

/-- Why a text was not read. -/
inductive Fault (ε : Type) where
  /-- It is not JSON, or not of the right form. -/
  | malformed
  /-- A value in it was refused. -/
  | refused (reason : ε)
deriving DecidableEq, Repr

/-- Takes a value off the front of a text. -/
abbrev Reader (ε α : Type) := StateT (List Char) (Except (Fault ε)) α

namespace Reader

variable {ε α σ : Type}

def fail : Reader ε α := throw .malformed

/-- White space between the parts of a text. -/
def isSpace (c : Char) : Bool := c == ' ' || c == '\t' || c == '\n' || c == '\r'

/-- Skips white space and shows the character after it. -/
def peek? : Reader ε (Option Char) :=
  modifyGet fun text =>
    let rest := text.dropWhile isSpace
    (rest.head?, rest)

def next : Reader ε Char := do
  match ← get with
  | [] => fail
  | c :: rest =>
    set rest
    return c

/-- Takes a character that must come next, white space or not. -/
def take (c : Char) : Reader ε Unit := do
  if (← next) ≠ c then fail

/-- Takes a character that must come next after white space. -/
def expect (c : Char) : Reader ε Unit := do
  discard peek?
  take c

/-- Takes a word that must come next after white space. -/
def word (w : String) : Reader ε Unit := do
  discard peek?
  w.toList.forM take

/-! ### Texts -/

def hexDigit? (c : Char) : Option Nat :=
  if c.isDigit then some (c.toNat - '0'.toNat)
  else if 'a' ≤ c ∧ c ≤ 'f' then some (c.toNat - 'a'.toNat + 10)
  else if 'A' ≤ c ∧ c ≤ 'F' then some (c.toNat - 'A'.toNat + 10)
  else none

def codeUnit : Reader ε Nat := do
  let digit : Reader ε Nat := do
    match hexDigit? (← next) with
    | some d => return d
    | none => fail
  let a ← digit
  let b ← digit
  let c ← digit
  let d ← digit
  return ((a * 16 + b) * 16 + c) * 16 + d

/-- The character that an escape of one letter stands for. -/
def simpleEscape? : Char → Option Char
  | '"' => some '"'
  | '\\' => some '\\'
  | '/' => some '/'
  | 'b' => some '\x08'
  | 'f' => some '\x0c'
  | 'n' => some '\n'
  | 'r' => some '\r'
  | 't' => some '\t'
  | _ => none

/-- Whether a code unit is the first half of a pair. -/
def isHighSurrogate (unit : Nat) : Bool := 0xD800 ≤ unit && unit < 0xDC00

/-- Whether a code unit is the second half of a pair. -/
def isLowSurrogate (unit : Nat) : Bool := 0xDC00 ≤ unit && unit < 0xE000

/-- The character after a backslash. A character beyond the first plane takes two code units, and
half of such a pair is no character. -/
def escaped : Reader ε Char := do
  let letter ← next
  if letter = 'u' then
    let unit ← codeUnit
    if isLowSurrogate unit then fail
    if isHighSurrogate unit then
      take '\\'
      take 'u'
      let low ← codeUnit
      if !isLowSurrogate low then fail
      return Char.ofNat (0x10000 + (unit - 0xD800) * 0x400 + (low - 0xDC00))
    else return Char.ofNat unit
  else
    match simpleEscape? letter with
    | some c => return c
    | none => fail

/-- Skips the character after a backslash. Halves of pairs are not told from characters. -/
def skipEscaped : Reader ε Unit := do
  let letter ← next
  if letter = 'u' then discard codeUnit
  else if (simpleEscape? letter).isNone then fail

/-- The rest of a text after its first quotation mark; the characters before it, in reverse order,
are `done`. -/
def textRest : (fuel : Nat) → (done : List Char) → Reader ε String
  | 0, _ => fail
  | fuel + 1, done => do
    let c ← next
    if c = '"' then return String.ofList done.reverse
    else if c = '\\' then textRest fuel ((← escaped) :: done)
    else if c.toNat < 0x20 then fail
    else textRest fuel (c :: done)

/-- Skips the rest of a text after its first quotation mark. -/
def skipTextRest : (fuel : Nat) → Reader ε Unit
  | 0 => fail
  | fuel + 1 => do
    let c ← next
    if c = '"' then return
    else if c = '\\' then
      skipEscaped
      skipTextRest fuel
    else if c.toNat < 0x20 then fail
    else skipTextRest fuel

/-! ### Numbers -/

def digits : Reader ε (List Char) := modifyGet fun text => text.span Char.isDigit

/-- The digits of a whole number: at least one, and no zero before others. -/
def wholeDigits : Reader ε (List Char) := do
  match ← digits with
  | [] => fail
  | '0' :: _ :: _ => fail
  | ds => return ds

/-- Takes one of some characters if one of them comes next. -/
def takeOneOf? (cs : List Char) : Reader ε Bool := do
  match ← get with
  | c :: rest =>
    if cs.contains c then
      set rest
      return true
    else return false
  | [] => return false

def skipNumber : Reader ε Unit := do
  discard <| takeOneOf? ['-']
  discard wholeDigits
  if ← takeOneOf? ['.'] then
    if (← digits) = [] then fail
  if ← takeOneOf? ['e', 'E'] then
    discard <| takeOneOf? ['+', '-']
    if (← digits) = [] then fail

/-! ### Values that are not asked for -/

/-- The brackets around what is being skipped. -/
inductive Bracket where
  | array
  | object
deriving DecidableEq, Repr

def Bracket.close : Bracket → Char
  | array => ']'
  | object => '}'

/-- Skips the name of a member and the colon after it. -/
def skipName (fuel : Nat) : Reader ε Unit := do
  expect '"'
  skipTextRest fuel
  expect ':'

/-- Skips what comes before an element of a bracket: the name, in an object. -/
def skipElementStart (fuel : Nat) : Bracket → Reader ε Unit
  | .array => return
  | .object => skipName fuel

/-- Closes brackets after a complete value, up to one that goes on with another element. -/
def skipClosing : (fuel : Nat) → List Bracket → Reader ε (List Bracket)
  | _, [] => return []
  | 0, _ => fail
  | fuel + 1, bracket :: outer => do
    let c ← peek?
    if c = some ',' then
      take ','
      skipElementStart fuel bracket
      return bracket :: outer
    else
      take bracket.close
      skipClosing fuel outer

/-- Opens a bracket. If it is empty, it is a complete value, and brackets are closed after it. -/
def skipOpening (fuel : Nat) (bracket : Bracket) (outer : List Bracket) :
    Reader ε (List Bracket) := do
  discard next
  if (← peek?) = some bracket.close then
    take bracket.close
    skipClosing fuel outer
  else
    skipElementStart fuel bracket
    return bracket :: outer

/-- Skips a value inside some brackets, and goes on until they are all closed. -/
def skipWithin : (fuel : Nat) → List Bracket → Reader ε Unit
  | 0, _ => fail
  | fuel + 1, outer => do
    let unclosed ← match ← peek? with
      | some '[' => skipOpening fuel .array outer
      | some '{' => skipOpening fuel .object outer
      | some '"' =>
        take '"'
        skipTextRest fuel
        skipClosing fuel outer
      | some 'n' =>
        word "null"
        skipClosing fuel outer
      | some 't' =>
        word "true"
        skipClosing fuel outer
      | some 'f' =>
        word "false"
        skipClosing fuel outer
      | some _ =>
        skipNumber
        skipClosing fuel outer
      | none => fail
    if unclosed = [] then return else skipWithin fuel unclosed

def skipValue (fuel : Nat) : Reader ε Unit := skipWithin fuel []

/-! ### Values that are asked for -/

def text (fuel : Nat) : Reader ε String := do
  expect '"'
  textRest fuel []

def truth : Reader ε Bool := do
  match ← peek? with
  | some 't' =>
    word "true"
    return true
  | some 'f' =>
    word "false"
    return false
  | _ => fail

/-- A whole number of 32 bits, without sign, fraction and exponent. -/
def word32 : Reader ε UInt32 := do
  discard peek?
  let n := Nat.ofDigitChars 10 (← wholeDigits) 0
  if ← takeOneOf? ['.', 'e', 'E'] then fail
  if n < UInt32.size then return UInt32.ofNat n else fail

def nullable (value : Reader ε α) : Reader ε (Option α) := do
  if (← peek?) = some 'n' then
    word "null"
    return none
  else return some (← value)

/-- The members of an object from the second on, or its end. -/
def membersRest (member : String → σ → Reader ε σ) : (fuel : Nat) → σ → Reader ε σ
  | 0, _ => fail
  | fuel + 1, s => do
    if (← peek?) = some ',' then
      take ','
      let name ← text fuel
      expect ':'
      membersRest member fuel (← member name s)
    else
      take '}'
      return s

/-- An object. Each member is read, with its name known, into what came of those before it. -/
def object (fuel : Nat) (member : String → σ → Reader ε σ) (start : σ) : Reader ε σ := do
  expect '{'
  if (← peek?) = some '}' then
    take '}'
    return start
  else
    let name ← text fuel
    expect ':'
    membersRest member fuel (← member name start)

/-- The elements of an array from the second on, or its end; those that are `done` are in reverse
order. -/
def elementsRest (element : Reader ε α) : (fuel : Nat) → (done : List α) → Reader ε (List α)
  | 0, _ => fail
  | fuel + 1, done => do
    if (← peek?) = some ',' then
      take ','
      elementsRest element fuel ((← element) :: done)
    else
      take ']'
      return done.reverse

def array (fuel : Nat) (element : Reader ε α) : Reader ε (List α) := do
  expect '['
  if (← peek?) = some ']' then
    take ']'
    return []
  else elementsRest element fuel [← element]

/-- A map. Of members with one name the last counts. -/
def map (fuel : Nat) (value : Reader ε α) : Reader ε (StringMap α) :=
  object fuel (fun name m => do return m.insert name (← value)) .empty

/-! ### Records -/

/-- A member of a record: its name, whether it has been read, and how it is read. -/
structure Member (ε σ : Type) where
  name : String
  isRead : σ → Bool
  read : σ → Reader ε σ

/-- Reads a member of an object. Members that the record does not have are skipped, and no member
may occur twice. -/
def member (fuel : Nat) (members : List (Member ε σ)) (name : String) (s : σ) : Reader ε σ :=
  match members.find? fun m => m.name == name with
  | none => do
    skipValue fuel
    return s
  | some m => if m.isRead s then fail else m.read s

/-- Reads the elements of an array as members in order. It may end before the last member only if
`mayEndEarly`, and not go on after it. -/
def membersInOrder (mayEndEarly : Bool) : (first : Bool) → List (Member ε σ) → σ → Reader ε σ
  | _, [], s => do
    expect ']'
    return s
  | first, m :: members, s => do
    if (← peek?) = some ']' then
      take ']'
      if mayEndEarly then return s else fail
    else
      if !first then take ','
      membersInOrder mayEndEarly false members (← m.read s)

/-- A record: an object with its members, or an array of them in order. -/
def record (fuel : Nat) (mayEndEarly : Bool) (members : List (Member ε σ)) (start : σ) :
    Reader ε σ := do
  if (← peek?) = some '[' then
    take '['
    membersInOrder mayEndEarly true members start
  else object fuel (member fuel members) start

/-! ### Whole texts -/

/-- Reads a value and nothing else. No part of a text has more parts than the text has characters,
which gives the fuel. -/
def run (value : (fuel : Nat) → Reader ε α) (s : String) : Except (Fault ε) α :=
  let chars := s.toList
  match value (chars.length + 1) chars with
  | .error fault => .error fault
  | .ok (x, rest) => if rest.all isSpace then .ok x else .error .malformed

end Reader

end GameSave.Json
