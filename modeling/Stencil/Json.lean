import Stencil.Table

/-!
# JSON values and faults

The values that a JSON document can hold, and the ways in which a text fails to be
one.
-/

namespace Stencil

inductive Json where
  | null
  | boolean (truth : Bool)
  /-- A number as it is written. -/
  | number (literal : Text)
  | string (content : Text)
  | list (items : List Json)
  /-- The entries in the order in which they are visited. -/
  | object (entries : List (Text × Json))
  deriving Repr

namespace Json

/-- The object with these members. Its entries are visited in the order of their names, and
of members with one name the last counts. -/
def ofMembers (members : List (Text × Json)) : Json := .object (Table.ofList members).entries

inductive Fault where
  | endInValue
  | endInString
  | endInList
  | endInObject
  | expectedValue
  | expectedWord
  | expectedColon
  | expectedListEnd
  | expectedObjectEnd
  | keyNotString
  | trailingComma
  | trailingCharacters
  | invalidNumber
  | numberOutOfRange
  | invalidEscape
  | controlCharacter
  | endInHexEscape
  | loneSurrogate
  | recursionLimit
  deriving DecidableEq, Repr

namespace Fault

def message : Fault → String
  | endInValue => "EOF while parsing a value"
  | endInString => "EOF while parsing a string"
  | endInList => "EOF while parsing a list"
  | endInObject => "EOF while parsing an object"
  | expectedValue => "expected value"
  | expectedWord => "expected ident"
  | expectedColon => "expected `:`"
  | expectedListEnd => "expected `,` or `]`"
  | expectedObjectEnd => "expected `,` or `" ++ String.singleton '}' ++ "`"
  | keyNotString => "key must be a string"
  | trailingComma => "trailing comma"
  | trailingCharacters => "trailing characters"
  | invalidNumber => "invalid number"
  | numberOutOfRange => "number out of range"
  | invalidEscape => "invalid escape"
  | controlCharacter => "control character (\\u0000-\\u001F) found while parsing a string"
  | endInHexEscape => "unexpected end of hex escape"
  | loneSurrogate => "lone leading surrogate in hex escape"
  | recursionLimit => "recursion limit exceeded"

/-- Whether more text could have mended the document. -/
def isEnd : Fault → Bool
  | endInValue | endInString | endInList | endInObject => true
  | _ => false

end Fault

/-- A fault met while reading: the place is `past` bytes into what was left, `rest`. -/
structure Stop where
  fault : Fault
  rest : Text
  past : Nat
  deriving DecidableEq, Repr

def stop {α : Type} (fault : Fault) (rest : Text) (past : Nat) : Except Stop α :=
  .error ⟨fault, rest, past⟩

theorem exists_of_map_eq_ok {α β : Type} {result : Except Stop α} {f : α → β} {b : β}
    (h : result.map f = .ok b) : ∃ a, result = .ok a ∧ f a = b := by
  cases result with
  | error s => cases h
  | ok a => exact ⟨a, rfl, Except.ok.inj h⟩

/-! ## Places in a document -/

/-- A line, counted from one, and the bytes before the place on that line. -/
structure Position where
  line : Nat
  column : Nat
  deriving DecidableEq, Repr

namespace Position

def start : Position := ⟨1, 0⟩

/-- The position `count` bytes further on in the text, which may be inside a character. -/
def advance (p : Position) : Text → Nat → Position
  | [], _ => p
  | c :: t, count =>
      if count = 0 then p
      else if c = '\n' then advance ⟨p.line + 1, 0⟩ t (count - 1)
      else if c.utf8Size ≤ count then
        advance ⟨p.line, p.column + c.utf8Size⟩ t (count - c.utf8Size)
      else ⟨p.line, p.column + count⟩

end Position

/-- A place may be inside a character. -/
example : Position.start.advance ['a', '\n', 'é'] 3 = ⟨2, 1⟩ := by decide +kernel

/-- A fault and its place in the document. -/
structure Error where
  fault : Fault
  position : Position
  deriving DecidableEq, Repr

namespace Error

def message (e : Error) : String :=
  e.fault.message ++ " at line " ++ toString e.position.line ++ " column " ++
    toString e.position.column

end Error

/-- A way to read whole documents. -/
abbrev DocumentReader := Text → Except Error Json

def Stop.inDocument (s : Stop) (document : Text) : Error :=
  ⟨s.fault, Position.start.advance document (document.bytes - s.rest.bytes + s.past)⟩

/-! ## Spaces -/

def isSpace (c : Char) : Bool := c = ' ' || c = '\n' || c = '\t' || c = '\r'

def skipSpaces (t : Text) : Text := t.dropWhile isSpace

/-- The next character that is not a space, and the text after it. -/
def nextSolid? (t : Text) : Option (Char × Text) :=
  match skipSpaces t with
  | [] => none
  | c :: rest => some (c, rest)

theorem nextSolid?_shorter {t rest : Text} {c : Char} (h : nextSolid? t = some (c, rest)) :
    rest.length < t.length := by
  have hle : (skipSpaces t).length ≤ t.length := (List.dropWhile_sublist isSpace).length_le
  unfold nextSolid? at h
  split at h
  · cases h
  · next hskip =>
      cases h
      simp only [hskip, List.length_cons] at hle
      exact hle

end Json

end Stencil
