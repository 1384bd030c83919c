import Stencil.Rule
import Stencil.Text.Slices

/-!
# The scanner by bytes

The scanner as it moves: the input stays as it is, and a cursor counts the bytes that have
been read. At the cursor every rule is tried; where none applies the cursor goes on to the
first of the places that are found for the special tags. A result is missing where a slice
would begin or end inside a character.
-/

namespace Stencil

structure ByteScanner where
  input : Text
  cursor : Nat
  inCondition : Bool
  deriving DecidableEq, Repr

namespace ByteScanner

open Scanner (Rule)

def ofText (t : Text) : ByteScanner := ⟨t, 0, false⟩

def remaining (b : ByteScanner) : Option Text := b.input.fromByte? b.cursor

def advance (b : ByteScanner) (bytes : Nat) : ByteScanner := { b with cursor := b.cursor + bytes }

theorem cursor_add_of_remaining {b : ByteScanner} {rest : Text} (h : b.remaining = some rest) :
    b.cursor + rest.bytes = b.input.bytes := by
  obtain ⟨before, hinput, hbefore⟩ := Text.eq_append_of_fromByte? h
  rw [hinput, Text.bytes_append, hbefore]

/-! ## Rules -/

/-- The token, and the scanner behind it. -/
def found (b : ByteScanner) (token : Token) (consumed : Nat) : Token × ByteScanner :=
  (token, ⟨b.input, b.cursor + consumed, token.inConditionAfter b.inCondition⟩)

/-- What the rule finds at the cursor, if it applies. -/
def tryRule (b : ByteScanner) (rule : Rule) : Option (Option (Token × ByteScanner)) := do
  if !rule.allowed b.inCondition then return none
  let rest ← b.remaining
  if !rule.tag.isPrefixOf rest then return none
  match rule.endTag? with
  | none => return some (b.found (rule.token []) rule.tag.bytes)
  | some endTag =>
      let body ← rest.fromByte? rule.tag.bytes
      match Text.offset? endTag body with
      | none => return none
      | some stop =>
          let inner ← body.untilByte? stop
          return some (b.found (rule.token inner) (rule.tag.bytes + stop + endTag.bytes))

/-- What the first of the rules finds that applies. -/
def matchRules (b : ByteScanner) : List Rule → Option (Option (Token × ByteScanner))
  | [] => some none
  | rule :: rules =>
      match b.tryRule rule with
      | some none => b.matchRules rules
      | result => result

/-! ## Literal text -/

def specialTags : List Text :=
  [Rule.placeholder, .key .ifTag, .key .openParen, .key .closeParen, .key (.connective .and),
    .key (.connective .or), .key .notOp, .flag, .key .thenTag, .key .elseTag,
    .key .endIfTag].map Rule.tag

/-- The first byte at which a special tag begins, or the end of the text. -/
def nextSpecial (rest : Text) : Nat :=
  ((specialTags.filterMap (Text.offset? · rest)).min?).getD rest.bytes

/-- A special tag at the cursor is no token, so one character of it is taken, in either
mode. Other text is passed over in a condition. -/
def rawText (b : ByteScanner) : Option (Option Token × ByteScanner) := do
  let rest ← b.remaining
  let next := nextSpecial rest
  if next = 0 then
    match rest with
    | [] => return (none, b)
    | c :: _ => return (some (.raw [c]), b.advance c.utf8Size)
  else if b.inCondition then return (none, b.advance next)
  else
    let plain ← rest.untilByte? next
    return (some (.raw plain), b.advance next)

/-- Text is passed over only by moving on. -/
theorem remaining_lt_of_rawText {b b' : ByteScanner} {c : Char} {rest : Text}
    (hrest : b.remaining = some (c :: rest)) (h : b.rawText = some (none, b')) :
    b'.input.bytes - b'.cursor < b.input.bytes - b.cursor := by
  have hbytes := cursor_add_of_remaining hrest
  have hpos := c.utf8Size_pos
  rw [Text.bytes_cons] at hbytes
  unfold rawText at h
  rw [hrest] at h
  simp only [Option.bind_eq_bind, Option.bind_some] at h
  split at h
  · cases h
  · next hnext =>
      split at h
      · cases h
        simp only [advance]
        omega
      · obtain ⟨plain, -, heq⟩ := Option.bind_eq_some_iff.mp h
        cases heq

/-! ## Tokens -/

/-- One turn at the cursor: a rule, or else literal text. -/
def turn (b : ByteScanner) : Option (Option Token × ByteScanner) :=
  match b.matchRules Rule.all with
  | some (some (token, b')) => some (some token, b')
  | some none => b.rawText
  | none => none

theorem remaining_lt_of_turn {b b' : ByteScanner} {c : Char} {rest : Text}
    (hrest : b.remaining = some (c :: rest)) (h : b.turn = some (none, b')) :
    b'.input.bytes - b'.cursor < b.input.bytes - b.cursor := by
  unfold turn at h
  split at h
  · cases h
  · exact remaining_lt_of_rawText hrest h
  · cases h

/-- The next token, if there is one. -/
def nextToken (b : ByteScanner) : Option (Option Token × ByteScanner) :=
  match _hrest : b.remaining with
  | none => none
  | some [] => some (none, b)
  | some (_ :: _) =>
      match _hturn : b.turn with
      | some (none, b') => b'.nextToken
      | some (some token, b') => some (some token, b')
      | none => none
termination_by b.input.bytes - b.cursor
decreasing_by exact remaining_lt_of_turn _hrest _hturn

/-- The scanner after so many calls for a token. -/
def afterCalls (b : ByteScanner) : Nat → Option ByteScanner
  | 0 => some b
  | n + 1 => do
      let (_, b') ← b.nextToken
      b'.afterCalls n

end ByteScanner

end Stencil
