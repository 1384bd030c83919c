import Stencil.Condition.Attempt
import Stencil.SyntaxError
import Stencil.Template

/-!
# Descent into a template

The reader as it walks: the tokens stay as they are, a position moves over them, and each
block is read by a call of its own.

* statement: a text, a placeholder, or `#if` and a block
* block: a condition and a branch; `#elseif` and a block, `#else` and a branch, or `#endif`
* branch: statements, up to a tag that ends them
-/

namespace Stencil

/-- The tokens around a position: the one before it, and two from there on. -/
def Reader.locationAt (tokens : List Token) (position : Nat) : Text :=
  [' '].intercalate
    (((tokens.take (min (position + 2) tokens.length)).drop (position - 1)).map Token.display)

/-- From a position, a result or an error, and the position where it ends. -/
def Descent (α : Type) : Type := Nat → Except SyntaxError α × Nat

namespace Descent

variable {α β : Type}

/-- An error leaves the position where it is. -/
def bind (first : Descent α) (next : α → Descent β) : Descent β := fun position =>
  match first position with
  | (.ok a, position') => next a position'
  | (.error error, position') => (.error error, position')

instance : Monad Descent where
  pure a := fun position => (.ok a, position)
  bind := bind

def fail (error : SyntaxError) : Descent α := fun position => (.error error, position)

section

variable (tokens : List Token)

def consume : Descent (Option Token) := fun position =>
  match tokens[position]? with
  | some token => (.ok (some token), position + 1)
  | none => (.ok none, position)

/-- The token that has been taken has no place. -/
def unexpected (token : Token) : Descent α := fun position =>
  (.error (.unexpectedToken token tokens[position]?), position)

def invalid : Descent α := fun position =>
  (.error (.invalidCondition (Reader.locationAt tokens position) position), position)

def clause : Descent Condition := fun position =>
  match Condition.attemptAt? tokens position with
  | some (c, position') => (.ok c, position')
  | none => invalid tokens position

def statement (block : Descent Node) : Token → Descent Node
  | .raw text => pure (.raw text)
  | .placeholder name => pure (.placeholder name)
  | .key .ifTag => block
  | token => unexpected tokens token

/-! ## Blocks and their branches

There is `room` for so many tokens. Where there is none the tokens are at their end.
-/

mutual

/-- A block behind its first tag. An `#elseif` is a block that is the whole of the other
branch, and has the same `#endif`. -/
def block : Nat → Descent Node
  | 0 => invalid tokens
  | room + 1 => do
      let c ← clause tokens
      let (body, ending) ← branch room [.elseIfTag, .elseTag, .endIfTag] []
      match ending with
      | .elseIfTag =>
          let inner ← block room
          return .ifThenElse c body [inner]
      | .elseTag =>
          let (other, _) ← branch room [.endIfTag] []
          return .ifThenElse c body other
      | _ => return .ifThen c body

/-- The statements up to one of the tags, after those in `nodes`, and which tag it was. -/
def branch : Nat → List Keyword → Template → Descent (Template × Keyword)
  | 0, ends, _ => fail (.unterminatedIf ends)
  | room + 1, ends, nodes => do
      match ← consume tokens with
      | none => fail (.unterminatedIf ends)
      | some token =>
          match ends.find? (token = .key ·) with
          | some word => return (nodes, word)
          | none =>
              let node ← statement tokens (block room) token
              branch room ends (nodes ++ [node])

end

/-- The statements outside all blocks, after those in `nodes`. -/
def statements : Nat → Template → Descent Template
  | 0, nodes => return nodes
  | room + 1, nodes => do
      match ← consume tokens with
      | none => return nodes
      | some token =>
          let node ← statement tokens (block tokens room) token
          statements room (nodes ++ [node])

/-- Reads from a position up to the end of the tokens or to an error. -/
def read : Descent Template := statements tokens tokens.length []

end

end Descent

end Stencil
