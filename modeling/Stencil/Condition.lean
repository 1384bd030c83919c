import Stencil.Token

/-!
# Conditions

A condition is a flag, a negation, a condition in brackets, or two conditions
joined by `AND` or `OR`.
-/

namespace Stencil

inductive Condition where
  | flag (name : Text)
  | not (inner : Condition)
  | brackets (inner : Condition)
  | join (op : Connective) (left right : Condition)
  deriving DecidableEq, Repr

namespace Condition

/-- The condition as it is written. -/
def tokens : Condition → List Token
  | flag name => [.flag name]
  | not inner => .key .notOp :: inner.tokens
  | brackets inner => .key .openParen :: inner.tokens ++ [.key .closeParen]
  | join op left right => left.tokens ++ .key (.connective op) :: right.tokens

/-- The flags in the order in which they are written. -/
def flags : Condition → List Text
  | flag name => [name]
  | not inner | brackets inner => inner.flags
  | join _ left right => left.flags ++ right.flags

def isAtom : Condition → Bool
  | flag _ | brackets _ => true
  | not _ | join _ _ _ => false

/-- Whether the condition is read back from its own tokens: what stands to the left of
a connective is a flag or is in brackets, so that a chain of connectives groups to the
right and `NOT` takes all that follows it. -/
def canonical : Condition → Bool
  | flag _ => true
  | not inner | brackets inner => inner.canonical
  | join _ left right => left.isAtom && left.canonical && right.canonical

end Condition

end Stencil
