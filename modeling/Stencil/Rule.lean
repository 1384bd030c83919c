import Stencil.Text.Blank
import Stencil.Token

/-!
# Rules

The forms of tokens in the order in which they are looked for, and the modes in which each
of them is known.
-/

namespace Stencil.Scanner

/-- A form of token that is looked for. -/
inductive Rule where
  | placeholder
  | flag
  | key (word : Keyword)
  deriving DecidableEq, Repr

namespace Rule

/-- Every rule, in the order in which they are tried. -/
def all : List Rule :=
  [placeholder, key .ifTag, key .openParen, key .closeParen, key .notOp, flag,
   key (.connective .and), key (.connective .or), key .thenTag, key .elseIfTag, key .elseTag,
   key .endIfTag]

def allowed (inside : Bool) : Rule → Bool
  | placeholder => !inside
  | flag => inside
  | key word => word.inCondition == inside

/-! ## The marks of a rule -/

def tag : Rule → Text
  | placeholder | flag => openBraces
  | key word => word.tag

/-- Only what is in braces has an end of its own. -/
def endTag? : Rule → Option Text
  | placeholder | flag => some closeBraces
  | key _ => none

/-- The token, with what stands between the marks. -/
def token (inner : Text) : Rule → Token
  | placeholder => .placeholder inner.trim
  | flag => .flag inner.trim
  | key word => .key word

theorem marks_token (rule : Rule) (inner : Text) :
    (rule.token inner).marks = some (rule.tag, rule.endTag?) := by
  cases rule <;> rfl

end Rule

end Stencil.Scanner
