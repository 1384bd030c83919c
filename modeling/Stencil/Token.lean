import Stencil.Text.Quoted

/-!
# Tokens

A template is literal text with placeholders and control tags. Between `#if` or
`#elseif` and the next `#then` a condition is written, and there the same braces
hold the name of a flag.
-/

namespace Stencil

/-- The two ways to join conditions. They bind equally. -/
inductive Connective where
  | and
  | or
  deriving DecidableEq, Repr

inductive Keyword where
  | ifTag
  | openParen
  | closeParen
  | notOp
  | connective (op : Connective)
  | thenTag
  | elseIfTag
  | elseTag
  | endIfTag
  deriving DecidableEq, Repr

inductive Token where
  | raw (text : Text)
  | placeholder (name : Text)
  | flag (name : Text)
  | key (word : Keyword)
  deriving DecidableEq, Repr

/-- What stands before and after a name. -/
def openBraces : Text := ['{', '{']

def closeBraces : Text := ['}', '}']

def bracedName (name : Text) : Text := openBraces ++ name ++ closeBraces

namespace Keyword

def tag : Keyword → Text
  | ifTag => ['#', 'i', 'f']
  | openParen => ['(']
  | closeParen => [')']
  | notOp => ['N', 'O', 'T']
  | connective .and => ['A', 'N', 'D']
  | connective .or => ['O', 'R']
  | thenTag => ['#', 't', 'h', 'e', 'n']
  | elseIfTag => ['#', 'e', 'l', 's', 'e', 'i', 'f']
  | elseTag => ['#', 'e', 'l', 's', 'e']
  | endIfTag => ['#', 'e', 'n', 'd', 'i', 'f']

/-- Every keyword, in the order in which they are looked for: `#elseif` before the
`#else` it begins with. -/
def all : List Keyword :=
  [ifTag, openParen, closeParen, notOp, connective .and, connective .or, thenTag, elseIfTag,
   elseTag, endIfTag]

/-- Whether the keyword is known inside conditions; the others are known outside. -/
def inCondition : Keyword → Bool
  | openParen | closeParen | notOp | connective _ | thenTag => true
  | ifTag | elseIfTag | elseTag | endIfTag => false

theorem mem_all (word : Keyword) : word ∈ all := by
  cases word with
  | connective op => cases op <;> decide
  | _ => decide

theorem tag_ne_nil (word : Keyword) : word.tag ≠ [] := by
  cases word with
  | connective op => cases op <;> simp [tag]
  | _ => simp [tag]

end Keyword

namespace Token

/-- The way a message shows the token. -/
def display : Token → Text
  | raw text => text.quote
  | placeholder name | flag name => bracedName name
  | key word => word.tag

/-- The marks that open and close the token. Literal text has none, and only names
have one that closes. -/
def marks : Token → Option (Text × Option Text)
  | raw _ => none
  | placeholder _ | flag _ => some (openBraces, some closeBraces)
  | key word => some (word.tag, none)

/-- Whether a condition is being written after the token, if `inside` tells whether
one was before. -/
def inConditionAfter (inside : Bool) : Token → Bool
  | key .ifTag | key .elseIfTag => true
  | key .thenTag => false
  | _ => inside

def isRaw : Token → Bool
  | raw _ => true
  | _ => false

end Token

end Stencil
