import Stencil.Lexeme

/-!
# Layout

The token sequence that a template stands for. Adjacent literal texts become one,
and directly after `#then`, `#else` and `#endif` leading spaces and then at most
one newline are dropped, so that these tags can have lines of their own. Literal
text that is empty does not count.
-/

namespace Stencil

def joinRaw : List Token → List Token
  | [] => []
  | .raw text :: tokens =>
      match joinRaw tokens with
      | .raw more :: rest => .raw (text ++ more) :: rest
      | rest => if text.isEmpty then rest else .raw text :: rest
  | token :: tokens => token :: joinRaw tokens

def Token.dropsLayout : Token → Bool
  | .key .thenTag | .key .elseTag | .key .endIfTag => true
  | _ => false

def dropLayout (text : Text) : Text :=
  match text.dropWhile (· == ' ') with
  | '\n' :: rest => rest
  | rest => rest

/-- Drops the layout after each tag that asks for it; `afterTag` tells whether such a
tag stands just before the sequence. -/
def trimLayout (afterTag : Bool) : List Token → List Token
  | [] => []
  | .raw text :: tokens => .raw (if afterTag then dropLayout text else text) :: trimLayout false tokens
  | token :: tokens => token :: trimLayout token.dropsLayout tokens

def arrange (tokens : List Token) : List Token :=
  (trimLayout false (joinRaw tokens)).filter (· ≠ .raw [])

def tokenize (template : Text) : List Token := arrange (Scanner.ofText template).tokens

/-- One newline after the spaces goes, a second one stays. -/
example : arrange [.key .elseTag, .raw [' ', '\n'], .raw ['\n'], .key .endIfTag, .raw [' ']] =
    [.key .elseTag, .raw ['\n'], .key .endIfTag] := by decide

example : tokenize ['a', '(', '{', '{', ' ', 'n', '}', '}', '{', '{'] =
    [.raw ['a', '('], .placeholder ['n'], .raw ['{', '{']] := by decide +kernel

end Stencil
