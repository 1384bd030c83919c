import Stencil.Token

/-!
# Syntax errors

The three ways in which a token sequence fails to be a template. Names that no
binding provides and literal text of any kind are not among them.
-/

namespace Stencil

inductive SyntaxError where
  /-- A token that has no place where it stands, and the token after it. -/
  | unexpectedToken (token : Token) (next : Option Token)
  /-- The end came inside a block; any of these tags would go on. -/
  | unterminatedIf (expected : List Keyword)
  /-- No condition can be read at this position; the tokens around it are shown. -/
  | invalidCondition (location : Text) (position : Nat)
  deriving DecidableEq, Repr

namespace SyntaxError

def describeNext : Option Token → Text
  | some token => token.display
  | none => "end of input".toList

def message : SyntaxError → String
  | unexpectedToken token next =>
      "Unexpected token: " ++ String.ofList token.display ++
        ", next token is " ++ String.ofList (describeNext next)
  | unterminatedIf expected =>
      "Uncompleted if branch. It must end with any of " ++
        ", ".intercalate (expected.map fun word => String.ofList word.tag) ++ "."
  | invalidCondition location position =>
      "Invalid if condition! At '" ++ String.ofList location ++ "' (token " ++
        toString position ++ ").\n" ++
        "Check for errors in the variables like '" ++ String.singleton '{' ++
        "' instead of '" ++ String.ofList openBraces ++ "'."

end SyntaxError

end Stencil
