import Stencil.Binding
import Stencil.Json.Reader

/-!
# Bindings documents

Bindings are written as a JSON object of strings and truth values. Any reader of JSON
will do. The document is read whole before the entries of its object are looked at;
then, in the order in which they are visited, the first one with any other value is
refused.
-/

namespace Stencil

inductive BindingsError where
  | json (error : Json.Error)
  | notAnObject
  | unsupportedValue (name : Text)
  deriving DecidableEq, Repr

namespace BindingsError

def message : BindingsError → String
  | json error => "invalid bindings document: " ++ error.message
  | notAnObject => "bindings document must be a JSON object"
  | unsupportedValue name =>
      "unsupported value for \"" ++ String.ofList name ++
        "\": only strings and booleans are allowed"

end BindingsError

namespace Bindings

def ofEntry : Text × Json → Except BindingsError (Text × Value)
  | (name, .string content) => .ok (name, .text content)
  | (name, .boolean truth) => .ok (name, .flag truth)
  | (name, _) => .error (.unsupportedValue name)

def ofJson : Json → Except BindingsError Bindings
  | .object entries => (entries.mapM ofEntry).map Table.ofList
  | _ => .error .notAnObject

def ofDocument (document : Text) (read : Json.DocumentReader := Json.parse) :
    Except BindingsError Bindings :=
  match read document with
  | .error error => .error (.json error)
  | .ok value => ofJson value

end Bindings

end Stencil
