import Stencil.Table

/-!
# Bindings

What a template is rendered with: each bound name has a text or a truth value.
-/

namespace Stencil

inductive Value where
  | text (content : Text)
  | flag (truth : Bool)
  deriving DecidableEq, Repr

namespace Value

/-- The text that takes the place of a placeholder. -/
def display : Value → Text
  | text content => content
  | flag true => ['t', 'r', 'u', 'e']
  | flag false => ['f', 'a', 'l', 's', 'e']

/-- Whether the value satisfies a condition. No text does. -/
def holds : Value → Bool
  | flag truth => truth
  | text _ => false

end Value

abbrev Bindings := Table Value

namespace Bindings

/-- The text for a placeholder; nothing if the name is not bound. -/
def display (bindings : Bindings) (name : Text) : Text :=
  match bindings.get? name with
  | some value => value.display
  | none => []

/-- Whether a flag is set. A name that is not bound is not set. -/
def holds (bindings : Bindings) (name : Text) : Bool :=
  match bindings.get? name with
  | some value => value.holds
  | none => false

end Bindings

end Stencil
