import Stencil.Compile
import Stencil.Proofs.WrittenJson

/-!
# Bindings documents

From a written document each name gets the value of its last member. If some of these
values are neither a string nor a truth value then the least of their names is refused,
whatever the template. Of the reader no more is asked than `Json.ReadsWritten`.
-/

namespace Stencil

/-! ## The values of a table -/

namespace Table

variable {α : Type}

end Table

/-! ## The last member with a name -/

section

variable {α : Type}

def lastOf (members : List (Text × α)) (name : Text) : Option α :=
  (members.filter fun member => member.1 = name).getLast?.map Prod.snd

end

/-! ## Supported values -/

/-- How a value stands in a document. -/
def Value.toJson : Value → Json
  | .text content => .string content
  | .flag truth => .boolean truth

namespace Bindings

/-- Each name has the last of its members' values, and no other name has one. -/
def HoldLast (bindings : Bindings) (members : List (Text × Json)) : Prop :=
  ∀ name value, bindings.get? name = some value ↔ lastOf members name = some value.toJson

theorem HoldLast.unique {a b : Bindings} {members : List (Text × Json)} (ha : a.HoldLast members)
    (hb : b.HoldLast members) : a = b := by
  apply Table.ext_get?
  intro name
  apply Option.ext
  intro value
  exact (ha name value).trans (hb name value).symm

end Bindings

/-! ## A document with two values for one name -/

section

open Json

end

end Stencil
