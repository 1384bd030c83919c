import Stencil.Template

/-!
# Variables

A template uses names in two ways: as text, in placeholders, and as flags, in
conditions. Each name is declared once; one that is used both ways is a flag.
-/

namespace Stencil

/-- A name and the way it is used. -/
inductive Variable where
  | text (name : Text)
  | flag (name : Text)
  deriving DecidableEq, Repr

namespace Variable

def name : Variable → Text
  | text name | flag name => name

end Variable

mutual

def Node.uses : Node → List Variable
  | .raw _ => []
  | .placeholder name => [.text name]
  | .ifThen c body => c.flags.map .flag ++ Template.uses body
  | .ifThenElse c body other => c.flags.map .flag ++ (Template.uses body ++ Template.uses other)

/-- Every use of a name, in the order of the template, conditions before their branches. -/
def Template.uses : Template → List Variable
  | [] => []
  | node :: rest => node.uses ++ Template.uses rest

end

/-- The variables declared so far, and the names that were first text and then flags. -/
structure Declarations where
  declared : List Variable
  promoted : List Text
  deriving DecidableEq, Repr

namespace Declarations

def empty : Declarations := ⟨[], []⟩

/-- A new name is declared as it is used. A text that is used as a flag becomes one, and
moves to the end. -/
def declare (d : Declarations) (v : Variable) : Declarations :=
  match v with
  | .text name =>
      if .text name ∈ d.declared ∨ .flag name ∈ d.declared then d
      else { d with declared := d.declared ++ [.text name] }
  | .flag name =>
      if .flag name ∈ d.declared then d
      else if .text name ∈ d.declared then
        ⟨d.declared.erase (.text name) ++ [.flag name], d.promoted ++ [name]⟩
      else { d with declared := d.declared ++ [.flag name] }

def ofUses (uses : List Variable) : Declarations := uses.foldl declare empty

end Declarations

/-- A text that turns into a flag moves to the end. -/
example : Declarations.ofUses [.text ['a'], .text ['b'], .flag ['a'], .text ['a']] =
    ⟨[.text ['b'], .flag ['a']], [['a']]⟩ := by decide

def Template.declarations (template : Template) : Declarations :=
  .ofUses template.uses

def Template.declared (template : Template) : List Variable :=
  template.declarations.declared

end Stencil
