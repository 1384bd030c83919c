import Stencil.Condition

/-!
# Templates

A template is a sequence of literal texts, placeholders and `#if` blocks. An
`#elseif` arm is an `#if` block that is the whole of the other branch.
-/

namespace Stencil

inductive Node where
  | raw (text : Text)
  | placeholder (name : Text)
  | ifThen (condition : Condition) (body : List Node)
  | ifThenElse (condition : Condition) (body other : List Node)
  deriving Repr

abbrev Template := List Node

/-- Induction on the statements of a template and of all its branches. -/
@[elab_as_elim]
theorem Template.induction {P : Template → Prop} (nil : P [])
    (raw : ∀ text rest, P rest → P (.raw text :: rest))
    (placeholder : ∀ name rest, P rest → P (.placeholder name :: rest))
    (ifThen : ∀ c body rest, P body → P rest → P (.ifThen c body :: rest))
    (ifThenElse : ∀ c body other rest, P body → P other → P rest →
      P (.ifThenElse c body other :: rest))
    (template : Template) : P template :=
  @Node.rec_1 (fun node => ∀ rest, P rest → P (node :: rest)) P
    raw placeholder (fun c body hbody rest => ifThen c body rest hbody)
    (fun c body other hbody hother rest => ifThenElse c body other rest hbody hother)
    nil (fun _ rest hnode hrest => hnode rest hrest) template

end Stencil
