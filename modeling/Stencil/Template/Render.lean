import Stencil.Binding
import Stencil.Template

/-!
# Rendering

A template filled in with bindings. Every template can be rendered, also with
names that are not bound.
-/

namespace Stencil

def Connective.apply : Connective → Bool → Bool → Bool
  | .and, l, r => l && r
  | .or, l, r => l || r

def Condition.eval (bindings : Bindings) : Condition → Bool
  | .flag name => bindings.holds name
  | .not inner => !inner.eval bindings
  | .brackets inner => inner.eval bindings
  | .join op left right => op.apply (left.eval bindings) (right.eval bindings)

mutual

def Node.render (bindings : Bindings) : Node → Text
  | .raw text => text
  | .placeholder name => bindings.display name
  | .ifThen c body => if c.eval bindings then Template.render bindings body else []
  | .ifThenElse c body other =>
      if c.eval bindings then Template.render bindings body else Template.render bindings other

def Template.render (bindings : Bindings) : Template → Text
  | [] => []
  | node :: rest => node.render bindings ++ Template.render bindings rest

end

@[simp] theorem Template.render_append (bindings : Bindings) (a b : Template) :
    Template.render bindings (a ++ b) = Template.render bindings a ++ Template.render bindings b := by
  induction a with
  | nil => rfl
  | cons node a ih => simp [Template.render, ih]

end Stencil
