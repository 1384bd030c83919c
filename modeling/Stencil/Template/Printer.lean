import Stencil.Template

/-!
# Printing

A template written out again. Names stand in braces with a space on either side,
the parts of a condition are one space apart, and each control tag ends its line,
so that reading drops nothing that belongs to the literal text around it.
-/

namespace Stencil

def spacedName (name : Text) : Text := bracedName (' ' :: name ++ [' '])

def Token.print : Token → Text
  | .raw text => text
  | .placeholder name | .flag name => spacedName name
  | .key word => word.tag

def Condition.print (c : Condition) : Text := [' '].intercalate (c.tokens.map Token.print)

/-- A tag at the end of its line. -/
def tagLine (word : Keyword) : Text := word.tag ++ ['\n']

def clauseLine (c : Condition) : Text :=
  Keyword.ifTag.tag ++ ' ' :: c.print ++ ' ' :: tagLine .thenTag

mutual

def Node.print : Node → Text
  | .raw text => text
  | .placeholder name => spacedName name
  | .ifThen c body => clauseLine c ++ Template.print body ++ tagLine .endIfTag
  | .ifThenElse c body other =>
      clauseLine c ++ Template.print body ++ tagLine .elseTag ++ Template.print other ++
        tagLine .endIfTag

def Template.print : Template → Text
  | [] => []
  | node :: rest => node.print ++ Template.print rest

end

@[simp] theorem Template.print_append (a b : Template) :
    Template.print (a ++ b) = Template.print a ++ Template.print b := by
  induction a with
  | nil => rfl
  | cons node a ih => simp [Template.print, ih]

end Stencil
