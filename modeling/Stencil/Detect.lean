import Stencil.Token

/-!
# Detection

A quick look at whether a text is a template at all. The text is searched for a pattern:
braces around at least one character, all on one line.
-/

namespace Stencil

/-! ## The pattern -/

/-- What a text can be searched for. -/
inductive Pattern where
  | literal (t : Text)
  /-- Any character but a newline. -/
  | dot
  | oneOrMore (part : Pattern)
  | seq (first second : Pattern)
  | either (first second : Pattern)

namespace Pattern

def Matches : Pattern → Text → Prop
  | literal t, u => u = t
  | dot, u => ∃ c, c ≠ '\n' ∧ u = [c]
  | oneOrMore part, u =>
      ∃ parts : List Text, parts ≠ [] ∧ (∀ v ∈ parts, part.Matches v) ∧ u = parts.flatten
  | seq first second, u => ∃ v w, u = v ++ w ∧ first.Matches v ∧ second.Matches w
  | either first second, u => first.Matches u ∨ second.Matches u

/-- The pattern matches somewhere in the text. -/
def FoundIn (p : Pattern) (t : Text) : Prop := ∃ u, u <:+: t ∧ p.Matches u

/-- A way to search texts for the pattern. -/
def IsSearch (p : Pattern) (isMatch : Text → Bool) : Prop := ∀ t, isMatch t = true ↔ p.FoundIn t

/-- Something in braces. -/
def braced : Pattern := seq (literal openBraces) (seq (oneOrMore dot) (literal closeBraces))

/-- Something in braces, or a condition that begins with it. -/
def markup : Pattern := either braced (seq (literal (Keyword.ifTag.tag ++ [' '])) braced)

end Pattern

/-! ## The search -/

/-- Whether closing braces follow before the end of the line. -/
def closesOnLine : Text → Bool
  | [] => false
  | c :: t => closeBraces.isPrefixOf (c :: t) || (c ≠ '\n' && closesOnLine t)

/-- Whether braces open at the head of the text and close on the same line around at
least one character. -/
def bracesOnLine : Text → Bool
  | '{' :: '{' :: c :: t => c ≠ '\n' && closesOnLine t
  | _ => false

/-- Looks for the first alternative of `Pattern.markup`, which is found in what the second
matches as well. -/
def detect : Text → Bool
  | [] => false
  | c :: t => bracesOnLine (c :: t) || detect t

example : detect ['a', '{', '{', 'n', '}', '}'] = true := by decide

example : detect ['{', '{', '}', '}'] = false := by decide

/-- The name may be a brace. -/
example : detect ['{', '{', '}', '}', '}'] = true := by decide

example : detect ['{', '{', 'n', '\n', '}', '}'] = false := by decide

end Stencil
