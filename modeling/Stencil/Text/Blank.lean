import Stencil.Text.Basic
import Stencil.Text.Ranges

/-!
# Blank characters

The characters of the Unicode property White_Space, and the trimming of a text
at both ends.
-/

namespace Stencil.Text

def blankRanges : Ranges :=
  [(0x9, 0xd), (0x20, 0x20), (0x85, 0x85), (0xa0, 0xa0), (0x1680, 0x1680), (0x2000, 0x200a),
   (0x2028, 0x2029), (0x202f, 0x202f), (0x205f, 0x205f), (0x3000, 0x3000)]

def isBlank (c : Char) : Bool := blankRanges.covers c.toNat

def trimStart (t : Text) : Text := t.dropWhile isBlank

def trimEnd (t : Text) : Text := (t.reverse.dropWhile isBlank).reverse

def trim (t : Text) : Text := trimEnd (trimStart t)

theorem isBlank_iff {c : Char} :
    isBlank c = true ↔ ∃ range ∈ blankRanges, range.1 ≤ c.toNat ∧ c.toNat ≤ range.2 :=
  Ranges.covers_iff (show blankRanges.ascendsFrom 0 = true by decide) c.toNat

example : trim [' ', 'a', ' ', 'b', '\n'] = ['a', ' ', 'b'] := by decide

/-- The separators U+001C to U+001F and the zero-width space are not blank. -/
example : [0x1c, 0x1f, 0x180e, 0x200b, 0xfeff].all (!blankRanges.covers ·) = true := by decide

end Stencil.Text
