/-!
# Texts

A template, a name and a rendered page are sequences of characters. Their size
is counted in the bytes of the UTF-8 form.
-/

namespace Stencil

abbrev Text := List Char

namespace Text

def bytes : Text → Nat
  | [] => 0
  | c :: t => c.utf8Size + bytes t

@[simp] theorem bytes_nil : bytes [] = 0 := rfl

@[simp] theorem bytes_cons (c : Char) (t : Text) : bytes (c :: t) = c.utf8Size + bytes t := rfl

@[simp] theorem bytes_append (t u : Text) : bytes (t ++ u) = bytes t + bytes u := by
  induction t with
  | nil => simp
  | cons c t ih => simp [ih, Nat.add_assoc]

theorem bytes_pos {t : Text} (h : t ≠ []) : 0 < bytes t := by
  cases t with
  | nil => exact absurd rfl h
  | cons c t =>
      have := c.utf8Size_pos
      simp only [bytes_cons]
      omega

end Text

end Stencil
