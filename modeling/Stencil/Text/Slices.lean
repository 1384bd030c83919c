import Stencil.Text.Basic

/-!
# Slices by bytes

Texts cut at a byte, and the byte at which a part begins. A text cannot be cut inside a
character or behind its end.
-/

namespace Stencil.Text

/-- The text from a byte on. -/
def fromByte? : Text → Nat → Option Text
  | [], n => if n = 0 then some [] else none
  | c :: t, n =>
      if n = 0 then some (c :: t)
      else if c.utf8Size ≤ n then fromByte? t (n - c.utf8Size)
      else none

/-- The text up to a byte. -/
def untilByte? : Text → Nat → Option Text
  | [], n => if n = 0 then some [] else none
  | c :: t, n =>
      if n = 0 then some []
      else if c.utf8Size ≤ n then (untilByte? t (n - c.utf8Size)).map (c :: ·)
      else none

/-- The byte at which the part begins for the first time. -/
def offset? (part : Text) : Text → Option Nat
  | [] => if part = [] then some 0 else none
  | c :: t =>
      if part.isPrefixOf (c :: t) then some 0 else (offset? part t).map (c.utf8Size + ·)

@[simp] theorem fromByte?_zero (t : Text) : t.fromByte? 0 = some t := by
  cases t <;> rfl

@[simp] theorem untilByte?_zero (t : Text) : t.untilByte? 0 = some [] := by
  cases t <;> rfl

theorem fromByte?_append (before rest : Text) :
    (before ++ rest).fromByte? before.bytes = some rest := by
  induction before with
  | nil => exact fromByte?_zero rest
  | cons c before ih =>
      have hpos := c.utf8Size_pos
      rw [List.cons_append, fromByte?, bytes_cons, if_neg (by omega),
        if_pos (Nat.le_add_right _ _), Nat.add_sub_cancel_left, ih]

theorem untilByte?_append (before rest : Text) :
    (before ++ rest).untilByte? before.bytes = some before := by
  induction before with
  | nil => exact untilByte?_zero rest
  | cons c before ih =>
      have hpos := c.utf8Size_pos
      rw [List.cons_append, untilByte?, bytes_cons, if_neg (by omega),
        if_pos (Nat.le_add_right _ _), Nat.add_sub_cancel_left, ih]
      rfl

/-- Only between characters can the text be cut. -/
theorem eq_append_of_fromByte? {t rest : Text} {n : Nat} (h : t.fromByte? n = some rest) :
    ∃ before, t = before ++ rest ∧ before.bytes = n := by
  induction t generalizing n with
  | nil =>
      unfold fromByte? at h
      split at h
      · next hn =>
          cases h
          exact ⟨[], rfl, hn.symm⟩
      · cases h
  | cons c t ih =>
      unfold fromByte? at h
      split at h
      · next hn =>
          cases h
          exact ⟨[], rfl, hn.symm⟩
      · split at h
        · next hle =>
            obtain ⟨before, rfl, hbytes⟩ := ih h
            refine ⟨c :: before, rfl, ?_⟩
            rw [bytes_cons, hbytes]
            omega
        · cases h

/-- `é` is two bytes long. -/
example : fromByte? ['é', 'a'] 1 = none ∧ fromByte? ['é', 'a'] 2 = some ['a'] := by decide

end Stencil.Text
