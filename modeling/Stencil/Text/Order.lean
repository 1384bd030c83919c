import Stencil.Text.Basic

/-!
# The order of texts

Texts are ordered by the code points of their characters, like words in a
dictionary. A text that another one continues comes before it.
-/

namespace Stencil.Text

def precedes : Text → Text → Bool
  | _, [] => false
  | [], _ :: _ => true
  | c :: t, d :: u => c.toNat < d.toNat || (c = d && precedes t u)

theorem precedes_irrefl (t : Text) : precedes t t = false := by
  induction t with
  | nil => rfl
  | cons c t ih => simp [precedes, ih]

theorem precedes_trans {t u v : Text} (htu : precedes t u = true) (huv : precedes u v = true) :
    precedes t v = true := by
  induction t generalizing u v with
  | nil =>
      cases v with
      | nil => cases u <;> simp [precedes] at huv
      | cons e v => rfl
  | cons c t ih =>
      cases u with
      | nil => simp [precedes] at htu
      | cons d u =>
          cases v with
          | nil => simp [precedes] at huv
          | cons e v =>
              simp only [precedes, Bool.or_eq_true, Bool.and_eq_true, decide_eq_true_eq] at *
              rcases htu with hcd | ⟨rfl, htu⟩
              · rcases huv with hde | ⟨rfl, -⟩
                · exact Or.inl (Nat.lt_trans hcd hde)
                · exact Or.inl hcd
              · rcases huv with hde | ⟨rfl, huv⟩
                · exact Or.inl hde
                · exact Or.inr ⟨rfl, ih htu huv⟩

/-- Of two different texts one comes first. -/
theorem precedes_total {t u : Text} (hne : t ≠ u) (hnot : precedes t u = false) :
    precedes u t = true := by
  induction t generalizing u with
  | nil =>
      cases u with
      | nil => exact absurd rfl hne
      | cons d u => simp [precedes] at hnot
  | cons c t ih =>
      cases u with
      | nil => rfl
      | cons d u =>
          simp only [precedes, Bool.or_eq_false_iff, Bool.and_eq_false_imp,
            decide_eq_false_iff_not, decide_eq_true_eq, Bool.or_eq_true, Bool.and_eq_true] at *
          by_cases hcd : c = d
          · subst hcd
            exact Or.inr ⟨rfl, ih (fun h => hne (by rw [h])) (hnot.2 rfl)⟩
          · have : c.toNat ≠ d.toNat := fun h => hcd (Char.toNat_inj.mp h)
            exact Or.inl (by omega)

end Stencil.Text
