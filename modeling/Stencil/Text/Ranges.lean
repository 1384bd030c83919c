/-!
# Character classes as ranges of code points

A class is a list of closed ranges in ascending order, so a search ends at the
first range that begins beyond the character.
-/

namespace Stencil.Text

abbrev Ranges := List (Nat × Nat)

namespace Ranges

def covers : Ranges → Nat → Bool
  | [], _ => false
  | (low, high) :: later, n => low ≤ n && (n ≤ high || covers later n)

/-- Every range is in order and begins beyond `floor` and beyond the ranges before it. -/
def ascendsFrom (floor : Nat) : Ranges → Bool
  | [] => true
  | (low, high) :: later => floor ≤ low && low ≤ high && ascendsFrom (high + 1) later

def ascends (ranges : Ranges) : Bool := ranges.ascendsFrom 0

theorem le_of_ascendsFrom {floor : Nat} {ranges : Ranges} {range : Nat × Nat}
    (h : ranges.ascendsFrom floor = true) (hmem : range ∈ ranges) : floor ≤ range.1 := by
  induction ranges generalizing floor with
  | nil => cases hmem
  | cons first later ih =>
      simp only [ascendsFrom, Bool.and_eq_true, decide_eq_true_eq] at h
      obtain ⟨⟨hfloor, horder⟩, hlater⟩ := h
      rcases List.mem_cons.mp hmem with rfl | hmem
      · exact hfloor
      · have := ih hlater hmem
        omega

theorem covers_iff {floor : Nat} {ranges : Ranges} (h : ranges.ascendsFrom floor = true)
    (n : Nat) : ranges.covers n = true ↔ ∃ range ∈ ranges, range.1 ≤ n ∧ n ≤ range.2 := by
  induction ranges generalizing floor with
  | nil => simp [covers]
  | cons first later ih =>
      simp only [ascendsFrom, Bool.and_eq_true, decide_eq_true_eq] at h
      obtain ⟨⟨_, horder⟩, hlater⟩ := h
      simp only [covers, Bool.and_eq_true, Bool.or_eq_true, decide_eq_true_eq, ih hlater,
        List.mem_cons]
      constructor
      · rintro ⟨hlow, hhigh | ⟨range, hmem, hrange⟩⟩
        · exact ⟨first, Or.inl rfl, hlow, hhigh⟩
        · exact ⟨range, Or.inr hmem, hrange⟩
      · rintro ⟨range, rfl | hmem, hlow, hhigh⟩
        · exact ⟨hlow, Or.inl hhigh⟩
        · have := le_of_ascendsFrom hlater hmem
          exact ⟨by omega, Or.inr ⟨range, hmem, hlow, hhigh⟩⟩

end Ranges

end Stencil.Text
