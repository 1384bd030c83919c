import Stencil.Json.Reader

/-!
# Reading JSON, one step at a time

What the reader does with the next character that is not a space, so that no proof has to
look into its recursion.
-/

namespace Stencil.Json

/-! ## Spaces -/

def Spaces (t : Text) : Prop := ∀ c ∈ t, isSpace c = true

theorem nextSolid?_spaces {s : Text} (h : Spaces s) (t : Text) :
    nextSolid? (s ++ t) = nextSolid? t := by
  have hskip : skipSpaces (s ++ t) = skipSpaces t := List.dropWhile_append_of_pos h
  rw [nextSolid?, nextSolid?, hskip]

theorem nextSolid?_cons {c : Char} (h : isSpace c = false) (t : Text) :
    nextSolid? (c :: t) = some (c, t) := by
  simp [nextSolid?, skipSpaces, h]

theorem nextSolid?_spaces_cons {s : Text} (h : Spaces s) {c : Char} (hc : isSpace c = false)
    (t : Text) : nextSolid? (s ++ c :: t) = some (c, t) := by
  rw [nextSolid?_spaces h, nextSolid?_cons hc]

theorem expect_spaces {s : Text} (h : Spaces s) (stack : List Container) (t : Text) :
    expect stack (s ++ t) = expect stack t := by
  unfold expect
  rw [nextSolid?_spaces h]

theorem deliver_spaces {s : Text} (h : Spaces s) (value : Json) (stack : List Container)
    (t : Text) : deliver value stack (s ++ t) = deliver value stack t := by
  unfold deliver
  rw [nextSolid?_spaces h]

/-! ## What begins here -/

/-- An item or the end of the text, but not the end of the list. -/
def StartsItem (t : Text) : Prop := ∃ c rest, nextSolid? t = some (c, rest) ∧ c ≠ ']'

/-- A member with the name, whose value is in the text `after`. -/
def StartsMember (t name after : Text) : Prop :=
  ∃ rest, nextSolid? t = some ('"', rest) ∧ memberName '"' rest = .ok (name, after)

/-! ## Where a value is expected -/

section

variable {stack : List Container} {t rest : Text}

theorem expect_simple {c : Char} {value : Json} (hspace : isSpace c = false) (hlist : c ≠ '[')
    (hobject : c ≠ '{') (hvalue : simpleValue c t = .ok (value, rest)) :
    expect stack (c :: t) = deliver value stack rest := by
  unfold expect
  rw [nextSolid?_cons hspace]
  dsimp only
  rw [if_neg hlist, if_neg hobject, hvalue]

theorem expect_emptyList (hroom : stack.length < nestingLimit)
    (hitem : nextSolid? t = some (']', rest)) :
    expect stack ('[' :: t) = deliver (.list []) stack rest := by
  unfold expect
  rw [nextSolid?_cons (by decide)]
  dsimp only
  rw [if_pos rfl, if_neg (Nat.not_le.mpr hroom), hitem]
  exact if_pos rfl

theorem expect_list (hroom : stack.length < nestingLimit) (hitem : StartsItem t) :
    expect stack ('[' :: t) = expect (.list [] :: stack) t := by
  obtain ⟨c, rest, hitem, hc⟩ := hitem
  -- only the bracket is opened, the list inside is left for the next step
  rw [expect.eq_def stack, nextSolid?_cons (by decide)]
  dsimp only
  rw [if_pos rfl, if_neg (Nat.not_le.mpr hroom), hitem]
  exact if_neg hc

theorem expect_emptyObject (hroom : stack.length < nestingLimit)
    (hmember : nextSolid? t = some ('}', rest)) :
    expect stack ('{' :: t) = deliver (.ofMembers []) stack rest := by
  unfold expect
  rw [nextSolid?_cons (by decide)]
  dsimp only
  rw [if_neg (by decide), if_pos rfl, if_neg (Nat.not_le.mpr hroom), hmember]
  exact if_pos rfl

theorem expect_object {name after : Text} (hroom : stack.length < nestingLimit)
    (hmember : StartsMember t name after) :
    expect stack ('{' :: t) = expect (.object [] name :: stack) after := by
  obtain ⟨rest, hmember, hname⟩ := hmember
  rw [expect.eq_def stack, nextSolid?_cons (by decide)]
  dsimp only
  rw [if_neg (by decide), if_pos rfl, if_neg (Nat.not_le.mpr hroom), hmember]
  dsimp only
  rw [if_neg (by decide), hname]

end

/-! ## Where a value has ended -/

section

variable {value : Json} {outer : List Container} {items : List Json}
  {members : List (Text × Json)} {name t : Text}

theorem deliver_list_close :
    deliver value (.list items :: outer) (']' :: t) =
      deliver (.list (items ++ [value])) outer t := by
  rw [deliver.eq_def value, nextSolid?_cons (by decide)]
  exact if_pos rfl

theorem deliver_list_comma (hitem : StartsItem t) :
    deliver value (.list items :: outer) (',' :: t) =
      expect (.list (items ++ [value]) :: outer) t := by
  obtain ⟨c, rest, hitem, hc⟩ := hitem
  rw [deliver.eq_def, nextSolid?_cons (by decide)]
  dsimp only
  rw [if_neg (by decide), if_pos rfl, hitem]
  exact if_neg hc

theorem deliver_object_close :
    deliver value (.object members name :: outer) ('}' :: t) =
      deliver (.ofMembers (members ++ [(name, value)])) outer t := by
  rw [deliver.eq_def value, nextSolid?_cons (by decide)]
  exact if_pos rfl

theorem deliver_object_comma {name' after : Text} (hmember : StartsMember t name' after) :
    deliver value (.object members name :: outer) (',' :: t) =
      expect (.object (members ++ [(name, value)]) name' :: outer) after := by
  obtain ⟨rest, hmember, hname⟩ := hmember
  rw [deliver.eq_def, nextSolid?_cons (by decide)]
  dsimp only
  rw [if_neg (by decide), if_pos rfl, hmember]
  dsimp only
  rw [if_neg (by decide), hname]

end

end Stencil.Json
