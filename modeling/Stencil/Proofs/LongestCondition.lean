import Stencil.Proofs.CanonicalCondition

/-!
# The longest condition

Reading takes the longest canonical condition that the tokens begin with, and there is
only one. A connective that is left unread, because its right side cannot be read, could
not have been taken by any other canonical condition either.
-/

namespace Stencil.Condition

/-! ## Every canonical condition in front is outdone -/

theorem extend_length_le (left : Condition) (tokens : List Token) :
    (extend left tokens).2.length ≤ tokens.length :=
  (extendShorter left tokens).property

/-- Where a canonical condition stands in front, no less than that is read. -/
theorem exists_read?_append {c : Condition} (hc : c.canonical = true) : ∀ rest : List Token,
    ∃ found rest', read? (c.tokens ++ rest) = some (found, rest') ∧
      rest'.length ≤ rest.length := by
  induction c with
  | flag name =>
      intro rest
      have hread := (read?_tokens_append_both (flag name) hc rest).1 rfl
      exact ⟨_, _, hread, extend_length_le _ _⟩
  | not inner ih =>
      intro rest
      obtain ⟨found, rest', hread, hle⟩ := ih hc rest
      refine ⟨not found, rest', ?_, hle⟩
      show read? (.key .notOp :: (inner.tokens ++ rest)) = _
      rw [read?_not, hread]
      rfl
  -- the closing bracket ends what is read inside, so nothing more can be taken there
  | brackets inner ih =>
      intro rest
      have hread := (read?_tokens_append_both (brackets inner) hc rest).1 rfl
      exact ⟨_, _, hread, extend_length_le _ _⟩
  | join op left right ihl ihr =>
      simp only [canonical, Bool.and_eq_true] at hc
      obtain ⟨⟨hatom, hleft⟩, hright⟩ := hc
      intro rest
      obtain ⟨found, rest', hread, hle⟩ := ihr hright rest
      refine ⟨join op left found, rest', ?_, hle⟩
      simp only [tokens, List.append_assoc, List.cons_append]
      rw [(read?_tokens_append_both left hleft _).1 hatom, extend_connective, hread]

theorem read?_eq_none_iff {tokens : List Token} :
    read? tokens = none ↔ ∀ c : Condition, c.canonical = true → ¬ c.tokens <+: tokens := by
  constructor
  · rintro hnone c hc ⟨rest, rfl⟩
    obtain ⟨found, rest', hread, -⟩ := exists_read?_append hc rest
    rw [hnone] at hread
    cases hread
  · intro hnone
    cases hread : read? tokens with
    | none => rfl
    | some found =>
        obtain ⟨c, rest⟩ := found
        obtain ⟨hc, rfl⟩ := canonical_of_read? hread
        exact absurd (List.prefix_append _ _) (hnone c hc)

/-! ## The longest one -/

/-- The tokens begin with `c`, and with no canonical condition that is longer. -/
structure IsLongest (tokens : List Token) (c : Condition) : Prop where
  canonical : c.canonical = true
  front : c.tokens <+: tokens
  longest : ∀ other : Condition, other.canonical = true → other.tokens <+: tokens →
    other.tokens.length ≤ c.tokens.length

/-- Canonical conditions are written differently. -/
theorem eq_of_tokens_eq {c other : Condition} (hc : c.canonical = true)
    (hother : other.canonical = true) (h : c.tokens = other.tokens) : c = other := by
  have hread : read? (c.tokens ++ []) = some (c, []) := read?_tokens_append hc (by simp)
  have hread' : read? (other.tokens ++ []) = some (other, []) :=
    read?_tokens_append hother (by simp)
  rw [h, hread'] at hread
  cases hread
  rfl

theorem IsLongest.unique {tokens : List Token} {c other : Condition} (h : IsLongest tokens c)
    (hother : IsLongest tokens other) : other = c := by
  have hlength : other.tokens.length = c.tokens.length :=
    Nat.le_antisymm (h.longest other hother.canonical hother.front)
      (hother.longest c h.canonical h.front)
  have hfront : other.tokens <+: c.tokens :=
    List.prefix_of_prefix_length_le hother.front h.front (Nat.le_of_eq hlength)
  exact eq_of_tokens_eq hother.canonical h.canonical (hfront.eq_of_length hlength)

theorem isLongest_of_read? {tokens rest : List Token} {c : Condition}
    (h : read? tokens = some (c, rest)) : IsLongest tokens c := by
  obtain ⟨hc, heq⟩ := canonical_of_read? h
  refine ⟨hc, ⟨rest, heq.symm⟩, ?_⟩
  rintro other hother ⟨after, hafter⟩
  obtain ⟨found, rest', hread, hle⟩ := exists_read?_append hother after
  rw [hafter, h] at hread
  cases hread
  have hlength := congrArg List.length (hafter.trans heq)
  simp only [List.length_append] at hlength
  omega

/-! ## At a position -/

/-- One for the `#then` at the position, if there is one. -/
def thenLength (tokens : List Token) (position : Nat) : Nat :=
  if tokens[position]? = some (.key .thenTag) then 1 else 0

theorem readClause?_of_read? {tokens rest : List Token} {c : Condition}
    (h : read? tokens = some (c, rest)) :
    readClause? tokens = some (c, rest.drop (thenLength rest 0)) := by
  rw [readClause?, h, Option.map_some]
  split
  next heq =>
    cases heq
    split
    · rfl
    · next hthen =>
        have hnone : rest[0]? ≠ some (.key .thenTag) := by
          rw [← List.head?_eq_getElem?]
          intro hhead
          obtain ⟨body, rfl⟩ := List.head?_eq_some_iff.mp hhead
          exact hthen body rfl
        rw [thenLength, if_neg hnone, List.drop_zero]

theorem readAt?_of_read? {tokens rest : List Token} {position : Nat} {c : Condition}
    (h : read? (tokens.drop position) = some (c, rest)) :
    readAt? tokens position = some (c,
      position + c.tokens.length + thenLength tokens (position + c.tokens.length)) ∧
    position + c.tokens.length + thenLength tokens (position + c.tokens.length) ≤
      tokens.length := by
  obtain ⟨-, heq⟩ := canonical_of_read? h
  have hthen : thenLength tokens (position + c.tokens.length) = thenLength rest 0 := by
    rw [thenLength, thenLength, ← List.getElem?_drop, heq,
      List.getElem?_append_right (Nat.le_refl _), Nat.sub_self]
  have hlength := congrArg List.length heq
  have hshort := read?_shorter h
  have hle : thenLength rest 0 ≤ rest.length := by
    unfold thenLength
    split
    · next hhead => exact List.length_pos_iff.mpr (by rintro rfl; cases hhead)
    · exact Nat.zero_le _
  simp only [List.length_drop, List.length_append] at hlength hshort
  rw [hthen]
  constructor
  · have hnext : tokens.length - (rest.drop (thenLength rest 0)).length =
        position + c.tokens.length + thenLength rest 0 := by
      rw [List.length_drop]
      omega
    rw [readAt?, readClause?_of_read? h, ← hnext]
    rfl
  · omega

/-- What is read at a position is the longest canonical condition that begins there, which
is unique, together with the `#then` after it; nothing is read if none begins there. No
position after the end is returned. -/
theorem readAt?_longest (tokens : List Token) (position : Nat) :
    ((∀ c : Condition, c.canonical = true → ¬ c.tokens <+: tokens.drop position) →
      readAt? tokens position = none) ∧
    ((∃ c : Condition, c.canonical = true ∧ c.tokens <+: tokens.drop position) →
      ∃ c, IsLongest (tokens.drop position) c ∧
        (∀ other, IsLongest (tokens.drop position) other → other = c) ∧
        readAt? tokens position = some (c,
          position + c.tokens.length + thenLength tokens (position + c.tokens.length))) ∧
    ∀ c next, readAt? tokens position = some (c, next) → next ≤ tokens.length := by
  cases hread : read? (tokens.drop position) with
  | none =>
      have hat : readAt? tokens position = none := by rw [readAt?, readClause?, hread]; rfl
      refine ⟨fun _ => hat, ?_, ?_⟩
      · rintro ⟨c, hc, hfront⟩
        exact absurd hfront (read?_eq_none_iff.mp hread c hc)
      · intro c next h
        rw [hat] at h
        cases h
  | some found =>
      obtain ⟨c, rest⟩ := found
      have hlongest := isLongest_of_read? hread
      obtain ⟨hat, hle⟩ := readAt?_of_read? hread
      refine ⟨?_, ?_, ?_⟩
      · intro hnone
        exact absurd hlongest.front (hnone c hlongest.canonical)
      · rintro -
        exact ⟨c, hlongest, fun other hother => hlongest.unique hother, hat⟩
      · intro c' next h
        rw [hat] at h
        cases h
        exact hle

end Stencil.Condition
