import Stencil.Condition.Reader

/-!
# Canonical conditions

Reading finds canonical conditions and no others. What has been read is canonical, and
its tokens are the ones that were taken; a canonical condition is read off the front of
its own tokens, whatever follows them, unless that is a connective.
-/

namespace Stencil.Condition

/-! ## The tokens of a condition -/

/-- A condition is written with flags and the keywords that are known inside, but `#then`. -/
theorem mem_tokens_cases {c : Condition} {token : Token} (h : token ∈ c.tokens) :
    (∃ name, token = .flag name) ∨
    (∃ word : Keyword, word.inCondition = true ∧ word ≠ .thenTag ∧ token = .key word) := by
  induction c with
  | flag name => exact Or.inl ⟨name, List.mem_singleton.mp h⟩
  | not inner ih =>
      rcases List.mem_cons.mp h with rfl | h
      · exact Or.inr ⟨.notOp, rfl, by decide, rfl⟩
      · exact ih h
  | brackets inner ih =>
      simp only [tokens, List.mem_cons, List.mem_append, List.not_mem_nil, or_false] at h
      rcases h with (rfl | h) | rfl
      · exact Or.inr ⟨.openParen, rfl, by decide, rfl⟩
      · exact ih h
      · exact Or.inr ⟨.closeParen, rfl, by decide, rfl⟩
  | join op left right ihl ihr =>
      simp only [tokens, List.mem_cons, List.mem_append] at h
      rcases h with h | rfl | h
      · exact ihl h
      · exact Or.inr ⟨.connective op, rfl, by simp, rfl⟩
      · exact ihr h

/-! ## What reading can do -/

theorem read?_cases {tokens rest : List Token} {c : Condition}
    (h : read? tokens = some (c, rest)) :
    (∃ name after, tokens = .flag name :: after ∧ extend (flag name) after = (c, rest)) ∨
    (∃ inner after, tokens = .key .notOp :: after ∧ read? after = some (inner, rest) ∧
      c = not inner) ∨
    (∃ inner after after', tokens = .key .openParen :: after ∧
      read? after = some (inner, .key .closeParen :: after') ∧
      extend (brackets inner) after' = (c, rest)) := by
  match tokens with
  | .flag name :: after =>
      rw [read?_flag] at h
      exact Or.inl ⟨name, after, rfl, Option.some.inj h⟩
  | .key .notOp :: after =>
      rw [read?_not] at h
      obtain ⟨⟨inner, rest'⟩, hread, heq⟩ := Option.map_eq_some_iff.mp h
      cases heq
      exact Or.inr (Or.inl ⟨inner, after, rfl, hread, rfl⟩)
  | .key .openParen :: after =>
      rw [read?_openParen] at h
      split at h
      · next inner after' hread =>
          exact Or.inr (Or.inr ⟨inner, after, after', rfl, hread, Option.some.inj h⟩)
      · cases h
  | [] | .raw _ :: _ | .placeholder _ :: _ | .key .ifTag :: _ | .key .closeParen :: _
  | .key (.connective _) :: _ | .key .thenTag :: _ | .key .elseIfTag :: _ | .key .elseTag :: _
  | .key .endIfTag :: _ => simp [read?, readShorter] at h

theorem extend_cases {left c : Condition} {tokens rest : List Token}
    (h : extend left tokens = (c, rest)) :
    (c = left ∧ rest = tokens ∧
      ∀ op after, tokens = .key (.connective op) :: after → read? after = none) ∨
    (∃ op right after, tokens = .key (.connective op) :: after ∧
      read? after = some (right, rest) ∧ c = join op left right) := by
  by_cases hop : ∃ op after, tokens = .key (.connective op) :: after
  · obtain ⟨op, after, rfl⟩ := hop
    rw [extend_connective] at h
    split at h
    · next right rest' hread =>
        cases h
        exact Or.inr ⟨op, right, after, rfl, hread, rfl⟩
    · next hread =>
        cases h
        refine Or.inl ⟨rfl, rfl, ?_⟩
        intro op' after' heq
        cases heq
        exact hread
  · have hother : ∀ op after, tokens ≠ .key (.connective op) :: after :=
      fun op after heq => hop ⟨op, after, heq⟩
    rw [extend_other hother] at h
    cases h
    exact Or.inl ⟨rfl, rfl, fun op after heq => absurd heq (hother op after)⟩

/-! ## What was read is canonical -/

/-- If reading the tokens after a connective is sound, so is joining on to `left`. -/
theorem canonical_of_extend {left c : Condition} {tokens rest : List Token}
    (hatom : left.isAtom = true) (hleft : left.canonical = true)
    (hright : ∀ op after right, tokens = .key (.connective op) :: after →
      read? after = some (right, rest) →
        right.canonical = true ∧ after = right.tokens ++ rest)
    (h : extend left tokens = (c, rest)) :
    c.canonical = true ∧ left.tokens ++ tokens = c.tokens ++ rest := by
  rcases extend_cases h with ⟨rfl, rfl, -⟩ | ⟨op, right, after, rfl, hread, rfl⟩
  · exact ⟨hleft, rfl⟩
  · obtain ⟨hcanonical, rfl⟩ := hright op after right rfl hread
    exact ⟨by simp [canonical, hatom, hleft, hcanonical], by simp [tokens]⟩

theorem canonical_of_read? {tokens rest : List Token} {c : Condition}
    (h : read? tokens = some (c, rest)) :
    c.canonical = true ∧ tokens = c.tokens ++ rest := by
  rcases read?_cases h with ⟨name, after, rfl, hext⟩ | ⟨inner, after, rfl, hread, rfl⟩ |
    ⟨inner, after, after', rfl, hread, hext⟩
  · refine canonical_of_extend rfl rfl ?_ hext
    rintro op later right rfl hread
    exact canonical_of_read? hread
  · obtain ⟨hcanonical, rfl⟩ := canonical_of_read? hread
    exact ⟨hcanonical, rfl⟩
  · have hshort := read?_shorter hread
    obtain ⟨hcanonical, rfl⟩ := canonical_of_read? hread
    have hbrackets : (brackets inner).canonical = true := hcanonical
    have hright : ∀ op later right, after' = .key (.connective op) :: later →
        read? later = some (right, rest) →
          right.canonical = true ∧ later = right.tokens ++ rest := by
      rintro op later right rfl hread'
      exact canonical_of_read? hread'
    obtain ⟨hc, htokens⟩ := canonical_of_extend rfl hbrackets hright hext
    exact ⟨hc, by simpa [Condition.tokens] using htokens⟩
termination_by tokens.length
decreasing_by all_goals simp_all only [List.length_cons]; omega

/-! ## A canonical condition is read -/

/-- The stronger half for atoms is what a connective needs on its left. -/
theorem read?_tokens_append_both (c : Condition) (hc : c.canonical = true) :
    ∀ rest, (c.isAtom = true → read? (c.tokens ++ rest) = some (extend c rest)) ∧
      ((∀ op after, rest ≠ .key (.connective op) :: after) →
        read? (c.tokens ++ rest) = some (c, rest)) := by
  induction c with
  | flag name =>
      intro rest
      have hread : read? ((flag name).tokens ++ rest) = some (extend (flag name) rest) :=
        read?_flag name rest
      refine ⟨fun _ => hread, ?_⟩
      intro hrest
      rw [hread, extend_other hrest]
  | not inner ih =>
      intro rest
      refine ⟨fun hatom => by simp [isAtom] at hatom, ?_⟩
      intro hrest
      show read? (.key .notOp :: (inner.tokens ++ rest)) = _
      rw [read?_not, (ih hc rest).2 hrest]
      rfl
  | brackets inner ih =>
      intro rest
      have hread : read? ((brackets inner).tokens ++ rest) =
          some (extend (brackets inner) rest) := by
        have hinner := (ih hc (.key .closeParen :: rest)).2 (by simp)
        simp only [tokens, List.cons_append, List.append_assoc, List.nil_append]
        rw [read?_openParen, hinner]
      refine ⟨fun _ => hread, ?_⟩
      intro hrest
      rw [hread, extend_other hrest]
  | join op left right ihl ihr =>
      simp only [canonical, Bool.and_eq_true] at hc
      obtain ⟨⟨hatom, hleft⟩, hright⟩ := hc
      intro rest
      refine ⟨fun hatom' => by simp [isAtom] at hatom', ?_⟩
      intro hrest
      simp only [tokens, List.append_assoc, List.cons_append]
      rw [(ihl hleft _).1 hatom, extend_connective, (ihr hright rest).2 hrest]

theorem read?_tokens_append {c : Condition} (hc : c.canonical = true) {rest : List Token}
    (hrest : ∀ op after, rest ≠ .key (.connective op) :: after) :
    read? (c.tokens ++ rest) = some (c, rest) :=
  (read?_tokens_append_both c hc rest).2 hrest

end Stencil.Condition
