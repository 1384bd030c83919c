import Stencil.Proofs.Runs

/-!
# Where errors point

An error is about the first token that does not fit: the tokens before it are a template or
the beginning of one, and with it they are refused whatever would come next.
-/

namespace Stencil

/-- The tokens are a template, or a block is still open at their end. -/
def Viable (tokens : List Token) : Prop :=
  (∃ template, Template.ofTokens tokens = .ok template) ∨
    ∃ expected, Template.ofTokens tokens = .error (.unterminatedIf expected)

/-- What the error says of the tokens, if it leaves the reader like this. -/
def SyntaxError.PointsInto (tokens : List Token) (reader : Reader) : SyntaxError → Prop
  | unexpectedToken token next =>
      ∃ p, tokens[p]? = some token ∧ tokens[p + 1]? = next ∧
        ((∃ name, token = .flag name) ∨ ∃ word, word ≠ Keyword.ifTag ∧ token = .key word) ∧
        Viable (tokens.take p) ∧
        Template.ofTokens (tokens.take (p + 1)) = .error (.unexpectedToken token none) ∧
        reader = ⟨p + 1, tokens.drop (p + 1)⟩
  | invalidCondition location position =>
      0 < position ∧
        (tokens[position - 1]? = some (.key .ifTag) ∨
          tokens[position - 1]? = some (.key .elseIfTag)) ∧
        Condition.readAt? tokens position = none ∧
        (∀ c : Condition, c.canonical = true → ¬ c.tokens <+: tokens.drop position) ∧
        Viable (tokens.take (position - 1)) ∧
        location = [' '].intercalate
          (((tokens.take (min (position + 2) tokens.length)).drop (position - 1)).map
            Token.display) ∧
        reader = ⟨position, tokens.drop position⟩
  | unterminatedIf _ => reader = ⟨tokens.length, []⟩

/-! ## The tokens before an error -/

theorem viable_of_reads {front rest : List Token} {final : Progress}
    (h : Reads rest .start front final) : Viable front := by
  obtain ⟨body, blocks⟩ := final
  have hread := ofTokens_front h
  cases blocks with
  | nil => exact Or.inl ⟨body, hread⟩
  | cons block outer => exact Or.inr ⟨block.expected, hread⟩

/-! ## Each kind of error -/

theorem drop_past {front after : List Token} {token : Token} :
    (front ++ token :: after).drop (front.length + 1) = after :=
  List.drop_length_add_append 1

theorem Progress.step_misplaced_cases {p : Progress} {token : Token}
    (h : p.step token = .misplaced) :
    (∃ name, token = .flag name) ∨ ∃ word, word ≠ Keyword.ifTag ∧ token = .key word := by
  cases token with
  | raw text => cases h
  | placeholder name => cases h
  | flag name => exact Or.inl ⟨name, rfl⟩
  | key word =>
      refine Or.inr ⟨word, ?_, rfl⟩
      rintro rfl
      cases h

theorem pointsInto_of_misplaced {front after : List Token} {final : Progress} {token : Token}
    (hreads : Reads (token :: after) .start front final) (hstep : final.step token = .misplaced) :
    (SyntaxError.unexpectedToken token after.head?).PointsInto (front ++ token :: after)
      ⟨front.length + 1, after⟩ := by
  have htake : (front ++ token :: after).take (front.length + 1) = front ++ [token] :=
    List.take_length_add_append 1
  -- the error does not depend on what comes after the token
  have hcut : Reads [token] .start front final :=
    hreads.of_offersNoMore (.of_front ⟨after, rfl⟩)
  refine ⟨front.length, ?_, ?_, Progress.step_misplaced_cases hstep, ?_, ?_, ?_⟩
  · simp
  · rw [← List.head?_drop, drop_past]
  · rw [List.take_left]
    exact viable_of_reads hreads
  · rw [htake, ofTokens_of_reads hcut, Reader.run_misplaced hstep]
    rfl
  · rw [drop_past]

theorem pointsInto_of_noCondition {front after : List Token} {final : Progress} {token : Token}
    {resume : Condition → Progress} (hreads : Reads (token :: after) .start front final)
    (hstep : final.step token = .asks resume) (hclause : Condition.readClause? after = none) :
    (SyntaxError.invalidCondition (Reader.location token after) (front.length + 1)).PointsInto
      (front ++ token :: after) ⟨front.length + 1, after⟩ := by
  have htag : token = .key .ifTag ∨ token = .key .elseIfTag := by
    rcases Progress.step_asks_cases hstep with ⟨htoken, -⟩ | ⟨_, _, _, _, htoken, -⟩
    · exact Or.inl htoken
    · exact Or.inr htoken
  refine ⟨Nat.succ_pos _, ?_, ?_, ?_, ?_, ?_, ?_⟩
  · simpa using htag
  · rw [Condition.readAt?, drop_past, hclause]
    rfl
  · rw [drop_past]
    exact Condition.readClause?_eq_none_iff.mp hclause
  · rw [Nat.add_sub_cancel, List.take_left]
    exact viable_of_reads hreads
  · exact location_eq_locationAt front after token
  · rw [drop_past]

/-- An unexpected token is the first one that has no place, for the tokens before it can be
gone on with and those up to it cannot. A condition that is not valid is missing after a
tag, and again the tokens before the tag can be gone on with; the error shows the tokens
from the tag on. A block that is open is noticed after all tokens. -/
theorem pointsInto_of_read {tokens : List Token} {error : SyntaxError} {reader : Reader}
    (h : (Reader.ofTokens tokens).read = (.error error, reader)) :
    error.PointsInto tokens reader := by
  obtain ⟨front, rest, final, rfl, hreads, hstops⟩ := exists_reads .start tokens
  rw [read_of_reads hreads] at h
  cases hstops with
  | atEnd =>
      rw [Reader.run_nil] at h
      obtain ⟨herror, rfl⟩ := Prod.mk.inj h
      obtain ⟨_, block, _, -, rfl⟩ := Progress.finish_eq_error herror
      simp [SyntaxError.PointsInto]
  | misplaced after hstep =>
      rw [Reader.run_misplaced hstep] at h
      cases h
      exact pointsInto_of_misplaced hreads hstep
  | noCondition hstep hclause =>
      rw [Reader.run_asks_none hstep hclause] at h
      cases h
      exact pointsInto_of_noCondition hreads hstep hclause

/-- A connective with nothing to connect: the condition ends before it, so the error is about
the connective and not about the condition. -/
def danglingTokens : List Token :=
  [.key .ifTag, .flag ['a'], .key (.connective .and), .key .notOp, .key .thenTag,
    .key .endIfTag]

theorem pointsInto_danglingTokens :
    (Reader.ofTokens danglingTokens).read =
        (.error (.unexpectedToken (.key (.connective .and)) (some (.key .notOp))),
          ⟨3, [.key .notOp, .key .thenTag, .key .endIfTag]⟩) ∧
      (SyntaxError.unexpectedToken (.key (.connective .and)) (some (.key .notOp))).PointsInto
        danglingTokens ⟨3, [.key .notOp, .key .thenTag, .key .endIfTag]⟩ := by
  have hread : (Reader.ofTokens danglingTokens).read =
      (.error (.unexpectedToken (.key (.connective .and)) (some (.key .notOp))),
        ⟨3, [.key .notOp, .key .thenTag, .key .endIfTag]⟩) := by
    with_unfolding_all rfl
  exact ⟨hread, pointsInto_of_read hread⟩

end Stencil
