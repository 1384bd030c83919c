import Stencil.Proofs.Clauses
import Stencil.Proofs.Recognition
import Stencil.Template.Descent

/-!
# Runs of the reader

How far the reader comes without an error, and where it stops. `Reads` says what it makes of
tokens while others are still to come, and by `Reads.of_offersNoMore` these matter only if a
condition could go on into them. Every run is such a part, up to the place where it stops:
`exists_reads`.
-/

namespace Stencil

open Grammar

/-! ## Parts of a run -/

/-- The tokens lead from one progress to another one, if `rest` comes after them. -/
inductive Reads (rest : List Token) : Progress → List Token → Progress → Prop
  | nil (p : Progress) : Reads rest p [] p
  | taken {p p' final : Progress} {token : Token} {tokens : List Token}
      (hstep : p.step token = .taken p') (h : Reads rest p' tokens final) :
      Reads rest p (token :: tokens) final
  | asks {p final : Progress} {resume : Condition → Progress} {token : Token} {c : Condition}
      {clause tokens : List Token} (hstep : p.step token = .asks resume)
      (hclause : Condition.readClause? (clause ++ (tokens ++ rest)) = some (c, tokens ++ rest))
      (h : Reads rest (resume c) tokens final) :
      Reads rest p (token :: (clause ++ tokens)) final

namespace Reads

theorem run {rest tokens : List Token} {p final : Progress} (h : Reads rest p tokens final) :
    ∀ position : Nat, Reader.run p position (tokens ++ rest) =
      Reader.run final (position + tokens.length) rest := by
  induction h with
  | nil p => exact fun position => rfl
  | taken hstep h ih =>
      intro position
      rw [List.cons_append, Reader.run_taken hstep, ih, List.length_cons]
      congr 1
      omega
  | @asks p final resume token c clause tokens hstep hclause h ih =>
      intro position
      rw [← List.append_assoc] at hclause
      rw [List.cons_append, Reader.run_asks hstep hclause, ih]
      congr 1
      simp only [List.length_append, List.length_cons]
      omega

/-- Other tokens can come after, if no condition could go on any further into them. -/
theorem of_offersNoMore {rest other tokens : List Token} {p final : Progress}
    (hrest : OffersNoMore rest other) (h : Reads other p tokens final) :
    Reads rest p tokens final := by
  induction h with
  | nil p => exact .nil p
  | taken hstep h ih => exact .taken hstep ih
  | asks hstep hclause h ih => exact .asks hstep (readClause?_of_offersNoMore hrest hclause) ih

/-- A body or a tag after it can come next, as no condition goes on into them. -/
theorem append {rest more tokens : List Token} {p final : Progress} (h : Reads rest p tokens final)
    (hmore : ∀ token ∈ more.head?, beginsBody token = true) :
    Reads (rest ++ more) p tokens final := h.of_offersNoMore (.of_beginsBody hmore)

end Reads

/-! ## Where a run stops -/

/-- Nothing more can be taken: the tokens are at their end, the first one has no place, or
no condition comes after it. -/
inductive Stops : Progress → List Token → Prop
  | atEnd (p : Progress) : Stops p []
  | misplaced {p : Progress} {token : Token} (after : List Token)
      (hstep : p.step token = .misplaced) : Stops p (token :: after)
  | noCondition {p : Progress} {resume : Condition → Progress} {token : Token}
      {after : List Token} (hstep : p.step token = .asks resume)
      (hclause : Condition.readClause? after = none) : Stops p (token :: after)

/-- Every run goes on up to a place where it stops. -/
theorem exists_reads (p : Progress) (tokens : List Token) :
    ∃ front rest final, tokens = front ++ rest ∧ Reads rest p front final ∧
      Stops final rest := by
  cases tokens with
  | nil => exact ⟨[], [], p, rfl, .nil p, .atEnd p⟩
  | cons token tokens =>
      cases hstep : p.step token with
      | taken p' =>
          obtain ⟨front, rest, final, rfl, hreads, hstops⟩ := exists_reads p' tokens
          exact ⟨token :: front, rest, final, rfl, .taken hstep hreads, hstops⟩
      | asks resume =>
          cases hclause : Condition.readClause? tokens with
          | none => exact ⟨[], token :: tokens, p, rfl, .nil p, .noCondition hstep hclause⟩
          | some found =>
              obtain ⟨c, after⟩ := found
              have hshort := Condition.readClause?_shorter hclause
              obtain ⟨-, opener, -, htokens⟩ := opener_of_readClause? hclause
              obtain ⟨front, rest, final, rfl, hreads, hstops⟩ := exists_reads (resume c) after
              rw [← List.append_assoc] at htokens
              subst htokens
              exact ⟨token :: (c.tokens ++ opener ++ front), rest, final, by simp,
                .asks hstep hclause hreads, hstops⟩
      | misplaced => exact ⟨[], token :: tokens, p, rfl, .nil p, .misplaced tokens hstep⟩
termination_by tokens.length

/-! ## What the reader answers -/

theorem location_eq_locationAt (front after : List Token) (token : Token) :
    Reader.location token after = Reader.locationAt (front ++ token :: after) (front.length + 1) := by
  rw [Reader.locationAt, ← List.take_eq_take_min, Nat.add_sub_cancel, Nat.add_assoc,
    List.take_length_add_append, List.drop_left]
  rfl

/-- Only an open block can be wrong at the end. -/
theorem Progress.finish_eq_error {p : Progress} {error : SyntaxError}
    (h : p.finish = .error error) :
    ∃ body block outer, p = ⟨body, block :: outer⟩ ∧
      error = .unterminatedIf block.expected := by
  obtain ⟨body, blocks⟩ := p
  cases blocks with
  | nil => cases h
  | cons block outer =>
      cases h
      exact ⟨body, block, outer, rfl, rfl⟩

theorem read_of_reads {front rest : List Token} {final : Progress}
    (h : Reads rest .start front final) :
    (Reader.ofTokens (front ++ rest)).read = Reader.run final front.length rest := by
  rw [Reader.read, Reader.ofTokens, h.run, Nat.zero_add]

theorem ofTokens_of_reads {front rest : List Token} {final : Progress}
    (h : Reads rest .start front final) :
    Template.ofTokens (front ++ rest) = (Reader.run final front.length rest).1 := by
  rw [Template.ofTokens, read_of_reads h]

theorem ofTokens_of_reads_nil {tokens : List Token} {final : Progress}
    (h : Reads [] .start tokens final) : Template.ofTokens tokens = final.finish := by
  have hread := ofTokens_of_reads h
  rwa [List.append_nil, Reader.run_nil] at hread

/-- All tokens were read: more of them are read from there on. -/
theorem ofTokens_append {tokens more : List Token} {final : Progress}
    (h : Reads [] .start tokens final) (hmore : ∀ token ∈ more.head?, beginsBody token = true) :
    Template.ofTokens (tokens ++ more) = (Reader.run final tokens.length more).1 :=
  ofTokens_of_reads (h.append hmore)

/-- Cut off where it stops, a run has no error but that a block is open. -/
theorem ofTokens_front {front rest : List Token} {final : Progress}
    (h : Reads rest .start front final) : Template.ofTokens front = final.finish :=
  ofTokens_of_reads_nil (h.of_offersNoMore (.of_front (List.nil_prefix)))

end Stencil
