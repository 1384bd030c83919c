import Stencil.Proofs.Clauses
import Stencil.Proofs.Recognition

/-!
# Arms as nested blocks

An `#elseif` arm means the same as an `#else` that holds a block with that arm first. As
the block is closed apart from the one around it, an `#endif` is needed for each, where one
had closed the whole chain. That tag is found by counting the blocks that are open.
-/

namespace Stencil

open Grammar

/-! ## The tag that closes a block -/

/-- How many blocks are open after the token, if so many were before it. -/
def Token.openAfter (blocks : Nat) : Token → Nat
  | key .ifTag => blocks + 1
  | key .endIfTag => blocks - 1
  | _ => blocks

/-- The tokens close so many open blocks, the last of these with their last token. -/
def Closes : Nat → List Token → Prop
  | 0, [] => True
  | 0, _ :: _ => False
  | _ + 1, [] => False
  | blocks + 1, token :: tokens => Closes (token.openAfter (blocks + 1)) tokens

instance decidableCloses :
    (blocks : Nat) → (tokens : List Token) → Decidable (Closes blocks tokens)
  | 0, [] => isTrue trivial
  | 0, _ :: _ => isFalse id
  | _ + 1, [] => isFalse id
  | blocks + 1, token :: tokens => decidableCloses (token.openAfter (blocks + 1)) tokens

theorem eq_endIfTag_of_openAfter {blocks : Nat} {token : Token}
    (h : token.openAfter (blocks + 1) = 0) : token = .key .endIfTag := by
  cases token with
  | key word =>
      cases word with
      | endIfTag => rfl
      | ifTag | openParen | closeParen | notOp | connective op | thenTag | elseIfTag | elseTag =>
          cases h
  | raw text | placeholder name | flag name => cases h

theorem closes_cons {blocks : Nat} {token : Token} {tokens : List Token} :
    Closes (blocks + 1) (token :: tokens) ↔ Closes (token.openAfter (blocks + 1)) tokens :=
  Iff.rfl

/-- Where a block is closed does not depend on what comes after. -/
theorem Closes.unique {tokens : List Token} : ∀ {blocks : Nat} {other rest rest' : List Token},
    Closes blocks tokens → Closes blocks other → tokens ++ rest = other ++ rest' →
      tokens = other := by
  induction tokens with
  | nil =>
      intro blocks other rest rest' h hother heq
      cases blocks with
      | succ blocks => cases h
      | zero =>
          cases other with
          | nil => rfl
          | cons token other => cases hother
  | cons token tokens ih =>
      intro blocks other rest rest' h hother heq
      cases blocks with
      | zero => cases h
      | succ blocks =>
          cases other with
          | nil => cases hother
          | cons token' other =>
              obtain ⟨rfl, htail⟩ := List.cons_eq_cons.mp heq
              rw [ih (closes_cons.mp h) (closes_cons.mp hother) htail]

/-- The last token is the tag that closes the outermost of the blocks. -/
theorem Closes.exists_last {tokens : List Token} : ∀ {blocks : Nat},
    Closes (blocks + 1) tokens → ∃ before, tokens = before ++ [.key .endIfTag] := by
  induction tokens with
  | nil => exact fun h => h.elim
  | cons token tokens ih =>
      intro blocks h
      rw [closes_cons] at h
      cases hopen : token.openAfter (blocks + 1) with
      | succ later =>
          rw [hopen] at h
          obtain ⟨before, rfl⟩ := ih h
          exact ⟨token :: before, rfl⟩
      | zero =>
          rw [hopen] at h
          cases tokens with
          | cons next tokens => exact h.elim
          | nil =>
              obtain rfl : token = .key .endIfTag := eq_endIfTag_of_openAfter hopen
              exact ⟨[], rfl⟩

/-- Neither conditions nor what closes them count. -/
theorem Closes.prepend {front : List Token} (hfront : ∀ token ∈ front, beginsBody token = false)
    {blocks : Nat} {tokens : List Token} (h : Closes (blocks + 1) tokens) :
    Closes (blocks + 1) (front ++ tokens) := by
  induction front with
  | nil => exact h
  | cons token front ih =>
      obtain ⟨htoken, hfront⟩ := List.forall_mem_cons.mp hfront
      have hopen : token.openAfter (blocks + 1) = blocks + 1 := by
        cases token with
        | key word =>
            cases word with
            | ifTag | endIfTag => cases htoken
            | openParen | closeParen | notOp | connective op | thenTag | elseIfTag | elseTag => rfl
        | raw text | placeholder name | flag name => rfl
      rw [List.cons_append, closes_cons, hopen]
      exact ih hfront

theorem not_beginsBody_of_mem_opener {anchored : Bool} {opener : List Token}
    (h : Opener anchored opener) : ∀ token ∈ opener, beginsBody token = false := by
  cases h with
  | thenTag => decide
  | absent _ => exact fun _ hmem => absurd hmem List.not_mem_nil

section

variable {anchored : Bool}

mutual

/-- Statements leave open what was open before them. -/
theorem closes_of_statements : ∀ {tokens : List Token} {template : Template},
    Statements anchored tokens template → ∀ {blocks : Nat} {rest : List Token},
      Closes (blocks + 1) rest → Closes (blocks + 1) (tokens ++ rest)
  | _, _, .nil, _, _, hrest => hrest
  | _, _, .raw _ h, _, _, hrest => closes_of_statements h hrest
  | _, _, .placeholder _ h, _, _, hrest => closes_of_statements h hrest
  | _, _, .block harm h, _, _, hrest => by
      rw [List.cons_append, List.append_assoc, closes_cons]
      exact closes_of_arm harm (closes_of_statements h hrest)

/-- An arm closes the block that it is in. -/
theorem closes_of_arm : ∀ {tokens : List Token} {node : Node},
    Arm anchored tokens node → ∀ {blocks : Nat} {rest : List Token},
      Closes blocks rest → Closes (blocks + 1) (tokens ++ rest)
  | _, _, .mk hc hopener hbody hending, _, rest, hrest => by
      simp only [List.append_assoc]
      apply Closes.prepend (fun token hmem => not_beginsBody_of_mem hmem)
      apply Closes.prepend (not_beginsBody_of_mem_opener hopener)
      exact closes_of_statements hbody (closes_of_ending hending hrest)

theorem closes_of_ending : ∀ {c : Condition} {body : Template} {tokens : List Token}
    {node : Node}, Ending anchored c body tokens node → ∀ {blocks : Nat} {rest : List Token},
      Closes blocks rest → Closes (blocks + 1) (tokens ++ rest)
  | _, _, _, _, .endIf _ _, _, _, hrest => hrest
  | _, _, _, _, @Ending.elseBranch _ tokens _ _ _ h, blocks, rest, hrest => by
      have hend : Closes (blocks + 1) (.key .endIfTag :: rest) := hrest
      rw [List.cons_append, closes_cons, List.append_assoc]
      exact closes_of_statements h hend
  | _, _, _, _, .elseIf _ _ h, _, _, hrest => by
      rw [List.cons_append, closes_cons]
      exact closes_of_arm h hrest

end

end

/-! ## An arm made a block of its own -/

/-- The tokens before an arm, `#else` and `#if` in place of its `#elseif`, the arm, an `#endif`
more, and the tokens after it. -/
def nested (before arm rest : List Token) : List Token :=
  before ++ .key .elseTag :: .key .ifTag :: (arm ++ .key .endIfTag :: rest)

/-- The tokens after an `#elseif` begin with an arm, and `p` holds once that is nested. -/
def Nests (p : List Token → Prop) (before after : List Token) : Prop :=
  ∃ arm rest, after = arm ++ rest ∧ Closes 1 arm ∧ p (nested before arm rest)

theorem Nests.around {p q : List Token → Prop} {before after : List Token}
    (h : Nests p before after) (front more : List Token)
    (hpq : ∀ tokens, p tokens → q (front ++ (tokens ++ more))) :
    Nests q (front ++ before) (after ++ more) := by
  obtain ⟨arm, rest, rfl, hcloses, hnested⟩ := h
  refine ⟨arm, rest ++ more, List.append_assoc _ _ _, hcloses, ?_⟩
  have hq := hpq _ hnested
  simpa [nested] using hq

theorem Nests.after {p q : List Token → Prop} {before after : List Token}
    (h : Nests p before after) (front : List Token)
    (hpq : ∀ tokens, p tokens → q (front ++ tokens)) :
    Nests q (front ++ before) after := by
  have haround : Nests q (front ++ before) (after ++ []) := by
    apply h.around front []
    intro tokens hp
    rw [List.append_nil]
    exact hpq tokens hp
  rwa [List.append_nil] at haround

/-- A token of two sequences stands in the first or in the second. -/
theorem split_append {xs ys before after : List Token} {token : Token}
    (h : xs ++ ys = before ++ token :: after) :
    (∃ after', xs = before ++ token :: after' ∧ after = after' ++ ys) ∨
    ∃ before', before = xs ++ before' ∧ ys = before' ++ token :: after := by
  rcases List.append_eq_append_iff.mp h with ⟨before', rfl, rfl⟩ | ⟨after', rfl, htail⟩
  · exact Or.inr ⟨before', rfl, rfl⟩
  · cases after' with
    | nil => exact Or.inr ⟨[], by simp, htail.symm⟩
    | cons first after' =>
        obtain ⟨rfl, rfl⟩ := List.cons_eq_cons.mp htail
        exact Or.inl ⟨after', rfl, rfl⟩

theorem split_of_not_mem {xs ys before after : List Token} {token : Token} (hmem : token ∉ xs)
    (h : xs ++ ys = before ++ token :: after) :
    ∃ before', before = xs ++ before' ∧ ys = before' ++ token :: after := by
  rcases split_append h with ⟨after', rfl, -⟩ | hlater
  · exact absurd (by simp) hmem
  · exact hlater

section

variable {anchored : Bool}

mutual

theorem nests_statements : ∀ {tokens : List Token} {template : Template},
    Statements anchored tokens template → ∀ {before after : List Token},
      tokens = before ++ .key .elseIfTag :: after →
        Nests (Statements anchored · template) before after
  | _, _, .nil, before, after, heq => by simp at heq
  | _, _, @Statements.raw _ tokens _ text h, before, after, heq => by
      have hne : Token.key .elseIfTag ∉ [Token.raw text] := by simp
      obtain ⟨before, rfl, htail⟩ := split_of_not_mem hne heq
      exact (nests_statements h htail).after [.raw text] fun _ => .raw text
  | _, _, @Statements.placeholder _ tokens _ name h, before, after, heq => by
      have hne : Token.key .elseIfTag ∉ [Token.placeholder name] := by simp
      obtain ⟨before, rfl, htail⟩ := split_of_not_mem hne heq
      exact (nests_statements h htail).after [.placeholder name] fun _ => .placeholder name
  | _, _, @Statements.block _ arm tokens _ _ harm h, before, after, heq => by
      have hne : Token.key .elseIfTag ∉ [Token.key .ifTag] := by simp
      obtain ⟨before, rfl, htail⟩ := split_of_not_mem hne heq
      rcases split_append htail with ⟨after, harm', rfl⟩ | ⟨before, rfl, htokens⟩
      · apply (nests_arm harm harm').around [.key .ifTag] tokens
        intro arm harm
        have hblock := Statements.block harm h
        exact hblock
      · rw [← List.append_assoc]
        apply (nests_statements h htokens).after ([Token.key .ifTag] ++ arm)
        intro tokens h
        have hblock := Statements.block harm h
        rw [List.append_assoc]
        exact hblock

theorem nests_arm : ∀ {tokens : List Token} {node : Node}, Arm anchored tokens node →
    ∀ {before after : List Token}, tokens = before ++ .key .elseIfTag :: after →
      Nests (Arm anchored · node) before after
  | _, _, @Arm.mk _ c opener tokens ending body node hc hopener hbody hending, before, after,
      heq => by
      have hne : Token.key .elseIfTag ∉ c.tokens := by
        intro hmem
        cases not_beginsBody_of_mem hmem
      have hne' : Token.key .elseIfTag ∉ opener := by
        intro hmem
        cases not_beginsBody_of_mem_opener hopener _ hmem
      obtain ⟨before, rfl, hlater⟩ := split_of_not_mem hne heq
      obtain ⟨before, rfl, htail⟩ := split_of_not_mem hne' hlater
      rw [← List.append_assoc]
      rcases split_append htail with ⟨after, htokens, rfl⟩ | ⟨before, rfl, hlast⟩
      · apply (nests_statements hbody htokens).around (c.tokens ++ opener) ending
        intro tokens hbody
        rw [List.append_assoc]
        exact .mk hc hopener hbody hending
      · rw [← List.append_assoc]
        apply (nests_ending hending hlast).after (c.tokens ++ opener ++ tokens)
        intro ending hending
        simp only [List.append_assoc]
        exact .mk hc hopener hbody hending

theorem nests_ending : ∀ {c : Condition} {body : Template} {tokens : List Token} {node : Node},
    Ending anchored c body tokens node → ∀ {before after : List Token},
      tokens = before ++ .key .elseIfTag :: after →
        Nests (Ending anchored c body · node) before after
  | _, _, _, _, .endIf _ _, before, after, heq => by
      have hne : Token.key .elseIfTag ∉ [Token.key .endIfTag] := by decide
      exact absurd (by simp [heq]) hne
  | _, _, _, _, @Ending.elseBranch _ tokens _ c body h, before, after, heq => by
      have hne : Token.key .elseIfTag ∉ [Token.key .elseTag] := by decide
      obtain ⟨before, rfl, htail⟩ := split_of_not_mem hne heq
      rcases split_append htail with ⟨after, htokens, rfl⟩ | ⟨before, rfl, hlast⟩
      · exact (nests_statements h htokens).around [.key .elseTag] [.key .endIfTag] fun _ h =>
          .elseBranch c body h
      · have hne : Token.key .elseIfTag ∉ [Token.key .endIfTag] := by decide
        exact absurd (by simp [hlast]) hne
  | _, _, _, _, @Ending.elseIf _ tokens node c body harm, before, after, heq => by
      cases before with
      | nil =>
          -- the arm itself: it becomes the only statement after `#else`
          obtain ⟨-, rfl⟩ := List.cons_eq_cons.mp heq
          have hcloses : Closes 1 (tokens ++ []) := closes_of_arm harm trivial
          have hblock := Statements.block harm .nil
          refine ⟨tokens, [], (List.append_nil _).symm, by simpa using hcloses, ?_⟩
          simpa [nested] using Ending.elseBranch c body hblock
      | cons token before =>
          obtain ⟨rfl, htail⟩ := List.cons_eq_cons.mp heq
          exact (nests_arm harm htail).after [.key .elseIfTag] fun _ => .elseIf c body

end

end

/-- Any `#elseif` of a template can be written as `#else` and `#if`, with one `#endif` more
after the one that closes its block. There is such a tag, and the template stays the same. -/
theorem ofTokens_nested {tokens before after : List Token} {template : Template}
    (h : Template.ofTokens tokens = .ok template)
    (hsplit : tokens = before ++ .key .elseIfTag :: after) :
    (∃ arm rest, after = arm ++ .key .endIfTag :: rest ∧ Closes 1 (arm ++ [.key .endIfTag])) ∧
    ∀ arm rest, after = arm ++ .key .endIfTag :: rest → Closes 1 (arm ++ [.key .endIfTag]) →
      Template.ofTokens (before ++ [.key .elseTag, .key .ifTag] ++ arm ++
        [.key .endIfTag, .key .endIfTag] ++ rest) = .ok template := by
  obtain ⟨closed, rest, rfl, hcloses, hnested⟩ :=
    nests_statements (statements_of_ofTokens h) hsplit
  obtain ⟨arm, rfl⟩ := hcloses.exists_last
  refine ⟨⟨arm, rest, by simp, hcloses⟩, ?_⟩
  intro arm' rest' heq hcloses'
  have hsame : arm ++ [Token.key .endIfTag] ++ rest = arm' ++ [Token.key .endIfTag] ++ rest' := by
    simpa using heq
  have harm := hcloses.unique hcloses' hsame
  obtain rfl : rest = rest' := by
    rw [harm] at hsame
    exact List.append_cancel_left hsame
  obtain rfl : arm = arm' := List.append_cancel_right harm
  have hread := ofTokens_of_statements hnested
  simpa [nested] using hread

/-- An arm with a block in it, and one more arm after it. -/
def longArm : List Token :=
  [.flag ['b'], .key .thenTag, .key .ifTag, .flag ['c'], .raw ['x'], .key .endIfTag,
    .key .elseIfTag, .flag ['d'], .raw ['y']]

/-- The block in the arm has an `#endif` of its own, which is not the one that counts. -/
theorem ofTokens_nested_longArm :
    Closes 1 (longArm ++ [.key .endIfTag]) ∧
      Template.ofTokens
        ([.key .ifTag, .flag ['a']] ++ [.key .elseTag, .key .ifTag] ++ longArm ++
          [.key .endIfTag, .key .endIfTag] ++ [.raw ['z']]) =
        .ok [.ifThenElse (.flag ['a']) []
          [.ifThenElse (.flag ['b']) [.ifThen (.flag ['c']) [.raw ['x']]]
            [.ifThen (.flag ['d']) [.raw ['y']]]], .raw ['z']] := by
  have hcloses : Closes 1 (longArm ++ [.key .endIfTag]) := by decide
  have hread : Template.ofTokens
      ([.key .ifTag, .flag ['a']] ++
        .key .elseIfTag :: (longArm ++ .key .endIfTag :: [.raw ['z']])) =
      .ok [.ifThenElse (.flag ['a']) []
        [.ifThenElse (.flag ['b']) [.ifThen (.flag ['c']) [.raw ['x']]]
          [.ifThen (.flag ['d']) [.raw ['y']]]], .raw ['z']] := by
    with_unfolding_all rfl
  exact ⟨hcloses, (ofTokens_nested hread rfl).2 longArm [.raw ['z']] rfl hcloses⟩

end Stencil
