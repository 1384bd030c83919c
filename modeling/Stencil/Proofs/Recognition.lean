import Stencil.Proofs.Grammar

/-!
# The reader accepts the grammar

The reader keeps a stack of open blocks, the grammar has none. `Finishes` says which
tokens complete a stack to which template; every step of the reader keeps it, so what
the reader accepts is derivable. Conversely a derivation leads the reader through its
tokens.
-/

namespace Stencil

open Grammar

/-! ## What one token can do -/

namespace Progress

theorem step_taken_cases {p p' : Progress} {token : Token} (h : p.step token = .taken p') :
    (∃ text, token = .raw text ∧ p' = p.add (.raw text)) ∨
    (∃ name, token = .placeholder name ∧ p' = p.add (.placeholder name)) ∨
    (∃ before earlier c outer, token = .key .elseTag ∧
      p.blocks = ⟨before, earlier, c, none⟩ :: outer ∧
      p' = ⟨[], ⟨before, earlier, c, some p.body⟩ :: outer⟩) ∨
    (∃ block outer, token = .key .endIfTag ∧ p.blocks = block :: outer ∧
      p' = ⟨block.before ++ [block.close p.body], outer⟩) := by
  unfold step at h
  split at h
  · cases h
    exact Or.inl ⟨_, rfl, rfl⟩
  · cases h
    exact Or.inr (Or.inl ⟨_, rfl, rfl⟩)
  · cases h
  · cases h
  · next hblocks =>
      cases h
      exact Or.inr (Or.inr (Or.inl ⟨_, _, _, _, rfl, hblocks, rfl⟩))
  · next hblocks =>
      cases h
      exact Or.inr (Or.inr (Or.inr ⟨_, _, rfl, hblocks, rfl⟩))
  · cases h

theorem step_asks_cases {p : Progress} {token : Token} {resume : Condition → Progress}
    (h : p.step token = .asks resume) :
    (token = .key .ifTag ∧ resume = p.openBlock) ∨
    (∃ before earlier c outer, token = .key .elseIfTag ∧
      p.blocks = ⟨before, earlier, c, none⟩ :: outer ∧
      resume = fun c' => ⟨[], ⟨before, earlier ++ [(c, p.body)], c', none⟩ :: outer⟩) := by
  unfold step at h
  split at h
  · cases h
  · cases h
  · cases h
    exact Or.inl ⟨rfl, rfl⟩
  · next hblocks =>
      cases h
      exact Or.inr ⟨_, _, _, _, rfl, hblocks, rfl⟩
  · cases h
  · cases h
  · cases h

end Progress

/-! ## Completing a stack of blocks -/

/-- The arms that are ended, around the last one. -/
def chain (earlier : List (Condition × Template)) (last : Node) : Node :=
  earlier.foldr (fun (c, arm) inner => .ifThenElse c arm [inner]) last

@[simp] theorem chain_snoc (earlier : List (Condition × Template)) (c : Condition)
    (arm : Template) (last : Node) :
    chain (earlier ++ [(c, arm)]) last = chain earlier (.ifThenElse c arm [last]) := by
  simp [chain]

/-- The last arm of a block ends with these tokens, if `body` is what its open branch
holds. After `#else` only `#endif` can follow. -/
def Block.Ends (block : Block) (body : Template) (tokens : List Token) (last : Node) : Prop :=
  match block.thenBody with
  | none => Ending false block.condition body tokens last
  | some thenBody =>
      tokens = [.key .endIfTag] ∧ last = .ifThenElse block.condition thenBody body

/-- The tokens that are still to come, and the template that they lead to. -/
inductive Finishes : Progress → List Token → Template → Prop
  | done {tokens : List Token} {more : Template} (body : Template)
      (h : Statements false tokens more) : Finishes ⟨body, []⟩ tokens (body ++ more)
  | close {body more template : Template} {block : Block} {outer : List Block}
      {tokens ending rest : List Token} {last : Node} (h : Statements false tokens more)
      (hends : block.Ends (body ++ more) ending last)
      (hrest : Finishes ⟨block.before ++ [chain block.earlier last], outer⟩ rest template) :
      Finishes ⟨body, block :: outer⟩ (tokens ++ (ending ++ rest)) template

namespace Finishes

/-- A statement in front of the tokens is a statement that is not yet read. -/
theorem of_add {p : Progress} {node : Node} {front rest : List Token} {template : Template}
    (hfront : ∀ {tokens : List Token} {more : Template}, Statements false tokens more →
      Statements false (front ++ tokens) (node :: more))
    (h : Finishes (p.add node) rest template) : Finishes p (front ++ rest) template := by
  obtain ⟨body, blocks⟩ := p
  cases h with
  | done _ h =>
      rw [List.append_assoc]
      exact .done body (hfront h)
  | close h hends hrest =>
      rw [List.append_assoc] at hends
      rw [← List.append_assoc]
      exact .close (hfront h) hends hrest

theorem of_endIf {body template : Template} {block : Block} {outer : List Block}
    {rest : List Token} (h : Finishes ⟨block.before ++ [block.close body], outer⟩ rest template) :
    Finishes ⟨body, block :: outer⟩ (.key .endIfTag :: rest) template := by
  obtain ⟨before, earlier, c, thenBody⟩ := block
  cases thenBody with
  | none =>
      have hends : Block.Ends ⟨before, earlier, c, none⟩ (body ++ []) [.key .endIfTag]
          (.ifThen c body) := by
        rw [List.append_nil]
        exact .endIf c body
      exact .close .nil hends h
  | some thenBody =>
      have hends : Block.Ends ⟨before, earlier, c, some thenBody⟩ (body ++ []) [.key .endIfTag]
          (.ifThenElse c thenBody body) := by
        rw [List.append_nil]
        exact ⟨rfl, rfl⟩
      exact .close .nil hends h

theorem of_elseTag {before body template : Template} {earlier : List (Condition × Template)}
    {c : Condition} {outer : List Block} {rest : List Token}
    (h : Finishes ⟨[], ⟨before, earlier, c, some body⟩ :: outer⟩ rest template) :
    Finishes ⟨body, ⟨before, earlier, c, none⟩ :: outer⟩ (.key .elseTag :: rest) template := by
  cases h with
  | @close _ more _ _ _ tokens _ rest _ h hends hrest =>
      obtain ⟨rfl, rfl⟩ := hends
      have hends : Block.Ends ⟨before, earlier, c, none⟩ (body ++ [])
          (.key .elseTag :: (tokens ++ [.key .endIfTag])) (.ifThenElse c body more) := by
        rw [List.append_nil]
        exact .elseBranch c body h
      have hclose : Finishes ⟨body, ⟨before, earlier, c, none⟩ :: outer⟩
          ([] ++ (.key .elseTag :: (tokens ++ [.key .endIfTag]) ++ rest)) template :=
        .close .nil hends hrest
      simpa using hclose

/-- An arm that has been opened is ended by what finishes the stack. -/
theorem exists_arm {before template : Template} {earlier : List (Condition × Template)}
    {c : Condition} {outer : List Block} {opener rest : List Token} (hc : c.canonical = true)
    (hopener : Opener false opener)
    (h : Finishes ⟨[], ⟨before, earlier, c, none⟩ :: outer⟩ rest template) :
    ∃ arm node rest', c.tokens ++ (opener ++ rest) = arm ++ rest' ∧ Arm false arm node ∧
      Finishes ⟨before ++ [chain earlier node], outer⟩ rest' template := by
  -- the stack is not empty, so its innermost block is the arm
  cases h with
  | close h hends hrest =>
      exact ⟨_, _, _, by simp, .mk hc hopener h hends, hrest⟩

theorem of_ifTag {p : Progress} {c : Condition} {opener rest : List Token} {template : Template}
    (hc : c.canonical = true) (hopener : Opener false opener)
    (h : Finishes (p.openBlock c) rest template) :
    Finishes p (.key .ifTag :: (c.tokens ++ (opener ++ rest))) template := by
  obtain ⟨arm, node, rest', heq, harm, hrest⟩ := exists_arm hc hopener h
  rw [heq]
  show Finishes p ((.key .ifTag :: arm) ++ rest') template
  exact of_add (fun h => .block harm h) hrest

theorem of_elseIfTag {before body template : Template} {earlier : List (Condition × Template)}
    {c c' : Condition} {outer : List Block} {opener rest : List Token} (hc : c'.canonical = true)
    (hopener : Opener false opener)
    (h : Finishes ⟨[], ⟨before, earlier ++ [(c, body)], c', none⟩ :: outer⟩ rest template) :
    Finishes ⟨body, ⟨before, earlier, c, none⟩ :: outer⟩
      (.key .elseIfTag :: (c'.tokens ++ (opener ++ rest))) template := by
  obtain ⟨arm, node, rest', heq, harm, hrest⟩ := exists_arm hc hopener h
  rw [chain_snoc] at hrest
  have hends : Block.Ends ⟨before, earlier, c, none⟩ (body ++ []) (.key .elseIfTag :: arm)
      (.ifThenElse c body [node]) := by
    rw [List.append_nil]
    exact .elseIf c body harm
  rw [heq]
  exact .close .nil hends hrest

end Finishes

/-! ## What is accepted is derivable -/

theorem finishes_of_run {p : Progress} {position : Nat} {tokens : List Token}
    {template : Template} (h : (Reader.run p position tokens).1 = .ok template) :
    Finishes p tokens template := by
  fun_induction Reader.run p position tokens with
  | case1 p position =>
      obtain ⟨body, blocks⟩ := p
      cases blocks with
      | nil =>
          cases h
          simpa using Finishes.done body .nil
      | cons block outer => cases h
  | case2 p position token rest p' hstep ih =>
      have hrest := ih h
      obtain ⟨body, blocks⟩ := p
      rcases Progress.step_taken_cases hstep with ⟨text, rfl, rfl⟩ | ⟨name, rfl, rfl⟩ |
        ⟨before, earlier, c, outer, rfl, rfl, rfl⟩ | ⟨block, outer, rfl, rfl, rfl⟩
      · show Finishes _ ([.raw text] ++ rest) template
        exact hrest.of_add (fun h => .raw text h)
      · show Finishes _ ([.placeholder name] ++ rest) template
        exact hrest.of_add (fun h => .placeholder name h)
      · exact hrest.of_elseTag
      · exact hrest.of_endIf
  | case3 p position token rest resume hstep c rest' hclause ih =>
      have hrest := ih h
      obtain ⟨hc, opener, hopener, rfl⟩ := opener_of_readClause? hclause
      obtain ⟨body, blocks⟩ := p
      rcases Progress.step_asks_cases hstep with ⟨rfl, rfl⟩ |
        ⟨before, earlier, c', outer, rfl, rfl, rfl⟩
      · exact hrest.of_ifTag hc hopener
      · exact hrest.of_elseIfTag hc hopener
  | case4 => cases h
  | case5 => cases h

theorem statements_of_ofTokens {tokens : List Token} {template : Template}
    (h : Template.ofTokens tokens = .ok template) : Statements false tokens template := by
  have hfinishes : Finishes .start tokens template := finishes_of_run h
  cases hfinishes with
  | done _ hstatements => exact hstatements

/-! ## What is derivable is accepted -/

section

variable {anchored : Bool}

mutual

/-- A derivation of statements leads the reader through them, whatever comes after. -/
theorem run_of_statements : ∀ {tokens : List Token} {template : Template},
    Statements anchored tokens template → ∀ (p : Progress) (position : Nat) (rest : List Token),
      ∃ position', Reader.run p position (tokens ++ rest) =
        Reader.run ⟨p.body ++ template, p.blocks⟩ position' rest
  | _, _, .nil, p, position, rest => ⟨position, by simp⟩
  | _, _, .raw text h, p, position, rest => by
      obtain ⟨position', hrun⟩ := run_of_statements h (p.add (.raw text)) (position + 1) rest
      refine ⟨position', ?_⟩
      have hstep : p.step (.raw text) = .taken (p.add (.raw text)) := rfl
      rw [List.cons_append, Reader.run_taken hstep, hrun]
      simp [Progress.add]
  | _, _, .placeholder name h, p, position, rest => by
      obtain ⟨position', hrun⟩ :=
        run_of_statements h (p.add (.placeholder name)) (position + 1) rest
      refine ⟨position', ?_⟩
      have hstep : p.step (.placeholder name) = .taken (p.add (.placeholder name)) := rfl
      rw [List.cons_append, Reader.run_taken hstep, hrun]
      simp [Progress.add]
  | _, _, @Statements.block _ _ tokens node _ harm h, p, position, rest => by
      obtain ⟨c, after, hclause, hrun⟩ := clause_of_arm harm (tokens ++ rest)
      have hstep : p.step (.key .ifTag) = .asks p.openBlock := rfl
      rw [List.cons_append, List.append_assoc, Reader.run_asks hstep hclause]
      obtain ⟨position₁, hrun₁⟩ := hrun p.body [] p.blocks _
      obtain ⟨position₂, hrun₂⟩ := run_of_statements h (p.add node) position₁ rest
      refine ⟨position₂, ?_⟩
      rw [Progress.openBlock, hrun₁]
      show Reader.run (p.add node) position₁ (tokens ++ rest) = _
      rw [hrun₂]
      simp [Progress.add]

/-- The condition of an arm is read in full, and the tokens after it lead to its end. -/
theorem clause_of_arm : ∀ {tokens : List Token} {node : Node},
    Arm anchored tokens node → ∀ rest : List Token,
      ∃ c after, Condition.readClause? (tokens ++ rest) = some (c, after) ∧
        ∀ before earlier outer position, ∃ position',
          Reader.run ⟨[], ⟨before, earlier, c, none⟩ :: outer⟩ position after =
            Reader.run ⟨before ++ [chain earlier node], outer⟩ position' rest
  | _, _, @Arm.mk _ c opener tokens ending body node hc hopener hbody hending, rest => by
      obtain ⟨token, after, heq, hbegins⟩ := exists_beginsBody hbody hending rest
      refine ⟨c, tokens ++ (ending ++ rest), ?_, ?_⟩
      -- the condition stops where the body begins
      · rw [heq, ← readClause?_append hc hopener hbegins after, ← heq]
        simp only [List.append_assoc]
      · intro before earlier outer position
        obtain ⟨position₁, hrun₁⟩ := run_of_statements hbody
          ⟨[], ⟨before, earlier, c, none⟩ :: outer⟩ position (ending ++ rest)
        obtain ⟨position₂, hrun₂⟩ := run_of_ending hending before earlier outer position₁ rest
        exact ⟨position₂, hrun₁.trans hrun₂⟩

theorem run_of_ending : ∀ {c : Condition} {body : Template} {tokens : List Token} {node : Node},
    Ending anchored c body tokens node → ∀ before earlier outer position rest, ∃ position',
      Reader.run ⟨body, ⟨before, earlier, c, none⟩ :: outer⟩ position (tokens ++ rest) =
        Reader.run ⟨before ++ [chain earlier node], outer⟩ position' rest
  | _, _, _, _, .endIf c body, before, earlier, outer, position, rest =>
      ⟨position + 1, Reader.run_taken rfl position rest⟩
  | _, _, _, _, @Ending.elseBranch _ tokens other c body h, before, earlier, outer, position,
      rest => by
      obtain ⟨position', hrun⟩ := run_of_statements h
        ⟨[], ⟨before, earlier, c, some body⟩ :: outer⟩ (position + 1) (.key .endIfTag :: rest)
      refine ⟨position' + 1, ?_⟩
      have helse : Progress.step ⟨body, ⟨before, earlier, c, none⟩ :: outer⟩ (.key .elseTag) =
          .taken ⟨[], ⟨before, earlier, c, some body⟩ :: outer⟩ := rfl
      rw [List.cons_append, Reader.run_taken helse, List.append_assoc, List.singleton_append, hrun]
      exact Reader.run_taken rfl position' rest
  | _, _, _, _, @Ending.elseIf _ tokens node c body h, before, earlier, outer, position, rest => by
      obtain ⟨c', after, hclause, hrun⟩ := clause_of_arm h rest
      have hstep : Progress.step ⟨body, ⟨before, earlier, c, none⟩ :: outer⟩ (.key .elseIfTag) =
          .asks fun c' => ⟨[], ⟨before, earlier ++ [(c, body)], c', none⟩ :: outer⟩ := rfl
      rw [List.cons_append, Reader.run_asks hstep hclause]
      obtain ⟨position', hrun⟩ := hrun before (earlier ++ [(c, body)]) outer _
      rw [hrun, chain_snoc]
      exact ⟨position', rfl⟩

end

end

theorem ofTokens_of_statements {anchored : Bool} {tokens : List Token} {template : Template}
    (h : Statements anchored tokens template) : Template.ofTokens tokens = .ok template := by
  obtain ⟨position, hrun⟩ := run_of_statements h .start 0 []
  rw [List.append_nil] at hrun
  show (Reader.run .start 0 tokens).1 = _
  rw [hrun, Reader.run_nil]
  rfl

/-- The reader accepts exactly what the grammar derives, and a token sequence stands for
one template at most. -/
theorem ofTokens_eq_ok_iff_statements (tokens : List Token) :
    (∀ template, Template.ofTokens tokens = .ok template ↔ Statements false tokens template) ∧
      ∀ template other, Statements false tokens template → Statements false tokens other →
        template = other := by
  refine ⟨fun template => ⟨statements_of_ofTokens, ofTokens_of_statements⟩, ?_⟩
  intro template other h hother
  have heq : Except.ok template = Except.ok other :=
    (ofTokens_of_statements h).symm.trans (ofTokens_of_statements hother)
  exact Except.ok.inj heq

end Stencil
