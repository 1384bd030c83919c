import Stencil.Proofs.Arranging
import Stencil.Proofs.Grammar
import Stencil.Template.Render

/-!
# Joining does not change what is rendered

Literal text that is joined stands for one statement where there were several, also
inside the branches of blocks. `exists_statements_joinRaw` says that the joined tokens
still derive a template, and that it renders alike under all bindings.
-/

namespace Stencil

open Grammar

/-! ## Where nothing is joined -/

theorem isRaw_of_mem_condition {c : Condition} {token : Token} (h : token ∈ c.tokens) :
    token.isRaw = false := by
  rcases c.mem_tokens_cases h with ⟨name, rfl⟩ | ⟨word, -, -, rfl⟩
  · rfl
  · rfl

theorem joinRaw_clause {anchored : Bool} {opener : List Token} (hopener : Opener anchored opener)
    (c : Condition) (rest : List Token) :
    joinRaw (c.tokens ++ (opener ++ rest)) = c.tokens ++ (opener ++ joinRaw rest) := by
  rw [joinRaw_append_of_isRaw fun _ h => isRaw_of_mem_condition h]
  cases hopener with
  | thenTag => rw [List.singleton_append, joinRaw_cons rfl]; rfl
  | absent _ => rfl

theorem joinRaw_arm_append {anchored : Bool} {tokens : List Token} {node : Node}
    (h : Arm anchored tokens node) (rest : List Token) :
    joinRaw (tokens ++ rest) = joinRaw tokens ++ joinRaw rest := by
  obtain ⟨before, rfl⟩ := exists_last_of_arm h
  rw [List.append_assoc, List.singleton_append, joinRaw_append_cons rfl, joinRaw_append_cons rfl]
  simp [joinRaw]

theorem joinRaw_append_ending {anchored : Bool} {c : Condition} {body : Template}
    {tokens : List Token} {node : Node} (h : Ending anchored c body tokens node)
    (before : List Token) : joinRaw (before ++ tokens) = joinRaw before ++ joinRaw tokens := by
  obtain ⟨word, after, rfl⟩ := exists_head_of_ending h
  rw [joinRaw_append_cons rfl, joinRaw_cons rfl]

/-! ## What joined tokens derive -/

theorem exists_statements_prependRaw {anchored : Bool} {tokens : List Token}
    {template : Template} (h : Statements anchored tokens template) (text : Text) :
    ∃ joined, Statements anchored (prependRaw text tokens) joined ∧
      ∀ bindings, Template.render bindings joined = text ++ Template.render bindings template := by
  by_cases htext : text = []
  · subst htext
    exact ⟨template, by rwa [prependRaw_nil], fun _ => rfl⟩
  rcases prependRaw_cases htext tokens with ⟨more, rest, rfl, heq⟩ | ⟨-, heq⟩
  · cases h with
    | @raw _ rest' _ h =>
        refine ⟨.raw (text ++ more) :: rest', ?_, ?_⟩
        · rw [heq]
          exact .raw (text ++ more) h
        · intro bindings
          simp [Template.render, Node.render]
  · refine ⟨.raw text :: template, ?_, fun _ => rfl⟩
    rw [heq]
    exact .raw text h

mutual

theorem exists_statements_joinRaw {anchored : Bool} : ∀ {tokens : List Token}
    {template : Template}, Statements anchored tokens template →
      ∃ joined, Statements anchored (joinRaw tokens) joined ∧
        ∀ bindings, Template.render bindings joined = Template.render bindings template
  | _, _, .nil => ⟨[], .nil, fun _ => rfl⟩
  | _, _, .raw text h => by
      obtain ⟨rest, hrest, hrender⟩ := exists_statements_joinRaw h
      obtain ⟨joined, hjoined, hrender'⟩ := exists_statements_prependRaw hrest text
      rw [joinRaw_raw]
      refine ⟨joined, hjoined, ?_⟩
      intro bindings
      rw [hrender', hrender]
      rfl
  | _, _, .placeholder name h => by
      obtain ⟨rest, hrest, hrender⟩ := exists_statements_joinRaw h
      rw [joinRaw_cons rfl]
      refine ⟨.placeholder name :: rest, .placeholder name hrest, ?_⟩
      intro bindings
      rw [Template.render, Template.render, hrender]
  | _, _, .block harm h => by
      obtain ⟨node, hnode, hrender⟩ := exists_arm_joinRaw harm
      obtain ⟨rest, hrest, hrender'⟩ := exists_statements_joinRaw h
      rw [joinRaw_cons rfl, joinRaw_arm_append harm]
      refine ⟨node :: rest, .block hnode hrest, ?_⟩
      intro bindings
      rw [Template.render, Template.render, hrender, hrender']

theorem exists_arm_joinRaw {anchored : Bool} : ∀ {tokens : List Token} {node : Node},
    Arm anchored tokens node → ∃ joined, Arm anchored (joinRaw tokens) joined ∧
      ∀ bindings, joined.render bindings = node.render bindings
  | _, _, @Arm.mk _ c _ _ _ _ _ hc hopener hbody hending => by
      obtain ⟨body, hbody, hrender⟩ := exists_statements_joinRaw hbody
      rw [joinRaw_clause hopener, joinRaw_append_ending hending]
      obtain ⟨joined, hjoined, hrender'⟩ := exists_ending_joinRaw hending hrender
      exact ⟨joined, .mk hc hopener hbody hjoined, hrender'⟩

/-- The body before the ending may have been joined as well. -/
theorem exists_ending_joinRaw {anchored : Bool} : ∀ {c : Condition} {body : Template}
    {tokens : List Token} {node : Node}, Ending anchored c body tokens node →
      ∀ {body' : Template},
        (∀ bindings, Template.render bindings body' = Template.render bindings body) →
        ∃ joined, Ending anchored c body' (joinRaw tokens) joined ∧
          ∀ bindings, joined.render bindings = node.render bindings
  | _, _, _, _, .endIf c body, body', hbody => by
      refine ⟨.ifThen c body', .endIf c body', ?_⟩
      intro bindings
      rw [Node.render, Node.render, hbody]
  | _, _, _, _, .elseBranch c body h, body', hbody => by
      obtain ⟨other, hother, hrender⟩ := exists_statements_joinRaw h
      rw [joinRaw_cons rfl, joinRaw_append_cons rfl]
      refine ⟨.ifThenElse c body' other, .elseBranch c body' hother, ?_⟩
      intro bindings
      rw [Node.render, Node.render, hbody, hrender]
  | _, _, _, _, .elseIf c body h, body', hbody => by
      obtain ⟨node, hnode, hrender⟩ := exists_arm_joinRaw h
      rw [joinRaw_cons rfl]
      refine ⟨.ifThenElse c body' [node], .elseIf c body' hnode, ?_⟩
      intro bindings
      simp only [Node.render, Template.render, hbody, hrender]

end

end Stencil
