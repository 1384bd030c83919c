import Stencil.Proofs.CanonicalCondition
import Stencil.Template.Reader

/-!
# The grammar of templates

Which token sequences stand for which templates, said without a reader. There are two
forms of the grammar: in the anchored one each condition ends with `#then`, in the
other one the `#then` can be left out.
-/

namespace Stencil.Grammar

/-- What stands between a condition and its body. -/
inductive Opener (anchored : Bool) : List Token → Prop
  | thenTag : Opener anchored [.key .thenTag]
  | absent (h : anchored = false) : Opener anchored []

mutual

/-- Statements in a row. -/
inductive Statements (anchored : Bool) : List Token → Template → Prop
  | nil : Statements anchored [] []
  | raw {tokens : List Token} {template : Template} (text : Text)
      (h : Statements anchored tokens template) :
      Statements anchored (.raw text :: tokens) (.raw text :: template)
  | placeholder {tokens : List Token} {template : Template} (name : Text)
      (h : Statements anchored tokens template) :
      Statements anchored (.placeholder name :: tokens) (.placeholder name :: template)
  | block {arm tokens : List Token} {node : Node} {template : Template}
      (harm : Arm anchored arm node) (h : Statements anchored tokens template) :
      Statements anchored (.key .ifTag :: (arm ++ tokens)) (node :: template)

/-- All that follows `#if` or `#elseif`, with the `#endif`. -/
inductive Arm (anchored : Bool) : List Token → Node → Prop
  | mk {c : Condition} {opener tokens ending : List Token} {body : Template} {node : Node}
      (hc : c.canonical = true) (hopener : Opener anchored opener)
      (hbody : Statements anchored tokens body) (hending : Ending anchored c body ending node) :
      Arm anchored (c.tokens ++ (opener ++ (tokens ++ ending))) node

/-- All that follows the body of a condition, and the node that is then complete. -/
inductive Ending (anchored : Bool) : Condition → Template → List Token → Node → Prop
  | endIf (c : Condition) (body : Template) :
      Ending anchored c body [.key .endIfTag] (.ifThen c body)
  | elseBranch {tokens : List Token} {other : Template} (c : Condition) (body : Template)
      (h : Statements anchored tokens other) :
      Ending anchored c body (.key .elseTag :: (tokens ++ [.key .endIfTag]))
        (.ifThenElse c body other)
  | elseIf {tokens : List Token} {node : Node} (c : Condition) (body : Template)
      (h : Arm anchored tokens node) :
      Ending anchored c body (.key .elseIfTag :: tokens) (.ifThenElse c body [node])

end

/-- What comes later in a row does not depend on what comes before. -/
theorem Statements.append {anchored : Bool} {more : List Token} {other : Template}
    (hmore : Statements anchored more other) : ∀ {tokens : List Token} {template : Template},
      Statements anchored tokens template →
        Statements anchored (tokens ++ more) (template ++ other)
  | _, _, .nil => hmore
  | _, _, .raw text h => .raw text (Statements.append hmore h)
  | _, _, .placeholder name h => .placeholder name (Statements.append hmore h)
  | _, _, .block harm h => by
      rw [List.cons_append, List.append_assoc]
      exact .block harm (Statements.append hmore h)

/-! ## Where a body begins -/

/-- The token cannot go on with a condition, nor close it. -/
def beginsBody : Token → Bool
  | .raw _ | .placeholder _ => true
  | .flag _ => false
  | .key word => !word.inCondition

/-- A body begins, or the tag after it if the body is empty. -/
theorem exists_beginsBody {anchored : Bool} {c : Condition} {tokens ending : List Token}
    {body template : Template} {node : Node} (hbody : Statements anchored tokens template)
    (hending : Ending anchored c body ending node) (rest : List Token) :
    ∃ token after, tokens ++ (ending ++ rest) = token :: after ∧ beginsBody token = true := by
  cases hbody with
  | nil => cases hending <;> exact ⟨_, _, rfl, rfl⟩
  | raw | placeholder | block => exact ⟨_, _, rfl, rfl⟩

theorem readClause?_append {anchored : Bool} {c : Condition} (hc : c.canonical = true)
    {opener : List Token} (hopener : Opener anchored opener) {token : Token}
    (htoken : beginsBody token = true) (rest : List Token) :
    Condition.readClause? (c.tokens ++ (opener ++ token :: rest)) = some (c, token :: rest) := by
  unfold Condition.readClause?
  cases hopener with
  | thenTag =>
      rw [Condition.read?_tokens_append hc (by simp)]
      rfl
  | absent _ =>
      have hconnective : ∀ op after, token :: rest ≠ .key (.connective op) :: after := by
        rintro op after heq
        cases heq
        cases htoken
      have hthen : ∀ body, token :: rest ≠ .key .thenTag :: body := by
        rintro body heq
        cases heq
        cases htoken
      rw [List.nil_append, Condition.read?_tokens_append hc hconnective, Option.map_some]
      split
      next heq =>
        cases heq
        split
        · next body heq => exact absurd heq (hthen body)
        · rfl

/-- What a clause took is a canonical condition, with its `#then` if there was one. -/
theorem opener_of_readClause? {tokens rest : List Token} {c : Condition}
    (h : Condition.readClause? tokens = some (c, rest)) :
    c.canonical = true ∧ ∃ opener, Opener false opener ∧ tokens = c.tokens ++ (opener ++ rest) := by
  obtain ⟨⟨c', rest'⟩, hread, heq⟩ := Option.map_eq_some_iff.mp h
  obtain ⟨hcanonical, rfl⟩ := Condition.canonical_of_read? hread
  simp only at heq
  split at heq
  · cases heq
    exact ⟨hcanonical, _, .thenTag, rfl⟩
  · cases heq
    exact ⟨hcanonical, [], .absent rfl, rfl⟩

/-! ## Where a block ends -/

theorem exists_head_of_ending {anchored : Bool} {c : Condition} {body : Template}
    {tokens : List Token} {node : Node} (h : Ending anchored c body tokens node) :
    ∃ word after, tokens = .key word :: after := by
  cases h <;> exact ⟨_, _, rfl⟩

mutual

theorem exists_last_of_arm {anchored : Bool} : ∀ {tokens : List Token} {node : Node},
    Arm anchored tokens node → ∃ before, tokens = before ++ [.key .endIfTag]
  | _, _, @Arm.mk _ c opener tokens _ _ _ _ _ _ hending => by
      obtain ⟨before, rfl⟩ := exists_last_of_ending hending
      exact ⟨c.tokens ++ (opener ++ (tokens ++ before)), by simp⟩

theorem exists_last_of_ending {anchored : Bool} : ∀ {c : Condition} {body : Template}
    {tokens : List Token} {node : Node}, Ending anchored c body tokens node →
      ∃ before, tokens = before ++ [.key .endIfTag]
  | _, _, _, _, .endIf _ _ => ⟨[], rfl⟩
  | _, _, _, _, @Ending.elseBranch _ tokens _ _ _ _ => ⟨.key .elseTag :: tokens, rfl⟩
  | _, _, _, _, .elseIf _ _ h => by
      obtain ⟨before, rfl⟩ := exists_last_of_arm h
      exact ⟨.key .elseIfTag :: before, rfl⟩

end

end Stencil.Grammar
