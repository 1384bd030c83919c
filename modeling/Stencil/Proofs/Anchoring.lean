import Stencil.Compile
import Stencil.Proofs.Modes
import Stencil.Proofs.Recognition

/-!
# Conditions end with their `#then`

The reader takes a condition without a `#then` too, but in the tokens of a text there is
none: after `#if` the scanner stays inside the condition until `#then` comes, and inside
it finds nothing a body could begin with except literal text, and nothing to end one.
-/

namespace Stencil

open Grammar

/-! ## Without `#then` there is no body -/

/-- Inside a condition no branch comes to its end. -/
theorem not_modal_body {anchored : Bool} {c : Condition} {body : Template}
    {ending : List Token} {node : Node} (hending : Ending anchored c body ending node)
    (rest : List Token) {tokens : List Token} {template : Template}
    (h : Statements anchored tokens template) : ¬ Modal true (tokens ++ (ending ++ rest)) := by
  induction tokens generalizing template with
  | nil =>
      intro hmodal
      cases h
      cases hending <;> exact Bool.noConfusion hmodal.1
  | cons token tokens ih =>
      intro hmodal
      cases h with
      | raw text h => exact ih h (modal_raw.mp hmodal)
      | placeholder name h => exact Bool.noConfusion hmodal.1
      | block harm h => exact Bool.noConfusion hmodal.1

mutual

theorem statements_of_modal : ∀ {tokens : List Token} {template : Template},
    Statements false tokens template → ∀ rest : List Token, Modal false (tokens ++ rest) →
      Statements true tokens template ∧ Modal false rest
  | _, _, .nil, rest, hmodal => ⟨.nil, hmodal⟩
  | _, _, .raw text h, rest, hmodal => by
      obtain ⟨h', hrest⟩ := statements_of_modal h rest (modal_raw.mp hmodal)
      exact ⟨.raw text h', hrest⟩
  | _, _, .placeholder name h, rest, hmodal => by
      obtain ⟨h', hrest⟩ := statements_of_modal h rest hmodal.2
      exact ⟨.placeholder name h', hrest⟩
  | _, _, @Statements.block _ _ tokens _ _ harm h, rest, hmodal => by
      rw [List.cons_append, List.append_assoc] at hmodal
      obtain ⟨harm', hmodal'⟩ := arm_of_modal harm (tokens ++ rest) hmodal.2
      obtain ⟨h', hrest⟩ := statements_of_modal h rest hmodal'
      exact ⟨.block harm' h', hrest⟩

theorem arm_of_modal : ∀ {tokens : List Token} {node : Node},
    Arm false tokens node → ∀ rest : List Token, Modal true (tokens ++ rest) →
      Arm true tokens node ∧ Modal false rest
  | _, _, @Arm.mk _ c opener tokens ending _ _ hc hopener hbody hending, rest, hmodal => by
      simp only [List.append_assoc] at hmodal
      rw [modal_condition] at hmodal
      cases hopener with
      -- literal text may begin the body inside, but no branch can end there
      | absent _ => exact absurd hmodal (not_modal_body hending rest hbody)
      | thenTag =>
          obtain ⟨hbody', hmodal'⟩ := statements_of_modal hbody (ending ++ rest) hmodal.2
          obtain ⟨hending', hrest⟩ := ending_of_modal hending rest hmodal'
          exact ⟨.mk hc .thenTag hbody' hending', hrest⟩

theorem ending_of_modal : ∀ {c : Condition} {body : Template} {tokens : List Token}
    {node : Node}, Ending false c body tokens node → ∀ rest : List Token,
      Modal false (tokens ++ rest) → Ending true c body tokens node ∧ Modal false rest
  | _, _, _, _, .endIf c body, rest, hmodal => ⟨.endIf c body, hmodal.2⟩
  | _, _, _, _, @Ending.elseBranch _ tokens _ c body h, rest, hmodal => by
      rw [List.cons_append, List.append_assoc] at hmodal
      obtain ⟨h', hmodal'⟩ := statements_of_modal h _ hmodal.2
      exact ⟨.elseBranch c body h', hmodal'.2⟩
  | _, _, _, _, .elseIf c body h, rest, hmodal => by
      obtain ⟨h', hrest⟩ := arm_of_modal h rest hmodal.2
      exact ⟨.elseIf c body h', hrest⟩

end

theorem statements_of_ofText {text : Text} {template : Template}
    (h : Template.ofText text = .ok template) : Statements true (tokenize text) template := by
  have hmodal : Modal false (tokenize text ++ []) := by
    rw [List.append_nil]
    exact modal_tokenize text
  exact (statements_of_modal (statements_of_ofTokens h) [] hmodal).1

/-! ## What stands between `#if` and `#then` -/

/-- After each `#if` and `#elseif` stand a canonical condition and its `#then`, with no
literal text between and no token left over. -/
def Anchored (tokens : List Token) : Prop :=
  ∀ before word after, tokens = before ++ .key word :: after →
    word = .ifTag ∨ word = .elseIfTag →
      ∃ c body, Condition.canonical c = true ∧ after = c.tokens ++ .key .thenTag :: body

theorem anchored_nil : Anchored [] := by
  intro before word after heq
  simp at heq

theorem anchored_cons {token : Token} {rest : List Token}
    (htoken : ∀ word, token = .key word → word = .ifTag ∨ word = .elseIfTag →
      ∃ c body, Condition.canonical c = true ∧ rest = c.tokens ++ .key .thenTag :: body)
    (hrest : Anchored rest) : Anchored (token :: rest) := by
  intro before word after heq hword
  cases before with
  | nil =>
      cases heq
      exact htoken word rfl hword
  | cons first before =>
      cases heq
      exact hrest before word after rfl hword

/-- A token that leads into no condition does not matter. -/
theorem anchored_cons_other {token : Token} {rest : List Token}
    (htoken : token.inConditionAfter false = false) (hrest : Anchored rest) :
    Anchored (token :: rest) := by
  refine anchored_cons ?_ hrest
  rintro word rfl (rfl | rfl) <;> cases htoken

theorem anchored_condition {c : Condition} {rest : List Token} (hrest : Anchored rest) :
    Anchored (c.tokens ++ rest) := by
  induction c generalizing rest with
  | flag name => exact anchored_cons_other rfl hrest
  | not inner ih => exact anchored_cons_other rfl (ih hrest)
  | brackets inner ih =>
      simp only [Condition.tokens, List.cons_append, List.append_assoc, List.nil_append]
      exact anchored_cons_other rfl (ih (anchored_cons_other rfl hrest))
  | join op left right ihl ihr =>
      rw [Condition.tokens, List.append_assoc]
      exact ihl (anchored_cons_other rfl (ihr hrest))

mutual

theorem Grammar.Statements.anchored : ∀ {tokens : List Token} {template : Template},
    Statements true tokens template → ∀ {rest : List Token}, Anchored rest →
      Anchored (tokens ++ rest)
  | _, _, .nil, _, hrest => hrest
  | _, _, .raw text h, _, hrest => anchored_cons_other rfl (h.anchored hrest)
  | _, _, .placeholder name h, _, hrest => anchored_cons_other rfl (h.anchored hrest)
  | _, _, .block harm h, _, hrest => by
      rw [List.cons_append, List.append_assoc]
      obtain ⟨hclause, harm⟩ := harm.anchored (h.anchored hrest)
      exact anchored_cons (fun word _ _ => hclause) harm

theorem Grammar.Arm.anchored : ∀ {tokens : List Token} {node : Node},
    Arm true tokens node → ∀ {rest : List Token}, Anchored rest →
      (∃ c body, Condition.canonical c = true ∧
        tokens ++ rest = c.tokens ++ .key .thenTag :: body) ∧ Anchored (tokens ++ rest)
  | _, _, @Arm.mk _ c _ tokens ending _ _ hc hopener hbody hending, rest, hrest => by
      cases hopener with
      | absent h => cases h
      | thenTag =>
          simp only [List.append_assoc]
          refine ⟨⟨c, tokens ++ (ending ++ rest), hc, rfl⟩, ?_⟩
          exact anchored_condition
            (anchored_cons_other rfl (hbody.anchored (hending.anchored hrest)))

theorem Grammar.Ending.anchored : ∀ {c : Condition} {body : Template} {tokens : List Token}
    {node : Node}, Ending true c body tokens node → ∀ {rest : List Token}, Anchored rest →
      Anchored (tokens ++ rest)
  | _, _, _, _, .endIf c body, _, hrest => anchored_cons_other rfl hrest
  | _, _, _, _, .elseBranch c body h, rest, hrest => by
      rw [List.cons_append, List.append_assoc]
      have hend : Anchored ([.key .endIfTag] ++ rest) := anchored_cons_other rfl hrest
      exact anchored_cons_other rfl (h.anchored hend)
  | _, _, _, _, .elseIf c body h, _, hrest => by
      obtain ⟨hclause, harm⟩ := h.anchored hrest
      exact anchored_cons (fun word _ _ => hclause) harm

end

/-! ## Compiling -/

theorem ofText_eq_ok_iff {text : Text} {template : Template} :
    Template.ofText text = .ok template ↔ Statements true (tokenize text) template :=
  ⟨statements_of_ofText, ofTokens_of_statements⟩

theorem compile_eq_ok_of_ofText {text : Text} {template : Template}
    (h : Template.ofText text = .ok template) :
    compile text = .ok ⟨template, template.declared⟩ := by
  rw [compile, h]
  rfl

theorem ofText_of_compile {text : Text} {compilation : Compilation}
    (h : compile text = .ok compilation) :
    Template.ofText text = .ok compilation.template ∧
      compilation.declared = compilation.template.declared := by
  unfold compile at h
  cases hread : Template.ofText text with
  | error error =>
      rw [hread] at h
      cases h
  | ok template =>
      rw [hread] at h
      cases h
      exact ⟨rfl, rfl⟩

theorem anchored_of_ofText {text : Text} {template : Template}
    (h : Template.ofText text = .ok template) : Anchored (tokenize text) := by
  have hanchored := (statements_of_ofText h).anchored anchored_nil
  rwa [List.append_nil] at hanchored

theorem execute_eq_ok_iff {text : Text} {bindings : Bindings} {rendered : Text} :
    execute text bindings = .ok rendered ↔ ∃ template, Statements true (tokenize text) template ∧
      Template.render bindings template = rendered := by
  simp only [execute, ← ofText_eq_ok_iff]
  cases Template.ofText text with
  | error error =>
      constructor
      · intro h
        cases h
      · rintro ⟨template, h, -⟩
        cases h
  | ok template =>
      constructor
      · intro h
        cases h
        exact ⟨template, rfl, rfl⟩
      · rintro ⟨template', h, rfl⟩
        cases h
        rfl

/-- A text compiles to a template exactly if its tokens derive it with a `#then` after
every condition; a text where anything else stands there neither compiles nor renders. -/
theorem compile_eq_ok_iff_statements (text : Text) :
    (∀ template, (∃ declared, compile text = .ok ⟨template, declared⟩) ↔
      Statements true (tokenize text) template) ∧
    (¬ Anchored (tokenize text) → (∀ compilation, compile text ≠ .ok compilation) ∧
      ∀ bindings rendered, execute text bindings ≠ .ok rendered) := by
  constructor
  · intro template
    rw [← ofText_eq_ok_iff]
    constructor
    · rintro ⟨declared, h⟩
      exact (ofText_of_compile h).1
    · intro h
      exact ⟨template.declared, compile_eq_ok_of_ofText h⟩
  · intro hanchored
    have herror : ∀ template, Template.ofText text ≠ .ok template :=
      fun template h => hanchored (anchored_of_ofText h)
    constructor
    · intro compilation h
      exact herror _ (ofText_of_compile h).1
    · intro bindings rendered h
      unfold execute at h
      cases hread : Template.ofText text with
      | error error =>
          rw [hread] at h
          cases h
      | ok template => exact herror template hread

/-- A condition without `#then`, in which the end of the block is no tag. -/
def missingThenText : Text := "#if {{a}} x#endif".toList

theorem compile_missingThenText :
    ¬ Anchored (tokenize missingThenText) ∧
    (∀ compilation, compile missingThenText ≠ .ok compilation) ∧
    ∀ bindings rendered, execute missingThenText bindings ≠ .ok rendered := by
  have htokens : tokenize missingThenText = [.key .ifTag, .flag ['a'], .raw ['#']] := by
    decide +kernel
  have hanchored : ¬ Anchored (tokenize missingThenText) := by
    intro hanchored
    obtain ⟨c, body, -, hclause⟩ := hanchored [] .ifTag _ htokens (.inl rfl)
    have hthen : Token.key .thenTag ∈ [Token.flag ['a'], .raw ['#']] := by simp [hclause]
    exact absurd hthen (by decide)
  exact ⟨hanchored, (compile_eq_ok_iff_statements missingThenText).2 hanchored⟩

end Stencil
