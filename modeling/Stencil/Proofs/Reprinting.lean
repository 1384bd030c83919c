import Stencil.Proofs.Printing
import Stencil.Proofs.Steady

/-!
# Printing a compiled template

A template that was compiled need not be printable: literal text may hold braces that
nothing closes, or end in one. But nothing begins in it where it stands, and that is
still so in the tokens of the template, where each `#elseif` has become a block of its
own. So what was compiled is compiled again from its printed form.
-/

namespace Stencil

open Grammar

/-! ## Canonical conditions -/

mutual

theorem canonical_of_statements {anchored : Bool} : ∀ {tokens : List Token}
    {template : Template}, Statements anchored tokens template → template.Canonical
  | _, _, .nil => trivial
  | _, _, .raw text h => ⟨trivial, canonical_of_statements h⟩
  | _, _, .placeholder name h => ⟨trivial, canonical_of_statements h⟩
  | _, _, .block harm h => ⟨canonical_of_arm harm, canonical_of_statements h⟩

theorem canonical_of_arm {anchored : Bool} : ∀ {tokens : List Token} {node : Node},
    Arm anchored tokens node → node.Canonical
  | _, _, .mk hc _ hbody hending =>
      canonical_of_ending hending hc (canonical_of_statements hbody)

theorem canonical_of_ending {anchored : Bool} : ∀ {c : Condition} {body : Template}
    {tokens : List Token} {node : Node}, Ending anchored c body tokens node →
      c.canonical = true → body.Canonical → node.Canonical
  | _, _, _, _, .endIf c body, hc, hbody => ⟨hc, hbody⟩
  | _, _, _, _, .elseBranch c body h, hc, hbody => ⟨hc, hbody, canonical_of_statements h⟩
  | _, _, _, _, .elseIf c body h, hc, hbody => ⟨hc, hbody, canonical_of_arm h, trivial⟩

end

/-! ## Flags -/

theorem steady_condition {c : Condition} {rest : List Token}
    (h : Steady true (c.tokens ++ rest)) :
    (∀ name ∈ c.flags, IsName name) ∧ Steady true rest := by
  induction c generalizing rest with
  | flag name =>
      refine ⟨?_, h.2⟩
      intro name' hname
      obtain rfl := List.mem_singleton.mp hname
      exact h.1
  | not inner ih => exact ih h.2
  | brackets inner ih =>
      simp only [Condition.tokens, List.cons_append, List.append_assoc, List.nil_append] at h
      obtain ⟨hnames, hrest⟩ := ih h.2
      exact ⟨hnames, hrest.2⟩
  | join op left right ihl ihr =>
      rw [Condition.tokens, List.append_assoc] at h
      obtain ⟨hleft, hrest⟩ := ihl h
      obtain ⟨hright, hrest⟩ := ihr hrest.2
      refine ⟨?_, hrest⟩
      intro name hname
      rcases List.mem_append.mp hname with hname | hname
      · exact hleft name hname
      · exact hright name hname

theorem exists_flag (c : Condition) : ∃ name, Token.flag name ∈ c.tokens := by
  induction c with
  | flag name => exact ⟨name, by simp [Condition.tokens]⟩
  | not inner ih | brackets inner ih =>
      obtain ⟨name, hname⟩ := ih
      exact ⟨name, by simp [Condition.tokens, hname]⟩
  | join op left right ihl ihr =>
      obtain ⟨name, hname⟩ := ihl
      exact ⟨name, by simp [Condition.tokens, hname]⟩

/-- Every arm tests a flag, whose braces close. -/
theorem not_closeless_arm {anchored : Bool} {tokens : List Token} {node : Node}
    (h : Arm anchored tokens node) (rest : List Token) : ¬ Closeless (tokens ++ rest) := by
  cases h with
  | @mk c _ _ _ _ _ hc hopener hbody hending =>
      intro hclose
      obtain ⟨name, hname⟩ := exists_flag c
      exact hclose (.flag name) (by simp [hname])

/-! ## The tokens of a compiled template -/

theorem tokens_of_arm {anchored : Bool} {tokens : List Token} {node : Node}
    (h : Arm anchored tokens node) : ∃ more, node.tokens = .key .ifTag :: more := by
  cases h with
  | mk _ _ _ hending => cases hending <;> exact ⟨_, rfl⟩

mutual

theorem legible_of_statements : ∀ {tokens : List Token} {template : Template},
    Statements true tokens template → ∀ {rest : List Token}, Steady false (tokens ++ rest) →
      Steady false rest ∧ ∀ {rest' : List Token}, Legible false rest' → Follows rest rest' →
        Legible false (template.tokens ++ rest') ∧
          Follows (tokens ++ rest) (template.tokens ++ rest')
  | _, _, .nil, _, hsteady => ⟨hsteady, fun hrest' hfollows => ⟨hrest', hfollows⟩⟩
  | _, _, .raw text h, rest, hsteady => by
      obtain ⟨hrest, hlegible⟩ := legible_of_statements h hsteady.2
      refine ⟨hrest, ?_⟩
      intro rest' hrest' hfollows
      obtain ⟨htokens, hafter⟩ := hlegible hrest' hfollows
      have hliteral : Literal text _ := hsteady.1 rfl
      exact ⟨⟨⟨rfl, hliteral.of_follows hafter⟩, htokens⟩, .cons _ hafter.closeless⟩
  | _, _, .placeholder name h, rest, hsteady => by
      obtain ⟨hrest, hlegible⟩ := legible_of_statements h hsteady.2
      refine ⟨hrest, ?_⟩
      intro rest' hrest' hfollows
      obtain ⟨htokens, hafter⟩ := hlegible hrest' hfollows
      exact ⟨⟨⟨rfl, hsteady.1⟩, htokens⟩, .cons _ hafter.closeless⟩
  | _, _, @Statements.block _ arm tokens node template harm h, rest, hsteady => by
      rw [List.cons_append, List.append_assoc] at hsteady
      obtain ⟨hsteady', harmLegible⟩ := legible_of_arm harm hsteady.2
      obtain ⟨hrest, hlegible⟩ := legible_of_statements h hsteady'
      refine ⟨hrest, ?_⟩
      intro rest' hrest' hfollows
      obtain ⟨htokens, hafter⟩ := hlegible hrest' hfollows
      rw [Template.tokens, List.append_assoc]
      refine ⟨harmLegible htokens hafter, ?_⟩
      obtain ⟨more, hmore⟩ := tokens_of_arm harm
      rw [hmore, List.cons_append, List.cons_append, List.append_assoc]
      exact .cons _ (fun hclose => absurd hclose (not_closeless_arm harm _))

theorem legible_of_arm : ∀ {tokens : List Token} {node : Node}, Arm true tokens node →
    ∀ {rest : List Token}, Steady true (tokens ++ rest) →
      Steady false rest ∧ ∀ {rest' : List Token}, Legible false rest' → Follows rest rest' →
        Legible false (node.tokens ++ rest')
  | _, _, @Arm.mk _ c _ tokens ending body _ hc hopener hbody hending, rest, hsteady => by
      cases hopener with
      | absent h => cases h
      | thenTag =>
          simp only [List.append_assoc] at hsteady
          obtain ⟨hnames, hthen⟩ := steady_condition hsteady
          obtain ⟨htail, hbodyLegible⟩ := legible_of_statements hbody hthen.2
          obtain ⟨tail, hnode, hending⟩ := legible_of_ending hending
          obtain ⟨hrest, htailLegible⟩ := hending htail
          refine ⟨hrest, ?_⟩
          intro rest' hrest' hfollows
          obtain ⟨htail, hafter⟩ := htailLegible hrest' hfollows
          have hthen' : Legible true (.key .thenTag :: (Template.tokens body ++ (tail ++ rest'))) :=
            ⟨rfl, (hbodyLegible htail hafter).1⟩
          rw [hnode]
          simp only [List.cons_append, List.append_assoc]
          exact ⟨rfl, legible_condition hnames hthen'⟩

theorem legible_of_ending : ∀ {c : Condition} {body : Template} {tokens : List Token}
    {node : Node}, Ending true c body tokens node → ∃ tail,
      node.tokens = .key .ifTag ::
        (c.tokens ++ .key .thenTag :: (Template.tokens body ++ tail)) ∧
      ∀ {rest : List Token}, Steady false (tokens ++ rest) →
        Steady false rest ∧ ∀ {rest' : List Token}, Legible false rest' → Follows rest rest' →
          Legible false (tail ++ rest') ∧ Follows (tokens ++ rest) (tail ++ rest')
  | _, _, _, _, .endIf c body => by
      refine ⟨[.key .endIfTag], rfl, ?_⟩
      intro rest hsteady
      refine ⟨hsteady.2, ?_⟩
      intro rest' hrest' hfollows
      exact ⟨⟨rfl, hrest'⟩, .cons _ hfollows.closeless⟩
  | _, _, _, _, @Ending.elseBranch _ tokens other c body h => by
      refine ⟨.key .elseTag :: (Template.tokens other ++ [.key .endIfTag]), rfl, ?_⟩
      intro rest hsteady
      rw [List.cons_append, List.append_assoc] at hsteady
      obtain ⟨hend, hlegible⟩ := legible_of_statements h hsteady.2
      refine ⟨hend.2, ?_⟩
      intro rest' hrest' hfollows
      have hend' : Legible false (.key .endIfTag :: rest') := ⟨rfl, hrest'⟩
      obtain ⟨hother, hafter⟩ := hlegible hend' (.cons _ hfollows.closeless)
      simp only [List.cons_append, List.append_assoc, List.nil_append]
      exact ⟨⟨rfl, hother⟩, .cons _ hafter.closeless⟩
  | _, _, _, _, @Ending.elseIf _ tokens node c body h => by
      -- printed as `#else`, a block of its own and one `#endif` more
      refine ⟨.key .elseTag :: (node.tokens ++ [.key .endIfTag]), ?_, ?_⟩
      · simp [Node.tokens, Template.tokens]
      · intro rest hsteady
        obtain ⟨hrest, hlegible⟩ := legible_of_arm h hsteady.2
        refine ⟨hrest, ?_⟩
        intro rest' hrest' hfollows
        have hend' : Legible false (.key .endIfTag :: rest') := ⟨rfl, hrest'⟩
        have harm := hlegible hend' (.key _ hfollows.closeless)
        simp only [List.cons_append, List.append_assoc, List.nil_append]
        refine ⟨⟨rfl, harm⟩, .key _ ?_⟩
        intro hclose
        exact absurd (List.forall_mem_cons.mp hclose).2 (not_closeless_arm h rest)

end

theorem legible_tokens_of_ofText {text : Text} {template : Template}
    (h : Template.ofText text = .ok template) : Legible false template.tokens := by
  have hsteady : Steady false (tokenize text ++ []) := by
    rw [List.append_nil]
    exact steady_tokenize text
  obtain ⟨-, hlegible⟩ := legible_of_statements (statements_of_ofText h) hsteady
  have hnil : Legible false [] := trivial
  obtain ⟨htokens, -⟩ := hlegible hnil (.refl [])
  rwa [List.append_nil] at htokens

theorem ofText_print_of_ofText {text : Text} {template : Template}
    (h : Template.ofText text = .ok template) : Template.ofText template.print = .ok template :=
  ofText_print (canonical_of_statements (statements_of_ofText h)) (legible_tokens_of_ofText h)

/-- What a text compiles to, its printed form compiles to as well, and the two render
alike. -/
theorem compile_print_of_compile {text : Text} {compilation : Compilation}
    (h : compile text = .ok compilation) :
    compile compilation.template.print = .ok compilation ∧
      ∀ bindings, execute compilation.template.print bindings = execute text bindings := by
  obtain ⟨htext, hdeclared⟩ := ofText_of_compile h
  have hprint := ofText_print_of_ofText htext
  constructor
  · rw [compile_eq_ok_of_ofText hprint, ← hdeclared]
  · intro bindings
    rw [execute, execute, hprint, htext]

/-- Noise in a condition, an `#elseif`, a name that ends in a brace, braces left open. -/
def untidyText : Text :=
  ['#', 'i', 'f', ' ', 'x', '{', '{', 'a', '}', '}', ' ', '#', 't', 'h', 'e', 'n', ' ',
    '{', '{', 'n', '}', ' ', '}', '}', '#', 'e', 'l', 's', 'e', 'i', 'f', ' ', '{', '{',
    'b', '}', '}', '#', 't', 'h', 'e', 'n', '\n', ' ', 'q', '{', '#', 'e', 'n', 'd', 'i',
    'f', ' ', '{', '{']

theorem compile_print_untidyText :
    let compilation : Compilation :=
      ⟨[.ifThenElse (.flag ['a']) [.placeholder ['n', '}']]
          [.ifThen (.flag ['b']) [.raw [' ', 'q', '{']]], .raw ['{', '{']],
        [.flag ['a'], .text ['n', '}'], .flag ['b']]⟩
    compile untidyText = .ok compilation ∧
      compile compilation.template.print = .ok compilation ∧
        ∀ bindings, execute compilation.template.print bindings = execute untidyText bindings := by
  intro compilation
  have h : compile untidyText = .ok compilation := by with_unfolding_all rfl
  exact ⟨h, compile_print_of_compile h⟩

end Stencil
