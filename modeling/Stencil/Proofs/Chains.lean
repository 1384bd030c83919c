import Stencil.Proofs.Recognition
import Stencil.Template.Render

/-!
# Chains of arms

A block with any number of `#elseif` arms, written with bodies that are templates on their
own. It is read as one node, in which each later arm is the other branch of the arm before
it, and it renders the first arm whose condition holds.
-/

namespace Stencil

open Grammar

/-- Tokens that are read as a template on their own. -/
structure Body where
  tokens : List Token
  template : Template
  reads : Template.ofTokens tokens = .ok template

/-- An arm of a block. -/
structure Branch where
  condition : Condition
  canonical : condition.canonical = true
  body : Body

/-- All that is written in one block: an arm, those after it, and the body after `#else`. -/
structure Chain where
  first : Branch
  later : List Branch
  other : Option Body

/-! ## How a chain is written -/

/-- The arm without the tag in front of it. -/
def Branch.tokens (branch : Branch) : List Token :=
  branch.condition.tokens ++ .key .thenTag :: branch.body.tokens

namespace Chain

def branches (chain : Chain) : List Branch := chain.first :: chain.later

def otherTokens : Option Body → List Token
  | none => []
  | some body => .key .elseTag :: body.tokens

def tokens (chain : Chain) : List Token :=
  .key .ifTag :: (chain.first.tokens ++
    (chain.later.flatMap (fun branch => .key .elseIfTag :: branch.tokens) ++
      (otherTokens chain.other ++ [.key .endIfTag])))

/-! ## The node that it stands for -/

def nodeOf (branch : Branch) (other : Option Body) : List Branch → Node
  | [] =>
      match other with
      | none => .ifThen branch.condition branch.body.template
      | some body => .ifThenElse branch.condition branch.body.template body.template
  | next :: later =>
      .ifThenElse branch.condition branch.body.template [nodeOf next other later]

def node (chain : Chain) : Node := nodeOf chain.first chain.other chain.later

theorem ending_of_other (branch : Branch) (other : Option Body) :
    Ending false branch.condition branch.body.template (otherTokens other ++ [.key .endIfTag])
      (nodeOf branch other []) := by
  cases other with
  | none => exact .endIf branch.condition branch.body.template
  | some body =>
      exact .elseBranch branch.condition branch.body.template (statements_of_ofTokens body.reads)

/-- All that follows the tag of an arm, up to the one `#endif`, is that arm. -/
theorem arm_of_chain (other : Option Body) (later : List Branch) : ∀ branch : Branch,
    Arm false (branch.tokens ++
      (later.flatMap (fun branch => .key .elseIfTag :: branch.tokens) ++
        (otherTokens other ++ [.key .endIfTag]))) (nodeOf branch other later) := by
  induction later with
  | nil =>
      intro branch
      have hbody := statements_of_ofTokens branch.body.reads
      have harm := Arm.mk branch.canonical .thenTag hbody (ending_of_other branch other)
      simpa [Branch.tokens] using harm
  | cons next later ih =>
      intro branch
      have hbody := statements_of_ofTokens branch.body.reads
      have hending := Ending.elseIf branch.condition branch.body.template (ih next)
      have harm := Arm.mk branch.canonical .thenTag hbody hending
      simpa [Branch.tokens, nodeOf] using harm

theorem statements_of_chain (chain : Chain) : Statements false chain.tokens [chain.node] := by
  have hblock := Statements.block (arm_of_chain chain.other chain.later chain.first) .nil
  rwa [List.append_nil] at hblock

/-! ## The arm that is rendered -/

variable {bindings : Bindings}

theorem render_nodeOf_of_true {branch : Branch} (h : branch.condition.eval bindings = true)
    (other : Option Body) (later : List Branch) :
    (nodeOf branch other later).render bindings =
      Template.render bindings branch.body.template := by
  cases later with
  | nil => cases other <;> simp [nodeOf, Node.render, h]
  | cons next later => simp [nodeOf, Node.render, h]

theorem render_nodeOf_of_false {branch : Branch} (h : branch.condition.eval bindings = false)
    (other : Option Body) (next : Branch) (later : List Branch) :
    (nodeOf branch other (next :: later)).render bindings =
      (nodeOf next other later).render bindings := by
  simp [nodeOf, Node.render, Template.render, h]

/-- The text for a block none of whose conditions holds. -/
def renderOther (bindings : Bindings) : Option Body → Text
  | none => []
  | some body => Template.render bindings body.template

theorem render_nodeOf_of_first (other : Option Body) {branch : Branch}
    (hbranch : branch.condition.eval bindings = true) (after : List Branch)
    (before : List Branch) : ∀ {first : Branch} {later : List Branch},
      first :: later = before ++ branch :: after →
        (∀ earlier ∈ before, earlier.condition.eval bindings = false) →
          (nodeOf first other later).render bindings =
            Template.render bindings branch.body.template := by
  induction before with
  | nil =>
      intro first later heq hbefore
      cases heq
      exact render_nodeOf_of_true hbranch other after
  | cons earlier before ih =>
      intro first later heq hbefore
      obtain ⟨rfl, hlater⟩ := List.cons_eq_cons.mp heq
      obtain ⟨hearlier, hbefore⟩ := List.forall_mem_cons.mp hbefore
      cases later with
      | nil => simp at hlater
      | cons next later =>
          rw [render_nodeOf_of_false hearlier]
          exact ih hlater hbefore

theorem render_nodeOf_of_none (other : Option Body) (later : List Branch) : ∀ {first : Branch},
    (∀ branch ∈ first :: later, branch.condition.eval bindings = false) →
      (nodeOf first other later).render bindings = renderOther bindings other := by
  induction later with
  | nil =>
      intro first h
      have hfirst := h first List.mem_cons_self
      cases other <;> simp [nodeOf, Node.render, hfirst, renderOther]
  | cons next later ih =>
      intro first h
      obtain ⟨hfirst, hlater⟩ := List.forall_mem_cons.mp h
      rw [render_nodeOf_of_false hfirst]
      exact ih hlater

/-- A chain is read as a single block. That renders the first arm whose condition holds,
and if there is none what stands after `#else`, or nothing without an `#else`. -/
theorem ofTokens_chain (chain : Chain) :
    Template.ofTokens chain.tokens = .ok [chain.node] ∧
    ∀ bindings : Bindings,
      (∀ before branch after, chain.branches = before ++ branch :: after →
        (∀ earlier ∈ before, earlier.condition.eval bindings = false) →
          branch.condition.eval bindings = true →
            Template.render bindings [chain.node] =
              Template.render bindings branch.body.template) ∧
      ((∀ branch ∈ chain.branches, branch.condition.eval bindings = false) →
        Template.render bindings [chain.node] = renderOther bindings chain.other) := by
  refine ⟨ofTokens_of_statements chain.statements_of_chain, ?_⟩
  intro bindings
  have hsingle : Template.render bindings [chain.node] = chain.node.render bindings := by
    simp [Template.render]
  rw [hsingle]
  constructor
  · intro before branch after heq hbefore hbranch
    exact render_nodeOf_of_first chain.other hbranch after before heq hbefore
  · exact render_nodeOf_of_none chain.other chain.later

/-- The second arm holds a block with an `#else` of its own. -/
def nestedChain : Chain where
  first := ⟨.flag ['a'], rfl, ⟨[], [], by with_unfolding_all rfl⟩⟩
  later :=
    [⟨.not (.flag ['b']), rfl,
        ⟨[.key .ifTag, .flag ['c'], .key .thenTag, .raw ['x'], .key .elseTag, .raw ['y'],
            .key .endIfTag],
          [.ifThenElse (.flag ['c']) [.raw ['x']] [.raw ['y']]], by with_unfolding_all rfl⟩⟩,
      ⟨.flag ['d'], rfl, ⟨[.placeholder ['d']], [.placeholder ['d']], by with_unfolding_all rfl⟩⟩]
  other := some ⟨[.raw ['z']], [.raw ['z']], by with_unfolding_all rfl⟩

theorem ofTokens_nestedChain :
    Template.ofTokens nestedChain.tokens = .ok [nestedChain.node] ∧
      Template.render (.ofList [(['d'], .flag true)]) [nestedChain.node] = ['y'] ∧
      Template.render (.ofList [(['b'], .flag true)]) [nestedChain.node] = ['z'] := by
  obtain ⟨hread, hrender⟩ := ofTokens_chain nestedChain
  refine ⟨hread, ?_, ?_⟩
  · exact (hrender _).1 [nestedChain.first] _ _ rfl (by decide) (by decide)
  · exact (hrender _).2 (by decide)

end Chain

end Stencil
