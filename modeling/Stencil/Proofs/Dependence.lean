import Stencil.Template.Render
import Stencil.Template.Variables

/-!
# What rendering depends on

Rendering reads the texts of placeholders and the truth of flags, and a template declares
every name that it reads in either way. So bindings that agree on what is declared render
alike, whatever else they bind.
-/

namespace Stencil

/-! ## Every use is declared -/

/-- Whether the declarations account for a use. A name that is declared as a flag may be
used as text too. -/
def Variable.CoveredBy (declared : List Variable) : Variable → Prop
  | text name => .text name ∈ declared ∨ .flag name ∈ declared
  | flag name => .flag name ∈ declared

theorem Variable.coveredBy_of_mem {declared : List Variable} {v : Variable}
    (h : v ∈ declared) : v.CoveredBy declared := by
  cases v with
  | text name => exact Or.inl h
  | flag name => exact h

namespace Declarations

/-- What declaring one more use does: nothing, one entry more, or a text turned into a flag. -/
theorem declare_cases (d : Declarations) (v : Variable) :
    ((d.declare v).declared = d.declared ∧ v.CoveredBy d.declared) ∨
    (d.declare v).declared = d.declared ++ [v] ∨
    (∃ name, v = .flag name ∧
      (d.declare v).declared = d.declared.erase (.text name) ++ [.flag name]) := by
  cases v with
  | text name =>
      by_cases h : .text name ∈ d.declared ∨ .flag name ∈ d.declared
      · exact Or.inl ⟨by simp [declare, h], h⟩
      · exact Or.inr (Or.inl (by simp [declare, h]))
  | flag name =>
      by_cases hflag : .flag name ∈ d.declared
      · exact Or.inl ⟨by simp [declare, hflag], hflag⟩
      · by_cases htext : .text name ∈ d.declared
        · exact Or.inr (Or.inr ⟨name, rfl, by simp [declare, hflag, htext]⟩)
        · exact Or.inr (Or.inl (by simp [declare, hflag, htext]))

theorem covered_declare (d : Declarations) (v : Variable) :
    v.CoveredBy (d.declare v).declared := by
  rcases d.declare_cases v with ⟨heq, h⟩ | heq | ⟨name, rfl, heq⟩
  · rwa [heq]
  · exact Variable.coveredBy_of_mem (by simp [heq])
  · exact Variable.coveredBy_of_mem (by simp [heq])

theorem flag_mem_declare {d : Declarations} {name : Text} (h : .flag name ∈ d.declared)
    (v : Variable) : .flag name ∈ (d.declare v).declared := by
  rcases d.declare_cases v with ⟨heq, -⟩ | heq | ⟨other, -, heq⟩
  · rwa [heq]
  · rw [heq]
    exact List.mem_append_left _ h
  · rw [heq]
    exact List.mem_append_left _ ((List.mem_erase_of_ne (by simp)).mpr h)

/-- A text that is declared stays declared, or becomes a flag. -/
theorem text_mem_declare {d : Declarations} {name : Text} (h : .text name ∈ d.declared)
    (v : Variable) : (Variable.text name).CoveredBy (d.declare v).declared := by
  rcases d.declare_cases v with ⟨heq, -⟩ | heq | ⟨other, -, heq⟩
  · rw [heq]
    exact Or.inl h
  · rw [heq]
    exact Or.inl (List.mem_append_left _ h)
  · rw [heq]
    by_cases hname : name = other
    · subst hname
      exact Or.inr (by simp)
    · have herase : Variable.text name ∈ d.declared.erase (.text other) :=
        (List.mem_erase_of_ne (by simpa using hname)).mpr h
      exact Or.inl (List.mem_append_left _ herase)

theorem covered_declare_of_covered {d : Declarations} {w : Variable}
    (h : w.CoveredBy d.declared) (v : Variable) : w.CoveredBy (d.declare v).declared := by
  cases w with
  | text name =>
      rcases h with h | h
      · exact text_mem_declare h v
      · exact Or.inr (flag_mem_declare h v)
  | flag name => exact flag_mem_declare h v

theorem covered_foldl (uses : List Variable) : ∀ (d : Declarations) (w : Variable),
    w.CoveredBy d.declared ∨ w ∈ uses → w.CoveredBy (uses.foldl declare d).declared := by
  induction uses with
  | nil =>
      rintro d w (h | h)
      · exact h
      · cases h
  | cons v uses ih =>
      rintro d w (h | h)
      · exact ih _ w (Or.inl (covered_declare_of_covered h v))
      · rcases List.mem_cons.mp h with rfl | h
        · exact ih _ w (Or.inl (covered_declare d w))
        · exact ih _ w (Or.inr h)

theorem covered_ofUses {uses : List Variable} {v : Variable} (h : v ∈ uses) :
    v.CoveredBy (ofUses uses).declared := covered_foldl uses empty v (Or.inr h)

end Declarations

/-! ## Rendering reads the uses -/

theorem Condition.eval_congr {b b' : Bindings} {c : Condition}
    (h : ∀ name ∈ c.flags, b.holds name = b'.holds name) : c.eval b = c.eval b' := by
  induction c with
  | flag name => exact h name (by simp [Condition.flags])
  | not inner ih => rw [Condition.eval, Condition.eval, ih h]
  | brackets inner ih => exact ih h
  | join op left right ihl ihr =>
      have hleft : left.eval b = left.eval b' :=
        ihl fun name hname => h name (List.mem_append_left _ hname)
      have hright : right.eval b = right.eval b' :=
        ihr fun name hname => h name (List.mem_append_right _ hname)
      rw [Condition.eval, Condition.eval, hleft, hright]

/-- The two bindings give the same answer where the variable is used. -/
def Variable.SameIn (b b' : Bindings) : Variable → Prop
  | text name => b.display name = b'.display name
  | flag name => b.holds name = b'.holds name

theorem eval_eq_of_uses {b b' : Bindings} {c : Condition} {later : List Variable}
    (h : ∀ v ∈ c.flags.map .flag ++ later, v.SameIn b b') : c.eval b = c.eval b' :=
  Condition.eval_congr fun name hname =>
    h (.flag name) (List.mem_append_left _ (List.mem_map_of_mem hname))

theorem render_eq_of_uses {b b' : Bindings} {template : Template}
    (h : ∀ v ∈ template.uses, v.SameIn b b') :
    Template.render b template = Template.render b' template := by
  induction template using Template.induction with
  | nil => rfl
  | raw text rest ih => rw [Template.render, Template.render, Node.render, Node.render, ih h]
  | placeholder name rest ih =>
      obtain ⟨hname, hrest⟩ := List.forall_mem_cons.mp h
      rw [Template.render, Template.render, ih hrest]
      exact congrArg (· ++ _) hname
  | ifThen c body rest ihbody ih =>
      obtain ⟨hnode, hrest⟩ := List.forall_mem_append.mp h
      have hc : c.eval b = c.eval b' := eval_eq_of_uses hnode
      have hbody := ihbody (List.forall_mem_append.mp hnode).2
      rw [Template.render, Template.render, Node.render, Node.render, hc, hbody, ih hrest]
  | ifThenElse c body other rest ihbody ihother ih =>
      obtain ⟨hnode, hrest⟩ := List.forall_mem_append.mp h
      have hc : c.eval b = c.eval b' := eval_eq_of_uses hnode
      obtain ⟨hbody, hother⟩ := List.forall_mem_append.mp (List.forall_mem_append.mp hnode).2
      rw [Template.render, Template.render, Node.render, Node.render, hc, ihbody hbody,
        ihother hother, ih hrest]

/-! ## Bindings that agree -/

/-- The two bindings give every declared name the same text, and every flag the same truth. -/
structure Bindings.AgreeOn (declared : List Variable) (b b' : Bindings) : Prop where
  display : ∀ v ∈ declared, b.display v.name = b'.display v.name
  holds : ∀ name, .flag name ∈ declared → b.holds name = b'.holds name

theorem Bindings.AgreeOn.sameIn {declared : List Variable} {b b' : Bindings}
    (h : AgreeOn declared b b') {v : Variable} (hv : v.CoveredBy declared) : v.SameIn b b' := by
  cases v with
  | text name =>
      rcases hv with hv | hv
      · exact h.display _ hv
      · exact h.display _ hv
  | flag name => exact h.holds name hv

theorem Bindings.agreeOn_of_get? {declared : List Variable} {b b' : Bindings}
    (h : ∀ v ∈ declared, b.get? v.name = b'.get? v.name) : AgreeOn declared b b' where
  display := by
    intro v hv
    rw [Bindings.display, Bindings.display, h v hv]
  holds := by
    intro name hname
    have hget : b.get? name = b'.get? name := h _ hname
    rw [Bindings.holds, Bindings.holds, hget]

theorem render_congr {template : Template} {b b' : Bindings}
    (h : Bindings.AgreeOn template.declared b b') :
    Template.render b template = Template.render b' template :=
  render_eq_of_uses fun _ hv => h.sameIn (Declarations.covered_ofUses hv)

/-- Bindings that agree on the declared variables render alike, also after any change to
the names that are not declared. -/
theorem render_eq_of_agreeOn {template : Template} {b₁ b₂ : Bindings}
    (h : Bindings.AgreeOn template.declared b₁ b₂) :
    Template.render b₁ template = Template.render b₂ template ∧
      ∀ b : Bindings, (∀ v ∈ template.declared, b.get? v.name = b₁.get? v.name) →
        Template.render b template = Template.render b₂ template := by
  have hrender := render_congr h
  refine ⟨hrender, ?_⟩
  intro b hb
  rw [← hrender]
  exact render_congr (Bindings.agreeOn_of_get? hb)

/-- A name that is text first and then a flag. -/
def greeting : Template :=
  [.placeholder ['a'], .placeholder ['b'],
    .ifThenElse (.not (.flag ['a'])) [.raw ['x']] [.placeholder ['a']]]

theorem render_greeting :
    let b₁ : Bindings := .ofList [(['a'], .flag true), (['b'], .text ['t', 'r', 'u', 'e'])]
    let b₂ : Bindings := .ofList [(['a'], .flag true), (['b'], .flag true), (['c'], .flag true)]
    Bindings.AgreeOn greeting.declared b₁ b₂ ∧
      Template.render b₁ greeting = Template.render b₂ greeting ∧
        ∀ b : Bindings, (∀ v ∈ greeting.declared, b.get? v.name = b₁.get? v.name) →
          Template.render b greeting = Template.render b₂ greeting := by
  intro b₁ b₂
  have hdeclared : greeting.declared = [.text ['b'], .flag ['a']] := by decide +kernel
  have hagree : Bindings.AgreeOn greeting.declared b₁ b₂ := by
    rw [hdeclared]
    refine ⟨by decide +kernel, ?_⟩
    intro name hname
    obtain rfl : name = ['a'] := by simpa using hname
    rfl
  exact ⟨hagree, render_eq_of_agreeOn hagree⟩

end Stencil
