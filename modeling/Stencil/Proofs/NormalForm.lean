import Stencil.Proofs.Reprinting

/-!
# The normal form of compiled templates

What a text compiles to has no literal text that is empty, stands next to another one or
holds a tag, all its names are trimmed, and its conditions group to the right. Open braces
are left in literal text only where no variable comes later. All of it is in the legible
tokens of the template.
-/

namespace Stencil

/-! ## Normal templates -/

/-- Literal text as compiling leaves it, if the variables `later` are used after it. -/
structure IsSettled (later : List Variable) (text : Text) : Prop where
  ne_nil : text ≠ []
  tagless : ∀ word ∈ [Keyword.ifTag, .elseTag, .endIfTag], ¬ word.tag <:+: text
  braces : openBraces <:+: text → later = []

mutual

def Node.Normal (later : List Variable) : Node → Prop
  | .raw text => IsSettled later text
  | .placeholder name => IsName name
  | .ifThen c body =>
      c.canonical = true ∧ (∀ name ∈ c.flags, IsName name) ∧ Template.Normal later body
  | .ifThenElse c body other =>
      c.canonical = true ∧ (∀ name ∈ c.flags, IsName name) ∧
        Template.Normal (Template.uses other ++ later) body ∧ Template.Normal later other

/-- Every statement is normal, also in the branches, and no two literal texts are adjacent. -/
def Template.Normal (later : List Variable) : Template → Prop
  | [] => True
  | node :: rest =>
      node.Normal (Template.uses rest ++ later) ∧
        (∀ text more after, node = .raw text → rest ≠ .raw more :: after) ∧
        Template.Normal later rest

end

/-! ## What legible tokens say -/

/-- Tokens without closing braces use no variable. -/
theorem uses_of_closeless {template : Template} {rest : List Token}
    (h : Closeless (template.tokens ++ rest)) : template.uses = [] ∧ Closeless rest := by
  induction template using Template.induction with
  | nil => exact ⟨rfl, h⟩
  | raw text later ih => exact ih (List.forall_mem_cons.mp h).2
  | placeholder name later ih => exact absurd (List.forall_mem_cons.mp h).1 id
  | ifThen c body later _ _ | ifThenElse c body other later _ _ _ =>
      obtain ⟨name, hname⟩ := exists_flag c
      exact (h (.flag name) (by simp [Template.tokens, Node.tokens, hname])).elim

theorem uses_append_of_closeless {after : Template} {later : List Variable} {rest : List Token}
    (hlater : Closeless rest → later = []) (h : Closeless (after.tokens ++ rest)) :
    after.uses ++ later = [] := by
  obtain ⟨huses, hrest⟩ := uses_of_closeless h
  rw [huses, hlater hrest]
  rfl

theorem names_of_legible {c : Condition} {rest : List Token}
    (h : Legible true (c.tokens ++ rest)) :
    (∀ name ∈ c.flags, IsName name) ∧ Legible true rest := by
  induction c generalizing rest with
  | flag name =>
      refine ⟨?_, h.2⟩
      intro name' hname
      obtain rfl := List.mem_singleton.mp hname
      exact h.1.2
  | not inner ih => exact ih h.2
  | brackets inner ih =>
      simp only [Condition.tokens, List.cons_append, List.append_assoc, List.nil_append] at h
      obtain ⟨hnames, hrest⟩ := ih h.2
      exact ⟨hnames, hrest.2⟩
  | join op left right ihl ihr =>
      rw [Condition.tokens, List.append_assoc] at h
      obtain ⟨hleft, hrest⟩ := ihl h
      obtain ⟨hright, hrest⟩ := ihr hrest.2
      exact ⟨List.forall_mem_append.mpr ⟨hleft, hright⟩, hrest⟩

theorem Literal.settled {text : Text} {rest : List Token} (h : Literal text rest)
    {later : List Variable} (hlater : Closeless rest → later = []) : IsSettled later text where
  ne_nil := h.ne_nil
  tagless := by
    intro word hword
    refine h.tagless word ?_
    simp only [List.mem_cons, List.not_mem_nil, or_false] at hword
    rcases hword with rfl | rfl | rfl <;> rfl
  braces := by
    rintro ⟨front, more, rfl⟩
    have hmore : openBraces ++ more <:+ front ++ openBraces ++ more := ⟨front, by simp⟩
    exact hlater (h.unclosed more hmore).2

/-- The variables after a template are those of the tokens after it: `later` is empty if
no closing braces are written in `rest`. -/
theorem normal_of_legible {template : Template} (hcanonical : template.Canonical) :
    ∀ {later : List Variable} {rest : List Token}, Legible false (template.tokens ++ rest) →
      (Closeless rest → later = []) → template.Normal later ∧ Legible false rest := by
  induction template using Template.induction with
  | nil =>
      intro later rest hlegible hlater
      exact ⟨trivial, hlegible⟩
  | raw text after ih =>
      intro later rest hlegible hlater
      obtain ⟨⟨-, hliteral⟩, hlegible⟩ := hlegible
      obtain ⟨hnormal, hrest⟩ := ih hcanonical.2 hlegible hlater
      refine ⟨⟨hliteral.settled (uses_append_of_closeless hlater), ?_, hnormal⟩, hrest⟩
      rintro text' more after' - rfl
      exact hliteral.apart more _ rfl
  | placeholder name after ih =>
      intro later rest hlegible hlater
      obtain ⟨⟨-, hname⟩, hlegible⟩ := hlegible
      obtain ⟨hnormal, hrest⟩ := ih hcanonical.2 hlegible hlater
      exact ⟨⟨hname, by simp, hnormal⟩, hrest⟩
  | ifThen c body after ihbody ih =>
      intro later rest hlegible hlater
      obtain ⟨⟨hc, hbody⟩, hcanonical⟩ := hcanonical
      simp only [Template.tokens, Node.tokens, List.cons_append, List.append_assoc,
        List.nil_append] at hlegible
      obtain ⟨hnames, -, hlegible⟩ := names_of_legible hlegible.2
      obtain ⟨hbody, -, hlegible⟩ := ihbody hbody hlegible fun hclose =>
        uses_append_of_closeless hlater (List.forall_mem_cons.mp hclose).2
      obtain ⟨hnormal, hrest⟩ := ih hcanonical hlegible hlater
      exact ⟨⟨⟨hc, hnames, hbody⟩, by simp, hnormal⟩, hrest⟩
  | ifThenElse c body other after ihbody ihother ih =>
      intro later rest hlegible hlater
      obtain ⟨⟨hc, hbody, hother⟩, hcanonical⟩ := hcanonical
      simp only [Template.tokens, Node.tokens, List.cons_append, List.append_assoc,
        List.nil_append] at hlegible
      have hend : ∀ {word : Keyword}, Closeless (.key word :: (after.tokens ++ rest)) →
          after.uses ++ later = [] :=
        fun hclose => uses_append_of_closeless hlater (List.forall_mem_cons.mp hclose).2
      obtain ⟨hnames, -, hlegible⟩ := names_of_legible hlegible.2
      obtain ⟨hbody, -, hlegible⟩ := ihbody hbody hlegible fun hclose =>
        uses_append_of_closeless hend (List.forall_mem_cons.mp hclose).2
      obtain ⟨hother, -, hlegible⟩ := ihother hother hlegible hend
      obtain ⟨hnormal, hrest⟩ := ih hcanonical hlegible hlater
      exact ⟨⟨⟨hc, hnames, hbody, hother⟩, by simp, hnormal⟩, hrest⟩

/-! ## Compiled templates -/

theorem normal_of_compile {text : Text} {compilation : Compilation}
    (h : compile text = .ok compilation) : compilation.template.Normal [] := by
  obtain ⟨htext, -⟩ := ofText_of_compile h
  have hcanonical := canonical_of_statements (statements_of_ofText htext)
  have hlegible : Legible false (compilation.template.tokens ++ []) := by
    rw [List.append_nil]
    exact legible_tokens_of_ofText htext
  exact (normal_of_legible hcanonical hlegible fun _ => rfl).1

/-- Blanks around names, layout that is all of a branch, a brace in front of a tag, braces
that nothing closes. -/
def looseText : Text :=
  ['{', '{', ' ', 'a', '\t', '}', '}', '}', '{', '#', 'i', 'f', ' ', 'N', 'O', 'T', '{', '{',
    'b', ' ', '}', '}', '#', 't', 'h', 'e', 'n', ' ', ' ', '\n', '#', 'e', 'l', 's', 'e',
    '\n', '{', '#', 'e', 'n', 'd', 'i', 'f', '{', '{', '}']

theorem normal_looseText :
    let template : Template :=
      [.placeholder ['a'], .raw ['}', '{'], .ifThenElse (.not (.flag ['b'])) [] [.raw ['{']],
        .raw ['{', '{', '}']]
    compile looseText = .ok ⟨template, [.text ['a'], .flag ['b']]⟩ ∧ template.Normal [] := by
  intro template
  have h : compile looseText = .ok ⟨template, [.text ['a'], .flag ['b']]⟩ := by
    with_unfolding_all rfl
  exact ⟨h, normal_of_compile h⟩

end Stencil
