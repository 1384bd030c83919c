import Stencil.Proofs.Anchoring
import Stencil.Proofs.Spelling

/-!
# Printed templates

A template is printed as the spelling of its own token sequence, in which every block
has its `#then` and no block is an arm of another one. Where that sequence is legible
the template is read back, so a template with plain literal texts is what its printed
form compiles to.
-/

namespace Stencil

open Grammar

/-! ## The tokens of a template -/

mutual

def Node.tokens : Node → List Token
  | .raw text => [.raw text]
  | .placeholder name => [.placeholder name]
  | .ifThen c body =>
      .key .ifTag :: (c.tokens ++ .key .thenTag :: (Template.tokens body ++ [.key .endIfTag]))
  | .ifThenElse c body other =>
      .key .ifTag :: (c.tokens ++ .key .thenTag :: (Template.tokens body ++
        .key .elseTag :: (Template.tokens other ++ [.key .endIfTag])))

def Template.tokens : Template → List Token
  | [] => []
  | node :: rest => node.tokens ++ Template.tokens rest

end

theorem Condition.tokens_ne_nil (c : Condition) : c.tokens ≠ [] := by
  cases c <;> simp [Condition.tokens]

theorem Condition.trail_of_mem_tokens {c : Condition} {token : Token} (h : token ∈ c.tokens) :
    token.trail = [' '] := by
  rcases c.mem_tokens_cases h with ⟨name, rfl⟩ | ⟨word, hword, hthen, rfl⟩
  · rfl
  · cases word with
    | thenTag => exact absurd rfl hthen
    | openParen | closeParen | notOp | connective op => rfl
    | ifTag | elseIfTag | elseTag | endIfTag => cases hword

/-- Spaces after the tokens and spaces between them differ in the last one only. -/
theorem spell_eq_intercalate {tokens : List Token} (hne : tokens ≠ [])
    (h : ∀ token ∈ tokens, token.trail = [' ']) :
    spell tokens = [' '].intercalate (tokens.map Token.print) ++ [' '] := by
  induction tokens with
  | nil => exact absurd rfl hne
  | cons token tokens ih =>
      rw [spell_cons, h token List.mem_cons_self]
      by_cases htokens : tokens = []
      · subst htokens
        simp
      · rw [ih htokens (fun later hlater => h later (List.mem_cons_of_mem _ hlater)),
          List.map_cons, List.intercalate_cons_of_ne_nil (by simpa using htokens)]
        simp

theorem spell_condition (c : Condition) : spell c.tokens = c.print ++ [' '] :=
  spell_eq_intercalate c.tokens_ne_nil (fun _ h => c.trail_of_mem_tokens h)

theorem spell_clause (c : Condition) (rest : List Token) :
    spell (.key .ifTag :: (c.tokens ++ .key .thenTag :: rest)) = clauseLine c ++ spell rest := by
  rw [spell_cons, spell_append, spell_condition, spell_cons]
  simp [clauseLine, tagLine, Token.print, Token.trail, Token.dropsLayout]

theorem print_eq_spell (template : Template) : template.print = spell template.tokens := by
  induction template using Template.induction with
  | nil => rfl
  | raw text rest ih =>
      rw [Template.print, Node.print, Template.tokens, Node.tokens, List.singleton_append,
        spell_cons, ih]
      rfl
  | placeholder name rest ih =>
      rw [Template.print, Node.print, Template.tokens, Node.tokens, List.singleton_append,
        spell_cons, ih]
      rfl
  | ifThen c body rest ihbody ih =>
      rw [Template.print, Node.print, Template.tokens, Node.tokens, spell_append, spell_clause,
        spell_append, ihbody, ih]
      simp [tagLine, spell_cons, Token.print, Token.trail, Token.dropsLayout]
  | ifThenElse c body other rest ihbody ihother ih =>
      rw [Template.print, Node.print, Template.tokens, Node.tokens, spell_append, spell_clause,
        spell_append, spell_cons, spell_append, ihbody, ihother, ih]
      simp [tagLine, spell_cons, Token.print, Token.trail, Token.dropsLayout]

/-! ## Reading the tokens of a template -/

mutual

/-- Every condition is canonical. -/
def Node.Canonical : Node → Prop
  | .raw _ | .placeholder _ => True
  | .ifThen c body => c.canonical = true ∧ Template.Canonical body
  | .ifThenElse c body other =>
      c.canonical = true ∧ Template.Canonical body ∧ Template.Canonical other

def Template.Canonical : Template → Prop
  | [] => True
  | node :: rest => node.Canonical ∧ Template.Canonical rest

end

theorem statements_tokens {template : Template} (h : template.Canonical) :
    Statements true template.tokens template := by
  induction template using Template.induction with
  | nil => exact .nil
  | raw text rest ih => exact .raw text (ih h.2)
  | placeholder name rest ih => exact .placeholder name (ih h.2)
  | ifThen c body rest ihbody ih =>
      obtain ⟨⟨hc, hbody⟩, hrest⟩ := h
      exact .block (.mk hc .thenTag (ihbody hbody) (.endIf c body)) (ih hrest)
  | ifThenElse c body other rest ihbody ihother ih =>
      obtain ⟨⟨hc, hbody, hother⟩, hrest⟩ := h
      exact .block (.mk hc .thenTag (ihbody hbody) (.elseBranch c body (ihother hother)))
        (ih hrest)

/-- A template is compiled from its printed form if its tokens can be read off it. -/
theorem ofText_print {template : Template} (hcanonical : template.Canonical)
    (hlegible : Legible false template.tokens) : Template.ofText template.print = .ok template := by
  rw [ofText_eq_ok_iff, print_eq_spell, tokenize_spell hlegible]
  exact statements_tokens hcanonical

/-! ## Printable templates -/

/-- Literal text with nothing in it that could begin a placeholder or a tag. -/
structure IsPlain (text : Text) : Prop where
  ne_nil : text ≠ []
  braceless : ¬ openBraces <:+: text
  tagless : ∀ word ∈ [Keyword.ifTag, .elseTag, .endIfTag], ¬ word.tag <:+: text
  last : text.getLast? ≠ some '{'

instance (text : Text) : Decidable (IsPlain text) :=
  decidable_of_iff (text ≠ [] ∧ ¬ openBraces <:+: text ∧
      (∀ word ∈ [Keyword.ifTag, .elseTag, .endIfTag], ¬ word.tag <:+: text) ∧
        text.getLast? ≠ some '{')
    ⟨fun ⟨hne, hbraces, htags, hlast⟩ => ⟨hne, hbraces, htags, hlast⟩,
      fun h => ⟨h.ne_nil, h.braceless, h.tagless, h.last⟩⟩

mutual

/-- Plain literal texts, names that are names, and canonical conditions, at every level. -/
def Node.Printable : Node → Prop
  | .raw text => IsPlain text
  | .placeholder name => IsName name
  | .ifThen c body =>
      c.canonical = true ∧ (∀ name ∈ c.flags, IsName name) ∧ Template.Printable body
  | .ifThenElse c body other =>
      c.canonical = true ∧ (∀ name ∈ c.flags, IsName name) ∧ Template.Printable body ∧
        Template.Printable other

/-- Literal texts are also never adjacent. -/
def Template.Printable : Template → Prop
  | [] => True
  | node :: rest =>
      node.Printable ∧ (∀ text more after, node = .raw text → rest ≠ .raw more :: after) ∧
        Template.Printable rest

end

instance decidableApart (node : Node) (rest : Template) :
    Decidable (∀ text more after, node = .raw text → rest ≠ .raw more :: after) :=
  match node, rest with
  | .raw text, .raw more :: after => isFalse fun h => h text more after rfl rfl
  | .raw _, [] | .raw _, .placeholder _ :: _ | .raw _, .ifThen _ _ :: _
  | .raw _, .ifThenElse _ _ _ :: _ => isTrue fun _ _ _ _ heq => by cases heq
  | .placeholder _, _ | .ifThen _ _, _ | .ifThenElse _ _ _, _ =>
      isTrue fun _ _ _ heq => by cases heq

mutual

instance Node.decidablePrintable : ∀ node : Node, Decidable node.Printable
  | .raw text => inferInstanceAs (Decidable (IsPlain text))
  | .placeholder name => inferInstanceAs (Decidable (IsName name))
  | .ifThen c body =>
      have := Template.decidablePrintable body
      inferInstanceAs (Decidable (c.canonical = true ∧ (∀ name ∈ c.flags, IsName name) ∧
        Template.Printable body))
  | .ifThenElse c body other =>
      have := Template.decidablePrintable body
      have := Template.decidablePrintable other
      inferInstanceAs (Decidable (c.canonical = true ∧ (∀ name ∈ c.flags, IsName name) ∧
        Template.Printable body ∧ Template.Printable other))

instance Template.decidablePrintable : ∀ template : Template, Decidable template.Printable
  | [] => isTrue trivial
  | node :: rest =>
      have := Node.decidablePrintable node
      have := Template.decidablePrintable rest
      inferInstanceAs (Decidable (node.Printable ∧
        (∀ text more after, node = .raw text → rest ≠ .raw more :: after) ∧
          Template.Printable rest))

end

theorem IsPlain.literal {text : Text} (h : IsPlain text) {rest : List Token}
    (hrest : ∀ more after, rest ≠ .raw more :: after) : Literal text rest where
  ne_nil := h.ne_nil
  apart := hrest
  tagless := by
    intro word hword htag
    cases word with
    | ifTag => exact h.tagless .ifTag (by simp) htag
    | elseIfTag =>
        have helse : Keyword.elseTag.tag <:+: Keyword.elseIfTag.tag := by decide
        exact h.tagless .elseTag (by simp) (helse.trans htag)
    | elseTag => exact h.tagless .elseTag (by simp) htag
    | endIfTag => exact h.tagless .endIfTag (by simp) htag
    | openParen | closeParen | notOp | connective op | thenTag => cases hword
  braceless := fun hlast => absurd hlast h.last
  unclosed := by
    rintro more ⟨front, rfl⟩
    exact absurd ⟨front, more, by simp⟩ h.braceless

theorem Template.Printable.canonical {template : Template} (h : template.Printable) :
    template.Canonical := by
  induction template using Template.induction with
  | nil => trivial
  | raw text rest ih => exact ⟨trivial, ih h.2.2⟩
  | placeholder name rest ih => exact ⟨trivial, ih h.2.2⟩
  | ifThen c body rest ihbody ih =>
      obtain ⟨⟨hc, -, hbody⟩, -, hrest⟩ := h
      exact ⟨⟨hc, ihbody hbody⟩, ih hrest⟩
  | ifThenElse c body other rest ihbody ihother ih =>
      obtain ⟨⟨hc, -, hbody, hother⟩, -, hrest⟩ := h
      exact ⟨⟨hc, ihbody hbody, ihother hother⟩, ih hrest⟩

theorem legible_condition {c : Condition} (hnames : ∀ name ∈ c.flags, IsName name)
    {rest : List Token} (hrest : Legible true rest) : Legible true (c.tokens ++ rest) := by
  induction c generalizing rest with
  | flag name => exact ⟨⟨rfl, hnames name (by simp [Condition.flags])⟩, hrest⟩
  | not inner ih => exact ⟨rfl, ih hnames hrest⟩
  | brackets inner ih =>
      simp only [Condition.tokens, List.cons_append, List.append_assoc, List.nil_append]
      exact ⟨rfl, ih hnames ⟨rfl, hrest⟩⟩
  | join op left right ihl ihr =>
      have hleft : ∀ name ∈ left.flags, IsName name :=
        fun name hname => hnames name (List.mem_append_left _ hname)
      have hright : ∀ name ∈ right.flags, IsName name :=
        fun name hname => hnames name (List.mem_append_right _ hname)
      rw [Condition.tokens, List.append_assoc]
      exact ihl hleft ⟨rfl, ihr hright hrest⟩

/-- Tokens begin with literal text only where their template does. -/
theorem tokens_apart {template : Template} {rest : List Token}
    (htemplate : ∀ more after, template ≠ .raw more :: after)
    (hrest : ∀ more after, rest ≠ .raw more :: after) :
    ∀ more after, template.tokens ++ rest ≠ .raw more :: after := by
  intro more after heq
  cases template with
  | nil => exact hrest more after heq
  | cons node template =>
      cases node with
      | raw text => exact htemplate text template rfl
      | placeholder _ | ifThen _ _ | ifThenElse _ _ _ => cases heq

theorem Template.Printable.legible {template : Template} (h : template.Printable) :
    ∀ {rest : List Token}, Legible false rest → (∀ more after, rest ≠ .raw more :: after) →
      Legible false (template.tokens ++ rest) := by
  induction template using Template.induction with
  | nil =>
      intro rest hrest hapart
      exact hrest
  | raw text later ih =>
      intro rest hrest hapart
      obtain ⟨hplain, hseparate, hlater⟩ := h
      have hliteral := hplain.literal (tokens_apart (hseparate text · · rfl) hapart)
      exact ⟨⟨rfl, hliteral⟩, ih hlater hrest hapart⟩
  | placeholder name later ih =>
      intro rest hrest hapart
      obtain ⟨hname, -, hlater⟩ := h
      exact ⟨⟨rfl, hname⟩, ih hlater hrest hapart⟩
  | ifThen c body later ihbody ih =>
      intro rest hrest hapart
      obtain ⟨⟨-, hnames, hbody⟩, -, hlater⟩ := h
      have hend : Legible false (.key .endIfTag :: (Template.tokens later ++ rest)) :=
        ⟨rfl, ih hlater hrest hapart⟩
      have hthen : Legible true (.key .thenTag :: (Template.tokens body ++ _)) :=
        ⟨rfl, ihbody hbody hend (by simp)⟩
      simp only [Template.tokens, Node.tokens, List.cons_append, List.append_assoc,
        List.nil_append]
      exact ⟨rfl, legible_condition hnames hthen⟩
  | ifThenElse c body other later ihbody ihother ih =>
      intro rest hrest hapart
      obtain ⟨⟨-, hnames, hbody, hother⟩, -, hlater⟩ := h
      have hend : Legible false (.key .endIfTag :: (Template.tokens later ++ rest)) :=
        ⟨rfl, ih hlater hrest hapart⟩
      have helse : Legible false (.key .elseTag :: (Template.tokens other ++ _)) :=
        ⟨rfl, ihother hother hend (by simp)⟩
      have hthen : Legible true (.key .thenTag :: (Template.tokens body ++ _)) :=
        ⟨rfl, ihbody hbody helse (by simp)⟩
      simp only [Template.tokens, Node.tokens, List.cons_append, List.append_assoc,
        List.nil_append]
      exact ⟨rfl, legible_condition hnames hthen⟩

/-- Printing and compiling gives a printable template back. -/
theorem compile_print {template : Template} (h : template.Printable) :
    compile template.print = .ok ⟨template, template.declared⟩ := by
  have hlegible : Legible false (template.tokens ++ []) := h.legible trivial (by simp)
  rw [List.append_nil] at hlegible
  exact compile_eq_ok_of_ofText (ofText_print h.canonical hlegible)

/-- Layout after tags, words of conditions as literal text, an empty other branch. -/
def wordyTemplate : Template :=
  [.raw ['\n', ' ', 'A', 'N', 'D', ' ', '('],
    .ifThenElse (.join .and (.flag ['a']) (.not (.flag ['b', '}'])))
      [.raw [' ', '\n', '#', 't', 'h', 'e', 'n', '{', '}'],
        .ifThen (.brackets (.flag ['c'])) [.placeholder ['n', '{']], .raw ['\n']] [],
    .placeholder []]

theorem compile_print_wordyTemplate :
    wordyTemplate.Printable ∧
      compile wordyTemplate.print = .ok ⟨wordyTemplate, wordyTemplate.declared⟩ := by
  have hprintable : wordyTemplate.Printable := by decide
  exact ⟨hprintable, compile_print hprintable⟩

end Stencil
