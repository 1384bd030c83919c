import Stencil.Proofs.Names

/-!
# Token sequences that are read back from their spelling

A token sequence is spelled token by token, with a space or a newline after each one
that takes it. The spelling is read back as the same sequence if every token is in its
mode, the names are names, and literal text stays literal where it stands.
-/

namespace Stencil

/-! ## Spelling -/

/-- What is written after a token. The newline is layout, the space is noise. -/
def Token.trail : Token → Text
  | raw _ | placeholder _ => []
  | flag _ => [' ']
  | key word => if (key word).dropsLayout then ['\n'] else [' ']

def spell (tokens : List Token) : Text := tokens.flatMap fun token => token.print ++ token.trail

@[simp] theorem spell_nil : spell [] = [] := rfl

theorem spell_cons (token : Token) (tokens : List Token) :
    spell (token :: tokens) = token.print ++ (token.trail ++ spell tokens) := by
  simp [spell]

@[simp] theorem spell_append (tokens more : List Token) :
    spell (tokens ++ more) = spell tokens ++ spell more := by
  simp [spell]

/-! ## Literal text that stays literal -/

/-- No closing braces are written in these tokens. -/
def Closeless (tokens : List Token) : Prop :=
  ∀ token ∈ tokens, match token with
    | .raw text => ¬ closeBraces <:+: text
    | .placeholder _ | .flag _ => False
    | .key _ => True

/-- Nothing begins in the text, if it stands outside conditions and `rest` follows. Open
braces may only be left unclosed to the end. -/
structure Literal (text : Text) (rest : List Token) : Prop where
  ne_nil : text ≠ []
  apart : ∀ more after, rest ≠ .raw more :: after
  tagless : ∀ word : Keyword, word.inCondition = false → ¬ word.tag <:+: text
  braceless : text.getLast? = some '{' → ∀ name after, rest ≠ .placeholder name :: after
  unclosed : ∀ more, openBraces ++ more <:+ text → ¬ closeBraces <:+: more ∧ Closeless rest

theorem Literal.of_suffix {text later : Text} {rest : List Token} (h : Literal text rest)
    (hlater : later <:+ text) (hne : later ≠ []) : Literal later rest where
  ne_nil := hne
  apart := h.apart
  tagless := fun word hword htag => h.tagless word hword (htag.trans hlater.isInfix)
  braceless := by
    intro hlast
    obtain ⟨front, rfl⟩ := hlater
    exact h.braceless (by rw [List.getLast?_append, hlast]; rfl)
  unclosed := fun more hmore => h.unclosed more (hmore.trans hlater)

/-- The token stands where it is read as itself. -/
def Token.Legible (inside : Bool) (rest : List Token) : Token → Prop
  | raw text => inside = false ∧ Literal text rest
  | placeholder name => inside = false ∧ IsName name
  | flag name => inside = true ∧ IsName name
  | key word => word.inCondition = inside

def Legible (inside : Bool) : List Token → Prop
  | [] => True
  | token :: tokens =>
      token.Legible inside tokens ∧ Legible (token.inConditionAfter inside) tokens

/-! ## How spellings begin -/

/-- A tag known outside conditions begins with a number sign, and has no other one. -/
theorem tag_outside {word : Keyword} (h : word.inCondition = false) :
    ∃ t, word.tag = '#' :: t ∧ '#' ∉ t ∧ '{' ∉ t := by
  cases word with
  | ifTag | elseIfTag | elseTag | endIfTag => exact ⟨_, rfl, by decide, by decide⟩
  | openParen | closeParen | notOp | connective op | thenTag => cases h

/-- Outside conditions only braces and tags come after literal text. -/
theorem head_spell {tokens : List Token} (h : Legible false tokens)
    (hraw : ∀ more after, tokens ≠ .raw more :: after) {c : Char} {t : Text}
    (hspell : spell tokens = c :: t) :
    c = '#' ∨ (c = '{' ∧ ∃ name after, tokens = .placeholder name :: after) := by
  cases tokens with
  | nil => cases hspell
  | cons token tokens =>
      rw [spell_cons] at hspell
      cases token with
      | raw text => exact absurd rfl (hraw text tokens)
      | placeholder name =>
          cases hspell
          exact Or.inr ⟨rfl, name, tokens, rfl⟩
      | flag name => cases h.1.1
      | key word =>
          obtain ⟨w, hword, -, -⟩ := tag_outside h.1
          rw [Token.print, hword] at hspell
          cases hspell
          exact Or.inl rfl

theorem head?_spell {tokens : List Token} (h : Legible false tokens)
    (hraw : ∀ more after, tokens ≠ .raw more :: after) : (spell tokens).head? ≠ some '}' := by
  intro hhead
  obtain ⟨t, hspell⟩ := List.head?_eq_some_iff.mp hhead
  rcases head_spell h hraw hspell with heq | ⟨heq, -⟩
  · cases heq
  · cases heq

theorem getLast?_trail (word : Keyword) :
    (word.tag ++ (Token.key word).trail).getLast? ≠ some '}' := by
  cases word with
  | connective op => cases op <;> decide
  | _ => decide

theorem not_closeBraces_key (word : Keyword) :
    ¬ closeBraces <:+: word.tag ++ (Token.key word).trail := by
  cases word with
  | connective op => cases op <;> decide
  | _ => decide

theorem not_closeBraces_spell {tokens : List Token} : ∀ {inside : Bool},
    Legible inside tokens → Closeless tokens → ¬ closeBraces <:+: spell tokens := by
  induction tokens with
  | nil =>
      intro inside h hclose
      decide
  | cons token tokens ih =>
      intro inside h hclose
      have hrest := ih h.2 (fun later hlater => hclose later (List.mem_cons_of_mem _ hlater))
      have htoken := hclose token List.mem_cons_self
      rw [spell_cons]
      cases token with
      | raw text =>
          obtain ⟨rfl, hliteral⟩ := h.1
          exact not_closeBraces_append htoken hrest (Or.inr (head?_spell h.2 hliteral.apart))
      | placeholder name => exact absurd htoken id
      | flag name => exact absurd htoken id
      | key word =>
          rw [← List.append_assoc]
          exact not_closeBraces_append (not_closeBraces_key word) hrest
            (Or.inl (getLast?_trail word))

/-! ## Reading the spelling of one token -/

namespace Scanner

/-- Braces that open in literal text are not closed after it. -/
theorem splitAtClose_literal {text after : Text} {rest : List Token} (h : Literal text rest)
    (hrest : Legible false rest) (heq : text ++ spell rest = openBraces ++ after) :
    splitAtClose after = none := by
  match text, h with
  | [], h => exact absurd rfl h.ne_nil
  | [c], h =>
      -- one brace in the text, the other one after it
      obtain ⟨rfl, hspell⟩ : c = '{' ∧ spell rest = '{' :: after := by
        simpa [openBraces] using heq
      rcases head_spell hrest h.apart hspell with heq | ⟨-, name, after', rfl⟩
      · cases heq
      · exact absurd rfl (h.braceless rfl name after')
  | c :: d :: text, h =>
      obtain ⟨rfl, rfl, rfl⟩ : c = '{' ∧ d = '{' ∧ text ++ spell rest = after := by
        simpa [openBraces] using heq
      obtain ⟨hclosed, hcloseless⟩ := h.unclosed text (List.suffix_refl _)
      have hspelled := not_closeBraces_spell hrest hcloseless
      have hmeet := head?_spell hrest h.apart
      exact splitAtClose_eq_none_iff.mpr (not_closeBraces_append hclosed hspelled (Or.inr hmeet))

/-- No tag begins in literal text and goes on after it. -/
theorem ne_tag_literal {text later : Text} {rest : List Token} {word : Keyword}
    (h : Literal text rest) (hrest : Legible false rest) (hword : word.inCondition = false) :
    text ++ spell rest ≠ word.tag ++ later := by
  intro heq
  rcases List.append_eq_append_iff.mp heq with ⟨more, htag, hspell⟩ | ⟨more, rfl, -⟩
  · obtain ⟨w, htag', hnumber, hbrace⟩ := tag_outside hword
    cases more with
    | nil =>
        rw [List.append_nil] at htag
        exact h.tagless word hword (htag ▸ List.infix_refl _)
    -- the tag goes on into what comes next, which would have to begin inside a tag
    | cons d more =>
        have hd : d ∈ w := by
          cases text with
          | nil => exact absurd rfl h.ne_nil
          | cons c text =>
              rw [htag', List.cons_append] at htag
              obtain ⟨-, rfl⟩ := List.cons_eq_cons.mp htag
              simp
        rcases head_spell hrest h.apart hspell with rfl | ⟨rfl, -⟩
        · exact hnumber hd
        · exact hbrace hd
  · exact h.tagless word hword (List.prefix_append _ _).isInfix

theorem begins?_literal {text : Text} {rest : List Token} (h : Literal text rest)
    (hrest : Legible false rest) : begins? false (text ++ spell rest) = none := by
  rw [begins?_eq_none_iff]
  refine ⟨fun after heq => splitAtClose_literal h hrest heq, ?_⟩
  rintro word hword ⟨later, hlater⟩
  exact ne_tag_literal h hrest hword hlater.symm

theorem scans_literal {text : Text} {rest tokens : List Token}
    (hrest : Legible false rest) (h : Scans false (spell rest) tokens)
    (hliteral : Literal text rest) :
    Scans false (text ++ spell rest) (prependRaw text tokens) := by
  induction text with
  | nil => exact absurd rfl hliteral.ne_nil
  | cons c text ih =>
      have hbegins := begins?_literal hliteral hrest
      have htext : Scans false (text ++ spell rest) (prependRaw text tokens) := by
        by_cases hne : text = []
        · subst hne
          simpa using h
        · exact ih (hliteral.of_suffix (List.suffix_cons c text) hne)
      have hscans := Scans.literal hbegins (fun heq => Bool.noConfusion heq) htext
      rwa [← prependRaw_append] at hscans

theorem begins?_tag {word : Keyword} {rest : Text}
    (h : word = .elseTag → ¬ ['i', 'f'] <+: rest) :
    begins? word.inCondition (word.tag ++ rest) = some (word.tag, .key word, rest) := by
  cases word with
  | connective op => cases op <;> rfl
  | elseTag =>
      have hif : List.isPrefixOf ['i', 'f'] rest = false := by
        simpa [← List.isPrefixOf_iff_prefix] using h rfl
      simp [begins?, name?, keyword?, Keyword.all, Keyword.inCondition, Keyword.tag,
        List.isPrefixOf, hif]
  | _ => rfl

theorem scans_space {t : Text} {tokens : List Token} (h : Scans true t tokens) :
    Scans true (' ' :: t) tokens := .noise rfl rfl h

theorem scans_newline {t : Text} {tokens : List Token} (h : Scans false t tokens) :
    Scans false ('\n' :: t) (prependRaw ['\n'] tokens) :=
  .literal rfl (fun heq => Bool.noConfusion heq) h

end Scanner

/-! ## Reading a spelling -/

/-- The tokens with their trailing newlines as literal text. -/
def withTrail : List Token → List Token
  | [] => []
  | token :: tokens =>
      if token.dropsLayout then token :: .raw ['\n'] :: withTrail tokens
      else token :: withTrail tokens

theorem joinRaw_withTrail_cons {token : Token} (h : token.isRaw = false) (tokens : List Token) :
    joinRaw (withTrail (token :: tokens)) = token ::
      if token.dropsLayout then prependRaw ['\n'] (joinRaw (withTrail tokens))
      else joinRaw (withTrail tokens) := by
  rw [withTrail]
  split
  · rw [joinRaw_cons h, joinRaw_raw]
  · rw [joinRaw_cons h]

open Scanner in
/-- After a newline the scanner is outside, after a space inside. -/
theorem scans_trail (word : Keyword) {t : Text} {tokens : List Token}
    (h : Scans ((Token.key word).inConditionAfter word.inCondition) t tokens) :
    Scans ((Token.key word).inConditionAfter word.inCondition) ((Token.key word).trail ++ t)
      (if (Token.key word).dropsLayout then prependRaw ['\n'] tokens else tokens) := by
  cases word with
  | thenTag | elseTag | endIfTag => exact scans_newline h
  | ifTag | elseIfTag | openParen | closeParen | notOp | connective op => exact scans_space h

open Scanner in
theorem scans_spell {tokens : List Token} : ∀ {inside : Bool}, Legible inside tokens →
    Scans inside (spell tokens) (joinRaw (withTrail tokens)) := by
  induction tokens with
  | nil =>
      intro inside h
      exact .nil inside
  | cons token tokens ih =>
      intro inside h
      have htokens := ih h.2
      rw [spell_cons]
      cases token with
      | raw text =>
          obtain ⟨rfl, hliteral⟩ := h.1
          exact scans_literal h.2 htokens hliteral
      | placeholder name =>
          obtain ⟨rfl, hname⟩ := h.1
          exact .begins (begins?_spacedName hname false _) htokens
      | flag name =>
          obtain ⟨rfl, hname⟩ := h.1
          exact .begins (begins?_spacedName hname true _) (scans_space htokens)
      | key word =>
          obtain rfl : word.inCondition = inside := h.1
          have hif : word = .elseTag →
              ¬ ['i', 'f'] <+: (Token.key word).trail ++ spell tokens := by
            rintro rfl ⟨rest, hrest⟩
            cases hrest
          rw [joinRaw_withTrail_cons rfl]
          exact .begins (begins?_tag hif) (scans_trail word htokens)

/-- A sequence without literal text in front is joined to one. -/
theorem joinRaw_withTrail_head {tokens : List Token}
    (h : ∀ more after, tokens ≠ .raw more :: after) :
    ∀ more after, joinRaw (withTrail tokens) ≠ .raw more :: after := by
  intro more after heq
  cases tokens with
  | nil => cases heq
  | cons token tokens =>
      cases token with
      | raw text => exact h text tokens rfl
      | placeholder _ | flag _ | key _ =>
          rw [joinRaw_withTrail_cons rfl] at heq
          cases heq

theorem joinRaw_withTrail_raw {text : Text} {tokens : List Token} (h : Literal text tokens) :
    joinRaw (withTrail (.raw text :: tokens)) = .raw text :: joinRaw (withTrail tokens) := by
  rw [← prependRaw_of_head (joinRaw_withTrail_head h.apart) h.ne_nil]
  exact joinRaw_raw text _

/-- Trimming drops each trailing newline and nothing else, also one in front. -/
theorem trimmed_withTrail {tokens : List Token} : ∀ {inside : Bool}, Legible inside tokens →
    trimmed false (joinRaw (withTrail tokens)) = tokens ∧
      trimmed true (prependRaw ['\n'] (joinRaw (withTrail tokens))) = tokens := by
  induction tokens with
  | nil =>
      intro inside h
      exact ⟨rfl, rfl⟩
  | cons token tokens ih =>
      intro inside h
      obtain ⟨hfirst, hafter⟩ := ih h.2
      by_cases hraw : token.isRaw = true
      · cases token with
        | raw text =>
            obtain ⟨-, hliteral⟩ := h.1
            rw [joinRaw_withTrail_raw hliteral]
            constructor
            · rw [@trimmed_raw_of_ne_nil false text hliteral.ne_nil, hfirst]
              rfl
            · have hdrop : dropLayout ('\n' :: text) = text := rfl
              rw [prependRaw, List.singleton_append,
                trimmed_raw_of_ne_nil (by simpa [hdrop] using hliteral.ne_nil), hfirst]
              rfl
        | placeholder _ | flag _ | key _ => cases hraw
      · have hraw : token.isRaw = false := by simpa using hraw
        have hthis : trimmed false (joinRaw (withTrail (token :: tokens))) = token :: tokens := by
          rw [joinRaw_withTrail_cons hraw, trimmed_cons hraw]
          cases hlayout : token.dropsLayout with
          | true => simp [hafter]
          | false => simp [hfirst]
        refine ⟨hthis, ?_⟩
        have hhead : ∀ more after, token :: tokens ≠ .raw more :: after := by
          rintro more after heq
          cases heq
          cases hraw
        rw [prependRaw_of_head (joinRaw_withTrail_head hhead) (by simp),
          trimmed_raw_of_eq_nil rfl, hthis]

theorem tokenize_spell {tokens : List Token} (h : Legible false tokens) :
    tokenize (spell tokens) = tokens := by
  have hscans := Scanner.scans_iff.mp (scans_spell h)
  rw [tokenize, arrange_eq_trimmed]
  show trimmed false (joinRaw (Scanner.tokens ⟨false, spell tokens⟩)) = tokens
  rw [← hscans]
  exact (trimmed_withTrail h).1

end Stencil
