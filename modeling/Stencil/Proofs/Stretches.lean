import Stencil.Proofs.Gathering

/-!
# Stretches of literal text

The tokens of a text are cut at those that are no literal text. What stands between two of
them is one literal text in the arranged tokens, or none if nothing is left of it; it loses
its layout if the tag before it asks for that. No other token is touched.
-/

namespace Stencil

/-! ## What is dropped as layout -/

/-- The text without all spaces in front of it, and then without one newline if one is there. -/
def WithoutLayout (text rest : Text) : Prop :=
  ∃ spaces tail, text = spaces ++ tail ∧ (∀ c ∈ spaces, c = ' ') ∧ tail.head? ≠ some ' ' ∧
    (tail = '\n' :: rest ∨ tail = rest ∧ rest.head? ≠ some '\n')

theorem dropLayout_space (text : Text) : dropLayout (' ' :: text) = dropLayout text := rfl

theorem dropLayout_newline (text : Text) : dropLayout ('\n' :: text) = text := rfl

theorem withoutLayout_dropLayout (text : Text) : WithoutLayout text (dropLayout text) := by
  induction text with
  | nil => exact ⟨[], [], rfl, by simp, by simp, Or.inr ⟨rfl, by simp [dropLayout]⟩⟩
  | cons c text ih =>
      by_cases hspace : c = ' '
      · subst hspace
        obtain ⟨spaces, tail, rfl, hspaces, htail⟩ := ih
        exact ⟨' ' :: spaces, tail, rfl, by simpa using hspaces, htail⟩
      by_cases hnewline : c = '\n'
      · subst hnewline
        exact ⟨[], '\n' :: text, rfl, by simp, by simp, Or.inl rfl⟩
      · have hplain : BeginsPlain (c :: text) := by simp [BeginsPlain, hspace, hnewline]
        rw [dropLayout_of_beginsPlain hplain]
        exact ⟨[], c :: text, rfl, by simp, hplain.1, Or.inr ⟨rfl, hplain.2⟩⟩

theorem dropLayout_eq_of_withoutLayout {text rest : Text} (h : WithoutLayout text rest) :
    dropLayout text = rest := by
  obtain ⟨spaces, tail, rfl, hspaces, hhead, htail⟩ := h
  induction spaces with
  | nil =>
      rcases htail with rfl | ⟨rfl, hnewline⟩
      · exact dropLayout_newline rest
      · exact dropLayout_of_beginsPlain ⟨hhead, hnewline⟩
  | cons c spaces ih =>
      obtain ⟨rfl, hlater⟩ := List.forall_mem_cons.mp hspaces
      rw [List.cons_append, dropLayout_space]
      exact ih hlater

theorem dropLayout_eq_iff {text rest : Text} :
    dropLayout text = rest ↔ WithoutLayout text rest := by
  constructor
  · rintro rfl
    exact withoutLayout_dropLayout text
  · exact dropLayout_eq_of_withoutLayout

/-! ## Stretches -/

/-- A token that is no literal text, and the literal texts up to the next such token. -/
structure Stretch where
  token : Token
  solid : token.isRaw = false
  texts : List Text

/-- The tags that have a line of their own. -/
def layoutTags : List Token := [.key .thenTag, .key .elseTag, .key .endIfTag]

theorem dropsLayout_eq_true_iff {token : Token} :
    token.dropsLayout = true ↔ token ∈ layoutTags := by
  cases token with
  | key word =>
      cases word with
      | connective op => cases op <;> decide
      | ifTag | openParen | closeParen | notOp | thenTag | elseIfTag | elseTag | endIfTag => decide
  | raw text | placeholder name | flag name => simp [Token.dropsLayout, layoutTags]

namespace Stretch

def tokens (stretch : Stretch) : List Token := stretch.token :: stretch.texts.map .raw

/-- What is left of the literal texts, all together. -/
def kept (stretch : Stretch) : Text :=
  if stretch.token ∈ layoutTags then dropLayout stretch.texts.flatten else stretch.texts.flatten

def arranged (stretch : Stretch) : List Token := stretch.token :: rawTokens stretch.kept

theorem arranged_eq (stretch : Stretch) :
    stretch.arranged =
      stretch.token :: settle stretch.token.dropsLayout stretch.texts.flatten := by
  rw [arranged, kept, settle]
  by_cases htag : stretch.token ∈ layoutTags
  · rw [if_pos htag, if_pos (dropsLayout_eq_true_iff.mpr htag)]
  · rw [if_neg htag, if_neg (fun hdrops => htag (dropsLayout_eq_true_iff.mp hdrops))]

end Stretch

/-- Literal texts in front, and the stretches after them. -/
def spread (front : List Text) (later : List Stretch) : List Token :=
  front.map .raw ++ later.flatMap Stretch.tokens

/-- Every token sequence can be cut into stretches. -/
theorem exists_spread (tokens : List Token) : ∃ front later, tokens = spread front later := by
  induction tokens with
  | nil => exact ⟨[], [], rfl⟩
  | cons token tokens ih =>
      obtain ⟨front, later, rfl⟩ := ih
      cases token with
      | raw text => exact ⟨text :: front, later, rfl⟩
      | placeholder _ | flag _ | key _ => exact ⟨[], ⟨_, rfl, front⟩ :: later, rfl⟩

/-! ## Arranging them -/

theorem gather_map_raw (texts : List Text) (rest : List Token) :
    ∀ (afterTag : Bool) (held : Text), gather afterTag held (texts.map .raw ++ rest) =
      gather afterTag (held ++ texts.flatten) rest := by
  induction texts with
  | nil =>
      intro afterTag held
      rw [List.flatten_nil, List.append_nil]
      rfl
  | cons text texts ih =>
      intro afterTag held
      rw [List.flatten_cons, ← List.append_assoc]
      exact ih afterTag (held ++ text)

theorem gather_stretches (later : List Stretch) : ∀ (afterTag : Bool) (held : Text),
    gather afterTag held (later.flatMap Stretch.tokens) =
      settle afterTag held ++ later.flatMap Stretch.arranged := by
  induction later with
  | nil =>
      intro afterTag held
      exact (List.append_nil _).symm
  | cons stretch later ih =>
      intro afterTag held
      rw [List.flatMap_cons, List.flatMap_cons, Stretch.tokens, List.cons_append,
        gather_cons stretch.solid, gather_map_raw, List.nil_append, ih, stretch.arranged_eq]
      rfl

theorem arrange_spread (front : List Text) (later : List Stretch) :
    arrange (spread front later) =
      rawTokens front.flatten ++ later.flatMap Stretch.arranged := by
  rw [arrange_eq_gather, spread, gather_map_raw, gather_stretches]
  rfl

/-! ## What is found in arranged tokens -/

theorem not_mem_arrange (tokens : List Token) : .raw [] ∉ arrange tokens := by
  simp [arrange]

theorem length_prependRaw_le (text : Text) (tokens : List Token) :
    (prependRaw text tokens).length ≤ tokens.length + 1 := by
  unfold prependRaw
  split
  · simp
  · split <;> simp

theorem length_joinRaw_append_le (tokens rest : List Token) :
    (joinRaw (tokens ++ rest)).length ≤ tokens.length + (joinRaw rest).length := by
  induction tokens with
  | nil => simp
  | cons token tokens ih =>
      cases token with
      | raw text =>
          have hle := length_prependRaw_le text (joinRaw (tokens ++ rest))
          rw [List.cons_append, joinRaw_raw, List.length_cons]
          omega
      | placeholder _ | flag _ | key _ =>
          rw [List.cons_append, joinRaw_cons rfl, List.length_cons, List.length_cons]
          omega

theorem length_joinRaw_le (tokens : List Token) : (joinRaw tokens).length ≤ tokens.length := by
  have hle := length_joinRaw_append_le tokens []
  rwa [List.append_nil] at hle

/-- Two literal texts in a row are joined, which leaves fewer tokens. -/
theorem ne_adjacent_of_joinRaw {tokens : List Token} (h : joinRaw tokens = tokens)
    (before after : List Token) (text more : Text) :
    tokens ≠ before ++ .raw text :: .raw more :: after := by
  rintro rfl
  have hpair : joinRaw (.raw text :: .raw more :: after) =
      prependRaw (text ++ more) (joinRaw after) := by
    rw [joinRaw_raw, joinRaw_raw, prependRaw_append]
  have hjoined := length_joinRaw_append_le before (.raw text :: .raw more :: after)
  have hprepend := length_prependRaw_le (text ++ more) (joinRaw after)
  have hafter := length_joinRaw_le after
  rw [h, hpair, List.length_append, List.length_cons, List.length_cons] at hjoined
  omega

theorem arrange_ne_adjacent (tokens before after : List Token) (text more : Text) :
    arrange tokens ≠ before ++ .raw text :: .raw more :: after := by
  apply ne_adjacent_of_joinRaw
  rw [arrange_eq_gather]
  exact joinRaw_gather tokens false []

theorem filter_map_raw (texts : List Text) :
    (texts.map Token.raw).filter (!·.isRaw) = [] := by
  simp [Token.isRaw]

theorem filter_rawTokens (text : Text) : (rawTokens text).filter (!·.isRaw) = [] := by
  unfold rawTokens
  split <;> rfl

theorem filter_flatMap_stretches {pieces : Stretch → List Token}
    (h : ∀ stretch, (pieces stretch).filter (!·.isRaw) = [stretch.token])
    (later : List Stretch) :
    (later.flatMap pieces).filter (!·.isRaw) = later.map Stretch.token := by
  induction later with
  | nil => rfl
  | cons stretch later ih =>
      rw [List.flatMap_cons, List.filter_append, h, ih]
      rfl

/-- The tokens that are no literal text stay, in their order. -/
theorem filter_arrange (tokens : List Token) :
    (arrange tokens).filter (!·.isRaw) = tokens.filter (!·.isRaw) := by
  obtain ⟨front, later, rfl⟩ := exists_spread tokens
  have hcons : ∀ (stretch : Stretch) (rest : List Token),
      (stretch.token :: rest).filter (!·.isRaw) = stretch.token :: rest.filter (!·.isRaw) := by
    intro stretch rest
    exact List.filter_cons_of_pos (by simp [stretch.solid])
  have htokens : ∀ stretch : Stretch, stretch.tokens.filter (!·.isRaw) = [stretch.token] := by
    intro stretch
    rw [Stretch.tokens, hcons, filter_map_raw]
  have harranged : ∀ stretch : Stretch,
      stretch.arranged.filter (!·.isRaw) = [stretch.token] := by
    intro stretch
    rw [Stretch.arranged, hcons, filter_rawTokens]
  rw [arrange_spread, spread, List.filter_append, List.filter_append, filter_rawTokens,
    filter_map_raw, filter_flatMap_stretches htokens, filter_flatMap_stretches harranged]

/-- The arranged tokens of a text are the tokens of the scanner, cut into stretches: all but
literal text is as it was, and what stands in one place is joined, loses its layout after a
tag that has a line of its own, and is left out if it is empty. -/
theorem tokenize_stretches (t : Text) :
    (∃ front later, (Scanner.ofText t).tokens = spread front later) ∧
    (∀ front later, (Scanner.ofText t).tokens = spread front later →
      tokenize t = rawTokens front.flatten ++ later.flatMap Stretch.arranged) ∧
    (∀ text rest, dropLayout text = rest ↔ WithoutLayout text rest) ∧
    (tokenize t).filter (!·.isRaw) = (Scanner.ofText t).tokens.filter (!·.isRaw) ∧
    .raw [] ∉ tokenize t ∧
    ∀ before text more after, tokenize t ≠ before ++ .raw text :: .raw more :: after := by
  refine ⟨exists_spread _, ?_, fun _ _ => dropLayout_eq_iff, filter_arrange _,
    not_mem_arrange _, ?_⟩
  · intro front later htokens
    rw [tokenize, htokens]
    exact arrange_spread front later
  · intro before text more after
    exact arrange_ne_adjacent _ before after text more

/-- Layout after a tag, in front of a bracket, which is a mark though it means nothing here. -/
def bracketText : Text := "a#endif \n(\nb".toList

/-- The literal text is found in three pieces and trimmed as one, so the second newline stays. -/
theorem tokenize_bracketText :
    (Scanner.ofText bracketText).tokens =
        spread [['a']] [⟨.key .endIfTag, rfl, [[' ', '\n'], ['('], ['\n', 'b']]⟩] ∧
      tokenize bracketText = [.raw ['a'], .key .endIfTag, .raw ['(', '\n', 'b']] := by
  have hcut : (Scanner.ofText bracketText).tokens =
      spread [['a']] [⟨.key .endIfTag, rfl, [[' ', '\n'], ['('], ['\n', 'b']]⟩] := by
    decide +kernel
  exact ⟨hcut, (tokenize_stretches bracketText).2.1 _ _ hcut⟩

end Stencil
