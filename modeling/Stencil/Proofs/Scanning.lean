import Stencil.Proofs.Arranging

/-!
# Scanning one character at a time

The scanner passes over literal text in one move, up to the next mark. Once adjacent
literal texts are joined it makes no difference to look at every character instead:
what begins there is taken, and what begins nothing is literal text or noise. `Scans`
is that slower reading, and by `scans_iff` it has the same result.
-/

namespace Stencil

namespace Scanner

/-! ## What begins at the head of a text -/

/-- The name or the keyword that begins at the head of the text. -/
def begins? (inside : Bool) (t : Text) : Option (Text × Token × Text) :=
  (name? inside t).or (keyword? inside t)

theorem first?_of_begins? {inside : Bool} {t : Text} {found : Text × Token × Text}
    (h : begins? inside t = some found) : first? inside t = some found := by
  unfold begins? at h
  unfold first?
  rw [h]

theorem first?_of_begins?_none {inside : Bool} {c : Char} {t : Text}
    (h : begins? inside (c :: t) = none) :
    first? inside (c :: t) = some ([c], .raw [c], t) := by
  unfold begins? at h
  unfold first?
  rw [h]

/-- The two forms of what begins: a name in braces, or the tag of a keyword. -/
theorem begins?_cases {inside : Bool} {t source rest : Text} {token : Token}
    (h : begins? inside t = some (source, token, rest)) :
    (∃ inner after, t = openBraces ++ after ∧ splitAtClose after = some (inner, rest) ∧
      token = if inside then .flag inner.trim else .placeholder inner.trim) ∨
    (∃ word, word.inCondition = inside ∧ t = word.tag ++ rest ∧ token = .key word) := by
  rcases Option.or_eq_some_iff.mp h with hname | ⟨-, hword⟩
  · unfold name? at hname
    split at hname
    · next after =>
        obtain ⟨⟨inner, rest'⟩, hsplit, heq⟩ := Option.map_eq_some_iff.mp hname
        cases heq
        exact Or.inl ⟨inner, after, rfl, hsplit, rfl⟩
    · cases hname
  · obtain ⟨word, hfind, heq⟩ := Option.map_eq_some_iff.mp hword
    have hfound := List.find?_some hfind
    simp only [Bool.and_eq_true, beq_iff_eq, List.isPrefixOf_iff_prefix] at hfound
    obtain ⟨hinside, after, rfl⟩ := hfound
    cases heq
    exact Or.inr ⟨word, hinside, by simp, rfl⟩

theorem name?_eq_none_iff {inside : Bool} {t : Text} :
    name? inside t = none ↔ ∀ after, t = openBraces ++ after → splitAtClose after = none := by
  unfold name?
  split
  · next after =>
      rw [Option.map_eq_none_iff]
      constructor
      · rintro hnone after' heq
        cases heq
        exact hnone
      · intro hnone
        exact hnone after rfl
  · next hhead =>
      refine ⟨fun _ after heq => absurd heq (hhead after), fun _ => rfl⟩

theorem keyword?_eq_none_iff {inside : Bool} {t : Text} :
    keyword? inside t = none ↔
      ∀ word : Keyword, word.inCondition = inside → ¬ word.tag <+: t := by
  simp [keyword?, Keyword.mem_all]

theorem begins?_eq_none_iff {inside : Bool} {t : Text} :
    begins? inside t = none ↔
      (∀ after, t = openBraces ++ after → splitAtClose after = none) ∧
      ∀ word : Keyword, word.inCondition = inside → ¬ word.tag <+: t := by
  rw [begins?, Option.or_eq_none_iff, name?_eq_none_iff, keyword?_eq_none_iff]

theorem isRaw_of_begins? {inside : Bool} {t source rest : Text} {token : Token}
    (h : begins? inside t = some (source, token, rest)) : token.isRaw = false := by
  rcases begins?_cases h with ⟨inner, after, -, -, rfl⟩ | ⟨word, -, -, rfl⟩
  · cases inside <;> rfl
  · rfl

theorem atMark_iff {t : Text} :
    atMark t = true ↔ openBraces <+: t ∨ ∃ word : Keyword, word ≠ .elseIfTag ∧ word.tag <+: t := by
  simp only [atMark, specialMarks, List.any_cons, List.any_map, Bool.or_eq_true,
    List.isPrefixOf_iff_prefix, List.any_eq_true, List.mem_filter, Keyword.mem_all, true_and,
    decide_eq_true_eq, Function.comp_apply]

/-- Whatever begins is announced by a mark; `#elseif` by that of `#else`. -/
theorem atMark_of_begins? {inside : Bool} {t source rest : Text} {token : Token}
    (h : begins? inside t = some (source, token, rest)) : atMark t = true := by
  rw [atMark_iff]
  rcases begins?_cases h with ⟨inner, after, rfl, -, -⟩ | ⟨word, -, rfl, -⟩
  · exact Or.inl (List.prefix_append _ _)
  · by_cases hword : word = .elseIfTag
    · subst hword
      exact Or.inr ⟨.elseTag, by decide, ['i', 'f'] ++ rest, rfl⟩
    · exact Or.inr ⟨word, hword, List.prefix_append _ _⟩

theorem begins?_shorter {inside : Bool} {t source rest : Text} {token : Token}
    (h : begins? inside t = some (source, token, rest)) : rest.length < t.length := by
  obtain ⟨rfl, hne⟩ := first?_eq_append (first?_of_begins? h)
  have := List.length_pos_iff.mpr hne
  simp only [List.length_append]
  omega

/-! ## Single steps -/

theorem beforeMark_of_atMark {t : Text} (h : atMark t = true) : beforeMark t = [] := by
  cases t with
  | nil => rfl
  | cons c t => simp [beforeMark, h]

theorem fromMark_of_atMark {t : Text} (h : atMark t = true) : fromMark t = t := by
  cases t with
  | nil => rfl
  | cons c t => simp [fromMark, h]

theorem tokens_of_next? {s s' : Scanner} {lexeme : Lexeme} (h : s.next? = some (lexeme, s')) :
    s.tokens = lexeme.token :: s'.tokens := by
  rw [tokens, lexemes_of_next?_some h]
  rfl

theorem tokens_of_begins? {inside : Bool} {t source rest : Text} {token : Token}
    (h : begins? inside t = some (source, token, rest)) :
    tokens ⟨inside, t⟩ = token :: tokens ⟨token.inConditionAfter inside, rest⟩ := by
  have hmark := atMark_of_begins? h
  have hnext : next? ⟨inside, t⟩ =
      some (⟨[], source, token⟩, ⟨token.inConditionAfter inside, rest⟩) := by
    simp [next?, beforeMark_of_atMark hmark, fromMark_of_atMark hmark, first?_of_begins? h]
  exact tokens_of_next? hnext

theorem tokens_at_mark {inside : Bool} {c : Char} {t : Text}
    (h : begins? inside (c :: t) = none) (hmark : atMark (c :: t) = true) :
    tokens ⟨inside, c :: t⟩ = .raw [c] :: tokens ⟨inside, t⟩ := by
  have hnext : next? ⟨inside, c :: t⟩ = some (⟨[], [c], .raw [c]⟩, ⟨inside, t⟩) := by
    simp [next?, beforeMark_of_atMark hmark, fromMark_of_atMark hmark,
      first?_of_begins?_none h, Token.inConditionAfter]
  exact tokens_of_next? hnext

theorem fromMark_fromMark (t : Text) : fromMark (fromMark t) = fromMark t := by
  by_cases h : fromMark t = []
  · rw [h]
    rfl
  · exact fromMark_of_atMark (atMark_fromMark h)

theorem beforeMark_fromMark (t : Text) : beforeMark (fromMark t) = [] := by
  by_cases h : fromMark t = []
  · rw [h]
    rfl
  · exact beforeMark_of_atMark (atMark_fromMark h)

/-- Inside a condition the text before a mark has no effect on the tokens. -/
theorem tokens_inside (t : Text) : tokens ⟨true, t⟩ = tokens ⟨true, fromMark t⟩ := by
  cases hfirst : first? true (fromMark t) with
  | none =>
      have hnext : next? ⟨true, t⟩ = none := by simp [next?, hfirst]
      have hnext' : next? ⟨true, fromMark t⟩ = none := by simp [next?, fromMark_fromMark, hfirst]
      rw [tokens, lexemes_of_next?_none hnext, tokens, lexemes_of_next?_none hnext']
  | some found =>
      obtain ⟨source, token, rest⟩ := found
      have hnext : next? ⟨true, t⟩ =
          some (⟨beforeMark t, source, token⟩, ⟨token.inConditionAfter true, rest⟩) := by
        simp [next?, hfirst]
      have hnext' : next? ⟨true, fromMark t⟩ =
          some (⟨[], source, token⟩, ⟨token.inConditionAfter true, rest⟩) := by
        simp [next?, fromMark_fromMark, beforeMark_fromMark, hfirst]
      rw [tokens_of_next? hnext, tokens_of_next? hnext']

/-- Outside, the text before a mark is literal, in one piece. -/
theorem joinRaw_tokens_outside (t : Text) :
    joinRaw (tokens ⟨false, t⟩) =
      prependRaw (beforeMark t) (joinRaw (tokens ⟨false, fromMark t⟩)) := by
  by_cases hplain : beforeMark t = []
  · have ht : fromMark t = t := by simpa [hplain] using beforeMark_append_fromMark t
    rw [hplain, ht, prependRaw_nil]
  · have hnext : next? ⟨false, t⟩ =
        some (⟨[], beforeMark t, .raw (beforeMark t)⟩, ⟨false, fromMark t⟩) := by
      simp [next?, hplain]
    rw [tokens_of_next? hnext, joinRaw_raw]

/-! ## The slower reading -/

/-- The joined tokens of a text, found by looking at every character. -/
inductive Scans : Bool → Text → List Token → Prop
  | nil (inside : Bool) : Scans inside [] []
  | begins {inside : Bool} {t source rest : Text} {token : Token} {tokens : List Token}
      (hbegins : begins? inside t = some (source, token, rest))
      (h : Scans (token.inConditionAfter inside) rest tokens) : Scans inside t (token :: tokens)
  | literal {inside : Bool} {c : Char} {t : Text} {tokens : List Token}
      (hbegins : begins? inside (c :: t) = none)
      (hmark : inside = true → atMark (c :: t) = true) (h : Scans inside t tokens) :
      Scans inside (c :: t) (prependRaw [c] tokens)
  | noise {c : Char} {t : Text} {tokens : List Token} (hbegins : begins? true (c :: t) = none)
      (hmark : atMark (c :: t) = false) (h : Scans true t tokens) : Scans true (c :: t) tokens

/-- A character that begins nothing joins the literal text after it. -/
theorem joinRaw_tokens_literal {inside : Bool} {c : Char} {t : Text}
    (hbegins : begins? inside (c :: t) = none) (hmark : inside = true → atMark (c :: t) = true) :
    joinRaw (tokens ⟨inside, c :: t⟩) = prependRaw [c] (joinRaw (tokens ⟨inside, t⟩)) := by
  by_cases hat : atMark (c :: t) = true
  · rw [tokens_at_mark hbegins hat, joinRaw_raw]
  · cases inside with
    | true => exact absurd (hmark rfl) hat
    | false =>
        rw [joinRaw_tokens_outside (c :: t), joinRaw_tokens_outside t, ← prependRaw_append]
        simp [beforeMark, fromMark, hat]

theorem tokens_noise {c : Char} {t : Text} (hmark : atMark (c :: t) = false) :
    tokens ⟨true, c :: t⟩ = tokens ⟨true, t⟩ := by
  rw [tokens_inside (c :: t), tokens_inside t]
  simp [fromMark, hmark]

theorem joinRaw_tokens_begins {inside : Bool} {t source rest : Text} {token : Token}
    (h : begins? inside t = some (source, token, rest)) :
    joinRaw (tokens ⟨inside, t⟩) =
      token :: joinRaw (tokens ⟨token.inConditionAfter inside, rest⟩) := by
  rw [tokens_of_begins? h, joinRaw_cons (isRaw_of_begins? h)]

theorem tokens_nil (inside : Bool) : tokens ⟨inside, []⟩ = [] := by
  have hnext : next? ⟨inside, []⟩ = none := by cases inside <;> decide
  rw [tokens, lexemes_of_next?_none hnext]
  rfl

theorem scans_joinRaw_tokens (inside : Bool) (t : Text) :
    Scans inside t (joinRaw (tokens ⟨inside, t⟩)) := by
  cases hbegins : begins? inside t with
  | some found =>
      obtain ⟨source, token, rest⟩ := found
      have hshort := begins?_shorter hbegins
      rw [joinRaw_tokens_begins hbegins]
      exact .begins hbegins (scans_joinRaw_tokens _ rest)
  | none =>
      cases t with
      | nil =>
          rw [tokens_nil]
          exact .nil inside
      | cons c t =>
          by_cases hmark : inside = true → atMark (c :: t) = true
          -- outside every character counts, inside only one at a mark
          · rw [joinRaw_tokens_literal hbegins hmark]
            exact .literal hbegins hmark (scans_joinRaw_tokens inside t)
          · obtain ⟨rfl, hat⟩ : inside = true ∧ atMark (c :: t) = false := by simpa using hmark
            rw [tokens_noise hat]
            exact .noise hbegins hat (scans_joinRaw_tokens true t)
termination_by t.length

theorem scans_iff {inside : Bool} {t : Text} {found : List Token} :
    Scans inside t found ↔ found = joinRaw (tokens ⟨inside, t⟩) := by
  constructor
  · intro h
    induction h with
    | nil inside =>
        rw [tokens_nil]
        rfl
    | begins hbegins h ih => rw [joinRaw_tokens_begins hbegins, ih]
    | literal hbegins hmark h ih => rw [joinRaw_tokens_literal hbegins hmark, ih]
    | noise hbegins hmark h ih => rw [tokens_noise hmark, ih]
  · rintro rfl
    exact scans_joinRaw_tokens inside t

end Scanner

end Stencil
