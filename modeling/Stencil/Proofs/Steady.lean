import Stencil.Proofs.Spelling

/-!
# The literal texts and the names of a text

Outside conditions, literal text that the scanner finds is a piece of the template in
which nothing begins, and the names it finds are trimmed and hold no closing braces.
Dropping layout changes neither. So what `Literal` asks of literal text in front of a
token sequence is what `tokenize` provides.
-/

namespace Stencil

def Token.Steady (inside : Bool) (rest : List Token) : Token → Prop
  | raw text => inside = false → Literal text rest
  | placeholder name | flag name => IsName name
  | key _ => True

/-- Literal text outside conditions is literal where it stands, and names are names. -/
def Steady (inside : Bool) : List Token → Prop
  | [] => True
  | token :: tokens => token.Steady inside tokens ∧ Steady (token.inConditionAfter inside) tokens

namespace Scanner

/-! ## What stands in front -/

theorem scans_raw {t text : Text} {rest : List Token} (h : Scans false t (.raw text :: rest)) :
    text <+: t := by
  generalize hinside : false = inside at h
  generalize htokens : Token.raw text :: rest = tokens at h
  induction h generalizing text rest with
  | nil inside => cases htokens
  | begins hbegins h ih =>
      cases htokens
      cases isRaw_of_begins? hbegins
  | @literal inside c t tokens hbegins hmark h ih =>
      rcases prependRaw_cases (List.cons_ne_nil c []) tokens with ⟨more, rest', rfl, heq⟩ |
        ⟨-, heq⟩
      · rw [heq] at htokens
        cases htokens
        exact List.cons_prefix_cons.mpr ⟨rfl, ih hinside rfl⟩
      · rw [heq] at htokens
        cases htokens
        exact ⟨t, rfl⟩
  | noise hbegins hmark h ih => cases hinside

theorem scans_placeholder {t name : Text} {rest : List Token}
    (h : Scans false t (.placeholder name :: rest)) :
    ∃ after inner later, t = openBraces ++ after ∧ splitAtClose after = some (inner, later) := by
  generalize hinside : false = inside at h
  generalize htokens : Token.placeholder name :: rest = tokens at h
  cases h with
  | nil inside => cases htokens
  | begins hbegins h =>
      cases htokens
      rcases begins?_cases hbegins with ⟨inner, after, heq, hsplit, -⟩ | ⟨word, -, -, heq⟩
      · exact ⟨after, inner, _, heq, hsplit⟩
      · cases heq
  | @literal inside c t tokens hbegins hmark h =>
      rcases prependRaw_cases (List.cons_ne_nil c []) tokens with ⟨more, rest', rfl, heq⟩ |
        ⟨-, heq⟩
      · rw [heq] at htokens
        cases htokens
      · rw [heq] at htokens
        cases htokens
  | noise hbegins hmark h => cases hinside

/-! ## Text without closing braces -/

theorem ne_closeBrace_of_atMark {c : Char} {t : Text} (h : atMark (c :: t) = true) :
    c ≠ '}' := by
  rintro rfl
  rw [atMark_iff] at h
  rcases h with h | ⟨word, -, h⟩
  · obtain ⟨rest, hrest⟩ := h
    cases hrest
  · cases word with
    | connective op => cases op <;> (obtain ⟨rest, hrest⟩ := h; cases hrest)
    | _ =>
        obtain ⟨rest, hrest⟩ := h
        cases hrest

/-- A character in front of literal text forms no closing braces with it: outside the
two are adjacent in the template, inside the character begins a mark. -/
theorem not_closeBraces_literal {inside : Bool} {c : Char} {t more : Text} {rest : List Token}
    (hmark : inside = true → atMark (c :: t) = true) (h : Scans inside t (.raw more :: rest))
    (hclose : ¬ closeBraces <:+: c :: t) (hmore : ¬ closeBraces <:+: more) :
    ¬ closeBraces <:+: c :: more := by
  rw [List.infix_cons_iff]
  rintro (hhead | htail)
  · cases inside with
    | false =>
        have hprefix : c :: more <+: c :: t := List.cons_prefix_cons.mpr ⟨rfl, scans_raw h⟩
        exact hclose (hhead.trans hprefix).isInfix
    | true =>
        obtain ⟨heq, -⟩ := List.cons_prefix_cons.mp hhead
        exact ne_closeBrace_of_atMark (hmark rfl) heq.symm
  · exact hmore htail

theorem closeless_of_scans {inside : Bool} {t : Text} {tokens : List Token}
    (h : Scans inside t tokens) (hclose : ¬ closeBraces <:+: t) : Closeless tokens := by
  induction h with
  | nil inside =>
      intro token htoken
      cases htoken
  | @begins inside t source rest token tokens hbegins h ih =>
      have hrest : Closeless tokens := by
        obtain ⟨rfl, -⟩ := first?_eq_append (first?_of_begins? hbegins)
        exact ih (fun h => hclose (List.infix_append_of_infix_right h))
      refine List.forall_mem_cons.mpr ⟨?_, hrest⟩
      rcases begins?_cases hbegins with ⟨inner, after, rfl, hsplit, -⟩ | ⟨word, -, -, rfl⟩
      · have hafter : ¬ closeBraces <:+: after :=
          fun h => hclose (List.infix_append_of_infix_right h)
        rw [splitAtClose_eq_none_iff.mpr hafter] at hsplit
        cases hsplit
      · trivial
  | @literal inside c t tokens hbegins hmark h ih =>
      have htokens := ih (fun h => hclose (List.infix_cons h))
      rcases prependRaw_cases (List.cons_ne_nil c []) tokens with ⟨more, rest, rfl, heq⟩ |
        ⟨-, heq⟩
      · obtain ⟨hmore, hrest⟩ := List.forall_mem_cons.mp htokens
        rw [heq]
        exact List.forall_mem_cons.mpr ⟨not_closeBraces_literal hmark h hclose hmore, hrest⟩
      · rw [heq]
        refine List.forall_mem_cons.mpr ⟨?_, htokens⟩
        intro hinfix
        exact absurd hinfix.length_le (by simp [closeBraces])
  | noise hbegins hmark h ih => exact ih (fun h => hclose (List.infix_cons h))

/-! ## Literal text begins nothing -/

/-- The first character of literal text, if the text after it is literal already. -/
theorem literal_cons {c : Char} {t more : Text} {rest : List Token}
    (hbegins : begins? false (c :: t) = none) (hmore : c :: more <+: c :: t)
    (hlater : more ≠ [] → Literal more rest) (hrest : ∀ text after, rest ≠ .raw text :: after)
    (hname : more = [] → c = '{' → ∀ name after, rest ≠ .placeholder name :: after)
    (hclose : ¬ closeBraces <:+: t → Closeless rest) : Literal (c :: more) rest := by
  obtain ⟨hbraces, htags⟩ := begins?_eq_none_iff.mp hbegins
  refine ⟨by simp, hrest, ?_, ?_, ?_⟩
  · intro word hword htag
    rcases List.infix_cons_iff.mp htag with hhead | htail
    · exact htags word hword (hhead.trans hmore)
    · by_cases hne : more = []
      · subst hne
        exact word.tag_ne_nil (List.infix_nil.mp htail)
      · exact (hlater hne).tagless word hword htail
  · intro hlast
    by_cases hne : more = []
    · subst hne
      exact hname rfl (by simpa using hlast)
    · refine (hlater hne).braceless ?_
      rw [List.getLast?_cons, List.getLast?_eq_some_getLast hne] at hlast
      rw [List.getLast?_eq_some_getLast hne]
      exact hlast
  · intro inner hinner
    rcases List.suffix_cons_iff.mp hinner with heq | htail
    -- the braces open at this very character, and are left unclosed in all of `t`
    · obtain ⟨u, hu⟩ := hmore
      rw [← heq, List.append_assoc] at hu
      have hnone : ¬ closeBraces <:+: inner ++ u :=
        splitAtClose_eq_none_iff.mp (hbraces _ hu.symm)
      refine ⟨fun h => hnone (List.infix_append_of_infix_left h), hclose ?_⟩
      obtain ⟨rfl, rfl⟩ : '{' = c ∧ '{' :: (inner ++ u) = t := by
        simpa [openBraces] using hu
      have hsingle : ¬ closeBraces <:+: ['{'] := by decide
      exact not_closeBraces_append hsingle hnone (Or.inl (by decide))
    · by_cases hne : more = []
      · subst hne
        exact absurd htail.length_le (by simp [openBraces])
      · exact (hlater hne).unclosed inner htail

/-- A brace in front of a placeholder would have begun one itself. -/
theorem ne_placeholder_of_brace {t : Text} {tokens : List Token}
    (hbegins : begins? false ('{' :: t) = none) (h : Scans false t tokens) :
    ∀ name after, tokens ≠ .placeholder name :: after := by
  rintro name after rfl
  obtain ⟨later, inner, rest, rfl, hsplit⟩ := scans_placeholder h
  have hnone := (begins?_eq_none_iff.mp hbegins).1 ('{' :: later) rfl
  rw [splitAtClose, hsplit] at hnone
  · cases hnone
  · rintro u heq
    cases heq

theorem steady_of_scans {inside : Bool} {t : Text} {tokens : List Token}
    (h : Scans inside t tokens) : Steady inside tokens := by
  induction h with
  | nil inside => trivial
  | @begins inside t source rest token tokens hbegins h ih =>
      refine ⟨?_, ih⟩
      rcases begins?_cases hbegins with ⟨inner, after, -, hsplit, rfl⟩ | ⟨word, -, -, rfl⟩
      · have hname := isName_trim (not_closeBraces_of_splitAtClose hsplit)
        cases inside <;> exact hname
      · trivial
  | @literal inside c t tokens hbegins hmark h ih =>
      rcases prependRaw_cases (List.cons_ne_nil c []) tokens with ⟨more, rest, rfl, heq⟩ |
        ⟨hhead, heq⟩
      · rw [heq]
        refine ⟨?_, ih.2⟩
        rintro rfl
        have hmore : Literal more rest := ih.1 rfl
        refine literal_cons hbegins (List.cons_prefix_cons.mpr ⟨rfl, scans_raw h⟩)
          (fun _ => hmore) hmore.apart (fun hnil => absurd hnil hmore.ne_nil) ?_
        intro hclose
        exact (List.forall_mem_cons.mp (closeless_of_scans h hclose)).2
      -- a literal text of one character, before a token or at the end
      · rw [heq]
        refine ⟨?_, ih⟩
        rintro rfl
        refine literal_cons hbegins ⟨t, rfl⟩ (fun hne => absurd rfl hne) hhead ?_
          (closeless_of_scans h)
        rintro - rfl
        exact ne_placeholder_of_brace hbegins h
  | noise hbegins hmark h ih => exact ih

end Scanner

/-! ## After trimming -/

/-- What makes `rest'` as good as `rest` after literal text. -/
structure Follows (rest rest' : List Token) : Prop where
  apart : (∀ more after, rest ≠ .raw more :: after) → ∀ more after, rest' ≠ .raw more :: after
  name : ∀ name after, rest' = .placeholder name :: after →
    ∃ after', rest = .placeholder name :: after'
  closeless : Closeless rest → Closeless rest'

theorem Literal.of_follows {text : Text} {rest rest' : List Token} (h : Literal text rest)
    (hfollows : Follows rest rest') : Literal text rest' where
  ne_nil := h.ne_nil
  apart := hfollows.apart h.apart
  tagless := h.tagless
  braceless := by
    rintro hlast name after heq
    obtain ⟨after', rfl⟩ := hfollows.name name after heq
    exact h.braceless hlast name after' rfl
  unclosed := by
    intro more hmore
    obtain ⟨hclose, hrest⟩ := h.unclosed more hmore
    exact ⟨hclose, hfollows.closeless hrest⟩

theorem Follows.refl (rest : List Token) : Follows rest rest :=
  ⟨id, fun _ after heq => ⟨after, heq⟩, id⟩

theorem Follows.cons (token : Token) {rest rest' : List Token}
    (h : Closeless rest → Closeless rest') : Follows (token :: rest) (token :: rest') where
  apart := by
    rintro hrest more after heq
    cases heq
    exact hrest more rest rfl
  name := by
    rintro name after heq
    cases heq
    exact ⟨rest, rfl⟩
  closeless := by
    intro hclose
    obtain ⟨htoken, hrest⟩ := List.forall_mem_cons.mp hclose
    exact List.forall_mem_cons.mpr ⟨htoken, h hrest⟩

/-- A tag may come after literal text whatever stood there. -/
theorem Follows.key (word : Keyword) {rest rest' : List Token}
    (h : Closeless rest → Closeless rest') : Follows rest (.key word :: rest') where
  apart := by
    rintro - more after heq
    cases heq
  name := by
    rintro name after heq
    cases heq
  closeless := fun hclose => List.forall_mem_cons.mpr ⟨trivial, h hclose⟩

theorem closeless_trimmed {joined : List Token} : ∀ (afterTag : Bool),
    Closeless joined → Closeless (trimmed afterTag joined) := by
  induction joined with
  | nil =>
      intro afterTag h
      exact h
  | cons token joined ih =>
      intro afterTag h
      obtain ⟨htoken, hrest⟩ := List.forall_mem_cons.mp h
      cases token with
      | raw text =>
          rcases trimmed_raw_cases afterTag text joined with heq | ⟨kept, -, hsuffix, heq⟩
          · rw [heq]
            exact ih false hrest
          · rw [heq]
            refine List.forall_mem_cons.mpr ⟨?_, ih false hrest⟩
            intro hclose
            exact htoken (hclose.trans hsuffix.isInfix)
      | placeholder _ | flag _ | key _ =>
          rw [trimmed_cons rfl]
          exact List.forall_mem_cons.mpr ⟨htoken, ih _ hrest⟩

/-- Trimming keeps the token in front, unless that is literal text. -/
theorem follows_trimmed {joined : List Token} (h : ∀ more after, joined ≠ .raw more :: after) :
    Follows joined (trimmed false joined) := by
  cases joined with
  | nil => exact .refl []
  | cons token joined =>
      cases token with
      | raw text => exact absurd rfl (h text joined)
      | placeholder _ | flag _ | key _ =>
          rw [trimmed_cons rfl]
          exact .cons _ (closeless_trimmed _)

theorem steady_trimmed {joined : List Token} : ∀ {inside : Bool} (afterTag : Bool),
    Steady inside joined → Steady inside (trimmed afterTag joined) := by
  induction joined with
  | nil =>
      intro inside afterTag h
      exact h
  | cons token joined ih =>
      intro inside afterTag h
      cases token with
      | raw text =>
          have hrest : Steady inside (trimmed false joined) := ih false h.2
          rcases trimmed_raw_cases afterTag text joined with heq | ⟨kept, hne, hsuffix, heq⟩
          · rwa [heq]
          · rw [heq]
            refine ⟨?_, hrest⟩
            intro hinside
            have hliteral : Literal text joined := h.1 hinside
            -- what was trimmed to nothing behind it was no literal text
            have hkept : Literal kept joined := hliteral.of_suffix hsuffix hne
            exact hkept.of_follows (follows_trimmed hliteral.apart)
      | placeholder _ | flag _ | key _ =>
          rw [trimmed_cons rfl]
          exact ⟨h.1, ih _ h.2⟩

theorem steady_tokenize (text : Text) : Steady false (tokenize text) := by
  rw [tokenize, arrange_eq_trimmed]
  exact steady_trimmed false (Scanner.steady_of_scans (Scanner.scans_joinRaw_tokens false text))

end Stencil
