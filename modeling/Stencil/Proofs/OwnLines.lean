import Stencil.Proofs.Exchange
import Stencil.Proofs.Stretches

/-!
# Tags with lines of their own

Spaces after a tag that drops its layout, and a newline after them, make no difference to what
a template means. They come to stand behind the tag, where the scanner is outside of conditions
and takes them as literal text, and arranging drops them again.
-/

namespace Stencil

open Scanner

/-! ## Behind a tag that was found -/

namespace Scanner

/-- A keyword is found in its mode, at the next mark. -/
theorem keyword_of_next? {s s' : Scanner} {lexeme : Lexeme} {word : Keyword}
    (h : s.next? = some (lexeme, s')) (hkey : lexeme.token = .key word) :
    s.inCondition = word.inCondition ∧ (s.inCondition = false → beforeMark s.rest = []) ∧
      fromMark s.rest = word.tag ++ s'.rest ∧
      begins? word.inCondition (word.tag ++ s'.rest) = some (word.tag, .key word, s'.rest) := by
  have hmode : s.inCondition = word.inCondition := by
    have hallowed := (mode_of_next? h).1
    rw [hkey] at hallowed
    exact (beq_iff_eq.mp hallowed).symm
  rcases next?_cases h with ⟨-, -, rfl, -⟩ | ⟨source, token, rest, hplain, hfirst, rfl, rfl⟩
  · cases hkey
  obtain rfl : token = .key word := hkey
  obtain rfl : source = word.tag := standsFor_of_first? hfirst
  have hfrom : fromMark s.rest = word.tag ++ rest := (first?_eq_append hfirst).1
  rcases first?_cases hfirst with hbegins | ⟨c, -, -, -, heq⟩
  · rw [hmode, hfrom] at hbegins
    exact ⟨hmode, hplain, hfrom, hbegins⟩
  · cases heq

end Scanner

/-- The scanner finds the keyword exactly where it is written between these texts. -/
def FindsBetween (p : Text) (word : Keyword) (r : Text) : Prop :=
  ∃ n, (ofText (p ++ word.tag ++ r)).tokens[n]? = some (.key word) ∧
    cursor (p ++ word.tag ++ r) (n + 1) = (p ++ word.tag).bytes

/-- Before the keyword is found, no other mark is in front of it. -/
theorem FindsBetween.exists_after {p r : Text} {word : Keyword} (h : FindsBetween p word r)
    (hword : word.tag.head? = some '#') :
    ∃ n w, (ofText (p ++ (word.tag ++ r))).after n = ⟨word.inCondition, w ++ (word.tag ++ r)⟩ ∧
      fromMark w = [] ∧ (word.inCondition = false → beforeMark w = []) ∧
      begins? word.inCondition (word.tag ++ r) = some (word.tag, .key word, r) := by
  obtain ⟨n, htoken, hcursor⟩ := h
  obtain ⟨before, hsplit, hbytes⟩ := exists_before_cursor (p ++ word.tag ++ r) (n + 1)
  obtain ⟨-, hrest⟩ := Text.append_inj hsplit (hcursor ▸ hbytes.symm)
  rw [List.append_assoc] at htoken hrest
  generalize hs : ofText (p ++ (word.tag ++ r)) = s at htoken hrest ⊢
  obtain ⟨lexeme, hnext, hkey⟩ := next?_of_getElem?_tokens htoken
  obtain ⟨hmode, hplain, hfrom, hbegins⟩ := keyword_of_next? hnext hkey
  rw [← hrest] at hfrom hbegins
  have htag := atTag_append hword r
  have happend := beforeMark_append_fromMark (s.after n).rest
  rw [hfrom] at happend
  refine ⟨n, beforeMark (s.after n).rest, by rw [happend, ← hmode], ?_, ?_, hbegins⟩
  · have hfrom' := fromMark_append (beforeMark (s.after n).rest) htag
    rw [happend, hfrom] at hfrom'
    simpa using hfrom'
  · intro houtside
    rw [hplain (hmode.trans houtside)]
    rfl

theorem brace_not_mem_tag (word : Keyword) : '}' ∉ word.tag := by
  cases word with
  | connective op => cases op <;> decide
  | _ => decide

theorem tokens_tag {word : Keyword} {w t : Text} (hword : word.tag.head? = some '#')
    (hfrom : fromMark w = []) (hplain : word.inCondition = false → beforeMark w = [])
    (hif : word = .elseTag → ¬ ['i', 'f'] <+: t) :
    tokens ⟨word.inCondition, w ++ (word.tag ++ t)⟩ =
      .key word :: tokens ⟨(Token.key word).inConditionAfter word.inCondition, t⟩ := by
  have htag := atTag_append hword t
  have hfirst : first? word.inCondition (fromMark (w ++ (word.tag ++ t))) =
      some (word.tag, .key word, t) := by
    rw [fromMark_append w htag, hfrom]
    exact first?_of_begins? (begins?_tag hif)
  rw [← beforeMark_append w htag] at hplain
  exact tokens_of_next? (next?_of_first? (s := ⟨word.inCondition, w ++ (word.tag ++ t)⟩) hplain hfirst)

/-- If what stands behind the tag is exchanged, the same tokens are found up to the tag. -/
theorem FindsBetween.exists_front {p r u : Text} {word : Keyword} (h : FindsBetween p word r)
    (hword : word.tag.head? = some '#') (hclose : closeBraces <:+: u → closeBraces <:+: r)
    (hif : ['i', 'f'] <+: u → ['i', 'f'] <+: r) :
    ∃ front, ∀ t, t = r ∨ t = u → (ofText (p ++ word.tag ++ t)).tokens =
      front ++ .key word :: tokens ⟨(Token.key word).inConditionAfter word.inCondition, t⟩ := by
  obtain ⟨n, w, hafter, hfrom, hplain, hbegins⟩ := h.exists_after hword
  have hclose' : closeBraces <:+: word.tag ++ u → closeBraces <:+: word.tag ++ r := by
    intro hmore
    have hu := closeBraces_infix_of_append (brace_not_mem_tag word) hmore
    exact List.infix_append_of_infix_right (hclose hu)
  obtain ⟨front, htokens, htokens'⟩ := tokens_exchange (atTag_append hword r)
    (atTag_append hword u) hclose' n hafter
  have helse : word = .elseTag → ¬ ['i', 'f'] <+: r := by
    rintro rfl
    exact not_if_of_begins? hbegins
  refine ⟨front, ?_⟩
  rintro t (rfl | rfl)
  · rw [List.append_assoc, ofText, htokens, tokens_tag hword hfrom hplain helse]
  · rw [List.append_assoc, ofText, htokens',
      tokens_tag hword hfrom hplain fun heq hfront => helse heq (hif hfront)]

/-! ## Layout is dropped -/

theorem gather_tokens (inside afterTag : Bool) (held t : Text) :
    gather afterTag held (tokens ⟨inside, t⟩) = gather afterTag held (plainTokens inside t) := by
  rw [← trimmed_prependRaw_joinRaw, ← trimmed_prependRaw_joinRaw, joinRaw_plainTokens]

theorem plainTokens_layout {layout : Text} (h : ∀ c ∈ layout, c = ' ' ∨ c = '\n') (t : Text) :
    plainTokens false (layout ++ t) =
      (layout.map fun c => [c]).map .raw ++ plainTokens false t := by
  induction layout with
  | nil => rfl
  | cons c layout ih =>
      obtain ⟨hc, hlater⟩ := List.forall_mem_cons.mp h
      have hrule : rule? false (c :: (layout ++ t)) = none := by
        rw [rule?_eq_none_iff]
        rcases hc with rfl | rfl <;> rfl
      rw [List.cons_append, plainTokens_of_rule?_none hrule, ih hlater]
      rfl

theorem gather_layout {layout : Text} (h : ∀ c ∈ layout, c = ' ' ∨ c = '\n') {t : Text}
    (hdrop : dropLayout (layout ++ leadingRaw (plainTokens false t)) =
      dropLayout (leadingRaw (plainTokens false t))) :
    gather true [] (tokens ⟨false, layout ++ t⟩) = gather true [] (tokens ⟨false, t⟩) := by
  have hflatten : (layout.map fun c => [c]).flatten = layout := by
    rw [← List.flatMap_def, List.flatMap_singleton']
  rw [gather_tokens, gather_tokens, plainTokens_layout h, gather_map_raw, hflatten,
    List.nil_append]
  exact gather_held_congr _ hdrop

theorem dropLayout_spaces (k : Nat) (t : Text) :
    dropLayout (List.replicate k ' ' ++ t) = dropLayout t := by
  induction k with
  | zero => rfl
  | succ k ih => exact ih

/-! ## Templates that are read alike -/

/-- Both texts have the same tokens, and so the same template, or the same error. -/
structure SameReading (t u : Text) : Prop where
  tokens : tokenize t = tokenize u
  compiled : compile t = compile u
  rendered : ∀ bindings, execute t bindings = execute u bindings

theorem sameReading_of_tokenize {t u : Text} (h : tokenize t = tokenize u) : SameReading t u := by
  have htemplate : Template.ofText t = Template.ofText u := congrArg Template.ofTokens h
  refine ⟨h, ?_, fun bindings => ?_⟩
  · rw [compile, compile, htemplate]
  · rw [execute, execute, htemplate]

theorem tag_of_mem_layoutTags {word : Keyword} (h : .key word ∈ layoutTags) :
    word.tag.head? = some '#' ∧ (Token.key word).inConditionAfter word.inCondition = false ∧
      (Token.key word).dropsLayout = true := by
  refine ⟨?_, ?_, dropsLayout_eq_true_iff.mpr h⟩
  all_goals
    simp only [layoutTags, List.mem_cons, Token.key.injEq, List.not_mem_nil, or_false] at h
    rcases h with rfl | rfl | rfl <;> rfl

/-- Layout behind a tag is no longer there after arranging. -/
theorem sameReading_of_layout {p r layout : Text} {word : Keyword} (hword : .key word ∈ layoutTags)
    (h : FindsBetween p word r) (hlayout : ∀ c ∈ layout, c = ' ' ∨ c = '\n')
    (hdrop : dropLayout (layout ++ leadingRaw (plainTokens false r)) =
      dropLayout (leadingRaw (plainTokens false r))) :
    SameReading (p ++ word.tag ++ (layout ++ r)) (p ++ word.tag ++ r) := by
  obtain ⟨hhash, houtside, hdrops⟩ := tag_of_mem_layoutTags hword
  have hbrace : '}' ∉ layout := by
    intro hmem
    rcases hlayout '}' hmem with heq | heq <;> cases heq
  have hif : ['i', 'f'] <+: layout ++ r → ['i', 'f'] <+: r := by
    cases layout with
    | nil => exact id
    | cons c layout =>
        intro hfront
        obtain ⟨rfl, -⟩ := List.cons_prefix_cons.mp hfront
        rcases hlayout 'i' List.mem_cons_self with heq | heq <;> cases heq
  obtain ⟨front, hfront⟩ :=
    h.exists_front hhash (closeBraces_infix_of_append hbrace) hif
  rw [houtside] at hfront
  apply sameReading_of_tokenize
  rw [tokenize, tokenize, hfront _ (Or.inl rfl), hfront _ (Or.inr rfl), arrange_eq_gather,
    arrange_eq_gather, gather_append_cons rfl, gather_append_cons rfl, hdrops,
    gather_layout hlayout hdrop]

/-- Spaces behind `#then`, `#else` and `#endif`, and one newline after them if the text goes on
with no layout of its own, change neither the tokens of a text nor what it compiles to or how
it renders. -/
theorem sameReading_ownLine {p r : Text} {word : Keyword} (hword : .key word ∈ layoutTags)
    (h : FindsBetween p word r) (k : Nat) :
    SameReading (p ++ word.tag ++ (List.replicate k ' ' ++ r)) (p ++ word.tag ++ r) ∧
    (BeginsPlain r →
      SameReading (p ++ word.tag ++ (List.replicate k ' ' ++ '\n' :: r)) (p ++ word.tag ++ r)) := by
  constructor
  · refine sameReading_of_layout hword h ?_ (dropLayout_spaces k _)
    exact fun c hc => Or.inl (List.eq_of_mem_replicate hc)
  · intro hplain
    have hleading := beginsPlain_of_front hplain (leadingRaw_plainTokens r)
    have happend : List.replicate k ' ' ++ '\n' :: r = List.replicate k ' ' ++ ['\n'] ++ r := by
      simp
    rw [happend]
    refine sameReading_of_layout hword h ?_ ?_
    · intro c hc
      rcases List.mem_append.mp hc with hc | hc
      · exact Or.inl (List.eq_of_mem_replicate hc)
      · exact Or.inr (List.mem_singleton.mp hc)
    · rw [List.append_assoc, dropLayout_spaces, List.singleton_append, dropLayout_newline,
        dropLayout_of_beginsPlain hleading]

/-- Braces that are never closed. -/
def openBracesText : Text := "#if {{a}} #then ".toList ++ openBraces ++ ['b']

/-- Behind `#else` its first letter is one of `#elseif`. -/
def brokenIfText : Text := 'i' :: '}' :: "f#endif".toList

theorem sameReading_openBracesText :
    .key .elseTag ∈ layoutTags ∧ FindsBetween openBracesText .elseTag brokenIfText ∧
    BeginsPlain brokenIfText ∧
    SameReading (openBracesText ++ Keyword.elseTag.tag ++ "  \n".toList ++ brokenIfText)
      (openBracesText ++ Keyword.elseTag.tag ++ brokenIfText) := by
  have hfinds : FindsBetween openBracesText .elseTag brokenIfText :=
    ⟨6, by decide +kernel, by decide +kernel⟩
  have hplain : BeginsPlain brokenIfText := ⟨by decide, by decide⟩
  have hword : .key .elseTag ∈ layoutTags := by decide
  exact ⟨hword, hfinds, hplain, (sameReading_ownLine hword hfinds 2).2 hplain⟩

end Stencil
