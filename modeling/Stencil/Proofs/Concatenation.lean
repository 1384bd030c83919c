import Stencil.Proofs.Anchoring
import Stencil.Proofs.Gathering
import Stencil.Proofs.Joining
import Stencil.Proofs.Names
import Stencil.Proofs.PlainScanning

/-!
# Texts one after the other

When two templates are put together they render as they do apart, provided that nothing
forms where they meet. The first one leaves no condition open, so the plain scanner
reads the second one as it would alone; it closes all its braces, so nothing after it is
taken for a name; and the second one does not begin with what a tag before it would drop.
-/

namespace Stencil

open Grammar Scanner

/-! ## What can form where two texts meet -/

/-- The mark begins at the end of `t` and goes on into `u`. -/
def Straddles (mark t u : Text) : Prop :=
  ∃ n < mark.length, 0 < n ∧ mark.take n <:+ t ∧ mark.drop n <+: u

instance (mark t u : Text) : Decidable (Straddles mark t u) :=
  inferInstanceAs (Decidable (∃ n < mark.length, 0 < n ∧ mark.take n <:+ t ∧ mark.drop n <+: u))

/-- All open braces in the text are closed in it. -/
def Closed (t : Text) : Prop := ∀ after, openBraces ++ after <:+ t → closeBraces <:+: after

instance (t : Text) : Decidable (Closed t) :=
  decidable_of_iff
    (∀ rest ∈ t.tails, openBraces <+: rest → closeBraces <:+: rest.drop openBraces.length) <| by
    constructor
    · intro h after hafter
      have hclose := h _ ((List.mem_tails _ _).mpr hafter) (List.prefix_append _ _)
      rwa [List.drop_left] at hclose
    · rintro h rest hrest ⟨after, rfl⟩
      rw [List.drop_left]
      exact h after ((List.mem_tails _ _).mp hrest)

/-- Neither braces nor tags that are known outside conditions form where the texts meet,
and all that the first one opens it closes. -/
structure Separable (t u : Text) : Prop where
  closed : Closed t
  braces : ¬ Straddles openBraces t u
  tags : ∀ word : Keyword, word.inCondition = false → ¬ Straddles word.tag t u

theorem Straddles.of_suffix {mark t t' u : Text} (h : Straddles mark t' u) (ht : t' <:+ t) :
    Straddles mark t u := by
  obtain ⟨n, hlt, hpos, hleft, hright⟩ := h
  exact ⟨n, hlt, hpos, hleft.trans ht, hright⟩

theorem Separable.of_suffix {t t' u : Text} (h : Separable t u) (ht : t' <:+ t) :
    Separable t' u where
  closed := fun after hafter => h.closed after (hafter.trans ht)
  braces := fun hstraddles => h.braces (hstraddles.of_suffix ht)
  tags := fun word hword hstraddles => h.tags word hword (hstraddles.of_suffix ht)

/-- A mark in front of both texts is in front of the first one, or goes on into the second. -/
theorem prefix_append_cases {mark t u : Text} (h : mark <+: t ++ u) :
    mark <+: t ∨ ∃ more, more ≠ [] ∧ mark = t ++ more ∧ more <+: u := by
  obtain ⟨rest, hrest⟩ := h
  rcases List.append_eq_append_iff.mp hrest with ⟨more, rfl, -⟩ | ⟨more, rfl, rfl⟩
  · exact Or.inl (List.prefix_append _ _)
  · by_cases hmore : more = []
    · subst hmore
      exact Or.inl (by simp)
    · exact Or.inr ⟨more, hmore, rfl, List.prefix_append _ _⟩

theorem straddles_of_append {t more u : Text} (ht : t ≠ []) (hmore : more ≠ [])
    (hu : more <+: u) : Straddles (t ++ more) t u := by
  have hpos := List.length_pos_iff.mpr ht
  have hpos' := List.length_pos_iff.mpr hmore
  refine ⟨t.length, by simp only [List.length_append]; omega, hpos, ?_, ?_⟩
  · rw [List.take_left]
  · rwa [List.drop_left]

theorem prefix_of_not_straddles {mark t u : Text} (h : ¬ Straddles mark t u) (ht : t ≠ [])
    (hfront : mark <+: t ++ u) : mark <+: t := by
  rcases prefix_append_cases hfront with hfront | ⟨more, hmore, rfl, hu⟩
  · exact hfront
  · exact absurd (straddles_of_append ht hmore hu) h

/-! ## Tags of conditions -/

theorem length_tag_le {word : Keyword} (h : word.inCondition = true) :
    word.tag.length ≤ Keyword.thenTag.tag.length := by
  cases word with
  | connective op => cases op <;> decide
  | openParen | closeParen | notOp | thenTag => decide
  | ifTag | elseIfTag | elseTag | endIfTag => cases h

/-- A tag in front of both texts is in front of the first. If it is one of a condition and
the text goes on with it, the text is too short to leave the condition. -/
theorem tag_prefix_of_append {inside : Bool} {t u : Text} (h : Separable t u) (ht : t ≠ [])
    (hmode : modeAfter inside (plainTokens inside t) = false) {word : Keyword}
    (hword : word.inCondition = true → inside = true) (hfront : word.tag <+: t ++ u) :
    word.tag <+: t := by
  cases hinside : word.inCondition with
  | false => exact prefix_of_not_straddles (h.tags word hinside) ht hfront
  | true =>
      obtain rfl := hword hinside
      rcases prefix_append_cases hfront with hfront | ⟨more, hmore, heq, -⟩
      · exact hfront
      · have hthen := (tag_infix_of_mem (thenTag_mem_of_modeAfter hmode)).length_le
        have htag := length_tag_le hinside
        have hpos := List.length_pos_iff.mpr hmore
        rw [heq, List.length_append] at htag
        omega

/-! ## The same rule applies -/

theorem bracedAt?_append {t u : Text} (h : Separable t u) (ht : t ≠ []) :
    bracedAt? (t ++ u) = (bracedAt? t).map fun (inner, rest) => (inner, rest ++ u) := by
  by_cases hopen : openBraces <+: t
  · obtain ⟨after, rfl⟩ := hopen
    have hclose := h.closed after (List.suffix_refl _)
    show splitAtClose (after ++ u) = (splitAtClose after).map _
    cases hsplit : splitAtClose after with
    | none => exact absurd hclose (splitAtClose_eq_none_iff.mp hsplit)
    | some found => rw [splitAtClose_append_right hsplit]; rfl
  · have hopen' : ¬ openBraces <+: t ++ u :=
      fun hfront => hopen (prefix_of_not_straddles h.braces ht hfront)
    rw [bracedAt?_eq_none hopen, bracedAt?_eq_none hopen']
    rfl

theorem read?_append {inside : Bool} {t u : Text} (h : Separable t u) (ht : t ≠ [])
    (hmode : modeAfter inside (plainTokens inside t) = false) {rule : Rule}
    (hrule : rule.allowed inside = true) :
    rule.read? (t ++ u) = (rule.read? t).map fun (token, rest) => (token, rest ++ u) := by
  cases rule with
  | placeholder | flag =>
      rw [Rule.read?, Rule.read?, bracedAt?_append h ht, Option.map_map, Option.map_map]
      rfl
  | key word =>
      have hword : word.inCondition = true → inside = true := by
        intro hinside
        rw [Rule.allowed, hinside] at hrule
        simpa using hrule
      rw [Rule.read?, Rule.read?]
      by_cases hfront : word.tag <+: t
      · obtain ⟨rest, rfl⟩ := hfront
        simp
      · have hfront' : ¬ word.tag <+: t ++ u :=
          fun hfront' => hfront (tag_prefix_of_append h ht hmode hword hfront')
        rw [if_neg (by simpa using hfront'), if_neg (by simpa using hfront)]
        rfl

theorem rule?_append {inside : Bool} {t u : Text} (h : Separable t u) (ht : t ≠ [])
    (hmode : modeAfter inside (plainTokens inside t) = false) :
    rule? inside (t ++ u) = (rule? inside t).map fun (token, rest) => (token, rest ++ u) := by
  rw [rule?, rule?, List.map_findSome?, ← List.head?_filterMap, ← List.head?_filterMap]
  congr 1
  apply List.filterMap_congr
  intro rule hrule
  exact read?_append h ht hmode (List.of_mem_filter hrule)

theorem atMark_append {t u : Text} (h : Separable t u) (ht : t ≠ [])
    (hmode : modeAfter true (plainTokens true t) = false) : atMark (t ++ u) = atMark t := by
  rw [Bool.eq_iff_iff, atMark_iff, atMark_iff]
  constructor
  · rintro (hopen | ⟨word, hword, hfront⟩)
    · exact Or.inl (prefix_of_not_straddles h.braces ht hopen)
    · exact Or.inr ⟨word, hword, tag_prefix_of_append h ht hmode (fun _ => rfl) hfront⟩
  · rintro (hopen | ⟨word, hword, hfront⟩)
    · exact Or.inl (hopen.trans (List.prefix_append _ _))
    · exact Or.inr ⟨word, hword, hfront.trans (List.prefix_append _ _)⟩

/-- Where no rule applies the first character is noise or literal as before. -/
theorem plainTokens_cons_append {inside : Bool} {c : Char} {t u : Text}
    (h : Separable (c :: t) u) (hmode : modeAfter inside (plainTokens inside (c :: t)) = false)
    (hrule : rule? inside (c :: t) = none) :
    plainTokens inside (c :: t ++ u) =
      if inside && !atMark (c :: t) then plainTokens inside (t ++ u)
      else .raw [c] :: plainTokens inside (t ++ u) := by
  have hne := List.cons_ne_nil c t
  have happend := rule?_append h hne hmode
  rw [hrule] at happend
  have hnoise : (inside && !atMark (c :: t ++ u)) = (inside && !atMark (c :: t)) := by
    cases inside with
    | false => rfl
    | true => rw [atMark_append h hne hmode]
  rw [List.cons_append] at happend hnoise ⊢
  rw [plainTokens_of_rule?_none happend, hnoise]

/-! ## The tokens of both texts -/

/-- The plain scanner goes through the first text as if nothing came after it. -/
theorem plainTokens_append {inside : Bool} {t u : Text} (h : Separable t u)
    (hmode : modeAfter inside (plainTokens inside t) = false) :
    plainTokens inside (t ++ u) = plainTokens inside t ++ plainTokens false u := by
  fun_induction plainTokens inside t with
  | case1 inside t token rest hrule ih =>
      have ht : t ≠ [] := by
        rintro rfl
        exact absurd (rule?_shorter hrule) (Nat.not_lt_zero _)
      have happend := rule?_append h ht (by rwa [plainTokens_of_rule? hrule])
      rw [hrule] at happend
      rw [plainTokens_of_rule? happend, ih (h.of_suffix (suffix_of_rule? hrule)) hmode]
      rfl
  | case2 inside hrule =>
      obtain rfl : inside = false := hmode
      rfl
  | case3 inside c rest hrule hnoise ih =>
      have hmode' : modeAfter inside (plainTokens inside (c :: rest)) = false := by
        rwa [plainTokens_of_rule?_none hrule, if_pos hnoise]
      rw [plainTokens_cons_append h hmode' hrule, if_pos hnoise,
        ih (h.of_suffix (List.suffix_cons c rest)) hmode]
  | case4 inside c rest hrule hnoise ih =>
      have hmode' : modeAfter inside (plainTokens inside (c :: rest)) = false := by
        rwa [plainTokens_of_rule?_none hrule, if_neg hnoise]
      rw [plainTokens_cons_append h hmode' hrule, if_neg hnoise,
        ih (h.of_suffix (List.suffix_cons c rest)) hmode]
      rfl

theorem leadingRaw_plainTokens (u : Text) : leadingRaw (plainTokens false u) <+: u := by
  cases hrule : rule? false u with
  | some found =>
      obtain ⟨token, rest⟩ := found
      obtain ⟨source, hbegins⟩ := exists_begins?_of_rule? hrule
      have hhead : ∀ more after, plainTokens false u ≠ .raw more :: after := by
        intro more after heq
        rw [plainTokens_of_rule? hrule] at heq
        cases heq
        cases isRaw_of_begins? hbegins
      rw [leadingRaw_of_head hhead]
      exact List.nil_prefix
  | none =>
      cases u with
      | nil =>
          rw [plainTokens_nil]
          exact List.nil_prefix
      | cons c u =>
          rw [plainTokens_of_rule?_none hrule]
          exact List.cons_prefix_cons.mpr ⟨rfl, leadingRaw_plainTokens u⟩
termination_by u.length

theorem beginsPlain_of_front {t u : Text} (h : BeginsPlain u) (ht : t <+: u) : BeginsPlain t := by
  obtain ⟨rest, rfl⟩ := ht
  cases t with
  | nil => exact ⟨by simp, by simp⟩
  | cons c t => exact h

theorem modeAfter_settle_append (inside afterTag : Bool) (held : Text) (rest : List Token) :
    modeAfter inside (settle afterTag held ++ rest) = modeAfter inside rest := by
  rw [settle]
  generalize (if afterTag then dropLayout held else held) = text
  by_cases h : text = []
  · rw [h]
    rfl
  · rw [rawTokens_of_ne_nil h]
    rfl

/-- Arranging leaves the mode as it is. -/
theorem modeAfter_gather (tokens : List Token) : ∀ (inside afterTag : Bool) (held : Text),
    modeAfter inside (gather afterTag held tokens) = modeAfter inside tokens := by
  induction tokens with
  | nil =>
      intro inside afterTag held
      have h := modeAfter_settle_append inside afterTag held []
      rw [List.append_nil] at h
      exact h
  | cons token tokens ih =>
      intro inside afterTag held
      cases token with
      | raw text => exact ih inside afterTag (held ++ text)
      | placeholder _ | flag _ | key _ =>
          rw [gather_cons rfl, modeAfter_settle_append, modeAfter_cons, modeAfter_cons, ih]

/-- A text whose tokens are statements leaves no condition open. -/
theorem modeAfter_plainTokens {t : Text} {template : Template}
    (h : Statements true (tokenize t) template) :
    modeAfter false (plainTokens false t) = false := by
  have hmode : modeAfter false (tokenize t) = modeAfter false (plainTokens false t) := by
    rw [← arrange_plainTokens, arrange_eq_gather, modeAfter_gather]
  rw [← hmode]
  cases hopen : modeAfter false (tokenize t) with
  | false => rfl
  | true =>
      -- a flag could follow, but no flag stands after statements
      have hflag : Modal false (tokenize t ++ [.flag []]) := by
        refine modal_append.mpr ⟨modal_tokenize t, ?_⟩
        rw [hopen]
        exact ⟨rfl, trivial⟩
      have hstatements := statements_of_ofTokens (ofTokens_of_statements h)
      exact Bool.noConfusion (statements_of_modal hstatements _ hflag).2.1

theorem tokenize_append {t u : Text} (h : Separable t u) (hu : BeginsPlain u)
    (hmode : modeAfter false (plainTokens false t) = false) :
    tokenize (t ++ u) = joinRaw (tokenize t ++ tokenize u) := by
  rw [← arrange_plainTokens, ← arrange_plainTokens, ← arrange_plainTokens,
    plainTokens_append h hmode]
  exact arrange_append _ (beginsPlain_of_front hu (leadingRaw_plainTokens u))

/-! ## Rendering -/

/-- Two texts that both render, put one after the other, render to what they render to
apart. -/
theorem execute_append {t u : Text} {bindings : Bindings} {rendered more : Text}
    (ht : execute t bindings = .ok rendered) (hu : execute u bindings = .ok more)
    (h : Separable t u) (hplain : BeginsPlain u) :
    execute (t ++ u) bindings = .ok (rendered ++ more) := by
  obtain ⟨template, htemplate, rfl⟩ := execute_eq_ok_iff.mp ht
  obtain ⟨other, hother, rfl⟩ := execute_eq_ok_iff.mp hu
  obtain ⟨joined, hjoined, hrender⟩ :=
    exists_statements_joinRaw (Statements.append hother htemplate)
  rw [execute_eq_ok_iff, tokenize_append h hplain (modeAfter_plainTokens htemplate)]
  exact ⟨joined, hjoined, (hrender bindings).trans (Template.render_append bindings _ _)⟩

/-- Its last tag asks for layout to be dropped, and it ends in a brace. -/
def blockText : Text :=
  ['#', 'i', 'f', ' ', '{', '{', 'a', '}', '}', ' ', '#', 't', 'h', 'e', 'n', ' ', '{', '{',
    'b', '}', '}', '#', 'e', 'n', 'd', 'i', 'f', ' ', '}']

/-- It begins with a brace. -/
def braceText : Text := ['}', '{', '{', 'b', '}', '}', '(', '{', '{']

theorem separable_blockText : Separable blockText braceText where
  closed := by decide
  braces := by decide
  tags := by
    intro word hword
    cases word with
    | ifTag | elseIfTag | elseTag | endIfTag => decide
    | openParen | closeParen | notOp | connective op | thenTag => cases hword

theorem execute_blockText_append :
    let bindings : Bindings := .ofList [(['a'], .flag true), (['b'], .text ['v'])]
    Separable blockText braceText ∧ BeginsPlain braceText ∧
      execute blockText bindings = .ok ['v', '}'] ∧
      execute braceText bindings = .ok ['}', 'v', '(', '{', '{'] ∧
      execute (blockText ++ braceText) bindings = .ok ['v', '}', '}', 'v', '(', '{', '{'] := by
  intro bindings
  have hblock : execute blockText bindings = .ok ['v', '}'] := by with_unfolding_all rfl
  have hbrace : execute braceText bindings = .ok ['}', 'v', '(', '{', '{'] := by
    with_unfolding_all rfl
  have hplain : BeginsPlain braceText := ⟨by decide, by decide⟩
  exact ⟨separable_blockText, hplain, hblock, hbrace,
    execute_append hblock hbrace separable_blockText hplain⟩

end Stencil
