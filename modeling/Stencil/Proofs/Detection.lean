import Stencil.Detect
import Stencil.Proofs.Sources

/-!
# Detected texts

Detection is a search for the pattern, and by `Pattern.IsSearch.eq_detect` there is no
other. A text in which it is found has a token that is more than literal text, and a name
in braces that is written on one line is found.
-/

namespace Stencil

/-! ## The pattern -/

namespace Pattern

theorem matches_oneOrMore_dot {u : Text} : (oneOrMore dot).Matches u ↔ u ≠ [] ∧ '\n' ∉ u := by
  constructor
  · rintro ⟨parts, hne, hparts, rfl⟩
    constructor
    · intro hnil
      obtain ⟨v, hv⟩ := List.exists_mem_of_ne_nil parts hne
      obtain ⟨c, -, rfl⟩ := hparts v hv
      exact List.cons_ne_nil c [] (List.flatten_eq_nil_iff.mp hnil _ hv)
    · intro hmem
      obtain ⟨v, hv, hnewline⟩ := List.mem_flatten.mp hmem
      obtain ⟨c, hc, rfl⟩ := hparts v hv
      exact hc (List.mem_singleton.mp hnewline).symm
  · rintro ⟨hne, hline⟩
    refine ⟨u.map fun c => [c], by simpa using hne, ?_, by
      rw [← List.flatMap_def, List.flatMap_singleton']⟩
    intro v hv
    obtain ⟨c, hc, rfl⟩ := List.mem_map.mp hv
    refine ⟨c, ?_, rfl⟩
    rintro rfl
    exact hline hc

theorem matches_braced {u : Text} :
    braced.Matches u ↔ ∃ inner, inner ≠ [] ∧ '\n' ∉ inner ∧ u = bracedName inner := by
  constructor
  · rintro ⟨_, _, rfl, rfl, inner, _, rfl, hinner, rfl⟩
    obtain ⟨hne, hline⟩ := matches_oneOrMore_dot.mp hinner
    exact ⟨inner, hne, hline, by simp [bracedName]⟩
  · rintro ⟨inner, hne, hline, rfl⟩
    refine ⟨openBraces, inner ++ closeBraces, by simp [bracedName], rfl, ?_⟩
    exact ⟨inner, closeBraces, rfl, matches_oneOrMore_dot.mpr ⟨hne, hline⟩, rfl⟩

/-- Where a condition begins with braces, the braces alone are found as well. -/
theorem foundIn_markup_iff {t : Text} : markup.FoundIn t ↔ braced.FoundIn t := by
  constructor
  · rintro ⟨u, hu, hbraced | ⟨v, w, rfl, -, hbraced⟩⟩
    · exact ⟨u, hu, hbraced⟩
    · exact ⟨w, (List.infix_append' v w []).trans (by simpa using hu), hbraced⟩
  · rintro ⟨u, hu, hbraced⟩
    exact ⟨u, hu, Or.inl hbraced⟩

end Pattern

/-! ## Detection searches for it -/

theorem closesOnLine_iff {t : Text} :
    closesOnLine t = true ↔ ∃ line, '\n' ∉ line ∧ line ++ closeBraces <+: t := by
  induction t with
  | nil => simp [closesOnLine, closeBraces]
  | cons c t ih =>
      simp only [closesOnLine, Bool.or_eq_true, Bool.and_eq_true, decide_eq_true_eq, ih,
        List.isPrefixOf_iff_prefix]
      constructor
      · rintro (hclose | ⟨hc, line, hline, hclose⟩)
        · exact ⟨[], List.not_mem_nil, hclose⟩
        · refine ⟨c :: line, by simp [hline, Ne.symm hc], ?_⟩
          exact List.cons_prefix_cons.mpr ⟨rfl, hclose⟩
      · rintro ⟨line, hline, hclose⟩
        cases line with
        | nil => exact Or.inl hclose
        | cons d line =>
            obtain ⟨rfl, hlater⟩ := List.cons_prefix_cons.mp hclose
            obtain ⟨hd, hline⟩ := List.ne_and_not_mem_of_not_mem_cons hline
            exact Or.inr ⟨Ne.symm hd, line, hline, hlater⟩

theorem bracesOnLine_iff {t : Text} :
    bracesOnLine t = true ↔
      ∃ inner, inner ≠ [] ∧ '\n' ∉ inner ∧ bracedName inner <+: t := by
  constructor
  · intro h
    unfold bracesOnLine at h
    split at h
    · next c after =>
        simp only [Bool.and_eq_true, decide_eq_true_eq] at h
        obtain ⟨line, hline, rest, rfl⟩ := closesOnLine_iff.mp h.2
        refine ⟨c :: line, by simp, by simp [hline, Ne.symm h.1], rest, ?_⟩
        simp [bracedName, openBraces]
    · cases h
  · rintro ⟨inner, hne, hline, rest, rfl⟩
    cases inner with
    | nil => exact absurd rfl hne
    | cons c inner =>
        obtain ⟨hc, hline⟩ := List.ne_and_not_mem_of_not_mem_cons hline
        have hclose : closesOnLine (inner ++ closeBraces ++ rest) = true :=
          closesOnLine_iff.mpr ⟨inner, hline, List.prefix_append _ _⟩
        simp only [bracedName, openBraces, List.append_assoc, List.cons_append, List.nil_append,
          bracesOnLine, Bool.and_eq_true, decide_eq_true_eq]
        exact ⟨Ne.symm hc, by simpa using hclose⟩

theorem detect_iff {t : Text} :
    detect t = true ↔ ∃ inner, inner ≠ [] ∧ '\n' ∉ inner ∧ bracedName inner <:+: t := by
  induction t with
  | nil => simp [detect, bracedName, openBraces]
  | cons c t ih =>
      simp only [detect, Bool.or_eq_true, bracesOnLine_iff, ih, List.infix_cons_iff]
      constructor
      · rintro (⟨inner, hne, hline, h⟩ | ⟨inner, hne, hline, h⟩)
        · exact ⟨inner, hne, hline, Or.inl h⟩
        · exact ⟨inner, hne, hline, Or.inr h⟩
      · rintro ⟨inner, hne, hline, h | h⟩
        · exact Or.inl ⟨inner, hne, hline, h⟩
        · exact Or.inr ⟨inner, hne, hline, h⟩

theorem isSearch_detect : Pattern.markup.IsSearch detect := by
  intro t
  rw [Pattern.foundIn_markup_iff, detect_iff]
  constructor
  · rintro ⟨inner, hne, hline, h⟩
    exact ⟨_, h, Pattern.matches_braced.mpr ⟨inner, hne, hline, rfl⟩⟩
  · rintro ⟨u, h, hu⟩
    obtain ⟨inner, hne, hline, rfl⟩ := Pattern.matches_braced.mp hu
    exact ⟨inner, hne, hline, h⟩

/-- Whatever searches for the pattern detects the same texts. -/
theorem Pattern.IsSearch.eq_detect {isMatch : Text → Bool} (h : markup.IsSearch isMatch) :
    isMatch = detect := by
  funext t
  exact Bool.eq_iff_iff.mpr ((h t).trans (isSearch_detect t).symm)

/-! ## Tokens of a detected text -/

/-- The token is a placeholder, or a tag that a condition follows. -/
def Token.isMarkup : Token → Bool
  | placeholder _ | key .ifTag | key .elseIfTag => true
  | _ => false

theorem Token.isRaw_of_isMarkup {token : Token} (h : token.isMarkup = true) :
    token.isRaw = false := by
  cases token with
  | raw text => cases h
  | _ => rfl

/-- No tag contains a brace, so open braces stand before a tag or after it. -/
theorem eq_tag_append_of_openBraces {word : Keyword} {rest before after : Text}
    (h : word.tag ++ rest = before ++ openBraces ++ after) :
    ∃ before', rest = before' ++ openBraces ++ after := by
  have hbrace : '{' ∉ word.tag := by
    cases word with
    | connective op => cases op <;> decide
    | _ => decide
  rw [List.append_assoc] at h
  rcases List.append_eq_append_iff.mp h with ⟨before', rfl, hrest⟩ | ⟨t, htag, hopen⟩
  · exact ⟨before', by rw [hrest, List.append_assoc]⟩
  · cases t with
    | nil => exact ⟨[], by simpa using hopen.symm⟩
    | cons c t =>
        obtain ⟨rfl, -⟩ := List.cons_eq_cons.mp hopen
        exact absurd (by simp [htag]) hbrace

/-- Outside a condition no braces that are closed further on are passed over. -/
theorem exists_isMarkup_of_scans {inside : Bool} {t : Text} {tokens : List Token}
    (h : Scanner.Scans inside t tokens) (houtside : inside = false) :
    ∀ {before after : Text}, t = before ++ openBraces ++ after → closeBraces <:+: after →
      ∃ token ∈ tokens, token.isMarkup = true := by
  induction h with
  | nil inside =>
      intro before after heq
      simp [openBraces] at heq
  | @begins inside t source rest token tokens hbegins h ih =>
      subst houtside
      intro before after heq hclose
      rcases Scanner.begins?_cases hbegins with ⟨inner, _, -, -, rfl⟩ | ⟨word, hword, rfl, rfl⟩
      · exact ⟨_, List.mem_cons_self, rfl⟩
      · cases word with
        | ifTag | elseIfTag => exact ⟨_, List.mem_cons_self, rfl⟩
        -- the other tags outside lead into no condition
        | elseTag | endIfTag =>
            obtain ⟨before', hrest⟩ := eq_tag_append_of_openBraces heq
            obtain ⟨token, hmem, htoken⟩ := ih rfl hrest hclose
            exact ⟨token, List.mem_cons_of_mem _ hmem, htoken⟩
        | openParen | closeParen | notOp | connective op | thenTag => cases hword
  | @literal inside c t tokens hbegins hmark h ih =>
      intro before after heq hclose
      cases before with
      | nil =>
          have hnone := (Scanner.begins?_eq_none_iff.mp hbegins).1 after heq
          exact absurd hclose (splitAtClose_eq_none_iff.mp hnone)
      | cons d before =>
          obtain ⟨rfl, hrest⟩ := List.cons_eq_cons.mp heq
          obtain ⟨token, hmem, htoken⟩ := ih houtside hrest hclose
          exact ⟨token, (mem_prependRaw (Token.isRaw_of_isMarkup htoken)).mpr hmem, htoken⟩
  | noise => cases houtside

theorem exists_isMarkup_of_detect {t : Text} (h : detect t = true) :
    ∃ token ∈ (Scanner.ofText t).tokens, token.isMarkup = true := by
  obtain ⟨inner, -, -, before, after, heq⟩ := detect_iff.mp h
  have hopen : t = before ++ openBraces ++ (inner ++ closeBraces ++ after) := by
    simp [← heq, bracedName]
  obtain ⟨token, hmem, htoken⟩ := exists_isMarkup_of_scans
    (Scanner.scans_joinRaw_tokens false t) rfl hopen ⟨inner, after, rfl⟩
  exact ⟨token, (mem_joinRaw (Token.isRaw_of_isMarkup htoken)).mp hmem, htoken⟩

/-- A text is detected if the pattern is found in it, that is if it holds braces around
something on one line. Then it has a placeholder or a tag that leads into a condition,
before and after its tokens are arranged. Every name in the text has a source in braces,
and if that is on one line and not empty the text is detected. -/
theorem detect_iff_markup (t : Text) :
    (detect t = true ↔ Pattern.markup.FoundIn t) ∧
    (detect t = true ↔ ∃ before inner after : Text, inner ≠ [] ∧ '\n' ∉ inner ∧
      t = before ++ openBraces ++ inner ++ closeBraces ++ after) ∧
    (detect t = true → ∃ token, token.isMarkup = true ∧ token ∈ (Scanner.ofText t).tokens ∧
      token ∈ tokenize t) ∧
    ∀ lexeme ∈ (Scanner.ofText t).lexemes, ∀ name,
      lexeme.token = .placeholder name ∨ lexeme.token = .flag name →
        ∃ inner : Text, lexeme.source = openBraces ++ inner ++ closeBraces ∧ name = inner.trim ∧
          (inner ≠ [] → '\n' ∉ inner → detect t = true) := by
  refine ⟨isSearch_detect t, ?_, ?_, ?_⟩
  · rw [detect_iff]
    constructor
    · rintro ⟨inner, hne, hline, before, after, rfl⟩
      exact ⟨before, inner, after, hne, hline, by simp [bracedName]⟩
    · rintro ⟨before, inner, after, hne, hline, rfl⟩
      exact ⟨inner, hne, hline, before, after, by simp [bracedName]⟩
  · intro h
    obtain ⟨token, hmem, htoken⟩ := exists_isMarkup_of_detect h
    exact ⟨token, htoken, hmem, (mem_arrange (Token.isRaw_of_isMarkup htoken)).mpr hmem⟩
  · intro lexeme hmem name hname
    obtain ⟨inner, hsource, htrim⟩ := (Scanner.standsFor_of_mem hmem).exists_inner hname
    refine ⟨inner, hsource, htrim, ?_⟩
    intro hne hline
    exact detect_iff.mpr ⟨inner, hne, hline, hsource ▸ Scanner.source_infix_of_mem hmem⟩

/-- Braces that are closed at once, and once more further on. -/
def emptyNameText : Text := ['{', '{', '}', '}', 'x', '}', '}']

/-- What is found reaches past the name, which is empty. -/
theorem detect_emptyNameText :
    detect emptyNameText = true ∧ Pattern.markup.FoundIn emptyNameText ∧
      ∃ token, token.isMarkup = true ∧ token ∈ (Scanner.ofText emptyNameText).tokens ∧
        token ∈ tokenize emptyNameText := by
  have hdetect : detect emptyNameText = true := by decide
  obtain ⟨hpattern, -, htoken, -⟩ := detect_iff_markup emptyNameText
  exact ⟨hdetect, hpattern.mp hdetect, htoken hdetect⟩

end Stencil
