import Mathlib.Data.List.Induction
import Stencil.Proofs.Modes
import Stencil.Proofs.Sources

/-!
# The discipline of the two modes

The scanner is inside a condition exactly if the last of the `#if`, `#elseif` and `#then` it
found is no `#then`. So each kind of token has its side, and two conditions never follow one
another without a `#then` between them. Literal text inside a condition is only ever the first
character of a mark that means nothing there.
-/

namespace Stencil

/-! ## Open conditions -/

namespace Token

/-- Whether the token leads into a condition or out of one. -/
def switches : Token → Bool
  | key .ifTag | key .elseIfTag | key .thenTag => true
  | _ => false

/-- Whether the token belongs inside conditions. Literal text has no side of its own. -/
def ofCondition : Token → Bool
  | flag _ => true
  | key word => word.inCondition
  | raw _ | placeholder _ => false

theorem allowed_eq {token : Token} (h : token.isRaw = false) (inside : Bool) :
    token.allowed inside = (token.ofCondition == inside) := by
  cases token with
  | raw text => cases h
  | placeholder name | flag name => cases inside <;> rfl
  | key word => rfl

theorem inConditionAfter_of_switches {token : Token} (h : token.switches = true)
    (inside : Bool) : token.inConditionAfter inside = true ↔ token ≠ .key .thenTag := by
  cases token with
  | key word =>
      cases word with
      | ifTag | elseIfTag | thenTag => simp [inConditionAfter]
      | _ => cases h
  | raw _ | placeholder _ | flag _ => cases h

theorem inConditionAfter_of_not_switches {token : Token} (h : token.switches = false)
    (inside : Bool) : token.inConditionAfter inside = inside := by
  cases token with
  | key word =>
      cases word with
      | ifTag | elseIfTag | thenTag => cases h
      | _ => rfl
  | raw _ | placeholder _ | flag _ => rfl

end Token

/-- The last of the tokens that leads into a condition or out of one leads into one. -/
def OpensCondition (tokens : List Token) : Prop :=
  ∃ token, (tokens.filter Token.switches).getLast? = some token ∧ token ≠ .key .thenTag

theorem opensCondition_iff (tokens : List Token) :
    OpensCondition tokens ↔ modeAfter false tokens = true := by
  induction tokens using List.reverseRecOn with
  | nil => simp [OpensCondition]
  | append_singleton tokens token ih =>
      rw [modeAfter_snoc]
      cases hswitch : token.switches with
      | true =>
          rw [Token.inConditionAfter_of_switches hswitch]
          simp [OpensCondition, List.filter_append, hswitch]
      | false =>
          rw [Token.inConditionAfter_of_not_switches hswitch, ← ih]
          simp [OpensCondition, List.filter_append, hswitch]

/-- The tags that begin a condition. -/
def conditionTags : List Token := [.key .ifTag, .key .elseIfTag]

/-- Every token but literal text stands on its side, and a condition that was begun is ended
before another one is. -/
structure Disciplined (tokens : List Token) : Prop where
  stands : ∀ before token after, tokens = before ++ token :: after → token.isRaw = false →
    (OpensCondition before ↔ token.ofCondition = true)
  ended : ∀ before opener middle later after,
    tokens = before ++ opener :: (middle ++ later :: after) →
      opener ∈ conditionTags → later ∈ conditionTags → .key .thenTag ∈ middle

theorem disciplined_of_modal {tokens : List Token} (h : Modal false tokens) :
    Disciplined tokens where
  stands := by
    rintro before token after rfl hsolid
    have hallowed := (modal_append.mp h).2.1
    rw [Token.allowed_eq hsolid, beq_iff_eq] at hallowed
    rw [opensCondition_iff, hallowed]
  ended := by
    rintro before opener middle later after rfl hopener hlater
    have hinside : opener.inConditionAfter (modeAfter false before) = true := by
      rcases List.mem_pair.mp hopener with rfl | rfl <;> rfl
    have hmodal := (modal_append.mp h).2.2
    rw [hinside] at hmodal
    have hallowed := (modal_append.mp hmodal).2.1
    apply thenTag_mem_of_modeAfter
    rcases List.mem_pair.mp hlater with rfl | rfl <;> exact (beq_iff_eq.mp hallowed).symm

/-! ## Marks that mean nothing in a condition -/

/-- At the head of the text stands a mark that begins with this character and means nothing
inside a condition: braces that are never closed, or the tag of a block. -/
def DeadMark (c : Char) (t : Text) : Prop :=
  c = '{' ∧ (∃ after, t = openBraces ++ after ∧ ¬ closeBraces <:+: after) ∨
  c = '#' ∧ ∃ word : Keyword, (word = .ifTag ∨ word = .elseTag ∨ word = .endIfTag) ∧
    word.tag <+: t

theorem blockTag_cases {word : Keyword} (h : word.inCondition = false) (hne : word ≠ .elseIfTag) :
    word = .ifTag ∨ word = .elseTag ∨ word = .endIfTag := by
  cases word with
  | elseIfTag => exact absurd rfl hne
  | ifTag | elseTag | endIfTag => simp
  | openParen | closeParen | notOp | connective _ | thenTag => cases h

namespace Scanner

theorem deadMark_of_begins?_none {c : Char} {t : Text} (hmark : atMark (c :: t) = true)
    (h : begins? true (c :: t) = none) : DeadMark c (c :: t) := by
  obtain ⟨hbraces, hwords⟩ := begins?_eq_none_iff.mp h
  rcases atMark_iff.mp hmark with ⟨after, hafter⟩ | ⟨word, hne, hword⟩
  · left
    have hopen := splitAtClose_eq_none_iff.mp (hbraces after hafter.symm)
    cases hafter
    exact ⟨rfl, after, rfl, hopen⟩
  · right
    have houtside : word.inCondition = false := by
      by_contra hinside
      exact hwords word (by simpa using hinside) hword
    have hblock := blockTag_cases houtside hne
    refine ⟨?_, word, hblock, hword⟩
    obtain ⟨rest, hrest⟩ := hword
    rcases hblock with rfl | rfl | rfl <;> cases hrest <;> rfl

theorem begins?_none_of_deadMark {c : Char} {t : Text} (h : DeadMark c t) :
    begins? true t = none := by
  rw [begins?_eq_none_iff]
  rcases h with ⟨-, after, rfl, hopen⟩ | ⟨-, word, hword, rest, rfl⟩
  · constructor
    · intro after' heq
      rw [← List.append_cancel_left heq]
      exact splitAtClose_eq_none_iff.mpr hopen
    · rintro word - ⟨rest, hrest⟩
      cases word with
      | connective op => cases op <;> cases hrest
      | _ => cases hrest
  · constructor
    · intro after heq
      rcases hword with rfl | rfl | rfl <;> cases heq
    · rintro other hother ⟨rest', hrest⟩
      cases other with
      | connective op => rcases hword with rfl | rfl | rfl <;> cases op <;> cases hrest
      | openParen | closeParen | notOp | thenTag =>
          rcases hword with rfl | rfl | rfl <;> cases hrest
      | ifTag | elseIfTag | elseTag | endIfTag => cases hother

/-! ## One step -/

/-- The token found is one of the mode, and decides on the mode after it. -/
theorem mode_of_next? {s s' : Scanner} {lexeme : Lexeme} (h : s.next? = some (lexeme, s')) :
    lexeme.token.allowed s.inCondition = true ∧
      s'.inCondition = lexeme.token.inConditionAfter s.inCondition := by
  rcases next?_cases h with ⟨-, -, rfl, rfl⟩ | ⟨source, token, rest, -, hfirst, rfl, rfl⟩
  · exact ⟨rfl, rfl⟩
  · refine ⟨?_, rfl⟩
    rcases first?_cases hfirst with hbegins | ⟨c, -, -, -, rfl⟩
    · exact allowed_of_begins? hbegins
    · rfl

/-- Inside a condition the token found is what the next mark begins, or the first character
of that mark, if it means nothing there. -/
theorem inside_of_next? {s s' : Scanner} {lexeme : Lexeme} (h : s.next? = some (lexeme, s'))
    (hinside : s.inCondition = true) :
    (lexeme.token.isRaw = false ∧ ∀ c, ¬ DeadMark c (fromMark s.rest)) ∨
    ∃ c, lexeme = ⟨beforeMark s.rest, [c], .raw [c]⟩ ∧ fromMark s.rest = c :: s'.rest ∧
      DeadMark c (fromMark s.rest) := by
  rcases next?_cases h with ⟨houtside, -⟩ | ⟨source, token, rest, -, hfirst, rfl, rfl⟩
  · rw [hinside] at houtside
    cases houtside
  rw [hinside] at hfirst
  rcases first?_cases hfirst with hbegins | ⟨c, hbegins, hrest, rfl, rfl⟩
  · left
    refine ⟨isRaw_of_begins? hbegins, fun c hdead => ?_⟩
    rw [begins?_none_of_deadMark hdead] at hbegins
    cases hbegins
  · right
    have hmark : atMark (fromMark s.rest) = true := atMark_fromMark (by simp [hrest])
    refine ⟨c, rfl, hrest, ?_⟩
    rw [hrest] at hbegins hmark ⊢
    exact deadMark_of_begins?_none hmark hbegins

/-! ## The whole run -/

theorem modal_tokens (s : Scanner) : Modal s.inCondition s.tokens := by
  rw [tokens]
  fun_induction lexemes s with
  | case1 s hnext => trivial
  | case2 s lexeme s' hnext ih =>
      obtain ⟨hallowed, hmode⟩ := mode_of_next? hnext
      refine ⟨hallowed, ?_⟩
      rwa [hmode] at ih

theorem inCondition_after (n : Nat) : ∀ s : Scanner,
    (s.after n).inCondition = modeAfter s.inCondition (s.tokens.take n) := by
  induction n with
  | zero => exact fun s => rfl
  | succ n ih =>
      intro s
      cases hnext : s.next? with
      | none =>
          rw [after, hnext, tokens, lexemes_of_next?_none hnext]
          rfl
      | some found =>
          obtain ⟨lexeme, s'⟩ := found
          rw [after_succ hnext, tokens_of_next? hnext, ih s', (mode_of_next? hnext).2]
          rfl

/-- Literal text inside a condition is the character in front of the cursor, and a dead mark
begins with it. -/
theorem raw_inside {t text : Text} {n : Nat}
    (hinside : ((ofText t).after n).inCondition = true)
    (hraw : (ofText t).tokens[n]? = some (.raw text)) :
    ∃ c before rest, text = [c] ∧ t = before ++ rest ∧
      (before ++ [c]).bytes = cursor t (n + 1) ∧ DeadMark c rest := by
  obtain ⟨lexeme, hnext, htoken⟩ := next?_of_getElem?_tokens hraw
  rcases inside_of_next? hnext hinside with ⟨hsolid, -⟩ | ⟨c, hlex, -, hdead⟩
  · rw [htoken] at hsolid
    cases hsolid
  obtain ⟨before, hsplit, -, hcursor⟩ := exists_before_lexeme hnext
  subst hlex
  obtain rfl : [c] = text := Token.raw.inj htoken
  refine ⟨c, before ++ beforeMark ((ofText t).after n).rest,
    fromMark ((ofText t).after n).rest, rfl, ?_, ?_, hdead⟩
  · rw [List.append_assoc, beforeMark_append_fromMark]
    exact hsplit
  · rw [List.append_assoc]
    exact hcursor

/-- After any number of tokens the scanner is inside a condition exactly if the last tag that
switches is no `#then`. All tokens are on their side, also when they are arranged, and literal
text inside is the first character of a mark that means nothing there. -/
theorem tokens_disciplined (t : Text) :
    (∀ n, ((ofText t).after n).inCondition = true ↔
      OpensCondition ((ofText t).tokens.take n)) ∧
    Disciplined (ofText t).tokens ∧ Disciplined (tokenize t) ∧
    ∀ (n : Nat) (h : n < (ofText t).tokens.length) (text : Text),
      ((ofText t).after n).inCondition = true → (ofText t).tokens[n] = .raw text →
        ∃ c before rest, text = [c] ∧ t = before ++ rest ∧
          (before ++ [c]).bytes = cursor t (n + 1) ∧ DeadMark c rest := by
  refine ⟨?_, disciplined_of_modal (modal_tokens (ofText t)),
    disciplined_of_modal (modal_tokenize t), ?_⟩
  · intro n
    rw [inCondition_after, opensCondition_iff]
    rfl
  · intro n h text hinside hraw
    exact raw_inside hinside (List.getElem?_eq_some_iff.mpr ⟨h, hraw⟩)

/-- A tag of a block and open braces inside a condition, and a second condition after it. -/
def deadMarksText : Text := 
  "#if #elseif (".toList ++ openBraces ++ "a #then".toList ++ '}' :: "#else#if NOT".toList

theorem tokens_deadMarksText :
    ((ofText deadMarksText).after 3).inCondition = true ∧
    (ofText deadMarksText).tokens[3]? = some (.raw ['{']) ∧
    (∃ c before rest, ['{'] = [c] ∧ deadMarksText = before ++ rest ∧
      (before ++ [c]).bytes = cursor deadMarksText 4 ∧ DeadMark c rest) ∧
    Disciplined (tokenize deadMarksText) := by
  obtain ⟨-, -, harranged, hraw⟩ := tokens_disciplined deadMarksText
  have htokens : (ofText deadMarksText).tokens =
      [.key .ifTag, .raw ['#'], .key .openParen, .raw ['{'], .key .thenTag, .raw ['}'],
        .key .elseTag, .key .ifTag, .key .notOp] := by
    decide +kernel
  have hinside : ((ofText deadMarksText).after 3).inCondition = true := by decide +kernel
  have hlength : 3 < (ofText deadMarksText).tokens.length := by
    rw [htokens]
    decide
  have hbrace : (ofText deadMarksText).tokens[3] = .raw ['{'] := by simp [htokens]
  exact ⟨hinside, by rw [htokens]; rfl, hraw 3 hlength ['{'] hinside hbrace, harranged⟩

end Scanner

end Stencil
