import Stencil.Proofs.Discipline
import Stencil.Proofs.Gathering

/-!
# Noise in conditions

What is written in a condition besides its tokens is passed over. There is one exception: of a
mark that means nothing in a condition the first character stays as literal text, since the
scanner has to move on from it. So a text is read without literal text in its conditions
exactly if no such mark is met in them, and arranging the tokens makes no difference to that.
-/

namespace Stencil

/-! ## No literal text inside -/

/-- Inside conditions there is no literal text, if the first token stands in mode `inside`. -/
def Quiet (inside : Bool) : List Token → Prop
  | [] => True
  | token :: tokens =>
      (inside = true → token.isRaw = false) ∧ Quiet (token.inConditionAfter inside) tokens

theorem quiet_cons {inside : Bool} {token : Token} {tokens : List Token} :
    Quiet inside (token :: tokens) ↔
      (inside = true → token.isRaw = false) ∧ Quiet (token.inConditionAfter inside) tokens :=
  Iff.rfl

theorem quiet_solid {inside : Bool} {token : Token} {tokens : List Token}
    (h : token.isRaw = false) :
    Quiet inside (token :: tokens) ↔ Quiet (token.inConditionAfter inside) tokens := by
  simp [quiet_cons, h]

theorem quiet_raw {inside : Bool} {text : Text} {tokens : List Token} :
    Quiet inside (.raw text :: tokens) ↔ inside = false ∧ Quiet inside tokens := by
  simp [quiet_cons, Token.isRaw, Token.inConditionAfter]

theorem quiet_iff {tokens : List Token} : ∀ {inside : Bool}, Quiet inside tokens ↔
    ∀ before token after, tokens = before ++ token :: after →
      modeAfter inside before = true → token.isRaw = false := by
  induction tokens with
  | nil => simp [Quiet]
  | cons first tokens ih =>
      intro inside
      rw [quiet_cons, ih]
      constructor
      · rintro ⟨hfirst, hlater⟩ before token after heq hmode
        cases before with
        | nil =>
            cases heq
            exact hfirst hmode
        | cons other before =>
            cases heq
            exact hlater before token after rfl hmode
      · intro h
        refine ⟨h [] first tokens rfl, ?_⟩
        rintro before token after rfl hmode
        exact h (first :: before) token after rfl hmode

/-- Where every token has its mode, no literal text inside leaves the tokens of conditions. -/
theorem quiet_iff_ofCondition {tokens : List Token} (h : Modal false tokens) :
    Quiet false tokens ↔ ∀ before token after, tokens = before ++ token :: after →
      OpensCondition before → token.ofCondition = true := by
  rw [quiet_iff]
  constructor
  · intro hquiet before token after heq hopens
    have hsolid := hquiet before token after heq ((opensCondition_iff before).mp hopens)
    exact ((disciplined_of_modal h).stands before token after heq hsolid).mp hopens
  · intro hall before token after heq hmode
    have hside := hall before token after heq ((opensCondition_iff before).mpr hmode)
    cases token with
    | raw text => cases hside
    | placeholder _ | flag _ | key _ => rfl

/-! ## Arranging -/

theorem quiet_settle_append {inside afterTag : Bool} {held : Text} {rest : List Token}
    (h : inside = true → afterTag = false) :
    Quiet inside (settle afterTag held ++ rest) ↔
      (inside = true → held = []) ∧ Quiet inside rest := by
  cases inside with
  | false =>
      rw [settle]
      generalize (if afterTag then dropLayout held else held) = text
      by_cases htext : text = []
      · simp [htext]
      · simp [rawTokens_of_ne_nil htext, quiet_raw]
  | true =>
      obtain rfl := h rfl
      by_cases hheld : held = []
      · simp [hheld]
      · simp [settle, rawTokens_of_ne_nil hheld, quiet_raw, hheld]

/-- After a tag that asks for layout to be dropped no condition is open. -/
theorem not_dropsLayout_of_inside {token : Token} {inside : Bool}
    (hallowed : token.allowed inside = true) (h : token.inConditionAfter inside = true) :
    token.dropsLayout = false := by
  cases token with
  | raw _ | placeholder _ | flag _ => rfl
  | key word =>
      cases word with
      | thenTag => cases h
      | elseTag | endIfTag =>
          obtain rfl : inside = true := h
          cases hallowed
      | _ => rfl

theorem quiet_gather (tokens : List Token) : ∀ {inside afterTag : Bool} (held : Text),
    Modal inside tokens → .raw [] ∉ tokens → (inside = true → afterTag = false) →
      (Quiet inside (gather afterTag held tokens) ↔
        (inside = true → held = []) ∧ Quiet inside tokens) := by
  induction tokens with
  | nil =>
      intro inside afterTag held hmodal hsome htag
      have hsettle : Quiet inside (settle afterTag held ++ []) ↔
          (inside = true → held = []) ∧ Quiet inside [] := quiet_settle_append htag
      rwa [List.append_nil] at hsettle
  | cons token tokens ih =>
      intro inside afterTag held hmodal hsome htag
      obtain ⟨hfirst, hlater⟩ : .raw [] ≠ token ∧ .raw [] ∉ tokens := by simpa using hsome
      cases token with
      | raw text =>
          have htext : text ≠ [] := fun hnil => hfirst (by rw [hnil])
          rw [gather, ih _ (modal_raw.mp hmodal) hlater htag, quiet_raw]
          cases inside <;> simp [htext]
      | placeholder _ | flag _ | key _ =>
          rw [gather_cons rfl, quiet_settle_append htag, quiet_solid rfl, quiet_solid rfl,
            ih [] hmodal.2 hlater (not_dropsLayout_of_inside hmodal.1)]
          simp

theorem quiet_arrange {tokens : List Token} (hmodal : Modal false tokens)
    (hsome : .raw [] ∉ tokens) : Quiet false (arrange tokens) ↔ Quiet false tokens := by
  rw [arrange_eq_gather, quiet_gather tokens [] hmodal hsome (by simp)]
  simp

namespace Scanner

/-! ## What the scanner leaves -/

theorem raw_nil_not_mem_tokens (s : Scanner) : .raw [] ∉ s.tokens := by
  intro h
  obtain ⟨lexeme, hlexeme, htoken⟩ := List.mem_map.mp h
  have hstands := standsFor_of_mem hlexeme
  rw [htoken] at hstands
  exact source_ne_nil_of_mem hlexeme hstands

theorem after_of_next?_none {s : Scanner} (h : s.next? = none) (n : Nat) : s.after n = s := by
  cases n with
  | zero => rfl
  | succ n => rw [after, h]

theorem fromMark_of_next?_none {s : Scanner} (h : s.next? = none) : fromMark s.rest = [] := by
  have hsplit := beforeMark_append_fromMark s.rest
  rcases rest_of_next?_none h with hend | ⟨-, hnoise⟩
  · rw [hend]
    rfl
  · rw [hnoise] at hsplit
    simpa using hsplit

theorem not_deadMark_nil (c : Char) : ¬ DeadMark c [] := by
  rintro (⟨-, after, heq, -⟩ | ⟨-, word, -, hword⟩)
  · cases heq
  · exact word.tag_ne_nil (List.prefix_nil.mp hword)

/-- No literal text is found inside exactly if no dead mark is met there. -/
theorem quiet_tokens_iff (s : Scanner) : Quiet s.inCondition s.tokens ↔
    ∀ n c, (s.after n).inCondition = true → ¬ DeadMark c (fromMark (s.after n).rest) := by
  rw [tokens]
  fun_induction lexemes s with
  | case1 s hnext =>
      refine ⟨fun _ n c _ => ?_, fun _ => trivial⟩
      rw [after_of_next?_none hnext, fromMark_of_next?_none hnext]
      exact not_deadMark_nil c
  | case2 s lexeme s' hnext ih =>
      rw [List.map_cons, quiet_cons, ← (mode_of_next? hnext).2, ih]
      constructor
      · rintro ⟨hfirst, hlater⟩ n c hinside hdead
        cases n with
        | zero =>
            rcases inside_of_next? hnext hinside with ⟨-, hnone⟩ | ⟨d, rfl, -, -⟩
            · exact hnone c hdead
            · exact Bool.noConfusion (hfirst hinside)
        | succ n =>
            rw [after_succ hnext] at hinside hdead
            exact hlater n c hinside hdead
      · intro hnone
        constructor
        · intro hinside
          rcases inside_of_next? hnext hinside with ⟨hsolid, -⟩ | ⟨c, -, -, hdead⟩
          · exact hsolid
          · exact absurd hdead (hnone 0 c hinside)
        · intro n c hinside
          rw [← after_succ hnext] at hinside ⊢
          exact hnone (n + 1) c hinside

/-- Inside a condition literal text comes next exactly if the next mark means nothing there.
So the tokens of a text have in its conditions only what belongs there exactly if no such mark
is met in them. -/
theorem ofCondition_iff_not_deadMark (t : Text) :
    (∀ n lexeme s', ((ofText t).after n).inCondition = true →
      ((ofText t).after n).next? = some (lexeme, s') →
        (lexeme.token.isRaw = true ↔ ∃ c, DeadMark c (fromMark ((ofText t).after n).rest))) ∧
    ((∀ before token after, tokenize t = before ++ token :: after → OpensCondition before →
        token.ofCondition = true) ↔
      ∀ n c, ((ofText t).after n).inCondition = true →
        ¬ DeadMark c (fromMark ((ofText t).after n).rest)) := by
  constructor
  · intro n lexeme s' hinside hnext
    rcases inside_of_next? hnext hinside with ⟨hsolid, hnone⟩ | ⟨c, rfl, -, hdead⟩
    · simp [hsolid, hnone]
    · exact ⟨fun _ => ⟨c, hdead⟩, fun _ => rfl⟩
  · have hmodal : Modal false (ofText t).tokens := modal_tokens (ofText t)
    have hquiet := quiet_arrange hmodal (raw_nil_not_mem_tokens (ofText t))
    rw [← quiet_iff_ofCondition (modal_tokenize t), ← quiet_tokens_iff]
    exact hquiet

/-- A tag of a block where a connective was meant. -/
def strayTagText : Text := "#if {{a}} #if #then x#endif".toList

theorem inCondition_strayTagText : ((ofText strayTagText).after 2).inCondition = true := by
  decide +kernel

theorem next?_strayTagText : ((ofText strayTagText).after 2).next? =
    some (⟨[' '], ['#'], .raw ['#']⟩, (ofText strayTagText).after 3) := by
  decide +kernel

theorem ofCondition_strayTagText :
    ((ofText strayTagText).after 2).inCondition = true ∧
    (ofText strayTagText).tokens[2]? = some (.raw ['#']) ∧
    ∃ c, DeadMark c (fromMark ((ofText strayTagText).after 2).rest) := by
  have htokens : (ofText strayTagText).tokens =
      [.key .ifTag, .flag ['a'], .raw ['#'], .key .thenTag, .raw [' ', 'x'], .key .endIfTag] := by
    decide +kernel
  refine ⟨inCondition_strayTagText, by rw [htokens]; rfl, ?_⟩
  exact ((ofCondition_iff_not_deadMark strayTagText).1 2 _ _ inCondition_strayTagText
    next?_strayTagText).mp rfl

/-- Not all that is written in a condition besides its tokens is passed over. -/
theorem raw_of_strayTag : ¬ ∀ (t : Text) (n : Nat) (lexeme : Lexeme) (s' : Scanner),
    ((ofText t).after n).inCondition = true →
      ((ofText t).after n).next? = some (lexeme, s') → lexeme.token.isRaw = false := by
  intro h
  exact Bool.noConfusion (h strayTagText 2 _ _ inCondition_strayTagText next?_strayTagText)

end Scanner

end Stencil
