import Stencil.Condition
import Stencil.Proofs.Scanning

/-!
# The two modes of a token sequence

Between `#if` or `#elseif` and the next `#then` a token sequence is inside a condition,
elsewhere it is outside. Each kind of token has its mode; only literal text is found in
both. What the scanner finds keeps to that, before and after it is arranged.
-/

namespace Stencil

def Token.allowed (inside : Bool) : Token → Bool
  | raw _ => true
  | placeholder _ => !inside
  | flag _ => inside
  | key word => word.inCondition == inside

/-- Every token is in its mode, if the first one stands in mode `inside`. -/
def Modal (inside : Bool) : List Token → Prop
  | [] => True
  | token :: tokens =>
      token.allowed inside = true ∧ Modal (token.inConditionAfter inside) tokens

theorem modal_cons {inside : Bool} {token : Token} {tokens : List Token} :
    Modal inside (token :: tokens) ↔
      token.allowed inside = true ∧ Modal (token.inConditionAfter inside) tokens := Iff.rfl

@[simp] theorem modal_raw {inside : Bool} {text : Text} {tokens : List Token} :
    Modal inside (.raw text :: tokens) ↔ Modal inside tokens := by
  simp [modal_cons, Token.allowed, Token.inConditionAfter]

/-- The tokens of a condition stay inside. -/
theorem modal_condition {c : Condition} {rest : List Token} :
    Modal true (c.tokens ++ rest) ↔ Modal true rest := by
  induction c generalizing rest with
  | flag name => simp [Condition.tokens, modal_cons, Token.allowed, Token.inConditionAfter]
  | not inner ih =>
      rw [← @ih rest]
      simp [Condition.tokens, modal_cons, Token.allowed, Token.inConditionAfter,
        Keyword.inCondition]
  | brackets inner ih =>
      have hclose : Modal true (.key .closeParen :: rest) ↔ Modal true rest := by
        simp [modal_cons, Token.allowed, Token.inConditionAfter, Keyword.inCondition]
      rw [← hclose, ← @ih (.key .closeParen :: rest)]
      simp [Condition.tokens, modal_cons, Token.allowed, Token.inConditionAfter,
        Keyword.inCondition]
  | join op left right ihl ihr =>
      rw [Condition.tokens, List.append_assoc, ihl, ← @ihr rest]
      simp [modal_cons, Token.allowed, Token.inConditionAfter, Keyword.inCondition]

/-- Whether a condition is being written after the tokens. -/
def modeAfter (inside : Bool) (tokens : List Token) : Bool :=
  tokens.foldl (fun inside token => token.inConditionAfter inside) inside

@[simp] theorem modeAfter_nil (inside : Bool) : modeAfter inside [] = inside := rfl

@[simp] theorem modeAfter_cons (inside : Bool) (token : Token) (tokens : List Token) :
    modeAfter inside (token :: tokens) = modeAfter (token.inConditionAfter inside) tokens := rfl

theorem modeAfter_snoc (inside : Bool) (tokens : List Token) (token : Token) :
    modeAfter inside (tokens ++ [token]) = token.inConditionAfter (modeAfter inside tokens) := by
  rw [modeAfter, List.foldl_append]
  rfl

theorem modal_append {inside : Bool} {tokens more : List Token} :
    Modal inside (tokens ++ more) ↔
      Modal inside tokens ∧ Modal (modeAfter inside tokens) more := by
  induction tokens generalizing inside with
  | nil => exact ⟨fun h => ⟨trivial, h⟩, fun h => h.2⟩
  | cons token tokens ih => rw [List.cons_append, modal_cons, modal_cons, ih, and_assoc]; rfl

/-- No condition is left but by a `#then`. -/
theorem thenTag_mem_of_modeAfter {tokens : List Token} (h : modeAfter true tokens = false) :
    .key .thenTag ∈ tokens := by
  induction tokens with
  | nil => cases h
  | cons token tokens ih =>
      rw [modeAfter_cons] at h
      cases hstay : token.inConditionAfter true with
      | true =>
          rw [hstay] at h
          exact List.mem_cons_of_mem _ (ih h)
      | false =>
          cases token with
          | key word =>
              cases word with
              | thenTag => exact List.mem_cons_self
              | _ => cases hstay
          | _ => cases hstay

/-! ## What the scanner finds -/

theorem modal_prependRaw {inside : Bool} {tokens : List Token} (h : Modal inside tokens)
    (text : Text) : Modal inside (prependRaw text tokens) := by
  rw [prependRaw.eq_def]
  split
  · simpa using h
  · split
    · exact h
    · simpa using h

theorem allowed_of_begins? {inside : Bool} {t source rest : Text} {token : Token}
    (h : Scanner.begins? inside t = some (source, token, rest)) : token.allowed inside = true := by
  rcases Scanner.begins?_cases h with ⟨inner, after, -, -, rfl⟩ | ⟨word, hword, -, rfl⟩
  · cases inside <;> rfl
  · simpa [Token.allowed] using hword

theorem modal_of_scans {inside : Bool} {t : Text} {tokens : List Token}
    (h : Scanner.Scans inside t tokens) : Modal inside tokens := by
  induction h with
  | nil inside => trivial
  | @begins inside t source rest token tokens hbegins h ih =>
      exact ⟨allowed_of_begins? hbegins, ih⟩
  | literal hbegins hmark h ih => exact modal_prependRaw ih _
  | noise hbegins hmark h ih => exact ih

theorem modal_trimmed {joined : List Token} : ∀ {inside : Bool} (afterTag : Bool),
    Modal inside joined → Modal inside (trimmed afterTag joined) := by
  induction joined with
  | nil =>
      intro inside afterTag h
      trivial
  | cons token joined ih =>
      intro inside afterTag h
      cases token with
      | raw text =>
          have hrest := ih false (modal_raw.mp h)
          rcases trimmed_raw_cases afterTag text joined with heq | ⟨kept, -, -, heq⟩
          · rwa [heq]
          · rwa [heq, modal_raw]
      | placeholder _ | flag _ | key _ =>
          rw [trimmed_cons rfl]
          exact ⟨h.1, ih _ h.2⟩

theorem modal_tokenize (text : Text) : Modal false (tokenize text) := by
  rw [tokenize, arrange_eq_trimmed]
  exact modal_trimmed false (modal_of_scans (Scanner.scans_joinRaw_tokens false text))

end Stencil
