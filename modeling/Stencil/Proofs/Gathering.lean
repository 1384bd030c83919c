import Stencil.Proofs.Arranging

/-!
# Arranging in one pass

Joining, trimming and dropping what is empty, done together: literal text is held back
until a token of another kind or the end comes, then trimmed once if the token before it
asks for that, and given out if anything is left.
-/

namespace Stencil

/-- Literal text as tokens; none if it is empty. -/
def rawTokens (text : Text) : List Token := if text.isEmpty then [] else [.raw text]

/-- Literal text that is complete, where `afterTag` tells whether layout is dropped. -/
def settle (afterTag : Bool) (held : Text) : List Token :=
  rawTokens (if afterTag then dropLayout held else held)

/-- The arranged tokens, if the text `held` stands in front of them. -/
def gather (afterTag : Bool) (held : Text) : List Token → List Token
  | [] => settle afterTag held
  | .raw text :: tokens => gather afterTag (held ++ text) tokens
  | token :: tokens => settle afterTag held ++ token :: gather token.dropsLayout [] tokens

@[simp] theorem rawTokens_nil : rawTokens [] = [] := rfl

theorem rawTokens_of_ne_nil {text : Text} (h : text ≠ []) : rawTokens text = [.raw text] := by
  simp [rawTokens, h]

@[simp] theorem settle_nil (afterTag : Bool) : settle afterTag [] = [] := by
  cases afterTag <;> rfl

theorem gather_cons {token : Token} (h : token.isRaw = false) (afterTag : Bool) (held : Text)
    (tokens : List Token) :
    gather afterTag held (token :: tokens) =
      settle afterTag held ++ token :: gather token.dropsLayout [] tokens := by
  cases token with
  | raw text => cases h
  | _ => rfl

theorem prependRaw_cons {token : Token} (h : token.isRaw = false) (text : Text)
    (tokens : List Token) :
    prependRaw text (token :: tokens) = rawTokens text ++ token :: tokens := by
  by_cases htext : text = []
  · rw [htext, prependRaw_nil]
    rfl
  · rw [rawTokens_of_ne_nil htext]
    refine prependRaw_of_head ?_ htext
    rintro more rest heq
    cases heq
    cases h

/-! ## Both ways are the same -/

/-- Layout is dropped from the literal text in front; what comes next is trimmed alike
whatever stands before it. -/
theorem trimmed_rawTokens_append {rest out : List Token} (h : ∀ flag, trimmed flag rest = out)
    (afterTag : Bool) (held : Text) :
    trimmed afterTag (rawTokens held ++ rest) = settle afterTag held ++ out := by
  by_cases hheld : held = []
  · subst hheld
    rw [settle_nil]
    exact h afterTag
  rw [rawTokens_of_ne_nil hheld, List.singleton_append]
  by_cases hkept : (if afterTag then dropLayout held else held) = []
  · rw [trimmed_raw_of_eq_nil hkept, settle, hkept, h]
    rfl
  · rw [trimmed_raw_of_ne_nil hkept, settle, rawTokens_of_ne_nil hkept, h]
    rfl

theorem trimmed_prependRaw_joinRaw (tokens : List Token) : ∀ (afterTag : Bool) (held : Text),
    trimmed afterTag (prependRaw held (joinRaw tokens)) = gather afterTag held tokens := by
  induction tokens with
  | nil =>
      intro afterTag held
      have hnil : ∀ flag, trimmed flag [] = [] := fun _ => rfl
      have heq := trimmed_rawTokens_append hnil afterTag held
      rw [List.append_nil, List.append_nil] at heq
      exact heq
  | cons token tokens ih =>
      intro afterTag held
      cases token with
      | raw text =>
          rw [joinRaw_raw, ← prependRaw_append]
          exact ih afterTag (held ++ text)
      | placeholder _ | flag _ | key _ =>
          rw [joinRaw_cons rfl, prependRaw_cons rfl, gather_cons rfl]
          refine trimmed_rawTokens_append ?_ afterTag held
          intro flag
          rw [trimmed_cons rfl, ← ih _ [], prependRaw_nil]

theorem arrange_eq_gather (tokens : List Token) : arrange tokens = gather false [] tokens := by
  rw [arrange_eq_trimmed, ← trimmed_prependRaw_joinRaw, prependRaw_nil]

/-! ## Where there is no layout -/

theorem gather_of_dropsLayout {tokens : List Token}
    (h : ∀ token ∈ tokens, token.dropsLayout = false) : ∀ held : Text,
      gather false held tokens = prependRaw held (joinRaw tokens) := by
  induction tokens with
  | nil =>
      intro held
      rfl
  | cons token tokens ih =>
      obtain ⟨htoken, htokens⟩ := List.forall_mem_cons.mp h
      intro held
      cases token with
      | raw text =>
          rw [joinRaw_raw, ← prependRaw_append]
          exact ih htokens (held ++ text)
      | placeholder _ | flag _ | key _ =>
          rw [gather_cons rfl, joinRaw_cons rfl, prependRaw_cons rfl, htoken, ih htokens,
            prependRaw_nil]
          rfl

/-- Without a tag that asks for it nothing is trimmed. -/
theorem arrange_of_dropsLayout {tokens : List Token}
    (h : ∀ token ∈ tokens, token.dropsLayout = false) : arrange tokens = joinRaw tokens := by
  rw [arrange_eq_gather, gather_of_dropsLayout h, prependRaw_nil]

/-! ## Token sequences one after the other -/

/-- The literal text in front. -/
def leadingRaw : List Token → Text
  | .raw text :: tokens => text ++ leadingRaw tokens
  | _ => []

theorem leadingRaw_of_head {tokens : List Token} (h : ∀ more rest, tokens ≠ .raw more :: rest) :
    leadingRaw tokens = [] := by
  cases tokens with
  | nil => rfl
  | cons token tokens =>
      cases token with
      | raw text => exact absurd rfl (h text tokens)
      | _ => rfl

/-- The text does not begin with what would be dropped as layout. -/
def BeginsPlain (t : Text) : Prop := t.head? ≠ some ' ' ∧ t.head? ≠ some '\n'

theorem dropLayout_of_beginsPlain {t : Text} (h : BeginsPlain t) : dropLayout t = t := by
  cases t with
  | nil => rfl
  | cons c t =>
      obtain ⟨hspace, hnewline⟩ := h
      have hdrop : (c :: t).dropWhile (· == ' ') = c :: t :=
        List.dropWhile_cons_of_neg (by simpa using hspace)
      rw [dropLayout, hdrop]
      split
      · next heq =>
          cases heq
          exact absurd rfl hnewline
      · rfl

theorem dropLayout_append {more : Text} (h : BeginsPlain more) (text : Text) :
    dropLayout (text ++ more) = dropLayout text ++ more := by
  induction text with
  | nil => exact dropLayout_of_beginsPlain h
  | cons c text ih =>
      by_cases hspace : c = ' '
      · subst hspace
        exact ih
      · have hdrop : ∀ t : Text, (c :: t).dropWhile (· == ' ') = c :: t :=
          fun t => List.dropWhile_cons_of_neg (by simpa using hspace)
        rw [List.cons_append, dropLayout, hdrop, dropLayout, hdrop]
        by_cases hnewline : c = '\n'
        · subst hnewline
          rfl
        · simp [hnewline]

theorem joinRaw_rawTokens (text : Text) : joinRaw (rawTokens text) = rawTokens text := by
  by_cases h : text = []
  · rw [h]
    rfl
  · rw [rawTokens_of_ne_nil h, joinRaw_raw]
    exact prependRaw_of_head (by simp [joinRaw]) h

theorem joinRaw_rawTokens_append (text more : Text) :
    joinRaw (rawTokens text ++ rawTokens more) = rawTokens (text ++ more) := by
  by_cases h : text = []
  · rw [h]
    exact joinRaw_rawTokens more
  · rw [rawTokens_of_ne_nil h, List.singleton_append, joinRaw_raw, joinRaw_rawTokens]
    by_cases hmore : more = []
    · rw [hmore, List.append_nil, rawTokens_of_ne_nil h]
      exact prependRaw_of_head (by simp) h
    · rw [rawTokens_of_ne_nil hmore, rawTokens_of_ne_nil (by simp [h])]
      rfl

theorem joinRaw_settle (afterTag : Bool) (held : Text) :
    joinRaw (settle afterTag held) = settle afterTag held := joinRaw_rawTokens _

theorem settle_append {more : Text} (h : BeginsPlain more) (afterTag : Bool) (held : Text) :
    settle afterTag (held ++ more) = joinRaw (settle afterTag held ++ settle false more) := by
  rw [settle, settle, settle, joinRaw_rawTokens_append]
  cases afterTag with
  | true => simp [dropLayout_append h]
  | false => rfl

theorem joinRaw_gather (tokens : List Token) : ∀ (afterTag : Bool) (held : Text),
    joinRaw (gather afterTag held tokens) = gather afterTag held tokens := by
  induction tokens with
  | nil =>
      intro afterTag held
      exact joinRaw_settle afterTag held
  | cons token tokens ih =>
      intro afterTag held
      cases token with
      | raw text => exact ih afterTag (held ++ text)
      | placeholder _ | flag _ | key _ =>
          rw [gather_cons rfl, joinRaw_append_cons rfl, joinRaw_settle, ih]

/-- Text that is held back does not matter to the literal text after it, if that does not
begin with layout. -/
theorem gather_held_append (tokens : List Token) (afterTag : Bool) (held : Text) :
    ∀ more : Text, BeginsPlain (more ++ leadingRaw tokens) →
      gather afterTag (held ++ more) tokens =
        joinRaw (settle afterTag held ++ gather false more tokens) := by
  induction tokens with
  | nil =>
      intro more h
      rw [leadingRaw_of_head (by simp), List.append_nil] at h
      exact settle_append h afterTag held
  | cons token tokens ih =>
      intro more h
      cases token with
      | raw text =>
          have hrest : BeginsPlain (more ++ text ++ leadingRaw tokens) := by
            rw [List.append_assoc]
            exact h
          rw [gather, gather, List.append_assoc]
          exact ih (more ++ text) hrest
      | placeholder _ | flag _ | key _ =>
          have hmore : BeginsPlain more := by
            rw [leadingRaw_of_head (by simp), List.append_nil] at h
            exact h
          rw [gather_cons rfl, gather_cons rfl, settle_append hmore, ← List.append_assoc,
            joinRaw_append_cons rfl, joinRaw_gather]

theorem gather_append (tokens : List Token) {more : List Token}
    (h : BeginsPlain (leadingRaw more)) : ∀ (afterTag : Bool) (held : Text),
      gather afterTag held (tokens ++ more) =
        joinRaw (gather afterTag held tokens ++ gather false [] more) := by
  induction tokens with
  | nil =>
      intro afterTag held
      have hfront := gather_held_append more afterTag held [] h
      rw [List.append_nil] at hfront
      exact hfront
  | cons token tokens ih =>
      intro afterTag held
      cases token with
      | raw text => exact ih afterTag (held ++ text)
      | placeholder _ | flag _ | key _ =>
          rw [List.cons_append, gather_cons rfl, gather_cons rfl, ih, List.append_assoc,
            List.cons_append, joinRaw_append_cons rfl, joinRaw_settle]

/-- A token that is no literal text keeps apart what is arranged around it. -/
theorem gather_append_cons {token : Token} (h : token.isRaw = false) (tokens rest : List Token) :
    ∀ (afterTag : Bool) (held : Text), gather afterTag held (tokens ++ token :: rest) =
      gather afterTag held tokens ++ token :: gather token.dropsLayout [] rest := by
  induction tokens with
  | nil => exact fun afterTag held => gather_cons h afterTag held rest
  | cons first tokens ih =>
      intro afterTag held
      cases first with
      | raw text => exact ih afterTag (held ++ text)
      | placeholder _ | flag _ | key _ =>
          rw [List.cons_append, gather_cons rfl, gather_cons rfl, ih, List.append_assoc]
          rfl

/-- Text that is held back is trimmed together with the literal text after it. -/
theorem gather_held_congr (tokens : List Token) : ∀ {held held' : Text},
    dropLayout (held ++ leadingRaw tokens) = dropLayout (held' ++ leadingRaw tokens) →
      gather true held tokens = gather true held' tokens := by
  induction tokens with
  | nil =>
      intro held held' h
      rw [leadingRaw_of_head (by simp), List.append_nil, List.append_nil] at h
      simp [gather, settle, h]
  | cons token tokens ih =>
      intro held held' h
      cases token with
      | raw text =>
          rw [leadingRaw, ← List.append_assoc, ← List.append_assoc] at h
          exact ih h
      | placeholder _ | flag _ | key _ =>
          rw [leadingRaw_of_head (by simp), List.append_nil, List.append_nil] at h
          rw [gather_cons rfl, gather_cons rfl]
          simp [settle, h]

/-- Sequences can be arranged apart and joined, if the later one begins without layout. -/
theorem arrange_append (tokens : List Token) {more : List Token}
    (h : BeginsPlain (leadingRaw more)) :
    arrange (tokens ++ more) = joinRaw (arrange tokens ++ arrange more) := by
  rw [arrange_eq_gather, arrange_eq_gather, arrange_eq_gather]
  exact gather_append tokens h false []

end Stencil
