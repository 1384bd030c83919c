import Stencil.Token.Layout

/-!
# Arranging tokens, one at a time

What joining and trimming do with the first token of a sequence, so that no proof has to
look into the passes themselves.
-/

namespace Stencil

/-! ## Joining literal texts -/

/-- Literal text in front of tokens that are joined already. -/
def prependRaw (text : Text) : List Token → List Token
  | .raw more :: rest => .raw (text ++ more) :: rest
  | rest => if text.isEmpty then rest else .raw text :: rest

theorem joinRaw_raw (text : Text) (tokens : List Token) :
    joinRaw (.raw text :: tokens) = prependRaw text (joinRaw tokens) := by
  rw [joinRaw]
  generalize joinRaw tokens = joined
  cases joined with
  | nil => rfl
  | cons token rest => cases token <;> rfl

theorem joinRaw_cons {token : Token} (h : token.isRaw = false) (tokens : List Token) :
    joinRaw (token :: tokens) = token :: joinRaw tokens := by
  cases token with
  | raw text => cases h
  | _ => rfl

theorem prependRaw_of_head {tokens : List Token} (h : ∀ more rest, tokens ≠ .raw more :: rest)
    {text : Text} (htext : text ≠ []) : prependRaw text tokens = .raw text :: tokens := by
  rw [prependRaw.eq_def]
  split
  · next more rest => exact absurd rfl (h more rest)
  · simp [htext]

/-- The text joins literal text in front, or becomes a token of its own. -/
theorem prependRaw_cases {text : Text} (h : text ≠ []) (tokens : List Token) :
    (∃ more rest, tokens = .raw more :: rest ∧
      prependRaw text tokens = .raw (text ++ more) :: rest) ∨
    ((∀ more rest, tokens ≠ .raw more :: rest) ∧
      prependRaw text tokens = .raw text :: tokens) := by
  by_cases hhead : ∃ more rest, tokens = .raw more :: rest
  · obtain ⟨more, rest, rfl⟩ := hhead
    exact Or.inl ⟨more, rest, rfl, rfl⟩
  · have hhead' : ∀ more rest, tokens ≠ .raw more :: rest :=
      fun more rest heq => hhead ⟨more, rest, heq⟩
    exact Or.inr ⟨hhead', prependRaw_of_head hhead' h⟩

@[simp] theorem prependRaw_nil (tokens : List Token) : prependRaw [] tokens = tokens := by
  rw [prependRaw.eq_def]
  split <;> rfl

theorem prependRaw_append (text more : Text) (tokens : List Token) :
    prependRaw (text ++ more) tokens = prependRaw text (prependRaw more tokens) := by
  by_cases hmore : more = []
  · simp [hmore]
  · rcases prependRaw_cases hmore tokens with ⟨later, rest, rfl, -⟩ | ⟨hhead, hprepend⟩
    · simp [prependRaw]
    · rw [prependRaw_of_head hhead (by simp [hmore]), hprepend]
      rfl

theorem prependRaw_append_cons {token : Token} (h : token.isRaw = false) (text : Text)
    (tokens rest : List Token) :
    prependRaw text (tokens ++ token :: rest) = prependRaw text tokens ++ token :: rest := by
  by_cases htext : text = []
  · rw [htext, prependRaw_nil, prependRaw_nil]
  rcases prependRaw_cases htext tokens with ⟨more, after, rfl, heq⟩ | ⟨hhead, heq⟩
  · rw [heq]
    rfl
  · rw [heq, prependRaw_of_head _ htext]
    · rfl
    · intro more after heq
      cases tokens with
      | nil =>
          cases heq
          cases h
      | cons first tokens =>
          cases heq
          exact hhead more tokens rfl

/-- A token that is no literal text keeps apart what stands around it. -/
theorem joinRaw_append_cons {token : Token} (h : token.isRaw = false) (tokens rest : List Token) :
    joinRaw (tokens ++ token :: rest) = joinRaw tokens ++ token :: joinRaw rest := by
  induction tokens with
  | nil => exact joinRaw_cons h rest
  | cons first tokens ih =>
      cases first with
      | raw text =>
          rw [List.cons_append, joinRaw_raw, joinRaw_raw, ih, prependRaw_append_cons h]
      | placeholder _ | flag _ | key _ =>
          rw [List.cons_append, joinRaw_cons rfl, joinRaw_cons rfl, ih]
          rfl

theorem joinRaw_append_of_isRaw {tokens : List Token} (h : ∀ token ∈ tokens, token.isRaw = false)
    (rest : List Token) : joinRaw (tokens ++ rest) = tokens ++ joinRaw rest := by
  induction tokens with
  | nil => rfl
  | cons token tokens ih =>
      obtain ⟨htoken, htokens⟩ := List.forall_mem_cons.mp h
      rw [List.cons_append, joinRaw_cons htoken, ih htokens]
      rfl

theorem mem_prependRaw {token : Token} (h : token.isRaw = false) {text : Text}
    {tokens : List Token} : token ∈ prependRaw text tokens ↔ token ∈ tokens := by
  have hraw : ∀ t, token ≠ .raw t := by
    rintro t rfl
    cases h
  by_cases htext : text = []
  · rw [htext, prependRaw_nil]
  rcases prependRaw_cases htext tokens with ⟨more, rest, rfl, heq⟩ | ⟨-, heq⟩
  · simp [heq, hraw]
  · simp [heq, hraw]

/-- Only literal text is changed by joining. -/
theorem mem_joinRaw {token : Token} (h : token.isRaw = false) {tokens : List Token} :
    token ∈ joinRaw tokens ↔ token ∈ tokens := by
  induction tokens with
  | nil => exact Iff.rfl
  | cons first tokens ih =>
      cases first with
      | raw text =>
          have hne : token ≠ .raw text := by
            rintro rfl
            cases h
          rw [joinRaw_raw, mem_prependRaw h, ih]
          simp [hne]
      | placeholder _ | flag _ | key _ => rw [joinRaw_cons rfl, List.mem_cons, List.mem_cons, ih]

/-! ## Trimming -/

/-- Joined tokens without their layout, and without literal text that was nothing else. -/
def trimmed (afterTag : Bool) (joined : List Token) : List Token :=
  (trimLayout afterTag joined).filter (· ≠ .raw [])

theorem arrange_eq_trimmed (tokens : List Token) :
    arrange tokens = trimmed false (joinRaw tokens) := rfl

theorem trimmed_raw_of_ne_nil {afterTag : Bool} {text : Text}
    (h : (if afterTag then dropLayout text else text) ≠ []) (joined : List Token) :
    trimmed afterTag (.raw text :: joined) =
      .raw (if afterTag then dropLayout text else text) :: trimmed false joined := by
  rw [trimmed, trimLayout, List.filter_cons_of_pos (by simpa using h)]
  rfl

theorem trimmed_raw_of_eq_nil {afterTag : Bool} {text : Text}
    (h : (if afterTag then dropLayout text else text) = []) (joined : List Token) :
    trimmed afterTag (.raw text :: joined) = trimmed false joined := by
  rw [trimmed, trimLayout, List.filter_cons_of_neg (by simpa using h)]
  rfl

theorem trimmed_cons {token : Token} (h : token.isRaw = false) (afterTag : Bool)
    (joined : List Token) :
    trimmed afterTag (token :: joined) = token :: trimmed token.dropsLayout joined := by
  cases token with
  | raw text => cases h
  | _ => rfl

/-- Layout is dropped from the front. -/
theorem dropLayout_suffix (text : Text) : dropLayout text <:+ text := by
  have hspaces : text.dropWhile (· == ' ') <:+ text := List.dropWhile_suffix _
  unfold dropLayout
  split
  · next rest heq =>
      rw [heq] at hspaces
      exact (List.suffix_cons _ rest).trans hspaces
  · exact hspaces

/-- Literal text is trimmed to nothing, or to an end of it. -/
theorem trimmed_raw_cases (afterTag : Bool) (text : Text) (joined : List Token) :
    trimmed afterTag (.raw text :: joined) = trimmed false joined ∨
    ∃ kept, kept ≠ [] ∧ kept <:+ text ∧
      trimmed afterTag (.raw text :: joined) = .raw kept :: trimmed false joined := by
  by_cases hkept : (if afterTag then dropLayout text else text) = []
  · exact Or.inl (trimmed_raw_of_eq_nil hkept joined)
  · refine Or.inr ⟨_, hkept, ?_, trimmed_raw_of_ne_nil hkept joined⟩
    split
    · exact dropLayout_suffix text
    · exact List.suffix_refl text

/-- Only literal text is changed by trimming. -/
theorem mem_trimmed {token : Token} (h : token.isRaw = false) {joined : List Token} :
    ∀ afterTag : Bool, token ∈ trimmed afterTag joined ↔ token ∈ joined := by
  have hne : ∀ text, token ≠ .raw text := by
    rintro text rfl
    cases h
  induction joined with
  | nil => exact fun _ => Iff.rfl
  | cons first joined ih =>
      intro afterTag
      cases first with
      | raw text =>
          rcases trimmed_raw_cases afterTag text joined with heq | ⟨kept, -, -, heq⟩
          · simp [heq, ih false, hne]
          · simp [heq, ih false, hne]
      | placeholder _ | flag _ | key _ =>
          rw [trimmed_cons rfl, List.mem_cons, List.mem_cons, ih]

theorem mem_arrange {token : Token} (h : token.isRaw = false) {tokens : List Token} :
    token ∈ arrange tokens ↔ token ∈ tokens := by
  rw [arrange_eq_trimmed, mem_trimmed h, mem_joinRaw h]

end Stencil
