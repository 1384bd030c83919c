import Stencil.Condition.Attempt
import Stencil.Proofs.CanonicalCondition

/-!
# Attempts find what is read

The walk over positions gives what `Condition.readAt?` gives, wherever it starts. A step of
the walk is compared with what is read from the tokens behind the position; on failure
the position does not matter, since every alternative has its own copy.
-/

namespace Stencil

/-! ## A term and what joins on to it -/

namespace Condition

/-- What stands to the left of a connective, and the tokens after it. -/
def readTerm? : List Token → Option (Condition × List Token)
  | .flag name :: rest => some (flag name, rest)
  | .key .notOp :: rest => (read? rest).map fun (inner, rest') => (not inner, rest')
  | .key .openParen :: rest =>
      match read? rest with
      | some (inner, .key .closeParen :: rest') => some (brackets inner, rest')
      | _ => none
  | _ => none

/-- A connective is only left where no condition can be read behind it. -/
theorem read?_after_connective {tokens after : List Token} {c : Condition} {op : Connective}
    (h : read? tokens = some (c, .key (.connective op) :: after)) : read? after = none := by
  have hextend : ∀ {left : Condition} {rest : List Token}, rest.length < tokens.length →
      extend left rest = (c, .key (.connective op) :: after) → read? after = none := by
    intro left rest hlt hext
    rcases extend_cases hext with ⟨-, hrest, hnone⟩ | ⟨op', right, later, rfl, hread, -⟩
    · exact hnone op after hrest.symm
    · exact read?_after_connective hread
  rcases read?_cases h with ⟨name, rest, rfl, hext⟩ | ⟨inner, rest, rfl, hread, -⟩ |
    ⟨inner, rest, rest', rfl, hread, hext⟩
  · exact hextend (Nat.lt_succ_self _) hext
  · exact read?_after_connective hread
  · have hlt := read?_shorter hread
    simp only [List.length_cons] at hlt
    exact hextend (by simp only [List.length_cons]; omega) hext
termination_by tokens.length
decreasing_by all_goals simp_all only [List.length_cons]; omega

/-- `NOT` has taken all that it can, so what is tried after it a second time fails again. -/
theorem read?_eq_extend (tokens : List Token) :
    read? tokens = (readTerm? tokens).map fun (left, rest) => extend left rest := by
  match tokens with
  | .flag name :: rest => exact read?_flag name rest
  | .key .notOp :: rest =>
      rw [read?_not, readTerm?, Option.map_map]
      cases hread : read? rest with
      | none => rfl
      | some found =>
          obtain ⟨inner, rest'⟩ := found
          show some (not inner, rest') = some (extend (not inner) rest')
          by_cases hop : ∃ op after, rest' = .key (.connective op) :: after
          · obtain ⟨op, after, rfl⟩ := hop
            rw [extend_connective, read?_after_connective hread]
          · rw [extend_other fun op after heq => hop ⟨op, after, heq⟩]
  | .key .openParen :: rest =>
      rw [read?_openParen, readTerm?]
      cases read? rest with
      | none => rfl
      | some found =>
          obtain ⟨inner, _ | ⟨token, rest'⟩⟩ := found
          · rfl
          · cases token with
            | key word => cases word <;> rfl
            | _ => rfl
  | [] | .raw _ :: _ | .placeholder _ :: _ | .key .ifTag :: _ | .key .closeParen :: _
  | .key (.connective _) :: _ | .key .thenTag :: _ | .key .elseIfTag :: _ | .key .elseTag :: _
  | .key .endIfTag :: _ => simp [read?, readShorter, readTerm?]

end Condition

namespace Attempt

open Condition (read? readTerm? extend)

variable {α β : Type}

/-! ## Running -/

theorem bind_of_some {first : Attempt α} {position position' : Nat} {a : α}
    (h : first position = (some a, position')) (next : α → Attempt β) :
    (first >>= next) position = next a position' := by
  show bind first next position = _
  unfold bind
  rw [h]

theorem bind_of_none {first : Attempt α} {position : Nat} (h : (first position).1 = none)
    (next : α → Attempt β) : ((first >>= next) position).1 = none := by
  show (bind first next position).1 = none
  unfold bind
  split
  · next hsome =>
      rw [hsome] at h
      cases h
  · rfl

theorem attempt_of_some {alternative : Attempt α} {position position' : Nat} {a : α}
    (h : alternative position = (some a, position')) :
    attempt alternative position = (some a, position') := by
  unfold attempt
  rw [h]

theorem attempt_of_none {alternative : Attempt α} {position : Nat}
    (h : (alternative position).1 = none) : attempt alternative position = (none, position) := by
  unfold attempt
  split
  · next hsome =>
      rw [hsome] at h
      cases h
  · rfl

theorem orElse_of_some {first second : Attempt α} {position position' : Nat} {a : α}
    (h : first position = (some a, position')) :
    orElse first second position = (some a, position') := by
  unfold orElse
  rw [h]

theorem orElse_of_none {first second : Attempt α} {position position' : Nat}
    (h : first position = (none, position')) : orElse first second position = second position' := by
  unfold orElse
  rw [h]

/-! ## Agreement -/

/-- A run ends with this result, before the tokens that are left. -/
def Gives (tokens : List Token) (run : Option α × Nat) : Option (α × List Token) → Prop
  | some (a, rest) => ∃ next, run = (some a, next) ∧ next ≤ tokens.length ∧ tokens.drop next = rest
  | none => run.1 = none

section

variable {tokens rest : List Token} {position : Nat}

theorem gives_attempt {alternative : Attempt α} {result : Option (α × List Token)}
    (h : Gives tokens (alternative position) result) :
    Gives tokens (attempt alternative position) result := by
  cases result with
  | none => exact congrArg Prod.fst (attempt_of_none h)
  | some found =>
      obtain ⟨next, hrun, hle, hdrop⟩ := h
      exact ⟨next, attempt_of_some hrun, hle, hdrop⟩

/-! ## Tokens -/

theorem getElem?_of_drop {token : Token} (h : tokens.drop position = token :: rest) :
    tokens[position]? = some token := by
  rw [← List.head?_drop, h]
  rfl

theorem drop_succ_of_drop {token : Token} (h : tokens.drop position = token :: rest) :
    tokens.drop (position + 1) = rest := by
  rw [← List.tail_drop, h]
  rfl

theorem succ_le_of_drop {token : Token} (h : tokens.drop position = token :: rest) :
    position + 1 ≤ tokens.length :=
  (List.getElem?_eq_some_iff.mp (getElem?_of_drop h)).1

theorem consume_of_drop {token : Token} (h : tokens.drop position = token :: rest)
    (htoken : token ≠ .key .thenTag) :
    consume tokens position = (some token, position + 1) := by
  unfold consume
  rw [getElem?_of_drop h]
  split
  · next heq => exact absurd (Option.some.inj heq) htoken
  · rfl

theorem drop_of_consume {token : Token} {next : Nat}
    (h : consume tokens position = (some token, next)) :
    tokens.drop position = token :: tokens.drop (position + 1) := by
  unfold consume at h
  split at h
  · cases h
  · obtain ⟨hlt, rfl⟩ := List.getElem?_eq_some_iff.mp (congrArg Prod.fst h)
    exact List.drop_eq_getElem_cons hlt

theorem expect_of_drop {word : Keyword} (h : tokens.drop position = .key word :: rest)
    (hword : word ≠ .thenTag) : expect tokens word position = (some (), position + 1) := by
  have htoken : Token.key word ≠ .key .thenTag := fun heq => hword (Token.key.inj heq)
  unfold expect
  rw [bind_of_some (consume_of_drop h htoken), if_pos rfl]
  rfl

theorem expect_eq_none {word : Keyword} (h : ∀ rest, tokens.drop position ≠ .key word :: rest) :
    (expect tokens word position).1 = none := by
  unfold expect
  cases hrun : consume tokens position with
  | mk token? next =>
      cases token? with
      | none => exact bind_of_none (congrArg Prod.fst hrun) _
      | some token =>
          have htoken : token ≠ .key word := by
            rintro rfl
            exact h _ (drop_of_consume hrun)
          rw [bind_of_some hrun, if_neg htoken]
          rfl

theorem flag_of_drop {name : Text} (h : tokens.drop position = .flag name :: rest) :
    flag tokens position = (some (.flag name), position + 1) := by
  unfold flag
  rw [bind_of_some (consume_of_drop h Token.noConfusion)]
  rfl

theorem flag_eq_none (h : ∀ name rest, tokens.drop position ≠ .flag name :: rest) :
    (flag tokens position).1 = none := by
  unfold flag
  cases hrun : consume tokens position with
  | mk token? next =>
      cases token? with
      | none => exact bind_of_none (congrArg Prod.fst hrun) _
      | some token =>
          rw [bind_of_some hrun]
          split
          · next name => exact absurd (drop_of_consume hrun) (h name _)
          · rfl

/-! ## Alternatives -/

variable {inner : Attempt Condition}

theorem gives_brackets (h : tokens.drop position = .key .openParen :: rest)
    (hinner : Gives tokens (inner (position + 1)) (read? rest)) :
    Gives tokens (brackets tokens inner position)
      (readTerm? (.key .openParen :: rest)) := by
  unfold brackets
  rw [bind_of_some (expect_of_drop h (by decide)), readTerm?]
  cases hread : read? rest with
  | none =>
      rw [hread] at hinner
      exact bind_of_none hinner _
  | some found =>
      obtain ⟨c, rest'⟩ := found
      rw [hread] at hinner
      obtain ⟨next, hrun, hle, hdrop⟩ := hinner
      rw [bind_of_some hrun]
      split
      · next heq =>
          cases heq
          rw [bind_of_some (expect_of_drop hdrop (by decide))]
          exact ⟨next + 1, rfl, succ_le_of_drop hdrop, drop_succ_of_drop hdrop⟩
      · next hclose =>
          apply bind_of_none
          apply expect_eq_none
          intro rest'' heq
          exact hclose c rest'' (by rw [← hdrop, heq])

theorem brackets_eq_none (h : ∀ rest, tokens.drop position ≠ .key .openParen :: rest) :
    (brackets tokens inner position).1 = none :=
  bind_of_none (expect_eq_none h) _

theorem gives_negation (h : tokens.drop position = .key .notOp :: rest)
    (hinner : Gives tokens (inner (position + 1)) (read? rest)) :
    Gives tokens (negation tokens inner position) (readTerm? (.key .notOp :: rest)) := by
  unfold negation
  rw [bind_of_some (expect_of_drop h (by decide)), readTerm?]
  cases hread : read? rest with
  | none =>
      rw [hread] at hinner
      exact bind_of_none hinner _
  | some found =>
      obtain ⟨c, rest'⟩ := found
      rw [hread] at hinner
      obtain ⟨next, hrun, hle, hdrop⟩ := hinner
      rw [bind_of_some hrun]
      exact ⟨next, rfl, hle, hdrop⟩

theorem negation_eq_none (h : ∀ rest, tokens.drop position ≠ .key .notOp :: rest) :
    (negation tokens inner position).1 = none :=
  bind_of_none (expect_eq_none h) _

/-- The last alternative is tried at the same position as the first. -/
theorem term_eq_flag (hbrackets : (brackets tokens inner position).1 = none)
    (hnegation : (negation tokens inner position).1 = none) :
    term tokens inner position = attempt (flag tokens) position := by
  unfold term
  apply orElse_of_none
  rw [orElse_of_none (attempt_of_none hbrackets)]
  exact attempt_of_none hnegation

theorem gives_term_of_openParen (h : tokens.drop position = .key .openParen :: rest)
    (hinner : Gives tokens (inner (position + 1)) (read? rest)) :
    Gives tokens (term tokens inner position) (readTerm? (.key .openParen :: rest)) := by
  have hbrackets := gives_brackets h hinner
  cases hresult : readTerm? (.key .openParen :: rest) with
  | none =>
      rw [hresult] at hbrackets
      rw [term_eq_flag hbrackets (negation_eq_none (by simp [h]))]
      apply gives_attempt
      exact flag_eq_none (by simp [h])
  | some found =>
      rw [hresult] at hbrackets
      obtain ⟨next, hrun, hle, hdrop⟩ := hbrackets
      exact ⟨next, orElse_of_some (orElse_of_some (attempt_of_some hrun)), hle, hdrop⟩

theorem gives_term_of_notOp (h : tokens.drop position = .key .notOp :: rest)
    (hinner : Gives tokens (inner (position + 1)) (read? rest)) :
    Gives tokens (term tokens inner position) (readTerm? (.key .notOp :: rest)) := by
  have hbrackets : (brackets tokens inner position).1 = none := brackets_eq_none (by simp [h])
  have hnegation := gives_negation h hinner
  cases hresult : readTerm? (.key .notOp :: rest) with
  | none =>
      rw [hresult] at hnegation
      rw [term_eq_flag hbrackets hnegation]
      apply gives_attempt
      exact flag_eq_none (by simp [h])
  | some found =>
      rw [hresult] at hnegation
      obtain ⟨next, hrun, hle, hdrop⟩ := hnegation
      refine ⟨next, orElse_of_some ?_, hle, hdrop⟩
      rw [orElse_of_none (attempt_of_none hbrackets)]
      exact attempt_of_some hrun

theorem gives_term
    (hinner : ∀ next, position < next → Gives tokens (inner next) (read? (tokens.drop next))) :
    Gives tokens (term tokens inner position) (readTerm? (tokens.drop position)) := by
  have hnext := hinner (position + 1) (Nat.lt_succ_self position)
  generalize htokens : tokens.drop position = behind
  match behind with
  | .key .openParen :: rest =>
      rw [drop_succ_of_drop htokens] at hnext
      exact gives_term_of_openParen htokens hnext
  | .key .notOp :: rest =>
      rw [drop_succ_of_drop htokens] at hnext
      exact gives_term_of_notOp htokens hnext
  | .flag name :: rest =>
      rw [term_eq_flag (brackets_eq_none (by simp [htokens]))
        (negation_eq_none (by simp [htokens]))]
      exact gives_attempt ⟨position + 1, flag_of_drop htokens, succ_le_of_drop htokens,
        drop_succ_of_drop htokens⟩
  | [] | .raw _ :: _ | .placeholder _ :: _ | .key .ifTag :: _ | .key .closeParen :: _
  | .key (.connective _) :: _ | .key .thenTag :: _ | .key .elseIfTag :: _ | .key .elseTag :: _
  | .key .endIfTag :: _ =>
      rw [term_eq_flag (brackets_eq_none (by simp [htokens]))
        (negation_eq_none (by simp [htokens]))]
      apply gives_attempt
      exact flag_eq_none (by simp [htokens])

/-! ## Connectives -/

theorem gives_joined {left : Condition} (hle : position ≤ tokens.length)
    (hinner : Gives tokens (inner (position + 1)) (read? (tokens.drop (position + 1)))) :
    Gives tokens (joined tokens inner left position)
      (some (extend left (tokens.drop position))) := by
  unfold joined
  by_cases hop : ∃ op after, tokens.drop position = .key (.connective op) :: after
  · obtain ⟨op, after, hdrop⟩ := hop
    rw [drop_succ_of_drop hdrop] at hinner
    have hright : rightSide tokens inner position = inner (position + 1) := by
      unfold rightSide
      exact bind_of_some (consume_of_drop hdrop (by simp)) _
    rw [getElem?_of_drop hdrop, hdrop, Condition.extend_connective]
    dsimp only
    cases hread : read? after with
    | none =>
        rw [hread] at hinner
        rw [attempt_of_none (hright ▸ hinner)]
        exact ⟨position, rfl, hle, hdrop⟩
    | some found =>
        obtain ⟨right, rest⟩ := found
        rw [hread] at hinner
        obtain ⟨next, hrun, hle', hdrop'⟩ := hinner
        rw [attempt_of_some (hright.trans hrun)]
        exact ⟨next, rfl, hle', hdrop'⟩
  · rw [Condition.extend_other fun op after heq => hop ⟨op, after, heq⟩]
    split
    · next op hget =>
        obtain ⟨hlt, hget⟩ := List.getElem?_eq_some_iff.mp hget
        exact absurd ⟨op, _, hget ▸ List.drop_eq_getElem_cons hlt⟩ hop
    · exact ⟨position, rfl, hle, rfl⟩

theorem readTerm?_shorter {left : Condition} (h : readTerm? tokens = some (left, rest)) :
    rest.length < tokens.length := by
  unfold readTerm? at h
  split at h
  · cases h
    exact Nat.lt_succ_self _
  · obtain ⟨⟨c, rest'⟩, hread, heq⟩ := Option.map_eq_some_iff.mp h
    cases heq
    exact Nat.lt_succ_of_lt (Condition.read?_shorter hread)
  · split at h
    · next hread =>
        cases h
        have hlt := Condition.read?_shorter hread
        simp only [List.length_cons] at hlt ⊢
        omega
    · cases h
  · cases h

theorem gives_level
    (hinner : ∀ next, position < next → Gives tokens (inner next) (read? (tokens.drop next))) :
    Gives tokens (level tokens inner position) (read? (tokens.drop position)) := by
  have hterm := gives_attempt (gives_term hinner)
  rw [Condition.read?_eq_extend]
  unfold level
  cases hread : readTerm? (tokens.drop position) with
  | none =>
      rw [hread] at hterm
      exact bind_of_none hterm _
  | some found =>
      obtain ⟨left, rest⟩ := found
      rw [hread] at hterm
      obtain ⟨next, hrun, hle, rfl⟩ := hterm
      have hlt := readTerm?_shorter hread
      simp only [List.length_drop] at hlt
      rw [bind_of_some hrun]
      exact gives_joined hle (hinner (next + 1) (by omega))

/-- A depth of one for each token that is left is deep enough. -/
theorem gives_condition {depth : Nat} (hdepth : tokens.length ≤ position + depth) :
    Gives tokens (condition tokens depth position) (read? (tokens.drop position)) := by
  induction depth generalizing position with
  | zero =>
      have hle : tokens.length ≤ position := hdepth
      have hread : read? (tokens.drop position) = none := by
        rw [List.drop_eq_nil_of_le hle]
        simp [read?, Condition.readShorter]
      rw [hread]
      rfl
  | succ depth ih =>
      apply gives_level
      intro next hlt
      exact ih (by omega)

end

end Attempt

/-- Trying the alternatives one after the other finds the condition that is read, and ends at
the same position. -/
theorem Condition.attemptAt?_eq_readAt? (tokens : List Token) (position : Nat) :
    attemptAt? tokens position = readAt? tokens position := by
  have hcondition : Attempt.Gives tokens
      (Attempt.condition tokens tokens.length position) (read? (tokens.drop position)) :=
    Attempt.gives_condition (Nat.le_add_left _ _)
  unfold attemptAt? readAt? readClause?
  cases hread : read? (tokens.drop position) with
  | none =>
      rw [hread] at hcondition
      have hnone : (Attempt.condition tokens tokens.length position).1 = none := hcondition
      split
      · rfl
      · next hrun =>
          rw [hrun] at hnone
          cases hnone
  | some found =>
      obtain ⟨c, rest⟩ := found
      rw [hread] at hcondition
      obtain ⟨next, hrun, hle, hdrop⟩ := hcondition
      rw [hrun, ← hdrop]
      dsimp only [Option.map_some]
      split
      · next hthen =>
          obtain ⟨hlt, hget⟩ := List.getElem?_eq_some_iff.mp hthen
          rw [List.drop_eq_getElem_cons hlt, hget]
          simp only [List.length_drop, Option.some.injEq, Prod.mk.injEq, true_and]
          omega
      · next hthen =>
          split
          · next heq =>
              rw [← List.head?_drop, heq] at hthen
              exact absurd rfl hthen
          · simp only [List.length_drop, Option.some.injEq, Prod.mk.injEq, true_and]
            omega

/-- The right side is looked for once behind the flag and once behind the negation. -/
example :
    Condition.attemptAt? [.key .notOp, .flag ['a'], .key (.connective .and), .key .thenTag] 0 =
      some (.not (.flag ['a']), 2) := by decide +kernel

end Stencil
