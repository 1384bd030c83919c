import Stencil.Condition

/-!
# Reading conditions

A condition is read from the front of a token sequence and takes as many tokens as
it can. A connective whose right side cannot be read is left where it is. The
equations `read?_flag`, `read?_not`, `read?_openParen` and `extend_connective` say
how each form is read.
-/

namespace Stencil.Condition

mutual

/-- Reads a condition, and shows that something was taken. -/
def readShorter (tokens : List Token) :
    Option { found : Condition × List Token // found.2.length < tokens.length } :=
  match tokens with
  | .flag name :: rest =>
      let ⟨found, h⟩ := extendShorter (flag name) rest
      some ⟨found, Nat.lt_succ_of_le h⟩
  | .key .notOp :: rest =>
      match readShorter rest with
      | some ⟨(inner, rest'), h⟩ => some ⟨(not inner, rest'), Nat.lt_succ_of_lt h⟩
      | none => none
  | .key .openParen :: rest =>
      match readShorter rest with
      | some ⟨(inner, .key .closeParen :: rest'), h⟩ =>
          let ⟨found, h'⟩ := extendShorter (brackets inner) rest'
          some ⟨found, by simp only [List.length_cons] at h ⊢; omega⟩
      | _ => none
  | _ => none
termination_by 2 * tokens.length
decreasing_by all_goals simp only [List.length_cons] at *; omega

/-- Reads what joins on to `left`, if anything does. -/
def extendShorter (left : Condition) (tokens : List Token) :
    { found : Condition × List Token // found.2.length ≤ tokens.length } :=
  match tokens with
  | .key (.connective op) :: rest =>
      match readShorter rest with
      | some ⟨(right, rest'), h⟩ =>
          ⟨(join op left right, rest'), Nat.le_succ_of_le (Nat.le_of_lt h)⟩
      | none => ⟨(left, .key (.connective op) :: rest), Nat.le_refl _⟩
  | tokens => ⟨(left, tokens), Nat.le_refl _⟩
termination_by 2 * tokens.length + 1
decreasing_by all_goals simp only [List.length_cons] at *; omega

end

/-- The condition at the front of the tokens, and the tokens after it. -/
def read? (tokens : List Token) : Option (Condition × List Token) :=
  (readShorter tokens).map Subtype.val

def extend (left : Condition) (tokens : List Token) : Condition × List Token :=
  (extendShorter left tokens).val

theorem read?_shorter {tokens rest : List Token} {c : Condition}
    (h : read? tokens = some (c, rest)) : rest.length < tokens.length := by
  obtain ⟨⟨found, hfound⟩, -, rfl⟩ := Option.map_eq_some_iff.mp h
  exact hfound

/-! ## How each form is read -/

theorem read?_flag (name : Text) (rest : List Token) :
    read? (.flag name :: rest) = some (extend (flag name) rest) := by
  rw [read?, readShorter]
  rfl

theorem read?_not (rest : List Token) :
    read? (.key .notOp :: rest) = (read? rest).map fun (inner, rest') => (not inner, rest') := by
  rw [read?, readShorter, read?]
  cases readShorter rest <;> rfl

theorem read?_openParen (rest : List Token) :
    read? (.key .openParen :: rest) =
      match read? rest with
      | some (inner, .key .closeParen :: rest') => some (extend (brackets inner) rest')
      | _ => none := by
  rw [read?, readShorter, read?]
  cases hread : readShorter rest with
  | none => rfl
  | some found =>
      obtain ⟨⟨inner, rest'⟩, h⟩ := found
      cases rest' with
      | nil => rfl
      | cons token rest' =>
          cases token with
          | key word => cases word <;> rfl
          | _ => rfl

theorem extend_connective (left : Condition) (op : Connective) (rest : List Token) :
    extend left (.key (.connective op) :: rest) =
      match read? rest with
      | some (right, rest') => (join op left right, rest')
      | none => (left, .key (.connective op) :: rest) := by
  rw [extend, extendShorter, read?]
  cases readShorter rest <;> rfl

theorem extend_other {left : Condition} {tokens : List Token}
    (h : ∀ op rest, tokens ≠ .key (.connective op) :: rest) :
    extend left tokens = (left, tokens) := by
  rw [extend, extendShorter.eq_def]
  split
  · next op rest => exact absurd rfl (h op rest)
  · rfl

/-- `NOT` takes the whole rest of the condition. -/
example : read? [.key .notOp, .flag ['a'], .key (.connective .and), .flag ['b']] =
    some (not (join .and (flag ['a']) (flag ['b'])), []) := by decide +kernel

/-- A connective without a right side is left. -/
example : read? [.flag ['a'], .key (.connective .or), .key .closeParen] =
    some (flag ['a'], [.key (.connective .or), .key .closeParen]) := by decide +kernel

/-! ## A condition and its end -/

/-- The condition after `#if` or `#elseif`, with the `#then` that may close it. -/
def readClause? (tokens : List Token) : Option (Condition × List Token) :=
  (read? tokens).map fun (c, rest) =>
    match rest with
    | .key .thenTag :: body => (c, body)
    | rest => (c, rest)

theorem readClause?_shorter {tokens rest : List Token} {c : Condition}
    (h : readClause? tokens = some (c, rest)) : rest.length < tokens.length := by
  obtain ⟨⟨c', rest'⟩, hread, heq⟩ := Option.map_eq_some_iff.mp h
  have hlt := read?_shorter hread
  simp only at heq
  split at heq
  · simp only [Prod.mk.injEq] at heq
    obtain ⟨-, rfl⟩ := heq
    simp only [List.length_cons] at hlt
    omega
  · simp only [Prod.mk.injEq] at heq
    obtain ⟨-, rfl⟩ := heq
    exact hlt

/-- The condition that begins at a position, and the position after it and its `#then`. -/
def readAt? (tokens : List Token) (position : Nat) : Option (Condition × Nat) :=
  (readClause? (tokens.drop position)).map fun (c, rest) => (c, tokens.length - rest.length)

end Stencil.Condition
