import Stencil.Condition

/-!
# Attempts at a condition

The reader as it walks: the tokens stay as they are, and a position moves over them.
Every alternative is run on a copy of the position, which is kept only if the
alternative succeeds.

* term: brackets, or a negation, or a flag
* condition: a term, or a term with a connective and a condition
-/

namespace Stencil

/-- From a position, a result or none, and the position where it ends. -/
def Attempt (α : Type) : Type := Nat → Option α × Nat

namespace Attempt

variable {α β : Type}

def bind (first : Attempt α) (next : α → Attempt β) : Attempt β := fun position =>
  match first position with
  | (some a, position') => next a position'
  | (none, position') => (none, position')

instance : Monad Attempt where
  pure a := fun position => (some a, position)
  bind := bind

def fail : Attempt α := fun position => (none, position)

/-- Runs on a copy of the position. -/
def attempt (alternative : Attempt α) : Attempt α := fun position =>
  match alternative position with
  | (some a, position') => (some a, position')
  | (none, _) => (none, position)

def orElse (first second : Attempt α) : Attempt α := fun position =>
  match first position with
  | (some a, position') => (some a, position')
  | (none, position') => second position'

/-! ## Tokens -/

section

variable (tokens : List Token)

/-- The position moves on even where there is nothing to take. `#then` is part of no
condition, so it is never taken. -/
def consume : Attempt Token := fun position =>
  match tokens[position]? with
  | some (.key .thenTag) => (none, position + 1)
  | token? => (token?, position + 1)

def expect (word : Keyword) : Attempt Unit := do
  let token ← consume tokens
  if token = .key word then pure () else fail

/-! ## Alternatives

`inner` reads a condition one level deeper.
-/

variable (inner : Attempt Condition)

def brackets : Attempt Condition := do
  expect tokens .openParen
  let c ← inner
  expect tokens .closeParen
  return .brackets c

def negation : Attempt Condition := do
  expect tokens .notOp
  let c ← inner
  return .not c

def flag : Attempt Condition := do
  match ← consume tokens with
  | .flag name => return .flag name
  | _ => fail

def term : Attempt Condition :=
  ((attempt (brackets tokens inner)).orElse (attempt (negation tokens inner))).orElse
    (attempt (flag tokens))

/-- A connective and the condition on its right. -/
def rightSide : Attempt Condition := do
  let _ ← consume tokens
  inner

/-- Where there is no right side the position stays at the connective. -/
def joined (left : Condition) : Attempt Condition := fun position =>
  match tokens[position]? with
  | some (.key (.connective op)) =>
      match attempt (rightSide tokens inner) position with
      | (some right, position') => (some (.join op left right), position')
      | (none, position') => (some left, position')
  | _ => (some left, position)

def level : Attempt Condition := do
  let left ← attempt (term tokens inner)
  joined tokens inner left

/-- A condition with at most `depth` levels. Each of them takes a token. -/
def condition : Nat → Attempt Condition
  | 0 => fail
  | depth + 1 => level tokens (condition depth)

end

end Attempt

/-- The condition at a position, and the position after it and its `#then`. -/
def Condition.attemptAt? (tokens : List Token) (position : Nat) : Option (Condition × Nat) :=
  match Attempt.condition tokens tokens.length position with
  | (none, _) => none
  | (some c, position') =>
      match tokens[position']? with
      | some (.key .thenTag) => some (c, position' + 1)
      | _ => some (c, position')

end Stencil
