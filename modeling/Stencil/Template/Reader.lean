import Stencil.Condition.Reader
import Stencil.SyntaxError
import Stencil.Template

/-!
# Reading templates

Tokens are read from left to right. The blocks that are open are kept from the
innermost outwards, and each token either adds a statement, opens, turns or closes
a block, or has no place. The lemmas `Reader.run_taken`, `Reader.run_asks`,
`Reader.run_asks_none` and `Reader.run_misplaced` say what one token does.
-/

namespace Stencil

/-- An open `#if` block. -/
structure Block where
  /-- The statements that stand before it. -/
  before : Template
  /-- The arms that an `#elseif` has ended, each with its condition. -/
  earlier : List (Condition × Template)
  condition : Condition
  /-- The last arm, once `#else` has ended it. -/
  thenBody : Option Template

namespace Block

/-- The tags that go on with the block. -/
def expected (block : Block) : List Keyword :=
  match block.thenBody with
  | none => [.elseIfTag, .elseTag, .endIfTag]
  | some _ => [.endIfTag]

/-- The finished block, if `body` is what the innermost branch holds. -/
def close (block : Block) (body : Template) : Node :=
  let last :=
    match block.thenBody with
    | none => .ifThen block.condition body
    | some thenBody => .ifThenElse block.condition thenBody body
  block.earlier.foldr (fun (c, arm) inner => .ifThenElse c arm [inner]) last

end Block

/-- What has been read: the statements of the innermost open branch, and the open blocks. -/
structure Progress where
  body : Template
  blocks : List Block

/-- What a token does: it is taken, it asks for a condition after it, or it has no place. -/
inductive Effect where
  | taken (progress : Progress)
  | asks (resume : Condition → Progress)
  | misplaced

namespace Progress

def start : Progress := ⟨[], []⟩

def add (p : Progress) (node : Node) : Progress := { p with body := p.body ++ [node] }

def openBlock (p : Progress) (c : Condition) : Progress := ⟨[], ⟨p.body, [], c, none⟩ :: p.blocks⟩

def step (p : Progress) (token : Token) : Effect :=
  match token, p.blocks with
  | .raw text, _ => .taken (p.add (.raw text))
  | .placeholder name, _ => .taken (p.add (.placeholder name))
  | .key .ifTag, _ => .asks p.openBlock
  | .key .elseIfTag, ⟨before, earlier, c, none⟩ :: outer =>
      .asks fun c' => ⟨[], ⟨before, earlier ++ [(c, p.body)], c', none⟩ :: outer⟩
  | .key .elseTag, ⟨before, earlier, c, none⟩ :: outer =>
      .taken ⟨[], ⟨before, earlier, c, some p.body⟩ :: outer⟩
  | .key .endIfTag, block :: outer => .taken ⟨block.before ++ [block.close p.body], outer⟩
  | _, _ => .misplaced

/-- The template, if no block is open. -/
def finish (p : Progress) : Except SyntaxError Template :=
  match p.blocks with
  | [] => .ok p.body
  | block :: _ => .error (.unterminatedIf block.expected)

end Progress

/-- The tokens that are left, and how many were read before them. -/
structure Reader where
  position : Nat
  rest : List Token
  deriving DecidableEq, Repr

namespace Reader

def ofTokens (tokens : List Token) : Reader := ⟨0, tokens⟩

/-- The place of a condition that cannot be read, shown by the tag before it and two
tokens from there on. -/
def location (tag : Token) (rest : List Token) : Text :=
  [' '].intercalate (((tag :: rest).take 3).map Token.display)

/-- Reads on from `p`. An error leaves the reader after the last token that was taken. -/
def run (p : Progress) (position : Nat) (tokens : List Token) :
    Except SyntaxError Template × Reader :=
  match tokens with
  | [] => (p.finish, ⟨position, []⟩)
  | token :: rest =>
      match p.step token with
      | .taken p' => run p' (position + 1) rest
      | .asks resume =>
          match _h : Condition.readClause? rest with
          | some (c, rest') => run (resume c) (position + 1 + (rest.length - rest'.length)) rest'
          | none =>
              (.error (.invalidCondition (location token rest) (position + 1)),
                ⟨position + 1, rest⟩)
      | .misplaced => (.error (.unexpectedToken token rest.head?), ⟨position + 1, rest⟩)
termination_by tokens.length
decreasing_by
  · simp
  · have := Condition.readClause?_shorter _h
    simp only [List.length_cons]
    omega

/-! ## One token at a time -/

@[simp] theorem run_nil (p : Progress) (position : Nat) :
    run p position [] = (p.finish, ⟨position, []⟩) := by
  rw [run]

theorem run_taken {p p' : Progress} {token : Token} (h : p.step token = .taken p')
    (position : Nat) (rest : List Token) :
    run p position (token :: rest) = run p' (position + 1) rest := by
  rw [run, h]

theorem run_misplaced {p : Progress} {token : Token} (h : p.step token = .misplaced)
    (position : Nat) (rest : List Token) :
    run p position (token :: rest) =
      (.error (.unexpectedToken token rest.head?), ⟨position + 1, rest⟩) := by
  rw [run, h]

theorem run_asks {p : Progress} {token : Token} {resume : Condition → Progress}
    {c : Condition} {rest rest' : List Token} (h : p.step token = .asks resume)
    (hclause : Condition.readClause? rest = some (c, rest')) (position : Nat) :
    run p position (token :: rest) =
      run (resume c) (position + 1 + (rest.length - rest'.length)) rest' := by
  rw [run, h]
  simp only
  split
  · next hclause' =>
      rw [hclause] at hclause'
      cases hclause'
      rfl
  · next hclause' =>
      rw [hclause] at hclause'
      cases hclause'

theorem run_asks_none {p : Progress} {token : Token} {resume : Condition → Progress}
    {rest : List Token} (h : p.step token = .asks resume)
    (hclause : Condition.readClause? rest = none) (position : Nat) :
    run p position (token :: rest) =
      (.error (.invalidCondition (location token rest) (position + 1)), ⟨position + 1, rest⟩) := by
  rw [run, h]
  simp only
  split
  · next hclause' =>
      rw [hclause] at hclause'
      cases hclause'
  · rfl

/-- Reads a template up to the end of the tokens or to an error. -/
def read (reader : Reader) : Except SyntaxError Template × Reader :=
  run .start reader.position reader.rest

end Reader

def Template.ofTokens (tokens : List Token) : Except SyntaxError Template :=
  (Reader.ofTokens tokens).read.1

/-- The `#endif` closes all arms of its block. -/
example : Template.ofTokens
    [.key .ifTag, .flag ['a'], .key .thenTag, .key .elseIfTag, .flag ['b'], .key .thenTag,
      .raw ['x'], .key .endIfTag] =
    .ok [.ifThenElse (.flag ['a']) [] [.ifThen (.flag ['b']) [.raw ['x']]]] := by
  with_unfolding_all rfl

end Stencil
