import Stencil.Proofs.Attempts
import Stencil.Proofs.Runs

/-!
# Descents answer like the reader

The descent keeps the whole list of tokens and a position and calls itself for every block,
where the reader goes through the tokens once and keeps the open blocks. The two answer
alike from every position: `Descent.read_eq`. A run of the descent is compared with the
answer that the reader gives from the same place: either both have failed, or the reader's
answer is the one it has from where the descent has come to.
-/

namespace Stencil.Descent

open Grammar

variable {α β : Type}

/-- After a result `post` holds, and an error is the answer. -/
def Follows (tokens : List Token) (answer : Except SyntaxError Template × Reader)
    (post : α → Nat → Prop) (result : Except SyntaxError α × Nat) : Prop :=
  match result with
  | (.ok a, position) => post a position
  | (.error error, position) => answer = (.error error, ⟨position, tokens.drop position⟩)

section

variable {tokens : List Token} {answer : Except SyntaxError Template × Reader}

theorem Follows.bind {post : α → Nat → Prop} {post' : β → Nat → Prop} {first : Descent α}
    {next : α → Descent β} {position : Nat} (h : Follows tokens answer post (first position))
    (hnext : ∀ a position', post a position' → Follows tokens answer post' (next a position')) :
    Follows tokens answer post' ((first >>= next) position) := by
  show Follows tokens answer post' (Descent.bind first next position)
  unfold Descent.bind
  cases hfirst : first position with
  | mk result position' =>
      rw [hfirst] at h
      cases result with
      | ok a => exact hnext a position' h
      | error error => exact h

theorem Follows.mono {post post' : α → Nat → Prop} {result : Except SyntaxError α × Nat}
    (h : Follows tokens answer post result)
    (hpost : ∀ a position, post a position → post' a position) :
    Follows tokens answer post' result := by
  obtain ⟨result, position⟩ := result
  cases result with
  | ok a => exact hpost a position h
  | error error => exact h

/-! ## Tokens -/

theorem drop_of_getElem? {place : Nat} {token : Token} (h : tokens[place]? = some token) :
    tokens.drop place = token :: tokens.drop (place + 1) := by
  obtain ⟨hlt, rfl⟩ := List.getElem?_eq_some_iff.mp h
  exact List.drop_eq_getElem_cons hlt

theorem consume_of_some {place : Nat} {token : Token} (h : tokens[place]? = some token) :
    consume tokens place = (.ok (some token), place + 1) := by
  unfold consume
  rw [h]

theorem consume_of_none {place : Nat} (h : tokens[place]? = none) :
    consume tokens place = (.ok none, place) := by
  unfold consume
  rw [h]

theorem bind_of_ok {first : Descent α} {position position' : Nat} {a : α}
    (h : first position = (.ok a, position')) (next : α → Descent β) :
    (first >>= next) position = next a position' := by
  show Descent.bind first next position = _
  unfold Descent.bind
  rw [h]

theorem run_of_taken {p p' : Progress} {place : Nat} {token : Token}
    (htoken : tokens[place]? = some token) (hstep : p.step token = .taken p') :
    Reader.run p place (tokens.drop place) =
      Reader.run p' (place + 1) (tokens.drop (place + 1)) := by
  rw [drop_of_getElem? htoken, Reader.run_taken hstep]

theorem run_at_end {place : Nat} (hend : tokens.length ≤ place) (p : Progress) :
    Reader.run p place (tokens.drop place) = (p.finish, ⟨place, tokens.drop place⟩) := by
  rw [List.drop_eq_nil_of_le hend, Reader.run_nil]

/-! ## Conditions -/

theorem follows_invalid {p : Progress} {resume : Condition → Progress} {place : Nat}
    {tag : Token} (htag : tokens[place]? = some tag) (hstep : p.step tag = .asks resume)
    (hclause : Condition.readClause? (tokens.drop (place + 1)) = none)
    (hanswer : answer = Reader.run p place (tokens.drop place)) {post : α → Nat → Prop} :
    Follows tokens answer post (invalid tokens (place + 1)) := by
  have hdrop := drop_of_getElem? htag
  have hplace : (tokens.take place).length = place :=
    List.length_take_of_le (Nat.le_of_lt (List.getElem?_eq_some_iff.mp htag).1)
  have hlocation := location_eq_locationAt (tokens.take place) (tokens.drop (place + 1)) tag
  rw [← hdrop, List.take_append_drop, hplace] at hlocation
  rw [hdrop, Reader.run_asks_none hstep hclause, hlocation] at hanswer
  exact hanswer

/-- The one-pass reader and the descent look for the condition behind the same tag. -/
theorem follows_clause {p : Progress} {resume : Condition → Progress} {place : Nat} {tag : Token}
    (htag : tokens[place]? = some tag) (hstep : p.step tag = .asks resume)
    (hanswer : answer = Reader.run p place (tokens.drop place)) :
    Follows tokens answer (fun c position => place + 1 < position ∧
      answer = Reader.run (resume c) position (tokens.drop position))
      (clause tokens (place + 1)) := by
  unfold clause
  rw [Condition.attemptAt?_eq_readAt?, Condition.readAt?]
  cases hclause : Condition.readClause? (tokens.drop (place + 1)) with
  | none => exact follows_invalid htag hstep hclause hanswer
  | some found =>
      obtain ⟨c, rest⟩ := found
      obtain ⟨-, opener, -, htokens⟩ := opener_of_readClause? hclause
      have hsuffix : rest <:+ tokens := by
        refine List.IsSuffix.trans ⟨c.tokens ++ opener, ?_⟩ (List.drop_suffix (place + 1) tokens)
        rw [htokens, List.append_assoc]
      have hshort := Condition.readClause?_shorter hclause
      rw [drop_of_getElem? htag, Reader.run_asks hstep hclause] at hanswer
      rw [List.length_drop] at hshort hanswer
      have hposition : place + 1 + (tokens.length - (place + 1) - rest.length) =
          tokens.length - rest.length := by
        omega
      refine ⟨by omega, ?_⟩
      rw [hanswer, hposition, ← List.suffix_iff_eq_drop.mp hsuffix]

/-! ## Blocks and their branches -/

/-- The block that an `#elseif` chain comes to, if this is its last block. -/
def wrap (earlier : List (Condition × Template)) (node : Node) : Node :=
  earlier.foldr (fun (c, arm) inner => .ifThenElse c arm [inner]) node

/-- A call for a block leads the reader past the block. -/
def BlockFollows (tokens : List Token) (room : Nat) : Prop :=
  ∀ (earlier : List (Condition × Template)) {answer : Except SyntaxError Template × Reader}
    {p : Progress} {before : Template} {outer : List Block} {place : Nat} {tag : Token},
    tokens.length ≤ place + 1 + room → tokens[place]? = some tag →
    p.step tag = .asks (fun c => ⟨[], ⟨before, earlier, c, none⟩ :: outer⟩) →
    answer = Reader.run p place (tokens.drop place) →
    Follows tokens answer (fun node position => place + 1 < position ∧
      answer = Reader.run ⟨before ++ [wrap earlier node], outer⟩ position (tokens.drop position))
      (block tokens room (place + 1))

/-- A call for a branch leads the reader up to the tag that ends the branch. -/
def BranchFollows (tokens : List Token) (room : Nat) : Prop :=
  ∀ {answer : Except SyntaxError Template × Reader} {b : Block} {outer : List Block}
    {nodes : Template} {position : Nat}, tokens.length ≤ position + room →
    answer = Reader.run ⟨nodes, b :: outer⟩ position (tokens.drop position) →
    Follows tokens answer (fun (body, word) position' => word ∈ b.expected ∧
      ∃ place, position' = place + 1 ∧ position ≤ place ∧ tokens[place]? = some (.key word) ∧
        answer = Reader.run ⟨body, b :: outer⟩ place (tokens.drop place))
      (branch tokens room b.expected nodes position)

theorem follows_statement {room : Nat} (hblock : BlockFollows tokens room) {p : Progress}
    {place : Nat} {token : Token} (hroom : tokens.length ≤ place + 1 + room)
    (htoken : tokens[place]? = some token)
    (hother : ∀ word, token = .key word → word ≠ .ifTag → p.step token = .misplaced)
    (hanswer : answer = Reader.run p place (tokens.drop place)) :
    Follows tokens answer (fun node position => place < position ∧
      answer = Reader.run (p.add node) position (tokens.drop position))
      (statement tokens (block tokens room) token (place + 1)) := by
  have hdrop := drop_of_getElem? htoken
  have hmisplaced (hstep : p.step token = .misplaced) :
      Follows tokens answer (fun node position => place < position ∧
        answer = Reader.run (p.add node) position (tokens.drop position))
        (unexpected tokens token (place + 1)) := by
    rw [hdrop, Reader.run_misplaced hstep, List.head?_drop] at hanswer
    exact hanswer
  cases token with
  | raw text =>
      rw [run_of_taken htoken rfl] at hanswer
      exact ⟨Nat.lt_succ_self place, hanswer⟩
  | placeholder name =>
      rw [run_of_taken htoken rfl] at hanswer
      exact ⟨Nat.lt_succ_self place, hanswer⟩
  | flag name => exact hmisplaced rfl
  | key word =>
      by_cases hif : word = .ifTag
      · subst hif
        have hfollows := hblock [] hroom htoken rfl hanswer
        exact hfollows.mono fun node position h => ⟨Nat.lt_of_succ_lt h.1, h.2⟩
      · have hstatement : statement tokens (block tokens room) (.key word) =
            unexpected tokens (.key word) := by
          cases word with
          | ifTag => exact absurd rfl hif
          | _ => rfl
        rw [hstatement]
        exact hmisplaced (hother word rfl hif)

/-- Of the tags of a block only those that go on with it have a place. -/
theorem step_misplaced_of_not_mem {body : Template} {b : Block} {outer : List Block}
    {word : Keyword} (hword : word ≠ .ifTag) (h : word ∉ b.expected) :
    (⟨body, b :: outer⟩ : Progress).step (.key word) = .misplaced := by
  obtain ⟨before, earlier, c, thenBody⟩ := b
  cases word with
  | ifTag => exact absurd rfl hword
  | elseIfTag | elseTag =>
      cases thenBody with
      | none => exact absurd (by simp [Block.expected]) h
      | some thenBody => rfl
  | endIfTag => cases thenBody <;> exact absurd (by simp [Block.expected]) h
  | openParen | closeParen | notOp | connective op | thenTag => rfl

theorem branchFollows_zero (tokens : List Token) : BranchFollows tokens 0 := by
  intro answer b outer nodes position hroom hanswer
  have hend : tokens.length ≤ position := hroom
  rw [run_at_end hend] at hanswer
  unfold branch
  exact hanswer

theorem branchFollows_succ {room : Nat} (hblock : BlockFollows tokens room)
    (hbranch : BranchFollows tokens room) : BranchFollows tokens (room + 1) := by
  intro answer b outer nodes position hroom hanswer
  unfold branch
  cases htoken : tokens[position]? with
  | none =>
      rw [run_at_end (List.getElem?_eq_none_iff.mp htoken)] at hanswer
      rw [bind_of_ok (consume_of_none htoken)]
      exact hanswer
  | some token =>
      rw [bind_of_ok (consume_of_some htoken)]
      dsimp only
      cases hends : b.expected.find? (token = .key ·) with
      | some word =>
          have hword : token = .key word := by simpa using List.find?_some hends
          subst hword
          exact ⟨List.mem_of_find?_eq_some hends, position, rfl, Nat.le_refl _, htoken, hanswer⟩
      | none =>
          have hother : ∀ word, token = .key word → word ≠ .ifTag →
              (⟨nodes, b :: outer⟩ : Progress).step token = .misplaced := by
            rintro word rfl hword
            apply step_misplaced_of_not_mem hword
            intro hmem
            simpa using List.find?_eq_none.mp hends word hmem
          have hstatement := follows_statement hblock (by omega) htoken hother hanswer
          refine hstatement.bind ?_
          rintro node position' ⟨hlt, hanswer'⟩
          refine (hbranch (by omega) hanswer').mono ?_
          rintro ⟨body, word⟩ position'' ⟨hmem, place, heq, hle, hplace, hanswer''⟩
          exact ⟨hmem, place, heq, by omega, hplace, hanswer''⟩

theorem blockFollows_zero (tokens : List Token) : BlockFollows tokens 0 := by
  intro earlier answer p before outer place tag hroom htag hstep hanswer
  have hclause : Condition.readClause? (tokens.drop (place + 1)) = none := by
    rw [List.drop_eq_nil_of_le hroom]
    exact Condition.readClause?_nil
  exact follows_invalid htag hstep hclause hanswer

theorem blockFollows_succ {room : Nat} (hblock : BlockFollows tokens room)
    (hbranch : BranchFollows tokens room) : BlockFollows tokens (room + 1) := by
  intro earlier answer p before outer place tag hroom htag hstep hanswer
  unfold block
  refine (follows_clause htag hstep hanswer).bind ?_
  rintro c position ⟨hlt, hanswer⟩
  have hopen := hbranch (b := ⟨before, earlier, c, none⟩) (by omega) hanswer
  refine hopen.bind ?_
  rintro ⟨body, ending⟩ _ ⟨hending, place', rfl, hle, htag', hanswer⟩
  have hcases : ending = .elseIfTag ∨ ending = .elseTag ∨ ending = .endIfTag := by
    simpa [Block.expected] using hending
  rcases hcases with rfl | rfl | rfl
  -- the reader keeps this arm until the inner block has ended, the descent puts it around then
  · refine (hblock (earlier ++ [(c, body)]) (by omega) htag' rfl hanswer).bind ?_
    rintro inner position' ⟨hlt', hanswer⟩
    refine ⟨by omega, ?_⟩
    rw [wrap, List.foldr_append] at hanswer
    exact hanswer
  · rw [run_of_taken htag' rfl] at hanswer
    have helse := hbranch (b := ⟨before, earlier, c, some body⟩) (by omega) hanswer
    refine helse.bind ?_
    rintro ⟨other, word⟩ _ ⟨hword, place'', rfl, hle', htag'', hanswer⟩
    obtain rfl : word = .endIfTag := by simpa [Block.expected] using hword
    rw [run_of_taken htag'' rfl] at hanswer
    exact ⟨by omega, hanswer⟩
  · rw [run_of_taken htag' rfl] at hanswer
    exact ⟨by omega, hanswer⟩

theorem follows_calls (tokens : List Token) (room : Nat) :
    BlockFollows tokens room ∧ BranchFollows tokens room := by
  induction room with
  | zero => exact ⟨blockFollows_zero tokens, branchFollows_zero tokens⟩
  | succ room ih => exact ⟨blockFollows_succ ih.1 ih.2, branchFollows_succ ih.1 ih.2⟩

/-! ## Outside all blocks -/

/-- With no block open, a tag that opens none has no place. -/
theorem step_misplaced_outside {body : Template} {word : Keyword} (hword : word ≠ .ifTag) :
    (⟨body, []⟩ : Progress).step (.key word) = .misplaced := by
  cases word with
  | ifTag => exact absurd rfl hword
  | _ => rfl

theorem follows_statements {room position : Nat} {nodes : Template}
    (hroom : tokens.length ≤ position + room)
    (hanswer : answer = Reader.run ⟨nodes, []⟩ position (tokens.drop position)) :
    Follows tokens answer (fun template position' =>
      answer = (.ok template, ⟨position', tokens.drop position'⟩))
      (statements tokens room nodes position) := by
  induction room generalizing position nodes with
  | zero =>
      have hend : tokens.length ≤ position := hroom
      rw [run_at_end hend] at hanswer
      exact hanswer
  | succ room ih =>
      unfold statements
      cases htoken : tokens[position]? with
      | none =>
          rw [run_at_end (List.getElem?_eq_none_iff.mp htoken)] at hanswer
          rw [bind_of_ok (consume_of_none htoken)]
          exact hanswer
      | some token =>
          rw [bind_of_ok (consume_of_some htoken)]
          have hother : ∀ word, token = .key word → word ≠ .ifTag →
              (⟨nodes, []⟩ : Progress).step token = .misplaced := by
            rintro word rfl hword
            exact step_misplaced_outside hword
          have hstatement := follows_statement (follows_calls tokens room).1 (by omega) htoken
            hother hanswer
          refine hstatement.bind ?_
          rintro node position' ⟨hlt, hanswer'⟩
          exact ih (by omega) hanswer'

end

/-- From every position the descent has the result of the one-pass reader, and stops where
the reader stops. -/
theorem read_eq (tokens : List Token) (position : Nat) :
    (⟨position, tokens.drop position⟩ : Reader).read =
      ((read tokens position).1,
        ⟨(read tokens position).2, tokens.drop (read tokens position).2⟩) := by
  have hfollows : Follows tokens (Reader.read ⟨position, tokens.drop position⟩) _
      (read tokens position) :=
    follows_statements (Nat.le_add_left _ _) rfl
  generalize read tokens position = result at hfollows ⊢
  obtain ⟨result, position'⟩ := result
  cases result with
  | ok template => exact hfollows
  | error error => exact hfollows

theorem ofTokens_eq (tokens : List Token) : Template.ofTokens tokens = (read tokens 0).1 :=
  congrArg Prod.fst (read_eq tokens 0)

end Stencil.Descent
