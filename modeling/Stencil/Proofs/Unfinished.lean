import Stencil.Proofs.Runs

/-!
# Blocks that are left open

Reading ends inside a block exactly if all that is missing are tags `#endif`. The error then
names the tags that can come next: each of them has a place there, and no other tag that
goes on with a block has.
-/

namespace Stencil

open Grammar

/-! ## Closing the open blocks -/

theorem exists_run_endIfs (blocks : List Block) : ∀ (body : Template) (position : Nat),
    ∃ template, (Reader.run ⟨body, blocks⟩ position
      (List.replicate blocks.length (.key .endIfTag))).1 = .ok template := by
  induction blocks with
  | nil =>
      intro body position
      refine ⟨body, ?_⟩
      rw [List.length_nil, List.replicate_zero, Reader.run_nil]
      rfl
  | cons block outer ih =>
      intro body position
      have hstep : Progress.step ⟨body, block :: outer⟩ (.key .endIfTag) =
          .taken ⟨block.before ++ [block.close body], outer⟩ := rfl
      rw [List.length_cons, List.replicate_succ, Reader.run_taken hstep]
      exact ih (block.before ++ [block.close body]) (position + 1)

theorem beginsBody_endIfs (k : Nat) :
    ∀ token ∈ (List.replicate k (Token.key .endIfTag)).head?, beginsBody token = true := by
  intro token hmem
  obtain rfl := List.eq_of_mem_replicate (List.mem_of_mem_head? hmem)
  rfl

/-- Where a run stops before the end of its tokens, no tokens after them help. -/
theorem ne_ok_of_stops {final : Progress} {rest more : List Token} (h : Stops final rest)
    (hrest : rest ≠ []) (hmore : ∀ token ∈ more.head?, beginsBody token = true)
    (position : Nat) (template : Template) :
    (Reader.run final position (rest ++ more)).1 ≠ .ok template := by
  cases h with
  | atEnd => exact absurd rfl hrest
  | misplaced after hstep =>
      rw [List.cons_append, Reader.run_misplaced hstep]
      intro hok
      cases hok
  | noCondition hstep hclause =>
      have hnone := readClause?_eq_none_of_offersNoMore (.of_beginsBody hmore) hclause
      rw [List.cons_append, Reader.run_asks_none hstep hnone]
      intro hok
      cases hok

/-! ## Reading up to the end -/

/-- The reader takes all tokens and is then inside this block. -/
def EndsInside (tokens : List Token) (block : Block) : Prop :=
  ∃ body outer, Reads [] .start tokens ⟨body, block :: outer⟩

theorem endsInside_of_unterminated {tokens : List Token} {expected : List Keyword}
    (h : Template.ofTokens tokens = .error (.unterminatedIf expected)) :
    ∃ block, EndsInside tokens block ∧ block.expected = expected := by
  obtain ⟨front, rest, final, rfl, hreads, hstops⟩ := exists_reads .start tokens
  rw [ofTokens_of_reads hreads] at h
  cases hstops with
  | atEnd =>
      rw [Reader.run_nil] at h
      obtain ⟨body, block, outer, rfl, herror⟩ := Progress.finish_eq_error h
      cases herror
      exact ⟨block, ⟨body, outer, by rwa [List.append_nil]⟩, rfl⟩
  | misplaced after hstep =>
      rw [Reader.run_misplaced hstep] at h
      cases h
  | noCondition hstep hclause =>
      rw [Reader.run_asks_none hstep hclause] at h
      cases h

theorem EndsInside.unterminated {tokens : List Token} {block : Block}
    (h : EndsInside tokens block) :
    Template.ofTokens tokens = .error (.unterminatedIf block.expected) := by
  obtain ⟨body, outer, hreads⟩ := h
  exact ofTokens_of_reads_nil hreads

theorem EndsInside.exists_ok {tokens : List Token} {block : Block} (h : EndsInside tokens block) :
    ∃ k template, 1 ≤ k ∧
      Template.ofTokens (tokens ++ List.replicate k (.key .endIfTag)) = .ok template := by
  obtain ⟨body, outer, hreads⟩ := h
  obtain ⟨template, hrun⟩ := exists_run_endIfs (block :: outer) body tokens.length
  refine ⟨(block :: outer).length, template, by simp, ?_⟩
  rw [ofTokens_append hreads (beginsBody_endIfs _)]
  exact hrun

theorem exists_endsInside_of_ok {tokens : List Token} {k : Nat} {template : Template}
    (hk : 1 ≤ k)
    (h : Template.ofTokens (tokens ++ List.replicate k (.key .endIfTag)) = .ok template) :
    ∃ block, EndsInside tokens block := by
  obtain ⟨front, rest, final, rfl, hreads, hstops⟩ := exists_reads .start tokens
  rw [List.append_assoc, ofTokens_of_reads (hreads.append (beginsBody_endIfs k))] at h
  by_cases hrest : rest = []
  · subst hrest
    obtain ⟨body, blocks⟩ := final
    cases blocks with
    | cons block outer => exact ⟨block, body, outer, by rwa [List.append_nil]⟩
    | nil =>
        -- without an open block the first tag would have no place
        obtain ⟨k, rfl⟩ := Nat.exists_eq_add_of_le' hk
        have hstep : Progress.step ⟨body, []⟩ (.key .endIfTag) = .misplaced := rfl
        rw [List.nil_append, List.replicate_succ, Reader.run_misplaced hstep] at h
        cases h
  · exact absurd h (ne_ok_of_stops hstops hrest (beginsBody_endIfs k) _ _)

/-! ## The tags that can come next -/

/-- The tags that go on with a block. -/
def blockTags : List Keyword := [.elseIfTag, .elseTag, .endIfTag]

theorem mem_blockTags {word : Keyword} :
    word ∈ blockTags ↔ word = .elseIfTag ∨ word = .elseTag ∨ word = .endIfTag := by
  simp [blockTags]

theorem step_misplaced_iff {body : Template} {block : Block} {outer : List Block}
    {word : Keyword} (hword : word ∈ blockTags) :
    Progress.step ⟨body, block :: outer⟩ (.key word) = .misplaced ↔
      word.tag ∉ block.expected.map Keyword.tag := by
  obtain ⟨before, earlier, c, thenBody⟩ := block
  rcases mem_blockTags.mp hword with rfl | rfl | rfl <;> cases thenBody <;>
    simp [Progress.step, Block.expected, Keyword.tag]

theorem ofTokens_snoc_iff {tokens : List Token} {block : Block} (h : EndsInside tokens block)
    {word : Keyword} (hword : word ∈ blockTags) :
    (∃ next, Template.ofTokens (tokens ++ [.key word]) =
      .error (.unexpectedToken (.key word) next)) ↔
      word.tag ∉ block.expected.map Keyword.tag := by
  obtain ⟨body, outer, hreads⟩ := h
  have hbegins : ∀ token ∈ [Token.key word].head?, beginsBody token = true := by
    intro token hmem
    obtain rfl : Token.key word = token := by simpa using hmem
    rcases mem_blockTags.mp hword with rfl | rfl | rfl <;> rfl
  rw [ofTokens_append hreads hbegins, ← step_misplaced_iff hword]
  constructor
  · rintro ⟨next, herror⟩
    cases hstep : Progress.step ⟨body, block :: outer⟩ (.key word) with
    | misplaced => rfl
    | taken p =>
        rw [Reader.run_taken hstep, Reader.run_nil] at herror
        obtain ⟨_, _, _, -, hopen⟩ := Progress.finish_eq_error herror
        cases hopen
    | asks resume =>
        rw [Reader.run_asks_none hstep Condition.readClause?_nil] at herror
        cases herror
  · intro hstep
    exact ⟨none, by rw [Reader.run_misplaced hstep]; rfl⟩

/-- A token sequence ends inside a block exactly if some number of tags `#endif`, not zero,
would make it a template. The tags that the error names are those of the three that would
then not be refused themselves. -/
theorem unterminated_iff (tokens : List Token) :
    ((∃ expected, Template.ofTokens tokens = .error (.unterminatedIf expected)) ↔
      ∃ k template, 1 ≤ k ∧
        Template.ofTokens (tokens ++ List.replicate k (.key .endIfTag)) = .ok template) ∧
    ∀ expected, Template.ofTokens tokens = .error (.unterminatedIf expected) →
      ∀ word ∈ [Keyword.elseIfTag, .elseTag, .endIfTag],
        (word.tag ∈ expected.map Keyword.tag ↔ ¬ ∃ next,
          Template.ofTokens (tokens ++ [.key word]) =
            .error (.unexpectedToken (.key word) next)) := by
  constructor
  · constructor
    · rintro ⟨expected, h⟩
      obtain ⟨block, hends, -⟩ := endsInside_of_unterminated h
      exact hends.exists_ok
    · rintro ⟨k, template, hk, h⟩
      obtain ⟨block, hends⟩ := exists_endsInside_of_ok hk h
      exact ⟨block.expected, hends.unterminated⟩
  · intro expected h word hword
    obtain ⟨block, hends, rfl⟩ := endsInside_of_unterminated h
    rw [ofTokens_snoc_iff hends hword, Classical.not_not]

/-- Two blocks, each after its `#else`. -/
def openTokens : List Token :=
  [.key .ifTag, .flag ['a'], .key .thenTag, .key .elseTag, .key .ifTag, .flag ['b'], .raw ['x'],
    .key .elseTag]

theorem unterminated_openTokens :
    Template.ofTokens openTokens = .error (.unterminatedIf [.endIfTag]) ∧
      (∃ k template, 1 ≤ k ∧
        Template.ofTokens (openTokens ++ List.replicate k (.key .endIfTag)) = .ok template) ∧
      ∃ next, Template.ofTokens (openTokens ++ [.key .elseTag]) =
        .error (.unexpectedToken (.key .elseTag) next) := by
  have h : Template.ofTokens openTokens = .error (.unterminatedIf [.endIfTag]) := by
    with_unfolding_all rfl
  obtain ⟨hclosed, hnamed⟩ := unterminated_iff openTokens
  refine ⟨h, hclosed.mp ⟨_, h⟩, ?_⟩
  apply Classical.byContradiction
  intro hplace
  exact absurd ((hnamed _ h .elseTag (by decide)).mpr hplace) (by decide)

end Stencil
