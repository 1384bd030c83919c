import Stencil.ByteScanner
import Stencil.Proofs.PlainScanning
import Stencil.Proofs.Sources

/-!
# Scanning by bytes

The scanner that moves a cursor never cuts a character, and finds the tokens of
`Scanner.next?` one after the other: `ByteScanner.nextToken_cases`. So its cursor is
`Scanner.cursor` after every token: `ByteScanner.afterCalls_ofText`.
-/

namespace Stencil

/-! ## Where a part begins -/

namespace Text

theorem offset?_of_prefix {part t : Text} (h : part <+: t) : offset? part t = some 0 := by
  cases t with
  | nil => exact if_pos (List.prefix_nil.mp h)
  | cons c t => exact if_pos (List.isPrefixOf_iff_prefix.mpr h)

theorem offset?_cons {part : Text} {c : Char} {t : Text} (h : ¬ part <+: c :: t) :
    offset? part (c :: t) = (offset? part t).map (c.utf8Size + ·) :=
  if_neg fun hhead => h (List.isPrefixOf_iff_prefix.mp hhead)

end Text

theorem offset?_closeBraces (t : Text) :
    Text.offset? closeBraces t = (splitAtClose t).map fun (inner, _) => Text.bytes inner := by
  fun_induction splitAtClose t with
  | case1 => rfl
  | case2 t => exact Text.offset?_of_prefix (List.prefix_append closeBraces t)
  | case3 c t hclose ih =>
      have hhead : ¬ closeBraces <+: c :: t := by
        rintro ⟨rest, heq⟩
        cases heq
        exact hclose rest rfl rfl
      rw [Text.offset?_cons hhead, ih, Option.map_map, Option.map_map]
      rfl

namespace ByteScanner

open Scanner (Rule)

theorem foldl_min_map_add (k : Nat) (places : List Nat) : ∀ first : Nat,
    (places.map (k + ·)).foldl min (k + first) = k + places.foldl min first := by
  induction places with
  | nil => exact fun first => rfl
  | cons place places ih =>
      intro first
      rw [List.map_cons, List.foldl_cons, List.foldl_cons, Nat.add_min_add_left, ih]

theorem min?_map_add (k : Nat) (places : List Nat) :
    (places.map (k + ·)).min? = places.min?.map (k + ·) := by
  cases places with
  | nil => rfl
  | cons place places => exact congrArg some (foldl_min_map_add k places place)

/-- The special tags are the marks, though braces are listed twice among them. -/
theorem exists_specialTag_iff {t : Text} : (∃ tag ∈ specialTags, tag <+: t) ↔ atMark t = true := by
  have hmarks : specialTags ⊆ specialMarks := by decide
  have htags : specialMarks ⊆ specialTags := by decide
  simp only [atMark, List.any_eq_true, List.isPrefixOf_iff_prefix]
  constructor
  · rintro ⟨tag, htag, hhead⟩
    exact ⟨tag, hmarks htag, hhead⟩
  · rintro ⟨tag, htag, hhead⟩
    exact ⟨tag, htags htag, hhead⟩

theorem nextSpecial_of_atMark {t : Text} (h : atMark t = true) : nextSpecial t = 0 := by
  obtain ⟨tag, htag, hhead⟩ := exists_specialTag_iff.mpr h
  have hzero : 0 ∈ specialTags.filterMap (Text.offset? · t) :=
    List.mem_filterMap.mpr ⟨tag, htag, Text.offset?_of_prefix hhead⟩
  have hmin : (specialTags.filterMap (Text.offset? · t)).min? = some 0 :=
    List.min?_eq_some_iff.mpr ⟨hzero, fun _ _ => Nat.zero_le _⟩
  rw [nextSpecial, hmin]
  rfl

/-- Away from a mark every place that is found is one character further off. -/
theorem nextSpecial_cons {c : Char} {t : Text} (h : atMark (c :: t) = false) :
    nextSpecial (c :: t) = c.utf8Size + nextSpecial t := by
  have hplaces : specialTags.filterMap (Text.offset? · (c :: t)) =
      (specialTags.filterMap (Text.offset? · t)).map (c.utf8Size + ·) := by
    rw [List.map_filterMap]
    apply List.filterMap_congr
    intro tag htag
    apply Text.offset?_cons
    intro hhead
    rw [exists_specialTag_iff.mp ⟨tag, htag, hhead⟩] at h
    cases h
  rw [nextSpecial, nextSpecial, hplaces, min?_map_add]
  cases (specialTags.filterMap (Text.offset? · t)).min? <;> rfl

/-- The least of the places that are found is where the text before the next mark ends. -/
theorem nextSpecial_eq (t : Text) : nextSpecial t = (beforeMark t).bytes := by
  induction t with
  | nil => rfl
  | cons c t ih =>
      cases hmark : atMark (c :: t) with
      | true =>
          rw [nextSpecial_of_atMark hmark, Scanner.beforeMark_of_atMark hmark]
          rfl
      | false =>
          have hbefore : beforeMark (c :: t) = c :: beforeMark t := by simp [beforeMark, hmark]
          rw [nextSpecial_cons hmark, ih, hbefore, Text.bytes_cons]

/-! ## Standing in the text -/

/-- The cursor is where the rest of the other scanner begins. -/
structure Stands (t : Text) (b : ByteScanner) (s : Scanner) : Prop where
  input : b.input = t
  mode : b.inCondition = s.inCondition
  place : ∃ before, t = before ++ s.rest ∧ before.bytes = b.cursor

theorem stands_ofText (t : Text) : Stands t (ofText t) (.ofText t) := ⟨rfl, rfl, [], rfl, rfl⟩

section

variable {t : Text} {b : ByteScanner} {s : Scanner}

theorem Stands.remaining (h : Stands t b s) : b.remaining = some s.rest := by
  obtain ⟨before, hsplit, hbytes⟩ := h.place
  rw [ByteScanner.remaining, h.input, ← hbytes, hsplit]
  exact Text.fromByte?_append before s.rest

theorem Stands.moveOn (h : Stands t b s) {front rest : Text} (hrest : s.rest = front ++ rest)
    (inside : Bool) : Stands t ⟨b.input, b.cursor + front.bytes, inside⟩ ⟨inside, rest⟩ := by
  obtain ⟨before, hsplit, hbytes⟩ := h.place
  refine ⟨h.input, rfl, before ++ front, ?_, ?_⟩
  · rw [hsplit, hrest, List.append_assoc]
  · rw [Text.bytes_append, hbytes]

theorem Stands.advance (h : Stands t b s) {front rest : Text} (hrest : s.rest = front ++ rest) :
    Stands t (b.advance front.bytes) ⟨s.inCondition, rest⟩ := by
  rw [← h.mode]
  exact h.moveOn hrest b.inCondition

/-! ## Rules -/

theorem tryRule_of_not_allowed {rule : Rule} (h : Stands t b s)
    (hallowed : rule.allowed s.inCondition = false) : b.tryRule rule = some none := by
  unfold tryRule
  rw [h.mode, hallowed]
  rfl

theorem tryRule_of_not_prefix {rule : Rule} (h : Stands t b s)
    (hhead : ¬ rule.tag <+: s.rest) : b.tryRule rule = some none := by
  have htag : rule.tag.isPrefixOf s.rest = false := by
    rw [Bool.eq_false_iff]
    exact fun htag => hhead (List.isPrefixOf_iff_prefix.mp htag)
  unfold tryRule
  split
  · rfl
  · rw [h.remaining]
    simp [htag]

theorem tryRule_key {word : Keyword} (h : Stands t b s)
    (hallowed : (Rule.key word).allowed s.inCondition = true) (hhead : word.tag <+: s.rest) :
    b.tryRule (.key word) = some (some (b.found (.key word) word.tag.bytes)) := by
  have htag : word.tag.isPrefixOf s.rest = true := List.isPrefixOf_iff_prefix.mpr hhead
  unfold tryRule
  rw [h.mode, hallowed, h.remaining]
  simp [htag, Rule.tag, Rule.endTag?, Rule.token]

/-- The braces are closed where `splitAtClose` finds it. -/
theorem tryRule_braces {rule : Rule} {after : Text} (h : Stands t b s)
    (hallowed : rule.allowed s.inCondition = true) (htag : rule.tag = openBraces)
    (hend : rule.endTag? = some closeBraces) (hrest : s.rest = openBraces ++ after) :
    b.tryRule rule = some ((splitAtClose after).map fun (inner, _) =>
      b.found (rule.token inner) (bracedName inner).bytes) := by
  have hhead : openBraces.isPrefixOf s.rest = true :=
    List.isPrefixOf_iff_prefix.mpr ⟨after, hrest.symm⟩
  have hbody : Text.fromByte? s.rest openBraces.bytes = some after := by
    rw [hrest]
    exact Text.fromByte?_append openBraces after
  unfold tryRule
  rw [h.mode, hallowed, h.remaining, htag, hend]
  simp only [Option.bind_eq_bind, Option.bind_some, hhead, hbody, Bool.not_true,
    Bool.false_eq_true, if_false, offset?_closeBraces]
  cases hsplit : splitAtClose after with
  | none => rfl
  | some found =>
      obtain ⟨inner, rest⟩ := found
      have hinner : Text.untilByte? after inner.bytes = some inner := by
        rw [eq_of_splitAtClose hsplit, List.append_assoc]
        exact Text.untilByte?_append inner _
      have hbytes : Text.bytes openBraces + inner.bytes + Text.bytes closeBraces =
          (bracedName inner).bytes := by
        simp [bracedName, Nat.add_assoc]
      simp only [Option.map_some, hinner, Option.bind_some, hbytes]
      rfl

/-- The scanner by bytes finds what the rules read from the rest of the text, and stands
behind it. -/
def Finds (t : Text) (s : Scanner) (result : Option (Option (Token × ByteScanner))) :
    Option (Token × Text) → Prop
  | some (token, rest) => ∃ b', result = some (some (token, b')) ∧
      Stands t b' ⟨token.inConditionAfter s.inCondition, rest⟩
  | none => result = some none

theorem Stands.found (h : Stands t b s) {source rest : Text} (hrest : s.rest = source ++ rest)
    (token : Token) :
    Stands t (b.found token source.bytes).2 ⟨token.inConditionAfter s.inCondition, rest⟩ := by
  have hmoved := h.moveOn hrest (token.inConditionAfter b.inCondition)
  rw [h.mode] at hmoved
  unfold ByteScanner.found
  rw [h.mode]
  exact hmoved

theorem finds_braces {rule : Rule} (h : Stands t b s)
    (hallowed : rule.allowed s.inCondition = true) (htag : rule.tag = openBraces)
    (hend : rule.endTag? = some closeBraces) :
    Finds t s (b.tryRule rule)
      ((Scanner.bracedAt? s.rest).map fun (inner, rest) => (rule.token inner, rest)) := by
  by_cases hhead : openBraces <+: s.rest
  · obtain ⟨after, hrest⟩ := hhead
    have hbraced : Scanner.bracedAt? s.rest = splitAtClose after := by
      rw [← hrest]
      rfl
    rw [tryRule_braces h hallowed htag hend hrest.symm, hbraced]
    cases hsplit : splitAtClose after with
    | none => rfl
    | some found =>
        obtain ⟨inner, rest⟩ := found
        have hsource : s.rest = bracedName inner ++ rest := by
          rw [← hrest, eq_of_splitAtClose hsplit, bracedName]
          simp
        exact ⟨_, rfl, h.found hsource (rule.token inner)⟩
  · rw [Scanner.bracedAt?_eq_none hhead]
    exact tryRule_of_not_prefix h (htag ▸ hhead)

theorem finds_tryRule {rule : Rule} (h : Stands t b s)
    (hallowed : rule.allowed s.inCondition = true) :
    Finds t s (b.tryRule rule) (rule.read? s.rest) := by
  cases rule with
  | placeholder => exact finds_braces h hallowed rfl rfl
  | flag => exact finds_braces h hallowed rfl rfl
  | key word =>
      by_cases hhead : word.tag <+: s.rest
      · obtain ⟨rest, hrest⟩ := hhead
        have hread : Rule.read? s.rest (.key word) = some (.key word, rest) := by
          rw [← hrest]
          simp [Rule.read?]
        rw [tryRule_key h hallowed ⟨rest, hrest⟩, hread]
        exact ⟨_, rfl, h.found hrest.symm (.key word)⟩
      · have hread : Rule.read? s.rest (.key word) = none :=
          if_neg fun htag => hhead (List.isPrefixOf_iff_prefix.mp htag)
        rw [hread]
        exact tryRule_of_not_prefix h hhead

theorem finds_matchRules (h : Stands t b s) (rules : List Rule) :
    Finds t s (b.matchRules rules)
      ((rules.filter (·.allowed s.inCondition)).findSome? (·.read? s.rest)) := by
  induction rules with
  | nil => rfl
  | cons rule rules ih =>
      unfold matchRules
      cases hallowed : rule.allowed s.inCondition with
      | false =>
          rw [List.filter_cons_of_neg (by simp [hallowed]), tryRule_of_not_allowed h hallowed]
          exact ih
      | true =>
          have hrule := finds_tryRule h hallowed
          rw [List.filter_cons_of_pos hallowed, List.findSome?_cons]
          cases hread : rule.read? s.rest with
          | none =>
              rw [hread] at hrule
              have hnone : b.tryRule rule = some none := hrule
              rw [hnone]
              exact ih
          | some found =>
              obtain ⟨token, rest⟩ := found
              rw [hread] at hrule
              obtain ⟨b', hsome, hstands⟩ := hrule
              rw [hsome]
              exact ⟨b', rfl, hstands⟩

/-- A rule applies where something begins. -/
theorem matchRules_of_begins? {source rest : Text} {token : Token} (h : Stands t b s)
    (hbegins : Scanner.begins? s.inCondition s.rest = some (source, token, rest)) :
    ∃ b', b.matchRules Rule.all = some (some (token, b')) ∧
      Stands t b' ⟨token.inConditionAfter s.inCondition, rest⟩ := by
  have hrule : Scanner.rule? s.inCondition s.rest = some (token, rest) := by
    rw [Scanner.rule?_eq, hbegins]
    rfl
  have hfinds := finds_matchRules h Rule.all
  unfold Scanner.rule? at hrule
  rw [hrule] at hfinds
  exact hfinds

theorem matchRules_of_begins?_none (h : Stands t b s)
    (hbegins : Scanner.begins? s.inCondition s.rest = none) :
    b.matchRules Rule.all = some none := by
  have hrule : Scanner.rule? s.inCondition s.rest = none := Scanner.rule?_eq_none_iff.mpr hbegins
  have hfinds := finds_matchRules h Rule.all
  unfold Scanner.rule? at hrule
  rw [hrule] at hfinds
  exact hfinds

/-! ## Literal text -/

theorem rawText_at_mark {c : Char} {rest : Text} (h : Stands t b s) (hrest : s.rest = c :: rest)
    (hplain : beforeMark s.rest = []) :
    b.rawText = some (some (.raw [c]), b.advance c.utf8Size) := by
  have hnext : nextSpecial s.rest = 0 := by
    rw [nextSpecial_eq, hplain]
    rfl
  unfold rawText
  rw [h.remaining]
  simp only [Option.bind_eq_bind, Option.bind_some, hnext, if_true]
  rw [hrest]
  rfl

theorem rawText_before_mark (h : Stands t b s) (hplain : beforeMark s.rest ≠ []) :
    b.rawText = some (if s.inCondition then none else some (.raw (beforeMark s.rest)),
      b.advance (beforeMark s.rest).bytes) := by
  have hnext : nextSpecial s.rest ≠ 0 := by
    rw [nextSpecial_eq]
    exact (Text.bytes_pos hplain).ne'
  have huntil : Text.untilByte? s.rest (nextSpecial s.rest) = some (beforeMark s.rest) := by
    have happend := Text.untilByte?_append (beforeMark s.rest) (fromMark s.rest)
    rwa [beforeMark_append_fromMark, ← nextSpecial_eq] at happend
  unfold rawText
  rw [h.remaining, h.mode, ← nextSpecial_eq]
  simp only [Option.bind_eq_bind, Option.bind_some, if_neg hnext, huntil]
  cases s.inCondition <;> rfl

end

/-! ## One call -/

theorem nextToken_nil {b : ByteScanner} (hrest : b.remaining = some []) :
    b.nextToken = some (none, b) := by
  rw [nextToken]
  split
  · next hrest' =>
      rw [hrest] at hrest'
      cases hrest'
  · rfl
  · next hrest' =>
      rw [hrest] at hrest'
      cases hrest'

theorem nextToken_cons {b : ByteScanner} {c : Char} {rest : Text}
    (hrest : b.remaining = some (c :: rest)) :
    b.nextToken = match b.turn with
      | some (none, b') => b'.nextToken
      | found => found := by
  rw [nextToken]
  split
  · next hrest' =>
      rw [hrest] at hrest'
      cases hrest'
  · next hrest' =>
      rw [hrest] at hrest'
      cases hrest'
  · split <;> next hturn => rw [hturn]

section

variable {t : Text} {b : ByteScanner} {s : Scanner}

theorem turn_of_begins?_none (h : Stands t b s)
    (hnone : Scanner.begins? s.inCondition s.rest = none) : b.turn = b.rawText := by
  unfold turn
  rw [matchRules_of_begins?_none h hnone]

/-- At a mark the token is the one that begins there, or the single character. -/
theorem nextToken_at_mark {source rest : Text} {token : Token} (h : Stands t b s)
    (hplain : beforeMark s.rest = [])
    (hfirst : Scanner.first? s.inCondition s.rest = some (source, token, rest)) :
    ∃ b', b.nextToken = some (some token, b') ∧
      Stands t b' ⟨token.inConditionAfter s.inCondition, rest⟩ := by
  obtain ⟨hsource, hne⟩ := Scanner.first?_eq_append hfirst
  have hrest : s.rest ≠ [] := by
    rw [hsource]
    exact List.append_ne_nil_of_left_ne_nil hne rest
  obtain ⟨c, tail, hcons⟩ := List.exists_cons_of_ne_nil hrest
  rw [nextToken_cons (hcons ▸ h.remaining)]
  rcases Scanner.first?_cases hfirst with hbegins | ⟨c', hnone, hrest', rfl, rfl⟩
  · obtain ⟨b', hrule, hstands⟩ := matchRules_of_begins? h hbegins
    refine ⟨b', ?_, hstands⟩
    unfold turn
    rw [hrule]
  · refine ⟨b.advance c'.utf8Size, ?_, h.advance hsource⟩
    rw [turn_of_begins?_none h hnone, rawText_at_mark h hrest' hplain]

/-- No rule applies before a mark. -/
theorem turn_before_mark (h : Stands t b s) (hplain : beforeMark s.rest ≠ []) :
    b.turn = some (if s.inCondition then none else some (.raw (beforeMark s.rest)),
      b.advance (beforeMark s.rest).bytes) := by
  have hnone : Scanner.begins? s.inCondition s.rest = none := by
    cases hbegins : Scanner.begins? s.inCondition s.rest with
    | none => rfl
    | some found =>
        exact absurd (Scanner.beforeMark_of_atMark (Scanner.atMark_of_begins? hbegins)) hplain
  rw [turn_of_begins?_none h hnone, rawText_before_mark h hplain]

theorem Stands.advance_beforeMark (h : Stands t b s) :
    Stands t (b.advance (beforeMark s.rest).bytes) ⟨s.inCondition, fromMark s.rest⟩ :=
  h.advance (beforeMark_append_fromMark s.rest).symm

theorem remaining_before_mark (h : Stands t b s) (hplain : beforeMark s.rest ≠ []) :
    ∃ c rest, b.remaining = some (c :: rest) := by
  have hrest : s.rest ≠ [] := by
    intro hnil
    rw [hnil] at hplain
    exact hplain rfl
  obtain ⟨c, rest, hcons⟩ := List.exists_cons_of_ne_nil hrest
  exact ⟨c, rest, hcons ▸ h.remaining⟩

/-- Outside a condition the text before a mark is a token. -/
theorem nextToken_plain (h : Stands t b s) (hplain : beforeMark s.rest ≠ [])
    (houtside : s.inCondition = false) :
    b.nextToken =
      some (some (.raw (beforeMark s.rest)), b.advance (beforeMark s.rest).bytes) := by
  obtain ⟨c, rest, hremaining⟩ := remaining_before_mark h hplain
  rw [nextToken_cons hremaining, turn_before_mark h hplain, houtside]
  rfl

/-- Inside it is passed over. -/
theorem nextToken_noise (h : Stands t b s) (hplain : beforeMark s.rest ≠ [])
    (hinside : s.inCondition = true) :
    b.nextToken = (b.advance (beforeMark s.rest).bytes).nextToken := by
  obtain ⟨c, rest, hremaining⟩ := remaining_before_mark h hplain
  rw [nextToken_cons hremaining, turn_before_mark h hplain, hinside]
  rfl

/-- A call finds the token of the next lexeme and leaves the cursor behind it. After the last
lexeme it finds nothing. -/
def Answers (t : Text) (b : ByteScanner) : Option (Lexeme × Scanner) → Prop
  | some (lexeme, s') => ∃ b', b.nextToken = some (some lexeme.token, b') ∧ Stands t b' s'
  | none => ∃ b', b.nextToken = some (none, b')

/-- When noise is passed over the call goes on from the mark, or from the end. -/
theorem nextToken_cases (h : Stands t b s) : Answers t b s.next? := by
  cases hnext : s.next? with
  | some found =>
      obtain ⟨lexeme, s'⟩ := found
      rcases Scanner.next?_cases hnext with
        ⟨houtside, hplain, rfl, rfl⟩ | ⟨source, token, rest, hinside, hfirst, rfl, rfl⟩
      · exact ⟨_, nextToken_plain h hplain houtside, h.advance_beforeMark⟩
      · by_cases hplain : beforeMark s.rest = []
        · have hmark : fromMark s.rest = s.rest := by
            simpa [hplain] using beforeMark_append_fromMark s.rest
          rw [hmark] at hfirst
          exact nextToken_at_mark h hplain hfirst
        -- noise is passed over, and the same call goes on at the mark
        · have hmode : s.inCondition = true := by
            rw [← Bool.not_eq_false]
            exact fun houtside => hplain (hinside houtside)
          have hmoved := h.advance_beforeMark
          obtain ⟨b', htoken, hstands⟩ :=
            nextToken_at_mark hmoved (Scanner.beforeMark_fromMark s.rest) hfirst
          exact ⟨b', (nextToken_noise h hplain hmode).trans htoken, hstands⟩
  | none =>
      by_cases hrest : s.rest = []
      · exact ⟨b, nextToken_nil (hrest ▸ h.remaining)⟩
      · obtain hend | ⟨hmode, hnoise⟩ := Scanner.rest_of_next?_none hnext
        · exact absurd hend hrest
        -- nothing but noise is left
        · have hplain : beforeMark s.rest ≠ [] := by
            rw [hnoise]
            exact hrest
          have hmark : fromMark s.rest = [] := by
            simpa [hnoise] using beforeMark_append_fromMark s.rest
          have hremaining := h.advance_beforeMark.remaining
          rw [hmark] at hremaining
          exact ⟨_, (nextToken_noise h hplain hmode).trans (nextToken_nil hremaining)⟩

end

/-! ## Call after call -/

theorem Stands.afterCalls {t : Text} {n : Nat} : ∀ {b : ByteScanner} {s : Scanner},
    Stands t b s → n ≤ s.lexemes.length →
      ∃ b', b.afterCalls n = some b' ∧ Stands t b' (s.after n) := by
  induction n with
  | zero => exact fun {b s} h hn => ⟨b, rfl, h⟩
  | succ n ih =>
      intro b s h hn
      have hanswers := nextToken_cases h
      cases hnext : s.next? with
      | none =>
          rw [Scanner.lexemes_of_next?_none hnext] at hn
          cases hn
      | some found =>
          obtain ⟨lexeme, s'⟩ := found
          rw [hnext] at hanswers
          obtain ⟨b', htoken, hstands⟩ := hanswers
          rw [Scanner.lexemes_of_next?_some hnext] at hn
          obtain ⟨b'', hcalls, hstands'⟩ := ih hstands (Nat.le_of_succ_le_succ hn)
          refine ⟨b'', ?_, ?_⟩
          · rw [ByteScanner.afterCalls, htoken]
            exact hcalls
          · rw [Scanner.after_succ hnext]
            exact hstands'

theorem Stands.cursor {t : Text} {n : Nat} {b : ByteScanner}
    (h : Stands t b ((Scanner.ofText t).after n)) : b.cursor = Scanner.cursor t n := by
  obtain ⟨before, hsplit, hbytes⟩ := h.place
  obtain ⟨before', hsplit', hbytes'⟩ := Scanner.exists_before_cursor t n
  have heq : before = before' := List.append_cancel_right (hsplit.symm.trans hsplit')
  rw [← hbytes, heq, hbytes']

/-- No slice is cut inside a character. Every call finds the token that is the next one, up to
the end of the tokens, and stops at the cursor behind it. -/
theorem afterCalls_ofText (t : Text) {n : Nat} (h : n ≤ (Scanner.ofText t).tokens.length) :
    ∃ b, (ofText t).afterCalls n = some b ∧ b.cursor = Scanner.cursor t n ∧
      b.inCondition = ((Scanner.ofText t).after n).inCondition ∧
      b.nextToken.map Prod.fst = some (Scanner.ofText t).tokens[n]? := by
  have hlength : n ≤ (Scanner.ofText t).lexemes.length := by
    simpa [Scanner.tokens] using h
  obtain ⟨b, hcalls, hstands⟩ := (stands_ofText t).afterCalls hlength
  refine ⟨b, hcalls, hstands.cursor, hstands.mode, ?_⟩
  have hanswers := nextToken_cases hstands
  rcases Nat.lt_or_eq_of_le hlength with hlt | rfl
  · rw [Scanner.next?_after hlt] at hanswers
    obtain ⟨b', htoken, -⟩ := hanswers
    rw [htoken]
    simp [Scanner.tokens, hlt]
  · rw [Scanner.next?_after_length] at hanswers
    obtain ⟨b', hend⟩ := hanswers
    rw [hend]
    simp [Scanner.tokens]

end ByteScanner

end Stencil
