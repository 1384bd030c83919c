import Stencil.Proofs.Names

/-!
# What tokens are read from

Every token has its source in the text, and the sources stand there one after the other. What
is left out between them is noise in a condition, in which no mark begins. Places in the text
are counted in bytes.
-/

namespace Stencil

/-! ## The source of a token -/

/-- The text that the token is read from. -/
def Token.StandsFor (source : Text) : Token → Prop
  | raw text => source = text
  | placeholder name | flag name =>
      ∃ inner : Text, ¬ closeBraces <:+: inner ∧ source = bracedName inner ∧ name = inner.trim
  | key word => source = word.tag

theorem Token.StandsFor.exists_inner {source name : Text} {token : Token}
    (h : token.StandsFor source) (hname : token = .placeholder name ∨ token = .flag name) :
    ∃ inner : Text, source = bracedName inner ∧ name = inner.trim := by
  rcases hname with rfl | rfl
  · obtain ⟨inner, -, hinner⟩ := h
    exact ⟨inner, hinner⟩
  · obtain ⟨inner, -, hinner⟩ := h
    exact ⟨inner, hinner⟩

namespace Scanner

theorem standsFor_of_begins? {inside : Bool} {t source rest : Text} {token : Token}
    (h : begins? inside t = some (source, token, rest)) : token.StandsFor source := by
  obtain ⟨happend, -⟩ := first?_eq_append (first?_of_begins? h)
  rcases begins?_cases h with ⟨inner, after, rfl, hsplit, rfl⟩ | ⟨word, -, rfl, rfl⟩
  · have hsource : source = bracedName inner := by
      rw [eq_of_splitAtClose hsplit, ← List.append_assoc, ← List.append_assoc] at happend
      exact (List.append_cancel_right happend).symm
    have hinner := not_closeBraces_of_splitAtClose hsplit
    cases inside <;> exact ⟨inner, hinner, hsource, rfl⟩
  · exact (List.append_cancel_right happend).symm

theorem first?_nil (inside : Bool) : first? inside [] = none := by
  cases inside <;> rfl

/-- What comes first is what begins there, or a single literal character. -/
theorem first?_cases {inside : Bool} {t source rest : Text} {token : Token}
    (h : first? inside t = some (source, token, rest)) :
    begins? inside t = some (source, token, rest) ∨
    ∃ c, begins? inside t = none ∧ t = c :: rest ∧ source = [c] ∧ token = .raw [c] := by
  cases hbegins : begins? inside t with
  | some found =>
      rw [first?_of_begins? hbegins] at h
      exact Or.inl h
  | none =>
      cases t with
      | nil =>
          rw [first?_nil] at h
          cases h
      | cons c t =>
          rw [first?_of_begins?_none hbegins] at h
          cases h
          exact Or.inr ⟨c, rfl, rfl, rfl, rfl⟩

theorem standsFor_of_first? {inside : Bool} {t source rest : Text} {token : Token}
    (h : first? inside t = some (source, token, rest)) : token.StandsFor source := by
  rcases first?_cases h with hbegins | ⟨c, -, -, rfl, rfl⟩
  · exact standsFor_of_begins? hbegins
  · rfl

theorem standsFor_of_next? {s s' : Scanner} {lexeme : Lexeme}
    (h : s.next? = some (lexeme, s')) : lexeme.token.StandsFor lexeme.source := by
  rcases next?_cases h with ⟨-, -, rfl, -⟩ | ⟨source, token, rest, -, hfirst, rfl, -⟩
  · rfl
  · exact standsFor_of_first? hfirst

theorem standsFor_of_mem {s : Scanner} {lexeme : Lexeme} (h : lexeme ∈ s.lexemes) :
    lexeme.token.StandsFor lexeme.source := by
  fun_induction lexemes s with
  | case1 s hnext => cases h
  | case2 s first s' hnext ih =>
      rcases List.mem_cons.mp h with rfl | h
      · exact standsFor_of_next? hnext
      · exact ih h

theorem source_ne_nil_of_mem {s : Scanner} {lexeme : Lexeme} (h : lexeme ∈ s.lexemes) :
    lexeme.source ≠ [] := by
  fun_induction lexemes s with
  | case1 s hnext => cases h
  | case2 s first s' hnext ih =>
      rcases List.mem_cons.mp h with rfl | h
      · exact (next?_eq_append hnext).2
      · exact ih h

theorem source_infix_of_mem {s : Scanner} {lexeme : Lexeme} (h : lexeme ∈ s.lexemes) :
    lexeme.source <:+: s.rest := by
  fun_induction lexemes s with
  | case1 s hnext => cases h
  | case2 s first s' hnext ih =>
      obtain ⟨happend, -⟩ := next?_eq_append hnext
      rcases List.mem_cons.mp h with rfl | h
      · exact ⟨_, _, happend.symm⟩
      · rw [happend]
        exact List.infix_append_of_infix_right (ih h)

end Scanner

/-! ## Places in a text -/

/-- The slice stands in the text between these two places, each of them between characters. -/
def Text.IsSlice (t : Text) (start stop : Nat) (slice : Text) : Prop :=
  ∃ before after, t = before ++ (slice ++ after) ∧ before.bytes = start ∧
    start + slice.bytes = stop

/-- No mark begins in the text from the one place on and before the other. -/
def MarkFree (t : Text) (start stop : Nat) : Prop :=
  ∀ before after, t = before ++ after → start ≤ before.bytes → before.bytes < stop →
    atMark after = false

theorem markFree_beforeMark (t : Text) : ∀ before : Text,
    MarkFree (before ++ t) before.bytes (before.bytes + (beforeMark t).bytes) := by
  induction t with
  | nil =>
      intro before front after heq hstart hstop
      simp only [beforeMark, Text.bytes_nil] at hstop
      omega
  | cons c t ih =>
      intro before front after heq hstart hstop
      cases hmark : atMark (c :: t) with
      | true =>
          simp only [beforeMark, hmark, if_true, Text.bytes_nil] at hstop
          omega
      | false =>
          simp only [beforeMark, hmark] at hstop
          rcases List.append_eq_append_iff.mp heq with ⟨front', rfl, htail⟩ | ⟨more, rfl, rfl⟩
          · cases front' with
            | nil =>
                obtain rfl : c :: t = after := htail
                exact hmark
            | cons d front' =>
                obtain ⟨rfl, rfl⟩ := List.cons_eq_cons.mp htail
                apply ih (before ++ [c]) (before ++ c :: front') after (by simp)
                · simp
                · simp at hstop ⊢
                  omega
          -- the place cannot lie before the text that is looked at
          · cases more with
            | nil => exact hmark
            | cons d more =>
                have hpos := d.utf8Size_pos
                simp only [Text.bytes_append, Text.bytes_cons] at hstart
                omega

namespace Scanner

/-! ## One lexeme -/

theorem first?_eq_none_iff {inside : Bool} {t : Text} : first? inside t = none ↔ t = [] := by
  constructor
  · intro h
    cases t with
    | nil => rfl
    | cons c t =>
        cases hbegins : begins? inside (c :: t) with
        | some found =>
            rw [first?_of_begins? hbegins] at h
            cases h
        | none =>
            rw [first?_of_begins?_none hbegins] at h
            cases h
  · rintro rfl
    exact first?_nil inside

/-- Only inside a condition is anything passed over, and then all that stands before a mark. -/
theorem skipped_of_next? {s s' : Scanner} {lexeme : Lexeme} (h : s.next? = some (lexeme, s')) :
    (s.inCondition = false → lexeme.skipped = []) ∧
      (lexeme.skipped = [] ∨ lexeme.skipped = beforeMark s.rest) := by
  rcases next?_cases h with ⟨-, -, rfl, -⟩ | ⟨source, token, rest, hplain, -, rfl, -⟩
  · exact ⟨fun _ => rfl, Or.inl rfl⟩
  · exact ⟨hplain, Or.inr rfl⟩

/-- The scanner stops at the end, or in a condition with nothing but noise to come. -/
theorem rest_of_next?_none {s : Scanner} (h : s.next? = none) :
    s.rest = [] ∨ s.inCondition = true ∧ beforeMark s.rest = s.rest := by
  unfold next? at h
  simp only at h
  split at h
  · cases h
  · next hplain =>
      have hfrom := first?_eq_none_iff.mp (Option.map_eq_none_iff.mp h)
      have hbefore : beforeMark s.rest = s.rest := by
        simpa [hfrom] using beforeMark_append_fromMark s.rest
      cases hinside : s.inCondition with
      | true => exact Or.inr ⟨rfl, hbefore⟩
      | false =>
          rw [hbefore] at hplain
          exact Or.inl (by simpa [hinside] using hplain)

/-! ## Lexeme after lexeme -/

/-- The scanner after so many lexemes, or after all of them if there are fewer. -/
def after (s : Scanner) : Nat → Scanner
  | 0 => s
  | n + 1 =>
      match s.next? with
      | some (_, s') => s'.after n
      | none => s

theorem after_succ {s s' : Scanner} {lexeme : Lexeme} (h : s.next? = some (lexeme, s')) (n : Nat) :
    s.after (n + 1) = s'.after n := by
  rw [after, h]

theorem next?_after {n : Nat} : ∀ {s : Scanner} (h : n < s.lexemes.length),
    (s.after n).next? = some (s.lexemes[n], s.after (n + 1)) := by
  induction n with
  | zero =>
      intro s h
      cases hnext : s.next? with
      | none => simp [lexemes_of_next?_none hnext] at h
      | some found =>
          obtain ⟨lexeme, s'⟩ := found
          simp [after, hnext, lexemes_of_next?_some hnext]
  | succ n ih =>
      intro s h
      cases hnext : s.next? with
      | none => simp [lexemes_of_next?_none hnext] at h
      | some found =>
          obtain ⟨lexeme, s'⟩ := found
          have hlater : n < s'.lexemes.length := by
            simpa [lexemes_of_next?_some hnext] using h
          rw [after_succ hnext, after_succ hnext, ih hlater]
          simp [lexemes_of_next?_some hnext]

/-- A token of the text is the one found after as many tokens as stand before it. -/
theorem next?_of_getElem?_tokens {s : Scanner} {n : Nat} {token : Token}
    (h : s.tokens[n]? = some token) :
    ∃ lexeme, (s.after n).next? = some (lexeme, s.after (n + 1)) ∧ lexeme.token = token := by
  obtain ⟨lexeme, hlexeme, htoken⟩ : ∃ lexeme,
      s.lexemes[n]? = some lexeme ∧ lexeme.token = token := by
    simpa [tokens] using h
  obtain ⟨hlength, rfl⟩ := List.getElem?_eq_some_iff.mp hlexeme
  exact ⟨_, next?_after hlength, htoken⟩

theorem next?_after_length (s : Scanner) : (s.after s.lexemes.length).next? = none := by
  fun_induction lexemes s with
  | case1 s hnext => exact hnext
  | case2 s lexeme s' hnext ih =>
      rw [List.length_cons, after_succ hnext]
      exact ih

theorem exists_rest_eq_append {n : Nat} : ∀ s : Scanner,
    ∃ before, s.rest = before ++ (s.after n).rest := by
  induction n with
  | zero => exact fun s => ⟨[], rfl⟩
  | succ n ih =>
      intro s
      cases hnext : s.next? with
      | none => exact ⟨[], by simp [after, hnext]⟩
      | some found =>
          obtain ⟨lexeme, s'⟩ := found
          obtain ⟨before, hrest⟩ := ih s'
          refine ⟨lexeme.skipped ++ lexeme.source ++ before, ?_⟩
          rw [after_succ hnext, (next?_eq_append hnext).1, hrest]
          simp

/-! ## Cursors -/

/-- The place in the text up to which it is read after so many tokens. -/
def cursor (t : Text) (n : Nat) : Nat := t.bytes - ((ofText t).after n).rest.bytes

theorem exists_before_cursor (t : Text) (n : Nat) :
    ∃ before, t = before ++ ((ofText t).after n).rest ∧ before.bytes = cursor t n := by
  obtain ⟨before, hrest⟩ := exists_rest_eq_append (ofText t)
  have hsplit : t = before ++ ((ofText t).after n).rest := hrest
  have hbytes : t.bytes = before.bytes + ((ofText t).after n).rest.bytes := by
    rw [← Text.bytes_append, ← hsplit]
  refine ⟨before, hsplit, ?_⟩
  rw [cursor]
  omega

/-- A lexeme is read from the cursor before it up to the cursor after it. -/
theorem exists_before_lexeme {t : Text} {n : Nat} {lexeme : Lexeme}
    (h : ((ofText t).after n).next? = some (lexeme, (ofText t).after (n + 1))) :
    ∃ before, t = before ++ ((ofText t).after n).rest ∧ before.bytes = cursor t n ∧
      (before ++ (lexeme.skipped ++ lexeme.source)).bytes = cursor t (n + 1) := by
  obtain ⟨before, hsplit, hcursor⟩ := exists_before_cursor t n
  obtain ⟨before', hsplit', hcursor'⟩ := exists_before_cursor t (n + 1)
  -- what is read now ends where the rest begins
  have hread : before' = before ++ (lexeme.skipped ++ lexeme.source) := by
    apply List.append_cancel_right
    rw [← hsplit', List.append_assoc, ← (next?_eq_append h).1]
    exact hsplit
  rw [hread] at hcursor'
  exact ⟨before, hsplit, hcursor, hcursor'⟩

/-- Between the cursors before and after the token stand a gap and the source of the token.
There is a gap only in a condition, and no mark begins in it. -/
def Covers (t : Text) (n : Nat) (token : Token) : Prop :=
  ∃ gap source, t.IsSlice (cursor t n) (cursor t (n + 1)) (gap ++ source) ∧
    token.StandsFor source ∧
    (((ofText t).after n).inCondition = false → gap = []) ∧
    MarkFree t (cursor t n) (cursor t n + gap.bytes)

theorem cursor_step {t : Text} {n : Nat} {token : Token}
    (h : (ofText t).tokens[n]? = some token) :
    cursor t n < cursor t (n + 1) ∧ cursor t (n + 1) ≤ t.bytes ∧ Covers t n token := by
  obtain ⟨lexeme, hnext, rfl⟩ := next?_of_getElem?_tokens h
  obtain ⟨hrest, hne⟩ := next?_eq_append hnext
  obtain ⟨houtside, hskipped⟩ := skipped_of_next? hnext
  obtain ⟨before, hsplit, hcursor, hcursor'⟩ := exists_before_lexeme hnext
  have hbytes : cursor t (n + 1) = cursor t n + (lexeme.skipped ++ lexeme.source).bytes := by
    rw [← hcursor', ← hcursor, Text.bytes_append]
  have hpos := Text.bytes_pos hne
  refine ⟨?_, Nat.sub_le _ _, lexeme.skipped, lexeme.source, ?_, standsFor_of_next? hnext,
    houtside, ?_⟩
  · rw [hbytes, Text.bytes_append]
    omega
  · refine ⟨before, ((ofText t).after (n + 1)).rest, ?_, hcursor, hbytes.symm⟩
    rw [← hrest]
    exact hsplit
  · rcases hskipped with hnone | hall
    · rw [hnone]
      intro front after heq hstart hstop
      exact absurd hstop (Nat.not_lt.mpr hstart)
    · have hfree := markFree_beforeMark ((ofText t).after n).rest before
      rwa [← hsplit, ← hall, hcursor] at hfree

/-- What is left after the last token is noise in a condition, or nothing. -/
theorem cursor_length (t : Text) : ∃ rest,
    t.IsSlice (cursor t (ofText t).lexemes.length) t.bytes rest ∧
      (rest = [] ∨ ((ofText t).after (ofText t).lexemes.length).inCondition = true ∧
        MarkFree t (cursor t (ofText t).lexemes.length) t.bytes) := by
  obtain ⟨before, hsplit, hcursor⟩ := exists_before_cursor t (ofText t).lexemes.length
  have hstop := rest_of_next?_none (next?_after_length (ofText t))
  generalize (ofText t).after (ofText t).lexemes.length = s at *
  have hbytes : t.bytes = before.bytes + s.rest.bytes := by
    rw [← Text.bytes_append, ← hsplit]
  rw [← hcursor]
  refine ⟨s.rest, ⟨before, [], by simpa using hsplit, rfl, hbytes.symm⟩, ?_⟩
  rcases hstop with hend | ⟨hinside, hnoise⟩
  · exact Or.inl hend
  · have hfree := markFree_beforeMark s.rest before
    rw [← hsplit, hnoise, ← hbytes] at hfree
    exact Or.inr ⟨hinside, hfree⟩

/-- The cursors go up through the text, from one character to another, and between two of
them stands the source of a token; only in a condition can noise stand before it. After the
last token no more than noise is left. -/
theorem cursors_cover (t : Text) :
    cursor t 0 = 0 ∧
    (∀ (n : Nat) (h : n < (ofText t).tokens.length),
      cursor t n < cursor t (n + 1) ∧ cursor t (n + 1) ≤ t.bytes ∧
        Covers t n (ofText t).tokens[n]) ∧
    ∃ rest, t.IsSlice (cursor t (ofText t).tokens.length) t.bytes rest ∧
      (rest = [] ∨ ((ofText t).after (ofText t).tokens.length).inCondition = true ∧
        MarkFree t (cursor t (ofText t).tokens.length) t.bytes) := by
  have hlength : (ofText t).tokens.length = (ofText t).lexemes.length := List.length_map _
  refine ⟨Nat.sub_self _, ?_, ?_⟩
  · exact fun n h => cursor_step (List.getElem?_eq_getElem h)
  · rw [hlength]
    exact cursor_length t

/-- A name of two bytes, and noise in a condition before, between and after what is found. -/
def noisyText : Text := "{{ é }}#if x#if AND y".toList

theorem cursors_noisyText :
    (cursor noisyText 2 < cursor noisyText 3 ∧ cursor noisyText 3 ≤ noisyText.bytes ∧
      Covers noisyText 2 (.raw ['#'])) ∧
    cursor noisyText 0 = 0 ∧ cursor noisyText 1 = 8 ∧ cursor noisyText 4 = 20 ∧
    ∃ rest, noisyText.IsSlice 20 22 rest ∧
      (rest = [] ∨ ((ofText noisyText).after 4).inCondition = true ∧ MarkFree noisyText 20 22) := by
  obtain ⟨hzero, hcover, hrest⟩ := cursors_cover noisyText
  have htokens : (ofText noisyText).tokens =
      [.placeholder ['é'], .key .ifTag, .raw ['#'], .key (.connective .and)] := by
    decide +kernel
  refine ⟨?_, hzero, by decide +kernel, by decide +kernel, ?_⟩
  · have hthird := hcover 2 (by rw [htokens]; decide)
    simpa [htokens] using hthird
  · have hlast : cursor noisyText 4 = 20 := by decide +kernel
    have hbytes : noisyText.bytes = 22 := by decide +kernel
    simpa [htokens, hlast, hbytes] using hrest

end Scanner

end Stencil
