import Stencil.Proofs.Concatenation
import Stencil.Proofs.Discipline
import Stencil.Proofs.Spelling

/-!
# What stands behind a tag

No mark reaches over a number sign, so the text in front of a tag is read without regard to
what stands behind it, with one exception: open braces look for closing ones to the end of the
text. If the scanner finds a tag where it is written and the text behind it is exchanged for one
that supplies no new closing braces, the same tokens are found up to the tag.
-/

namespace Stencil

open Scanner

theorem Text.append_inj {t t' u u' : Text} (h : t ++ u = t' ++ u') (hbytes : t.bytes = t'.bytes) :
    t = t' ∧ u = u' := by
  rcases List.append_eq_append_iff.mp h with ⟨more, rfl, rfl⟩ | ⟨more, rfl, rfl⟩
  all_goals
    have hmore : more = [] := by
      by_contra hne
      have := Text.bytes_pos hne
      rw [Text.bytes_append] at hbytes
      omega
    simp [hmore]

/-! ## In front of a number sign -/

/-- The text begins with a mark, and no mark that begins before it reaches into it. -/
structure AtTag (t : Text) : Prop where
  hash : ∃ rest, t = '#' :: rest
  mark : atMark t = true

theorem atTag_append {word : Keyword} (h : word.tag.head? = some '#') (rest : Text) :
    AtTag (word.tag ++ rest) := by
  obtain ⟨tail, htail⟩ := List.head?_eq_some_iff.mp h
  refine ⟨⟨tail ++ rest, by rw [htail]; rfl⟩, atMark_iff.mpr (Or.inr ?_)⟩
  by_cases hword : word = .elseIfTag
  · subst hword
    exact ⟨.elseTag, by decide, ['i', 'f'] ++ rest, rfl⟩
  · exact ⟨word, hword, List.prefix_append _ _⟩

section AtTag

variable {w t : Text}

theorem prefix_of_append_atTag {mark : Text} (hmark : '#' ∉ mark.tail) (hw : w ≠ [])
    (ht : AtTag t) (h : mark <+: w ++ t) : mark <+: w := by
  obtain ⟨rest, rfl⟩ := ht.hash
  rcases prefix_append_cases h with h | ⟨more, hmore, rfl, hfront⟩
  · exact h
  · cases more with
    | nil => exact absurd rfl hmore
    | cons c more =>
        obtain ⟨rfl, -⟩ := List.cons_prefix_cons.mp hfront
        refine absurd ?_ hmark
        rw [List.tail_append_of_ne_nil hw]
        exact List.mem_append_right _ List.mem_cons_self

theorem hash_not_mem_tail (word : Keyword) : '#' ∉ word.tag.tail := by
  cases word with
  | connective op => cases op <;> decide
  | _ => decide

theorem tag_prefix_append_iff (hw : w ≠ []) (ht : AtTag t) (word : Keyword) :
    word.tag <+: w ++ t ↔ word.tag <+: w :=
  ⟨prefix_of_append_atTag (hash_not_mem_tail word) hw ht,
    fun h => h.trans (List.prefix_append _ _)⟩

theorem openBraces_prefix_append_iff (hw : w ≠ []) (ht : AtTag t) :
    openBraces <+: w ++ t ↔ openBraces <+: w :=
  ⟨prefix_of_append_atTag (by decide) hw ht, fun h => h.trans (List.prefix_append _ _)⟩

theorem atMark_append_atTag (hw : w ≠ []) (ht : AtTag t) : atMark (w ++ t) = atMark w := by
  rw [Bool.eq_iff_iff, atMark_iff, atMark_iff, openBraces_prefix_append_iff hw ht]
  simp only [tag_prefix_append_iff hw ht]

theorem beforeMark_append (w : Text) (ht : AtTag t) : beforeMark (w ++ t) = beforeMark w := by
  induction w with
  | nil => exact beforeMark_of_atMark ht.mark
  | cons c w ih =>
      have hmark := atMark_append_atTag (List.cons_ne_nil c w) ht
      rw [List.cons_append] at hmark ⊢
      rw [beforeMark, beforeMark, hmark, ih]

theorem fromMark_append (w : Text) (ht : AtTag t) : fromMark (w ++ t) = fromMark w ++ t := by
  induction w with
  | nil => exact fromMark_of_atMark ht.mark
  | cons c w ih =>
      have hmark := atMark_append_atTag (List.cons_ne_nil c w) ht
      rw [List.cons_append] at hmark ⊢
      rw [fromMark, fromMark, hmark, ih]
      split <;> rfl

end AtTag

namespace Scanner

/-! ## One step -/

theorem begins?_braces (inside : Bool) {after inner rest : Text}
    (h : splitAtClose after = some (inner, rest)) :
    begins? inside (openBraces ++ after) = some (bracedName inner,
      if inside then .flag inner.trim else .placeholder inner.trim, rest) := by
  have hname : name? inside (openBraces ++ after) = some (bracedName inner,
      if inside then .flag inner.trim else .placeholder inner.trim, rest) := by
    show (splitAtClose after).map _ = _
    rw [h]
    rfl
  rw [begins?, hname]
  rfl

/-- Where `#else` is found it does not go on as `#elseif`. -/
theorem not_if_of_begins? {source rest after : Text}
    (h : begins? false (Keyword.elseTag.tag ++ rest) = some (source, .key .elseTag, after)) :
    ¬ ['i', 'f'] <+: rest := by
  rintro ⟨more, rfl⟩
  have hlonger : begins? Keyword.elseIfTag.inCondition (Keyword.elseIfTag.tag ++ more) =
      some (Keyword.elseIfTag.tag, .key .elseIfTag, more) :=
    begins?_tag fun heq => by cases heq
  have heq := Option.some.inj (hlonger.symm.trans h)
  cases congrArg (fun found => found.2.1) heq

variable {x y : Text}

/-- What begins in front of a tag and ends there does so in front of another one too. -/
theorem begins?_exchange (hy : AtTag y) {inside : Bool} {w w' source : Text}
    {token : Token} (h : begins? inside (w ++ x) = some (source, token, w' ++ x)) :
    begins? inside (w ++ y) = some (source, token, w' ++ y) := by
  obtain ⟨happend, -⟩ := first?_eq_append (first?_of_begins? h)
  obtain rfl : w = source ++ w' := by
    rw [← List.append_assoc] at happend
    exact List.append_cancel_right happend
  rcases begins?_cases h with ⟨inner, after, hafter, hsplit, rfl⟩ | ⟨word, rfl, -, rfl⟩
  · have hbraced : source ++ (w' ++ x) = bracedName inner ++ (w' ++ x) := by
      calc source ++ (w' ++ x) = openBraces ++ after := by rw [← List.append_assoc, hafter]
        _ = bracedName inner ++ (w' ++ x) := by
          rw [eq_of_splitAtClose hsplit]
          simp [bracedName]
    obtain rfl := List.append_cancel_right hbraced
    have hinner := splitAtClose_append (not_closeBraces_snoc_of_splitAtClose hsplit) (w' ++ y)
    have hbegins := begins?_braces inside hinner
    simpa [bracedName] using hbegins
  · obtain rfl : source = word.tag := standsFor_of_begins? h
    rw [List.append_assoc] at h ⊢
    refine begins?_tag ?_
    rintro rfl hif
    refine not_if_of_begins? h ?_
    by_cases hw : w' = []
    · obtain ⟨rest, rfl⟩ := hy.hash
      obtain ⟨more, hmore⟩ := hif
      rw [hw] at hmore
      cases hmore
    · exact (prefix_of_append_atTag (by decide) hw hy hif).trans (List.prefix_append _ _)

theorem begins?_none_exchange (hy : AtTag y)
    (hclose : closeBraces <:+: y → closeBraces <:+: x) {inside : Bool} {w : Text} (hw : w ≠ [])
    (h : begins? inside (w ++ x) = none) : begins? inside (w ++ y) = none := by
  rw [begins?_eq_none_iff] at h ⊢
  obtain ⟨hbraces, hwords⟩ := h
  constructor
  · intro after hafter
    obtain ⟨v, rfl⟩ := (openBraces_prefix_append_iff hw hy).mp ⟨after, hafter.symm⟩
    rw [List.append_assoc] at hafter hbraces
    rw [← List.append_cancel_left hafter]
    have hopen := splitAtClose_eq_none_iff.mp (hbraces (v ++ x) rfl)
    have hv : ¬ closeBraces <:+: v := fun hv => hopen (List.infix_append_of_infix_left hv)
    have hnone : ¬ closeBraces <:+: y :=
      fun hmore => hopen (List.infix_append_of_infix_right (hclose hmore))
    obtain ⟨rest, rfl⟩ := hy.hash
    rw [splitAtClose_eq_none_iff]
    exact not_closeBraces_append hv hnone (Or.inr (by simp))
  · intro word hword
    rw [tag_prefix_append_iff hw hy]
    exact fun hfront => hwords word hword (hfront.trans (List.prefix_append _ _))

theorem first?_exchange (hy : AtTag y)
    (hclose : closeBraces <:+: y → closeBraces <:+: x) {inside : Bool} {w w' source : Text}
    {token : Token} (hw : w ≠ []) (h : first? inside (w ++ x) = some (source, token, w' ++ x)) :
    first? inside (w ++ y) = some (source, token, w' ++ y) := by
  cases hbegins : begins? inside (w ++ x) with
  | some found =>
      rw [first?_of_begins? hbegins] at h
      cases h
      exact first?_of_begins? (begins?_exchange hy hbegins)
  | none =>
      have hnone := begins?_none_exchange hy hclose hw hbegins
      cases w with
      | nil => exact absurd rfl hw
      | cons c w =>
          rw [List.cons_append] at h hbegins hnone ⊢
          rw [first?_of_begins?_none hbegins] at h
          rw [first?_of_begins?_none hnone]
          simp only [Option.some.injEq, Prod.mk.injEq] at h ⊢
          obtain ⟨rfl, rfl, hrest⟩ := h
          rw [List.append_cancel_right hrest]
          exact ⟨rfl, rfl, rfl⟩

theorem next?_of_plain {s : Scanner} (h : s.inCondition = false) (hplain : beforeMark s.rest ≠ []) :
    s.next? = some (⟨[], beforeMark s.rest, .raw (beforeMark s.rest)⟩,
      ⟨s.inCondition, fromMark s.rest⟩) := by
  simp [next?, h, hplain]

theorem next?_of_first? {s : Scanner} (h : s.inCondition = false → beforeMark s.rest = [])
    {source rest : Text} {token : Token}
    (hfirst : first? s.inCondition (fromMark s.rest) = some (source, token, rest)) :
    s.next? = some (⟨beforeMark s.rest, source, token⟩,
      ⟨token.inConditionAfter s.inCondition, rest⟩) := by
  cases hinside : s.inCondition with
  | false => simp [next?, hinside, h hinside, ← hfirst]
  | true => simp [next?, hinside, ← hfirst]

/-- A step in front of a tag is the same in front of another one. -/
theorem next?_exchange (hx : AtTag x) (hy : AtTag y)
    (hclose : closeBraces <:+: y → closeBraces <:+: x) {inside later : Bool} {w w' : Text}
    {lexeme : Lexeme} (h : next? ⟨inside, w ++ x⟩ = some (lexeme, ⟨later, w' ++ x⟩)) :
    next? ⟨inside, w ++ y⟩ = some (lexeme, ⟨later, w' ++ y⟩) := by
  have hbefore : beforeMark (w ++ y) = beforeMark (w ++ x) := by
    rw [beforeMark_append w hx, beforeMark_append w hy]
  rcases next?_cases h with ⟨houtside, hplain, rfl, hlater⟩ |
    ⟨source, token, rest, hplain, hfirst, rfl, hlater⟩
  · have hnext := next?_of_plain (s := ⟨inside, w ++ y⟩) houtside (by rwa [hbefore])
    simp only [fromMark_append w hx, mk.injEq, List.append_cancel_right_eq] at hlater
    obtain ⟨rfl, rfl⟩ := hlater
    rw [hnext, hbefore, fromMark_append w hy]
  · simp only [mk.injEq] at hlater
    obtain ⟨rfl, rfl⟩ := hlater
    simp only [fromMark_append w hx] at hfirst
    have hw : fromMark w ≠ [] := by
      intro hnil
      obtain ⟨happend, hne⟩ := first?_eq_append hfirst
      rw [hnil, List.nil_append, ← List.append_assoc] at happend
      have hlength := congrArg List.length happend
      have := List.length_pos_iff.mpr hne
      simp only [List.length_append] at hlength
      omega
    have hfirst' := first?_exchange hy hclose hw hfirst
    rw [← fromMark_append w hy] at hfirst'
    rw [← hbefore] at hplain ⊢
    exact next?_of_first? (s := ⟨inside, w ++ y⟩) hplain hfirst'

/-! ## The whole text in front -/

/-- Of two texts that differ from a tag on, the same tokens are found in front of it. -/
theorem tokens_exchange (hx : AtTag x) (hy : AtTag y)
    (hclose : closeBraces <:+: y → closeBraces <:+: x) (n : Nat) :
    ∀ {inside later : Bool} {w w' : Text}, after ⟨inside, w ++ x⟩ n = ⟨later, w' ++ x⟩ →
      ∃ front, tokens ⟨inside, w ++ x⟩ = front ++ tokens ⟨later, w' ++ x⟩ ∧
        tokens ⟨inside, w ++ y⟩ = front ++ tokens ⟨later, w' ++ y⟩ := by
  induction n with
  | zero =>
      intro inside later w w' h
      obtain ⟨rfl, heq⟩ := Scanner.mk.inj h
      rw [List.append_cancel_right heq]
      exact ⟨[], rfl, rfl⟩
  | succ n ih =>
      intro inside later w w' h
      cases hnext : next? ⟨inside, w ++ x⟩ with
      | none =>
          rw [after, hnext] at h
          obtain ⟨rfl, heq⟩ := Scanner.mk.inj h
          rw [List.append_cancel_right heq]
          exact ⟨[], rfl, rfl⟩
      | some found =>
          obtain ⟨lexeme, mode, rest⟩ := found
          rw [after_succ hnext] at h
          -- what is left after the first step still has the tag in it
          obtain ⟨before, hbefore⟩ := exists_rest_eq_append (n := n) ⟨mode, rest⟩
          rw [h, ← List.append_assoc] at hbefore
          obtain rfl : rest = before ++ w' ++ x := hbefore
          obtain ⟨front, htokens, htokens'⟩ := ih h
          refine ⟨lexeme.token :: front, ?_, ?_⟩
          · rw [tokens_of_next? hnext, htokens]
            rfl
          · rw [tokens_of_next? (next?_exchange hx hy hclose hnext), htokens']
            rfl

end Scanner

end Stencil
