import Stencil.Proofs.Scanning
import Stencil.Rule

/-!
# The plain scanner

A scanner that never skips ahead. At each place it tries the rules of its mode one after
the other, and where none applies it takes a single character. By `joinRaw_plainTokens`
it finds what the scanner finds that jumps to the next mark, up to the joining of literal
texts.
-/

namespace Stencil.Scanner

/-! ## Rules -/

/-- What stands in the braces at the head of the text, and what stands after them. -/
def bracedAt? : Text → Option (Text × Text)
  | '{' :: '{' :: t => splitAtClose t
  | _ => none

namespace Rule

/-- The token at the head of the text, if it has this form, and the text after it. -/
def read? (t : Text) : Rule → Option (Token × Text)
  | placeholder => (bracedAt? t).map fun (inner, rest) => (.placeholder inner.trim, rest)
  | flag => (bracedAt? t).map fun (inner, rest) => (.flag inner.trim, rest)
  | key word => if word.tag.isPrefixOf t then some (.key word, t.drop word.tag.length) else none

end Rule

/-- The first rule of the mode that applies at the head of the text. -/
def rule? (inside : Bool) (t : Text) : Option (Token × Text) :=
  (Rule.all.filter (·.allowed inside)).findSome? (·.read? t)

/-! ## The order of the rules -/

theorem bracedAt?_eq_none {t : Text} (h : ¬ openBraces <+: t) : bracedAt? t = none := by
  unfold bracedAt?
  split
  · next after => exact absurd ⟨after, rfl⟩ h
  · rfl

/-- No tag begins with a brace. -/
theorem read?_key_braces (word : Keyword) (t : Text) :
    Rule.read? (openBraces ++ t) (.key word) = none := by
  cases word with
  | connective op => cases op <;> rfl
  | _ => rfl

/-- At no place do braces and a keyword begin both. -/
theorem bracedAt?_eq_none_or_key (t : Text) :
    bracedAt? t = none ∨ ∀ word, Rule.read? t (.key word) = none := by
  by_cases h : openBraces <+: t
  · obtain ⟨after, rfl⟩ := h
    exact Or.inr (fun word => read?_key_braces word after)
  · exact Or.inl (bracedAt?_eq_none h)

theorem findSome?_key (words : List Keyword) (t : Text) :
    (words.map Rule.key).findSome? (·.read? t) =
      (words.find? (·.tag.isPrefixOf t)).map fun word => (.key word, t.drop word.tag.length) := by
  induction words with
  | nil => rfl
  | cons word words ih =>
      rw [List.map_cons, List.findSome?_cons, List.find?_cons, Rule.read?, ih]
      cases word.tag.isPrefixOf t <;> rfl

theorem keyword?_eq_findSome? (inside : Bool) (t : Text) :
    (keyword? inside t).map Prod.snd =
      ((Keyword.all.filter (·.inCondition == inside)).map Rule.key).findSome? (·.read? t) := by
  have hfind : (Keyword.all.filter (·.inCondition == inside)).find? (·.tag.isPrefixOf t) =
      Keyword.all.find? fun word => word.inCondition == inside && word.tag.isPrefixOf t := by
    rw [List.find?_filter]
    congr 1
    funext word
    rw [Bool.eq_iff_iff]
    simp
  rw [findSome?_key, hfind, keyword?, Option.map_map]
  rfl

theorem name?_eq_read? (inside : Bool) (t : Text) :
    (name? inside t).map Prod.snd = Rule.read? t (if inside then .flag else .placeholder) := by
  by_cases h : openBraces <+: t
  · obtain ⟨after, rfl⟩ := h
    cases inside <;> exact Option.map_map _ _ _
  · have hname : name? inside t = none := by
      unfold name?
      split
      · next after => exact absurd ⟨after, rfl⟩ h
      · rfl
    rw [hname]
    cases inside <;> simp [Rule.read?, bracedAt?_eq_none h]

/-- The first rule that applies finds what begins at this place. Inside a condition the
rule for flags stands between the keywords, which makes no difference. -/
theorem rule?_eq (inside : Bool) (t : Text) :
    rule? inside t = (begins? inside t).map Prod.snd := by
  rw [begins?, Option.map_or, name?_eq_read?, keyword?_eq_findSome?]
  cases inside with
  | false =>
      have hrules : Rule.all.filter (·.allowed false) =
          .placeholder :: (Keyword.all.filter (·.inCondition == false)).map .key := rfl
      rw [rule?, hrules, List.findSome?_cons]
      cases hread : Rule.read? t .placeholder <;> simp [hread]
  | true =>
      have hrules : Rule.all.filter (·.allowed true) =
          [.openParen, .closeParen, .notOp].map .key ++
            .flag :: [.connective .and, .connective .or, .thenTag].map .key := rfl
      have hwords : Keyword.all.filter (·.inCondition == true) =
          [.openParen, .closeParen, .notOp] ++ [.connective .and, .connective .or, .thenTag] := rfl
      rw [rule?, hrules, hwords, List.map_append, List.findSome?_append, List.findSome?_append,
        List.findSome?_cons]
      rcases bracedAt?_eq_none_or_key t with hbraced | hkey
      · simp [Rule.read?, hbraced]
      · cases hread : Rule.read? t .flag <;> simp [hkey, hread]

theorem exists_begins?_of_rule? {inside : Bool} {t rest : Text} {token : Token}
    (h : rule? inside t = some (token, rest)) :
    ∃ source, begins? inside t = some (source, token, rest) := by
  rw [rule?_eq] at h
  obtain ⟨⟨source, token', rest'⟩, hbegins, heq⟩ := Option.map_eq_some_iff.mp h
  cases heq
  exact ⟨source, hbegins⟩

theorem rule?_eq_none_iff {inside : Bool} {t : Text} :
    rule? inside t = none ↔ begins? inside t = none := by
  rw [rule?_eq, Option.map_eq_none_iff]

theorem rule?_shorter {inside : Bool} {t rest : Text} {token : Token}
    (h : rule? inside t = some (token, rest)) : rest.length < t.length := by
  obtain ⟨source, hbegins⟩ := exists_begins?_of_rule? h
  exact begins?_shorter hbegins

theorem suffix_of_rule? {inside : Bool} {t rest : Text} {token : Token}
    (h : rule? inside t = some (token, rest)) : rest <:+ t := by
  obtain ⟨source, hbegins⟩ := exists_begins?_of_rule? h
  obtain ⟨rfl, -⟩ := first?_eq_append (first?_of_begins? hbegins)
  exact List.suffix_append _ _

/-! ## Scanning -/

/-- All tokens of a text. A character at which no rule applies is literal, except that
inside a condition only a character at a mark is. -/
def plainTokens (inside : Bool) (t : Text) : List Token :=
  match _h : rule? inside t with
  | some (token, rest) => token :: plainTokens (token.inConditionAfter inside) rest
  | none =>
      match t with
      | [] => []
      | c :: rest =>
          if inside && !atMark (c :: rest) then plainTokens inside rest
          else .raw [c] :: plainTokens inside rest
termination_by t.length
decreasing_by
  · exact rule?_shorter _h
  · simp
  · simp

theorem plainTokens_nil (inside : Bool) : plainTokens inside [] = [] := by
  have hrule : rule? inside [] = none := by cases inside <;> rfl
  rw [plainTokens]
  split
  · next h =>
      rw [hrule] at h
      cases h
  · rfl

theorem plainTokens_of_rule? {inside : Bool} {t rest : Text} {token : Token}
    (h : rule? inside t = some (token, rest)) :
    plainTokens inside t = token :: plainTokens (token.inConditionAfter inside) rest := by
  rw [plainTokens]
  split
  · next h' =>
      rw [h] at h'
      cases h'
      rfl
  · next h' =>
      rw [h] at h'
      cases h'

theorem plainTokens_of_rule?_none {inside : Bool} {c : Char} {t : Text}
    (h : rule? inside (c :: t) = none) :
    plainTokens inside (c :: t) =
      if inside && !atMark (c :: t) then plainTokens inside t
      else .raw [c] :: plainTokens inside t := by
  rw [plainTokens]
  split
  · next h' =>
      rw [h] at h'
      cases h'
  · rfl

/-- Keywords are found where they are written. -/
theorem tag_infix_of_mem {inside : Bool} {t : Text} {word : Keyword}
    (h : .key word ∈ plainTokens inside t) : word.tag <:+: t := by
  fun_induction plainTokens inside t with
  | case1 inside t token rest hrule ih =>
      rcases List.mem_cons.mp h with rfl | h
      · obtain ⟨source, hbegins⟩ := exists_begins?_of_rule? hrule
        rcases begins?_cases hbegins with ⟨inner, after, -, -, heq⟩ | ⟨word', -, rfl, heq⟩
        · cases inside <;> cases heq
        · cases heq
          exact (List.prefix_append _ _).isInfix
      · exact (ih h).trans (suffix_of_rule? hrule).isInfix
  | case2 inside hrule => cases h
  | case3 inside c rest hrule hnoise ih => exact List.infix_cons (ih h)
  | case4 inside c rest hrule hnoise ih =>
      rcases List.mem_cons.mp h with heq | h
      · cases heq
      · exact List.infix_cons (ih h)

theorem scans_joinRaw_plainTokens (inside : Bool) (t : Text) :
    Scans inside t (joinRaw (plainTokens inside t)) := by
  fun_induction plainTokens inside t with
  | case1 inside t token rest hrule ih =>
      obtain ⟨source, hbegins⟩ := exists_begins?_of_rule? hrule
      rw [joinRaw_cons (isRaw_of_begins? hbegins)]
      exact .begins hbegins ih
  | case2 inside hrule => exact .nil inside
  | case3 inside c rest hrule hnoise ih =>
      obtain ⟨rfl, hmark⟩ : inside = true ∧ atMark (c :: rest) = false := by simpa using hnoise
      exact .noise (rule?_eq_none_iff.mp hrule) hmark ih
  | case4 inside c rest hrule hnoise ih =>
      have hmark : inside = true → atMark (c :: rest) = true := by simpa using hnoise
      rw [joinRaw_raw]
      exact .literal (rule?_eq_none_iff.mp hrule) hmark ih

theorem joinRaw_plainTokens (inside : Bool) (t : Text) :
    joinRaw (plainTokens inside t) = joinRaw (tokens ⟨inside, t⟩) :=
  scans_iff.mp (scans_joinRaw_plainTokens inside t)

theorem arrange_plainTokens (t : Text) : arrange (plainTokens false t) = tokenize t := by
  rw [arrange_eq_trimmed, joinRaw_plainTokens]
  rfl

/-- Skipping to the next mark loses nothing: the joined tokens of a text are those of the
plain scanner, and so are its tokens after arranging. -/
theorem tokens_agree_plainTokens (t : Text) :
    joinRaw (ofText t).tokens = joinRaw (plainTokens false t) ∧
      tokenize t = arrange (plainTokens false t) :=
  ⟨(joinRaw_plainTokens false t).symm, (arrange_plainTokens t).symm⟩

end Stencil.Scanner
