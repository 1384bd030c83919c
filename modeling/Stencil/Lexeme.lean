import Stencil.Text.Blank
import Stencil.Token

/-!
# Lexemes

A template read from left to right. Text is literal up to the next mark, a place
where a placeholder or a control tag could begin; inside a condition literal text
is noise and is passed over. A mark that begins nothing is taken as one literal
character, so that reading always moves on. By `Scanner.next?_eq_append` no part of
the template is lost: it is the noise and the text of each lexeme in turn.
-/

namespace Stencil

/-! ## Marks -/

/-- Where literal text may end. `#elseif` begins with `#else`. -/
def specialMarks : List Text :=
  openBraces :: (Keyword.all.filter (· ≠ .elseIfTag)).map Keyword.tag

def atMark (t : Text) : Bool := specialMarks.any (·.isPrefixOf t)

def beforeMark : Text → Text
  | [] => []
  | c :: t => if atMark (c :: t) then [] else c :: beforeMark t

def fromMark : Text → Text
  | [] => []
  | c :: t => if atMark (c :: t) then c :: t else fromMark t

theorem beforeMark_append_fromMark (t : Text) : beforeMark t ++ fromMark t = t := by
  induction t with
  | nil => rfl
  | cons c t ih =>
      simp only [beforeMark, fromMark]
      split
      · rfl
      · simp [ih]

theorem atMark_fromMark {t : Text} (h : fromMark t ≠ []) : atMark (fromMark t) = true := by
  induction t with
  | nil => exact absurd rfl h
  | cons c t ih =>
      simp only [fromMark] at h ⊢
      split
      · assumption
      · next hmark => exact ih (by simpa [hmark] using h)

/-- The text before the first closing braces, and the text after them. -/
def splitAtClose : Text → Option (Text × Text)
  | [] => none
  | '}' :: '}' :: t => some ([], t)
  | c :: t => (splitAtClose t).map fun (inner, rest) => (c :: inner, rest)

theorem eq_of_splitAtClose {t inner rest : Text} (h : splitAtClose t = some (inner, rest)) :
    t = inner ++ closeBraces ++ rest := by
  fun_induction splitAtClose t generalizing inner with
  | case1 => cases h
  | case2 t =>
      obtain ⟨rfl, rfl⟩ : [] = inner ∧ t = rest := by simpa using h
      rfl
  | case3 c t _ ih =>
      obtain ⟨⟨inner', rest'⟩, hsplit, heq⟩ := Option.map_eq_some_iff.mp h
      obtain ⟨rfl, rfl⟩ : c :: inner' = inner ∧ rest' = rest := by simpa using heq
      simp [ih hsplit]

/-! ## One lexeme -/

/-- A token, the noise passed over before it, and its own text in the template. -/
structure Lexeme where
  skipped : Text
  source : Text
  token : Token
  deriving DecidableEq, Repr

structure Scanner where
  inCondition : Bool
  rest : Text
  deriving DecidableEq, Repr

namespace Scanner

def ofText (t : Text) : Scanner := ⟨false, t⟩

/-- The name in braces at the head of the text, with the token it stands for. -/
def name? (inCondition : Bool) : Text → Option (Text × Token × Text)
  | '{' :: '{' :: t =>
      (splitAtClose t).map fun (inner, rest) =>
        (bracedName inner, if inCondition then .flag inner.trim else .placeholder inner.trim, rest)
  | _ => none

/-- The keyword at the head of the text, among those known in or out of a condition. -/
def keyword? (inCondition : Bool) (t : Text) : Option (Text × Token × Text) :=
  (Keyword.all.find? fun word => word.inCondition == inCondition && word.tag.isPrefixOf t).map
    fun word => (word.tag, .key word, t.drop word.tag.length)

/-- Whatever begins at the head of the text, down to a single literal character. -/
def first? (inCondition : Bool) (t : Text) : Option (Text × Token × Text) :=
  match (name? inCondition t).or (keyword? inCondition t), t with
  | some found, _ => some found
  | none, [] => none
  | none, c :: t => some ([c], .raw [c], t)

def next? (s : Scanner) : Option (Lexeme × Scanner) :=
  let plain := beforeMark s.rest
  let rest := fromMark s.rest
  if !s.inCondition && !plain.isEmpty then
    some (⟨[], plain, .raw plain⟩, ⟨s.inCondition, rest⟩)
  else
    (first? s.inCondition rest).map fun (source, token, rest) =>
      (⟨plain, source, token⟩, ⟨token.inConditionAfter s.inCondition, rest⟩)

/-! ## Progress -/

theorem name?_eq_append {inCondition : Bool} {t source rest : Text} {token : Token}
    (h : name? inCondition t = some (source, token, rest)) : t = source ++ rest := by
  unfold name? at h
  split at h
  · obtain ⟨⟨inner, rest'⟩, hsplit, heq⟩ := Option.map_eq_some_iff.mp h
    simp only [Prod.mk.injEq] at heq
    obtain ⟨rfl, -, rfl⟩ := heq
    rw [eq_of_splitAtClose hsplit]
    simp [bracedName, openBraces]
  · cases h

theorem keyword?_eq_append {inCondition : Bool} {t source rest : Text} {token : Token}
    (h : keyword? inCondition t = some (source, token, rest)) : t = source ++ rest := by
  obtain ⟨word, hfind, heq⟩ := Option.map_eq_some_iff.mp h
  simp only [Prod.mk.injEq] at heq
  obtain ⟨rfl, -, rfl⟩ := heq
  have hword := List.find?_some hfind
  simp only [Bool.and_eq_true, List.isPrefixOf_iff_prefix] at hword
  obtain ⟨rest, rfl⟩ := hword.2
  simp

theorem source_ne_nil_of_name? {inCondition : Bool} {t source rest : Text} {token : Token}
    (h : name? inCondition t = some (source, token, rest)) : source ≠ [] := by
  unfold name? at h
  split at h
  · obtain ⟨⟨inner, rest'⟩, -, heq⟩ := Option.map_eq_some_iff.mp h
    simp only [Prod.mk.injEq] at heq
    obtain ⟨rfl, -, -⟩ := heq
    simp [bracedName, openBraces]
  · cases h

theorem source_ne_nil_of_keyword? {inCondition : Bool} {t source rest : Text} {token : Token}
    (h : keyword? inCondition t = some (source, token, rest)) : source ≠ [] := by
  obtain ⟨word, -, heq⟩ := Option.map_eq_some_iff.mp h
  simp only [Prod.mk.injEq] at heq
  obtain ⟨rfl, -, -⟩ := heq
  exact word.tag_ne_nil

theorem first?_eq_append {inCondition : Bool} {t source rest : Text} {token : Token}
    (h : first? inCondition t = some (source, token, rest)) :
    t = source ++ rest ∧ source ≠ [] := by
  unfold first? at h
  split at h
  · next found hfound =>
      obtain rfl : found = (source, token, rest) := by simpa using h
      rcases Option.or_eq_some_iff.mp hfound with hname | ⟨-, hword⟩
      · exact ⟨name?_eq_append hname, source_ne_nil_of_name? hname⟩
      · exact ⟨keyword?_eq_append hword, source_ne_nil_of_keyword? hword⟩
  · cases h
  · simp only [Option.some.injEq, Prod.mk.injEq] at h
    obtain ⟨rfl, -, rfl⟩ := h
    exact ⟨rfl, by simp⟩

/-- Out of a condition the text before a mark is a lexeme of its own; else it is passed over,
and the lexeme is what the mark begins. -/
theorem next?_cases {s s' : Scanner} {lexeme : Lexeme} (h : s.next? = some (lexeme, s')) :
    (s.inCondition = false ∧ beforeMark s.rest ≠ [] ∧
      lexeme = ⟨[], beforeMark s.rest, .raw (beforeMark s.rest)⟩ ∧
      s' = ⟨s.inCondition, fromMark s.rest⟩) ∨
    ∃ source token rest, (s.inCondition = false → beforeMark s.rest = []) ∧
      first? s.inCondition (fromMark s.rest) = some (source, token, rest) ∧
      lexeme = ⟨beforeMark s.rest, source, token⟩ ∧
      s' = ⟨token.inConditionAfter s.inCondition, rest⟩ := by
  unfold next? at h
  simp only at h
  split at h
  · next hplain =>
      simp only [Option.some.injEq, Prod.mk.injEq] at h
      simp only [Bool.and_eq_true, Bool.not_eq_true', List.isEmpty_eq_false_iff] at hplain
      exact Or.inl ⟨hplain.1, hplain.2, h.1.symm, h.2.symm⟩
  · next hplain =>
      obtain ⟨⟨source, token, rest⟩, hfirst, heq⟩ := Option.map_eq_some_iff.mp h
      simp only [Prod.mk.injEq] at heq
      refine Or.inr ⟨source, token, rest, ?_, hfirst, heq.1.symm, heq.2.symm⟩
      intro houtside
      simpa [houtside] using hplain

/-- Nothing is lost: what was left is the noise, the lexeme's text and what is left now. -/
theorem next?_eq_append {s s' : Scanner} {lexeme : Lexeme} (h : s.next? = some (lexeme, s')) :
    s.rest = lexeme.skipped ++ lexeme.source ++ s'.rest ∧ lexeme.source ≠ [] := by
  rcases next?_cases h with ⟨-, hplain, rfl, rfl⟩ | ⟨source, token, rest, -, hfirst, rfl, rfl⟩
  · exact ⟨by simp [beforeMark_append_fromMark], hplain⟩
  · obtain ⟨happend, hne⟩ := first?_eq_append hfirst
    refine ⟨?_, hne⟩
    rw [List.append_assoc, ← happend, beforeMark_append_fromMark]

theorem next?_shorter {s s' : Scanner} {lexeme : Lexeme} (h : s.next? = some (lexeme, s')) :
    s'.rest.length < s.rest.length := by
  obtain ⟨happend, hne⟩ := next?_eq_append h
  have := List.length_pos_iff.mpr hne
  simp only [happend, List.length_append]
  omega

/-! ## All lexemes -/

def lexemes (s : Scanner) : List Lexeme :=
  match _h : s.next? with
  | none => []
  | some (lexeme, s') => lexeme :: s'.lexemes
termination_by s.rest.length
decreasing_by exact next?_shorter _h

def tokens (s : Scanner) : List Token := s.lexemes.map Lexeme.token

theorem lexemes_of_next?_none {s : Scanner} (h : s.next? = none) : s.lexemes = [] := by
  rw [lexemes]
  split
  · rfl
  · next h' => rw [h] at h'; cases h'

theorem lexemes_of_next?_some {s s' : Scanner} {lexeme : Lexeme}
    (h : s.next? = some (lexeme, s')) : s.lexemes = lexeme :: s'.lexemes := by
  rw [lexemes]
  split
  · next h' => rw [h] at h'; cases h'
  · next h' =>
      rw [h] at h'
      cases h'
      rfl

end Scanner

end Stencil
