import Stencil.Proofs.Anchoring
import Stencil.Proofs.Gathering
import Stencil.Proofs.Joining
import Stencil.Proofs.Names
import Stencil.Proofs.PlainScanning

/-!
# Templates without control tags

A text without `#if`, `#else` and `#endif` always renders, and to render it is to
substitute from left to right: the first braces that are closed give way to the value of
the name between them, and the text after them is treated alike. All else is kept, also
what would be a tag or an operator inside a condition.
-/

namespace Stencil

open Grammar

/-! ## The first placeholder of a text -/

/-- The leftmost open braces that are closed further on: what stands before them, what
stands between them and the first closing ones, and what stands after those. -/
def firstBraced? : Text → Option (Text × Text × Text)
  | [] => none
  | c :: t =>
      match Scanner.bracedAt? (c :: t) with
      | some (inner, rest) => some ([], inner, rest)
      | none => (firstBraced? t).map fun (before, inner, rest) => (c :: before, inner, rest)

theorem eq_of_bracedAt? {t inner rest : Text} (h : Scanner.bracedAt? t = some (inner, rest)) :
    t = bracedName inner ++ rest ∧ ¬ closeBraces <:+: inner ++ ['}'] := by
  unfold Scanner.bracedAt? at h
  split at h
  · next after =>
      refine ⟨?_, not_closeBraces_snoc_of_splitAtClose h⟩
      rw [eq_of_splitAtClose h]
      simp [bracedName, openBraces]
  · cases h

theorem not_closeBraces_of_bracedAt? {t after : Text} (h : Scanner.bracedAt? t = none)
    (heq : t = openBraces ++ after) : ¬ closeBraces <:+: after := by
  subst heq
  exact splitAtClose_eq_none_iff.mp h

theorem firstBraced?_cons_of_none {c : Char} {t : Text} (h : Scanner.bracedAt? (c :: t) = none) :
    firstBraced? (c :: t) =
      (firstBraced? t).map fun (before, inner, rest) => (c :: before, inner, rest) := by
  rw [firstBraced?, h]

theorem firstBraced?_of_bracedAt? {t inner rest : Text}
    (h : Scanner.bracedAt? t = some (inner, rest)) : firstBraced? t = some ([], inner, rest) := by
  cases t with
  | nil => cases h
  | cons c t => rw [firstBraced?, h]

/-- Either braces are closed right here, or the first ones come later. -/
theorem firstBraced?_cases {t before inner rest : Text}
    (h : firstBraced? t = some (before, inner, rest)) :
    (before = [] ∧ Scanner.bracedAt? t = some (inner, rest)) ∨
    (∃ c later before', t = c :: later ∧ before = c :: before' ∧ Scanner.bracedAt? t = none ∧
      firstBraced? later = some (before', inner, rest)) := by
  cases hbraced : Scanner.bracedAt? t with
  | some found =>
      rw [firstBraced?_of_bracedAt? hbraced] at h
      cases h
      exact Or.inl ⟨rfl, rfl⟩
  | none =>
      cases t with
      | nil => cases h
      | cons c t =>
          rw [firstBraced?_cons_of_none hbraced] at h
          obtain ⟨⟨before', inner', rest'⟩, hfirst, heq⟩ := Option.map_eq_some_iff.mp h
          cases heq
          exact Or.inr ⟨c, t, before', rfl, rfl, rfl, hfirst⟩

theorem eq_of_firstBraced? {t before inner rest : Text}
    (h : firstBraced? t = some (before, inner, rest)) :
    t = before ++ (bracedName inner ++ rest) ∧ ¬ closeBraces <:+: inner ++ ['}'] := by
  induction t generalizing before with
  | nil => cases h
  | cons c t ih =>
      rcases firstBraced?_cases h with ⟨rfl, hbraced⟩ | ⟨_, _, before', heq, rfl, -, hfirst⟩
      · exact eq_of_bracedAt? hbraced
      · cases heq
        obtain ⟨rfl, hinner⟩ := ih hfirst
        exact ⟨rfl, hinner⟩

theorem firstBraced?_shorter {t before inner rest : Text}
    (h : firstBraced? t = some (before, inner, rest)) : rest.length < t.length := by
  rw [(eq_of_firstBraced? h).1]
  simp only [bracedName, openBraces, closeBraces, List.length_append, List.length_cons]
  omega

/-- Braces that are closed further on are not passed over. -/
theorem firstBraced?_leftmost {t before inner rest : Text}
    (h : firstBraced? t = some (before, inner, rest)) {earlier after : Text}
    (heq : t = earlier ++ openBraces ++ after) (hclose : closeBraces <:+: after) :
    before.length ≤ earlier.length := by
  induction t generalizing before earlier with
  | nil => cases h
  | cons c t ih =>
      rcases firstBraced?_cases h with ⟨rfl, -⟩ | ⟨_, _, before', hcons, rfl, hbraced, hfirst⟩
      · exact Nat.zero_le _
      · cases hcons
        cases earlier with
        | nil => exact absurd hclose (not_closeBraces_of_bracedAt? hbraced heq)
        | cons d earlier =>
            obtain ⟨rfl, rfl⟩ := List.cons_eq_cons.mp heq
            exact Nat.succ_le_succ (ih hfirst rfl)

theorem not_closeBraces_of_firstBraced? {t : Text} (h : firstBraced? t = none)
    {earlier after : Text} (heq : t = earlier ++ openBraces ++ after) :
    ¬ closeBraces <:+: after := by
  induction t generalizing earlier with
  | nil => simp [openBraces] at heq
  | cons c t ih =>
      cases hbraced : Scanner.bracedAt? (c :: t) with
      | some found =>
          rw [firstBraced?_of_bracedAt? hbraced] at h
          cases h
      | none =>
          cases earlier with
          | nil => exact not_closeBraces_of_bracedAt? hbraced heq
          | cons d earlier =>
              obtain ⟨rfl, rfl⟩ := List.cons_eq_cons.mp heq
              rw [firstBraced?_cons_of_none hbraced] at h
              exact ih (Option.map_eq_none_iff.mp h) rfl

/-! ## Substitution -/

/-- A part of a text: kept as it is, or the inside of braces that give way to a value. -/
inductive Piece where
  | kept (text : Text)
  | hole (inner : Text)
  deriving DecidableEq, Repr

def Piece.fill (bindings : Bindings) : Piece → Text
  | kept text => text
  | hole inner => bindings.display inner.trim

/-- The text from left to right. Which braces are holes does not depend on any values. -/
def pieces (t : Text) : List Piece :=
  match _h : firstBraced? t with
  | none => [.kept t]
  | some (before, inner, rest) => .kept before :: .hole inner :: pieces rest
termination_by t.length
decreasing_by exact firstBraced?_shorter _h

def substitute (bindings : Bindings) (t : Text) : Text := (pieces t).flatMap (Piece.fill bindings)

theorem pieces_of_none {t : Text} (h : firstBraced? t = none) : pieces t = [.kept t] := by
  rw [pieces]
  split
  · rfl
  · next h' =>
      rw [h] at h'
      cases h'

theorem pieces_of_some {t before inner rest : Text}
    (h : firstBraced? t = some (before, inner, rest)) :
    pieces t = .kept before :: .hole inner :: pieces rest := by
  rw [pieces]
  split
  · next h' =>
      rw [h] at h'
      cases h'
  · next h' =>
      rw [h] at h'
      cases h'
      rfl

/-- How a text is cut into pieces. Up to the leftmost open braces that are closed further
on it is kept, a hole reaches from there to the first closing ones, and the rest is cut
in the same way. -/
inductive CutInto : Text → List Piece → Prop
  | last {t : Text} (h : ∀ before after, t = before ++ openBraces ++ after →
      ¬ closeBraces <:+: after) : CutInto t [.kept t]
  | hole {before inner rest : Text} {pieces : List Piece}
      (hleft : ∀ earlier after, before ++ (bracedName inner ++ rest) =
        earlier ++ openBraces ++ after → closeBraces <:+: after → before.length ≤ earlier.length)
      (hinner : ¬ closeBraces <:+: inner ++ ['}']) (h : CutInto rest pieces) :
      CutInto (before ++ (bracedName inner ++ rest)) (.kept before :: .hole inner :: pieces)

theorem cutInto_pieces (t : Text) : CutInto t (pieces t) := by
  fun_induction pieces t with
  | case1 t h => exact .last fun _ _ heq => not_closeBraces_of_firstBraced? h heq
  | case2 t before inner rest h ih =>
      have hleft := fun earlier after => @firstBraced?_leftmost t before inner rest h earlier after
      obtain ⟨rfl, hinner⟩ := eq_of_firstBraced? h
      exact .hole hleft hinner ih

/-- Where the leftmost braces are, and where they are closed, leaves no choice. -/
theorem firstBraced?_append {before inner rest : Text}
    (hleft : ∀ earlier after, before ++ (bracedName inner ++ rest) =
      earlier ++ openBraces ++ after → closeBraces <:+: after → before.length ≤ earlier.length)
    (hinner : ¬ closeBraces <:+: inner ++ ['}']) :
    firstBraced? (before ++ (bracedName inner ++ rest)) = some (before, inner, rest) := by
  have hopen : before ++ (bracedName inner ++ rest) =
      before ++ openBraces ++ (inner ++ (closeBraces ++ rest)) := by simp [bracedName]
  have hclose : closeBraces <:+: inner ++ (closeBraces ++ rest) := ⟨inner, rest, by simp⟩
  cases hfirst : firstBraced? (before ++ (bracedName inner ++ rest)) with
  | none => exact absurd hclose (not_closeBraces_of_firstBraced? hfirst hopen)
  | some found =>
      obtain ⟨before', inner', rest'⟩ := found
      obtain ⟨heq, hinner'⟩ := eq_of_firstBraced? hfirst
      have hlength : before.length = before'.length := by
        refine Nat.le_antisymm ?_ (firstBraced?_leftmost hfirst hopen hclose)
        refine hleft before' (inner' ++ (closeBraces ++ rest')) ?_ ⟨inner', rest', by simp⟩
        rw [heq]
        simp [bracedName]
      obtain ⟨rfl, hbraced⟩ := List.append_inj heq hlength
      have hsplit : splitAtClose (inner ++ (closeBraces ++ rest)) =
          splitAtClose (inner' ++ (closeBraces ++ rest')) := by
        simp only [bracedName, List.append_assoc] at hbraced
        rw [List.append_cancel_left hbraced]
      rw [splitAtClose_append hinner, splitAtClose_append hinner'] at hsplit
      cases hsplit
      rfl

/-- A text is cut in one way only. -/
theorem cutInto_iff {t : Text} {cut : List Piece} : CutInto t cut ↔ cut = pieces t := by
  constructor
  · intro h
    induction h with
    | @last t h =>
        cases hfirst : firstBraced? t with
        | none => rw [pieces_of_none hfirst]
        | some found =>
            obtain ⟨before, inner, rest⟩ := found
            obtain ⟨rfl, -⟩ := eq_of_firstBraced? hfirst
            refine absurd ⟨inner, rest, rfl⟩ (h before (inner ++ closeBraces ++ rest) ?_)
            simp [bracedName]
    | hole hleft hinner h ih => rw [pieces_of_some (firstBraced?_append hleft hinner), ih]
  · rintro rfl
    exact cutInto_pieces t

theorem substitute_nil (bindings : Bindings) : substitute bindings [] = [] := by
  rw [substitute, pieces_of_none rfl]
  rfl

theorem substitute_of_bracedAt? {t inner rest : Text}
    (h : Scanner.bracedAt? t = some (inner, rest)) (bindings : Bindings) :
    substitute bindings t = bindings.display inner.trim ++ substitute bindings rest := by
  rw [substitute, pieces_of_some (firstBraced?_of_bracedAt? h)]
  rfl

theorem substitute_cons {c : Char} {t : Text} (h : Scanner.bracedAt? (c :: t) = none)
    (bindings : Bindings) : substitute bindings (c :: t) = c :: substitute bindings t := by
  have hcons := firstBraced?_cons_of_none h
  cases hfirst : firstBraced? t with
  | none =>
      rw [hfirst] at hcons
      rw [substitute, substitute, pieces_of_none hcons, pieces_of_none hfirst]
      rfl
  | some found =>
      obtain ⟨before, inner, rest⟩ := found
      rw [hfirst] at hcons
      rw [substitute, substitute, pieces_of_some hcons, pieces_of_some hfirst]
      rfl

/-! ## Rendering without control tags -/

/-- No tag that is known outside conditions occurs in the text. -/
def Tagless (t : Text) : Prop := ∀ word : Keyword, word.inCondition = false → ¬ word.tag <:+: t

theorem Tagless.of_suffix {t rest : Text} (h : Tagless t) (hrest : rest <:+ t) : Tagless rest :=
  fun word hword htag => h word hword (htag.trans hrest.isInfix)

/-- `#elseif` begins with `#else`. -/
theorem tagless_of {t : Text} (hif : ¬ Keyword.ifTag.tag <:+: t)
    (helse : ¬ Keyword.elseTag.tag <:+: t) (hend : ¬ Keyword.endIfTag.tag <:+: t) : Tagless t := by
  intro word hword
  cases word with
  | ifTag => exact hif
  | elseTag => exact helse
  | endIfTag => exact hend
  | elseIfTag =>
      intro htag
      have helseIf : Keyword.elseTag.tag <+: Keyword.elseIfTag.tag := by decide
      exact helse (helseIf.isInfix.trans htag)
  | openParen | closeParen | notOp | connective op | thenTag => cases hword

theorem rule?_of_tagless {t : Text} (h : Tagless t) :
    Scanner.rule? false t =
      (Scanner.bracedAt? t).map fun (inner, rest) => (.placeholder inner.trim, rest) := by
  have hword : Scanner.keyword? false t = none :=
    Scanner.keyword?_eq_none_iff.mpr fun word hword htag => h word hword htag.isInfix
  rw [Scanner.rule?_eq, Scanner.begins?, hword, Option.or_none, Scanner.name?_eq_read?]
  rfl

/-- Character by character, what the tokens stand for is what is substituted. -/
theorem exists_statements_plainTokens {t : Text} (h : Tagless t) :
    (∀ token ∈ Scanner.plainTokens false t, token.dropsLayout = false) ∧
    ∃ template, Statements true (Scanner.plainTokens false t) template ∧
      ∀ bindings, Template.render bindings template = substitute bindings t := by
  have hrule := rule?_of_tagless h
  cases hbraced : Scanner.bracedAt? t with
  | some found =>
      obtain ⟨inner, rest⟩ := found
      have hrest : rest <:+ t := ⟨_, (eq_of_bracedAt? hbraced).1.symm⟩
      have hshort := firstBraced?_shorter (firstBraced?_of_bracedAt? hbraced)
      obtain ⟨hlayout, template, htemplate, hrender⟩ :=
        exists_statements_plainTokens (h.of_suffix hrest)
      rw [hbraced] at hrule
      rw [Scanner.plainTokens_of_rule? hrule]
      refine ⟨List.forall_mem_cons.mpr ⟨rfl, hlayout⟩, _, .placeholder inner.trim htemplate, ?_⟩
      intro bindings
      rw [Template.render, Node.render, hrender, substitute_of_bracedAt? hbraced]
  | none =>
      rw [hbraced] at hrule
      cases t with
      | nil =>
          rw [Scanner.plainTokens_nil]
          refine ⟨fun _ hmem => absurd hmem List.not_mem_nil, [], .nil, ?_⟩
          intro bindings
          exact (substitute_nil bindings).symm
      | cons c t =>
          obtain ⟨hlayout, template, htemplate, hrender⟩ :=
            exists_statements_plainTokens (h.of_suffix (List.suffix_cons c t))
          rw [Scanner.plainTokens_of_rule?_none hrule]
          refine ⟨List.forall_mem_cons.mpr ⟨rfl, hlayout⟩, _, .raw [c] htemplate, ?_⟩
          intro bindings
          rw [Template.render, Node.render, hrender, substitute_cons hbraced]
          rfl
termination_by t.length

/-- A text without control tags renders under all bindings, each of its holes filled with
a value and every other character kept; what its holes are is fixed by `CutInto`. -/
theorem execute_eq_substitute {text : Text} (hif : ¬ Keyword.ifTag.tag <:+: text)
    (helse : ¬ Keyword.elseTag.tag <:+: text) (hend : ¬ Keyword.endIfTag.tag <:+: text) :
    (∀ bindings, execute text bindings = .ok (substitute bindings text)) ∧
      ∀ cut, CutInto text cut ↔ cut = pieces text := by
  obtain ⟨hlayout, template, htemplate, hrender⟩ :=
    exists_statements_plainTokens (tagless_of hif helse hend)
  refine ⟨?_, fun _ => cutInto_iff⟩
  intro bindings
  obtain ⟨joined, hjoined, hrender'⟩ := exists_statements_joinRaw htemplate
  rw [execute_eq_ok_iff, ← Scanner.arrange_plainTokens, arrange_of_dropsLayout hlayout]
  exact ⟨joined, hjoined, (hrender' bindings).trans (hrender bindings)⟩

/-- Operators, a `#then`, braces in a row and braces left open. -/
def tagFreeText : Text :=
  ['(', '{', '{', '{', 'x', '}', '}', '}', ' ', 'A', 'N', 'D', ' ', '{', '{', ' ', 'n', ' ',
    '}', '}', '#', 't', 'h', 'e', 'n', '\n', '{', '{']

/-- The value of the first hole looks like a placeholder and is not scanned again. -/
theorem execute_tagFreeText :
    let bindings : Bindings :=
      .ofList [(['{', 'x'], .text ['{', '{', 'n', '}', '}']), (['n'], .flag true)]
    execute tagFreeText bindings =
      .ok (['(', '{', '{', 'n', '}', '}', '}', ' ', 'A', 'N', 'D', ' ', 't', 'r', 'u', 'e',
        '#', 't', 'h', 'e', 'n', '\n', '{', '{']) := by
  intro bindings
  have h := (@execute_eq_substitute tagFreeText (by decide) (by decide) (by decide)).1
  rw [h bindings]
  with_unfolding_all rfl

end Stencil
