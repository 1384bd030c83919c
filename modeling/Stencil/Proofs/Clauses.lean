import Stencil.Proofs.Grammar
import Stencil.Proofs.LongestCondition

/-!
# What comes after a clause

A clause is what follows `#if` or `#elseif`: a condition, with its `#then` if there is one.
It is the longest that can be taken, so it depends on the tokens after it only as far as
they could have gone on with it. `readClause?_of_offersNoMore` replaces them by others that
could not have gone on any further, such as fewer of them, or a body.
-/

namespace Stencil

open Grammar

namespace Condition

/-! ## What a clause is -/

theorem read?_eq_some_iff {tokens rest : List Token} {c : Condition} :
    read? tokens = some (c, rest) ↔ IsLongest tokens c ∧ tokens = c.tokens ++ rest := by
  constructor
  · intro h
    exact ⟨isLongest_of_read? h, (canonical_of_read? h).2⟩
  · rintro ⟨hlongest, rfl⟩
    cases hread : read? (c.tokens ++ rest) with
    | none => exact absurd hlongest.front (read?_eq_none_iff.mp hread c hlongest.canonical)
    | some found =>
        obtain ⟨c', rest'⟩ := found
        obtain rfl : c' = c := hlongest.unique (isLongest_of_read? hread)
        rw [List.append_cancel_left (canonical_of_read? hread).2]

theorem readClause?_eq_some_iff {tokens rest : List Token} {c : Condition} :
    readClause? tokens = some (c, rest) ↔ IsLongest tokens c ∧
      (tokens = c.tokens ++ .key .thenTag :: rest ∨
        (tokens = c.tokens ++ rest ∧ rest.head? ≠ some (.key .thenTag))) := by
  constructor
  · intro h
    obtain ⟨⟨c', rest'⟩, hread, heq⟩ := Option.map_eq_some_iff.mp h
    obtain ⟨hlongest, htokens⟩ := read?_eq_some_iff.mp hread
    simp only at heq
    split at heq
    · cases heq
      exact ⟨hlongest, Or.inl htokens⟩
    · next hthen =>
        cases heq
        refine ⟨hlongest, Or.inr ⟨htokens, ?_⟩⟩
        intro hhead
        obtain ⟨body, rfl⟩ := List.head?_eq_some_iff.mp hhead
        exact hthen body rfl
  · rintro ⟨hlongest, htokens | ⟨htokens, hthen⟩⟩
    · rw [readClause?, read?_eq_some_iff.mpr ⟨hlongest, htokens⟩]
      rfl
    · rw [readClause?, read?_eq_some_iff.mpr ⟨hlongest, htokens⟩, Option.map_some]
      split
      next heq =>
        cases heq
        split
        · exact absurd rfl hthen
        · rfl

theorem readClause?_eq_none_iff {tokens : List Token} :
    readClause? tokens = none ↔ ∀ c : Condition, c.canonical = true → ¬ c.tokens <+: tokens := by
  rw [readClause?, Option.map_eq_none_iff, read?_eq_none_iff]

theorem readClause?_nil : readClause? [] = none := by
  simp [readClause?, read?, readShorter]

end Condition

/-! ## Other tokens after it -/

/-- A clause that goes on into `rest` could go on as far into `other`. -/
structure OffersNoMore (rest other : List Token) : Prop where
  front : ∀ (before : List Token) (c : Condition),
    c.tokens <+: before ++ rest → c.tokens <+: before ++ other
  thenTag : rest.head? = some (.key .thenTag) → other.head? = some (.key .thenTag)

theorem OffersNoMore.of_front {rest other : List Token} (h : rest <+: other) :
    OffersNoMore rest other where
  front := fun before _ hc => hc.trans ((List.prefix_append_right_inj before).mpr h)
  thenTag := by
    intro hthen
    obtain ⟨more, rfl⟩ := h
    rw [List.head?_append, hthen]
    rfl

theorem not_beginsBody_of_mem {c : Condition} {token : Token} (h : token ∈ c.tokens) :
    beginsBody token = false := by
  rcases Condition.mem_tokens_cases h with ⟨name, rfl⟩ | ⟨word, hword, -, rfl⟩
  · rfl
  · simp [beginsBody, hword]

/-- A condition stops where a body begins. -/
theorem tokens_prefix_of_append {c : Condition} {front more : List Token}
    (hmore : ∀ token ∈ more.head?, beginsBody token = true) (h : c.tokens <+: front ++ more) :
    c.tokens <+: front := by
  by_cases hle : c.tokens.length ≤ front.length
  · exact List.prefix_of_prefix_length_le h (List.prefix_append _ _) hle
  · cases more with
    | nil => rwa [List.append_nil] at h
    | cons token more =>
        have hfront : front ++ [token] <+: front ++ token :: more := ⟨more, by simp⟩
        have hlength : (front ++ [token]).length ≤ c.tokens.length := by simp; omega
        have hmem : token ∈ c.tokens :=
          (List.prefix_of_prefix_length_le hfront h hlength).subset (by simp)
        have hbegins := hmore token rfl
        rw [not_beginsBody_of_mem hmem] at hbegins
        cases hbegins

theorem OffersNoMore.of_beginsBody {rest more : List Token}
    (h : ∀ token ∈ more.head?, beginsBody token = true) : OffersNoMore (rest ++ more) rest where
  front := by
    intro before c hc
    rw [← List.append_assoc] at hc
    exact tokens_prefix_of_append h hc
  thenTag := by
    intro hthen
    cases rest with
    | nil => exact absurd (h _ hthen) (by decide)
    | cons token rest => exact hthen

theorem Condition.IsLongest.of_offersNoMore {front rest other : List Token} {c : Condition}
    (h : IsLongest (front ++ other) c) (hfront : c.tokens <+: front)
    (hrest : OffersNoMore rest other) : IsLongest (front ++ rest) c where
  canonical := h.canonical
  front := hfront.trans (List.prefix_append _ _)
  longest := fun d hd hd' => h.longest d hd (hrest.front front d hd')

theorem readClause?_of_offersNoMore {clause between rest other : List Token} {c : Condition}
    (hrest : OffersNoMore rest other)
    (h : Condition.readClause? (clause ++ (between ++ other)) = some (c, between ++ other)) :
    Condition.readClause? (clause ++ (between ++ rest)) = some (c, between ++ rest) := by
  obtain ⟨hlongest, htokens⟩ := Condition.readClause?_eq_some_iff.mp h
  rw [← List.append_assoc] at hlongest
  rw [Condition.readClause?_eq_some_iff, ← List.append_assoc]
  rcases htokens with htokens | ⟨htokens, hthen⟩
  · obtain rfl : clause = c.tokens ++ [.key .thenTag] :=
      List.append_cancel_right (htokens.trans (by simp))
    exact ⟨hlongest.of_offersNoMore ⟨_, (List.append_assoc _ _ _).symm⟩ hrest, Or.inl (by simp)⟩
  · obtain rfl : clause = c.tokens := List.append_cancel_right htokens
    refine ⟨hlongest.of_offersNoMore (List.prefix_append _ _) hrest, Or.inr ⟨by simp, ?_⟩⟩
    cases between with
    | nil => exact fun hhead => hthen (hrest.thenTag hhead)
    | cons token between => exact hthen

theorem readClause?_eq_none_of_offersNoMore {rest other : List Token}
    (hrest : OffersNoMore rest other) (h : Condition.readClause? other = none) :
    Condition.readClause? rest = none := by
  rw [Condition.readClause?_eq_none_iff] at h ⊢
  exact fun c hc hfront => h c hc (hrest.front [] c hfront)

end Stencil
