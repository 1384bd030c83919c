import Mathlib.Data.List.DropRight
import Mathlib.Data.List.Infix
import Stencil.Proofs.Scanning
import Stencil.Template.Printer

/-!
# Names in braces

A name ends at the first closing braces and loses the blanks around it. So a name that
is trimmed already and holds no closing braces is read back from its printed form, and
every name that is read is of this kind.
-/

namespace Stencil

/-! ## The first closing braces -/

/-- Closing braces do not form where two texts meet, unless both supply one. -/
theorem not_closeBraces_append {t u : Text} (ht : ¬ closeBraces <:+: t)
    (hu : ¬ closeBraces <:+: u) (hmeet : t.getLast? ≠ some '}' ∨ u.head? ≠ some '}') :
    ¬ closeBraces <:+: t ++ u := by
  induction t with
  | nil => exact hu
  | cons c t ih =>
      have ht' : ¬ closeBraces <:+: t := fun h => ht (List.infix_cons h)
      intro h
      rw [List.cons_append, List.infix_cons_iff] at h
      rcases h with h | h
      · cases t with
        -- one brace in each text
        | nil =>
            obtain ⟨rfl, rest, rfl⟩ := List.cons_prefix_cons.mp h
            rcases hmeet with hmeet | hmeet <;> exact hmeet rfl
        | cons d t =>
            obtain ⟨rfl, hd⟩ := List.cons_prefix_cons.mp h
            obtain ⟨rfl, -⟩ := List.cons_prefix_cons.mp hd
            exact ht ⟨[], t, rfl⟩
      · refine ih ht' ?_ h
        rcases hmeet with hmeet | hmeet
        · cases t with
          | nil => exact Or.inl (by simp)
          | cons d t => exact Or.inl (by simpa [List.getLast?_cons_cons] using hmeet)
        · exact Or.inr hmeet

/-- In front of a text, one without closing braces of its own makes no difference. -/
theorem closeBraces_infix_of_append {t u : Text} (ht : '}' ∉ t) (h : closeBraces <:+: t ++ u) :
    closeBraces <:+: u := by
  by_contra hu
  refine not_closeBraces_append ?_ hu (Or.inl ?_) h
  · exact fun hin => ht (hin.subset List.mem_cons_self)
  · exact fun hlast => ht (List.mem_of_getLast? hlast)

theorem splitAtClose_eq_none_iff {t : Text} :
    splitAtClose t = none ↔ ¬ closeBraces <:+: t := by
  fun_induction splitAtClose t with
  | case1 => simp [closeBraces]
  | case2 t =>
      have hclose : closeBraces <:+: '}' :: '}' :: t := ⟨[], t, rfl⟩
      simp [hclose]
  | case3 c t hclose ih =>
      have hhead : ¬ closeBraces <+: c :: t := by
        rintro ⟨rest, hrest⟩
        cases hrest
        exact hclose rest rfl rfl
      rw [Option.map_eq_none_iff, ih, List.infix_cons_iff]
      simp [hhead]

theorem splitAtClose_append {inner : Text} (h : ¬ closeBraces <:+: inner ++ ['}'])
    (rest : Text) : splitAtClose (inner ++ (closeBraces ++ rest)) = some (inner, rest) := by
  induction inner with
  | nil => rfl
  | cons c inner ih =>
      have hinner : ¬ closeBraces <:+: inner ++ ['}'] := fun h' => h (List.infix_cons h')
      have hhead : ∀ t, c = '}' → inner ++ (closeBraces ++ rest) ≠ '}' :: t := by
        rintro t rfl heq
        refine h ?_
        cases inner with
        | nil => exact ⟨[], [], rfl⟩
        | cons d inner =>
            cases heq
            exact ⟨[], inner ++ ['}'], rfl⟩
      rw [List.cons_append, splitAtClose, ih hinner]
      · rfl
      · exact hhead

/-- The closing braces that were found do not begin earlier, not even with one brace less. -/
theorem not_closeBraces_snoc_of_splitAtClose {t inner rest : Text}
    (h : splitAtClose t = some (inner, rest)) : ¬ closeBraces <:+: inner ++ ['}'] := by
  fun_induction splitAtClose t generalizing inner with
  | case1 => cases h
  | case2 t =>
      cases h
      decide
  | case3 c t hclose ih =>
      obtain ⟨⟨inner', rest'⟩, hsplit, heq⟩ := Option.map_eq_some_iff.mp h
      cases heq
      rw [List.cons_append, List.infix_cons_iff]
      rintro (hhead | htail)
      · obtain ⟨rfl, u, hu⟩ := List.cons_prefix_cons.mp hhead
        refine hclose (u ++ '}' :: rest) rfl ?_
        calc t = inner' ++ ['}'] ++ '}' :: rest := by
              rw [eq_of_splitAtClose hsplit]
              simp [closeBraces]
          _ = '}' :: (u ++ '}' :: rest) := by
              rw [← hu]
              rfl
      · exact ih hsplit htail

theorem not_closeBraces_of_splitAtClose {t inner rest : Text}
    (h : splitAtClose t = some (inner, rest)) : ¬ closeBraces <:+: inner :=
  fun hclose => not_closeBraces_snoc_of_splitAtClose h (List.infix_append_of_infix_left hclose)

/-- Text after the closing braces does not matter. -/
theorem splitAtClose_append_right {t inner rest : Text} (h : splitAtClose t = some (inner, rest))
    (u : Text) : splitAtClose (t ++ u) = some (inner, rest ++ u) := by
  have hinner := not_closeBraces_snoc_of_splitAtClose h
  rw [eq_of_splitAtClose h, List.append_assoc, List.append_assoc]
  exact splitAtClose_append hinner (rest ++ u)

/-! ## Trimming -/

namespace Text

theorem trim_infix (t : Text) : trim t <:+: t := by
  have hend : trim t <+: trimStart t := List.rdropWhile_prefix isBlank _
  exact hend.isInfix.trans (List.dropWhile_suffix isBlank).isInfix

theorem trimStart_trim (t : Text) : trimStart (trim t) = trim t := by
  obtain ⟨rest, hrest⟩ : trim t <+: trimStart t := List.rdropWhile_prefix isBlank _
  have hstart : trimStart (trimStart t) = trimStart t := List.dropWhile_idempotent isBlank _
  cases htrim : trim t with
  | nil => rfl
  | cons c u =>
      rw [htrim] at hrest
      rw [← hrest] at hstart
      by_cases hc : isBlank c = true
      -- a blank in front would have been dropped, and the text be shorter
      · have hdrop : trimStart (c :: (u ++ rest)) = trimStart (u ++ rest) :=
          List.dropWhile_cons_of_pos hc
        have hle : (trimStart (u ++ rest)).length ≤ (u ++ rest).length :=
          (List.dropWhile_suffix isBlank).length_le
        rw [List.cons_append, hdrop] at hstart
        rw [hstart, List.length_cons] at hle
        omega
      · exact List.dropWhile_cons_of_neg hc

theorem trim_trim (t : Text) : trim (trim t) = trim t := by
  have hend : trimEnd (trimEnd (trimStart t)) = trimEnd (trimStart t) :=
    List.rdropWhile_idempotent isBlank _
  rw [trim, trimStart_trim]
  exact hend

theorem trim_spaced (t : Text) : trim (' ' :: t ++ [' ']) = trim t := by
  have hblank : isBlank ' ' = true := by decide
  have hstart : trimStart (' ' :: t ++ [' ']) = trimStart (t ++ [' ']) :=
    List.dropWhile_cons_of_pos hblank
  rw [trim, hstart, trim, trimStart, List.dropWhile_append]
  split
  · next hall =>
      simp only [List.isEmpty_iff] at hall
      rw [trimStart, hall, List.dropWhile_cons_of_pos hblank]
      rfl
  · exact List.rdropWhile_concat_pos isBlank _ _ hblank

end Text

/-! ## Names -/

/-- What a placeholder or a flag can be called. -/
structure IsName (name : Text) : Prop where
  trimmed : name.trim = name
  closed : ¬ closeBraces <:+: name

instance (name : Text) : Decidable (IsName name) :=
  decidable_of_iff (name.trim = name ∧ ¬ closeBraces <:+: name)
    ⟨fun ⟨htrimmed, hclosed⟩ => ⟨htrimmed, hclosed⟩, fun h => ⟨h.trimmed, h.closed⟩⟩

theorem isName_trim {inner : Text} (h : ¬ closeBraces <:+: inner) : IsName inner.trim :=
  ⟨Text.trim_trim inner, fun hclose => h (hclose.trans (Text.trim_infix inner))⟩

theorem IsName.not_closeBraces_spaced {name : Text} (h : IsName name) :
    ¬ closeBraces <:+: ' ' :: name ++ [' '] ++ ['}'] := by
  have hend : ¬ closeBraces <:+: [' ', '}'] := by decide
  have hname : ¬ closeBraces <:+: name ++ [' ', '}'] :=
    not_closeBraces_append h.closed hend (Or.inr (by decide))
  have hstart : ¬ closeBraces <:+: [' '] := by decide
  simpa using not_closeBraces_append hstart hname (Or.inl (by decide))

namespace Scanner

theorem begins?_spacedName {name : Text} (h : IsName name) (inside : Bool) (rest : Text) :
    begins? inside (spacedName name ++ rest) =
      some (spacedName name, if inside then .flag name else .placeholder name, rest) := by
  have hsplit : splitAtClose (' ' :: name ++ [' '] ++ (closeBraces ++ rest)) =
      some (' ' :: name ++ [' '], rest) := splitAtClose_append h.not_closeBraces_spaced rest
  have htrim : Text.trim (' ' :: name ++ [' ']) = name := by rw [Text.trim_spaced, h.trimmed]
  have hname : name? inside (spacedName name ++ rest) =
      some (spacedName name, if inside then .flag name else .placeholder name, rest) := by
    have happend : spacedName name ++ rest =
        '{' :: '{' :: (' ' :: name ++ [' '] ++ (closeBraces ++ rest)) := by
      simp [spacedName, bracedName, openBraces]
    rw [happend, name?, hsplit, Option.map_some]
    simp only [htrim]
    rfl
  rw [begins?, hname]
  rfl

end Scanner

end Stencil
