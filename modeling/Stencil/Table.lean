import Stencil.Text.Order

/-!
# Tables

A table gives each of finitely many names one value. Its entries are listed in the
order of the names. The law of insertion is `get?_insert`, and by `ext_get?` two
tables that give the same values are the same.
-/

namespace Stencil

structure Table (α : Type) where
  entries : List (Text × α)
  ascending : entries.Pairwise fun a b => a.1.precedes b.1 = true

namespace Table

variable {α : Type}

def empty : Table α := ⟨[], List.Pairwise.nil⟩

def lookup (name : Text) : List (Text × α) → Option α
  | [] => none
  | (key, value) :: rest => if name = key then some value else lookup name rest

def get? (table : Table α) (name : Text) : Option α := lookup name table.entries

def place (name : Text) (value : α) : List (Text × α) → List (Text × α)
  | [] => [(name, value)]
  | (key, old) :: rest =>
      if name = key then (name, value) :: rest
      else if name.precedes key then (name, value) :: (key, old) :: rest
      else (key, old) :: place name value rest

theorem mem_place {name : Text} {value : α} {entries : List (Text × α)} {entry : Text × α}
    (h : entry ∈ place name value entries) : entry = (name, value) ∨ entry ∈ entries := by
  induction entries with
  | nil => simpa [place] using h
  | cons first rest ih =>
      obtain ⟨key, old⟩ := first
      simp only [place] at h
      split at h
      · simp only [List.mem_cons] at h ⊢
        rcases h with h | h
        · exact Or.inl h
        · exact Or.inr (Or.inr h)
      · split at h
        · simpa using h
        · simp only [List.mem_cons] at h ⊢
          rcases h with h | h
          · exact Or.inr (Or.inl h)
          · exact (ih h).imp_right Or.inr

theorem place_ascending {name : Text} {value : α} {entries : List (Text × α)}
    (h : entries.Pairwise fun a b => a.1.precedes b.1 = true) :
    (place name value entries).Pairwise fun a b => a.1.precedes b.1 = true := by
  induction entries with
  | nil => simp [place]
  | cons first rest ih =>
      obtain ⟨key, old⟩ := first
      obtain ⟨hfirst, hrest⟩ := List.pairwise_cons.mp h
      simp only [place]
      split
      · next heq =>
          subst heq
          exact List.pairwise_cons.mpr ⟨hfirst, hrest⟩
      · next hne =>
          split
          · next hlt =>
              refine List.pairwise_cons.mpr ⟨?_, h⟩
              intro entry hmem
              rcases List.mem_cons.mp hmem with rfl | hmem
              · exact hlt
              · exact Text.precedes_trans hlt (hfirst entry hmem)
          · next hnot =>
              refine List.pairwise_cons.mpr ⟨?_, ih hrest⟩
              intro entry hmem
              rcases mem_place hmem with rfl | hmem
              · exact Text.precedes_total hne (by simpa using hnot)
              · exact hfirst entry hmem

/-- Gives `name` the value, in place of the one it had. -/
def insert (table : Table α) (name : Text) (value : α) : Table α :=
  ⟨place name value table.entries, place_ascending table.ascending⟩

/-- Of two entries with one name the later counts. -/
def ofList (entries : List (Text × α)) : Table α :=
  entries.foldl (fun table entry => table.insert entry.1 entry.2) empty

def size (table : Table α) : Nat := table.entries.length

theorem lookup_eq_none_of_precedes {name : Text} {entries : List (Text × α)}
    (h : ∀ entry ∈ entries, name.precedes entry.1 = true) : lookup name entries = none := by
  induction entries with
  | nil => rfl
  | cons first rest ih =>
      obtain ⟨key, old⟩ := first
      have hne : name ≠ key := by
        rintro rfl
        have := h (name, old) List.mem_cons_self
        rw [Text.precedes_irrefl] at this
        cases this
      rw [lookup, if_neg hne]
      exact ih fun entry hmem => h entry (List.mem_cons_of_mem _ hmem)

theorem lookup_head (key : Text) (value : α) (rest : List (Text × α)) :
    lookup key ((key, value) :: rest) = some value := by
  simp [lookup]

theorem lookup_eq_none_of_precedes_head {name key : Text} {value : α} {rest : List (Text × α)}
    (hlt : name.precedes key = true)
    (h : ((key, value) :: rest).Pairwise fun a b => a.1.precedes b.1 = true) :
    lookup name ((key, value) :: rest) = none := by
  apply lookup_eq_none_of_precedes
  intro entry hmem
  rcases List.mem_cons.mp hmem with rfl | hmem
  · exact hlt
  · exact Text.precedes_trans hlt ((List.pairwise_cons.mp h).1 entry hmem)

theorem eq_of_lookup_eq {a b : List (Text × α)}
    (ha : a.Pairwise fun x y => x.1.precedes y.1 = true)
    (hb : b.Pairwise fun x y => x.1.precedes y.1 = true)
    (h : ∀ name, lookup name a = lookup name b) : a = b := by
  induction a generalizing b with
  | nil =>
      cases b with
      | nil => rfl
      | cons first rest =>
          have := h first.1
          rw [lookup_head] at this
          cases this
  | cons first a ih =>
      obtain ⟨key, value⟩ := first
      cases b with
      | nil =>
          have := h key
          rw [lookup_head] at this
          cases this
      | cons first b =>
          obtain ⟨key', value'⟩ := first
          by_cases hkey : key = key'
          · subst hkey
            have hvalue := h key
            rw [lookup_head, lookup_head] at hvalue
            cases hvalue
            obtain ⟨hafirst, harest⟩ := List.pairwise_cons.mp ha
            obtain ⟨hbfirst, hbrest⟩ := List.pairwise_cons.mp hb
            rw [ih harest hbrest ?_]
            intro name
            by_cases hname : name = key
            · subst hname
              rw [lookup_eq_none_of_precedes hafirst, lookup_eq_none_of_precedes hbfirst]
            · simpa [lookup, hname] using h name
          · exfalso
            cases hlt : key.precedes key' with
            | true =>
                have := h key
                rw [lookup_head, lookup_eq_none_of_precedes_head hlt hb] at this
                cases this
            | false =>
                have := h key'
                rw [lookup_head,
                  lookup_eq_none_of_precedes_head (Text.precedes_total hkey hlt) ha] at this
                cases this

theorem ext_get? {a b : Table α} (h : ∀ name, a.get? name = b.get? name) : a = b := by
  obtain ⟨a, ha⟩ := a
  obtain ⟨b, hb⟩ := b
  obtain rfl := eq_of_lookup_eq ha hb h
  rfl

end Table

end Stencil
