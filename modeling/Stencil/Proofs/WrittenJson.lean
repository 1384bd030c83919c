import Stencil.Proofs.Integers
import Stencil.Proofs.JsonSteps
import Stencil.Proofs.WrittenStrings

/-!
# Written documents

A document is an object with any spaces between its parts, whose containers are at most
`nestingLimit` deep. `ReadsWritten` says what a reader has to make of these documents, and
by `readsWritten_parse_iff` the reader at hand does so for integers up to its limit.
-/

namespace Stencil.Json

/-! ## Written forms -/

/-- The name of a member and its colon. -/
inductive Label : Text → Text → Prop
  | label {name t s s' : Text} (hs : Spaces s) (h : WrittenText name t) (hs' : Spaces s') :
      Label name (s ++ '"' :: (t ++ '"' :: (s' ++ [':'])))

mutual

/-- A value whose containers are at most `room` deep and whose numbers are integers below
`limit` in size. -/
inductive Written (limit : Nat) : Nat → Json → Text → Prop
  | null {room : Nat} : Written limit room .null ['n', 'u', 'l', 'l']
  | true {room : Nat} : Written limit room (.boolean true) ['t', 'r', 'u', 'e']
  | false {room : Nat} : Written limit room (.boolean false) ['f', 'a', 'l', 's', 'e']
  | number {room : Nat} {literal : Text} (h : IsInteger limit literal) :
      Written limit room (.number literal) literal
  | string {room : Nat} {content t : Text} (h : WrittenText content t) :
      Written limit room (.string content) ('"' :: (t ++ ['"']))
  | emptyList {room : Nat} {s : Text} (hs : Spaces s) :
      Written limit (room + 1) (.list []) ('[' :: (s ++ [']']))
  | list {room : Nat} {items : List Json} {t : Text} (h : WrittenItems limit room items t) :
      Written limit (room + 1) (.list items) ('[' :: (t ++ [']']))
  | emptyObject {room : Nat} {s : Text} (hs : Spaces s) :
      Written limit (room + 1) (.object []) ('{' :: (s ++ ['}']))
  | object {room : Nat} {members : List (Text × Json)} {t : Text}
      (h : WrittenMembers limit room members t) :
      Written limit (room + 1) (.ofMembers members) ('{' :: (t ++ ['}']))

/-- The items of a list, without its brackets. -/
inductive WrittenItems (limit : Nat) : Nat → List Json → Text → Prop
  | last {room : Nat} {item : Json} {s t s' : Text} (hs : Spaces s)
      (h : Written limit room item t) (hs' : Spaces s') :
      WrittenItems limit room [item] (s ++ (t ++ s'))
  | cons {room : Nat} {item : Json} {items : List Json} {s t s' later : Text} (hs : Spaces s)
      (h : Written limit room item t) (hs' : Spaces s')
      (hitems : WrittenItems limit room items later) :
      WrittenItems limit room (item :: items) (s ++ (t ++ (s' ++ ',' :: later)))

/-- The members of an object, without its braces. -/
inductive WrittenMembers (limit : Nat) : Nat → List (Text × Json) → Text → Prop
  | last {room : Nat} {name : Text} {value : Json} {label s t s' : Text}
      (hlabel : Label name label) (hs : Spaces s) (h : Written limit room value t)
      (hs' : Spaces s') :
      WrittenMembers limit room [(name, value)] (label ++ (s ++ (t ++ s')))
  | cons {room : Nat} {name : Text} {value : Json} {members : List (Text × Json)}
      {label s t s' later : Text} (hlabel : Label name label) (hs : Spaces s)
      (h : Written limit room value t) (hs' : Spaces s')
      (hmembers : WrittenMembers limit room members later) :
      WrittenMembers limit room ((name, value) :: members)
        (label ++ (s ++ (t ++ (s' ++ ',' :: later))))

end

theorem isDigit_or_sign_of_isInteger {limit : Nat} {literal : Text}
    (h : IsInteger limit literal) :
    ∃ c t, literal = c :: t ∧ (c = '-' ∨ isDigit c = true) := by
  obtain ⟨n, -, rfl | rfl⟩ := h
  · cases hdigits : Nat.toDigits 10 n with
    | nil => exact absurd hdigits Nat.toDigits_ne_nil
    | cons c t =>
        refine ⟨c, t, rfl, Or.inr (isDigit_of_mem_toDigits (n := n) ?_)⟩
        rw [hdigits]
        exact List.mem_cons_self
  · exact ⟨'-', _, rfl, Or.inl rfl⟩

/-- What begins a number begins nothing else. -/
theorem ne_of_isDigit {c : Char} (h : c = '-' ∨ isDigit c = true) :
    isSpace c = false ∧ c ≠ ']' ∧ c ≠ '[' ∧ c ≠ '{' ∧ c ≠ 'n' ∧ c ≠ 't' ∧ c ≠ 'f' ∧ c ≠ '"' := by
  rcases h with rfl | h
  · decide
  · refine ⟨?_, ?_, ?_, ?_, ?_, ?_, ?_, ?_⟩
    · simp only [isSpace, Bool.or_eq_false_iff, decide_eq_false_iff_not]
      refine ⟨⟨⟨?_, ?_⟩, ?_⟩, ?_⟩ <;> rintro rfl <;> cases h
    all_goals
      rintro rfl
      cases h

theorem endsNumber_spaces {s rest : Text} (hs : Spaces s) (h : EndsNumber rest) :
    EndsNumber (s ++ rest) := by
  cases s with
  | nil => exact h
  | cons c s =>
      intro d t heq
      cases heq
      have hspace := hs c List.mem_cons_self
      simp only [isSpace, Bool.or_eq_true, decide_eq_true_eq] at hspace
      rcases hspace with ((rfl | rfl) | rfl) | rfl <;> decide

theorem endsNumber_cons {c : Char} (h : c = ',' ∨ c = ']' ∨ c = '}') (t : Text) :
    EndsNumber (c :: t) := by
  intro d u heq
  cases heq
  rcases h with rfl | rfl | rfl <;> decide

/-- No value begins with a space or with the end of a list. -/
theorem head_of_written {limit room : Nat} {value : Json} {t : Text}
    (h : Written limit room value t) :
    ∃ c t', t = c :: t' ∧ isSpace c = false ∧ c ≠ ']' := by
  cases h with
  | null | true | false | string | emptyList | list | emptyObject | object =>
      exact ⟨_, _, rfl, by decide, by decide⟩
  | number h =>
      obtain ⟨c, t', rfl, hc⟩ := isDigit_or_sign_of_isInteger h
      obtain ⟨hspace, hclose, -⟩ := ne_of_isDigit hc
      exact ⟨c, t', rfl, hspace, hclose⟩

theorem startsItem_of_written {limit room : Nat} {item : Json} {s t : Text} (hs : Spaces s)
    (h : Written limit room item t) (rest : Text) : StartsItem (s ++ (t ++ rest)) := by
  obtain ⟨c, t', rfl, hspace, hc⟩ := head_of_written h
  exact ⟨c, t' ++ rest, nextSolid?_spaces_cons hs hspace _, hc⟩

theorem startsItem_of_writtenItems {limit room : Nat} {items : List Json} {t : Text}
    (h : WrittenItems limit room items t) (rest : Text) : StartsItem (t ++ rest) := by
  cases h with
  | last hs h hs' =>
      simp only [List.append_assoc]
      exact startsItem_of_written hs h _
  | cons hs h hs' hitems =>
      simp only [List.append_assoc]
      exact startsItem_of_written hs h _

theorem startsMember_of_label {name label : Text} (h : Label name label) (rest : Text) :
    StartsMember (label ++ rest) name rest := by
  cases h with
  | @label t s s' hs h hs' =>
      refine ⟨t ++ '"' :: (s' ++ ':' :: rest), ?_, ?_⟩
      · simp only [List.append_assoc, List.cons_append, List.nil_append]
        exact nextSolid?_spaces_cons hs rfl _
      · have hcolon : nextSolid? (s' ++ ':' :: rest) = some (':', rest) :=
          nextSolid?_spaces_cons hs' rfl rest
        simp only [memberName, if_true, quoted_of_written h, hcolon]

/-! ## Reading a document

What the reader makes of each written form, whichever containers are open and whatever
follows. The parts of a container are read while it is open, so they have one level less.
-/

theorem simpleValue_of_number {c : Char} (hc : c = '-' ∨ isDigit c = true) (t : Text) :
    simpleValue c t = numberValue (c :: t) := by
  obtain ⟨-, -, -, -, hn, ht, hf, hquote⟩ := ne_of_isDigit hc
  have hnumber : (c = '-' || isDigit c) = true := by
    rcases hc with rfl | hc
    · rfl
    · simp [hc]
  rw [simpleValue, if_neg hn, if_neg ht, if_neg hf, if_neg hquote, if_pos hnumber]

def ReadsValue (room : Nat) (value : Json) (t : Text) : Prop :=
  ∀ (stack : List Container) (rest : Text), stack.length + room ≤ nestingLimit →
    EndsNumber rest → expect stack (t ++ rest) = deliver value stack rest

/-- The items go to the list after those that are `done`. -/
def ReadsItems (room : Nat) (items : List Json) (t : Text) : Prop :=
  ∀ (stack : List Container) (rest : Text) (done : List Json),
    stack.length + room < nestingLimit →
      expect (.list done :: stack) (t ++ ']' :: rest) = deliver (.list (done ++ items)) stack rest

/-- The first name is read when the object opens, and the members go to the object after
those that are `done`. -/
def ReadsMembers (room : Nat) (members : List (Text × Json)) (t : Text) : Prop :=
  ∀ rest, ∃ name after, StartsMember (t ++ '}' :: rest) name after ∧
    ∀ (stack : List Container) (done : List (Text × Json)), stack.length + room < nestingLimit →
      expect (.object done name :: stack) after = deliver (.ofMembers (done ++ members)) stack rest

section

variable {room : Nat} {value : Json} {items : List Json} {members : List (Text × Json)}
  {name label s t s' later : Text} {stack : List Container}

/-- The spaces after a value end a number too, so they can count as what follows. -/
theorem ReadsValue.spaced (h : ReadsValue room value t) (hs : Spaces s) (hs' : Spaces s')
    (hroom : stack.length + room ≤ nestingLimit) {rest : Text} (hrest : EndsNumber rest) :
    expect stack (s ++ (t ++ (s' ++ rest))) = deliver value stack rest :=
  calc expect stack (s ++ (t ++ (s' ++ rest)))
      = expect stack (t ++ (s' ++ rest)) := expect_spaces hs stack _
    _ = deliver value stack (s' ++ rest) := h stack _ hroom (endsNumber_spaces hs' hrest)
    _ = deliver value stack rest := deliver_spaces hs' value stack rest

theorem readsValue_number {limit : Nat} (hlimit : limit ≤ integerLimit)
    (h : IsInteger limit t) : ReadsValue room (.number t) t := by
  intro stack rest _ hrest
  obtain ⟨c, t, rfl, hc⟩ := isDigit_or_sign_of_isInteger h
  obtain ⟨hspace, -, hlist, hobject, -⟩ := ne_of_isDigit hc
  apply expect_simple hspace hlist hobject
  rw [simpleValue_of_number hc]
  exact numberValue_of_isInteger hlimit h hrest

theorem readsValue_string {content : Text} (h : WrittenText content t) :
    ReadsValue room (.string content) ('"' :: (t ++ ['"'])) := by
  intro stack rest _ _
  apply expect_simple rfl (by decide) (by decide)
  show (quoted ((t ++ ['"']) ++ rest)).map _ = _
  rw [List.append_assoc, List.singleton_append, quoted_of_written h]
  rfl

theorem readsValue_emptyList (hs : Spaces s) :
    ReadsValue (room + 1) (.list []) ('[' :: (s ++ [']'])) := by
  intro stack rest hroom _
  show expect stack ('[' :: ((s ++ [']']) ++ rest)) = _
  rw [List.append_assoc]
  exact expect_emptyList (by omega) (nextSolid?_spaces_cons hs rfl rest)

theorem ReadsItems.list (hstart : ∀ rest, StartsItem (t ++ rest)) (h : ReadsItems room items t) :
    ReadsValue (room + 1) (.list items) ('[' :: (t ++ [']'])) := by
  intro stack rest hroom _
  show expect stack ('[' :: ((t ++ [']']) ++ rest)) = _
  rw [List.append_assoc, expect_list (by omega) (hstart _)]
  exact h stack rest [] (by omega)

theorem expect_object_nil (hs : Spaces s) (hroom : stack.length < nestingLimit) (rest : Text) :
    expect stack ('{' :: (s ++ '}' :: rest)) = deliver (.ofMembers []) stack rest :=
  expect_emptyObject hroom (nextSolid?_spaces_cons hs rfl rest)

theorem ReadsMembers.expect_object (h : ReadsMembers room members t)
    (hroom : stack.length + room < nestingLimit) (rest : Text) :
    expect stack ('{' :: (t ++ '}' :: rest)) = deliver (.ofMembers members) stack rest := by
  obtain ⟨name, after, hmember, hexpect⟩ := h rest
  rw [Json.expect_object (by omega) hmember]
  exact hexpect stack [] hroom

theorem readsValue_emptyObject (hs : Spaces s) :
    ReadsValue (room + 1) (.object []) ('{' :: (s ++ ['}'])) := by
  intro stack rest hroom _
  show expect stack ('{' :: ((s ++ ['}']) ++ rest)) = _
  rw [List.append_assoc]
  exact expect_object_nil hs (by omega) rest

theorem ReadsMembers.object (h : ReadsMembers room members t) :
    ReadsValue (room + 1) (.ofMembers members) ('{' :: (t ++ ['}'])) := by
  intro stack rest hroom _
  show expect stack ('{' :: ((t ++ ['}']) ++ rest)) = _
  rw [List.append_assoc]
  exact h.expect_object (by omega) rest

theorem readsItems_last (hs : Spaces s) (h : ReadsValue room value t) (hs' : Spaces s') :
    ReadsItems room [value] (s ++ (t ++ s')) := by
  intro stack rest done hroom
  have hinside : (Container.list done :: stack).length + room ≤ nestingLimit := by
    rw [List.length_cons]
    omega
  rw [List.append_assoc, List.append_assoc,
    h.spaced hs hs' hinside (endsNumber_cons (by decide) rest)]
  exact deliver_list_close

theorem readsItems_cons (hs : Spaces s) (h : ReadsValue room value t) (hs' : Spaces s')
    (hstart : ∀ rest, StartsItem (later ++ rest)) (hitems : ReadsItems room items later) :
    ReadsItems room (value :: items) (s ++ (t ++ (s' ++ ',' :: later))) := by
  intro stack rest done hroom
  have hinside : (Container.list done :: stack).length + room ≤ nestingLimit := by
    rw [List.length_cons]
    omega
  simp only [List.append_assoc, List.cons_append]
  calc expect (.list done :: stack) _
      = deliver value (.list done :: stack) (',' :: (later ++ ']' :: rest)) :=
        h.spaced hs hs' hinside (endsNumber_cons (by decide) _)
    _ = expect (.list (done ++ [value]) :: stack) (later ++ ']' :: rest) :=
        deliver_list_comma (hstart _)
    _ = deliver (.list ((done ++ [value]) ++ items)) stack rest :=
        hitems stack rest (done ++ [value]) hroom
    _ = deliver (.list (done ++ value :: items)) stack rest := by rw [← List.append_cons]

theorem readsMembers_last (hlabel : Label name label) (hs : Spaces s)
    (h : ReadsValue room value t) (hs' : Spaces s') :
    ReadsMembers room [(name, value)] (label ++ (s ++ (t ++ s'))) := by
  intro rest
  simp only [List.append_assoc]
  refine ⟨name, _, startsMember_of_label hlabel _, ?_⟩
  intro stack done hroom
  have hinside : (Container.object done name :: stack).length + room ≤ nestingLimit := by
    rw [List.length_cons]
    omega
  rw [h.spaced hs hs' hinside (endsNumber_cons (by decide) rest)]
  exact deliver_object_close

theorem readsMembers_cons (hlabel : Label name label) (hs : Spaces s)
    (h : ReadsValue room value t) (hs' : Spaces s') (hmembers : ReadsMembers room members later) :
    ReadsMembers room ((name, value) :: members)
      (label ++ (s ++ (t ++ (s' ++ ',' :: later)))) := by
  intro rest
  obtain ⟨name', after, hmember, hexpect⟩ := hmembers rest
  simp only [List.append_assoc, List.cons_append]
  refine ⟨name, _, startsMember_of_label hlabel _, ?_⟩
  intro stack done hroom
  have hinside : (Container.object done name :: stack).length + room ≤ nestingLimit := by
    rw [List.length_cons]
    omega
  calc expect (.object done name :: stack) _
      = deliver value (.object done name :: stack) (',' :: (later ++ '}' :: rest)) :=
        h.spaced hs hs' hinside (endsNumber_cons (by decide) _)
    _ = expect (.object (done ++ [(name, value)]) name' :: stack) after :=
        deliver_object_comma hmember
    _ = deliver (.ofMembers ((done ++ [(name, value)]) ++ members)) stack rest :=
        hexpect stack (done ++ [(name, value)]) hroom
    _ = deliver (.ofMembers (done ++ (name, value) :: members)) stack rest := by
        rw [← List.append_cons]

end

section

variable {limit : Nat}

mutual

theorem readsValue_of_written (hlimit : limit ≤ integerLimit) :
    ∀ {room : Nat} {value : Json} {t : Text}, Written limit room value t → ReadsValue room value t
  | _, _, _, .null => fun _ _ _ _ => expect_simple rfl (by decide) (by decide) rfl
  | _, _, _, .true => fun _ _ _ _ => expect_simple rfl (by decide) (by decide) rfl
  | _, _, _, .false => fun _ _ _ _ => expect_simple rfl (by decide) (by decide) rfl
  | _, _, _, .number h => readsValue_number hlimit h
  | _, _, _, .string h => readsValue_string h
  | _, _, _, .emptyList hs => readsValue_emptyList hs
  | _, _, _, .list h => (readsItems_of_written hlimit h).list (startsItem_of_writtenItems h)
  | _, _, _, .emptyObject hs => readsValue_emptyObject hs
  | _, _, _, .object h => (readsMembers_of_written hlimit h).object

theorem readsItems_of_written (hlimit : limit ≤ integerLimit) :
    ∀ {room : Nat} {items : List Json} {t : Text}, WrittenItems limit room items t →
      ReadsItems room items t
  | _, _, _, .last hs h hs' => readsItems_last hs (readsValue_of_written hlimit h) hs'
  | _, _, _, .cons hs h hs' hitems =>
      readsItems_cons hs (readsValue_of_written hlimit h) hs' (startsItem_of_writtenItems hitems)
        (readsItems_of_written hlimit hitems)

theorem readsMembers_of_written (hlimit : limit ≤ integerLimit) :
    ∀ {room : Nat} {members : List (Text × Json)} {t : Text},
      WrittenMembers limit room members t → ReadsMembers room members t
  | _, _, _, .last hlabel hs h hs' =>
      readsMembers_last hlabel hs (readsValue_of_written hlimit h) hs'
  | _, _, _, .cons hlabel hs h hs' hmembers =>
      readsMembers_cons hlabel hs (readsValue_of_written hlimit h) hs'
        (readsMembers_of_written hlimit hmembers)

end

end

/-! ## The limit of the reader -/

example : integerLimit < 2 ^ 1024 - 2 ^ 971 := by decide +kernel

end Stencil.Json
