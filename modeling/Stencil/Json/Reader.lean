import Stencil.Json.Numeral
import Stencil.Json.Quoted

/-!
# Reading JSON documents

A document is read from left to right. The containers that are open are kept from
the innermost outwards; a value that has been read goes to the innermost one.
-/

namespace Stencil.Json

/-- An open container: the items so far, or the members so far and the name that waits for
its value. -/
inductive Container where
  | list (items : List Json)
  | object (members : List (Text × Json)) (name : Text)
  deriving Repr

/-- How many containers may be open at once. -/
def nestingLimit : Nat := 127

/-! ## Words, numbers and strings -/

/-- The text after a word that is written out letter by letter. -/
def afterWord : Text → Text → Except Stop Text
  | [], t => .ok t
  | _ :: _, [] => stop .endInValue [] 0
  | letter :: word, c :: t =>
      if letter = c then afterWord word t else stop .expectedWord (c :: t) 1

/-- A number with or without a sign, and the text after it. -/
def numberValue (t : Text) : Except Stop (Json × Text) :=
  let digits :=
    match t with
    | '-' :: digits => digits
    | t => t
  (afterNumber digits).map fun rest => (.number (t.take (t.length - rest.length)), rest)

/-- The value that begins with `c` and is not a container, and the text after it. -/
def simpleValue (c : Char) (t : Text) : Except Stop (Json × Text) :=
  if c = 'n' then (afterWord ['u', 'l', 'l'] t).map (.null, ·)
  else if c = 't' then (afterWord ['r', 'u', 'e'] t).map (.boolean true, ·)
  else if c = 'f' then (afterWord ['a', 'l', 's', 'e'] t).map (.boolean false, ·)
  else if c = '"' then (quoted t).map fun (content, rest) => (.string content, rest)
  else if c = '-' || isDigit c then numberValue (c :: t)
  else stop .expectedValue (c :: t) 1

/-- The name of the member that begins with `c`, and the text after its colon. -/
def memberName (c : Char) (t : Text) : Except Stop (Text × Text) :=
  if c = '"' then
    match quoted t with
    | .error e => .error e
    | .ok (name, rest) =>
        match nextSolid? rest with
        | none => stop .endInObject [] 0
        | some (d, rest) =>
            if d = ':' then .ok (name, rest) else stop .expectedColon (d :: rest) 1
  else stop .keyNotString (c :: t) 1

/-! ## Progress -/

theorem afterWord_length_le {word t rest : Text} (h : afterWord word t = .ok rest) :
    rest.length ≤ t.length := by
  fun_induction afterWord word t with
  | case1 t =>
      cases h
      exact Nat.le_refl _
  | case2 => cases h
  | case3 word c t ih => exact Nat.le_succ_of_le (ih h)
  | case4 => cases h

theorem quoted_length_lt {t content rest : Text} (h : quoted t = .ok (content, rest)) :
    rest.length < t.length := by
  fun_induction quoted t generalizing content rest with
  | case1 => cases h
  | case2 =>
      cases h
      simp
  | case3 => cases h
  | case4 t e t' hescape _ ih =>
      obtain ⟨⟨content', rest'⟩, hquoted, heq⟩ := exists_of_map_eq_ok h
      cases heq
      have hlt := ih hquoted
      have hlt' := escape_length_lt hescape
      simp only [List.length_cons]
      omega
  | case5 => cases h
  | case6 c t _ _ _ ih =>
      obtain ⟨⟨content', rest'⟩, hquoted, heq⟩ := exists_of_map_eq_ok h
      cases heq
      exact Nat.lt_succ_of_lt (ih hquoted)

theorem numberValue_length_lt {t rest : Text} {value : Json} (h : numberValue t = .ok (value, rest)) :
    rest.length < t.length := by
  obtain ⟨rest', hnumber, heq⟩ := exists_of_map_eq_ok h
  cases heq
  have hlt := afterNumber_length_lt hnumber
  split at hlt
  · exact Nat.lt_succ_of_lt hlt
  · exact hlt

theorem simpleValue_length_le {c : Char} {t rest : Text} {value : Json}
    (h : simpleValue c t = .ok (value, rest)) : rest.length ≤ t.length := by
  unfold simpleValue at h
  split at h
  · obtain ⟨rest', hword, heq⟩ := exists_of_map_eq_ok h
    cases heq
    exact afterWord_length_le hword
  · split at h
    · obtain ⟨rest', hword, heq⟩ := exists_of_map_eq_ok h
      cases heq
      exact afterWord_length_le hword
    · split at h
      · obtain ⟨rest', hword, heq⟩ := exists_of_map_eq_ok h
        cases heq
        exact afterWord_length_le hword
      · split at h
        · obtain ⟨⟨content, rest'⟩, hquoted, heq⟩ := exists_of_map_eq_ok h
          cases heq
          exact Nat.le_of_lt (quoted_length_lt hquoted)
        · split at h
          · exact Nat.le_of_lt_succ (numberValue_length_lt h)
          · cases h

theorem memberName_length_le {c : Char} {t name rest : Text}
    (h : memberName c t = .ok (name, rest)) : rest.length ≤ t.length := by
  unfold memberName at h
  split at h
  · split at h
    · cases h
    · next hquoted =>
        have hlt := quoted_length_lt hquoted
        split at h
        · cases h
        · next hnext =>
            have hlt' := nextSolid?_shorter hnext
            split at h
            · cases h
              omega
            · cases h
  · cases h

/-! ## The reader -/

mutual

/-- Reads a value, and then on to the end of the document. -/
def expect (stack : List Container) (t : Text) : Except Stop Json :=
  match _h : nextSolid? t with
  | none => stop .endInValue [] 0
  | some (c, rest) =>
      if c = '[' then
        if nestingLimit ≤ stack.length then stop .recursionLimit (c :: rest) 1
        else
          match _hitem : nextSolid? rest with
          | none => stop .endInList [] 0
          | some (d, rest') =>
              if d = ']' then deliver (.list []) stack rest'
              else expect (.list [] :: stack) rest
      else if c = '{' then
        if nestingLimit ≤ stack.length then stop .recursionLimit (c :: rest) 1
        else
          match _hmember : nextSolid? rest with
          | none => stop .endInObject [] 0
          | some (d, rest') =>
              if d = '}' then deliver (.ofMembers []) stack rest'
              else
                match _hname : memberName d rest' with
                | .error e => .error e
                | .ok (name, rest'') => expect (.object [] name :: stack) rest''
      else
        match _hvalue : simpleValue c rest with
        | .error e => .error e
        | .ok (value, rest') => deliver value stack rest'
termination_by t.length
decreasing_by
  all_goals have hlt := nextSolid?_shorter _h
  · have hlt' := nextSolid?_shorter _hitem
    omega
  · exact hlt
  · have hlt' := nextSolid?_shorter _hmember
    omega
  · have hlt' := nextSolid?_shorter _hmember
    have hle := memberName_length_le _hname
    omega
  · have hle := simpleValue_length_le _hvalue
    omega

/-- Gives a value to the innermost open container, and reads on. -/
def deliver (value : Json) (stack : List Container) (t : Text) : Except Stop Json :=
  match _h : nextSolid? t, stack with
  | none, [] => .ok value
  | none, .list _ :: _ => stop .endInList [] 0
  | none, .object _ _ :: _ => stop .endInObject [] 0
  | some (c, rest), [] => stop .trailingCharacters (c :: rest) 1
  | some (c, rest), .list items :: outer =>
      if c = ']' then deliver (.list (items ++ [value])) outer rest
      else if c = ',' then
        match nextSolid? rest with
        | none => stop .endInValue [] 0
        | some (d, rest') =>
            if d = ']' then stop .trailingComma (d :: rest') 1
            else expect (.list (items ++ [value]) :: outer) rest
      else stop .expectedListEnd (c :: rest) 1
  | some (c, rest), .object members name :: outer =>
      if c = '}' then deliver (.ofMembers (members ++ [(name, value)])) outer rest
      else if c = ',' then
        match _hmember : nextSolid? rest with
        | none => stop .endInValue [] 0
        | some (d, rest') =>
            if d = '}' then stop .trailingComma (d :: rest') 1
            else
              match _hname : memberName d rest' with
              | .error e => .error e
              | .ok (name', rest'') =>
                  expect (.object (members ++ [(name, value)]) name' :: outer) rest''
      else stop .expectedObjectEnd (c :: rest) 1
termination_by t.length
decreasing_by
  all_goals have hlt := nextSolid?_shorter _h
  · exact hlt
  · exact hlt
  · exact hlt
  · have hlt' := nextSolid?_shorter _hmember
    have hle := memberName_length_le _hname
    omega

end

/-- Reads a whole document. -/
def parse (document : Text) : Except Error Json :=
  (expect [] document).mapError (·.inDocument document)

end Stencil.Json
