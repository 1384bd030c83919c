import Stencil.Json

/-!
# Quoted strings

The text between two double quotes, with escapes after a backslash. A character
beyond U+FFFF may be escaped as the two halves of its UTF-16 form.
-/

namespace Stencil.Json

def hexValue? (c : Char) : Option Nat :=
  let n := c.toNat
  if '0'.toNat ≤ n && n ≤ '9'.toNat then some (n - '0'.toNat)
  else if 'a'.toNat ≤ n && n ≤ 'f'.toNat then some (n - 'a'.toNat + 10)
  else if 'A'.toNat ≤ n && n ≤ 'F'.toNat then some (n - 'A'.toNat + 10)
  else none

def hexDigits? (digits : Text) : Option Nat :=
  digits.foldlM (fun n c => (hexValue? c).map (n * 16 + ·)) 0

/-- Four hexadecimal digits. Four bytes must be there before their kind matters. -/
def hexUnit (t : Text) : Except Stop (Nat × Text) :=
  let head := t.take 4
  if Text.bytes head < 4 then stop .endInString [] 0
  else
    match hexDigits? head with
    | some n => .ok (n, t.drop 4)
    | none => stop .invalidEscape t 4

def isHighHalf (n : Nat) : Bool := 0xd800 ≤ n && n < 0xdc00

def isLowHalf (n : Nat) : Bool := 0xdc00 ≤ n && n < 0xe000

def joinHalves (high low : Nat) : Nat := 0x10000 + (high - 0xd800) * 0x400 + (low - 0xdc00)

/-- The second half that must follow a first one. -/
def lowHalf (t : Text) : Except Stop (Nat × Text) :=
  match t with
  | [] => stop .endInString [] 0
  | '\\' :: [] => stop .endInString [] 0
  | '\\' :: 'u' :: digits =>
      match hexUnit digits with
      | .error e => .error e
      | .ok (n, rest) => if isLowHalf n then .ok (n, rest) else stop .loneSurrogate rest 0
  | '\\' :: t => stop .endInHexEscape t 1
  | t => stop .endInHexEscape t 1

def unicodeEscape (t : Text) : Except Stop (Char × Text) :=
  match hexUnit t with
  | .error e => .error e
  | .ok (n, rest) =>
      if isLowHalf n then stop .loneSurrogate rest 0
      else if isHighHalf n then
        match lowHalf rest with
        | .error e => .error e
        | .ok (low, rest) => .ok (Char.ofNat (joinHalves n low), rest)
      else .ok (Char.ofNat n, rest)

def shortEscape? : Char → Option Char
  | '"' => some '"'
  | '\\' => some '\\'
  | '/' => some '/'
  | 'b' => some '\x08'
  | 'f' => some '\x0c'
  | 'n' => some '\n'
  | 'r' => some '\r'
  | 't' => some '\t'
  | _ => none

/-- What a backslash and the text after it stand for. -/
def escape (t : Text) : Except Stop (Char × Text) :=
  match t with
  | [] => stop .endInString [] 0
  | c :: rest =>
      match shortEscape? c with
      | some e => .ok (e, rest)
      | none => if c = 'u' then unicodeEscape rest else stop .invalidEscape (c :: rest) 1

theorem hexUnit_length_le {t rest : Text} {n : Nat} (h : hexUnit t = .ok (n, rest)) :
    rest.length ≤ t.length := by
  unfold hexUnit at h
  simp only [stop] at h
  split at h
  · cases h
  · split at h
    · simp only [Except.ok.injEq, Prod.mk.injEq] at h
      obtain ⟨-, rfl⟩ := h
      simp
    · cases h

theorem lowHalf_length_le {t rest : Text} {n : Nat} (h : lowHalf t = .ok (n, rest)) :
    rest.length ≤ t.length := by
  unfold lowHalf at h
  simp only [stop] at h
  split at h
  · cases h
  · cases h
  · next digits =>
      split at h
      · cases h
      · next hunit =>
          split at h
          · simp only [Except.ok.injEq, Prod.mk.injEq] at h
            obtain ⟨-, rfl⟩ := h
            have := hexUnit_length_le hunit
            simp only [List.length_cons]
            omega
          · cases h
  · cases h
  · cases h

theorem unicodeEscape_length_le {t rest : Text} {c : Char}
    (h : unicodeEscape t = .ok (c, rest)) : rest.length ≤ t.length := by
  unfold unicodeEscape at h
  simp only [stop] at h
  split at h
  · cases h
  · next hunit =>
      have hle := hexUnit_length_le hunit
      split at h
      · cases h
      · split at h
        · split at h
          · cases h
          · next hlow =>
              simp only [Except.ok.injEq, Prod.mk.injEq] at h
              obtain ⟨-, rfl⟩ := h
              exact Nat.le_trans (lowHalf_length_le hlow) hle
        · simp only [Except.ok.injEq, Prod.mk.injEq] at h
          obtain ⟨-, rfl⟩ := h
          exact hle

theorem escape_length_lt {t rest : Text} {c : Char} (h : escape t = .ok (c, rest)) :
    rest.length < t.length := by
  unfold escape at h
  simp only [stop] at h
  split at h
  · cases h
  · split at h
    · simp only [Except.ok.injEq, Prod.mk.injEq] at h
      obtain ⟨-, rfl⟩ := h
      simp
    · split at h
      · exact Nat.lt_succ_of_le (unicodeEscape_length_le h)
      · cases h

/-- The content of a string up to its closing quote, and what follows. -/
def quoted (t : Text) : Except Stop (Text × Text) :=
  match t with
  | [] => stop .endInString [] 0
  | c :: rest =>
      if c = '"' then .ok ([], rest)
      else if c = '\\' then
        match _h : escape rest with
        | .error e => .error e
        | .ok (e, rest') => (quoted rest').map fun (content, rest) => (e :: content, rest)
      else if c.toNat < 0x20 then stop .controlCharacter (c :: rest) 1
      else (quoted rest).map fun (content, rest) => (c :: content, rest)
termination_by t.length
decreasing_by
  · have := escape_length_lt _h
    simp only [List.length_cons]
    omega
  · simp

example : quoted ['\\', 'n', '"', ','] = .ok (['\n'], [',']) := by
  with_unfolding_all rfl

/-- The two halves of U+1F600. -/
example : unicodeEscape ['d', '8', '3', 'd', '\\', 'u', 'd', 'e', '0', '0'] =
    .ok (Char.ofNat 0x1f600, []) := rfl

end Stencil.Json
