import Stencil.Json.Quoted

/-!
# Written strings

A string is written with its quotation marks, backslashes and control characters escaped,
by a letter or by their code, and all its other characters as they are. By
`quoted_of_written` it is read back from each of its written forms.
-/

namespace Stencil.Json

/-! ## Written forms -/

/-- The characters that do not stand for themselves in a string. -/
def mustEscape (c : Char) : Bool := c = '"' || c = '\\' || c.toNat < 0x20

/-- The letter that stands for a character after a backslash. -/
def escapeLetter? : Char → Option Char
  | '"' => some '"'
  | '\\' => some '\\'
  | '\x08' => some 'b'
  | '\t' => some 't'
  | '\n' => some 'n'
  | '\x0c' => some 'f'
  | '\r' => some 'r'
  | _ => none

/-- A hexadecimal digit, in a small or a capital letter. -/
def hexDigit (capital : Bool) (n : Nat) : Char :=
  if n < 10 then Char.ofNat ('0'.toNat + n)
  else Char.ofNat ((if capital then 'A' else 'a').toNat + (n - 10))

/-- The four digits for one of the first 256 characters. -/
def hexCode (capital : Bool) (c : Char) : Text :=
  ['0', '0', hexDigit capital (c.toNat / 16), hexDigit capital (c.toNat % 16)]

inductive WrittenChar : Char → Text → Prop
  | verbatim {c : Char} (h : mustEscape c = false) : WrittenChar c [c]
  | letter {c e : Char} (h : escapeLetter? c = some e) : WrittenChar c ['\\', e]
  | code {c : Char} (h : mustEscape c = true) (capital : Bool) :
      WrittenChar c ('\\' :: 'u' :: hexCode capital c)

/-- The content of a string, as it stands between the quotation marks. -/
inductive WrittenText : Text → Text → Prop
  | nil : WrittenText [] []
  | cons {c : Char} {content source rest : Text} (hc : WrittenChar c source)
      (h : WrittenText content rest) : WrittenText (c :: content) (source ++ rest)

/-! ## Reading one character -/

theorem quoted_quote (rest : Text) : quoted ('"' :: rest) = .ok ([], rest) := by
  rw [quoted]
  rfl

theorem quoted_escape {t rest : Text} {c : Char} (h : escape t = .ok (c, rest)) :
    quoted ('\\' :: t) = (quoted rest).map fun (content, rest) => (c :: content, rest) := by
  rw [quoted, if_neg (by decide), if_pos rfl]
  split
  · next herror =>
      rw [h] at herror
      cases herror
  · next hok =>
      rw [h] at hok
      cases hok
      rfl

theorem quoted_verbatim {c : Char} (h : mustEscape c = false) (t : Text) :
    quoted (c :: t) = (quoted t).map fun (content, rest) => (c :: content, rest) := by
  simp only [mustEscape, Bool.or_eq_false_iff, decide_eq_false_iff_not] at h
  obtain ⟨⟨hquote, hslash⟩, hcontrol⟩ := h
  rw [quoted, if_neg hquote, if_neg hslash, if_neg hcontrol]

theorem escape_letter {c e : Char} (h : escapeLetter? c = some e) (rest : Text) :
    escape (e :: rest) = .ok (c, rest) := by
  unfold escapeLetter? at h
  split at h <;> cases h <;> rfl

/-- The characters with a code are those before the small letters. -/
theorem toNat_lt_of_mustEscape {c : Char} (h : mustEscape c = true) : c.toNat < 0x60 := by
  simp only [mustEscape, Bool.or_eq_true, decide_eq_true_eq] at h
  rcases h with (rfl | rfl) | h
  · decide
  · decide
  · omega

theorem hexUnit_hexCode {c : Char} (h : c.toNat < 0x60) (capital : Bool) (rest : Text) :
    hexUnit (hexCode capital c ++ rest) = .ok (c.toNat, rest) := by
  have hdigits : ∀ n < 0x60, ∀ capital : Bool,
      let digits := ['0', '0', hexDigit capital (n / 16), hexDigit capital (n % 16)]
      Text.bytes digits = 4 ∧ hexDigits? digits = some n := by decide +kernel
  obtain ⟨hbytes, hvalue⟩ := hdigits c.toNat h capital
  have htake : (hexCode capital c ++ rest).take 4 = hexCode capital c := rfl
  have hdrop : (hexCode capital c ++ rest).drop 4 = rest := rfl
  rw [hexUnit, htake, hdrop]
  simp only [hexCode, hbytes, hvalue, Nat.lt_irrefl, if_false]

theorem escape_code {c : Char} (h : c.toNat < 0x60) (capital : Bool) (rest : Text) :
    escape ('u' :: (hexCode capital c ++ rest)) = .ok (c, rest) := by
  have hlow : isLowHalf c.toNat = false := by
    simp only [isLowHalf, Bool.and_eq_false_imp, decide_eq_true_eq]
    omega
  have hhigh : isHighHalf c.toNat = false := by
    simp only [isHighHalf, Bool.and_eq_false_imp, decide_eq_true_eq]
    omega
  show unicodeEscape (hexCode capital c ++ rest) = _
  rw [unicodeEscape, hexUnit_hexCode h]
  simp [hlow, hhigh]

/-! ## Reading a string -/

theorem quoted_of_writtenChar {c : Char} {source : Text} (h : WrittenChar c source) (t : Text) :
    quoted (source ++ t) = (quoted t).map fun (content, rest) => (c :: content, rest) := by
  cases h with
  | verbatim h => exact quoted_verbatim h t
  | letter h => exact quoted_escape (escape_letter h t)
  | code h capital => exact quoted_escape (escape_code (toNat_lt_of_mustEscape h) capital t)

theorem quoted_of_written {content t : Text} (h : WrittenText content t) (rest : Text) :
    quoted (t ++ '"' :: rest) = .ok (content, rest) := by
  induction h with
  | nil => exact quoted_quote rest
  | cons hc h ih =>
      rw [List.append_assoc, quoted_of_writtenChar hc, ih]
      rfl

end Stencil.Json
