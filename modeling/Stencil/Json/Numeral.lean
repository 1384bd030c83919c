import Stencil.Json

/-!
# Numerals

The written form of numbers, and the bound on their size. A number is taken as a
whole significand below 2 ^ 64 times a power of ten, digits beyond that counting
for the power alone, and it is out of range if the product of the nearest doubles
of the two rounds beyond the largest double.
-/

namespace Stencil.Json

def isDigit (c : Char) : Bool := '0'.toNat ≤ c.toNat && c.toNat ≤ '9'.toNat

def digitValue (c : Char) : Nat := c.toNat - '0'.toNat

/-! ## Size -/

/-- Takes in digits while the value stays below 2 ^ 64; also the number of digits taken. -/
def takeDigits (value : Nat) : Text → Nat × Nat
  | [] => (value, 0)
  | c :: t =>
      let more := value * 10 + digitValue c
      if more < Nat.pow 2 64 then
        let (value, count) := takeDigits more t
        (value, count + 1)
      else (value, 0)

/-- The significand, and the power of ten that goes with it. -/
def significand (whole fraction : Text) : Nat × Int :=
  let (high, wholeCount) := takeDigits 0 whole
  let (value, fractionCount) := takeDigits high fraction
  (value, ((whole.length - wholeCount : Nat) : Int) - fractionCount)

/-- The nearest number of at most 53 binary digits before trailing zeros; of two equally
near ones the even one. -/
def nearestDouble (n : Nat) : Nat :=
  let unit := Nat.pow 2 (n.log2 - 52)
  let low := n / unit
  let part := n % unit
  if 2 * part > unit ∨ 2 * part = unit ∧ low % 2 = 1 then (low + 1) * unit else low * unit

/-- Half a unit above the largest double, from where on results round to infinity. -/
def doubleLimit : Nat := Nat.pow 2 1024 - Nat.pow 2 970

def tooLarge (value : Nat) (power : Int) : Bool :=
  value ≠ 0 && 0 ≤ power &&
    (308 < power || doubleLimit ≤ nearestDouble value * nearestDouble (Nat.pow 10 power.toNat))

/-- 17976931348623157e292 is the largest double, 17976931348623159e292 is beyond it. -/
example : tooLarge 17976931348623157 292 = false ∧ tooLarge 17976931348623159 292 = true := by
  decide +kernel

/-- What follows the digit with which the digits exceed `limit`, if they do. -/
def afterExcess (limit value : Nat) : Text → Option Text
  | [] => none
  | c :: t =>
      let more := value * 10 + digitValue c
      if more ≤ limit then afterExcess limit more t else some t

/-- The bound on an exponent that is not zero by its significand or its sign. -/
def exponentLimit : Nat := 2147483647

/-! ## Form -/

def digitsOf (t : Text) : Text × Text := (t.takeWhile isDigit, t.dropWhile isDigit)

/-- Checks the size of a number without exponent, at its end. -/
def plainSize (whole fraction rest : Text) : Except Stop Text :=
  let (value, power) := significand whole fraction
  if tooLarge value power then stop .numberOutOfRange rest 0 else .ok rest

/-- The power of ten when an exponent is written too. -/
def scaledPower (power : Int) (negative : Bool) (digits : Text) : Int :=
  let exponent : Nat := digits.foldl (fun n c => n * 10 + digitValue c) 0
  if negative then power - exponent else power + exponent

/-- Checks the size of a number with exponent. An exponent beyond its own bound is a fault
at the digit that exceeds it. -/
def scaledSize (whole fraction : Text) (negative : Bool) (digits rest : Text) :
    Except Stop Text :=
  let (value, power) := significand whole fraction
  match afterExcess exponentLimit 0 digits with
  | some later =>
      if value = 0 || negative then .ok rest else stop .numberOutOfRange (later ++ rest) 0
  | none =>
      if tooLarge value (scaledPower power negative digits) then stop .numberOutOfRange rest 0
      else .ok rest

/-- The sign of an exponent, and what follows it. -/
def exponentSign : Text → Bool × Text
  | '-' :: t => (true, t)
  | '+' :: t => (false, t)
  | t => (false, t)

def exponentPart (whole fraction : Text) (t : Text) : Except Stop Text :=
  match t with
  | [] => plainSize whole fraction []
  | c :: after =>
      if c = 'e' || c = 'E' then
        let (negative, start) := exponentSign after
        match digitsOf start with
        | ([], []) => stop .endInValue [] 0
        | ([], rest) => stop .invalidNumber rest 1
        | (digits, rest) => scaledSize whole fraction negative digits rest
      else plainSize whole fraction (c :: after)

def fractionPart (whole : Text) (t : Text) : Except Stop Text :=
  match t with
  | '.' :: after =>
      match digitsOf after with
      | ([], []) => stop .endInValue [] 0
      | ([], rest) => stop .invalidNumber rest 1
      | (digits, rest) => exponentPart whole digits rest
  | t => exponentPart whole [] t

/-- Reads a number without its sign, and gives the text after it. A zero is not followed
by a digit. -/
def afterNumber (t : Text) : Except Stop Text :=
  match digitsOf t with
  | ([], []) => stop .endInValue [] 0
  | ([], rest) => stop .invalidNumber rest 1
  | ('0' :: digit :: digits, rest) => stop .invalidNumber (digit :: digits ++ rest) 1
  | (whole, rest) => fractionPart whole rest

/-! ## Progress -/

theorem digitsOf_append (t : Text) : (digitsOf t).1 ++ (digitsOf t).2 = t :=
  List.takeWhile_append_dropWhile

theorem length_of_digitsOf {t digits rest : Text} (h : digitsOf t = (digits, rest)) :
    digits.length + rest.length = t.length := by
  rw [← digitsOf_append t, h, List.length_append]

theorem eq_of_plainSize {whole fraction rest rest' : Text}
    (h : plainSize whole fraction rest = .ok rest') : rest = rest' := by
  simp only [plainSize, stop] at h
  split at h
  · cases h
  · exact Except.ok.inj h

theorem eq_of_scaledSize {whole fraction digits rest rest' : Text} {negative : Bool}
    (h : scaledSize whole fraction negative digits rest = .ok rest') : rest = rest' := by
  simp only [scaledSize, stop] at h
  split at h
  · split at h
    · exact Except.ok.inj h
    · cases h
  · split at h
    · cases h
    · exact Except.ok.inj h

theorem exponentSign_length_le (t : Text) : (exponentSign t).2.length ≤ t.length := by
  unfold exponentSign
  split <;> simp

theorem exponentPart_length_le {whole fraction t rest : Text}
    (h : exponentPart whole fraction t = .ok rest) : rest.length ≤ t.length := by
  unfold exponentPart at h
  split at h
  · obtain rfl := eq_of_plainSize h
    exact Nat.le_refl _
  · next c after =>
      split at h
      · simp only at h
        split at h
        · cases h
        · cases h
        · next digits rest' _ hdigits =>
            have hsign := exponentSign_length_le after
            have hlength := length_of_digitsOf hdigits
            rw [← eq_of_scaledSize h]
            simp only [List.length_cons]
            omega
      · obtain rfl := eq_of_plainSize h
        exact Nat.le_refl _

theorem fractionPart_length_le {whole t rest : Text} (h : fractionPart whole t = .ok rest) :
    rest.length ≤ t.length := by
  unfold fractionPart at h
  split at h
  · next after =>
      split at h
      · cases h
      · cases h
      · next digits rest' _ hdigits =>
          have hlength := length_of_digitsOf hdigits
          have hle := exponentPart_length_le h
          simp only [List.length_cons]
          omega
  · exact exponentPart_length_le h

theorem afterNumber_length_lt {t rest : Text} (h : afterNumber t = .ok rest) :
    rest.length < t.length := by
  unfold afterNumber at h
  split at h
  · cases h
  · cases h
  · cases h
  · next whole rest' hnil hne _ hdigits =>
      have hlength := length_of_digitsOf hdigits
      have hle := fractionPart_length_le h
      have : 0 < whole.length := by
        cases whole with
        | nil => exact (hne rfl).elim
        | cons c whole => simp
      omega

end Stencil.Json
