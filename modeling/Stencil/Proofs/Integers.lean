import Stencil.Json.Reader

/-!
# Integers

An integer is read if and only if it is below `integerLimit` in size. The reader keeps its
leading digits, which make a number below 2 ^ 64, and takes that number times a power of
ten, both to the nearest double. So the bound is a little below the largest double.
-/

namespace Stencil.Json

/-- The power of ten that goes with the twenty leading digits of 309. It stays folded, so
that no proof computes with it by accident. -/
@[irreducible]
def topPower : Nat := 289

/-- From here on the leading digits and the power of ten round to a product beyond the
largest double. -/
def integerLimit : Nat := 17976931348623156225 * Nat.pow 10 topPower

/-- An integer below the limit in size, in decimal digits. -/
def IsInteger (limit : Nat) (literal : Text) : Prop :=
  ∃ n < limit, literal = Nat.toDigits 10 n ∨ literal = '-' :: Nat.toDigits 10 n

/-! ## Digits -/

theorem isDigit_of_isDigit {c : Char} (h : c.isDigit = true) : isDigit c = true := by
  simp only [Char.isDigit, Bool.and_eq_true, decide_eq_true_eq] at h
  simp only [isDigit, Bool.and_eq_true, decide_eq_true_eq]
  exact h

theorem isDigit_of_mem_toDigits {n : Nat} {c : Char} (h : c ∈ Nat.toDigits 10 n) :
    isDigit c = true :=
  isDigit_of_isDigit (Nat.isDigit_of_mem_toDigits (by decide) (by decide) h)

theorem digitValue_lt {c : Char} (h : isDigit c = true) : digitValue c < 10 := by
  simp only [isDigit, Bool.and_eq_true, decide_eq_true_eq] at h
  have hzero : '0'.toNat = 48 := rfl
  have hnine : '9'.toNat = 57 := rfl
  rw [digitValue]
  omega

theorem pow_ten_pos (k : Nat) : 0 < Nat.pow 10 k := Nat.pow_pos (by decide)

/-- The digits after `value` are those that a division takes away. -/
theorem ofDigitChars_div {t : Text} (ht : ∀ c ∈ t, isDigit c = true) : ∀ value : Nat,
    Nat.ofDigitChars 10 t value / Nat.pow 10 t.length = value := by
  induction t with
  | nil => exact Nat.div_one
  | cons c t ih =>
      intro value
      obtain ⟨hc, ht⟩ := List.forall_mem_cons.mp ht
      have hdigit := digitValue_lt hc
      have hpow : Nat.pow 10 (c :: t).length = Nat.pow 10 t.length * 10 := rfl
      rw [Nat.ofDigitChars_cons, hpow, ← Nat.div_div_eq_div_mul, ih ht]
      simp only [digitValue] at hdigit
      omega

/-- No digits in front can be left out. -/
theorem toDigits_ne_zero_cons (n : Nat) (d : Char) (ds : Text) :
    Nat.toDigits 10 n ≠ '0' :: d :: ds := by
  intro heq
  have hdigits : ∀ c ∈ d :: ds, isDigit c = true := by
    intro c hc
    exact isDigit_of_mem_toDigits (heq ▸ List.mem_cons_of_mem _ hc)
  have hvalue : Nat.ofDigitChars 10 (d :: ds) 0 = n := by
    rw [← @Nat.ofDigitChars_ten_toDigits n, heq]
    rfl
  have hlt : n < Nat.pow 10 (d :: ds).length := by
    have hdiv := ofDigitChars_div hdigits 0
    rw [hvalue] at hdiv
    exact Nat.lt_of_div_eq_zero (pow_ten_pos _) hdiv
  have hlength := (Nat.length_toDigits_le_iff (by decide) (by simp)).mpr hlt
  rw [heq] at hlength
  simp only [List.length_cons] at hlength
  omega

/-! ## Leading digits -/

/-- The digits that are taken are all but `left` of them, and one more would have made the
number too large. -/
theorem takeDigits_eq {t : Text} (ht : ∀ c ∈ t, isDigit c = true) : ∀ {value : Nat},
    value < Nat.pow 2 64 → ∃ left ≤ t.length,
      takeDigits value t =
        (Nat.ofDigitChars 10 t value / Nat.pow 10 left, t.length - left) ∧
      Nat.ofDigitChars 10 t value / Nat.pow 10 left < Nat.pow 2 64 ∧
      (0 < left → Nat.pow 2 64 ≤ Nat.ofDigitChars 10 t value / Nat.pow 10 (left - 1)) := by
  induction t with
  | nil =>
      intro value hvalue
      refine ⟨0, Nat.le_refl _, ?_, ?_, by simp⟩
      · simp [takeDigits, Nat.ofDigitChars_nil]
      · simpa [Nat.ofDigitChars_nil] using hvalue
  | cons c t ih =>
      intro value hvalue
      have hall := ofDigitChars_div ht value
      obtain ⟨hc, ht⟩ := List.forall_mem_cons.mp ht
      have hmore : 10 * value + (c.toNat - '0'.toNat) = value * 10 + digitValue c := by
        rw [digitValue]
        omega
      have hcons : Nat.ofDigitChars 10 (c :: t) value =
          Nat.ofDigitChars 10 t (value * 10 + digitValue c) := by
        rw [Nat.ofDigitChars_cons, hmore]
      by_cases hlt : value * 10 + digitValue c < Nat.pow 2 64
      · obtain ⟨left, hleft, htake, hsmall, hlarge⟩ := ih ht hlt
        rw [hcons]
        refine ⟨left, by simp only [List.length_cons]; omega, ?_, hsmall, hlarge⟩
        rw [takeDigits]
        simp only [hlt, if_true, htake, List.length_cons]
        congr 1
        omega
      · rw [List.length_cons] at hall
        refine ⟨t.length + 1, Nat.le_refl _, ?_, ?_, ?_⟩
        · rw [takeDigits, hall]
          simp only [hlt, if_false, List.length_cons, Nat.sub_self]
        · rwa [hall]
        · intro _
          rw [hcons, Nat.add_sub_cancel, ofDigitChars_div ht]
          omega

/-! ## Rounding -/

theorem nearestDouble_le {n b : Nat} (hb : Nat.pow 2 (n.log2 - 52) ∣ b) (hle : n ≤ b) :
    nearestDouble n ≤ b := by
  simp only [nearestDouble]
  obtain ⟨k, rfl⟩ := hb
  generalize hunit : Nat.pow 2 (n.log2 - 52) = unit at hle ⊢
  have hdiv := Nat.div_add_mod n unit
  split
  · next hround =>
      -- there is a part to round up, so the multiple below is not `b` itself
      have hpart : 0 < n % unit := by
        have hpos : 0 < unit := hunit ▸ Nat.pow_pos (by decide)
        omega
      have hlow : n / unit < k := Nat.lt_of_mul_lt_mul_left (a := unit) (by omega)
      calc (n / unit + 1) * unit ≤ k * unit := Nat.mul_le_mul_right unit hlow
        _ = unit * k := Nat.mul_comm k unit
  · rw [Nat.mul_comm]
    omega

theorem nearestDouble_le_two_mul {n : Nat} (hn : n ≠ 0) : nearestDouble n ≤ 2 * n := by
  have hunit : Nat.pow 2 (n.log2 - 52) ≤ n :=
    Nat.le_trans (Nat.pow_le_pow_right (by decide) (Nat.sub_le _ _)) (Nat.log2_self_le hn)
  simp only [nearestDouble]
  generalize Nat.pow 2 (n.log2 - 52) = unit at hunit ⊢
  have hdiv : n / unit * unit ≤ n := Nat.div_mul_le_self n unit
  split
  · rw [Nat.add_mul]
    omega
  · omega

theorem nearestDouble_le_pow {n k : Nat} (hn : n < Nat.pow 2 k) :
    nearestDouble n ≤ Nat.pow 2 k := by
  refine nearestDouble_le (Nat.pow_dvd_pow 2 ?_) (Nat.le_of_lt hn)
  by_cases hzero : n = 0
  · subst hzero
    exact Nat.zero_le k
  · have hlog := (Nat.log2_lt hzero).mpr hn
    omega

/-- Rounding takes away no more than a small part of a number. -/
theorem mul_le_nearestDouble (n : Nat) : 999 * n ≤ 1000 * nearestDouble n := by
  have hunit : Nat.pow 2 (n.log2 - 52) = 1 ∨ 1000 * Nat.pow 2 (n.log2 - 52) ≤ n := by
    by_cases hlog : n.log2 ≤ 52
    · rw [Nat.sub_eq_zero_of_le hlog]
      exact Or.inl rfl
    · have hn : n ≠ 0 := by
        rintro rfl
        exact hlog (by decide)
      refine Or.inr ?_
      calc 1000 * Nat.pow 2 (n.log2 - 52)
          ≤ Nat.pow 2 52 * Nat.pow 2 (n.log2 - 52) := Nat.mul_le_mul_right _ (by decide)
        _ = Nat.pow 2 (52 + (n.log2 - 52)) := (Nat.pow_add 2 52 _).symm
        _ = Nat.pow 2 n.log2 := by rw [Nat.add_sub_cancel' (Nat.le_of_not_le hlog)]
        _ ≤ n := Nat.log2_self_le hn
  have hpos : 0 < Nat.pow 2 (n.log2 - 52) := Nat.pow_pos (by decide)
  simp only [nearestDouble]
  generalize Nat.pow 2 (n.log2 - 52) = unit at hunit hpos ⊢
  have hdiv := Nat.div_add_mod n unit
  have hmod := Nat.mod_lt n hpos
  rw [Nat.mul_comm] at hdiv
  split
  · rw [Nat.add_mul]
    omega
  · rcases hunit with rfl | hunit
    · omega
    · omega

/-- The multiples of 2048 on the two sides of the leading digits of `integerLimit`, which
stand half a unit and a little more above the first. -/
theorem nearestDouble_cases {n : Nat} (hn : n < Nat.pow 2 64) :
    (n < 17976931348623156225 → nearestDouble n ≤ 17976931348623155200) ∧
      (17976931348623156225 ≤ n → 17976931348623157248 ≤ nearestDouble n) := by
  by_cases hlow : n < Nat.pow 2 63
  · have hpow : Nat.pow 2 63 < 17976931348623155200 := by decide
    refine ⟨fun _ => ?_, fun hle => absurd (Nat.lt_of_le_of_lt hle hlow) (by decide)⟩
    exact Nat.le_trans (nearestDouble_le_pow hlow) (Nat.le_of_lt hpow)
  -- the multiples of 2048 are all the doubles from here to 2 ^ 64
  · have hpos : n ≠ 0 := by
      rintro rfl
      exact hlow (by decide)
    have hlog : n.log2 = 63 := by
      have hlt := (Nat.log2_lt hpos).mpr hn
      have hle := (Nat.le_log2 hpos).mpr (Nat.le_of_not_lt hlow)
      omega
    have hunit : Nat.pow 2 (n.log2 - 52) = 2048 := by rw [hlog]
    simp only [nearestDouble, hunit]
    constructor
    · intro hlt
      split <;> omega
    · intro hle
      split <;> omega

/-! ## The size of an integer -/

theorem div_topPower_lt_iff {n : Nat} :
    n / Nat.pow 10 topPower < 17976931348623156225 ↔ n < integerLimit :=
  Nat.div_lt_iff_lt_mul (pow_ten_pos topPower)

section

variable {n left : Nat} (hsmall : n / Nat.pow 10 left < Nat.pow 2 64)
  (hlarge : 0 < left → Nat.pow 2 64 ≤ n / Nat.pow 10 (left - 1))

include hlarge in
/-- Of an integer below the limit no more digits are left than that. -/
theorem left_le_topPower (hn : n < integerLimit) : left ≤ topPower := by
  refine Nat.le_of_not_lt fun hgt => ?_
  have hdiv : n / Nat.pow 10 (left - 1) ≤ n / Nat.pow 10 topPower :=
    Nat.div_le_div_left (Nat.pow_le_pow_right (by decide) (Nat.le_sub_one_of_lt hgt))
      (pow_ten_pos topPower)
  have htop := div_topPower_lt_iff.mpr hn
  have hle := hlarge (Nat.lt_of_le_of_lt (Nat.zero_le _) hgt)
  exact absurd (Nat.lt_of_le_of_lt (Nat.le_trans hle hdiv) htop) (by decide)

include hsmall in
theorem topPower_le_left (hn : integerLimit ≤ n) : topPower ≤ left := by
  refine Nat.le_of_not_lt fun hlt => ?_
  have hmore : 17976931348623156225 * 10 ≤ n / Nat.pow 10 left := by
    refine (Nat.le_div_iff_mul_le (pow_ten_pos left)).mpr ?_
    calc 17976931348623156225 * 10 * Nat.pow 10 left
        = 17976931348623156225 * Nat.pow 10 (left + 1) := by
          rw [Nat.mul_assoc]
          exact congrArg _ (Nat.mul_comm 10 _)
      _ ≤ integerLimit := Nat.mul_le_mul_left _ (Nat.pow_le_pow_right (by decide) hlt)
      _ ≤ n := hn
  exact absurd (Nat.lt_of_le_of_lt hmore hsmall) (by decide)

include hsmall in
theorem nearestDouble_mul_lt (hleft : left ≤ topPower) (hn : n < integerLimit) :
    nearestDouble (n / Nat.pow 10 left) * nearestDouble (Nat.pow 10 left) < doubleLimit := by
  by_cases heq : left = topPower
  -- only here does it matter how the power of ten is rounded
  · subst heq
    have htop := div_topPower_lt_iff.mpr hn
    calc nearestDouble (n / Nat.pow 10 topPower) * nearestDouble (Nat.pow 10 topPower)
        ≤ 17976931348623155200 * nearestDouble (Nat.pow 10 topPower) :=
          Nat.mul_le_mul_right _ ((nearestDouble_cases hsmall).1 htop)
      _ < doubleLimit := by decide +kernel
  · have hpow : Nat.pow 10 left ≤ Nat.pow 10 (topPower - 1) :=
      Nat.pow_le_pow_right (by decide) (Nat.le_sub_one_of_lt (Nat.lt_of_le_of_ne hleft heq))
    have hten : nearestDouble (Nat.pow 10 left) ≤ 2 * Nat.pow 10 (topPower - 1) :=
      Nat.le_trans (nearestDouble_le_two_mul (Nat.ne_of_gt (pow_ten_pos left)))
        (Nat.mul_le_mul_left 2 hpow)
    calc nearestDouble (n / Nat.pow 10 left) * nearestDouble (Nat.pow 10 left)
        ≤ Nat.pow 2 64 * (2 * Nat.pow 10 (topPower - 1)) :=
          Nat.mul_le_mul (nearestDouble_le_pow hsmall) hten
      _ < doubleLimit := by decide +kernel

include hsmall hlarge in
theorem doubleLimit_le_mul (hleft : topPower ≤ left) (hn : integerLimit ≤ n) :
    doubleLimit ≤ nearestDouble (n / Nat.pow 10 left) * nearestDouble (Nat.pow 10 left) := by
  by_cases heq : left = topPower
  · subst heq
    have htop := Nat.not_lt.mp (mt div_topPower_lt_iff.mp (Nat.not_lt.mpr hn))
    calc doubleLimit ≤ 17976931348623157248 * nearestDouble (Nat.pow 10 topPower) := by
          decide +kernel
      _ ≤ nearestDouble (n / Nat.pow 10 topPower) * nearestDouble (Nat.pow 10 topPower) :=
          Nat.mul_le_mul_right _ ((nearestDouble_cases hsmall).2 htop)
  · have hlt : topPower < left := Nat.lt_of_le_of_ne hleft (Ne.symm heq)
    have hpow : Nat.pow 10 (topPower + 1) ≤ Nat.pow 10 left :=
      Nat.pow_le_pow_right (by decide) hlt
    -- one digit more would have made the digits too large, so they are not much smaller
    have hdigits : 1844674407370955161 ≤ n / Nat.pow 10 left := by
      have hmore := hlarge (Nat.lt_of_le_of_lt (Nat.zero_le _) hlt)
      have hten : Nat.pow 10 left = Nat.pow 10 (left - 1) * 10 := by
        conv => lhs; rw [← Nat.succ_pred_eq_of_pos (Nat.lt_of_le_of_lt (Nat.zero_le _) hlt)]
        rfl
      rw [hten, ← Nat.div_div_eq_div_mul]
      have hsixtyfour : Nat.pow 2 64 = 18446744073709551616 := rfl
      omega
    have hlimit : 1000 * 1000 * doubleLimit ≤
        999 * 1844674407370955161 * (999 * Nat.pow 10 (topPower + 1)) := by decide +kernel
    generalize doubleLimit = limit at hlimit ⊢
    refine Nat.le_of_mul_le_mul_left ?_ (show 0 < 1000 * 1000 by decide)
    calc 1000 * 1000 * limit
        ≤ 999 * 1844674407370955161 * (999 * Nat.pow 10 (topPower + 1)) := hlimit
      _ ≤ 999 * (n / Nat.pow 10 left) * (999 * Nat.pow 10 left) :=
          Nat.mul_le_mul (Nat.mul_le_mul_left _ hdigits) (Nat.mul_le_mul_left _ hpow)
      _ ≤ 1000 * nearestDouble (n / Nat.pow 10 left) *
            (1000 * nearestDouble (Nat.pow 10 left)) :=
          Nat.mul_le_mul (mul_le_nearestDouble _) (mul_le_nearestDouble _)
      _ = 1000 * 1000 *
            (nearestDouble (n / Nat.pow 10 left) * nearestDouble (Nat.pow 10 left)) := by
          rw [Nat.mul_mul_mul_comm]

include hsmall hlarge in
theorem tooLarge_eq : tooLarge (n / Nat.pow 10 left) left = decide (integerLimit ≤ n) := by
  have htoNat : (left : Int).toNat = left := rfl
  by_cases hn : integerLimit ≤ n
  · have hproduct := doubleLimit_le_mul hsmall hlarge (topPower_le_left hsmall hn) hn
    have hzero : n / Nat.pow 10 left ≠ 0 := by
      intro hzero
      have hnone : nearestDouble 0 = 0 := by decide
      rw [hzero, hnone, Nat.zero_mul] at hproduct
      exact absurd hproduct (by decide +kernel)
    rw [decide_eq_true hn]
    simp only [tooLarge, htoNat, Bool.and_eq_true, Bool.or_eq_true, decide_eq_true_eq]
    exact ⟨⟨hzero, Int.natCast_nonneg left⟩, Or.inr hproduct⟩
  · have hlt := Nat.lt_of_not_le hn
    have hleft := left_le_topPower hlarge hlt
    have hpower : ¬ (308 : Int) < left :=
      Int.not_lt.mpr (Int.ofNat_le.mpr (Nat.le_trans hleft (by decide +kernel)))
    have hproduct := Nat.not_le.mpr (nearestDouble_mul_lt hsmall hleft hlt)
    rw [decide_eq_false hn]
    simp only [tooLarge, htoNat, Bool.and_eq_false_imp, Bool.or_eq_false_iff,
      decide_eq_false_iff_not]
    exact fun _ => ⟨hpower, hproduct⟩

end

theorem plainSize_toDigits (n : Nat) (rest : Text) :
    plainSize (Nat.toDigits 10 n) [] rest =
      if integerLimit ≤ n then stop .numberOutOfRange rest 0 else .ok rest := by
  have hdigits : ∀ c ∈ Nat.toDigits 10 n, isDigit c = true := fun _ => isDigit_of_mem_toDigits
  obtain ⟨left, hleft, htake, hsmall, hlarge⟩ :=
    takeDigits_eq hdigits (show 0 < Nat.pow 2 64 by decide)
  rw [Nat.ofDigitChars_ten_toDigits] at htake hsmall hlarge
  have hcount : (Nat.toDigits 10 n).length - ((Nat.toDigits 10 n).length - left) = left := by
    omega
  have hsignificand : significand (Nat.toDigits 10 n) [] = (n / Nat.pow 10 left, (left : Int)) := by
    simp only [significand, htake, takeDigits, hcount]
    rfl
  rw [plainSize, hsignificand]
  simp only [tooLarge_eq hsmall hlarge, decide_eq_true_eq]

/-! ## Reading an integer -/

/-- What follows is no part of the number before it. -/
def EndsNumber (rest : Text) : Prop :=
  ∀ c t, rest = c :: t → isDigit c = false ∧ c ≠ '.' ∧ c ≠ 'e' ∧ c ≠ 'E'

theorem exponentPart_of_ends {rest : Text} (h : EndsNumber rest) (whole fraction : Text) :
    exponentPart whole fraction rest = plainSize whole fraction rest := by
  cases rest with
  | nil => rfl
  | cons c t =>
      obtain ⟨-, -, hsmall, hcapital⟩ := h c t rfl
      simp [exponentPart, hsmall, hcapital]

theorem fractionPart_of_ends {rest : Text} (h : EndsNumber rest) (whole : Text) :
    fractionPart whole rest = plainSize whole [] rest := by
  unfold fractionPart
  split
  · next after => exact absurd rfl (h '.' after rfl).2.1
  · exact exponentPart_of_ends h whole []

theorem digitsOf_append_of_ends {digits rest : Text} (hdigits : ∀ c ∈ digits, isDigit c = true)
    (h : EndsNumber rest) : digitsOf (digits ++ rest) = (digits, rest) := by
  have hrest : rest.takeWhile isDigit = [] ∧ rest.dropWhile isDigit = rest := by
    cases rest with
    | nil => exact ⟨rfl, rfl⟩
    | cons c t => simp [(h c t rfl).1]
  rw [digitsOf, List.takeWhile_append_of_pos hdigits, List.dropWhile_append_of_pos hdigits,
    hrest.1, hrest.2, List.append_nil]

theorem afterNumber_toDigits (n : Nat) {rest : Text} (h : EndsNumber rest) :
    afterNumber (Nat.toDigits 10 n ++ rest) =
      if integerLimit ≤ n then stop .numberOutOfRange rest 0 else .ok rest := by
  have hdigits : ∀ c ∈ Nat.toDigits 10 n, isDigit c = true := fun _ => isDigit_of_mem_toDigits
  unfold afterNumber
  split
  · next heq =>
      rw [digitsOf_append_of_ends hdigits h] at heq
      exact absurd (congrArg Prod.fst heq) Nat.toDigits_ne_nil
  · next heq =>
      rw [digitsOf_append_of_ends hdigits h] at heq
      exact absurd (congrArg Prod.fst heq) Nat.toDigits_ne_nil
  · next d ds _ heq =>
      rw [digitsOf_append_of_ends hdigits h] at heq
      exact absurd (congrArg Prod.fst heq) (toDigits_ne_zero_cons n d ds)
  · next heq =>
      rw [digitsOf_append_of_ends hdigits h] at heq
      cases heq
      rw [fractionPart_of_ends h, plainSize_toDigits]

/-- An integer with its sign, if it has one. -/
theorem numberValue_eq {n : Nat} {literal : Text}
    (h : literal = Nat.toDigits 10 n ∨ literal = '-' :: Nat.toDigits 10 n) {rest : Text}
    (hrest : EndsNumber rest) :
    numberValue (literal ++ rest) =
      if integerLimit ≤ n then stop .numberOutOfRange rest 0
      else .ok (.number literal, rest) := by
  have htake : (literal ++ rest).take ((literal ++ rest).length - rest.length) = literal := by
    simp
  have hvalue : numberValue (literal ++ rest) =
      (afterNumber (Nat.toDigits 10 n ++ rest)).map fun after =>
        (.number ((literal ++ rest).take ((literal ++ rest).length - after.length)), after) := by
    rcases h with rfl | rfl
    · have hsign : ∀ digits, Nat.toDigits 10 n ++ rest ≠ '-' :: digits := by
        intro digits heq
        cases hdigits : Nat.toDigits 10 n with
        | nil => exact Nat.toDigits_ne_nil hdigits
        | cons c ds =>
            rw [hdigits] at heq
            cases heq
            have hdigit : isDigit '-' = true :=
              isDigit_of_mem_toDigits (n := n) (by rw [hdigits]; exact List.mem_cons_self)
            exact absurd hdigit (by decide)
      unfold numberValue
      split
      · next digits heq => exact absurd heq (hsign digits)
      · rfl
    · rfl
  rw [hvalue, afterNumber_toDigits n hrest]
  split
  · rfl
  · simp only [Except.map, htake]

theorem numberValue_of_isInteger {limit : Nat} (hlimit : limit ≤ integerLimit) {literal : Text}
    (h : IsInteger limit literal) {rest : Text} (hrest : EndsNumber rest) :
    numberValue (literal ++ rest) = .ok (.number literal, rest) := by
  obtain ⟨n, hn, hliteral⟩ := h
  rw [numberValue_eq hliteral hrest, if_neg (Nat.not_le.mpr (Nat.lt_of_lt_of_le hn hlimit))]

end Stencil.Json
