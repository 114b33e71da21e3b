/-
# Numbers are written exactly

A number other than zero is written from its sign, its significant digits and the power of ten of
the first of them (`Number.Scientific`).  Between `1e-6` and `1e+21` it is written plainly, in one
of three ways that depend on where the point falls, and otherwise with an exponent; `Layout.Spells`
lists the four, with counts of zeros and places that are never cut off at zero or at the end of the
digits.  Each way is canonical and denotes the number with nothing lost
(`Scientific.hasParts_write`), so no two numbers have the same text (`Scientific.eq_of_text_eq`).
-/

import Mathlib
import ScopedCss.Proofs.Number.Grammar
import ScopedCss.Proofs.Number.Shortest

namespace ScopedCss

/-- How digits of which the first has the power of ten `magnitude` are written: with zeros up to the
point, with the point among the digits, with zeros behind the point, or with an exponent. -/
inductive Layout.Spells (digits : List Char) (magnitude : Int) : List Char → Prop where
  | padded (zeros : Nat) (hzeros : (zeros : Int) = magnitude + 1 - digits.length)
      (hgreatest : magnitude ≤ 20) : Spells digits magnitude (digits ++ List.replicate zeros '0')
  | pointed {front back : List Char} (hdigits : digits = front ++ back)
      (hfront : (front.length : Int) = magnitude + 1) (hne : front ≠ []) (hback : back ≠ [])
      (hgreatest : magnitude ≤ 20) : Spells digits magnitude (front ++ '.' :: back)
  | fraction (zeros : Nat) (hzeros : (zeros : Int) = -(magnitude + 1)) (hleast : -6 ≤ magnitude) :
      Spells digits magnitude ('0' :: '.' :: (List.replicate zeros '0' ++ digits))
  | power {lead : Char} {rest : List Char} (hdigits : digits = lead :: rest)
      (hrange : magnitude < -6 ∨ 20 < magnitude) :
      Spells digits magnitude (lead :: ((if rest = [] then [] else '.' :: rest) ++
        'e' :: (if magnitude < 0 then '-' else '+') :: Numeral.decimal magnitude.natAbs))

theorem Layout.spells_write {digits : List Char} (hne : digits ≠ []) (magnitude : Int) :
    Layout.Spells digits magnitude (Layout.style.write digits magnitude) := by
  have hpos : 0 < digits.length := List.length_pos_iff.2 hne
  unfold Layout.write
  by_cases hplain : Layout.style.least ≤ magnitude ∧ magnitude ≤ Layout.style.greatest
  · have hleast : -6 ≤ magnitude := hplain.1
    have hgreatest : magnitude ≤ 20 := hplain.2
    rw [if_pos hplain]
    unfold Layout.plain
    by_cases hpadded : (digits.length : Int) ≤ magnitude + 1
    · rw [if_pos hpadded, Layout.style, List.append_nil]
      exact .padded _ (by omega) hgreatest
    · rw [if_neg hpadded]
      by_cases hpointed : 0 < magnitude + 1
      · rw [if_pos hpointed]
        have hfront : ((digits.take (magnitude + 1).toNat).length : Int) = magnitude + 1 := by
          rw [List.length_take]
          omega
        have hback : 0 < (digits.drop (magnitude + 1).toNat).length := by
          rw [List.length_drop]
          omega
        exact .pointed (List.take_append_drop _ _).symm hfront
          (List.ne_nil_of_length_pos (by omega)) (List.ne_nil_of_length_pos hback) hgreatest
      · rw [if_neg hpointed]
        exact .fraction _ (by omega) hleast
  · have hrange : magnitude < -6 ∨ 20 < magnitude := by
      have hnot : ¬(-6 ≤ magnitude ∧ magnitude ≤ 20) := hplain
      omega
    obtain ⟨lead, rest, rfl⟩ := List.exists_cons_of_ne_nil hne
    rw [if_neg hplain]
    have hspells := Layout.Spells.power (rfl : lead :: rest = lead :: rest) hrange
    cases rest with
    | nil => exact hspells
    | cons second rest => exact hspells

namespace Decimal

/-- A coefficient that is no multiple of ten goes with the greatest exponent. -/
theorem exponent_le_of_value_eq {d d' : Decimal} (h : d.coefficient % 10 ≠ 0)
    (hvalue : d.value = d'.value) : d'.exponent ≤ d.exponent := by
  by_contra hlt
  obtain ⟨k, hk⟩ : ∃ k : Nat, d'.exponent = (k + 1 : Nat) + d.exponent :=
    ⟨(d'.exponent - d.exponent - 1).toNat, by omega⟩
  have hten : (10 : ℚ) ^ d.exponent ≠ 0 := zpow_ne_zero _ (by norm_num)
  rw [value, value, hk, zpow_add₀ (by norm_num), ← mul_assoc, zpow_natCast] at hvalue
  have hcast : (d.coefficient : ℚ) = d'.coefficient * 10 ^ (k + 1) := mul_right_cancel₀ hten hvalue
  have hmultiple : d.coefficient = d'.coefficient * 10 ^ k * 10 := by
    have hnat : d.coefficient = d'.coefficient * 10 ^ (k + 1) := by exact_mod_cast hcast
    rw [hnat, pow_succ, mul_assoc]
  omega

/-- Decimals of one value whose coefficients are no multiples of ten are the same. -/
theorem eq_of_value_eq {d d' : Decimal} (h : d.coefficient % 10 ≠ 0) (h' : d'.coefficient % 10 ≠ 0)
    (hvalue : d.value = d'.value) : d = d' := by
  have hexponent : d.exponent = d'.exponent :=
    le_antisymm (exponent_le_of_value_eq h' hvalue.symm) (exponent_le_of_value_eq h hvalue)
  have hten : (10 : ℚ) ^ d'.exponent ≠ 0 := zpow_ne_zero _ (by norm_num)
  rw [value, value, hexponent] at hvalue
  have hcoefficient : d.coefficient = d'.coefficient := by
    exact_mod_cast mul_right_cancel₀ hten hvalue
  cases d
  cases d'
  congr

end Decimal

namespace Number

/-- A number other than zero: its sign, its digits, of which neither the first nor the last is a
zero, and the power of ten of the first digit. -/
@[ext] structure Scientific where
  negative : Bool
  digits : List Char
  magnitude : Int
  ne_nil : digits ≠ []
  digit : ∀ c ∈ digits, c.isDigit = true
  first : digits.head? ≠ some '0'
  last : digits.getLast? ≠ some '0'

namespace Scientific

/-- The text of a number. -/
def text (s : Scientific) : List Char :=
  (if s.negative then ['-'] else []) ++ Layout.style.write s.digits s.magnitude

/-- The number without its sign. -/
def decimal (s : Scientific) : Decimal :=
  ⟨Numeral.ofDecimal s.digits, s.magnitude - s.digits.length + 1⟩

/-- The number: with its sign, its digits as an integer, and the power of ten of the last digit. -/
def value (s : Scientific) : ℚ :=
  signFactor s.negative * s.decimal.value

variable (s : Scientific)

theorem decimal_exponent : s.decimal.exponent = s.magnitude - s.digits.length + 1 := rfl

theorem decimal_coefficient : Numeral.decimal s.decimal.coefficient = s.digits :=
  Numeral.decimal_ofDecimal s.ne_nil s.digit s.first

theorem coefficient_ne_zero : s.decimal.coefficient ≠ 0 := by
  intro hzero
  have hdigits := s.decimal_coefficient
  rw [hzero, Numeral.decimal, Numeral.digits_of_lt (by decide)] at hdigits
  exact s.first (by rw [← hdigits]; rfl)

theorem coefficient_mod_ten : s.decimal.coefficient % 10 ≠ 0 := by
  intro hzero
  have hlast := Numeral.getLast?_digits (by decide : 1 < 10) s.decimal.coefficient
  rw [hzero] at hlast
  exact s.last (s.decimal_coefficient ▸ hlast)

/-- The magnitude of a number lies between the powers of ten of its first digit. -/
theorem decimal_value_mem :
    (10 : ℚ) ^ s.magnitude ≤ s.decimal.value ∧ s.decimal.value < 10 ^ (s.magnitude + 1) := by
  have hten : (0 : ℚ) < 10 ^ s.decimal.exponent := zpow_pos (by norm_num) _
  have hpos : 0 < s.digits.length := List.length_pos_iff.2 s.ne_nil
  have hlow := Numeral.pow_length_digits_le (by decide : 1 < 10) s.coefficient_ne_zero
  have hhigh := Numeral.lt_pow_length_digits (by decide : 1 < 10) s.decimal.coefficient
  have hdigits : Numeral.digits 10 s.decimal.coefficient = s.digits := s.decimal_coefficient
  rw [hdigits] at hlow hhigh
  have hfirst : s.magnitude = (s.digits.length - 1 : Nat) + s.decimal.exponent := by
    rw [s.decimal_exponent]
    omega
  have hnext : s.magnitude + 1 = (s.digits.length : Nat) + s.decimal.exponent := by
    rw [s.decimal_exponent]
    omega
  rw [hnext, hfirst, zpow_add₀ (by norm_num), zpow_add₀ (by norm_num), zpow_natCast, zpow_natCast,
    Decimal.value]
  constructor
  · exact mul_le_mul_of_nonneg_right (by exact_mod_cast hlow) hten.le
  · exact mul_lt_mul_of_pos_right (by exact_mod_cast hhigh) hten

theorem decimal_value_pos : 0 < s.decimal.value :=
  lt_of_lt_of_le (zpow_pos (by norm_num) _) s.decimal_value_mem.1

theorem abs_value : |s.value| = s.decimal.value := by
  have habs : |signFactor s.negative| = 1 := by
    cases s.negative <;> simp [signFactor]
  rw [value, abs_mul, habs, one_mul, abs_of_pos s.decimal_value_pos]

/-- The first digit has a power of ten from `-6` to `20` exactly if the magnitude of the number is
at least `1e-6` and less than `1e+21`. -/
theorem magnitude_mem_iff :
    (-6 ≤ s.magnitude ∧ s.magnitude ≤ 20) ↔
      10 ^ (-6 : ℤ) ≤ |s.value| ∧ |s.value| < 10 ^ (21 : ℤ) := by
  obtain ⟨hlow, hhigh⟩ := s.decimal_value_mem
  have hone : (1 : ℚ) < 10 := by norm_num
  rw [abs_value]
  constructor
  · rintro ⟨hleast, hgreatest⟩
    exact ⟨le_trans (zpow_le_zpow_right₀ hone.le hleast) hlow,
      lt_of_lt_of_le hhigh (zpow_le_zpow_right₀ hone.le (by omega))⟩
  · rintro ⟨hleast, hgreatest⟩
    have hbelow := (zpow_lt_zpow_iff_right₀ hone).1 (lt_of_le_of_lt hleast hhigh)
    have habove := (zpow_lt_zpow_iff_right₀ hone).1 (lt_of_le_of_lt hlow hgreatest)
    omega

theorem value_eq_of_decimal_value_eq {p : Parts} (hsign : p.negative = s.negative)
    (h : p.decimal.value = s.decimal.value) : p.value = s.value := by
  rw [Parts.value, value, hsign, h]

/-- A text behind the sign of a number is made of canonical parts that denote the number, with a
power of ten exactly if the first digit is too small or too great for the plain form. -/
def HasParts (unsigned : List Char) : Prop :=
  ∃ p : Parts, p.text = (if s.negative then ['-'] else []) ++ unsigned ∧ p.IsCanonical ∧
    p.value = s.value ∧
    p.power = if -6 ≤ s.magnitude ∧ s.magnitude ≤ 20 then none else some s.magnitude

variable {s}

theorem isDigit_of_mem_zeros {zeros : Nat} {c : Char} (h : c ∈ List.replicate zeros '0') :
    c.isDigit = true := by
  rw [List.eq_of_mem_replicate h]
  decide

theorem hasParts_padded {zeros : Nat} (hzeros : (zeros : Int) = s.magnitude + 1 - s.digits.length)
    (hgreatest : s.magnitude ≤ 20) : s.HasParts (s.digits ++ List.replicate zeros '0') := by
  have hpos : 0 < s.digits.length := List.length_pos_iff.2 s.ne_nil
  refine ⟨⟨s.negative, s.digits ++ List.replicate zeros '0', [], none⟩, ?_,
    Parts.isCanonical_of_digits ?_ ?_ ?_ ?_, s.value_eq_of_decimal_value_eq rfl ?_, ?_⟩
  · simp [Parts.text, Parts.fractionText, Parts.powerText]
  · exact List.append_ne_nil_of_left_ne_nil s.ne_nil _
  · rw [List.append_nil]
    exact List.forall_mem_append.2 ⟨s.digit, fun c => isDigit_of_mem_zeros⟩
  · intro hhead
    rw [List.head?_append_of_ne_nil _ s.ne_nil] at hhead
    exact absurd hhead s.first
  · simp
  · -- the zeros are the power of ten that is left
    have hscale : s.decimal.exponent = zeros := by
      rw [s.decimal_exponent]
      omega
    rw [Decimal.value, Decimal.value, hscale, Parts.decimal]
    simp [Numeral.ofDecimal_append_zeros, decimal]
  · rw [if_pos (by omega)]

theorem hasParts_pointed {front back : List Char} (hdigits : s.digits = front ++ back)
    (hfront : (front.length : Int) = s.magnitude + 1) (hne : front ≠ []) (hback : back ≠ [])
    (hgreatest : s.magnitude ≤ 20) : s.HasParts (front ++ '.' :: back) := by
  have hlength : s.digits.length = front.length + back.length := by
    rw [hdigits, List.length_append]
  have hlong : 0 < front.length := List.length_pos_iff.2 hne
  refine ⟨⟨s.negative, front, back, none⟩, ?_, Parts.isCanonical_of_digits hne ?_ ?_ ?_,
    s.value_eq_of_decimal_value_eq rfl (congrArg Decimal.value (congrArg₂ Decimal.mk ?_ ?_)), ?_⟩
  · simp [Parts.text, Parts.fractionText, Parts.powerText, hback]
  · exact hdigits ▸ s.digit
  · intro hhead
    have hfirst := s.first
    rw [hdigits, List.head?_append_of_ne_nil front hne] at hfirst
    exact absurd hhead hfirst
  · intro hlast
    exact s.last (by rw [hdigits, List.getLast?_append_of_ne_nil _ hback, hlast])
  · rw [hdigits]
  · dsimp only [Option.getD_none]
    omega
  · rw [if_pos (by omega)]

theorem hasParts_fraction {zeros : Nat} (hzeros : (zeros : Int) = -(s.magnitude + 1))
    (hleast : -6 ≤ s.magnitude) :
    s.HasParts ('0' :: '.' :: (List.replicate zeros '0' ++ s.digits)) := by
  have hne : List.replicate zeros '0' ++ s.digits ≠ [] :=
    List.append_ne_nil_of_right_ne_nil _ s.ne_nil
  refine ⟨⟨s.negative, ['0'], List.replicate zeros '0' ++ s.digits, none⟩, ?_,
    Parts.isCanonical_of_digits (List.cons_ne_nil _ _) ?_ (fun _ => rfl) ?_,
    s.value_eq_of_decimal_value_eq rfl (congrArg Decimal.value (congrArg₂ Decimal.mk ?_ ?_)), ?_⟩
  · simp [Parts.text, Parts.fractionText, Parts.powerText, s.ne_nil]
  · exact List.forall_mem_append.2 ⟨List.forall_mem_singleton.2 (by decide),
      List.forall_mem_append.2 ⟨fun c => isDigit_of_mem_zeros, s.digit⟩⟩
  · intro hlast
    exact s.last (by rw [← hlast, List.getLast?_append_of_ne_nil _ s.ne_nil])
  · exact Numeral.ofDecimal_zeros_append (zeros + 1) s.digits
  · dsimp only [Option.getD_none]
    rw [List.length_append, List.length_replicate]
    omega
  · rw [if_pos (by omega)]

theorem hasParts_power {lead : Char} {rest : List Char} (hdigits : s.digits = lead :: rest)
    (hrange : s.magnitude < -6 ∨ 20 < s.magnitude) :
    s.HasParts (lead :: ((if rest = [] then [] else '.' :: rest) ++
      'e' :: (if s.magnitude < 0 then '-' else '+') :: Numeral.decimal s.magnitude.natAbs)) := by
  have hlength : s.digits.length = rest.length + 1 := by
    rw [hdigits, List.length_cons]
  refine ⟨⟨s.negative, [lead], rest, some s.magnitude⟩, ?_,
    Parts.isCanonical_of_digits (List.cons_ne_nil _ _) ?_ ?_ ?_,
    s.value_eq_of_decimal_value_eq rfl (congrArg Decimal.value (congrArg₂ Decimal.mk ?_ ?_)), ?_⟩
  · simp [Parts.text, Parts.fractionText, Parts.powerText]
  · intro c hc
    exact s.digit c (by rw [hdigits]; exact hc)
  · intro hhead
    exact absurd (by rw [hdigits]; exact hhead) s.first
  · intro hlast
    exact s.last (by rw [hdigits, List.getLast?_cons, hlast]; rfl)
  · rw [hdigits]
    rfl
  · dsimp only [Option.getD_some]
    omega
  · rw [if_neg (by omega)]

variable (s)

/-- What is written behind the sign of a number has canonical parts that denote the number. -/
theorem hasParts_write : s.HasParts (Layout.style.write s.digits s.magnitude) := by
  have hspells := Layout.spells_write s.ne_nil s.magnitude
  generalize Layout.style.write s.digits s.magnitude = written at hspells
  cases hspells with
  | padded zeros hzeros hgreatest => exact hasParts_padded hzeros hgreatest
  | pointed hdigits hfront hne hback hgreatest =>
      exact hasParts_pointed hdigits hfront hne hback hgreatest
  | fraction zeros hzeros hleast => exact hasParts_fraction hzeros hleast
  | power hdigits hrange => exact hasParts_power hdigits hrange

/-- The text of a number denotes the number. -/
theorem denotation?_text : denotation? s.text = some s.value := by
  obtain ⟨p, htext, hcanonical, hvalue, -⟩ := s.hasParts_write
  rw [text, ← htext, Parts.denotation?_text hcanonical, hvalue]

theorem value_neg_iff : s.value < 0 ↔ s.negative = true := by
  have hpos := s.decimal_value_pos
  rw [value]
  cases s.negative with
  | true => simpa [signFactor] using hpos
  | false => simpa [signFactor] using hpos.le

/-- A number can be told from its text. -/
theorem eq_of_text_eq {s t : Scientific} (h : s.text = t.text) : s = t := by
  have hvalue : s.value = t.value := by
    have hboth := s.denotation?_text
    rw [h, t.denotation?_text] at hboth
    exact (Option.some.inj hboth).symm
  have hnegative : s.negative = t.negative := by
    rw [Bool.eq_iff_iff, ← s.value_neg_iff, ← t.value_neg_iff, hvalue]
  have hdecimal : s.decimal = t.decimal := by
    refine Decimal.eq_of_value_eq s.coefficient_mod_ten t.coefficient_mod_ten ?_
    rw [← s.abs_value, ← t.abs_value, hvalue]
  have hdigits : s.digits = t.digits := by
    rw [← s.decimal_coefficient, ← t.decimal_coefficient, hdecimal]
  have hmagnitude : s.magnitude = t.magnitude := by
    have hexponent := congrArg Decimal.exponent hdecimal
    rw [s.decimal_exponent, t.decimal_exponent, hdigits] at hexponent
    omega
  exact Scientific.ext hnegative hdigits hmagnitude

end Scientific

/-- A finite number other than zero, taken apart. -/
def Finite.scientific (x : Finite) (h : x.units ≠ 0) : Scientific where
  negative := x.negative
  digits := (x.shortest Layout.style.tie).digits
  magnitude := (x.shortest Layout.style.tie).magnitude
  ne_nil := Numeral.digits_ne_nil 10 _
  digit _ := Numeral.isDigit_of_mem_decimal
  first := Numeral.head?_decimal_ne_zero fun hzero =>
    Finite.coefficient_shortest h Layout.style.tie (by rw [hzero])
  last := Numeral.getLast?_decimal_ne_zero (Finite.coefficient_shortest h Layout.style.tie)

theorem Finite.text_scientific (x : Finite) (h : x.units ≠ 0) :
    (Number.finite x).text = (x.scientific h).text := by
  have hunits : (x.units != 0) = true := by simpa using h
  simp only [Number.text, Layout.finite, hunits, Bool.true_or, Bool.and_true]
  rfl

/-- A finite number other than zero is written from its sign, the digits of its shortest decimal and
the power of ten of the first of them.  Whatever these are, the text is laid out in one of four
ways, denotes the number exactly, is a number in JSON without superfluous zeros, and has an exponent
exactly if the magnitude is below `1e-6` or from `1e+21` on; and no other number has the same
text. -/
theorem text_canonical :
    (∀ (x : Finite) (h : x.units ≠ 0), (Number.finite x).text = (x.scientific h).text) ∧
      ∀ s : Scientific,
        Layout.Spells s.digits s.magnitude (Layout.style.write s.digits s.magnitude) ∧
        denotation? s.text = some (signFactor s.negative *
          (Numeral.ofDecimal s.digits * 10 ^ (s.magnitude - s.digits.length + 1))) ∧
        IsJson s.text ∧
        (∃ p : Parts, p.text = s.text ∧ p.IsCanonical ∧
          p.power = if -6 ≤ s.magnitude ∧ s.magnitude ≤ 20 then none else some s.magnitude) ∧
        ((-6 ≤ s.magnitude ∧ s.magnitude ≤ 20) ↔
          10 ^ (-6 : ℤ) ≤ |s.value| ∧ |s.value| < 10 ^ (21 : ℤ)) ∧
        ∀ t : Scientific, t.text = s.text → t = s := by
  refine ⟨fun x h => x.text_scientific h, fun s => ?_⟩
  obtain ⟨p, htext, hcanonical, hvalue, hpower⟩ := s.hasParts_write
  refine ⟨Layout.spells_write s.ne_nil s.magnitude, s.denotation?_text, ?_,
    ⟨p, htext, hcanonical, hpower⟩, s.magnitude_mem_iff, fun t => Scientific.eq_of_text_eq⟩
  rw [Scientific.text, ← htext]
  exact p.isJson_text hcanonical

/-- The number next to zero on the negative side. -/
theorem text_canonical_least :
    let x : Finite := ⟨true, 1, by decide +kernel⟩
    x.units ≠ 0 ∧ (Number.finite x).text = ['-', '5', 'e', '-', '3', '2', '4'] ∧
      denotation? ['-', '5', 'e', '-', '3', '2', '4'] = some (-5 * 10 ^ (-324 : ℤ)) := by
  intro x
  have hunits : x.units ≠ 0 := Nat.one_ne_zero
  have hshortest : x.shortest Layout.style.tie = ⟨5, -324⟩ := by decide +kernel
  have hnegative : (x.scientific hunits).negative = true := rfl
  have hdigits : (x.scientific hunits).digits = ['5'] :=
    (congrArg Decimal.digits hshortest).trans (by decide +kernel)
  have hmagnitude : (x.scientific hunits).magnitude = -324 :=
    (congrArg Decimal.magnitude hshortest).trans (by decide +kernel)
  have htext : (x.scientific hunits).text = ['-', '5', 'e', '-', '3', '2', '4'] := by
    rw [Scientific.text, hnegative, hdigits, hmagnitude]
    decide +kernel
  obtain ⟨hfinite, hall⟩ := text_canonical
  obtain ⟨-, hdenotes, -⟩ := hall (x.scientific hunits)
  rw [htext, hnegative, hdigits, hmagnitude] at hdenotes
  refine ⟨hunits, (hfinite x hunits).trans htext, hdenotes.trans (congrArg some ?_)⟩
  have hvalue : Numeral.ofDecimal ['5'] = 5 := by decide
  rw [hvalue]
  norm_num [signFactor]

end Number

end ScopedCss
