/-
# Number texts and what they denote

A text of digits, a point and a power of ten denotes a rational (`Number.denotation?`), without any
rounding.  `Number.IsJson` is the grammar of numbers in JSON.  `Number.Parts` are what a number is
made of, its whole digits, those behind the point and its power of ten; a canonical number has no
zero in it that could be left out.  Canonical parts make a number in JSON (`Parts.isJson_text`) that
denotes their value (`Parts.denotation?_text`).
-/

import Mathlib
import ScopedCss.Number.Literal
import ScopedCss.Proofs.Text.Numeral

namespace ScopedCss

/-- The rational that a decimal denotes. -/
def Decimal.value (d : Decimal) : ℚ :=
  d.coefficient * 10 ^ d.exponent

namespace Number

/-- The factor that a sign stands for. -/
def signFactor (negative : Bool) : ℚ :=
  if negative then -1 else 1

/-- The rational that the text of a number denotes. -/
def denotation? (text : List Char) : Option ℚ :=
  (readDecimal? (readSign text).2).map fun d => signFactor (readSign text).1 * d.value

section Reading

variable {whole fraction rest : List Char}

theorem readDecimal?_whole (hne : whole ≠ []) (hwhole : ∀ c ∈ whole, c.isDigit = true)
    (hrest : ∀ c ∈ rest.head?, c.isDigit = false) (hpoint : rest.head? ≠ some '.') :
    readDecimal? (whole ++ rest) =
      (readExponent? rest).map fun exponent => ⟨Numeral.ofDecimal whole, exponent⟩ := by
  obtain ⟨htake, hdrop⟩ := Numeral.span_digits hwhole hrest
  unfold readDecimal?
  rw [htake, hdrop]
  split
  · exact absurd rfl hpoint
  · simp [hne]

theorem readDecimal?_pointed (hne : whole ≠ []) (hwhole : ∀ c ∈ whole, c.isDigit = true)
    (hfraction : ∀ c ∈ fraction, c.isDigit = true) (hrest : ∀ c ∈ rest.head?, c.isDigit = false) :
    readDecimal? (whole ++ '.' :: (fraction ++ rest)) =
      (readExponent? rest).map fun exponent =>
        ⟨Numeral.ofDecimal (whole ++ fraction), exponent - fraction.length⟩ := by
  have hpoint : ∀ c ∈ ('.' :: (fraction ++ rest)).head?, c.isDigit = false := by
    intro c hc
    cases hc
    decide
  obtain ⟨htake, hdrop⟩ := Numeral.span_digits hwhole hpoint
  obtain ⟨htake', hdrop'⟩ := Numeral.span_digits hfraction hrest
  unfold readDecimal?
  simp only [htake, hdrop, htake', hdrop', hne, false_and, if_false]

end Reading

/-- Digits, at least one. -/
def IsDigits (cs : List Char) : Prop :=
  cs ≠ [] ∧ ∀ c ∈ cs, c.isDigit = true

/-- The numbers of JSON: whole digits without a superfluous zero in front, behind which there may be
a fraction and an exponent. -/
inductive IsJson : List Char → Prop where
  | intro {sign whole fraction exponent : List Char} (hsign : sign = [] ∨ sign = ['-'])
      (hwhole : IsDigits whole) (hleading : whole.head? = some '0' → whole = ['0'])
      (hfraction : fraction = [] ∨ ∃ digits, fraction = '.' :: digits ∧ IsDigits digits)
      (hexponent : exponent = [] ∨ ∃ mark signs digits, exponent = mark :: (signs ++ digits) ∧
        (mark = 'e' ∨ mark = 'E') ∧ (signs = [] ∨ signs = ['+'] ∨ signs = ['-']) ∧
        IsDigits digits) :
      IsJson (sign ++ (whole ++ (fraction ++ exponent)))

/-- What a number is made of.  Without digits behind the point there is no point. -/
structure Parts where
  negative : Bool
  whole : List Char
  fraction : List Char
  power : Option Int

namespace Parts

/-- The point and the digits behind it. -/
def fractionText (p : Parts) : List Char :=
  if p.fraction = [] then [] else '.' :: p.fraction

/-- The power of ten, with its sign also where it is positive. -/
def powerText (p : Parts) : List Char :=
  match p.power with
  | none => []
  | some m => 'e' :: (if m < 0 then '-' else '+') :: Numeral.decimal m.natAbs

/-- The parts in a row. -/
def text (p : Parts) : List Char :=
  (if p.negative then ['-'] else []) ++ (p.whole ++ (p.fractionText ++ p.powerText))

/-- The number without its sign. -/
def decimal (p : Parts) : Decimal :=
  ⟨Numeral.ofDecimal (p.whole ++ p.fraction), p.power.getD 0 - p.fraction.length⟩

/-- The number. -/
def value (p : Parts) : ℚ :=
  signFactor p.negative * p.decimal.value

/-- Parts without a zero in front of the whole digits, if they are more than one, and without a zero
at the end of those behind the point. -/
structure IsCanonical (p : Parts) : Prop where
  whole : Numeral.IsCanonical 10 p.whole
  digit : ∀ c ∈ p.fraction, c.isDigit = true
  last : p.fraction.getLast? ≠ some '0'

variable {p : Parts}

theorem isCanonical_of_digits (hne : p.whole ≠ [])
    (hdigit : ∀ c ∈ p.whole ++ p.fraction, c.isDigit = true)
    (hleading : p.whole.head? = some '0' → p.whole = ['0'])
    (hlast : p.fraction.getLast? ≠ some '0') : p.IsCanonical :=
  ⟨Numeral.isCanonical_ten_iff.2
    ⟨hne, fun c hc => hdigit c (List.mem_append_left _ hc), hleading⟩,
    fun c hc => hdigit c (List.mem_append_right _ hc), hlast⟩

theorem isDigit_of_mem_head?_powerText {c : Char} (h : c ∈ p.powerText.head?) :
    c.isDigit = false := by
  unfold powerText at h
  split at h
  · cases h
  · cases h
    decide

theorem readExponent?_powerText (p : Parts) :
    readExponent? p.powerText = some (p.power.getD 0) := by
  unfold powerText
  cases p.power with
  | none => rfl
  | some m =>
      have hne : Numeral.decimal m.natAbs ≠ [] := Numeral.digits_ne_nil 10 _
      have hdigits : (Numeral.decimal m.natAbs).all Char.isDigit = true :=
        List.all_eq_true.2 fun _ => Numeral.isDigit_of_mem_decimal
      by_cases hm : m < 0
      · have hvalue : -(m.natAbs : Int) = m := by omega
        simp only [if_pos hm, readExponent?, readSign, ne_eq, hne, not_false_eq_true, hdigits,
          true_or, and_self, if_true, Numeral.ofDecimal_decimal, hvalue, Option.getD_some]
      · have hvalue : (m.natAbs : Int) = m := by omega
        simp only [if_neg hm, readExponent?, readSign, ne_eq, hne, not_false_eq_true, hdigits,
          true_or, and_self, if_true, Numeral.ofDecimal_decimal, hvalue, Option.getD_some,
          Bool.false_eq_true, if_false]

theorem isDigit_of_mem_whole (h : p.IsCanonical) {c : Char} (hc : c ∈ p.whole) :
    c.isDigit = true :=
  (Numeral.isCanonical_ten_iff.1 h.whole).2.1 c hc

theorem readDecimal?_text (h : p.IsCanonical) :
    readDecimal? (p.whole ++ (p.fractionText ++ p.powerText)) = some p.decimal := by
  have hwhole : ∀ c ∈ p.whole, c.isDigit = true := fun c => isDigit_of_mem_whole h
  have hpower : ∀ c ∈ p.powerText.head?, c.isDigit = false :=
    fun c => isDigit_of_mem_head?_powerText
  unfold fractionText
  by_cases hfraction : p.fraction = []
  · have hpoint : p.powerText.head? ≠ some '.' := by
      unfold powerText
      split <;> simp
    rw [if_pos hfraction, List.nil_append, readDecimal?_whole h.whole.ne_nil hwhole hpower hpoint,
      readExponent?_powerText, decimal, hfraction]
    simp
  · rw [if_neg hfraction, List.cons_append,
      readDecimal?_pointed h.whole.ne_nil hwhole h.digit hpower, readExponent?_powerText]
    rfl

theorem readSign_text (h : p.IsCanonical) :
    readSign p.text = (p.negative, p.whole ++ (p.fractionText ++ p.powerText)) := by
  unfold text
  cases p.negative with
  | true => rfl
  | false =>
      obtain ⟨d, ds, hcons⟩ := List.exists_cons_of_ne_nil h.whole.ne_nil
      have hdigit : d.isDigit = true := isDigit_of_mem_whole h (hcons ▸ List.mem_cons_self)
      rw [if_neg Bool.false_ne_true, List.nil_append, hcons, List.cons_append]
      unfold readSign
      split
      · next heq =>
        rw [(List.cons.inj heq).1] at hdigit
        exact absurd hdigit (by decide)
      · next heq =>
        rw [(List.cons.inj heq).1] at hdigit
        exact absurd hdigit (by decide)
      · rfl

/-- Canonical parts denote their value. -/
theorem denotation?_text (h : p.IsCanonical) : denotation? p.text = some p.value := by
  rw [denotation?, readSign_text h, readDecimal?_text h]
  rfl

/-- Canonical parts make a number in JSON. -/
theorem isJson_text (h : p.IsCanonical) : IsJson p.text := by
  refine .intro ?_ ⟨h.whole.ne_nil, fun c => isDigit_of_mem_whole h⟩ h.whole.leading ?_ ?_
  · cases p.negative
    · exact .inl rfl
    · exact .inr rfl
  · unfold fractionText
    split
    · exact .inl rfl
    · next hne => exact .inr ⟨_, rfl, hne, h.digit⟩
  · unfold powerText
    split
    · exact .inl rfl
    · next m hpower =>
      refine .inr ⟨'e', [if m < 0 then '-' else '+'], Numeral.decimal m.natAbs, rfl, .inl rfl, ?_,
        Numeral.digits_ne_nil 10 _, fun c => Numeral.isDigit_of_mem_decimal⟩
      by_cases hm : m < 0
      · exact .inr (.inr (by rw [if_pos hm]))
      · exact .inr (.inl (by rw [if_neg hm]))

end Parts

end Number

end ScopedCss
