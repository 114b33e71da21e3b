/-
# Numbers are hashed as they are emitted

The JSON form of a style, which its id is the digest of, and the CSS of the style have the same text
for every finite number (`Style.number_hashed_as_emitted`).  The JSON form takes a short cut for
integers of magnitude below `10 ^ 15`: it writes the 64-bit integer that the number is cast to.
That the texts agree is `Number.json_finite`.  Here the guard of the short cut is read as one about
the rational that a number is, and the cast is shown to change nothing behind the guard.

So a style compiles to the same CSS as the style in which every finite number is replaced by the
text that is hashed for it (`Style.compile_spelled`).
-/

import Mathlib
import ScopedCss.Proofs.Number.Grammar
import ScopedCss.Proofs.Number.Integer
import ScopedCss.Style.Rules

namespace ScopedCss

-- Powers are those of `Nat.pow`, whichever other instances are in scope.
attribute [local instance (high)] instPowNat

namespace Number.Finite

/-- The rational that a finite number is. -/
def value (x : Finite) : ℚ :=
  signFactor x.negative * (x.units / one)

/-- An integer with the sign of a number. -/
def signed (x : Finite) (n : Nat) : Int :=
  if x.negative then -n else n

theorem signed_mul (x : Finite) (n k : Nat) : x.signed (n * k) = x.signed n * k := by
  unfold signed
  split
  · rw [Nat.cast_mul, neg_mul]
  · exact Nat.cast_mul n k

theorem natAbs_signed (x : Finite) (n : Nat) : (x.signed n).natAbs = n := by
  unfold signed
  split <;> omega

theorem one_ne_zero : one ≠ 0 :=
  Nat.ne_of_gt one_pos

theorem value_eq_intCast_iff {x : Finite} {m : Int} :
    x.value = m ↔ x.signed x.units = m * one := by
  have hsigned : signFactor x.negative * x.units = (x.signed x.units : ℚ) := by
    unfold signFactor signed
    split <;> simp
  have hproduct : (m : ℚ) * one = ((m * one : Int) : ℚ) := by
    rw [Int.cast_mul, Int.cast_natCast]
  rw [value, ← mul_div_assoc, hsigned, div_eq_iff (Nat.cast_ne_zero.2 one_ne_zero), hproduct,
    Int.cast_inj]

theorem smallInteger?_of_isWhole {x : Finite} {n : Nat} (h : x.IsWhole n) :
    x.smallInteger? = some (x.signed n) := by
  have hsmall : x.units % 2 ^ Format.binary64.scale = 0 ∧
      x.units < 10 ^ (15 : Nat) * 2 ^ Format.binary64.scale := by
    rw [two_pow_scale, h.units_eq]
    exact ⟨Nat.mul_mod_left n one, Nat.mul_lt_mul_of_pos_right h.small one_pos⟩
  have hquotient : x.units / one = n := by
    rw [h.units_eq, Nat.mul_div_cancel n one_pos]
  unfold smallInteger?
  dsimp only
  rw [if_pos hsmall, two_pow_scale, hquotient]
  rfl

/-- A number that is an integer consists of so many ones. -/
theorem units_eq_of_value_eq {x : Finite} {m : Int} (h : x.value = m) :
    x.units = m.natAbs * one ∧ x.signed m.natAbs = m := by
  rw [value_eq_intCast_iff] at h
  have hunits : x.units = m.natAbs * one := by
    have habs := congrArg Int.natAbs h
    rwa [natAbs_signed, Int.natAbs_mul, Int.natAbs_natCast] at habs
  rw [hunits, signed_mul] at h
  exact ⟨hunits, mul_right_cancel₀ (Nat.cast_ne_zero.2 one_ne_zero) h⟩

/-- A number is written as an integer exactly if it is one of magnitude below `10 ^ 15`, and then it
is written as that integer. -/
theorem smallInteger?_eq_some_iff {x : Finite} {m : Int} :
    x.smallInteger? = some m ↔ x.value = m ∧ m.natAbs < 10 ^ (15 : Nat) := by
  constructor
  · intro h
    obtain ⟨hwhole, -⟩ := smallInteger?_eq_some h
    have hsigned : x.signed m.natAbs = m :=
      Option.some.inj ((smallInteger?_of_isWhole hwhole).symm.trans h)
    refine ⟨value_eq_intCast_iff.2 ?_, hwhole.small⟩
    rw [hwhole.units_eq, signed_mul, hsigned]
  · rintro ⟨hvalue, hsmall⟩
    obtain ⟨hunits, hsigned⟩ := units_eq_of_value_eq hvalue
    rw [smallInteger?_of_isWhole ⟨hunits, hsmall⟩, hsigned]

/-- The 64-bit integer that a number is cast to: its fraction is dropped, and past either end of the
range stands that end. -/
def toInt64 (x : Finite) : Int64 :=
  Int64.ofIntClamp (x.signed (x.units / one))

/-- Of an integer below `10 ^ 15` the cast drops nothing, and it stays inside the range. -/
theorem toInt_toInt64 {x : Finite} {m : Int} (h : x.value = m)
    (hsmall : m.natAbs < 10 ^ (15 : Nat)) : x.toInt64.toInt = m := by
  obtain ⟨hunits, hsigned⟩ := units_eq_of_value_eq h
  have hmin : Int64.minValue.toInt = -9223372036854775808 := rfl
  have hmax : Int64.maxValue.toInt = 9223372036854775807 := rfl
  rw [toInt64, hunits, Nat.mul_div_cancel m.natAbs one_pos, hsigned]
  exact Int64.toInt_ofIntClamp (by omega) (by omega)

theorem abs_intCast_lt_iff {m : Int} : |(m : ℚ)| < 10 ^ 15 ↔ m.natAbs < 10 ^ (15 : Nat) := by
  rw [← Int.cast_abs, ← Nat.cast_natAbs]
  norm_cast

/-- The guard of the short cut holds of the integers of magnitude below `10 ^ 15`. -/
theorem isInt_and_small_iff {x : Finite} :
    x.value.isInt = true ∧ |x.value| < 10 ^ 15 ↔
      ∃ m : Int, x.value = m ∧ m.natAbs < 10 ^ (15 : Nat) := by
  constructor
  · rintro ⟨hint, hsmall⟩
    have hvalue : x.value = x.value.num := Rat.eq_num_of_isInt hint
    exact ⟨x.value.num, hvalue, abs_intCast_lt_iff.1 (hvalue ▸ hsmall)⟩
  · rintro ⟨m, hvalue, hsmall⟩
    rw [hvalue]
    exact ⟨by simp [Rat.isInt], abs_intCast_lt_iff.2 hsmall⟩

theorem smallInteger?_eq_ite (x : Finite) :
    x.smallInteger? =
      if x.value.isInt = true ∧ |x.value| < 10 ^ 15 then some x.toInt64.toInt else none := by
  split
  · next h =>
    obtain ⟨m, hvalue, hsmall⟩ := isInt_and_small_iff.1 h
    rw [toInt_toInt64 hvalue hsmall]
    exact smallInteger?_eq_some_iff.2 ⟨hvalue, hsmall⟩
  · next h =>
    rw [Option.eq_none_iff_forall_ne_some]
    intro m hm
    exact h (isInt_and_small_iff.2 ⟨m, smallInteger?_eq_some_iff.1 hm⟩)

end Number.Finite

/-- A scalar of which a finite number is replaced by the text that the JSON form has for it. -/
def Scalar.spelled : Scalar → Scalar
  | .number (.finite x) => .text (String.ofList (Number.finite x).json)
  | v => v

/-- A style with its finite numbers replaced by the texts that the JSON form has for them. -/
def Style.spelled : Style → Style
  | .empty => .empty
  | .property key value rest => .property key value.spelled (spelled rest)
  | .block key body rest => .block key (spelled body) (spelled rest)

theorem Scalar.css_spelled (v : Scalar) : v.spelled.css = v.css := by
  cases v with
  | text s => rfl
  | number n =>
      cases n with
      | finite x =>
          rw [spelled, css, String.toList_ofList, Number.json_finite]
          rfl
      | nan => rfl
      | infinite negative => rfl

namespace Style

theorem declarations_spelled (style : Style) : style.spelled.declarations = style.declarations := by
  induction style with
  | empty => rfl
  | property key value rest ih => rw [spelled, declarations, ih, value.css_spelled, declarations]
  | block key body rest _ ih => exact ih

theorem hasBlock_spelled (style : Style) : style.spelled.hasBlock = style.hasBlock := by
  induction style with
  | empty => rfl
  | property key value rest ih => exact ih
  | block key body rest _ _ => rfl

theorem nestedRules_spelled (scope : List Char) (style : Style) :
    style.spelled.nestedRules scope = style.nestedRules scope := by
  induction style generalizing scope with
  | empty => rfl
  | property key value rest ih => exact ih scope
  | block key body rest ihbody ih =>
      simp only [spelled, nestedRules, declarations_spelled, ihbody, ih]

/-- A style compiles to the texts that are hashed for its numbers. -/
theorem compile_spelled (style : Style) (name : String) :
    style.spelled.compile name = style.compile name := by
  simp only [compile, topRules, declarations_spelled, hasBlock_spelled, nestedRules_spelled]

/-- Wherever a finite number stands in a style, the same text is hashed for it and emitted.  The
short cut for integers is taken by exactly those of magnitude below `10 ^ 15`, the cast to 64 bits
leaves them what they are, and their text in CSS too is the numeral of that integer. -/
theorem number_hashed_as_emitted (x : Number.Finite) :
    (∀ first key rest, jsonFrom first (.property key (.number (.finite x)) rest) =
      (if first then [] else [',']) ++ Json.quote key.toList ++
        ':' :: ((Scalar.number (.finite x)).css ++ jsonFrom false rest)) ∧
    (∀ key rest, declarations (.property key (.number (.finite x)) rest) =
      Declaration.write key.toList (Scalar.number (.finite x)).json :: declarations rest) ∧
    x.smallInteger? =
      (if x.value.isInt = true ∧ |x.value| < 10 ^ 15 then some x.toInt64.toInt else none) ∧
    (x.value.isInt = true → |x.value| < 10 ^ 15 →
      (x.toInt64.toInt : ℚ) = x.value ∧
        (Scalar.number (.finite x)).css = Numeral.signedDecimal x.toInt64.toInt) := by
  have hsame : (Scalar.number (.finite x)).json = (Scalar.number (.finite x)).css :=
    Number.json_finite x
  refine ⟨fun first key rest => ?_, fun key rest => ?_, x.smallInteger?_eq_ite,
    fun hint hsmall => ?_⟩
  · rw [jsonFrom, hsame]
  · rw [declarations, hsame]
  · have hguard : x.smallInteger? = some x.toInt64.toInt := by
      rw [x.smallInteger?_eq_ite, if_pos ⟨hint, hsmall⟩]
    refine ⟨(Number.Finite.smallInteger?_eq_some_iff.1 hguard).1.symm, ?_⟩
    rw [← hsame, Scalar.json, Number.json, hguard]

/-- The integer `-1200` is such a number, written with its sign and its zeros, and so is negative
zero, written without its sign. -/
theorem number_hashed_as_emitted_negative :
    let x : Number.Finite := ⟨true, 1200 * Number.Finite.one, Number.holds_whole (by decide)⟩
    let zero : Number.Finite := ⟨true, 0 * Number.Finite.one, Number.holds_whole (by decide)⟩
    (Scalar.number (.finite x)).css = ['-', '1', '2', '0', '0'] ∧
      (Scalar.number (.finite zero)).css = ['0'] := by
  intro x zero
  have hvalue : x.value = (-1200 : Int) :=
    Number.Finite.value_eq_intCast_iff.2 (x.signed_mul 1200 Number.Finite.one)
  have hzero : zero.value = (0 : Int) :=
    Number.Finite.value_eq_intCast_iff.2 (zero.signed_mul 0 Number.Finite.one)
  have hguard := Number.Finite.isInt_and_small_iff.2 ⟨-1200, hvalue, by decide⟩
  have hguardzero := Number.Finite.isInt_and_small_iff.2 ⟨0, hzero, by decide⟩
  have htext := ((number_hashed_as_emitted x).2.2.2 hguard.1 hguard.2).2
  have htextzero := ((number_hashed_as_emitted zero).2.2.2 hguardzero.1 hguardzero.2).2
  rw [Number.Finite.toInt_toInt64 hvalue (by decide)] at htext
  rw [Number.Finite.toInt_toInt64 hzero (by decide)] at htextzero
  exact ⟨htext.trans (by decide +kernel), htextzero.trans (by decide +kernel)⟩

end Style

end ScopedCss
