/-
# Digits of shortest decimals

The shortest decimal of a number other than zero has a coefficient that is not a multiple of ten
(`coefficient_shortest`), so neither its first digit nor its last one is a zero.  No candidate on
any grid is zero, for zero reads back as no other number; and should the search use up its grids,
the finest one is finer than the number is large.
-/

import ScopedCss.Proofs.Number.Integer

namespace ScopedCss

-- Powers are those of `Nat.pow`, whichever other instances are in scope.  A literal exponent needs
-- its type, or a default would choose the instance.
attribute [local instance (high)] instPowNat

/-- A stripped coefficient is no multiple of ten. -/
theorem Decimal.coefficient_strip {d : Decimal} (h : d.coefficient ≠ 0) :
    d.strip.coefficient % 10 ≠ 0 := by
  fun_induction strip d with
  | case1 d hboth ih =>
      have hten : d.coefficient % 10 = 0 := hboth.2
      exact ih (by dsimp only; omega)
  | case2 d hnot =>
      intro hten
      exact hnot ⟨h, hten⟩

/-- The leading power of ten of a ratio does not exceed the ratio. -/
theorem powerOfTen_leadingPower_le {num den : Nat} (hnum : 0 < num) :
    den * (Decimal.powerOfTen (leadingPower num den)).1 ≤
      num * (Decimal.powerOfTen (leadingPower num den)).2 := by
  unfold leadingPower
  split
  · next hle =>
    simp only [Decimal.powerOfTen, Int.toNat_natCast, Int.toNat_neg_natCast, Nat.pow_zero,
      Nat.mul_one]
    by_cases hden : den = 0
    · simp [hden]
    · have hquotient : num / den ≠ 0 :=
        Nat.ne_of_gt (Nat.div_pos hle (Nat.pos_of_ne_zero hden))
      have hpower : 10 ^ (Numeral.digitCount (num / den) - 1) ≤ num / den :=
        Numeral.pow_length_digits_le (by decide) hquotient
      exact Nat.le_trans (Nat.mul_le_mul_left den hpower) (Nat.mul_div_le num den)
  · next hless =>
    simp only [Decimal.powerOfTen, Int.toNat_neg_natCast, Int.neg_neg, Int.toNat_natCast,
      Nat.pow_zero, Nat.mul_one]
    -- the quotient rounded up is at least two here, and one less is written in the digits counted
    generalize hceil : (den + num - 1) / num = ceil
    have hcover : den ≤ num * ceil := by
      have hnext := Nat.lt_mul_div_succ (den + num - 1) hnum
      rw [hceil, Nat.mul_succ] at hnext
      omega
    have hpower : ceil - 1 < 10 ^ Numeral.digitCount (ceil - 1) :=
      Numeral.lt_pow_length_digits (by decide) (ceil - 1)
    exact Nat.le_trans hcover (Nat.mul_le_mul_left num (by omega))

/-- Nor does a smaller power of ten. -/
theorem powerOfTen_le_of_le {num den : Nat} {exponent greater : Int} (h : exponent ≤ greater)
    (hgreater : den * (Decimal.powerOfTen greater).1 ≤ num * (Decimal.powerOfTen greater).2) :
    den * (Decimal.powerOfTen exponent).1 ≤ num * (Decimal.powerOfTen exponent).2 := by
  have hfirst : (Decimal.powerOfTen exponent).1 ≤ (Decimal.powerOfTen greater).1 :=
    Nat.pow_le_pow_right (by decide) (by omega)
  have hsecond : (Decimal.powerOfTen greater).2 ≤ (Decimal.powerOfTen exponent).2 :=
    Nat.pow_le_pow_right (by decide) (by omega)
  calc den * (Decimal.powerOfTen exponent).1 ≤ den * (Decimal.powerOfTen greater).1 :=
        Nat.mul_le_mul_left den hfirst
    _ ≤ num * (Decimal.powerOfTen greater).2 := hgreater
    _ ≤ num * (Decimal.powerOfTen exponent).2 := Nat.mul_le_mul_left num hsecond

namespace Number.Finite

variable {x : Finite}

theorem spacing_le (h : x.units ≠ 0) : Format.binary64.spacing x.units ≤ x.units :=
  Nat.le_of_dvd (Nat.pos_of_ne_zero h) (Nat.dvd_of_mod_eq_zero x.holds.2)

/-- Zero reads back as no number but zero. -/
theorem ne_zero_of_readsBack (h : x.units ≠ 0) {coefficient num den : Nat} (hden : 0 < den)
    (hreads : x.readsBack coefficient num den = true) : coefficient ≠ 0 := by
  rintro rfl
  have hbelow := quartersBelow_le x
  have hspacing := spacing_le h
  have hlow : 0 < (4 * x.units - x.quartersBelow) * den := Nat.mul_pos (by omega) hden
  unfold readsBack at hreads
  simp only [Nat.mul_zero, Nat.zero_mul] at hreads
  split at hreads <;> simp only [Bool.and_eq_true, decide_eq_true_eq] at hreads <;> omega

theorem ne_zero_of_candidate? (h : x.units ≠ 0) {tie : Tie} {exponent : Int} {coefficient : Nat}
    (hcandidate : x.candidate? tie exponent = some coefficient) : coefficient ≠ 0 := by
  have hden : 0 < (Decimal.powerOfTen exponent).2 := Nat.pow_pos (by decide)
  unfold candidate? at hcandidate
  dsimp only at hcandidate
  split at hcandidate
  · rename_i hreads
    rw [Bool.and_eq_true] at hreads
    cases hcandidate
    exact ne_zero_of_readsBack h hden hreads.1
  · split at hcandidate
    · rename_i hreads
      cases hcandidate
      exact ne_zero_of_readsBack h hden hreads
    · cases hcandidate

/-- A search that starts at most at the leading power of ten does not find zero. -/
theorem coefficient_search (h : x.units ≠ 0) (tie : Tie) {exponent : Int} (finer : Nat)
    (hexponent : exponent ≤ leadingPower x.units one) :
    (x.search tie exponent finer).coefficient ≠ 0 := by
  induction finer generalizing exponent with
  | zero =>
      have hle := powerOfTen_le_of_le hexponent
        (powerOfTen_leadingPower_le (Nat.pos_of_ne_zero h))
      have hpos : 0 < one * (Decimal.powerOfTen exponent).1 :=
        Nat.mul_pos one_pos (Nat.pow_pos (by decide))
      exact Nat.ne_of_gt (Nat.div_pos hle hpos)
  | succ finer ih =>
      rw [search]
      cases hcandidate : x.candidate? tie exponent with
      | some coefficient => exact ne_zero_of_candidate? h hcandidate
      | none => exact ih (by omega)

/-- The coefficient of the shortest decimal is no multiple of ten. -/
theorem coefficient_shortest (h : x.units ≠ 0) (tie : Tie) :
    (x.shortest tie).coefficient % 10 ≠ 0 := by
  rw [shortest, if_neg h]
  exact Decimal.coefficient_strip (coefficient_search h tie 17 (Int.le_refl _))

end Number.Finite

end ScopedCss
