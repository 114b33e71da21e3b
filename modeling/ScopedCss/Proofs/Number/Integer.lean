/-
# Integers among numbers

An integer of magnitude below `10 ^ 15` is written as its decimal numeral, by its shortest decimal
just as well as directly: neighbouring numbers of that size lie less than one apart, so an integer
that reads back is the number itself, and the search for the shortest decimal reaches the grid of
the integers before it runs out.  Hence the JSON form of a finite number and its text in CSS are
the same (`Number.json_finite`), although only one of them looks whether the number is an integer.
-/

import ScopedCss.Number.Layout
import ScopedCss.Proofs.Text.Numeral

namespace ScopedCss

-- Powers are those of `Nat.pow`, whichever other instances are in scope.  A literal exponent needs
-- its type, or a default would choose the instance.
attribute [local instance (high)] instPowNat

namespace Decimal

/-- Stripping a whole decimal keeps its value and that it is whole. -/
theorem strip_of_whole {coefficient : Nat} (h : coefficient ≠ 0) (zeros : Nat) :
    ∃ stripped more, strip ⟨coefficient, zeros⟩ = ⟨stripped, (more : Nat)⟩ ∧ stripped ≠ 0 ∧
      stripped * 10 ^ more = coefficient * 10 ^ zeros := by
  induction coefficient using Nat.strongRecOn generalizing zeros with
  | ind coefficient ih =>
      rw [strip]
      by_cases hzero : coefficient % 10 = 0
      · rw [if_pos ⟨h, hzero⟩]
        obtain ⟨stripped, more, heq, hne, hvalue⟩ :=
          ih (coefficient / 10) (by omega) (by omega) (zeros + 1)
        refine ⟨stripped, more, ?_, hne, ?_⟩
        · rw [← heq]
          norm_cast
        · have hten : coefficient / 10 * 10 = coefficient := by omega
          rw [hvalue, Nat.pow_succ, Nat.mul_comm (10 ^ zeros) 10, ← Nat.mul_assoc, hten]
      · rw [if_neg fun hboth => hzero hboth.2]
        exact ⟨coefficient, zeros, rfl, h, rfl⟩

end Decimal

namespace Number.Finite

/-- The number one, in finest units. -/
def one : Nat := 2 ^ Format.binary64.scale

theorem two_pow_scale : 2 ^ Format.binary64.scale = one := rfl

theorem one_pos : 0 < one :=
  Nat.two_pow_pos Format.binary64.scale

/-- A number is the given integer of magnitude below `10 ^ 15`, up to its sign. -/
structure IsWhole (x : Finite) (n : Nat) : Prop where
  units_eq : x.units = n * one
  small : n < 10 ^ (15 : Nat)

/-- Neighbours of a small integer are less than half of one apart. -/
theorem two_mul_spacing_lt_one {n : Nat} (h : n < 10 ^ (15 : Nat)) :
    2 * Format.binary64.spacing (n * one) < one := by
  have hscale : Format.binary64.scale = 1074 := rfl
  have hprecision : Format.binary64.precision = 53 := rfl
  have hlog : Nat.log2 (n * one) < 50 + Format.binary64.scale := by
    by_cases hzero : n * one = 0
    · rw [hzero, Nat.log2_zero]
      omega
    · rw [Nat.log2_lt hzero, Nat.pow_add, two_pow_scale]
      exact Nat.mul_lt_mul_of_pos_right (Nat.lt_trans h (by decide)) one_pos
  have hle : Format.binary64.spacing (n * one) ≤ 2 ^ (Format.binary64.scale - 3) :=
    Nat.pow_le_pow_right (by decide) (by omega)
  have hless : Format.binary64.scale - 3 + 1 < Format.binary64.scale := by omega
  calc 2 * Format.binary64.spacing (n * one) ≤ 2 * 2 ^ (Format.binary64.scale - 3) :=
        Nat.mul_le_mul_left 2 hle
    _ = 2 ^ (Format.binary64.scale - 3 + 1) := by rw [Nat.pow_succ']
    _ < 2 ^ Format.binary64.scale := by
      rwa [Nat.pow_lt_pow_iff_right Nat.one_lt_two]
    _ = one := two_pow_scale

theorem spacing_pos (units : Nat) : 0 < Format.binary64.spacing units :=
  Nat.two_pow_pos _

theorem quartersBelow_pos (x : Finite) : 0 < x.quartersBelow := by
  have hstep := spacing_pos x.units
  unfold quartersBelow
  dsimp only
  split <;> omega

theorem quartersBelow_le (x : Finite) :
    x.quartersBelow ≤ 2 * Format.binary64.spacing x.units := by
  unfold quartersBelow
  dsimp only
  split <;> omega

/-- What reads back as a number lies within half the spacing. -/
theorem near_of_readsBack {x : Finite} {coefficient num : Nat}
    (h : x.readsBack coefficient num 1 = true) :
    4 * x.units ≤ 4 * coefficient * num * one + 2 * Format.binary64.spacing x.units ∧
      4 * coefficient * num * one ≤ 4 * x.units + 2 * Format.binary64.spacing x.units := by
  have hbelow := quartersBelow_le x
  unfold readsBack at h
  simp only [two_pow_scale, Nat.mul_one] at h
  split at h <;> simp only [Bool.and_eq_true, decide_eq_true_eq] at h <;> omega

variable {x : Finite} {n : Nat}

/-- An integer that reads back as a small integer is that integer. -/
theorem eq_of_readsBack (hx : x.IsWhole n) {coefficient num : Nat}
    (h : x.readsBack coefficient num 1 = true) : coefficient * num = n := by
  obtain ⟨hlow, hhigh⟩ := near_of_readsBack h
  have hspacing := two_mul_spacing_lt_one hx.small
  rw [← hx.units_eq] at hspacing
  have hvalue : 4 * coefficient * num * one = 4 * (coefficient * num * one) := by
    simp only [Nat.mul_assoc]
  rw [hvalue] at hlow hhigh
  -- a whole one of distance on either side would be more than the spacing allows
  have hle : n ≤ coefficient * num := by
    apply Nat.le_of_not_lt
    intro hlt
    have hmul : (coefficient * num + 1) * one ≤ n * one := Nat.mul_le_mul_right one hlt
    rw [Nat.add_mul, ← hx.units_eq] at hmul
    omega
  have hge : coefficient * num ≤ n := by
    apply Nat.le_of_not_lt
    intro hlt
    have hmul : (n + 1) * one ≤ coefficient * num * one := Nat.mul_le_mul_right one hlt
    rw [Nat.add_mul, ← hx.units_eq] at hmul
    omega
  exact Nat.le_antisymm hge hle

theorem readsBack_self (hx : x.IsWhole n) (hn : n ≠ 0) : x.readsBack n 1 1 = true := by
  have hpos : 0 < n * one := Nat.mul_pos (Nat.pos_of_ne_zero hn) one_pos
  have hbelow := quartersBelow_pos x
  have hstep := spacing_pos x.units
  have hunits := hx.units_eq
  have hvalue : 4 * n * one = 4 * (n * one) := Nat.mul_assoc 4 n one
  unfold readsBack
  simp only [two_pow_scale, Nat.mul_one]
  split <;> simp only [Bool.and_eq_true, decide_eq_true_eq] <;> omega

/-- On a grid of integers, a candidate for a small integer is that integer. -/
theorem eq_of_candidate? (hx : x.IsWhole n) {tie : Tie} {zeros coefficient : Nat}
    (h : x.candidate? tie zeros = some coefficient) : coefficient * 10 ^ zeros = n := by
  have hpower : Decimal.powerOfTen zeros = (10 ^ zeros, 1) := by
    simp [Decimal.powerOfTen]
  unfold candidate? at h
  simp only [hpower] at h
  split at h
  · rename_i hreads
    rw [Bool.and_eq_true] at hreads
    cases h
    exact eq_of_readsBack hx hreads.1
  · split at h
    · rename_i hreads
      cases h
      exact eq_of_readsBack hx hreads
    · cases h

/-- The grid of all integers has a small integer as its candidate. -/
theorem candidate?_zero (hx : x.IsWhole n) (hn : n ≠ 0) (tie : Tie) :
    x.candidate? tie 0 = some n := by
  have hpower : Decimal.powerOfTen 0 = (1, 1) := by
    simp [Decimal.powerOfTen]
  have hwhole : x.units / one = n := by
    rw [hx.units_eq, Nat.mul_div_cancel n one_pos]
  have hrest : x.units % one = 0 := by
    rw [hx.units_eq, Nat.mul_mod_left]
  unfold candidate?
  simp only [hpower, Nat.mul_one, two_pow_scale, hwhole, hrest, readsBack_self hx hn, Nat.mul_zero,
    one_pos, decide_true, Bool.true_or, Bool.or_true, Bool.and_true, if_true]

/-- The search for a small integer stops at the latest on the grid of all integers. -/
theorem search_of_isWhole (hx : x.IsWhole n) (hn : n ≠ 0) (tie : Tie) {zeros finer : Nat}
    (hfiner : zeros < finer) :
    ∃ coefficient fewer, x.search tie zeros finer = ⟨coefficient, (fewer : Nat)⟩ ∧
      coefficient * 10 ^ fewer = n := by
  induction zeros generalizing finer with
  | zero =>
      obtain ⟨finer, rfl⟩ := Nat.exists_eq_add_one_of_ne_zero (Nat.ne_of_gt hfiner)
      refine ⟨n, 0, ?_, by simp⟩
      simp [search, candidate?_zero hx hn tie]
  | succ zeros ih =>
      obtain ⟨finer, rfl⟩ := Nat.exists_eq_add_one_of_ne_zero (Nat.ne_of_gt (by omega : 0 < finer))
      rw [search]
      cases hcandidate : x.candidate? tie (zeros + 1 : Nat) with
      | some coefficient =>
          exact ⟨coefficient, zeros + 1, rfl, eq_of_candidate? hx hcandidate⟩
      | none =>
          have hcoarser : ((zeros + 1 : Nat) : Int) - 1 = zeros := by omega
          simp only [hcoarser]
          exact ih (by omega)

/-- The shortest decimal of a small integer is whole and has its value. -/
theorem shortest_of_isWhole (hx : x.IsWhole n) (hn : n ≠ 0) (tie : Tie) :
    ∃ coefficient zeros, x.shortest tie = ⟨coefficient, (zeros : Nat)⟩ ∧ coefficient ≠ 0 ∧
      coefficient * 10 ^ zeros = n := by
  have hunits : x.units ≠ 0 := by
    rw [hx.units_eq]
    exact Nat.mul_ne_zero hn (Nat.ne_of_gt one_pos)
  have hle : one ≤ x.units := by
    rw [hx.units_eq]
    exact Nat.le_mul_of_pos_left one (Nat.pos_of_ne_zero hn)
  have hleading : leadingPower x.units one = (Numeral.digitCount n - 1 : Nat) := by
    rw [leadingPower, if_pos hle, hx.units_eq, Nat.mul_div_cancel n one_pos]
  have hcount := Numeral.digitCount_le (by decide) hx.small
  have hfiner : Numeral.digitCount n - 1 < 17 := by omega
  obtain ⟨found, places, hsearch, hvalue⟩ := search_of_isWhole hx hn tie hfiner
  have hfound : found ≠ 0 := by
    rintro rfl
    exact hn (by rw [← hvalue, Nat.zero_mul])
  obtain ⟨coefficient, zeros, hstrip, hne, hsame⟩ := Decimal.strip_of_whole hfound places
  refine ⟨coefficient, zeros, ?_, hne, hsame.trans hvalue⟩
  rw [shortest, if_neg hunits, two_pow_scale, hleading, hsearch, hstrip]

end Number.Finite

/-- A whole decimal of at most fifteen places is laid out as the numeral of its value. -/
theorem Layout.style_write_whole {coefficient zeros : Nat} (hne : coefficient ≠ 0)
    (hsmall : coefficient * 10 ^ zeros < 10 ^ (15 : Nat)) :
    Layout.style.write (Decimal.mk coefficient (zeros : Nat)).digits
        (Decimal.mk coefficient (zeros : Nat)).magnitude =
      Numeral.decimal (coefficient * 10 ^ zeros) := by
  have hpos := Numeral.digitCount_pos coefficient
  have hcount := Numeral.digitCount_le (by decide) hsmall
  rw [Numeral.digitCount, Numeral.decimal_mul_pow hne, List.length_append,
    List.length_replicate] at hcount
  rw [Numeral.digitCount] at hpos
  have hplain : Layout.style.least ≤ (Decimal.mk coefficient (zeros : Nat)).magnitude ∧
      (Decimal.mk coefficient (zeros : Nat)).magnitude ≤ Layout.style.greatest := by
    simp only [Layout.style, Decimal.magnitude, Decimal.digits]
    omega
  have hpoint : (Decimal.mk coefficient (zeros : Nat)).magnitude + 1 =
      ((Numeral.decimal coefficient).length + zeros : Nat) := by
    simp only [Decimal.magnitude, Decimal.digits]
    omega
  have hfits : ((Numeral.decimal coefficient).length : Int) ≤
      ((Numeral.decimal coefficient).length + zeros : Nat) := by
    omega
  rw [Layout.write, if_pos hplain, hpoint, Layout.plain, Decimal.digits, if_pos hfits,
    Int.toNat_natCast, Nat.add_sub_cancel_left, Numeral.decimal_mul_pow hne, Layout.style,
    List.append_nil]

namespace Number

theorem text_of_isWhole {x : Finite} {n : Nat} (hx : x.IsWhole n) :
    (Number.finite x).text =
      (if x.negative = true ∧ n ≠ 0 then ['-'] else []) ++ Numeral.decimal n := by
  by_cases hn : n = 0
  · have hunits : x.units = 0 := by
      rw [hx.units_eq, hn, Nat.zero_mul]
    have hzero : Numeral.decimal 0 = ['0'] := by decide +kernel
    simp only [text, Layout.finite, Finite.shortest, hunits, hn, if_true, hzero, Decimal.digits,
      Decimal.magnitude]
    simp [Layout.style, Layout.write, Layout.plain]
  · obtain ⟨coefficient, zeros, hshortest, hne, hvalue⟩ :=
      Finite.shortest_of_isWhole hx hn Layout.style.tie
    have hunits : x.units ≠ 0 := by
      rw [hx.units_eq]
      exact Nat.mul_ne_zero hn (Nat.ne_of_gt Finite.one_pos)
    have hsmall : coefficient * 10 ^ zeros < 10 ^ (15 : Nat) := hvalue ▸ hx.small
    simp only [text, Layout.finite, hshortest, Layout.style_write_whole hne hsmall, hvalue]
    simp [hunits, hn]

/-- A number that is written as an integer is that integer, with its sign unless it is zero. -/
theorem Finite.smallInteger?_eq_some {x : Finite} {n : Int} (h : x.smallInteger? = some n) :
    x.IsWhole n.natAbs ∧ (n < 0 ↔ x.negative = true ∧ n.natAbs ≠ 0) := by
  unfold smallInteger? at h
  dsimp only at h
  by_cases hsmall : x.units % 2 ^ Format.binary64.scale = 0 ∧
      x.units < 10 ^ (15 : Nat) * 2 ^ Format.binary64.scale
  · rw [if_pos hsmall, Option.some.injEq] at h
    rw [two_pow_scale] at h hsmall
    have hunits : x.units = x.units / one * one :=
      (Nat.div_mul_cancel (Nat.dvd_of_mod_eq_zero hsmall.1)).symm
    have hbound : x.units / one < 10 ^ (15 : Nat) := (Nat.div_lt_iff_lt_mul one_pos).2 hsmall.2
    generalize x.units / one = quotient at h hunits hbound
    have habs : n.natAbs = quotient := by
      rw [← h]
      split <;> omega
    refine ⟨⟨habs ▸ hunits, habs ▸ hbound⟩, ?_⟩
    rw [habs, ← h]
    have hsign : -(quotient : Int) < 0 ↔ quotient ≠ 0 := by omega
    cases x.negative with
    | false => simp
    | true => simpa using hsign
  · rw [if_neg hsmall] at h
    cases h

/-- The text of a finite number is the same in CSS and in the JSON form. -/
theorem json_finite (x : Finite) : (Number.finite x).json = (Number.finite x).text := by
  simp only [json]
  cases hinteger : x.smallInteger? with
  | none => rfl
  | some n =>
      obtain ⟨hx, hsign⟩ := Finite.smallInteger?_eq_some hinteger
      simp only [text_of_isWhole hx, Numeral.signedDecimal, hsign]
      split <;> rfl

theorem spacing_dvd_one {n : Nat} (h : n < 10 ^ (15 : Nat)) :
    Format.binary64.spacing (n * Finite.one) ∣ Finite.one := by
  have hlt := Finite.two_mul_spacing_lt_one h
  refine Nat.pow_dvd_pow 2 ?_
  have hpow : Format.binary64.spacing (n * Finite.one) < 2 ^ Format.binary64.scale := by
    rw [Finite.two_pow_scale]
    omega
  exact Nat.le_of_lt ((Nat.pow_lt_pow_iff_right Nat.one_lt_two).1 hpow)

theorem roundDiv_mul {q step : Nat} (h : 0 < step) : roundDiv (q * step) step = q := by
  rw [roundDiv, Nat.mul_div_cancel q h, Nat.mul_mod_left]
  exact if_pos (.inl h)

/-- A small integer is a number of the format, so it is not rounded. -/
theorem round_whole {n : Nat} (h : n < 10 ^ (15 : Nat)) :
    Format.binary64.round n 1 = n * Finite.one := by
  have hdvd : Format.binary64.spacing (n * Finite.one) ∣ n * Finite.one :=
    Nat.dvd_mul_left_of_dvd (spacing_dvd_one h) n
  rw [Format.round]
  simp only [Finite.two_pow_scale, Nat.div_one, Nat.one_mul]
  obtain ⟨q, hq⟩ := hdvd
  generalize hstep : Format.binary64.spacing (n * Finite.one) = step at hq ⊢
  have hpos : 0 < step := hstep ▸ Finite.spacing_pos _
  rw [hq, Nat.mul_comm step q, roundDiv_mul hpos]

theorem holds_whole {n : Nat} (h : n < 10 ^ (15 : Nat)) :
    Format.binary64.Holds (n * Finite.one) := by
  refine ⟨?_, Nat.mod_eq_zero_of_dvd (Nat.dvd_mul_left_of_dvd (spacing_dvd_one h) n)⟩
  have hbits : n < 2 ^ (50 : Nat) := Nat.lt_trans h (by decide)
  calc n * Finite.one < 2 ^ (50 : Nat) * Finite.one :=
        Nat.mul_lt_mul_of_pos_right hbits Finite.one_pos
    _ = 2 ^ (50 + Format.binary64.scale) := by rw [Nat.pow_add, Finite.two_pow_scale]
    _ ≤ 2 ^ Format.binary64.width := Nat.pow_le_pow_right (by decide) (by decide)

theorem ofInt_eq {n : Int} (h : n.natAbs < 10 ^ (15 : Nat)) :
    ofInt n = .finite ⟨n < 0, n.natAbs * Finite.one, holds_whole h⟩ := by
  rw [ofInt, ofRatio, ofUnits, round_whole h, dif_pos (holds_whole h)]

/-- A number that is written as an integer equals the number that the integer is rounded to. -/
theorem Finite.same_ofInt {x : Finite} {n : Int} (h : x.smallInteger? = some n) :
    (Number.finite x).same (ofInt n) = true := by
  obtain ⟨hx, hsign⟩ := smallInteger?_eq_some h
  have hzero : x.negative = decide (n < 0) ∨ x.units = 0 := by
    by_cases hn : n.natAbs = 0
    · exact .inr (by rw [hx.units_eq, hn, Nat.zero_mul])
    · refine .inl (Bool.eq_iff_iff.2 ?_)
      rw [decide_eq_true_iff, hsign]
      exact (and_iff_left hn).symm
  rw [ofInt_eq hx.small]
  simpa [Number.same, hx.units_eq] using hzero

/-- It also has the same text. -/
theorem Finite.text_ofInt {x : Finite} {n : Int} (h : x.smallInteger? = some n) :
    (ofInt n).text = (Number.finite x).text := by
  obtain ⟨hx, hsign⟩ := smallInteger?_eq_some h
  have hrounded : IsWhole ⟨n < 0, n.natAbs * one, holds_whole hx.small⟩ n.natAbs :=
    ⟨rfl, hx.small⟩
  have hcond : (decide (n < 0) = true ∧ n.natAbs ≠ 0) ↔ x.negative = true ∧ n.natAbs ≠ 0 := by
    rw [decide_eq_true_iff, hsign]
    exact and_iff_left_of_imp And.right
  rw [ofInt_eq hx.small, text_of_isWhole hrounded, text_of_isWhole hx]
  simp only [hcond]

end Number

end ScopedCss
