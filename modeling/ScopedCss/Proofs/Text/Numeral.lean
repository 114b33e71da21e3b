/-
# Canonical numerals

In every base from 2 to 36 the numeral of a number is the only one: it is not empty, its characters
are digits of the base, a zero stands in front only if it is all there is, and it denotes the
number (`eq_digits_iff`).  It is no longer than a power of the base above the number requires
(`length_digits_le`).

Decimal numerals are what numbers, ids in diagnostics and JSON are written with, so the general
facts are stated once more for them, in terms of `Char.isDigit` and `ofDecimal`.
-/

import Mathlib.Data.List.Basic
import Mathlib.Data.List.Induction
import ScopedCss.Text.Numeral

namespace ScopedCss.Numeral

-- Powers are those of `Nat.pow`, whichever other instances are in scope.
attribute [local instance (high)] instPowNat

/-- The value of a digit below 36. -/
def digitValue (c : Char) : Nat :=
  if c.isDigit then c.toNat - 48 else c.toNat - 87

/-- The number that digits of a base denote, the most significant first. -/
def ofDigits (base : Nat) (cs : List Char) : Nat :=
  cs.foldl (fun n c => n * base + digitValue c) 0

/-- Digits of a base with no superfluous zero in front. -/
structure IsCanonical (base : Nat) (cs : List Char) : Prop where
  ne_nil : cs ≠ []
  digit : ∀ c ∈ cs, ∃ d < base, c = digitChar d
  leading : cs.head? = some '0' → cs = ['0']

@[simp] theorem ofDigits_nil (base : Nat) : ofDigits base [] = 0 := rfl

@[simp] theorem ofDigits_concat (base : Nat) (cs : List Char) (c : Char) :
    ofDigits base (cs ++ [c]) = ofDigits base cs * base + digitValue c := by
  simp [ofDigits]

theorem digitValue_digitChar {d : Nat} (h : d < 36) : digitValue (digitChar d) = d := by
  have hall : ∀ d < 36, digitValue (digitChar d) = d := by decide
  exact hall d h

theorem digitChar_eq_zero_iff {d : Nat} (h : d < 36) : digitChar d = '0' ↔ d = 0 := by
  have hall : ∀ d < 36, digitChar d = '0' ↔ d = 0 := by decide
  exact hall d h

variable {base : Nat}

/-- What holds of the digits of a base holds of the characters of its numerals. -/
theorem forall_mem_digits {p : Char → Bool} (hbase : 1 < base)
    (hp : ∀ d < base, p (digitChar d) = true) (n : Nat) :
    ∀ c ∈ digits base n, p c = true := by
  induction n using Nat.strongRecOn with
  | ind n ih =>
      by_cases hsmall : n < base
      · rw [digits_of_lt hsmall]
        exact List.forall_mem_singleton.2 (hp n hsmall)
      · rw [digits_of_le hbase (Nat.not_lt.1 hsmall)]
        exact List.forall_mem_append.2 ⟨ih _ (Nat.div_lt_self (by omega) hbase),
          List.forall_mem_singleton.2 (hp _ (Nat.mod_lt n (by omega)))⟩

/-- A numeral denotes the number that it is of. -/
theorem ofDigits_digits (hbase : 1 < base) (hmax : base ≤ 36) (n : Nat) :
    ofDigits base (digits base n) = n := by
  induction n using Nat.strongRecOn with
  | ind n ih =>
      by_cases hsmall : n < base
      · rw [digits_of_lt hsmall]
        exact (ofDigits_concat base [] _).trans
          (by rw [ofDigits_nil, Nat.zero_mul, Nat.zero_add, digitValue_digitChar (by omega)])
      · have hdigit : n % base < 36 := Nat.lt_of_lt_of_le (Nat.mod_lt n (by omega)) hmax
        rw [digits_of_le hbase (by omega), ofDigits_concat,
          ih (n / base) (Nat.div_lt_self (by omega) hbase), digitValue_digitChar hdigit,
          Nat.mul_comm, Nat.div_add_mod]

/-- The numeral of a number other than zero does not begin with a zero. -/
theorem head?_digits_ne_zero (hbase : 1 < base) (hmax : base ≤ 36) {n : Nat} (hn : n ≠ 0) :
    (digits base n).head? ≠ some '0' := by
  induction n using Nat.strongRecOn with
  | ind n ih =>
      by_cases hsmall : n < base
      · rw [digits_of_lt hsmall, List.head?_cons, ne_eq, Option.some.injEq,
          digitChar_eq_zero_iff (by omega)]
        exact hn
      · have hfront : n / base ≠ 0 := Nat.ne_of_gt (Nat.div_pos (by omega) (by omega))
        have hne := digits_ne_nil base (n / base)
        rw [digits_of_le hbase (by omega), List.head?_append_of_ne_nil _ hne]
        exact ih (n / base) (Nat.div_lt_self (by omega) hbase) hfront

theorem isCanonical_digits (hbase : 1 < base) (hmax : base ≤ 36) (n : Nat) :
    IsCanonical base (digits base n) where
  ne_nil := digits_ne_nil base n
  digit := by
    intro c hc
    have hall := forall_mem_digits (p := fun c => decide (∃ d < base, c = digitChar d)) hbase
      (fun d hd => decide_eq_true ⟨d, hd, rfl⟩) n c hc
    exact of_decide_eq_true hall
  leading hzero := by
    by_cases hn : n = 0
    · rw [hn, digits_of_lt (by omega)]
      rfl
    · exact absurd hzero (head?_digits_ne_zero hbase hmax hn)

/-- What stands before the last of several canonical digits is canonical, and no zero begins it. -/
theorem IsCanonical.front {front : List Char} {c : Char} (h : IsCanonical base (front ++ [c]))
    (hfront : front ≠ []) : IsCanonical base front ∧ front.head? ≠ some '0' := by
  have hhead : front.head? ≠ some '0' := by
    intro hzero
    have halone := h.leading (by rw [List.head?_append_of_ne_nil _ hfront, hzero])
    have hlength := congrArg List.length halone
    have hpos := List.length_pos_iff.2 hfront
    rw [List.length_append, List.length_singleton, List.length_singleton] at hlength
    omega
  refine ⟨⟨hfront, fun c hc => h.digit c ?_, fun hzero => absurd hzero hhead⟩, hhead⟩
  exact List.mem_append_left _ hc

/-- Canonical digits are the numeral of the number that they denote. -/
theorem digits_ofDigits (hbase : 1 < base) (hmax : base ≤ 36) {cs : List Char}
    (h : IsCanonical base cs) : digits base (ofDigits base cs) = cs := by
  induction cs using List.reverseRecOn with
  | nil => exact absurd rfl h.ne_nil
  | append_singleton front c ih =>
      obtain ⟨d, hd, rfl⟩ := h.digit c (by simp)
      rw [ofDigits_concat, digitValue_digitChar (by omega)]
      by_cases hfront : front = []
      · rw [hfront, ofDigits_nil, Nat.zero_mul, Nat.zero_add, digits_of_lt hd, List.nil_append]
      · obtain ⟨hcanonical, hhead⟩ := h.front hfront
        have hprev := ih hcanonical
        have hne : ofDigits base front ≠ 0 := by
          intro hzero
          rw [hzero, digits_of_lt (by omega)] at hprev
          exact hhead (by rw [← hprev]; rfl)
        have hle : base ≤ ofDigits base front * base :=
          Nat.le_mul_of_pos_left base (Nat.pos_of_ne_zero hne)
        have hquotient : (ofDigits base front * base + d) / base = ofDigits base front := by
          rw [Nat.mul_comm, Nat.mul_add_div (by omega), Nat.div_eq_of_lt hd, Nat.add_zero]
        have hrest : (ofDigits base front * base + d) % base = d := by
          rw [Nat.mul_comm, Nat.mul_add_mod, Nat.mod_eq_of_lt hd]
        rw [digits_of_le hbase (by omega), hquotient, hrest, hprev]

/-- The numeral of a number is the only canonical one that denotes it. -/
theorem eq_digits_iff (hbase : 1 < base) (hmax : base ≤ 36) {cs : List Char} {n : Nat} :
    cs = digits base n ↔ IsCanonical base cs ∧ ofDigits base cs = n := by
  constructor
  · rintro rfl
    exact ⟨isCanonical_digits hbase hmax n, ofDigits_digits hbase hmax n⟩
  · rintro ⟨hcanonical, rfl⟩
    exact (digits_ofDigits hbase hmax hcanonical).symm

theorem length_digits_le (hbase : 1 < base) {n places : Nat} (hplaces : 0 < places)
    (h : n < base ^ places) : (digits base n).length ≤ places := by
  induction places generalizing n with
  | zero => contradiction
  | succ places ih =>
      by_cases hsmall : n < base
      · rw [digits_of_lt hsmall, List.length_singleton]
        omega
      · have hquotient : n / base < base ^ places := by
          rw [Nat.pow_succ] at h
          exact Nat.div_lt_of_lt_mul (by rwa [Nat.mul_comm])
        have hpos : 0 < places := Nat.pos_of_ne_zero fun hzero => by
          have hone : 1 ≤ n / base := Nat.div_pos (by omega) (by omega)
          rw [hzero, Nat.pow_zero] at hquotient
          omega
        have hrest := ih hpos hquotient
        rw [digits_of_le hbase (by omega), List.length_append, List.length_singleton]
        omega

theorem lt_pow_length_digits (hbase : 1 < base) (n : Nat) :
    n < base ^ (digits base n).length := by
  induction n using Nat.strongRecOn with
  | ind n ih =>
      by_cases hsmall : n < base
      · rwa [digits_of_lt hsmall, List.length_singleton, Nat.pow_one]
      · have hquotient := ih (n / base) (Nat.div_lt_self (by omega) hbase)
        rw [digits_of_le hbase (by omega), List.length_append, List.length_singleton,
          Nat.pow_succ]
        exact (Nat.div_lt_iff_lt_mul (by omega)).1 hquotient

theorem pow_length_digits_le (hbase : 1 < base) {n : Nat} (hn : n ≠ 0) :
    base ^ ((digits base n).length - 1) ≤ n := by
  have hpos := List.length_pos_iff.2 (digits_ne_nil base n)
  by_cases hone : (digits base n).length = 1
  · rw [hone, Nat.sub_self, Nat.pow_zero]
    exact Nat.pos_of_ne_zero hn
  · apply Nat.le_of_not_lt
    intro hlt
    have hshort := length_digits_le hbase (by omega) hlt
    omega

theorem getLast?_digits (hbase : 1 < base) (n : Nat) :
    (digits base n).getLast? = some (digitChar (n % base)) := by
  by_cases hsmall : n < base
  · rw [digits_of_lt hsmall, Nat.mod_eq_of_lt hsmall, List.getLast?_singleton]
  · rw [digits_of_le hbase (by omega), List.getLast?_concat]

theorem isDigit_digitChar {d : Nat} (h : d < 10) : (digitChar d).isDigit = true := by
  have hall : ∀ d < 10, (digitChar d).isDigit = true := by decide
  exact hall d h

theorem isDigit_of_mem_decimal {c : Char} {n : Nat} (h : c ∈ decimal n) : c.isDigit = true :=
  forall_mem_digits (p := Char.isDigit) (by decide) (fun _ => isDigit_digitChar) n c h

theorem exists_digitChar {c : Char} (h : c.isDigit = true) : ∃ d < 10, c = digitChar d := by
  simp only [Char.isDigit, Bool.and_eq_true, decide_eq_true_eq, UInt32.le_iff_toNat_le] at h
  have hlow : 48 ≤ c.toNat := h.1
  have hhigh : c.toNat ≤ 57 := h.2
  refine ⟨c.toNat - 48, by omega, ?_⟩
  rw [digitChar, if_pos (by omega), Nat.add_sub_cancel' hlow, Char.ofNat_toNat]

theorem isCanonical_ten_iff {cs : List Char} :
    IsCanonical 10 cs ↔
      cs ≠ [] ∧ (∀ c ∈ cs, c.isDigit = true) ∧ (cs.head? = some '0' → cs = ['0']) := by
  constructor
  · intro h
    refine ⟨h.ne_nil, fun c hc => ?_, h.leading⟩
    obtain ⟨d, hd, rfl⟩ := h.digit c hc
    exact isDigit_digitChar hd
  · rintro ⟨hne, hdigit, hleading⟩
    exact ⟨hne, fun c hc => exists_digitChar (hdigit c hc), hleading⟩

theorem ofDecimal_eq_ofDigits {cs : List Char} (h : ∀ c ∈ cs, c.isDigit = true) :
    ofDecimal cs = ofDigits 10 cs := by
  refine List.foldl_ext _ _ 0 fun n c hc => ?_
  rw [digitValue, if_pos (h c hc)]

/-- A decimal numeral denotes the number that it is of. -/
theorem ofDecimal_decimal (n : Nat) : ofDecimal (decimal n) = n :=
  (ofDecimal_eq_ofDigits fun _ => isDigit_of_mem_decimal).trans
    (ofDigits_digits (by decide) (by decide) n)

theorem ofDecimal_append (cs ds : List Char) :
    ofDecimal (cs ++ ds) = ds.foldl (fun n c => n * 10 + (c.toNat - 48)) (ofDecimal cs) := by
  rw [ofDecimal, List.foldl_append, ofDecimal]

/-- Zeros behind digits multiply by powers of ten. -/
theorem ofDecimal_append_zeros (cs : List Char) (zeros : Nat) :
    ofDecimal (cs ++ List.replicate zeros '0') = ofDecimal cs * 10 ^ zeros := by
  induction zeros with
  | zero => simp
  | succ zeros ih =>
      rw [List.replicate_succ', ← List.append_assoc, ofDecimal_append, ih, Nat.pow_succ,
        ← Nat.mul_assoc]
      rfl

/-- Zeros in front of digits do not count. -/
theorem ofDecimal_zeros_append (zeros : Nat) (cs : List Char) :
    ofDecimal (List.replicate zeros '0' ++ cs) = ofDecimal cs := by
  have hzeros : ofDecimal (List.replicate zeros '0') = 0 :=
    (ofDecimal_append_zeros [] zeros).trans (Nat.zero_mul _)
  rw [ofDecimal_append, hzeros, ofDecimal]

/-- Digits that do not begin with a zero are the numeral of what they denote. -/
theorem decimal_ofDecimal {cs : List Char} (hne : cs ≠ []) (hdigit : ∀ c ∈ cs, c.isDigit = true)
    (hfirst : cs.head? ≠ some '0') : decimal (ofDecimal cs) = cs := by
  rw [ofDecimal_eq_ofDigits hdigit]
  exact digits_ofDigits (by decide) (by decide)
    (isCanonical_ten_iff.2 ⟨hne, hdigit, fun hzero => absurd hzero hfirst⟩)

/-- A numeral of more than one digit does not begin with a zero. -/
theorem head?_decimal_ne_zero {n : Nat} (h : n ≠ 0) : (decimal n).head? ≠ some '0' :=
  head?_digits_ne_zero (by decide) (by decide) h

theorem getLast?_decimal_ne_zero {n : Nat} (h : n % 10 ≠ 0) :
    (decimal n).getLast? ≠ some '0' := by
  rw [decimal, getLast?_digits (by decide), ne_eq, Option.some.injEq,
    digitChar_eq_zero_iff (by omega)]
  exact h

/-- Digits are read up to the first other character. -/
theorem span_digits {cs rest : List Char} (hdigit : ∀ c ∈ cs, c.isDigit = true)
    (hrest : ∀ c ∈ rest.head?, c.isDigit = false) :
    (cs ++ rest).takeWhile Char.isDigit = cs ∧ (cs ++ rest).dropWhile Char.isDigit = rest := by
  have hnone : rest.takeWhile Char.isDigit = [] ∧ rest.dropWhile Char.isDigit = rest := by
    cases rest with
    | nil => exact ⟨rfl, rfl⟩
    | cons c rest =>
        have hc : ¬ c.isDigit = true := Bool.eq_false_iff.1 (hrest c rfl)
        exact ⟨List.takeWhile_cons_of_neg hc, List.dropWhile_cons_of_neg hc⟩
  rw [List.takeWhile_append_of_pos hdigit, List.dropWhile_append_of_pos hdigit, hnone.1, hnone.2,
    List.append_nil]
  exact ⟨rfl, rfl⟩

theorem digitCount_pos (n : Nat) : 0 < digitCount n :=
  List.length_pos_iff.2 (digits_ne_nil 10 n)

theorem digitCount_le {n places : Nat} (hplaces : 0 < places) (h : n < 10 ^ places) :
    digitCount n ≤ places :=
  length_digits_le (by decide) hplaces h

theorem decimal_mul_ten {n : Nat} (h : n ≠ 0) : decimal (n * 10) = decimal n ++ ['0'] := by
  have hstep : digits 10 (n * 10) = _ := digits_of_le (by decide) (by omega)
  rw [Nat.mul_div_cancel n (by decide), Nat.mul_mod_left] at hstep
  exact hstep

/-- A power of ten shows as zeros at the end of a numeral. -/
theorem decimal_mul_pow {n : Nat} (h : n ≠ 0) (zeros : Nat) :
    decimal (n * 10 ^ zeros) = decimal n ++ List.replicate zeros '0' := by
  induction zeros with
  | zero => simp
  | succ zeros ih =>
      have hne : n * 10 ^ zeros ≠ 0 := Nat.mul_ne_zero h (Nat.ne_of_gt (Nat.pow_pos (by decide)))
      rw [Nat.pow_succ, ← Nat.mul_assoc, decimal_mul_ten hne, ih, List.append_assoc,
        List.replicate_succ']

end ScopedCss.Numeral
