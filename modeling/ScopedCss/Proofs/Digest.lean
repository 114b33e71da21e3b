/-
# The digest in closed form

The rolling value of a text is its polynomial in 31, with the UTF-16 units as coefficients, reduced
to the representative in `[-2^31, 2^31)` modulo `2^32` (`rolling_eq`); words of 32 bits that are
shifted, subtracted and added arrive at the same value (`toInt_foldl_rollWord`).  The digest is the
numeral of its magnitude in base 36.  So it tells two texts apart exactly when their residues are
neither equal nor opposite (`ofText_eq_iff`), and it never has more than six characters, although
the magnitude may be `2^31` itself.
-/

import Mathlib
import ScopedCss.Input
import ScopedCss.Proofs.Text.Numeral

namespace ScopedCss.Digest

/-- The polynomial in 31 that has the units as coefficients, the last one of degree zero. -/
def polynomial (units : List Nat) : Int :=
  ∑ i ∈ Finset.range units.length, (units.getD i 0 : Int) * 31 ^ (units.length - 1 - i)

/-- The polynomial of a text, reduced to its representative in `[-2^31, 2^31)`. -/
def residue (text : String) : Int :=
  (polynomial (Text.units text.toList)).bmod (2 ^ 32)

/-- A step of the rolling value in words of 32 bits, where 31 times a word is the word shifted by
five places less the word. -/
def rollWord (h : BitVec 32) (unit : Nat) : BitVec 32 :=
  h <<< 5 - h + BitVec.ofNat 32 unit

/-- A digit or a small letter. -/
def IsNameDigit (c : Char) : Prop :=
  ('0' ≤ c ∧ c ≤ '9') ∨ ('a' ≤ c ∧ c ≤ 'z')

instance (c : Char) : Decidable (IsNameDigit c) :=
  inferInstanceAs (Decidable (_ ∨ _))

/-- The mark of class names before one to six digits and small letters. -/
def IsClassName (name : String) : Prop :=
  ∃ digits, name = "zc-" ++ String.ofList digits ∧ 1 ≤ digits.length ∧ digits.length ≤ 6 ∧
    ∀ c ∈ digits, IsNameDigit c

theorem polynomial_concat (units : List Nat) (u : Nat) :
    polynomial (units ++ [u]) = 31 * polynomial units + u := by
  have hterm (i : Nat) (hi : i ∈ Finset.range units.length) :
      ((units ++ [u]).getD i 0 : Int) * 31 ^ (units.length + 1 - 1 - i) =
        31 * ((units.getD i 0 : Int) * 31 ^ (units.length - 1 - i)) := by
    have hlt : i < units.length := Finset.mem_range.1 hi
    have hpower : units.length + 1 - 1 - i = units.length - 1 - i + 1 := by omega
    rw [List.getD_append _ _ _ _ hlt, hpower, pow_succ]
    ring
  have hlast : (units ++ [u]).getD units.length 0 = u := by simp
  rw [polynomial, polynomial, List.length_append, List.length_singleton, Finset.sum_range_succ,
    Finset.sum_congr rfl hterm, ← Finset.mul_sum, hlast, Nat.add_sub_cancel, Nat.sub_self,
    pow_zero, mul_one]

/-- Each unit behind a text raises its polynomial by one degree. -/
theorem polynomial_append (s t : List Nat) :
    polynomial (s ++ t) = polynomial s * 31 ^ t.length + polynomial t := by
  induction t using List.reverseRecOn with
  | nil => simp [polynomial]
  | append_singleton t u ih =>
      rw [← List.append_assoc, polynomial_concat, ih, polynomial_concat, List.length_append,
        List.length_singleton, pow_succ]
      ring

theorem roll_bmod (p : Int) (u : Nat) :
    roll (p.bmod (2 ^ 32)) u = (31 * p + u).bmod (2 ^ 32) := by
  calc (31 * p.bmod (2 ^ 32) + u).bmod (2 ^ 32)
      = ((31 * p.bmod (2 ^ 32)).bmod (2 ^ 32) + u).bmod (2 ^ 32) := Int.bmod_add_bmod.symm
    _ = ((31 * p).bmod (2 ^ 32) + u).bmod (2 ^ 32) := by rw [Int.mul_bmod_bmod]
    _ = (31 * p + u).bmod (2 ^ 32) := Int.bmod_add_bmod

theorem rolling_eq (units : List Nat) : rolling units = (polynomial units).bmod (2 ^ 32) := by
  induction units using List.reverseRecOn with
  | nil => rfl
  | append_singleton units u ih =>
      rw [rolling_append, ih, polynomial_concat]
      exact roll_bmod _ u

theorem rollWord_ofInt (p : Int) (u : Nat) :
    rollWord (BitVec.ofInt 32 p) u = BitVec.ofInt 32 (31 * p + u) := by
  have hshift : BitVec.twoPow 32 5 = 32 := by decide
  have hfactor : BitVec.ofInt 32 31 = 31 := by decide
  rw [rollWord, BitVec.shiftLeft_eq_mul_twoPow, hshift, BitVec.ofInt_add, BitVec.ofInt_mul,
    hfactor, BitVec.ofInt_natCast]
  ring

/-- Words of 32 bits arrive at the rolling value as well. -/
theorem toInt_foldl_rollWord (units : List Nat) :
    (units.foldl rollWord 0).toInt = rolling units := by
  have hword : units.foldl rollWord 0 = BitVec.ofInt 32 (polynomial units) := by
    induction units using List.reverseRecOn with
    | nil => rfl
    | append_singleton units u ih =>
        rw [List.foldl_append, ih, polynomial_concat]
        exact rollWord_ofInt _ u
  rw [hword, BitVec.toInt_ofInt, rolling_eq]

theorem residue_mem (text : String) : -2 ^ 31 ≤ residue text ∧ residue text < 2 ^ 31 := by
  have hlow := Int.le_bmod (x := polynomial (Text.units text.toList)) (m := 2 ^ 32) (by decide)
  have hhigh := Int.bmod_lt (x := polynomial (Text.units text.toList)) (m := 2 ^ 32) (by decide)
  rw [residue]
  constructor <;> omega

theorem residue_modEq (text : String) :
    residue text ≡ polynomial (Text.units text.toList) [ZMOD 2 ^ 32] :=
  Int.bmod_emod

theorem residue_append (s t : String) :
    residue (s ++ t) ≡ residue s * 31 ^ (Text.units t.toList).length + residue t [ZMOD 2 ^ 32] := by
  have happend : polynomial (Text.units (s ++ t).toList) =
      polynomial (Text.units s.toList) * 31 ^ (Text.units t.toList).length +
        polynomial (Text.units t.toList) := by
    rw [String.toList_append, Text.units_append, polynomial_append]
  calc residue (s ++ t)
      ≡ polynomial (Text.units (s ++ t).toList) [ZMOD 2 ^ 32] := residue_modEq _
    _ = _ := happend
    _ ≡ residue s * 31 ^ (Text.units t.toList).length + residue t [ZMOD 2 ^ 32] :=
        ((residue_modEq s).symm.mul_right _).add (residue_modEq t).symm

theorem toList_ofText (text : String) :
    (ofText text).toList = Numeral.digits 36 (residue text).natAbs := by
  rw [ofText, String.toList_ofList, rolling_eq, residue]

theorem isNameDigit_of_mem_ofText {text : String} {c : Char} (h : c ∈ (ofText text).toList) :
    IsNameDigit c := by
  have hall : ∀ d < 36, decide (IsNameDigit (Numeral.digitChar d)) = true := by decide
  rw [toList_ofText] at h
  exact of_decide_eq_true (Numeral.forall_mem_digits
    (p := fun c => decide (IsNameDigit c)) (by decide) hall _ c h)

theorem length_ofText_le (text : String) : (ofText text).toList.length ≤ 6 := by
  obtain ⟨hlow, hhigh⟩ := residue_mem text
  have hbound : (residue text).natAbs < 36 ^ 6 := by omega
  rw [toList_ofText]
  exact Numeral.length_digits_le (by decide) (by decide) hbound

/-- Two texts have the same digest exactly if their residues are equal or opposite. -/
theorem ofText_eq_iff (s t : String) :
    ofText s = ofText t ↔ residue s = residue t ∨ residue s = -residue t := by
  rw [← Int.natAbs_eq_natAbs_iff, ← String.toList_inj, toList_ofText, toList_ofText]
  constructor
  · intro h
    have hvalue := congrArg (Numeral.ofDigits 36) h
    rwa [Numeral.ofDigits_digits (by decide) (by decide),
      Numeral.ofDigits_digits (by decide) (by decide)] at hvalue
  · exact congrArg (Numeral.digits 36)

theorem isClassName_classNameOfText (text : String) : IsClassName (classNameOfText text) := by
  refine ⟨(ofText text).toList, ?_, ?_, length_ofText_le text,
    fun c => isNameDigit_of_mem_ofText⟩
  · rw [String.ofList_toList]
    rfl
  · rw [toList_ofText]
    exact List.length_pos_iff.2 (Numeral.digits_ne_nil 36 _)

/-- The digest of a text is the numeral in base 36, of at most six characters, of the magnitude of
its residue, the representative of the polynomial of its units in `[-2^31, 2^31)`.  Texts whose
residues are equal or opposite share their digest, and no others do; a text put behind another
raises the residue by a power of 31 for each unit and adds its own.  Class names are digests behind
their mark. -/
theorem ofText_closed_form (s : String) :
    (-2 ^ 31 ≤ residue s ∧ residue s < 2 ^ 31 ∧
        residue s ≡ polynomial (Text.units s.toList) [ZMOD 2 ^ 32] ∧
        ((Text.units s.toList).foldl rollWord 0).toInt = residue s) ∧
      ((∀ digits, digits = (ofText s).toList ↔
          Numeral.IsCanonical 36 digits ∧ Numeral.ofDigits 36 digits = (residue s).natAbs) ∧
        (ofText s).toList.length ≤ 6 ∧ ∀ c ∈ (ofText s).toList, IsNameDigit c) ∧
      (∀ t, ofText s = ofText t ↔ residue s = residue t ∨ residue s = -residue t) ∧
      (∀ t, residue (s ++ t) ≡
        residue s * 31 ^ (Text.units t.toList).length + residue t [ZMOD 2 ^ 32]) ∧
      IsClassName (classNameOfText s) ∧
      ∀ input : StyleInput, IsClassName input.compile.className := by
  obtain ⟨hlow, hhigh⟩ := residue_mem s
  have hword : ((Text.units s.toList).foldl rollWord 0).toInt = residue s := by
    rw [toInt_foldl_rollWord, rolling_eq, residue]
  have hnumeral (digits : List Char) : digits = (ofText s).toList ↔
      Numeral.IsCanonical 36 digits ∧ Numeral.ofDigits 36 digits = (residue s).natAbs := by
    rw [toList_ofText]
    exact Numeral.eq_digits_iff (by decide) (by decide)
  exact ⟨⟨hlow, hhigh, residue_modEq s, hword⟩,
    ⟨hnumeral, length_ofText_le s, fun c => isNameDigit_of_mem_ofText⟩,
    ofText_eq_iff s, residue_append s, isClassName_classNameOfText s,
    fun input => isClassName_classNameOfText input.identity⟩

/-- The least residue, whose magnitude no signed word of 32 bits has. -/
theorem ofText_closed_form_least :
    (residue "polygenelubricants").natAbs = 2 ^ 31 ∧ ofText "polygenelubricants" = "zik0zk" ∧
      IsNameDigit 'z' := by
  have htext : ofText "polygenelubricants" = "zik0zk" := by cbv
  obtain ⟨-, ⟨hnumeral, -, hdigit⟩, -⟩ := ofText_closed_form "polygenelubricants"
  have hvalue := ((hnumeral _).1 rfl).2
  rw [htext] at hvalue hdigit
  exact ⟨hvalue.symm.trans (by decide), htext, hdigit 'z' (by decide)⟩

end ScopedCss.Digest
