/-
# Positional numerals

Natural numbers written in a base between 2 and 36, with the digits `0`–`9` and `a`–`z` and no
superfluous leading zero.  Names of styles, decimal numbers and escape codes are all written this
way, so the module states no base of its own.
-/

namespace ScopedCss.Numeral

/-- The character of a digit value below 36. -/
def digitChar (d : Nat) : Char :=
  if d < 10 then Char.ofNat (48 + d) else Char.ofNat (87 + d)

/-- The digits of `n` in the given base, most significant first.  Zero is the single digit `0`.
A base below two has no numerals of its own; everything is then one digit. -/
def digits (base n : Nat) : List Char :=
  if 1 < base ∧ base ≤ n then
    digits base (n / base) ++ [digitChar (n % base)]
  else
    [digitChar n]
termination_by n
decreasing_by
  rename_i h
  exact Nat.div_lt_self (by omega) h.1

/-- The decimal numeral of `n`. -/
def decimal (n : Nat) : List Char :=
  digits 10 n

/-- The decimal numeral of an integer, with a leading `-` below zero. -/
def signedDecimal (n : Int) : List Char :=
  if n < 0 then '-' :: decimal n.natAbs else decimal n.natAbs

/-- How many decimal digits `n` has. -/
def digitCount (n : Nat) : Nat :=
  (decimal n).length

theorem digits_of_lt {base n : Nat} (h : n < base) : digits base n = [digitChar n] := by
  rw [digits, if_neg (by omega)]

theorem digits_of_le {base n : Nat} (hbase : 1 < base) (h : base ≤ n) :
    digits base n = digits base (n / base) ++ [digitChar (n % base)] := by
  rw [digits, if_pos ⟨hbase, h⟩]

theorem digits_ne_nil (base n : Nat) : digits base n ≠ [] := by
  rw [digits]; split <;> simp

/-- The number written by a decimal text whose characters are all digits. -/
def ofDecimal (cs : List Char) : Nat :=
  cs.foldl (fun n c => n * 10 + (c.toNat - 48)) 0

/-- The value of a hexadecimal digit in either letter case. -/
def hexValue? (c : Char) : Option Nat :=
  if '0' ≤ c ∧ c ≤ '9' then some (c.toNat - 48)
  else if 'a' ≤ c ∧ c ≤ 'f' then some (c.toNat - 87)
  else if 'A' ≤ c ∧ c ≤ 'F' then some (c.toNat - 55)
  else none

end ScopedCss.Numeral
