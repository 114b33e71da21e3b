/-
# Quoted strings read back

Reading a quoted string gives the string, whatever follows its closing quote (`readQuoted_quote`).
So a quoted string can be told from what stands behind it: two texts that begin with quoted strings
are equal only if the strings and the remainders are (`quote_append_inj`).
-/

import Mathlib.Tactic.SplitIfs
import ScopedCss.Json.Quoted

namespace ScopedCss.Json

theorem hexValue?_digitChar {d : Nat} (h : d < 16) :
    Numeral.hexValue? (Numeral.digitChar d) = some d := by
  have hall : ∀ d < 16, Numeral.hexValue? (Numeral.digitChar d) = some d := by decide
  exact hall d h

/-- The four digits of an escaped control are read as its code. -/
theorem readHex4_control {n : Nat} (h : n < 0x20) (cs : List Char) :
    readHex4 ('0' :: '0' :: Numeral.digitChar (n / 16) :: Numeral.digitChar (n % 16) :: cs) =
      .ok n := by
  have hbytes : ¬ Text.byteLength
      ('0' :: '0' :: Numeral.digitChar (n / 16) :: Numeral.digitChar (n % 16) :: cs) < 4 := by
    have hfirst := Char.utf8Size_pos (Numeral.digitChar (n / 16))
    have hsecond := Char.utf8Size_pos (Numeral.digitChar (n % 16))
    have hzero := Char.utf8Size_pos '0'
    simp only [Text.byteLength, List.map_cons, List.sum_cons]
    omega
  have hzero : Numeral.hexValue? '0' = some 0 := by decide
  have hcode :
      hex4? '0' '0' (Numeral.digitChar (n / 16)) (Numeral.digitChar (n % 16)) = some n := by
    simp only [hex4?, hzero, hexValue?_digitChar (show n / 16 < 16 by omega),
      hexValue?_digitChar (Nat.mod_lt n (by decide : 0 < 16)), Option.bind_eq_bind,
      Option.bind_some, Option.pure_def, Option.some.injEq]
    omega
  simp only [readHex4, if_neg hbytes, hcode]

theorem readHexEscape_control {c : Char} (h : c.toNat < 0x20) (cs : List Char) :
    readHexEscape ('0' :: '0' :: Numeral.digitChar (c.toNat / 16) ::
      Numeral.digitChar (c.toNat % 16) :: cs) = .ok (c, 4) := by
  have htrailing : isTrailing c.toNat = false := by simp [isTrailing]; omega
  have hleading : isLeading c.toNat = false := by simp [isLeading]; omega
  simp [readHexEscape, readHex4_control h, bind, Except.bind, htrailing, hleading]

theorem readEscape_letter {e c : Char} (he : letterEscape? e = some c) (cs : List Char) :
    readEscape (e :: cs) = .ok (c, 1) := by
  have hu : e ≠ 'u' := by
    rintro rfl
    cases he
  rw [readEscape.eq_3 e cs hu, he]

/-- The characters that belong to an escape are passed over. -/
theorem readQuoted_skip (taken cs : List Char) :
    readQuoted taken.length (taken ++ cs) =
      (readQuoted 0 cs).map fun read => (read.1, read.2 + taken.length) := by
  induction taken with
  | nil =>
      rw [List.length_nil, List.nil_append]
      cases readQuoted 0 cs <;> rfl
  | cons c taken ih =>
      simp only [List.length_cons, List.cons_append, readQuoted, ih]
      cases readQuoted 0 cs <;> rfl

/-- A character that is written as an escape is read when the escape is. -/
theorem readQuoted_backslash {c : Char} {taken cs : List Char}
    (h : readEscape (taken ++ cs) = .ok (c, taken.length)) :
    readQuoted 0 ('\\' :: taken ++ cs) =
      (readQuoted 0 cs).map fun read => (c :: read.1, read.2 + ('\\' :: taken).length) := by
  have hquote : '\\' ≠ '"' := by decide
  rw [List.cons_append, readQuoted]
  simp only [if_neg hquote, if_true, h, bind, Except.bind, readQuoted_skip]
  cases readQuoted 0 cs <;> rfl

/-- One escaped character is read as that character. -/
theorem readQuoted_escape (c : Char) (cs : List Char) :
    readQuoted 0 (escape c ++ cs) =
      (readQuoted 0 cs).map fun read => (c :: read.1, read.2 + (escape c).length) := by
  unfold escape
  split_ifs with hquote hbackslash hb ht hn hf hr hcontrol
  · subst hquote
    exact readQuoted_backslash (readEscape_letter rfl cs)
  · subst hbackslash
    exact readQuoted_backslash (readEscape_letter rfl cs)
  · subst hb
    exact readQuoted_backslash (readEscape_letter rfl cs)
  · subst ht
    exact readQuoted_backslash (readEscape_letter rfl cs)
  · subst hn
    exact readQuoted_backslash (readEscape_letter rfl cs)
  · subst hf
    exact readQuoted_backslash (readEscape_letter rfl cs)
  · subst hr
    exact readQuoted_backslash (readEscape_letter rfl cs)
  · apply readQuoted_backslash
    simp only [List.cons_append, List.nil_append, readEscape, readHexEscape_control hcontrol]
    rfl
  · rw [List.cons_append, List.nil_append, readQuoted]
    simp only [if_neg hquote, if_neg hbackslash, if_neg hcontrol]
    cases readQuoted 0 cs <;> rfl

/-- A quoted string is read up to its closing quote, and gives the string. -/
theorem readQuoted_quote (s rest : List Char) :
    readQuoted 0 (s.flatMap escape ++ '"' :: rest) =
      .ok (s, (s.flatMap escape).length + 1) := by
  induction s with
  | nil => rfl
  | cons c s ih =>
      rw [List.flatMap_cons, List.append_assoc, readQuoted_escape, ih]
      simp only [Except.map, List.length_append]
      congr 2
      omega

/-- A quoted string is told from what follows it. -/
theorem quote_append_inj {s t r r' : List Char} (h : quote s ++ r = quote t ++ r') :
    s = t ∧ r = r' := by
  simp only [quote, List.cons_append, List.append_assoc, List.cons.injEq, true_and,
    List.nil_append] at h
  have hread := readQuoted_quote s r
  rw [h, readQuoted_quote t r'] at hread
  have hst : s = t := (congrArg Prod.fst (Except.ok.inj hread)).symm
  subst hst
  exact ⟨rfl, (List.cons.inj (List.append_cancel_left h)).2⟩

end ScopedCss.Json
