/-
# Lexemes read back

A quoted string gives the lexeme of the string, whatever follows it (`lex_quote`), and the decimal
numeral of an integer of magnitude below `10 ^ 15` the lexeme of the integer, where nothing follows
that could be in a number (`lex_signedDecimal`).
-/

import ScopedCss.Json.Lexeme
import ScopedCss.Proofs.Json.Quoted
import ScopedCss.Proofs.Json.Tree
import ScopedCss.Proofs.Number.Integer
import ScopedCss.Proofs.Number.Text

namespace ScopedCss

-- Powers are those of `Nat.pow`, whichever other instances are in scope.  A literal exponent needs
-- its type, or a default would choose the instance.
attribute [local instance (high)] instPowNat

namespace Json

variable {rest : List Char}

theorem takeWhile_decimal_append (n : Nat) (h : ∀ c ∈ rest.head?, Number.isNumberChar c = false) :
    (Numeral.decimal n ++ rest).takeWhile Char.isDigit = Numeral.decimal n ∧
      (Numeral.decimal n ++ rest).dropWhile Char.isDigit = rest := by
  refine Numeral.span_digits (fun c => Numeral.isDigit_of_mem_decimal) fun c hc => ?_
  rw [Bool.eq_false_iff]
  intro hdigit
  have hnot := h c hc
  rw [Number.isNumberChar_of_isDigit hdigit] at hnot
  cases hnot

theorem readWhole_decimal (n : Nat) (h : ∀ c ∈ rest.head?, Number.isNumberChar c = false) :
    readWhole (Numeral.decimal n ++ rest) = .ok (Numeral.decimal n, rest) := by
  obtain ⟨htake, hdrop⟩ := takeWhile_decimal_append n h
  have hdigits : readDigits (Numeral.decimal n ++ rest) = .ok (Numeral.decimal n, rest) := by
    obtain ⟨d, ds, hcons⟩ : ∃ d ds, Numeral.decimal n = d :: ds :=
      List.exists_cons_of_ne_nil (Numeral.digits_ne_nil 10 n)
    rw [readDigits, htake, hdrop, hcons]
  have hzero : ¬ ((Numeral.decimal n).head? = some '0' ∧ 1 < (Numeral.decimal n).length) := by
    rintro ⟨hhead, hlength⟩
    by_cases hn : n = 0
    · subst hn
      exact absurd hlength (by decide +kernel)
    · exact Numeral.head?_decimal_ne_zero hn hhead
  simp only [readWhole, hdigits, bind, Except.bind, if_neg hzero]

/-- Behind a whole part there is no fraction and no exponent before what cannot be in a number. -/
theorem readFraction?_of_not_isNumberChar (h : ∀ c ∈ rest.head?, Number.isNumberChar c = false) :
    readFraction? rest = .ok (none, rest) := by
  unfold readFraction?
  split
  · exact absurd (h '.' rfl) (by decide)
  · rfl

theorem readPower?_of_not_isNumberChar (h : ∀ c ∈ rest.head?, Number.isNumberChar c = false) :
    readPower? rest = .ok (none, rest) := by
  cases rest with
  | nil => rfl
  | cons c rest =>
      have hc : ¬ (c = 'e' ∨ c = 'E') := by
        rintro (rfl | rfl)
        · exact absurd (h 'e' rfl) (by decide)
        · exact absurd (h 'E' rfl) (by decide)
      simp only [readPower?, if_neg hc]

theorem integerOf?_decimal {n : Nat} (hn : n < 10 ^ (15 : Nat)) :
    integerOf? false (Numeral.decimal n) = some (.integer n) := by
  have hbound : n < significandBound := Nat.lt_trans hn (by decide)
  simp [integerOf?, Numeral.ofDecimal_decimal, hbound]

theorem integerOf?_decimal_neg {n : Nat} (hn : n < 10 ^ (15 : Nat)) (hpos : 0 < n) :
    integerOf? true (Numeral.decimal n) = some (.integer (-n)) := by
  have hbound : 0 < n ∧ n ≤ 2 ^ (63 : Nat) :=
    ⟨hpos, Nat.le_trans (Nat.le_of_lt hn) (by decide)⟩
  simp only [integerOf?, Numeral.ofDecimal_decimal, if_true, if_pos hbound]

theorem readNumeral_of_unsigned {cs whole : List Char} {n : Numeral}
    (hsign : ∀ more, cs ≠ '-' :: more) (hwhole : readWhole cs = .ok (whole, rest))
    (h : ∀ c ∈ rest.head?, Number.isNumberChar c = false)
    (hread : integerOf? false whole = some n) : readNumeral cs = .ok (n, rest) := by
  unfold readNumeral
  split
  next negative unsigned heq =>
  split at heq
  · exact absurd rfl (hsign _)
  · cases heq
    simp only [hwhole, ok_bind, readFraction?_of_not_isNumberChar h,
      readPower?_of_not_isNumberChar h, Option.isNone_none, Bool.and_self, if_true, hread]

theorem readNumeral_of_negative {cs whole : List Char} {n : Numeral}
    (hwhole : readWhole cs = .ok (whole, rest))
    (h : ∀ c ∈ rest.head?, Number.isNumberChar c = false)
    (hread : integerOf? true whole = some n) : readNumeral ('-' :: cs) = .ok (n, rest) := by
  unfold readNumeral
  simp only [hwhole, ok_bind, readFraction?_of_not_isNumberChar h,
    readPower?_of_not_isNumberChar h, Option.isNone_none, Bool.and_self, if_true, hread]

/-- An integer is read from its numeral, up to what cannot be in a number. -/
theorem readNumeral_signedDecimal {n : Int} (hn : n.natAbs < 10 ^ (15 : Nat))
    (h : ∀ c ∈ rest.head?, Number.isNumberChar c = false) :
    readNumeral (Numeral.signedDecimal n ++ rest) = .ok (.integer n, rest) := by
  have hwhole := readWhole_decimal n.natAbs h
  rw [Numeral.signedDecimal]
  split
  · next hneg =>
    have hvalue : -(n.natAbs : Int) = n := by omega
    have hread := integerOf?_decimal_neg hn (by omega)
    rw [hvalue] at hread
    exact readNumeral_of_negative hwhole h hread
  · next hneg =>
    have hvalue : (n.natAbs : Int) = n := by omega
    have hread := integerOf?_decimal hn
    rw [hvalue] at hread
    refine readNumeral_of_unsigned (fun more hminus => ?_) hwhole h hread
    obtain ⟨d, ds, hcons⟩ : ∃ d ds, Numeral.decimal n.natAbs = d :: ds :=
      List.exists_cons_of_ne_nil (Numeral.digits_ne_nil 10 n.natAbs)
    have hdigit : d.isDigit = true :=
      Numeral.isDigit_of_mem_decimal (hcons ▸ List.mem_cons_self)
    rw [hcons, List.cons_append] at hminus
    rw [(List.cons.inj hminus).1] at hdigit
    exact absurd hdigit (by decide)

theorem lex_of_scan {c : Char} {cs : List Char} {x : Lexeme} {taken : Nat}
    (hc : isSpace c = false) (h : scan c cs = .ok (x, taken)) :
    lex (c :: cs) = x :: lex (cs.drop taken) := by
  rw [lex, hc, if_neg Bool.false_ne_true, h]

@[simp] theorem lex_openObject (cs : List Char) : lex ('\x7b' :: cs) = .openObject :: lex cs :=
  lex_of_scan (by decide : isSpace '\x7b' = false) rfl

@[simp] theorem lex_closeObject (cs : List Char) : lex ('\x7d' :: cs) = .closeObject :: lex cs :=
  lex_of_scan (by decide : isSpace '\x7d' = false) rfl

@[simp] theorem lex_colon (cs : List Char) : lex (':' :: cs) = .colon :: lex cs :=
  lex_of_scan (by decide : isSpace ':' = false) rfl

@[simp] theorem lex_comma (cs : List Char) : lex (',' :: cs) = .comma :: lex cs :=
  lex_of_scan (by decide : isSpace ',' = false) rfl

/-- A quoted string gives the lexeme of the string. -/
theorem lex_quote (s rest : List Char) :
    lex (quote s ++ rest) = .atom (.text (String.ofList s)) :: lex rest := by
  have hcut : quote s ++ rest = '"' :: (s.flatMap escape ++ '"' :: rest) := by
    simp [quote]
  have hscan : scan '"' (s.flatMap escape ++ '"' :: rest) =
      .ok (.atom (.text (String.ofList s)), (s.flatMap escape).length + 1) := by
    unfold scan
    simp only [readQuoted_quote, ok_bind]
  rw [hcut, lex_of_scan (by decide) hscan, List.drop_length_add_append, List.drop_one,
    List.tail_cons]

theorem isSpace_of_numberStart {c : Char} (hc : c = '-' ∨ c.isDigit = true) :
    isSpace c = false := by
  rcases hc with rfl | hdigit
  · decide
  · rw [Bool.eq_false_iff]
    intro hspace
    simp only [isSpace, Bool.or_eq_true, beq_iff_eq] at hspace
    rcases hspace with ((rfl | rfl) | rfl) | rfl <;> exact absurd hdigit (by decide)

theorem scan_numberStart {c : Char} {cs : List Char} {n : Numeral}
    (hc : c = '-' ∨ c.isDigit = true) (h : readNumeral (c :: cs) = .ok (n, rest)) :
    scan c cs = .ok (.atom (.numeral n), cs.length - rest.length) := by
  unfold scan
  split
  all_goals first
    | exact absurd hc (by decide)
    | rw [if_pos hc, h, ok_bind]

/-- The numeral of an integer gives the lexeme of the integer. -/
theorem lex_signedDecimal {n : Int} (hn : n.natAbs < 10 ^ (15 : Nat))
    (h : ∀ c ∈ rest.head?, Number.isNumberChar c = false) :
    lex (Numeral.signedDecimal n ++ rest) = .atom (.numeral (.integer n)) :: lex rest := by
  have hread := readNumeral_signedDecimal hn h
  obtain ⟨c, cs, hcons, hc⟩ : ∃ c cs, Numeral.signedDecimal n = c :: cs ∧
      (c = '-' ∨ c.isDigit = true) := by
    rw [Numeral.signedDecimal]
    split
    · exact ⟨'-', _, rfl, .inl rfl⟩
    · obtain ⟨d, ds, hcons⟩ := List.exists_cons_of_ne_nil (Numeral.digits_ne_nil 10 n.natAbs)
      exact ⟨d, ds, hcons, .inr (Numeral.isDigit_of_mem_decimal (hcons ▸ List.mem_cons_self))⟩
  rw [hcons, List.cons_append] at hread ⊢
  rw [lex_of_scan (isSpace_of_numberStart hc) (scan_numberStart hc hread), List.length_append,
    Nat.add_sub_cancel, List.drop_left]

end Json

end ScopedCss
