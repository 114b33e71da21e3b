/-
# The characters of numbers

The text of a number is never empty and holds nothing but letters, digits, points and signs
(`isNumberChar_of_mem_text`), so where it ends can be told from any other character that follows
it.
-/

import ScopedCss.Number.Layout
import ScopedCss.Proofs.Text.Numeral

namespace ScopedCss

namespace Number

/-- A character that the text of a number may hold. -/
def isNumberChar (c : Char) : Bool :=
  c.isAlphanum || c == '.' || c == '-' || c == '+'

theorem isNumberChar_of_isDigit {c : Char} (h : c.isDigit = true) : isNumberChar c = true := by
  simp [isNumberChar, Char.isAlphanum, h]

theorem isNumberChar_of_mem_decimal {c : Char} {n : Nat} (h : c ∈ Numeral.decimal n) :
    isNumberChar c = true :=
  isNumberChar_of_isDigit (Numeral.isDigit_of_mem_decimal h)

variable {digits : List Char}

theorem isNumberChar_of_mem_plain (hdigits : ∀ c ∈ digits, isNumberChar c = true) (point : Int)
    {c : Char} (h : c ∈ Layout.style.plain digits point) : isNumberChar c = true := by
  have hpoint : isNumberChar '.' = true := by decide
  have hzero : isNumberChar '0' = true := by decide
  unfold Layout.plain at h
  split at h
  · simp only [Layout.style, List.append_nil, List.mem_append] at h
    rcases h with hdigit | hpad
    · exact hdigits c hdigit
    · exact List.eq_of_mem_replicate hpad ▸ hzero
  · split at h
    · rw [List.mem_append, List.mem_cons] at h
      rcases h with hfront | rfl | hback
      · exact hdigits c (List.mem_of_mem_take hfront)
      · exact hpoint
      · exact hdigits c (List.mem_of_mem_drop hback)
    · rw [List.mem_cons, List.mem_cons, List.mem_append] at h
      rcases h with rfl | rfl | hpad | hdigit
      · exact hzero
      · exact hpoint
      · exact List.eq_of_mem_replicate hpad ▸ hzero
      · exact hdigits c hdigit

theorem isNumberChar_of_mem_scientific (hdigits : ∀ c ∈ digits, isNumberChar c = true)
    (magnitude : Int) {c : Char} (h : c ∈ Layout.scientific digits magnitude) :
    isNumberChar c = true := by
  have hpoint : isNumberChar '.' = true := by decide
  have hmark : isNumberChar 'e' = true := by decide
  have hsign : isNumberChar (if magnitude < 0 then '-' else '+') = true := by
    split <;> decide
  unfold Layout.scientific at h
  rw [List.mem_append, List.mem_append, List.mem_cons, List.mem_cons] at h
  rcases h with (hlead | hfraction) | rfl | rfl | hpower
  · exact hdigits c (List.mem_of_mem_take hlead)
  · split at hfraction
    · cases hfraction
    · rename_i rest hne
      rw [List.mem_cons] at hfraction
      rcases hfraction with rfl | hdigit
      · exact hpoint
      · exact hdigits c (List.mem_of_mem_drop hdigit)
  · exact hmark
  · exact hsign
  · exact isNumberChar_of_mem_decimal hpower

/-- The text of a number holds letters, digits, points and signs only. -/
theorem isNumberChar_of_mem_text {n : Number} {c : Char} (h : c ∈ n.text) :
    isNumberChar c = true := by
  have hminus : isNumberChar '-' = true := by decide
  cases n with
  | nan =>
      have hword : ∀ c ∈ ['N', 'a', 'N'], isNumberChar c = true := List.all_eq_true.1 rfl
      exact hword c h
  | infinite negative =>
      have hwords (negative : Bool) :
          (Number.infinite negative).text.all isNumberChar = true := by
        cases negative <;> decide
      exact List.all_eq_true.1 (hwords negative) c h
  | finite x =>
      simp only [text, Layout.finite, List.mem_append] at h
      rcases h with hsign | hbody
      · split at hsign
        · exact List.mem_singleton.1 hsign ▸ hminus
        · cases hsign
      · have hdigits : ∀ c ∈ (x.shortest Layout.style.tie).digits, isNumberChar c = true :=
          fun _ => isNumberChar_of_mem_decimal
        unfold Layout.write at hbody
        split at hbody
        · exact isNumberChar_of_mem_plain hdigits _ hbody
        · exact isNumberChar_of_mem_scientific hdigits _ hbody

theorem plain_ne_nil (hdigits : digits ≠ []) (point : Int) :
    Layout.style.plain digits point ≠ [] := by
  unfold Layout.plain
  split
  · simp [hdigits]
  · split <;> simp

theorem scientific_ne_nil (digits : List Char) (magnitude : Int) :
    Layout.scientific digits magnitude ≠ [] := by
  simp [Layout.scientific]

/-- No number has an empty text. -/
theorem text_ne_nil (n : Number) : n.text ≠ [] := by
  cases n with
  | nan => simp [text]
  | infinite negative => simp [text]
  | finite x =>
      have hbody : Layout.style.write (x.shortest Layout.style.tie).digits
          (x.shortest Layout.style.tie).magnitude ≠ [] := by
        unfold Layout.write
        split
        · exact plain_ne_nil (Numeral.digits_ne_nil 10 _) _
        · exact scientific_ne_nil _ _
      simp [text, Layout.finite, hbody]

end Number

end ScopedCss
