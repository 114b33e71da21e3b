/-
# Texts that end with a closing brace

A lexeme that stops in front of the last brace of a text has not seen what stands behind the brace.
So a text that ends with a closing brace of its own has the same lexemes wherever it stands
(`lex_append_of_brace`).
-/

import ScopedCss.Proofs.Css.Overlap

namespace ScopedCss.Css

/-- The lexeme before a brace that it does not take is the same whatever follows the brace. -/
theorem scan_congr {t r : List Char} (c : Char) (r' : List Char)
    (hle : (scan c (t ++ '\x7d' :: r)).2 ≤ 1 + t.length) :
    scan c (t ++ '\x7d' :: r') = scan c (t ++ '\x7d' :: r) := by
  have hlast : (t ++ ['\x7d']).getLast? = some '\x7d' := List.getLast?_concat
  have hoverlap (s : List Char) :
      Overlap (c :: (t ++ ['\x7d'])) s (scan c (t ++ ['\x7d'])) (scan c (t ++ '\x7d' :: s)) := by
    have h := scan_overlap (c := c) (r := s) (Or.inr hlast)
    rwa [List.append_assoc, List.singleton_append] at h
  have hagrees (s : List Char) : Agrees (c :: (t ++ ['\x7d'])).length
      (scan c (t ++ ['\x7d'])).2 (scan c (t ++ '\x7d' :: s)).2 := by
    refine (hoverlap s).length.resolve_right fun hedge => ?_
    rw [Edge, List.getLast?_cons, hlast] at hedge
    cases hedge.1.1
  have hshort : (scan c (t ++ ['\x7d'])).2 < (c :: (t ++ ['\x7d'])).length := by
    rcases hagrees r with ⟨hlt, -⟩ | ⟨-, hall⟩
    · exact hlt
    · rw [List.length_cons, List.length_append, List.length_singleton] at hall
      omega
  have hsame (s : List Char) : scan c (t ++ '\x7d' :: s) = scan c (t ++ ['\x7d']) := by
    refine Prod.ext ((hoverlap s).kind (Or.inl hshort)) ?_
    rcases hagrees s with ⟨-, heq⟩ | ⟨hall, -⟩
    · exact heq
    · exact absurd hall (Nat.ne_of_lt hshort)
  rw [hsame r', hsame r]

theorem lex_ne_nil {cs : List Char} (hne : cs ≠ []) : lex cs ≠ [] := by
  intro hnil
  have htext := flatMap_text_lex cs
  rw [hnil] at htext
  exact hne htext.symm

/-- A text whose last lexeme is the brace it ends with has the same lexemes before any other
text. -/
theorem lex_append_of_brace {t : List Char} (r : List Char)
    (hlast : (lex (t ++ ['\x7d'])).getLast?.map Lexeme.kind = some (.closing .curly)) :
    lex (t ++ '\x7d' :: r) = lex (t ++ ['\x7d']) ++ lex r := by
  induction hn : t.length using Nat.strongRecOn generalizing t with
  | ind n ih =>
      cases t with
      | nil => simp [lex_cons, scan_brace, lex_nil]
      | cons c t =>
          rw [List.cons_append, lex_cons] at hlast
          rw [List.cons_append, List.cons_append, lex_cons, lex_cons c (t ++ ['\x7d'])]
          by_cases hle : (scan c (t ++ ['\x7d'])).2 ≤ 1 + t.length
          · have hshort : (scan c (t ++ ['\x7d'])).2 - 1 ≤ t.length := by omega
            rw [List.drop_append_of_le_length hshort] at hlast
            rw [scan_congr c r hle, List.take_append_of_le_length hshort,
              List.take_append_of_le_length hshort, List.drop_append_of_le_length hshort,
              List.drop_append_of_le_length hshort, ih _ _ _ rfl, List.cons_append]
            · rw [List.length_drop, ← hn, List.length_cons]
              omega
            · rwa [List.getLast?_cons_of_ne_nil] at hlast
              exact lex_ne_nil (List.append_ne_nil_of_right_ne_nil _ (List.cons_ne_nil _ _))
          · have hnil : (t ++ ['\x7d']).drop ((scan c (t ++ ['\x7d'])).2 - 1) = [] := by
              rw [List.drop_eq_nil_iff, List.length_append, List.length_singleton]
              omega
            rw [hnil, lex_nil] at hlast
            have hbrace := eq_closer_of_scan (Option.some.inj hlast)
            subst hbrace
            rw [scan_brace] at hle
            omega

end ScopedCss.Css
