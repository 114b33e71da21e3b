/-
# The splitter selects

Whatever a text holds, the splitter comes to its end and only selects from the text: its rules occur
in it one after the other (`Occurs`).  To split a rule once more gives the rule, provided that the
blanks of the text are all white space of CSS (`splitRules_selects`).

The stretches that `cut` finds begin and end where lexemes do.  So each of them has by itself the
lexemes that it has in its place (`Lexed`), and the machine finds it in them.  Trimming may cut the
last lexeme of a rule with an open block short, and the machine does not notice.
-/

import ScopedCss.Proofs.Css.Trailing
import ScopedCss.Proofs.Css.WellFormed

namespace ScopedCss.Css

/-- The words occur in the text from left to right, and no two of them share a character. -/
inductive Occurs : List (List Char) → List Char → Prop where
  | nil {cs : List Char} : Occurs [] cs
  | cons {gap word cs : List Char} {words : List (List Char)} (hrest : Occurs words cs) :
      Occurs (word :: words) (gap ++ word ++ cs)

section Occurs

variable {words found : List (List Char)} {cs : List Char}

theorem Occurs.append_left (h : Occurs words cs) (front : List Char) :
    Occurs words (front ++ cs) := by
  cases h with
  | nil => exact .nil
  | @cons gap word cs words hrest =>
      rw [← List.append_assoc, ← List.append_assoc]
      exact .cons hrest

theorem Occurs.sublist (h : Occurs found cs) (hsub : words.Sublist found) : Occurs words cs := by
  induction h generalizing words with
  | nil =>
      rw [List.sublist_nil.1 hsub]
      exact .nil
  | @cons gap word cs found hrest ih =>
      cases hsub with
      | cons _ hsub => exact (ih hsub).append_left _
      | cons_cons _ hsub => exact .cons (ih hsub)

theorem Occurs.cons_front (word : List Char) (h : Occurs words cs) :
    Occurs (word :: words) (word ++ cs) :=
  @Occurs.cons [] word cs words h

/-- Parts of words that occur in a text occur in the text as well. -/
theorem Occurs.map {f : List Char → List Char} (hf : ∀ word, f word <:+: word)
    (h : Occurs words cs) : Occurs (words.map f) cs := by
  induction h with
  | nil => exact .nil
  | @cons gap word cs words hrest ih =>
      obtain ⟨front, back, hword⟩ := hf word
      have htext : gap ++ word ++ cs = gap ++ front ++ f word ++ (back ++ cs) := by
        conv_lhs => rw [← hword]
        simp only [List.append_assoc]
      rw [List.map_cons, htext]
      exact .cons (ih.append_left back)

theorem Occurs.isInfix {word : List Char} (h : Occurs words cs) (hword : word ∈ words) :
    word <:+: cs := by
  induction h with
  | nil => cases hword
  | @cons gap word' cs words hrest ih =>
      rcases List.mem_cons.1 hword with rfl | hword
      · exact ⟨gap, cs, rfl⟩
      · exact (ih hword).trans (List.suffix_append _ _).isInfix

end Occurs

/-- The stretches that the machine finds occur in the text that it reads. -/
theorem occurs_cut (pending : List Char) (nest : List Bracket) (xs : List Lexeme) :
    Occurs (cut pending nest xs) (pending ++ xs.flatMap Lexeme.text) := by
  induction xs generalizing pending nest with
  | nil =>
      change Occurs (if nest.getLast? = some .curly then [pending] else []) (pending ++ [])
      split
      · exact Occurs.nil.cons_front pending
      · exact .nil
  | cons x xs ih =>
      rw [List.flatMap_cons, ← List.append_assoc]
      rcases step pending nest x with h | ⟨nest', -, h⟩ | ⟨-, h⟩
      · rw [h]
        exact (ih [] []).append_left _
      · rw [h]
        exact ih _ nest'
      · rw [h]
        exact (ih [] []).cons_front _

/-- What the machine does with the front of a text does not depend on the rest, and it does not
hold more than it has read. -/
theorem exists_cut_append (pending : List Char) (nest : List Bracket) (xs : List Lexeme) :
    ∃ done pending' nest', (∀ zs, cut pending nest (xs ++ zs) = done ++ cut pending' nest' zs) ∧
      done.flatten.length + pending'.length ≤
        pending.length + (xs.flatMap Lexeme.text).length := by
  induction xs generalizing pending nest with
  | nil => exact ⟨[], pending, nest, fun _ => rfl, by simp⟩
  | cons x xs ih =>
      rcases step pending nest x with h | ⟨nest', -, h⟩ | ⟨-, h⟩
      · obtain ⟨done, pending', nest'', hcut, hlength⟩ := ih [] []
        refine ⟨done, pending', nest'', fun zs => by rw [List.cons_append, h, hcut], ?_⟩
        simp only [List.flatMap_cons, List.length_append, List.length_nil] at hlength ⊢
        omega
      · obtain ⟨done, pending', nest'', hcut, hlength⟩ := ih (pending ++ x.text) nest'
        refine ⟨done, pending', nest'', fun zs => by rw [List.cons_append, h, hcut], ?_⟩
        simp only [List.flatMap_cons, List.length_append] at hlength ⊢
        omega
      · obtain ⟨done, pending', nest'', hcut, hlength⟩ := ih [] []
        refine ⟨(pending ++ x.text) :: done, pending', nest'', fun zs => ?_, ?_⟩
        · rw [List.cons_append, h, hcut, List.cons_append]
        · simp only [List.flatMap_cons, List.flatten_cons, List.length_append,
            List.length_nil] at hlength ⊢
          omega

/-- The lexemes are those of their own text. -/
def Lexed (xs : List Lexeme) : Prop :=
  lex (xs.flatMap Lexeme.text) = xs

theorem lexed_lex (cs : List Char) : Lexed (lex cs) := by
  rw [Lexed, flatMap_text_lex]

theorem Lexed.exists_scan {x : Lexeme} {xs : List Lexeme} (h : Lexed (x :: xs)) :
    ∃ c front, scan c (front ++ xs.flatMap Lexeme.text) = (x.kind, 1 + front.length) ∧
      x.text = c :: front ∧ Lexed xs := by
  unfold Lexed at *
  cases htext : (x :: xs).flatMap Lexeme.text with
  | nil =>
      rw [htext, lex_nil] at h
      cases h
  | cons c cs =>
      rw [htext, lex_cons] at h
      obtain ⟨hx, hxs⟩ := List.cons.inj h
      have hrest : xs.flatMap Lexeme.text = cs.drop ((scan c cs).2 - 1) := by
        rw [← hxs, flatMap_text_lex]
      have hpos := scan_pos c cs
      have hle := scan_le c cs
      rw [List.length_cons] at hle
      refine ⟨c, cs.take ((scan c cs).2 - 1), ?_, by rw [← hx], by rw [hrest, hxs]⟩
      rw [hrest, List.take_append_drop, List.length_take, Nat.min_eq_left (by omega), ← hx]
      exact Prod.ext rfl (by simp only; omega)

theorem lexed_cons {c : Char} {front : List Char} {k : Kind} {xs : List Lexeme}
    (hscan : scan c (front ++ xs.flatMap Lexeme.text) = (k, 1 + front.length)) (hxs : Lexed xs) :
    Lexed (⟨k, c :: front⟩ :: xs) := by
  have htext : (⟨k, c :: front⟩ :: xs : List Lexeme).flatMap Lexeme.text =
      c :: (front ++ xs.flatMap Lexeme.text) := rfl
  rw [Lexed, htext, lex_cons, hscan, Nat.add_sub_cancel_left, List.take_left' rfl,
    List.drop_left' rfl, hxs]

theorem Lexed.of_append {xs ys : List Lexeme} (h : Lexed (xs ++ ys)) : Lexed ys := by
  induction xs with
  | nil => exact h
  | cons x xs ih =>
      obtain ⟨-, -, -, -, hrest⟩ := Lexed.exists_scan h
      exact ih hrest

theorem Lexed.text_closer {x : Lexeme} {xs : List Lexeme} (h : Lexed (x :: xs))
    (hx : x.kind = .closing .curly) : x.text = ['\x7d'] := by
  obtain ⟨c, front, hscan, htext, -⟩ := h.exists_scan
  have hbrace : c = '\x7d' := eq_closer_of_scan (by rw [hscan, hx])
  rw [hbrace, scan_brace] at hscan
  have hfront : front = [] := List.length_eq_zero_iff.1 (Nat.add_left_cancel
    (congrArg Prod.snd hscan)).symm
  rw [htext, hbrace, hfront]

/-- Lexemes up to a closing brace stay the same without what follows the brace. -/
theorem Lexed.of_closer {xs ys : List Lexeme} {x : Lexeme} (h : Lexed (xs ++ x :: ys))
    (hx : x.kind = .closing .curly) : Lexed (xs ++ [x]) := by
  have hbrace : x.text = ['\x7d'] := (Lexed.of_append h).text_closer hx
  induction xs with
  | nil =>
      obtain ⟨k, text⟩ := x
      obtain rfl : k = .closing .curly := hx
      obtain rfl : text = ['\x7d'] := hbrace
      exact lexed_cons (scan_brace []) lex_nil
  | cons z xs ih =>
      obtain ⟨c, front, hscan, htext, hrest⟩ := Lexed.exists_scan h
      obtain ⟨k, text⟩ := z
      obtain rfl : text = c :: front := htext
      have hsplit (rest : List Lexeme) : front ++ (xs ++ x :: rest).flatMap Lexeme.text =
          front ++ xs.flatMap Lexeme.text ++ '\x7d' :: rest.flatMap Lexeme.text := by
        simp [hbrace]
      refine lexed_cons ?_ (ih hrest)
      change scan c (front ++ (xs ++ x :: ys).flatMap Lexeme.text) = _ at hscan
      change scan c (front ++ (xs ++ [x]).flatMap Lexeme.text) = _
      rw [hsplit] at hscan ⊢
      refine (scan_congr c _ ?_).trans hscan
      rw [hscan, List.length_append]
      omega

/-- A text that is the only stretch in itself and does not begin with white space. -/
structure Alone (piece : List Char) : Prop where
  cut : cut [] [] (lex piece) = [piece]
  first : ∀ c ∈ piece.head?, isSpace c = false

/-- The machine has read these lexemes, has kept all of them, and has not found a rule yet. -/
structure Holds (pending : List Char) (nest : List Bracket) (ys : List Lexeme) : Prop where
  text : ys.flatMap Lexeme.text = pending
  reads : ∀ zs, Css.cut [] [] (ys ++ zs) = Css.cut pending nest zs
  fresh : ys = [] → nest = []
  first : ∀ y ∈ ys.head?, y.kind ≠ .blank

section Holds

variable {pending : List Char} {nest nest' : List Bracket} {ys : List Lexeme} {x : Lexeme}

theorem holds_nil : Holds [] [] [] :=
  ⟨rfl, fun _ => rfl, fun _ => rfl, nofun⟩

theorem Holds.first_concat (h : Holds pending nest ys)
    (hfirst : pending = [] → nest = [] → x.kind ≠ .blank) :
    ∀ y ∈ (ys ++ [x]).head?, y.kind ≠ .blank := by
  intro y hy
  cases ys with
  | nil =>
      obtain rfl := Option.some.inj hy
      exact hfirst h.text.symm (h.fresh rfl)
  | cons z ys => exact h.first y hy

/-- Whoever keeps a lexeme holds one more. -/
theorem Holds.concat (h : Holds pending nest ys)
    (hfirst : pending = [] → nest = [] → x.kind ≠ .blank)
    (hkept : ∀ xs, cut pending nest (x :: xs) = cut (pending ++ x.text) nest' xs) :
    Holds (pending ++ x.text) nest' (ys ++ [x]) where
  text := by rw [List.flatMap_append, h.text, List.flatMap_singleton]
  reads zs := by rw [List.append_assoc, List.singleton_append, h.reads, hkept]
  fresh hnil := absurd hnil (List.append_ne_nil_of_right_ne_nil ys (List.cons_ne_nil x []))
  first := h.first_concat hfirst

end Holds

theorem alone_of_lexed {ys : List Lexeme} {piece : List Char} (h : Lexed ys)
    (htext : ys.flatMap Lexeme.text = piece) (hcut : cut [] [] ys = [piece])
    (hfirst : ∀ y ∈ ys.head?, y.kind ≠ .blank) : Alone piece := by
  subst htext
  refine ⟨by rw [h, hcut], fun c hc => ?_⟩
  cases ys with
  | nil => cases hc
  | cons y ys =>
      obtain ⟨d, front, hscan, htext, -⟩ := h.exists_scan
      rw [List.flatMap_cons, htext] at hc
      obtain rfl := Option.some.inj hc
      refine Bool.eq_false_iff.2 fun hspace => hfirst y rfl ?_
      rw [scan, if_pos hspace] at hscan
      exact (congrArg Prod.fst hscan).symm

/-- Each stretch of a text is the only one in itself. -/
theorem alone_of_mem_cut {pending piece : List Char} {nest : List Bracket} {ys xs : List Lexeme}
    (h : Holds pending nest ys) (hlexed : Lexed (ys ++ xs))
    (hpiece : piece ∈ cut pending nest xs) : Alone piece := by
  induction xs generalizing pending nest ys with
  | nil =>
      have hreads := h.reads []
      rw [List.append_nil] at hreads hlexed
      change piece ∈ if nest.getLast? = some .curly then [pending] else [] at hpiece
      change _ = if nest.getLast? = some .curly then [pending] else [] at hreads
      split at hpiece
      · next hopen =>
        obtain rfl := List.mem_singleton.1 hpiece
        rw [if_pos hopen] at hreads
        exact alone_of_lexed hlexed h.text hreads h.first
      · cases hpiece
  | cons x xs ih =>
      have hrest : Lexed ([] ++ xs) := by
        have hsplit : Lexed ((ys ++ [x]) ++ xs) := by simpa using hlexed
        exact hsplit.of_append
      rcases step pending nest x with hpassed | ⟨nest', hfirst, hkept⟩ | ⟨hcloses, hended⟩
      · rw [hpassed] at hpiece
        exact ih holds_nil hrest hpiece
      · rw [hkept] at hpiece
        exact ih (h.concat hfirst hkept) (by simpa using hlexed) hpiece
      · rw [hended] at hpiece
        rcases List.mem_cons.1 hpiece with rfl | hpiece
        · refine alone_of_lexed (hlexed.of_closer hcloses) ?_ ?_ (h.first_concat ?_)
          · rw [List.flatMap_append, h.text, List.flatMap_singleton]
          · rw [h.reads, hended]
            rfl
          · simp [hcloses]
        · exact ih holds_nil hrest hpiece

/-! ## White space behind a text -/

section Spaces

variable {t s : List Char}

theorem neutral_lex_spaces (hs : ∀ c ∈ s, isSpace c = true) : Neutral (lex s) := by
  cases s with
  | nil =>
      rw [lex_nil]
      exact neutral_nil
  | cons c cs =>
      have hrun : spaceRun cs = cs.length := by
        rw [spaceRun, List.takeWhile_eq_self_iff.2 fun d hd => hs d (List.mem_cons_of_mem c hd)]
      have hscan : scan c cs = (.blank, 1 + cs.length) := by
        rw [scan, if_pos (hs c List.mem_cons_self), hrun]
      rw [lex_of_length (by rw [hscan, List.length_cons, Nat.add_comm]), hscan]
      exact neutral_singleton rfl

/-- White space behind a text does not change how many stretches there are, but one that the text
leaves open ends with it. -/
theorem cut_append_spaces (t : List Char) (hs : ∀ c ∈ s, isSpace c = true) :
    ∃ (done : List (List Char)) (pending : List Char) (nest : List Bracket)
      (front back back' : List Char), front ++ back = t ∧ front ++ back' = t ++ s ∧
      done.flatten.length + pending.length ≤ front.length ∧
      cut [] [] (lex t) =
        done ++ (if nest.getLast? = some .curly then [pending ++ back] else []) ∧
      cut [] [] (lex (t ++ s)) =
        done ++ (if nest.getLast? = some .curly then [pending ++ back'] else []) := by
  obtain ⟨k, xs, ys, zs, hys, hzs, hlex, hlex'⟩ :=
    exists_trails t fun c hc => by rw [isStop, hs c hc, Bool.true_or]
  obtain ⟨done, pending, nest, hcut, hlength⟩ := exists_cut_append [] [] xs
  have hspaces : Neutral (zs ++ lex (s.drop k)) := List.forall_mem_append.2
    ⟨hzs, neutral_lex_spaces fun c hc => hs c (List.mem_of_mem_drop hc)⟩
  refine ⟨done, pending, nest, xs.flatMap Lexeme.text, ys.flatMap Lexeme.text,
    (zs ++ lex (s.drop k)).flatMap Lexeme.text, ?_, ?_, by simpa using hlength, ?_, ?_⟩
  · rw [← List.flatMap_append, ← hlex, flatMap_text_lex]
  · rw [← List.flatMap_append, ← List.append_assoc, ← hlex', flatMap_text_lex]
  · rw [hlex, hcut, cut_neutrals hys]
  · rw [hlex', List.append_assoc, hcut, cut_neutrals hspaces]

/-- A text without stretches has none without the white space behind it. -/
theorem cut_eq_nil_of_append (hs : ∀ c ∈ s, isSpace c = true)
    (hcut : cut [] [] (lex (t ++ s)) = []) : cut [] [] (lex t) = [] := by
  obtain ⟨done, pending, nest, front, back, back', -, -, -, hshort, hlong⟩ := cut_append_spaces t hs
  rw [hlong, List.append_eq_nil_iff] at hcut
  obtain ⟨rfl, hclosed⟩ := hcut
  rw [hshort]
  split at hclosed
  · cases hclosed
  · next hopen => rw [if_neg hopen, List.nil_append]

/-- A text that is its only stretch is so without the white space behind it. -/
theorem cut_eq_self_of_append (hs : ∀ c ∈ s, isSpace c = true)
    (hcut : cut [] [] (lex (t ++ s)) = [t ++ s]) : cut [] [] (lex t) = [t] := by
  obtain ⟨done, pending, nest, front, back, back', hback, hback', hlength, hshort, hlong⟩ :=
    cut_append_spaces t hs
  rw [hlong] at hcut
  split at hcut
  · next hopen =>
    -- The stretch is open, so all of the text is pending at its end.
    obtain ⟨rfl, hall⟩ : done = [] ∧ pending ++ back' = t ++ s := by
      cases done with
      | nil => exact ⟨rfl, List.singleton_inj.1 hcut⟩
      | cons piece done => simp at hcut
    have hpending : pending = front := List.append_cancel_right (hall.trans hback'.symm)
    rw [hshort, if_pos hopen, hpending, hback, List.nil_append]
  · next hclosed =>
    -- The stretch is over before the white space, so there is no white space.
    rw [List.append_nil] at hcut
    have hnil : s = [] := by
      have hfront := congrArg List.length hback
      rw [hcut, List.flatten_singleton, List.length_append] at hlength
      rw [List.length_append] at hfront
      exact List.length_eq_zero_iff.1 (by omega)
    rw [hshort, if_neg hclosed, List.append_nil, hcut, hnil, List.append_nil]

end Spaces

theorem occurs_cut_lex (css : List Char) : Occurs (cut [] [] (lex css)) css := by
  have hcut := occurs_cut [] [] (lex css)
  rwa [List.nil_append, flatMap_text_lex] at hcut

theorem occurs_rules (css : List Char) : Occurs (rules css) css := by
  have hcandidates : Occurs (candidates css) css := by
    rw [candidates]
    split
    · split
      · exact .nil
      · obtain ⟨front, back, htext⟩ := Text.trim_isInfix css
        conv_rhs => rw [← htext]
        exact .cons .nil
    · exact (occurs_cut_lex css).map Text.trim_isInfix
  exact hcandidates.sublist List.filter_sublist

/-- Every blank of the text is white space of CSS, so trimming takes away nothing that the lexer
would take for a name. -/
def CssBlanks (cs : List Char) : Prop :=
  ∀ c ∈ cs, Text.isBlank c = true → isSpace c = true

instance (cs : List Char) : Decidable (CssBlanks cs) :=
  decidable_of_iff (cs.all (fun c => !Text.isBlank c || isSpace c) = true) (by
    simp [CssBlanks, or_iff_not_imp_left])

section CssBlanks

variable {css piece : List Char}

theorem CssBlanks.of_isInfix (h : CssBlanks css) (hpiece : piece <:+: css) : CssBlanks piece :=
  fun c hc => h c (hpiece.mem hc)

/-- What trimming at the back takes away is white space of CSS. -/
theorem CssBlanks.exists_trimEnd_append (h : CssBlanks css) :
    ∃ s, (∀ c ∈ s, isSpace c = true) ∧ Text.trimEnd css ++ s = css := by
  obtain ⟨s, hs, htext⟩ := Text.exists_trimEnd_append css
  refine ⟨s, fun c hc => h c ?_ (hs c hc), htext⟩
  rw [← htext]
  exact List.mem_append_right _ hc

theorem separator_of_spaces {s : List Char} (hs : ∀ c ∈ s, isSpace c = true) : Separator s := by
  induction s with
  | nil => exact .nil
  | cons c s ih =>
      obtain ⟨hc, hrest⟩ := List.forall_mem_cons.1 hs
      exact .space hc (ih hrest)

theorem CssBlanks.cut_trimStart (h : CssBlanks css) :
    cut [] [] (lex (Text.trimStart css)) = cut [] [] (lex css) := by
  have hspaces : ∀ c ∈ css.takeWhile Text.isBlank, isSpace c = true := fun c hc =>
    h c ((List.takeWhile_prefix _).mem hc) (List.all_eq_true.1 List.all_takeWhile c hc)
  rw [Text.trimStart, ← cut_separator (separator_of_spaces hspaces),
    List.takeWhile_append_dropWhile]

/-- A text without stretches has none when it is trimmed. -/
theorem CssBlanks.cut_trim_eq_nil (h : CssBlanks css) (hcut : cut [] [] (lex css) = []) :
    cut [] [] (lex (Text.trim css)) = [] := by
  have hfront : CssBlanks (Text.trimStart css) :=
    h.of_isInfix (List.dropWhile_suffix Text.isBlank).isInfix
  obtain ⟨s, hs, htext⟩ := hfront.exists_trimEnd_append
  rw [← h.cut_trimStart, ← htext] at hcut
  exact cut_eq_nil_of_append hs hcut

/-- A text that is its only stretch is so when it is trimmed. -/
theorem Alone.cut_trim (halone : Alone piece) (h : CssBlanks piece) :
    Css.cut [] [] (lex (Text.trim piece)) = [Text.trim piece] := by
  have hfirst : ∀ c ∈ piece.head?, Text.isBlank c = false := by
    intro c hc
    refine Bool.eq_false_iff.2 fun hblank => ?_
    have hspace := h c (List.mem_of_mem_head? hc) hblank
    rw [halone.first c hc] at hspace
    cases hspace
  obtain ⟨s, hs, htext⟩ := h.exists_trimEnd_append
  rw [Text.trim, Text.trimStart_eq_self hfirst]
  exact cut_eq_self_of_append hs (by rw [htext, halone.cut])

end CssBlanks

/-- A trimmed text that is its only stretch or has none is its only candidate. -/
theorem candidates_eq_singleton {rule : List Char}
    (hcut : cut [] [] (lex rule) = [] ∨ cut [] [] (lex rule) = [rule])
    (htrim : Text.trim rule = rule) (hne : rule ≠ []) : candidates rule = [rule] := by
  rw [candidates]
  rcases hcut with hcut | hcut
  · simp only [hcut, htrim, if_neg hne]
  · simp only [hcut, List.map_singleton, htrim]

theorem candidates_of_mem_candidates {css rule : List Char} (h : CssBlanks css)
    (hrule : rule ∈ candidates css) (hne : rule ≠ []) : candidates rule = [rule] := by
  rw [candidates] at hrule
  split at hrule
  · next hcut =>
    split at hrule
    · cases hrule
    · obtain rfl := List.mem_singleton.1 hrule
      exact candidates_eq_singleton (Or.inl (h.cut_trim_eq_nil hcut)) (Text.trim_trim css) hne
  · obtain ⟨piece, hpiece, rfl⟩ := List.mem_map.1 hrule
    have halone : Alone piece := alone_of_mem_cut holds_nil (lexed_lex css) hpiece
    have hblanks : CssBlanks piece := h.of_isInfix ((occurs_cut_lex css).isInfix hpiece)
    exact candidates_eq_singleton (Or.inr (halone.cut_trim hblanks)) (Text.trim_trim piece) hne

theorem rules_of_mem_rules {css rule : List Char} (hblanks : CssBlanks css)
    (hrule : rule ∈ rules css) : rules rule = [rule] := by
  obtain ⟨hcandidate, htext⟩ := List.mem_filter.1 hrule
  have hne : rule ≠ [] := by
    rintro rfl
    cases htext
  rw [rules, candidates_of_mem_candidates hblanks hcandidate hne, List.filter_singleton, htext]
  rfl

theorem length_lex_le (cs : List Char) : (lex cs).length ≤ cs.length := by
  fun_induction lex cs with
  | case1 => exact Nat.le_refl 0
  | case2 c cs found ih =>
      rw [List.length_drop] at ih
      rw [List.length_cons, List.length_cons]
      omega

/-- The splitter selects from any text: it comes to its end, since every lexeme takes a character
and none takes more than there is; its rules occur in the text one after the other, and each is long
enough and holds both braces.  Without foreign blanks it is stable: a rule split once more is
itself. -/
theorem splitRules_selects (css : String) :
    (∀ c cs, 0 < (scan c cs).2 ∧ (scan c cs).2 ≤ (c :: cs).length) ∧
      (lex css.toList).length ≤ css.toList.length ∧
      Occurs ((splitRules css).map String.toList) css.toList ∧
      (∀ rule ∈ splitRules css, 3 < Text.byteLength rule.toList ∧
        '\x7b' ∈ rule.toList ∧ '\x7d' ∈ rule.toList) ∧
      (CssBlanks css.toList → ∀ rule ∈ splitRules css, splitRules rule = [rule]) := by
  refine ⟨fun c cs => ⟨scan_pos c cs, scan_le c cs⟩, length_lex_le css.toList, ?_, ?_, ?_⟩
  · have hlists : (splitRules css).map String.toList = rules css.toList := by
      simp [splitRules, Function.comp_def]
    rw [hlists]
    exact occurs_rules css.toList
  · intro rule hrule
    obtain ⟨cs, hcs, rfl⟩ := List.mem_map.1 hrule
    have htext := (List.mem_filter.1 hcs).2
    simpa [isRuleText, and_assoc] using htext
  · intro hblanks rule hrule
    obtain ⟨cs, hcs, rfl⟩ := List.mem_map.1 hrule
    rw [splitRules, String.toList_ofList, rules_of_mem_rules hblanks hcs]
    rfl

/-- A stray brace, a rule, and a rule that the text leaves open in a string, with white space behind
it. -/
theorem splitRules_selects_open :
    let css := "x \x7d a\x7bb\x7d\nc\x7bd\x7be\x7d\" \t"
    splitRules css = ["a\x7bb\x7d", "c\x7bd\x7be\x7d\""] ∧
      splitRules "c\x7bd\x7be\x7d\"" = ["c\x7bd\x7be\x7d\""] := by
  intro css
  have hsplit : splitRules css = ["a\x7bb\x7d", "c\x7bd\x7be\x7d\""] := by cbv
  have hblanks : CssBlanks css.toList := by decide
  obtain ⟨-, -, -, -, hstable⟩ := splitRules_selects css
  exact ⟨hsplit, hstable hblanks _ (by simp [hsplit])⟩

end ScopedCss.Css
