/-
# Stops behind a text

The lexemes of a text stay when stops are put behind it, but for a last one that is no bracket and
that the stops may change (`exists_trails`).  For the cuts it makes no difference: lexemes that
are no brackets neither open nor end a rule (`cut_neutrals`).
-/

import ScopedCss.Proofs.Css.Grammar

namespace ScopedCss.Css

variable {t r : List Char}

theorem nameLength_pos (h : startsName t = true) : 0 < nameLength 0 t := by
  cases t with
  | nil => cases h
  | cons c cs =>
      have hstep (n : Nat) : 0 < 1 + n := Nat.lt_add_right n Nat.one_pos
      rw [nameLength_cons_zero]
      by_cases hbackslash : c = '\\'
      · subst hbackslash
        have hnewline : startsNewline cs = false := by simpa [startsName] using h
        rw [if_neg (by decide), if_pos ⟨rfl, hnewline⟩]
        exact hstep _
      · have hname : isNameChar c = true := by
          by_cases hhyphen : c = '-'
          · rw [hhyphen]
            decide
          · rw [startsName_cons hbackslash hhyphen] at h
            simp [isNameChar, h]
        rw [if_pos hname]
        exact hstep _

theorem digitRun_pos (h : startsDigit t = true) : 0 < digitRun t := by
  cases t with
  | nil => cases h
  | cons c cs =>
      have hdigit : c.isDigit = true := h
      rw [digitRun, List.takeWhile_cons_of_pos hdigit, List.length_cons]
      exact Nat.succ_pos _

theorem numeralLength_pos (h : startsUnsigned t = true ∨ t.head? = some '+' ∨ t.head? = some '-') :
    0 < numeralLength t := by
  simp only [numeralLength]
  split
  · omega
  · omega
  · next hplus hminus =>
    have hunsigned : startsUnsigned t = true := by
      rcases h with h | h | h
      · exact h
      · obtain ⟨u, rfl⟩ := List.head?_eq_some_iff.1 h
        exact absurd rfl (hplus u)
      · obtain ⟨u, rfl⟩ := List.head?_eq_some_iff.1 h
        exact absurd rfl (hminus u)
    simp only [List.drop_zero, Nat.zero_add]
    cases hrun : digitRun t with
    | succ n => omega
    | zero =>
        -- Without a digit at the front there is a point, and a digit behind it.
        rw [startsUnsigned.eq_def] at hunsigned
        split at hunsigned
        · next cs =>
          have hfraction : fractionLength ('.' :: cs) = 1 + digitRun cs := if_pos hunsigned
          rw [List.drop_zero, hfraction]
          omega
        · exact absurd hrun (Nat.ne_of_gt (digitRun_pos hunsigned))

/-- The lexer always goes on: a lexeme takes at least one character. -/
theorem scan_pos (c : Char) (cs : List Char) : 0 < (scan c cs).2 := by
  have hscanned := scanned c cs
  generalize scan c cs = found at hscanned
  cases hscanned with
  | number hbracket hnumber =>
      rw [numericLength_eq]
      refine Nat.lt_add_right _ (numeralLength_pos (hnumber.imp_right fun h => ?_))
      simpa using h.1
  | name hname => exact Nat.lt_of_lt_of_le (nameLength_pos hname) (nameLength_le_scanName _)
  | opening | closing | dashes | arrow | other => simp
  | space | string | comment | marked => simp only; omega

/-- A lexeme takes no more than there is. -/
theorem scan_le (c : Char) (cs : List Char) : (scan c cs).2 ≤ (c :: cs).length := by
  have hbounded : Bounded cs [] := Or.inl nofun
  exact (scan_overlap (c := c) hbounded).length.le

theorem lex_of_length {c : Char} {cs : List Char} (hall : (scan c cs).2 = (c :: cs).length) :
    lex (c :: cs) = [⟨(scan c cs).1, c :: cs⟩] := by
  have hlength : (scan c cs).2 - 1 = cs.length := by
    rw [hall, List.length_cons, Nat.add_sub_cancel]
  rw [lex_cons, hlength, List.take_length, List.drop_length, lex_nil]

/-- Lexemes that leave the stack of open brackets alone. -/
def Neutral (xs : List Lexeme) : Prop :=
  ∀ x ∈ xs, x.kind.isBracket = false

theorem neutral_nil : Neutral [] :=
  nofun

theorem neutral_singleton {x : Lexeme} (hx : x.kind.isBracket = false) : Neutral [x] :=
  List.forall_mem_singleton.2 hx

theorem Neutral.cons {x : Lexeme} {xs : List Lexeme} (hx : x.kind.isBracket = false)
    (hxs : Neutral xs) : Neutral (x :: xs) :=
  List.forall_mem_cons.2 ⟨hx, hxs⟩

theorem not_opens_of_isBracket {x : Lexeme} (hx : x.kind.isBracket = false) : ¬x.opens := by
  rintro ⟨b, hb⟩
  rw [hb] at hx
  cases hx

theorem ne_closing_of_isBracket {x : Lexeme} (hx : x.kind.isBracket = false) (b : Bracket) :
    x.kind ≠ .closing b := by
  intro hb
  rw [hb] at hx
  cases hx

theorem Neutral.inside {xs : List Lexeme} (h : Neutral xs) (b : Bracket) : Inside b xs := by
  induction xs with
  | nil => exact .nil
  | cons x xs ih =>
      have hx := h x List.mem_cons_self
      exact .leaf (not_opens_of_isBracket hx) (ne_closing_of_isBracket hx b)
        (ih fun y hy => h y (List.mem_cons_of_mem x hy))

theorem cut_neutrals_outer {xs : List Lexeme} (h : Neutral xs) (pending : List Char) :
    cut pending [] xs = [] := by
  induction xs generalizing pending with
  | nil => rfl
  | cons x xs ih =>
      have hx := h x List.mem_cons_self
      have hrest : Neutral xs := fun y hy => h y (List.mem_cons_of_mem x hy)
      cases hkind : x.kind with
      | opening b => exact absurd ⟨b, hkind⟩ (not_opens_of_isBracket hx)
      | closing b => exact absurd hkind (ne_closing_of_isBracket hx b)
      | blank | comment | plain =>
          simp only [cut, hkind]
          exact ih hrest _

/-- At the end of a text lexemes that are no brackets end no rule; they belong to an open one. -/
theorem cut_neutrals {xs : List Lexeme} (h : Neutral xs) (pending : List Char)
    (nest : List Bracket) :
    cut pending nest xs =
      if nest.getLast? = some .curly then [pending ++ xs.flatMap Lexeme.text] else [] := by
  cases nest with
  | nil => exact cut_neutrals_outer h pending
  | cons b outer =>
      rw [← List.append_nil xs, cut_inside (h.inside b), List.append_nil]
      rfl

/-- A backslash in front of a newline is a lexeme by itself. -/
theorem lex_backslash (hnewline : startsNewline r = true) :
    lex ('\\' :: r) = ⟨.plain, ['\\']⟩ :: lex r := by
  have hstarts : startsName ('\\' :: r) = false := congrArg not hnewline
  have hscan : scan '\\' r = (.plain, 1) := by
    simp [scan, isSpace, isNewline, hstarts, startsUnsigned, startsDigit]
  rw [lex_cons, hscan]
  rfl

/-- The lexemes of a text are found again with more text behind it, but for a last one that is no
bracket and that is found in another form.  It takes `k` characters of what stands behind along. -/
def Trails (t r : List Char) (k : Nat) : Prop :=
  ∃ xs ys zs, Neutral ys ∧ Neutral zs ∧ lex t = xs ++ ys ∧
    lex (t ++ r) = xs ++ zs ++ lex (r.drop k)

theorem trails_nil : Trails [] r 0 :=
  ⟨[], [], [], neutral_nil, neutral_nil, lex_nil, rfl⟩

section Lexeme

variable {c : Char} {cs : List Char}

/-- A lexeme that ends inside of the text is the same. -/
theorem Trails.cons {k : Nat} (h : Trails (cs.drop ((scan c cs).2 - 1)) r k)
    (hlt : (scan c cs).2 < (c :: cs).length) (heq : scan c (cs ++ r) = scan c cs) :
    Trails (c :: cs) r k := by
  obtain ⟨xs, ys, zs, hys, hzs, hlex, hlex'⟩ := h
  have hshort : (scan c cs).2 - 1 ≤ cs.length := by
    rw [List.length_cons] at hlt
    omega
  refine ⟨⟨(scan c cs).1, c :: cs.take ((scan c cs).2 - 1)⟩ :: xs, ys, zs, hys, hzs, ?_, ?_⟩
  · rw [lex_cons, hlex, List.cons_append]
  · rw [List.cons_append, lex_cons, heq, List.take_append_of_le_length hshort,
      List.drop_append_of_le_length hshort, hlex']
    rfl

/-- A bracket at the end of the text is the same. -/
theorem trails_bracket (hall : (scan c cs).2 = (c :: cs).length)
    (heq : scan c (cs ++ r) = scan c cs) : Trails (c :: cs) r 0 := by
  have hlength : (scan c cs).2 - 1 = cs.length := by
    rw [hall, List.length_cons, Nat.add_sub_cancel]
  refine ⟨[⟨(scan c cs).1, c :: cs⟩], [], [], neutral_nil, neutral_nil, lex_of_length hall, ?_⟩
  rw [List.cons_append, lex_cons, heq, hlength, List.take_left' rfl, List.drop_left' rfl]
  rfl

/-- Any other lexeme at the end of the text may take more along. -/
theorem trails_grown (hall : (scan c cs).2 = (c :: cs).length)
    (hle : (c :: cs).length ≤ (scan c (cs ++ r)).2) (hneutral : (scan c cs).1.isBracket = false)
    (hkind : (scan c (cs ++ r)).1 = (scan c cs).1) :
    Trails (c :: cs) r ((scan c (cs ++ r)).2 - (c :: cs).length) := by
  rw [List.length_cons] at *
  have hlong : cs.length ≤ (scan c (cs ++ r)).2 - 1 := by omega
  have hmore : (scan c (cs ++ r)).2 - (cs.length + 1) = (scan c (cs ++ r)).2 - 1 - cs.length := by
    omega
  refine ⟨[], [⟨(scan c cs).1, c :: cs⟩],
    [⟨(scan c (cs ++ r)).1, c :: (cs ++ r).take ((scan c (cs ++ r)).2 - 1)⟩],
    neutral_singleton hneutral, neutral_singleton (by rwa [hkind]), lex_of_length hall, ?_⟩
  rw [List.cons_append, lex_cons, List.drop_append, List.drop_eq_nil_of_le hlong, hmore]
  rfl

/-- A backslash at the end of the text is a lexeme by itself once a newline stands behind it. -/
theorem trails_edge (hedge : Edge (c :: cs) r) (hall : (scan c cs).2 = (c :: cs).length)
    (hshort : (scan c (cs ++ r)).2 + 1 = (c :: cs).length)
    (hneutral : (scan c cs).1.isBracket = false)
    (hkind : (scan c (cs ++ r)).1 = (scan c cs).1) : Trails (c :: cs) r 0 := by
  obtain ⟨hbackslash, hnewline⟩ := hedge
  obtain ⟨u, rfl⟩ : ∃ u, cs = u ++ ['\\'] := by
    cases cs with
    | nil => exact absurd (scan_pos c ([] ++ r)) (by rw [Nat.succ_inj.1 hshort]; decide)
    | cons d cs => rwa [List.getLast?_cons_cons, List.getLast?_eq_some_iff] at hbackslash
  have hlength : (scan c (u ++ ['\\'] ++ r)).2 - 1 = u.length := by
    rw [List.length_cons, List.length_append, List.length_singleton] at hshort
    omega
  refine ⟨[], [⟨(scan c (u ++ ['\\'])).1, c :: (u ++ ['\\'])⟩],
    [⟨(scan c (u ++ ['\\'] ++ r)).1, c :: u⟩, ⟨.plain, ['\\']⟩], neutral_singleton hneutral,
    Neutral.cons (by rwa [hkind]) (neutral_singleton rfl), lex_of_length hall, ?_⟩
  rw [List.cons_append, lex_cons, hlength, List.append_assoc, List.take_left' rfl,
    List.drop_left' rfl, List.singleton_append, lex_backslash hnewline]
  rfl

/-- A lexeme in front of stops stays, or it is the last one of the text. -/
theorem scan_of_stops (c : Char) (cs : List Char) (hr : ∀ c ∈ r, isStop c = true) :
    (scan c cs).2 < (c :: cs).length ∧ scan c (cs ++ r) = scan c cs ∨
      Trails (c :: cs) r ((scan c (cs ++ r)).2 - (c :: cs).length) := by
  have hscan : Overlap (c :: cs) r (scan c cs) (scan c (cs ++ r)) := scan_overlap (Or.inl hr)
  have hkind := hscan.kind (Or.inr hr)
  have hbracket := hscan.bracket hr
  rcases hscan.length with (⟨hlt, heq⟩ | ⟨hall, hle⟩) | ⟨hedge, hall, hshort⟩
  · exact Or.inl ⟨hlt, Prod.ext hkind heq⟩
  · right
    cases hneutral : (scan c cs).1.isBracket with
    | true =>
        have heq : scan c (cs ++ r) = scan c cs := Prod.ext hkind (hbracket hneutral)
        rw [heq, hall, Nat.sub_self]
        exact trails_bracket hall heq
    | false => exact trails_grown hall hle hneutral hkind
  · right
    rw [← hshort, Nat.sub_eq_zero_of_le (Nat.le_succ _)]
    refine trails_edge hedge hall hshort (Bool.eq_false_iff.2 fun hneutral => ?_) hkind
    rw [hbracket hneutral, hall] at hshort
    exact absurd hshort (Nat.succ_ne_self _)

end Lexeme

/-- Stops behind a text change at most its last lexeme, and only if that is no bracket. -/
theorem exists_trails (t : List Char) (hr : ∀ c ∈ r, isStop c = true) : ∃ k, Trails t r k := by
  induction hn : t.length using Nat.strongRecOn generalizing t with
  | ind n ih =>
      cases t with
      | nil => exact ⟨0, trails_nil⟩
      | cons c cs =>
          rcases scan_of_stops c cs hr with ⟨hlt, heq⟩ | h
          · have hdrop : (cs.drop ((scan c cs).2 - 1)).length < n := by
              rw [List.length_drop, ← hn, List.length_cons]
              omega
            obtain ⟨k, h⟩ := ih _ hdrop _ rfl
            exact ⟨k, h.cons hlt heq⟩
          · exact ⟨_, h⟩

end ScopedCss.Css
