/-
# Complete texts

A text is complete if nothing in it goes on behind its end: every string has its quote, every
comment its closing mark and every url its closing parenthesis (`isComplete`).  Each check follows
its scanner, and what has passed it is not lengthened by more text (`stringLength_append` and the
like).

A space and a closing brace behind a complete text leave its lexemes as they are, but for a last one
that may take the space along, and the brace is a lexeme by itself (`lex_append_ending`).  So a
complete text that closes its brackets may stand inside of a block.
-/

import ScopedCss.Proofs.Css.Trailing

namespace ScopedCss.Css

/-- Whether a string is over, with its closing quote or before a newline. -/
def stringCloses (quote : Char) (skip : Nat) : List Char → Bool
  | [] => false
  | c :: cs =>
    match skip with
    | skip + 1 => stringCloses quote skip cs
    | 0 =>
      if c = quote then true
      else if isNewline c then true
      else if c = '\\' then stringCloses quote (continuationLength cs) cs
      else stringCloses quote 0 cs

/-- Whether a comment has its closing mark. -/
def commentCloses : List Char → Bool
  | [] => false
  | '*' :: '/' :: _ => true
  | _ :: cs => commentCloses cs

/-- Whether a malformed url has its closing parenthesis. -/
def badUrlCloses : List Char → Bool
  | [] => false
  | ')' :: _ => true
  | '\\' :: ')' :: cs => badUrlCloses cs
  | '\\' :: '\\' :: cs => badUrlCloses cs
  | _ :: cs => badUrlCloses cs

/-- Whether a url has its closing parenthesis once white space has ended its address. -/
def urlEndCloses : List Char → Bool
  | [] => false
  | c :: cs =>
    if isSpace c then urlEndCloses cs
    else if c = ')' then true
    else badUrlCloses cs

/-- Whether a url has its closing parenthesis, from its address on. -/
def urlCloses (skip : Nat) : List Char → Bool
  | [] => false
  | c :: cs =>
    match skip with
    | skip + 1 => urlCloses skip cs
    | 0 =>
      if isSpace c then urlEndCloses cs
      else if c = ')' then true
      else if breaksUrl c then badUrlCloses cs
      else if c = '\\' then
        if startsNewline cs then badUrlCloses cs else urlCloses (escapeLength cs) cs
      else urlCloses 0 cs

/-- What follows the opening parenthesis of an unquoted url at the front, and its spaces. -/
def urlAddress? (cs : List Char) : Option (List Char) :=
  match cs.drop (nameLength 0 cs) with
  | '(' :: arguments =>
    if (nameValue 0 cs).map Char.toLower = ['u', 'r', 'l'] ∧
        (unquotedUrlLength? arguments).isSome = true then
      some (arguments.drop (spaceRun arguments))
    else none
  | _ => none

/-- Whether the lexeme at the front of `c :: cs` is closed, if it is one that has to be. -/
def lexemeCloses (c : Char) (cs : List Char) : Bool :=
  if c = '"' ∨ c = '\'' then stringCloses c 0 cs
  else if c = '/' ∧ cs.head? = some '*' then commentCloses cs.tail
  else (urlAddress? (c :: cs)).all (urlCloses 0)

/-- Whether every string, comment and url of a text is closed. -/
def isComplete : List Char → Bool
  | [] => true
  | c :: cs => lexemeCloses c cs && isComplete (cs.drop ((scan c cs).2 - 1))
termination_by cs => cs.length
decreasing_by simp only [List.length_drop, List.length_cons]; omega

variable {t : List Char}

theorem lt_of_stringCloses {quote : Char} {k : Nat} (h : stringCloses quote k t = true) :
    k < t.length := by
  induction t generalizing k with
  | nil => cases h
  | cons c t ih =>
      cases k with
      | zero => exact Nat.succ_pos _
      | succ k => exact Nat.succ_lt_succ (ih h)

theorem lt_of_urlCloses {k : Nat} (h : urlCloses k t = true) : k < t.length := by
  induction t generalizing k with
  | nil => cases h
  | cons c t ih =>
      cases k with
      | zero => exact Nat.succ_pos _
      | succ k => exact Nat.succ_lt_succ (ih h)

theorem Skips.eq_of_lt {len k k' : Nat} (h : Skips len k k') (hlt : k < len) : k' = k :=
  h.resolve_right fun hend => Nat.not_le.2 hlt hend.1

theorem startsNewline_append (hne : t ≠ []) (r : List Char) :
    startsNewline (t ++ r) = startsNewline t := by
  cases t with
  | nil => exact absurd rfl hne
  | cons c t => rfl

theorem stringLength_append {quote : Char} {k : Nat} (h : stringCloses quote k t = true)
    (r : List Char) : stringLength quote k (t ++ r) = stringLength quote k t := by
  fun_induction stringCloses quote k t with
  | case1 => cases h
  | case2 c cs k ih => exact congrArg (1 + ·) (ih h)
  | case3 cs => simp [stringLength_cons_zero]
  | case4 c cs hquote hnewline => simp [stringLength_cons_zero, hquote, hnewline]
  | case5 cs hquote hnewline ih =>
      have hskip : continuationLength (cs ++ r) = continuationLength cs :=
        (continuationLength_skips cs r).eq_of_lt (lt_of_stringCloses h)
      simp [stringLength_cons_zero, hquote, hnewline, hskip, ih h]
  | case6 c cs hquote hnewline hbackslash ih =>
      simp [stringLength_cons_zero, hquote, hnewline, hbackslash, ih h]

theorem commentLength_append (h : commentCloses t = true) (r : List Char) :
    commentLength (t ++ r) = commentLength t := by
  fun_induction commentCloses t with
  | case1 => cases h
  | case2 t => rfl
  | case3 c t hmark ih =>
      have hne : t ≠ [] := by
        rintro rfl
        cases h
      obtain ⟨d, u, rfl⟩ := List.exists_cons_of_ne_nil hne
      have hstep (v : List Char) : commentLength (c :: d :: v) = 1 + commentLength (d :: v) := by
        rw [commentLength]
        rintro w rfl hw
        exact hmark u rfl (congrArg (· :: u) (List.cons.inj hw).1)
      rw [List.cons_append, List.cons_append, hstep, hstep, ← List.cons_append, ih h]

theorem badUrlLength_append (h : badUrlCloses t = true) (r : List Char) :
    badUrlLength (t ++ r) = badUrlLength t := by
  fun_induction badUrlCloses t with
  | case1 => cases h
  | case2 t => rfl
  | case3 t ih => exact congrArg (2 + ·) (ih h)
  | case4 t ih => exact congrArg (2 + ·) (ih h)
  | case5 c t hround hescaped hbackslash ih =>
      have hne : t ≠ [] := by
        rintro rfl
        cases h
      obtain ⟨d, u, rfl⟩ := List.exists_cons_of_ne_nil hne
      have hstep (v : List Char) : badUrlLength (c :: d :: v) = 1 + badUrlLength (d :: v) := by
        refine badUrlLength_cons hround fun hc e he => ?_
        obtain rfl := Option.some.inj he
        exact ⟨fun hd => hescaped u hc (hd ▸ rfl), fun hd => hbackslash u hc (hd ▸ rfl)⟩
      rw [List.cons_append, List.cons_append, hstep, hstep, ← List.cons_append, ih h]

theorem urlEndLength_append (h : urlEndCloses t = true) (r : List Char) :
    urlEndLength (t ++ r) = urlEndLength t := by
  fun_induction urlEndCloses t with
  | case1 => cases h
  | case2 c cs hspace ih => simp [urlEndLength, hspace, ih h]
  | case3 cs hspace => simp [urlEndLength, hspace]
  | case4 c cs hspace hround => simp [urlEndLength, hspace, hround, badUrlLength_append h]

theorem urlLength_append {k : Nat} (h : urlCloses k t = true) (r : List Char) :
    urlLength k (t ++ r) = urlLength k t := by
  fun_induction urlCloses k t with
  | case1 => cases h
  | case2 c cs k ih => exact congrArg (1 + ·) (ih h)
  | case3 c cs hspace => simp [urlLength_cons_zero, hspace, urlEndLength_append h]
  | case4 cs hspace => simp [urlLength_cons_zero, hspace]
  | case5 c cs hspace hround hbreaks =>
      simp [urlLength_cons_zero, hspace, hround, hbreaks, badUrlLength_append h]
  | case6 cs hspace hround hbreaks hnewline =>
      have hne : cs ≠ [] := by
        rintro rfl
        cases h
      simp [urlLength_cons_zero, hspace, hround, hbreaks, startsNewline_append hne, hnewline,
        badUrlLength_append h]
  | case7 cs hspace hround hbreaks hnewline ih =>
      have hlt := lt_of_urlCloses h
      have hskip : escapeLength (cs ++ r) = escapeLength cs :=
        (escapeLength_skips cs r).eq_of_lt hlt
      have hne : cs ≠ [] := List.ne_nil_of_length_pos (Nat.zero_lt_of_lt hlt)
      simp [urlLength_cons_zero, hspace, hround, hbreaks, startsNewline_append hne, hnewline,
        hskip, ih h]
  | case8 c cs hspace hround hbreaks hbackslash ih =>
      simp [urlLength_cons_zero, hspace, hround, hbreaks, hbackslash, ih h]

/-- An unquoted url that is closed stays what it is, and so does the lexeme that it ends. -/
theorem unquotedUrlLength?_append (h : urlCloses 0 (t.drop (spaceRun t)) = true)
    (r : List Char) : unquotedUrlLength? (t ++ r) = unquotedUrlLength? t := by
  have hlt : spaceRun t < t.length := by
    have haddress := lt_of_urlCloses h
    rw [List.length_drop] at haddress
    omega
  have hrun : spaceRun (t ++ r) = spaceRun t := by
    rcases readsForward_spaceRun t r with ⟨-, heq⟩ | ⟨hall, -⟩
    · exact heq
    · exact absurd hall (Nat.ne_of_lt hlt)
  have hdrop : (t ++ r).drop (spaceRun (t ++ r)) = t.drop (spaceRun t) ++ r := by
    rw [hrun, List.drop_append_of_le_length (Nat.le_of_lt hlt)]
  have hhead : ((t ++ r).drop (spaceRun (t ++ r))).head? = (t.drop (spaceRun t)).head? := by
    rw [hrun, head?_drop_append hlt]
  by_cases hquote : (t.drop (spaceRun t)).head? = some '"' ∨ (t.drop (spaceRun t)).head? = some '\''
  · rw [unquotedUrlLength?_of_quote hquote, unquotedUrlLength?_of_quote (by rwa [hhead])]
  · rw [not_or] at hquote
    rw [unquotedUrlLength?_of_not_quote hquote.1 hquote.2,
      unquotedUrlLength?_of_not_quote (by rw [hhead]; exact hquote.1)
        (by rw [hhead]; exact hquote.2),
      hdrop, hrun, urlLength_append h]

/-! ## A space and a closing brace -/

/-- What stands behind the text of a block. -/
def ending : List Char :=
  [' ', '\x7d']

theorem stops_ending : ∀ c ∈ ending, isStop c = true :=
  List.forall_mem_cons.2 ⟨rfl, List.forall_mem_singleton.2 rfl⟩

theorem newlineLength_le (cs : List Char) : newlineLength cs ≤ 2 := by
  unfold newlineLength
  repeat' split
  all_goals omega

theorem spaceLength_ending (t : List Char) : spaceLength (t ++ ending) ≤ t.length + 1 := by
  cases t with
  | nil => exact Nat.le_refl 1
  | cons c t =>
      have hnewline := newlineLength_le (c :: (t ++ ending))
      rw [List.cons_append, spaceLength, List.length_cons]
      repeat' split
      all_goals omega

/-- An escape may take the space, but not the brace behind it. -/
theorem escapeLength_ending (t : List Char) : escapeLength (t ++ ending) ≤ t.length + 1 := by
  have hle := length_escapeDigits_le t
  have hdigits : escapeDigits (t ++ ending) = escapeDigits t :=
    escapeDigits_append (stops_of_forall stops_ending) t
  have hspace := spaceLength_ending (t.drop (escapeDigits t).length)
  rw [List.length_drop] at hspace
  simp only [escapeLength, hdigits, List.drop_append_of_le_length hle]
  split <;> omega

theorem nameLength_ending {k : Nat} (t : List Char) (hk : k ≤ t.length + 1) :
    nameLength k (t ++ ending) ≤ t.length + 1 := by
  induction t generalizing k with
  | nil =>
      match k, hk with
      | 0, _ => decide
      | 1, _ => decide
  | cons c t ih =>
      rw [List.length_cons] at hk ⊢
      cases k with
      | succ k =>
          have h := ih (Nat.le_of_succ_le_succ hk)
          rw [List.cons_append, nameLength]
          omega
      | zero =>
          have hescape := ih (escapeLength_ending t)
          have hplain := ih (Nat.zero_le _)
          rw [List.cons_append, nameLength_cons_zero]
          repeat' split
          all_goals omega

theorem unitLength_ending (t : List Char) : unitLength (t ++ ending) ≤ t.length + 1 := by
  cases t with
  | nil => decide
  | cons c t =>
      have hname := nameLength_ending (c :: t) (Nat.zero_le _)
      by_cases hpercent : c = '%'
      · subst hpercent
        exact Nat.succ_le_succ (Nat.zero_le _)
      · rw [List.cons_append, unitLength_cons hpercent]
        split
        · exact hname
        · exact Nat.zero_le _

theorem numericLength_ending (t : List Char) : numericLength (t ++ ending) ≤ t.length + 1 := by
  obtain ⟨heq, hle⟩ := numeralLength_append (stops_of_forall stops_ending) t
  have hunit := unitLength_ending (t.drop (numeralLength t))
  rw [List.length_drop] at hunit
  rw [numericLength_eq, heq, List.drop_append_of_le_length hle]
  omega

theorem spaceRun_ending (t : List Char) : spaceRun (t ++ ending) ≤ t.length + 1 := by
  have hsplit : t ++ ending = t ++ [' '] ++ ['\x7d'] := by simp [ending]
  have hstop : ∀ c ∈ ['\x7d'].head?, isSpace c = false := by
    rintro c ⟨⟩
    rfl
  have hle := spaceRun_le (t ++ [' '])
  rw [List.length_append, List.length_singleton] at hle
  rwa [hsplit, spaceRun, takeWhile_append_stop hstop]

/-- A name in front of an opening parenthesis is the same with the ending behind it. -/
theorem nameLength_of_round
    (hround : ((t ++ ending).drop (nameLength 0 (t ++ ending))).head? = some '(') :
    nameLength 0 t < t.length ∧ nameLength 0 (t ++ ending) = nameLength 0 t := by
  have hlt : nameLength 0 (t ++ ending) < t.length := by
    refine Nat.lt_of_not_le fun hle => ?_
    rw [List.drop_append, List.drop_eq_nil_of_le hle, List.nil_append] at hround
    cases stops_ending _ (List.mem_of_mem_drop (List.mem_of_mem_head? hround))
  rcases nameLength_forward t ending skips_refl with (h | ⟨-, hle⟩) | ⟨⟨-, hnewline⟩, -⟩
  · exact h
  · exact absurd hlt (Nat.not_lt.2 hle)
  · cases hnewline

/-- A closed url and any other function stay as they are, and a name may take the space. -/
theorem scanName_ending (h : (urlAddress? t).all (urlCloses 0) = true) :
    (scanName (t ++ ending)).2 ≤ t.length + 1 := by
  by_cases hround : ((t ++ ending).drop (nameLength 0 (t ++ ending))).head? = some '('
  · obtain ⟨hlt, heq⟩ := nameLength_of_round hround
    have hdrop : (t ++ ending).drop (nameLength 0 t) = t.drop (nameLength 0 t) ++ ending :=
      List.drop_append_of_le_length (Nat.le_of_lt hlt)
    rw [heq, head?_drop_append hlt] at hround
    obtain ⟨arguments, harguments⟩ := List.head?_eq_some_iff.1 hround
    have hurl (hvalue : (nameValue 0 t).map Char.toLower = ['u', 'r', 'l']) :
        unquotedUrlLength? (arguments ++ ending) = unquotedUrlLength? arguments := by
      rcases unquotedUrlLength?_overlap (t := arguments) (Or.inl stops_ending) with
        ⟨hnone, hnone'⟩ | ⟨m, n, hsome, -, -⟩
      · rw [hnone, hnone']
      · have haddress : urlAddress? t = some (arguments.drop (spaceRun arguments)) := by
          simp only [urlAddress?, harguments, hvalue, hsome, Option.isSome_some, and_self, if_true]
        rw [haddress] at h
        exact unquotedUrlLength?_append h ending
    have harguments' : (t ++ ending).drop (nameLength 0 (t ++ ending)) =
        '(' :: (arguments ++ ending) := by
      rw [heq, hdrop, harguments, List.cons_append]
    have hsame : scanName (t ++ ending) = scanName t := by
      rw [scanName_of_round harguments, scanName_of_round harguments', heq,
        nameValue_forward hlt ending]
      unfold functionScan
      split
      · rw [hurl (by assumption)]
      · rfl
    have hle := (scanName_overlap (t := t) (Or.inl stops_ending)).length.le
    rw [hsame]
    exact Nat.le_succ_of_le hle
  · rw [scanName_of_not_round hround]
    exact nameLength_ending t (Nat.zero_le _)

/-- The lexeme at the end of a complete text takes no more than the space. -/
theorem scan_ending {c : Char} {cs : List Char} (h : lexemeCloses c cs = true) :
    (scan c (cs ++ ending)).2 ≤ (c :: cs).length + 1 := by
  have hstops : Stops ending := stops_of_forall stops_ending
  have hname := nameLength_ending cs (Nat.zero_le _)
  have hspaces := spaceRun_ending cs
  have hscanned := scanned c (cs ++ ending)
  rw [List.length_cons]
  generalize scan c (cs ++ ending) = found at hscanned
  cases hscanned with
  | space => simp only; omega
  | string hquote =>
      rw [lexemeCloses, if_pos hquote] at h
      have hle := (readsForward_stringLength c cs []).le
      rw [stringLength_append h]
      simp only
      omega
  | opening | closing | other => simp
  | comment hslash hstar =>
      have hstar' : cs.head? = some '*' := (head?_append_stop hstops rfl cs).1 hstar
      obtain ⟨u, rfl⟩ := List.head?_eq_some_iff.1 hstar'
      rw [lexemeCloses, if_neg (by simp [hslash]), if_pos ⟨hslash, rfl⟩] at h
      have hle := (readsForward_commentLength u []).le
      rw [List.cons_append, List.tail_cons, commentLength_append (t := u) h, List.length_cons]
      simp only
      omega
  | dashes _ hdashes =>
      rw [isPrefixOf_append rfl hstops] at hdashes
      have hle := length_le_of_isPrefixOf hdashes
      simp only [List.length_cons, List.length_nil] at hle ⊢
      omega
  | arrow _ harrow =>
      rw [isPrefixOf_append rfl hstops] at harrow
      have hle := length_le_of_isPrefixOf harrow
      simp only [List.length_cons, List.length_nil] at hle ⊢
      omega
  | number => exact numericLength_ending (c :: cs)
  | marked => simp only; omega
  | name hstarts =>
      refine scanName_ending (t := c :: cs) ?_
      have hquote : ¬(c = '"' ∨ c = '\'') := by
        rintro (rfl | rfl) <;> cases hstarts
      have hslash : ¬(c = '/' ∧ cs.head? = some '*') := by
        rintro ⟨rfl, -⟩
        cases hstarts
      rwa [lexemeCloses, if_neg hquote, if_neg hslash] at h

theorem exists_trails_ending (h : isComplete t = true) : ∃ k ≤ 1, Trails t ending k := by
  fun_induction isComplete t with
  | case1 => exact ⟨0, Nat.zero_le 1, trails_nil⟩
  | case2 c cs ih =>
      obtain ⟨hcloses, hrest⟩ := Bool.and_eq_true_iff.1 h
      rcases scan_of_stops c cs stops_ending with ⟨hlt, heq⟩ | htrails
      · obtain ⟨k, hk, htrails⟩ := ih hrest
        exact ⟨k, hk, htrails.cons hlt heq⟩
      · have hle := scan_ending hcloses
        exact ⟨_, by omega, htrails⟩

/-- The ending of a block behind a complete text leaves the lexemes of the text as they are, but for
a last one that is no bracket, and the closing brace is the last lexeme. -/
theorem lex_append_ending (h : isComplete t = true) :
    ∃ xs ys zs, Neutral ys ∧ Neutral zs ∧ lex t = xs ++ ys ∧
      lex (t ++ ending) = xs ++ zs ++ [⟨.closing .curly, ['\x7d']⟩] := by
  have hbrace : lex ['\x7d'] = [⟨.closing .curly, ['\x7d']⟩] := by
    rw [lex_cons, scan_brace, List.drop_nil, lex_nil]
    rfl
  obtain ⟨k, hk, xs, ys, zs, hys, hzs, hlex, hlex'⟩ := exists_trails_ending h
  rcases Nat.le_one_iff_eq_zero_or_eq_one.1 hk with rfl | rfl
  · have hspace : scan ' ' ['\x7d'] = (.blank, 1) := by decide
    have hending : lex ending = ⟨.blank, [' ']⟩ :: lex ['\x7d'] := by
      rw [ending, lex_cons, hspace]
      rfl
    refine ⟨xs, ys, zs ++ [⟨.blank, [' ']⟩], hys,
      List.forall_mem_append.2 ⟨hzs, neutral_singleton rfl⟩, hlex, ?_⟩
    rw [hlex', List.drop_zero, hending, hbrace]
    simp only [List.append_assoc, List.singleton_append]
  · exact ⟨xs, ys, zs, hys, hzs, hlex, by rw [hlex', ← hbrace]; rfl⟩

theorem Inside.append {b : Bracket} {xs ys : List Lexeme} (hxs : Inside b xs)
    (hys : Inside b ys) : Inside b (xs ++ ys) := by
  induction hxs with
  | nil => exact hys
  | leaf hopens hcloses _ ih => exact .leaf hopens hcloses (ih hys)
  | block hopens hinner hcloses _ _ ih =>
      rw [List.cons_append, List.append_assoc, List.cons_append]
      exact .block hopens hinner hcloses (ih hys)

/-- Lexemes that are no brackets may be left out at the end. -/
theorem Inside.of_append {b : Bracket} {xs ys : List Lexeme} (h : Inside b (xs ++ ys))
    (hys : Neutral ys) : Inside b xs := by
  generalize hall : xs ++ ys = all at h
  induction h generalizing xs with
  | nil =>
      rw [(List.append_eq_nil_iff.1 hall).1]
      exact .nil
  | leaf hopens hcloses _ ih =>
      rcases List.append_eq_cons_iff.1 hall with ⟨rfl, -⟩ | ⟨xs', rfl, hrest⟩
      · exact .nil
      · exact .leaf hopens hcloses (ih hrest.symm)
  | @block b b' x y inner rest hopens hinner hcloses _ _ ih =>
      rcases List.append_eq_cons_iff.1 hall with ⟨rfl, -⟩ | ⟨xs', rfl, hrest⟩
      · exact .nil
      · -- The closing bracket is none of the lexemes that are left out.
        have hkept : y ∉ ys := fun hy => ne_closing_of_isBracket (hys y hy) b' hcloses
        rcases List.append_eq_append_iff.1 hrest with ⟨front, rfl, htail⟩ | ⟨back, -, htail⟩
        · rcases List.append_eq_cons_iff.1 htail.symm with ⟨-, hall⟩ | ⟨front, rfl, hback⟩
          · exact absurd (hall ▸ List.mem_cons_self) hkept
          · exact .block hopens hinner hcloses (ih hback.symm)
        · exact absurd (htail ▸ List.mem_append_right back List.mem_cons_self) hkept

theorem Inside.of_cons {b : Bracket} {x : Lexeme} {xs : List Lexeme} (h : Inside b (x :: xs))
    (hopens : ¬x.opens) : Inside b xs := by
  cases h with
  | leaf _ _ hrest => exact hrest
  | block hopens' => exact absurd ⟨_, hopens'⟩ hopens

/-- A text that closes what it opens, be it a string, a comment, a url or a bracket, and that closes
no brace that it has not opened. -/
structure Enclosed (t : List Char) : Prop where
  complete : isComplete t = true
  brackets : Inside .curly (lex t)

theorem isComplete_cons {c : Char} {cs : List Char} :
    isComplete (c :: cs) =
      (lexemeCloses c cs && isComplete (cs.drop ((scan c cs).2 - 1))) := by
  rw [isComplete]

theorem scan_space {c : Char} (hspace : isSpace c = true) (cs : List Char) :
    scan c cs = (.blank, 1 + spaceRun cs) := by
  rw [scan, if_pos hspace]

/-- White space in front may be left out. -/
theorem Enclosed.drop_spaces (h : Enclosed t) : Enclosed (t.drop (spaceRun t)) := by
  cases t with
  | nil => exact h
  | cons c cs =>
      by_cases hspace : isSpace c = true
      · obtain ⟨hcomplete, hbrackets⟩ := h
        rw [isComplete_cons, scan_space hspace, Nat.add_sub_cancel_left] at hcomplete
        rw [lex_cons, scan_space hspace, Nat.add_sub_cancel_left] at hbrackets
        rw [spaceRun, List.takeWhile_cons_of_pos hspace, List.length_cons, List.drop_succ_cons]
        exact ⟨(Bool.and_eq_true_iff.1 hcomplete).2,
          hbrackets.of_cons (not_opens_of_isBracket rfl)⟩
      · rwa [spaceRun, List.takeWhile_cons_of_neg hspace]

theorem Enclosed.cons_space (h : Enclosed t) : Enclosed (' ' :: t) := by
  have hscan : scan ' ' t = (.blank, 1 + spaceRun t) := scan_space rfl t
  have hcloses : lexemeCloses ' ' t = true := rfl
  obtain ⟨hcomplete, hbrackets⟩ := h.drop_spaces
  constructor
  · rw [isComplete_cons, hscan, Nat.add_sub_cancel_left, hcloses, hcomplete]
    rfl
  · rw [lex_cons, hscan, Nat.add_sub_cancel_left]
    exact .leaf (not_opens_of_isBracket rfl) (ne_closing_of_isBracket rfl .curly) hbrackets

/-- The ending of a block behind an enclosed text closes the block and nothing else. -/
theorem Enclosed.exists_lex (h : Enclosed t) :
    ∃ inner, Inside .curly inner ∧ lex (t ++ ending) = inner ++ [⟨.closing .curly, ['\x7d']⟩] := by
  obtain ⟨xs, ys, zs, hys, hzs, hlex, hlex'⟩ := lex_append_ending h.complete
  have hxs : Inside .curly xs := by
    have hbrackets := h.brackets
    rw [hlex] at hbrackets
    exact hbrackets.of_append hys
  exact ⟨xs ++ zs, hxs.append (hzs.inside .curly), hlex'⟩

end ScopedCss.Css
