/-
# Lexemes of tame texts

A text is tame if it holds no quotes, no backslashes and no comments.  Its lexemes are short of
surprises (`TameLexeme`): a bracket is a lexeme by itself or ends a function name, and no other
lexeme holds one, save that a url takes everything up to the next closing parenthesis.
-/

import ScopedCss.Proofs.Css.Brace

namespace ScopedCss.Css

/-- A text without quotes, backslashes and comments. -/
structure Tame (cs : List Char) : Prop where
  chars : ∀ c ∈ cs, c ≠ '"' ∧ c ≠ '\'' ∧ c ≠ '\\'
  comment : ¬['/', '*'] <:+: cs

/-- A text without brackets. -/
def Free (cs : List Char) : Prop :=
  ∀ c ∈ cs, isBracket c = false

instance (cs : List Char) : Decidable (Free cs) :=
  decidable_of_iff (cs.all (fun c => !isBracket c) = true) (by simp [Free])

theorem Tame.of_append {u v : List Char} (h : Tame (u ++ v)) : Tame v where
  chars c hc := h.chars c (List.mem_append_right u hc)
  comment hmark := h.comment (hmark.trans (List.suffix_append u v).isInfix)

theorem Tame.backslash {cs : List Char} (h : Tame cs) : '\\' ∉ cs :=
  fun hmem => (h.chars _ hmem).2.2 rfl

theorem Free.append {u v : List Char} (hu : Free u) (hv : Free v) : Free (u ++ v) := by
  intro c hc
  rcases List.mem_append.1 hc with hc | hc
  · exact hu c hc
  · exact hv c hc

theorem Free.cons {c : Char} {cs : List Char} (hc : isBracket c = false) (hcs : Free cs) :
    Free (c :: cs) := by
  intro d hd
  rcases List.mem_cons.1 hd with rfl | hd
  · exact hc
  · exact hcs d hd

theorem free_nil : Free [] :=
  fun _ hc => absurd hc List.not_mem_nil

theorem isBracket_cases {c : Char} (h : isBracket c = true) :
    ∃ b : Bracket, c = b.opener ∨ c = b.closer := by
  simp only [isBracket, Bool.or_eq_true, beq_iff_eq] at h
  rcases h with ((((rfl | rfl) | rfl) | rfl) | rfl) | rfl
  · exact ⟨.round, Or.inl rfl⟩
  · exact ⟨.square, Or.inl rfl⟩
  · exact ⟨.curly, Or.inl rfl⟩
  · exact ⟨.round, Or.inr rfl⟩
  · exact ⟨.square, Or.inr rfl⟩
  · exact ⟨.curly, Or.inr rfl⟩

/-- A class of characters has no bracket in it if it has none of the six. -/
theorem isBracket_eq_false {p : Char → Bool}
    (hp : ∀ b : Bracket, p b.opener = false ∧ p b.closer = false) {c : Char} (hc : p c = true) :
    isBracket c = false := by
  cases hbracket : isBracket c with
  | false => rfl
  | true =>
      obtain ⟨b, rfl | rfl⟩ := isBracket_cases hbracket
      · rw [(hp b).1] at hc
        cases hc
      · rw [(hp b).2] at hc
        cases hc

theorem isBracket_of_isNameChar {c : Char} (hc : isNameChar c = true) : isBracket c = false :=
  isBracket_eq_false (fun b => by cases b <;> decide) hc

theorem isBracket_of_isDigit {c : Char} (hc : c.isDigit = true) : isBracket c = false :=
  isBracket_eq_false (fun b => by cases b <;> decide) hc

theorem isBracket_of_isSpace {c : Char} (hc : isSpace c = true) : isBracket c = false :=
  isBracket_eq_false (fun b => by cases b <;> decide) hc

theorem free_takeWhile {p : Char → Bool} (hp : ∀ c, p c = true → isBracket c = false)
    (cs : List Char) : Free (cs.takeWhile p) :=
  fun c hc => hp c (List.all_eq_true.1 List.all_takeWhile c hc)

theorem free_take_takeWhile {p : Char → Bool} (hp : ∀ c, p c = true → isBracket c = false)
    (cs : List Char) : Free (cs.take (cs.takeWhile p).length) := by
  rw [← List.prefix_iff_eq_take.1 (List.takeWhile_prefix p)]
  exact free_takeWhile hp cs

theorem free_take_add {m n : Nat} {cs : List Char} (hm : Free (cs.take m))
    (hn : Free ((cs.drop m).take n)) : Free (cs.take (m + n)) := by
  rw [List.take_add]
  exact hm.append hn

theorem nameLength_eq {cs : List Char} (h : '\\' ∉ cs) :
    nameLength 0 cs = (cs.takeWhile isNameChar).length := by
  induction cs with
  | nil => rfl
  | cons c cs ih =>
      rw [List.mem_cons, not_or] at h
      rw [nameLength]
      by_cases hname : isNameChar c = true
      · rw [if_pos hname, ih h.2, List.takeWhile_cons_of_pos hname, List.length_cons, Nat.add_comm]
      · have hbackslash : ¬(c = '\\' ∧ startsNewline cs = false) := fun hc => h.1 hc.1.symm
        rw [if_neg hname, if_neg hbackslash, List.takeWhile_cons_of_neg hname, List.length_nil]

theorem free_nameLength {cs : List Char} (h : '\\' ∉ cs) : Free (cs.take (nameLength 0 cs)) := by
  rw [nameLength_eq h]
  exact free_take_takeWhile (fun _ => isBracket_of_isNameChar) cs

/-- A name that begins without a backslash begins with one of its characters. -/
theorem isNameChar_of_startsName {c : Char} {cs : List Char} (h : startsName (c :: cs) = true)
    (hc : c ≠ '\\') : isNameChar c = true := by
  by_cases hhyphen : c = '-'
  · rw [hhyphen]
    rfl
  · have hstart : isNameStart c = true := by
      rw [startsName] at h
      all_goals simp_all
    simp [isNameChar, hstart]

theorem free_digitRun (cs : List Char) : Free (cs.take (digitRun cs)) :=
  free_take_takeWhile (fun _ => isBracket_of_isDigit) cs

theorem free_sign (cs : List Char) :
    Free (cs.take (match cs with | '+' :: _ => 1 | '-' :: _ => 1 | _ => 0)) := by
  split
  · exact Free.cons rfl free_nil
  · exact Free.cons rfl free_nil
  · exact free_nil

theorem free_fractionLength (cs : List Char) : Free (cs.take (fractionLength cs)) := by
  unfold fractionLength
  split
  · split
    · rw [Nat.add_comm, List.take_succ_cons]
      exact Free.cons rfl (free_digitRun _)
    · exact free_nil
  · exact free_nil

theorem free_exponentLength (cs : List Char) : Free (cs.take (exponentLength cs)) := by
  match cs with
  | [] => exact free_nil
  | [e] =>
      have hzero : exponentLength [e] = 0 := by simp [exponentLength]
      rw [hzero]
      exact free_nil
  | e :: d :: ds =>
      simp only [exponentLength]
      split
      · have hletter : isBracket e = false := by
          have he : e = 'e' ∨ e = 'E' := by assumption
          rcases he with rfl | rfl <;> rfl
        split
        · rw [Nat.add_comm, List.take_succ_cons]
          exact Free.cons hletter (free_digitRun _)
        · split
          · have hsign : (d = '+' ∨ d = '-') ∧ startsDigit ds = true := by assumption
            have hsigned : isBracket d = false := by
              rcases hsign.1 with rfl | rfl <;> rfl
            rw [Nat.add_comm, List.take_succ_cons, List.take_succ_cons]
            exact Free.cons hletter (Free.cons hsigned (free_digitRun _))
          · exact free_nil
      · exact free_nil

theorem free_unitLength {cs : List Char} (h : '\\' ∉ cs) : Free (cs.take (unitLength cs)) := by
  unfold unitLength
  split
  · exact Free.cons rfl free_nil
  · split
    · exact free_nameLength h
    · exact free_nil

theorem free_numericLength {cs : List Char} (h : '\\' ∉ cs) :
    Free (cs.take (numericLength cs)) := by
  have hunit (n : Nat) : Free ((cs.drop n).take (unitLength (cs.drop n))) :=
    free_unitLength fun hmem => h (List.mem_of_mem_drop hmem)
  exact free_take_add (free_take_add (free_take_add (free_take_add (free_sign cs)
    (free_digitRun _)) (free_fractionLength _)) (free_exponentLength _)) (hunit _)

/-- How far it is to the end of the next closing parenthesis, or of the text. -/
def roundSpan : List Char → Nat
  | [] => 0
  | c :: cs => if c = ')' then 1 else 1 + roundSpan cs

theorem roundSpan_append {u : List Char} (hu : ')' ∉ u) (v : List Char) :
    roundSpan (u ++ v) = u.length + roundSpan v := by
  induction u with
  | nil => simp
  | cons c u ih =>
      rw [List.mem_cons, not_or] at hu
      rw [List.cons_append, roundSpan, if_neg (Ne.symm hu.1), ih hu.2, List.length_cons]
      omega

theorem badUrlLength_eq {cs : List Char} (h : '\\' ∉ cs) : badUrlLength cs = roundSpan cs := by
  induction cs with
  | nil => rfl
  | cons c cs ih =>
      rw [List.mem_cons, not_or] at h
      by_cases hround : c = ')'
      · subst hround
        rfl
      · rw [roundSpan, if_neg hround, ← ih h.2, badUrlLength]
        · exact hround
        · exact fun _ hc _ => h.1 hc.symm
        · exact fun _ hc _ => h.1 hc.symm

theorem ne_round_of_isSpace {c : Char} (hspace : isSpace c = true) : c ≠ ')' := by
  rintro rfl
  cases hspace

theorem urlEndLength_eq {cs : List Char} (h : '\\' ∉ cs) : urlEndLength cs = roundSpan cs := by
  induction cs with
  | nil => rfl
  | cons c cs ih =>
      rw [List.mem_cons, not_or] at h
      rw [urlEndLength, roundSpan]
      by_cases hspace : isSpace c = true
      · rw [if_pos hspace, if_neg (ne_round_of_isSpace hspace), ih h.2]
      · rw [if_neg hspace, badUrlLength_eq h.2]

theorem urlLength_eq {cs : List Char} (h : '\\' ∉ cs) : urlLength 0 cs = roundSpan cs := by
  induction cs with
  | nil => rfl
  | cons c cs ih =>
      rw [List.mem_cons, not_or] at h
      rw [urlLength, roundSpan]
      by_cases hspace : isSpace c = true
      · rw [if_pos hspace, if_neg (ne_round_of_isSpace hspace), urlEndLength_eq h.2]
      · rw [if_neg hspace, badUrlLength_eq h.2, if_neg (Ne.symm h.1), ih h.2, ite_self]

/-- In a text without quotes every url is unquoted, well formed or not, and ends with the next
closing parenthesis. -/
theorem unquotedUrlLength?_eq {cs : List Char} (h : Tame cs) :
    unquotedUrlLength? cs = some (roundSpan cs) := by
  have hdrop : cs.drop (spaceRun cs) = cs.dropWhile isSpace :=
    (congrArg (List.drop _) List.takeWhile_append_dropWhile.symm).trans (List.drop_left' rfl)
  have hmem {c : Char} (hc : (cs.drop (spaceRun cs)).head? = some c) : c ∈ cs :=
    List.mem_of_mem_drop (List.mem_of_mem_head? hc)
  have hspaces : ')' ∉ cs.takeWhile isSpace := by
    intro hc
    exact ne_round_of_isSpace (List.all_eq_true.1 List.all_takeWhile _ hc) rfl
  have hspan : spaceRun cs + roundSpan (cs.dropWhile isSpace) = roundSpan cs := by
    rw [spaceRun, ← roundSpan_append hspaces, List.takeWhile_append_dropWhile]
  rw [unquotedUrlLength?_of_not_quote, urlLength_eq, hdrop, hspan]
  · exact fun hc => h.backslash (List.mem_of_mem_drop hc)
  · exact fun hc => (h.chars _ (hmem hc)).1 rfl
  · exact fun hc => (h.chars _ (hmem hc)).2.1 rfl

/-- The lexemes that a tame text may begin with, each with the rest of the text. -/
inductive TameLexeme : Lexeme → List Char → Prop where
  | blank {c : Char} {cs rest : List Char} (hspace : isSpace c = true) (hfree : Free (c :: cs)) :
      TameLexeme ⟨.blank, c :: cs⟩ rest
  | plain {c : Char} {cs rest : List Char} (hfree : Free (c :: cs)) :
      TameLexeme ⟨.plain, c :: cs⟩ rest
  | opening {b : Bracket} {rest : List Char} : TameLexeme ⟨.opening b, [b.opener]⟩ rest
  | closing {b : Bracket} {rest : List Char} : TameLexeme ⟨.closing b, [b.closer]⟩ rest
  | function {name rest : List Char} (hfree : Free name) :
      TameLexeme ⟨.opening .round, name ++ ['(']⟩ rest
  | url {name arguments : List Char} (hfree : Free name) :
      TameLexeme ⟨.plain, name ++ '(' :: arguments.take (roundSpan arguments)⟩
        (arguments.drop (roundSpan arguments))

/-- Whether the lexeme of a given kind and length at the front of `c :: cs` is tame. -/
def TameScan (c : Char) (cs : List Char) (found : Kind × Nat) : Prop :=
  TameLexeme ⟨found.1, c :: cs.take (found.2 - 1)⟩ (cs.drop (found.2 - 1))

theorem tameScan_plain {c : Char} {cs : List Char} {n : Nat} (hc : isBracket c = false)
    (hfree : Free ((c :: cs).take n)) : TameScan c cs (.plain, n) := by
  cases n with
  | zero => exact .plain (Free.cons hc free_nil)
  | succ n => exact .plain hfree

theorem tameScan_functionScan {c : Char} {cs name arguments : List Char}
    (hargs : Tame arguments) (hname : Free (c :: name)) (hcs : cs = name ++ '(' :: arguments)
    (value : List Char) : TameScan c cs (functionScan value arguments (name.length + 1)) := by
  subst hcs
  unfold functionScan
  split
  · have hlength : name.length + 1 + 1 + roundSpan arguments - 1 =
        (name ++ ['(']).length + roundSpan arguments := by
      simp only [List.length_append, List.length_singleton]
      omega
    have hmark : name ++ '(' :: arguments = name ++ ['('] ++ arguments := by simp
    rw [unquotedUrlLength?_eq hargs]
    unfold TameScan
    rw [Option.elim, hlength, hmark, List.take_length_add_append, List.drop_length_add_append,
      List.append_assoc]
    exact .url hname
  · unfold TameScan
    rw [show name.length + 1 + 1 - 1 = (name ++ ['(']).length by simp,
      show name ++ '(' :: arguments = (name ++ ['(']) ++ arguments by simp,
      List.take_left' rfl, List.drop_left' rfl]
    exact .function hname

theorem tameScan_scanName {c : Char} {cs : List Char} (h : Tame (c :: cs))
    (hstarts : startsName (c :: cs) = true) : TameScan c cs (scanName (c :: cs)) := by
  have hbackslash := h.backslash
  have hc : isNameChar c = true := by
    apply isNameChar_of_startsName hstarts
    rintro rfl
    exact hbackslash List.mem_cons_self
  have hfree := free_nameLength hbackslash
  by_cases hround : ((c :: cs).drop (nameLength 0 (c :: cs))).head? = some '('
  · obtain ⟨arguments, harguments⟩ := List.head?_eq_some_iff.1 hround
    rw [scanName_of_round harguments]
    have hlength : nameLength 0 (c :: cs) = (cs.takeWhile isNameChar).length + 1 := by
      rw [nameLength_eq hbackslash, List.takeWhile_cons_of_pos hc, List.length_cons]
    rw [hlength, List.drop_succ_cons] at harguments
    rw [hlength, List.take_succ_cons] at hfree
    have hsplit := List.take_append_drop (cs.takeWhile isNameChar).length cs
    rw [harguments, ← List.prefix_iff_eq_take.1 (List.takeWhile_prefix isNameChar)] at hsplit
    rw [← List.prefix_iff_eq_take.1 (List.takeWhile_prefix isNameChar)] at hfree
    have hargs : Tame arguments := by
      apply Tame.of_append (u := c :: (cs.takeWhile isNameChar ++ ['(']))
      rwa [List.cons_append, List.append_assoc, List.singleton_append, hsplit]
    rw [hlength]
    exact tameScan_functionScan hargs hfree hsplit.symm _
  · rw [scanName_of_not_round hround]
    exact tameScan_plain (isBracket_of_isNameChar hc) hfree

theorem free_take_length {p cs : List Char} (hp : p.isPrefixOf cs = true) (hfree : Free p) :
    Free (cs.take p.length) := by
  rwa [← List.prefix_iff_eq_take.1 (List.isPrefixOf_iff_prefix.1 hp)]

/-- The first lexeme of a tame text is tame. -/
theorem tameScan_scan {c : Char} {cs : List Char} (h : Tame (c :: cs)) :
    TameScan c cs (scan c cs) := by
  have hbackslash := h.backslash
  have hrest : '\\' ∉ cs := fun hmem => hbackslash (List.mem_cons_of_mem c hmem)
  have hscanned := scanned c cs
  generalize scan c cs = found at hscanned
  cases hscanned with
  | space hspace =>
      have hc := isBracket_of_isSpace hspace
      have hrun := free_take_takeWhile (fun _ => isBracket_of_isSpace) cs
      unfold TameScan
      rw [Nat.add_sub_cancel_left]
      exact .blank hspace (Free.cons hc hrun)
  | string hquote =>
      have hc := h.chars c List.mem_cons_self
      exact absurd hquote (not_or.2 ⟨hc.1, hc.2.1⟩)
  | opening b hopener =>
      subst hopener
      exact .opening
  | closing b hcloser =>
      subst hcloser
      exact .closing
  | comment hslash hstar =>
      obtain ⟨u, rfl⟩ := List.head?_eq_some_iff.1 hstar
      subst hslash
      exact absurd ⟨[], u, rfl⟩ h.comment
  | dashes hangle hdashes =>
      subst hangle
      exact tameScan_plain rfl (Free.cons rfl (free_take_length hdashes (by decide)))
  | number hbracket hnumber => exact tameScan_plain hbracket (free_numericLength hbackslash)
  | arrow hhyphen harrow =>
      subst hhyphen
      exact tameScan_plain rfl (Free.cons rfl (free_take_length harrow (by decide)))
  | marked hmark =>
      have hc : isBracket c = false := by
        rcases hmark with rfl | ⟨rfl, -⟩ <;> rfl
      apply tameScan_plain hc
      rw [Nat.add_comm, List.take_succ_cons]
      exact Free.cons hc (free_nameLength hrest)
  | name hname => exact tameScan_scanName h hname
  | other hspace hquote hbracket hcomment =>
      exact tameScan_plain hbracket (Free.cons hbracket free_nil)

theorem lex_tame {c : Char} {cs : List Char} (h : Tame (c :: cs)) :
    ∃ x rest, TameLexeme x rest ∧ c :: cs = x.text ++ rest ∧ lex (c :: cs) = x :: lex rest := by
  refine ⟨_, _, tameScan_scan h, ?_, lex_cons c cs⟩
  rw [List.cons_append, List.take_append_drop]

end ScopedCss.Css
