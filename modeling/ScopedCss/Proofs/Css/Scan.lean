/-
# What one lexeme can be

`scan` asks its questions in a fixed order.  `Scanned` lists the answers, each with the questions
that lead to it, so that a property of every lexeme is shown by cases on it.
-/

import ScopedCss.Css.Lexeme

namespace ScopedCss.Css

/-- The character that opens a bracket. -/
def Bracket.opener : Bracket → Char
  | round => '('
  | square => '['
  | curly => '\x7b'

/-- The character that closes a bracket. -/
def Bracket.closer : Bracket → Char
  | round => ')'
  | square => ']'
  | curly => '\x7d'

/-- The characters that are lexemes by themselves wherever a lexeme may begin. -/
def isBracket (c : Char) : Bool :=
  c == '(' || c == '[' || c == '\x7b' || c == ')' || c == ']' || c == '\x7d'

/-- The kind and the length of the lexeme at the front of `c :: cs`, by what makes it one. -/
inductive Scanned (c : Char) (cs : List Char) : Kind × Nat → Prop where
  | space (hspace : isSpace c = true) : Scanned c cs (.blank, 1 + spaceRun cs)
  | string (hquote : c = '"' ∨ c = '\'') : Scanned c cs (.plain, 1 + stringLength c 0 cs)
  | opening (b : Bracket) (hopener : c = b.opener) : Scanned c cs (.opening b, 1)
  | closing (b : Bracket) (hcloser : c = b.closer) : Scanned c cs (.closing b, 1)
  | comment (hslash : c = '/') (hstar : cs.head? = some '*') :
      Scanned c cs (.comment, 2 + commentLength cs.tail)
  | dashes (hangle : c = '<') (hdashes : ['!', '-', '-'].isPrefixOf cs = true) :
      Scanned c cs (.plain, 4)
  | number (hbracket : isBracket c = false)
      (hnumber : startsUnsigned (c :: cs) = true ∨
        (c = '+' ∨ c = '-') ∧ startsUnsigned cs = true) :
      Scanned c cs (.plain, numericLength (c :: cs))
  | arrow (hhyphen : c = '-') (harrow : ['-', '>'].isPrefixOf cs = true) :
      Scanned c cs (.plain, 3)
  | marked (hmark : c = '#' ∨ c = '@' ∧ startsName cs = true) :
      Scanned c cs (.plain, 1 + nameLength 0 cs)
  | name (hname : startsName (c :: cs) = true) : Scanned c cs (scanName (c :: cs))
  | other (hspace : isSpace c = false) (hquote : ¬(c = '"' ∨ c = '\''))
      (hbracket : isBracket c = false) (hcomment : ¬(c = '/' ∧ cs.head? = some '*')) :
      Scanned c cs (.plain, 1)

theorem scanned (c : Char) (cs : List Char) : Scanned c cs (scan c cs) := by
  unfold scan
  apply iteInduction .space
  intro hspace
  apply iteInduction .string
  intro hquote
  apply iteInduction (.opening .round)
  intro hround
  apply iteInduction (.opening .square)
  intro hsquare
  apply iteInduction (.opening .curly)
  intro hcurly
  apply iteInduction (.closing .round)
  intro hround'
  apply iteInduction (.closing .square)
  intro hsquare'
  apply iteInduction (.closing .curly)
  intro hcurly'
  have hbracket : isBracket c = false := by
    simp [isBracket, hround, hsquare, hcurly, hround', hsquare', hcurly']
  apply iteInduction (fun h => .comment h.1 h.2)
  intro hcomment
  apply iteInduction (fun h => .dashes h.1 h.2)
  intro _
  apply iteInduction (fun h => .number hbracket (Or.inl h))
  intro _
  apply iteInduction (fun h => .number hbracket (Or.inr h))
  intro _
  apply iteInduction (fun h => .arrow h.1 h.2)
  intro _
  apply iteInduction (fun h => .marked (Or.inl h))
  intro _
  apply iteInduction (fun h => .marked (Or.inr h))
  intro _
  apply iteInduction .name
  intro _
  exact .other (Bool.eq_false_iff.2 hspace) hquote hbracket hcomment

/-- What a name and its opening parenthesis are, with what follows them if they begin a url. -/
def functionScan (name arguments : List Char) (n : Nat) : Kind × Nat :=
  if name.map Char.toLower = ['u', 'r', 'l'] then
    (unquotedUrlLength? arguments).elim (.opening .round, n + 1) fun m => (.plain, n + 1 + m)
  else (.opening .round, n + 1)

theorem scanName_of_round {cs arguments : List Char}
    (hdrop : cs.drop (nameLength 0 cs) = '(' :: arguments) :
    scanName cs = functionScan (nameValue 0 cs) arguments (nameLength 0 cs) := by
  simp only [scanName, functionScan, hdrop]
  cases unquotedUrlLength? arguments <;> rfl

theorem scanName_of_not_round {cs : List Char}
    (hround : (cs.drop (nameLength 0 cs)).head? ≠ some '(') :
    scanName cs = (.plain, nameLength 0 cs) := by
  simp only [scanName]
  split
  · simp_all
  · rfl

theorem functionScan_kind (name arguments : List Char) (n : Nat) :
    (functionScan name arguments n).1 = .plain ∨
      (functionScan name arguments n).1 = .opening .round := by
  unfold functionScan
  split
  · cases unquotedUrlLength? arguments with
    | none => exact Or.inr rfl
    | some m => exact Or.inl rfl
  · exact Or.inr rfl

theorem lt_functionScan (name arguments : List Char) (n : Nat) :
    n < (functionScan name arguments n).2 := by
  unfold functionScan
  split
  · cases unquotedUrlLength? arguments <;> simp only [Option.elim] <;> omega
  · exact Nat.lt_succ_self n

theorem scanName_kind (cs : List Char) :
    (scanName cs).1 = .plain ∨ (scanName cs).1 = .opening .round := by
  by_cases hround : (cs.drop (nameLength 0 cs)).head? = some '('
  · obtain ⟨arguments, harguments⟩ := List.head?_eq_some_iff.1 hround
    rw [scanName_of_round harguments]
    exact functionScan_kind _ _ _
  · rw [scanName_of_not_round hround]
    exact Or.inl rfl

theorem nameLength_le_scanName (cs : List Char) : nameLength 0 cs ≤ (scanName cs).2 := by
  by_cases hround : (cs.drop (nameLength 0 cs)).head? = some '('
  · obtain ⟨arguments, harguments⟩ := List.head?_eq_some_iff.1 hround
    rw [scanName_of_round harguments]
    exact Nat.le_of_lt (lt_functionScan _ _ _)
  · exact Nat.le_of_eq (congrArg Prod.snd (scanName_of_not_round hround)).symm

theorem scan_brace (cs : List Char) : scan '\x7d' cs = (.closing .curly, 1) := by
  simp [scan, isSpace, isNewline]

theorem eq_opener_of_scan {c : Char} {cs : List Char}
    (hkind : (scan c cs).1 = .opening .curly) : c = '\x7b' := by
  have hscanned := scanned c cs
  generalize scan c cs = found at hscanned hkind
  cases hscanned with
  | opening b hopener =>
      cases hkind
      exact hopener
  | name hname => rcases scanName_kind (c :: cs) with h | h <;> cases h.symm.trans hkind
  | _ => cases hkind

theorem eq_closer_of_scan {c : Char} {cs : List Char}
    (hkind : (scan c cs).1 = .closing .curly) : c = '\x7d' := by
  have hscanned := scanned c cs
  generalize scan c cs = found at hscanned hkind
  cases hscanned with
  | closing b hcloser =>
      cases hkind
      exact hcloser
  | name hname => rcases scanName_kind (c :: cs) with h | h <;> cases h.symm.trans hkind
  | _ => cases hkind

end ScopedCss.Css
