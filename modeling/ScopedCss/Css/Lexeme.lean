/-
# CSS lexemes

A CSS text is read as a sequence of lexemes by the rules of CSS Syntax Level 3, over the raw text:
the four newline forms are not normalised, and NUL counts as a name character.  Only what matters
for finding the cuts between rules is kept of a lexeme: whether it is blank, a comment, an opening
or closing bracket, or anything else.  A function name belongs to its opening parenthesis; a string,
an unquoted `url(…)` and their malformed forms are one lexeme each, so brackets inside them are
never seen.

Each scanner below answers how many characters it takes, and each of them is a structural recursion
over the text.  `lex` chains them, and nothing is lost: the texts of the lexemes concatenate to the
input (`flatMap_text_lex`).
-/

import ScopedCss.Text.Numeral

namespace ScopedCss.Css

/-- The three pairs of brackets. -/
inductive Bracket where
  | round
  | square
  | curly
deriving DecidableEq, Repr

/-- What a lexeme is, as far as cutting a text into rules is concerned. -/
inductive Kind where
  | blank
  | comment
  | opening (bracket : Bracket)
  | closing (bracket : Bracket)
  | plain
deriving DecidableEq, Repr

/-- A stretch of CSS text with its kind. -/
structure Lexeme where
  kind : Kind
  text : List Char
deriving DecidableEq, Repr

/-- The newlines of CSS. -/
def isNewline (c : Char) : Bool :=
  c == '\n' || c == '\r' || c == '\x0c'

/-- The white space of CSS. -/
def isSpace (c : Char) : Bool :=
  c == ' ' || c == '\t' || isNewline c

/-- A character that may begin a name: a letter, `_`, NUL, or anything above ASCII. -/
def isNameStart (c : Char) : Bool :=
  c.isAlpha || c == '_' || c == '\x00' || 128 ≤ c.toNat

/-- A character that may continue a name. -/
def isNameChar (c : Char) : Bool :=
  isNameStart c || c.isDigit || c == '-'

/-- A hexadecimal digit in either case. -/
def isHexDigit (c : Char) : Bool :=
  (Numeral.hexValue? c).isSome

/-- A character that an unquoted url may not hold: a control other than NUL and white space, a
quote, or an opening parenthesis. -/
def breaksUrl (c : Char) : Bool :=
  let n := c.toNat
  (1 ≤ n && n ≤ 8) || n == 0x0B || (0x0E ≤ n && n ≤ 0x1F) || n == 0x7F ||
    c == '"' || c == '\'' || c == '('

/-- Whether a text begins with a newline. -/
def startsNewline : List Char → Bool
  | [] => false
  | c :: _ => isNewline c

/-- Whether a text begins with a digit. -/
def startsDigit : List Char → Bool
  | [] => false
  | c :: _ => c.isDigit

/-- Whether a text begins with an unsigned number. -/
def startsUnsigned : List Char → Bool
  | '.' :: cs => startsDigit cs
  | cs => startsDigit cs

/-- Whether a text begins with a name.  A backslash begins one unless a newline follows it, and a
hyphen does before another hyphen, a backslash or a character that begins a name. -/
def startsName : List Char → Bool
  | [] => false
  | '\\' :: cs => !startsNewline cs
  | '-' :: [] => false
  | '-' :: c :: _ => isNameStart c || c == '-' || c == '\\'
  | c :: _ => isNameStart c

/-- The length of the run of white space at the front. -/
def spaceRun (cs : List Char) : Nat :=
  (cs.takeWhile isSpace).length

/-- The length of the run of digits at the front. -/
def digitRun (cs : List Char) : Nat :=
  (cs.takeWhile Char.isDigit).length

/-- The length of the newline at the front, where a carriage return takes its line feed along. -/
def newlineLength : List Char → Nat
  | '\r' :: '\n' :: _ => 2
  | c :: _ => if isNewline c then 1 else 0
  | [] => 0

/-- The length of one white-space character or newline at the front, if there is one. -/
def spaceLength : List Char → Nat
  | [] => 0
  | c :: cs => if isNewline c then newlineLength (c :: cs) else if isSpace c then 1 else 0

/-- The hexadecimal digits of an escape: at most six. -/
def escapeDigits (cs : List Char) : List Char :=
  (cs.take 6).takeWhile isHexDigit

/-- How much of the text after a backslash belongs to the escape: up to six hexadecimal digits and
one white space after them, or one character of any other kind. -/
def escapeLength (cs : List Char) : Nat :=
  let digits := (escapeDigits cs).length
  if digits = 0 then min 1 cs.length
  else digits + spaceLength (cs.drop digits)

/-- The character that an escape stands for; a hexadecimal code that names no character, like the
end of the text, gives the replacement character. -/
def escapeValue (cs : List Char) : Char :=
  match escapeDigits cs with
  | [] =>
    match cs with
    | [] => '\ufffd'
    | c :: _ => if c = '\x00' then '\ufffd' else c
  | digits =>
    let n := digits.foldl (fun n d => n * 16 + (Numeral.hexValue? d).getD 0) 0
    if n ≠ 0 ∧ n.isValidChar then Char.ofNat n else '\ufffd'

/-- The length of the name at the front, after the `skip` characters that an escape already took. -/
def nameLength (skip : Nat) : List Char → Nat
  | [] => 0
  | c :: cs =>
    match skip with
    | skip + 1 => 1 + nameLength skip cs
    | 0 =>
      if isNameChar c then 1 + nameLength 0 cs
      else if c = '\\' ∧ startsNewline cs = false then 1 + nameLength (escapeLength cs) cs
      else 0

/-- The name at the front with its escapes replaced. -/
def nameValue (skip : Nat) : List Char → List Char
  | [] => []
  | c :: cs =>
    match skip with
    | skip + 1 => nameValue skip cs
    | 0 =>
      if isNameChar c then (if c = '\x00' then '\ufffd' else c) :: nameValue 0 cs
      else if c = '\\' ∧ startsNewline cs = false then
        escapeValue cs :: nameValue (escapeLength cs) cs
      else []

/-- The length of the comment after its opening mark; one that is not closed takes the whole
text. -/
def commentLength : List Char → Nat
  | [] => 0
  | '*' :: '/' :: _ => 2
  | _ :: cs => 1 + commentLength cs

/-- The length of a string after its opening quote.  It takes its closing quote along, and stops
before a newline that no backslash precedes. -/
def stringLength (quote : Char) (skip : Nat) : List Char → Nat
  | [] => 0
  | c :: cs =>
    match skip with
    | skip + 1 => 1 + stringLength quote skip cs
    | 0 =>
      if c = quote then 1
      else if isNewline c then 0
      else if c = '\\' then
        if startsNewline cs then 1 + stringLength quote (newlineLength cs) cs
        else 1 + stringLength quote (escapeLength cs) cs
      else 1 + stringLength quote 0 cs

/-- The length of what is left of a malformed url: up to the next closing parenthesis that no
backslash precedes. -/
def badUrlLength : List Char → Nat
  | [] => 0
  | ')' :: _ => 1
  | '\\' :: ')' :: cs => 2 + badUrlLength cs
  | '\\' :: '\\' :: cs => 2 + badUrlLength cs
  | _ :: cs => 1 + badUrlLength cs

/-- The length of what is left of an unquoted url once white space has ended its address. -/
def urlEndLength : List Char → Nat
  | [] => 0
  | c :: cs =>
    if isSpace c then 1 + urlEndLength cs
    else if c = ')' then 1
    else 1 + badUrlLength cs

/-- The length of an unquoted url from its address on. -/
def urlLength (skip : Nat) : List Char → Nat
  | [] => 0
  | c :: cs =>
    match skip with
    | skip + 1 => 1 + urlLength skip cs
    | 0 =>
      if isSpace c then 1 + urlEndLength cs
      else if c = ')' then 1
      else if breaksUrl c then 1 + badUrlLength cs
      else if c = '\\' then
        if startsNewline cs then 1 + badUrlLength cs
        else 1 + urlLength (escapeLength cs) cs
      else 1 + urlLength 0 cs

/-- The length of an unquoted url after `url(`, or nothing if a quote makes it a function. -/
def unquotedUrlLength? (cs : List Char) : Option Nat :=
  let spaces := spaceRun cs
  match cs.drop spaces with
  | '"' :: _ => none
  | '\'' :: _ => none
  | address => some (spaces + urlLength 0 address)

/-- The length of the fraction at the front: a point and at least one digit. -/
def fractionLength : List Char → Nat
  | '.' :: cs => if startsDigit cs then 1 + digitRun cs else 0
  | _ => 0

/-- The length of the exponent at the front: a letter, a sign or none, and at least one digit. -/
def exponentLength : List Char → Nat
  | e :: cs =>
    if e = 'e' ∨ e = 'E' then
      match cs with
      | [] => 0
      | d :: ds =>
        if d.isDigit then 1 + digitRun cs
        else if (d = '+' ∨ d = '-') ∧ startsDigit ds = true then 2 + digitRun ds
        else 0
    else 0
  | [] => 0

/-- The length of the unit at the front: a percent sign or a name. -/
def unitLength (cs : List Char) : Nat :=
  match cs with
  | '%' :: _ => 1
  | _ => if startsName cs then nameLength 0 cs else 0

/-- The length of the number at the front together with its unit. -/
def numericLength (cs : List Char) : Nat :=
  let sign := match cs with
    | '+' :: _ => 1
    | '-' :: _ => 1
    | _ => 0
  let whole := sign + digitRun (cs.drop sign)
  let fraction := whole + fractionLength (cs.drop whole)
  let exponent := fraction + exponentLength (cs.drop fraction)
  exponent + unitLength (cs.drop exponent)

/-- The kind of the name or function at the front and its length. -/
def scanName (cs : List Char) : Kind × Nat :=
  let name := nameLength 0 cs
  match cs.drop name with
  | '(' :: arguments =>
    if (nameValue 0 cs).map Char.toLower = ['u', 'r', 'l'] then
      match unquotedUrlLength? arguments with
      | some n => (.plain, name + 1 + n)
      | none => (.opening .round, name + 1)
    else (.opening .round, name + 1)
  | _ => (.plain, name)

/-- The kind of the lexeme at the front of `c :: cs` and its length. -/
def scan (c : Char) (cs : List Char) : Kind × Nat :=
  if isSpace c then (.blank, 1 + spaceRun cs)
  else if c = '"' ∨ c = '\'' then (.plain, 1 + stringLength c 0 cs)
  else if c = '(' then (.opening .round, 1)
  else if c = '[' then (.opening .square, 1)
  else if c = '\x7b' then (.opening .curly, 1)
  else if c = ')' then (.closing .round, 1)
  else if c = ']' then (.closing .square, 1)
  else if c = '\x7d' then (.closing .curly, 1)
  else if c = '/' ∧ cs.head? = some '*' then (.comment, 2 + commentLength cs.tail)
  else if c = '<' ∧ ['!', '-', '-'].isPrefixOf cs then (.plain, 4)
  else if startsUnsigned (c :: cs) then (.plain, numericLength (c :: cs))
  else if (c = '+' ∨ c = '-') ∧ startsUnsigned cs = true then (.plain, numericLength (c :: cs))
  else if c = '-' ∧ ['-', '>'].isPrefixOf cs then (.plain, 3)
  else if c = '#' then (.plain, 1 + nameLength 0 cs)
  else if c = '@' ∧ startsName cs = true then (.plain, 1 + nameLength 0 cs)
  else if startsName (c :: cs) then scanName (c :: cs)
  else (.plain, 1)

/-- The lexemes of a text, in order. -/
def lex : List Char → List Lexeme
  | [] => []
  | c :: cs =>
    let found := scan c cs
    ⟨found.1, c :: cs.take (found.2 - 1)⟩ :: lex (cs.drop (found.2 - 1))
termination_by cs => cs.length
decreasing_by simp only [List.length_drop, List.length_cons]; omega

theorem lex_nil : lex [] = [] := by
  rw [lex]

theorem lex_cons (c : Char) (cs : List Char) :
    lex (c :: cs) = ⟨(scan c cs).1, c :: cs.take ((scan c cs).2 - 1)⟩ ::
      lex (cs.drop ((scan c cs).2 - 1)) := by
  rw [lex]

/-- No character is lost: the lexemes, written one after the other, are the text. -/
theorem flatMap_text_lex (cs : List Char) : (lex cs).flatMap Lexeme.text = cs := by
  fun_induction lex cs with
  | case1 => rfl
  | case2 c cs found ih => simp [ih]

end ScopedCss.Css
