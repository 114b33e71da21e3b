/-
# Templates

A template is literal text with values between its segments.  `interpolate` puts them together;
nothing is escaped.  `Placeholders.split` goes the other way: it takes a source in which values are
marked by `$` and an expression in braces, and separates the segments from the expressions.
-/

import ScopedCss.Text.Blank

namespace ScopedCss

/-- Literal segments and the values between them.  There should be one more segment than there are
values; values without a segment after them are ignored, and missing values are empty. -/
structure Template where
  segments : List String
  values : List String
deriving DecidableEq, Repr

/-- The segments after the first, each after its value. -/
def interpolateRest : List String → List String → String
  | [], _ => ""
  | s :: segments, [] => s ++ interpolateRest segments []
  | s :: segments, v :: values => v ++ s ++ interpolateRest segments values

/-- Segments and values put together, beginning with a segment. -/
def interpolate : List String → List String → String
  | [], _ => ""
  | s :: segments, values => s ++ interpolateRest segments values

namespace Template

/-- A template without values. -/
def raw (css : String) : Template := ⟨[css], []⟩

/-- The text of a template. -/
def css (template : Template) : String :=
  interpolate template.segments template.values

end Template

/-- A source separated into its literal segments and the expressions of its placeholders. -/
structure Placeholders where
  segments : List (List Char)
  expressions : List (List Char)
deriving DecidableEq, Repr

namespace Placeholders

/-- Why a source cannot be separated. -/
inductive Fault where
  | unterminated
  | empty
deriving DecidableEq, Repr

/-- The text of a fault. -/
def Fault.message : Fault → String
  | .unterminated => "unterminated `$\x7b` placeholder"
  | .empty => "empty `$\x7b\x7d` placeholder"

/-- The expression at the front of a text, up to the brace that closes it, and the text after that
brace.  `depth` counts the braces that the expression itself has open. -/
def closing? (depth : Nat) : List Char → Option (List Char × List Char)
  | [] => none
  | c :: cs =>
    if c = '\x7d' then
      match depth with
      | 0 => some ([], cs)
      | outer + 1 => (closing? outer cs).map fun found => (c :: found.1, found.2)
    else
      (closing? (if c = '\x7b' then depth + 1 else depth) cs).map
        fun found => (c :: found.1, found.2)

/-- The text up to the first mark of a placeholder, and the text after that mark. -/
def opening? : List Char → Option (List Char × List Char)
  | [] => none
  | [_] => none
  | c :: d :: cs =>
    if c = '$' ∧ d = '\x7b' then some ([], cs)
    else (opening? (d :: cs)).map fun found => (c :: found.1, found.2)

theorem length_closing? {depth : Nat} {cs expression rest : List Char}
    (h : closing? depth cs = some (expression, rest)) :
    rest.length < cs.length := by
  induction cs generalizing depth expression with
  | nil => simp [closing?] at h
  | cons c cs ih =>
    simp only [closing?] at h
    split at h
    · split at h
      · simp only [Option.some.injEq, Prod.mk.injEq] at h
        simp [h.2]
      · obtain ⟨⟨_, _⟩, hfound, heq⟩ := Option.map_eq_some_iff.1 h
        simp only [Prod.mk.injEq] at heq
        obtain ⟨rfl, rfl⟩ := heq
        have := ih hfound
        simp only [List.length_cons]
        omega
    · obtain ⟨⟨_, _⟩, hfound, heq⟩ := Option.map_eq_some_iff.1 h
      simp only [Prod.mk.injEq] at heq
      obtain ⟨rfl, rfl⟩ := heq
      have := ih hfound
      simp only [List.length_cons]
      omega

theorem length_opening? {cs segment rest : List Char}
    (h : opening? cs = some (segment, rest)) : rest.length < cs.length := by
  fun_induction opening? cs generalizing segment with
  | case1 => simp at h
  | case2 => simp at h
  | case3 c d cs hmark =>
    simp only [Option.some.injEq, Prod.mk.injEq] at h
    simp only [← h.2, List.length_cons]
    omega
  | case4 c d cs hmark ih =>
    obtain ⟨⟨_, _⟩, hfound, heq⟩ := Option.map_eq_some_iff.1 h
    simp only [Prod.mk.injEq] at heq
    obtain ⟨rfl, rfl⟩ := heq
    have := ih hfound
    simp only [List.length_cons] at this ⊢
    omega

/-- Separate a source into segments and expressions.  Expressions are trimmed, and none may be
blank. -/
def split (source : List Char) : Except Fault Placeholders :=
  match _hopen : opening? source with
  | none => .ok ⟨[source], []⟩
  | some (segment, afterMark) =>
    match _hclose : closing? 0 afterMark with
    | none => .error .unterminated
    | some (expression, rest) =>
      if Text.trim expression = [] then .error .empty
      else
        match split rest with
        | .ok tail => .ok ⟨segment :: tail.segments, Text.trim expression :: tail.expressions⟩
        | .error fault => .error fault
termination_by source.length
decreasing_by
  have := length_opening? _hopen
  have := length_closing? _hclose
  omega

end Placeholders

/-- The template of a source whose placeholders have the given values. -/
def Template.ofSource (source : String) (values : List String) :
    Except Placeholders.Fault Template :=
  (Placeholders.split source.toList).map fun parts => ⟨parts.segments.map String.ofList, values⟩

end ScopedCss
