/-
# The grammar of a complete rule

`cut` is a machine: it reads lexemes one after the other and keeps a stack of open brackets.  The
grammar here has no stack.  It says by nesting alone what stands inside a bracket (`Inside`), what
may precede the block of a rule (`Prelude`) and what a complete rule is (`RuleLexemes`).  A closing
bracket that does not match stands for itself: inside a bracket it is any closing bracket of another
pair, outside of all brackets it is any but the curly one.

A single lexeme makes the machine do one of three things (`Step`).  Reading what the grammar derives
leaves the stack as it was (`cut_inside`, `cut_prelude`), so the machine cuts after a complete rule
wherever it meets one (`cut_ruleLexemes`).
-/

import ScopedCss.Css.Rules
import ScopedCss.Proofs.Css.Brace

namespace ScopedCss.Css

/-- Whether a lexeme opens a bracket. -/
def Lexeme.opens (x : Lexeme) : Prop :=
  ∃ b, x.kind = .opening b

/-- The lexemes between an opening bracket and the closing bracket that matches it. -/
inductive Inside : Bracket → List Lexeme → Prop where
  | nil {b : Bracket} : Inside b []
  | leaf {b : Bracket} {x : Lexeme} {xs : List Lexeme} (hopens : ¬x.opens)
      (hcloses : x.kind ≠ .closing b) (hrest : Inside b xs) : Inside b (x :: xs)
  | block {b b' : Bracket} {x y : Lexeme} {inner xs : List Lexeme}
      (hopens : x.kind = .opening b') (hinner : Inside b' inner) (hcloses : y.kind = .closing b')
      (hrest : Inside b xs) : Inside b (x :: (inner ++ y :: xs))

/-- The lexemes of a rule before its block: no closing curly bracket, and no curly block outside of
the other brackets. -/
inductive Prelude : List Lexeme → Prop where
  | nil : Prelude []
  | leaf {x : Lexeme} {xs : List Lexeme} (hopens : ¬x.opens) (hcloses : x.kind ≠ .closing .curly)
      (hrest : Prelude xs) : Prelude (x :: xs)
  | block {x y : Lexeme} {inner xs : List Lexeme} {b : Bracket} (hopens : x.kind = .opening b)
      (hcurly : b ≠ .curly) (hinner : Inside b inner) (hcloses : y.kind = .closing b)
      (hrest : Prelude xs) : Prelude (x :: (inner ++ y :: xs))

/-- The lexemes of a rule: a prelude and one curly block, and nothing after it. -/
inductive RuleLexemes : List Lexeme → Prop where
  | intro {xs inner : List Lexeme} {x y : Lexeme} (hprelude : Prelude xs)
      (hopens : x.kind = .opening .curly) (hinner : Inside .curly inner)
      (hcloses : y.kind = .closing .curly) : RuleLexemes (xs ++ x :: (inner ++ [y]))

theorem not_opens_of_plain {x : Lexeme} (hplain : x.kind = .plain) : ¬x.opens := by
  rintro ⟨b, hb⟩
  rw [hplain] at hb
  cases hb

theorem Inside.plain {b : Bracket} {x : Lexeme} {xs : List Lexeme} (hplain : x.kind = .plain)
    (hrest : Inside b xs) : Inside b (x :: xs) :=
  .leaf (not_opens_of_plain hplain) (by rw [hplain]; exact Kind.noConfusion) hrest

theorem Prelude.plain {x : Lexeme} {xs : List Lexeme} (hplain : x.kind = .plain)
    (hrest : Prelude xs) : Prelude (x :: xs) :=
  .leaf (not_opens_of_plain hplain) (by rw [hplain]; exact Kind.noConfusion) hrest

/-- Whether a lexeme may begin a rule: it is not white space, a comment or a closing curly
bracket. -/
def Lexeme.startsRule (x : Lexeme) : Prop :=
  x.kind ≠ .blank ∧ x.kind ≠ .comment ∧ x.kind ≠ .closing .curly

section Steps

variable {x : Lexeme} {xs : List Lexeme} {pending : List Char} {nest outer : List Bracket}
  {b : Bracket}

/-- An opening bracket is always kept, and everything after it is inside of it. -/
theorem cut_opening (hopens : x.kind = .opening b) :
    cut pending nest (x :: xs) = cut (pending ++ x.text) (b :: nest) xs := by
  cases nest <;> simp [cut, hopens]

/-- Inside of a bracket every lexeme is kept but the one that closes it. -/
theorem cut_inner (hopens : ¬x.opens) (hcloses : x.kind ≠ .closing b) :
    cut pending (b :: outer) (x :: xs) = cut (pending ++ x.text) (b :: outer) xs := by
  cases hkind : x.kind with
  | opening b' => exact absurd ⟨b', hkind⟩ hopens
  | closing b' =>
      have hne : b' ≠ b := by
        intro heq
        exact hcloses (by rw [hkind, heq])
      simp [cut, hkind, hne]
  | blank => simp [cut, hkind]
  | comment => simp [cut, hkind]
  | plain => simp [cut, hkind]

/-- A closing bracket that matches leaves the bracket, unless the rule ends here. -/
theorem cut_closing (hcloses : x.kind = .closing b) (houter : b ≠ .curly ∨ outer ≠ []) :
    cut pending (b :: outer) (x :: xs) = cut (pending ++ x.text) outer xs := by
  have hcontinues : ¬(b = .curly ∧ outer = []) := by
    rintro ⟨hcurly, hnil⟩
    exact houter.elim (fun h => h hcurly) (fun h => h hnil)
  simp [cut, hcloses, hcontinues]

/-- The closing curly bracket of the outermost block ends the rule. -/
theorem cut_ends (hcloses : x.kind = .closing .curly) :
    cut pending [.curly] (x :: xs) = (pending ++ x.text) :: cut [] [] xs := by
  simp [cut, hcloses]

/-- Outside of all brackets a lexeme is kept if a rule is in progress or it begins one. -/
theorem cut_outer (hopens : ¬x.opens) (hcloses : x.kind ≠ .closing .curly)
    (hstarts : pending ≠ [] ∨ x.startsRule) :
    cut pending [] (x :: xs) = cut (pending ++ x.text) [] xs := by
  cases hkind : x.kind with
  | opening b => exact absurd ⟨b, hkind⟩ hopens
  | closing b =>
      cases b with
      | curly => exact absurd hkind hcloses
      | round => simp [cut, hkind]
      | square => simp [cut, hkind]
  | blank =>
      have hpending : pending ≠ [] := hstarts.resolve_right fun h => h.1 hkind
      simp [cut, hkind, hpending]
  | comment =>
      have hpending : pending ≠ [] := hstarts.resolve_right fun h => h.2.1 hkind
      simp [cut, hkind, hpending]
  | plain => simp [cut, hkind]

/-- White space before a rule is passed over. -/
theorem cut_blank (hblank : x.kind = .blank) : cut [] [] (x :: xs) = cut [] [] xs := by
  simp [cut, hblank]

/-- A comment before a rule is passed over. -/
theorem cut_comment (hcomment : x.kind = .comment) : cut [] [] (x :: xs) = cut [] [] xs := by
  simp [cut, hcomment]

end Steps

/-- One step of the machine: the lexeme and what is pending are passed over, or the lexeme is kept,
or it ends a rule. -/
inductive Step (pending : List Char) (nest : List Bracket) (x : Lexeme) : Prop where
  | passed (h : ∀ xs, cut pending nest (x :: xs) = cut [] [] xs)
  | kept (nest' : List Bracket) (hfirst : pending = [] → nest = [] → x.kind ≠ .blank)
      (h : ∀ xs, cut pending nest (x :: xs) = cut (pending ++ x.text) nest' xs)
  | ended (hcloses : x.kind = .closing .curly)
      (h : ∀ xs, cut pending nest (x :: xs) = (pending ++ x.text) :: cut [] [] xs)

theorem step (pending : List Char) (nest : List Bracket) (x : Lexeme) : Step pending nest x := by
  cases hkind : x.kind with
  | opening b =>
      exact .kept (b :: nest) (by simp [hkind]) fun xs => cut_opening hkind
  | closing b =>
      cases nest with
      | nil =>
          by_cases hcurly : b = .curly
          · exact .passed fun xs => by simp [cut, hkind, hcurly]
          · refine .kept [] (by simp [hkind]) fun xs => ?_
            cases b <;> simp_all [cut]
      | cons innermost outer =>
          by_cases hmatch : b = innermost
          · subst hmatch
            by_cases hends : b = .curly ∧ outer = []
            · obtain ⟨rfl, rfl⟩ := hends
              exact .ended hkind fun xs => cut_ends hkind
            · exact .kept outer (by simp [hkind]) fun xs =>
                cut_closing hkind (Decidable.not_and_iff_or_not.1 hends)
          · refine .kept (innermost :: outer) (by simp [hkind]) fun xs => cut_inner ?_ ?_
            · rintro ⟨b', hb'⟩
              cases hkind.symm.trans hb'
            · rw [hkind]
              exact fun heq => hmatch (Kind.closing.inj heq)
  | blank | comment =>
      cases nest with
      | nil =>
          by_cases hpending : pending = []
          · exact .passed fun xs => by simp [cut, hkind, hpending]
          · exact .kept [] (fun h => absurd h hpending) fun xs => by simp [cut, hkind, hpending]
      | cons b outer => exact .kept (b :: outer) (by simp) fun xs => by simp [cut, hkind]
  | plain =>
      exact .kept nest (by simp [hkind]) fun xs => by cases nest <;> simp [cut, hkind]

/-- What stands inside a bracket leaves the stack as it was. -/
theorem cut_inside {b : Bracket} {xs : List Lexeme} (hinside : Inside b xs) (pending : List Char)
    (outer : List Bracket) (rest : List Lexeme) :
    cut pending (b :: outer) (xs ++ rest) =
      cut (pending ++ xs.flatMap Lexeme.text) (b :: outer) rest := by
  induction hinside generalizing pending outer rest with
  | nil => simp
  | leaf hopens hcloses hrest ih =>
      rw [List.cons_append, cut_inner hopens hcloses, ih]
      simp
  | @block b b' x y inner xs hopens hinner hcloses hrest ihinner ih =>
      have hnested : b' ≠ .curly ∨ b :: outer ≠ [] := Or.inr (List.cons_ne_nil b outer)
      rw [List.cons_append, cut_opening hopens, List.append_assoc, ihinner, List.cons_append,
        cut_closing hcloses hnested, ih]
      simp

/-- What precedes the block of a rule leaves the stack empty, and all of it is kept. -/
theorem cut_prelude {xs : List Lexeme} (hprelude : Prelude xs) (htext : ∀ x ∈ xs, x.text ≠ [])
    {pending : List Char} (hstarts : pending ≠ [] ∨ ∀ x ∈ xs.head?, x.startsRule)
    (rest : List Lexeme) :
    cut pending [] (xs ++ rest) = cut (pending ++ xs.flatMap Lexeme.text) [] rest := by
  induction hprelude generalizing pending with
  | nil => simp
  | @leaf x xs hopens hcloses hrest ih =>
      have hgrown : pending ++ x.text ≠ [] := by
        intro hnil
        exact htext x List.mem_cons_self (List.append_eq_nil_iff.1 hnil).2
      have hfirst : pending ≠ [] ∨ x.startsRule := hstarts.imp_right fun h => h x rfl
      rw [List.cons_append, cut_outer hopens hcloses hfirst,
        ih (fun z hz => htext z (List.mem_cons_of_mem x hz)) (Or.inl hgrown)]
      simp
  | @block x y inner xs b hopens hcurly hinner hcloses hrest ih =>
      have hgrown : pending ++ x.text ++ inner.flatMap Lexeme.text ++ y.text ≠ [] := by
        intro hnil
        exact htext y (by simp) (List.append_eq_nil_iff.1 hnil).2
      rw [List.cons_append, cut_opening hopens, List.append_assoc, cut_inside hinner,
        List.cons_append, cut_closing hcloses (Or.inl hcurly),
        ih (fun z hz => htext z (by simp [hz])) (Or.inl hgrown)]
      simp

/-- The machine cuts after the lexemes of a rule, whatever follows them. -/
theorem cut_ruleLexemes {xs : List Lexeme} (hrule : RuleLexemes xs)
    (htext : ∀ x ∈ xs, x.text ≠ []) (hstarts : ∀ x ∈ xs.head?, x.startsRule)
    (rest : List Lexeme) :
    cut [] [] (xs ++ rest) = xs.flatMap Lexeme.text :: cut [] [] rest := by
  cases hrule with
  | @intro xs inner x y hprelude hopens hinner hcloses =>
      have hprelude_text : ∀ z ∈ xs, z.text ≠ [] := fun z hz => htext z (by simp [hz])
      have hprelude_starts : ∀ z ∈ xs.head?, z.startsRule := by
        intro z hz
        apply hstarts z
        rw [List.head?_append, Option.mem_def.1 hz, Option.some_or]
        rfl
      rw [List.append_assoc, cut_prelude hprelude hprelude_text (Or.inr hprelude_starts),
        List.cons_append, cut_opening hopens, List.append_assoc inner, cut_inside hinner,
        List.singleton_append, cut_ends hcloses]
      simp

end ScopedCss.Css
