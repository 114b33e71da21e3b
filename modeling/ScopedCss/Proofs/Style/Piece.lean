/-
# Pieces of compiled text

A compiled style is put together from keys, values and the name of its class.  What matters of a
piece is what it does to a text that it is put in front of: a tame text stays tame, and what the
text closes does not change.  A piece that may stand anywhere is `Inline`; one that may stand only
where no parenthesis or square bracket is open is `BlockLevel`.  Both are kept when pieces are put
together, so each way of writing a piece needs one lemma.
-/

import ScopedCss.Proofs.Css.Closing
import ScopedCss.Proofs.Number.Text
import ScopedCss.Proofs.Text.Lowercase
import ScopedCss.Style.Rules

namespace ScopedCss.Css

/-- A text whose parentheses and square brackets are properly nested. -/
inductive Nested : List Char → Prop where
  | nil : Nested []
  | char {c : Char} {cs : List Char} (hc : c ∉ ['(', ')', '[', ']']) (hrest : Nested cs) :
      Nested (c :: cs)
  | pair {b : Bracket} {inner rest : List Char} (hcurly : b ≠ .curly) (hinner : Nested inner)
      (hrest : Nested rest) : Nested (b.opener :: (inner ++ b.closer :: rest))

/-- A text without quotes, backslashes and braces whose other brackets are properly nested. -/
structure PlainText (cs : List Char) : Prop where
  chars : ∀ c ∈ cs, c ≠ '"' ∧ c ≠ '\'' ∧ c ≠ '\\' ∧ c ≠ '\x7b' ∧ c ≠ '\x7d'
  nested : Nested cs

/-- A character that may begin or end something that is not to be read as brackets. -/
def isMark (c : Char) : Bool :=
  c == '"' || c == '\'' || c == '\\' || c == '/'

theorem Nested.of_free {cs : List Char} (h : Free cs) : Nested cs := by
  induction cs with
  | nil => exact .nil
  | cons c cs ih =>
      refine .char ?_ (ih fun d hd => h d (List.mem_cons_of_mem c hd))
      have hc := h c List.mem_cons_self
      simp_all [isBracket]

/-- A piece that may stand anywhere outside of strings and comments. -/
structure Inline (cs : List Char) : Prop where
  unmarked : ∀ c ∈ cs, isMark c = false
  braceless : '\x7b' ∉ cs
  closes : ∀ {inner depth v}, Closes inner depth v → Closes inner depth (cs ++ v)

/-- A piece that may stand anywhere outside of strings, comments, parentheses and square
brackets. -/
structure BlockLevel (cs : List Char) : Prop where
  tame : ∀ {v}, Tame v → Tame (cs ++ v)
  closes : ∀ {depth v}, Closes [] depth v → Closes [] depth (cs ++ v)

variable {u v cs : List Char} {inner : List Bracket} {depth : Nat}

theorem tame_nil : Tame [] :=
  ⟨fun _ hc => absurd hc List.not_mem_nil, by decide⟩

theorem tame_cons_of_unmarked {c : Char} (hc : isMark c = false) (hv : Tame v) :
    Tame (c :: v) := by
  have hne : ((c ≠ '"' ∧ c ≠ '\'') ∧ c ≠ '\\') ∧ c ≠ '/' := by simpa [isMark] using hc
  constructor
  · intro d hd
    rcases List.mem_cons.1 hd with rfl | hd
    · exact ⟨hne.1.1.1, hne.1.1.2, hne.1.2⟩
    · exact hv.chars d hd
  · intro hmark
    rcases List.infix_cons_iff.1 hmark with hfront | hback
    · exact hne.2 (List.cons_prefix_cons.1 hfront).1.symm
    · exact hv.comment hback

theorem tame_append_of_unmarked (hu : ∀ c ∈ u, isMark c = false) (hv : Tame v) :
    Tame (u ++ v) := by
  induction u with
  | nil => exact hv
  | cons c u ih =>
      exact tame_cons_of_unmarked (hu c List.mem_cons_self)
        (ih fun d hd => hu d (List.mem_cons_of_mem c hd))

/-- A value may hold slashes, for a semicolon keeps it apart from what follows. -/
theorem tame_append_semicolon (hchars : ∀ c ∈ u, c ≠ '"' ∧ c ≠ '\'' ∧ c ≠ '\\')
    (hcomment : ¬['/', '*'] <:+: u) (hv : Tame v) : Tame (u ++ ';' :: v) := by
  induction u with
  | nil => exact tame_cons_of_unmarked rfl hv
  | cons c u ih =>
      have htail := ih (fun d hd => hchars d (List.mem_cons_of_mem c hd))
        fun h => hcomment (h.trans (List.suffix_cons c u).isInfix)
      constructor
      · intro d hd
        rcases List.mem_cons.1 hd with rfl | hd
        · exact hchars d List.mem_cons_self
        · exact htail.chars d hd
      · intro hmark
        rcases List.infix_cons_iff.1 hmark with hfront | hback
        · obtain ⟨rfl, hstar⟩ := List.cons_prefix_cons.1 hfront
          cases u with
          | nil => exact absurd (List.cons_prefix_cons.1 hstar).1 (by decide)
          | cons d u =>
              obtain ⟨rfl, -⟩ := List.cons_prefix_cons.1 hstar
              exact hcomment ⟨[], u, rfl⟩
        · exact htail.comment hback

theorem Closes.append_of_free (hu : Free u) (h : Closes inner depth v) :
    Closes inner depth (u ++ v) := by
  induction u with
  | nil => exact h
  | cons c u ih =>
      exact .free (hu c List.mem_cons_self) (ih fun d hd => hu d (List.mem_cons_of_mem c hd))

/-- What a text closes depends on its first character and on what the rest closes. -/
theorem Closes.cons_congr {c : Char}
    (hrest : ∀ {inner depth}, Closes inner depth u → Closes inner depth v)
    (h : Closes inner depth (c :: u)) : Closes inner depth (c :: v) := by
  cases h with
  | free hfree h => exact .free hfree (hrest h)
  | opening hcurly h => exact .opening hcurly (hrest h)
  | closing hcurly h => exact .closing hcurly (hrest h)
  | openBrace h => exact .openBrace (hrest h)
  | closeBrace h => exact .closeBrace (hrest h)

/-- A properly nested text without braces does not change what the text after it closes. -/
theorem PlainText.closes (hu : PlainText u) (h : Closes inner depth v) :
    Closes inner depth (u ++ v) := by
  obtain ⟨hchars, hnested⟩ := hu
  induction hnested generalizing inner v with
  | nil => exact h
  | @char c cs hc hrest ih =>
      have hfree : isBracket c = false := by
        have hbraces := hchars c List.mem_cons_self
        simp only [List.mem_cons, List.not_mem_nil, or_false, not_or] at hc
        simp [isBracket, hc, hbraces]
      exact .free hfree (ih h fun d hd => hchars d (List.mem_cons_of_mem c hd))
  | @pair b text rest hcurly hinner hrest ihinner ihrest =>
      have htail : Closes (b :: inner) depth (b.closer :: (rest ++ v)) := by
        refine .closing hcurly (ihrest h fun d hd => hchars d ?_)
        simp [hd]
      have hwhole := ihinner htail fun d hd => hchars d (by simp [hd])
      simpa using Closes.opening hcurly hwhole

theorem Closes.dropWhile_append {p : Char → Bool} (hp : ∀ c, p c = true → isBracket c = false)
    (h : Closes inner depth (u ++ v)) : Closes inner depth (u.dropWhile p ++ v) := by
  apply Closes.of_free (free_takeWhile hp u)
  rwa [← List.append_assoc, List.takeWhile_append_dropWhile]

theorem Inline.nil : Inline [] :=
  ⟨fun _ hc => absurd hc List.not_mem_nil, List.not_mem_nil, id⟩

theorem Inline.append (hu : Inline u) (hv : Inline v) : Inline (u ++ v) where
  unmarked c hc := (List.mem_append.1 hc).elim (hu.unmarked c) (hv.unmarked c)
  braceless hc := (List.mem_append.1 hc).elim hu.braceless hv.braceless
  closes h := by
    rw [List.append_assoc]
    exact hu.closes (hv.closes h)

/-- A piece without brackets and marks may stand anywhere. -/
theorem Inline.of_free (hmarks : ∀ c ∈ u, isMark c = false) (hfree : Free u) : Inline u where
  unmarked := hmarks
  braceless hc := absurd (hfree _ hc) (by decide)
  closes h := h.append_of_free hfree

theorem Inline.cons {c : Char} (hmark : isMark c = false) (hbracket : isBracket c = false)
    (hu : Inline u) : Inline (c :: u) :=
  (Inline.of_free (u := [c]) (by simpa using hmark) (Free.cons hbracket free_nil)).append hu

theorem inline_space : Inline [' '] :=
  Inline.nil.cons rfl rfl

/-- A piece stays one when characters other than brackets are dropped from its front. -/
theorem Inline.dropWhile {p : Char → Bool} (hp : ∀ c, p c = true → isBracket c = false)
    (hu : Inline u) : Inline (u.dropWhile p) where
  unmarked c hc := hu.unmarked c ((List.dropWhile_sublist p).subset hc)
  braceless hc := hu.braceless ((List.dropWhile_sublist p).subset hc)
  closes h := (hu.closes h).dropWhile_append hp

theorem Inline.of_plainText (hu : PlainText u) (hslash : '/' ∉ u) : Inline u where
  unmarked c hc := by
    obtain ⟨hdouble, hsingle, hbackslash, -⟩ := hu.chars c hc
    have hne : c ≠ '/' := fun heq => hslash (heq ▸ hc)
    simp [isMark, hdouble, hsingle, hbackslash, hne]
  braceless hc := (hu.chars _ hc).2.2.2.1 rfl
  closes h := hu.closes h

theorem BlockLevel.nil : BlockLevel [] :=
  ⟨id, id⟩

theorem BlockLevel.append (hu : BlockLevel u) (hv : BlockLevel v) : BlockLevel (u ++ v) where
  tame h := by
    rw [List.append_assoc]
    exact hu.tame (hv.tame h)
  closes h := by
    rw [List.append_assoc]
    exact hu.closes (hv.closes h)

theorem Inline.level (hu : Inline u) : BlockLevel u :=
  ⟨tame_append_of_unmarked hu.unmarked, hu.closes⟩

/-- A piece in braces may stand wherever no other bracket is open. -/
theorem BlockLevel.braces (hu : BlockLevel u) : BlockLevel ('\x7b' :: (u ++ ['\x7d'])) where
  tame h := by
    rw [List.cons_append, List.append_assoc]
    exact tame_cons_of_unmarked rfl (hu.tame (tame_cons_of_unmarked rfl h))
  closes h := by
    rw [List.cons_append, List.append_assoc]
    exact .openBrace (hu.closes (.closeBrace h))

end ScopedCss.Css
