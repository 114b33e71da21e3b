/-
# What plain styles are compiled to

The keys and values of a plain style have no quotes, backslashes or braces in them, their other
brackets are properly nested, and they begin no comments.  Everything that the compiler makes of
them is as good: the names of properties and the selectors of blocks may stand anywhere, and
declarations and rules wherever no parenthesis or square bracket is open (`level_declarations`,
`level_nestedRules`).
-/

import ScopedCss.Proofs.Style.Piece

namespace ScopedCss

open Css

/-- A key that is plain and holds no slash. -/
def PlainKey (key : List Char) : Prop :=
  PlainText key ∧ '/' ∉ key

/-- A number, or a plain text that begins no comment. -/
def Scalar.Plain : Scalar → Prop
  | .text s => PlainText s.toList ∧ ¬['/', '*'] <:+: s.toList
  | .number _ => True

/-- A style all of whose keys and values are plain, at every depth. -/
def Style.Plain : Style → Prop
  | .empty => True
  | .property key value rest => PlainKey key.toList ∧ value.Plain ∧ rest.Plain
  | .block key body rest => PlainKey key.toList ∧ body.Plain ∧ rest.Plain

theorem PlainKey.inline {key : List Char} (h : PlainKey key) : Inline key :=
  .of_plainText h.1 h.2

namespace Declaration

/-- The part of a property name that is made of one character of a key. -/
def kebabChar (c : Char) : List Char :=
  if c.isUpper then '-' :: Text.lowerChar c else Text.lowerChar c

theorem kebab_cons (c : Char) (key : List Char) : kebab (c :: key) = kebabChar c ++ kebab key := by
  rw [kebab, List.flatMap_cons]
  rfl

/-- An ASCII character in a property name that is no small letter or hyphen was in the key. -/
theorem eq_of_mem_kebabChar_of_ascii {c d : Char} (hascii : d.toNat < 128)
    (hlower : d.isLower = false) (hhyphen : d ≠ '-') (h : d ∈ kebabChar c) : d = c := by
  have hmem : d ∈ Text.lowerChar c := by
    unfold kebabChar at h
    split at h
    · exact (List.mem_cons.1 h).resolve_left hhyphen
    · exact h
  rcases Text.isLower_or_eq_of_mem_lowerChar hmem hascii with hsmall | heq
  · rw [hlower] at hsmall
    cases hsmall
  · exact heq

/-- Brackets and marks in a property name are those of the key. -/
theorem eq_of_mem_kebabChar {c d : Char} (hd : isBracket d = true ∨ isMark d = true)
    (h : d ∈ kebabChar c) : d = c := by
  have hclass : d.toNat < 128 ∧ d.isLower = false ∧ d ≠ '-' := by
    simp only [isBracket, isMark, Bool.or_eq_true, beq_iff_eq] at hd
    rcases hd with (((((rfl | rfl) | rfl) | rfl) | rfl) | rfl) | (((rfl | rfl) | rfl) | rfl) <;>
      decide
  exact eq_of_mem_kebabChar_of_ascii hclass.1 hclass.2.1 hclass.2.2 h

theorem kebabChar_of_isBracket {c : Char} (hc : isBracket c = true) : kebabChar c = [c] := by
  obtain ⟨b, rfl | rfl⟩ := isBracket_cases hc <;> cases b <;> rfl

theorem free_kebabChar {c : Char} (hc : isBracket c = false) : Free (kebabChar c) := by
  intro d hd
  cases hbracket : isBracket d with
  | false => rfl
  | true => rw [← hbracket, eq_of_mem_kebabChar (Or.inl hbracket) hd, hc]

theorem mem_of_mem_kebab {d : Char} {key : List Char} (hd : isBracket d = true ∨ isMark d = true)
    (h : d ∈ kebab key) : d ∈ key := by
  obtain ⟨c, hc, hmem⟩ := List.mem_flatMap.1 h
  exact eq_of_mem_kebabChar hd hmem ▸ hc

theorem closes_kebab {key v : List Char} {inner : List Bracket} {depth : Nat}
    (h : Closes inner depth (key ++ v)) : Closes inner depth (kebab key ++ v) := by
  induction key generalizing inner depth with
  | nil => exact h
  | cons c key ih =>
      rw [kebab_cons, List.append_assoc]
      cases hc : isBracket c with
      | true =>
          rw [kebabChar_of_isBracket hc]
          exact Closes.cons_congr ih h
      | false =>
          have hrest : Closes inner depth (key ++ v) :=
            h.of_free (u := [c]) (Free.cons hc free_nil)
          exact (ih hrest).append_of_free (free_kebabChar hc)

theorem inline_propertyName {key : List Char} (h : PlainKey key) : Inline (propertyName key) := by
  unfold propertyName
  split
  · exact h.inline
  · constructor
    · intro d hd
      cases hmark : isMark d with
      | false => rfl
      | true => rw [← hmark, h.inline.unmarked d (mem_of_mem_kebab (Or.inr hmark) hd)]
    · exact fun hbrace => h.inline.braceless (mem_of_mem_kebab (Or.inl rfl) hbrace)
    · exact fun hv => closes_kebab (h.inline.closes hv)

theorem isBracket_of_isNumberChar {c : Char} (h : Number.isNumberChar c = true) :
    isBracket c = false :=
  isBracket_eq_false (fun b => by cases b <;> decide) h

theorem isMark_of_isNumberChar {c : Char} (h : Number.isNumberChar c = true) :
    isMark c = false := by
  cases hmark : isMark c with
  | false => rfl
  | true =>
      simp only [isMark, Bool.or_eq_true, beq_iff_eq] at hmark
      rcases hmark with ((rfl | rfl) | rfl) | rfl <;> cases h

/-- A value and the semicolon that ends it. -/
theorem level_value {value : Scalar} (h : value.Plain) : BlockLevel (value.css ++ [';']) := by
  cases value with
  | text s =>
      obtain ⟨hplain, hcomment⟩ := h
      constructor
      · intro v hv
        rw [List.append_assoc]
        refine tame_append_semicolon (fun c hc => ?_) hcomment hv
        obtain ⟨hdouble, hsingle, hbackslash, -⟩ := hplain.chars c hc
        exact ⟨hdouble, hsingle, hbackslash⟩
      · intro depth v hv
        rw [List.append_assoc]
        exact hplain.closes (hv.append_of_free (u := [';']) (by decide))
  | number n =>
      have hnumber : Inline n.text :=
        .of_free (fun c hc => isMark_of_isNumberChar (Number.isNumberChar_of_mem_text hc))
          fun c hc => isBracket_of_isNumberChar (Number.isNumberChar_of_mem_text hc)
      exact (hnumber.append (Inline.nil.cons rfl rfl)).level

theorem level_write {key : List Char} {value : Scalar} (hkey : PlainKey key)
    (hvalue : value.Plain) : BlockLevel (write key value.css) := by
  have hcolon : Inline [':', ' '] := (Inline.nil.cons rfl rfl).cons rfl rfl
  have hwrite : write key value.css = propertyName key ++ [':', ' '] ++ (value.css ++ [';']) := by
    simp [write]
  rw [hwrite]
  exact ((inline_propertyName hkey).append hcolon).level.append (level_value hvalue)

end Declaration

namespace NestedKey

theorem closes_replaceParent {scope key v : List Char} (hscope : Inline scope)
    {inner : List Bracket} {depth : Nat} (h : Closes inner depth (key ++ v)) :
    Closes inner depth (replaceParent scope key ++ v) := by
  induction key generalizing inner depth with
  | nil => exact h
  | cons c key ih =>
      rw [replaceParent]
      by_cases hparent : c = '&'
      · subst hparent
        have hrest : Closes inner depth (key ++ v) :=
          h.of_free (u := ['&']) (Free.cons rfl free_nil)
        rw [if_pos rfl, List.append_assoc]
        exact hscope.closes hrest
      · rw [if_neg hparent]
        exact Closes.cons_congr ih h

theorem mem_replaceParent {scope key : List Char} {c : Char} (h : c ∈ replaceParent scope key) :
    c ∈ scope ∨ c ∈ key := by
  induction key with
  | nil => exact absurd h List.not_mem_nil
  | cons d key ih =>
      rw [replaceParent] at h
      split at h
      · exact (List.mem_append.1 h).imp_right (List.mem_cons_of_mem d)
      · rcases List.mem_cons.1 h with rfl | h
        · exact Or.inr List.mem_cons_self
        · exact (ih h).imp_right (List.mem_cons_of_mem d)

theorem inline_replaceParent {scope key : List Char} (hscope : Inline scope) (hkey : Inline key) :
    Inline (replaceParent scope key) where
  unmarked c hc := (mem_replaceParent hc).elim (hscope.unmarked c) (hkey.unmarked c)
  braceless hc := (mem_replaceParent hc).elim hscope.braceless hkey.braceless
  closes h := closes_replaceParent hscope (hkey.closes h)

/-- However a key stands to its scope, the selector of its block may stand anywhere. -/
theorem inline_resolve {scope key : List Char} (role : NestedKey) (hscope : Inline scope)
    (hkey : Inline key) : Inline (role.resolve key scope) := by
  unfold resolve
  split
  · exact hkey
  · split
    · exact hscope.append hkey
    · exact hscope.append hkey
    · exact inline_replaceParent hscope hkey
    · exact hscope.append (hkey.cons rfl rfl)
    · exact hscope
    · exact hkey

end NestedKey

/-- What stands between the braces of a rule. -/
def ruleBody (body : List Char) : List Char :=
  ' ' :: (if body = [] then [] else body ++ [' '])

theorem rule_eq (selector body : List Char) :
    rule selector body = selector ++ [' '] ++ '\x7b' :: (ruleBody body ++ ['\x7d']) := by
  unfold rule ruleBody
  split <;> simp

theorem getLast?_rule (selector body : List Char) :
    (rule selector body).getLast? = some '\x7d' := by
  rw [rule_eq, ← List.cons_append, ← List.append_assoc, List.getLast?_concat]

theorem level_space : BlockLevel [' '] :=
  inline_space.level

theorem level_ruleBody {body : List Char} (h : BlockLevel body) : BlockLevel (ruleBody body) := by
  unfold ruleBody
  split
  · exact level_space
  · exact level_space.append (h.append level_space)

theorem level_rule {selector body : List Char} (hselector : Inline selector)
    (hbody : BlockLevel body) : BlockLevel (rule selector body) := by
  rw [rule_eq]
  exact (hselector.level.append level_space).append (level_ruleBody hbody).braces

theorem joinWords_cons (part : List Char) {parts : List (List Char)} (hne : parts ≠ []) :
    joinWords (part :: parts) = part ++ ' ' :: joinWords parts := by
  obtain ⟨next, rest, rfl⟩ := List.exists_cons_of_ne_nil hne
  rw [joinWords, List.intercalate_cons_cons, List.append_assoc, List.singleton_append, joinWords]

theorem level_joinWords {parts : List (List Char)} (h : ∀ part ∈ parts, BlockLevel part) :
    BlockLevel (joinWords parts) := by
  induction parts with
  | nil => exact BlockLevel.nil
  | cons part parts ih =>
      have hpart := h part List.mem_cons_self
      have hrest := ih fun p hp => h p (List.mem_cons_of_mem part hp)
      by_cases hnil : parts = []
      · subst hnil
        rwa [joinWords, List.intercalate_singleton]
      · rw [joinWords_cons part hnil]
        exact hpart.append (level_space.append hrest)

namespace Style

/-- The rule of one block with the given scope. -/
def nestedRule (scope key : List Char) (body : Style) : List Char :=
  let role := NestedKey.classify key
  if role = .conditional then
    rule key (if scope = [] then body.blockText scope else rule scope (body.blockText scope))
  else rule (role.resolve key scope) (body.blockText (role.resolve key scope))

theorem nestedRules_block (scope : List Char) (key : String) (body rest : Style) :
    nestedRules scope (.block key body rest) =
      nestedRule scope key.toList body :: nestedRules scope rest := by
  unfold nestedRule blockText
  rw [nestedRules]
  split <;> simp_all

theorem level_declarations {style : Style} (h : style.Plain) :
    ∀ part ∈ style.declarations, BlockLevel part := by
  induction style with
  | empty => exact fun part hpart => absurd hpart List.not_mem_nil
  | property key value rest ih =>
      intro part hpart
      rcases List.mem_cons.1 hpart with rfl | hpart
      · exact Declaration.level_write h.1 h.2.1
      · exact ih h.2.2 part hpart
  | block key body rest ihbody ih => exact ih h.2.2

theorem level_blockText_of {style : Style} (h : style.Plain) {scope : List Char}
    (hnested : ∀ part ∈ style.nestedRules scope, BlockLevel part) :
    BlockLevel (style.blockText scope) := by
  apply level_joinWords
  intro part hpart
  rcases List.mem_append.1 hpart with hpart | hpart
  · exact level_declarations h part hpart
  · exact hnested part hpart

/-- The rule of a block whose text is good for every scope that is. -/
theorem level_nestedRule {scope key : List Char} {body : Style} (hscope : Inline scope)
    (hkey : Inline key) (hbody : ∀ {inner}, Inline inner → BlockLevel (body.blockText inner)) :
    BlockLevel (nestedRule scope key body) := by
  unfold nestedRule
  simp only
  split
  · apply level_rule hkey
    split
    · exact hbody hscope
    · exact level_rule hscope (hbody hscope)
  · have hselector := NestedKey.inline_resolve (NestedKey.classify key) hscope hkey
    exact level_rule hselector (hbody hselector)

theorem level_nestedRules {style : Style} (h : style.Plain) {scope : List Char}
    (hscope : Inline scope) : ∀ part ∈ style.nestedRules scope, BlockLevel part := by
  induction style generalizing scope with
  | empty => exact fun part hpart => absurd hpart List.not_mem_nil
  | property key value rest ih => exact ih h.2.2 hscope
  | block key body rest ihbody ih =>
      intro part hpart
      rw [nestedRules_block] at hpart
      rcases List.mem_cons.1 hpart with rfl | hpart
      · exact level_nestedRule hscope h.1.inline
          fun hinner => level_blockText_of h.2.1 (ihbody h.2.1 hinner)
      · exact ih h.2.2 hscope part hpart

theorem level_blockText {style : Style} (h : style.Plain) {scope : List Char}
    (hscope : Inline scope) : BlockLevel (style.blockText scope) :=
  level_blockText_of h (level_nestedRules h hscope)

end Style

end ScopedCss
