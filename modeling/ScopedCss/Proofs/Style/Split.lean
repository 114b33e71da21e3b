/-
# Compiled styles and their rules

The compiler writes the rule of the class and the rules of its blocks side by side
(`Style.parts`).  The splitter reads the text again and knows nothing of styles.  For a plain style
it finds the parts, each trimmed, and a sheet accepts all of them (`splitRules_compile`).
-/

import ScopedCss.Proofs.Style.Plain
import ScopedCss.Proofs.Target.Sheet

namespace ScopedCss

open Css

namespace Style

/-- Whether there is a property among the entries. -/
def hasProperty (style : Style) : Bool :=
  style.entries.any fun entry => !entry.2.isBlock

/-- The blocks among the entries, in order. -/
def blocks (style : Style) : List (String × Style) :=
  style.entries.filterMap fun entry => entry.2.body?.map fun body => (entry.1, body)

/-- The rules that a style is compiled to: the rule of the class, unless the style has blocks only,
and the rules of the blocks. -/
def parts (style : Style) (name : String) : List (List Char) :=
  let scope := '.' :: name.toList
  (if style.hasProperty ∨ ¬style.hasBlock then [rule scope (joinWords style.declarations)] else []) ++
    style.blocks.map fun block => nestedRule scope block.1.toList block.2

/-- The parts of a compiled style as a sheet holds them. -/
def trimmedParts (style : Style) (name : String) : List String :=
  (style.parts name).map fun part => String.ofList (Text.trim part)

/-- A class name: small letters, digits and hyphens. -/
def ClassName (name : String) : Prop :=
  ∀ c ∈ name.toList, c.isLower = true ∨ c.isDigit = true ∨ c = '-'

theorem nestedRules_eq (style : Style) (scope : List Char) :
    style.nestedRules scope =
      style.blocks.map fun block => nestedRule scope block.1.toList block.2 := by
  induction style with
  | empty => rfl
  | property key value rest ih =>
      rw [nestedRules, ih]
      rfl
  | block key body rest ihbody ih =>
      rw [nestedRules_block, ih]
      rfl

theorem hasProperty_iff (style : Style) : style.hasProperty = true ↔ style.declarations ≠ [] := by
  induction style with
  | empty => simp [hasProperty, entries, declarations]
  | property key value rest ih =>
      simp [hasProperty, entries, declarations, Value.isBlock, Value.body?]
  | block key body rest ihbody ih =>
      simpa [hasProperty, entries, declarations, Value.isBlock, Value.body?] using ih

theorem topRules_eq_parts (style : Style) (name : String) :
    style.topRules name.toList = style.parts name := by
  have hown : (style.hasProperty ∨ ¬style.hasBlock) ↔
      ¬(style.hasBlock ∧ style.declarations = []) := by
    rw [hasProperty_iff]
    by_cases hblock : style.hasBlock = true <;> simp [hblock]
  unfold topRules parts
  simp only [nestedRules_eq, hown, ite_not]

theorem compile_eq_parts (style : Style) (name : String) :
    style.compile name = String.ofList (joinWords (style.parts name)) := by
  rw [compile, topRules_eq_parts]

theorem blocks_ne_nil {style : Style} (h : style.hasBlock = true) : style.blocks ≠ [] := by
  induction style with
  | empty => cases h
  | property key value rest ih => exact ih h
  | block key body rest ihbody ih => exact List.cons_ne_nil _ _

theorem parts_ne_nil (style : Style) (name : String) : style.parts name ≠ [] := by
  unfold parts
  by_cases hown : style.hasProperty ∨ ¬style.hasBlock
  · simp only [if_pos hown, List.singleton_append]
    exact List.cons_ne_nil _ _
  · have hblock : style.hasBlock = true := by
      rw [not_or, not_not] at hown
      exact hown.2
    simp only [if_neg hown, List.nil_append]
    exact mt List.map_eq_nil_iff.1 (blocks_ne_nil hblock)

end Style

/-- A rule with a selector that is not blank, both of whose halves keep to themselves. -/
inductive RulePart : List Char → Prop where
  | intro {selector body : List Char} (hselector : Inline selector)
      (hblank : ∃ c ∈ selector, Text.isBlank c = false) (hbody : BlockLevel body) :
      RulePart (rule selector body)

theorem isBlank_of_isSpace {c : Char} (h : isSpace c = true) : Text.isBlank c = true := by
  simp only [isSpace, isNewline, Bool.or_eq_true, beq_iff_eq] at h
  rcases h with (rfl | rfl) | (rfl | rfl) | rfl <;> decide

theorem isBracket_of_isBlank {c : Char} (h : Text.isBlank c = true) : isBracket c = false :=
  isBracket_eq_false (fun b => by cases b <;> decide) h

theorem length_le_byteLength (cs : List Char) : cs.length ≤ Text.byteLength cs := by
  induction cs with
  | nil => exact Nat.le_refl 0
  | cons c cs ih =>
      have hpos := Char.utf8Size_pos c
      rw [Text.byteLength] at ih ⊢
      rw [List.length_cons, List.map_cons, List.sum_cons]
      omega

/-- A sheet reads braces only, and finds them balanced where all brackets match. -/
theorem balanced_of_closes {inner : List Bracket} {depth : Nat} {cs : List Char}
    (h : Closes inner depth cs) : Sheet.balanced depth cs = true := by
  induction h with
  | nil => rfl
  | @free inner depth c cs hfree hrest ih =>
      have hopener : c ≠ '\x7b' := by
        rintro rfl
        cases hfree
      have hcloser : c ≠ '\x7d' := by
        rintro rfl
        cases hfree
      simp only [Sheet.balanced, if_neg hopener, if_neg hcloser, ih]
  | @opening inner depth b cs hcurly hrest ih =>
      cases b with
      | curly => exact absurd rfl hcurly
      | round => exact ih
      | square => exact ih
  | @closing inner depth b cs hcurly hrest ih =>
      cases b with
      | curly => exact absurd rfl hcurly
      | round => exact ih
      | square => exact ih
  | openBrace hrest ih => exact ih
  | closeBrace hrest ih => exact ih

namespace RulePart

variable {part : List Char}

theorem level (h : RulePart part) : BlockLevel part := by
  cases h with
  | intro hselector hblank hbody => exact level_rule hselector hbody

/-- The splitter cuts after a part, and passes over the white space in front of it. -/
theorem cut (h : RulePart part) {tail : List Char} (htail : Tame tail) :
    cut [] [] (lex (part ++ tail)) = part.dropWhile isSpace :: cut [] [] (lex tail) := by
  have htame := h.level.tame htail
  cases h with
  | @intro selector body hselector hblank hbody =>
      rw [rule_eq] at htame ⊢
      obtain ⟨c, hc, hcblank⟩ := hblank
      have hne : (selector ++ [' ']).dropWhile isSpace ≠ [] := by
        intro hnil
        have hspace := List.dropWhile_eq_nil_iff.1 hnil c (List.mem_append_left [' '] hc)
        rw [isBlank_of_isSpace hspace] at hcblank
        cases hcblank
      have hdrop (rest : List Char) : (selector ++ [' '] ++ rest).dropWhile isSpace =
          (selector ++ [' ']).dropWhile isSpace ++ rest := by
        rw [List.dropWhile_append, if_neg (by simpa using hne)]
      have hinline : Inline ((selector ++ [' ']).dropWhile isSpace) :=
        (hselector.append inline_space).dropWhile fun _ => isBracket_of_isSpace
      have hfront : Closes [] 0 ((selector ++ [' ']).dropWhile isSpace) := by
        simpa using hinline.closes Closes.nil
      have hstarts : ∀ d ∈ ((selector ++ [' ']).dropWhile isSpace).head?, isSpace d = false := by
        intro d hd
        have hhead := List.head?_dropWhile_not isSpace (selector ++ [' '])
        rw [Option.mem_def.1 hd] at hhead
        exact hhead
      have hinside : Closes [] 0 (ruleBody body) := by
        simpa using (level_ruleBody hbody).closes Closes.nil
      rw [List.append_assoc _ _ tail, ← cut_dropWhile_isSpace, hdrop, hdrop, List.cons_append,
        List.append_assoc, List.singleton_append]
      apply cut_braceRule hfront hinline.braceless hstarts hinside
      rw [← List.takeWhile_append_dropWhile (p := isSpace) (l := selector ++ [' ']),
        List.append_assoc, List.append_assoc] at htame
      simpa using htame.of_append

theorem trim_rule {selector : List Char} (hblank : ∃ c ∈ selector, Text.isBlank c = false)
    (body : List Char) : Text.trim (rule selector body) = rule (Text.trimStart selector) body := by
  have hne : selector.dropWhile Text.isBlank ≠ [] := by
    obtain ⟨c, hc, hcblank⟩ := hblank
    intro hnil
    rw [List.dropWhile_eq_nil_iff.1 hnil c hc] at hcblank
    cases hcblank
  have hstart : Text.trimStart (rule selector body) = rule (Text.trimStart selector) body := by
    rw [rule_eq, rule_eq, List.append_assoc, List.append_assoc, Text.trimStart,
      List.dropWhile_append, if_neg (by simpa using hne), Text.trimStart]
  rw [Text.trim, hstart]
  apply Text.trimEnd_eq_self
  intro c hc
  cases (getLast?_rule (Text.trimStart selector) body).symm.trans hc
  decide

/-- A trimmed part is a part again. -/
theorem trim (h : RulePart part) : RulePart (Text.trim part) := by
  cases h with
  | @intro selector body hselector hblank hbody =>
      rw [trim_rule hblank]
      refine .intro (hselector.dropWhile fun _ => isBracket_of_isBlank) ?_ hbody
      obtain ⟨c, hc, hcblank⟩ := hblank
      rw [← List.takeWhile_append_dropWhile (p := Text.isBlank) (l := selector),
        List.mem_append] at hc
      rcases hc with hc | hc
      · rw [List.all_eq_true.1 List.all_takeWhile c hc] at hcblank
        cases hcblank
      · exact ⟨c, hc, hcblank⟩

theorem isRuleText (h : RulePart part) : Css.isRuleText part = true := by
  cases h with
  | @intro selector body hselector hblank hbody =>
      obtain ⟨c, hc, -⟩ := hblank
      have hlength : 3 < (rule selector body).length := by
        have hpos := List.length_pos_of_mem hc
        simp only [rule_eq, ruleBody, List.length_append, List.length_cons, List.length_nil]
        omega
      have hlong := Nat.lt_of_lt_of_le hlength (length_le_byteLength _)
      simp only [Css.isRuleText, hlong]
      simp [rule_eq]

/-- The braces of a part balance, and a block with a selector is what a sheet asks for. -/
theorem objection? (h : RulePart part) : Sheet.objection? part = none := by
  have hbalanced : Sheet.balanced 0 part = true := by
    have hcloses := h.level.closes Closes.nil
    rw [List.append_nil] at hcloses
    exact balanced_of_closes hcloses
  cases h with
  | @intro selector body hselector hblank hbody =>
      have hopener : (rule selector body).contains '\x7b' = true := by simp [rule_eq]
      have hfront : (rule selector body).takeWhile (· != '\x7b') = selector ++ [' '] := by
        have hall : ∀ c ∈ selector ++ [' '], (c != '\x7b') = true := by
          intro c hc
          rw [bne_iff_ne]
          rintro rfl
          exact (hselector.append inline_space).braceless hc
        rw [rule_eq, List.takeWhile_append_of_pos hall, List.takeWhile_cons_of_neg (by decide),
          List.append_nil]
      have hnamed : Text.isAllBlank (selector ++ [' ']) = false := by
        obtain ⟨c, hc, hcblank⟩ := hblank
        rw [Text.isAllBlank, List.all_eq_false]
        exact ⟨c, List.mem_append_left [' '] hc, by simp [hcblank]⟩
      rw [Sheet.objection?, hopener, hfront, hnamed, hbalanced, getLast?_rule]
      rfl

end RulePart

/-- The cuts of parts that are put side by side are the parts, but for white space in front. -/
theorem cut_joinWords {parts : List (List Char)} (h : ∀ part ∈ parts, RulePart part) :
    cut [] [] (lex (joinWords parts)) = parts.map (List.dropWhile isSpace) := by
  induction parts with
  | nil => rw [joinWords, List.intercalate_nil, lex_nil]; rfl
  | cons part parts ih =>
      have hpart := h part List.mem_cons_self
      have hrest (p : List Char) (hp : p ∈ parts) := h p (List.mem_cons_of_mem part hp)
      by_cases hnil : parts = []
      · subst hnil
        have hcut := hpart.cut tame_nil
        rw [List.append_nil, lex_nil] at hcut
        rw [joinWords, List.intercalate_singleton, hcut]
        rfl
      · have hlevel := level_space.append (level_joinWords fun p hp => (hrest p hp).level)
        have htame := hlevel.tame tame_nil
        rw [List.append_nil, List.singleton_append] at htame
        rw [joinWords_cons part hnil, hpart.cut htame, cut_space rfl, ih hrest, List.map_cons]

/-- The splitter finds the parts of a text, each trimmed. -/
theorem rules_joinWords {parts : List (List Char)} (hne : parts ≠ [])
    (h : ∀ part ∈ parts, RulePart part) : rules (joinWords parts) = parts.map Text.trim := by
  have htrim : (parts.map (List.dropWhile isSpace)).map Text.trim = parts.map Text.trim := by
    rw [List.map_map]
    apply List.map_congr_left
    intro part _
    have hblanks : ∀ c ∈ part.takeWhile isSpace, Text.isBlank c = true :=
      fun c hc => isBlank_of_isSpace (List.all_eq_true.1 List.all_takeWhile c hc)
    rw [Function.comp_apply, ← Text.trim_append_of_blank hblanks,
      List.takeWhile_append_dropWhile]
  have hcandidates : candidates (joinWords parts) = parts.map Text.trim := by
    rw [candidates, cut_joinWords h, ← htrim]
    obtain ⟨part, rest, rfl⟩ := List.exists_cons_of_ne_nil hne
    rfl
  rw [rules, hcandidates, List.filter_eq_self]
  intro rule hrule
  obtain ⟨part, hpart, rfl⟩ := List.mem_map.1 hrule
  exact (h part hpart).trim.isRuleText

namespace Style

theorem inline_className {name : String} (h : ClassName name) : Inline ('.' :: name.toList) := by
  have hclass : ∀ c ∈ name.toList, Number.isNumberChar c = true := by
    intro c hc
    rcases h c hc with hlower | hdigit | rfl
    · simp [Number.isNumberChar, Char.isAlphanum, Char.isAlpha, hlower]
    · exact Number.isNumberChar_of_isDigit hdigit
    · decide
  refine Inline.cons rfl rfl (.of_free ?_ ?_)
  · exact fun c hc => Declaration.isMark_of_isNumberChar (hclass c hc)
  · exact fun c hc => Declaration.isBracket_of_isNumberChar (hclass c hc)

/-- The selector of a block is not blank if the scope and the key are not. -/
theorem exists_not_blank_resolve {scope key : List Char} (role : NestedKey)
    (hscope : ∃ c ∈ scope, Text.isBlank c = false) (hkey : ∃ c ∈ key, Text.isBlank c = false) :
    ∃ c ∈ role.resolve key scope, Text.isBlank c = false := by
  obtain ⟨c, hc, hcblank⟩ := hscope
  have hreplaced : ∃ d ∈ NestedKey.replaceParent scope key, Text.isBlank d = false := by
    obtain ⟨d, hd, hdblank⟩ := hkey
    induction key with
    | nil => cases hd
    | cons first key ih =>
        rw [NestedKey.replaceParent]
        split
        · exact ⟨c, List.mem_append_left key hc, hcblank⟩
        · rcases List.mem_cons.1 hd with rfl | hd
          · exact ⟨d, List.mem_cons_self, hdblank⟩
          · obtain ⟨z, hz, hzblank⟩ := ih hd
            exact ⟨z, List.mem_cons_of_mem first hz, hzblank⟩
  unfold NestedKey.resolve
  split
  · exact hkey
  · split
    · exact ⟨c, List.mem_append_left key hc, hcblank⟩
    · exact ⟨c, List.mem_append_left key hc, hcblank⟩
    · exact hreplaced
    · exact ⟨c, List.mem_append_left (' ' :: key) hc, hcblank⟩
    · exact ⟨c, hc, hcblank⟩
    · exact hkey

theorem rulePart_nestedRule {scope key : List Char} {body : Style} (hscope : Inline scope)
    (hscope' : ∃ c ∈ scope, Text.isBlank c = false) (hkey : Inline key)
    (hkey' : ∃ c ∈ key, Text.isBlank c = false) (hbody : body.Plain) :
    RulePart (nestedRule scope key body) := by
  unfold nestedRule
  simp only
  split
  · refine .intro hkey hkey' ?_
    split
    · exact level_blockText hbody hscope
    · exact level_rule hscope (level_blockText hbody hscope)
  · have hselector := NestedKey.inline_resolve (NestedKey.classify key) hscope hkey
    exact .intro hselector (exists_not_blank_resolve _ hscope' hkey')
      (level_blockText hbody hselector)

theorem plain_of_mem_blocks {style : Style} (h : style.Plain) {block : String × Style}
    (hblock : block ∈ style.blocks) : PlainKey block.1.toList ∧ block.2.Plain := by
  induction style with
  | empty => cases hblock
  | property key value rest ih => exact ih h.2.2 hblock
  | block key body rest ihbody ih =>
      rcases List.mem_cons.1 hblock with rfl | hblock
      · exact ⟨h.1, h.2.1⟩
      · exact ih h.2.2 hblock

variable {style : Style} {name : String}

theorem rulePart_of_mem_parts (h : style.Plain)
    (hkeys : ∀ block ∈ style.blocks, Text.isAllBlank block.1.toList = false)
    (hname : ClassName name) : ∀ part ∈ style.parts name, RulePart part := by
  have hscope := inline_className hname
  have hscope' : ∃ c ∈ '.' :: name.toList, Text.isBlank c = false :=
    ⟨'.', List.mem_cons_self, by decide⟩
  intro part hpart
  rcases List.mem_append.1 hpart with hpart | hpart
  · split at hpart
    · rw [List.mem_singleton.1 hpart]
      exact .intro hscope hscope' (level_joinWords (level_declarations h))
    · cases hpart
  · obtain ⟨block, hblock, rfl⟩ := List.mem_map.1 hpart
    obtain ⟨hkey, hbody⟩ := plain_of_mem_blocks h hblock
    have hkey' : ∃ c ∈ block.1.toList, Text.isBlank c = false := by
      simpa [Text.isAllBlank] using hkeys block hblock
    exact rulePart_nestedRule hscope hscope' hkey.inline hkey' hbody

/-- The splitter finds the parts of a compiled style, each trimmed, and a sheet takes all of them in
their order. -/
theorem splitRules_compile (h : style.Plain)
    (hkeys : ∀ block ∈ style.blocks, Text.isAllBlank block.1.toList = false)
    (hname : ClassName name) :
    splitRules (style.compile name) = style.trimmedParts name ∧
      style.compile name = String.ofList (joinWords (style.parts name)) ∧
      ∀ (sheet : Sheet) (id : String),
        InjectionTarget.inject (⟨sheet⟩ : LiveSheet Sheet) id (style.compile name) =
          (⟨⟨sheet.rules ++ style.trimmedParts name⟩⟩, none) := by
  have hparts := rulePart_of_mem_parts h hkeys hname
  have hsplit : splitRules (style.compile name) = style.trimmedParts name := by
    rw [compile_eq_parts, splitRules, String.toList_ofList,
      rules_joinWords (parts_ne_nil style name) hparts, List.map_map]
    rfl
  have haccepts : ∀ rule ∈ style.trimmedParts name, Sheet.accepts rule = true := by
    intro rule hrule
    obtain ⟨part, hpart, rfl⟩ := List.mem_map.1 hrule
    rw [Sheet.accepts, Text.trimString_ofList_trim, String.toList_ofList,
      (hparts part hpart).trim.objection?]
    rfl
  refine ⟨hsplit, compile_eq_parts style name, fun sheet id => ?_⟩
  have htrimmed : (style.trimmedParts name).map Text.trimString = style.trimmedParts name := by
    rw [trimmedParts, List.map_map]
    exact List.map_congr_left fun part _ => Text.trimString_ofList_trim part
  show (_, _) = _
  rw [hsplit, LiveSheet.appendRules_of_accepts haccepts, htrimmed]
  rfl

/-- A url that ends early, a selector list and a conditional rule, put into a sheet with a rule. -/
theorem splitRules_compile_url :
    let style : Style := .property "background" (.text "url(a(b) [c])")
      (.block ":is(p, [q])" (.property "zIndex" (.text "1") .empty)
        (.block "@media (w)" (.block "&:hover" (.property "top" (.text "0") .empty) .empty) .empty))
    let found := [".k1 \x7b background: url(a(b) [c]); \x7d", ".k1:is(p, [q]) \x7b z-index: 1; \x7d",
      "@media (w) \x7b .k1 \x7b .k1:hover \x7b top: 0; \x7d \x7d \x7d"]
    splitRules (style.compile "k1") = found ∧
      InjectionTarget.inject (⟨⟨["p \x7b \x7d"]⟩⟩ : LiveSheet Sheet) "k1" (style.compile "k1") =
        (⟨⟨"p \x7b \x7d" :: found⟩⟩, none) := by
  intro style found
  have plain {s : String} (hnested : Nested s.toList)
      (hmarks : (s.toList.all fun c => !isMark c && c != '\x7b' && c != '\x7d') = true) :
      PlainKey s.toList ∧ (Scalar.text s).Plain := by
    have hchars : ∀ c ∈ s.toList, isMark c = false ∧ c ≠ '\x7b' ∧ c ≠ '\x7d' := by
      simpa [and_assoc] using hmarks
    have hslash : '/' ∉ s.toList := fun h => absurd (hchars _ h).1 (by decide)
    have hplain : PlainText s.toList := by
      refine ⟨fun c hc => ?_, hnested⟩
      obtain ⟨hmark, hopen, hclose⟩ := hchars c hc
      simp only [isMark, Bool.or_eq_false_iff, beq_eq_false_iff_ne] at hmark
      exact ⟨hmark.1.1.1, hmark.1.1.2, hmark.1.2, hopen, hclose⟩
    exact ⟨⟨hplain, hslash⟩, hplain, fun h => hslash (h.subset List.mem_cons_self)⟩
  have hurl : Nested "url(a(b) [c])".toList :=
    .char (by decide) <| .char (by decide) <| .char (by decide) <| .pair (b := .round) (by decide)
      (.char (by decide) <| .pair (b := .round) (by decide) (.char (by decide) .nil) <|
        .char (by decide) <| .pair (b := .square) (by decide) (.char (by decide) .nil) .nil) .nil
  have his : Nested ":is(p, [q])".toList :=
    .char (by decide) <| .char (by decide) <| .char (by decide) <| .pair (b := .round) (by decide)
      (.char (by decide) <| .char (by decide) <| .char (by decide) <|
        .pair (b := .square) (by decide) (.char (by decide) .nil) .nil) .nil
  have hmedia : Nested "@media (w)".toList :=
    .char (by decide) <| .char (by decide) <| .char (by decide) <| .char (by decide) <|
      .char (by decide) <| .char (by decide) <| .char (by decide) <|
        .pair (b := .round) (by decide) (.char (by decide) .nil) .nil
  have hplain : style.Plain :=
    ⟨(plain (.of_free (by decide)) (by decide)).1,
      (plain hurl (by decide)).2, (plain his (by decide)).1,
      ⟨(plain (.of_free (by decide)) (by decide)).1,
        (plain (.of_free (by decide)) (by decide)).2, trivial⟩,
      (plain hmedia (by decide)).1,
      ⟨(plain (.of_free (by decide)) (by decide)).1,
        ⟨(plain (.of_free (by decide)) (by decide)).1,
          (plain (.of_free (by decide)) (by decide)).2, trivial⟩, trivial⟩, trivial⟩
  have hkeys : ∀ block ∈ style.blocks, Text.isAllBlank block.1.toList = false := by decide
  have hname : ClassName "k1" :=
    List.forall_mem_cons.2 ⟨Or.inl rfl, List.forall_mem_singleton.2 (Or.inr (Or.inl rfl))⟩
  have hparts : style.trimmedParts "k1" = found := by cbv
  obtain ⟨hsplit, -, hinject⟩ := splitRules_compile hplain hkeys hname
  rw [hparts] at hsplit
  exact ⟨hsplit, by rw [hinject, hparts]; rfl⟩

end Style

end ScopedCss
