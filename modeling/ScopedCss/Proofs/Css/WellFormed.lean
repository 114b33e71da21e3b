/-
# Well-formed sheets

A well-formed sheet is written as complete rules with separators around them, and a separator is
white space and closed comments.  The splitter finds exactly these rules, whatever braces, quotes,
urls and comments they hold, and it splits two such sheets put together as it splits them apart
(`splitRules_wellFormed`).
-/

import Mathlib
import ScopedCss.Proofs.Css.Grammar
import ScopedCss.Proofs.Text.Trim

namespace ScopedCss.Css

/-- White space and closed comments. -/
inductive Separator : List Char → Prop where
  | nil : Separator []
  | space {c : Char} {cs : List Char} (hspace : isSpace c = true) (hrest : Separator cs) :
      Separator (c :: cs)
  | comment {body cs : List Char} (hbody : ¬['*', '/'] <:+: body) (hrest : Separator cs) :
      Separator ('/' :: '*' :: (body ++ '*' :: '/' :: cs))

/-- A text that is one complete rule by itself. -/
structure CompleteRule (rule : List Char) : Prop where
  starts : ∀ x ∈ (lex rule).head?, x.startsRule
  shape : RuleLexemes (lex rule)
  long : 3 < Text.byteLength rule
  first : ∀ c ∈ rule.head?, Text.isBlank c = false
  last : ∀ c ∈ rule.getLast?, Text.isBlank c = false

/-- The text of a sheet: what precedes the first rule, and the rules, each with what follows it. -/
def sheetText (lead : List Char) (parts : List (List Char × List Char)) : List Char :=
  lead ++ parts.flatMap fun part => part.1 ++ part.2

/-- A sheet of at least one complete rule with separators before, between and after. -/
structure WellFormed (lead : List Char) (parts : List (List Char × List Char)) : Prop where
  lead : Separator lead
  rules : ∀ part ∈ parts, CompleteRule part.1
  separators : ∀ part ∈ parts, Separator part.2
  nonempty : parts ≠ []

/-- White space in front does not change the cuts. -/
theorem cut_dropWhile_isSpace (cs : List Char) :
    cut [] [] (lex (cs.dropWhile isSpace)) = cut [] [] (lex cs) := by
  cases cs with
  | nil => rfl
  | cons c cs =>
      by_cases hspace : isSpace c = true
      · have hscan : scan c cs = (.blank, 1 + spaceRun cs) := by rw [scan, if_pos hspace]
        rw [List.dropWhile_cons_of_pos hspace, lex_cons, hscan, cut_blank rfl,
          Nat.add_sub_cancel_left, spaceRun]
        congr 2
        exact (List.drop_left' rfl).symm.trans
          (congrArg (List.drop _) List.takeWhile_append_dropWhile)
      · rw [List.dropWhile_cons_of_neg hspace]

theorem cut_space {c : Char} (hspace : isSpace c = true) (cs : List Char) :
    cut [] [] (lex (c :: cs)) = cut [] [] (lex cs) := by
  rw [← cut_dropWhile_isSpace (c :: cs), List.dropWhile_cons_of_pos hspace,
    cut_dropWhile_isSpace]

/-- A comment ends at the first of its closing marks. -/
theorem commentLength_closed {body : List Char} (hbody : ¬['*', '/'] <:+: body)
    (cs : List Char) : commentLength (body ++ '*' :: '/' :: cs) = body.length + 2 := by
  induction body with
  | nil => rfl
  | cons c body ih =>
      have hrest : ¬['*', '/'] <:+: body :=
        fun h => hbody (h.trans (List.suffix_cons c body).isInfix)
      rw [List.cons_append, commentLength, ih hrest, List.length_cons]
      · omega
      · rintro u rfl hu
        cases body with
        | nil => simp at hu
        | cons d body =>
            rw [List.cons_append] at hu
            obtain ⟨rfl, -⟩ := List.cons.inj hu
            exact hbody ⟨[], body, rfl⟩

/-- A separator in front does not change the cuts. -/
theorem cut_separator {sep : List Char} (hsep : Separator sep) (cs : List Char) :
    cut [] [] (lex (sep ++ cs)) = cut [] [] (lex cs) := by
  induction hsep with
  | nil => rfl
  | space hspace _ ih => rw [List.cons_append, cut_space hspace, ih]
  | @comment body rest hbody _ ih =>
      have hscan (u : List Char) :
          scan '/' ('*' :: (body ++ '*' :: '/' :: u)) = (.comment, body.length + 4) := by
        simp [scan, isSpace, isNewline, commentLength_closed hbody]
        omega
      have hdrop (u : List Char) :
          ('*' :: (body ++ '*' :: '/' :: u)).drop (body.length + 4 - 1) = u := by
        simp
      simp only [List.cons_append, List.append_assoc]
      rw [lex_cons, hscan, cut_comment rfl, hdrop, ih]

theorem text_ne_nil_of_mem_lex {x : Lexeme} {cs : List Char} (h : x ∈ lex cs) :
    x.text ≠ [] := by
  fun_induction lex cs with
  | case1 => cases h
  | case2 c cs found ih =>
      rcases List.mem_cons.1 h with rfl | h
      · exact List.cons_ne_nil _ _
      · exact ih h

theorem mem_opener_of_mem_lex {x : Lexeme} {cs : List Char} (h : x ∈ lex cs)
    (hopens : x.kind = .opening .curly) : '\x7b' ∈ cs := by
  fun_induction lex cs with
  | case1 => cases h
  | case2 c cs found ih =>
      rcases List.mem_cons.1 h with rfl | h
      · rw [eq_opener_of_scan hopens]
        exact List.mem_cons_self
      · exact List.mem_cons_of_mem c (List.mem_of_mem_drop (ih h))

/-- A text whose last lexeme is a closing brace ends with it. -/
theorem exists_eq_append_brace {cs : List Char}
    (hlast : (lex cs).getLast?.map Lexeme.kind = some (.closing .curly)) :
    ∃ t, cs = t ++ ['\x7d'] := by
  fun_induction lex cs with
  | case1 => cases hlast
  | case2 c cs found ih =>
      by_cases hnil : cs.drop (found.2 - 1) = []
      · rw [hnil, lex_nil] at hlast
        have hbrace := eq_closer_of_scan (Option.some.inj hlast)
        subst hbrace
        have hone : found = (.closing .curly, 1) := scan_brace cs
        rw [hone] at hnil
        exact ⟨[], congrArg (List.cons _) hnil⟩
      · rw [List.getLast?_cons_of_ne_nil (lex_ne_nil hnil)] at hlast
        obtain ⟨t, ht⟩ := ih hlast
        refine ⟨c :: (cs.take (found.2 - 1) ++ t), ?_⟩
        rw [List.cons_append, List.append_assoc, ← ht, List.take_append_drop]

theorem RuleLexemes.getLast? {xs : List Lexeme} (h : RuleLexemes xs) :
    xs.getLast?.map Lexeme.kind = some (.closing .curly) := by
  cases h with
  | @intro xs inner x y hprelude hopens hinner hcloses =>
      rw [← List.cons_append, ← List.append_assoc, List.getLast?_concat, Option.map_some, hcloses]

/-- The first cut in front of any text is after a rule that stands there. -/
theorem cut_rule {rule : List Char} (hstarts : ∀ x ∈ (lex rule).head?, x.startsRule)
    (hshape : RuleLexemes (lex rule)) (cs : List Char) :
    cut [] [] (lex (rule ++ cs)) = rule :: cut [] [] (lex cs) := by
  obtain ⟨t, rfl⟩ := exists_eq_append_brace hshape.getLast?
  rw [List.append_assoc, List.singleton_append, lex_append_of_brace cs hshape.getLast?,
    cut_ruleLexemes hshape (fun x => text_ne_nil_of_mem_lex) hstarts, flatMap_text_lex]

theorem CompleteRule.trim {rule : List Char} (h : CompleteRule rule) :
    Text.trim rule = rule :=
  Text.trim_eq_self h.first h.last

theorem CompleteRule.isRuleText {rule : List Char} (h : CompleteRule rule) :
    isRuleText rule = true := by
  obtain ⟨t, ht⟩ := exists_eq_append_brace h.shape.getLast?
  have hopener : '\x7b' ∈ rule := by
    have hshape := h.shape
    generalize hlex : lex rule = xs at hshape
    cases hshape with
    | @intro xs inner x y hprelude hopens hinner hcloses =>
        refine mem_opener_of_mem_lex (x := x) ?_ hopens
        rw [hlex]
        simp
  have hcloser : '\x7d' ∈ rule := by
    rw [ht]
    simp
  simp [Css.isRuleText, h.long, hopener, hcloser]

/-- The cuts of complete rules and separators are the rules, before any text. -/
theorem cut_parts {parts : List (List Char × List Char)}
    (hrules : ∀ part ∈ parts, CompleteRule part.1)
    (hseparators : ∀ part ∈ parts, Separator part.2) (cs : List Char) :
    cut [] [] (lex ((parts.flatMap fun part => part.1 ++ part.2) ++ cs)) =
      parts.map Prod.fst ++ cut [] [] (lex cs) := by
  induction parts with
  | nil => rfl
  | cons part parts ih =>
      have hrule := hrules part List.mem_cons_self
      rw [List.flatMap_cons, List.append_assoc, List.append_assoc,
        cut_rule hrule.starts hrule.shape, cut_separator (hseparators part List.mem_cons_self),
        ih (fun p hp => hrules p (List.mem_cons_of_mem part hp))
          (fun p hp => hseparators p (List.mem_cons_of_mem part hp)),
        List.map_cons, List.cons_append]

/-- The rules of a text are its cuts if there are any and each of them is a complete rule. -/
theorem rules_of_cut {cs : List Char} {found : List (List Char)}
    (hcut : cut [] [] (lex cs) = found) (hne : found ≠ [])
    (hcomplete : ∀ rule ∈ found, CompleteRule rule) : rules cs = found := by
  have htrim : found.map Text.trim = found :=
    (List.map_congr_left fun rule hrule => (hcomplete rule hrule).trim).trans (List.map_id found)
  have hcandidates : candidates cs = found := by
    rw [candidates, hcut]
    cases found with
    | nil => exact absurd rfl hne
    | cons rule found => exact htrim
  rw [rules, hcandidates, List.filter_eq_self]
  exact fun rule hrule => (hcomplete rule hrule).isRuleText

theorem WellFormed.cut {lead : List Char} {parts : List (List Char × List Char)}
    (h : WellFormed lead parts) (cs : List Char) :
    cut [] [] (lex (sheetText lead parts ++ cs)) = parts.map Prod.fst ++ cut [] [] (lex cs) := by
  rw [sheetText, List.append_assoc, cut_separator h.lead, cut_parts h.rules h.separators]

theorem WellFormed.complete {lead : List Char} {parts : List (List Char × List Char)}
    (h : WellFormed lead parts) : ∀ rule ∈ parts.map Prod.fst, CompleteRule rule := by
  intro rule hrule
  obtain ⟨part, hpart, rfl⟩ := List.mem_map.1 hrule
  exact h.rules part hpart

theorem WellFormed.map_fst_ne_nil {lead : List Char} {parts : List (List Char × List Char)}
    (h : WellFormed lead parts) : parts.map Prod.fst ≠ [] :=
  mt List.map_eq_nil_iff.1 h.nonempty

theorem rules_sheetText {lead : List Char} {parts : List (List Char × List Char)}
    (h : WellFormed lead parts) : rules (sheetText lead parts) = parts.map Prod.fst := by
  refine rules_of_cut ?_ h.map_fst_ne_nil h.complete
  have hcut := h.cut []
  rwa [List.append_nil, lex_nil, show Css.cut [] [] [] = [] from rfl, List.append_nil] at hcut

theorem rules_sheetText_append {lead lead' : List Char}
    {parts parts' : List (List Char × List Char)} (h : WellFormed lead parts)
    (h' : WellFormed lead' parts') :
    rules (sheetText lead parts ++ sheetText lead' parts') =
      parts.map Prod.fst ++ parts'.map Prod.fst := by
  refine rules_of_cut ?_ (List.append_ne_nil_of_left_ne_nil h.map_fst_ne_nil _) ?_
  · have hcut := h'.cut []
    rw [List.append_nil, lex_nil, show Css.cut [] [] [] = [] from rfl, List.append_nil] at hcut
    rw [h.cut, hcut]
  · intro rule hrule
    rcases List.mem_append.1 hrule with hrule | hrule
    · exact h.complete rule hrule
    · exact h'.complete rule hrule

/-- The splitter finds exactly the rules of a well-formed sheet, and the rules of two such sheets
put together are those of the first followed by those of the second. -/
theorem splitRules_wellFormed {lead : List Char} {parts : List (List Char × List Char)}
    (h : WellFormed lead parts) :
    splitRules (String.ofList (sheetText lead parts)) =
        parts.map (fun part => String.ofList part.1) ∧
      ∀ lead' parts', WellFormed lead' parts' →
        splitRules (String.ofList (sheetText lead parts ++ sheetText lead' parts')) =
          splitRules (String.ofList (sheetText lead parts)) ++
            splitRules (String.ofList (sheetText lead' parts')) := by
  have hsplit (cs : List Char) : splitRules (String.ofList cs) = (rules cs).map String.ofList := by
    rw [splitRules, String.toList_ofList]
  constructor
  · rw [hsplit, rules_sheetText h, List.map_map]
    rfl
  · intro lead' parts' h'
    rw [hsplit, hsplit, hsplit, rules_sheetText_append h h', rules_sheetText h,
      rules_sheetText h', List.map_append]

/-- A rule with braces in its attribute selector and in a string. -/
theorem completeRule_attribute : CompleteRule "a[b=\x7b]\x7d]\x7bc:\"\x7d\"\x7d".toList := by
  have hlex : lex "a[b=\x7b]\x7d]\x7bc:\"\x7d\"\x7d".toList =
      [⟨.plain, ['a']⟩, ⟨.opening .square, ['[']⟩, ⟨.plain, ['b']⟩, ⟨.plain, ['=']⟩,
        ⟨.opening .curly, ['\x7b']⟩, ⟨.closing .square, [']']⟩, ⟨.closing .curly, ['\x7d']⟩,
        ⟨.closing .square, [']']⟩, ⟨.opening .curly, ['\x7b']⟩, ⟨.plain, ['c']⟩,
        ⟨.plain, [':']⟩, ⟨.plain, ['"', '\x7d', '"']⟩, ⟨.closing .curly, ['\x7d']⟩] := by
    cbv
  refine ⟨?_, ?_, by decide, by rintro c ⟨⟩; rfl, by rintro c ⟨⟩; rfl⟩
  · rw [hlex]
    rintro x ⟨⟩
    exact ⟨by decide, by decide, by decide⟩
  · rw [hlex]
    exact .intro
      (.plain rfl <| .block rfl (by decide)
        (.plain rfl <| .plain rfl <|
          .block rfl (.leaf (by rintro ⟨_, ⟨⟩⟩) (by decide) .nil) rfl .nil)
        rfl .nil)
      rfl (.plain rfl <| .plain rfl <| .plain rfl .nil) rfl

/-- A rule in a rule, with braces in a url and in a comment. -/
theorem completeRule_media : CompleteRule "@m (x)\x7bp\x7bq:url(\x7d)/*\x7d*/\x7d\x7d".toList := by
  have hlex : lex "@m (x)\x7bp\x7bq:url(\x7d)/*\x7d*/\x7d\x7d".toList =
      [⟨.plain, ['@', 'm']⟩, ⟨.blank, [' ']⟩, ⟨.opening .round, ['(']⟩, ⟨.plain, ['x']⟩,
        ⟨.closing .round, [')']⟩, ⟨.opening .curly, ['\x7b']⟩, ⟨.plain, ['p']⟩,
        ⟨.opening .curly, ['\x7b']⟩, ⟨.plain, ['q']⟩, ⟨.plain, [':']⟩,
        ⟨.plain, ['u', 'r', 'l', '(', '\x7d', ')']⟩, ⟨.comment, ['/', '*', '\x7d', '*', '/']⟩,
        ⟨.closing .curly, ['\x7d']⟩, ⟨.closing .curly, ['\x7d']⟩] := by
    cbv
  refine ⟨?_, ?_, by decide, by rintro c ⟨⟩; rfl, by rintro c ⟨⟩; rfl⟩
  · rw [hlex]
    rintro x ⟨⟩
    exact ⟨by decide, by decide, by decide⟩
  · rw [hlex]
    exact .intro
      (.plain rfl <| .leaf (by rintro ⟨_, ⟨⟩⟩) (by decide) <|
        .block rfl (by decide) (.plain rfl .nil) rfl .nil)
      rfl
      (.plain rfl <| .block rfl
        (.plain rfl <| .plain rfl <| .plain rfl <|
          .leaf (by rintro ⟨_, ⟨⟩⟩) (by decide) .nil) rfl .nil)
      rfl

/-- Both of these rules in one sheet, split once and split twice over. -/
theorem splitRules_wellFormed_braces :
    let selector := "a[b=\x7b]\x7d]\x7bc:\"\x7d\"\x7d"
    let media := "@m (x)\x7bp\x7bq:url(\x7d)/*\x7d*/\x7d\x7d"
    let sheet := "/*\x7d*/ " ++ selector ++ "\n" ++ media
    splitRules sheet = [selector, media] ∧
      splitRules (sheet ++ sheet) = [selector, media, selector, media] := by
  intro selector media sheet
  have hselector : CompleteRule selector.toList := completeRule_attribute
  have hmedia : CompleteRule media.toList := completeRule_media
  have hsheet : WellFormed "/*\x7d*/ ".toList
      [(selector.toList, "\n".toList), (media.toList, [])] := by
    refine ⟨?_, ?_, ?_, List.cons_ne_nil _ _⟩
    · have hlead : "/*\x7d*/ ".toList = '/' :: '*' :: (['\x7d'] ++ '*' :: '/' :: [' ']) := by cbv
      rw [hlead]
      exact .comment (by decide) (.space rfl .nil)
    · intro part hpart
      rcases List.mem_pair.1 hpart with rfl | rfl
      · exact hselector
      · exact hmedia
    · intro part hpart
      rcases List.mem_pair.1 hpart with rfl | rfl
      · exact .space rfl .nil
      · exact .nil
  have htext : String.ofList (sheetText "/*\x7d*/ ".toList
      [(selector.toList, "\n".toList), (media.toList, [])]) = sheet := by
    cbv
  obtain ⟨hrules, happend⟩ := splitRules_wellFormed hsheet
  have htwice := happend _ _ hsheet
  rw [String.ofList_append, hrules, htext] at htwice
  rw [htext] at hrules
  exact ⟨by simpa using hrules, by simpa using htwice⟩

end ScopedCss.Css
