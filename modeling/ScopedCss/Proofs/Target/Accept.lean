/-
# Rules that a sheet takes

The splitter finds rules by their lexemes, and a sheet looks at the characters.  For a rule with a
selector and one closed block (`ClosedRule`) nothing but the count of its braces is left for the
sheet to object to: it takes the rule exactly if the braces balance, those in strings, comments,
urls and escapes included (`Sheet.insert_closedRule`).  They do if the rule holds no braces but
matching brackets (`Css.Braced`).  A rule with a brace in a string may be refused
(`closedRule_refused`), and then the sheet stays as it was and takes the other rules of the text.
-/

import ScopedCss.Proofs.Css.Trailing
import ScopedCss.Proofs.Css.WellFormed
import ScopedCss.Proofs.Target.Sheet

namespace ScopedCss

namespace Css

/-- The lexemes of a rule: a prelude that is not blank, one curly block, and nothing after it. -/
inductive NamedRule : List Lexeme → Prop where
  | intro {selector inner : List Lexeme} {x y : Lexeme} (hprelude : Prelude selector)
      (hblank : Text.isAllBlank (selector.flatMap Lexeme.text) = false)
      (hopens : x.kind = .opening .curly) (hinner : Inside .curly inner)
      (hcloses : y.kind = .closing .curly) : NamedRule (selector ++ x :: (inner ++ [y]))

/-- Lexemes that hold no braces but curly brackets, and those match. -/
inductive Braced : List Lexeme → Prop where
  | nil : Braced []
  | free {x : Lexeme} {xs : List Lexeme} (hopener : '\x7b' ∉ x.text) (hcloser : '\x7d' ∉ x.text)
      (hrest : Braced xs) : Braced (x :: xs)
  | block {inner xs : List Lexeme} (hinner : Braced inner) (hrest : Braced xs) :
      Braced (⟨.opening .curly, ['\x7b']⟩ :: (inner ++ ⟨.closing .curly, ['\x7d']⟩ :: xs))

theorem NamedRule.ruleLexemes {xs : List Lexeme} (h : NamedRule xs) : RuleLexemes xs := by
  cases h with
  | intro hprelude _ hopens hinner hcloses => exact .intro hprelude hopens hinner hcloses

theorem not_prelude_of_opener {x : Lexeme} {xs : List Lexeme} (hopens : x.kind = .opening .curly) :
    ¬Prelude (x :: xs) := by
  rintro (_ | ⟨hnot, -, -⟩ | ⟨hopens', hcurly, -, -, -⟩)
  · exact hnot ⟨_, hopens⟩
  · exact hcurly (Kind.opening.inj (hopens'.symm.trans hopens))

/-- A rule with a selector does not begin with a brace. -/
theorem NamedRule.head?_ne {cs : List Char} (h : NamedRule (lex cs)) :
    cs.head? ≠ some '\x7b' := by
  intro hhead
  obtain ⟨u, rfl⟩ := List.head?_eq_some_iff.1 hhead
  generalize hlex : lex ('\x7b' :: u) = xs at h
  cases h with
  | @intro selector inner x y hprelude hblank hopens hinner hcloses =>
      cases selector with
      | nil => cases hblank
      | cons z selector =>
          rw [lex_cons, List.cons_append] at hlex
          obtain ⟨rfl, -⟩ := List.cons.inj hlex
          exact not_prelude_of_opener rfl hprelude

theorem NamedRule.mem_opener {cs : List Char} (h : NamedRule (lex cs)) : '\x7b' ∈ cs := by
  generalize hlex : lex cs = xs at h
  cases h with
  | @intro selector inner x y hprelude hblank hopens hinner hcloses =>
      refine mem_opener_of_mem_lex (x := x) ?_ hopens
      rw [hlex]
      simp

end Css

/-- A rule by itself with a selector and one block, whose closing brace ends it. -/
structure ClosedRule (rule : String) : Prop where
  alone : Css.splitRules rule = [rule]
  named : Css.NamedRule (Css.lex rule.toList)

namespace Sheet

theorem balanced_append_of_free {u : List Char} (hopener : '\x7b' ∉ u) (hcloser : '\x7d' ∉ u)
    (depth : Nat) (r : List Char) : balanced depth (u ++ r) = balanced depth r := by
  induction u with
  | nil => rfl
  | cons c u ih =>
      rw [List.mem_cons, not_or] at hopener hcloser
      simp only [List.cons_append, balanced, if_neg (Ne.symm hopener.1),
        if_neg (Ne.symm hcloser.1), ih hopener.2 hcloser.2]

theorem balanced_append_of_braced {xs : List Css.Lexeme} (h : Css.Braced xs) (depth : Nat)
    (r : List Char) :
    balanced depth (xs.flatMap Css.Lexeme.text ++ r) = balanced depth r := by
  induction h generalizing depth r with
  | nil => rfl
  | free hopener hcloser _ ih =>
      rw [List.flatMap_cons, List.append_assoc, balanced_append_of_free hopener hcloser, ih]
  | @block inner xs _ _ ihinner ih =>
      have htext : (⟨.opening .curly, ['\x7b']⟩ ::
            (inner ++ ⟨.closing .curly, ['\x7d']⟩ :: xs) : List Css.Lexeme).flatMap
              Css.Lexeme.text ++ r =
          '\x7b' :: (inner.flatMap Css.Lexeme.text ++
            '\x7d' :: (xs.flatMap Css.Lexeme.text ++ r)) := by
        simp
      rw [htext]
      exact (ihinner (depth + 1) _).trans (ih depth r)

/-- Braces that are matching brackets balance. -/
theorem balanced_of_braced {cs : List Char} (h : Css.Braced (Css.lex cs)) :
    balanced 0 cs = true := by
  have hbalanced := balanced_append_of_braced h 0 []
  rwa [Css.flatMap_text_lex, List.append_nil] at hbalanced

variable {rule : String}

theorem trim_of_closedRule (h : ClosedRule rule) : Text.trim rule.toList = rule.toList := by
  have halone : rule ∈ Css.splitRules rule := h.alone ▸ List.mem_cons_self
  obtain ⟨cs, hcs, htext⟩ := List.mem_map.1 halone
  have hlist : rule.toList = cs := by rw [← htext, String.toList_ofList]
  rw [hlist, Css.trim_of_mem_rules hcs]

/-- Of a rule with a selector and one closed block a sheet asks only that its braces balance. -/
theorem objection?_of_closedRule (h : ClosedRule rule) :
    objection? rule.toList = if balanced 0 rule.toList then none else some .unbalanced := by
  have hopener : rule.toList.contains '\x7b' = true := List.contains_iff_mem.2 h.named.mem_opener
  have hnamed : Text.isAllBlank (rule.toList.takeWhile (· != '\x7b')) = false := by
    obtain ⟨c, cs, hcs⟩ := List.exists_cons_of_ne_nil (List.ne_nil_of_mem h.named.mem_opener)
    have hblank : Text.isBlank c = false := by
      have hhead : c ∈ (Text.trim rule.toList).head? := by
        rw [trim_of_closedRule h, hcs]
        exact Option.mem_some_self c
      exact Text.not_isBlank_of_mem_head?_trim hhead
    have hne : c ≠ '\x7b' := by
      rintro rfl
      exact h.named.head?_ne (by rw [hcs]; rfl)
    simp [hcs, hne, Text.isAllBlank, hblank]
  have hlast : (rule.toList.getLast? != some '\x7d') = false := by
    obtain ⟨t, ht⟩ := Css.exists_eq_append_brace h.named.ruleLexemes.getLast?
    rw [ht, List.getLast?_concat]
    rfl
  rw [objection?, hopener, hnamed, hlast]
  cases balanced 0 rule.toList <;> rfl

/-- A sheet takes a closed rule at its end exactly if the braces of the rule balance. -/
theorem insert_closedRule (h : ClosedRule rule) (sheet : Sheet) :
    sheet.insert rule sheet.rules.length =
      if balanced 0 rule.toList then .ok ⟨sheet.rules ++ [rule]⟩
      else .error ⟨rule, .unbalanced⟩ := by
  have htrim : Text.trimString rule = rule := by
    rw [Text.trimString, trim_of_closedRule h, String.ofList_toList]
  simp only [insert, htrim, objection?_of_closedRule h]
  cases balanced 0 rule.toList with
  | true => simp
  | false => rfl

end Sheet

namespace LiveSheet

theorem failure?_eq_none_iff {id : String} {refusals : List Rejected} :
    failure? id refusals = none ↔ refusals = [] := by
  cases refusals with
  | nil => simp [failure?]
  | cons refusal refusals => simp [failure?]

/-- Of closed rules a sheet takes those whose braces balance, in their order, and refuses the
others. -/
theorem appendRules_closedRules {rules : List String} (h : ∀ rule ∈ rules, ClosedRule rule)
    (sheet : Sheet) :
    appendRules sheet rules =
      (⟨sheet.rules ++ rules.filter fun rule => Sheet.balanced 0 rule.toList⟩,
        (rules.filter fun rule => !Sheet.balanced 0 rule.toList).map (⟨·, .unbalanced⟩)) := by
  induction rules generalizing sheet with
  | nil => simp [appendRules]
  | cons rule rules ih =>
      obtain ⟨hrule, hrest⟩ := List.forall_mem_cons.1 h
      have hinsert : SheetHost.insert sheet rule (SheetHost.count sheet) = _ :=
        Sheet.insert_closedRule hrule sheet
      cases hbalanced : Sheet.balanced 0 rule.toList with
      | true =>
          rw [hbalanced, if_pos rfl] at hinsert
          simp [appendRules, hinsert, ih hrest, hbalanced]
      | false =>
          rw [hbalanced, if_neg Bool.false_ne_true] at hinsert
          simp [appendRules, hinsert, ih hrest, hbalanced]

end LiveSheet

/-- A sheet takes a closed rule exactly if its braces balance as characters, and refuses it as
unbalanced otherwise; they balance if they are matching brackets.  Of a text of closed rules it
takes the balanced ones, and the injection fails exactly if there is another. -/
theorem sheet_takes_balanced (css : String) (h : ∀ rule ∈ Css.splitRules css, ClosedRule rule)
    (sheet : Sheet) (id : String) :
    (∀ rule ∈ Css.splitRules css,
        sheet.insert rule sheet.rules.length =
            (if Sheet.balanced 0 rule.toList then .ok ⟨sheet.rules ++ [rule]⟩
            else .error ⟨rule, .unbalanced⟩) ∧
          (Css.Braced (Css.lex rule.toList) → Sheet.balanced 0 rule.toList = true)) ∧
      InjectionTarget.inject (LiveSheet.mk sheet) id css =
        (⟨⟨sheet.rules ++ (Css.splitRules css).filter fun rule =>
            Sheet.balanced 0 rule.toList⟩⟩,
          LiveSheet.failure? id (((Css.splitRules css).filter fun rule =>
            !Sheet.balanced 0 rule.toList).map (⟨·, .unbalanced⟩))) ∧
      ((InjectionTarget.inject (LiveSheet.mk sheet) id css).2 = none ↔
        ∀ rule ∈ Css.splitRules css, Sheet.balanced 0 rule.toList = true) := by
  have hinject : InjectionTarget.inject (LiveSheet.mk sheet) id css =
      (⟨(LiveSheet.appendRules sheet (Css.splitRules css)).1⟩,
        LiveSheet.failure? id (LiveSheet.appendRules sheet (Css.splitRules css)).2) := rfl
  rw [LiveSheet.appendRules_closedRules h sheet] at hinject
  refine ⟨fun rule hrule => ⟨Sheet.insert_closedRule (h rule hrule) sheet,
    Sheet.balanced_of_braced⟩, hinject, ?_⟩
  rw [hinject, LiveSheet.failure?_eq_none_iff, List.map_eq_nil_iff, List.filter_eq_nil_iff]
  simp only [Bool.not_eq_true', Bool.not_eq_false]

theorem closedRule_plain : ClosedRule "c\x7bd\x7d" := by
  have hlex : Css.lex "c\x7bd\x7d".toList =
      [⟨.plain, ['c']⟩, ⟨.opening .curly, ['\x7b']⟩, ⟨.plain, ['d']⟩,
        ⟨.closing .curly, ['\x7d']⟩] := by
    cbv
  refine ⟨by cbv, ?_⟩
  rw [hlex]
  exact .intro (.plain rfl .nil) (by decide) rfl (.plain rfl .nil) rfl

theorem closedRule_content : ClosedRule ".a::after \x7b content: \"\x7d\"; \x7d" := by
  have hlex : Css.lex ".a::after \x7b content: \"\x7d\"; \x7d".toList =
      [⟨.plain, ['.']⟩, ⟨.plain, ['a']⟩, ⟨.plain, [':']⟩, ⟨.plain, [':']⟩,
        ⟨.plain, ['a', 'f', 't', 'e', 'r']⟩, ⟨.blank, [' ']⟩, ⟨.opening .curly, ['\x7b']⟩,
        ⟨.blank, [' ']⟩, ⟨.plain, ['c', 'o', 'n', 't', 'e', 'n', 't']⟩, ⟨.plain, [':']⟩,
        ⟨.blank, [' ']⟩, ⟨.plain, ['"', '\x7d', '"']⟩, ⟨.plain, [';']⟩, ⟨.blank, [' ']⟩,
        ⟨.closing .curly, ['\x7d']⟩] := by
    cbv
  refine ⟨by cbv, ?_⟩
  rw [hlex]
  have hblank : Css.Prelude [⟨.blank, [' ']⟩] :=
    .leaf (Css.not_opens_of_isBracket rfl) (Css.ne_closing_of_isBracket rfl .curly) .nil
  have hinner : Css.Neutral [⟨.blank, [' ']⟩, ⟨.plain, ['c', 'o', 'n', 't', 'e', 'n', 't']⟩,
      ⟨.plain, [':']⟩, ⟨.blank, [' ']⟩, ⟨.plain, ['"', '\x7d', '"']⟩, ⟨.plain, [';']⟩,
      ⟨.blank, [' ']⟩] := by
    simp [Css.Neutral, Css.Kind.isBracket]
  have hselector : Css.Prelude [⟨.plain, ['.']⟩, ⟨.plain, ['a']⟩, ⟨.plain, [':']⟩,
      ⟨.plain, [':']⟩, ⟨.plain, ['a', 'f', 't', 'e', 'r']⟩, ⟨.blank, [' ']⟩] :=
    .plain rfl (.plain rfl (.plain rfl (.plain rfl (.plain rfl hblank))))
  exact .intro hselector (by decide) rfl (hinner.inside .curly) rfl

/-- Of a rule with a brace in a string and a plain one a sheet takes the second. -/
theorem sheet_takes_balanced_second :
    let css := ".a::after \x7b content: \"\x7d\"; \x7d c\x7bd\x7d"
    InjectionTarget.inject (LiveSheet.mk Sheet.empty) "x" css =
      (⟨⟨["c\x7bd\x7d"]⟩⟩, some ⟨"x",
        (Rejected.mk ".a::after \x7b content: \"\x7d\"; \x7d" .unbalanced).message⟩) := by
  intro css
  have hsplit : Css.splitRules css =
      [".a::after \x7b content: \"\x7d\"; \x7d", "c\x7bd\x7d"] := by cbv
  have hclosed : ∀ rule ∈ Css.splitRules css, ClosedRule rule := by
    rw [hsplit]
    exact List.forall_mem_cons.2 ⟨closedRule_content, List.forall_mem_singleton.2 closedRule_plain⟩
  obtain ⟨-, hinject, -⟩ := sheet_takes_balanced css hclosed Sheet.empty "x"
  rw [hinject, hsplit]
  rfl

/-- A closed rule with a brace in a string that no sheet takes. -/
theorem closedRule_refused :
    let rule := ".a::after \x7b content: \"\x7d\"; \x7d"
    ClosedRule rule ∧
      Sheet.empty.insert rule Sheet.empty.rules.length = .error ⟨rule, .unbalanced⟩ := by
  refine ⟨closedRule_content, ?_⟩
  rw [Sheet.insert_closedRule closedRule_content]
  rfl

end ScopedCss
