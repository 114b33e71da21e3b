/-
# What a sheet takes for a rule

A sheet objects to a trimmed text for one of three reasons, looked for one after the other.  Said
at once, it has none against a text that ends with a closing brace, is not blank up to its first
opening brace, and has braces that balance (`IsRule`).  The fourth reason for a refusal is the
index, the only one that depends on the sheet.

So a sheet that is given many rules refuses the same ones wherever they stand among the others, and
each refusal is the one that any sheet would have answered (`LiveSheet.forall₂_refusals`).  Its text
names the test that the rule fails first, and the rule (`Sheet.message_of_refuses`).
-/

import Mathlib.Data.List.Forall2
import ScopedCss.Proofs.Target.Sheet
import ScopedCss.Proofs.Template.Placeholders

namespace ScopedCss

open Placeholders

/-- What a sheet takes for a rule. -/
structure IsRule (rule : String) : Prop where
  trimmed : Text.trimString rule = rule
  named : ∃ selector body, rule.toList = selector ++ '\x7b' :: body ∧ '\x7b' ∉ selector ∧
    ∃ c ∈ selector, Text.isBlank c = false
  balances : Balances 0 rule.toList
  closed : rule.toList.getLast? = some '\x7d'

namespace Sheet

theorem balanced_iff {depth : Nat} {cs : List Char} :
    balanced depth cs = true ↔ Balances depth cs := by
  induction cs generalizing depth with
  | nil => simp [balanced, balances_nil]
  | cons c cs ih =>
      by_cases hopener : c = '\x7b'
      · subst hopener
        rw [balances_opener, ← ih]
        simp [balanced]
      · by_cases hcloser : c = '\x7d'
        · subst hcloser
          cases depth with
          | zero => simp [balanced, not_balances_closer]
          | succ outer =>
              rw [balances_closer, ← ih]
              simp [balanced]
        · rw [balances_other hopener hcloser, ← ih]
          simp [balanced, hopener, hcloser]

theorem takeWhile_selector {selector : List Char} (h : '\x7b' ∉ selector) (body : List Char) :
    (selector ++ '\x7b' :: body).takeWhile (· != '\x7b') = selector := by
  have hfree : ∀ c ∈ selector, (c != '\x7b') = true :=
    fun c hc => bne_iff_ne.2 fun heq => h (heq ▸ hc)
  rw [List.takeWhile_append_of_pos hfree, List.takeWhile_cons_of_neg (by decide), List.append_nil]

/-- A text has a selector if it holds an opening brace and is not blank up to the first one. -/
theorem exists_selector_iff {cs : List Char} :
    (∃ selector body, cs = selector ++ '\x7b' :: body ∧ '\x7b' ∉ selector ∧
        ∃ c ∈ selector, Text.isBlank c = false) ↔
      '\x7b' ∈ cs ∧ Text.isAllBlank (cs.takeWhile (· != '\x7b')) = false := by
  constructor
  · rintro ⟨selector, body, rfl, hfree, hnamed⟩
    rw [takeWhile_selector hfree, Text.isAllBlank, List.all_eq_false]
    simpa using hnamed
  · rintro ⟨hmem, hnamed⟩
    obtain ⟨selector, body, rfl, hfree⟩ := List.eq_append_cons_of_mem hmem
    rw [takeWhile_selector hfree, Text.isAllBlank, List.all_eq_false] at hnamed
    exact ⟨selector, body, rfl, hfree, by simpa using hnamed⟩

theorem objection?_eq_none_iff {cs : List Char} :
    objection? cs = none ↔
      '\x7b' ∈ cs ∧ Text.isAllBlank (cs.takeWhile (· != '\x7b')) = false ∧
        balanced 0 cs = true ∧ cs.getLast? = some '\x7d' := by
  unfold objection?
  by_cases hblock : '\x7b' ∈ cs
  · cases hnamed : Text.isAllBlank (cs.takeWhile (· != '\x7b')) <;>
      cases hbalanced : balanced 0 cs <;> simp [hblock]
  · simp [hblock]

/-- A sheet has nothing against a trimmed text exactly if it is a rule. -/
theorem isRule_iff {rule : String} :
    IsRule rule ↔ Text.trimString rule = rule ∧ objection? rule.toList = none := by
  rw [objection?_eq_none_iff]
  constructor
  · intro h
    obtain ⟨hblock, hnamed⟩ := exists_selector_iff.1 h.named
    exact ⟨h.trimmed, hblock, hnamed, balanced_iff.2 h.balances, h.closed⟩
  · rintro ⟨htrimmed, hblock, hnamed, hbalanced, hclosed⟩
    exact ⟨htrimmed, exists_selector_iff.2 ⟨hblock, hnamed⟩, balanced_iff.1 hbalanced, hclosed⟩

end Sheet

-- Irreducible, or a case split on a condition with it would try to evaluate it for a variable.
@[irreducible] instance (rule : String) : Decidable (IsRule rule) :=
  decidable_of_iff _ Sheet.isRule_iff.symm

namespace Sheet

/-- The acceptable texts are those that are rules once they are trimmed. -/
theorem isRule_trimString_iff {rule : String} :
    IsRule (Text.trimString rule) ↔ accepts rule = true := by
  have htrimmed : Text.trimString (Text.trimString rule) = Text.trimString rule :=
    Text.trimString_ofList_trim rule.toList
  rw [isRule_iff, accepts, Option.isNone_iff_eq_none]
  exact and_iff_right htrimmed

/-- The objection that is found first, in words. -/
theorem message_of_objection? {cs : List Char} {reason : Rejection}
    (h : objection? cs = some reason) :
    reason.message =
      if '\x7b' ∉ cs then "missing block"
      else if Text.isAllBlank (cs.takeWhile (· != '\x7b')) then "missing selector"
      else "unbalanced braces" := by
  rw [objection?] at h
  split at h
  · next hblock =>
    cases h
    rw [if_pos (by simpa using hblock)]
    rfl
  · next hblock =>
    rw [if_neg (by simpa using hblock)]
    split at h
    · next hnamed =>
      cases h
      rw [if_pos hnamed]
      rfl
    · next hnamed =>
      rw [if_neg hnamed]
      split at h
      · cases h
        rfl
      · cases h

/-- The text of a refusal names the first of the three tests that the trimmed rule fails, and the
trimmed rule itself. -/
theorem message_of_refuses {rule : String} {refusal : Rejected} (h : Refuses rule refusal) :
    refusal.message = "Rule rejected: " ++
      (if '\x7b' ∉ (Text.trimString rule).toList then "missing block"
      else if Text.isAllBlank ((Text.trimString rule).toList.takeWhile (· != '\x7b')) then
        "missing selector"
      else "unbalanced braces") ++ " (rule: '" ++ Text.trimString rule ++ "')" := by
  obtain ⟨reason, hreason, rfl⟩ := refuses_iff.1 h
  rw [← message_of_objection? hreason]
  rfl

variable (sheet : Sheet) {rule : String} {index : Nat}

/-- What is not inserted is refused with its trimmed text. -/
theorem exists_insert_eq_error
    (h : ¬(IsRule (Text.trimString rule) ∧ index ≤ sheet.rules.length)) :
    ∃ reason, sheet.insert rule index = .error ⟨Text.trimString rule, reason⟩ := by
  by_cases haccepts : accepts rule = true
  · have hindex : sheet.rules.length < index :=
      Nat.lt_of_not_le fun hle => h ⟨isRule_trimString_iff.2 haccepts, hle⟩
    have hnone : objection? (Text.trimString rule).toList = none := by
      simpa [accepts] using haccepts
    refine ⟨.outOfRange index sheet.rules.length, ?_⟩
    simp only [insert, hnone, if_pos hindex]
  · obtain ⟨reason, hreason⟩ := exists_refuses haccepts
    exact ⟨reason, hreason sheet index⟩

theorem delete_of_lt (h : index < sheet.rules.length) :
    sheet.delete index = .ok ⟨sheet.rules.eraseIdx index⟩ := by
  rw [delete, if_neg (Nat.not_le.2 h), List.eraseIdx_eq_take_drop_succ]

theorem delete_of_le (h : sheet.rules.length ≤ index) :
    sheet.delete index = .error ⟨"", .outOfRange index sheet.rules.length⟩ :=
  if_pos h

end Sheet

/-- The rules of a text that a sheet takes are those that it takes for rules. -/
theorem Sheet.acceptedRules_eq (css : String) :
    acceptedRules css = (Css.splitRules css).filter fun rule => IsRule rule := by
  refine List.filter_congr fun rule hrule => ?_
  rw [Bool.eq_iff_iff, decide_eq_true_eq, ← isRule_trimString_iff,
    Css.trimString_of_mem_splitRules hrule]

namespace LiveSheet

/-- Of many rules those that are none are refused, in their order, each as any sheet refuses it. -/
theorem forall₂_refusals (sheet : Sheet) (rules : List String) :
    List.Forall₂ Sheet.Refuses (rules.filter fun rule => ¬IsRule (Text.trimString rule))
      (appendRules sheet rules).2 := by
  induction rules generalizing sheet with
  | nil => exact .nil
  | cons rule rules ih =>
      by_cases haccepts : Sheet.accepts rule = true
      · have hinsert : SheetHost.insert sheet rule (SheetHost.count sheet) = .ok _ :=
          Sheet.insert_of_accepts haccepts sheet
        rw [List.filter_cons_of_neg (by simpa [Sheet.isRule_trimString_iff] using haccepts)]
        simp only [appendRules, hinsert]
        exact ih _
      · obtain ⟨reason, hreason⟩ := Sheet.exists_refuses haccepts
        have hinsert : SheetHost.insert sheet rule (SheetHost.count sheet) = .error _ :=
          hreason sheet _
        rw [List.filter_cons_of_pos (by simpa [Sheet.isRule_trimString_iff] using haccepts)]
        simp only [appendRules, hinsert]
        exact .cons hreason (ih sheet)

/-- A sheet grows by the rules of a text that it takes. -/
theorem rules_appendRules (sheet : Sheet) (css : String) :
    (appendRules sheet (Css.splitRules css)).1.rules =
      sheet.rules ++ (Css.splitRules css).filter fun rule => IsRule rule := by
  have hstored : (appendRules sheet (Css.splitRules css)).1 =
      ⟨sheet.rules ++ (Sheet.acceptedRules css).map Text.trimString⟩ :=
    (stored_appendRules sheet (Css.splitRules css)).1
  rw [hstored, Sheet.map_trimString_acceptedRules, Sheet.acceptedRules_eq]

/-- The rules of a text that a sheet refuses are those that it does not take. -/
theorem forall₂_refusals_splitRules (sheet : Sheet) (css : String) :
    List.Forall₂ Sheet.Refuses ((Css.splitRules css).filter fun rule => ¬IsRule rule)
      (appendRules sheet (Css.splitRules css)).2 := by
  have hfilter : (Css.splitRules css).filter (fun rule => ¬IsRule (Text.trimString rule)) =
      (Css.splitRules css).filter fun rule => ¬IsRule rule :=
    List.filter_congr fun rule hrule => by rw [Css.trimString_of_mem_splitRules hrule]
  exact hfilter ▸ forall₂_refusals sheet (Css.splitRules css)

end LiveSheet

end ScopedCss
