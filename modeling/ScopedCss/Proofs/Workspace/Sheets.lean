/-
# Sheets under any calls

Whoever holds a handle to a sheet may insert and delete rules and inject styles, and what is called
through one clone of a handle is seen through all.

Whatever is called, sheets hold nothing but rules (`Hosts.HoldRules.callSheet`, and over a run
`Hosts.HoldRules.afterCalls`).  What the next call does depends only on the rules that are there
(`SheetCall.Law`): an insertion or a removal happens or leaves everything as it was, and an
injection goes past what it is refused and reports all of it.
-/

import ScopedCss.Proofs.Target.Rule
import ScopedCss.Workspace.Run

namespace ScopedCss

/-- What a call makes of the rules of a sheet, and the error it ends with. -/
def SheetCall.Law (before after : List String) (error : Option StyleError) : SheetCall → Prop
  | .insert rule index =>
    if IsRule (Text.trimString rule) ∧ index ≤ before.length then
      error = none ∧ after = before.take index ++ Text.trimString rule :: before.drop index
    else (∃ reason, error = some (.rejected ⟨Text.trimString rule, reason⟩)) ∧ after = before
  | .delete index =>
    if index < before.length then error = none ∧ after = before.eraseIdx index
    else error = some (.rejected ⟨"", .outOfRange index before.length⟩) ∧ after = before
  | .inject id css =>
    after = before ++ (Css.splitRules css).filter (fun rule => IsRule rule) ∧
      ∃ refusals : List Rejected,
        List.Forall₂ Sheet.Refuses ((Css.splitRules css).filter fun rule => ¬IsRule rule)
          refusals ∧
        error = if refusals = [] then none
          else some (.injection ⟨id, String.intercalate "; " (refusals.map Rejected.message)⟩)

/-- A call leaves nothing but rules among nothing but rules. -/
theorem SheetCall.Law.isRule {call : SheetCall} {before after : List String}
    {error : Option StyleError} (h : call.Law before after error)
    (hbefore : ∀ rule ∈ before, IsRule rule) : ∀ rule ∈ after, IsRule rule := by
  cases call with
  | insert rule index =>
      rw [Law] at h
      by_cases hrule : IsRule (Text.trimString rule) ∧ index ≤ before.length
      · rw [if_pos hrule] at h
        rw [h.2, List.forall_mem_append, List.forall_mem_cons]
        exact ⟨fun r hr => hbefore r (List.mem_of_mem_take hr), hrule.1,
          fun r hr => hbefore r (List.mem_of_mem_drop hr)⟩
      · rw [if_neg hrule] at h
        rwa [h.2]
  | delete index =>
      rw [Law] at h
      by_cases hindex : index < before.length
      · rw [if_pos hindex] at h
        rw [h.2]
        exact fun r hr => hbefore r (List.mem_of_mem_eraseIdx hr)
      · rw [if_neg hindex] at h
        rwa [h.2]
  | inject id css =>
      rw [h.1, List.forall_mem_append]
      exact ⟨hbefore, fun r hr => of_decide_eq_true (List.mem_filter.1 hr).2⟩

namespace Hosts

variable (hosts : Hosts) (name : String)

@[simp] theorem sheet_setSheet_self (sheet : Sheet) :
    (hosts.setSheet name sheet).sheet name = sheet := by
  rw [sheet_setSheet, if_pos rfl]

theorem law_insert (rule : String) (index : Nat) :
    (SheetCall.insert rule index).Law (hosts.sheet name).rules
      ((hosts.callSheet name (.insert rule index)).1.sheet name).rules
      (hosts.callSheet name (.insert rule index)).2 := by
  rw [SheetCall.Law, callSheet]
  by_cases h : IsRule (Text.trimString rule) ∧ index ≤ (hosts.sheet name).rules.length
  · have haccepts : Sheet.accepts rule = true := Sheet.isRule_trimString_iff.1 h.1
    rw [if_pos h, Sheet.insert_at_of_accepts haccepts _ h.2, settle, sheet_setSheet_self]
    exact ⟨rfl, rfl⟩
  · obtain ⟨reason, hreason⟩ := Sheet.exists_insert_eq_error (hosts.sheet name) h
    rw [if_neg h, hreason]
    exact ⟨⟨reason, rfl⟩, rfl⟩

theorem law_delete (index : Nat) :
    (SheetCall.delete index).Law (hosts.sheet name).rules
      ((hosts.callSheet name (.delete index)).1.sheet name).rules
      (hosts.callSheet name (.delete index)).2 := by
  rw [SheetCall.Law, callSheet]
  by_cases h : index < (hosts.sheet name).rules.length
  · rw [if_pos h, Sheet.delete_of_lt (hosts.sheet name) h, settle, sheet_setSheet_self]
    exact ⟨rfl, rfl⟩
  · rw [if_neg h, Sheet.delete_of_le (hosts.sheet name) (Nat.le_of_not_lt h)]
    exact ⟨rfl, rfl⟩

/-- An injection takes the rules of a text that are acceptable and reports the others. -/
theorem law_inject (id css : String) :
    (SheetCall.inject id css).Law (hosts.sheet name).rules
      ((hosts.callSheet name (.inject id css)).1.sheet name).rules
      (hosts.callSheet name (.inject id css)).2 := by
  have hcall : hosts.callSheet name (.inject id css) =
      (hosts.setSheet name (LiveSheet.appendRules (hosts.sheet name) (Css.splitRules css)).1,
        (LiveSheet.failure? id
          (LiveSheet.appendRules (hosts.sheet name) (Css.splitRules css)).2).map .injection) := rfl
  rw [hcall, sheet_setSheet_self]
  refine ⟨LiveSheet.rules_appendRules (hosts.sheet name) css, _,
    LiveSheet.forall₂_refusals_splitRules (hosts.sheet name) css, ?_⟩
  cases (LiveSheet.appendRules (hosts.sheet name) (Css.splitRules css)).2 <;> rfl

theorem law_callSheet (call : SheetCall) :
    call.Law (hosts.sheet name).rules ((hosts.callSheet name call).1.sheet name).rules
      (hosts.callSheet name call).2 := by
  cases call with
  | insert rule index => exact hosts.law_insert name rule index
  | delete index => exact hosts.law_delete name index
  | inject id css => exact hosts.law_inject name id css

theorem sheet_settle_of_ne {other : String} (h : other ≠ name) (result : Except Rejected Sheet) :
    (hosts.settle name result).1.sheet other = hosts.sheet other := by
  cases result with
  | ok sheet => rw [settle, sheet_setSheet, if_neg h]
  | error refusal => rfl

/-- A call touches no other sheet. -/
theorem sheet_callSheet_of_ne {other : String} (h : other ≠ name) (call : SheetCall) :
    (hosts.callSheet name call).1.sheet other = hosts.sheet other := by
  cases call with
  | insert rule index => rw [callSheet, hosts.sheet_settle_of_ne name h]
  | delete index => rw [callSheet, hosts.sheet_settle_of_ne name h]
  | inject id css => exact (hosts.sheet_setSheet name other _).trans (if_neg h)

/-- Whether all sheets hold nothing but rules. -/
def HoldRules (hosts : Hosts) : Prop :=
  ∀ name, ∀ rule ∈ (hosts.sheet name).rules, IsRule rule

theorem holdRules_empty : HoldRules empty := by
  intro name rule hrule
  cases hrule

theorem HoldRules.callSheet {hosts : Hosts} (h : hosts.HoldRules) (name : String)
    (call : SheetCall) : (hosts.callSheet name call).1.HoldRules := by
  intro other
  by_cases hother : other = name
  · subst hother
    exact (hosts.law_callSheet other call).isRule (h other)
  · rw [hosts.sheet_callSheet_of_ne name hother]
    exact h other

theorem HoldRules.afterCalls {H : Type} (sheetOf : H → String) {hosts : Hosts}
    (h : hosts.HoldRules) (calls : List (H × SheetCall)) :
    (hosts.afterCalls sheetOf calls).HoldRules := by
  induction calls generalizing hosts with
  | nil => exact h
  | cons entry calls ih =>
      obtain ⟨handle, call⟩ := entry
      exact ih (h.callSheet (sheetOf handle) call)

/-- Whatever was called before through any handles, a sheet holds nothing but rules, and the next
call does to it what the law of the call says.  All handles to the sheet show that, and no handle to
another sheet shows a change. -/
theorem sheet_afterCalls {H : Type} (sheetOf : H → String) (calls : List (H × SheetCall))
    (handle : H) :
    let hosts := Hosts.empty.afterCalls sheetOf calls
    (∀ rule ∈ (hosts.sheet (sheetOf handle)).rules, IsRule rule) ∧
      ∀ call : SheetCall,
        let done := hosts.callSheet (sheetOf handle) call
        (∀ clone, sheetOf clone = sheetOf handle →
            call.Law (hosts.sheet (sheetOf clone)).rules (done.1.sheet (sheetOf clone)).rules
              done.2) ∧
          ∀ other, sheetOf other ≠ sheetOf handle →
            done.1.sheet (sheetOf other) = hosts.sheet (sheetOf other) := by
  intro hosts
  refine ⟨holdRules_empty.afterCalls sheetOf calls (sheetOf handle), fun call => ⟨?_, ?_⟩⟩
  · intro clone hclone
    rw [hclone]
    exact hosts.law_callSheet (sheetOf handle) call
  · intro other hother
    exact hosts.sheet_callSheet_of_ne (sheetOf handle) hother call

/-- An injection through one of two clones goes past a block without a selector and a rule whose
braces do not balance as characters, and reports both.  The other clone shows the rule between them,
and a handle to another sheet shows nothing. -/
theorem sheet_afterCalls_clone :
    let sheetOf : Nat → String := fun handle => if handle < 2 then "s" else "t"
    let hosts := Hosts.empty.afterCalls sheetOf [(0, .insert " c\x7bd\x7d " 0)]
    let css := "\x7b b \x7d e\x7bf\x7d g\x7bh: \"\x7d\"\x7d"
    let done := hosts.callSheet (sheetOf 0) (.inject "x" css)
    (done.1.sheet (sheetOf 1)).rules = ["c\x7bd\x7d", "e\x7bf\x7d"] ∧
      done.2 = some (.injection ⟨"x", "Rule rejected: missing selector (rule: '\x7b b \x7d'); " ++
        "Rule rejected: unbalanced braces (rule: 'g\x7bh: \"\x7d\"\x7d')"⟩) ∧
      done.1.sheet (sheetOf 2) = Sheet.empty := by
  intro sheetOf hosts css done
  have hsplit : Css.splitRules css =
      ["\x7b b \x7d", "e\x7bf\x7d", "g\x7bh: \"\x7d\"\x7d"] := by
    decide +kernel
  have hbefore : (hosts.sheet (sheetOf 1)).rules = ["c\x7bd\x7d"] := by decide +kernel
  obtain ⟨-, hcalls⟩ := sheet_afterCalls sheetOf [(0, .insert " c\x7bd\x7d " 0)] 0
  obtain ⟨hclone, hother⟩ := hcalls (.inject "x" css)
  obtain ⟨hrules, refusals, hrefused, herror⟩ := hclone 1 rfl
  have hkept : (Css.splitRules css).filter (fun rule => IsRule rule) = ["e\x7bf\x7d"] := by
    rw [hsplit]
    decide +kernel
  have hdropped : (Css.splitRules css).filter (fun rule => ¬IsRule rule) =
      ["\x7b b \x7d", "g\x7bh: \"\x7d\"\x7d"] := by
    rw [hsplit]
    decide +kernel
  refine ⟨?_, ?_, hother 2 (by decide)⟩
  · rwa [hkept, hbefore] at hrules
  · rw [hdropped] at hrefused
    obtain ⟨first, rest, hfirst, hrest, rfl⟩ := List.forall₂_cons_left_iff.1 hrefused
    obtain ⟨second, rest, hsecond, hnone, rfl⟩ := List.forall₂_cons_left_iff.1 hrest
    cases hnone
    rw [if_neg (List.cons_ne_nil _ _), List.map_cons, List.map_singleton,
      Sheet.message_of_refuses hfirst, Sheet.message_of_refuses hsecond] at herror
    exact herror.trans (by decide +kernel)

end Hosts

end ScopedCss
