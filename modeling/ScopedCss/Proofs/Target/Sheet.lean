/-
# What live sheets hold

A sheet that takes the rules of a text takes the acceptable ones in their order and puts them behind
what it holds (`stored_appendRules`); whether a rule is acceptable does not depend on the host or on
what it holds (`accepts_iff_insert`).  A sheet that is cleared goes on to remove its last rule until
none is left or one is refused, which comes to an end (`emptied_removeRules`) with the first rules
still there, as many as the sheet keeps (`stored_removeRules`).

`SheetStore` says what is used of a host: it stores rules as a plain sheet does, only that it gives
up none while it has no more than it keeps.  A plain sheet keeps none.
-/

import ScopedCss.Proofs.Text.Trim
import ScopedCss.Target.Basic

namespace ScopedCss

namespace Sheet

/-- Whether a sheet takes a rule at its end. -/
def accepts (rule : String) : Bool :=
  (objection? (Text.trimString rule).toList).isNone

/-- The rules of a CSS text that a sheet takes, in their order. -/
def acceptedRules (css : String) : List String :=
  (Css.splitRules css).filter accepts

/-- Every sheet refuses a rule in the given way, wherever it is to be put. -/
def Refuses (rule : String) (refusal : Rejected) : Prop :=
  ∀ (sheet : Sheet) (index : Nat), sheet.insert rule index = .error refusal

/-- An acceptable rule is put, trimmed, where the index says. -/
theorem insert_at_of_accepts {rule : String} (h : accepts rule = true) (sheet : Sheet) {index : Nat}
    (hindex : index ≤ sheet.rules.length) :
    sheet.insert rule index =
      .ok ⟨sheet.rules.take index ++ Text.trimString rule :: sheet.rules.drop index⟩ := by
  have hnone : objection? (Text.trimString rule).toList = none := by
    simpa [accepts] using h
  simp [insert, hnone, hindex]

theorem insert_of_accepts {rule : String} (h : accepts rule = true) (sheet : Sheet) :
    sheet.insert rule sheet.rules.length = .ok ⟨sheet.rules ++ [Text.trimString rule]⟩ := by
  rw [insert_at_of_accepts h sheet (Nat.le_refl _), List.take_length, List.drop_length]

/-- Every sheet refuses a text in the way of the objection that is found first. -/
theorem refuses_iff {rule : String} {refusal : Rejected} :
    Refuses rule refusal ↔ ∃ reason, objection? (Text.trimString rule).toList = some reason ∧
      refusal = ⟨Text.trimString rule, reason⟩ := by
  constructor
  · intro h
    have hinsert : empty.insert rule 0 = .error refusal := h empty 0
    cases hobjection : objection? (Text.trimString rule).toList with
    | none => simp [insert, hobjection] at hinsert
    | some reason =>
        simp only [insert, hobjection] at hinsert
        exact ⟨reason, rfl, (Except.error.inj hinsert).symm⟩
  · rintro ⟨reason, hobjection, rfl⟩ sheet index
    simp only [insert, hobjection]

/-- What is not acceptable is refused for the same reason by every sheet at every index. -/
theorem exists_refuses {rule : String} (h : ¬ accepts rule = true) :
    ∃ reason, Refuses rule ⟨Text.trimString rule, reason⟩ := by
  obtain ⟨reason, hreason⟩ : ∃ reason, objection? (Text.trimString rule).toList = some reason := by
    simpa [accepts, Option.ne_none_iff_exists'] using h
  exact ⟨reason, refuses_iff.2 ⟨reason, hreason, rfl⟩⟩

theorem insert_of_not_accepts {rule : String} (h : ¬ accepts rule = true) (sheet : Sheet)
    (index : Nat) : ∃ refusal, sheet.insert rule index = .error refusal := by
  obtain ⟨reason, hreason⟩ := exists_refuses h
  exact ⟨⟨Text.trimString rule, reason⟩, hreason sheet index⟩

end Sheet

/-- A host that stores rules as a sheet does, but gives none up while it has no more than it
keeps. -/
class SheetStore (σ : Type) [SheetHost σ] where
  stored : σ → Sheet
  kept : σ → Nat
  count_eq (host : σ) : SheetHost.count host = (stored host).rules.length
  insert_eq (host : σ) (rule : String) (index : Nat) :
    (SheetHost.insert host rule index).map (fun grown => (stored grown, kept grown)) =
      ((stored host).insert rule index).map fun grown => (grown, kept host)
  delete_eq (host : σ) (index : Nat) (h : kept host < (stored host).rules.length) :
    (SheetHost.delete host index).map (fun shrunk => (stored shrunk, kept shrunk)) =
      ((stored host).delete index).map fun shrunk => (shrunk, kept host)
  delete_refused (host : σ) (index : Nat) (h : (stored host).rules.length ≤ kept host) :
    ∃ refusal, SheetHost.delete host index = .error refusal

open SheetStore

instance : SheetStore Sheet where
  stored sheet := sheet
  kept _ := 0
  count_eq _ := rfl
  insert_eq _ _ _ := rfl
  delete_eq _ _ _ := rfl
  delete_refused _ index h :=
    ⟨_, if_pos (Nat.le_trans h (Nat.zero_le index))⟩

instance : SheetStore LockedSheet where
  stored locked := locked.sheet
  kept locked := locked.keep
  count_eq _ := rfl
  insert_eq locked rule index := by
    simp only [SheetHost.insert]
    cases locked.sheet.insert rule index <;> rfl
  delete_eq locked index h := by
    simp only [SheetHost.delete, SheetHost.count, if_neg (Nat.not_le.2 h)]
    cases locked.sheet.delete index <;> rfl
  delete_refused _ _ h := ⟨_, if_pos h⟩

/-- What is left when the last rule of a host is removed over and over: either there is none any
more, or one is refused. -/
inductive Emptied {σ : Type} [SheetHost σ] : σ → σ → Prop
  | bare {host : σ} (hcount : SheetHost.count host = 0) : Emptied host host
  | refused {host : σ} {last : Nat} {refusal : Rejected} (hcount : SheetHost.count host = last + 1)
      (hdelete : SheetHost.delete host last = .error refusal) : Emptied host host
  | removed {host shrunk left : σ} {last : Nat} (hcount : SheetHost.count host = last + 1)
      (hdelete : SheetHost.delete host last = .ok shrunk) (rest : Emptied shrunk left) :
      Emptied host left

namespace LiveSheet

variable {σ : Type} [SheetHost σ] [SheetStore σ]

/-- A host takes an acceptable rule at its end as a sheet does. -/
theorem insert_last {rule : String} (h : Sheet.accepts rule = true) (host : σ) :
    ∃ grown, SheetHost.insert host rule (SheetHost.count host) = .ok grown ∧
      stored grown = ⟨(stored host).rules ++ [Text.trimString rule]⟩ ∧ kept grown = kept host := by
  have heq := insert_eq host rule (SheetHost.count host)
  rw [count_eq, Sheet.insert_of_accepts h] at heq
  rw [count_eq]
  cases hinsert : SheetHost.insert host rule (stored host).rules.length with
  | error refusal => simp [hinsert, Except.map] at heq
  | ok grown =>
      simp only [hinsert, Except.map, Except.ok.injEq, Prod.mk.injEq] at heq
      exact ⟨grown, rfl, heq⟩

theorem insert_refused {rule : String} (h : ¬ Sheet.accepts rule = true) (host : σ) :
    ∃ refusal, SheetHost.insert host rule (SheetHost.count host) = .error refusal := by
  have heq := insert_eq host rule (SheetHost.count host)
  obtain ⟨refusal, hrefusal⟩ :=
    Sheet.insert_of_not_accepts h (stored host) (SheetHost.count host)
  rw [hrefusal] at heq
  cases hinsert : SheetHost.insert host rule (SheetHost.count host) with
  | error refusal => exact ⟨refusal, rfl⟩
  | ok grown => simp [hinsert, Except.map] at heq

/-- The acceptable rules are those that a host takes at its end, whatever it holds. -/
theorem accepts_iff_insert (host : σ) (rule : String) :
    Sheet.accepts rule = true ↔
      ∃ grown, SheetHost.insert host rule (SheetHost.count host) = .ok grown := by
  constructor
  · intro h
    obtain ⟨grown, hgrown, -⟩ := insert_last h host
    exact ⟨grown, hgrown⟩
  · rintro ⟨grown, hgrown⟩
    by_contra hnot
    obtain ⟨refusal, hrefusal⟩ := insert_refused hnot host
    cases hgrown.symm.trans hrefusal

/-- A host that keeps fewer rules than it has gives up its last one. -/
theorem delete_last {host : σ} {last : Nat} (hkept : kept host ≤ last)
    (hlast : (stored host).rules.length = last + 1) :
    ∃ shrunk, SheetHost.delete host last = .ok shrunk ∧
      stored shrunk = ⟨(stored host).rules.take last⟩ ∧ kept shrunk = kept host := by
  have heq := delete_eq host last (by omega)
  have hplain : (stored host).delete last = .ok ⟨(stored host).rules.take last⟩ := by
    rw [Sheet.delete, if_neg (by omega), List.drop_eq_nil_of_le (by omega), List.append_nil]
  rw [hplain] at heq
  cases hdelete : SheetHost.delete host last with
  | error refusal => simp [hdelete, Except.map] at heq
  | ok shrunk =>
      simp only [hdelete, Except.map, Except.ok.injEq, Prod.mk.injEq] at heq
      exact ⟨shrunk, rfl, heq⟩

/-- Putting rules at the end of a host adds the acceptable ones, in their order. -/
theorem stored_appendRules (host : σ) (rules : List String) :
    stored (appendRules host rules).1 =
        ⟨(stored host).rules ++ (rules.filter Sheet.accepts).map Text.trimString⟩ ∧
      kept (appendRules host rules).1 = kept host := by
  induction rules generalizing host with
  | nil => simp [appendRules]
  | cons rule rules ih =>
      by_cases haccepts : Sheet.accepts rule = true
      · obtain ⟨grown, hinsert, hstored, hkept⟩ := insert_last haccepts host
        simp only [appendRules, hinsert, ih grown, hstored, hkept,
          List.filter_cons_of_pos haccepts, List.map_cons, List.append_assoc,
          List.singleton_append, and_self]
      · obtain ⟨refusal, hinsert⟩ := insert_refused haccepts host
        simp [appendRules, hinsert, ih host, haccepts]

/-- A sheet that accepts all of some rules refuses none of them. -/
theorem appendRules_of_accepts {rules : List String}
    (h : ∀ rule ∈ rules, Sheet.accepts rule = true) (sheet : Sheet) :
    appendRules sheet rules = (⟨sheet.rules ++ rules.map Text.trimString⟩, []) := by
  induction rules generalizing sheet with
  | nil => simp [appendRules]
  | cons rule rules ih =>
      have hinsert : SheetHost.insert sheet rule (SheetHost.count sheet) =
          .ok ⟨sheet.rules ++ [Text.trimString rule]⟩ :=
        Sheet.insert_of_accepts (h rule List.mem_cons_self) sheet
      have hrest := ih fun r hr => h r (List.mem_cons_of_mem rule hr)
      simp only [appendRules, hinsert, hrest, List.map_cons, List.append_assoc,
        List.singleton_append]

/-- Removing all rules leaves the first ones, as many as the host keeps. -/
theorem stored_removeRules {host : σ} {count : Nat}
    (hcount : (stored host).rules.length = count) :
    stored (removeRules host count).1 = ⟨(stored host).rules.take (kept host)⟩ ∧
      kept (removeRules host count).1 = kept host := by
  induction count generalizing host with
  | zero =>
      have hnil : stored host = ⟨[]⟩ := by
        rw [← List.eq_nil_of_length_eq_zero hcount]
      simp [removeRules, hnil]
  | succ last ih =>
      by_cases hkept : kept host ≤ last
      · obtain ⟨shrunk, hdelete, hstored, hkeep⟩ := delete_last hkept hcount
        have hshrunk : (stored shrunk).rules.length = last := by
          simp [hstored, hcount]
        simp only [removeRules, hdelete, ih hshrunk, hkeep, hstored, List.take_take,
          Nat.min_eq_left hkept, and_self]
      · obtain ⟨refusal, hrefusal⟩ := delete_refused host last (by omega)
        simp only [removeRules, hrefusal, and_true]
        rw [List.take_of_length_le (by omega)]

/-- Removing rules one after the other comes to an end. -/
theorem emptied_removeRules {host : σ} {count : Nat}
    (hcount : (stored host).rules.length = count) : Emptied host (removeRules host count).1 := by
  induction count generalizing host with
  | zero => exact .bare (by rw [count_eq, hcount])
  | succ last ih =>
      have hlast : SheetHost.count host = last + 1 := by rw [count_eq, hcount]
      by_cases hkept : kept host ≤ last
      · obtain ⟨shrunk, hdelete, hstored, -⟩ := delete_last hkept hcount
        have hshrunk : (stored shrunk).rules.length = last := by
          simp [hstored, hcount]
        simp only [removeRules, hdelete]
        exact .removed hlast hdelete (ih hshrunk)
      · obtain ⟨refusal, hrefusal⟩ := delete_refused host last (by omega)
        simp only [removeRules, hrefusal]
        exact .refused hlast hrefusal

end LiveSheet

namespace Css

/-- The rules of a text come trimmed. -/
theorem trim_of_mem_rules {css rule : List Char} (h : rule ∈ rules css) :
    Text.trim rule = rule := by
  have hmem : rule ∈ candidates css := List.mem_of_mem_filter h
  unfold candidates at hmem
  split at hmem
  · split at hmem
    · cases hmem
    · rw [List.mem_singleton.1 hmem, Text.trim_trim]
  · obtain ⟨stretch, -, rfl⟩ := List.mem_map.1 hmem
    exact Text.trim_trim stretch

theorem trimString_of_mem_splitRules {css rule : String} (h : rule ∈ splitRules css) :
    Text.trimString rule = rule := by
  obtain ⟨text, htext, rfl⟩ := List.mem_map.1 h
  simp [Text.trimString, trim_of_mem_rules htext]

end Css

/-- A sheet stores the acceptable rules of a text as they are. -/
theorem Sheet.map_trimString_acceptedRules (css : String) :
    (acceptedRules css).map Text.trimString = acceptedRules css := by
  have htrimmed (rule : String) (hrule : rule ∈ acceptedRules css) :
      Text.trimString rule = id rule :=
    Css.trimString_of_mem_splitRules (List.mem_of_mem_filter hrule)
  rw [List.map_congr_left htrimmed, List.map_id]

end ScopedCss
