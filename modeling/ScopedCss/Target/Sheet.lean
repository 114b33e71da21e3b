/-
# Sheets

A sheet holds rules in order and takes them one at a time.  It refuses what cannot be a rule: a text
without a block, without a selector before it, or with braces that do not balance.  `SheetHost` is
what a target asks of a sheet; a locked sheet is one that lets rules be removed only while it has
more than it wants to keep.
-/

import ScopedCss.Error
import ScopedCss.Text.Blank

namespace ScopedCss

/-- What a target asks of a sheet. -/
class SheetHost (σ : Type) where
  count : σ → Nat
  insert : σ → String → Nat → Except Rejected σ
  delete : σ → Nat → Except Rejected σ
  text? : σ → Nat → Option String

/-- The rules of a sheet, in order. -/
structure Sheet where
  rules : List String
deriving DecidableEq, Repr

namespace Sheet

/-- A sheet without rules. -/
def empty : Sheet := ⟨[]⟩

/-- Whether the braces of a text balance, with so many open before it.  The depth has no bound; a
32-bit counter in its place would count the same while fewer than 2 ^ 31 braces are open. -/
def balanced (depth : Nat) : List Char → Bool
  | [] => depth == 0
  | c :: cs =>
    if c = '\x7b' then balanced (depth + 1) cs
    else if c = '\x7d' then
      match depth with
      | 0 => false
      | outer + 1 => balanced outer cs
    else balanced depth cs

/-- What makes a trimmed text unfit to be a rule, if anything does. -/
def objection? (rule : List Char) : Option Rejection :=
  if !rule.contains '\x7b' then some .missingBlock
  else if Text.isAllBlank (rule.takeWhile (· != '\x7b')) then some .missingSelector
  else if !balanced 0 rule || rule.getLast? != some '\x7d' then some .unbalanced
  else none

/-- Put a rule, trimmed, in front of the one at an index, or at the end. -/
def insert (sheet : Sheet) (rule : String) (index : Nat) : Except Rejected Sheet :=
  let trimmed := Text.trimString rule
  match objection? trimmed.toList with
  | some reason => .error ⟨trimmed, reason⟩
  | none =>
    if sheet.rules.length < index then
      .error ⟨trimmed, .outOfRange index sheet.rules.length⟩
    else .ok ⟨sheet.rules.take index ++ trimmed :: sheet.rules.drop index⟩

/-- Remove the rule at an index. -/
def delete (sheet : Sheet) (index : Nat) : Except Rejected Sheet :=
  if sheet.rules.length ≤ index then .error ⟨"", .outOfRange index sheet.rules.length⟩
  else .ok ⟨sheet.rules.take index ++ sheet.rules.drop (index + 1)⟩

instance : SheetHost Sheet where
  count sheet := sheet.rules.length
  insert := insert
  delete := delete
  text? sheet index := sheet.rules[index]?

end Sheet

/-- A sheet that keeps its first rules and may hide the text of one. -/
structure LockedSheet where
  sheet : Sheet
  keep : Nat
  hidden : Option Nat
deriving DecidableEq, Repr

namespace LockedSheet

/-- The refusal of a locked sheet. -/
def refusal : Rejected := ⟨"", .other "locked"⟩

instance : SheetHost LockedSheet where
  count locked := SheetHost.count locked.sheet
  insert locked rule index :=
    (locked.sheet.insert rule index).map fun sheet => { locked with sheet }
  delete locked index :=
    if SheetHost.count locked.sheet ≤ locked.keep then .error refusal
    else (locked.sheet.delete index).map fun sheet => { locked with sheet }
  text? locked index :=
    if locked.hidden = some index then none else SheetHost.text? locked.sheet index

end LockedSheet

end ScopedCss
