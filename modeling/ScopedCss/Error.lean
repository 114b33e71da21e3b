/-
# Errors

The causes for which an operation can fail, and their texts.
-/

import ScopedCss.Json.Reader
import ScopedCss.Number.Layout
import ScopedCss.Style.Reader
import ScopedCss.Text.Quoted

namespace ScopedCss

/-- Why a sheet refuses a rule, or the removal of one. -/
inductive Rejection where
  | missingBlock
  | missingSelector
  | unbalanced
  | outOfRange (index count : Nat)
  | other (message : String)
deriving DecidableEq, Repr

/-- A rule that was refused, with the reason.  A refused removal names no rule. -/
structure Rejected where
  rule : String
  reason : Rejection
deriving DecidableEq, Repr

/-- A style of which not everything could be injected. -/
structure InjectionFailure where
  id : String
  message : String
deriving DecidableEq, Repr

/-- Whatever can go wrong. -/
inductive StyleError where
  | injection (failure : InjectionFailure)
  | rejected (rejected : Rejected)
  | invalid (invalid : InvalidStyle)
  | unreadable (why : Json.ReadError)
  | unwritable
deriving DecidableEq

namespace Json

/-- What was met, in words. -/
def Atom.describe : Atom → String
  | .null => "null"
  | .bool b => s!"boolean `{b}`"
  | .numeral (.integer n) =>
    let digits := String.ofList (ScopedCss.Numeral.signedDecimal n)
    s!"integer `{digits}`"
  | .numeral (.real (.finite x)) =>
    let digits := String.ofList (Layout.diagnostic.finite x)
    s!"floating point `{digits}`"
  | .numeral (.real x) =>
    let name := String.ofList x.text
    s!"floating point `{name}`"
  | .text s => "string " ++ Text.quoted s

/-- What was due, in words. -/
def Expected.describe : Expected → String
  | .style => "a style object"
  | .value => "a string, number or nested style object"

/-- The text of a mismatch. -/
def Mismatch.message (m : Mismatch) : String :=
  let found := match m.found with
    | some a => a.describe
    | none => "sequence"
  let expected := m.expected.describe
  s!"invalid type: {found}, expected {expected}"

end Json

/-- The text of a reason to refuse a rule. -/
def Rejection.message : Rejection → String
  | .missingBlock => "missing block"
  | .missingSelector => "missing selector"
  | .unbalanced => "unbalanced braces"
  | .outOfRange index count => s!"index {index} out of range for {count} rules"
  | .other message => message

/-- The text of a refused rule. -/
def Rejected.message (r : Rejected) : String :=
  let reason := r.reason.message
  let rule := r.rule
  s!"Rule rejected: {reason} (rule: '{rule}')"

/-- The text of a failed injection. -/
def InjectionFailure.text (f : InjectionFailure) : String :=
  let id := f.id
  let message := f.message
  s!"Failed to inject style '{id}': {message}"

/-- The text of a reason why a value is no style. -/
def Misfit.message : Misfit → String
  | .notObject found => s!"expected an object, found {found}"
  | .list => "arrays are not valid style values"
  | .outOfRange => "number out of range"
  | .other message => message

/-- The text of a value that is no style. -/
def InvalidStyle.message (i : InvalidStyle) : String :=
  let key := i.key
  let reason := i.reason.message
  s!"Invalid style description at '{key}': {reason}"

/-- The text of an error, where it has one of its own. -/
def StyleError.message? : StyleError → Option String
  | .injection f => some f.text
  | .rejected r => some r.message
  | .invalid i => some i.message
  | .unreadable (.mismatch m) => some ("Invalid JSON style description: " ++ m.message)
  | .unreadable (.fault _) => none
  | .unwritable => none

end ScopedCss
