/-
# Targets

A target takes compiled CSS somewhere: a live sheet gets it rule by rule, a live element as text,
and a sink collects it by id.  A sheet may refuse some of the rules; the others are injected all the
same, and the refusals make up one failure.
-/

import ScopedCss.Css.Rules
import ScopedCss.Target.Collection
import ScopedCss.Target.Element
import ScopedCss.Target.Sheet

namespace ScopedCss

/-- The kinds of targets. -/
inductive TargetKind where
  | sheet
  | element
  | collecting
deriving DecidableEq, Repr

/-- The name of a kind of target. -/
def TargetKind.name : TargetKind → String
  | .sheet => "Stylesheet"
  | .element => "Element"
  | .collecting => "Collecting"

/-- What a manager asks of a target: its kind, to take the CSS of a style, to show what it took, and
to give it up again. -/
class InjectionTarget (τ : Type) where
  kind : τ → TargetKind
  inject : τ → String → String → τ × Option InjectionFailure
  injected : τ → String
  clear : τ → τ × Option Rejected

/-- A sheet as a target. -/
structure LiveSheet (σ : Type) where
  sheet : σ

namespace LiveSheet

variable {σ : Type} [SheetHost σ]

/-- Put rules at the end of a sheet, one after the other, and gather the refusals. -/
def appendRules (sheet : σ) : List String → σ × List Rejected
  | [] => (sheet, [])
  | rule :: rules =>
    match SheetHost.insert sheet rule (SheetHost.count sheet) with
    | .ok grown => appendRules grown rules
    | .error refusal =>
      let rest := appendRules sheet rules
      (rest.1, refusal :: rest.2)

/-- The failure to inject a style of which rules were refused. -/
def failure? (id : String) : List Rejected → Option InjectionFailure
  | [] => none
  | refusals => some ⟨id, String.intercalate "; " (refusals.map Rejected.message)⟩

/-- Remove the last of `count` rules, and so on, until one is not given up. -/
def removeRules (sheet : σ) : Nat → σ × Option Rejected
  | 0 => (sheet, none)
  | count + 1 =>
    match SheetHost.delete sheet count with
    | .ok shrunk => removeRules shrunk count
    | .error refusal => (sheet, some refusal)

instance : InjectionTarget (LiveSheet σ) where
  kind _ := .sheet
  inject live id css :=
    let appended := appendRules live.sheet (Css.splitRules css)
    (⟨appended.1⟩, failure? id appended.2)
  injected live :=
    joinLines ((List.range (SheetHost.count live.sheet)).filterMap (SheetHost.text? live.sheet))
  clear live :=
    let removed := removeRules live.sheet (SheetHost.count live.sheet)
    (⟨removed.1⟩, removed.2)

end LiveSheet

/-- An element as a target. -/
structure LiveElement (ε : Type) where
  element : ε

namespace LiveElement

variable {ε : Type} [ElementHost ε]

instance : InjectionTarget (LiveElement ε) where
  kind _ := .element
  inject live _ css := (⟨ElementHost.appendText live.element (css ++ "\n")⟩, none)
  injected live := ElementHost.text live.element
  clear live := (⟨ElementHost.setText live.element ""⟩, none)

end LiveElement

/-- A collection as a target.  It shows nothing, and gives nothing up: whoever owns the collection
empties it. -/
structure Sink where
  collection : Collection
deriving DecidableEq, Repr

instance : InjectionTarget Sink where
  kind _ := .collecting
  inject sink id css := (⟨sink.collection.insert id css⟩, none)
  injected _ := ""
  clear sink := (sink, none)

end ScopedCss
