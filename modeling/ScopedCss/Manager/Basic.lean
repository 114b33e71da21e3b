/-
# Managers

A manager registers styles by id and hands the CSS of each new one to its target.  An id that was
injected already is left alone, whatever its text.  What it keeps:

* the registered styles, in order of registration, until they are cleared;
* the ids that were injected;
* in development, if asked for, a snapshot of each registration;
* for a build, the CSS of the inputs seen, which is extracted instead of injected and outlives
  clearing.

A refusal by the target is reported and otherwise passed over.
-/

import ScopedCss.Event
import ScopedCss.Json.Basic
import ScopedCss.Table

namespace ScopedCss

/-- A registered style. -/
structure CompiledStyle where
  id : String
  css : String
  checksum : String
  metadata : Option Json

/-- What was handed in when a style was registered. -/
structure Snapshot where
  css : String
  metadata : Option Json

/-- A registry of styles that is bound to a target. -/
structure Manager (τ : Type) where
  options : Options
  styles : Table CompiledStyle
  injected : List String
  snapshots : Table Snapshot
  extracted : Table String
  target : τ

namespace Manager

variable {τ : Type}

/-- A manager with nothing registered. -/
def fresh (options : Options) (target : τ) : Manager τ :=
  ⟨options, [], [], [], [], target⟩

/-- The same registry bound to something else. -/
def rebind {υ : Type} (m : Manager τ) (target : υ) : Manager υ :=
  { m with target }

/-- Whether an id was injected. -/
def isInjected (m : Manager τ) (id : String) : Bool :=
  m.injected.contains id

/-- The registered style of an id. -/
def style? (m : Manager τ) (id : String) : Option CompiledStyle :=
  m.styles.get? id

/-- The CSS of a registered style, unless it is empty. -/
def styleCss? (m : Manager τ) (id : String) : Option String :=
  ((m.style? id).map CompiledStyle.css).filter (· != "")

/-- The snapshot of an id; there is none outside development. -/
def snapshot? (m : Manager τ) (id : String) : Option Snapshot :=
  if m.options.mode.isDevelopment then m.snapshots.get? id else none

/-- All snapshots; there are none to be had outside development. -/
def allSnapshots? (m : Manager τ) : Option (Table Snapshot) :=
  if m.options.mode.isDevelopment then some m.snapshots else none

/-- The CSS extracted for a build. -/
def extractedCss (m : Manager τ) : String :=
  joinLines m.extracted.values

/-- What a build writes to a file: the extracted CSS, and a line break if there is any. -/
def extractFile (m : Manager τ) : String :=
  if m.extractedCss = "" then "" else m.extractedCss ++ "\n"

/-- Write the extracted CSS to a file; the answer is the content of the file.  It cannot be written
where there is no directory for it. -/
def writeExtract (m : Manager τ) (hasDirectory : Bool) : Logged (Except StyleError String) :=
  if hasDirectory then ⟨.ok m.extractFile, [.extractWritten m.extracted.length]⟩
  else ⟨.error .unwritable, []⟩

/-- Look at the snapshots of a manager.  Outside development there are none to be seen, which is
reported. -/
def inspect {α : Type} (m : Manager τ) (look : Manager τ → Option α) : Logged (Option α) :=
  ⟨look m, if m.options.mode.isDevelopment then [] else [.inspectionUnavailable]⟩

variable [InjectionTarget τ]

/-- Bind a new manager to a target. -/
def start (options : Options) (target : τ) : Logged (Manager τ) := do
  .report [.initialized (InjectionTarget.kind target) options.mode options.buildTime]
  pure (fresh options target)

/-- The CSS that the target shows. -/
def injectedCss (m : Manager τ) : String :=
  InjectionTarget.injected m.target

/-- Register a style and inject it, unless its id was injected already. -/
def addStyle (m : Manager τ) (id css : String) (metadata : Option Json) : Logged (Manager τ) :=
  if m.isInjected id then ⟨m, [.alreadyInjected id]⟩
  else
    let taken := InjectionTarget.inject m.target id css
    ⟨{ m with
        styles := m.styles.put id ⟨id, css, Digest.checksum css, metadata⟩
        injected := m.injected ++ [id]
        snapshots :=
          if m.options.capturesDebug then m.snapshots.put id ⟨css, metadata⟩ else m.snapshots
        target := taken.1 },
      taken.2.toList.map (Event.injectionFailed id)⟩

/-- Compile an input and register it; the answer is its class name.  For a build the CSS is kept
apart and the answer is the bare id. -/
def css (m : Manager τ) (input : StyleInput) : Logged (Manager τ × String) := do
  let compiled := input.compile
  .report (if m.options.mode.isDevelopment then [.generated compiled] else [])
  if m.options.buildTime then
    pure ({ m with extracted := m.extracted.putNew compiled.id compiled.css }, compiled.id)
  else
    let grown ← m.addStyle compiled.id compiled.css none
    pure (grown, compiled.className)

/-- Register CSS as it is; the answer is the class name of its text. -/
def applyStyles (m : Manager τ) (text : String) (metadata : Option Json) :
    Logged (Manager τ × String) := do
  let grown ← m.addStyle (Digest.ofText text) text metadata
  pure (grown, Digest.classNameOfText text)

/-- Forget every registered style and take from the target what it gives up. -/
def clear (m : Manager τ) : Logged (Manager τ) := do
  let target ← .ofClearing (InjectionTarget.clear m.target)
  .report [.cleared]
  pure { m with styles := [], injected := [], snapshots := [], target }

/-- The name of a manager in diagnostics. -/
def describe (m : Manager τ) : String :=
  let mode := m.options.mode.name
  let kind := (InjectionTarget.kind m.target).name
  let styles := m.styles.length
  let injected := m.injected.length
  "StyleManager \x7b " ++
    s!"mode: {mode}, target: {kind}, styles: {styles}, injected: {injected}" ++ " \x7d"

end Manager

end ScopedCss
