/-
# Workspaces

Several managers may work on the same sheets, elements and collections.  A workspace keeps those by
name, together with the managers, which know their target by reference only.  To do something a
manager is lent the hosts (`Hosts.lend`): its target becomes a `Place`, that is all hosts and a
reference to the one it works on, and whatever it does there is seen by everyone who refers to the
same host afterwards.

There is one manager without a name, the standing one.  It is made from the environment when it is
first needed.
-/

import ScopedCss.Manager.Run

namespace ScopedCss

/-- A reference to a live target by the name of its host.  A locked sheet and a plain element are
other ways to treat the host of that name. -/
inductive LiveRef where
  | sheet (name : String)
  | locked (name : String) (keep : Nat) (hidden : Option Nat)
  | element (name : String)
  | plain (name : String)
deriving DecidableEq, Repr

/-- A reference to a target: a live one, or a sink into the collection of a name. -/
inductive TargetRef where
  | live (ref : LiveRef)
  | collecting (name : String)
deriving DecidableEq, Repr

/-- The kind of a live target. -/
def LiveRef.kind : LiveRef → TargetKind
  | .sheet _ | .locked _ _ _ => .sheet
  | .element _ | .plain _ => .element

/-- A live target in diagnostics, where it was given in place of the usual one. -/
def LiveRef.describe : LiveRef → String
  | .sheet _ | .locked _ _ _ => "TargetOverride::Sheet(..)"
  | .element _ | .plain _ => "TargetOverride::Element(..)"

/-- The kind of the target referred to. -/
def TargetRef.kind : TargetRef → TargetKind
  | .live ref => ref.kind
  | .collecting _ => .collecting

/-- The sheets, elements and collections, by name.  A host that was never named is empty. -/
structure Hosts where
  sheets : Table Sheet
  elements : Table Element
  collections : Table Collection
deriving DecidableEq, Repr

namespace Hosts

/-- No hosts but empty ones. -/
def empty : Hosts := ⟨[], [], []⟩

/-- The sheet of a name. -/
def sheet (hosts : Hosts) (name : String) : Sheet :=
  (hosts.sheets.get? name).getD .empty

/-- The element of a name. -/
def element (hosts : Hosts) (name : String) : Element :=
  (hosts.elements.get? name).getD .empty

/-- The collection of a name. -/
def collection (hosts : Hosts) (name : String) : Collection :=
  (hosts.collections.get? name).getD .empty

/-- Change the sheet of a name. -/
def setSheet (hosts : Hosts) (name : String) (sheet : Sheet) : Hosts :=
  { hosts with sheets := hosts.sheets.put name sheet }

/-- Change the element of a name. -/
def setElement (hosts : Hosts) (name : String) (element : Element) : Hosts :=
  { hosts with elements := hosts.elements.put name element }

/-- Change the collection of a name. -/
def setCollection (hosts : Hosts) (name : String) (collection : Collection) : Hosts :=
  { hosts with collections := hosts.collections.put name collection }

theorem sheet_setSheet (hosts : Hosts) (name other : String) (sheet : Sheet) :
    (hosts.setSheet name sheet).sheet other =
      if other = name then sheet else hosts.sheet other := by
  simp only [Hosts.sheet, setSheet, Table.get?_put]
  split <;> rfl

theorem element_setElement (hosts : Hosts) (name other : String) (element : Element) :
    (hosts.setElement name element).element other =
      if other = name then element else hosts.element other := by
  simp only [Hosts.element, setElement, Table.get?_put]
  split <;> rfl

theorem collection_setCollection (hosts : Hosts) (name other : String) (collection : Collection) :
    (hosts.setCollection name collection).collection other =
      if other = name then collection else hosts.collection other := by
  simp only [Hosts.collection, setCollection, Table.get?_put]
  split <;> rfl

end Hosts

/-- A target among all hosts. -/
structure Place where
  hosts : Hosts
  ref : TargetRef
deriving DecidableEq, Repr

namespace Place

/-- Do something to the target at a place. -/
def act {α : Type} (place : Place) (f : {τ : Type} → [InjectionTarget τ] → τ → τ × α) :
    Place × α :=
  match place.ref with
  | .live (.sheet name) =>
    let done := f (LiveSheet.mk (place.hosts.sheet name))
    ({ place with hosts := place.hosts.setSheet name done.1.sheet }, done.2)
  | .live (.locked name keep hidden) =>
    let done := f (LiveSheet.mk (LockedSheet.mk (place.hosts.sheet name) keep hidden))
    ({ place with hosts := place.hosts.setSheet name done.1.sheet.sheet }, done.2)
  | .live (.element name) =>
    let done := f (LiveElement.mk (place.hosts.element name))
    ({ place with hosts := place.hosts.setElement name done.1.element }, done.2)
  | .live (.plain name) =>
    let done := f (LiveElement.mk (PlainElement.mk (place.hosts.element name)))
    ({ place with hosts := place.hosts.setElement name done.1.element.element }, done.2)
  | .collecting name =>
    let done := f (Sink.mk (place.hosts.collection name))
    ({ place with hosts := place.hosts.setCollection name done.1.collection }, done.2)

instance : InjectionTarget Place where
  kind place := place.ref.kind
  inject place id css := place.act fun target => InjectionTarget.inject target id css
  injected place := (place.act fun target => (target, InjectionTarget.injected target)).2
  clear place := place.act InjectionTarget.clear

end Place

/-- The collection that managers use when they are given no other. -/
def globalCollection : String := "global"

namespace Hosts

/-- What was collected in the global collection. -/
def collected (hosts : Hosts) : String :=
  (hosts.collection globalCollection).text

/-- Empty the global collection. -/
def dropCollected (hosts : Hosts) : Hosts :=
  hosts.setCollection globalCollection .empty

end Hosts

/-- What a manager is made from: options, and a live target or a collection to use in place of the
usual one. -/
structure Setup where
  options : Options
  override : Option LiveRef
  collection : Option String
deriving DecidableEq, Repr

/-- The target of a manager made from a setup; a live target goes before a collection. -/
def Setup.target (setup : Setup) : TargetRef :=
  match setup.override with
  | some ref => .live ref
  | none => .collecting (setup.collection.getD globalCollection)

/-- Hosts, managers and targets by name, the environment, and the standing manager. -/
structure Workspace where
  hosts : Hosts
  environment : Environment
  managers : Table (Manager TargetRef)
  targets : Table TargetRef
  standing : Option (Manager TargetRef)

/-- Let a manager work on the hosts. -/
def Hosts.lend {α : Type} (hosts : Hosts) (m : Manager TargetRef)
    (f : Manager Place → Logged (Manager Place × α)) : Logged (Hosts × Manager TargetRef × α) := do
  let (done, answer) ← f (m.rebind ⟨hosts, m.target⟩)
  pure (done.target.hosts, done.rebind done.target.ref, answer)

namespace Workspace

/-- A workspace with nothing in it. -/
def empty (environment : Environment) : Workspace :=
  ⟨.empty, environment, [], [], none⟩

/-- Make a manager and bind it to a target. -/
def makeManager (options : Options) (ref : TargetRef) (hosts : Hosts) :
    Logged (Manager TargetRef) := do
  let m ← Manager.start options (Place.mk hosts ref)
  pure (m.rebind ref)

/-- Make a manager under a name. -/
def install (w : Workspace) (name : String) (options : Options) (ref : TargetRef) :
    Logged Workspace := do
  let m ← makeManager options ref w.hosts
  pure { w with managers := w.managers.put name m }

/-- Let the manager of a name do something. -/
def withManager? {α : Type} (w : Workspace) (name : String)
    (f : Manager Place → Logged (Manager Place × α)) : Option (Logged (Workspace × α)) :=
  (w.managers.get? name).map fun m => do
    let (hosts, m, answer) ← w.hosts.lend m f
    pure ({ w with hosts, managers := w.managers.put name m }, answer)

/-- Make the standing manager from a setup. -/
def establish (w : Workspace) (setup : Setup) : Logged Workspace := do
  let m ← makeManager setup.options setup.target w.hosts
  pure { w with standing := some m }

/-- Drop the standing manager. -/
def reset (w : Workspace) : Workspace :=
  { w with standing := none }

/-- The standing manager, made from the environment if there is none. -/
def standingManager (w : Workspace) : Logged (Manager TargetRef) :=
  match w.standing with
  | some m => pure m
  | none => makeManager (.ofEnvironment w.environment) (.collecting globalCollection) w.hosts

/-- Let the standing manager do something. -/
def withStanding {α : Type} (w : Workspace) (f : Manager Place → Logged (Manager Place × α)) :
    Logged (Workspace × α) := do
  let m ← w.standingManager
  let (hosts, m, answer) ← w.hosts.lend m f
  pure ({ w with hosts, standing := some m }, answer)

/-- Do something to the target of a name. -/
def withTarget? {α : Type} (w : Workspace) (name : String)
    (f : {τ : Type} → [InjectionTarget τ] → τ → τ × α) : Option (Workspace × α) :=
  (w.targets.get? name).map fun ref =>
    let done := (Place.mk w.hosts ref).act f
    ({ w with hosts := done.1.hosts }, done.2)

/-- Clear the target of a name. -/
def clearTarget? (w : Workspace) (name : String) : Option (Logged Workspace) :=
  (w.withTarget? name InjectionTarget.clear).map .ofClearing

end Workspace

end ScopedCss
