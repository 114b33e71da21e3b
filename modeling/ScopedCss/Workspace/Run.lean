/-
# Runs of a workspace

What may happen in a workspace and to its hosts, as data, so that a whole run is a list.

A step of a workspace is a call of one of its managers, a drain of a collection in between, or a
manager that is made or dropped on the way.  A call is made to a manager with a name or to the
standing one; `Workspace.manager?` and `Workspace.setManager` do not tell the two apart.  A turn is
what happens around one collection: the manager that fills it is called, or it is drained.

Sheets and collections are also called by whoever holds a handle to them.  A handle designates a
host by its name, so clones of a handle are handles that designate the same one.
-/

import ScopedCss.Workspace

namespace ScopedCss

/-- Whom a call is made to: the manager of a name, or the standing one. -/
inductive Callee where
  | named (name : String)
  | standing
deriving DecidableEq, Repr

/-- What may happen in a workspace. -/
inductive Step where
  | call (callee : Callee) (c : Call)
  | take (collection : String)
  | empty (collection : String)
  | dropCollected
  | install (name : String) (options : Options) (ref : TargetRef)
  | establish (setup : Setup)
  | reset

/-- The call that a step is. -/
def Step.call? : Step → Option Call
  | .call _ c => some c
  | _ => none

namespace Workspace

/-- The manager that a call is made to.  There is always a standing one. -/
def manager? (w : Workspace) : Callee → Option (Manager TargetRef)
  | .named name => w.managers.get? name
  | .standing => some w.standingManager.value

/-- Put a manager in the place of another. -/
def setManager (w : Workspace) (m : Manager TargetRef) : Callee → Workspace
  | .named name => { w with managers := w.managers.put name m }
  | .standing => { w with standing := some m }

/-- Let one step happen.  The answer is that of a call, or the text that was taken. -/
def step (w : Workspace) : Step → Workspace × Option String
  | .call (.named name) c =>
    match w.withManager? name fun m => m.call c with
    | some done => done.value
    | none => (w, none)
  | .call .standing c => (w.withStanding fun m => m.call c).value
  | .take name =>
    let taken := (w.hosts.collection name).take
    ({ w with hosts := w.hosts.setCollection name taken.2 }, some taken.1)
  | .empty name => ({ w with hosts := w.hosts.setCollection name .empty }, none)
  | .dropCollected => ({ w with hosts := w.hosts.dropCollected }, none)
  | .install name options ref => ((w.install name options ref).value, none)
  | .establish setup => ((w.establish setup).value, none)
  | .reset => (w.reset, none)

/-- The workspace that steps leave. -/
def after (w : Workspace) : List Step → Workspace
  | [] => w
  | s :: steps => after (w.step s).1 steps

/-- Steps with their answers. -/
def trace (w : Workspace) : List Step → List (Step × Option String)
  | [] => []
  | s :: steps => (s, (w.step s).2) :: trace (w.step s).1 steps

end Workspace

/-- What happens around a collection: the manager that fills it is called, or it is drained for a
response.  The global collection can also be drained by dropping what was collected. -/
inductive Turn where
  | call (c : Call)
  | take
  | empty
  | dropCollected

/-- The call that a turn is. -/
def Turn.call? : Turn → Option Call
  | .call c => some c
  | _ => none

namespace Manager

/-- The collection of a name, as a manager at a place sees it. -/
def collected (m : Manager Place) (name : String) : Collection :=
  m.target.hosts.collection name

/-- The same registry with other hosts around it. -/
def withHosts (m : Manager Place) (hosts : Hosts) : Manager Place :=
  m.rebind { m.target with hosts }

/-- Let one turn happen. -/
def turn (name : String) (m : Manager Place) : Turn → Manager Place
  | .call c => (m.call c).value.1
  | .take => m.withHosts (m.target.hosts.setCollection name (m.collected name).take.2)
  | .empty => m.withHosts (m.target.hosts.setCollection name .empty)
  | .dropCollected => m.withHosts m.target.hosts.dropCollected

/-- Let turns happen one after the other. -/
def serve (name : String) (m : Manager Place) (turns : List Turn) : Manager Place :=
  turns.foldl (turn name) m

end Manager

/-- What is done to a sheet through a handle. -/
inductive SheetCall where
  | insert (rule : String) (index : Nat)
  | delete (index : Nat)
  | inject (id css : String)
deriving DecidableEq, Repr

/-- What is done to a collection through a handle. -/
inductive CollectionCall where
  | insert (id css : String)
  | take
  | clear
deriving DecidableEq, Repr

namespace Hosts

/-- Keep what became of a sheet; a refusal changes nothing. -/
def settle (hosts : Hosts) (name : String) : Except Rejected Sheet → Hosts × Option StyleError
  | .ok sheet => (hosts.setSheet name sheet, none)
  | .error refusal => (hosts, some (.rejected refusal))

/-- Call the sheet of a name. -/
def callSheet (hosts : Hosts) (name : String) : SheetCall → Hosts × Option StyleError
  | .insert rule index => hosts.settle name ((hosts.sheet name).insert rule index)
  | .delete index => hosts.settle name ((hosts.sheet name).delete index)
  | .inject id css =>
    let done := InjectionTarget.inject (Place.mk hosts (.live (.sheet name))) id css
    (done.1.hosts, done.2.map .injection)

/-- The hosts that calls of sheets through handles leave. -/
def afterCalls {H : Type} (sheetOf : H → String) (hosts : Hosts) : List (H × SheetCall) → Hosts
  | [] => hosts
  | (handle, call) :: calls =>
    afterCalls sheetOf (hosts.callSheet (sheetOf handle) call).1 calls

/-- Call the collection of a name.  A take answers with what it took. -/
def callCollection (hosts : Hosts) (name : String) : CollectionCall → Hosts × Option String
  | .insert id css => (hosts.setCollection name ((hosts.collection name).insert id css), none)
  | .take =>
    let taken := (hosts.collection name).take
    (hosts.setCollection name taken.2, some taken.1)
  | .clear => (hosts.setCollection name .empty, none)

/-- The hosts that calls of collections through handles leave. -/
def afterCollecting {H : Type} (collectionOf : H → String) (hosts : Hosts)
    (calls : List (H × CollectionCall)) : Hosts :=
  calls.foldl (fun hosts entry => (hosts.callCollection (collectionOf entry.1) entry.2).1) hosts

/-- The answers that calls of collections through handles get. -/
def answers {H : Type} (collectionOf : H → String) (hosts : Hosts) :
    List (H × CollectionCall) → List (Option String)
  | [] => []
  | (handle, call) :: calls =>
    let done := hosts.callCollection (collectionOf handle) call
    done.2 :: answers collectionOf done.1 calls

end Hosts

end ScopedCss
