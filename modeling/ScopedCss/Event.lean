/-
# Events

What a manager reports while it works.  Reports never change what it does: an operation answers its
value together with the events on the way, in order (`Logged`).
-/

import ScopedCss.Input
import ScopedCss.Options
import ScopedCss.Target.Basic
import ScopedCss.Text.Preview

namespace ScopedCss

/-- How serious an event is. -/
inductive Level where
  | trace
  | debug
  | info
  | warn
deriving DecidableEq, Repr

/-- Something worth reporting. -/
inductive Event where
  | initialized (kind : TargetKind) (mode : Mode) (buildTime : Bool)
  | generated (input : CompiledInput)
  | alreadyInjected (id : String)
  | injectionFailed (id : String) (failure : InjectionFailure)
  | removalFailed (refusal : Rejected)
  | cleared
  | extractWritten (styles : Nat)
  | inspectionUnavailable
deriving DecidableEq

namespace Level

/-- The name of a level. -/
def name : Level → String
  | .trace => "TRACE"
  | .debug => "DEBUG"
  | .info => "INFO"
  | .warn => "WARN"

end Level

namespace Event

/-- How serious an event is. -/
def level : Event → Level
  | .initialized _ _ _ | .generated _ => .debug
  | .alreadyInjected _ => .trace
  | .injectionFailed _ _ | .removalFailed _ | .inspectionUnavailable => .warn
  | .cleared | .extractWritten _ => .info

/-- The part of the program that reports an event. -/
def source : Event → String
  | .generated _ => "zero_css_core::compiler"
  | .extractWritten _ => "zero_css_core::extract"
  | _ => "zero_css_core::manager"

/-- The message of an event. -/
def message : Event → String
  | .initialized _ _ _ => "style manager initialized"
  | .generated _ => "generated css"
  | .alreadyInjected _ => "style already injected"
  | .injectionFailed _ _ => "failed to inject style"
  | .removalFailed _ => "failed to delete rule while clearing stylesheet"
  | .cleared => "styles cleared"
  | .extractWritten _ => "wrote extracted css"
  | .inspectionUnavailable => "debug info is only available in development mode"

/-- What an event says besides its message, by name. -/
def fields : Event → List (String × String)
  | .initialized kind mode buildTime =>
    [("kind", kind.name), ("mode", mode.name), ("build_time", toString buildTime)]
  | .generated input =>
    [("id", input.id), ("class_name", input.className), ("css", Text.preview input.css)]
  | .alreadyInjected id => [("id", id)]
  | .injectionFailed id failure => [("id", id), ("error", failure.text)]
  | .removalFailed refusal => [("error", refusal.message)]
  | .extractWritten styles => [("styles", toString styles)]
  | .cleared | .inspectionUnavailable => []

end Event

/-- A value together with the events on the way to it. -/
structure Logged (α : Type) where
  value : α
  events : List Event

namespace Logged

instance : Monad Logged where
  pure x := ⟨x, []⟩
  bind x f := ⟨(f x.value).value, x.events ++ (f x.value).events⟩

/-- Report events. -/
def report (events : List Event) : Logged Unit := ⟨(), events⟩

/-- What a cleared target leaves; a rule that it did not give up is reported. -/
def ofClearing {α : Type} (cleared : α × Option Rejected) : Logged α :=
  ⟨cleared.1, cleared.2.toList.map Event.removalFailed⟩

variable {α β : Type}

@[simp] theorem value_pure (x : α) : (pure x : Logged α).value = x := rfl

@[simp] theorem value_bind (x : Logged α) (f : α → Logged β) :
    (x >>= f).value = (f x.value).value := rfl

end Logged

end ScopedCss
