/-
# Runs of a manager

The calls by which a manager's registry changes, as data, so that a whole run is a list.  A run has
the answers of its calls (`Manager.run`) and leaves a manager (`Manager.after`).
-/

import ScopedCss.Manager.Basic

namespace ScopedCss

/-- A call that may change a registry. -/
inductive Call where
  | addStyle (id css : String) (metadata : Option Json)
  | css (input : StyleInput)
  | styled (style : Style)
  | applyStyles (css : String) (metadata : Option Json)
  | clear

namespace Manager

variable {τ : Type} [InjectionTarget τ]

/-- Make one call.  The answer is an id or a class name; clearing has none. -/
def call (m : Manager τ) : Call → Logged (Manager τ × Option String)
  | .addStyle id css metadata => do
    let grown ← m.addStyle id css metadata
    pure (grown, some id)
  | .css input => do
    let (grown, name) ← m.css input
    pure (grown, some name)
  | .styled style => do
    let (grown, name) ← m.css (.style style)
    pure (grown, some name)
  | .applyStyles css metadata => do
    let (grown, name) ← m.applyStyles css metadata
    pure (grown, some name)
  | .clear => do
    let cleared ← m.clear
    pure (cleared, none)

/-- Make calls one after the other; the answers are in the order of the calls. -/
def run (m : Manager τ) : List Call → Logged (Manager τ × List (Option String))
  | [] => pure (m, [])
  | c :: calls => do
    let (next, answer) ← m.call c
    let (last, answers) ← run next calls
    pure (last, answer :: answers)

/-- The manager that a run of calls leaves. -/
def after (m : Manager τ) (calls : List Call) : Manager τ :=
  (m.run calls).value.1

@[simp] theorem after_cons (m : Manager τ) (c : Call) (calls : List Call) :
    m.after (c :: calls) = (m.call c).value.1.after calls := rfl

theorem after_append (m : Manager τ) (first second : List Call) :
    m.after (first ++ second) = (m.after first).after second := by
  induction first generalizing m with
  | nil => rfl
  | cons c calls ih => exact ih (m.call c).value.1

end Manager

end ScopedCss
