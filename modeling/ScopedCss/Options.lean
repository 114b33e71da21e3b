/-
# Options

How a manager works: in which mode, whether it keeps snapshots for inspection, and whether it only
extracts CSS for a build instead of injecting it.  Options can also be read from the environment.
-/

import ScopedCss.Text.Blank
import ScopedCss.Text.Lowercase

namespace ScopedCss

/-- Development or production. -/
inductive Mode where
  | development
  | production
deriving DecidableEq, Repr

namespace Mode

/-- Whether this is development mode. -/
def isDevelopment (mode : Mode) : Bool :=
  mode = .development

/-- The mode that a text names; every other text names production. -/
def parse (text : String) : Mode :=
  let word := Text.lowerAscii (Text.trimString text)
  if word = "development" ∨ word = "dev" then .development else .production

/-- The name of a mode. -/
def name : Mode → String
  | .development => "Development"
  | .production => "Production"

end Mode

/-- The variables of the environment that options are read from. -/
structure Environment where
  mode : Option String
  debug : Option String
  buildTime : Option String
  integrityKey : Option String
deriving DecidableEq, Repr

namespace Environment

/-- An environment without any of the variables. -/
def none : Environment := ⟨.none, .none, .none, .none⟩

/-- Whether a text says yes. -/
def isYes (text : String) : Bool :=
  let word := Text.lowerAscii (Text.trimString text)
  word = "true" || word = "1" || word = "yes" || word = "on"

end Environment

/-- How a manager works. -/
structure Options where
  mode : Mode
  debugger : Bool
  integrityKey : Option String
  buildTime : Bool
deriving DecidableEq, Repr

namespace Options

/-- Production, with everything else off. -/
def production : Options := ⟨.production, false, none, false⟩

/-- Development, with snapshots kept. -/
def development : Options := ⟨.development, true, none, false⟩

/-- The options an environment asks for.  Without a mode it is development, and without word on
snapshots they are kept in development only. -/
def ofEnvironment (environment : Environment) : Options :=
  let mode := match environment.mode with
    | some text => Mode.parse text
    | none => .development
  let debugger := match environment.debug with
    | some text => Environment.isYes text
    | none => mode.isDevelopment
  let buildTime := match environment.buildTime with
    | some text => Environment.isYes text
    | none => false
  ⟨mode, debugger, environment.integrityKey, buildTime⟩

/-- Whether a manager with these options keeps snapshots. -/
def capturesDebug (options : Options) : Bool :=
  options.mode.isDevelopment && options.debugger

end Options

end ScopedCss
