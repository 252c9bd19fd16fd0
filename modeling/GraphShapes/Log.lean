/-
GraphShapes.Log — log records, logger names and the log level.

All loggers live under one root. Its level comes from a setting read once, on
the first logger asked for: the name of a level in any case. A setting that
names no level is reported and the default taken.
-/
import GraphShapes.Text.Letter
import GraphShapes.Text.Quoted

namespace GraphShapes.Log

/-- How grave a record is. -/
inductive Level where
  | notSet
  | debug
  | info
  | warning
  | error
  | critical
  deriving DecidableEq, Repr, Inhabited

namespace Level

/-- The number of a level. -/
def number : Level → Nat
  | notSet => 0
  | debug => 10
  | info => 20
  | warning => 30
  | error => 40
  | critical => 50

/-- The name of a level. -/
def name : Level → String
  | notSet => "NOTSET"
  | debug => "DEBUG"
  | info => "INFO"
  | warning => "WARNING"
  | error => "ERROR"
  | critical => "CRITICAL"

/-- The names by which a level may be set. -/
def names : List (String × Level) :=
  [("NOTSET", notSet), ("DEBUG", debug), ("INFO", info), ("WARN", warning),
   ("WARNING", warning), ("ERROR", error), ("CRITICAL", critical), ("FATAL", critical)]

/-- The level that a name sets. -/
def ofName? (s : String) : Option Level := names.lookup s

end Level

/-- One line of a log. -/
structure Record where
  level : Level
  logger : String
  message : Points
  deriving DecidableEq, Repr, Inhabited

/-- The logger that all others are under. -/
def root : String := "shapeflow"

/-- The layout of a line: time, level, logger, message. -/
def layout : String := "%(asctime)s %(levelname)s %(name)s: %(message)s"

/-- The full name of a logger. A name that begins with the root's stays as it is. -/
def fullName (name : String) : String :=
  if name.startsWith root then name else root ++ "." ++ name

/-- What is known of the root logger. -/
structure Setup where
  level : Level := .warning
  /-- Layouts of the places that records go to. -/
  layouts : List String := []
  configured : Bool := false
  records : List Record := []
  deriving DecidableEq, Repr, Inhabited

namespace Setup

/-- Reads the setting, unless that was done before. -/
def configure (setting : Option String) (s : Setup) : Setup :=
  if s.configured then s
  else
    let name := Text.upper (setting.getD "WARNING")
    let layouts := if s.layouts.isEmpty then [layout] else s.layouts
    match Level.ofName? name with
    | some level => { s with level, layouts, configured := true }
    | none =>
      let message := "unknown SHAPEFLOW_LOG_LEVEL " ++ Text.quoted name ++ ", using WARNING"
      { level := .warning, layouts, configured := true,
        records := s.records ++ [⟨.warning, root, message⟩] }

/-- Asks for loggers by name. -/
def request (setting : Option String) (names : List String) (s : Setup) : Setup × List String :=
  (if names.isEmpty then s else s.configure setting, names.map fullName)

end Setup

end GraphShapes.Log
