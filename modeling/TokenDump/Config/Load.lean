import TokenDump.Config.Read
import TokenDump.Files

/-!
# Loading settings

Settings are loaded from a file: it must be there, be UTF-8, and hold settings.
-/

namespace TokenDump

/-- Why a settings file cannot be used. -/
inductive ConfigError where
  | unreadable (path : String) (cause : FileError)
  | invalid (path : String) (cause : Json.Diagnosis)
  deriving Repr

namespace ConfigError

/-- The message of what caused an error. -/
def cause : ConfigError → String
  | unreadable _ e => e.message
  | invalid _ d => d.message

def message : ConfigError → String
  | unreadable path e => s!"failed to read '{path}': {e.message}"
  | invalid path d => s!"invalid configuration in '{path}': {d.message}"

end ConfigError

/-- The settings in the file that a path leads to. -/
def Config.load (files : Files) (path : String) : Except ConfigError Config :=
  match files.readText path with
  | .error e => .error (.unreadable path e)
  | .ok text => (Config.parse text).mapError (.invalid path)

end TokenDump
