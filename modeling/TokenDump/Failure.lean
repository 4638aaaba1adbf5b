import TokenDump.Config.Load
import TokenDump.Dump

/-!
# Failures of a run

A run fails for one of a few reasons. Each has a message, the messages of what caused it from the
outside in, a code, and for some a piece of advice.
-/

namespace TokenDump

/-- Why a run fails. -/
inductive Failure where
  | unreadableInput (path : String) (cause : FileError)
  | unreadableStdin (cause : FileError)
  | config (cause : ConfigError)
  | configExists (path : String)
  | unwritable (path : String) (cause : FileError)
  | json (cause : String)
  | output (cause : String)
  | logging (reason : String)
  deriving Repr

namespace Failure

def message : Failure → String
  | unreadableInput path _ => s!"failed to read input '{path}'"
  | unreadableStdin _ => "failed to read standard input"
  | config _ => "configuration error"
  | configExists path => s!"'{path}' already exists"
  | unwritable path _ => s!"failed to write '{path}'"
  | json _ => "failed to serialize JSON"
  | output _ => "failed to write output"
  | logging reason => s!"failed to initialize logging: {reason}"

/-- The messages of what caused a failure, from the outside in. -/
def causes : Failure → List String
  | unreadableInput _ e => [e.message]
  | unreadableStdin e => [e.message]
  | config e => [e.message, e.cause]
  | configExists _ => []
  | unwritable _ e => [e.message]
  | json cause => [cause]
  | output cause => [cause]
  | logging _ => []

def code : Failure → String
  | unreadableInput .. => "cscan::read_input"
  | unreadableStdin _ => "cscan::read_stdin"
  | config _ => "cscan::config"
  | configExists _ => "cscan::init_exists"
  | unwritable .. => "cscan::write_file"
  | json _ => "cscan::json"
  | output _ => "cscan::output"
  | logging _ => "cscan::logging"

/-- What to do about a failure. -/
def advice? : Failure → Option String
  | unreadableInput .. => some "check that the file exists and is readable"
  | config _ => some "run `cscan --init` to generate a valid cscan.json"
  | configExists _ => some "edit the existing file instead"
  | _ => none

/-- The failure of a writer in a stage of a dump. -/
def ofStage (cause : String) : Stage → Failure
  | .json => json cause
  | .output => output cause

end Failure

end TokenDump
