import TokenDump.Scan
import TokenDump.Text.Quoted

/-!
# The log

A log line has a level, a message and fields. Which lines are shown depends on the setting of the
environment, or without one on whether the run is verbose.
-/

namespace TokenDump

/-- How grave a log line is. -/
inductive Level where
  | error
  | warn
  | info
  | debug
  | trace
  deriving DecidableEq, Repr

namespace Level

/-- A higher rank is shown less often. -/
def rank : Level → Nat
  | error => 1
  | warn => 2
  | info => 3
  | debug => 4
  | trace => 5

def text : Level → String
  | error => "ERROR"
  | warn => "WARN"
  | info => "INFO"
  | debug => "DEBUG"
  | trace => "TRACE"

def all : List Level := [error, warn, info, debug, trace]

/-- The highest rank that a setting shows: that of the level named, in letters of any case or by its
rank, and 0 for `off`. A setting that names no level leaves only errors. -/
def rankOfSetting (setting : String) : Nat :=
  let word := String.ofList (setting.toList.map Char.toUpper)
  if word == "OFF" || word == "0" then 0
  else
    match all.find? (fun l => l.text == word || toString l.rank == word) with
    | some l => l.rank
    | none => error.rank

/-- The highest rank that is shown. -/
def threshold (setting : Option String) (verbose : Bool) : Nat :=
  match setting with
  | some setting => rankOfSetting setting
  | none => if verbose then debug.rank else info.rank

end Level

/-- A line of the log. -/
structure LogLine where
  level : Level
  message : String
  /-- Names and values, as they are shown. -/
  fields : List (String × String)
  deriving DecidableEq, Repr

namespace LogLine

def text (l : LogLine) : String :=
  " ".intercalate
    (l.level.text :: l.message :: l.fields.map (fun (name, value) => name ++ "=" ++ value))

/-- The lines whose rank is shown. -/
def shown (threshold : Nat) (lines : List LogLine) : List LogLine :=
  lines.filter (·.level.rank ≤ threshold)

end LogLine

/-- A remark on a scan, as a line of the log. -/
def Note.logLine : Note → LogLine
  | unknownCharacter start lexeme =>
    ⟨.debug, "unknown character", [("pos", toString start), ("text", Text.quote lexeme)]⟩
  | unterminatedComment start =>
    ⟨.debug, "unterminated block comment", [("start", toString start)]⟩
  | unterminatedLiteral start kind =>
    ⟨.debug, "unterminated literal", [("start", toString start), ("kind", kind.tag)]⟩
  | scanned tokens bytes =>
    ⟨.debug, "scanned buffer", [("tokens", toString tokens), ("bytes", toString bytes)]⟩

end TokenDump
