import TokenDump.Config.Basic

/-!
# Settings in writing

Settings are written as a file, with every field present and `null` for an unset one, and as one
line for the log.
-/

namespace TokenDump

open Json (Value)

/-- An optional value, `null` when unset. -/
def Json.Value.optional {α : Type} (f : α → Value) : Option α → Value
  | none => .null
  | some a => f a

/-- The JSON form of settings. -/
def ScannerSettings.value (s : ScannerSettings) : Value :=
  .object [("extendedNumbers", .optional .bool s.extendedNumbers),
    ("memberAccessKinds", .optional .bool s.memberAccessKinds)]

def OutputSettings.value (s : OutputSettings) : Value :=
  .object [("format", .optional (.string ·.word) s.format),
    ("skipComments", .optional .bool s.skipComments), ("showSpans", .optional .bool s.showSpans)]

def Config.value (c : Config) : Value :=
  .object [("scannerOptions", .optional (·.value) c.scanner),
    ("output", .optional (·.value) c.output)]

/-- The text of a settings file. -/
def Config.text (c : Config) : String := c.value.write ++ "\n"

/-! ## In the log -/

/-- Braces around fields, each a name and a value, after a title. -/
def logRecord (title : String) (fields : List (String × String)) : String :=
  title ++ " \x7b " ++ ", ".intercalate (fields.map (fun (name, v) => name ++ ": " ++ v)) ++ " \x7d"

/-- An optional value in the log. -/
def logOption {α : Type} (f : α → String) : Option α → String
  | none => "None"
  | some a => "Some(" ++ f a ++ ")"

def ScannerSettings.logText (s : ScannerSettings) : String :=
  logRecord "ScannerOptions" [("extended_numbers", logOption toString s.extendedNumbers),
    ("member_access_kinds", logOption toString s.memberAccessKinds)]

def OutputSettings.logText (s : OutputSettings) : String :=
  logRecord "OutputOptions" [("format", logOption (·.tag) s.format),
    ("skip_comments", logOption toString s.skipComments),
    ("show_spans", logOption toString s.showSpans)]

def Config.logText (c : Config) : String :=
  logRecord "CscanConfig" [("scanner_options", logOption (·.logText) c.scanner),
    ("output", logOption (·.logText) c.output)]

def Dialect.logText (d : Dialect) : String :=
  logRecord "ScanOptions" [("extended_numbers", toString d.extendedNumbers),
    ("member_access_kinds", toString d.memberAccessKinds)]

def Style.logText (s : Style) : String :=
  logRecord "RenderOptions" [("format", s.format.tag), ("skip_comments", toString s.skipComments),
    ("show_spans", toString s.showSpans)]

end TokenDump
