import TokenDump.CommandLine
import TokenDump.Config.Text
import TokenDump.Directory
import TokenDump.Failure
import TokenDump.Log

/-!
# Runs

A run takes its arguments and the world around it, and leaves an exit code, what it wrote, and the
directory. It either makes a settings file or dumps its inputs one after the other: the first input
that cannot be read ends the run, and what was written before stays.
-/

namespace TokenDump

/-- Standard input: bytes that are piped in, or a terminal with what is typed there, up to one end of
input and the next. -/
inductive Stdin where
  | piped (bytes : List UInt8)
  | terminal (typed : List (List UInt8))

/-- Bytes by themselves are piped in. -/
instance : Coe (List UInt8) Stdin := ⟨.piped⟩

namespace Stdin

def isTerminal : Stdin → Bool
  | piped _ => false
  | terminal _ => true

/-- What is read up to the end of input. -/
def bytes : Stdin → List UInt8
  | piped bytes => bytes
  | terminal typed => typed.headD []

/-- What is left behind that end: nothing of what was piped in. -/
def rest : Stdin → Stdin
  | piped _ => piped []
  | terminal typed => terminal typed.tail

end Stdin

/-- What a run depends on besides its arguments. -/
structure World where
  directory : Directory
  stdin : Stdin
  /-- The setting of the log in the environment. -/
  logSetting : Option String

/-- What a run leaves. -/
structure Outcome where
  exit : Nat
  stdout : String
  log : List LogLine
  failure : Option Failure
  directory : Directory

/-- A source of text. -/
inductive Input where
  | demo
  | stdin
  | file (path : String)
  deriving DecidableEq, Repr

/-- A small program that every kind of run can show. -/
def demoText : String := "int x = 5;\nx++;\n--x;\nint y = x ** 2;\n"

namespace Input

def name : Input → String
  | demo => "<demo>"
  | stdin => "<stdin>"
  | file path => path

/-- The bytes of a source. -/
def read (files : Files) (source : Stdin) : Input → Except Failure (List UInt8)
  | demo => .ok (Utf8.encode demoText)
  | stdin => .ok source.bytes
  | file path => (files.read path).mapError (.unreadableInput path)

/-- The sources that options name, the demo program in front of the others. If there are none, it is
standard input, but for a terminal, where it is the demo program. -/
def ofOptions (o : Options) (isTerminal : Bool) : List Input :=
  let named := o.files.map fun path => if path == "-" then stdin else file path
  if o.has .demo then demo :: named
  else if named.isEmpty then [if isTerminal then demo else stdin]
  else named

end Input

/-- What a part of a run writes, and how it fails if it does. -/
structure Progress where
  stdout : String
  log : List LogLine
  failure : Option Failure

/-- How the inputs of a run are dumped. -/
structure Job where
  dialect : Dialect
  style : Style
  /-- Whether each dump has a line above it that names the input. -/
  headers : Bool

/-- The flags of the options on top of the settings. -/
def Job.ofOptions (o : Options) (c : Config) (inputs : List Input) : Job :=
  let dialect : Dialect :=
    ⟨o.has .extendedNumbers || c.dialect.extendedNumbers,
      o.has .memberAccessKinds || c.dialect.memberAccessKinds⟩
  let style : Style :=
    ⟨o.format.getD c.format, o.has .skipComments || c.skipComments,
      o.has .showSpans || c.showSpans⟩
  ⟨dialect, style, 1 < inputs.length && style.format == .plain⟩

namespace Job

/-- The log lines for bytes that are not UTF-8. -/
def decodingLog (name : String) (bytes : List UInt8) : List LogLine :=
  match Utf8.firstBroken? bytes with
  | none => []
  | some offset =>
    [⟨.warn, "input is not valid UTF-8, invalid bytes replaced with U+FFFD",
      [("input", Text.quote name), ("offset", toString offset)]⟩]

/-- What is written for one input. -/
def dump (job : Job) (name : String) (bytes : List UInt8) : Progress :=
  let scan := Scan.ofText (Utf8.decode bytes) job.dialect
  let header := if job.headers then s!"==> {name} <==\n" else ""
  ⟨header ++ Dump.text job.style scan.tokens,
    decodingLog name bytes ++ scan.notes.map (·.logLine) ++
      [⟨.debug, "scanned input", [("input", name), ("tokens", toString scan.tokens.length)]⟩],
    none⟩

/-- The log line in front of those for the inputs. -/
def startingLog (job : Job) (inputs : List Input) : LogLine :=
  ⟨.debug, "starting scan", [("scan_options", job.dialect.logText),
    ("render_options", job.style.logText), ("inputs", toString inputs.length)]⟩

/-- What is written for some inputs in turn. -/
def dumpAll (job : Job) (files : Files) (stdin : Stdin) : List Input → Progress
  | [] => ⟨"", [], none⟩
  | input :: later =>
    match input.read files stdin with
    | .error failure => ⟨"", [], some failure⟩
    | .ok bytes =>
      let now := job.dump input.name bytes
      let after := job.dumpAll files (if input = .stdin then stdin.rest else stdin) later
      ⟨now.stdout ++ after.stdout, now.log ++ after.log, after.failure⟩

end Job

/-! ## Settings files -/

/-- The settings of a run, and what is logged about them. They come from the file that the options
name, or else from the usual file, if there is one. -/
def loadConfig (files : Files) (project : Option String) :
    Except ConfigError (Config × List LogLine) :=
  match project with
  | some path => loadFrom path
  | none =>
    let path := "./" ++ Config.fileName
    if files.isFile path then loadFrom path else .ok (.unset, [])
where
  loadFrom (path : String) : Except ConfigError (Config × List LogLine) :=
    (Config.load files path).map fun c =>
      (c, [⟨.debug, "loaded configuration", [("path", path), ("config", c.logText)]⟩])

/-- Dumps the inputs that options name. -/
def scanInputs (files : Files) (stdin : Stdin) (o : Options) : Progress :=
  match loadConfig files o.project with
  | .error e => ⟨"", [], some (.config e)⟩
  | .ok (c, loading) =>
    let inputs := Input.ofOptions o stdin.isTerminal
    let job := Job.ofOptions o c inputs
    let dumped := job.dumpAll files stdin inputs
    { dumped with log := loading ++ job.startingLog inputs :: dumped.log }

/-- How making a settings file ends, if there was nothing at its path. -/
def makingConfig (written : Except FileError Unit) : Progress :=
  match written with
  | .error e => ⟨"", [], some (.unwritable Config.fileName e)⟩
  | .ok () => ⟨"", [⟨.info, "created configuration file", [("path", Config.fileName)]⟩], none⟩

/-- Makes a settings file, unless there is something at its path. -/
def makeConfig (d : Directory) : Progress × Directory :=
  if d.has Config.fileName then (⟨"", [], some (.configExists Config.fileName)⟩, d)
  else
    match d.write Config.fileName (Utf8.encode Config.template.text) with
    | .error e => (makingConfig (.error e), d)
    | .ok d => (makingConfig (.ok ()), d)

/-! ## A whole run -/

/-- What a run leaves that has made some progress. -/
def Outcome.ofProgress (threshold : Nat) (p : Progress) (d : Directory) : Outcome :=
  ⟨if p.failure.isSome then 1 else 0, p.stdout, LogLine.shown threshold p.log, p.failure, d⟩

/-- What a run leaves that only shows a text, or nothing. -/
def Outcome.ofText (exit : Nat) (text : String) (d : Directory) : Outcome :=
  ⟨exit, text, [], none, d⟩

/-- What a run with some options leaves. -/
def Options.run (o : Options) (world : World) : Outcome :=
  let threshold := Level.threshold world.logSetting (o.has .verbose)
  if o.has .init then
    let (p, d) := makeConfig world.directory
    .ofProgress threshold p d
  else
    .ofProgress threshold (scanInputs world.directory.files world.stdin o) world.directory

/-- What a run with some arguments leaves. -/
def run (args : List String) (world : World) : Outcome :=
  match Command.ofArguments args with
  | .mistake => .ofText 2 "" world.directory
  | .help => .ofText 0 helpText world.directory
  | .version => .ofText 0 versionText world.directory
  | .run o => o.run world

end TokenDump
