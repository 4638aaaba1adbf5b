import TokenDump.Dump

/-!
# The command line

Arguments are read from left to right. An option is a flag, or a setting that takes a value; each
may be given once. Asking for help or for the version ends the reading, and so does the first
mistake. The arguments that are no options, and all after `--`, name files.
-/

namespace TokenDump

/-- An option without a value. -/
inductive Flag where
  | demo
  | skipComments
  | showSpans
  | extendedNumbers
  | memberAccessKinds
  | verbose
  | noColor
  | init
  deriving DecidableEq, Repr

/-- An option with a value. -/
inductive Setting where
  | project
  | format
  deriving DecidableEq, Repr

/-- What the name of an option stands for. -/
inductive Switch where
  | flag (f : Flag)
  | setting (s : Setting)
  | help
  | version
  deriving DecidableEq, Repr

namespace Switch

/-- The long names of the options. -/
def longNames : List (String × Switch) :=
  [("project", .setting .project), ("demo", .flag .demo), ("format", .setting .format),
   ("skip-comments", .flag .skipComments), ("show-spans", .flag .showSpans),
   ("extended-numbers", .flag .extendedNumbers),
   ("member-access-kinds", .flag .memberAccessKinds), ("verbose", .flag .verbose),
   ("no-color", .flag .noColor), ("init", .flag .init), ("help", help), ("version", version)]

/-- The names of one letter. -/
def shortNames : List (Char × Switch) :=
  [('p', .setting .project), ('v', .flag .verbose), ('h', help), ('V', version)]

def ofLong? (name : String) : Option Switch := longNames.lookup name

def ofShort? (c : Char) : Option Switch := shortNames.lookup c

end Switch

/-- What the arguments ask for. -/
structure Options where
  flags : List Flag
  project : Option String
  format : Option Format
  files : List String
  deriving DecidableEq, Repr

namespace Options

/-- The options of an empty command line. -/
def empty : Options := ⟨[], none, none, []⟩

def has (o : Options) (f : Flag) : Bool := o.flags.contains f

/-- The options with a flag given, unless it was given before. -/
def give? (o : Options) (f : Flag) : Option Options :=
  if o.has f then none else some { o with flags := f :: o.flags }

/-- The options with a setting given, unless it was given before or cannot have that value. -/
def set? (o : Options) (s : Setting) (value : String) : Option Options :=
  match s with
  | .project =>
    if o.project.isSome || value.isEmpty then none else some { o with project := some value }
  | .format =>
    if o.format.isSome then none
    else (Format.ofWord? value).map fun f => { o with format := some f }

end Options

/-- What becomes of a command line. -/
inductive Command where
  | run (o : Options)
  | help
  | version
  | mistake
  deriving DecidableEq, Repr

namespace Command

/-- Whether an argument is an option; a lone `-` is none. -/
def isOption (arg : String) : Bool := arg.toList.head? == some '-' && arg != "-"

/-- Where reading stands: it goes on with some options and perhaps a setting that waits for its
value, or the command is settled. -/
inductive Reading where
  | more (o : Options) (waiting : Option Setting)
  | settled (c : Command)

/-- Goes on with changed options, unless they could not be changed. -/
def Reading.ofChange : Option Options → Reading
  | some o => more o none
  | none => settled mistake

/-- Reads an option by its long name, which may have `=` and a value after it. -/
def readLong (o : Options) (arg : List Char) : Reading :=
  let name := String.ofList (arg.takeWhile (· != '='))
  let value := arg.dropWhile (· != '=')
  match Switch.ofLong? name, value with
  | some (.flag f), [] => .ofChange (o.give? f)
  | some (.setting s), [] => .more o (some s)
  | some (.setting s), _ :: value => .ofChange (o.set? s (String.ofList value))
  | some .help, [] => .settled help
  | some .version, [] => .settled version
  | _, _ => .settled mistake

/-- Reads options by their letters. What follows the letter of a setting is its value. -/
def readShort (o : Options) : List Char → Reading
  | [] => .more o none
  | c :: cs =>
    match Switch.ofShort? c with
    | some (.flag f) =>
      match o.give? f with
      | some o => readShort o cs
      | none => .settled mistake
    | some (.setting s) =>
      match cs with
      | [] => .more o (some s)
      | '=' :: value => .ofChange (o.set? s (String.ofList value))
      | value => .ofChange (o.set? s (String.ofList value))
    | some .help => .settled help
    | some .version => .settled version
    | none => .settled mistake

/-- Reads one argument, where no setting waits for a value. -/
def readArgument (o : Options) (arg : String) : Reading :=
  if !isOption arg then .more { o with files := o.files ++ [arg] } none
  else
    match arg.toList with
    | '-' :: '-' :: name => readLong o name
    | _ :: letters => readShort o letters
    | [] => .settled mistake

/-- Reads the arguments that are left. -/
def readFrom (o : Options) (waiting : Option Setting) : List String → Command
  | [] => if waiting.isSome then mistake else run o
  | arg :: args =>
    match waiting with
    | some s =>
      if isOption arg then mistake
      else
        match o.set? s arg with
        | some o => readFrom o none args
        | none => mistake
    | none =>
      if arg == "--" then run { o with files := o.files ++ args }
      else
        match readArgument o arg with
        | .settled c => c
        | .more o waiting => readFrom o waiting args

/-- The command that some arguments give. -/
def ofArguments (args : List String) : Command := readFrom .empty none args

end Command

/-- The answer to `--version`. -/
def versionText : String := "cscan 0.1.0\n"

/-- The lines of the answer to `--help`. -/
def helpLines : List String :=
  ["cscan - A lexical scanner for C-like source",
   "",
   "Usage: cscan [OPTIONS] [FILE]...",
   "",
   "Arguments:",
   "  [FILE]...  Source files to scan; `-` reads standard input",
   "",
   "Options:",
   "  -p, --project <PROJECT>    Path to cscan.json",
   "      --demo                 Scan the built-in demo program",
   "      --format <FORMAT>      Output format [possible values: plain, json]",
   "      --skip-comments        Leave comments out of the dump",
   "      --show-spans           Append the byte span of each token",
   "      --extended-numbers     Accept hex prefixes and signed exponents in numbers",
   "      --member-access-kinds  Report `->` and `.` as member access tokens",
   "  -v, --verbose              Enable debug logging",
   "      --no-color             Disable colored log output",
   "      --init                 Initialize a cscan.json file",
   "  -h, --help                 Print help",
   "  -V, --version              Print version"]

/-- The answer to `--help`. -/
def helpText : String := String.join (helpLines.map (· ++ "\n"))

end TokenDump
