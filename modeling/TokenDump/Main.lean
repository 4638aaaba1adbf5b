import TokenDump.Run

/-!
# The program

Does what `TokenDump.Run` says, part by part: reads the settings and then one input after the other, and
writes what is to be written for each, the dump to standard output, the log and the report of a failure
to standard error.
-/

namespace TokenDump.Main

/-- The number that comes with an error. -/
def errorNumber? : IO.Error → Option UInt32
  | .noFileOrDirectory _ n _ => some n
  | .inappropriateType _ n _ => some n
  | .invalidArgument _ n _ => some n
  | .otherError n _ => some n
  | .unsupportedOperation n _ => some n
  | _ => none

/-- An error of the system. Its number may come with the sign turned. -/
def fileError (e : IO.Error) : FileError :=
  match (errorNumber? e).map fun n => min n (0 - n) with
  | some 2 => .notFound
  | some 20 => .notFolder
  | some 21 => .isFolder
  | some 36 => .nameTooLong
  | some 40 => .tooManyLinks
  | _ => .other (toString e)

/-- The bytes that are read, or why they cannot be. -/
def tryRead (read : IO ByteArray) : IO (Except FileError (List UInt8)) := do
  try
    let bytes ← read
    pure (.ok bytes.data.toList)
  catch e =>
    pure (.error (fileError e))

def readFile (path : String) : IO (Except FileError (List UInt8)) :=
  tryRead (IO.FS.readBinFile path)

/-- Whether a path leads to something. -/
def isThere (path : String) : IO Bool := (System.mkFilePath [path]).pathExists

/-- Whether a path leads to a file. -/
def isFile (path : String) : IO Bool := do
  match ← (System.mkFilePath [path]).metadata.toBaseIO with
  | .ok about => pure (about.type == .file)
  | .error _ => pure false

/-- Shows what a part of a run writes, before the next part is started. -/
def put (threshold : Nat) (p : Progress) : IO Unit := do
  for line in LogLine.shown threshold p.log do
    IO.eprintln line.text
  IO.print p.stdout
  (← IO.getStdout).flush

/-- Makes the settings file, which must not be there yet. -/
def makeConfigFile : IO Progress := do
  if ← isThere Config.fileName then pure ⟨"", [], some (.configExists Config.fileName)⟩
  else
    try
      IO.FS.writeFile Config.fileName Config.template.text
      pure (makingConfig (.ok ()))
    catch e =>
      pure (makingConfig (.error (fileError e)))

/-- The settings of a run, and what is logged about them. No file is read but theirs. -/
def loadSettings (project : Option String) : IO (Except ConfigError (Config × List LogLine)) := do
  let path := project.getD ("./" ++ Config.fileName)
  let there ← isFile path
  let content ← if project.isSome || there then readFile path else pure (.error .notFound)
  pure (loadConfig ⟨fun _ => content, fun _ => there⟩ project)

/-- The bytes of a source, as they are now. -/
def readInput : Input → IO (Except Failure (List UInt8))
  | .demo => pure (.ok (Utf8.encode demoText))
  | .stdin => do
    let stdin ← IO.getStdin
    return (← tryRead stdin.readBinToEnd).mapError .unreadableStdin
  | .file path => return (← readFile path).mapError (.unreadableInput path)

/-- Dumps inputs in turn. None is read before those in front of it are shown. -/
def dumpInputs (job : Job) (threshold : Nat) : List Input → IO Progress
  | [] => pure ⟨"", [], none⟩
  | input :: later => do
    match ← readInput input with
    | .error failure => pure ⟨"", [], some failure⟩
    | .ok bytes =>
      put threshold (job.dump input.name bytes)
      dumpInputs job threshold later

/-- Dumps the inputs that options name, and leaves what is still to be shown. -/
def scanInputs (o : Options) (threshold : Nat) : IO Progress := do
  match ← loadSettings o.project with
  | .error e => pure ⟨"", [], some (.config e)⟩
  | .ok (c, loading) =>
    let inputs := Input.ofOptions o (← (← IO.getStdin).isTty)
    let job := Job.ofOptions o c inputs
    put threshold ⟨"", loading ++ [job.startingLog inputs], none⟩
    dumpInputs job threshold inputs

/-- The report of a failure. -/
def reportLines (f : Failure) : List String :=
  s!"error: {f.message} [{f.code}]" :: f.causes.map (s!"  caused by: {·}") ++
    (f.advice?.map (s!"  help: {·}")).toList

def runOptions (o : Options) : IO UInt32 := do
  let threshold := Level.threshold (← IO.getEnv "RUST_LOG") (o.has .verbose)
  let p ← if o.has .init then makeConfigFile else scanInputs o threshold
  put threshold p
  match p.failure with
  | none => pure 0
  | some f =>
    (reportLines f).forM IO.eprintln
    pure 1

end TokenDump.Main

/-- The program: its arguments are files and options, and its exit code is 0, 1 for a failure, or 2
for arguments that cannot be read. -/
def main (args : List String) : IO UInt32 := do
  match TokenDump.Command.ofArguments args with
  | .help => IO.print TokenDump.helpText; pure 0
  | .version => IO.print TokenDump.versionText; pure 0
  | .mistake => IO.eprintln "error: these arguments cannot be read; try --help"; pure 2
  | .run o => TokenDump.Main.runOptions o
