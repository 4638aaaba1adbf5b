import TokenDump.Proofs.Run.Decoding

/-!
# What a run writes

A run that dumps inputs takes its settings from one file at most (`Options.loadConfig_eq`). Then it
writes a part for each input in front of the first that cannot be read, and nothing after that
(`run_outcome`). A part depends on its own input only, but for standard input, which the first input
that asks for it reads to its end; and whether a header names the input depends on how many inputs
there are, readable or not.
-/

namespace TokenDump

/-! ## What options ask for -/

namespace Options

/-- The file that the settings come from: the one that the options name, or else the usual one in the
working directory, if that is a file. -/
def settingsPath? (o : Options) (files : Files) : Option String :=
  match o.project with
  | some path => some path
  | none => if files.isFile "./cscan.json" = true then some "./cscan.json" else none

/-- The settings: those in their file, or no settings at all. -/
def settings (o : Options) (files : Files) : Except ConfigError Config :=
  match o.settingsPath? files with
  | some path => Config.load files path
  | none => .ok .unset

/-- What is logged about the settings: the file they come from, if there is one. -/
def settingsLog (o : Options) (files : Files) (c : Config) : List LogLine :=
  match o.settingsPath? files with
  | some path => [⟨.debug, "loaded configuration", [("path", path), ("config", c.logText)]⟩]
  | none => []

/-- The inputs that options ask for: the demo program if it is wanted and then the files, or else
standard input, or the demo program again if that is a terminal. -/
def inputs (o : Options) (isTerminal : Bool) : List Input :=
  if o.has .demo = false ∧ o.files = [] then
    if isTerminal = true then [.demo] else [.stdin]
  else (if o.has .demo then [.demo] else []) ++
    o.files.map fun path => if path = "-" then .stdin else .file path

/-- What is written for one of some inputs: a header if there are several and the dump is plain, and the
dump of its text, with each flag of the options on top of the settings. -/
def part (o : Options) (c : Config) (inputs : List Input) (name text : String) : String :=
  let dialect : Dialect :=
    ⟨o.has .extendedNumbers || c.extendedNumbers, o.has .memberAccessKinds || c.memberAccessKinds⟩
  let style : Style :=
    ⟨o.format.getD c.format, o.has .skipComments || c.skipComments, o.has .showSpans || c.showSpans⟩
  (if 2 ≤ inputs.length ∧ style.format = .plain then "==> " ++ name ++ " <==\n" else "") ++
    Dump.text style (Scan.ofText text dialect).tokens

/-- **The settings are loaded from their file** and no other, which is logged. -/
theorem loadConfig_eq (o : Options) (files : Files) :
    loadConfig files o.project = (o.settings files).map fun c => (c, o.settingsLog files c) := by
  have husual : "./" ++ Config.fileName = "./cscan.json" := by decide
  unfold loadConfig settings settingsLog settingsPath?
  cases o.project with
  | some path => rfl
  | none =>
    simp only [husual]
    cases files.isFile "./cscan.json" with
    | true => rfl
    | false => rfl

theorem ofOptions_eq (o : Options) (isTerminal : Bool) :
    Input.ofOptions o isTerminal = o.inputs isTerminal := by
  unfold Input.ofOptions inputs
  rcases o.has .demo <;> rcases o.files with _ | ⟨path, paths⟩ <;> cases isTerminal <;> simp

/-- Without arguments, the demo program is shown on a terminal. -/
example : Input.ofOptions .empty true = [.demo] ∧ Input.ofOptions .empty false = [.stdin] := by
  decide

end Options

namespace Input

/-- The path of an input that cannot be read, and why it cannot. -/
def fault? (files : Files) : Input → Option (String × FileError)
  | file path =>
    match files.read path with
    | .ok _ => none
    | .error e => some (path, e)
  | demo | stdin => none

/-- The text of an input that comes behind some others. What is piped in is read by the first that asks
for it; a terminal is read once more by each. -/
def text (files : Files) (source : Stdin) (earlier : List Input) : Input → String
  | demo => demoText
  | stdin =>
    match source with
    | .piped bytes => if stdin ∈ earlier then "" else Utf8.decode bytes
    | .terminal typed => Utf8.decode (typed[earlier.count stdin]?.getD [])
  | file path => Utf8.decode ((files.read path).toOption.getD [])

/-- The inputs in front of the first that cannot be read. -/
def readable (files : Files) (inputs : List Input) : List Input :=
  inputs.takeWhile fun input => (input.fault? files).isNone

end Input

/-! ## One input -/

section Step
variable {o : Options} {c : Config} {files : Files} {input : Input} {path : String} {e : FileError}

theorem stdout_dump (inputs : List Input) (name : String) (bytes : List UInt8) :
    ((Job.ofOptions o c inputs).dump name bytes).stdout =
      o.part c inputs name (Utf8.decode bytes) := by
  unfold Job.dump Job.ofOptions Options.part
  simp only [Bool.and_eq_true, decide_eq_true_eq, beq_iff_eq, Nat.lt_iff_add_one_le]
  rfl

/-- What is left of standard input behind some inputs. -/
def leftBehind (source : Stdin) (earlier : List Input) : Stdin :=
  match source with
  | .piped bytes => .piped (if .stdin ∈ earlier then [] else bytes)
  | .terminal typed => .terminal (typed.drop (earlier.count .stdin))

theorem leftBehind_nil (source : Stdin) : leftBehind source [] = source := by
  cases source <;> rfl

theorem leftBehind_concat (source : Stdin) (earlier : List Input) (input : Input) :
    (if input = .stdin then (leftBehind source earlier).rest else leftBehind source earlier) =
      leftBehind source (earlier ++ [input]) := by
  unfold leftBehind
  by_cases h : input = .stdin
  · cases source <;> simp [h, Stdin.rest, List.count_append]
  · cases source <;> simp [h, Ne.symm h, List.count_append]

theorem decode_leftBehind (files : Files) (source : Stdin) (earlier : List Input) :
    Utf8.decode (leftBehind source earlier).bytes = Input.stdin.text files source earlier := by
  cases source with
  | piped bytes =>
    simp only [leftBehind, Stdin.bytes, Input.text]
    split
    · exact Utf8.decode_nil
    · rfl
  | terminal typed =>
    simp only [leftBehind, Stdin.bytes, Input.text, List.headD_eq_head?_getD, List.head?_drop]

theorem read_of_fault (h : input.fault? files = some (path, e)) (source : Stdin) :
    input.read files source = .error (.unreadableInput path e) := by
  cases input with
  | demo | stdin => cases h
  | file path =>
    simp only [Input.fault?] at h
    split at h
    · cases h
    · next hread =>
      cases h
      simp only [Input.read, hread, Except.mapError]

theorem exists_read (h : input.fault? files = none) (source : Stdin) (earlier : List Input) :
    ∃ bytes, input.read files (leftBehind source earlier) = .ok bytes ∧
      Utf8.decode bytes = input.text files source earlier := by
  cases input with
  | demo => exact ⟨_, rfl, Utf8.decode_encode demoText⟩
  | stdin => exact ⟨_, rfl, decode_leftBehind files source earlier⟩
  | file path =>
    simp only [Input.fault?] at h
    split at h
    · next bytes hread =>
      refine ⟨bytes, ?_, ?_⟩
      · simp only [Input.read, hread, Except.mapError]
      · simp only [Input.text, hread, Except.toOption, Option.getD_some]
    · cases h

end Step

/-! ## All inputs -/

section Inputs
variable {o : Options} {c : Config} {files : Files} {source : Stdin} {all : List Input}

/-- The parts for some inputs that come behind others. -/
def Options.parts (o : Options) (c : Config) (files : Files) (source : Stdin)
    (all earlier inputs : List Input) : List String :=
  inputs.mapIdx fun k input =>
    o.part c all input.name (input.text files source (earlier ++ inputs.take k))

theorem parts_cons (earlier : List Input) (input : Input) (later : List Input) :
    o.parts c files source all earlier (input :: later) =
      o.part c all input.name (input.text files source earlier) ::
        o.parts c files source all (earlier ++ [input]) later := by
  simp only [Options.parts, List.mapIdx_cons, List.take_zero, List.append_nil,
    List.take_succ_cons, List.append_assoc, List.singleton_append]

/-- **The inputs are dumped up to the first that cannot be read.** -/
theorem dumpAll_leftBehind (o : Options) (c : Config) (files : Files) (source : Stdin)
    (all earlier inputs : List Input) :
    ((Job.ofOptions o c all).dumpAll files (leftBehind source earlier) inputs).stdout =
        String.join (o.parts c files source all earlier (Input.readable files inputs)) ∧
      ((Job.ofOptions o c all).dumpAll files (leftBehind source earlier) inputs).failure =
        (inputs.findSome? (Input.fault? files)).map fun (path, e) => .unreadableInput path e := by
  induction inputs generalizing earlier with
  | nil => exact ⟨rfl, rfl⟩
  | cons input later ih =>
    rw [Job.dumpAll, List.findSome?_cons]
    cases hfault : input.fault? files with
    | some fault =>
      rw [read_of_fault hfault, Input.readable, List.takeWhile_cons_of_neg (by simp [hfault])]
      exact ⟨rfl, rfl⟩
    | none =>
      obtain ⟨bytes, hread, htext⟩ := exists_read hfault source earlier
      obtain ⟨hstdout, hfailure⟩ := ih (earlier ++ [input])
      rw [hread, Input.readable, List.takeWhile_cons_of_pos (by simp [hfault]), parts_cons]
      simp only [leftBehind_concat, String.join_cons, stdout_dump, htext]
      exact ⟨congrArg _ hstdout, hfailure⟩

theorem scanInputs_of_ok (h : o.settings files = .ok c) (source : Stdin) :
    let inputs := o.inputs source.isTerminal
    (scanInputs files source o).stdout =
        String.join (o.parts c files source inputs [] (Input.readable files inputs)) ∧
      (scanInputs files source o).failure =
        (inputs.findSome? (Input.fault? files)).map fun (path, e) => .unreadableInput path e := by
  intro inputs
  have hall := dumpAll_leftBehind o c files source inputs [] inputs
  rw [leftBehind_nil] at hall
  rw [scanInputs, Options.loadConfig_eq, h, Options.ofOptions_eq]
  exact hall

end Inputs

/-- **What a run leaves that dumps inputs.** Without settings that can be loaded it fails and writes
nothing. Otherwise it writes the parts of the inputs in front of the first that cannot be read, which is
the one that it fails for; it succeeds if there is none. -/
theorem run_outcome {args : List String} {o : Options} (hargs : Command.ofArguments args = .run o)
    (hinit : o.has .init = false) (world : World) :
    let files := world.directory.files
    let inputs := o.inputs world.stdin.isTerminal
    let readable := Input.readable files inputs
    let outcome := run args world
    (∀ e, o.settings files = .error e →
        outcome.exit = 1 ∧ outcome.stdout = "" ∧ outcome.failure = some (.config e)) ∧
      ∀ c, o.settings files = .ok c →
        outcome.stdout = String.join (readable.mapIdx fun k input =>
            o.part c inputs input.name (input.text files world.stdin (readable.take k))) ∧
          (outcome.exit = 0 ↔ ∀ input ∈ inputs, input.fault? files = none) ∧
          ∀ path e, inputs.findSome? (Input.fault? files) = some (path, e) →
            outcome.exit = 1 ∧ outcome.failure = some (.unreadableInput path e) := by
  intro files inputs readable outcome
  have hrun : outcome = .ofProgress (Level.threshold world.logSetting (o.has .verbose))
      (scanInputs files world.stdin o) world.directory := by
    simp only [outcome, run, hargs, Options.run, hinit, Bool.false_eq_true, if_false]
    rfl
  refine ⟨fun e hload => ?_, fun c hload => ?_⟩
  · rw [hrun, scanInputs, Options.loadConfig_eq, hload]
    exact ⟨rfl, rfl, rfl⟩
  · obtain ⟨hstdout, hfailure⟩ := scanInputs_of_ok hload world.stdin
    rw [hrun]
    refine ⟨hstdout, ?_, fun path e hfault => ?_⟩
    · rw [Outcome.ofProgress, hfailure, ← List.findSome?_eq_none_iff]
      cases inputs.findSome? (Input.fault? files) with
      | none => simp
      | some fault => simp
    · rw [Outcome.ofProgress, hfailure, hfault]
      exact ⟨rfl, rfl⟩

theorem run_outcome_missing :
    let args := ["-", "--skip-comments", "-", "missing", "-"]
    let o : Options := ⟨[.skipComments], none, none, ["-", "-", "missing", "-"]⟩
    let world : World := ⟨.empty, Utf8.encode "/**/é", none⟩
    Command.ofArguments args = .run o ∧ o.has .init = false ∧
      o.settings world.directory.files = .ok .unset ∧
      (run args world).stdout = "==> <stdin> <==\nTOK_UNKNOWN é\n==> <stdin> <==\n" ∧
      (run args world).exit = 1 ∧
      (run args world).failure = some (.unreadableInput "missing" .notFound) ∧
      (run ["-p", "missing"] world).exit = 1 ∧ (run ["-p", "missing"] world).stdout = "" := by
  intro args o world
  have hargs : Command.ofArguments args = .run o := by decide +kernel
  have hinit : o.has .init = false := by decide
  have hfile : Directory.empty.isFile "./cscan.json" = false := by
    have hnames : pathNames "./cscan.json" = [".", "cscan.json"] := by decide +kernel
    have hwalk : Directory.empty.walk false linkLimit ["work"] [".", "cscan.json"] =
        Directory.empty.walk false linkLimit ["work"] ["cscan.json"] := by
      rw [Directory.walk.eq_def]
      rfl
    have hlocate : Directory.empty.locate false "./cscan.json" =
        .ok (.vacant ["work", "cscan.json"]) := by
      rw [Directory.locate, hnames]
      exact hwalk.trans (by rw [Directory.walk.eq_def]; rfl)
    rw [Directory.isFile, hlocate]
  have hread : world.directory.files.read "missing" = .error .notFound := by
    have hnames : pathNames "missing" = ["missing"] := by decide +kernel
    show Directory.empty.read "missing" = _
    rw [Directory.read, Directory.locate, hnames, Directory.walk.eq_def]
    rfl
  have hload : o.settings world.directory.files = .ok .unset := by
    have hpath : o.settingsPath? world.directory.files = none :=
      if_neg (ne_true_of_eq_false hfile)
    rw [Options.settings, hpath]
  have hinputs : o.inputs world.stdin.isTerminal =
      [.stdin, .stdin, .file "missing", .stdin] := by decide
  have hreadable : Input.readable world.directory.files (o.inputs world.stdin.isTerminal) =
      [.stdin, .stdin] := by
    simp [hinputs, Input.readable, hread, Input.fault?]
  obtain ⟨-, hrun⟩ := run_outcome hargs hinit world
  obtain ⟨hstdout, -, hfailure⟩ := hrun _ hload
  have hmissing : (o.inputs world.stdin.isTerminal).findSome?
      (Input.fault? world.directory.files) = some ("missing", .notFound) := by
    simp only [hinputs, List.findSome?_cons, Input.fault?, hread]
  have hargsMissing : Command.ofArguments ["-p", "missing"] =
      .run ⟨[], some "missing", none, []⟩ := by decide +kernel
  have hloadMissing : Options.settings ⟨[], some "missing", none, []⟩ world.directory.files =
      .error (.unreadable "missing" .notFound) := by
    simp only [Options.settings, Options.settingsPath?, Config.load, Files.readText, hread]
    rfl
  obtain ⟨hrun, -⟩ := run_outcome hargsMissing (by decide) world
  refine ⟨hargs, hinit, hload, ?_, (hfailure _ _ hmissing).1, (hfailure _ _ hmissing).2,
    (hrun _ hloadMissing).1, (hrun _ hloadMissing).2.1⟩
  rw [hstdout, hreadable]
  decide +kernel

end TokenDump
