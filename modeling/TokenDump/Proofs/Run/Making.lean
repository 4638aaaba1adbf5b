import TokenDump.Proofs.Config.Cuts
import TokenDump.Proofs.Directory.Paths
import TokenDump.Run

/-!
# Making a settings file

Whether there is something at the usual path is asked first, and then the file is written. Both follow
the path, and if they did not agree on where it leads, something could be written over. They do
(`LeadsTo.write_eq`), so there are three endings, and where the path leads decides which it is
(`existsUnique_leads`, `leaves_making`). None of them changes what is there. A file that was made holds
the settings it was made of, and no later run changes anything (`eq_of_runs`).
-/

namespace TokenDump

/-- The bytes of a new settings file. -/
def templateBytes : List UInt8 := Utf8.encode Config.template.text

/-- How making a settings file ends. -/
inductive Ending where
  | refused
  | made (place : Place)
  | blocked

namespace Ending

/-- Where the usual path leads for an ending. -/
def Leads (d : Directory) : Ending → Prop
  | refused => ∃ t, d.LeadsTo Config.fileName t ∧ t.IsThere
  | made place => d.LeadsTo Config.fileName (.vacant place)
  | blocked => ∀ t, ¬ d.LeadsTo Config.fileName t

/-- What an ending leaves: the directory as it was, or one file more. -/
def Leaves (d : Directory) (out : Outcome) : Ending → Prop
  | refused =>
    out.exit = 1 ∧ out.failure = some (.configExists Config.fileName) ∧ out.directory = d
  | made place =>
    out.exit = 0 ∧ out.failure = none ∧ out.directory.here = d.here ∧
      d.get? place = none ∧ out.directory.get? place = some (.file templateBytes) ∧
      ∀ q ≠ place, out.directory.get? q = d.get? q
  | blocked =>
    out.exit = 1 ∧ (∃ e, out.failure = some (.unwritable Config.fileName e)) ∧ out.directory = d

section Leads
variable {d : Directory} {e e' : Ending}

theorem Leads.unique (h : e.Leads d) (h' : e'.Leads d) : e = e' := by
  cases e with
  | refused =>
    obtain ⟨t, ht, hthere⟩ := h
    cases e' with
    | refused => rfl
    | made place =>
      rw [ht.unique h'] at hthere
      exact hthere.elim
    | blocked => exact absurd ht (h' t)
  | made place =>
    cases e' with
    | refused =>
      obtain ⟨t, ht, hthere⟩ := h'
      rw [ht.unique h] at hthere
      exact hthere.elim
    | made place' => rw [Target.vacant.inj (Directory.LeadsTo.unique h h')]
    | blocked => exact absurd h (h' _)
  | blocked =>
    cases e' with
    | refused =>
      obtain ⟨t, ht, -⟩ := h'
      exact absurd ht (h t)
    | made place => exact absurd h' (h _)
    | blocked => rfl

/-- The path leads to something, to a free place, or nowhere. -/
theorem existsUnique_leads (d : Directory) : ∃! e : Ending, e.Leads d := by
  suffices h : ∃ e : Ending, e.Leads d by
    obtain ⟨e, he⟩ := h
    exact ⟨e, he, fun e' he' => he'.unique he⟩
  by_cases h : ∃ t, d.LeadsTo Config.fileName t
  · obtain ⟨t, ht⟩ := h
    cases t with
    | folder => exact ⟨refused, _, ht, trivial⟩
    | file place bytes => exact ⟨refused, _, ht, trivial⟩
    | vacant place => exact ⟨made place, ht⟩
  · exact ⟨blocked, fun t ht => h ⟨t, ht⟩⟩

end Leads
end Ending

/-! ## One run -/

section Making
variable {d d' : Directory} {out : Outcome} {place q : Place} {node : Node} {e : Ending}
  {args : List String} {o : Options}

theorem has_eq_true (h : Ending.refused.Leads d) : d.has Config.fileName = true :=
  Directory.has_iff.2 h

theorem has_eq_false (h : e.Leads d) (he : e ≠ .refused) : ¬ d.has Config.fileName = true := by
  rw [Directory.has_iff]
  intro hthere
  have hrefused : Ending.refused.Leads d := hthere
  exact he (h.unique hrefused)

/-- **Where the path leads decides the ending.** -/
theorem leaves_making (threshold : Nat) (h : e.Leads d) :
    e.Leaves d (.ofProgress threshold (makeConfig d).1 (makeConfig d).2) := by
  unfold makeConfig
  cases e with
  | refused =>
    rw [if_pos (has_eq_true h)]
    exact ⟨rfl, rfl, rfl⟩
  | made place =>
    rw [if_neg (has_eq_false h (by simp)), Directory.LeadsTo.write_eq _ h]
    have hfree := Directory.LeadsTo.get?_eq_none h
    exact ⟨rfl, rfl, rfl, hfree, Directory.get?_put_self hfree,
      fun q hq => Directory.get?_put_of_ne hq⟩
  | blocked =>
    obtain ⟨e, he⟩ := Directory.exists_write_eq_error h (Utf8.encode Config.template.text)
    rw [if_neg (has_eq_false h (by simp)), he]
    exact ⟨rfl, ⟨e, rfl⟩, rfl⟩

theorem makeConfig_stdout (d : Directory) : (makeConfig d).1.stdout = "" := by
  unfold makeConfig
  split
  · rfl
  · split <;> rfl

/-- What is there stays. -/
theorem Ending.Leaves.get?_eq (h : e.Leaves d out) (hq : d.get? q = some node) :
    out.directory.get? q = some node := by
  cases e with
  | refused =>
    obtain ⟨-, -, rfl⟩ := h
    exact hq
  | made place =>
    obtain ⟨-, -, -, hfree, -, hkept⟩ := h
    rw [hkept q fun h => by simp [h, hfree] at hq, hq]
  | blocked =>
    obtain ⟨-, -, rfl⟩ := h
    exact hq

theorem run_of_init (hargs : Command.ofArguments args = .run o) (hinit : o.has .init = true)
    (world : World) : run args world =
      .ofProgress (Level.threshold world.logSetting (o.has .verbose)) (makeConfig world.directory).1
        (makeConfig world.directory).2 := by
  unfold run Options.run
  rw [hargs]
  exact if_pos hinit

/-! ## The runs after that -/

theorem load_template (h : d.LeadsTo Config.fileName (.file place templateBytes)) :
    Config.load d.files Config.fileName = .ok Config.template := by
  have hread : d.files.read Config.fileName = .ok templateBytes := h.read_eq
  have htext : d.files.readText Config.fileName = .ok Config.template.text := by
    unfold Files.readText
    rw [hread]
    show (if (Utf8.firstBroken? templateBytes).isSome then .error .notUtf8
      else .ok (Utf8.decode templateBytes) : Except FileError String) = _
    unfold templateBytes
    rw [Utf8.firstBroken?_encode, Utf8.decode_encode]
    rfl
  have hparse : Config.parse Config.template.text = .ok Config.template :=
    Config.parse_eq_ok_of_toOption (by decide +kernel)
  unfold Config.load
  rw [htext]
  show (Config.parse Config.template.text).mapError _ = _
  rw [hparse]
  rfl

/-- A run with any arguments, standard input and environment turns a directory into another. -/
def Turns (d d' : Directory) : Prop :=
  ∃ args stdin logSetting, (run args ⟨d, stdin, logSetting⟩).directory = d'

/-- If there is something at the path, a run changes nothing. -/
theorem Turns.eq (h : Turns d d') (hthere : Ending.refused.Leads d) : d' = d := by
  obtain ⟨args, stdin, logSetting, rfl⟩ := h
  unfold run
  split
  · rfl
  · rfl
  · rfl
  · next o _ =>
    unfold Options.run
    split_ifs
    · obtain ⟨-, -, hd⟩ :=
        leaves_making (Level.threshold logSetting (o.has .verbose)) hthere
      exact hd
    · rfl

/-- If there is something at the path, no number of runs changes anything. -/
theorem eq_of_runs (h : Relation.ReflTransGen Turns d d') (hthere : Ending.refused.Leads d) :
    d' = d := by
  induction h with
  | refl => rfl
  | tail _ hturn ih =>
    subst ih
    exact hturn.eq hthere

/-- A file that was made is where the path leads from then on. -/
theorem exists_leadsTo_file (h : e.Leads d) (hleaves : e.Leaves d out) (hexit : out.exit = 0) :
    ∃ place, out.directory.LeadsTo Config.fileName (.file place templateBytes) := by
  cases e with
  | refused =>
    rw [hleaves.1] at hexit
    cases hexit
  | made place =>
    obtain ⟨-, -, hhere, -, hmade, hkept⟩ := hleaves
    exact ⟨place, Directory.LeadsTo.made hhere hmade hkept h⟩
  | blocked =>
    rw [hleaves.1] at hexit
    cases hexit

end Making

/-- **Making a settings file changes nothing that is there.** A run with `--init`, in any directory, has
exactly one ending: there is something where the usual path leads through links, and the run refuses; or
the path leads to a free place, and the run makes one file there; or it leads nowhere, and the run fails.
The run prints nothing, and all that was there still is. A file that was made holds the template, and
whatever runs come after it, every run with `--init` among them refuses, and the directory stays. -/
theorem init_ending {args : List String} {o : Options} (hargs : Command.ofArguments args = .run o)
    (hinit : o.has .init = true) (world : World) :
    (∃! e : Ending, e.Leads world.directory ∧ e.Leaves world.directory (run args world)) ∧
    (run args world).stdout = "" ∧
    (∀ place node, world.directory.get? place = some node →
      (run args world).directory.get? place = some node) ∧
    ((run args world).exit = 0 →
      Config.load (run args world).directory.files Config.fileName = .ok Config.template ∧
      ∀ d, Relation.ReflTransGen Turns (run args world).directory d →
        d = (run args world).directory ∧
        ∀ (args' : List String) (o' : Options), Command.ofArguments args' = .run o' →
          o'.has .init = true → ∀ stdin logSetting,
            Ending.refused.Leaves d (run args' ⟨d, stdin, logSetting⟩)) := by
  obtain ⟨e, he, hunique⟩ := Ending.existsUnique_leads world.directory
  have hleaves : e.Leaves world.directory (run args world) := by
    rw [run_of_init hargs hinit]
    exact leaves_making _ he
  refine ⟨⟨e, ⟨he, hleaves⟩, fun e' h => hunique e' h.1⟩, ?_, fun _ _ => hleaves.get?_eq, fun hexit => ?_⟩
  · rw [run_of_init hargs hinit]
    exact makeConfig_stdout world.directory
  · obtain ⟨place, hfile⟩ := exists_leadsTo_file he hleaves hexit
    have hthere : Ending.refused.Leads (run args world).directory := ⟨_, hfile, trivial⟩
    refine ⟨load_template hfile, fun d hruns => ?_⟩
    obtain rfl := eq_of_runs hruns hthere
    refine ⟨rfl, fun args' o' hargs' hinit' stdin logSetting => ?_⟩
    rw [run_of_init hargs' hinit']
    exact leaves_making _ hthere

/-- The path leads over two links to a folder elsewhere, in which there is no such file yet. -/
theorem init_ending_dangling :
    let d : Directory := ⟨["work"], [(["work", "cscan.json"], .link "./next"),
      (["work", "next"], .link "../shared//c.json"), (["shared"], .folder),
      (["shared", "a.c"], .file [0x3B])]⟩
    let out := run ["--verbose", "a.c", "--init"] ⟨d, .piped [], none⟩
    Command.ofArguments ["--verbose", "a.c", "--init"] = .run ⟨[.init, .verbose], none, none, ["a.c"]⟩ ∧
      (Ending.made ["shared", "c.json"]).Leads d ∧ (Ending.made ["shared", "c.json"]).Leaves d out ∧
        Config.load out.directory.files "cscan.json" = .ok Config.template := by
  intro d out
  have hargs : Command.ofArguments ["--verbose", "a.c", "--init"] =
      .run ⟨[.init, .verbose], none, none, ["a.c"]⟩ := by decide +kernel
  obtain ⟨⟨e, ⟨he, hleaves⟩, hunique⟩, -, -, hload⟩ := init_ending hargs rfl ⟨d, .piped [], none⟩
  have hlast : d.Reaches ["work"] (pathNames "../shared//c.json" ++ []) 0
      (.vacant ["shared", "c.json"]) :=
    .climb (.enter (by decide +kernel) rfl (.stay (.inl rfl) (.vacant (by decide +kernel) rfl)))
  have hnext : d.Reaches ["work"] (pathNames "./next" ++ []) 1 (.vacant ["shared", "c.json"]) :=
    .stay (.inr rfl) (.follow (by decide +kernel) rfl hlast)
  have hleads : (Ending.made ["shared", "c.json"]).Leads d :=
    ⟨by decide +kernel, 2, by decide, .follow (by decide +kernel) rfl hnext⟩
  obtain rfl := he.unique hleads
  exact ⟨hargs, hleads, hleaves, (hload hleaves.1).1⟩

end TokenDump
