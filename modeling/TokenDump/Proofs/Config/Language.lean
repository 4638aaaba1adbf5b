import TokenDump.Config.Read
import TokenDump.Proofs.Json.Records

/-!
# The language of the settings file

What settings a tree of JSON stands for is a matter of the tree alone (`decode?`), and the reader, which
never builds a tree, accepts a text as some settings exactly if the text is one value that decodes to
them (`parse_eq_ok_iff`). Members that no record knows may hold any value of the grammar; their names
are read like all others and must be texts.
-/

namespace TokenDump.Config
open Json Text

/-! ## Settings as trees -/

def bool? : Datum → Option Bool
  | .bool b => some b
  | _ => none

/-- A format is its name, or an object from its name to `null`. -/
def format? : Datum → Option Format
  | .string us => (text? us).bind Format.ofWord?
  | .object [(us, .null)] => (text? us).bind Format.ofWord?
  | _ => none

def scanner? : Datum → Option ScannerSettings
  | .object members => do
    let members ← named? members
    let extendedNumbers ← member? members "extendedNumbers" bool?
    let memberAccessKinds ← member? members "memberAccessKinds" bool?
    return ⟨extendedNumbers, memberAccessKinds⟩
  | .array [extendedNumbers, memberAccessKinds] => do
    return ⟨← optional? bool? extendedNumbers, ← optional? bool? memberAccessKinds⟩
  | _ => none

def output? : Datum → Option OutputSettings
  | .object members => do
    let members ← named? members
    let format ← member? members "format" format?
    let skipComments ← member? members "skipComments" bool?
    let showSpans ← member? members "showSpans" bool?
    return ⟨format, skipComments, showSpans⟩
  | .array [format, skipComments, showSpans] => do
    return ⟨← optional? format? format, ← optional? bool? skipComments, ← optional? bool? showSpans⟩
  | _ => none

/-- **The settings that a tree stands for**, if it stands for any. -/
def decode? : Datum → Option Config
  | .object members => do
    let members ← named? members
    let scanner ← member? members "scannerOptions" scanner?
    let output ← member? members "output" output?
    return ⟨scanner, output⟩
  | .array [scanner, output] => do
    return ⟨← optional? scanner? scanner, ← optional? output? output⟩
  | _ => none

/-! ## Booleans and formats -/

section Scalars
variable {cs rest : List Char} {name : String} {f : Format}

theorem reads_bool : Reads readBool bool? := by
  intro cs b rest
  constructor
  · intro h
    have hblank := skips_skipBlank cs
    unfold readBool at h
    split at h
    · cases h
    · next behind hcs =>
      rw [bind_eq_ok] at h
      obtain ⟨rest, hword, h⟩ := h
      cases h
      rw [hcs, skipWord_eq_ok_iff.1 hword] at hblank
      exact ⟨.bool true, _, hblank, .isTrue, rfl⟩
    · next behind hcs =>
      rw [bind_eq_ok] at h
      obtain ⟨rest, hword, h⟩ := h
      cases h
      rw [hcs, skipWord_eq_ok_iff.1 hword] at hblank
      exact ⟨.bool false, _, hblank, .isFalse, rfl⟩
    · cases h
  · rintro ⟨d, first, hblank, hd, h⟩
    cases d with
    | bool b' =>
      obtain rfl := Option.some.inj h
      rw [readBool, hblank.skipBlank_eq hd.stops]
      cases hd with
      | isTrue | isFalse => rfl
    | _ => cases h

theorem formatOfName_eq_ok_iff : formatOfName name rest = .ok f ↔ Format.ofWord? name = some f := by
  unfold formatOfName
  cases Format.ofWord? name <;> simp

theorem readUnit_eq_ok_iff : readUnit cs = .ok rest ↔
    ∃ first, Skips cs first ∧ Spells .null first rest := by
  constructor
  · intro h
    have hblank := skips_skipBlank cs
    unfold readUnit at h
    split at h
    · cases h
    · next behind hcs =>
      rw [hcs, skipWord_eq_ok_iff.1 h] at hblank
      exact ⟨_, hblank, .null⟩
    · cases h
  · rintro ⟨first, hblank, hd⟩
    rw [readUnit, hblank.skipBlank_eq hd.stops]
    cases hd with
    | null => rfl

theorem endFormat_eq_ok_iff : endFormat cs = .ok rest ↔ Skips cs ('\x7d' :: rest) := by
  constructor
  · intro h
    have hblank := skips_skipBlank cs
    unfold endFormat at h
    split at h
    · cases h
    · next behind hcs =>
      cases h
      exact hcs ▸ hblank
    · cases h
  · intro h
    rw [endFormat, h.skipBlank_eq (stops_cons.2 rfl)]
    rfl

theorem readFormatObject_eq_ok_iff : readFormatObject cs = .ok (f, rest) ↔
    ∃ name, Format.ofWord? name = some f ∧
      Spells (.object [(units name, .null)]) ('\x7b' :: cs) rest := by
  constructor
  · intro h
    have hblank := skips_skipBlank cs
    unfold readFormatObject at h
    split at h
    · cases h
    · next behind hcs =>
      simp only [bind_eq_ok, Prod.exists] at h
      obtain ⟨name, afterName, hname, f', hf, afterColon, hcolon, afterUnit, hunit, afterEnd, hend,
        h⟩ := h
      cases h
      obtain ⟨first, hfirst, hnull⟩ := readUnit_eq_ok_iff.1 hunit
      rw [hcs] at hblank
      have hm : SpellsMember (units name) .null ('"' :: behind) afterUnit :=
        .mk (readString_eq_ok_iff.1 hname) (skipColon_eq_ok_iff.1 hcolon) hfirst hnull
      exact ⟨name, formatOfName_eq_ok_iff.1 hf,
        .object hblank hm (.close (endFormat_eq_ok_iff.1 hend))⟩
    · cases h
    · cases h
  · rintro ⟨name, hf, h⟩
    obtain ⟨start, later, hstart, hm, hend⟩ := spells_object_iff.1 h
    cases hm with
    | mk hname hcolon hblank hnull =>
      rw [readFormatObject, hstart.skipBlank_eq (stops_cons.2 rfl)]
      simp only [bind_eq_ok, Prod.exists]
      exact ⟨name, _, readString_eq_ok_iff.2 hname, f, formatOfName_eq_ok_iff.2 hf, _,
        skipColon_eq_ok_iff.2 hcolon, _, readUnit_eq_ok_iff.2 ⟨_, hblank, hnull⟩, _,
        endFormat_eq_ok_iff.2 hend, rfl⟩

theorem format?_eq_some_iff {d : Datum} : format? d = some f ↔ ∃ name, Format.ofWord? name = some f ∧
    (d = .string (units name) ∨ d = .object [(units name, .null)]) := by
  constructor
  · intro h
    unfold format? at h
    split at h
    · obtain ⟨name, hname, hf⟩ := Option.bind_eq_some_iff.1 h
      rw [text?_eq_some_iff.1 hname]
      exact ⟨name, hf, .inl rfl⟩
    · obtain ⟨name, hname, hf⟩ := Option.bind_eq_some_iff.1 h
      rw [text?_eq_some_iff.1 hname]
      exact ⟨name, hf, .inr rfl⟩
    · cases h
  · rintro ⟨name, hf, rfl | rfl⟩ <;>
      exact Option.bind_eq_some_iff.2 ⟨name, text?_eq_some_iff.2 rfl, hf⟩

theorem reads_format : Reads readFormat format? := by
  intro cs f rest
  simp only [format?_eq_some_iff]
  constructor
  · intro h
    have hblank := skips_skipBlank cs
    unfold readFormat at h
    split at h
    · cases h
    · next behind hcs =>
      simp only [bind_eq_ok, Prod.exists] at h
      obtain ⟨name, afterName, hname, f', hf, h⟩ := h
      cases h
      rw [hcs] at hblank
      exact ⟨_, _, hblank, .string (readString_eq_ok_iff.1 hname), name, formatOfName_eq_ok_iff.1 hf,
        .inl rfl⟩
    · next behind hcs =>
      obtain ⟨name, hf, hd⟩ := readFormatObject_eq_ok_iff.1 h
      rw [hcs] at hblank
      exact ⟨_, _, hblank, hd, name, hf, .inr rfl⟩
    · cases h
  · rintro ⟨d, first, hblank, hd, name, hf, rfl | rfl⟩
    · rw [readFormat, hblank.skipBlank_eq hd.stops]
      cases hd with
      | string hname =>
        simp only [bind_eq_ok, Prod.exists]
        exact ⟨name, _, readString_eq_ok_iff.2 hname, f, formatOfName_eq_ok_iff.2 hf, rfl⟩
    · rw [readFormat, hblank.skipBlank_eq hd.stops]
      obtain ⟨behind, rfl⟩ := hd.exists_object
      exact readFormatObject_eq_ok_iff.2 ⟨name, hf, hd⟩

end Scalars

/-! ## Records -/

def scannerSlots : List (Slot ScannerSettings) :=
  [{ Part := Bool, name := "extendedNumbers", read := readBool, decode? := bool?,
     get := (·.extendedNumbers), set := fun b s => { s with extendedNumbers := b },
     length_le := length_readBool_le, reads := reads_bool, get_set := fun _ _ => rfl },
   { Part := Bool, name := "memberAccessKinds", read := readBool, decode? := bool?,
     get := (·.memberAccessKinds), set := fun b s => { s with memberAccessKinds := b },
     length_le := length_readBool_le, reads := reads_bool, get_set := fun _ _ => rfl }]

theorem complete_scannerSlots : Slot.Complete scannerSlots .unset where
  names := by decide
  get_set_of_ne := by
    simp [scannerSlots]
  get_unset := by simp [scannerSlots, ScannerSettings.unset]
  ext := by
    rintro ⟨a, b⟩ ⟨a', b'⟩ h
    simpa [scannerSlots] using h

theorem scanner?_eq_some_iff (d : Datum) (s : ScannerSettings) :
    scanner? d = some s ↔ Slot.Describes scannerSlots .unset d s := by
  obtain ⟨extendedNumbers, memberAccessKinds⟩ := s
  unfold scanner?
  split
  · simp [Slot.Describes, scannerSlots, Option.bind_eq_some_iff]
  · simp [Slot.Describes, Slot.Fills, scannerSlots, ScannerSettings.unset, Option.bind_eq_some_iff]
  · next hobject harray =>
    refine iff_of_false nofun (Slot.not_describes hobject fun items hlength => ?_)
    obtain ⟨a, b, rfl⟩ := List.length_eq_two.1 hlength
    exact harray a b

theorem reads_scanner : Reads scannerRecord.read scanner? :=
  reads_record rfl complete_scannerSlots scanner?_eq_some_iff

def outputSlots : List (Slot OutputSettings) :=
  [{ Part := Format, name := "format", read := readFormat, decode? := format?,
     get := (·.format), set := fun f s => { s with format := f },
     length_le := length_readFormat_le, reads := reads_format, get_set := fun _ _ => rfl },
   { Part := Bool, name := "skipComments", read := readBool, decode? := bool?,
     get := (·.skipComments), set := fun b s => { s with skipComments := b },
     length_le := length_readBool_le, reads := reads_bool, get_set := fun _ _ => rfl },
   { Part := Bool, name := "showSpans", read := readBool, decode? := bool?,
     get := (·.showSpans), set := fun b s => { s with showSpans := b },
     length_le := length_readBool_le, reads := reads_bool, get_set := fun _ _ => rfl }]

theorem complete_outputSlots : Slot.Complete outputSlots .unset where
  names := by decide
  get_set_of_ne := by simp [outputSlots]
  get_unset := by simp [outputSlots, OutputSettings.unset]
  ext := by
    rintro ⟨a, b, c⟩ ⟨a', b', c'⟩ h
    simpa [outputSlots] using h

theorem output?_eq_some_iff (d : Datum) (s : OutputSettings) :
    output? d = some s ↔ Slot.Describes outputSlots .unset d s := by
  obtain ⟨format, skipComments, showSpans⟩ := s
  unfold output?
  split
  · simp [Slot.Describes, outputSlots, Option.bind_eq_some_iff]
  · simp [Slot.Describes, Slot.Fills, outputSlots, OutputSettings.unset, Option.bind_eq_some_iff]
  · next hobject harray =>
    refine iff_of_false nofun (Slot.not_describes hobject fun items hlength => ?_)
    obtain ⟨a, b, c, rfl⟩ := List.length_eq_three.1 hlength
    exact harray a b c

theorem reads_output : Reads outputRecord.read output? :=
  reads_record rfl complete_outputSlots output?_eq_some_iff

def slots : List (Slot Config) :=
  [{ Part := ScannerSettings, name := "scannerOptions", read := scannerRecord.read,
     decode? := scanner?, get := (·.scanner), set := fun s c => { c with scanner := s },
     length_le := scannerRecord.length_read_le, reads := reads_scanner, get_set := fun _ _ => rfl },
   { Part := OutputSettings, name := "output", read := outputRecord.read,
     decode? := output?, get := (·.output), set := fun s c => { c with output := s },
     length_le := outputRecord.length_read_le, reads := reads_output, get_set := fun _ _ => rfl }]

theorem complete_slots : Slot.Complete slots .unset where
  names := by decide
  get_set_of_ne := by simp [slots]
  get_unset := by simp [slots, unset]
  ext := by
    rintro ⟨a, b⟩ ⟨a', b'⟩ h
    simpa [slots] using h

theorem decode?_eq_some_iff (d : Datum) (c : Config) :
    decode? d = some c ↔ Slot.Describes slots .unset d c := by
  obtain ⟨scanner, output⟩ := c
  unfold decode?
  split
  · simp [Slot.Describes, slots, Option.bind_eq_some_iff]
  · simp [Slot.Describes, Slot.Fills, slots, unset, Option.bind_eq_some_iff]
  · next hobject harray =>
    refine iff_of_false nofun (Slot.not_describes hobject fun items hlength => ?_)
    obtain ⟨a, b, rfl⟩ := List.length_eq_two.1 hlength
    exact harray a b

theorem reads_config : Reads record.read decode? :=
  reads_record rfl complete_slots decode?_eq_some_iff

/-! ## Whole texts -/

/-- The text is one value, with white space around it. -/
def IsDocument (d : Datum) (cs : List Char) : Prop :=
  ∃ first rest, Skips cs first ∧ Spells d first rest ∧ ∀ c ∈ rest, Json.isBlank c = true

theorem skipBlank_eq_nil_iff {cs : List Char} :
    skipBlank cs = [] ↔ ∀ c ∈ cs, Json.isBlank c = true := by
  rw [skipBlank, List.dropWhile_eq_nil_iff]

theorem read_eq_ok_iff {cs : List Char} {c : Config} :
    read cs = .ok c ↔ ∃ d, IsDocument d cs ∧ decode? d = some c := by
  rw [read, bind_eq_ok]
  constructor
  · rintro ⟨⟨c, rest⟩, hread, h⟩
    obtain ⟨d, first, hblank, hd, hdecode⟩ := (reads_config _ _ _).1 hread
    cases hrest : skipBlank rest with
    | nil =>
      simp only [hrest, Except.ok.injEq] at h
      exact ⟨d, ⟨first, rest, hblank, hd, skipBlank_eq_nil_iff.1 hrest⟩, h ▸ hdecode⟩
    | cons =>
      simp only [hrest] at h
      cases h
  · rintro ⟨d, ⟨first, rest, hblank, hd, hrest⟩, hdecode⟩
    refine ⟨(c, rest), (reads_config _ _ _).2 ⟨d, first, hblank, hd, hdecode⟩, ?_⟩
    simp only [skipBlank_eq_nil_iff.2 hrest]

/-- **The language of the settings file**: a text is read as some settings exactly if it is one JSON
value that decodes to them. -/
theorem parse_eq_ok_iff (text : String) (c : Config) :
    parse text = .ok c ↔ ∃ d, IsDocument d text.toList ∧ decode? d = some c := by
  rw [← read_eq_ok_iff, parse]
  cases read text.toList <;> simp [Except.mapError]

/-- Names are compared without their escapes, and a member that no record knows may hold what is no text and
no double. -/
theorem parse_eq_ok_escaped :
    let text := "\n[null, \x7b\"\\u0066ormat\":\x7b\"json\":null\x7d, \"x\":[\"\\ud800\", -1e999]\x7d] "
    ∃ d, IsDocument d text.toList ∧ decode? d = some ⟨none, some ⟨some .json, none, none⟩⟩ := by
  intro text
  have hsome : (parse text).toOption = some ⟨none, some ⟨some .json, none, none⟩⟩ := by decide +kernel
  refine (parse_eq_ok_iff text _).1 ?_
  cases hparse : parse text with
  | ok c =>
    rw [hparse] at hsome
    exact congrArg Except.ok (Option.some.inj hsome)
  | error =>
    rw [hparse] at hsome
    cases hsome

end TokenDump.Config
