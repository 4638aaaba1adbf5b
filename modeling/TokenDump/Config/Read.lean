import TokenDump.Config.Basic
import TokenDump.Json.Record

/-!
# Reading settings

The settings file is one JSON value with white space around it. It is a record of two records; each
field takes `null` for unset. The format is a string, or an object from one name to `null`.
-/

namespace TokenDump.Config

open Json

/-- The format of a given name. -/
def formatOfName (name : String) (rest : List Char) : Except Fault Format :=
  match Format.ofWord? name with
  | some f => .ok f
  | none => .error (.here (.unknownVariant name (Format.all.map (·.word))) rest)

/-- The value of the only member of a format object. -/
def readUnit (cs : List Char) : Except Fault (List Char) :=
  match skipBlank cs with
  | [] => .error (.ahead .endInValue [])
  | 'n' :: cs => skipWord ['u', 'l', 'l'] cs
  | cs => .error (misfit "unit" cs)

/-- The closing brace of a format object. -/
def endFormat (cs : List Char) : Except Fault (List Char) :=
  match skipBlank cs with
  | [] => .error (.here .endInObject [])
  | '\x7d' :: cs => .ok cs
  | cs => .error (.here .expectedValue cs)

/-- A format object after its opening brace. -/
def readFormatObject : Reader Format := fun cs =>
  match skipBlank cs with
  | [] => .error (.ahead .endInObject [])
  | '"' :: cs => do
    let (name, cs) ← readString cs
    let f ← formatOfName name cs
    let cs ← skipColon cs
    let cs ← readUnit cs
    let cs ← endFormat cs
    .ok (f, cs)
  | '\x7d' :: cs => .error (.ahead .expectedValue ('\x7d' :: cs))
  | cs => .error (.ahead .nameNotString cs)

def readFormat : Reader Format := fun cs =>
  match skipBlank cs with
  | [] => .error (.ahead .endInValue [])
  | '"' :: cs => do
    let (name, cs) ← readString cs
    let f ← formatOfName name cs
    .ok (f, cs)
  | '\x7b' :: cs => readFormatObject cs
  | cs => .error (.ahead .expectedValue cs)

theorem length_readUnit_le {cs rest : List Char} (h : readUnit cs = .ok rest) :
    rest.length ≤ cs.length := by
  have := length_skipBlank_le cs
  simp only [readUnit] at h
  split at h
  · simp at h
  · have := length_skipWord_le h
    grind
  · simp at h

theorem length_endFormat_le {cs rest : List Char} (h : endFormat cs = .ok rest) :
    rest.length ≤ cs.length := by
  have := length_skipBlank_le cs
  grind [endFormat]

theorem length_readFormatObject_le {cs rest : List Char} {f : Format}
    (h : readFormatObject cs = .ok (f, rest)) : rest.length ≤ cs.length := by
  have := length_skipBlank_le cs
  simp only [readFormatObject] at h
  split at h
  · simp at h
  · simp only [bind_eq_ok, Prod.exists] at h
    obtain ⟨name, afterName, hn, f', _, afterColon, hc, afterUnit, hu, afterEnd, he, h⟩ := h
    have := length_readString_lt hn
    have := length_skipColon_lt hc
    have := length_readUnit_le hu
    have := length_endFormat_le he
    grind
  · simp at h
  · simp at h

theorem length_readFormat_le {cs rest : List Char} {f : Format}
    (h : readFormat cs = .ok (f, rest)) : rest.length ≤ cs.length := by
  have := length_skipBlank_le cs
  simp only [readFormat] at h
  split at h
  · simp at h
  · simp only [bind_eq_ok, Prod.exists] at h
    obtain ⟨name, afterName, hn, f', _, h⟩ := h
    have := length_readString_lt hn
    grind
  · have := length_readFormatObject_le h
    grind
  · simp at h

/-! ## The records -/

def scannerRecord : Record ScannerSettings where
  title := "ScannerOptions"
  fields :=
    [.optional "extendedNumbers" readBool (fun b s => { s with extendedNumbers := b })
      length_readBool_le,
     .optional "memberAccessKinds" readBool (fun b s => { s with memberAccessKinds := b })
      length_readBool_le]
  unset := .unset

def outputRecord : Record OutputSettings where
  title := "OutputOptions"
  fields :=
    [.optional "format" readFormat (fun f s => { s with format := f }) length_readFormat_le,
     .optional "skipComments" readBool (fun b s => { s with skipComments := b })
      length_readBool_le,
     .optional "showSpans" readBool (fun b s => { s with showSpans := b }) length_readBool_le]
  unset := .unset

def record : Record Config where
  title := "CscanConfig"
  fields :=
    [.optional "scannerOptions" scannerRecord.read (fun s c => { c with scanner := s })
      scannerRecord.length_read_le,
     .optional "output" outputRecord.read (fun s c => { c with output := s })
      outputRecord.length_read_le]
  unset := .unset

/-- The settings that some characters hold, and nothing after them. -/
def read (cs : List Char) : Except Fault Config := do
  let (c, cs) ← record.read cs
  match skipBlank cs with
  | [] => .ok c
  | cs => .error (.ahead .trailingCharacters cs)

/-- The settings in the text of a file, or what is wrong with it and where. -/
def parse (text : String) : Except Diagnosis Config :=
  (read text.toList).mapError (·.diagnose text.toList)

end TokenDump.Config
