import TokenDump.Decimal.Shortest
import TokenDump.Text.Quoted

/-!
# Faults in JSON text

A reader that cannot go on reports a `Fault`: the cause, and how many bytes were left in the text.
`Fault.position` turns that into a line and a column, and `Cause.message` gives the wording.
-/

namespace TokenDump.Json

/-- A value of a type that is not wanted. -/
inductive Misfit where
  | null
  | boolean (b : Bool)
  | integer (n : Int)
  | real (x : Float)
  | string (s : String)
  | list
  | object
  deriving Repr

/-- Numbers in messages have an exponent only below `0.00001` and from `1e+16` on. -/
def realLayout : Decimal.Layout := ⟨-5, 15⟩

def Misfit.text : Misfit → String
  | null => "null"
  | boolean b => s!"boolean `{b}`"
  | integer n => s!"integer `{n}`"
  | real x => s!"floating point `{realLayout.writeFloat x}`"
  | string s => s!"string {Text.quote s}"
  | list => "sequence"
  | object => "map"

/-- Why a text cannot be read. -/
inductive Cause where
  | endInValue
  | endInList
  | endInObject
  | endInString
  | expectedColon
  | expectedCommaInList
  | expectedCommaInObject
  | expectedValue
  /-- A word such as `true` is misspelt. -/
  | misspelt
  | nameNotString
  | trailingComma
  | trailingCharacters
  | invalidNumber
  | numberOutOfRange
  | invalidEscape
  | unexpectedEndOfEscape
  | loneSurrogate
  | controlCharacter
  | invalidType (found : Misfit) (expected : String)
  | invalidLength (found : Nat) (expected : String)
  | duplicateField (name : String)
  | unknownVariant (name : String) (expected : List String)
  deriving Repr

/-- The three families of causes. -/
inductive Family where
  /-- The text ends too early. -/
  | truncated
  /-- The text is no JSON. -/
  | malformed
  /-- The text is JSON so far, but not for the value wanted. -/
  | mismatched
  deriving DecidableEq, Repr

namespace Cause

def family : Cause → Family
  | endInValue | endInList | endInObject | endInString => .truncated
  | invalidType .. | invalidLength .. | duplicateField .. | unknownVariant .. => .mismatched
  | _ => .malformed

/-- The wording of a cause. -/
def message : Cause → String
  | endInValue => "EOF while parsing a value"
  | endInList => "EOF while parsing a list"
  | endInObject => "EOF while parsing an object"
  | endInString => "EOF while parsing a string"
  | expectedColon => "expected `:`"
  | expectedCommaInList => "expected `,` or `]`"
  | expectedCommaInObject => "expected `,` or `\x7d`"
  | expectedValue => "expected value"
  | misspelt => "expected ident"
  | nameNotString => "key must be a string"
  | trailingComma => "trailing comma"
  | trailingCharacters => "trailing characters"
  | invalidNumber => "invalid number"
  | numberOutOfRange => "number out of range"
  | invalidEscape => "invalid escape"
  | unexpectedEndOfEscape => "unexpected end of hex escape"
  | loneSurrogate => "lone leading surrogate in hex escape"
  | controlCharacter => "control character (\\u0000-\\u001F) found while parsing a string"
  | invalidType found expected => s!"invalid type: {found.text}, expected {expected}"
  | invalidLength found expected => s!"invalid length {found}, expected {expected}"
  | duplicateField name => s!"duplicate field `{name}`"
  | unknownVariant name expected =>
    s!"unknown variant `{name}`, expected " ++ " or ".intercalate (expected.map (s!"`{·}`"))

end Cause

/-- How many bytes some characters have. -/
def byteLength (cs : List Char) : Nat := (String.ofList cs).utf8ByteSize

/-- A cause, and how many bytes of the text lie beyond its place. -/
structure Fault where
  cause : Cause
  left : Nat
  deriving Repr

namespace Fault

/-- A fault just before the characters that are left. -/
def here (cause : Cause) (rest : List Char) : Fault := ⟨cause, byteLength rest⟩

/-- A fault at the next byte of the characters that are left, if there is one. -/
def ahead (cause : Cause) (rest : List Char) : Fault := ⟨cause, byteLength rest - 1⟩

end Fault

/-- A place in a text: lines count from 1, columns are the bytes before the place in its line. -/
structure Position where
  line : Nat
  column : Nat
  deriving DecidableEq, Repr

namespace Position

/-- The place some bytes on from a place. -/
def advance (p : Position) (bytes : Nat) : List Char → Position
  | [] => p
  | c :: cs =>
    if bytes < c.utf8Size then { p with column := p.column + bytes }
    else if c == '\n' then advance ⟨p.line + 1, 0⟩ (bytes - 1) cs
    else advance { p with column := p.column + c.utf8Size } (bytes - c.utf8Size) cs

end Position

/-- The place of a fault in the text that was read. -/
def Fault.position (f : Fault) (text : List Char) : Position :=
  Position.advance ⟨1, 0⟩ (byteLength text - f.left) text

/-- A fault with its place. -/
structure Diagnosis where
  cause : Cause
  position : Position
  deriving Repr

/-- The fault in a text, with its place. -/
def Fault.diagnose (f : Fault) (text : List Char) : Diagnosis := ⟨f.cause, f.position text⟩

/-- The wording of a fault and its place. -/
def Diagnosis.message (d : Diagnosis) : String :=
  s!"{d.cause.message} at line {d.position.line} column {d.position.column}"

end TokenDump.Json
