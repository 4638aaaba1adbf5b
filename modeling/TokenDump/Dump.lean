import TokenDump.Json.Value
import TokenDump.Token

/-!
# Token dumps

A dump shows tokens as plain lines or as one JSON array. It is made of pieces, each of which belongs
to a stage: a writer that fails is blamed on the stage of the piece it failed in.
-/

namespace TokenDump

/-- The two forms of a dump. -/
inductive Format where
  | plain
  | json
  deriving DecidableEq, Repr, Inhabited

namespace Format

def all : List Format := [plain, json]

/-- The format as it is written in settings and arguments. -/
def word : Format → String
  | plain => "plain"
  | json => "json"

def ofWord? (w : String) : Option Format := all.find? (·.word == w)

/-- The format as it is written in a log. -/
def tag (f : Format) : String := f.word.capitalize

end Format

/-- How tokens are shown. -/
structure Style where
  format : Format
  skipComments : Bool
  /-- Plain lines end with the span. -/
  showSpans : Bool
  deriving DecidableEq, Repr, Inhabited

/-- What is being written when a writer fails. -/
inductive Stage where
  /-- The JSON text, but for the line feed after it. -/
  | json
  | output
  deriving DecidableEq, Repr

/-- A part of a dump. -/
structure Piece where
  stage : Stage
  text : String
  deriving DecidableEq, Repr

namespace Dump

/-- The tokens that a style shows. -/
def visible (style : Style) (tokens : List Token) : List Token :=
  tokens.filter (fun t => !(style.skipComments && t.isComment))

/-- The plain line of a token. -/
def line (showSpans : Bool) (t : Token) : String :=
  if showSpans then t.text ++ " @" ++ t.span.text ++ "\n" else t.text ++ "\n"

/-- The JSON record of a token. -/
def record (t : Token) : Json.Value :=
  .object [("kind", .string t.kind.name), ("lexeme", .string t.lexeme),
    ("start", .number t.span.start.toNat), ("end", .number t.span.stop.toNat)]

/-- The parts of a dump, in order. -/
def pieces (style : Style) (tokens : List Token) : List Piece :=
  match style.format with
  | .plain => (visible style tokens).map (fun t => ⟨.output, line style.showSpans t⟩)
  | .json =>
    [⟨.json, (Json.Value.array ((visible style tokens).map record)).write⟩, ⟨.output, "\n"⟩]

/-- The whole dump. -/
def text (style : Style) (tokens : List Token) : String :=
  String.join ((pieces style tokens).map (·.text))

end Dump

end TokenDump
