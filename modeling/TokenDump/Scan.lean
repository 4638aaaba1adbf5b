import TokenDump.Scanner.Basic

/-!
# Scanning a whole text

Scanning never fails. What it had to put up with is kept beside the tokens as notes: characters that
no rule takes, and a comment or literal that the text ends before closing. The last note counts the
tokens and the bytes.
-/

namespace TokenDump

/-- A remark on a scan. -/
inductive Note where
  | unknownCharacter (start : Nat) (lexeme : String)
  | unterminatedComment (start : Nat)
  | unterminatedLiteral (start : Nat) (kind : TokenKind)
  | scanned (tokens bytes : Nat)
  deriving DecidableEq, Repr

/-- The remark that a find calls for, if any. -/
def Find.note? (f : Find) : Option Note :=
  match f.token.kind, f.closed with
  | .unknown, _ => some (.unknownCharacter f.start f.token.lexeme)
  | .blockComment, false => some (.unterminatedComment f.start)
  | kind, false => some (.unterminatedLiteral f.start kind)
  | _, true => none

/-- The tokens of a text and the remarks on them. -/
structure Scan where
  tokens : List Token
  notes : List Note

namespace Scan

/-- The scan of a text by some rules. -/
def byRules (rules : List Rule) (text : String) (dialect : Dialect) : Scan :=
  let finds := (Scanner.ofRules rules text dialect).finds
  ⟨finds.map (·.token), finds.filterMap (·.note?) ++ [.scanned finds.length text.utf8ByteSize]⟩

/-- The scan of a text. -/
def ofText (text : String) (dialect : Dialect) : Scan := byRules Rule.priority text dialect

end Scan

end TokenDump
