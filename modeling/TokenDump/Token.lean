import TokenDump.Keyword
import TokenDump.Span

/-!
# Tokens

A token is a kind, the text it was cut from (the lexeme), and the span of that text. Every kind has
a stable name for dumps, `TokenKind.name`, and a tag for logs, `TokenKind.tag`.
-/

namespace TokenDump

/-- What a token is. -/
inductive TokenKind where
  /-- A line that starts with `#`. -/
  | directive
  /-- From `//` to the end of the line. -/
  | lineComment
  /-- From `/*` to the next `*/`, or to the end of the text. -/
  | blockComment
  | keyword (k : Keyword)
  | identifier
  | number
  | operator
  | punctuation
  | stringLiteral
  | charLiteral
  /-- The pair `::`. -/
  | scopeResolution
  /-- The pair `->`, in a dialect that tells member access apart. -/
  | arrowAccess
  /-- The dot, in a dialect that tells member access apart. -/
  | dotAccess
  /-- A character that no rule takes. -/
  | unknown
  deriving DecidableEq, Repr, Inhabited

namespace TokenKind

/-- The name of a kind in a dump. -/
def name : TokenKind → String
  | directive => "TOK_HEADER"
  | lineComment => "TOK_LINE_COMMENT"
  | blockComment => "TOK_BLOCK_COMMENT"
  | keyword k => k.tokenName
  | identifier => "TOK_IDENTIFIER"
  | number => "TOK_NUMBER"
  | operator => "TOK_OPERATOR"
  | punctuation => "TOK_PUNCTUATION"
  | stringLiteral => "TOK_STRING"
  | charLiteral => "TOK_CHAR_LITERAL"
  | scopeResolution => "TOK_SCOPE"
  | arrowAccess => "TOK_ARROW"
  | dotAccess => "TOK_DOT"
  | unknown => "TOK_UNKNOWN"

/-- The name of a kind in a log. -/
def tag : TokenKind → String
  | directive => "Directive"
  | lineComment => "LineComment"
  | blockComment => "BlockComment"
  | keyword k => s!"Keyword({k.tag})"
  | identifier => "Identifier"
  | number => "Number"
  | operator => "Operator"
  | punctuation => "Punctuation"
  | stringLiteral => "StringLiteral"
  | charLiteral => "CharLiteral"
  | scopeResolution => "ScopeResolution"
  | arrowAccess => "ArrowAccess"
  | dotAccess => "DotAccess"
  | unknown => "Unknown"

/-- Every kind that is not a keyword. -/
def categories : List TokenKind :=
  [directive, lineComment, blockComment, identifier, number, operator, punctuation, stringLiteral,
   charLiteral, scopeResolution, arrowAccess, dotAccess, unknown]

/-- Every kind. -/
def all : List TokenKind := categories ++ Keyword.all.map keyword

/-- The kind of a given name. -/
def ofName? (n : String) : Option TokenKind := all.find? (·.name == n)

/-- The keyword of a keyword's kind. -/
def keyword? : TokenKind → Option Keyword
  | keyword k => some k
  | _ => none

def isComment : TokenKind → Bool
  | lineComment | blockComment => true
  | _ => false

/-- The kind of a word: its keyword's, or an identifier's. -/
def ofWord (w : String) : TokenKind :=
  match Keyword.ofWord? w with
  | some k => keyword k
  | none => identifier

theorem mem_all (k : TokenKind) : k ∈ all := by
  cases k with
  | keyword k => simp [all, Keyword.mem_all]
  | _ => simp [all, categories]

/-- A kind can be told from its name: no keyword's name is that of another kind. -/
theorem ofName?_name (k : TokenKind) : ofName? k.name = some k := by
  have named : ∀ k ∈ all, ofName? k.name = some k := by decide +kernel
  exact named k (mem_all k)

end TokenKind

/-- A piece of text with its kind and its place. -/
structure Token where
  kind : TokenKind
  lexeme : String
  span : Span
  deriving DecidableEq, Repr, Inhabited

namespace Token

def isComment (t : Token) : Bool := t.kind.isComment

/-- Comments and directives carry no code. -/
def isTrivia (t : Token) : Bool := t.isComment || t.kind == .directive

/-- The token in writing: the name of its kind, a space and the lexeme. -/
def text (t : Token) : String := t.kind.name ++ " " ++ t.lexeme

end Token

end TokenDump
