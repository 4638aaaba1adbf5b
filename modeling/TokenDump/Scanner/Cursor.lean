import TokenDump.Scanner.Rule
import TokenDump.Text.Utf8

/-!
# Cursors

The scanner on bytes. A cursor is a byte offset into a text. The rules read single bytes there, search
for bytes further on, and cut pieces out of the text between two offsets; how far a token reaches is
found by loops that move the cursor, each by recursion on the bytes that are left. Much of that can go
wrong: `Cursor.Fault` names a byte that is not there, a cut that is out of order or goes through a
character, and a rule that takes nothing. `Cursor.next` is the next token and the cursor after it, unless
there is a fault on the way.
-/

namespace TokenDump

open CharClass Utf8

/-- A search for the first place where some bytes stand in a text. -/
structure Search where
  find? (pattern text : List UInt8) : Option Nat
  find?_eq_some (pattern text : List UInt8) (i : Nat) :
    find? pattern text = some i ↔ pattern <+: text.drop i ∧ ∀ j < i, ¬ pattern <+: text.drop j

/-- The search that tries one place after the other. -/
def Search.naive : Search where
  find? pattern text :=
    (List.range (text.length + 1)).find? fun i => pattern.isPrefixOf (text.drop i)
  find?_eq_some pattern text i := by
    simp only [List.find?_range_eq_some, List.isPrefixOf_iff_prefix, Bool.not_eq_true',
      Bool.eq_false_iff, ne_eq, List.mem_range]
    constructor
    · rintro ⟨hi, -, hfirst⟩
      exact ⟨hi, hfirst⟩
    · rintro ⟨hi, hfirst⟩
      refine ⟨hi, ?_, hfirst⟩
      -- Beyond the text stands the empty pattern only, and that stands at its start as well.
      rcases Nat.lt_or_ge i (text.length + 1) with hlt | hge
      · exact hlt
      · rw [List.drop_of_length_le (by omega), List.prefix_nil] at hi
        exact absurd (hi ▸ List.nil_prefix) (hfirst 0 (by omega))

namespace Cursor

/-- What must not happen to a cursor. -/
inductive Fault where
  /-- A byte is read beyond the end of the text. -/
  | index
  /-- A piece is cut out whose ends are out of order, beyond the text or inside a character. -/
  | slice
  /-- A rule applies and takes nothing. -/
  | standstill
  deriving DecidableEq, Repr

/-- What a rule has taken: the kind of the token, none for white space, and the cursor after it. -/
structure Step where
  kind : Option TokenKind
  pos : Nat
  deriving DecidableEq, Repr

/-- A byte, as the character of that number. -/
def asChar (b : UInt8) : Char := Char.ofNat b.toNat

section Reading
variable (text : String) (pos : Nat)

/-- The byte at the cursor, if the text has one there. -/
def byteAt? : Option Char := (encode text)[pos]?.map asChar

/-- The byte at the cursor, which must be there. -/
def current : Except Fault Char :=
  match byteAt? text pos with
  | some c => .ok c
  | none => .error .index

/-- The bytes from the cursor on. -/
def bytesFrom : Except Fault (List UInt8) :=
  if pos ≤ (encode text).length then .ok ((encode text).drop pos) else .error .slice

/-- The text between two offsets. -/
def slice (start stop : Nat) : Except Fault String :=
  if h : start ≤ stop ∧ String.Pos.Raw.IsValid text ⟨start⟩ ∧ String.Pos.Raw.IsValid text ⟨stop⟩ then
    .ok (text.extract (text.pos ⟨start⟩ h.2.1) (text.pos ⟨stop⟩ h.2.2))
  else .error .slice

/-- How many bytes the character at the cursor has; one at the end of the text. -/
def charSize : Except Fault { n : Nat // 0 < n } := do
  let rest ← slice text pos text.utf8ByteSize
  match rest.toList with
  | [] => .ok ⟨1, Nat.one_pos⟩
  | c :: _ => .ok ⟨c.utf8Size, c.utf8Size_pos⟩

end Reading

/-! ## Loops -/

section Loops
variable (search : Search) (text : String)

/-- Behind the run of bytes in a class. -/
def skip (p : Char → Bool) (pos : Nat) : Except Fault Nat :=
  if pos < text.utf8ByteSize then do
    let c ← current text pos
    if p c then skip p (pos + 1) else .ok pos
  else .ok pos
termination_by text.utf8ByteSize - pos

/-- At the next line feed, or behind the text. -/
def lineEnd (pos : Nat) : Except Fault Nat := do
  let rest ← bytesFrom text pos
  .ok (pos + (search.find? [0x0A] rest).getD rest.length)

/-- Behind the end mark of the block comment at the cursor, or behind the text. -/
def commentEnd (pos : Nat) : Except Fault Nat := do
  let rest ← bytesFrom text (pos + 2)
  match search.find? [0x2A, 0x2F] rest with
  | some i => .ok (pos + 2 + (i + 2))
  | none => .ok text.utf8ByteSize

/-- Behind the rest of an extended number. -/
def extendedEnd (hex : Bool) (pos : Nat) : Except Fault Nat :=
  if pos < text.utf8ByteSize then do
    let c ← current text pos
    if !hex && isExponentMark c && (byteAt? text (pos + 1)).any isSign &&
        (byteAt? text (pos + 2)).any Char.isDigit then
      extendedEnd hex (pos + 2)
    else if isExtendedNumberPart c then extendedEnd hex (pos + 1)
    else .ok pos
  else .ok pos
termination_by text.utf8ByteSize - pos

/-- Behind the number at the cursor. -/
def numberEnd (dialect : Dialect) (pos : Nat) : Except Fault Nat :=
  if !dialect.extendedNumbers then skip text isNumberPart pos
  else do
    let c ← current text pos
    let next := byteAt? text (pos + 1)
    if c == '0' && (next == some 'x' || next == some 'X') then extendedEnd text true (pos + 2)
    else extendedEnd text false pos

/-- Behind the closing quote of a literal, from inside it, or behind the text. -/
def literalEnd (quote : Char) (pos : Nat) : Except Fault Nat :=
  if pos < text.utf8ByteSize then do
    let c ← current text pos
    if c == quote then .ok (pos + 1)
    else if c == '\\' then
      if pos + 1 < text.utf8ByteSize then do
        let n ← charSize text (pos + 1)
        literalEnd quote (pos + 1 + n)
      else literalEnd quote (pos + 1)
    else do
      let n ← charSize text pos
      literalEnd quote (pos + n)
  else .ok pos
termination_by text.utf8ByteSize - pos
decreasing_by all_goals omega

end Loops

/-! ## The rules on bytes -/

section Rules
variable (search : Search) (dialect : Dialect) (text : String) (pos : Nat)

/-- The token from the cursor on, if the rule applies. -/
def emit (applies : Bool) (kind : TokenKind) (stop : Except Fault Nat) :
    Except Fault (Option Step) :=
  if applies then do return some ⟨some kind, ← stop⟩ else .ok none

/-- The white space from the cursor on, if any. -/
def skipBlank (applies : Bool) : Except Fault (Option Step) :=
  if applies then do return some ⟨none, ← skip text isBlank pos⟩ else .ok none

/-- The word from the cursor on, if any. -/
def emitWord (applies : Bool) : Except Fault (Option Step) :=
  if applies then do
    let stop ← skip text isWordPart (pos + 1)
    let word ← slice text pos stop
    return some ⟨some (.ofWord word), stop⟩
  else .ok none

/-- What a rule takes at the cursor, if it applies there. -/
def tryRule (rule : Rule) : Except Fault (Option Step) := do
  let c ← current text pos
  let next := byteAt? text (pos + 1)
  match rule with
  | .whiteSpace => skipBlank text pos (isBlank c)
  | .directive => emit (c == '#') .directive (lineEnd search text pos)
  | .operatorPair => emit (next.any (isOperatorPair c)) .operator (.ok (pos + 2))
  | .lineComment => emit (c == '/' && next == some '/') .lineComment (lineEnd search text pos)
  | .scopeResolution => emit (c == ':' && next == some ':') .scopeResolution (.ok (pos + 2))
  | .blockComment => emit (c == '/' && next == some '*') .blockComment (commentEnd search text pos)
  | .word => emitWord text pos (isWordStart c)
  | .number => emit c.isDigit .number (numberEnd text dialect pos)
  | .memberAccess =>
    if c == '-' && next == some '>' then
      emit true (if dialect.memberAccessKinds then .arrowAccess else .punctuation) (.ok (pos + 2))
    else
      emit (c == '.') (if dialect.memberAccessKinds then .dotAccess else .punctuation)
        (.ok (pos + 1))
  | .singleOperator => emit (isOperator c) .operator (.ok (pos + 1))
  | .punctuation => emit (isPunctuation c) .punctuation (.ok (pos + 1))
  | .stringLiteral => emit (c == '"') .stringLiteral (literalEnd text '"' (pos + 1))
  | .charLiteral => emit (c == '\'') .charLiteral (literalEnd text '\'' (pos + 1))

/-- The character at the cursor, as an unknown token. -/
def takeUnknown : Except Fault Step := do
  let n ← charSize text pos
  let _ ← slice text pos (pos + n)
  return ⟨some .unknown, pos + n⟩

/-- What the first of some rules to apply takes, or else an unknown character. -/
def applyRules : List Rule → Except Fault Step
  | [] => takeUnknown text pos
  | rule :: rules => do
    match ← tryRule search dialect text pos rule with
    | some step => .ok step
    | none => applyRules rules

end Rules

/-- The next token, and the cursor after it. -/
def next (search : Search) (dialect : Dialect) (text : String) (pos : Nat) :
    Except Fault (Option Token × Nat) :=
  if pos < text.utf8ByteSize then do
    let step ← applyRules search dialect text pos Rule.priority
    if pos < step.pos then
      match step.kind with
      | none => next search dialect text step.pos
      | some kind => do
        let lexeme ← slice text pos step.pos
        return (some ⟨kind, lexeme, .ofOffsets pos step.pos⟩, step.pos)
    else .error .standstill
  else .ok (none, pos)
termination_by text.utf8ByteSize - pos

/-- The cursor after some calls of `next` from the start of the text. -/
def afterCalls (search : Search) (dialect : Dialect) (text : String) : Nat → Except Fault Nat
  | 0 => .ok 0
  | n + 1 => do
    let pos ← afterCalls search dialect text n
    let (_, pos) ← next search dialect text pos
    return pos

end Cursor

end TokenDump
