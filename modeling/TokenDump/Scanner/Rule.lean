import TokenDump.CharClass
import TokenDump.Token

/-!
# Lexical rules

A rule looks at the current character and at the text after it. Where it applies it answers with a
`Match`: the kind of the token, none for white space, and how many characters it takes after the
current one. A match always takes the current character, so scanning moves forward whatever the
rule. `Rule.priority` is the order in which the rules are tried; `firstMatch` tries them, and takes
the current character alone as an unknown token when no rule applies.
-/

namespace TokenDump

open CharClass

/-- The two choices that a text's dialect makes. -/
structure Dialect where
  /-- Numbers may have a `0x` in front, letters inside, and an exponent with a sign. -/
  extendedNumbers : Bool
  /-- The tokens `->` and `.` have kinds of their own. -/
  memberAccessKinds : Bool
  deriving DecidableEq, Repr, Inhabited

/-- The dialect with both choices off. -/
def Dialect.plain : Dialect := ⟨false, false⟩

/-- What a rule takes at a character. -/
structure Match where
  /-- The kind of the token; none for white space. -/
  kind : Option TokenKind
  /-- How many characters are taken after the current one. -/
  more : Nat
  /-- Whether a comment or literal has its end mark; true for all else. -/
  closed : Bool
  deriving DecidableEq, Repr

namespace Match

/-- White space. -/
def blank (more : Nat) : Match := ⟨none, more, true⟩

/-- A token that needs no end mark. -/
def token (kind : TokenKind) (more : Nat) : Match := ⟨some kind, more, true⟩

/-- A token that runs to its end mark, `more` characters on, or else through all of `cs`. -/
def delimited (kind : TokenKind) (cs : List Char) : Option Nat → Match
  | some more => ⟨some kind, more, true⟩
  | none => ⟨some kind, cs.length, false⟩

end Match

/-! ## How far a token reaches -/

/-- How many characters stand before the first line feed. -/
def lineLength (cs : List Char) : Nat := (cs.takeWhile (· != '\n')).length

/-- How many characters there are up to the first `*/`, itself included, on top of `n`. -/
def commentLength (n : Nat) : List Char → Option Nat
  | [] => none
  | '*' :: '/' :: _ => some (n + 2)
  | _ :: cs => commentLength (n + 1) cs

/-- How many characters there are up to the closing quote, itself included, on top of `n`. A
backslash hides the character after it, whatever that is. -/
def literalLength (quote : Char) (n : Nat) : List Char → Option Nat
  | [] => none
  | [c] => if c == quote then some (n + 1) else none
  | c :: d :: cs =>
    if c == quote then some (n + 1)
    else if c == '\\' then literalLength quote (n + 2) cs
    else literalLength quote (n + 1) (d :: cs)

/-- How many characters belong to an extended number that is not in base sixteen, on top of `n`,
after the character `before`. A sign belongs to it between an exponent mark and a digit. -/
def exponentLength (before : Char) (n : Nat) : List Char → Nat
  | [] => n
  | c :: cs =>
    if isExtendedNumberPart c ||
        (isExponentMark before && isSign c && cs.head?.any Char.isDigit) then
      exponentLength c (n + 1) cs
    else n

theorem commentLength_add (m n : Nat) (cs : List Char) :
    commentLength (m + n) cs = (commentLength m cs).map (· + n) := by
  fun_induction commentLength m cs with
  | case1 => rfl
  | case2 m cs => simp only [commentLength, Option.map_some, Nat.add_right_comm]
  | case3 m c cs _ ih => simpa only [commentLength, Nat.add_right_comm m n 1] using ih

theorem literalLength_add (quote : Char) (m n : Nat) (cs : List Char) :
    literalLength quote (m + n) cs = (literalLength quote m cs).map (· + n) := by
  fun_induction literalLength quote m cs <;>
    simp_all [literalLength, Nat.add_right_comm]

theorem exponentLength_add (before : Char) (m n : Nat) (cs : List Char) :
    exponentLength before (m + n) cs = exponentLength before m cs + n := by
  fun_induction exponentLength before m cs <;>
    simp_all [exponentLength, Nat.add_right_comm]

/-- How many characters of `cs` belong to the number that starts with the digit `c`. -/
def numberLength (dialect : Dialect) (c : Char) (cs : List Char) : Nat :=
  if !dialect.extendedNumbers then (cs.takeWhile isNumberPart).length
  else if c == '0' && (cs.head? == some 'x' || cs.head? == some 'X') then
    (cs.takeWhile isExtendedNumberPart).length
  else exponentLength c 0 cs

/-! ## The rules -/

/-- The lexical rules, but for the last resort of an unknown character. -/
inductive Rule where
  | whiteSpace
  | directive
  | operatorPair
  | lineComment
  | scopeResolution
  | blockComment
  | word
  | number
  | memberAccess
  | singleOperator
  | punctuation
  | stringLiteral
  | charLiteral
  deriving DecidableEq, Repr, Inhabited

namespace Rule

/-- The rules in the order they are tried. -/
def priority : List Rule :=
  [whiteSpace, directive, operatorPair, lineComment, scopeResolution, blockComment, word, number,
   memberAccess, singleOperator, punctuation, stringLiteral, charLiteral]

/-- What a rule takes at the character `c` with `cs` after it, if it applies there. -/
def apply (dialect : Dialect) (c : Char) (cs : List Char) : Rule → Option Match
  | whiteSpace => if isBlank c then some (.blank (cs.takeWhile isBlank).length) else none
  | directive => if c == '#' then some (.token .directive (lineLength cs)) else none
  | operatorPair =>
    match cs with
    | d :: _ => if isOperatorPair c d then some (.token .operator 1) else none
    | [] => none
  | lineComment =>
    match c, cs with
    | '/', '/' :: _ => some (.token .lineComment (lineLength cs))
    | _, _ => none
  | scopeResolution =>
    match c, cs with
    | ':', ':' :: _ => some (.token .scopeResolution 1)
    | _, _ => none
  | blockComment =>
    match c, cs with
    | '/', '*' :: body => some (.delimited .blockComment cs (commentLength 1 body))
    | _, _ => none
  | word =>
    if isWordStart c then
      let more := (cs.takeWhile isWordPart).length
      some (.token (.ofWord (String.ofList (c :: cs.take more))) more)
    else none
  | number => if c.isDigit then some (.token .number (numberLength dialect c cs)) else none
  | memberAccess =>
    match c, cs with
    | '-', '>' :: _ =>
      some (.token (if dialect.memberAccessKinds then .arrowAccess else .punctuation) 1)
    | '.', _ => some (.token (if dialect.memberAccessKinds then .dotAccess else .punctuation) 0)
    | _, _ => none
  | singleOperator => if isOperator c then some (.token .operator 0) else none
  | punctuation => if isPunctuation c then some (.token .punctuation 0) else none
  | stringLiteral =>
    if c == '"' then some (.delimited .stringLiteral cs (literalLength '"' 0 cs)) else none
  | charLiteral =>
    if c == '\'' then some (.delimited .charLiteral cs (literalLength '\'' 0 cs)) else none

end Rule

/-- What the first of some rules to apply takes; an unknown character when none applies. -/
def firstMatch (rules : List Rule) (dialect : Dialect) (c : Char) (cs : List Char) : Match :=
  (rules.findSome? (·.apply dialect c cs)).getD (.token .unknown 0)

end TokenDump
