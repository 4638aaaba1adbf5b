/-!
# Keywords

The reserved words of the scanned language. `Keyword.all` lists them in alphabetical order, which is
also their order and their numbering; `Keyword.ofWord?` looks a word up and `Keyword.word` spells
it.
-/

namespace TokenDump

/-- A reserved word. -/
inductive Keyword where
  | kwAsm | kwAuto | kwBool | kwBreak | kwCase | kwCatch | kwChar | kwClass | kwConst | kwContinue
  | kwDefault | kwDelete | kwDo | kwDouble | kwElse | kwEnum | kwExtern | kwFloat | kwFor | kwFriend
  | kwGoto | kwIf | kwInline | kwInt | kwLong | kwNamespace | kwNew | kwOverride | kwPrivate
  | kwProtected | kwPublic | kwRegister | kwReturn | kwShort | kwSigned | kwSizeof | kwStatic
  | kwStruct | kwSwitch | kwTemplate | kwThis | kwThrow | kwTry | kwTypedef | kwUnion | kwUnsigned
  | kwUsing | kwVirtual | kwVoid | kwVolatile | kwWhile
  deriving DecidableEq, Repr, Inhabited

namespace Keyword

/-- Every keyword, in alphabetical order. -/
def all : List Keyword :=
  [kwAsm, kwAuto, kwBool, kwBreak, kwCase, kwCatch, kwChar, kwClass, kwConst, kwContinue,
   kwDefault, kwDelete, kwDo, kwDouble, kwElse, kwEnum, kwExtern, kwFloat, kwFor, kwFriend,
   kwGoto, kwIf, kwInline, kwInt, kwLong, kwNamespace, kwNew, kwOverride, kwPrivate,
   kwProtected, kwPublic, kwRegister, kwReturn, kwShort, kwSigned, kwSizeof, kwStatic,
   kwStruct, kwSwitch, kwTemplate, kwThis, kwThrow, kwTry, kwTypedef, kwUnion, kwUnsigned,
   kwUsing, kwVirtual, kwVoid, kwVolatile, kwWhile]

/-- The keyword as it is written in source text. -/
def word : Keyword → String
  | kwAsm => "asm"
  | kwAuto => "auto"
  | kwBool => "bool"
  | kwBreak => "break"
  | kwCase => "case"
  | kwCatch => "catch"
  | kwChar => "char"
  | kwClass => "class"
  | kwConst => "const"
  | kwContinue => "continue"
  | kwDefault => "default"
  | kwDelete => "delete"
  | kwDo => "do"
  | kwDouble => "double"
  | kwElse => "else"
  | kwEnum => "enum"
  | kwExtern => "extern"
  | kwFloat => "float"
  | kwFor => "for"
  | kwFriend => "friend"
  | kwGoto => "goto"
  | kwIf => "if"
  | kwInline => "inline"
  | kwInt => "int"
  | kwLong => "long"
  | kwNamespace => "namespace"
  | kwNew => "new"
  | kwOverride => "override"
  | kwPrivate => "private"
  | kwProtected => "protected"
  | kwPublic => "public"
  | kwRegister => "register"
  | kwReturn => "return"
  | kwShort => "short"
  | kwSigned => "signed"
  | kwSizeof => "sizeof"
  | kwStatic => "static"
  | kwStruct => "struct"
  | kwSwitch => "switch"
  | kwTemplate => "template"
  | kwThis => "this"
  | kwThrow => "throw"
  | kwTry => "try"
  | kwTypedef => "typedef"
  | kwUnion => "union"
  | kwUnsigned => "unsigned"
  | kwUsing => "using"
  | kwVirtual => "virtual"
  | kwVoid => "void"
  | kwVolatile => "volatile"
  | kwWhile => "while"

/-- The place of a keyword in `all`, counted from 0. -/
def index (k : Keyword) : Nat := all.idxOf k

/-- The keyword spelt by a word, if the word is reserved. Case matters. -/
def ofWord? (w : String) : Option Keyword := all.find? (·.word == w)

/-- The kind name of a keyword in a dump: `TOK_` and the word in capitals. -/
def tokenName (k : Keyword) : String := "TOK_" ++ String.ofList (k.word.toList.map Char.toUpper)

/-- The word with a capital initial. -/
def tag (k : Keyword) : String := k.word.capitalize

/-- The keywords among some words, in alphabetical order; a repeated word stays repeated. -/
def sortWords (words : List String) : List Keyword :=
  (words.filterMap ofWord?).mergeSort (fun a b => a.index ≤ b.index)

theorem mem_all (k : Keyword) : k ∈ all := by cases k <;> decide

theorem word_of_ofWord? {w : String} {k : Keyword} (h : ofWord? w = some k) : k.word = w := by
  simpa using List.find?_some h

theorem ofWord?_word (k : Keyword) : ofWord? k.word = some k := by
  have spelt : ∀ k ∈ all, ofWord? k.word = some k := by decide +kernel
  exact spelt k (mem_all k)

end Keyword

end TokenDump
