/-!
# JSON values and their layout

A tree of JSON values and its one written form: two spaces a level, a space after each colon, empty
lists and objects closed at once. In a string the quote, the backslash and the characters below the
space are escaped; all else stands for itself.
-/

namespace TokenDump.Json

/-- A JSON value. The numbers are those that a program writes: natural ones. -/
inductive Value where
  | null
  | bool (b : Bool)
  | number (n : Nat)
  | string (s : String)
  | array (items : List Value)
  | object (members : List (String × Value))
  deriving Repr

namespace Value

/-- One digit in base sixteen, in small letters. -/
def hexDigit (n : Nat) : Char := Nat.digitChar n

/-- A character as it stands in a string. -/
def escapeChar (c : Char) : List Char :=
  match c with
  | '"' => ['\\', '"']
  | '\\' => ['\\', '\\']
  | '\x08' => ['\\', 'b']
  | '\t' => ['\\', 't']
  | '\n' => ['\\', 'n']
  | '\x0c' => ['\\', 'f']
  | '\r' => ['\\', 'r']
  | c =>
    if c.toNat < 0x20 then
      ['\\', 'u', '0', '0', hexDigit (c.toNat / 16), hexDigit (c.toNat % 16)]
    else [c]

/-- A string with its quotes. -/
def quote (s : String) : String := String.ofList ('"' :: s.toList.flatMap escapeChar ++ ['"'])

/-- A new line, with the indentation of a level. -/
def newline (level : Nat) : String := String.ofList ('\n' :: List.replicate (2 * level) ' ')

mutual

/-- The written form of a value at some level, put after `text`. -/
def writeAfter (level : Nat) (text : String) : Value → String
  | null => text ++ "null"
  | bool true => text ++ "true"
  | bool false => text ++ "false"
  | number n => text ++ toString n
  | string s => text ++ quote s
  | array [] => text ++ "[]"
  | array (v :: vs) =>
    let text := writeAfter (level + 1) (text ++ "[" ++ newline (level + 1)) v
    writeItemsAfter (level + 1) text vs ++ newline level ++ "]"
  | object [] => text ++ "\x7b\x7d"
  | object ((name, v) :: ms) =>
    let text := text ++ "\x7b" ++ newline (level + 1) ++ quote name ++ ": "
    let text := writeAfter (level + 1) text v
    writeMembersAfter (level + 1) text ms ++ newline level ++ "\x7d"

/-- The items of a list but the first, each after a comma. -/
def writeItemsAfter (level : Nat) (text : String) : List Value → String
  | [] => text
  | v :: vs => writeItemsAfter level (writeAfter level (text ++ "," ++ newline level) v) vs

/-- The members of an object but the first, each after a comma. -/
def writeMembersAfter (level : Nat) (text : String) : List (String × Value) → String
  | [] => text
  | (name, v) :: ms =>
    let text := text ++ "," ++ newline level ++ quote name ++ ": "
    writeMembersAfter level (writeAfter level text v) ms

end

/-- The written form of a value. -/
def write (v : Value) : String := writeAfter 0 "" v

end Value

end TokenDump.Json
