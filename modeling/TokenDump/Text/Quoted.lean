import TokenDump.Text.Visible

/-!
# Quoted text

Text between double quotes, as logs and messages show it. The double quote and the backslash are
escaped, NUL, tab, line feed and carriage return have short escapes, and any other character that is
not visible is written as `\u` with its number in braces.
-/

namespace TokenDump.Text

/-- A code point in base sixteen, in small letters and with no zeros in front. -/
def hexText (n : Nat) : List Char := Nat.toDigits 16 n

/-- A character as it stands between quotes. -/
def escapeChar (c : Char) : List Char :=
  match c with
  | '\x00' => ['\\', '0']
  | '\t' => ['\\', 't']
  | '\n' => ['\\', 'n']
  | '\r' => ['\\', 'r']
  | '"' => ['\\', '"']
  | '\\' => ['\\', '\\']
  | c => if isVisible c then [c] else ['\\', 'u', '\x7b'] ++ hexText c.toNat ++ ['\x7d']

/-- Text between double quotes. -/
def quote (s : String) : String := String.ofList ('"' :: s.toList.flatMap escapeChar ++ ['"'])

end TokenDump.Text
