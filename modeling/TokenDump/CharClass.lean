/-!
# Character classes

The classes of characters that the lexical rules ask about. All of them lie within ASCII: a
character from beyond belongs to none.
-/

namespace TokenDump.CharClass

/-- White space: space, tab, line feed, carriage return, vertical tab and form feed. -/
def isBlank (c : Char) : Bool :=
  c == ' ' || c == '\t' || c == '\n' || c == '\r' || c == '\x0b' || c == '\x0c'

/-- A letter or the underscore. -/
def isWordStart (c : Char) : Bool := c.isAlpha || c == '_'

/-- A letter, a digit or the underscore. -/
def isWordPart (c : Char) : Bool := c.isAlphanum || c == '_'

/-- A character that is an operator by itself. -/
def isOperator (c : Char) : Bool :=
  ['+', '-', '*', '/', '=', '<', '>', '!', '&', '|', '^', '%', '~'].contains c

/-- The operators of two characters. -/
def operatorPairs : List (Char × Char) :=
  [('<', '<'), ('>', '>'), ('<', '='), ('>', '='), ('=', '='), ('!', '='), ('+', '+'), ('-', '-'),
   ('*', '*')]

def isOperatorPair (c d : Char) : Bool := operatorPairs.contains (c, d)

/-- Any printable ASCII character but the space, letters, digits and the two quotes. -/
def isPunctuation (c : Char) : Bool :=
  '!' ≤ c && c ≤ '~' && !c.isAlphanum && c != '"' && c != '\''

/-- A character inside a number: a digit or a dot. -/
def isNumberPart (c : Char) : Bool := c.isDigit || c == '.'

/-- A character inside an extended number: a letter, a digit or a dot. -/
def isExtendedNumberPart (c : Char) : Bool := c.isAlphanum || c == '.'

/-- The mark in front of an exponent. -/
def isExponentMark (c : Char) : Bool := c == 'e' || c == 'E'

def isSign (c : Char) : Bool := c == '+' || c == '-'

end TokenDump.CharClass
