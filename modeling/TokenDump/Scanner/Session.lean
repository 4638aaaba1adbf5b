import TokenDump.Scanner.Basic

/-!
# Sessions

A session answers requests to one scanner, each from where the one before stopped. Past the last
token a request for a token answers none. `rest` hands over all that is left and closes the session:
later requests are refused until `reopen` starts on a new text.
-/

namespace TokenDump

namespace Scanner

/-- The scanner at the end of its text. -/
def atEnd (s : Scanner) : Scanner :=
  { s with rest := [], offset := s.offset + (String.ofList s.rest).utf8ByteSize }

/-- The tokens from here on. -/
def tokens (s : Scanner) : List Token := s.finds.map (·.token)

/-- The next token, and the scanner after it. -/
def next (s : Scanner) : Option Token × Scanner :=
  match s.next? with
  | none => (none, s.atEnd)
  | some f => (some f.token, f.after)

/-- The token after `n` others, and the scanner after it. -/
def nth (s : Scanner) : Nat → Option Token × Scanner
  | 0 => s.next
  | n + 1 =>
    match s.next? with
    | none => (none, s.atEnd)
    | some f => f.after.nth n

/-- The next `n` tokens, fewer if the text ends, and the scanner after them. -/
def take (s : Scanner) : Nat → List Token × Scanner
  | 0 => ([], s)
  | n + 1 =>
    match s.next? with
    | none => ([], s.atEnd)
    | some f =>
      let (later, stop) := f.after.take n
      (f.token :: later, stop)

/-- The first token of a kind of that name, and the scanner after it. -/
def seek (s : Scanner) (name : String) : Option Token × Scanner :=
  match _h : s.next? with
  | none => (none, s.atEnd)
  | some f => if f.token.kind.name == name then (some f.token, f.after) else f.after.seek name
termination_by s.rest.length
decreasing_by exact length_after_lt ‹_›

/-- How many tokens are left. -/
def count (s : Scanner) : Nat × Scanner := (s.finds.length, s.atEnd)

/-- The last token. -/
def last (s : Scanner) : Option Token × Scanner := (s.tokens.getLast?, s.atEnd)

end Scanner

/-- What a session can be asked for. -/
inductive Request where
  | next
  | nth (n : Nat)
  | take (n : Nat)
  | seek (name : String)
  | count
  | last
  | rest
  | reopen (text : String) (dialect : Dialect)
  deriving DecidableEq, Repr

/-- What a session answers. -/
inductive Answer where
  | token (t : Option Token)
  | tokens (ts : List Token)
  | count (n : Nat)
  | opened
  /-- The scanner has been handed over. -/
  | closed
  deriving DecidableEq, Repr

/-- A scanner, or none once it has been handed over. -/
abbrev Session := Option Scanner

namespace Session

/-- One answer, and the session after it. -/
def step : Session → Request → Answer × Session
  | _, .reopen text dialect => (.opened, some (.ofText text dialect))
  | none, _ => (.closed, none)
  | some s, .next => let (t, s) := s.next; (.token t, some s)
  | some s, .nth n => let (t, s) := s.nth n; (.token t, some s)
  | some s, .take n => let (ts, s) := s.take n; (.tokens ts, some s)
  | some s, .seek name => let (t, s) := s.seek name; (.token t, some s)
  | some s, .count => let (n, s) := s.count; (.count n, some s)
  | some s, .last => let (t, s) := s.last; (.token t, some s)
  | some s, .rest => (.tokens s.tokens, none)

/-- The answers to some requests in turn. -/
def run : Session → List Request → List Answer
  | _, [] => []
  | session, r :: rs =>
    let (answer, session) := session.step r
    answer :: run session rs

end Session

end TokenDump
