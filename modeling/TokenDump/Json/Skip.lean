import TokenDump.Json.Number

/-!
# Skipping a value

A value that does not matter must be well formed, however deeply it nests. `skipStep` moves over one
word, number, string, bracket, comma or member name, with the open brackets in a list; `skipValue`
repeats it until the value is over.
-/

namespace TokenDump.Json

/-- An open bracket. -/
inductive Bracket where
  | list
  | object
  deriving DecidableEq, Repr

namespace Bracket

def closer : Bracket → Char
  | list => ']'
  | object => '\x7d'

/-- The cause when the text ends inside. -/
def ended : Bracket → Cause
  | list => .endInList
  | object => .endInObject

/-- The cause when a value is followed by something that neither goes on nor closes. -/
def unseparated : Bracket → Cause
  | list => .expectedCommaInList
  | object => .expectedCommaInObject

end Bracket

/-- What comes next while a value is skipped, and the brackets that are open around it. -/
inductive Expecting where
  | value (brackets : List Bracket)
  /-- A member name with its colon, inside an object. -/
  | name (outer : List Bracket)
  /-- What may follow an opening bracket. -/
  | opened (b : Bracket) (outer : List Bracket)
  /-- What may follow a value inside brackets. -/
  | separator (b : Bracket) (outer : List Bracket)
  deriving DecidableEq, Repr

namespace Expecting

/-- After a whole value: a separator, if a bracket is open. -/
def afterValue? : List Bracket → Option Expecting
  | [] => none
  | b :: outer => some (separator b outer)

/-- After a comma: a value in a list, a member in an object. -/
def afterComma : Bracket → List Bracket → Expecting
  | .list, outer => value (.list :: outer)
  | .object, outer => name outer

end Expecting

/-- The characters after a value that starts with `c` and is no list or object. -/
def skipScalar (c : Char) (cs : List Char) : Except Fault (List Char) :=
  if c == 'n' then skipWord ['u', 'l', 'l'] cs
  else if c == 't' then skipWord ['r', 'u', 'e'] cs
  else if c == 'f' then skipWord ['a', 'l', 's', 'e'] cs
  else if c == '"' then skipString cs
  else if c == '-' then skipNumber cs
  else if c.isDigit then skipNumber (c :: cs)
  else .error (.ahead .expectedValue (c :: cs))

/-- Moves over a word, number or string, or over an opening bracket. -/
def skipItem (brackets : List Bracket) : Reader (Option Expecting)
  | [] => .error (.ahead .endInValue [])
  | '[' :: cs => .ok (some (.opened .list brackets), cs)
  | '\x7b' :: cs => .ok (some (.opened .object brackets), cs)
  | c :: cs => do
    let rest ← skipScalar c cs
    .ok (Expecting.afterValue? brackets, rest)

/-- Moves over the colon between a member's name and its value. -/
def skipColon (cs : List Char) : Except Fault (List Char) :=
  match skipBlank cs with
  | [] => .error (.ahead .endInObject [])
  | ':' :: cs => .ok cs
  | cs => .error (.ahead .expectedColon cs)

/-- Moves over a member name and its colon. -/
def skipName (outer : List Bracket) : Reader (Option Expecting)
  | [] => .error (.ahead .endInObject [])
  | '"' :: cs => do
    let cs ← skipString cs
    let cs ← skipColon cs
    .ok (some (.value (.object :: outer)), cs)
  | cs => .error (.ahead .nameNotString cs)

/-- Moves over one item of a value, and answers what is expected after it; none when the value is
over. -/
def skipStep (expecting : Expecting) (cs : List Char) :
    Except Fault (Option Expecting × List Char) :=
  match expecting, skipBlank cs with
  | .value brackets, cs => skipItem brackets cs
  | .name outer, cs => skipName outer cs
  | .opened b _, [] => .error (.ahead b.ended [])
  | .opened b outer, c :: cs =>
    if c == b.closer then .ok (Expecting.afterValue? outer, cs)
    else
      match b with
      | .list => skipItem (.list :: outer) (c :: cs)
      | .object => skipName outer (c :: cs)
  | .separator b _, [] => .error (.ahead b.ended [])
  | .separator b outer, c :: cs =>
    if c == b.closer then .ok (Expecting.afterValue? outer, cs)
    else if c == ',' then .ok (some (Expecting.afterComma b outer), cs)
    else .error (.ahead b.unseparated (c :: cs))

theorem length_skipScalar_le {c : Char} {cs rest : List Char} (h : skipScalar c cs = .ok rest) :
    rest.length ≤ cs.length := by
  simp only [skipScalar] at h
  split at h
  · exact length_skipWord_le h
  · split at h
    · exact length_skipWord_le h
    · split at h
      · exact length_skipWord_le h
      · split at h
        · exact Nat.le_of_lt (length_skipString_lt h)
        · split at h
          · exact Nat.le_of_lt (length_skipNumber_lt h)
          · split at h
            · exact Nat.le_of_lt_succ (length_skipNumber_lt h)
            · simp at h

theorem length_skipItem_lt {brackets : List Bracket} {cs rest : List Char} {e : Option Expecting}
    (h : skipItem brackets cs = .ok (e, rest)) : rest.length < cs.length := by
  fun_cases skipItem brackets cs with
  | case4 c cs _ _ =>
    simp only [skipItem, bind_eq_ok] at h
    obtain ⟨later, hs, h⟩ := h
    have := length_skipScalar_le hs
    grind
  | _ => grind [skipItem]

theorem length_skipColon_lt {cs rest : List Char} (h : skipColon cs = .ok rest) :
    rest.length < cs.length := by
  have := length_skipBlank_le cs
  grind [skipColon]

theorem length_skipName_lt {outer : List Bracket} {cs rest : List Char} {e : Option Expecting}
    (h : skipName outer cs = .ok (e, rest)) : rest.length < cs.length := by
  fun_cases skipName outer cs with
  | case2 cs =>
    simp only [skipName, bind_eq_ok] at h
    obtain ⟨afterName, hn, afterColon, hc, h⟩ := h
    have := length_skipString_lt hn
    have := length_skipColon_lt hc
    grind
  | _ => grind [skipName]

theorem length_skipStep_lt {expecting : Expecting} {cs rest : List Char} {e : Option Expecting}
    (h : skipStep expecting cs = .ok (e, rest)) : rest.length < cs.length := by
  refine Nat.lt_of_lt_of_le ?_ (length_skipBlank_le cs)
  simp only [skipStep] at h
  split at h
  · exact length_skipItem_lt h
  · exact length_skipName_lt h
  · simp at h
  · next b outer c rest' hc =>
    rw [hc]
    split at h
    · grind
    · split at h
      · exact length_skipItem_lt h
      · exact length_skipName_lt h
  · simp at h
  · grind

/-- The characters after what is expected and all that it leads to. -/
def skipFrom (expecting : Expecting) (cs : List Char) : Except Fault (List Char) :=
  match _h : skipStep expecting cs with
  | .error fault => .error fault
  | .ok (none, rest) => .ok rest
  | .ok (some next, rest) => skipFrom next rest
termination_by cs.length
decreasing_by exact length_skipStep_lt ‹_›

/-- The characters after a value. -/
def skipValue (cs : List Char) : Except Fault (List Char) := skipFrom (.value []) cs

theorem length_skipFrom_lt {expecting : Expecting} {cs rest : List Char}
    (h : skipFrom expecting cs = .ok rest) : rest.length < cs.length := by
  fun_induction skipFrom expecting cs with
  | case1 => simp at h
  | case2 expecting cs later hs =>
    have := length_skipStep_lt hs
    grind
  | case3 expecting cs later next hs ih =>
    have := length_skipStep_lt hs
    exact Nat.lt_trans (ih h) this

theorem length_skipValue_lt {cs rest : List Char} (h : skipValue cs = .ok rest) :
    rest.length < cs.length :=
  length_skipFrom_lt h

end TokenDump.Json
