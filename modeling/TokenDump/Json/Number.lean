import TokenDump.Json.Scalar

/-!
# Reading numbers

A number that matters is read into a significand of at most 64 bits; digits that no longer fit count
towards the exponent. A number that has neither fraction nor exponent and fits in 64 bits stays
whole, every other becomes a double: the significand times or divided by a power of ten. A number
that does not matter is only checked for its form.
-/

namespace TokenDump.Json

/-- A number as read: whole if it can be, or else a double. -/
inductive Number where
  | whole (n : Int)
  | real (x : Float)
  deriving Repr

/-- The greatest significand. -/
def significandLimit : Nat := 0xFFFFFFFFFFFFFFFF

/-- The greatest exponent that is computed with. -/
def exponentLimit : Nat := 0x7FFFFFFF

/-- The greatest power of ten that is a double. -/
def powerLimit : Nat := 308

def startsWithDigit (cs : List Char) : Bool := cs.head?.any Char.isDigit

def digitValue (c : Char) : Nat := c.toNat - '0'.toNat

/-- The significand that takes on digits for as long as it fits, and how many digits those are. -/
def absorb (significand taken : Nat) : List Char → Nat × Nat
  | [] => (significand, taken)
  | d :: ds =>
    let longer := significand * 10 + digitValue d
    if longer ≤ significandLimit then absorb longer (taken + 1) ds else (significand, taken)

/-- A double times a power of ten, which is applied in steps that are doubles; none if it is too
large. -/
def scaleByTen? (x : Float) (exponent : Int) : Option Float :=
  if exponent.natAbs ≤ powerLimit then
    let power := Float.ofScientific 1 false exponent.natAbs
    if 0 ≤ exponent then
      let y := x * power
      if y.isInf then none else some y
    else some (x / power)
  else if x == 0 then some x
  else if 0 ≤ exponent then none
  else scaleByTen? (x / Float.ofScientific 1 false powerLimit) (exponent + powerLimit)
termination_by exponent.natAbs
decreasing_by simp only [powerLimit] at *; omega

/-- The double that a significand and an exponent stand for. -/
def makeReal (positive : Bool) (significand : Nat) (exponent : Int) : Reader Number := fun cs =>
  match scaleByTen? significand.toUInt64.toFloat exponent with
  | none => .error (.here .numberOutOfRange cs)
  | some x => .ok (.real (if positive then x else -x), cs)

/-- The digits of an exponent on top of `exponent`, none if they pass the limit, and what follows
the last digit looked at. -/
def readExponentDigits (exponent : Nat) : List Char → Option Nat × List Char
  | [] => (some exponent, [])
  | c :: cs =>
    if c.isDigit then
      let longer := exponent * 10 + digitValue c
      if longer ≤ exponentLimit then readExponentDigits longer cs else (none, cs)
    else (some exponent, c :: cs)

/-- Whether a number after its exponent mark goes up, and the characters after the sign if any. -/
def readSign : List Char → Bool × List Char
  | '+' :: cs => (true, cs)
  | '-' :: cs => (false, cs)
  | cs => (true, cs)

/-- The rest of a number after its exponent mark. -/
def readExponent (positive : Bool) (significand : Nat) (exponent : Int) : Reader Number := fun cs =>
  let (up, cs) := readSign cs
  if cs.isEmpty then .error (.here .endInValue [])
  else if !startsWithDigit cs then .error (.ahead .invalidNumber cs)
  else
    match readExponentDigits 0 cs with
    | (some e, cs) => makeReal positive significand (if up then exponent + e else exponent - e) cs
    | (none, cs) =>
      if significand ≠ 0 && up then .error (.here .numberOutOfRange cs)
      else .ok (.real (if positive then 0 else -0), cs.dropWhile Char.isDigit)

/-- The rest of a number after its fraction, or where that would be. -/
def readAfterFraction (positive : Bool) (significand : Nat) (exponent : Int) : Reader Number
  | 'e' :: cs => readExponent positive significand exponent cs
  | 'E' :: cs => readExponent positive significand exponent cs
  | cs => makeReal positive significand exponent cs

/-- The rest of a number after its point. -/
def readFraction (positive : Bool) (significand : Nat) (exponent : Int) : Reader Number := fun cs =>
  if cs.isEmpty then .error (.here .endInValue [])
  else if !startsWithDigit cs then .error (.ahead .invalidNumber cs)
  else
    let (significand, taken) := absorb significand 0 (cs.takeWhile Char.isDigit)
    readAfterFraction positive significand (exponent - taken) (cs.dropWhile Char.isDigit)

/-- How far whole numbers go below zero. -/
def negativeLimit : Nat := 0x8000000000000000

/-- A whole number; zero with a minus sign, or one below the range of 64-bit words, is a double. -/
def makeWhole (positive : Bool) (n : Nat) : Number :=
  if positive then .whole n
  else if n = 0 ∨ negativeLimit < n then .real (-n.toUInt64.toFloat)
  else .whole (-n)

/-- A number after its minus sign, if any. -/
def readNumber (positive : Bool) : Reader Number
  | [] => .error (.here .endInValue [])
  | c :: cs =>
    if !c.isDigit then .error (.ahead .invalidNumber (c :: cs))
    else if c == '0' && startsWithDigit cs then .error (.ahead .invalidNumber cs)
    else
      let digits := (c :: cs).takeWhile Char.isDigit
      let (significand, taken) := absorb 0 0 digits
      let exponent : Int := digits.length - taken
      match (c :: cs).dropWhile Char.isDigit with
      | '.' :: cs => readFraction positive significand exponent cs
      | cs =>
        if exponent = 0 && cs.head? ≠ some 'e' && cs.head? ≠ some 'E' then
          .ok (makeWhole positive significand, cs)
        else readAfterFraction positive significand exponent cs

/-! ## Numbers that do not matter -/

/-- The characters after an exponent, or where one would be. -/
def skipExponent (cs : List Char) : Except Fault (List Char) :=
  if cs.head? = some 'e' ∨ cs.head? = some 'E' then
    let (_, cs) := readSign cs.tail
    if startsWithDigit cs then .ok (cs.dropWhile Char.isDigit)
    else .error (.ahead .invalidNumber cs)
  else .ok cs

/-- The characters after a fraction and an exponent, or where they would be. -/
def skipFraction : List Char → Except Fault (List Char)
  | '.' :: cs =>
    if startsWithDigit cs then skipExponent (cs.dropWhile Char.isDigit)
    else .error (.ahead .invalidNumber cs)
  | cs => skipExponent cs

/-- The characters after a number, which starts after its minus sign, if any. -/
def skipNumber : List Char → Except Fault (List Char)
  | [] => .error (.here .invalidNumber [])
  | c :: cs =>
    if !c.isDigit then .error (.ahead .invalidNumber (c :: cs))
    else if c == '0' then
      if startsWithDigit cs then .error (.ahead .invalidNumber cs) else skipFraction cs
    else skipFraction (cs.dropWhile Char.isDigit)

theorem length_readSign_le (cs : List Char) : (readSign cs).2.length ≤ cs.length := by
  fun_cases readSign cs <;> simp

theorem length_dropWhile_le (p : Char → Bool) (cs : List Char) :
    (cs.dropWhile p).length ≤ cs.length :=
  (List.dropWhile_sublist _).length_le

theorem length_skipExponent_le {cs rest : List Char} (h : skipExponent cs = .ok rest) :
    rest.length ≤ cs.length := by
  have := length_readSign_le cs.tail
  have := length_dropWhile_le Char.isDigit (readSign cs.tail).2
  have := cs.length_tail
  grind [skipExponent]

theorem length_skipFraction_le {cs rest : List Char} (h : skipFraction cs = .ok rest) :
    rest.length ≤ cs.length := by
  fun_cases skipFraction cs with
  | case1 cs hd =>
    rw [skipFraction, if_pos hd] at h
    have := length_skipExponent_le h
    have := length_dropWhile_le Char.isDigit cs
    simp only [List.length_cons]
    omega
  | case2 cs hd => simp [skipFraction, hd] at h
  | case3 cs hc => exact length_skipExponent_le (by simpa [skipFraction] using h)

theorem length_skipNumber_lt {cs rest : List Char} (h : skipNumber cs = .ok rest) :
    rest.length < cs.length := by
  match cs with
  | [] => simp [skipNumber] at h
  | c :: cs =>
    have := length_dropWhile_le Char.isDigit cs
    simp only [skipNumber] at h
    split at h
    · simp at h
    · split at h
      · split at h
        · simp at h
        · exact Nat.lt_succ_of_le (length_skipFraction_le h)
      · exact Nat.lt_succ_of_le (Nat.le_trans (length_skipFraction_le h) this)

end TokenDump.Json
