import TokenDump.Json.Fault

/-!
# Reading words and strings

A reader takes what is left of a text and answers with what it read and what is left then, or with a
fault. Nothing is put back: what is left after a reader is never longer than before (the lemmas on
lengths), so whatever repeats readers ends.
-/

namespace TokenDump.Json

/-- What is read from the front of some characters, and the characters after it. -/
abbrev Reader (α : Type) := List Char → Except Fault (α × List Char)

theorem bind_eq_ok {α β : Type} {x : Except Fault α} {f : α → Except Fault β} {b : β} :
    x >>= f = .ok b ↔ ∃ a, x = .ok a ∧ f a = .ok b := by
  cases x <;> simp [bind, Except.bind]

/-- White space in JSON. -/
def isBlank (c : Char) : Bool := c == ' ' || c == '\t' || c == '\n' || c == '\r'

/-- The characters after any white space. -/
def skipBlank (cs : List Char) : List Char := cs.dropWhile isBlank

theorem length_skipBlank_le (cs : List Char) : (skipBlank cs).length ≤ cs.length :=
  (List.dropWhile_sublist _).length_le

/-- The characters after the rest of a word. -/
def skipWord : List Char → List Char → Except Fault (List Char)
  | [], cs => .ok cs
  | _ :: _, [] => .error (.here .endInValue [])
  | w :: ws, c :: cs => if c == w then skipWord ws cs else .error (.ahead .misspelt (c :: cs))

theorem length_skipWord_le {word cs rest : List Char} (h : skipWord word cs = .ok rest) :
    rest.length ≤ cs.length := by
  fun_induction skipWord word cs with
  | case1 => simp_all
  | case2 => simp at h
  | case3 w ws c cs _ ih => exact Nat.le_succ_of_le (ih h)
  | case4 => simp at h

/-! ## Escapes -/

/-- The value of a digit in base sixteen. -/
def hexValue? (c : Char) : Option Nat :=
  if c.isDigit then some (c.toNat - '0'.toNat)
  else if 'a' ≤ c && c ≤ 'f' then some (c.toNat - 'a'.toNat + 10)
  else if 'A' ≤ c && c ≤ 'F' then some (c.toNat - 'A'.toNat + 10)
  else none

/-- The number that four digits in base sixteen stand for. -/
def hexQuad? (a b c d : Char) : Option Nat := do
  return ((← hexValue? a) * 16 + (← hexValue? b)) * 256 + ((← hexValue? c) * 16 + (← hexValue? d))

/-- The fault where four digits in base sixteen should be and are not. Four bytes are read together:
where there are fewer, the text ends, and otherwise the place is after them. -/
def wrongQuad (cs : List Char) : Fault :=
  if byteLength cs < 4 then .here .endInString [] else ⟨.invalidEscape, byteLength cs - 4⟩

/-- The four digits in base sixteen after `\u`. -/
def readQuad (cs : List Char) : Except Fault (Nat × List Char) :=
  match cs with
  | a :: b :: c :: d :: rest =>
    match hexQuad? a b c d with
    | some n => .ok (n, rest)
    | none => .error (wrongQuad cs)
  | _ => .error (wrongQuad cs)

/-- The character of an escape that is one letter long. -/
def shortEscape? (c : Char) : Option Char :=
  match c with
  | '"' => some '"'
  | '\\' => some '\\'
  | '/' => some '/'
  | 'b' => some '\x08'
  | 'f' => some '\x0c'
  | 'n' => some '\n'
  | 'r' => some '\r'
  | 't' => some '\t'
  | _ => none

def isLowSurrogate (n : Nat) : Bool := 0xDC00 ≤ n && n ≤ 0xDFFF

def isHighSurrogate (n : Nat) : Bool := 0xD800 ≤ n && n ≤ 0xDBFF

/-- The second half of a pair of surrogates: `\u` and four digits. -/
def readLowSurrogate (high : Nat) : Reader Char
  | '\\' :: 'u' :: cs => do
    let (low, rest) ← readQuad cs
    if isLowSurrogate low then
      .ok (Char.ofNat ((high - 0xD800) * 0x400 + (low - 0xDC00) + 0x10000), rest)
    else .error (.here .loneSurrogate rest)
  | ['\\'] => .error (.here .endInString [])
  | '\\' :: cs => .error (.ahead .unexpectedEndOfEscape cs)
  | [] => .error (.here .endInString [])
  | cs => .error (.ahead .unexpectedEndOfEscape cs)

/-- The character of an escape, after its backslash. -/
def readEscape : Reader Char
  | [] => .error (.here .endInString [])
  | 'u' :: cs => do
    let (n, rest) ← readQuad cs
    if isLowSurrogate n then .error (.here .loneSurrogate rest)
    else if isHighSurrogate n then readLowSurrogate n rest
    else .ok (Char.ofNat n, rest)
  | c :: cs =>
    match shortEscape? c with
    | some e => .ok (e, cs)
    | none => .error (.ahead .invalidEscape (c :: cs))

/-- The characters after an escape whose meaning does not matter, after its backslash. -/
def skipEscape : List Char → Except Fault (List Char)
  | [] => .error (.here .endInString [])
  | 'u' :: cs => do
    let (_, rest) ← readQuad cs
    .ok rest
  | c :: cs => if (shortEscape? c).isSome then .ok cs else .error (.ahead .invalidEscape (c :: cs))

theorem length_readQuad_le {cs rest : List Char} {n : Nat} (h : readQuad cs = .ok (n, rest)) :
    rest.length ≤ cs.length := by
  simp only [readQuad] at h
  split at h
  · split at h
    · simp only [Except.ok.injEq, Prod.mk.injEq] at h
      simp only [← h.2, List.length_cons]
      omega
    · simp at h
  · simp at h

theorem length_readLowSurrogate_le {high : Nat} {cs rest : List Char} {c : Char}
    (h : readLowSurrogate high cs = .ok (c, rest)) : rest.length ≤ cs.length := by
  fun_cases readLowSurrogate high cs with
  | case1 cs =>
    simp only [readLowSurrogate, bind_eq_ok, Prod.exists] at h
    obtain ⟨low, later, hq, h⟩ := h
    have := length_readQuad_le hq
    grind
  | _ => simp_all [readLowSurrogate]

theorem length_readEscape_le {cs rest : List Char} {c : Char}
    (h : readEscape cs = .ok (c, rest)) : rest.length ≤ cs.length := by
  fun_cases readEscape cs with
  | case2 cs =>
    simp only [readEscape, bind_eq_ok, Prod.exists] at h
    obtain ⟨n, later, hq, h⟩ := h
    have := length_readQuad_le hq
    split at h
    · simp at h
    · split at h
      · have := length_readLowSurrogate_le h
        grind
      · grind
  | _ => grind [readEscape]

theorem length_skipEscape_le {cs rest : List Char} (h : skipEscape cs = .ok rest) :
    rest.length ≤ cs.length := by
  fun_cases skipEscape cs with
  | case2 cs =>
    simp only [skipEscape, bind_eq_ok, Prod.exists] at h
    obtain ⟨n, later, hq, h⟩ := h
    have := length_readQuad_le hq
    grind
  | _ => grind [skipEscape]

/-! ## Strings -/

/-- Characters that a string may not hold as they are. -/
def isControl (c : Char) : Bool := c.toNat < 0x20

/-- A string after its opening quote, with `read` in reverse in front of it. -/
def readStringAfter (read : List Char) (cs : List Char) : Except Fault (String × List Char) :=
  match cs with
  | [] => .error (.here .endInString [])
  | '"' :: cs => .ok (String.ofList read.reverse, cs)
  | '\\' :: cs =>
    match _h : readEscape cs with
    | .ok (c, rest) => readStringAfter (c :: read) rest
    | .error fault => .error fault
  | c :: cs =>
    if isControl c then .error (.ahead .controlCharacter (c :: cs))
    else readStringAfter (c :: read) cs
termination_by cs.length
decreasing_by
  · have := length_readEscape_le ‹_›
    simp only [List.length_cons]
    omega
  · simp

/-- A string after its opening quote. -/
def readString : Reader String := readStringAfter []

/-- The characters after a string that does not matter, after its opening quote. -/
def skipString (cs : List Char) : Except Fault (List Char) :=
  match cs with
  | [] => .error (.here .endInString [])
  | '"' :: cs => .ok cs
  | '\\' :: cs =>
    match _h : skipEscape cs with
    | .ok rest => skipString rest
    | .error fault => .error fault
  | c :: cs => if isControl c then .error (.here .controlCharacter (c :: cs)) else skipString cs
termination_by cs.length
decreasing_by
  · have := length_skipEscape_le ‹_›
    simp only [List.length_cons]
    omega
  · simp

theorem length_readStringAfter_lt {read cs rest : List Char} {s : String}
    (h : readStringAfter read cs = .ok (s, rest)) : rest.length < cs.length := by
  fun_induction readStringAfter read cs with
  | case3 read cs c later he ih =>
    have := length_readEscape_le he
    have := ih h
    grind
  | _ => grind

theorem length_readString_lt {cs rest : List Char} {s : String}
    (h : readString cs = .ok (s, rest)) : rest.length < cs.length :=
  length_readStringAfter_lt h

theorem length_skipString_lt {cs rest : List Char} (h : skipString cs = .ok rest) :
    rest.length < cs.length := by
  fun_induction skipString cs with
  | case3 cs later he ih =>
    have := length_skipEscape_le he
    have := ih h
    grind
  | _ => grind

end TokenDump.Json
