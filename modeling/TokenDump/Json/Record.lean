import TokenDump.Json.Skip

/-!
# Reading records

A record is read from an object, whose members may come in any order and be left out, or from a list
of all its fields in order. Members that the record does not know are skipped; one that it knows may
come only once. A value that is not of the type wanted is named in the fault.
-/

namespace TokenDump.Json

/-! ## Values of a wanted type -/

/-- The value in front, if only to say what it is. A list or an object is left unread. -/
def readMisfit : Reader Misfit
  | 'n' :: cs => do
    let rest ← skipWord ['u', 'l', 'l'] cs
    .ok (.null, rest)
  | 't' :: cs => do
    let rest ← skipWord ['r', 'u', 'e'] cs
    .ok (.boolean true, rest)
  | 'f' :: cs => do
    let rest ← skipWord ['a', 'l', 's', 'e'] cs
    .ok (.boolean false, rest)
  | '"' :: cs => do
    let (s, rest) ← readString cs
    .ok (.string s, rest)
  | '[' :: cs => .ok (.list, '[' :: cs)
  | '\x7b' :: cs => .ok (.object, '\x7b' :: cs)
  | '-' :: cs => ofNumber (readNumber false cs)
  | c :: cs =>
    if c.isDigit then ofNumber (readNumber true (c :: cs))
    else .error (.ahead .expectedValue (c :: cs))
  | [] => .error (.ahead .expectedValue [])
where
  ofNumber : Except Fault (Number × List Char) → Except Fault (Misfit × List Char)
    | .error fault => .error fault
    | .ok (.whole n, rest) => .ok (.integer n, rest)
    | .ok (.real x, rest) => .ok (.real x, rest)

/-- The fault of a value that is not as expected. -/
def misfit (expected : String) (cs : List Char) : Fault :=
  match readMisfit cs with
  | .ok (found, rest) => .here (.invalidType found expected) rest
  | .error fault => fault

/-- Reads `null` as none, and any other value by the reader given. -/
def readOptional {α : Type} (read : Reader α) : Reader (Option α) := fun cs =>
  match skipBlank cs with
  | 'n' :: cs => do
    let rest ← skipWord ['u', 'l', 'l'] cs
    .ok (none, rest)
  | cs => do
    let (a, rest) ← read cs
    .ok (some a, rest)

def readBool : Reader Bool := fun cs =>
  match skipBlank cs with
  | [] => .error (.ahead .endInValue [])
  | 't' :: cs => do
    let rest ← skipWord ['r', 'u', 'e'] cs
    .ok (true, rest)
  | 'f' :: cs => do
    let rest ← skipWord ['a', 'l', 's', 'e'] cs
    .ok (false, rest)
  | cs => .error (misfit "a boolean" cs)

theorem length_readOptional_le {α : Type} {read : Reader α}
    (hr : ∀ {cs a rest}, read cs = .ok (a, rest) → rest.length ≤ cs.length)
    {cs rest : List Char} {a : Option α} (h : readOptional read cs = .ok (a, rest)) :
    rest.length ≤ cs.length := by
  refine Nat.le_trans ?_ (length_skipBlank_le cs)
  simp only [readOptional] at h
  split at h
  · next hc =>
    simp only [bind_eq_ok] at h
    obtain ⟨later, hs, h⟩ := h
    have := length_skipWord_le hs
    grind
  · simp only [bind_eq_ok, Prod.exists] at h
    obtain ⟨b, later, hs, h⟩ := h
    have := hr hs
    grind

theorem length_readBool_le {cs rest : List Char} {b : Bool} (h : readBool cs = .ok (b, rest)) :
    rest.length ≤ cs.length := by
  refine Nat.le_trans ?_ (length_skipBlank_le cs)
  simp only [readBool] at h
  split at h
  · simp at h
  · simp only [bind_eq_ok] at h
    obtain ⟨later, hs, h⟩ := h
    have := length_skipWord_le hs
    grind
  · simp only [bind_eq_ok] at h
    obtain ⟨later, hs, h⟩ := h
    have := length_skipWord_le hs
    grind
  · simp at h

/-! ## Records -/

/-- A field of a record of type `α`: its name, and how its value changes a record. -/
structure Field (α : Type) where
  name : String
  read : Reader (α → α)
  length_le : ∀ {cs change rest}, read cs = .ok (change, rest) → rest.length ≤ cs.length

/-- A type of records. -/
structure Record (α : Type) where
  /-- The name of the type in messages. -/
  title : String
  fields : List (Field α)
  /-- The record with no field set. -/
  unset : α

/-- The field that sets an optional part. -/
def Field.optional {α β : Type} (name : String) (read : Reader β) (set : Option β → α → α)
    (length_le : ∀ {cs b rest}, read cs = .ok (b, rest) → rest.length ≤ cs.length) : Field α where
  name := name
  read cs := do
    let (b, rest) ← readOptional read cs
    .ok (set b, rest)
  length_le h := by
    simp only [bind_eq_ok, Prod.exists] at h
    obtain ⟨b, later, hb, h⟩ := h
    have := length_readOptional_le length_le hb
    grind

/-- What a list or an object goes on with. -/
inductive Turn where
  /-- Its closing bracket, with the characters after that. -/
  | closed (rest : List Char)
  /-- Another element, or another member after the opening quote of its name. -/
  | another (rest : List Char)

def nextElement (first : Bool) (cs : List Char) : Except Fault Turn :=
  match skipBlank cs with
  | [] => .error (.ahead .endInList [])
  | ']' :: cs => .ok (.closed cs)
  | c :: cs =>
    if first then .ok (.another (c :: cs))
    else if c == ',' then
      match skipBlank cs with
      | [] => .error (.ahead .endInValue [])
      | ']' :: cs => .error (.ahead .trailingComma (']' :: cs))
      | cs => .ok (.another cs)
    else .error (.ahead .expectedCommaInList (c :: cs))

def nextMember (first : Bool) (cs : List Char) : Except Fault Turn :=
  match skipBlank cs with
  | [] => .error (.ahead .endInObject [])
  | '\x7d' :: cs => .ok (.closed cs)
  | c :: cs =>
    if first then
      if c == '"' then .ok (.another cs) else .error (.ahead .nameNotString (c :: cs))
    else if c == ',' then
      match skipBlank cs with
      | [] => .error (.ahead .endInValue [])
      | '"' :: cs => .ok (.another cs)
      | '\x7d' :: cs => .error (.ahead .trailingComma ('\x7d' :: cs))
      | cs => .error (.ahead .nameNotString cs)
    else .error (.ahead .expectedCommaInObject (c :: cs))

/-- The characters after a list that holds all it should. -/
def endList (cs : List Char) : Except Fault (List Char) :=
  match skipBlank cs with
  | [] => .error (.ahead .endInList [])
  | ']' :: cs => .ok cs
  | ',' :: cs =>
    match skipBlank cs with
    | ']' :: cs => .error (.ahead .trailingComma (']' :: cs))
    | cs => .error (.ahead .trailingCharacters cs)
  | cs => .error (.ahead .trailingCharacters cs)

/-- Where the fault of a repeated member is put: after its name, and after the end of the object if
that comes next. -/
def afterRepeated (cs : List Char) : List Char :=
  match skipBlank cs with
  | '\x7d' :: cs => cs
  | cs => cs

variable {α : Type}

/-- The next member of an object, as its name and how it changes the record; none at the end. -/
def readMember (fields : List (Field α)) (seen : List String) (first : Bool) :
    Reader (Option (String × (α → α))) := fun cs => do
  match ← nextMember first cs with
  | .closed rest => .ok (none, rest)
  | .another cs =>
    let (name, cs) ← readString cs
    match fields.find? (·.name == name) with
    | none =>
      let cs ← skipColon cs
      let cs ← skipValue cs
      .ok (some (name, id), cs)
    | some field =>
      if seen.contains name then .error (.here (.duplicateField name) (afterRepeated cs))
      else
        let cs ← skipColon cs
        let (change, cs) ← field.read cs
        .ok (some (name, change), cs)

theorem length_nextElement_le {first : Bool} {cs : List Char} {t : Turn}
    (h : nextElement first cs = .ok t) :
    match t with
    | .closed rest => rest.length < cs.length
    | .another rest => rest.length ≤ cs.length := by
  have := length_skipBlank_le cs
  simp only [nextElement] at h
  split at h
  · simp at h
  · grind
  · next c cs' _ hc =>
    have := length_skipBlank_le cs'
    grind

theorem length_nextMember_lt {first : Bool} {cs : List Char} {t : Turn}
    (h : nextMember first cs = .ok t) :
    match t with
    | .closed rest => rest.length < cs.length
    | .another rest => rest.length < cs.length := by
  have := length_skipBlank_le cs
  simp only [nextMember] at h
  split at h
  · simp at h
  · grind
  · next c cs' _ hc =>
    have := length_skipBlank_le cs'
    grind

theorem length_endList_lt {cs rest : List Char} (h : endList cs = .ok rest) :
    rest.length < cs.length := by
  have := length_skipBlank_le cs
  grind [endList]

theorem length_readMember_lt {fields : List (Field α)} {seen : List String} {first : Bool}
    {cs rest : List Char} {m : Option (String × (α → α))}
    (h : readMember fields seen first cs = .ok (m, rest)) : rest.length < cs.length := by
  simp only [readMember, bind_eq_ok] at h
  obtain ⟨turn, ht, h⟩ := h
  have := length_nextMember_lt ht
  split at h
  · grind
  · simp only [bind_eq_ok, Prod.exists] at h
    obtain ⟨name, later, hn, h⟩ := h
    have := length_readString_lt hn
    split at h
    · simp only [bind_eq_ok] at h
      obtain ⟨afterColon, hc, afterValue, hv, h⟩ := h
      have := length_skipColon_lt hc
      have := length_skipValue_lt hv
      grind
    · next field _ =>
      split at h
      · simp at h
      · simp only [bind_eq_ok, Prod.exists] at h
        obtain ⟨afterColon, hc, change, afterValue, hv, h⟩ := h
        have := length_skipColon_lt hc
        have := field.length_le hv
        grind

/-- The members of an object that are left, applied to a record. -/
def readMembers (fields : List (Field α)) (seen : List String) (a : α) (cs : List Char) :
    Except Fault (α × List Char) :=
  match _h : readMember fields seen seen.isEmpty cs with
  | .error fault => .error fault
  | .ok (none, rest) => .ok (a, rest)
  | .ok (some (name, change), rest) => readMembers fields (name :: seen) (change a) rest
termination_by cs.length
decreasing_by exact length_readMember_lt ‹_›

/-- The elements of a list that are left, `index` of them having been read, applied to a record. -/
def readElements (expected : String) (index : Nat) (a : α) :
    List (Field α) → Reader α
  | [], cs => do
    let rest ← endList cs
    .ok (a, rest)
  | field :: fields, cs => do
    match ← nextElement (index == 0) cs with
    | .closed rest => .error (.here (.invalidLength index expected) rest)
    | .another cs =>
      let (change, cs) ← field.read cs
      readElements expected (index + 1) (change a) fields cs

/-- A record. -/
def Record.read (r : Record α) : Reader α := fun cs =>
  match skipBlank cs with
  | [] => .error (.ahead .endInValue [])
  | '[' :: cs =>
    readElements s!"struct {r.title} with {r.fields.length} elements" 0 r.unset r.fields cs
  | '\x7b' :: cs => readMembers r.fields [] r.unset cs
  | cs => .error (misfit s!"struct {r.title}" cs)

theorem length_readMembers_lt {fields : List (Field α)} {seen : List String} {a b : α}
    {cs rest : List Char} (h : readMembers fields seen a cs = .ok (b, rest)) :
    rest.length < cs.length := by
  fun_induction readMembers fields seen a cs with
  | case1 => simp at h
  | case2 seen a cs later hm =>
    have := length_readMember_lt hm
    grind
  | case3 seen a cs later name change hm ih =>
    have := length_readMember_lt hm
    exact Nat.lt_trans (ih h) this

theorem length_readElements_lt {expected : String} {index : Nat} {a b : α} {fields : List (Field α)}
    {cs rest : List Char} (h : readElements expected index a fields cs = .ok (b, rest)) :
    rest.length < cs.length := by
  induction fields generalizing index a cs with
  | nil =>
    simp only [readElements, bind_eq_ok] at h
    obtain ⟨later, he, h⟩ := h
    have := length_endList_lt he
    grind
  | cons field fields ih =>
    simp only [readElements, bind_eq_ok] at h
    obtain ⟨turn, ht, h⟩ := h
    have := length_nextElement_le ht
    split at h
    · simp at h
    · simp only [bind_eq_ok, Prod.exists] at h
      obtain ⟨change, later, hf, h⟩ := h
      have := field.length_le hf
      have := ih h
      grind

theorem Record.length_read_le (r : Record α) {cs rest : List Char} {a : α}
    (h : r.read cs = .ok (a, rest)) : rest.length ≤ cs.length := by
  have := length_skipBlank_le cs
  simp only [Record.read] at h
  split at h
  · simp at h
  · have := length_readElements_lt h
    grind
  · have := length_readMembers_lt h
    grind
  · simp at h

end TokenDump.Json
