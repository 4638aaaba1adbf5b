import TokenDump.Json.Scalar
import TokenDump.Proofs.Text.Runs

/-!
# The grammar of JSON

`Spells d cs rest` says that the text `cs` starts with a JSON value `d` and goes on with `rest`. It is the
whole grammar and not only what a program writes: white space between any two parts, numbers with a
fraction and an exponent, and every escape. A string is a list of UTF-16 code units, since an escape may
stand for half of a character, and a number is a rational.

The grammar is unambiguous (`Spells.unique`): a text starts with one value at most, if a number is not
followed by more of a number. So a text is a list of documents in one way at most if all of them are
lists (`Documents.unique`).
-/

namespace TokenDump.Json
open Text

/-- A JSON value, whoever wrote it. -/
inductive Datum where
  | null
  | bool (b : Bool)
  | number (q : ℚ)
  | string (units : List Nat)
  | array (items : List Datum)
  | object (members : List (List Nat × Datum))

/-! ## White space -/

/-- There is only white space in front of `rest`. -/
def Skips (cs rest : List Char) : Prop := ∃ w, (∀ c ∈ w, isBlank c = true) ∧ cs = w ++ rest

/-! ## Numbers -/

/-- A run of digits, of one at least. -/
def Digits (w : List Char) : Prop := w ≠ [] ∧ ∀ c ∈ w, c.isDigit = true

/-- The digits before the point: no zero stands in front of another. -/
def Whole (w : List Char) : Prop := Digits w ∧ (w.head? = some '0' → w = ['0'])

/-- The number that digits stand for. -/
def decimal (w : List Char) : Nat := Nat.ofDigitChars 10 w 0

/-- The digits of a fraction, and how it is written. -/
inductive Fraction : List Char → List Char → Prop
  | none : Fraction [] []
  | point {ds : List Char} (h : Digits ds) : Fraction ds ('.' :: ds)

/-- An exponent, and how it is written. -/
inductive Exponent : ℤ → List Char → Prop
  | none : Exponent 0 []
  | bare {mark : Char} {ds : List Char} (hmark : mark = 'e' ∨ mark = 'E') (h : Digits ds) :
      Exponent (decimal ds) (mark :: ds)
  | plus {mark : Char} {ds : List Char} (hmark : mark = 'e' ∨ mark = 'E') (h : Digits ds) :
      Exponent (decimal ds) (mark :: '+' :: ds)
  | minus {mark : Char} {ds : List Char} (hmark : mark = 'e' ∨ mark = 'E') (h : Digits ds) :
      Exponent (-decimal ds) (mark :: '-' :: ds)

/-- A number without a sign, and how it is written. -/
inductive Unsigned : ℚ → List Char → Prop
  | mk {ds fs f x : List Char} {e : ℤ} (hwhole : Whole ds) (hfraction : Fraction fs f)
      (hexponent : Exponent e x) :
      Unsigned (decimal (ds ++ fs) * 10 ^ (e - fs.length)) (ds ++ (f ++ x))

/-- A number, and how it is written. -/
inductive Numeral : ℚ → List Char → Prop
  | positive {q : ℚ} {w : List Char} (h : Unsigned q w) : Numeral q w
  | negative {q : ℚ} {w : List Char} (h : Unsigned q w) : Numeral (-q) ('-' :: w)

/-! ## Strings -/

/-- The UTF-16 code units of a character: one, or a pair of surrogates. -/
def utf16 (c : Char) : List Nat :=
  if c.toNat < 0x10000 then [c.toNat]
  else [0xD800 + (c.toNat - 0x10000) / 0x400, 0xDC00 + (c.toNat - 0x10000) % 0x400]

/-- The code units of a text. -/
def units (s : String) : List Nat := s.toList.flatMap utf16

/-- A character that stands for itself in a string. -/
def Unescaped (c : Char) : Prop := isControl c = false ∧ c ≠ '"' ∧ c ≠ '\\'

/-- A string from behind its opening quote. -/
inductive SpellsString : List Nat → List Char → List Char → Prop
  | close {rest : List Char} : SpellsString [] ('"' :: rest) rest
  | plain {c : Char} {us : List Nat} {cs rest : List Char} (hc : Unescaped c)
      (later : SpellsString us cs rest) : SpellsString (utf16 c ++ us) (c :: cs) rest
  | short {e c : Char} {us : List Nat} {cs rest : List Char} (he : shortEscape? e = some c)
      (later : SpellsString us cs rest) : SpellsString (c.toNat :: us) ('\\' :: e :: cs) rest
  | unit {a b c d : Char} {n : Nat} {us : List Nat} {cs rest : List Char}
      (hn : hexQuad? a b c d = some n) (later : SpellsString us cs rest) :
      SpellsString (n :: us) ('\\' :: 'u' :: a :: b :: c :: d :: cs) rest

/-! ## Values -/

mutual

/-- A value, and what comes behind it. -/
inductive Spells : Datum → List Char → List Char → Prop
  | null {rest : List Char} : Spells .null ('n' :: 'u' :: 'l' :: 'l' :: rest) rest
  | isTrue {rest : List Char} : Spells (.bool true) ('t' :: 'r' :: 'u' :: 'e' :: rest) rest
  | isFalse {rest : List Char} : Spells (.bool false) ('f' :: 'a' :: 'l' :: 's' :: 'e' :: rest) rest
  | number {q : ℚ} {w cs rest : List Char} (h : Numeral q w) (hcs : cs = w ++ rest) :
      Spells (.number q) cs rest
  | string {us : List Nat} {cs rest : List Char} (h : SpellsString us cs rest) :
      Spells (.string us) ('"' :: cs) rest
  | emptyArray {cs rest : List Char} (h : Skips cs (']' :: rest)) :
      Spells (.array []) ('[' :: cs) rest
  | array {d : Datum} {ds : List Datum} {cs first later rest : List Char} (hblank : Skips cs first)
      (hd : Spells d first later) (hds : SpellsItems ds later rest) :
      Spells (.array (d :: ds)) ('[' :: cs) rest
  | emptyObject {cs rest : List Char} (h : Skips cs ('\x7d' :: rest)) :
      Spells (.object []) ('\x7b' :: cs) rest
  | object {name : List Nat} {d : Datum} {ms : List (List Nat × Datum)}
      {cs first later rest : List Char} (hblank : Skips cs first)
      (hm : SpellsMember name d first later) (hms : SpellsMembers ms later rest) :
      Spells (.object ((name, d) :: ms)) ('\x7b' :: cs) rest

/-- The items of a list but the first, each after a comma, and the closing bracket. -/
inductive SpellsItems : List Datum → List Char → List Char → Prop
  | close {cs rest : List Char} (h : Skips cs (']' :: rest)) : SpellsItems [] cs rest
  | item {d : Datum} {ds : List Datum} {cs behind first later rest : List Char}
      (hcomma : Skips cs (',' :: behind)) (hblank : Skips behind first) (hd : Spells d first later)
      (hds : SpellsItems ds later rest) : SpellsItems (d :: ds) cs rest

/-- The name of a member, a colon, and a value. -/
inductive SpellsMember : List Nat → Datum → List Char → List Char → Prop
  | mk {name : List Nat} {d : Datum} {cs after behind first rest : List Char}
      (hname : SpellsString name cs after) (hcolon : Skips after (':' :: behind))
      (hblank : Skips behind first) (hd : Spells d first rest) :
      SpellsMember name d ('"' :: cs) rest

/-- The members of an object but the first, each after a comma, and the closing brace. -/
inductive SpellsMembers : List (List Nat × Datum) → List Char → List Char → Prop
  | close {cs rest : List Char} (h : Skips cs ('\x7d' :: rest)) : SpellsMembers [] cs rest
  | member {name : List Nat} {d : Datum} {ms : List (List Nat × Datum)}
      {cs behind first later rest : List Char} (hcomma : Skips cs (',' :: behind))
      (hblank : Skips behind first) (hm : SpellsMember name d first later)
      (hms : SpellsMembers ms later rest) : SpellsMembers ((name, d) :: ms) cs rest

end

/-- Documents one after the other, each a value and the white space behind it. -/
inductive Documents : List (Datum × List Char) → List Char → Prop
  | nil : Documents [] []
  | document {d : Datum} {w cs later : List Char} {ds : List (Datum × List Char)}
      (hd : Spells d cs (w ++ later)) (hblank : ∀ c ∈ w, isBlank c = true)
      (hds : Documents ds later) : Documents ((d, w) :: ds) cs

/-! ## Numbers are unambiguous -/

section Numbers
variable {q q' : ℚ} {e e' : ℤ} {ds ds' f f' x x' w w' : List Char}

theorem not_digits_cons {c : Char} (hc : c.isDigit = false) : ¬ Digits (c :: ds) := by
  intro h
  have hdigit := h.2 c List.mem_cons_self
  rw [hc] at hdigit
  cases hdigit

theorem Exponent.unique (h : Exponent e x) (h' : Exponent e' x) : e = e' := by
  cases h with
  | none =>
    cases h'
    rfl
  | bare _ hds =>
    cases h' with
    | bare => rfl
    | plus => exact absurd hds (not_digits_cons rfl)
    | minus => exact absurd hds (not_digits_cons rfl)
  | plus =>
    cases h' with
    | bare _ hds => exact absurd hds (not_digits_cons rfl)
    | plus => rfl
  | minus =>
    cases h' with
    | bare _ hds => exact absurd hds (not_digits_cons rfl)
    | minus => rfl

/-- An exponent starts with its mark. -/
theorem Exponent.stops {p : Char → Bool} (h : Exponent e x) (he : p 'e' = false)
    (hE : p 'E' = false) : Stops p x := by
  cases h with
  | none => exact stops_nil
  | bare hmark | plus hmark | minus hmark =>
    rw [stops_cons]
    rcases hmark with rfl | rfl
    · exact he
    · exact hE

theorem Fraction.unique (h : Fraction ds f) (h' : Fraction ds' f') (hx : Exponent e x)
    (hx' : Exponent e' x') (heq : f ++ x = f' ++ x') : ds = ds' ∧ x = x' := by
  have hpoint : ∀ {e : ℤ} {x r : List Char}, Exponent e x → x ≠ '.' :: r := by
    rintro e x r hx rfl
    have hdot := stops_cons.1 (hx.stops (p := (· == '.')) rfl rfl)
    cases hdot
  cases h with
  | none =>
    cases h' with
    | none => exact ⟨rfl, heq⟩
    | point => exact absurd heq (hpoint hx)
  | point hds =>
    cases h' with
    | none => exact absurd heq.symm (hpoint hx')
    | point hds' =>
      exact run_unique hds.2 hds'.2 (hx.stops rfl rfl) (hx'.stops rfl rfl) (List.cons.inj heq).2

theorem Fraction.stops (h : Fraction ds f) (hx : Exponent e x) : Stops Char.isDigit (f ++ x) := by
  cases h with
  | none => exact hx.stops rfl rfl
  | point => exact stops_cons.2 rfl

theorem Unsigned.unique (h : Unsigned q w) (h' : Unsigned q' w') (heq : w = w') : q = q' := by
  obtain ⟨hds, hf, hx⟩ := h
  obtain ⟨hds', hf', hx'⟩ := h'
  obtain ⟨rfl, hrest⟩ := run_unique hds.1.2 hds'.1.2 (hf.stops hx) (hf'.stops hx') heq
  obtain ⟨rfl, rfl⟩ := hf.unique hf' hx hx' hrest
  rw [hx.unique hx']

/-- A number without a sign starts with a digit. -/
theorem Unsigned.exists_cons (h : Unsigned q w) : ∃ c v, w = c :: v ∧ c.isDigit = true := by
  obtain ⟨⟨⟨hne, hds⟩, -⟩, -, -⟩ := h
  obtain ⟨c, v, rfl⟩ := List.exists_cons_of_ne_nil hne
  exact ⟨c, _, rfl, hds c List.mem_cons_self⟩

theorem Numeral.unique (h : Numeral q w) (h' : Numeral q' w) : q = q' := by
  have hminus : ∀ {q : ℚ} {v : List Char}, ¬ Unsigned q ('-' :: v) := by
    intro q v h
    obtain ⟨c, v', hv, hc⟩ := h.exists_cons
    rw [← (List.cons.inj hv).1] at hc
    cases hc
  cases h with
  | positive h =>
    cases h' with
    | positive h' => exact h.unique h' rfl
    | negative => exact absurd h hminus
  | negative h =>
    cases h' with
    | positive h' => exact absurd h' hminus
    | negative h' => rw [h.unique h' rfl]

/-- A character that may belong to a number. -/
def isNumeralPart (c : Char) : Bool := c.isDigit || ['-', '+', '.', 'e', 'E'].contains c

theorem isNumeralPart_of_isDigit {c : Char} (h : c.isDigit = true) : isNumeralPart c = true := by
  rw [isNumeralPart, h, Bool.true_or]

theorem Unsigned.isNumeralPart (h : Unsigned q w) : ∀ c ∈ w, isNumeralPart c = true := by
  obtain ⟨hds, hf, hx⟩ := h
  have hdigits : ∀ {v : List Char}, Digits v → ∀ c ∈ v, Json.isNumeralPart c = true :=
    fun hv c hc => isNumeralPart_of_isDigit (hv.2 c hc)
  have hmarks : ∀ {c : Char}, c = 'e' ∨ c = 'E' → Json.isNumeralPart c = true := by
    rintro c (rfl | rfl) <;> rfl
  simp only [List.forall_mem_append]
  refine ⟨hdigits hds.1, ?_, ?_⟩
  · cases hf with
    | none => simp
    | point h => exact List.forall_mem_cons.2 ⟨rfl, hdigits h⟩
  · cases hx with
    | none => simp
    | bare hmark h => exact List.forall_mem_cons.2 ⟨hmarks hmark, hdigits h⟩
    | plus hmark h | minus hmark h =>
      exact List.forall_mem_cons.2 ⟨hmarks hmark, List.forall_mem_cons.2 ⟨rfl, hdigits h⟩⟩

theorem Numeral.isNumeralPart (h : Numeral q w) : ∀ c ∈ w, isNumeralPart c = true := by
  cases h with
  | positive h => exact h.isNumeralPart
  | negative h => exact List.forall_mem_cons.2 ⟨rfl, h.isNumeralPart⟩

theorem Numeral.exists_cons (h : Numeral q w) :
    ∃ c v, w = c :: v ∧ (c.isDigit = true ∨ c = '-') := by
  cases h with
  | positive h =>
    obtain ⟨c, v, hw, hc⟩ := h.exists_cons
    exact ⟨c, v, hw, .inl hc⟩
  | negative h => exact ⟨'-', _, rfl, .inr rfl⟩

end Numbers

/-! ## Strings are unambiguous -/

theorem SpellsString.unique {us us' : List Nat} {cs rest rest' : List Char}
    (h : SpellsString us cs rest) (h' : SpellsString us' cs rest') : us = us' ∧ rest = rest' := by
  induction h generalizing us' rest' with
  | close =>
    cases h' with
    | close => exact ⟨rfl, rfl⟩
    | plain hc => exact absurd rfl hc.2.1
  | plain hc _ ih =>
    cases h' with
    | close => exact absurd rfl hc.2.1
    | plain _ later =>
      obtain ⟨rfl, hrest⟩ := ih later
      exact ⟨rfl, hrest⟩
    | short => exact absurd rfl hc.2.2
    | unit => exact absurd rfl hc.2.2
  | short he _ ih =>
    cases h' with
    | plain hc => exact absurd rfl hc.2.2
    | short he' later =>
      obtain ⟨rfl, hrest⟩ := ih later
      rw [Option.some.inj (he.symm.trans he')]
      exact ⟨rfl, hrest⟩
    | unit => cases he
  | unit hn _ ih =>
    cases h' with
    | plain hc => exact absurd rfl hc.2.2
    | short he => cases he
    | unit hn' later =>
      obtain ⟨rfl, hrest⟩ := ih later
      rw [Option.some.inj (hn.symm.trans hn')]
      exact ⟨rfl, hrest⟩

/-! ## Values are unambiguous -/

section Values
variable {d : Datum} {ds : List Datum} {name : List Nat} {ms : List (List Nat × Datum)}
  {cs rest rest' : List Char}

theorem Skips.unique (h : Skips cs rest) (h' : Skips cs rest') (hrest : Stops isBlank rest)
    (hrest' : Stops isBlank rest') : rest = rest' := by
  obtain ⟨w, hw, hcs⟩ := h
  obtain ⟨w', hw', hcs'⟩ := h'
  exact (run_unique hw hw' hrest hrest' (hcs.symm.trans hcs')).2

/-- The same mark comes behind white space in one place only. -/
theorem Skips.behind_eq {c : Char} (h : Skips cs (c :: rest)) (h' : Skips cs (c :: rest'))
    (hc : isBlank c = false) : rest = rest' :=
  (List.cons.inj (h.unique h' (stops_cons.2 hc) (stops_cons.2 hc))).2

/-- White space or a mark of the grammar comes behind a value that stands in another. -/
theorem Skips.stops {c : Char} (h : Skips cs (c :: rest)) (hc : isNumeralPart c = false) :
    Stops isNumeralPart cs := by
  obtain ⟨w, hw, rfl⟩ := h
  rcases w with _ | ⟨b, w⟩
  · exact stops_cons.2 hc
  · have hblank : ∀ b : Char, isBlank b = true → isNumeralPart b = false := by
      intro b hb
      simp only [isBlank, Bool.or_eq_true, beq_iff_eq] at hb
      rcases hb with ((rfl | rfl) | rfl) | rfl <;> rfl
    exact stops_cons.2 (hblank b (hw b List.mem_cons_self))

/-- A character that a value may start with. -/
def isValueStart (c : Char) : Bool :=
  c.isDigit || ['-', 'n', 't', 'f', '"', '[', '\x7b'].contains c

theorem not_isBlank_of_isValueStart {c : Char} (h : isValueStart c = true) : isBlank c = false := by
  rw [Bool.eq_false_iff]
  intro hb
  simp only [isBlank, Bool.or_eq_true, beq_iff_eq] at hb
  rcases hb with ((rfl | rfl) | rfl) | rfl <;> cases h

theorem Spells.exists_cons (h : Spells d cs rest) :
    ∃ c v, cs = c :: v ∧ isValueStart c = true := by
  cases h with
  | number h hcs =>
    obtain ⟨c, v, rfl, hc⟩ := h.exists_cons
    refine ⟨c, _, hcs, ?_⟩
    rcases hc with hc | rfl
    · rw [isValueStart, hc, Bool.true_or]
    · rfl
  | _ => exact ⟨_, _, rfl, rfl⟩

theorem Spells.stops (h : Spells d cs rest) : Stops isBlank cs := by
  obtain ⟨c, v, rfl, hc⟩ := h.exists_cons
  exact stops_cons.2 (not_isBlank_of_isValueStart hc)

theorem not_spells_cons {c : Char} (hc : isValueStart c = false) : ¬ Spells d (c :: cs) rest := by
  intro h
  obtain ⟨c', v, hcs, hc'⟩ := h.exists_cons
  rw [← (List.cons.inj hcs).1, hc] at hc'
  cases hc'

theorem SpellsMember.stops (h : SpellsMember name d cs rest) : Stops isBlank cs := by
  cases h with
  | mk => exact stops_cons.2 rfl

theorem SpellsItems.stops (h : SpellsItems ds cs rest) : Stops isNumeralPart cs := by
  cases h with
  | close h => exact h.stops rfl
  | item hcomma => exact hcomma.stops rfl

theorem SpellsMembers.stops (h : SpellsMembers ms cs rest) : Stops isNumeralPart cs := by
  cases h with
  | close h => exact h.stops rfl
  | member hcomma => exact hcomma.stops rfl

/-- A number does not go on in what comes behind it. -/
def Apart (d : Datum) (rest : List Char) : Prop := ∀ q, d = .number q → Stops isNumeralPart rest

theorem apart_of_stops (h : Stops isNumeralPart rest) : Apart d rest := fun _ _ => h

/-- A number does not start with a mark or a letter. -/
theorem Numeral.ne_cons {q : ℚ} {w : List Char} {c : Char} (h : Numeral q w)
    (hdigit : c.isDigit = false) (hminus : c ≠ '-') : c :: cs ≠ w ++ rest := by
  obtain ⟨c', v, rfl, hc⟩ := h.exists_cons
  intro hcs
  obtain ⟨rfl, -⟩ := List.cons.inj hcs
  rcases hc with hc | hc
  · rw [hdigit] at hc
    cases hc
  · exact hminus hc

end Values

mutual

/-- **A text starts with one value at most**, if no number goes on behind it. -/
theorem Spells.unique {d d' : Datum} {cs rest rest' : List Char} (h : Spells d cs rest)
    (h' : Spells d' cs rest') (hapart : Apart d rest) (hapart' : Apart d' rest') :
    d = d' ∧ rest = rest' := by
  match h, h', hapart, hapart' with
  | .null, h', hapart, hapart' =>
    cases h' with
    | null => exact ⟨rfl, rfl⟩
    | number h hcs => exact absurd hcs (h.ne_cons rfl (by decide))
  | .isTrue, h', hapart, hapart' =>
    cases h' with
    | isTrue => exact ⟨rfl, rfl⟩
    | number h hcs => exact absurd hcs (h.ne_cons rfl (by decide))
  | .isFalse, h', hapart, hapart' =>
    cases h' with
    | isFalse => exact ⟨rfl, rfl⟩
    | number h hcs => exact absurd hcs (h.ne_cons rfl (by decide))
  | .number h hcs, h', hapart, hapart' =>
    cases h' with
    | number hw hcs' =>
      obtain ⟨rfl, hrest⟩ := run_unique h.isNumeralPart hw.isNumeralPart (hapart _ rfl)
        (hapart' _ rfl) (hcs.symm.trans hcs')
      rw [h.unique hw]
      exact ⟨rfl, hrest⟩
    | _ => exact absurd hcs (h.ne_cons rfl (by decide))
  | .string h, h', hapart, hapart' =>
    cases h' with
    | string h' =>
      obtain ⟨hunits, hrest⟩ := h.unique h'
      exact ⟨congrArg Datum.string hunits, hrest⟩
    | number h hcs => exact absurd hcs (h.ne_cons rfl (by decide))
  | .emptyArray h, h', hapart, hapart' =>
    cases h' with
    | emptyArray h' => exact ⟨rfl, h.behind_eq h' rfl⟩
    | array hblank' hd' =>
      -- No item starts with the bracket that closes the list.
      rw [hblank'.unique h hd'.stops (stops_cons.2 rfl)] at hd'
      exact absurd hd' (not_spells_cons rfl)
    | number h hcs => exact absurd hcs (h.ne_cons rfl (by decide))
  | .array hblank hd hds, h', hapart, hapart' =>
    cases h' with
    | emptyArray h' =>
      rw [hblank.unique h' hd.stops (stops_cons.2 rfl)] at hd
      exact absurd hd (not_spells_cons rfl)
    | array hblank' hd' hds' =>
      rw [hblank'.unique hblank hd'.stops hd.stops] at hd'
      -- A number in a list is followed by a mark or white space, so that it ends where it seems to.
      obtain ⟨hitem, hlater⟩ := hd.unique hd' (apart_of_stops hds.stops) (apart_of_stops hds'.stops)
      rw [← hlater] at hds'
      obtain ⟨hitems, hrest⟩ := hds.unique hds'
      rw [hitem, hitems]
      exact ⟨rfl, hrest⟩
    | number h hcs => exact absurd hcs (h.ne_cons rfl (by decide))
  | .emptyObject h, h', hapart, hapart' =>
    cases h' with
    | emptyObject h' => exact ⟨rfl, h.behind_eq h' rfl⟩
    | object hblank' hm' =>
      rw [hblank'.unique h hm'.stops (stops_cons.2 rfl)] at hm'
      cases hm'
    | number h hcs => exact absurd hcs (h.ne_cons rfl (by decide))
  | .object hblank hm hms, h', hapart, hapart' =>
    cases h' with
    | emptyObject h' =>
      rw [hblank.unique h' hm.stops (stops_cons.2 rfl)] at hm
      cases hm
    | object hblank' hm' hms' =>
      rw [hblank'.unique hblank hm'.stops hm.stops] at hm'
      obtain ⟨hname, hvalue, hlater⟩ := hm.unique hm' hms.stops hms'.stops
      rw [← hlater] at hms'
      obtain ⟨hmembers, hrest⟩ := hms.unique hms'
      rw [hname, hvalue, hmembers]
      exact ⟨rfl, hrest⟩
    | number h hcs => exact absurd hcs (h.ne_cons rfl (by decide))
termination_by structural h

theorem SpellsItems.unique {ds ds' : List Datum} {cs rest rest' : List Char}
    (h : SpellsItems ds cs rest) (h' : SpellsItems ds' cs rest') : ds = ds' ∧ rest = rest' := by
  match h, h' with
  | .close h, h' =>
    cases h' with
    | close h' => exact ⟨rfl, h.behind_eq h' rfl⟩
    | item hcomma' => cases h.unique hcomma' (stops_cons.2 rfl) (stops_cons.2 rfl)
  | .item hcomma hblank hd hds, h' =>
    cases h' with
    | close h' => cases h'.unique hcomma (stops_cons.2 rfl) (stops_cons.2 rfl)
    | item hcomma' hblank' hd' hds' =>
      rw [hcomma'.behind_eq hcomma rfl] at hblank'
      rw [hblank'.unique hblank hd'.stops hd.stops] at hd'
      obtain ⟨hitem, hlater⟩ := hd.unique hd' (apart_of_stops hds.stops) (apart_of_stops hds'.stops)
      rw [← hlater] at hds'
      obtain ⟨hitems, hrest⟩ := hds.unique hds'
      rw [hitem, hitems]
      exact ⟨rfl, hrest⟩
termination_by structural h

theorem SpellsMember.unique {name name' : List Nat} {d d' : Datum} {cs rest rest' : List Char}
    (h : SpellsMember name d cs rest) (h' : SpellsMember name' d' cs rest')
    (hrest : Stops isNumeralPart rest) (hrest' : Stops isNumeralPart rest') :
    name = name' ∧ d = d' ∧ rest = rest' := by
  match h, h', hrest, hrest' with
  | .mk hname hcolon hblank hd, h', hrest, hrest' =>
    cases h' with
    | mk hname' hcolon' hblank' hd' =>
      obtain ⟨hunits, hafter⟩ := hname.unique hname'
      rw [← hafter] at hcolon'
      rw [hcolon'.behind_eq hcolon rfl] at hblank'
      rw [hblank'.unique hblank hd'.stops hd.stops] at hd'
      exact ⟨hunits, hd.unique hd' (apart_of_stops hrest) (apart_of_stops hrest')⟩
termination_by structural h

theorem SpellsMembers.unique {ms ms' : List (List Nat × Datum)} {cs rest rest' : List Char}
    (h : SpellsMembers ms cs rest) (h' : SpellsMembers ms' cs rest') : ms = ms' ∧ rest = rest' := by
  match h, h' with
  | .close h, h' =>
    cases h' with
    | close h' => exact ⟨rfl, h.behind_eq h' rfl⟩
    | member hcomma' => cases h.unique hcomma' (stops_cons.2 rfl) (stops_cons.2 rfl)
  | .member hcomma hblank hm hms, h' =>
    cases h' with
    | close h' => cases h'.unique hcomma (stops_cons.2 rfl) (stops_cons.2 rfl)
    | member hcomma' hblank' hm' hms' =>
      rw [hcomma'.behind_eq hcomma rfl] at hblank'
      rw [hblank'.unique hblank hm'.stops hm.stops] at hm'
      obtain ⟨hname, hvalue, hlater⟩ := hm.unique hm' hms.stops hms'.stops
      rw [← hlater] at hms'
      obtain ⟨hmembers, hrest⟩ := hms.unique hms'
      rw [hname, hvalue, hmembers]
      exact ⟨rfl, hrest⟩
termination_by structural h

end

/-! ## Documents -/

section Documents
variable {ds ds' : List (Datum × List Char)} {d : Datum} {items : List Datum}
  {cs rest rest' : List Char}

theorem Documents.stops (h : Documents ds cs) : Stops isBlank cs := by
  cases h with
  | nil => exact stops_nil
  | document hd => exact hd.stops

theorem not_spells_nil : ¬ Spells d [] rest := by
  intro h
  obtain ⟨c, v, hcs, -⟩ := h.exists_cons
  cases hcs

/-- A text that starts with a list does not start with a number. -/
theorem Spells.apart (h : Spells (.array items) cs rest) (h' : Spells d cs rest') :
    Apart d rest' := by
  rintro q rfl
  cases h' with
  | number hq hcs =>
    cases h with
    | emptyArray | array => exact absurd hcs (hq.ne_cons rfl (by decide))

/-- **A text is documents in one way at most**, if they are lists. -/
theorem Documents.unique (h : Documents ds cs) (h' : Documents ds' cs)
    (hlists : ∀ d ∈ ds, ∃ items, d.1 = .array items) : ds = ds' := by
  induction h generalizing ds' with
  | nil =>
    cases h' with
    | nil => rfl
    | document hd' => exact absurd hd' not_spells_nil
  | document hd hblank hds ih =>
    cases h' with
    | nil => exact absurd hd not_spells_nil
    | document hd' hblank' hds' =>
      obtain ⟨⟨items, rfl⟩, hlater⟩ := List.forall_mem_cons.1 hlists
      obtain ⟨rfl, hrest⟩ := hd.unique hd' (hd.apart hd) (hd.apart hd')
      obtain ⟨rfl, rfl⟩ := run_unique hblank hblank' hds.stops hds'.stops hrest
      rw [ih hds' hlater]

end Documents

end TokenDump.Json
