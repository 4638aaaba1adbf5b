import TokenDump.Scanner.Rule

/-!
# The scanner

A `Scanner` is a place in a text: the characters that are left and the byte offset they start at,
together with the rules and the dialect. `Scanner.next?` finds the next token, its place and what is
left after it; `Scanner.finds` repeats that to the end of the text. Each find leaves fewer
characters than there were (`length_after_lt`), and `finds` is the list that `next?` unfolds to
(`finds_eq_nil`, `finds_eq_cons`).
-/

namespace TokenDump

/-- A place in a text that is being scanned. -/
structure Scanner where
  rules : List Rule
  dialect : Dialect
  /-- The characters that are left. -/
  rest : List Char
  /-- The byte offset at which they start. -/
  offset : Nat

/-- A token found in a text. -/
structure Find where
  token : Token
  /-- The byte offset of the token, as it is before clipping. -/
  start : Nat
  /-- Whether a comment or literal has its end mark; true for all else. -/
  closed : Bool
  /-- The scanner just after the token. -/
  after : Scanner

namespace Scanner

/-- The scanner at the start of a text that tries the given rules. -/
def ofRules (rules : List Rule) (text : String) (dialect : Dialect) : Scanner :=
  ⟨rules, dialect, text.toList, 0⟩

/-- The scanner at the start of a text. -/
def ofText (text : String) (dialect : Dialect) : Scanner := ofRules Rule.priority text dialect

/-- The next token, if only white space does not follow; white space before it is skipped. -/
def next? (s : Scanner) : Option Find :=
  match _h : s.rest with
  | [] => none
  | c :: cs =>
    let taken := firstMatch s.rules s.dialect c cs
    let lexeme := String.ofList (c :: cs.take taken.more)
    let after : Scanner :=
      { s with rest := cs.drop taken.more, offset := s.offset + lexeme.utf8ByteSize }
    match taken.kind with
    | none => after.next?
    | some kind =>
      some ⟨⟨kind, lexeme, .ofOffsets s.offset after.offset⟩, s.offset, taken.closed, after⟩
termination_by s.rest.length
decreasing_by simp only [‹s.rest = _›, List.length_cons, List.length_drop]; omega

section Next
variable {rules : List Rule} {dialect : Dialect}

theorem next?_of_nil (offset : Nat) : next? ⟨rules, dialect, [], offset⟩ = none := by
  refine (next?.eq_def _).trans ?_
  rfl

theorem next?_of_cons (c : Char) (cs : List Char) (offset : Nat) :
    next? ⟨rules, dialect, c :: cs, offset⟩ =
      let taken := firstMatch rules dialect c cs
      let lexeme := String.ofList (c :: cs.take taken.more)
      let after : Scanner := ⟨rules, dialect, cs.drop taken.more, offset + lexeme.utf8ByteSize⟩
      match taken.kind with
      | none => after.next?
      | some kind =>
        some ⟨⟨kind, lexeme, .ofOffsets offset after.offset⟩, offset, taken.closed, after⟩ := by
  refine (next?.eq_def _).trans ?_
  rfl

end Next

theorem length_after_lt {s : Scanner} {f : Find} (h : s.next? = some f) :
    f.after.rest.length < s.rest.length := by
  fun_induction next? s with
  | case1 => simp at h
  | case2 s c cs hs taken lexeme after _ ih =>
    have := ih h
    simp only [hs, List.length_cons]
    have : after.rest.length ≤ cs.length := by simp [after]
    omega
  | case3 s c cs hs taken lexeme after kind _ =>
    simp only [Option.some.injEq] at h
    subst h
    simp only [hs, after, List.length_cons, List.length_drop]
    omega

/-- The finds from here to the end of the text, with `found` in reverse in front of them. -/
def findsAfter (s : Scanner) (found : List Find) : List Find :=
  match _h : s.next? with
  | none => found.reverse
  | some f => f.after.findsAfter (f :: found)
termination_by s.rest.length
decreasing_by exact length_after_lt ‹_›

/-- The finds from here to the end of the text. -/
def finds (s : Scanner) : List Find := s.findsAfter []

theorem findsAfter_append (s : Scanner) (found earlier : List Find) :
    s.findsAfter (found ++ earlier) = earlier.reverse ++ s.findsAfter found := by
  fun_induction findsAfter s found with
  | case1 s found h =>
    rw [findsAfter]
    split
    · simp
    · simp_all
  | case2 s found f h ih =>
    rw [findsAfter]
    split
    · simp_all
    · next f' h' =>
      obtain rfl : f = f' := by simpa [h] using h'
      exact ih

theorem finds_eq_nil {s : Scanner} (h : s.next? = none) : s.finds = [] := by
  rw [finds, findsAfter]
  split
  · rfl
  · simp_all

theorem finds_eq_cons {s : Scanner} {f : Find} (h : s.next? = some f) :
    s.finds = f :: f.after.finds := by
  rw [finds, findsAfter]
  split
  · simp_all
  · next f' h' =>
    obtain rfl : f = f' := by simpa [h] using h'
    exact findsAfter_append f.after [] [f]

end Scanner

end TokenDump
