import Mathlib
import TokenDump.Proofs.Cursor.Rules
import TokenDump.Proofs.Scanner.Segments
import TokenDump.Scanner.Session

/-!
# The cursor is safe

A scanner on characters `Reads` a text where its characters are those that are left at its offset. There the
next token on bytes is its next token, without a fault (`next_eq`), and what it leaves reads the text again.
So the cursor is at the scanner's offset after any number of calls, always between two characters, and every
rule that applies moves it forward to another such place (`afterCalls_eq`).
-/

namespace TokenDump.Cursor
open CharClass Utf8
open String (utf8Len)

/-! ## Steps -/

/-- The step goes forward to a place between two characters. -/
structure Step.Advances (text : String) (pos : Nat) (step : Step) : Prop where
  lt : pos < step.pos
  le : step.pos ≤ text.utf8ByteSize
  isValid : String.Pos.Raw.IsValid text ⟨step.pos⟩

section Steps
variable {text : String} {pos : Nat} {c : Char} {cs : List Char}

theorem stands_stepOf (h : Stands text pos (c :: cs)) (m : Match) :
    Stands text (stepOf pos c cs m).pos (cs.drop m.more) := by
  have h' : Stands text pos ((c :: cs.take m.more) ++ cs.drop m.more) := by
    rwa [List.cons_append, List.take_append_drop]
  exact h'.append

theorem lt_stepOf (pos : Nat) (c : Char) (cs : List Char) (m : Match) :
    pos < (stepOf pos c cs m).pos := by
  have hc := c.utf8Size_pos
  show pos < pos + utf8Len (c :: cs.take m.more)
  rw [String.utf8Len_cons]
  omega

theorem Stands.le (h : Stands text pos cs) : pos ≤ text.utf8ByteSize := by
  rw [h.utf8ByteSize_eq]
  exact Nat.le_add_right _ _

theorem stepOf_advances (h : Stands text pos (c :: cs)) (m : Match) :
    (stepOf pos c cs m).Advances text pos :=
  ⟨lt_stepOf pos c cs m, (stands_stepOf h m).le, (stands_stepOf h m).isValid⟩

end Steps

/-! ## Calls -/

/-- The scanner is at a place in the text, with the rules in their order. -/
structure Reads (text : String) (dialect : Dialect) (s : Scanner) : Prop where
  eq_scannerAt : s = scannerAt dialect s.rest s.offset
  stands : Stands text s.offset s.rest

section Calls
variable {text : String} {dialect : Dialect} {pos : Nat} {c : Char} {cs : List Char} {m : Match}
  {s : Scanner}

theorem reads_ofText (text : String) (dialect : Dialect) :
    Reads text dialect (.ofText text dialect) :=
  ⟨rfl, stands_zero text⟩

theorem atEnd_eq (h : Stands text pos cs) :
    (scannerAt dialect cs pos).atEnd = scannerAt dialect [] text.utf8ByteSize := by
  unfold Scanner.atEnd
  rw [h.utf8ByteSize_eq]
  show scannerAt dialect [] (pos + (String.ofList cs).utf8ByteSize) = _
  rw [String.utf8ByteSize_ofList]

theorem stands_end (text : String) : Stands text text.utf8ByteSize [] :=
  ⟨text.toList, (List.append_nil _).symm, (String.utf8Len_toList text).symm⟩

theorem next_nil : (scannerAt dialect [] pos).next = (none, scannerAt dialect [] pos) := by
  unfold Scanner.next
  rw [next?_nil]
  rfl

/-- A call takes one step, and another one behind white space. -/
theorem next_cons (search : Search) (h : Stands text pos (c :: cs))
    (hm : firstMatch Rule.priority dialect c cs = m) :
    next search dialect text pos =
      match m.kind with
      | none => next search dialect text (stepOf pos c cs m).pos
      | some kind => .ok (some ⟨kind, String.ofList (c :: cs.take m.more),
          .ofOffsets pos (stepOf pos c cs m).pos⟩, (stepOf pos c cs m).pos) := by
  have hlexeme : slice text pos (stepOf pos c cs m).pos =
      .ok (String.ofList (c :: cs.take m.more)) := by
    rw [← List.take_append_drop m.more cs] at h
    exact slice_eq (w := c :: cs.take m.more) h
  rw [next, if_pos h.lt, applyRules_eq dialect search h, hm, ok_bind,
    if_pos (lt_stepOf pos c cs m), hlexeme]
  rfl

theorem scanner_next_cons (h : Stands text pos (c :: cs))
    (hm : firstMatch Rule.priority dialect c cs = m) :
    (scannerAt dialect (c :: cs) pos).next =
      match m.kind with
      | none => (scannerAt dialect (cs.drop m.more) (stepOf pos c cs m).pos).next
      | some kind => (some ⟨kind, String.ofList (c :: cs.take m.more),
          .ofOffsets pos (stepOf pos c cs m).pos⟩,
            scannerAt dialect (cs.drop m.more) (stepOf pos c cs m).pos) := by
  have hnext : (scannerAt dialect (c :: cs) pos).next? = _ := next?_cons c cs
  simp only [hm] at hnext
  unfold Scanner.next
  rw [hnext, atEnd_eq h, atEnd_eq (stands_stepOf h m)]
  cases m.kind <;> rfl

theorem next_eq_of_stands (dialect : Dialect) (search : Search) (h : Stands text pos cs) :
    next search dialect text pos =
        .ok ((scannerAt dialect cs pos).next.1, (scannerAt dialect cs pos).next.2.offset) ∧
      Reads text dialect (scannerAt dialect cs pos).next.2 := by
  induction hn : cs.length using Nat.strong_induction_on generalizing pos cs with
  | _ n ih =>
  subst hn
  rcases cs with _ | ⟨c, cs⟩
  · rw [next, if_neg h.not_lt, next_nil]
    exact ⟨rfl, rfl, h⟩
  obtain ⟨m, hm⟩ : ∃ m, firstMatch Rule.priority dialect c cs = m := ⟨_, rfl⟩
  have hstands := stands_stepOf h m
  rw [next_cons search h hm, scanner_next_cons h hm]
  cases m.kind with
  | none =>
    have hfewer : (cs.drop m.more).length < (c :: cs).length := by
      rw [List.length_drop, List.length_cons]
      omega
    exact ih _ hfewer hstands rfl
  | some kind => exact ⟨rfl, rfl, hstands⟩

/-- **The next token on bytes is the next token on characters.** -/
theorem next_eq (search : Search) (h : Reads text dialect s) :
    next search dialect text s.offset = .ok (s.next.1, s.next.2.offset) ∧
      Reads text dialect s.next.2 := by
  have hnext := next_eq_of_stands dialect search h.stands
  rwa [← h.eq_scannerAt] at hnext

/-- A call without a token leaves the scanner at the end of the text. -/
theorem next_eq_none (h : Reads text dialect s) (hnone : s.next.1 = none) :
    s.next.2 = scannerAt dialect [] text.utf8ByteSize := by
  have hs := h.eq_scannerAt
  unfold Scanner.next at hnone ⊢
  cases hnext : s.next? with
  | some f =>
    rw [hnext] at hnone
    cases hnone
  | none =>
    rw [hs]
    exact atEnd_eq h.stands

/-! ## All calls -/

/-- The scanner after some calls from the start of the text. -/
def scannerAfter (dialect : Dialect) (text : String) (n : Nat) : Scanner :=
  (fun s => s.next.2)^[n] (.ofText text dialect)

theorem scannerAfter_succ (dialect : Dialect) (text : String) (n : Nat) :
    scannerAfter dialect text (n + 1) = (scannerAfter dialect text n).next.2 :=
  Function.iterate_succ_apply' _ n _

theorem reads_scannerAfter (search : Search) (dialect : Dialect) (text : String) (n : Nat) :
    afterCalls search dialect text n = .ok (scannerAfter dialect text n).offset ∧
      Reads text dialect (scannerAfter dialect text n) := by
  induction n with
  | zero => exact ⟨rfl, reads_ofText text dialect⟩
  | succ n ih =>
    obtain ⟨hpos, hreads⟩ := ih
    obtain ⟨hnext, hreads'⟩ := next_eq search hreads
    rw [afterCalls, hpos, ok_bind, hnext, ok_bind, scannerAfter_succ]
    exact ⟨rfl, hreads'⟩

theorem scannerAfter_add (search : Search) {n : Nat}
    (hnone : (scannerAfter dialect text n).next.1 = none) (m : Nat) :
    scannerAfter dialect text (n + 1 + m) = scannerAt dialect [] text.utf8ByteSize := by
  induction m with
  | zero =>
    obtain ⟨-, hreads⟩ := reads_scannerAfter search dialect text n
    show scannerAfter dialect text (n + 1) = _
    rw [scannerAfter_succ, next_eq_none hreads hnone]
  | succ m ih => rw [← Nat.add_assoc, scannerAfter_succ, ih, next_nil]

end Calls

/-- **The cursor is safe.** Wherever a character stands, no rule has a fault, and each that applies moves the
cursor forward to a place between two characters; so does the first of them to apply. The cursor of the
scanner is at such a place after any number of calls, and the next call has no fault: it finds the token
that is found on characters. After a call that finds none, later calls find none and the cursor stays. -/
theorem afterCalls_eq (search : Search) (dialect : Dialect) (text : String) :
    (∀ pos < text.utf8ByteSize, String.Pos.Raw.IsValid text ⟨pos⟩ →
      (∀ r, ∃ step?, tryRule search dialect text pos r = .ok step? ∧
        ∀ step ∈ step?, step.Advances text pos) ∧
      ∃ step, applyRules search dialect text pos Rule.priority = .ok step ∧
        step.Advances text pos) ∧
    ∀ n, afterCalls search dialect text n = .ok (scannerAfter dialect text n).offset ∧
      (scannerAfter dialect text n).offset ≤ text.utf8ByteSize ∧
      String.Pos.Raw.IsValid text ⟨(scannerAfter dialect text n).offset⟩ ∧
      next search dialect text (scannerAfter dialect text n).offset =
        .ok ((scannerAfter dialect text n).next.1, (scannerAfter dialect text (n + 1)).offset) ∧
      ((scannerAfter dialect text n).next.1 = none →
        (∀ m, afterCalls search dialect text (n + 1 + m) = .ok text.utf8ByteSize) ∧
          next search dialect text text.utf8ByteSize = .ok (none, text.utf8ByteSize)) := by
  refine ⟨fun pos hlt hvalid => ?_, fun n => ?_⟩
  · obtain ⟨rest, hstands⟩ := exists_stands hvalid
    obtain ⟨c, cs, rfl⟩ := List.exists_cons_of_ne_nil (hstands.lt_iff.1 hlt)
    refine ⟨fun r => ⟨_, tryRule_eq dialect search hstands r, fun step hstep => ?_⟩, _,
      applyRules_eq dialect search hstands _, stepOf_advances hstands _⟩
    rw [Option.mem_def, Option.ite_none_right_eq_some, Option.some.injEq] at hstep
    rw [← hstep.2]
    exact stepOf_advances hstands _
  · obtain ⟨hpos, hreads⟩ := reads_scannerAfter search dialect text n
    obtain ⟨hnext, -⟩ := next_eq search hreads
    rw [← scannerAfter_succ] at hnext
    refine ⟨hpos, hreads.stands.le, hreads.stands.isValid, hnext, fun hnone => ⟨fun m => ?_, ?_⟩⟩
    · obtain ⟨hlater, -⟩ := reads_scannerAfter search dialect text (n + 1 + m)
      rwa [scannerAfter_add search hnone] at hlater
    · obtain ⟨hend, -⟩ := next_eq_of_stands dialect search (stands_end text)
      rwa [next_nil] at hend

/-- A literal without an end quote, whose last byte is a backslash. -/
theorem afterCalls_backslash :
    (0 < "\"é\\".utf8ByteSize ∧ String.Pos.Raw.IsValid "\"é\\" ⟨0⟩ ∧
      ∃ step, applyRules .naive .plain "\"é\\" 0 Rule.priority = .ok step ∧
        step.Advances "\"é\\" 0) ∧
    (scannerAfter .plain "\"é\\" 1).next.1 = none ∧
      ∀ m, afterCalls .naive .plain "\"é\\" (1 + 1 + m) = .ok "\"é\\".utf8ByteSize := by
  obtain ⟨hrules, hcalls⟩ := afterCalls_eq .naive .plain "\"é\\"
  have hlt : 0 < "\"é\\".utf8ByteSize := by decide
  have hvalid : String.Pos.Raw.IsValid "\"é\\" ⟨0⟩ := (stands_zero _).isValid
  have hnone : (scannerAfter .plain "\"é\\" 1).next.1 = none := by decide +kernel
  obtain ⟨-, -, -, -, hend⟩ := hcalls 1
  exact ⟨⟨hlt, hvalid, (hrules 0 hlt hvalid).2⟩, hnone, (hend hnone).1⟩

end TokenDump.Cursor
