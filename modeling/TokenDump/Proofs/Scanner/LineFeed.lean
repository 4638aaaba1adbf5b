import TokenDump.Proofs.Scanner.Context
import TokenDump.Proofs.Scanner.Segments

/-!
# Scanning across a line feed

A line feed ends every lexeme but a comment or literal that waits for its end mark. So the scan of two
texts with a line feed between them is one scan after the other, unless the first text leaves a comment
or literal open, and the notes on the first text tell which (`scansApart_iff`).
-/

namespace TokenDump
open CharClass
open String (utf8Len)

/-- The note tells of a comment or literal that has no end mark. -/
def Note.isUnterminated : Note → Bool
  | .unterminatedComment _ | .unterminatedLiteral _ _ => true
  | _ => false

def Span.moved (n : Nat) (s : Span) : Span := ⟨s.start + UInt32.ofNat n, s.length⟩

/-- A token `n` bytes further on. -/
def Token.moved (n : Nat) (t : Token) : Token := { t with span := t.span.moved n }

/-- Two texts with a line feed between them scan as the first and then the second, moved behind it. -/
def ScansApart (dialect : Dialect) (a b : String) : Prop :=
  (Scan.ofText (a ++ "\n" ++ b) dialect).tokens =
    (Scan.ofText a dialect).tokens ++
      (Scan.ofText b dialect).tokens.map (Token.moved (a.utf8ByteSize + 1))

/-! ## Moved tokens -/

theorem Span.ofOffsets_moved {n start stop : Nat} (h : start ≤ stop) (hlimit : n + stop ≤ limit) :
    ofOffsets (n + start) (n + stop) = (ofOffsets start stop).moved n := by
  have hclip : ∀ m, n + m ≤ limit → clip (n + m) = clip m + UInt32.ofNat n := by
    intro m hm
    have hlt : limit < 2 ^ 32 := by decide
    apply UInt32.toNat_inj.1
    rw [UInt32.toNat_add, toNat_clip, toNat_clip, UInt32.toNat_ofNat', Nat.min_eq_left hm,
      Nat.min_eq_left (by omega), Nat.mod_eq_of_lt (a := n) (by omega), Nat.mod_eq_of_lt (by omega),
      Nat.add_comm]
  unfold ofOffsets ofBounds moved
  rw [hclip start (by omega), hclip stop hlimit]
  rw [add_sub_add_right_eq_sub]

theorem tokensAt_moved (n offset : Nat) (segments : List Segment)
    (h : n + (offset + sizes segments) ≤ Span.limit) :
    tokensAt (n + offset) segments = (tokensAt offset segments).map (Token.moved n) := by
  induction segments generalizing offset with
  | nil => rfl
  | cons s segments ih =>
    rw [sizes_cons] at h
    have hgap : utf8Len s.gap ≤ s.size := Nat.le_add_right _ _
    have hspan : Span.ofOffsets (n + (offset + utf8Len s.gap)) (n + (offset + s.size)) =
        (Span.ofOffsets (offset + utf8Len s.gap) (offset + s.size)).moved n :=
      Span.ofOffsets_moved (by omega) (by omega)
    rw [tokensAt, tokensAt, List.map_cons, Nat.add_assoc, ih _ (by omega)]
    congr 1
    unfold Segment.token Token.moved
    rw [Nat.add_assoc, Nat.add_assoc, hspan]

/-! ## Segments in front of a line feed -/

section LineFeed
variable {dialect : Dialect} {segments : List Segment} {tail : List Char}

theorem leads_lineFeed (h : Leads dialect segments tail)
    (hterm : ∀ s ∈ segments, Terminated s.kind s.lexeme) (later : List Char) :
    Leads dialect segments (tail ++ '\n' :: later) := by
  induction segments with
  | nil => exact trivial
  | cons s segments ih =>
    obtain ⟨hs, hterm⟩ := List.forall_mem_cons.1 hterm
    refine ⟨⟨h.1.blank, ?_, h.1.closed_iff⟩, ih h.2 hterm⟩
    rw [written_append_right, ← List.append_assoc]
    exact h.1.lexical.before_blank hs (List.prefix_append _ _) List.prefix_rfl (by decide)
      fun _ => rfl

theorem written_eq_nil (h : Leads dialect segments tail) (hnil : written segments tail = []) :
    segments = [] ∧ tail = [] := by
  cases segments with
  | nil => exact ⟨rfl, hnil⟩
  | cons s segments =>
    rw [written, List.append_eq_nil_iff, List.append_eq_nil_iff] at hnil
    exact absurd hnil.2.1 h.1.lexeme_ne_nil

/-- Only the last segment of a text can be open, with nothing after it. -/
theorem exists_open (h : Leads dialect segments tail)
    (hopen : ∃ s ∈ segments, ¬ Terminated s.kind s.lexeme) : ∃ earlier s, segments = earlier ++ [s] ∧
      tail = [] ∧ (∀ s ∈ earlier, Terminated s.kind s.lexeme) ∧ ¬ Terminated s.kind s.lexeme := by
  induction segments with
  | nil =>
    obtain ⟨s, hs, -⟩ := hopen
    cases hs
  | cons s segments ih =>
    by_cases hs : Terminated s.kind s.lexeme
    · obtain ⟨s', hmem, hs'⟩ := hopen
      rcases List.mem_cons.1 hmem with rfl | hmem
      · exact absurd hs hs'
      · obtain ⟨earlier, last, rfl, htail, hearlier, hlast⟩ := ih h.2 ⟨s', hmem, hs'⟩
        exact ⟨s :: earlier, last, rfl, htail, List.forall_mem_cons.2 ⟨hs, hearlier⟩, hlast⟩
    · have hrest := h.1.lexical.eq_of_not_terminated hs
      obtain ⟨rfl, htail⟩ := written_eq_nil h.2 (List.append_right_eq_self.1 hrest.symm)
      exact ⟨[], s, rfl, htail, by simp, hs⟩

end LineFeed

/-! ## The notes on an open text -/

section Notes
variable {dialect : Dialect} {s : Segment} {segments : List Segment} {tail rest : List Char}

theorem isUnterminated_note_iff (h : s.Fits dialect rest) (offset : Nat) :
    (s.find dialect offset rest).note?.any Note.isUnterminated = true ↔
      ¬ Terminated s.kind s.lexeme := by
  rw [← h.closed_iff]
  rcases s with ⟨gap, kind, w, closed⟩
  cases closed with
  | true =>
    cases kind <;> simp [Segment.find, Segment.token, Find.note?, Note.isUnterminated]
  | false =>
    have hopen : ¬ Terminated kind w := fun hterm => Bool.false_ne_true (h.closed_iff.2 hterm)
    cases kind <;> first
      | exact absurd trivial hopen
      | simp [Segment.find, Segment.token, Find.note?, Note.isUnterminated]

theorem exists_isUnterminated_findsAt (h : Leads dialect segments tail) (offset : Nat) :
    (∃ n ∈ (findsAt dialect offset segments tail).filterMap Find.note?, n.isUnterminated = true) ↔
      ∃ s ∈ segments, ¬ Terminated s.kind s.lexeme := by
  induction segments generalizing offset with
  | nil => simp [findsAt]
  | cons s segments ih =>
    rw [findsAt, List.exists_mem_cons_iff, ← isUnterminated_note_iff h.1 offset,
      ← ih h.2 (offset + s.size), List.filterMap_cons]
    cases (s.find dialect offset (written segments tail)).note? with
    | none => simp
    | some n => simp

theorem exists_isUnterminated_iff {text : String} (htext : text.toList = written segments tail)
    (h : Leads dialect segments tail) (htail : Blank tail) :
    (∃ n ∈ (Scan.ofText text dialect).notes, n.isUnterminated = true) ↔
      ∃ s ∈ segments, ¬ Terminated s.kind s.lexeme := by
  rw [notes_of_written htext h htail, ← exists_isUnterminated_findsAt h 0]
  simp only [List.mem_append, List.mem_singleton, or_and_right, exists_or, exists_eq_left,
    Note.isUnterminated, Bool.false_eq_true, or_false]

end Notes

/-! ## One scan after the other -/

section Apart
variable {dialect : Dialect} {a b : String} {segments : List Segment} {tail : List Char}

theorem toList_lineFeed (a b : String) : (a ++ "\n" ++ b).toList = a.toList ++ '\n' :: b.toList := by
  rw [String.toList_append, String.toList_append, List.append_assoc]
  rfl

theorem scansApart_of_terminated (ha : a.toList = written segments tail)
    (h : Leads dialect segments tail) (htail : Blank tail)
    (hterm : ∀ s ∈ segments, Terminated s.kind s.lexeme)
    (hlimit : (a ++ "\n" ++ b).utf8ByteSize ≤ Span.limit) : ScansApart dialect a b := by
  obtain ⟨later, end', hb, hlater, hend⟩ := exists_written dialect b.toList
  have hsize : (a ++ "\n" ++ b).utf8ByteSize = a.utf8ByteSize + 1 + (sizes later + utf8Len end') := by
    rw [String.utf8ByteSize_append, String.utf8ByteSize_append, utf8ByteSize_of_written hb]
    rfl
  have hfeed : Blank (tail ++ ['\n']) := by
    intro c hc
    rcases List.mem_append.1 hc with hc | hc
    · exact htail c hc
    · rw [List.mem_singleton.1 hc]
      rfl
  have hoffset : 0 + sizes segments + utf8Len (tail ++ ['\n']) = a.utf8ByteSize + 1 + 0 := by
    rw [utf8ByteSize_of_written ha, String.utf8Len_append, Nat.zero_add, Nat.add_assoc]
    rfl
  have htext : (a ++ "\n" ++ b).toList = written segments (tail ++ '\n' :: b.toList) := by
    rw [toList_lineFeed, ha, written_append_right]
  have hsplit : tail ++ '\n' :: b.toList = (tail ++ ['\n']) ++ b.toList := by simp
  unfold ScansApart
  rw [tokens_eq_tokensFrom, htext, tokensFrom_written (leads_lineFeed h hterm b.toList), hsplit,
    tokensFrom_blank_append hfeed, hoffset, hb, tokensFrom_written hlater, tokensFrom_blank hend,
    List.append_nil, tokens_of_written ha h htail, tokens_of_written hb hlater hend,
    tokensAt_moved _ 0 later (by omega)]

theorem not_scansApart_of_open (ha : a.toList = written segments tail)
    (h : Leads dialect segments tail) (htail : Blank tail)
    (hopen : ∃ s ∈ segments, ¬ Terminated s.kind s.lexeme) : ¬ ScansApart dialect a b := by
  obtain ⟨earlier, s, rfl, rfl, hearlier, hs⟩ := exists_open h hopen
  obtain ⟨hleads, hfits, -⟩ := leads_append.1 h
  obtain ⟨c, cs, hw, hc⟩ := hfits.exists_lexeme_eq
  have htext : (a ++ "\n" ++ b).toList =
      written earlier (written [s] [] ++ '\n' :: b.toList) := by
    rw [toList_lineFeed, ha, written_append, written_append_right]
  have hsplit : written [s] [] ++ '\n' :: b.toList = s.gap ++ (c :: (cs ++ '\n' :: b.toList)) := by
    rw [written, written, List.append_nil, List.append_assoc, hw]
    rfl
  obtain ⟨s', rest', hcs, hfits', htokens⟩ := exists_tokensFrom_eq dialect hc (cs ++ '\n' :: b.toList)
    (0 + sizes earlier + utf8Len s.gap)
  intro heq
  unfold ScansApart at heq
  rw [tokens_eq_tokensFrom, htext, tokensFrom_written (leads_lineFeed hleads hearlier b.toList), hsplit,
    tokensFrom_blank_append hfits.blank, htokens, tokens_of_written ha h htail, tokensAt_append,
    List.append_assoc, List.append_cancel_left_eq] at heq
  have hlexeme : s'.lexeme = s.lexeme :=
    String.ofList_injective (congrArg Token.lexeme (List.head_eq_of_cons_eq heq))
  rw [← List.cons_append, ← hw, hlexeme] at hcs
  obtain rfl := List.append_cancel_left hcs
  have hself : Lexical dialect s.lexeme s.lexeme s.kind := by
    have hlex := hfits.lexical
    rwa [written, List.append_nil] at hlex
  have hlex := hfits'.lexical
  rw [hlexeme] at hlex
  exact not_lexical_of_not_terminated hself hs (List.cons_ne_nil _ _) _ hlex

end Apart

/-- **A line feed keeps scans apart**, in texts that are not too long, exactly where the first text
leaves no comment or literal open. Behind an open one it never does. -/
theorem scansApart_iff (a b : String) (dialect : Dialect) :
    ((a ++ "\n" ++ b).utf8ByteSize ≤ Span.limit →
      (ScansApart dialect a b ↔
        ¬ ∃ n ∈ (Scan.ofText a dialect).notes, n.isUnterminated = true)) ∧
      ((∃ n ∈ (Scan.ofText a dialect).notes, n.isUnterminated = true) →
        ¬ ScansApart dialect a b) := by
  obtain ⟨segments, tail, ha, hsegs, htail⟩ := exists_written dialect a.toList
  rw [exists_isUnterminated_iff ha hsegs htail]
  refine ⟨fun hlimit => ⟨fun h hopen => not_scansApart_of_open ha hsegs htail hopen h, fun h => ?_⟩,
    not_scansApart_of_open ha hsegs htail⟩
  refine scansApart_of_terminated ha hsegs htail (fun s hs => ?_) hlimit
  by_contra hs'
  exact h ⟨s, hs, hs'⟩

theorem scansApart_slash_star : ScansApart .plain "a/" "*b" ∧ ¬ ScansApart .plain "a/*" "*/b" := by
  refine ⟨((scansApart_iff "a/" "*b" .plain).1 (by decide)).2 (by decide +kernel),
    (scansApart_iff "a/*" "*/b" .plain).2 (by decide +kernel)⟩

end TokenDump
