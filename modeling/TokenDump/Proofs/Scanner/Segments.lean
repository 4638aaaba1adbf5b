import TokenDump.Proofs.Scanner.Grammar
import TokenDump.Scan

/-!
# Texts as segments

A text is cut into segments, each a gap of white space and the token after it, with a last gap behind
them. `written` puts segments back together, and `Leads` says that every segment is one that the
scanner finds where it stands. Segments that lead a text are what the scanner finds there, whatever
comes after them (`finds_written`), and every text is written in segments (`exists_written`). So a fact
about scans is a fact about lists of segments, proved by induction on them.
-/

namespace TokenDump
open CharClass
open String (utf8Len)

/-- White space only. -/
def Blank (w : List Char) : Prop := ∀ c ∈ w, isBlank c = true

/-- A gap of white space and the token after it. -/
structure Segment where
  gap : List Char
  kind : TokenKind
  lexeme : List Char
  closed : Bool

namespace Segment

/-- A segment that the scanner finds in front of `rest`. -/
structure Fits (dialect : Dialect) (s : Segment) (rest : List Char) : Prop where
  blank : Blank s.gap
  lexical : Lexical dialect (s.lexeme ++ rest) s.lexeme s.kind
  closed_iff : s.closed = true ↔ Terminated s.kind s.lexeme

def size (s : Segment) : Nat := utf8Len s.gap + utf8Len s.lexeme

/-- The token of a segment at a byte offset. -/
def token (offset : Nat) (s : Segment) : Token :=
  ⟨s.kind, String.ofList s.lexeme, .ofOffsets (offset + utf8Len s.gap) (offset + s.size)⟩

end Segment

/-- The text of some segments, with `rest` after them. -/
def written : List Segment → List Char → List Char
  | [], rest => rest
  | s :: segments, rest => s.gap ++ (s.lexeme ++ written segments rest)

/-- The scanner finds the segments one after the other where `written segments rest` starts. -/
def Leads (dialect : Dialect) : List Segment → List Char → Prop
  | [], _ => True
  | s :: segments, rest => s.Fits dialect (written segments rest) ∧ Leads dialect segments rest

/-- The tokens of some segments from a byte offset on. -/
def tokensAt : Nat → List Segment → List Token
  | _, [] => []
  | offset, s :: segments => s.token offset :: tokensAt (offset + s.size) segments

def sizes (segments : List Segment) : Nat := utf8Len (written segments [])

section Written
variable {dialect : Dialect} {segments later : List Segment} {rest : List Char}

theorem written_append (segments later : List Segment) (rest : List Char) :
    written (segments ++ later) rest = written segments (written later rest) := by
  induction segments with
  | nil => rfl
  | cons s segments ih => simp only [List.cons_append, written, ih]

theorem leads_append : Leads dialect (segments ++ later) rest ↔
    Leads dialect segments (written later rest) ∧ Leads dialect later rest := by
  induction segments with
  | nil => exact ⟨fun h => ⟨trivial, h⟩, And.right⟩
  | cons s segments ih => rw [List.cons_append, Leads, Leads, ih, written_append, and_assoc]

theorem written_eq (segments : List Segment) (rest : List Char) :
    written segments rest = written segments [] ++ rest := by
  induction segments with
  | nil => rfl
  | cons s segments ih =>
    rw [written, ih, written, List.append_assoc, List.append_assoc]

theorem written_append_right (segments : List Segment) (rest later : List Char) :
    written segments (rest ++ later) = written segments rest ++ later := by
  rw [written_eq, written_eq segments rest, List.append_assoc]

theorem utf8Len_written (segments : List Segment) (rest : List Char) :
    utf8Len (written segments rest) = sizes segments + utf8Len rest := by
  rw [written_eq, String.utf8Len_append, sizes]

theorem sizes_cons (s : Segment) (segments : List Segment) :
    sizes (s :: segments) = s.size + sizes segments := by
  rw [sizes, written, String.utf8Len_append, String.utf8Len_append, sizes, Segment.size,
    Nat.add_assoc]

theorem sizes_append (segments later : List Segment) :
    sizes (segments ++ later) = sizes segments + sizes later := by
  rw [sizes, written_append, utf8Len_written, sizes, sizes]

theorem tokensAt_append (offset : Nat) (segments later : List Segment) :
    tokensAt offset (segments ++ later) =
      tokensAt offset segments ++ tokensAt (offset + sizes segments) later := by
  induction segments generalizing offset with
  | nil => rfl
  | cons s segments ih =>
    rw [List.cons_append, tokensAt, ih, tokensAt, sizes_cons, List.cons_append, Nat.add_assoc]

end Written

/-! ## What the scanner finds -/

/-- The scanner at a byte offset of a text, with `cs` left. -/
def scannerAt (dialect : Dialect) (cs : List Char) (offset : Nat) : Scanner :=
  ⟨Rule.priority, dialect, cs, offset⟩

section Next
variable {dialect : Dialect} {cs gap w rest : List Char} {kind : TokenKind} {offset : Nat}

theorem next?_nil : (scannerAt dialect [] offset).next? = none := Scanner.next?_of_nil offset

theorem next?_cons (c : Char) (cs : List Char) :
    (scannerAt dialect (c :: cs) offset).next? =
      let taken := firstMatch Rule.priority dialect c cs
      let stop := offset + utf8Len (c :: cs.take taken.more)
      match taken.kind with
      | none => (scannerAt dialect (cs.drop taken.more) stop).next?
      | some kind =>
        some ⟨⟨kind, String.ofList (c :: cs.take taken.more), .ofOffsets offset stop⟩, offset,
          taken.closed, scannerAt dialect (cs.drop taken.more) stop⟩ := by
  rw [scannerAt, Scanner.next?_of_cons]
  simp only [String.utf8ByteSize_ofList]
  rfl

/-- White space in front is skipped. -/
theorem next?_dropWhile (cs : List Char) (offset : Nat) :
    (scannerAt dialect cs offset).next? =
      (scannerAt dialect (cs.dropWhile isBlank)
        (offset + utf8Len (cs.takeWhile isBlank))).next? := by
  cases cs with
  | nil => rfl
  | cons c cs =>
    by_cases hc : isBlank c = true
    · have hdrop : cs.drop (cs.takeWhile isBlank).length = cs.dropWhile isBlank := by
        have hleft : (cs.takeWhile isBlank ++ cs.dropWhile isBlank).drop
            (cs.takeWhile isBlank).length = cs.dropWhile isBlank := List.drop_left
        rwa [List.takeWhile_append_dropWhile] at hleft
      rw [next?_cons, firstMatch_priority, if_pos hc, List.takeWhile_cons_of_pos hc,
        List.dropWhile_cons_of_pos hc]
      simp only [Match.blank, take_length_takeWhile, hdrop]
    · rw [List.takeWhile_cons_of_neg hc, List.dropWhile_cons_of_neg hc]
      rfl

theorem next?_blank_append (h : Blank gap) (cs : List Char) (offset : Nat) :
    (scannerAt dialect (gap ++ cs) offset).next? =
      (scannerAt dialect cs (offset + utf8Len gap)).next? := by
  rw [next?_dropWhile, List.dropWhile_append_of_pos h, List.takeWhile_append_of_pos h,
    next?_dropWhile cs, String.utf8Len_append, Nat.add_assoc]

theorem next?_blank (h : Blank gap) : (scannerAt dialect gap offset).next? = none := by
  have hskip : (scannerAt dialect (gap ++ []) offset).next? =
      (scannerAt dialect [] (offset + utf8Len gap)).next? := next?_blank_append h [] offset
  rw [List.append_nil] at hskip
  rw [hskip, next?_nil]

/-- The next token is the lexeme after the gap. -/
theorem next?_lexical (hgap : Blank gap) (hlex : Lexical dialect (w ++ rest) w kind) {closed : Bool}
    (hclosed : closed = true ↔ Terminated kind w) :
    (scannerAt dialect (gap ++ (w ++ rest)) offset).next? =
      some ⟨⟨kind, String.ofList w,
          .ofOffsets (offset + utf8Len gap) (offset + utf8Len gap + utf8Len w)⟩,
        offset + utf8Len gap, closed, scannerAt dialect rest (offset + utf8Len gap + utf8Len w)⟩ := by
  obtain ⟨c, cs, hcs⟩ := List.exists_cons_of_ne_nil hlex.ne_nil
  rw [next?_blank_append hgap, hcs, next?_cons]
  rw [hcs] at hlex
  obtain ⟨hkind, hw⟩ := firstMatch_of_lexical hlex
  obtain ⟨kind', hkind', -, hlex', hclosed'⟩ := firstMatch_fits dialect cs hlex.not_isBlank
  obtain rfl : kind = kind' := Option.some.inj (hkind.symm.trans hkind')
  have hrest : cs.drop (firstMatch Rule.priority dialect c cs).more = rest := by
    have hsplit : w ++ cs.drop (firstMatch Rule.priority dialect c cs).more = w ++ rest := by
      rw [hcs, hw, List.cons_append, List.take_append_drop]
    exact List.append_cancel_left hsplit
  have hclosed'' : (firstMatch Rule.priority dialect c cs).closed = closed := by
    rw [Bool.eq_iff_iff, hclosed', ← hw, hclosed]
  simp only [hkind, ← hw, hrest, hclosed'']

/-- Where no white space stands, a lexeme starts. -/
theorem exists_fits (dialect : Dialect) {c : Char} (hc : ¬ isBlank c = true) (cs : List Char)
    (hgap : Blank gap) : ∃ s rest, Segment.gap s = gap ∧ c :: cs = s.lexeme ++ rest ∧
      s.Fits dialect rest := by
  obtain ⟨kind, -, -, hlex, hclosed⟩ := firstMatch_fits dialect cs hc
  generalize firstMatch Rule.priority dialect c cs = taken at hlex hclosed
  have hsplit : c :: cs = (c :: cs.take taken.more) ++ cs.drop taken.more := by
    rw [List.cons_append, List.take_append_drop]
  rw [hsplit] at hlex
  exact ⟨⟨gap, kind, c :: cs.take taken.more, taken.closed⟩, _, rfl, hsplit, hgap, hlex, hclosed⟩

/-- A text of more than white space starts with a gap and a lexeme. -/
theorem exists_lexical (dialect : Dialect) (cs : List Char) : Blank cs ∨
    ∃ s rest, cs = Segment.gap s ++ (s.lexeme ++ rest) ∧ s.Fits dialect rest := by
  have hgap : Blank (cs.takeWhile isBlank) := fun c hc => List.mem_takeWhile_imp hc
  have hsplit : cs.takeWhile isBlank ++ cs.dropWhile isBlank = cs :=
    List.takeWhile_append_dropWhile
  rcases hdrop : cs.dropWhile isBlank with _ | ⟨c, r⟩
  · rw [hdrop, List.append_nil] at hsplit
    exact .inl (hsplit ▸ hgap)
  · have hc : ¬ isBlank c = true := by
      have hhead := List.head?_dropWhile_not isBlank cs
      rw [hdrop] at hhead
      simpa using hhead
    obtain ⟨s, rest, hs, hr, hfits⟩ := exists_fits dialect hc r hgap
    exact .inr ⟨s, rest, by rw [hs, ← hr, ← hdrop, hsplit], hfits⟩

end Next

/-- A lexeme starts with a character that is not white space. -/
theorem Segment.Fits.exists_lexeme_eq {dialect : Dialect} {s : Segment} {rest : List Char}
    (h : s.Fits dialect rest) : ∃ c w, s.lexeme = c :: w ∧ ¬ isBlank c = true := by
  obtain ⟨c, cs, hcs⟩ := List.exists_cons_of_ne_nil h.lexical.ne_nil
  have hlex := hcs ▸ h.lexical
  exact ⟨c, _, (firstMatch_of_lexical hlex).2, hlex.not_isBlank⟩

theorem Segment.Fits.lexeme_ne_nil {dialect : Dialect} {s : Segment} {rest : List Char}
    (h : s.Fits dialect rest) : s.lexeme ≠ [] := by
  obtain ⟨c, w, hw, -⟩ := h.exists_lexeme_eq
  rw [hw]
  exact List.cons_ne_nil c w

/-- **Every text is written in segments that the scanner finds**, with white space after them. -/
theorem exists_written (dialect : Dialect) (cs : List Char) :
    ∃ segments tail, cs = written segments tail ∧ Leads dialect segments tail ∧ Blank tail := by
  rcases exists_lexical dialect cs with hblank | ⟨s, rest, hcs, hs⟩
  · exact ⟨[], cs, rfl, trivial, hblank⟩
  · obtain ⟨segments, tail, hrest, hsegs, htail⟩ := exists_written dialect rest
    subst hrest
    exact ⟨s :: segments, tail, hcs, ⟨hs, hsegs⟩, htail⟩
termination_by cs.length
decreasing_by
  have hpos := List.length_pos_iff.2 hs.lexeme_ne_nil
  rw [hcs, List.length_append, List.length_append]
  omega

/-- What the scanner finds at a segment. -/
def Segment.find (dialect : Dialect) (offset : Nat) (s : Segment) (rest : List Char) : Find :=
  ⟨s.token offset, offset + utf8Len s.gap, s.closed, scannerAt dialect rest (offset + s.size)⟩

/-- What the scanner finds at some segments. -/
def findsAt (dialect : Dialect) : Nat → List Segment → List Char → List Find
  | _, [], _ => []
  | offset, s :: segments, rest =>
    s.find dialect offset (written segments rest) ::
      findsAt dialect (offset + s.size) segments rest

/-- Only an unknown character calls for a note if nothing is open. -/
theorem note?_of_closed {f : Find} (hclosed : f.closed = true) (hkind : f.token.kind ≠ .unknown) :
    f.note? = none := by
  unfold Find.note?
  rw [hclosed]
  cases hk : f.token.kind with
  | unknown => exact absurd hk hkind
  | _ => rfl

theorem next?_of_fits {dialect : Dialect} {s : Segment} {rest : List Char} (h : s.Fits dialect rest)
    (offset : Nat) : (scannerAt dialect (s.gap ++ (s.lexeme ++ rest)) offset).next? =
      some (s.find dialect offset rest) := by
  rw [next?_lexical h.blank h.lexical h.closed_iff, Segment.find, Segment.token, Segment.size,
    Nat.add_assoc]

/-- **The scanner finds the segments that lead a text**, and goes on behind them. -/
theorem finds_written {dialect : Dialect} {segments : List Segment} {rest : List Char}
    (h : Leads dialect segments rest) (offset : Nat) :
    (scannerAt dialect (written segments rest) offset).finds =
      findsAt dialect offset segments rest ++
        (scannerAt dialect rest (offset + sizes segments)).finds := by
  induction segments generalizing offset with
  | nil => rfl
  | cons s segments ih =>
    rw [written, Scanner.finds_eq_cons (next?_of_fits h.1 offset), findsAt, sizes_cons, List.cons_append,
      ← Nat.add_assoc, ← ih h.2]
    rfl

theorem map_token_findsAt (dialect : Dialect) (offset : Nat) (segments : List Segment)
    (rest : List Char) :
    (findsAt dialect offset segments rest).map (·.token) = tokensAt offset segments := by
  induction segments generalizing offset with
  | nil => rfl
  | cons s segments ih => rw [findsAt, List.map_cons, ih, tokensAt, Segment.find]

theorem mem_findsAt {dialect : Dialect} {segments : List Segment} {tail : List Char} {offset : Nat} {f : Find}
    (h : Leads dialect segments tail) (hf : f ∈ findsAt dialect offset segments tail) :
    ∃ (s : Segment) (rest : List Char) (start : Nat), s.Fits dialect rest ∧
      f = s.find dialect start rest := by
  induction segments generalizing offset with
  | nil => cases hf
  | cons s segments ih =>
    rcases List.mem_cons.1 hf with rfl | hf
    · exact ⟨s, _, offset, h.1, rfl⟩
    · exact ih h.2 hf

/-- Each token is that of a segment, at the offset where the segment stands. -/
theorem mem_tokensAt {segments : List Segment} {offset : Nat} {t : Token}
    (h : t ∈ tokensAt offset segments) :
    ∃ earlier s later, segments = earlier ++ s :: later ∧ t = s.token (offset + sizes earlier) := by
  induction segments generalizing offset with
  | nil => cases h
  | cons s segments ih =>
    rcases List.mem_cons.1 h with rfl | h
    · exact ⟨[], s, segments, rfl, rfl⟩
    · obtain ⟨earlier, s', later, rfl, rfl⟩ := ih h
      refine ⟨s :: earlier, s', later, rfl, ?_⟩
      rw [sizes_cons, Nat.add_assoc]

/-- The tokens from a place in a text to its end. -/
def tokensFrom (dialect : Dialect) (cs : List Char) (offset : Nat) : List Token :=
  (scannerAt dialect cs offset).finds.map (·.token)

theorem tokens_eq_tokensFrom (text : String) (dialect : Dialect) :
    (Scan.ofText text dialect).tokens = tokensFrom dialect text.toList 0 := rfl

theorem tokensFrom_written {dialect : Dialect} {segments : List Segment} {rest : List Char}
    (h : Leads dialect segments rest) (offset : Nat) :
    tokensFrom dialect (written segments rest) offset =
      tokensAt offset segments ++ tokensFrom dialect rest (offset + sizes segments) := by
  rw [tokensFrom, finds_written h, List.map_append, map_token_findsAt, tokensFrom]

theorem tokensFrom_blank {dialect : Dialect} {gap : List Char} (h : Blank gap) (offset : Nat) :
    tokensFrom dialect gap offset = [] := by
  rw [tokensFrom, Scanner.finds_eq_nil (next?_blank h), List.map_nil]

theorem finds_blank_append {dialect : Dialect} {gap : List Char} (h : Blank gap) (cs : List Char)
    (offset : Nat) : (scannerAt dialect (gap ++ cs) offset).finds =
      (scannerAt dialect cs (offset + utf8Len gap)).finds := by
  cases hnext : (scannerAt dialect cs (offset + utf8Len gap)).next? with
  | none =>
    rw [Scanner.finds_eq_nil hnext, Scanner.finds_eq_nil ((next?_blank_append h cs offset).trans hnext)]
  | some f =>
    rw [Scanner.finds_eq_cons hnext,
      Scanner.finds_eq_cons ((next?_blank_append h cs offset).trans hnext)]

theorem tokensFrom_blank_append {dialect : Dialect} {gap : List Char} (h : Blank gap)
    (cs : List Char) (offset : Nat) :
    tokensFrom dialect (gap ++ cs) offset = tokensFrom dialect cs (offset + utf8Len gap) := by
  rw [tokensFrom, finds_blank_append h, tokensFrom]

/-- Where no white space stands, the next token is a lexeme there. -/
theorem exists_tokensFrom_eq (dialect : Dialect) {c : Char} (hc : ¬ isBlank c = true) (cs : List Char)
    (offset : Nat) : ∃ s rest, c :: cs = Segment.lexeme s ++ rest ∧ s.Fits dialect rest ∧
      tokensFrom dialect (c :: cs) offset =
        s.token offset :: tokensFrom dialect rest (offset + s.size) := by
  have hnil : Blank [] := by simp [Blank]
  obtain ⟨s, rest, hgap, hcs, hs⟩ := exists_fits dialect hc cs hnil
  have hleads : Leads dialect [s] rest := ⟨hs, trivial⟩
  have hwritten : written [s] rest = c :: cs := by
    rw [written, written, hgap, hcs, List.nil_append]
  have htokens := tokensFrom_written hleads offset
  rw [hwritten, sizes_cons] at htokens
  exact ⟨s, rest, hcs, hs, htokens⟩

section Text
variable {text : String} {segments : List Segment} {tail : List Char} {dialect : Dialect}

theorem finds_of_written (htext : text.toList = written segments tail)
    (h : Leads dialect segments tail) (htail : Blank tail) :
    (Scanner.ofText text dialect).finds = findsAt dialect 0 segments tail := by
  show (scannerAt dialect text.toList 0).finds = _
  rw [htext, finds_written h, Scanner.finds_eq_nil (next?_blank htail), List.append_nil]

theorem tokens_of_written (htext : text.toList = written segments tail)
    (h : Leads dialect segments tail) (htail : Blank tail) :
    (Scan.ofText text dialect).tokens = tokensAt 0 segments := by
  show ((Scanner.ofText text dialect).finds.map (·.token)) = _
  rw [finds_of_written htext h htail, map_token_findsAt]

theorem length_findsAt (dialect : Dialect) (offset : Nat) (segments : List Segment)
    (rest : List Char) : (findsAt dialect offset segments rest).length = segments.length := by
  induction segments generalizing offset with
  | nil => rfl
  | cons s segments ih => rw [findsAt, List.length_cons, ih, List.length_cons]

theorem notes_of_written (htext : text.toList = written segments tail)
    (h : Leads dialect segments tail) (htail : Blank tail) :
    (Scan.ofText text dialect).notes =
      (findsAt dialect 0 segments tail).filterMap Find.note? ++
        [.scanned segments.length text.utf8ByteSize] := by
  rw [← length_findsAt dialect 0 segments tail, ← finds_of_written htext h htail]
  rfl

theorem utf8ByteSize_of_written (htext : text.toList = written segments tail) :
    text.utf8ByteSize = sizes segments + utf8Len tail := by
  rw [← String.utf8Len_toList, htext, utf8Len_written]

end Text

end TokenDump
