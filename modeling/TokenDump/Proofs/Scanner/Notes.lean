import TokenDump.Proofs.Scanner.LineFeed
import TokenDump.Proofs.Scanner.Stretches

/-!
# The notes on a scan

What a scan notes can be told from its tokens (`notes_ofText`): there is a note on each unknown
character, and one on the last token if that is open, where a token is open if its lexeme does not look
closed. A literal looks closed when it ends in its quote with an even number of backslashes in front;
reading from the left, where each backslash hides the next character, comes to the same
(`looksClosed_iff`).
-/

namespace TokenDump
open CharClass
open String (utf8Len)

/-! ## Open tokens -/

/-- How many backslashes stand at the end. -/
def endSlashes (w : List Char) : Nat := (w.rtakeWhile (· == '\\')).length

/-- A literal that ends in a quote of its own, with backslashes in front only in pairs. -/
def LooksClosed (quote : Char) (w : List Char) : Prop :=
  2 ≤ utf8Len w ∧ [quote] <:+ w ∧ Even (endSlashes w.dropLast)

instance (quote : Char) (w : List Char) : Decidable (LooksClosed quote w) :=
  inferInstanceAs (Decidable (2 ≤ utf8Len w ∧ [quote] <:+ w ∧ Even (endSlashes w.dropLast)))

/-- A comment or literal that does not look closed. -/
def Token.IsOpen (t : Token) : Prop :=
  t.kind = .blockComment ∧ (t.lexeme.utf8ByteSize < 4 ∨ ¬ ['*', '/'] <:+ t.lexeme.toList) ∨
    t.kind = .stringLiteral ∧ ¬ LooksClosed '"' t.lexeme.toList ∨
      t.kind = .charLiteral ∧ ¬ LooksClosed '\'' t.lexeme.toList

instance (t : Token) : Decidable t.IsOpen :=
  inferInstanceAs (Decidable (_ ∨ _ ∧ ¬ LooksClosed _ _ ∨ _ ∧ ¬ LooksClosed _ _))

/-- The note on an unknown character. -/
def Token.unknownNote? (t : Token) : Option Note :=
  if t.kind = .unknown then some (.unknownCharacter t.span.start.toNat t.lexeme) else none

/-- The note on an open token. -/
def Token.openNote? (t : Token) : Option Note :=
  if t.IsOpen then
    some (if t.kind = .blockComment then .unterminatedComment t.span.start.toNat
      else .unterminatedLiteral t.span.start.toNat t.kind)
  else none

/-! ## Backslashes in pairs -/

section Slashes
variable {quote c : Char} {w body : List Char}

theorem endSlashes_concat_slash : endSlashes (w ++ ['\\']) = endSlashes w + 1 := by
  unfold endSlashes
  rw [List.rtakeWhile_concat_pos _ _ _ rfl, List.length_append, List.length_singleton]

theorem endSlashes_le (w : List Char) : endSlashes w ≤ w.length :=
  (List.rtakeWhile_suffix _ _).length_le

/-- A character in front only counts if all behind it are backslashes. -/
theorem endSlashes_cons (c : Char) (w : List Char) : endSlashes (c :: w) =
    if endSlashes w = w.length ∧ c = '\\' then w.length + 1 else endSlashes w := by
  unfold endSlashes List.rtakeWhile
  rw [List.reverse_cons, List.takeWhile_append, List.length_reverse, List.length_reverse,
    List.length_reverse]
  by_cases hall : (w.reverse.takeWhile (· == '\\')).length = w.length
  · by_cases hc : c = '\\'
    · simp [hall, hc]
    · simp [hall, hc]
  · simp [hall]

theorem endSlashes_cons_of_ne (h : c ≠ '\\') : endSlashes (c :: w) = endSlashes w := by
  rw [endSlashes_cons, if_neg fun hc => h hc.2]

/-- Reading from the left leaves backslashes at the end in pairs. -/
theorem LiteralBody.even_endSlashes (h : LiteralBody quote body) : Even (endSlashes body) := by
  induction h with
  | nil => exact ⟨0, rfl⟩
  | plain _ hslash _ ih => rwa [endSlashes_cons_of_ne hslash]
  | @escape c body _ ih =>
    have hle := endSlashes_le body
    rw [Nat.even_iff] at ih ⊢
    rw [endSlashes_cons, List.length_cons]
    by_cases hall : endSlashes body = body.length ∧ c = '\\'
    · -- Backslashes all through: the pair adds two to their number.
      obtain ⟨hlen, -⟩ := id hall
      rw [endSlashes_cons, if_pos hall, if_pos ⟨rfl, rfl⟩]
      omega
    · rw [endSlashes_cons, if_neg hall, if_neg (by omega)]
      exact ih

/-- Without a closing quote, reading comes to the end of the text, in the middle of an escape at
worst. -/
theorem body_or_slash {n : Nat} (h : literalLength quote n w = none) :
    LiteralBody quote w ∨ ∃ body, LiteralBody quote body ∧ w = body ++ ['\\'] := by
  fun_induction literalLength quote n w with
  | case1 => exact .inl .nil
  | case2 => cases h
  | case3 n c hc =>
    rw [beq_iff_eq] at hc
    by_cases hslash : c = '\\'
    · exact .inr ⟨[], .nil, by rw [hslash]; rfl⟩
    · exact .inl (.plain hc hslash .nil)
  | case4 => cases h
  | case5 n c d cs _ hc ih =>
    rw [beq_iff_eq.1 hc]
    rcases ih h with hbody | ⟨body, hbody, rfl⟩
    · exact .inl (.escape hbody)
    · exact .inr ⟨_, .escape hbody, rfl⟩
  | case6 n c d cs hquote hslash ih =>
    rw [beq_iff_eq] at hquote hslash
    rcases ih h with hbody | ⟨body, hbody, heq⟩
    · exact .inl (.plain hquote hslash hbody)
    · exact .inr ⟨_, .plain hquote hslash hbody, by rw [heq]; rfl⟩

end Slashes

/-! ## The looks of a lexeme -/

section Looks
variable {dialect : Dialect} {quote : Char} {kind : TokenKind} {r w rest : List Char}

theorem length_le_utf8Len (w : List Char) : w.length ≤ utf8Len w := by
  induction w with
  | nil => exact le_rfl
  | cons c w ih =>
    have hpos := c.utf8Size_pos
    rw [List.length_cons, String.utf8Len_cons]
    omega

theorem looksClosed_of_closed (hq : quote ≠ '\\') (h : ClosedLiteral quote w) :
    LooksClosed quote w := by
  obtain ⟨body, hbody, rfl⟩ := h
  have hlen := length_le_utf8Len (quote :: (body ++ [quote]))
  rw [List.length_cons, List.length_append, List.length_singleton] at hlen
  refine ⟨by omega, ⟨quote :: body, rfl⟩, ?_⟩
  rw [← List.cons_append, List.dropLast_concat, endSlashes_cons_of_ne hq]
  exact hbody.even_endSlashes

/-- **A literal is closed if it looks closed.** -/
theorem looksClosed_iff (hq : quote ≠ '\\') (hsize : quote.utf8Size = 1) (hopen : [quote] <+: r)
    (h : ShortestOrAll (ClosedLiteral quote) r w) : LooksClosed quote w ↔ ClosedLiteral quote w := by
  refine ⟨fun hlooks => ?_, looksClosed_of_closed hq⟩
  rcases h with h | ⟨hnone, rfl⟩
  · exact h.2.1
  obtain ⟨hlen, hend, heven⟩ := hlooks
  obtain ⟨v, rfl⟩ := hopen
  obtain ⟨body, rfl⟩ : ∃ body, v = body ++ [quote] := by
    rcases List.suffix_cons_iff.1 hend with heq | ⟨body, hbody⟩
    · obtain rfl : v = [] := (List.cons.inj heq).2.symm
      rw [List.append_nil, String.utf8Len_cons, hsize] at hlen
      exact absurd hlen (by decide)
    · exact ⟨body, hbody.symm⟩
  have hslashes : endSlashes ([quote] ++ (body ++ [quote])).dropLast = endSlashes body := by
    rw [← List.append_assoc, List.dropLast_concat, List.singleton_append, endSlashes_cons_of_ne hq]
  rw [hslashes] at heven
  cases hextent : literalLength quote 0 body with
  | some m =>
    obtain ⟨inner, hinner, hprefix, -⟩ := exists_body_of_literalLength hextent
    refine absurd ⟨inner, hinner, rfl⟩ (hnone (quote :: (inner ++ [quote])) ?_)
    exact List.cons_prefix_cons.2 ⟨rfl, hprefix.trans (List.prefix_append _ _)⟩
  | none =>
    rcases body_or_slash hextent with hbody | ⟨inner, hinner, rfl⟩
    · exact ⟨body, hbody, rfl⟩
    · -- The last backslash hides the quote, and it is one more than the pairs in front.
      rw [endSlashes_concat_slash, Nat.even_add_one] at heven
      exact absurd hinner.even_endSlashes heven

/-- **A comment is closed if it looks closed.** -/
theorem closedComment_iff (hopen : ['/', '*'] <+: w) :
    ClosedComment w ↔ ¬ (utf8Len w < 4 ∨ ¬ ['*', '/'] <:+ w) := by
  rw [not_or, not_not, not_lt]
  refine ⟨fun ⟨hlen, hend⟩ => ⟨hlen.trans (length_le_utf8Len w), hend⟩,
    fun ⟨hlen, hend⟩ => ⟨?_, hend⟩⟩
  obtain ⟨v, rfl⟩ := hopen
  rcases v with _ | ⟨c, _ | ⟨d, v⟩⟩
  · exact absurd hlen (by decide)
  · -- With three characters the star of the end mark is that of the opening mark.
    have hc : '/' = c := by simpa [List.suffix_cons_iff] using hend
    rw [← hc] at hlen
    exact absurd hlen (by decide)
  · simp

/-- A comment starts with its opening mark. -/
theorem opening_isPrefix (h : Lexical dialect r w .blockComment) : ['/', '*'] <+: w := by
  obtain ⟨hopen, hshort⟩ := h
  rcases hshort with ⟨hw, hterm, -⟩ | ⟨-, rfl⟩
  · exact List.prefix_of_prefix_length_le hopen hw (le_trans (by decide) hterm.1)
  · exact hopen

/-- A token is open if its lexeme has no end mark. -/
theorem isOpen_token_iff {s : Segment} (h : s.Fits dialect rest) (offset : Nat) :
    (s.token offset).IsOpen ↔ ¬ Terminated s.kind s.lexeme := by
  obtain ⟨gap, kind, w, closed⟩ := s
  have hlex : Lexical dialect (w ++ rest) w kind := h.lexical
  unfold Token.IsOpen Segment.token
  simp only [String.toList_ofList, String.utf8ByteSize_ofList]
  cases kind with
  | blockComment =>
    simp only [reduceCtorEq, false_and, or_false, true_and]
    exact not_not.symm.trans (closedComment_iff (opening_isPrefix hlex)).not.symm
  | stringLiteral =>
    simp only [reduceCtorEq, false_and, or_false, false_or, true_and]
    exact (looksClosed_iff (by decide) (by decide) hlex.1 hlex.2).not
  | charLiteral =>
    simp only [reduceCtorEq, false_and, false_or, true_and]
    exact (looksClosed_iff (by decide) (by decide) hlex.1 hlex.2).not
  | _ => simp [Terminated]

end Looks

/-! ## The notes on segments -/

section Segments
variable {dialect : Dialect} {s : Segment} {segments : List Segment} {tail rest : List Char}
  {offset : Nat}

theorem toNat_start_token (hlimit : offset + s.size ≤ Span.limit) :
    (s.token offset).span.start.toNat = offset + utf8Len s.gap := by
  have hgap : utf8Len s.gap ≤ s.size := Nat.le_add_right _ _
  rw [Segment.token, Span.start_ofOffsets, Span.toNat_clip, Nat.min_eq_left (by omega)]

/-- A find calls for a note if its token is unknown or open. -/
theorem note?_find (h : s.Fits dialect rest) (hlimit : offset + s.size ≤ Span.limit) :
    (s.find dialect offset rest).note? =
      (s.token offset).unknownNote?.or (s.token offset).openNote? := by
  have hopen := isOpen_token_iff h offset
  have hstart := toNat_start_token hlimit
  rw [← h.closed_iff, Bool.not_eq_true] at hopen
  unfold Token.unknownNote? Token.openNote?
  rw [hstart]
  obtain ⟨gap, kind, w, closed⟩ := s
  cases closed with
  | true =>
    rw [if_neg (mt hopen.1 (by simp)), Option.or_none]
    cases kind <;> rfl
  | false =>
    rw [if_pos (hopen.2 rfl)]
    cases kind <;> rfl

/-- A token calls for one note at most. -/
theorem unknownNote?_eq_none_or (t : Token) : t.unknownNote? = none ∨ t.openNote? = none := by
  by_cases hk : t.kind = .unknown
  · refine .inr (if_neg ?_)
    simp [Token.IsOpen, hk]
  · exact .inl (if_neg hk)

/-- Only the last segment is open. -/
theorem terminated_of_leads_cons {later : Segment}
    (h : Leads dialect (s :: later :: segments) tail) : Terminated s.kind s.lexeme := by
  by_contra hopen
  have hnil := List.append_right_eq_self.1 (h.1.lexical.eq_of_not_terminated hopen).symm
  obtain ⟨hsegs, -⟩ := written_eq_nil h.2 hnil
  cases hsegs

/-- **The notes on segments are those that their tokens call for.** -/
theorem notes_findsAt (h : Leads dialect segments tail)
    (hlimit : offset + sizes segments ≤ Span.limit) :
    (findsAt dialect offset segments tail).filterMap Find.note? =
      (tokensAt offset segments).filterMap Token.unknownNote? ++
        ((tokensAt offset segments).getLast?.bind Token.openNote?).toList := by
  induction segments generalizing offset with
  | nil => rfl
  | cons s segments ih =>
    rw [sizes_cons] at hlimit
    rw [findsAt, tokensAt, List.filterMap_cons, List.filterMap_cons, note?_find h.1 (by omega),
      ih h.2 (by omega)]
    cases segments with
    | nil =>
      rw [tokensAt, List.getLast?_singleton, Option.bind_some]
      rcases unknownNote?_eq_none_or (s.token offset) with hquiet | hquiet <;> rw [hquiet]
      · cases (s.token offset).openNote? <;> rfl
      · cases (s.token offset).unknownNote? <;> rfl
    | cons later segments =>
      have hquiet : (s.token offset).openNote? = none :=
        if_neg ((isOpen_token_iff h.1 offset).not.2 (not_not.2 (terminated_of_leads_cons h)))
      rw [hquiet, Option.or_none, tokensAt, List.getLast?_cons_cons]
      cases (s.token offset).unknownNote? <;> rfl

/-- Tokens with their end marks are closed. -/
theorem not_isOpen_of_terminated (offset : Nat) (h : Leads dialect segments tail)
    (hterm : ∀ s ∈ segments, Terminated s.kind s.lexeme) :
    ∀ t ∈ tokensAt offset segments, ¬ t.IsOpen := by
  intro t ht
  obtain ⟨earlier, s, later, rfl, rfl⟩ := mem_tokensAt ht
  rw [isOpen_token_iff (leads_append.1 h).2.1, not_not]
  exact hterm s (by simp)

/-- **Only the last token is open**, and it reaches the end of the text. -/
theorem isOpen_only_last (h : Leads dialect segments tail) (hlimit : sizes segments ≤ Span.limit) :
    (∀ t ∈ (tokensAt 0 segments).dropLast, ¬ t.IsOpen) ∧
      ∀ t ∈ tokensAt 0 segments, t.IsOpen → t.stretch.stop = sizes segments + utf8Len tail := by
  by_cases hopen : ∃ s ∈ segments, ¬ Terminated s.kind s.lexeme
  · obtain ⟨earlier, s, rfl, rfl, hearlier, -⟩ := exists_open h hopen
    have hclosed := not_isOpen_of_terminated 0 (leads_append.1 h).1 hearlier
    rw [tokensAt_append, tokensAt, tokensAt, List.dropLast_concat]
    refine ⟨hclosed, fun t ht ht' => ?_⟩
    rcases List.mem_append.1 ht with ht | ht
    · exact absurd ht' (hclosed t ht)
    · have hsizes : sizes (earlier ++ [s]) = sizes earlier + s.size := by
        rw [sizes_append, sizes_cons]
        rfl
      rw [hsizes] at hlimit ⊢
      rw [List.mem_singleton.1 ht, stretch_token (by omega), Nat.zero_add]
      rfl
  · have hterm : ∀ s ∈ segments, Terminated s.kind s.lexeme := by
      intro s hs
      by_contra hs'
      exact hopen ⟨s, hs, hs'⟩
    have hclosed := not_isOpen_of_terminated 0 h hterm
    exact ⟨fun t ht => hclosed t (List.mem_of_mem_dropLast ht),
      fun t ht ht' => absurd ht' (hclosed t ht)⟩

end Segments

/-- **The notes on a scan can be told from its tokens**, in a text that is not too long: one on each
unknown character, in order, then one on the last token if that is open, and one with the number of
tokens and of bytes. All tokens but the last are closed, and an open one reaches the end of the text. -/
theorem notes_ofText {text : String} (h : text.utf8ByteSize ≤ Span.limit) (dialect : Dialect) :
    let tokens := (Scan.ofText text dialect).tokens
    (Scan.ofText text dialect).notes =
        tokens.filterMap Token.unknownNote? ++ (tokens.getLast?.bind Token.openNote?).toList ++
          [.scanned tokens.length text.utf8ByteSize] ∧
      (∀ t ∈ tokens.dropLast, ¬ t.IsOpen) ∧
      ∀ t ∈ tokens, t.IsOpen → t.stretch.stop = text.utf8ByteSize := by
  intro tokens
  obtain ⟨segments, tail, htext, hsegs, htail⟩ := exists_written dialect text.toList
  have hsize := utf8ByteSize_of_written htext
  have hlimit : sizes segments ≤ Span.limit := by omega
  have htokens : tokens = tokensAt 0 segments := tokens_of_written htext hsegs htail
  have hlength : tokens.length = segments.length := by
    rw [htokens, ← map_token_findsAt dialect 0 segments tail, List.length_map, length_findsAt]
  refine ⟨?_, ?_⟩
  · rw [notes_of_written htext hsegs htail, notes_findsAt hsegs (by omega), hlength, htokens]
  · rw [htokens, hsize]
    exact isOpen_only_last hsegs hlimit

theorem notes_ofText_escaped : "é\"\\\\\\\"".utf8ByteSize ≤ Span.limit ∧
    (Scan.ofText "é\"\\\\\\\"" .plain).notes =
      [.unknownCharacter 0 "é", .unterminatedLiteral 2 .stringLiteral, .scanned 2 7] := by
  have hlimit : "é\"\\\\\\\"".utf8ByteSize ≤ Span.limit := by decide
  have htokens : (Scan.ofText "é\"\\\\\\\"" .plain).tokens =
      [⟨.unknown, "é", ⟨0, 2⟩⟩, ⟨.stringLiteral, "\"\\\\\\\"", ⟨2, 5⟩⟩] := by decide +kernel
  refine ⟨hlimit, ?_⟩
  rw [(notes_ofText hlimit .plain).1, htokens]
  decide +kernel

end TokenDump
