import TokenDump.Proofs.Dump.Lines
import TokenDump.Proofs.Scanner.Stretches

/-!
# Reading plain lines with spans back

A line that ends with a span can be read from its end, whatever the lexeme holds: the two offsets are
runs of digits, their difference is the number of bytes of the lexeme, and the name before the lexeme
starts where the line before it ends (`line_unique`). So the lines of any tokens whose spans count the
bytes of their lexemes are those of no other tokens, as one line after the other is read off the end
(`visible_eq_of_text_eq`).
-/

namespace TokenDump
open Text Utf8
open String (utf8Len)

/-- The span counts the bytes of the lexeme and lies among the offsets that a word can hold. -/
structure Measured (t : Token) : Prop where
  length_eq : t.span.length.toNat = t.lexeme.utf8ByteSize
  stop_le : t.span.start.toNat + t.span.length.toNat ≤ Span.limit

section Measured
variable {t : Token} {dialect : Dialect} {segments : List Segment}

theorem Measured.toNat_stop (h : Measured t) :
    t.span.stop.toNat = t.span.start.toNat + utf8Len t.lexeme.toList := by
  have hstop := h.stop_le
  rw [Span.stop, UInt32.toNat_add, Nat.mod_eq_of_lt (by simp only [Span.limit] at hstop; omega),
    h.length_eq, String.utf8Len_toList]

/-- The token of a segment is measured where its offsets are not clipped. -/
theorem measured_token {offset : Nat} {s : Segment} (h : offset + s.size ≤ Span.limit) :
    Measured (s.token offset) := by
  have hsize : s.size = utf8Len s.gap + utf8Len s.lexeme := rfl
  have hstart : (s.token offset).span.start.toNat = offset + utf8Len s.gap := by
    rw [Segment.token, Span.start_ofOffsets, Span.toNat_clip, Nat.min_eq_left (by omega)]
  have hlength : (s.token offset).span.length.toNat = utf8Len s.lexeme := by
    rw [Segment.token, Span.toNat_length_ofOffsets (by omega), Nat.min_eq_left h,
      Nat.min_eq_left (by omega)]
    omega
  refine ⟨?_, by omega⟩
  rw [hlength, Segment.token, String.utf8ByteSize_ofList]

end Measured

theorem measured_ofText {text : String} (h : text.utf8ByteSize ≤ Span.limit) (dialect : Dialect) :
    ∀ t ∈ (Scan.ofText text dialect).tokens, Measured t := by
  intro t ht
  obtain ⟨segments, tail, htext, hsegs, htail⟩ := exists_written dialect text.toList
  rw [utf8ByteSize_of_written htext] at h
  rw [tokens_of_written htext hsegs htail] at ht
  obtain ⟨earlier, s, later, rfl, rfl⟩ := mem_tokensAt ht
  rw [sizes_append, sizes_cons] at h
  exact measured_token (by omega)

/-! ## One line off the end -/

section Lines
variable {a a' : List Char} {t t' : Token} {tokens tokens' : List Token}

/-- The end of a text is known by its number of bytes. -/
theorem eq_of_utf8Len_end {w w' : List Char} (h : a ++ w = a' ++ w') (hlen : utf8Len w = utf8Len w') :
    a = a' ∧ w = w' := by
  have hsizes := congrArg utf8Len h
  rw [String.utf8Len_append, String.utf8Len_append] at hsizes
  exact eq_of_utf8Len_eq h (by omega)

theorem toList_line_span (t : Token) : (Dump.line true t).toList =
    t.kind.name.toList ++ ([' '] ++ (t.lexeme.toList ++ ([' '] ++ (['@'] ++
      ((Nat.repr t.span.start.toNat).toList ++ (['.'] ++ (['.'] ++
        ((Nat.repr t.span.stop.toNat).toList ++ ['\n'])))))))) := by
  show (t.kind.name ++ " " ++ t.lexeme ++ " @" ++
    (Nat.repr t.span.start.toNat ++ ".." ++ Nat.repr t.span.stop.toNat) ++ "\n").toList = _
  simp only [String.toList_append, List.append_assoc]
  rfl

/-- **The last line of a dump is known from the dump**, and so is all before it. -/
theorem line_unique (ha : Stops (· != '\n') a.reverse) (ha' : Stops (· != '\n') a'.reverse)
    (ht : Measured t) (ht' : Measured t')
    (h : a ++ (Dump.line true t).toList = a' ++ (Dump.line true t').toList) : a = a' ∧ t = t' := by
  simp only [toList_line_span, ← List.append_assoc] at h
  have hstop := List.append_cancel_right h
  obtain ⟨hdots, hstop⟩ := repr_unique_end (stops_reverse_concat.2 rfl) (stops_reverse_concat.2 rfl) hstop
  have hstart := List.append_cancel_right (List.append_cancel_right hdots)
  obtain ⟨hat, hstart⟩ :=
    repr_unique_end (stops_reverse_concat.2 rfl) (stops_reverse_concat.2 rfl) hstart
  have hlexeme := List.append_cancel_right (List.append_cancel_right hat)
  -- The offsets tell how many bytes at the end are the lexeme.
  have hsize : utf8Len t.lexeme.toList = utf8Len t'.lexeme.toList := by
    have h₁ := ht.toNat_stop
    have h₂ := ht'.toNat_stop
    omega
  obtain ⟨hfront, hlexeme⟩ := eq_of_utf8Len_end hlexeme hsize
  obtain ⟨hbefore, hname⟩ := run_unique_end (fun c hc => (t.kind.bne_of_mem_name c hc).2)
    (fun c hc => (t'.kind.bne_of_mem_name c hc).2) ha ha' (List.append_cancel_right hfront)
  exact ⟨hbefore, Token.eq_of_parts (TokenKind.name_injective (String.toList_inj.1 hname))
    (String.toList_inj.1 hlexeme) (UInt32.toNat_inj.1 hstart) (UInt32.toNat_inj.1 hstop)⟩

/-! ## All lines -/

theorem stops_lines (tokens : List Token) :
    Stops (· != '\n') (tokens.flatMap fun t => (Dump.line true t).toList).reverse := by
  induction tokens using List.reverseRecOn with
  | nil => exact stops_nil
  | append_singleton tokens t _ =>
    rw [List.flatMap_append, List.flatMap_singleton, toList_line_span]
    simp only [← List.append_assoc]
    exact stops_reverse_concat.2 rfl

theorem line_span_ne_nil (t : Token) : (Dump.line true t).toList ≠ [] := by
  rw [toList_line_span]
  simp only [← List.append_assoc]
  exact List.append_ne_nil_of_right_ne_nil _ (by decide)

/-- **Measured tokens are known from their lines.** -/
theorem eq_of_span_lines_eq (h : ∀ t ∈ tokens, Measured t) (h' : ∀ t ∈ tokens', Measured t)
    (heq : (tokens.flatMap fun t => (Dump.line true t).toList) =
      tokens'.flatMap fun t => (Dump.line true t).toList) : tokens = tokens' := by
  induction tokens using List.reverseRecOn generalizing tokens' with
  | nil =>
    rcases tokens' with _ | ⟨t', tokens'⟩
    · rfl
    · exact absurd (List.append_eq_nil_iff.1 heq.symm).1 (line_span_ne_nil t')
  | append_singleton tokens t ih =>
    rcases List.eq_nil_or_concat' tokens' with rfl | ⟨tokens', t', rfl⟩
    · rw [List.flatMap_append, List.flatMap_singleton] at heq
      exact absurd (List.append_eq_nil_iff.1 heq).2 (line_span_ne_nil t)
    · rw [List.forall_mem_append, List.forall_mem_singleton] at h h'
      simp only [List.flatMap_append, List.flatMap_singleton] at heq
      obtain ⟨hlines, rfl⟩ := line_unique (stops_lines tokens) (stops_lines tokens') h.2 h'.2 heq
      rw [ih h.1 h'.1 hlines]

end Lines

/-- **Lines with spans can be read back**: where the plain dumps of two lists of tokens are the same, so
are the tokens that they show, whatever the lexemes hold, if each span counts the bytes of its lexeme.
In the scan of a text that is not too long it does. -/
theorem visible_eq_of_text_eq {tokens tokens' : List Token} {skip skip' : Bool}
    (ht : ∀ t ∈ tokens, Measured t) (ht' : ∀ t ∈ tokens', Measured t)
    (h : Dump.text ⟨.plain, skip, true⟩ tokens = Dump.text ⟨.plain, skip', true⟩ tokens') :
    Dump.shown skip tokens = Dump.shown skip' tokens' ∧
      ∀ (text : String) (dialect : Dialect), text.utf8ByteSize ≤ Span.limit →
        ∀ t ∈ (Scan.ofText text dialect).tokens, Measured t := by
  refine ⟨eq_of_span_lines_eq (fun t hmem => ht t (List.mem_of_mem_filter hmem))
    (fun t hmem => ht' t (List.mem_of_mem_filter hmem)) ?_,
    fun text dialect hsize => measured_ofText hsize dialect⟩
  have hlines := congrArg String.toList h
  rwa [toList_text_plain rfl, toList_text_plain rfl] at hlines

theorem visible_eq_fake_line :
    let fake : Token := ⟨.unknown, " @0..2\nTOK_DOT é", ⟨4294967278, 17⟩⟩
    let note : Token := ⟨.lineComment, "", ⟨3, 0⟩⟩
    (∀ t ∈ [fake, note], Measured t) ∧ (∀ t ∈ [fake], Measured t) ∧
      Dump.text ⟨.plain, true, true⟩ [fake, note] = Dump.text ⟨.plain, false, true⟩ [fake] ∧
      Dump.shown true [fake, note] = Dump.shown false [fake] ∧
      ("a b".utf8ByteSize ≤ Span.limit ∧ ∀ t ∈ (Scan.ofText "a b" .plain).tokens, Measured t) := by
  intro fake note
  have hfake : Measured fake := ⟨by decide, by decide⟩
  have hnote : Measured note := ⟨by decide, by decide⟩
  have ht : ∀ t ∈ [fake, note], Measured t :=
    List.forall_mem_cons.2 ⟨hfake, List.forall_mem_singleton.2 hnote⟩
  have ht' : ∀ t ∈ [fake], Measured t := List.forall_mem_singleton.2 hfake
  have htext : Dump.text ⟨.plain, true, true⟩ [fake, note] =
      Dump.text ⟨.plain, false, true⟩ [fake] := by decide +kernel
  have hsize : "a b".utf8ByteSize ≤ Span.limit := by decide
  obtain ⟨hvisible, hscan⟩ := visible_eq_of_text_eq ht ht' htext
  exact ⟨ht, ht', htext, hvisible, hsize, hscan "a b" .plain hsize⟩

end TokenDump
