import TokenDump.Proofs.Scanner.Segments
import TokenDump.Proofs.Text.Bytes

/-!
# Where the lexemes lie

A `Stretch` is a kind with two byte offsets. `Covers` says that stretches lie one after the other in a
text with nothing but white space outside them, and `covers_cons` takes it apart at the first of them.
The stretches of segments cover the text that the segments write (`covers_stretchesAt`), and they are
the stretches of the tokens, as far as a span can tell (`map_span_tokensAt`, `map_stretch_tokensAt`).
-/

namespace TokenDump
open CharClass Utf8
open String (utf8Len)

/-- A kind, and the byte offsets between which a lexeme lies. -/
structure Stretch where
  kind : TokenKind
  start : Nat
  stop : Nat
  deriving DecidableEq, Repr

/-- The span of a stretch. -/
def Stretch.span (p : Stretch) : Span := .ofOffsets p.start p.stop

/-- The stretch that a token's span names. -/
def Token.stretch (t : Token) : Stretch := ⟨t.kind, t.span.start.toNat, t.span.stop.toNat⟩

/-- Stretches of a text from an offset on: in order, apart from each other, and with white space in
every byte outside them. -/
structure Covers (text : List UInt8) (offset : Nat) (stretches : List Stretch) : Prop where
  nonempty : ∀ p ∈ stretches, p.start < p.stop
  ordered : stretches.Pairwise (·.stop ≤ ·.start)
  within : ∀ p ∈ stretches, offset ≤ p.start ∧ p.stop ≤ text.length
  blank : ∀ i b, offset ≤ i → text[i]? = some b → (∀ p ∈ stretches, ¬ (p.start ≤ i ∧ i < p.stop)) →
    isBlankByte b = true

section Covers
variable {text : List UInt8} {offset : Nat} {p : Stretch} {stretches : List Stretch}

theorem covers_nil : Covers text offset [] ↔
    ∀ i b, offset ≤ i → text[i]? = some b → isBlankByte b = true := by
  refine ⟨fun h i b hi hb => h.blank i b hi hb (by simp), fun h => ⟨?_, .nil, ?_, ?_⟩⟩
  · simp
  · simp
  · exact fun i b hi hb _ => h i b hi hb

theorem covers_cons : Covers text offset (p :: stretches) ↔
    (offset ≤ p.start ∧ p.start < p.stop ∧ p.stop ≤ text.length) ∧
      (∀ i b, offset ≤ i → i < p.start → text[i]? = some b → isBlankByte b = true) ∧
        Covers text p.stop stretches := by
  constructor
  · rintro ⟨hne, hord, hin, hblank⟩
    obtain ⟨hfirst, hord⟩ := List.pairwise_cons.1 hord
    obtain ⟨hp, hne⟩ := List.forall_mem_cons.1 hne
    obtain ⟨⟨hstart, hstop⟩, hin⟩ := List.forall_mem_cons.1 hin
    refine ⟨⟨hstart, hp, hstop⟩, fun i b hi hi' hb => ?_, hne, hord, ?_, fun i b hi hb hout => ?_⟩
    · refine hblank i b hi hb (List.forall_mem_cons.2 ⟨by omega, fun q hq => ?_⟩)
      have hle := hfirst q hq
      omega
    · exact fun q hq => ⟨hfirst q hq, (hin q hq).2⟩
    · exact hblank i b (by omega) hb (List.forall_mem_cons.2 ⟨by omega, hout⟩)
  · rintro ⟨⟨hstart, hp, hstop⟩, hgap, hne, hord, hin, hblank⟩
    refine ⟨List.forall_mem_cons.2 ⟨hp, hne⟩, List.pairwise_cons.2 ⟨fun q hq => (hin q hq).1, hord⟩,
      List.forall_mem_cons.2 ⟨⟨hstart, hstop⟩, fun q hq => ?_⟩, fun i b hi hb hout => ?_⟩
    · obtain ⟨hq, hq'⟩ := hin q hq
      omega
    · obtain ⟨hout, hlater⟩ := List.forall_mem_cons.1 hout
      by_cases hi' : i < p.start
      · exact hgap i b hi hi' hb
      · exact hblank i b (by omega) hb hlater

/-- There are no more stretches than bytes. -/
theorem Covers.length_le (h : Covers text offset stretches) (hoffset : offset ≤ text.length) :
    offset + stretches.length ≤ text.length := by
  induction stretches generalizing offset with
  | nil => exact hoffset
  | cons p stretches ih =>
    obtain ⟨⟨hstart, hp, hstop⟩, -, hlater⟩ := covers_cons.1 h
    have hle := ih hlater hstop
    rw [List.length_cons]
    omega

end Covers

/-! ## The stretches of segments -/

/-- The stretch of a segment's lexeme. -/
def Segment.stretch (offset : Nat) (s : Segment) : Stretch :=
  ⟨s.kind, offset + utf8Len s.gap, offset + s.size⟩

def stretchesAt : Nat → List Segment → List Stretch
  | _, [] => []
  | offset, s :: segments => s.stretch offset :: stretchesAt (offset + s.size) segments

theorem utf8Len_pos {w : List Char} (h : w ≠ []) : 0 < utf8Len w :=
  Nat.pos_of_ne_zero fun hzero => h (String.utf8Len_eq_zero.1 hzero)

section Segments
variable {dialect : Dialect} {segments : List Segment} {tail : List Char}

/-- **The stretches of the segments that lead a text cover it.** -/
theorem covers_stretchesAt (h : Leads dialect segments tail) (ht : Blank tail) (before : List Char) :
    Covers (bytes (before ++ written segments tail)) (utf8Len before)
      (stretchesAt (utf8Len before) segments) := by
  induction segments generalizing before with
  | nil =>
    refine covers_nil.2 fun i b hi hb => ?_
    have hlen := (List.getElem?_eq_some_iff.1 hb).1
    rw [written, length_bytes, String.utf8Len_append] at hlen
    rw [written, ← List.append_nil tail] at hb
    exact isBlankByte_of_mem_bytes ht (mem_bytes_of_getElem? hi hlen hb)
  | cons s segments ih =>
    have hpos := utf8Len_pos h.1.lexeme_ne_nil
    have hrest := ih h.2 (before ++ (s.gap ++ s.lexeme))
    have hsize : utf8Len (before ++ (s.gap ++ s.lexeme)) = utf8Len before + s.size := by
      rw [String.utf8Len_append, String.utf8Len_append, Segment.size]
    have hsplit : before ++ (s.gap ++ s.lexeme) ++ written segments tail =
        before ++ (s.gap ++ (s.lexeme ++ written segments tail)) := by
      simp only [List.append_assoc]
    rw [hsize, hsplit] at hrest
    refine covers_cons.2 ⟨⟨Nat.le_add_right _ _, ?_, ?_⟩, fun i b hi hi' hb => ?_, hrest⟩
    · rw [Segment.stretch, Segment.size]
      show _ + _ < _ + (_ + _)
      omega
    · rw [written, ← hsplit, length_bytes, String.utf8Len_append, hsize]
      exact Nat.le_add_right _ _
    · exact isBlankByte_of_mem_bytes h.1.blank (mem_bytes_of_getElem? hi hi' hb)

theorem map_span_tokensAt (offset : Nat) (segments : List Segment) :
    (tokensAt offset segments).map (fun t => (t.kind, t.span)) =
      (stretchesAt offset segments).map (fun p => (p.kind, p.span)) := by
  induction segments generalizing offset with
  | nil => rfl
  | cons s segments ih => rw [tokensAt, List.map_cons, ih, stretchesAt, List.map_cons]; rfl

theorem stretch_token {offset : Nat} {s : Segment} (h : offset + s.size ≤ Span.limit) :
    (s.token offset).stretch = s.stretch offset := by
  have hgap : utf8Len s.gap ≤ s.size := Nat.le_add_right _ _
  rw [Segment.token, Token.stretch, Span.start_ofOffsets, Span.stop_ofOffsets, Span.toNat_clip,
    Span.toNat_clip, Nat.min_eq_left (by omega), Nat.min_eq_left h, Segment.stretch]

theorem map_stretch_tokensAt (offset : Nat) (segments : List Segment)
    (h : offset + sizes segments ≤ Span.limit) :
    (tokensAt offset segments).map Token.stretch = stretchesAt offset segments := by
  induction segments generalizing offset with
  | nil => rfl
  | cons s segments ih =>
    rw [sizes_cons] at h
    rw [tokensAt, List.map_cons, stretch_token (by omega), ih _ (by omega), stretchesAt]

end Segments

end TokenDump
