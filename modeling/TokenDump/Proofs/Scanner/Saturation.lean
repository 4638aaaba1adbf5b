import TokenDump.Proofs.Scanner.ExtendedNumbers

/-!
# Spans of texts of any length

A find knows its two byte offsets as they are, and the span of its token knows them up to the largest
word. Clipping keeps the order of offsets, so the words of a span are in order and no arithmetic on them
leaves their range (`ofBounds?_clip`, `stop?_ofOffsets`). Every find stops behind its start, and the next
one starts no earlier than that (`before_finds`): with this, an empty span tells that the start was
clipped, a span that is too short that the stop was, and the spans of a text are in order
(`spans_saturate`).
-/

namespace TokenDump
open String (utf8Len)

namespace Span

/-- The span between two words, none if the second is in front of the first. -/
def ofBounds? (start stop : UInt32) : Option Span :=
  if start ≤ stop then some (ofBounds start stop) else none

/-- The offset just after the last byte, none if it is beyond the largest word. -/
def stop? (s : Span) : Option UInt32 :=
  if s.start.toNat + s.length.toNat ≤ limit then some s.stop else none

section Offsets
variable {start stop : Nat}

theorem ofBounds?_clip (h : start ≤ stop) :
    ofBounds? (clip start) (clip stop) = some (ofOffsets start stop) :=
  if_pos (clip_le_clip h)

theorem stop?_ofOffsets (h : start ≤ stop) : (ofOffsets start stop).stop? = some (clip stop) := by
  have hle : (ofOffsets start stop).start.toNat + (ofOffsets start stop).length.toNat ≤ limit := by
    rw [start_ofOffsets, toNat_clip, toNat_length_ofOffsets h]
    omega
  rw [stop?, if_pos hle, stop_ofOffsets]

/-- The length is right as long as the stop is not clipped. -/
theorem length_eq_iff (h : start < stop) :
    (ofOffsets start stop).length.toNat = stop - start ↔ stop ≤ limit := by
  rw [toNat_length_ofOffsets h.le]
  omega

/-- The span is empty as soon as the start is clipped, or would be. -/
theorem isEmpty_iff (h : start < stop) : (ofOffsets start stop).isEmpty = true ↔ limit ≤ start := by
  rw [isEmpty, beq_iff_eq, ← UInt32.toNat_inj, toNat_length_ofOffsets h.le, UInt32.toNat_zero]
  omega

end Offsets
end Span

/-! ## Finds in order -/

/-- One find in front of another. -/
structure Find.Before (f g : Find) : Prop where
  start_lt : f.start < f.stop
  stop_le : f.stop ≤ g.start
  next_lt : g.start < g.stop

section Ordered
variable {dialect : Dialect} {segments : List Segment} {rest : List Char}

/-- **Finds follow one another.** A segment is found from its gap on, and what is in front of the gap has
stopped there. -/
theorem before_findsAt (h : Leads dialect segments rest) (offset : Nat) :
    (findsAt dialect offset segments rest).Pairwise Find.Before := by
  induction segments generalizing offset with
  | nil => exact .nil
  | cons s segments ih =>
    refine List.pairwise_cons.2 ⟨fun g hg => ?_, ih h.2 _⟩
    have hpos := h.1.size_pos
    obtain ⟨hle, hlt, -⟩ := bounds_findsAt h.2 hg
    refine ⟨?_, hle, hlt⟩
    rw [Segment.start_find, Segment.stop_find]
    omega

theorem before_finds (dialect : Dialect) (cs : List Char) (offset : Nat) :
    (scannerAt dialect cs offset).finds.Pairwise Find.Before := by
  obtain ⟨segments, tail, -, hsegs, -, hfinds⟩ := exists_finds_eq dialect cs
  rw [hfinds]
  exact before_findsAt hsegs offset

end Ordered

/-! ## Spans of finds -/

/-- The lexeme of a find stands in a text between the offsets of the find. -/
structure Find.Stands (text : String) (f : Find) : Prop where
  exists_eq : ∃ before behind : String,
    text = before ++ f.token.lexeme ++ behind ∧ before.utf8ByteSize = f.start
  stop_eq : f.stop = f.start + f.token.lexeme.utf8ByteSize
  start_lt : f.start < f.stop

/-- The span of a find holds its offsets as far as words go. -/
structure Find.Saturates (f : Find) : Prop where
  start_eq : f.token.span.start.toNat = min f.start Span.limit
  stop_eq : f.token.span.stop.toNat = min f.stop Span.limit
  made : Span.ofBounds? (Span.clip f.start) (Span.clip f.stop) = some f.token.span
  stopped : f.token.span.stop? = some f.token.span.stop
  length_iff : f.token.span.length.toNat = f.token.lexeme.utf8ByteSize ↔ f.stop ≤ Span.limit
  isEmpty_iff : f.token.span.isEmpty = true ↔ Span.limit ≤ f.start

/-- One token in front of another, by their spans. -/
structure Token.Before (t u : Token) : Prop where
  start_le : t.span.start ≤ u.span.start
  stop_le : t.span.stop ≤ u.span.stop
  stop_le_start : t.span.stop ≤ u.span.start

section Saturates
variable {dialect : Dialect} {text : String} {f g : Find}

theorem Segment.stands_find {s : Segment} {before rest : List Char} (h : s.Fits dialect rest)
    (htext : text.toList = before ++ (s.lexeme ++ rest)) :
    (s.bare.find dialect (utf8Len before) rest).Stands text := by
  have hlexeme : (s.bare.find dialect (utf8Len before) rest).token.lexeme = String.ofList s.lexeme := rfl
  refine ⟨⟨String.ofList before, String.ofList rest, ?_, ?_⟩, ?_, ?_⟩
  · apply String.toList_injective
    simp only [htext, hlexeme, String.toList_append, String.toList_ofList, List.append_assoc]
  · rw [String.utf8ByteSize_ofList]
    rfl
  · rw [hlexeme, Segment.stop_find, Segment.size_bare, String.utf8ByteSize_ofList]
    rfl
  · have hpos := h.bare.size_pos
    rw [Segment.start_find, Segment.stop_find]
    omega

theorem stands_of_mem_finds (hf : f ∈ (scannerAt dialect text.toList 0).finds) : f.Stands text := by
  obtain ⟨before, s, rest, -, htext, hs, rfl, -⟩ := exists_place hf
  exact s.stands_find hs htext

theorem Find.Stands.saturates (h : f.Stands text) (hspan : f.token.span = .ofOffsets f.start f.stop) :
    f.Saturates := by
  have hlt := h.start_lt
  have hsize : f.token.lexeme.utf8ByteSize = f.stop - f.start := by
    have hstop := h.stop_eq
    omega
  refine ⟨?_, ?_, ?_, ?_, ?_, ?_⟩
  · rw [hspan, Span.start_ofOffsets, Span.toNat_clip]
  · rw [hspan, Span.stop_ofOffsets, Span.toNat_clip]
  · rw [hspan, Span.ofBounds?_clip hlt.le]
  · rw [hspan, Span.stop?_ofOffsets hlt.le, Span.stop_ofOffsets]
  · rw [hspan, hsize]
    exact Span.length_eq_iff hlt
  · rw [hspan]
    exact Span.isEmpty_iff hlt

/-- Clipping keeps tokens in order. -/
theorem Find.Before.token (h : f.Before g) (hf : f.token.span = .ofOffsets f.start f.stop)
    (hg : g.token.span = .ofOffsets g.start g.stop) : f.token.Before g.token := by
  have hstart := h.start_lt
  have hstop := h.stop_le
  have hnext := h.next_lt
  refine ⟨?_, ?_, ?_⟩
  · rw [hf, hg, Span.start_ofOffsets, Span.start_ofOffsets]
    exact Span.clip_le_clip (by omega)
  · rw [hf, hg, Span.stop_ofOffsets, Span.stop_ofOffsets]
    exact Span.clip_le_clip (by omega)
  · rw [hf, hg, Span.stop_ofOffsets, Span.start_ofOffsets]
    exact Span.clip_le_clip hstop

end Saturates

/-- **Spans are sound in texts of any length.** The tokens of a text are those of its finds, each of which
stands in the text between its offsets. The span of a token is made and ended within words, holds both
offsets up to the largest word, has the length of the lexeme exactly if the stop is not beyond that, and is
empty exactly if the start is not in front of that; and the spans are in order. -/
theorem spans_saturate (text : String) (dialect : Dialect) :
    let finds := (Scanner.ofText text dialect).finds
    let tokens := (Scan.ofText text dialect).tokens
    tokens = finds.map (·.token) ∧ (∀ f ∈ finds, f.Stands text ∧ f.Saturates) ∧
      tokens.Pairwise Token.Before := by
  intro finds tokens
  have hspan : ∀ f ∈ finds, f.token.span = .ofOffsets f.start f.stop := fun f hf => span_of_mem_finds hf
  refine ⟨rfl, fun f hf => ?_, ?_⟩
  · have hstands := stands_of_mem_finds hf
    exact ⟨hstands, hstands.saturates (hspan f hf)⟩
  · have hbefore : finds.Pairwise Find.Before := before_finds dialect text.toList 0
    exact List.pairwise_map.2 (hbefore.imp_of_mem fun hf hg h => h.token (hspan _ hf) (hspan _ hg))

end TokenDump
