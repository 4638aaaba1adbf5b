import TokenDump.Proofs.Scanner.Stretches

/-!
# Scanning is lexing by the grammar

`Lexed` is what the lexical grammar says about a whole text, with no scanner in it: stretches cover the
text, and each holds a lexeme of its kind. A text is covered in one way at most (`eq_of_covers`), and the
tokens of its scan cover it (`lexed_iff`).
-/

namespace TokenDump
open CharClass Utf8
open String (utf8Len)

/-- A stretch of a text holds a lexeme of its kind. -/
def Holds (dialect : Dialect) (text : List Char) (p : Stretch) : Prop :=
  ∃ before w after, text = before ++ (w ++ after) ∧ p.start = utf8Len before ∧
    p.stop = utf8Len before + utf8Len w ∧ Lexical dialect (w ++ after) w p.kind

/-- Stretches cut a text into lexemes and white space. -/
structure Lexed (dialect : Dialect) (text : String) (stretches : List Stretch) : Prop where
  covers : Covers (encode text) 0 stretches
  lexical : ∀ p ∈ stretches, Holds dialect text.toList p

section Holds
variable {dialect : Dialect} {text before rest : List Char} {p q : Stretch} {s : Segment}

theorem Segment.Fits.holds (h : s.Fits dialect rest) (before : List Char) :
    Holds dialect (before ++ (s.gap ++ (s.lexeme ++ rest))) (s.stretch (utf8Len before)) := by
  refine ⟨before ++ s.gap, s.lexeme, rest, ?_, ?_, ?_, h.lexical⟩
  · rw [List.append_assoc]
  · rw [String.utf8Len_append]
    rfl
  · rw [String.utf8Len_append, Nat.add_assoc]
    rfl

/-- A lexeme starts with a byte that is not white space. -/
theorem Holds.exists_start (h : Holds dialect text p) :
    ∃ b, (bytes text)[p.start]? = some b ∧ isBlankByte b = false := by
  obtain ⟨before, w, after, rfl, hstart, -, hlex⟩ := h
  obtain ⟨c, cs, hcs⟩ := List.exists_cons_of_ne_nil hlex.ne_nil
  rw [hcs] at hlex
  rw [hcs, hstart]
  obtain ⟨b, hb, hblank⟩ := exists_getElem?_bytes before c cs
  refine ⟨b, hb, ?_⟩
  rw [hblank, ← Bool.not_eq_true]
  exact hlex.not_isBlank

/-- One lexeme at most starts at a byte. -/
theorem Holds.unique (hp : Holds dialect text p) (hq : Holds dialect text q)
    (hstart : p.start = q.start) : p = q := by
  obtain ⟨before, w, after, rfl, hp₁, hp₂, hp⟩ := hp
  obtain ⟨before', w', after', htext, hq₁, hq₂, hq⟩ := hq
  obtain ⟨rfl, hrest⟩ := eq_of_utf8Len_eq htext (by omega)
  rw [← hrest] at hq
  obtain ⟨rfl, hkind⟩ := hp.unique hq
  have hstop : p.stop = q.stop := by omega
  cases p
  cases q
  rw [Stretch.mk.injEq]
  exact ⟨hkind, hstart, hstop⟩

/-- Nothing but white space before `q` leaves no room for a lexeme there. -/
theorem start_le_start {offset : Nat} (hp : Holds dialect text p) (hoffset : offset ≤ p.start)
    (hblank : ∀ i b, offset ≤ i → i < q.start → (bytes text)[i]? = some b → isBlankByte b = true) :
    q.start ≤ p.start := by
  obtain ⟨b, hb, hb'⟩ := hp.exists_start
  by_contra hlt
  have hb'' := hblank p.start b hoffset (by omega) hb
  rw [hb'] at hb''
  cases hb''

theorem not_covers_nil {offset : Nat} (hp : Holds dialect text p) (hoffset : offset ≤ p.start) :
    ¬ Covers (bytes text) offset [] := by
  intro hnil
  obtain ⟨b, hb, hb'⟩ := hp.exists_start
  have hblank := covers_nil.1 hnil p.start b hoffset hb
  rw [hb'] at hblank
  cases hblank

/-- **A text is covered with lexemes in one way only.** -/
theorem eq_of_covers {offset : Nat} {ps qs : List Stretch} (hps : Covers (bytes text) offset ps)
    (hqs : Covers (bytes text) offset qs) (hp : ∀ p ∈ ps, Holds dialect text p)
    (hq : ∀ q ∈ qs, Holds dialect text q) : ps = qs := by
  induction ps generalizing offset qs with
  | nil =>
    cases qs with
    | nil => rfl
    | cons q qs =>
      exact absurd hps (not_covers_nil (hq q List.mem_cons_self) (covers_cons.1 hqs).1.1)
  | cons p ps ih =>
    obtain ⟨hp, hlater⟩ := List.forall_mem_cons.1 hp
    obtain ⟨⟨hle, -, -⟩, hgap, hps⟩ := covers_cons.1 hps
    cases qs with
    | nil => exact absurd hqs (not_covers_nil hp hle)
    | cons q qs =>
      obtain ⟨hq, hlater'⟩ := List.forall_mem_cons.1 hq
      obtain ⟨⟨hle', -, -⟩, hgap', hqs⟩ := covers_cons.1 hqs
      -- Both start where the first byte stands that is not white space.
      have hstart : p.start = q.start :=
        le_antisymm (start_le_start hq hle' hgap) (start_le_start hp hle hgap')
      obtain rfl := hp.unique hq hstart
      rw [ih hps hqs hlater hlater']

end Holds

theorem holds_stretchesAt {dialect : Dialect} {segments : List Segment} {tail : List Char}
    (h : Leads dialect segments tail) (before : List Char) :
    ∀ p ∈ stretchesAt (utf8Len before) segments,
      Holds dialect (before ++ written segments tail) p := by
  induction segments generalizing before with
  | nil =>
    intro p hp
    cases hp
  | cons s segments ih =>
    have hrest := ih h.2 (before ++ (s.gap ++ s.lexeme))
    rw [String.utf8Len_append, String.utf8Len_append, ← Segment.size] at hrest
    simp only [List.append_assoc] at hrest
    exact List.forall_mem_cons.2 ⟨h.1.holds before, hrest⟩

/-- **The scan of a text is the one way to cut it up by the grammar.** The spans are those of the
stretches, clipped; in a text that is not too long they are the stretches themselves. -/
theorem lexed_iff (text : String) (dialect : Dialect) : ∃ stretches,
    (∀ ps, Lexed dialect text ps ↔ ps = stretches) ∧
      (Scan.ofText text dialect).tokens.map (fun t => (t.kind, t.span)) =
        stretches.map (fun p => (p.kind, p.span)) ∧
      (text.utf8ByteSize ≤ Span.limit →
        (Scan.ofText text dialect).tokens.map Token.stretch = stretches) := by
  obtain ⟨segments, tail, htext, hsegs, htail⟩ := exists_written dialect text.toList
  have hcovers : Covers (bytes text.toList) 0 (stretchesAt 0 segments) := by
    rw [htext]
    exact covers_stretchesAt hsegs htail []
  have hholds : ∀ p ∈ stretchesAt 0 segments, Holds dialect text.toList p := by
    rw [htext]
    exact holds_stretchesAt hsegs []
  refine ⟨stretchesAt 0 segments, fun ps => ⟨?_, ?_⟩, ?_, ?_⟩
  · rintro ⟨hcovers', hholds'⟩
    rw [encode_eq_bytes] at hcovers'
    exact eq_of_covers hcovers' hcovers hholds' hholds
  · rintro rfl
    refine ⟨?_, hholds⟩
    rwa [encode_eq_bytes]
  · rw [tokens_of_written htext hsegs htail, map_span_tokensAt]
  · intro h
    rw [utf8ByteSize_of_written htext] at h
    rw [tokens_of_written htext hsegs htail, map_stretch_tokensAt 0 segments (by omega)]

theorem lexed_exponent : "1e+2->".utf8ByteSize ≤ Span.limit ∧
    ∀ ps, Lexed ⟨true, false⟩ "1e+2->" ps ↔ ps = [⟨.number, 0, 4⟩, ⟨.punctuation, 4, 6⟩] := by
  have hlimit : "1e+2->".utf8ByteSize ≤ Span.limit := by decide
  have htokens : (Scan.ofText "1e+2->" ⟨true, false⟩).tokens.map Token.stretch =
      [⟨.number, 0, 4⟩, ⟨.punctuation, 4, 6⟩] := by decide +kernel
  obtain ⟨stretches, hlexed, -, htokens'⟩ := lexed_iff "1e+2->" ⟨true, false⟩
  rw [← htokens, htokens' hlimit]
  exact ⟨hlimit, hlexed⟩

end TokenDump
