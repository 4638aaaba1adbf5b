import TokenDump.Proofs.Scanner.Stretches

/-!
# Tokens tile their text

The spans of a scan cut the text up without loss: every byte is in the lexeme of one token, or it is
white space between two (`tiles_ofText`). The lexemes are what the spans name, so that gluing gaps and
lexemes together gives the text back.
-/

namespace TokenDump
open CharClass Utf8
open String (utf8Len)

/-- The gaps and the lexemes of some tokens of a text from an offset on, glued together. -/
def glued (text : List UInt8) : Nat → List Token → List UInt8
  | offset, [] => text.drop offset
  | offset, t :: tokens =>
    text.extract offset t.stretch.start ++ (encode t.lexeme ++ glued text t.stretch.stop tokens)

/-- Tokens that cut up a text. -/
structure Tiles (text : List UInt8) (tokens : List Token) : Prop where
  covers : Covers text 0 (tokens.map Token.stretch)
  lexeme_eq : ∀ t ∈ tokens, encode t.lexeme = text.extract t.stretch.start t.stretch.stop
  starts : ∀ t ∈ tokens, ∃ b, (encode t.lexeme).head? = some b ∧ isBlankByte b = false
  glued_eq : glued text 0 tokens = text
  length_le : tokens.length ≤ text.length

section Tiles
variable {text : List UInt8} {offset : Nat} {tokens : List Token}

/-- Where lexemes are what the spans name, gluing loses nothing. -/
theorem glued_eq_drop (h : Covers text offset (tokens.map Token.stretch))
    (hlex : ∀ t ∈ tokens, encode t.lexeme = text.extract t.stretch.start t.stretch.stop) :
    glued text offset tokens = text.drop offset := by
  induction tokens generalizing offset with
  | nil => rfl
  | cons t tokens ih =>
    obtain ⟨⟨hstart, hlt, -⟩, -, hlater⟩ := covers_cons.1 h
    obtain ⟨ht, hlex⟩ := List.forall_mem_cons.1 hlex
    have hjoin : ∀ {a b : Nat}, a ≤ b → text.extract a b ++ text.drop b = text.drop a := by
      intro a b hab
      rw [List.extract_eq_take_drop, ← Nat.add_sub_cancel' hab, ← List.drop_drop,
        Nat.add_sub_cancel_left, List.take_append_drop]
    rw [glued, ht, ih hlater hlex, hjoin hlt.le, hjoin hstart]

/-- Stretches and lexemes make the rest of a tiling. -/
theorem tiles_of_covers (h : Covers text 0 (tokens.map Token.stretch))
    (hlex : ∀ t ∈ tokens, encode t.lexeme = text.extract t.stretch.start t.stretch.stop)
    (hstarts : ∀ t ∈ tokens, ∃ b, (encode t.lexeme).head? = some b ∧ isBlankByte b = false) :
    Tiles text tokens := by
  refine ⟨h, hlex, hstarts, glued_eq_drop h hlex, ?_⟩
  have hle := h.length_le (Nat.zero_le _)
  rwa [Nat.zero_add, List.length_map] at hle

end Tiles

section Segments
variable {dialect : Dialect} {segments : List Segment} {tail : List Char} {t : Token}

theorem encode_lexeme_eq_extract (hlimit : sizes segments ≤ Span.limit)
    (h : t ∈ tokensAt 0 segments) : encode t.lexeme =
      (bytes (written segments tail)).extract t.stretch.start t.stretch.stop := by
  obtain ⟨earlier, s, later, rfl, rfl⟩ := mem_tokensAt h
  rw [sizes_append, sizes_cons] at hlimit
  have hstretch : (s.token (0 + sizes earlier)).stretch = s.stretch (sizes earlier) := by
    rw [Nat.zero_add, stretch_token (by omega)]
  have hsplit : written (earlier ++ s :: later) tail =
      written earlier s.gap ++ (s.lexeme ++ written later tail) := by
    rw [written_append, written, written_eq, written_eq earlier s.gap, List.append_assoc]
  have hlen : utf8Len (written earlier s.gap) = sizes earlier + utf8Len s.gap := utf8Len_written _ _
  rw [hstretch, hsplit, Segment.stretch, Segment.size, ← Nat.add_assoc, ← hlen, extract_bytes,
    Segment.token, encode_ofList]

theorem exists_head?_encode_lexeme (hsegs : Leads dialect segments tail)
    (h : t ∈ tokensAt 0 segments) : ∃ b, (encode t.lexeme).head? = some b ∧ isBlankByte b = false := by
  obtain ⟨earlier, s, later, rfl, rfl⟩ := mem_tokensAt h
  obtain ⟨-, hs, -⟩ := leads_append.1 hsegs
  obtain ⟨c, w, hw, hc⟩ := hs.exists_lexeme_eq
  obtain ⟨b, hb, hblank⟩ := exists_getElem?_bytes [] c w
  refine ⟨b, ?_, ?_⟩
  · rw [Segment.token, encode_ofList, hw, List.head?_eq_getElem?]
    exact hb
  · rwa [hblank, ← Bool.not_eq_true]

end Segments

/-- **The tokens of a text tile it**: their spans are not empty, in order and disjoint, the lexemes are
the bytes there, and all other bytes are white space. -/
theorem tiles_ofText {text : String} (h : text.utf8ByteSize ≤ Span.limit) (dialect : Dialect) :
    Tiles (encode text) (Scan.ofText text dialect).tokens := by
  obtain ⟨segments, tail, htext, hsegs, htail⟩ := exists_written dialect text.toList
  rw [utf8ByteSize_of_written htext] at h
  have hlimit : sizes segments ≤ Span.limit := by omega
  rw [tokens_of_written htext hsegs htail, encode_eq_bytes, htext]
  refine tiles_of_covers ?_ (fun t ht => encode_lexeme_eq_extract hlimit ht)
    fun t ht => exists_head?_encode_lexeme hsegs ht
  rw [map_stretch_tokensAt 0 segments (by omega)]
  exact covers_stretchesAt hsegs htail []

theorem tiles_openComment : "é /*/".utf8ByteSize ≤ Span.limit ∧
    Tiles (encode "é /*/") [⟨.unknown, "é", ⟨0, 2⟩⟩, ⟨.blockComment, "/*/", ⟨3, 3⟩⟩] := by
  have hlimit : "é /*/".utf8ByteSize ≤ Span.limit := by decide
  have htokens : (Scan.ofText "é /*/" .plain).tokens =
      [⟨.unknown, "é", ⟨0, 2⟩⟩, ⟨.blockComment, "/*/", ⟨3, 3⟩⟩] := by decide +kernel
  rw [← htokens]
  exact ⟨hlimit, tiles_ofText hlimit .plain⟩

end TokenDump
