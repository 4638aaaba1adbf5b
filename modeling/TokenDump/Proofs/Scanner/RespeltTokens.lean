import TokenDump.Proofs.Scanner.Respelling
import TokenDump.Proofs.Scanner.Stretches

/-!
# Tokens in another spelling

The tokens of a text in another spelling are those of the text, each with its lexeme spelt so and where
that stands (`Respelling.tokens_apply`): segments that fit are spelt as segments that fit, and the run
follows by induction. So the tokens do not depend on whether line feeds have a carriage return in front
(`ofText_crlf`), nor on which characters stand beyond ASCII (`ofText_exchange`).
-/

namespace TokenDump
open CharClass
open String (utf8Len)

namespace Respelling

/-! ## Segments -/

/-- A segment as it is spelt in front of `rest`. -/
def segment (φ : Respelling) (s : Segment) (rest : List Char) : Segment :=
  ⟨φ.chars s.gap, s.kind, φ.chars s.lexeme ++ φ.added s.kind rest, s.closed⟩

end Respelling

/-- The lexeme of a token of a text stands between `before` and `after`, where the span says. -/
structure Token.Between (t : Token) (text before after : String) : Prop where
  text_eq : text = before ++ t.lexeme ++ after
  stretch_eq : t.stretch =
    ⟨t.kind, before.utf8ByteSize, before.utf8ByteSize + t.lexeme.utf8ByteSize⟩

namespace Respelling

/-- What a respelling makes of a token of a text. -/
def Carries (φ : Respelling) (text : String) (t t' : Token) : Prop :=
  ∃ before after, t.Between text before after ∧ t'.kind = t.kind ∧
    t'.lexeme = φ.apply t.lexeme ++ String.ofList (φ.added t.kind after.toList) ∧
      t'.stretch = ⟨t.kind, (φ.apply before).utf8ByteSize,
        (φ.apply before).utf8ByteSize + t'.lexeme.utf8ByteSize⟩

section Tokens
variable (φ : Respelling) {dialect : Dialect} {s : Segment} {segments : List Segment}
  {before rest left tail : List Char}

theorem utf8ByteSize_apply (cs : List Char) :
    (φ.apply (String.ofList cs)).utf8ByteSize = utf8Len (φ.chars cs) := by
  rw [apply, String.toList_ofList, String.utf8ByteSize_ofList]

/-- **A segment fits in another spelling as well.** -/
theorem fits_segment (h : s.Fits dialect rest) (hleft : φ.chars rest = φ.added s.kind rest ++ left) :
    (φ.segment s rest).Fits dialect left := by
  obtain ⟨hlex, hterm⟩ := φ.lexical_chars h.lexical
  rw [chars_append, hleft, ← List.append_assoc] at hlex
  exact ⟨φ.blank_chars h.blank, hlex, h.closed_iff.trans hterm.symm⟩

/-- A segment is carried along with what stands in front of it. -/
theorem carries_token (before : List Char) (s : Segment) (rest : List Char)
    (h : utf8Len before + s.size ≤ Span.limit)
    (h' : utf8Len (φ.chars before) + (φ.segment s rest).size ≤ Span.limit) :
    φ.Carries (String.ofList (before ++ (s.gap ++ (s.lexeme ++ rest)))) (s.token (utf8Len before))
      ((φ.segment s rest).token (utf8Len (φ.chars before))) := by
  refine ⟨String.ofList (before ++ s.gap), String.ofList rest, ⟨?_, ?_⟩, rfl, ?_, ?_⟩
  · simp only [Segment.token, String.ofList_append, String.append_assoc]
  · rw [stretch_token h, Segment.stretch, Segment.token, Segment.size, String.utf8ByteSize_ofList,
      String.utf8ByteSize_ofList, String.utf8Len_append, Nat.add_assoc]
  · rw [Segment.token, Segment.token, apply, String.toList_ofList, String.toList_ofList, segment,
      String.ofList_append]
  · have hlexeme : ((φ.segment s rest).token (utf8Len (φ.chars before))).lexeme.utf8ByteSize =
        utf8Len (φ.segment s rest).lexeme := String.utf8ByteSize_ofList _
    rw [stretch_token h', Segment.stretch, Segment.size, utf8ByteSize_apply, chars_append,
      String.utf8Len_append, hlexeme, Nat.add_assoc]
    rfl

/-- **The tokens of a respelt text are the tokens of the text, carried along.** -/
theorem forall₂_tokensFrom (before : List Char) (h : Leads dialect segments tail) (htail : Blank tail)
    (hlimit : utf8Len (before ++ written segments tail) ≤ Span.limit)
    (hlimit' : utf8Len (φ.chars (before ++ written segments tail)) ≤ Span.limit) :
    List.Forall₂ (φ.Carries (String.ofList (before ++ written segments tail)))
      (tokensAt (utf8Len before) segments)
      (tokensFrom dialect (φ.chars (written segments tail)) (utf8Len (φ.chars before))) := by
  induction segments generalizing before with
  | nil =>
    rw [written, tokensFrom_blank (φ.blank_chars htail)]
    exact .nil
  | cons s segments ih =>
    obtain ⟨left, hleft⟩ := φ.exists_chars_eq s.kind (written segments tail)
    have hfits := φ.fits_segment h.1 hleft
    have hspelt : φ.chars (written (s :: segments) tail) =
        written [φ.segment s (written segments tail)] left := by
      rw [written, chars_append, chars_append, hleft, written, written, segment, List.append_assoc]
    have hsize : utf8Len (φ.chars (before ++ (s.gap ++ s.lexeme))) +
        utf8Len (φ.added s.kind (written segments tail)) =
          utf8Len (φ.chars before) + (φ.segment s (written segments tail)).size := by
      simp only [chars_append, String.utf8Len_append, Segment.size, segment, Nat.add_assoc]
    have hsplit : before ++ written (s :: segments) tail =
        before ++ (s.gap ++ s.lexeme) ++ written segments tail := by
      simp only [written, List.append_assoc]
    have hlater := ih _ h.2 (hsplit ▸ hlimit) (hsplit ▸ hlimit')
    rw [hleft, tokensFrom_blank_append (φ.blank_added _ _), hsize, String.utf8Len_append,
      String.utf8Len_append, ← Segment.size, ← hsplit] at hlater
    have hleads : Leads dialect [φ.segment s (written segments tail)] left := ⟨hfits, trivial⟩
    rw [tokensAt, hspelt, tokensFrom_written hleads, sizes_cons]
    refine .cons (φ.carries_token before s _ ?_ ?_) hlater
    · rw [hsplit, String.utf8Len_append, String.utf8Len_append, String.utf8Len_append,
        ← Segment.size] at hlimit
      omega
    · rw [hsplit, chars_append, String.utf8Len_append, hleft, String.utf8Len_append] at hlimit'
      omega

theorem apply_append (s t : String) : φ.apply (s ++ t) = φ.apply s ++ φ.apply t := by
  rw [apply, String.toList_append, chars_append, String.ofList_append, apply, apply]

/-- **The tokens of a text in another spelling** are those of the text, in that spelling. -/
theorem tokens_apply {text : String} (h : text.utf8ByteSize ≤ Span.limit)
    (h' : (φ.apply text).utf8ByteSize ≤ Span.limit) (dialect : Dialect) :
    List.Forall₂ (φ.Carries text) (Scan.ofText text dialect).tokens
      (Scan.ofText (φ.apply text) dialect).tokens := by
  obtain ⟨segments, tail, htext, hsegs, htail⟩ := exists_written dialect text.toList
  rw [← String.utf8Len_toList, htext] at h
  rw [apply, String.utf8ByteSize_ofList, htext] at h'
  have hcarried := φ.forall₂_tokensFrom [] hsegs htail h h'
  rw [List.nil_append, ← htext, String.ofList_toList] at hcarried
  rw [tokens_of_written htext hsegs htail, tokens_eq_tokensFrom, apply, String.toList_ofList]
  exact hcarried

end Tokens

end Respelling

/-! ## Line ends -/

/-- Line feeds with a carriage return in front. -/
def crlf : Respelling where
  image c := if c = '\n' then ['\r', '\n'] else [c]
  beforeFeed := ['\r']
  image_of_ascii _ _ hc := if_neg hc
  image_feed := rfl
  blank_beforeFeed := by simp [Blank, isBlank]
  feed_not_mem := by decide
  image_of_wide c hc := by
    refine ⟨c, if_neg ?_, hc⟩
    rintro rfl
    exact absurd hc (by decide)

theorem utf8Len_crlf (cs : List Char) : utf8Len (crlf.chars cs) = utf8Len cs + cs.count '\n' := by
  induction cs with
  | nil => rfl
  | cons c cs ih =>
    rw [Respelling.chars_cons, String.utf8Len_append, ih, String.utf8Len_cons]
    by_cases hc : c = '\n'
    · subst hc
      have himage : utf8Len (crlf.image '\n') = 2 := by decide
      have hsize : '\n'.utf8Size = 1 := by decide
      rw [himage, hsize, List.count_cons_self]
      omega
    · have himage : crlf.image c = [c] := if_neg hc
      rw [himage, String.utf8Len_cons, String.utf8Len_nil, List.count_cons_of_ne hc]
      omega

/-- **The tokens of a text do not depend on its line ends**: with a carriage return in front of each line
feed they are the same, with their line feeds spelt so, and start further on by one byte for each line
feed in front of them. A token that takes a line takes the carriage return of the line feed behind it. -/
theorem ofText_crlf {text : String} (h : (crlf.apply text).utf8ByteSize ≤ Span.limit)
    (dialect : Dialect) :
    List.Forall₂
      (fun t t' => ∃ before after, t.Between text before after ∧ t'.kind = t.kind ∧
        t'.lexeme = crlf.apply t.lexeme ++
          (if TakesLine t.kind ∧ after.toList.head? = some '\n' then "\r" else "") ∧
        t'.span.start.toNat = t.span.start.toNat + before.toList.count '\n' ∧
        t'.span.stop.toNat = t'.span.start.toNat + t'.lexeme.utf8ByteSize)
      (Scan.ofText text dialect).tokens (Scan.ofText (crlf.apply text) dialect).tokens := by
  have hle : text.utf8ByteSize ≤ (crlf.apply text).utf8ByteSize := by
    rw [Respelling.apply, String.utf8ByteSize_ofList, utf8Len_crlf, String.utf8Len_toList]
    exact Nat.le_add_right _ _
  refine (crlf.tokens_apply (hle.trans h) h dialect).imp ?_
  rintro t t' ⟨before, after, hbetween, hkind, hlexeme, hstretch⟩
  obtain ⟨-, hstart, hstop⟩ := Stretch.mk.inj hstretch
  obtain ⟨-, hstart', -⟩ := Stretch.mk.inj hbetween.stretch_eq
  refine ⟨before, after, hbetween, hkind, ?_, ?_, ?_⟩
  · rw [hlexeme, Respelling.added]
    split <;> rfl
  · rw [hstart, hstart', Respelling.apply, String.utf8ByteSize_ofList, utf8Len_crlf,
      String.utf8Len_toList]
  · rw [hstart, hstop]

theorem ofText_crlf_escaped : (crlf.apply "#é\n'\\\n").utf8ByteSize ≤ Span.limit ∧
    List.Forall₂
      (fun t t' : Token => t'.kind = t.kind ∧ ∃ before after, t.Between "#é\n'\\\n" before after ∧
        t'.span.start.toNat = t.span.start.toNat + before.toList.count '\n')
      [⟨.directive, "#é", ⟨0, 3⟩⟩, ⟨.charLiteral, "'\\\n", ⟨4, 3⟩⟩]
      [⟨.directive, "#é\r", ⟨0, 4⟩⟩, ⟨.charLiteral, "'\\\r\n", ⟨5, 4⟩⟩] := by
  have hlimit : (crlf.apply "#é\n'\\\n").utf8ByteSize ≤ Span.limit := by decide
  have htokens : (Scan.ofText "#é\n'\\\n" .plain).tokens =
      [⟨.directive, "#é", ⟨0, 3⟩⟩, ⟨.charLiteral, "'\\\n", ⟨4, 3⟩⟩] := by decide +kernel
  have htokens' : (Scan.ofText (crlf.apply "#é\n'\\\n") .plain).tokens =
      [⟨.directive, "#é\r", ⟨0, 4⟩⟩, ⟨.charLiteral, "'\\\r\n", ⟨5, 4⟩⟩] := by decide +kernel
  have hcarried := ofText_crlf hlimit .plain
  rw [htokens, htokens'] at hcarried
  refine ⟨hlimit, hcarried.imp ?_⟩
  rintro t t' ⟨before, after, hbetween, hkind, -, hstart, -⟩
  exact ⟨hkind, before, after, hbetween, hstart⟩

/-! ## Characters beyond ASCII -/

/-- A character beyond ASCII. -/
abbrev WideChar := {c : Char // 128 ≤ c.toNat}

/-- A function on characters beyond ASCII, as one that leaves ASCII alone. -/
def beyondAscii (f : WideChar → WideChar) (c : Char) : Char :=
  if h : 128 ≤ c.toNat then (f ⟨c, h⟩).val else c

/-- Characters beyond ASCII in the place of others. -/
def exchange (f : WideChar → WideChar) : Respelling where
  image c := [beyondAscii f c]
  beforeFeed := []
  image_of_ascii c hc _ := by rw [beyondAscii, dif_neg (by omega)]
  image_feed := rfl
  blank_beforeFeed := by simp [Blank]
  feed_not_mem := List.not_mem_nil
  image_of_wide c hc := by
    refine ⟨_, rfl, ?_⟩
    rw [beyondAscii, dif_pos hc]
    exact (f ⟨c, hc⟩).property

/-- **Characters beyond ASCII are opaque**: with others in their place the tokens are the same, in the
other characters, and lie where their lexemes do. -/
theorem ofText_exchange (f : WideChar → WideChar) {text : String}
    (h : text.utf8ByteSize ≤ Span.limit) (h' : ((exchange f).apply text).utf8ByteSize ≤ Span.limit)
    (dialect : Dialect) :
    List.Forall₂
      (fun t t' => t'.kind = t.kind ∧ t'.lexeme = (exchange f).apply t.lexeme ∧
        ∃ before after, t.Between text before after ∧
          t'.Between ((exchange f).apply text) ((exchange f).apply before) ((exchange f).apply after))
      (Scan.ofText text dialect).tokens (Scan.ofText ((exchange f).apply text) dialect).tokens := by
  refine ((exchange f).tokens_apply h h' dialect).imp ?_
  rintro t t' ⟨before, after, hbetween, hkind, hlexeme, hstretch⟩
  have hadded : (exchange f).added t.kind after.toList = [] := ite_self _
  rw [hadded, String.ofList_nil, String.append_empty] at hlexeme
  refine ⟨hkind, hlexeme, before, after, hbetween, ?_, hkind ▸ hstretch⟩
  rw [hlexeme, hbetween.text_eq, Respelling.apply_append, Respelling.apply_append]

theorem ofText_exchange_shorter : "'\\€'𝄞".utf8ByteSize ≤ Span.limit ∧
    ((exchange fun _ => ⟨'é', by decide⟩).apply "'\\€'𝄞").utf8ByteSize ≤ Span.limit ∧
      List.Forall₂
        (fun t t' : Token => t'.kind = t.kind ∧
          t'.lexeme = (exchange fun _ => ⟨'é', by decide⟩).apply t.lexeme)
        [⟨.charLiteral, "'\\€'", ⟨0, 6⟩⟩, ⟨.unknown, "𝄞", ⟨6, 4⟩⟩]
        [⟨.charLiteral, "'\\é'", ⟨0, 5⟩⟩, ⟨.unknown, "é", ⟨5, 2⟩⟩] := by
  have hlimit : "'\\€'𝄞".utf8ByteSize ≤ Span.limit := by decide
  have hlimit' : ((exchange fun _ => ⟨'é', by decide⟩).apply "'\\€'𝄞").utf8ByteSize ≤ Span.limit := by
    decide
  have htokens : (Scan.ofText "'\\€'𝄞" .plain).tokens =
      [⟨.charLiteral, "'\\€'", ⟨0, 6⟩⟩, ⟨.unknown, "𝄞", ⟨6, 4⟩⟩] := by decide +kernel
  have htokens' : (Scan.ofText ((exchange fun _ => ⟨'é', by decide⟩).apply "'\\€'𝄞") .plain).tokens =
      [⟨.charLiteral, "'\\é'", ⟨0, 5⟩⟩, ⟨.unknown, "é", ⟨5, 2⟩⟩] := by decide +kernel
  have hcarried := ofText_exchange (fun _ => ⟨'é', by decide⟩) hlimit hlimit' .plain
  rw [htokens, htokens'] at hcarried
  exact ⟨hlimit, hlimit', hcarried.imp fun _ _ ht => ⟨ht.1, ht.2.1⟩⟩

end TokenDump
