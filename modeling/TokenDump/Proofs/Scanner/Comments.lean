import TokenDump.Dump
import TokenDump.Proofs.Scanner.LineFeed
import TokenDump.Proofs.Scanner.Stretches

/-!
# Comments are white space

Spaces in the place of the comments of a text leave all its other tokens as they are
(`uncommented_ofText`). A word of the grammar has no white space in it, so that none can start in
front of a comment and go on behind it, and none can start in the spaces; a directive ends at a line
feed, and line feeds outside comments stay.
-/

namespace TokenDump
open CharClass Utf8
open String (utf8Len)

/-- As many spaces as some characters have bytes. -/
def spaces (w : List Char) : List Char := List.replicate (utf8Len w) ' '

/-- The text of some segments with spaces in the place of comments. -/
def uncommented : List Segment → List Char → List Char
  | [], rest => rest
  | s :: segments, rest =>
    s.gap ++ ((if s.kind.isComment then spaces s.lexeme else s.lexeme) ++ uncommented segments rest)

/-- Bytes with a space in the place of each that lies in one of some stretches. -/
def blankOut (stretches : List Stretch) (text : List UInt8) : List UInt8 :=
  text.mapIdx fun i b => if ∃ p ∈ stretches, p.start ≤ i ∧ i < p.stop then 0x20 else b

/-- The tokens that are comments. -/
def comments (tokens : List Token) : List Token := tokens.filter (·.isComment)

/-- The tokens that are no comments. -/
def code (tokens : List Token) : List Token := tokens.filter (!·.isComment)

/-! ## Words in front of spaces -/

section Words
variable {a r r' v w : List Char}

/-- Every word that stands at the front of `r'` without white space stands at the front of `r`. -/
def SolidIn (r' r : List Char) : Prop := ∀ v, v <+: r' → Solid v → v <+: r

theorem SolidIn.append (h : SolidIn r' r) (a : List Char) : SolidIn (a ++ r') (a ++ r) := by
  intro v hv hsolid
  rcases List.prefix_or_prefix_of_prefix hv (List.prefix_append a r') with hva | ⟨v', rfl⟩
  · exact hva.trans (List.prefix_append a r)
  · have hv' := h v' (List.prefix_append_right_inj a |>.1 hv) fun c hc =>
      hsolid c (List.mem_append_right a hc)
    exact (List.prefix_append_right_inj a).2 hv'

theorem blank_spaces (w : List Char) : Blank (spaces w) := by
  intro c hc
  rw [(List.mem_replicate.1 hc).2]
  rfl

theorem utf8Len_spaces (w : List Char) : utf8Len (spaces w) = utf8Len w := by
  unfold spaces
  induction utf8Len w with
  | zero => rfl
  | succ n ih => rw [List.replicate_succ, String.utf8Len_cons, ih]; rfl

/-- No word stands in front of spaces. -/
theorem solidIn_spaces (hw : w ≠ []) (r' r : List Char) : SolidIn (spaces w ++ r') r := by
  intro v hv hsolid
  obtain ⟨n, hn⟩ := Nat.exists_eq_succ_of_ne_zero (utf8Len_pos hw).ne'
  unfold spaces at hv
  rw [hn, List.replicate_succ, List.cons_append] at hv
  rcases v with _ | ⟨c, v⟩
  · exact List.nil_prefix
  · obtain ⟨rfl, -⟩ := List.cons_prefix_cons.1 hv
    exact absurd rfl (hsolid ' ' List.mem_cons_self)

end Words

/-! ## Segments in front of spaces -/

section Segments
variable {dialect : Dialect} {s : Segment} {segments : List Segment} {tail rest : List Char}

theorem solidIn_uncommented (h : Leads dialect segments tail) :
    SolidIn (uncommented segments tail) (written segments tail) := by
  induction segments with
  | nil => exact fun v hv _ => hv
  | cons s segments ih =>
    refine SolidIn.append ?_ s.gap
    split
    · exact solidIn_spaces h.1.lexeme_ne_nil _ _
    · exact (ih h.2).append s.lexeme

theorem uncommented_lineFeed (h : Leads dialect segments tail)
    (hfeed : written segments tail = '\n' :: rest) :
    ∃ rest', uncommented segments tail = '\n' :: rest' := by
  rcases segments with _ | ⟨s, segments⟩
  · exact ⟨rest, hfeed⟩
  · rw [written] at hfeed
    rcases hgap : s.gap with _ | ⟨c, gap⟩
    · obtain ⟨c, w, hw, hc⟩ := h.1.exists_lexeme_eq
      rw [hgap, hw] at hfeed
      obtain ⟨rfl, -⟩ := List.cons.inj hfeed
      exact absurd rfl hc
    · rw [hgap] at hfeed
      obtain ⟨rfl, -⟩ := List.cons.inj hfeed
      rw [uncommented, hgap]
      exact ⟨_, rfl⟩

/-- **A segment still fits** when the comments behind it are blanked. -/
theorem Segment.Fits.uncommented (h : s.Fits dialect (written segments tail))
    (hsegs : Leads dialect segments tail) : s.Fits dialect (uncommented segments tail) := by
  refine ⟨h.blank, ?_, h.closed_iff⟩
  by_cases hterm : Terminated s.kind s.lexeme
  · refine h.lexical.congr hterm (List.prefix_append _ _)
      (fun v hv hv' => (solidIn_uncommented hsegs).append s.lexeme v hv hv'.solid) fun hk v hv hv' => ?_
    rcases eq_nil_or_lineFeed h.lexical hk with hnil | ⟨rest, hfeed⟩
    · obtain ⟨rfl, rfl⟩ := written_eq_nil hsegs hnil
      exact hv
    · obtain ⟨rest', hfeed'⟩ := uncommented_lineFeed hsegs hfeed
      rw [hfeed'] at hv
      exact (isPrefix_of_not_mem hv hv').trans (List.prefix_append _ _)
  · have hnil := List.append_right_eq_self.1 (h.lexical.eq_of_not_terminated hterm).symm
    obtain ⟨rfl, rfl⟩ := written_eq_nil hsegs hnil
    exact h.lexical

theorem tokensFrom_uncommented (h : Leads dialect segments tail) (htail : Blank tail)
    (offset : Nat) : tokensFrom dialect (uncommented segments tail) offset =
      code (tokensAt offset segments) := by
  induction segments generalizing offset with
  | nil => exact tokensFrom_blank htail offset
  | cons s segments ih =>
    have hkind : (s.token offset).isComment = s.kind.isComment := rfl
    cases hs : s.kind.isComment with
    | true =>
      have hgap : Blank (s.gap ++ spaces s.lexeme) := fun c hc =>
        (List.mem_append.1 hc).elim (h.1.blank c) (blank_spaces _ c)
      have hsize : utf8Len (s.gap ++ spaces s.lexeme) = s.size := by
        rw [String.utf8Len_append, utf8Len_spaces]
        rfl
      rw [uncommented, if_pos hs, ← List.append_assoc, tokensFrom_blank_append hgap, hsize, ih h.2,
        tokensAt, code, code, List.filter_cons_of_neg (by rw [hkind, hs]; decide)]
    | false =>
      have hleads : Leads dialect [s] (uncommented segments tail) :=
        ⟨h.1.uncommented h.2, trivial⟩
      have hs' : ¬ s.kind.isComment = true := by rw [hs]; exact Bool.false_ne_true
      have htokens := tokensFrom_written hleads offset
      rw [written, written, sizes_cons] at htokens
      have hcode : code (tokensAt offset (s :: segments)) =
          s.token offset :: code (tokensAt (offset + s.size) segments) :=
        List.filter_cons_of_pos (by rw [hkind, hs]; rfl)
      rw [uncommented, if_neg hs', htokens, hcode, ← ih h.2]
      rfl

end Segments

/-! ## The bytes of the blanked text -/

section Bytes
variable {segments : List Segment} {offset : Nat}

theorem bytes_spaces (w : List Char) : bytes (spaces w) = List.replicate (bytes w).length 0x20 := by
  rw [length_bytes]
  unfold spaces
  induction utf8Len w with
  | zero => rfl
  | succ n ih =>
    rw [List.replicate_succ, List.replicate_succ, ← ih]
    rfl

theorem mapIdx_eq_self {f : Nat → UInt8 → UInt8} {l : List UInt8}
    (h : ∀ i b, i < l.length → f i b = b) : l.mapIdx f = l := by
  refine List.ext_getElem (by simp) fun i _ hi => ?_
  rw [List.getElem_mapIdx, h i _ hi]

theorem mapIdx_eq_replicate {f : Nat → UInt8 → UInt8} {l : List UInt8} {x : UInt8}
    (h : ∀ i b, i < l.length → f i b = x) : l.mapIdx f = List.replicate l.length x := by
  refine List.ext_getElem (by simp) fun i hi _ => ?_
  rw [List.length_mapIdx] at hi
  rw [List.getElem_mapIdx, h i _ hi, List.getElem_replicate]

theorem le_start_of_mem_stretchesAt {p : Stretch} (h : p ∈ stretchesAt offset segments) :
    offset ≤ p.start := by
  induction segments generalizing offset with
  | nil => cases h
  | cons s segments ih =>
    rcases List.mem_cons.1 h with rfl | h
    · exact Nat.le_add_right _ _
    · exact (Nat.le_add_right _ _).trans (ih h)

/-- The stretches of the comments among some segments. -/
def commentStretches (offset : Nat) (segments : List Segment) : List Stretch :=
  (stretchesAt offset segments).filter (·.kind.isComment)

/-- The byte lies in a comment. -/
def InComment (offset : Nat) (segments : List Segment) (i : Nat) : Prop :=
  ∃ p ∈ commentStretches offset segments, p.start ≤ i ∧ i < p.stop

theorem inComment_cons (s : Segment) (segments : List Segment) (i : Nat) :
    InComment offset (s :: segments) i ↔
      s.kind.isComment = true ∧ offset + utf8Len s.gap ≤ i ∧ i < offset + s.size ∨
        InComment (offset + s.size) segments i := by
  have hkind : (s.stretch offset).kind = s.kind := rfl
  unfold InComment commentStretches
  rw [stretchesAt]
  simp only [List.mem_filter, List.mem_cons, or_and_right, exists_or, exists_eq_left, hkind, and_assoc]
  rfl

theorem InComment.le {i : Nat} (h : InComment offset segments i) : offset ≤ i := by
  obtain ⟨p, hp, hle, -⟩ := h
  exact (le_start_of_mem_stretchesAt (List.mem_filter.1 hp).1).trans hle

instance (offset : Nat) (segments : List Segment) (i : Nat) :
    Decidable (InComment offset segments i) :=
  inferInstanceAs (Decidable (∃ p ∈ commentStretches offset segments, p.start ≤ i ∧ i < p.stop))

section InComment
variable {s : Segment} {i : Nat}

/-- The gap is in front of all comments. -/
theorem not_inComment_gap (hi : i < utf8Len s.gap) :
    ¬ InComment offset (s :: segments) (offset + i) := by
  rw [inComment_cons]
  rintro (⟨-, hle, -⟩ | hlater)
  · omega
  · have hle := hlater.le
    rw [Segment.size] at hle
    omega

/-- The lexeme is a comment all through or not at all. -/
theorem inComment_lexeme (hi : i < utf8Len s.lexeme) :
    InComment offset (s :: segments) (offset + (i + utf8Len s.gap)) ↔ s.kind.isComment = true := by
  rw [inComment_cons, Segment.size]
  constructor
  · rintro (⟨hs, -⟩ | hlater)
    · exact hs
    · have hle := hlater.le
      omega
  · intro hs
    exact .inl ⟨hs, by omega, by omega⟩

/-- Behind the lexeme only later comments count. -/
theorem inComment_later : InComment offset (s :: segments) (offset + s.size + i) ↔
    InComment (offset + s.size) segments (offset + s.size + i) := by
  rw [inComment_cons]
  refine or_iff_right ?_
  rintro ⟨-, -, hlt⟩
  omega

end InComment

theorem bytes_uncommented (offset : Nat) (segments : List Segment) (tail : List Char) :
    bytes (uncommented segments tail) = (bytes (written segments tail)).mapIdx
      fun i b => if InComment offset segments (offset + i) then 0x20 else b := by
  induction segments generalizing offset with
  | nil =>
    refine (mapIdx_eq_self fun i b _ => if_neg ?_).symm
    rintro ⟨p, hp, -⟩
    cases hp
  | cons s segments ih =>
    rw [uncommented, written, bytes_append, bytes_append, bytes_append, bytes_append,
      List.mapIdx_append, List.mapIdx_append, ih (offset + s.size), length_bytes, length_bytes]
    congr 1
    · refine (mapIdx_eq_self fun i b hi => if_neg ?_).symm
      rw [length_bytes] at hi
      exact not_inComment_gap hi
    congr 1
    · split
      · next hs =>
        rw [bytes_spaces]
        refine (mapIdx_eq_replicate fun i b hi => if_pos ?_).symm
        rw [length_bytes] at hi
        exact (inComment_lexeme hi).2 hs
      · next hs =>
        refine (mapIdx_eq_self fun i b hi => if_neg ?_).symm
        rw [length_bytes] at hi
        exact (inComment_lexeme hi).not.2 hs
    · congr 1
      funext i b
      have hindex : offset + (i + utf8Len s.lexeme + utf8Len s.gap) = offset + s.size + i := by
        rw [Segment.size]
        omega
      simp only [hindex, inComment_later]

theorem map_stretch_comments (h : offset + sizes segments ≤ Span.limit) :
    (comments (tokensAt offset segments)).map Token.stretch = commentStretches offset segments := by
  unfold comments commentStretches
  rw [← map_stretch_tokensAt offset segments h, List.filter_map]
  rfl

end Bytes

/-! ## Dumps without comments -/

theorem visible_code (style : Style) (tokens : List Token) :
    Dump.visible style (code tokens) = code tokens := by
  refine List.filter_eq_self.2 fun t ht => ?_
  have hcode := (List.mem_filter.1 ht).2
  rw [Bool.not_eq_true'] at hcode
  rw [hcode, Bool.and_false]
  rfl

theorem text_skipComments (style : Style) (skip : Bool) (tokens : List Token) :
    Dump.text { style with skipComments := true } tokens =
      Dump.text { style with skipComments := skip } (code tokens) := by
  have hvisible : Dump.visible { style with skipComments := true } tokens = code tokens := rfl
  unfold Dump.text Dump.pieces
  rw [hvisible, visible_code]

/-- **Comments are white space**: the text with a space in the place of each byte of a comment has the
same tokens but for the comments, and its dump is that of the text without comments. -/
theorem uncommented_ofText {text : String} (h : text.utf8ByteSize ≤ Span.limit) (dialect : Dialect) :
    ∃ text' : String,
      encode text' = blankOut ((comments (Scan.ofText text dialect).tokens).map Token.stretch)
        (encode text) ∧
      (Scan.ofText text' dialect).tokens = code (Scan.ofText text dialect).tokens ∧
      ∀ (style : Style) (skip : Bool),
        Dump.text { style with skipComments := true } (Scan.ofText text dialect).tokens =
          Dump.text { style with skipComments := skip } (Scan.ofText text' dialect).tokens := by
  obtain ⟨segments, tail, htext, hsegs, htail⟩ := exists_written dialect text.toList
  have htokens : (Scan.ofText (String.ofList (uncommented segments tail)) dialect).tokens =
      code (Scan.ofText text dialect).tokens := by
    rw [tokens_eq_tokensFrom, String.toList_ofList, tokensFrom_uncommented hsegs htail,
      tokens_of_written htext hsegs htail]
  refine ⟨String.ofList (uncommented segments tail), ?_, htokens, fun style skip => ?_⟩
  · rw [utf8ByteSize_of_written htext] at h
    rw [tokens_of_written htext hsegs htail, map_stretch_comments (by omega), encode_ofList,
      encode_eq_bytes, htext, bytes_uncommented 0]
    simp only [Nat.zero_add]
    rfl
  · rw [htokens, text_skipComments style skip]

theorem uncommented_ofText_exponent : "1e/*é*/+5//".utf8ByteSize ≤ Span.limit ∧ ∃ text' : String,
    encode text' = blankOut [⟨.blockComment, 2, 8⟩, ⟨.lineComment, 10, 12⟩] (encode "1e/*é*/+5//") ∧
      (Scan.ofText text' ⟨true, false⟩).tokens =
        [⟨.number, "1e", ⟨0, 2⟩⟩, ⟨.operator, "+", ⟨8, 1⟩⟩, ⟨.number, "5", ⟨9, 1⟩⟩] := by
  have hlimit : "1e/*é*/+5//".utf8ByteSize ≤ Span.limit := by decide
  have hcomments : (comments (Scan.ofText "1e/*é*/+5//" ⟨true, false⟩).tokens).map Token.stretch =
      [⟨.blockComment, 2, 8⟩, ⟨.lineComment, 10, 12⟩] := by decide +kernel
  have hcode : code (Scan.ofText "1e/*é*/+5//" ⟨true, false⟩).tokens =
      [⟨.number, "1e", ⟨0, 2⟩⟩, ⟨.operator, "+", ⟨8, 1⟩⟩, ⟨.number, "5", ⟨9, 1⟩⟩] := by decide +kernel
  obtain ⟨text', hbytes, htokens, -⟩ := uncommented_ofText hlimit ⟨true, false⟩
  rw [hcomments] at hbytes
  exact ⟨hlimit, text', hbytes, htokens.trans hcode⟩

end TokenDump
