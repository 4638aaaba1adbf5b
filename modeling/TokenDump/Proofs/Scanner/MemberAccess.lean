import TokenDump.Proofs.Scanner.Segments

/-!
# Member access with kinds of its own

A dialect that tells member access apart relabels the marks `->` and `.` and does nothing else
(`ofText_memberAccess`). The lexical grammar asks about it in three kinds only, so that the segments of
a text, relabelled, are segments of the text in the other dialect (`leads_refined`).
-/

namespace TokenDump
open CharClass

/-- The kind of a lexeme where member access has kinds of its own. -/
def TokenKind.refined (kind : TokenKind) (lexeme : String) : TokenKind :=
  if kind = .punctuation ∧ lexeme = "->" then .arrowAccess
  else if kind = .punctuation ∧ lexeme = "." then .dotAccess
  else kind

/-- A token where member access has kinds of its own. -/
def Token.refined (t : Token) : Token := { t with kind := t.kind.refined t.lexeme }

def Segment.refined (s : Segment) : Segment :=
  { s with kind := s.kind.refined (String.ofList s.lexeme) }

/-! ## Lexemes -/

section Lexemes
variable {extended : Bool} {dialect : Dialect} {kind : TokenKind} {r w : List Char}

theorem TokenKind.refined_of_ne (h : kind ≠ .punctuation) (lexeme : String) :
    kind.refined lexeme = kind := by
  rw [refined, if_neg fun hk => h hk.1, if_neg fun hk => h hk.1]

theorem plainMark_not_access {c : Char} (h : c ∈ plainMarks) :
    String.ofList [c] ≠ "->" ∧ String.ofList [c] ≠ "." := by
  have hlists : [c] ≠ ['-', '>'] ∧ [c] ≠ ['.'] := by
    refine ⟨by simp, fun hc => ?_⟩
    exact (mem_plainMarks.1 h).2.2.2.2 (List.cons.inj hc).1
  exact ⟨fun hc => hlists.1 (String.ofList_injective hc),
    fun hc => hlists.2 (String.ofList_injective hc)⟩

/-- **A lexeme stays one** in the dialect that tells member access apart, with its kind refined. -/
theorem Lexical.refined (h : Lexical ⟨extended, false⟩ r w kind) :
    Lexical ⟨extended, true⟩ r w (kind.refined (String.ofList w)) := by
  by_cases hk : kind = .punctuation
  · subst hk
    rcases h with ⟨-, rfl | rfl, hp⟩ | ⟨hscope, c, hc, rfl, hp⟩
    · exact ⟨rfl, rfl, hp⟩
    · exact ⟨rfl, rfl, hp⟩
    · obtain ⟨harrow, hdot⟩ := plainMark_not_access hc
      rw [TokenKind.refined, if_neg fun hk => harrow hk.2, if_neg fun hk => hdot hk.2]
      exact .inr ⟨hscope, c, hc, rfl, hp⟩
  · rw [TokenKind.refined_of_ne hk]
    cases kind with
    | punctuation => exact absurd rfl hk
    | arrowAccess | dotAccess => exact absurd h.1 Bool.false_ne_true
    | _ => exact h

theorem terminated_refined (kind : TokenKind) (w : List Char) (lexeme : String) :
    Terminated (kind.refined lexeme) w ↔ Terminated kind w := by
  by_cases hk : kind = .punctuation
  · subst hk
    unfold TokenKind.refined
    split_ifs <;> exact Iff.rfl
  · rw [TokenKind.refined_of_ne hk]

/-- Only the dialect that tells member access apart has kinds for it. -/
theorem Lexical.not_access (h : Lexical dialect r w kind) (hd : dialect.memberAccessKinds = false) :
    kind ≠ .arrowAccess ∧ kind ≠ .dotAccess := by
  constructor
  · rintro rfl
    exact Bool.false_ne_true (hd.symm.trans h.1)
  · rintro rfl
    exact Bool.false_ne_true (hd.symm.trans h.1)

/-- Punctuation is no member access in the dialect that tells member access apart. -/
theorem Lexical.punctuation_not_access (h : Lexical dialect r w .punctuation)
    (hd : dialect.memberAccessKinds = true) : String.ofList w ≠ "->" ∧ String.ofList w ≠ "." := by
  rcases h with ⟨hd', -⟩ | ⟨-, c, hc, rfl, -⟩
  · exact absurd (hd'.symm.trans hd) Bool.false_ne_true
  · exact plainMark_not_access hc

end Lexemes

/-! ## Segments -/

section Segments
variable {extended : Bool} {s : Segment} {segments : List Segment} {tail rest : List Char}

theorem Segment.Fits.refined (h : s.Fits ⟨extended, false⟩ rest) :
    s.refined.Fits ⟨extended, true⟩ rest :=
  ⟨h.blank, h.lexical.refined, h.closed_iff.trans (terminated_refined _ _ _).symm⟩

theorem written_refined (segments : List Segment) (tail : List Char) :
    written (segments.map Segment.refined) tail = written segments tail := by
  induction segments with
  | nil => rfl
  | cons s segments ih =>
    rw [List.map_cons, written, ih]
    rfl

theorem leads_refined (h : Leads ⟨extended, false⟩ segments tail) :
    Leads ⟨extended, true⟩ (segments.map Segment.refined) tail := by
  induction segments with
  | nil => exact trivial
  | cons s segments ih =>
    refine ⟨?_, ih h.2⟩
    rw [written_refined]
    exact h.1.refined

theorem tokensAt_refined (offset : Nat) (segments : List Segment) :
    tokensAt offset (segments.map Segment.refined) = (tokensAt offset segments).map Token.refined := by
  induction segments generalizing offset with
  | nil => rfl
  | cons s segments ih =>
    rw [List.map_cons, tokensAt, tokensAt, List.map_cons, ← ih]
    rfl

theorem TokenKind.refined_ne_unknown (lexeme : String) :
    punctuation.refined lexeme ≠ .unknown := by
  unfold refined
  split_ifs <;> decide

/-- Relabelling concerns tokens that call for no note. -/
theorem note?_refined (h : s.Fits ⟨extended, false⟩ rest) (offset : Nat) :
    (s.refined.find ⟨extended, true⟩ offset rest).note? =
      (s.find ⟨extended, false⟩ offset rest).note? := by
  by_cases hk : s.kind = .punctuation
  · have hclosed : s.closed = true := by
      rw [h.closed_iff, hk]
      exact trivial
    have hplain : s.kind ≠ .unknown := by
      rw [hk]
      decide
    have htold : s.refined.kind ≠ .unknown := by
      rw [Segment.refined, hk]
      exact TokenKind.refined_ne_unknown _
    rw [note?_of_closed (f := s.find _ offset rest) hclosed hplain,
      note?_of_closed (f := s.refined.find _ offset rest) hclosed htold]
  · have hs : s.refined = s := by
      rw [Segment.refined, TokenKind.refined_of_ne hk]
    rw [hs]
    rfl

theorem notes_refined (h : Leads ⟨extended, false⟩ segments tail) (offset : Nat) :
    (findsAt ⟨extended, true⟩ offset (segments.map Segment.refined) tail).filterMap Find.note? =
      (findsAt ⟨extended, false⟩ offset segments tail).filterMap Find.note? := by
  induction segments generalizing offset with
  | nil => rfl
  | cons s segments ih =>
    have hsize : s.refined.size = s.size := rfl
    rw [List.map_cons, findsAt, findsAt, List.filterMap_cons, List.filterMap_cons, written_refined,
      note?_refined h.1, hsize, ih h.2]

end Segments

/-- **Telling member access apart only relabels**: of two scans of a text, the one with kinds for member
access has the notes of the other and its tokens relabelled. Without such kinds no token has one, and
with them no `->` or `.` is punctuation. -/
theorem ofText_memberAccess (text : String) (extended : Bool) :
    let plain := Scan.ofText text ⟨extended, false⟩
    let told := Scan.ofText text ⟨extended, true⟩
    told.tokens = plain.tokens.map Token.refined ∧ told.notes = plain.notes ∧
      (∀ t ∈ plain.tokens, t.kind ≠ .arrowAccess ∧ t.kind ≠ .dotAccess) ∧
      ∀ t ∈ told.tokens, t.kind = .punctuation → t.lexeme ≠ "->" ∧ t.lexeme ≠ "." := by
  intro plain told
  obtain ⟨segments, tail, htext, hsegs, htail⟩ := exists_written ⟨extended, false⟩ text.toList
  have htext' : text.toList = written (segments.map Segment.refined) tail := by
    rw [htext, written_refined]
  have hsegs' := leads_refined hsegs
  have hplain : plain.tokens = tokensAt 0 segments := tokens_of_written htext hsegs htail
  have htold : told.tokens = tokensAt 0 (segments.map Segment.refined) :=
    tokens_of_written htext' hsegs' htail
  refine ⟨?_, ?_, fun t ht => ?_, fun t ht hk => ?_⟩
  · rw [htold, hplain, tokensAt_refined]
  · show (Scan.ofText text _).notes = (Scan.ofText text _).notes
    rw [notes_of_written htext hsegs htail, notes_of_written htext' hsegs' htail, notes_refined hsegs,
      List.length_map]
  · rw [hplain] at ht
    obtain ⟨earlier, s, later, rfl, rfl⟩ := mem_tokensAt ht
    exact (leads_append.1 hsegs).2.1.lexical.not_access rfl
  · rw [htold] at ht
    obtain ⟨earlier, s, later, heq, rfl⟩ := mem_tokensAt ht
    rw [heq] at hsegs'
    have hlex := (leads_append.1 hsegs').2.1.lexical
    have hk' : s.kind = .punctuation := hk
    rw [hk'] at hlex
    exact hlex.punctuation_not_access rfl

theorem ofText_memberAccess_arrow :
    (Scan.ofText "a--->1.5.é" ⟨false, true⟩).tokens =
        (Scan.ofText "a--->1.5.é" ⟨false, false⟩).tokens.map Token.refined ∧
      (Scan.ofText "a--->1.5.é" ⟨false, true⟩).tokens.map (·.kind) =
        [.identifier, .operator, .arrowAccess, .number, .unknown] :=
  ⟨(ofText_memberAccess "a--->1.5.é" false).1, by decide +kernel⟩

end TokenDump
