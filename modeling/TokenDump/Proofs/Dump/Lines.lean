import TokenDump.Dump
import TokenDump.Proofs.Scanner.Context
import TokenDump.Proofs.Scanner.LineFeed
import TokenDump.Proofs.Text.Runs

/-!
# Reading plain lines back

Nothing is escaped in a plain dump, and a comment or literal may hold line feeds and whole lines that
look like those of other tokens. A reader that knows the lexical grammar is not misled: a name ends at
the first space, and the kind that it names tells how far the lexeme goes, to its end mark or to the
end of the line (`Framed`). A comment or literal without an end mark comes last. So the lines of a scan
are those of no other kinds and lexemes (`kinds_lexemes_eq_of_text_eq`).
-/

namespace TokenDump
open CharClass Text

/-! ## The names of kinds -/

theorem TokenKind.name_injective {k k' : TokenKind} (h : k.name = k'.name) : k = k' :=
  Option.some.inj ((ofName?_name k).symm.trans (h ▸ ofName?_name k'))

/-- A name holds neither a space nor a line feed. -/
theorem TokenKind.bne_of_mem_name (k : TokenKind) :
    ∀ c ∈ k.name.toList, (c != ' ') = true ∧ (c != '\n') = true := by
  have named : all.all (fun k => k.name.toList.all fun c => c != ' ' && c != '\n') = true := by
    decide +kernel
  intro c hc
  have hname := List.all_eq_true.1 (List.all_eq_true.1 named k (mem_all k)) c hc
  rwa [Bool.and_eq_true] at hname

/-- A name ends at the first space. -/
theorem TokenKind.name_unique {k k' : TokenKind} {r r' : List Char}
    (h : k.name.toList ++ ' ' :: r = k'.name.toList ++ ' ' :: r') : k = k' ∧ r = r' := by
  obtain ⟨hname, hrest⟩ := run_unique (fun c hc => (k.bne_of_mem_name c hc).1)
    (fun c hc => (k'.bne_of_mem_name c hc).1) (stops_cons.2 rfl) (stops_cons.2 rfl) h
  exact ⟨name_injective (String.toList_inj.1 hname), (List.cons.inj hrest).2⟩

/-- A token is known from what a dump shows of it. -/
theorem Token.eq_of_parts {t t' : Token} (hkind : t.kind = t'.kind)
    (hlexeme : t.lexeme = t'.lexeme) (hstart : t.span.start = t'.span.start)
    (hstop : t.span.stop = t'.span.stop) : t = t' := by
  obtain ⟨kind, lexeme, start, length⟩ := t
  obtain ⟨kind', lexeme', start', length'⟩ := t'
  obtain ⟨rfl, rfl, rfl⟩ : kind = kind' ∧ lexeme = lexeme' ∧ start = start' :=
    ⟨hkind, hlexeme, hstart⟩
  have hlength : start + length = start + length' := hstop
  rw [UInt32.add_right_inj start |>.1 hlength]

/-! ## How far a lexeme goes -/

/-- The kinds whose lexemes may hold line feeds. -/
def SpansLines (kind : TokenKind) : Prop :=
  kind = .blockComment ∨ kind = .stringLiteral ∨ kind = .charLiteral

/-- The end of a lexeme shows: there is no end mark before it, or no line feed at all. -/
structure Framed (kind : TokenKind) (w : List Char) : Prop where
  ended : SpansLines kind → ∀ v, v <+: w → Terminated kind v → v = w
  line : ¬ SpansLines kind → '\n' ∉ w

section Framed
variable {dialect : Dialect} {L : List Char → Prop} {kind : TokenKind} {w w' r r' rest : List Char}

theorem ShortestOrAll.eq_of_isPrefix {v : List Char} (h : ShortestOrAll L r w) (hv : v <+: w)
    (hL : L v) : v = w := by
  rcases h with ⟨hw, -, hmin⟩ | ⟨hnone, rfl⟩
  · exact hv.eq_of_length_le (hmin v (hv.trans hw) hL)
  · exact absurd hL (hnone v hv)

theorem framed_of_ended (h : ∀ v, v <+: w → Terminated kind v → v = w) (hk : SpansLines kind) :
    Framed kind w :=
  ⟨fun _ => h, fun hk' => absurd hk hk'⟩

theorem framed_of_line (h : '\n' ∉ w) (hk : ¬ SpansLines kind) : Framed kind w :=
  ⟨fun hk' => absurd hk' hk, fun _ => h⟩

/-- **The end of every lexeme shows.** -/
theorem Lexical.framed (h : Lexical dialect r w kind) : Framed kind w := by
  cases kind with
  | blockComment => exact framed_of_ended (fun v => h.2.eq_of_isPrefix) (.inl rfl)
  | stringLiteral => exact framed_of_ended (fun v => h.2.eq_of_isPrefix) (.inr (.inl rfl))
  | charLiteral => exact framed_of_ended (fun v => h.2.eq_of_isPrefix) (.inr (.inr rfl))
  | directive | lineComment => exact framed_of_line h.2.2.1 (by simp [SpansLines])
  | unknown =>
    refine framed_of_line ?_ (by simp [SpansLines])
    obtain ⟨c, hc, -, rfl, -⟩ := h
    rw [List.mem_singleton]
    rintro rfl
    exact hc rfl
  | _ => exact framed_of_line (h.graphic rfl).solid.lineFeed_not_mem (by simp [SpansLines])

/-- Of two lexemes in front of a line feed the shorter is no part of the longer. -/
theorem Framed.eq_of_length_le (h : Framed kind w') (hk : SpansLines kind)
    (hopen : ¬ Terminated kind w → r = []) (heq : w ++ '\n' :: r = w' ++ '\n' :: r')
    (hle : w.length ≤ w'.length) : w = w' := by
  have hw : w <+: w' ++ '\n' :: r' := ⟨'\n' :: r, heq⟩
  have hprefix : w <+: w' := List.prefix_of_prefix_length_le hw (List.prefix_append _ _) hle
  by_cases hterm : Terminated kind w
  · exact h.ended hk w hprefix hterm
  · -- Nothing is behind an open lexeme, so that there is no room for more of the other.
    have hlen := congrArg List.length heq
    rw [hopen hterm, List.length_append, List.length_append, List.length_cons, List.length_cons,
      List.length_nil] at hlen
    exact hprefix.eq_of_length (by omega)

/-- **A lexeme in front of a line feed is known from the text**, if an open one comes last. -/
theorem Framed.unique (h : Framed kind w) (h' : Framed kind w')
    (hopen : ¬ Terminated kind w → r = []) (hopen' : ¬ Terminated kind w' → r' = [])
    (heq : w ++ '\n' :: r = w' ++ '\n' :: r') : w = w' ∧ r = r' := by
  have hw : w = w' := by
    by_cases hk : SpansLines kind
    · rcases Nat.le_total w.length w'.length with hle | hle
      · exact h'.eq_of_length_le hk hopen heq hle
      · exact (h.eq_of_length_le hk hopen' heq.symm hle).symm
    · have hrun : ∀ v : List Char, '\n' ∉ v → ∀ c ∈ v, (c != '\n') = true := by
        intro v hv c hc
        rw [bne_iff_ne]
        rintro rfl
        exact hv hc
      exact (run_unique (hrun w (h.line hk)) (hrun w' (h'.line hk)) (stops_cons.2 rfl)
        (stops_cons.2 rfl) heq).1
  subst hw
  exact ⟨rfl, (List.cons.inj (List.append_cancel_left heq)).2⟩

end Framed

/-! ## Lines -/

/-- The tokens that are to be shown: all of them, or all but the comments. -/
def Dump.shown (skip : Bool) (tokens : List Token) : List Token :=
  tokens.filter fun t => skip = true → t.kind ≠ .lineComment ∧ t.kind ≠ .blockComment

/-- A dump shows what is to be shown. -/
theorem Dump.visible_eq (style : Style) (tokens : List Token) :
    visible style tokens = shown style.skipComments tokens := by
  unfold visible shown
  congr 1
  funext t
  cases style.skipComments with
  | false => rfl
  | true => cases hkind : t.kind <;> simp [Token.isComment, TokenKind.isComment, hkind]

/-- A plain dump is its lines. -/
theorem toList_text_plain {style : Style} (h : style.format = .plain) (tokens : List Token) :
    (Dump.text style tokens).toList =
      (Dump.shown style.skipComments tokens).flatMap fun t => (Dump.line style.showSpans t).toList := by
  unfold Dump.text Dump.pieces
  rw [h, Dump.visible_eq, String.toList_join, List.map_map, List.flatMap_map]
  rfl

theorem toList_line (t : Token) :
    (Dump.line false t).toList = t.kind.name.toList ++ ' ' :: (t.lexeme.toList ++ ['\n']) := by
  show (t.kind.name ++ " " ++ t.lexeme ++ "\n").toList = _
  simp only [String.toList_append, List.append_assoc]
  rfl

/-- Tokens whose lines can be told apart. -/
structure Readable (tokens : List Token) : Prop where
  framed : ∀ t ∈ tokens, Framed t.kind t.lexeme.toList
  /-- What has no end mark comes last. -/
  closed : tokens.Pairwise fun t _ => Terminated t.kind t.lexeme.toList

section Lines
variable {dialect : Dialect} {segments : List Segment} {tail : List Char} {t : Token}
  {tokens tokens' : List Token}

theorem readable_nil : Readable [] := ⟨by simp, .nil⟩

theorem readable_cons : Readable (t :: tokens) ↔
    Framed t.kind t.lexeme.toList ∧ (¬ Terminated t.kind t.lexeme.toList → tokens = []) ∧
      Readable tokens := by
  constructor
  · rintro ⟨hframed, hclosed⟩
    obtain ⟨ht, hframed⟩ := List.forall_mem_cons.1 hframed
    obtain ⟨hlast, hclosed⟩ := List.pairwise_cons.1 hclosed
    refine ⟨ht, fun hopen => ?_, hframed, hclosed⟩
    exact List.eq_nil_iff_forall_not_mem.2 fun u hu => hopen (hlast u hu)
  · rintro ⟨ht, hlast, hframed, hclosed⟩
    refine ⟨List.forall_mem_cons.2 ⟨ht, hframed⟩, List.pairwise_cons.2 ⟨fun u hu => ?_, hclosed⟩⟩
    by_contra hopen
    rw [hlast hopen] at hu
    cases hu

theorem Readable.shown (h : Readable tokens) (skip : Bool) : Readable (Dump.shown skip tokens) :=
  ⟨fun t ht => h.framed t (List.mem_of_mem_filter ht), h.closed.filter _⟩

/-- **Readable tokens are known from their lines**, but for the spans. -/
theorem Readable.eq_of_lines_eq (h : Readable tokens) (h' : Readable tokens')
    (heq : (tokens.flatMap fun t => (Dump.line false t).toList) =
      tokens'.flatMap fun t => (Dump.line false t).toList) :
    tokens.map (fun t => (t.kind, t.lexeme)) = tokens'.map fun t => (t.kind, t.lexeme) := by
  induction tokens generalizing tokens' with
  | nil =>
    rcases tokens' with _ | ⟨t', tokens'⟩
    · rfl
    · simp [toList_line] at heq
  | cons t tokens ih =>
    rcases tokens' with _ | ⟨t', tokens'⟩
    · simp [toList_line] at heq
    · obtain ⟨hframed, hlast, hlater⟩ := readable_cons.1 h
      obtain ⟨hframed', hlast', hlater'⟩ := readable_cons.1 h'
      rw [List.flatMap_cons, List.flatMap_cons, toList_line, toList_line] at heq
      simp only [List.append_assoc, List.cons_append, List.nil_append] at heq
      obtain ⟨hkind, heq⟩ := TokenKind.name_unique heq
      rw [← hkind] at hframed' hlast'
      obtain ⟨hlexeme, heq⟩ := hframed.unique hframed'
        (fun hopen => by rw [hlast hopen, List.flatMap_nil])
        (fun hopen => by rw [hlast' hopen, List.flatMap_nil]) heq
      rw [List.map_cons, List.map_cons, hkind, String.toList_inj.1 hlexeme, ih hlater hlater' heq]

/-- What the scanner finds is readable. -/
theorem readable_tokensAt (h : Leads dialect segments tail) (offset : Nat) :
    Readable (tokensAt offset segments) := by
  induction segments generalizing offset with
  | nil => exact readable_nil
  | cons s segments ih =>
    have hlexeme : (s.token offset).lexeme.toList = s.lexeme := String.toList_ofList
    rw [tokensAt, readable_cons, hlexeme]
    refine ⟨h.1.lexical.framed, fun hopen => ?_, ih h.2 _⟩
    have hall := h.1.lexical.eq_of_not_terminated hopen
    obtain ⟨rfl, -⟩ := written_eq_nil h.2 (List.append_right_eq_self.1 hall.symm)
    rfl

end Lines

theorem readable_ofText (text : String) (dialect : Dialect) :
    Readable (Scan.ofText text dialect).tokens := by
  obtain ⟨segments, tail, htext, hsegs, htail⟩ := exists_written dialect text.toList
  rw [tokens_of_written htext hsegs htail]
  exact readable_tokensAt hsegs 0

/-- **The lines of a scan can be read back**: where the plain dumps of two scans are the same, so are
the kinds and the lexemes that they show, whatever the lexemes hold. -/
theorem kinds_lexemes_eq_of_text_eq {text text' : String} {dialect dialect' : Dialect}
    {skip skip' : Bool}
    (h : Dump.text ⟨.plain, skip, false⟩ (Scan.ofText text dialect).tokens =
      Dump.text ⟨.plain, skip', false⟩ (Scan.ofText text' dialect').tokens) :
    (Dump.shown skip (Scan.ofText text dialect).tokens).map (fun t => (t.kind, t.lexeme)) =
      (Dump.shown skip' (Scan.ofText text' dialect').tokens).map fun t => (t.kind, t.lexeme) := by
  refine ((readable_ofText text dialect).shown _).eq_of_lines_eq
    ((readable_ofText text' dialect').shown _) ?_
  have hlines := congrArg String.toList h
  rwa [toList_text_plain rfl, toList_text_plain rfl] at hlines

theorem kinds_lexemes_eq_fake_line :
    let tokens := (Scan.ofText "/**/1e+5'\nTOK_DOT ." ⟨true, true⟩).tokens
    let tokens' := (Scan.ofText "1e+5 '\nTOK_DOT ." ⟨true, false⟩).tokens
    Dump.text ⟨.plain, true, false⟩ tokens = Dump.text ⟨.plain, false, false⟩ tokens' ∧
      (Dump.shown true tokens).map (fun t => (t.kind, t.lexeme)) =
        (Dump.shown false tokens').map fun t => (t.kind, t.lexeme) := by
  intro tokens tokens'
  have h : Dump.text ⟨.plain, true, false⟩ tokens = Dump.text ⟨.plain, false, false⟩ tokens' := by
    decide +kernel
  exact ⟨h, kinds_lexemes_eq_of_text_eq h⟩

end TokenDump
