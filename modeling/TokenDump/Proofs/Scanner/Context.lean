import TokenDump.Proofs.Scanner.Grammar

/-!
# What may come after a lexeme

Whether a lexeme ends depends on the text behind it, but white space is as good as any other text there:
the words of the grammar are made of graphic characters (`Lexical.graphic`), except for lines, which go on
to a line feed, and for what runs to an end mark. So a terminated lexeme stays one in front of white space
(`Lexical.before_blank`) and at the end of a text (`Lexical.self`). A comment or literal that is not
terminated has taken the whole text, and is a lexeme of no longer text (`not_lexical_of_not_terminated`).
-/

namespace TokenDump
open CharClass

/-- No white space. -/
def Solid (w : List Char) : Prop := ∀ c ∈ w, ¬ isBlank c = true

/-- A letter, a digit or a mark: a character of ASCII that can be seen. -/
def IsGraphic (c : Char) : Prop := 33 ≤ c.toNat ∧ c.toNat ≤ 126

/-- Graphic characters only. -/
def Graphic (w : List Char) : Prop := ∀ c ∈ w, IsGraphic c

/-! ## Words of graphic characters -/

section Graphic
variable {c d : Char} {w r : List Char} {kind : TokenKind} {dialect : Dialect}

theorem IsGraphic.not_isBlank (h : IsGraphic c) : ¬ isBlank c = true := by
  unfold IsGraphic at h
  rw [isBlank_iff]
  omega

theorem Graphic.solid (h : Graphic w) : Solid w := fun c hc => (h c hc).not_isBlank

theorem Solid.lineFeed_not_mem (h : Solid w) : '\n' ∉ w := fun hmem => h '\n' hmem rfl

theorem isGraphic_of_isExtendedNumberPart (h : isExtendedNumberPart c = true) : IsGraphic c := by
  rw [isExtendedNumberPart_iff, isAlphanum_iff] at h
  unfold IsGraphic
  omega

theorem isGraphic_of_isPunctuation (h : isPunctuation c = true) : IsGraphic c := by
  have hc := isPunctuation_iff.1 h
  exact ⟨hc.1, hc.2.1⟩

theorem graphic_of_wordChars (h : WordChars w) : Graphic w := by
  intro c hc
  have hpart := h c hc
  rw [isWordPart_iff, isAlphanum_iff] at hpart
  unfold IsGraphic
  omega

theorem graphic_singleton (hc : IsGraphic c) : Graphic [c] := List.forall_mem_singleton.2 hc

theorem graphic_pair (hc : IsGraphic c) (hd : IsGraphic d) : Graphic [c, d] :=
  List.forall_mem_cons.2 ⟨hc, graphic_singleton hd⟩

theorem graphic_marks (hc : isPunctuation c = true) (hd : isPunctuation d = true) : Graphic [c, d] :=
  graphic_pair (isGraphic_of_isPunctuation hc) (isGraphic_of_isPunctuation hd)

theorem graphic_of_isOperatorPair (h : isOperatorPair c d = true) : Graphic [c, d] := by
  rw [isOperatorPair_iff] at h
  apply graphic_pair <;> unfold IsGraphic <;> omega

theorem graphic_of_hexNumber (h : HexNumber w) : Graphic w := by
  obtain ⟨x, digits, rfl, hx, hdigits⟩ := h
  have hx' : IsGraphic x := by
    rcases hx with rfl | rfl <;> exact ⟨by decide, by decide⟩
  refine List.forall_mem_cons.2 ⟨⟨by decide, by decide⟩, List.forall_mem_cons.2 ⟨hx', fun c hc => ?_⟩⟩
  exact isGraphic_of_isExtendedNumberPart (hdigits c hc)

theorem graphic_of_exponentTail (h : ExponentTail w) : Graphic w := by
  induction h with
  | nil =>
    intro c hc
    cases hc
  | part hc _ ih => exact List.forall_mem_cons.2 ⟨isGraphic_of_isExtendedNumberPart hc, ih⟩
  | exponent hmark hsign hdigit _ ih =>
    have hmark' := isGraphic_of_isExtendedNumberPart (isExtendedNumberPart_of_isExponentMark hmark)
    have hdigit' := isGraphic_of_isExtendedNumberPart (isExtendedNumberPart_of_isDigit hdigit)
    refine List.forall_mem_cons.2 ⟨hmark', List.forall_mem_cons.2 ⟨?_, List.forall_mem_cons.2
      ⟨hdigit', ih⟩⟩⟩
    rw [isSign_iff] at hsign
    unfold IsGraphic
    omega

theorem graphic_of_numberAt (h : NumberAt dialect r w) : Graphic w := by
  unfold NumberAt at h
  split_ifs at h
  · exact graphic_of_hexNumber h
  · obtain ⟨digit, tail, rfl, hdigit, htail⟩ := h
    exact List.forall_mem_cons.2 ⟨isGraphic_of_isExtendedNumberPart
      (isExtendedNumberPart_of_isDigit hdigit), graphic_of_exponentTail htail⟩
  · intro c hc
    have hpart := h c hc
    rw [isNumberPart_iff, isDigit_iff] at hpart
    unfold IsGraphic
    omega

/-- The kinds whose lexemes are words and marks. -/
def TokenKind.isPlain : TokenKind → Bool
  | .directive | .lineComment | .blockComment | .stringLiteral | .charLiteral | .unknown => false
  | _ => true

/-- **Words and marks are graphic.** -/
theorem Lexical.graphic (h : Lexical dialect r w kind) (hk : kind.isPlain = true) : Graphic w := by
  cases kind with
  | keyword k => exact graphic_of_wordChars h.2.1.2.1
  | identifier => exact graphic_of_wordChars h.2.1.2.1
  | number => exact graphic_of_numberAt h.2.2.1
  | operator =>
    rcases h with ⟨x, y, hxy, rfl, -⟩ | ⟨-, -, -, -, c, hc, rfl, -⟩
    · exact graphic_of_isOperatorPair hxy
    · rw [isOperator_iff] at hc
      refine graphic_singleton ?_
      unfold IsGraphic
      omega
  | punctuation =>
    rcases h with ⟨-, rfl | rfl, -⟩ | ⟨-, c, hc, rfl, -⟩
    · exact graphic_marks rfl rfl
    · exact graphic_singleton (isGraphic_of_isPunctuation rfl)
    · exact graphic_singleton (isGraphic_of_isPunctuation (mem_plainMarks.1 hc).1)
  | scopeResolution =>
    rw [h.1]
    exact graphic_marks rfl rfl
  | arrowAccess =>
    rw [h.2.1]
    exact graphic_marks rfl rfl
  | dotAccess =>
    rw [h.2.1]
    exact graphic_singleton (isGraphic_of_isPunctuation rfl)
  | _ => cases hk

end Graphic

/-! ## Another text behind a lexeme -/

/-- The kinds that go on to the end of the line. -/
def TakesLine (kind : TokenKind) : Prop := kind = .directive ∨ kind = .lineComment

instance (kind : TokenKind) : Decidable (TakesLine kind) :=
  inferInstanceAs (Decidable (kind = .directive ∨ kind = .lineComment))

theorem isPrefix_of_not_mem {c : Char} {v p cs : List Char} (h : v <+: p ++ c :: cs) (hc : c ∉ v) :
    v <+: p := by
  have hp : p ++ [c] <+: p ++ c :: cs := ⟨cs, by simp⟩
  rcases List.prefix_or_prefix_of_prefix h hp with h | h
  · rcases List.prefix_concat_iff.1 h with rfl | h
    · simp at hc
    · exact h
  · exact absurd (h.subset (by simp)) hc

section Congr
variable {dialect : Dialect} {L : List Char → Prop} {r r' u w rest : List Char} {kind : TokenKind}

theorem Longest.isPrefix (h : Longest L r w) (hu : u <+: r) (hL : L u) : u <+: w :=
  List.prefix_of_prefix_length_le hu h.1 (h.2.2 u hu hL)

theorem ShortestOrAll.shortest (h : ShortestOrAll L r w) (hL : L w) : Shortest L r w := by
  rcases h with h | ⟨hnone, rfl⟩
  · exact h
  · exact absurd hL (hnone w List.prefix_rfl)

theorem Lexical.head_isPrefix {c : Char} (h : Lexical dialect r w kind) (hc : [c] <+: r) :
    [c] <+: w := by
  obtain ⟨cs, rfl⟩ := hc
  have hw := (firstMatch_of_lexical h).2
  rw [hw]
  exact ⟨_, rfl⟩

/-- Which numbers are looked for does not depend on what comes after the number. -/
theorem numberAt_congr (h : Longest (NumberAt dialect r) r w) (hw : w <+: r')
    (hwords : ∀ v, v <+: r' → Graphic v → v <+: r) : NumberAt dialect r' = NumberAt dialect r := by
  by_cases hd : dialect.extendedNumbers = true
  · have hmark : ∀ x, x = 'x' ∨ x = 'X' → (['0', x] <+: r' ↔ ['0', x] <+: r) := by
      intro x hx
      have hhex : HexNumber ['0', x] := ⟨x, [], rfl, hx, by simp⟩
      refine ⟨fun hp => hwords _ hp (graphic_of_hexNumber hhex), fun hp => ?_⟩
      refine (h.isPrefix hp ?_).trans hw
      have hbase : ['0', 'x'] <+: r ∨ ['0', 'X'] <+: r := by
        rcases hx with rfl | rfl
        · exact .inl hp
        · exact .inr hp
      unfold NumberAt
      rwa [if_pos hd, if_pos hbase]
    funext v
    unfold NumberAt
    simp only [hmark 'x' (.inl rfl), hmark 'X' (.inr rfl)]
  · funext v
    unfold NumberAt
    rw [if_neg hd, if_neg hd]

/-- **A terminated lexeme stays one** in front of a text that adds no word to those that stand there. -/
theorem Lexical.congr (h : Lexical dialect r w kind) (hterm : Terminated kind w) (hw : w <+: r')
    (hwords : ∀ v, v <+: r' → Graphic v → v <+: r)
    (hline : TakesLine kind → ∀ v, v <+: r' → '\n' ∉ v → v <+: r) : Lexical dialect r' w kind := by
  have hnot : ∀ v, Graphic v → ¬ v <+: r → ¬ v <+: r' := fun v hv hr hr' => hr (hwords v hr' hv)
  cases kind with
  | directive =>
    obtain ⟨hopen, hlong⟩ := h
    exact ⟨(hlong.isPrefix hopen (by decide)).trans hw, hlong.congr hw (hline (.inl rfl))⟩
  | lineComment =>
    obtain ⟨hopen, hlong⟩ := h
    exact ⟨(hlong.isPrefix hopen (by decide)).trans hw, hlong.congr hw (hline (.inr rfl))⟩
  | blockComment =>
    obtain ⟨hopen, hshort⟩ := h
    have hshort := hshort.shortest hterm
    have hle : (['/', '*'] : List Char).length ≤ w.length := le_trans (by decide) hterm.1
    exact ⟨(List.prefix_of_prefix_length_le hopen hshort.1 hle).trans hw, .inl (hshort.congr hw)⟩
  | keyword k =>
    obtain ⟨c, hc, hp⟩ := h.1
    exact ⟨⟨c, hc, (h.head_isPrefix hp).trans hw⟩,
      h.2.1.congr hw fun v hv hL => hwords v hv (graphic_of_wordChars hL), h.2.2⟩
  | identifier =>
    obtain ⟨c, hc, hp⟩ := h.1
    exact ⟨⟨c, hc, (h.head_isPrefix hp).trans hw⟩,
      h.2.1.congr hw fun v hv hL => hwords v hv (graphic_of_wordChars hL), h.2.2⟩
  | number =>
    obtain ⟨c, hc, hp⟩ := h.1
    refine ⟨⟨c, hc, (h.head_isPrefix hp).trans hw⟩, ?_⟩
    rw [numberAt_congr h.2 hw hwords]
    exact h.2.congr hw fun v hv hL => hwords v hv (graphic_of_numberAt hL)
  | operator =>
    rcases h with ⟨x, y, hxy, rfl, -⟩ | ⟨hpair, hline', hblock, harrow, c, hc, rfl, -⟩
    · exact .inl ⟨x, y, hxy, rfl, hw⟩
    · refine .inr ⟨fun x y hxy => ?_, ?_, ?_, ?_, c, hc, rfl, hw⟩
      · exact hnot _ (graphic_of_isOperatorPair hxy) (hpair x y hxy)
      · exact hnot _ (graphic_marks rfl rfl) hline'
      · exact hnot _ (graphic_marks rfl rfl) hblock
      · exact hnot _ (graphic_marks rfl rfl) harrow
  | punctuation =>
    rcases h with ⟨hd, hmark, -⟩ | ⟨hscope, c, hc, rfl, -⟩
    · exact .inl ⟨hd, hmark, hw⟩
    · exact .inr ⟨hnot _ (graphic_marks rfl rfl) hscope, c, hc, rfl, hw⟩
  | stringLiteral =>
    exact ⟨(h.head_isPrefix h.1).trans hw, .inl ((h.2.shortest hterm).congr hw)⟩
  | charLiteral =>
    exact ⟨(h.head_isPrefix h.1).trans hw, .inl ((h.2.shortest hterm).congr hw)⟩
  | scopeResolution => exact ⟨h.1, hw⟩
  | arrowAccess => exact ⟨h.1, h.2.1, hw⟩
  | dotAccess => exact ⟨h.1, h.2.1, hw⟩
  | unknown =>
    obtain ⟨c, hb, hc, rfl, -⟩ := h
    exact ⟨c, hb, hc, rfl, hw⟩

/-- A terminated lexeme stays one when the text behind it is cut off at white space, a line at a line
feed. -/
theorem Lexical.before_blank {c : Char} {p cs : List Char} (h : Lexical dialect r w kind)
    (hterm : Terminated kind w) (hw : w <+: p) (hp : p <+: r) (hc : isBlank c = true)
    (hline : TakesLine kind → c = '\n') : Lexical dialect (p ++ c :: cs) w kind := by
  refine h.congr hterm (hw.trans (List.prefix_append p _)) (fun v hv hv' => ?_) fun hk v hv hv' => ?_
  · exact (isPrefix_of_not_mem hv fun hmem => hv'.solid c hmem hc).trans hp
  · exact (isPrefix_of_not_mem hv (hline hk ▸ hv')).trans hp

/-- A terminated lexeme is one by itself. -/
theorem Lexical.self (h : Lexical dialect r w kind) (hterm : Terminated kind w) (hw : w <+: r) :
    Lexical dialect w w kind :=
  h.congr hterm List.prefix_rfl (fun _ hv _ => hv.trans hw) fun _ _ hv _ => hv.trans hw

/-- The kinds that take a line have one grammar. -/
theorem exists_line_opening (dialect : Dialect) (hk : TakesLine kind) : ∃ opening : List Char,
    Graphic opening ∧ ∀ r v, Lexical dialect r v kind ↔ opening <+: r ∧ Longest ('\n' ∉ ·) r v := by
  rcases hk with rfl | rfl
  · exact ⟨['#'], graphic_singleton (isGraphic_of_isPunctuation rfl), fun _ _ => Iff.rfl⟩
  · exact ⟨['/', '/'], graphic_marks rfl rfl, fun _ _ => Iff.rfl⟩

/-- A line goes on to a line feed or to the end of the text. -/
theorem eq_nil_or_lineFeed (h : Lexical dialect (w ++ rest) w kind) (hk : TakesLine kind) :
    rest = [] ∨ ∃ rest', rest = '\n' :: rest' := by
  obtain ⟨opening, -, hlex⟩ := exists_line_opening dialect hk
  have hlong := ((hlex _ _).1 h).2
  rcases rest with _ | ⟨c, rest⟩
  · exact .inl rfl
  · refine .inr ⟨rest, ?_⟩
    congr 1
    by_contra hc
    have hle := hlong.2.2 (w ++ [c]) ⟨rest, by simp⟩ fun hmem => by
      rcases List.mem_append.1 hmem with hmem | hmem
      · exact hlong.2.1 hmem
      · exact hc (List.mem_singleton.1 hmem).symm
    rw [List.length_append, List.length_singleton] at hle
    omega

end Congr

/-! ## Comments and literals without an end mark -/

section Open
variable {dialect : Dialect} {r w rest : List Char} {kind : TokenKind}

theorem exists_shortestOrAll (L : List Char → Prop) (r : List Char) : ∃ w, ShortestOrAll L r w := by
  by_cases h : ∃ n w, w.length = n ∧ w <+: r ∧ L w
  · classical
    obtain ⟨w, hlen, hw, hL⟩ := Nat.find_spec h
    exact ⟨w, .inl ⟨hw, hL, fun v hv hv' => hlen ▸ Nat.find_min' h ⟨v, rfl, hv, hv'⟩⟩⟩
  · exact ⟨r, .inr ⟨fun v hv hv' => h ⟨_, v, rfl, hv, hv'⟩, rfl⟩⟩

/-- The kinds with an end mark have one grammar. -/
theorem exists_opening (dialect : Dialect) (h : ¬ Terminated kind w) : ∃ opening : List Char, ∀ r v,
    Lexical dialect r v kind ↔ opening <+: r ∧ ShortestOrAll (Terminated kind) r v := by
  cases kind with
  | blockComment => exact ⟨['/', '*'], fun _ _ => Iff.rfl⟩
  | stringLiteral => exact ⟨['"'], fun _ _ => Iff.rfl⟩
  | charLiteral => exact ⟨['\''], fun _ _ => Iff.rfl⟩
  | _ => exact absurd trivial h

/-- What is not terminated has taken the whole text. -/
theorem Lexical.eq_of_not_terminated (h : Lexical dialect r w kind) (hopen : ¬ Terminated kind w) :
    w = r := by
  obtain ⟨opening, hlex⟩ := exists_opening dialect hopen
  rcases ((hlex r w).1 h).2 with ⟨-, hterm, -⟩ | ⟨-, hw⟩
  · exact absurd hterm hopen
  · exact hw

/-- **What is not terminated is a lexeme of no longer text.** -/
theorem not_lexical_of_not_terminated (h : Lexical dialect w w kind) (hopen : ¬ Terminated kind w)
    (hrest : rest ≠ []) (kind' : TokenKind) : ¬ Lexical dialect (w ++ rest) w kind' := by
  intro h'
  obtain ⟨opening, hlex⟩ := exists_opening dialect hopen
  obtain ⟨v, hv⟩ := exists_shortestOrAll (Terminated kind) (w ++ rest)
  have hopening : opening <+: w ++ rest := ((hlex w w).1 h).1.trans (List.prefix_append w rest)
  obtain ⟨rfl, rfl⟩ := h'.unique ((hlex _ _).2 ⟨hopening, hv⟩)
  exact hrest (List.append_right_eq_self.1 (h'.eq_of_not_terminated hopen).symm)

end Open

end TokenDump
