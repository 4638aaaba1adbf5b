import TokenDump.Proofs.Scanner.Choice
import TokenDump.Proofs.Scanner.Extent

/-!
# The lexical grammar

`Lexical dialect r w kind` says, without an order among the rules, that the prefix `w` of the text `r` is a
lexeme of the kind, and `Terminated kind w` that a comment or literal `w` has its end mark. The rules
tried in order agree with it in both directions: what they take is a lexeme (`firstMatch_fits`), and
a lexeme is what they take (`firstMatch_of_lexical`). So a text starts with one lexeme at most
(`Lexical.unique`).
-/

namespace TokenDump
open CharClass

/-! ## The languages of the kinds -/

/-- Numbers in base sixteen. -/
def HexNumber (w : List Char) : Prop :=
  ∃ x digits, w = '0' :: x :: digits ∧ (x = 'x' ∨ x = 'X') ∧
    ∀ c ∈ digits, isExtendedNumberPart c = true

/-- Extended numbers that are not in base sixteen. -/
def ExponentNumber (w : List Char) : Prop :=
  ∃ digit tail, w = digit :: tail ∧ digit.isDigit = true ∧ ExponentTail tail

/-- The numbers that are looked for at the front of `r`. -/
def NumberAt (dialect : Dialect) (r w : List Char) : Prop :=
  if dialect.extendedNumbers = true then
    if ['0', 'x'] <+: r ∨ ['0', 'X'] <+: r then HexNumber w else ExponentNumber w
  else ∀ c ∈ w, isNumberPart c = true

/-- How a block comment ends. In `/*/` the star belongs to the opening mark. -/
def ClosedComment (w : List Char) : Prop := 4 ≤ w.length ∧ ['*', '/'] <:+ w

/-- A literal with both its quotes. -/
def ClosedLiteral (quote : Char) (w : List Char) : Prop :=
  ∃ body, LiteralBody quote body ∧ w = quote :: (body ++ [quote])

/-- Letters, digits and underscores. -/
def WordChars (w : List Char) : Prop := ∀ c ∈ w, isWordPart c = true

/-- **The lexical grammar**: the prefix `w` of `r` is a lexeme of a kind. -/
def Lexical (dialect : Dialect) (r w : List Char) : TokenKind → Prop
  | .directive => ['#'] <+: r ∧ Longest ('\n' ∉ ·) r w
  | .lineComment => ['/', '/'] <+: r ∧ Longest ('\n' ∉ ·) r w
  | .blockComment => ['/', '*'] <+: r ∧ ShortestOrAll ClosedComment r w
  | .keyword k =>
    (∃ c, isWordStart c = true ∧ [c] <+: r) ∧ Longest WordChars r w ∧ String.ofList w = k.word
  | .identifier =>
    (∃ c, isWordStart c = true ∧ [c] <+: r) ∧ Longest WordChars r w ∧
      ∀ k : Keyword, String.ofList w ≠ k.word
  | .number => (∃ c, c.isDigit = true ∧ [c] <+: r) ∧ Longest (NumberAt dialect r) r w
  | .operator =>
    (∃ x y, isOperatorPair x y = true ∧ w = [x, y] ∧ w <+: r) ∨
      (∀ x y, isOperatorPair x y = true → ¬ [x, y] <+: r) ∧ ¬ ['/', '/'] <+: r ∧
        ¬ ['/', '*'] <+: r ∧ ¬ ['-', '>'] <+: r ∧ ∃ c, isOperator c = true ∧ w = [c] ∧ w <+: r
  | .punctuation =>
    dialect.memberAccessKinds = false ∧ (w = ['-', '>'] ∨ w = ['.']) ∧ w <+: r ∨
      ¬ [':', ':'] <+: r ∧ ∃ c, c ∈ plainMarks ∧ w = [c] ∧ w <+: r
  | .stringLiteral => ['"'] <+: r ∧ ShortestOrAll (ClosedLiteral '"') r w
  | .charLiteral => ['\''] <+: r ∧ ShortestOrAll (ClosedLiteral '\'') r w
  | .scopeResolution => w = [':', ':'] ∧ w <+: r
  | .arrowAccess => dialect.memberAccessKinds = true ∧ w = ['-', '>'] ∧ w <+: r
  | .dotAccess => dialect.memberAccessKinds = true ∧ w = ['.'] ∧ w <+: r
  | .unknown =>
    ∃ c, ¬ isBlank c = true ∧ ¬ (33 ≤ c.toNat ∧ c.toNat ≤ 126) ∧ w = [c] ∧ w <+: r

/-- A comment or literal has its end mark; other lexemes need none. -/
def Terminated : TokenKind → List Char → Prop
  | .blockComment, w => ClosedComment w
  | .stringLiteral, w => ClosedLiteral '"' w
  | .charLiteral, w => ClosedLiteral '\'' w
  | _, _ => True

/-! ## The extents that the rules measure -/

section Extents
variable {c : Char} {cs : List Char}

theorem longest_line (h : c ≠ '\n') (cs : List Char) :
    Longest ('\n' ∉ ·) (c :: cs) (c :: cs.take (lineLength cs)) := by
  have hc : (c != '\n') = true := by simpa using h
  have htake : cs.take (lineLength cs) = cs.takeWhile (· != '\n') := take_length_takeWhile _ _
  obtain ⟨hp, hL, hmax⟩ := longest_takeWhile (· != '\n') (c :: cs)
  rw [List.takeWhile_cons_of_pos (p := (· != '\n')) hc, ← htake] at hp hL hmax
  refine ⟨hp, fun hmem => by simpa using hL _ hmem, fun v hv hL' => hmax v hv fun x hx => ?_⟩
  rw [bne_iff_ne]
  rintro rfl
  exact hL' hx

theorem longest_word (h : isWordStart c = true) (cs : List Char) :
    Longest WordChars (c :: cs) (c :: cs.takeWhile isWordPart) := by
  have hc : isWordPart c = true := by
    rw [isWordStart_iff] at h
    rw [isWordPart_iff, isAlphanum_iff]
    omega
  have hmax := longest_takeWhile isWordPart (c :: cs)
  rwa [List.takeWhile_cons_of_pos hc] at hmax

theorem closedComment_cons_cons {w : List Char} :
    ClosedComment ('/' :: '*' :: w) ↔ ['*', '/'] <:+ w := by
  constructor
  · rintro ⟨hlen, hsuf⟩
    have hw : w <:+ '/' :: '*' :: w := ⟨['/', '*'], rfl⟩
    exact List.suffix_of_suffix_length_le hsuf hw (by simpa using hlen)
  · intro hsuf
    have hlen := hsuf.length_le
    exact ⟨by simpa using hlen, hsuf.trans ⟨['/', '*'], rfl⟩⟩

/-- A prefix that is a closed comment goes beyond the opening mark. -/
theorem exists_of_closedComment {v : List Char} (hv : v <+: '/' :: '*' :: cs)
    (h : ClosedComment v) : ∃ w, v = '/' :: '*' :: w ∧ w <+: cs ∧ ['*', '/'] <:+ w := by
  have hle : (['/', '*'] : List Char).length ≤ v.length := le_trans (by decide) h.1
  have hopen : ['/', '*'] <+: '/' :: '*' :: cs := ⟨cs, rfl⟩
  obtain ⟨w, rfl⟩ := List.prefix_of_prefix_length_le hopen hv hle
  exact ⟨w, rfl, by simpa using hv, closedComment_cons_cons.1 h⟩

theorem shortest_comment {m : Nat} (h : commentLength 1 cs = some m) :
    m ≤ cs.length + 1 ∧
      Shortest ClosedComment ('/' :: '*' :: cs) ('/' :: ('*' :: cs).take m) := by
  obtain ⟨k, rfl, hk, -, hsuf, hmin⟩ := commentLength_eq_some h
  rw [Nat.add_comm 1 k, List.take_succ_cons]
  refine ⟨Nat.succ_le_succ hk, ⟨cs.drop k, by simp⟩, closedComment_cons_cons.2 hsuf, fun v hv hL => ?_⟩
  obtain ⟨w, rfl, hw, hsuf'⟩ := exists_of_closedComment hv hL
  exact Nat.succ_le_succ (Nat.succ_le_succ (hmin w hw hsuf'))

theorem not_closedComment (h : commentLength 1 cs = none) :
    ∀ v, v <+: '/' :: '*' :: cs → ¬ ClosedComment v := by
  intro v hv hL
  obtain ⟨w, -, hw, hsuf⟩ := exists_of_closedComment hv hL
  exact commentLength_eq_none h w hw hsuf

theorem shortest_literal {quote : Char} {m : Nat} (hq : quote ≠ '\\')
    (h : literalLength quote 0 cs = some m) :
    m ≤ cs.length ∧ Shortest (ClosedLiteral quote) (quote :: cs) (quote :: cs.take m) := by
  obtain ⟨body, hbody, hp, rfl⟩ := (literalLength_eq_some_iff hq).1 h
  have htake : cs.take (0 + body.length + 1) = body ++ [quote] := by
    rw [List.prefix_iff_eq_take.1 hp, List.length_append, Nat.zero_add, List.length_singleton]
  have hle := hp.length_le
  rw [htake]
  refine ⟨by simpa using hle, by simpa using hp, ⟨body, hbody, rfl⟩, ?_⟩
  rintro v hv ⟨body', hbody', rfl⟩
  have h' := (literalLength_eq_some_iff (n := 0) hq).2 ⟨body', hbody', by simpa using hv, rfl⟩
  have hlen := Option.some.inj (h.symm.trans h')
  simp only [List.length_cons, List.length_append, List.length_nil]
  omega

theorem not_closedLiteral {quote : Char} (hq : quote ≠ '\\')
    (h : literalLength quote 0 cs = none) :
    ∀ v, v <+: quote :: cs → ¬ ClosedLiteral quote v := by
  rintro v hv ⟨body, hbody, rfl⟩
  have h' := (literalLength_eq_some_iff (n := 0) hq).2 ⟨body, hbody, by simpa using hv, rfl⟩
  rw [h] at h'
  cases h'

theorem longest_hexNumber {x : Char} (hx : x = 'x' ∨ x = 'X') (cs : List Char) :
    Longest HexNumber ('0' :: x :: cs) ('0' :: x :: cs.takeWhile isExtendedNumberPart) := by
  obtain ⟨hp, hL, hmax⟩ := longest_takeWhile isExtendedNumberPart cs
  refine ⟨by simpa using hp, ⟨x, _, rfl, hx, hL⟩, ?_⟩
  rintro v hv ⟨y, digits, rfl, -, hdigits⟩
  simp only [List.cons_prefix_cons, true_and] at hv
  exact Nat.succ_le_succ (Nat.succ_le_succ (hmax digits hv.2 hdigits))

theorem longest_exponentNumber (h : c.isDigit = true) (cs : List Char) :
    Longest ExponentNumber (c :: cs) (c :: cs.take (exponentLength c 0 cs)) := by
  obtain ⟨hp, hL, hmax⟩ := longest_exponentLength h cs
  refine ⟨by simpa using hp, ⟨c, _, rfl, h, hL⟩, ?_⟩
  rintro v hv ⟨digit, tail, rfl, -, htail⟩
  exact Nat.succ_le_succ (hmax tail (List.cons_prefix_cons.1 hv).2 htail)

/-- The three ways to measure a number, by the dialect and the first two characters. -/
theorem longest_number (dialect : Dialect) (h : c.isDigit = true) (cs : List Char) :
    numberLength dialect c cs ≤ cs.length ∧ Longest (NumberAt dialect (c :: cs)) (c :: cs)
      (c :: cs.take (numberLength dialect c cs)) := by
  unfold NumberAt numberLength
  by_cases hd : dialect.extendedNumbers = true
  · by_cases hx : ['0', 'x'] <+: c :: cs ∨ ['0', 'X'] <+: c :: cs
    · simp only [pair_isPrefix_cons, ← and_or_left] at hx
      obtain ⟨rfl, hhead⟩ := hx
      obtain ⟨x, cs, rfl, hx⟩ : ∃ x cs', cs = x :: cs' ∧ (x = 'x' ∨ x = 'X') := by
        rcases hhead with hx | hx <;> obtain ⟨cs', rfl⟩ := List.head?_eq_some_iff.1 hx
        · exact ⟨'x', cs', rfl, .inl rfl⟩
        · exact ⟨'X', cs', rfl, .inr rfl⟩
      have hpart : isExtendedNumberPart x = true := by rcases hx with rfl | rfl <;> decide
      have hmax := longest_hexNumber hx cs
      have hx' : ('0' == '0' && (some x == some 'x' || some x == some 'X')) = true := by
        simpa using hx
      simp only [hd, Bool.not_true, Bool.false_eq_true, if_false, List.head?_cons, hx', if_true,
        take_length_takeWhile, pair_isPrefix_cons, Option.some.injEq, true_and, hx]
      refine ⟨(List.takeWhile_prefix _).length_le, ?_⟩
      rwa [List.takeWhile_cons_of_pos hpart]
    · have hx' : ¬ (c == '0' && (cs.head? == some 'x' || cs.head? == some 'X')) = true := by
        rw [pair_isPrefix_cons, pair_isPrefix_cons, ← and_or_left] at hx
        simpa using hx
      simp only [hd, Bool.not_true, Bool.false_eq_true, if_false, hx', hx, if_true]
      exact ⟨exponentLength_le c cs, longest_exponentNumber h cs⟩
  · have hd' : dialect.extendedNumbers = false := by simpa using hd
    have hpart : isNumberPart c = true := by rw [isNumberPart, h, Bool.true_or]
    have hmax := longest_takeWhile isNumberPart (c :: cs)
    rw [List.takeWhile_cons_of_pos hpart] at hmax
    simp only [hd', Bool.not_false, Bool.false_eq_true, if_false, if_true, take_length_takeWhile]
    exact ⟨(List.takeWhile_prefix _).length_le, hmax⟩

end Extents

/-! ## What the rules take is a lexeme -/

/-- A match takes a lexeme off the front of `c :: cs`, and says whether it is terminated. -/
def Match.Fits (dialect : Dialect) (c : Char) (cs : List Char) (m : Match) : Prop :=
  ∃ kind, m.kind = some kind ∧ m.more ≤ cs.length ∧
    Lexical dialect (c :: cs) (c :: cs.take m.more) kind ∧
    (m.closed = true ↔ Terminated kind (c :: cs.take m.more))

section Fits
variable {dialect : Dialect} {c : Char} {cs : List Char} {kind : TokenKind}

theorem fits_token {more : Nat} (hmore : more ≤ cs.length)
    (hlex : Lexical dialect (c :: cs) (c :: cs.take more) kind) (hterm : ∀ w, Terminated kind w) :
    (Match.token kind more).Fits dialect c cs :=
  ⟨kind, rfl, hmore, hlex, iff_of_true rfl (hterm _)⟩

theorem fits_delimited {L : List Char → Prop} {extent : Option Nat}
    (hsome : ∀ m, extent = some m → m ≤ cs.length ∧ Shortest L (c :: cs) (c :: cs.take m))
    (hnone : extent = none → ∀ v, v <+: c :: cs → ¬ L v) (hterm : Terminated kind = L)
    (hlex : ∀ w, ShortestOrAll L (c :: cs) w → Lexical dialect (c :: cs) w kind) :
    (Match.delimited kind cs extent).Fits dialect c cs := by
  cases extent with
  | some m =>
    obtain ⟨hm, hshort⟩ := hsome m rfl
    exact ⟨kind, rfl, hm, hlex _ (.inl hshort), iff_of_true rfl (hterm ▸ hshort.2.1)⟩
  | none =>
    have hall : cs.take cs.length = cs := List.take_length
    refine ⟨kind, rfl, le_rfl, hlex _ (.inr ⟨hnone rfl, ?_⟩), iff_of_false Bool.false_ne_true ?_⟩
    · rw [Match.delimited, hall]
    · rw [Match.delimited, hall, hterm]
      exact hnone rfl _ List.prefix_rfl

theorem fits_word (h : isWordStart c = true) :
    (Match.token (.ofWord (String.ofList (c :: cs.takeWhile isWordPart)))
      (cs.takeWhile isWordPart).length).Fits dialect c cs := by
  have hstart : ∃ x, isWordStart x = true ∧ [x] <+: c :: cs := ⟨c, h, by simp⟩
  have hmore : (cs.takeWhile isWordPart).length ≤ cs.length :=
    (List.takeWhile_prefix _).length_le
  rw [TokenKind.ofWord]
  split
  · next k hk =>
    refine fits_token hmore ⟨hstart, ?_, ?_⟩ fun _ => trivial
    · rw [take_length_takeWhile]
      exact longest_word h cs
    · rw [take_length_takeWhile]
      exact (Keyword.word_of_ofWord? hk).symm
  · next hk =>
    refine fits_token hmore ⟨hstart, ?_, fun k heq => ?_⟩ fun _ => trivial
    · rw [take_length_takeWhile]
      exact longest_word h cs
    · rw [take_length_takeWhile] at heq
      rw [heq, Keyword.ofWord?_word] at hk
      cases hk

theorem fits_directive (h : (c == '#') = true) :
    (Match.token .directive (lineLength cs)).Fits dialect c cs := by
  rw [beq_iff_eq.1 h]
  exact fits_token (List.takeWhile_prefix _).length_le ⟨by simp, longest_line (by decide) cs⟩
    fun _ => trivial

theorem fits_operatorPair (h : cs.head?.any (isOperatorPair c) = true) :
    (Match.token .operator 1).Fits dialect c cs := by
  obtain ⟨x, hx, hp⟩ := (Option.any_eq_true _ _).1 h
  obtain ⟨cs, rfl⟩ := List.head?_eq_some_iff.1 hx
  exact fits_token (by simp) (.inl ⟨c, x, hp, rfl, by simp⟩) fun _ => trivial

theorem fits_lineComment (h : (c == '/' && cs.head? == some '/') = true) :
    (Match.token .lineComment (lineLength cs)).Fits dialect c cs := by
  simp only [Bool.and_eq_true, beq_iff_eq] at h
  obtain ⟨rfl, hhead⟩ := h
  exact fits_token (List.takeWhile_prefix _).length_le
    ⟨pair_isPrefix_cons.2 ⟨rfl, hhead⟩, longest_line (by decide) cs⟩ fun _ => trivial

theorem fits_scopeResolution (h : (c == ':' && cs.head? == some ':') = true) :
    (Match.token .scopeResolution 1).Fits dialect c cs := by
  simp only [Bool.and_eq_true, beq_iff_eq, List.head?_eq_some_iff] at h
  obtain ⟨rfl, cs, rfl⟩ := h
  exact fits_token (by simp) ⟨rfl, by simp⟩ fun _ => trivial

theorem fits_blockComment (h : (c == '/' && cs.head? == some '*') = true) :
    (Match.delimited .blockComment cs (commentLength 1 cs.tail)).Fits dialect c cs := by
  simp only [Bool.and_eq_true, beq_iff_eq, List.head?_eq_some_iff] at h
  obtain ⟨rfl, cs, rfl⟩ := h
  exact fits_delimited (fun m hm => shortest_comment hm) not_closedComment rfl
    fun w hw => ⟨by simp, hw⟩

theorem fits_number (h : c.isDigit = true) :
    (Match.token .number (numberLength dialect c cs)).Fits dialect c cs := by
  obtain ⟨hle, hmax⟩ := longest_number dialect h cs
  exact fits_token hle ⟨⟨c, h, by simp⟩, hmax⟩ fun _ => trivial

theorem fits_access {w : List Char} {more : Nat} (hmore : more ≤ cs.length)
    (hw : c :: cs.take more = w)
    (h : w = ['-', '>'] ∧ kind = .arrowAccess ∨ w = ['.'] ∧ kind = .dotAccess) :
    (Match.token (if dialect.memberAccessKinds then kind else .punctuation) more).Fits dialect c cs := by
  have hp : c :: cs.take more <+: c :: cs := by simp [List.take_prefix]
  split
  · next hd =>
    rcases h with ⟨rfl, rfl⟩ | ⟨rfl, rfl⟩
    · exact fits_token hmore ⟨hd, hw, hp⟩ fun _ => trivial
    · exact fits_token hmore ⟨hd, hw, hp⟩ fun _ => trivial
  · next hd =>
    refine fits_token hmore (.inl ⟨by simpa using hd, ?_, hp⟩) fun _ => trivial
    rw [hw]
    exact h.imp And.left And.left

theorem fits_memberAccess (h : (c == '-' && cs.head? == some '>' || c == '.') = true) :
    (if c == '.' then Match.token (if dialect.memberAccessKinds then .dotAccess else .punctuation) 0
      else .token (if dialect.memberAccessKinds then .arrowAccess else .punctuation) 1).Fits
        dialect c cs := by
  by_cases dot : (c == '.') = true
  · rw [if_pos dot, beq_iff_eq.1 dot]
    exact fits_access (Nat.zero_le _) rfl (.inr ⟨rfl, rfl⟩)
  · rw [if_neg dot]
    simp only [Bool.or_eq_true, Bool.and_eq_true, beq_iff_eq, List.head?_eq_some_iff] at h dot
    obtain ⟨rfl, cs, rfl⟩ := h.resolve_right dot
    exact fits_access (by simp) rfl (.inl ⟨rfl, rfl⟩)

theorem fits_singleOperator (h : isOperator c = true)
    (hpair : ¬ cs.head?.any (isOperatorPair c) = true)
    (hline : ¬ (c == '/' && cs.head? == some '/') = true)
    (hblock : ¬ (c == '/' && cs.head? == some '*') = true)
    (haccess : ¬ (c == '-' && cs.head? == some '>' || c == '.') = true) :
    (Match.token .operator 0).Fits dialect c cs := by
  refine fits_token (Nat.zero_le _) (.inr ⟨fun x y hxy hp => ?_, fun hp => ?_, fun hp => ?_,
    fun hp => ?_, c, h, rfl, by simp⟩) fun _ => trivial
  · obtain ⟨rfl, hhead⟩ := pair_isPrefix_cons.1 hp
    exact hpair ((Option.any_eq_true _ _).2 ⟨y, hhead, hxy⟩)
  · exact hline (by simpa using pair_isPrefix_cons.1 hp)
  · exact hblock (by simpa using pair_isPrefix_cons.1 hp)
  · exact haccess (by simpa using .inl (pair_isPrefix_cons.1 hp))

theorem fits_punctuation (h : c ∈ plainMarks)
    (hscope : ¬ (c == ':' && cs.head? == some ':') = true) :
    (Match.token .punctuation 0).Fits dialect c cs := by
  refine fits_token (Nat.zero_le _) (.inr ⟨fun hp => ?_, c, h, rfl, by simp⟩) fun _ => trivial
  exact hscope (by simpa using pair_isPrefix_cons.1 hp)

/-- **What the rules take is a lexeme**, wherever no white space stands. -/
theorem firstMatch_fits (dialect : Dialect) (cs : List Char) (hb : ¬ isBlank c = true) :
    (firstMatch Rule.priority dialect c cs).Fits dialect c cs := by
  rw [firstMatch_priority, if_neg hb]
  by_cases hash : (c == '#') = true
  · rw [if_pos hash]
    exact fits_directive hash
  rw [if_neg hash]
  by_cases pair : cs.head?.any (isOperatorPair c) = true
  · rw [if_pos pair]
    exact fits_operatorPair pair
  rw [if_neg pair]
  by_cases line : (c == '/' && cs.head? == some '/') = true
  · rw [if_pos line]
    exact fits_lineComment line
  rw [if_neg line]
  by_cases scope : (c == ':' && cs.head? == some ':') = true
  · rw [if_pos scope]
    exact fits_scopeResolution scope
  rw [if_neg scope]
  by_cases block : (c == '/' && cs.head? == some '*') = true
  · rw [if_pos block]
    exact fits_blockComment block
  rw [if_neg block]
  by_cases word : isWordStart c = true
  · rw [if_pos word]
    exact fits_word word
  rw [if_neg word]
  by_cases digit : c.isDigit = true
  · rw [if_pos digit]
    exact fits_number digit
  rw [if_neg digit]
  by_cases access : (c == '-' && cs.head? == some '>' || c == '.') = true
  · rw [if_pos access]
    exact fits_memberAccess access
  rw [if_neg access]
  by_cases operator : isOperator c = true
  · rw [if_pos operator]
    exact fits_singleOperator operator pair line block access
  rw [if_neg operator]
  by_cases mark : isPunctuation c = true
  · rw [if_pos mark]
    -- Marks that earlier rules take are not plain.
    refine fits_punctuation (mem_plainMarks.2 ⟨mark, by simpa using operator, by simpa using hash,
      ?_, ?_⟩) scope
    · rintro rfl
      exact word (by decide)
    · rintro rfl
      exact access (by simp)
  rw [if_neg mark]
  by_cases string : (c == '"') = true
  · rw [if_pos string, beq_iff_eq.1 string]
    exact fits_delimited (fun m hm => shortest_literal (by decide) hm)
      (not_closedLiteral (by decide)) rfl fun w hw => ⟨by simp, hw⟩
  rw [if_neg string]
  by_cases char : (c == '\'') = true
  · rw [if_pos char, beq_iff_eq.1 char]
    exact fits_delimited (fun m hm => shortest_literal (by decide) hm)
      (not_closedLiteral (by decide)) rfl fun w hw => ⟨by simp, hw⟩
  rw [if_neg char]
  refine fits_token (Nat.zero_le _) ⟨c, hb, ?_, rfl, by simp⟩ fun _ => trivial
  simp only [isWordStart_iff, isDigit_iff, isPunctuation_iff, Bool.eq_false_iff, ne_eq,
    isAlphanum_iff, beq_iff_eq, ← Char.toNat_inj, Char.reduceToNat] at word digit mark string char
  omega

end Fits

/-! ## A lexeme is what the rules take -/

section Lexemes
variable {dialect : Dialect} {c : Char} {r v w : List Char} {cs : List Char} {kind : TokenKind}

theorem head_eq {x y : Char} (hv : x :: v <+: r) (hw : y :: w <+: r) : x = y := by
  obtain ⟨v', rfl⟩ := hv
  exact (List.cons_prefix_cons.1 hw).1.symm

/-- Two lexemes of one kind at the front of a text are the same. -/
theorem Lexical.eq_of_kind (hv : Lexical dialect r v kind) (hw : Lexical dialect r w kind) :
    v = w := by
  have hsame : v <+: r → w <+: r → v.length = w.length → v = w := fun h1 h2 h3 =>
    (List.prefix_of_prefix_length_le h1 h2 h3.le).eq_of_length h3
  cases kind with
  | directive | lineComment | number => exact hv.2.unique hw.2
  | keyword k | identifier => exact hv.2.1.unique hw.2.1
  | blockComment | stringLiteral | charLiteral => exact hv.2.unique hw.2
  | operator =>
    rcases hv with ⟨x, y, hxy, rfl, hv⟩ | ⟨hnv, -, -, -, c, -, rfl, hv⟩ <;>
      rcases hw with ⟨x', y', hxy', rfl, hw⟩ | ⟨hnw, -, -, -, c', -, rfl, hw⟩
    · exact hsame hv hw rfl
    · exact absurd hv (hnw x y hxy)
    · exact absurd hw (hnv x' y' hxy')
    · exact hsame hv hw rfl
  | punctuation =>
    -- The marks and the two tokens of member access all start with different characters.
    rcases hv with ⟨-, rfl | rfl, hv⟩ | ⟨-, c, hc, rfl, hv⟩ <;>
      rcases hw with ⟨-, rfl | rfl, hw⟩ | ⟨-, c', hc', rfl, hw⟩
    all_goals first
      | exact hsame hv hw rfl
      | exact absurd (head_eq hv hw) (by decide)
      | exact absurd (head_eq hv hw ▸ hc) (by decide)
      | exact absurd (head_eq hv hw ▸ hc') (by decide)
  | scopeResolution => exact hv.1.trans hw.1.symm
  | arrowAccess | dotAccess => exact hv.2.1.trans hw.2.1.symm
  | unknown =>
    obtain ⟨x, -, -, rfl, hv⟩ := hv
    obtain ⟨y, -, -, rfl, hw⟩ := hw
    exact hsame hv hw rfl

theorem kind_delimited (extent : Option Nat) : (Match.delimited kind cs extent).kind = some kind := by
  cases extent <;> rfl

theorem ofWord_eq_identifier {s : String} (h : ∀ k : Keyword, s ≠ k.word) :
    TokenKind.ofWord s = .identifier := by
  rw [TokenKind.ofWord]
  split
  · next k hk => exact absurd (Keyword.word_of_ofWord? hk).symm (h k)
  · rfl

theorem ofWord_word (k : Keyword) : TokenKind.ofWord k.word = .keyword k := by
  rw [TokenKind.ofWord, Keyword.ofWord?_word]

theorem kind_firstMatch (h : Lexical dialect (c :: cs) w kind) :
    (firstMatch Rule.priority dialect c cs).kind = some kind := by
  cases kind with
  | directive =>
    obtain ⟨rfl, -⟩ := List.cons_prefix_cons.1 h.1
    rfl
  | lineComment =>
    obtain ⟨rfl, hhead⟩ := pair_isPrefix_cons.1 h.1
    obtain ⟨cs, rfl⟩ := List.head?_eq_some_iff.1 hhead
    rfl
  | blockComment =>
    obtain ⟨rfl, hhead⟩ := pair_isPrefix_cons.1 h.1
    obtain ⟨cs, rfl⟩ := List.head?_eq_some_iff.1 hhead
    exact kind_delimited _
  | keyword k =>
    obtain ⟨⟨x, hx, hp⟩, hmax, hword⟩ := h
    obtain ⟨rfl, -⟩ := List.cons_prefix_cons.1 hp
    rw [firstMatch_word dialect hx, (longest_word hx cs).unique hmax, hword, ofWord_word]
    rfl
  | identifier =>
    obtain ⟨⟨x, hx, hp⟩, hmax, hword⟩ := h
    obtain ⟨rfl, -⟩ := List.cons_prefix_cons.1 hp
    rw [firstMatch_word dialect hx, (longest_word hx cs).unique hmax, ofWord_eq_identifier hword]
    rfl
  | number =>
    obtain ⟨⟨x, hx, hp⟩, -⟩ := h
    obtain ⟨rfl, -⟩ := List.cons_prefix_cons.1 hp
    rw [firstMatch_digit dialect hx]
    rfl
  | operator =>
    rcases h with ⟨x, y, hxy, rfl, hp⟩ | ⟨hpair, hline, hblock, harrow, x, hx, rfl, hp⟩
    · obtain ⟨rfl, hhead⟩ := pair_isPrefix_cons.1 hp
      obtain ⟨cs, rfl⟩ := List.head?_eq_some_iff.1 hhead
      rw [firstMatch_pair dialect hxy]
      rfl
    · obtain ⟨rfl, -⟩ := List.cons_prefix_cons.1 hp
      rw [firstMatch_operator dialect hx (hpair x) hline hblock harrow]
      rfl
  | punctuation =>
    rcases h with ⟨hd, rfl | rfl, hp⟩ | ⟨hscope, x, hx, rfl, hp⟩
    · obtain ⟨rfl, hhead⟩ := pair_isPrefix_cons.1 hp
      obtain ⟨cs, rfl⟩ := List.head?_eq_some_iff.1 hhead
      rw [firstMatch_arrow, hd]
      rfl
    · obtain ⟨rfl, -⟩ := List.cons_prefix_cons.1 hp
      rw [firstMatch_dot, hd]
      rfl
    · obtain ⟨rfl, -⟩ := List.cons_prefix_cons.1 hp
      rw [firstMatch_plainMark dialect hx hscope]
      rfl
  | stringLiteral =>
    obtain ⟨rfl, -⟩ := List.cons_prefix_cons.1 h.1
    rw [firstMatch_doubleQuote]
    exact kind_delimited _
  | charLiteral =>
    obtain ⟨rfl, -⟩ := List.cons_prefix_cons.1 h.1
    rw [firstMatch_singleQuote]
    exact kind_delimited _
  | scopeResolution =>
    obtain ⟨rfl, hp⟩ := h
    obtain ⟨rfl, hhead⟩ := pair_isPrefix_cons.1 hp
    obtain ⟨cs, rfl⟩ := List.head?_eq_some_iff.1 hhead
    rfl
  | arrowAccess =>
    obtain ⟨hd, rfl, hp⟩ := h
    obtain ⟨rfl, hhead⟩ := pair_isPrefix_cons.1 hp
    obtain ⟨cs, rfl⟩ := List.head?_eq_some_iff.1 hhead
    rw [firstMatch_arrow, hd]
    rfl
  | dotAccess =>
    obtain ⟨hd, rfl, hp⟩ := h
    obtain ⟨rfl, -⟩ := List.cons_prefix_cons.1 hp
    rw [firstMatch_dot, hd]
    rfl
  | unknown =>
    obtain ⟨x, hb, hg, rfl, hp⟩ := h
    obtain ⟨rfl, -⟩ := List.cons_prefix_cons.1 hp
    rw [firstMatch_unknown dialect hb hg]
    rfl

theorem Lexical.ne_nil (h : Lexical dialect r w kind) : r ≠ [] := by
  rintro rfl
  cases kind <;> simp only [Lexical, List.prefix_nil, List.cons_ne_nil] at h <;> grind

/-- No lexeme starts with white space. -/
theorem Lexical.not_isBlank (h : Lexical dialect (c :: cs) w kind) : ¬ isBlank c = true := by
  intro hb
  have hkind := kind_firstMatch h
  rw [firstMatch_priority, if_pos hb] at hkind
  cases hkind

/-- **A lexeme is what the rules take.** -/
theorem firstMatch_of_lexical (h : Lexical dialect (c :: cs) w kind) :
    (firstMatch Rule.priority dialect c cs).kind = some kind ∧
      w = c :: cs.take (firstMatch Rule.priority dialect c cs).more := by
  have hkind := kind_firstMatch h
  obtain ⟨kind', hkind', -, hlex, -⟩ := firstMatch_fits dialect cs h.not_isBlank
  obtain rfl : kind = kind' := Option.some.inj (hkind.symm.trans hkind')
  exact ⟨hkind, h.eq_of_kind hlex⟩

/-- The grammar is unambiguous. -/
theorem Lexical.unique {kind' : TokenKind} (hv : Lexical dialect r v kind)
    (hw : Lexical dialect r w kind') : v = w ∧ kind = kind' := by
  obtain ⟨c, cs, rfl⟩ := List.exists_cons_of_ne_nil hv.ne_nil
  obtain ⟨hk, rfl⟩ := firstMatch_of_lexical hv
  obtain ⟨hk', rfl⟩ := firstMatch_of_lexical hw
  exact ⟨rfl, Option.some.inj (hk.symm.trans hk')⟩

end Lexemes

end TokenDump
