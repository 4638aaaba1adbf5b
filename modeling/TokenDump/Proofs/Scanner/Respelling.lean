import TokenDump.Proofs.Scanner.Context
import TokenDump.Proofs.Scanner.Segments

/-!
# Lexemes in another spelling

A respelling puts characters beyond ASCII in the place of others beyond ASCII, and white space in front
of line feeds. The grammar does not notice: a lexeme stays one of its kind (`Respelling.lexical_chars`).
The words of the grammar are graphic, so that a respelling keeps them and makes no new ones
(`Respelling.isPrefix_of_graphic`), and what runs to an end mark runs to the same mark
(`Respelling.exists_of_concat_isPrefix`). Only a lexeme that takes a line has one thing more in it: what
is put in front of the line feed behind it.
-/

namespace TokenDump
open CharClass

/-- A way to spell texts that keeps ASCII but for what it puts in front of line feeds. -/
structure Respelling where
  /-- What stands in the place of a character. -/
  image : Char → List Char
  /-- What is put in front of a line feed. -/
  beforeFeed : List Char
  image_of_ascii : ∀ c, c.toNat < 128 → c ≠ '\n' → image c = [c]
  image_feed : image '\n' = beforeFeed ++ ['\n']
  blank_beforeFeed : Blank beforeFeed
  feed_not_mem : '\n' ∉ beforeFeed
  image_of_wide : ∀ c, 128 ≤ c.toNat → ∃ d, image c = [d] ∧ 128 ≤ d.toNat

namespace Respelling

/-- Characters as they are spelt. -/
def chars (φ : Respelling) (cs : List Char) : List Char := cs.flatMap φ.image

/-- A text as it is spelt. -/
def apply (φ : Respelling) (s : String) : String := String.ofList (φ.chars s.toList)

/-- What a token of a kind with `rest` behind it takes beyond its own characters. -/
def added (φ : Respelling) (kind : TokenKind) (rest : List Char) : List Char :=
  if TakesLine kind ∧ rest.head? = some '\n' then φ.beforeFeed else []

/-! ## Characters -/

section Image
variable (φ : Respelling) {c d : Char}

/-- A character is a line feed, stays as it is, or lies beyond ASCII. -/
theorem image_cases (c : Char) : c = '\n' ∨ c ≠ '\n' ∧ c.toNat < 128 ∧ φ.image c = [c] ∨
    128 ≤ c.toNat ∧ ∃ d, φ.image c = [d] ∧ 128 ≤ d.toNat := by
  by_cases hfeed : c = '\n'
  · exact .inl hfeed
  · rcases Nat.lt_or_ge c.toNat 128 with hc | hc
    · exact .inr (.inl ⟨hfeed, hc, φ.image_of_ascii c hc hfeed⟩)
    · exact .inr (.inr ⟨hc, φ.image_of_wide c hc⟩)

theorem image_of_isGraphic (h : IsGraphic c) : φ.image c = [c] := by
  unfold IsGraphic at h
  refine φ.image_of_ascii c (by omega) ?_
  rintro rfl
  exact absurd h.1 (by decide)

/-- A graphic character stands for itself only. -/
theorem eq_of_mem_image (h : d ∈ φ.image c) (hd : IsGraphic d) : c = d := by
  unfold IsGraphic at hd
  rcases φ.image_cases c with rfl | ⟨-, -, hc⟩ | ⟨-, x, hc, hx⟩
  · rw [φ.image_feed] at h
    rcases List.mem_append.1 h with h | h
    · exact absurd (φ.blank_beforeFeed d h) (IsGraphic.not_isBlank hd)
    · rw [List.mem_singleton.1 h] at hd
      exact absurd hd.1 (by decide)
  · rw [hc] at h
    exact (List.mem_singleton.1 h).symm
  · rw [hc] at h
    obtain rfl := List.mem_singleton.1 h
    omega

theorem image_ne_nil (c : Char) : φ.image c ≠ [] := by
  rcases φ.image_cases c with rfl | ⟨-, -, hc⟩ | ⟨-, d, hc, -⟩
  · rw [φ.image_feed]
    exact List.append_ne_nil_of_right_ne_nil _ (List.cons_ne_nil _ _)
  · rw [hc]
    exact List.cons_ne_nil _ _
  · rw [hc]
    exact List.cons_ne_nil _ _

/-- Only a line feed makes line feeds. -/
theorem feed_not_mem_image (h : c ≠ '\n') : '\n' ∉ φ.image c := by
  rcases φ.image_cases c with hc | ⟨-, -, hc⟩ | ⟨-, d, hc, hd⟩
  · exact absurd hc h
  · rw [hc, List.mem_singleton]
    exact h.symm
  · rw [hc, List.mem_singleton]
    rintro rfl
    exact absurd hd (by decide)

theorem blank_image (h : isBlank c = true) : Blank (φ.image c) := by
  rcases φ.image_cases c with rfl | ⟨-, -, hc⟩ | ⟨hc, -⟩
  · intro d hd
    rw [φ.image_feed] at hd
    rcases List.mem_append.1 hd with hd | hd
    · exact φ.blank_beforeFeed d hd
    · rw [List.mem_singleton.1 hd]
      rfl
  · rw [hc]
    intro d hd
    rwa [List.mem_singleton.1 hd]
  · rw [isBlank_iff] at h
    omega

/-- A character that no rule takes stays such a character. -/
theorem exists_image_of_unknown (hblank : ¬ isBlank c = true) (hgraphic : ¬ IsGraphic c) :
    ∃ d, φ.image c = [d] ∧ ¬ isBlank d = true ∧ ¬ IsGraphic d := by
  rcases φ.image_cases c with rfl | ⟨-, -, hc⟩ | ⟨-, d, hc, hd⟩
  · exact absurd rfl hblank
  · exact ⟨c, hc, hblank, hgraphic⟩
  · refine ⟨d, hc, ?_, ?_⟩
    · rw [isBlank_iff]
      omega
    · unfold IsGraphic
      omega

end Image

/-! ## Characters in a row -/

section Chars
variable (φ : Respelling) {q : Char} {gap r u v w z rest : List Char}

theorem chars_cons (c : Char) (cs : List Char) : φ.chars (c :: cs) = φ.image c ++ φ.chars cs :=
  List.flatMap_cons

theorem chars_append (cs ds : List Char) : φ.chars (cs ++ ds) = φ.chars cs ++ φ.chars ds :=
  List.flatMap_append

theorem chars_cons_of_isGraphic (hq : IsGraphic q) (cs : List Char) :
    φ.chars (q :: cs) = q :: φ.chars cs := by
  rw [chars_cons, φ.image_of_isGraphic hq, List.singleton_append]

theorem chars_of_graphic (h : Graphic w) : φ.chars w = w := by
  induction w with
  | nil => rfl
  | cons c w ih =>
    obtain ⟨hc, hw⟩ := List.forall_mem_cons.1 h
    rw [φ.chars_cons_of_isGraphic hc, ih hw]

theorem chars_concat_of_isGraphic (hq : IsGraphic q) (cs : List Char) :
    φ.chars (cs ++ [q]) = φ.chars cs ++ [q] := by
  rw [chars_append, φ.chars_of_graphic (graphic_singleton hq)]

theorem chars_isPrefix (h : u <+: v) : φ.chars u <+: φ.chars v := by
  obtain ⟨z, rfl⟩ := h
  rw [chars_append]
  exact List.prefix_append _ _

theorem blank_chars (h : Blank gap) : Blank (φ.chars gap) := by
  intro d hd
  obtain ⟨c, hc, hd⟩ := List.mem_flatMap.1 hd
  exact φ.blank_image (h c hc) d hd

theorem length_le_length_chars (w : List Char) : w.length ≤ (φ.chars w).length := by
  induction w with
  | nil => exact le_rfl
  | cons c w ih =>
    have hpos := List.length_pos_iff.2 (φ.image_ne_nil c)
    rw [chars_cons, List.length_cons, List.length_append]
    omega

theorem feed_not_mem_chars (h : '\n' ∉ w) : '\n' ∉ φ.chars w := by
  intro hmem
  obtain ⟨c, hc, hmem⟩ := List.mem_flatMap.1 hmem
  refine φ.feed_not_mem_image ?_ hmem
  rintro rfl
  exact h hc

/-- **A respelling makes no words**: those at the front of the text stood there before. -/
theorem isPrefix_of_graphic (hv : Graphic v) (h : v <+: φ.chars r) : v <+: r := by
  induction r generalizing v with
  | nil => exact h
  | cons c r ih =>
    rcases v with _ | ⟨d, v⟩
    · exact List.nil_prefix
    · obtain ⟨hd, hlater⟩ := List.forall_mem_cons.1 hv
      obtain ⟨x, xs, hx⟩ := List.exists_cons_of_ne_nil (φ.image_ne_nil c)
      rw [chars_cons, hx, List.cons_append] at h
      obtain ⟨rfl, -⟩ := List.cons_prefix_cons.1 h
      obtain rfl := φ.eq_of_mem_image (hx ▸ List.mem_cons_self) hd
      rw [← List.cons_append, ← hx, φ.image_of_isGraphic hd] at h
      exact List.cons_prefix_cons.2 ⟨rfl, ih hlater (List.cons_prefix_cons.1 h).2⟩

/-- **A respelling makes no end marks**: what stands in front of a graphic character is the spelling of
what stood there. -/
theorem exists_of_concat_isPrefix (hq : IsGraphic q) (h : z ++ [q] <+: φ.chars r) :
    ∃ x, x ++ [q] <+: r ∧ z = φ.chars x := by
  induction r generalizing z with
  | nil => exact absurd (List.prefix_nil.1 h) (by simp)
  | cons c r ih =>
    rw [chars_cons] at h
    rcases List.prefix_or_prefix_of_prefix h (List.prefix_append (φ.image c) (φ.chars r)) with
      hle | ⟨v, hv⟩
    · obtain rfl := φ.eq_of_mem_image (hle.subset (by simp)) hq
      rw [φ.image_of_isGraphic hq] at hle
      have hlen := hle.length_le
      rw [List.length_append, List.length_singleton] at hlen
      obtain rfl : z = [] := List.length_eq_zero_iff.1 (by omega)
      exact ⟨[], by simp, rfl⟩
    · rcases List.eq_nil_or_concat v with rfl | ⟨v, d, rfl⟩
      · rw [List.append_nil] at hv
        obtain rfl := φ.eq_of_mem_image (c := c) (by rw [hv]; simp) hq
        rw [φ.image_of_isGraphic hq] at hv
        obtain rfl : z = [] := by simpa using hv.symm
        exact ⟨[], by simp, rfl⟩
      · rw [List.concat_eq_append, ← List.append_assoc] at hv
        obtain ⟨rfl, hd⟩ := List.append_inj' hv rfl
        obtain rfl := List.singleton_inj.1 hd
        rw [List.append_assoc] at h
        obtain ⟨x, hx, rfl⟩ := ih ((List.prefix_append_right_inj _).1 h)
        refine ⟨c :: x, List.cons_prefix_cons.2 ⟨rfl, hx⟩, ?_⟩
        rw [chars_cons]

theorem exists_of_concat_eq (hq : IsGraphic q) (h : z ++ [q] = φ.chars u) :
    ∃ x, u = x ++ [q] ∧ z = φ.chars x := by
  obtain ⟨x, ⟨t, rfl⟩, rfl⟩ := φ.exists_of_concat_isPrefix (r := u) hq ⟨[], by rw [h, List.append_nil]⟩
  rw [chars_append, φ.chars_concat_of_isGraphic hq, List.self_eq_append_right] at h
  have ht := φ.length_le_length_chars t
  rw [h, List.length_nil, Nat.le_zero, List.length_eq_zero_iff] at ht
  exact ⟨x, by rw [ht, List.append_nil], rfl⟩

end Chars

/-! ## Lexemes with an end mark -/

section Ended
variable (φ : Respelling) {quote c : Char} {dialect : Dialect} {body cs r v w ds : List Char}
  {kind : TokenKind}

theorem literalBody_plain_iff (hquote : c ≠ quote) (hslash : c ≠ '\\') :
    LiteralBody quote (c :: body) ↔ LiteralBody quote body := by
  constructor
  · intro hbody
    cases hbody with
    | plain _ _ hlater => exact hlater
    | escape _ => exact absurd rfl hslash
  · exact fun hbody => .plain hquote hslash hbody

theorem literalBody_append_iff (h : ∀ d ∈ ds, d ≠ quote ∧ d ≠ '\\') :
    LiteralBody quote (ds ++ body) ↔ LiteralBody quote body := by
  induction ds with
  | nil => exact Iff.rfl
  | cons d ds ih =>
    obtain ⟨⟨hquote, hslash⟩, hds⟩ := List.forall_mem_cons.1 h
    exact (literalBody_plain_iff hquote hslash).trans (ih hds)

theorem not_literalBody_quote (hq : quote ≠ '\\') : ¬ LiteralBody quote (quote :: body) := by
  intro hbody
  cases hbody with
  | plain hquote _ _ => exact hquote rfl
  | escape _ => exact hq rfl

theorem literalBody_escape_iff (d : Char) :
    LiteralBody quote ('\\' :: d :: body) ↔ LiteralBody quote body := by
  constructor
  · intro hbody
    cases hbody with
    | plain _ hslash _ => exact absurd rfl hslash
    | escape hlater => exact hlater
  · exact fun hbody => .escape hbody

/-- All that stands in the place of a character is plain, if the character is. -/
theorem plain_of_mem_image (hq : IsGraphic quote) (hquote : c ≠ quote) (hslash : c ≠ '\\') :
    ∀ d ∈ φ.image c, d ≠ quote ∧ d ≠ '\\' := by
  refine fun d hd => ⟨?_, ?_⟩
  · rintro rfl
    exact hquote (φ.eq_of_mem_image hd hq)
  · rintro rfl
    exact hslash (φ.eq_of_mem_image hd ⟨by decide, by decide⟩)

/-- Behind the first character that stands in the place of another there are plain ones only. -/
theorem exists_image_cons (hq : IsGraphic quote) (c : Char) :
    ∃ d ds, φ.image c = d :: ds ∧ ∀ x ∈ ds, x ≠ quote ∧ x ≠ '\\' := by
  by_cases hc : IsGraphic c
  · exact ⟨c, [], φ.image_of_isGraphic hc, by simp⟩
  · obtain ⟨d, ds, hd⟩ := List.exists_cons_of_ne_nil (φ.image_ne_nil c)
    refine ⟨d, ds, hd, fun x hx => φ.plain_of_mem_image hq ?_ ?_ x (hd ▸ List.mem_cons_of_mem d hx)⟩
    · rintro rfl
      exact hc hq
    · rintro rfl
      exact hc ⟨by decide, by decide⟩

/-- **A literal keeps its end**: a backslash in front of a line feed hides what is put there, and the line
feed is plain then. -/
theorem literalBody_chars_iff (hq : IsGraphic quote) (hq' : quote ≠ '\\') :
    (body : List Char) → (LiteralBody quote (φ.chars body) ↔ LiteralBody quote body)
  | [] => Iff.rfl
  | c :: body => by
    by_cases hslash : c = '\\'
    · subst hslash
      rw [chars_cons, φ.image_of_isGraphic ⟨by decide, by decide⟩]
      cases body with
      | nil => exact Iff.rfl
      | cons e body =>
        obtain ⟨d, ds, hd, hds⟩ := φ.exists_image_cons hq e
        rw [literalBody_escape_iff, chars_cons, hd, ← literalBody_chars_iff hq hq' body]
        exact (literalBody_escape_iff d).trans (literalBody_append_iff hds)
    · by_cases hquote : c = quote
      · subst hquote
        rw [chars_cons, φ.image_of_isGraphic hq]
        exact iff_of_false (not_literalBody_quote hq') (not_literalBody_quote hq')
      · rw [chars_cons, literalBody_append_iff (φ.plain_of_mem_image hq hquote hslash),
          literalBody_chars_iff hq hq' body]
        exact (literalBody_plain_iff hquote hslash).symm

theorem closedLiteral_chars (hq : IsGraphic quote) (hq' : quote ≠ '\\') (h : ClosedLiteral quote w) :
    ClosedLiteral quote (φ.chars w) := by
  obtain ⟨body, hbody, rfl⟩ := h
  refine ⟨φ.chars body, (φ.literalBody_chars_iff hq hq' body).2 hbody, ?_⟩
  rw [φ.chars_cons_of_isGraphic hq, φ.chars_concat_of_isGraphic hq]

/-- What looks like a literal in another spelling is the spelling of one. -/
theorem exists_of_closedLiteral (hq : IsGraphic quote) (hq' : quote ≠ '\\') (hopen : [quote] <+: r)
    (hv : v <+: φ.chars r) (h : ClosedLiteral quote v) :
    ∃ u, u <+: r ∧ ClosedLiteral quote u ∧ v = φ.chars u := by
  obtain ⟨cs, rfl⟩ := hopen
  obtain ⟨body, hbody, rfl⟩ := h
  rw [List.singleton_append, φ.chars_cons_of_isGraphic hq, List.cons_prefix_cons] at hv
  obtain ⟨x, hx, rfl⟩ := φ.exists_of_concat_isPrefix hq hv.2
  refine ⟨quote :: (x ++ [quote]), List.cons_prefix_cons.2 ⟨rfl, hx⟩,
    ⟨x, (φ.literalBody_chars_iff hq hq' x).1 hbody, rfl⟩, ?_⟩
  rw [φ.chars_cons_of_isGraphic hq, φ.chars_concat_of_isGraphic hq]

theorem closedComment_chars (h : ClosedComment w) : ClosedComment (φ.chars w) := by
  obtain ⟨hlen, body, rfl⟩ := h
  refine ⟨hlen.trans (φ.length_le_length_chars _), φ.chars body, ?_⟩
  rw [chars_append, φ.chars_of_graphic (graphic_marks rfl rfl)]

/-- What looks like a comment in another spelling is the spelling of one. -/
theorem exists_of_closedComment (hopen : ['/', '*'] <+: r) (hv : v <+: φ.chars r)
    (h : ClosedComment v) : ∃ u, u <+: r ∧ ClosedComment u ∧ v = φ.chars u := by
  have hstar : IsGraphic '*' := isGraphic_of_isPunctuation rfl
  have hslash : IsGraphic '/' := isGraphic_of_isPunctuation rfl
  obtain ⟨cs, rfl⟩ := hopen
  have hchars : ∀ cs, φ.chars ('/' :: '*' :: cs) = '/' :: '*' :: φ.chars cs := by
    intro cs
    rw [φ.chars_cons_of_isGraphic hslash, φ.chars_cons_of_isGraphic hstar]
  rw [List.cons_append, List.singleton_append, hchars] at hv
  obtain ⟨z, rfl, hz, y, rfl⟩ := TokenDump.exists_of_closedComment hv h
  have hmark : ∀ y : List Char, y ++ ['*', '/'] = y ++ ['*'] ++ ['/'] := by simp
  rw [hmark] at hz
  obtain ⟨x, hx, hxy⟩ := φ.exists_of_concat_isPrefix hslash hz
  obtain ⟨x, rfl, rfl⟩ := φ.exists_of_concat_eq hstar hxy
  rw [← hmark] at hx
  refine ⟨'/' :: '*' :: (x ++ ['*', '/']), by simpa using hx, closedComment_cons_cons.2 ⟨x, rfl⟩, ?_⟩
  rw [hchars, hmark, hmark, φ.chars_concat_of_isGraphic hslash, φ.chars_concat_of_isGraphic hstar]

/-- What runs to an end mark does so in another spelling, and is closed there if it is closed here. -/
theorem shortestOrAll_chars {L : List Char → Prop} (hL : L w → L (φ.chars w))
    (hback : ∀ v, v <+: φ.chars r → L v → ∃ u, u <+: r ∧ L u ∧ v = φ.chars u)
    (h : ShortestOrAll L r w) :
    ShortestOrAll L (φ.chars r) (φ.chars w) ∧ (L (φ.chars w) ↔ L w) := by
  rcases h with ⟨hw, hLw, hmin⟩ | ⟨hnone, rfl⟩
  · refine ⟨.inl ⟨φ.chars_isPrefix hw, hL hLw, fun v hv hLv => ?_⟩, iff_of_true (hL hLw) hLw⟩
    obtain ⟨u, hu, hLu, rfl⟩ := hback v hv hLv
    have hwu : w <+: u := List.prefix_of_prefix_length_le hw hu (hmin u hu hLu)
    exact (φ.chars_isPrefix hwu).length_le
  · have hnone' : ∀ v, v <+: φ.chars w → ¬ L v := by
      intro v hv hLv
      obtain ⟨u, hu, hLu, -⟩ := hback v hv hLv
      exact hnone u hu hLu
    exact ⟨.inr ⟨hnone', rfl⟩,
      iff_of_false (hnone' _ List.prefix_rfl) (hnone w List.prefix_rfl)⟩

theorem opening_isPrefix_chars {opening : List Char} (hopening : Graphic opening)
    (h : opening <+: r) : opening <+: φ.chars r := by
  have hchars := φ.chars_isPrefix h
  rwa [φ.chars_of_graphic hopening] at hchars

/-- A lexeme with an end mark stays one. -/
theorem ended_chars {opening : List Char} (hopening : Graphic opening)
    (hlex : ∀ r v, Lexical dialect r v kind ↔ opening <+: r ∧ ShortestOrAll (Terminated kind) r v)
    (hterm : ∀ {w}, Terminated kind w → Terminated kind (φ.chars w))
    (hback : ∀ {v}, opening <+: r → v <+: φ.chars r → Terminated kind v →
      ∃ u, u <+: r ∧ Terminated kind u ∧ v = φ.chars u)
    (h : Lexical dialect r w kind) : Lexical dialect (φ.chars r) (φ.chars w) kind ∧
      (Terminated kind (φ.chars w) ↔ Terminated kind w) := by
  obtain ⟨hopen, hw⟩ := (hlex r w).1 h
  obtain ⟨hw', hiff⟩ := φ.shortestOrAll_chars hterm (fun v => hback hopen) hw
  exact ⟨(hlex _ _).2 ⟨φ.opening_isPrefix_chars hopening hopen, hw'⟩, hiff⟩

end Ended

/-! ## Lexemes -/

section Lexemes
variable (φ : Respelling) {dialect : Dialect} {r w rest : List Char} {kind : TokenKind}

theorem added_of_not_takesLine (h : ¬ TakesLine kind) (rest : List Char) : φ.added kind rest = [] :=
  if_neg fun hk => h hk.1

theorem blank_added (kind : TokenKind) (rest : List Char) : Blank (φ.added kind rest) := by
  unfold added
  split
  · exact φ.blank_beforeFeed
  · simp [Blank]

/-- A token takes no more than what is put behind it. -/
theorem exists_chars_eq (kind : TokenKind) (rest : List Char) :
    ∃ left, φ.chars rest = φ.added kind rest ++ left := by
  unfold added
  split
  · next h =>
    obtain ⟨rest, rfl⟩ := List.head?_eq_some_iff.1 h.2
    rw [chars_cons, φ.image_feed, List.append_assoc]
    exact ⟨_, rfl⟩
  · exact ⟨φ.chars rest, rfl⟩

/-- A line is as long as it was, with what is put in front of its line feed. -/
theorem line_chars (h : Lexical dialect (w ++ rest) w kind) (hk : TakesLine kind) :
    Lexical dialect (φ.chars (w ++ rest)) (φ.chars w ++ φ.added kind rest) kind := by
  obtain ⟨opening, hopening, hlex⟩ := exists_line_opening dialect hk
  obtain ⟨hopen, -, hw, -⟩ := (hlex _ _).1 h
  refine (hlex _ _).2 ⟨φ.opening_isPrefix_chars hopening hopen, ?_⟩
  have hw' := φ.feed_not_mem_chars hw
  unfold added
  rcases eq_nil_or_lineFeed h hk with rfl | ⟨rest, rfl⟩
  · rw [if_neg (by simp), List.append_nil, List.append_nil]
    exact ⟨List.prefix_rfl, hw', fun v hv _ => hv.length_le⟩
  · rw [if_pos ⟨hk, rfl⟩, chars_append, chars_cons, φ.image_feed, List.append_assoc,
      ← List.append_assoc (φ.chars w)]
    refine ⟨List.prefix_append _ _, fun hmem => ?_, fun v hv hv' => ?_⟩
    · exact (List.mem_append.1 hmem).elim hw' φ.feed_not_mem
    · exact (isPrefix_of_not_mem hv hv').length_le

/-- **A lexeme stays one in another spelling**, with its kind, and closed or open as it was. -/
theorem lexical_chars (h : Lexical dialect (w ++ rest) w kind) :
    Lexical dialect (φ.chars (w ++ rest)) (φ.chars w ++ φ.added kind rest) kind ∧
      (Terminated kind (φ.chars w ++ φ.added kind rest) ↔ Terminated kind w) := by
  by_cases hk : TakesLine kind
  · refine ⟨φ.line_chars h hk, ?_⟩
    rcases hk with rfl | rfl <;> exact Iff.rfl
  rw [φ.added_of_not_takesLine hk, List.append_nil]
  cases kind with
  | blockComment =>
    exact φ.ended_chars (graphic_marks rfl rfl) (fun _ _ => Iff.rfl) φ.closedComment_chars
      φ.exists_of_closedComment h
  | stringLiteral =>
    have hquote : IsGraphic '"' := ⟨by decide, by decide⟩
    exact φ.ended_chars (graphic_singleton hquote) (fun _ _ => Iff.rfl)
      (φ.closedLiteral_chars hquote (by decide)) (φ.exists_of_closedLiteral hquote (by decide)) h
  | charLiteral =>
    have hquote : IsGraphic '\'' := ⟨by decide, by decide⟩
    exact φ.ended_chars (graphic_singleton hquote) (fun _ _ => Iff.rfl)
      (φ.closedLiteral_chars hquote (by decide)) (φ.exists_of_closedLiteral hquote (by decide)) h
  | unknown =>
    obtain ⟨c, hblank, hgraphic, rfl, -⟩ := h
    obtain ⟨d, hd, hblank', hgraphic'⟩ := φ.exists_image_of_unknown hblank hgraphic
    have hchars : φ.chars [c] = [d] := by rw [chars_cons, hd]; rfl
    rw [chars_append, hchars]
    exact ⟨⟨d, hblank', hgraphic', rfl, List.prefix_append _ _⟩, Iff.rfl⟩
  | directive | lineComment => exact absurd (by simp [TakesLine]) hk
  | _ =>
    have hw := h.graphic rfl
    have hchars : φ.chars w = w := φ.chars_of_graphic hw
    rw [hchars]
    refine ⟨h.congr trivial ?_ (fun v hv hv' => φ.isPrefix_of_graphic hv' hv)
      fun hk' => absurd hk' hk, Iff.rfl⟩
    rw [chars_append, hchars]
    exact List.prefix_append _ _

end Lexemes

end Respelling

end TokenDump
