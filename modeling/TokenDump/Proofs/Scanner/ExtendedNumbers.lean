import TokenDump.Proofs.Scanner.Context
import TokenDump.Proofs.Scanner.Stretches
import TokenDump.Proofs.Text.Runs

/-!
# Extended numbers as plain tokens

A dialect with extended numbers joins tokens and changes no others: a number of its own is made of plain
tokens that follow each other without a gap, unless an underscore comes behind it, which the last of
them may take in (`finds_extended`). The parts of an extended number that a plain rule stops at are
letters after digits, dots after letters, and signs in front of digits (`NumberText`).
-/

namespace TokenDump
open CharClass Utf8 Text
open String (utf8Len)

/-- The byte offset just after the token. -/
def Find.stop (f : Find) : Nat := f.after.offset

/-- Finds that follow each other from one offset to another with nothing between them. -/
def Joined : Nat → Nat → List Find → Prop
  | start, stop, [] => start = stop
  | start, stop, f :: finds => f.start = start ∧ Joined f.stop stop finds

/-- The offsets where tokens start or stop. -/
def boundaries (finds : List Find) : List Nat := finds.flatMap fun f => [f.start, f.stop]

/-- The plain tokens that an extended number may be made of. -/
def NumberPiece (memberAccessKinds : Bool) (kind : TokenKind) (w : List Char) : Prop :=
  kind = .number ∨ (∃ k, kind = .keyword k) ∨ kind = .identifier ∨
    kind = (if memberAccessKinds then .dotAccess else .punctuation) ∧ w = ['.'] ∨
      kind = .operator ∧ (w = ['+'] ∨ w = ['-'])

/-- Finds of which the first is a number, and that an extended number may be made of. -/
def NumberRun (memberAccessKinds : Bool) (run : List Find) : Prop :=
  (∃ first later, run = first :: later ∧ first.token.kind = .number) ∧
    ∀ f ∈ run, NumberPiece memberAccessKinds f.token.kind f.token.lexeme.toList

/-- The plain finds `run` make up the find `g` of a scan with extended numbers. -/
structure Find.Splits (memberAccessKinds : Bool) (g : Find) (run : List Find) : Prop where
  joined : Joined g.start g.stop run
  same : g.token.kind ≠ .number → run.map (·.token) = [g.token]
  made : g.token.kind = .number → NumberRun memberAccessKinds run

/-! ## The text of extended numbers -/

/-- Letters, digits and dots, and signs in front of digits. -/
inductive NumberText : List Char → Prop
  | nil : NumberText []
  | part {c : Char} {w : List Char} (hc : isExtendedNumberPart c = true) (later : NumberText w) :
      NumberText (c :: w)
  | sign {c d : Char} {w : List Char} (hc : isSign c = true) (hd : d.isDigit = true)
      (later : NumberText (d :: w)) : NumberText (c :: d :: w)

section NumberText
variable {c : Char} {m : Bool} {L : List Char → Prop} {p : Char → Bool} {v w rest : List Char}

theorem NumberText.drop (h : NumberText w) (n : Nat) : NumberText (w.drop n) := by
  induction n generalizing w with
  | zero => exact h
  | succ n ih =>
    cases h with
    | nil =>
      rw [List.drop_nil]
      exact .nil
    | part _ later => exact ih later
    | sign _ _ later => exact ih later

theorem numberText_of_forall (h : ∀ c ∈ w, isExtendedNumberPart c = true) : NumberText w := by
  induction w with
  | nil => exact .nil
  | cons c w ih =>
    obtain ⟨hc, hw⟩ := List.forall_mem_cons.1 h
    exact .part hc (ih hw)

theorem numberText_of_exponentTail (h : ExponentTail w) : NumberText w := by
  induction h with
  | nil => exact .nil
  | part hc _ ih => exact .part hc ih
  | exponent hmark hsign hdigit _ ih =>
    exact .part (isExtendedNumberPart_of_isExponentMark hmark)
      (.sign hsign hdigit (.part (isExtendedNumberPart_of_isDigit hdigit) ih))

theorem ExponentTail.concat (h : ExponentTail w) (hc : isExtendedNumberPart c = true) :
    ExponentTail (w ++ [c]) := by
  induction h with
  | nil => exact .part hc .nil
  | part hd _ ih => exact .part hd ih
  | exponent hmark hsign hdigit _ ih => exact .exponent hmark hsign hdigit ih

/-- Behind a longest prefix stands no character that could make it longer. -/
theorem Longest.stops (h : Longest L (w ++ rest) w) (hL : ∀ c, p c = true → L (w ++ [c])) :
    Stops p rest := by
  intro c hc
  obtain ⟨rest', rfl⟩ := List.head?_eq_some_iff.1 hc
  rw [← Bool.not_eq_true]
  intro hp
  have hle := h.2.2 (w ++ [c]) ⟨rest', by simp⟩ (hL c hp)
  rw [List.length_append, List.length_singleton] at hle
  omega

/-- An extended number starts with a digit, and no letter, digit or dot comes behind it. -/
theorem Lexical.numberText (h : Lexical ⟨true, m⟩ (w ++ rest) w .number) :
    (∃ c v, w = c :: v ∧ c.isDigit = true) ∧ NumberText w ∧ Stops isExtendedNumberPart rest := by
  obtain ⟨⟨c, hc, hp⟩, hlong⟩ := id h
  obtain ⟨v, rfl⟩ := h.head_isPrefix hp
  refine ⟨⟨c, v, rfl, hc⟩, ?_⟩
  have hw := hlong.2.1
  unfold NumberAt at hlong hw
  split_ifs at hlong hw with hd hx
  · obtain ⟨x, digits, heq, hmark, hdigits⟩ := hw
    have hpart : ∀ d ∈ [c] ++ v, isExtendedNumberPart d = true := by
      rw [heq]
      refine List.forall_mem_cons.2 ⟨by decide, List.forall_mem_cons.2 ⟨?_, hdigits⟩⟩
      rcases hmark with rfl | rfl <;> decide
    refine ⟨numberText_of_forall hpart, hlong.stops fun d hd => ?_⟩
    refine ⟨x, digits ++ [d], by rw [heq]; rfl, hmark, ?_⟩
    exact List.forall_mem_append.2 ⟨hdigits, List.forall_mem_singleton.2 hd⟩
  · obtain ⟨digit, tail, heq, hdigit, htail⟩ := hw
    rw [heq]
    rw [heq] at hlong
    refine ⟨.part (isExtendedNumberPart_of_isDigit hdigit) (numberText_of_exponentTail htail),
      hlong.stops fun d hd => ?_⟩
    exact ⟨digit, tail ++ [d], rfl, hdigit, htail.concat hd⟩
  · exact absurd rfl hd

theorem takeWhile_append_of_stops (h : Stops p rest) (v : List Char) :
    (v ++ rest).takeWhile p = v.takeWhile p := by
  induction v with
  | nil => exact takeWhile_run (by simp) h
  | cons c v ih => rw [List.cons_append, List.takeWhile_cons, List.takeWhile_cons, ih]

theorem stops_isWordPart (h : Stops isExtendedNumberPart rest) (hrest : rest.head? ≠ some '_') :
    Stops isWordPart rest := by
  intro c hc
  have hpart := h c hc
  have hne : c ≠ '_' := by
    rintro rfl
    exact hrest hc
  rw [← Bool.not_eq_true] at hpart ⊢
  rw [isExtendedNumberPart_iff] at hpart
  simp only [ne_eq, ← Char.toNat_inj, Char.reduceToNat] at hne
  rw [isWordPart_iff]
  tauto

theorem stops_isNumberPart (h : Stops isExtendedNumberPart rest) : Stops isNumberPart rest := by
  intro c hc
  have hpart := h c hc
  rw [← Bool.not_eq_true] at hpart ⊢
  rw [isExtendedNumberPart_iff, isAlphanum_iff] at hpart
  rw [isNumberPart_iff, isDigit_iff]
  omega

end NumberText

/-! ## The pieces of a number -/

section Pieces
variable {c : Char} {m : Bool} {dialect : Dialect} {kind : TokenKind} {v w rest : List Char}

/-- A match that ends in front of `rest` is a segment there. -/
theorem fits_of_firstMatch {more : Nat} (hc : ¬ isBlank c = true)
    (h : firstMatch Rule.priority dialect c (v ++ rest) = .token kind more)
    (hmore : more ≤ v.length) :
    Segment.Fits dialect ⟨[], kind, c :: v.take more, true⟩ (v.drop more ++ rest) := by
  obtain ⟨kind', hkind', -, hlex, hclosed⟩ := firstMatch_fits dialect (v ++ rest) hc
  rw [h] at hkind' hlex hclosed
  obtain rfl : kind = kind' := Option.some.inj hkind'
  have htake : (v ++ rest).take more = v.take more := List.take_append_of_le_length hmore
  have hsplit : c :: (v ++ rest) = c :: v.take more ++ (v.drop more ++ rest) := by
    rw [List.cons_append, ← List.append_assoc, List.take_append_drop]
  simp only [Match.token] at hlex hclosed
  rw [htake] at hlex hclosed
  rw [hsplit] at hlex
  exact ⟨by simp [Blank], hlex, iff_of_true rfl (hclosed.1 trivial)⟩

theorem numberPiece_ofWord (m : Bool) (word : String) (w : List Char) :
    NumberPiece m (.ofWord word) w := by
  unfold TokenKind.ofWord
  split
  · exact .inr (.inl ⟨_, rfl⟩)
  · exact .inr (.inr (.inl rfl))

theorem firstMatch_sign {d : Char} (hc : isSign c = true) (hd : d.isDigit = true) (cs : List Char) :
    firstMatch Rule.priority dialect c (d :: cs) = .token .operator 0 := by
  rw [isSign_iff] at hc
  rw [isDigit_iff] at hd
  apply firstMatch_operator
  · rw [isOperator_iff]
    omega
  · intro x hx hp
    obtain rfl : d = x := Option.some.inj (pair_isPrefix_cons.1 hp).2
    rw [isOperatorPair_iff] at hx
    omega
  all_goals
    rw [pair_isPrefix_cons, List.head?_cons, Option.some.injEq, ← Char.toNat_inj, ← Char.toNat_inj]
    simp only [Char.reduceToNat]
    omega

/-- **The first plain token of the text of a number** ends within it. -/
theorem firstMatch_numberText (h : NumberText (c :: v)) (hpart : Stops isExtendedNumberPart rest)
    (hrest : rest.head? ≠ some '_') : ∃ kind more,
      firstMatch Rule.priority ⟨false, m⟩ c (v ++ rest) = .token kind more ∧ more ≤ v.length ∧
        NumberPiece m kind (c :: v.take more) ∧ (c.isDigit = true → kind = .number) := by
  by_cases digit : c.isDigit = true
  · refine ⟨.number, (v.takeWhile isNumberPart).length, ?_, (List.takeWhile_prefix _).length_le,
      .inl rfl, fun _ => rfl⟩
    rw [firstMatch_digit _ digit, numberLength,
      takeWhile_append_of_stops (stops_isNumberPart hpart)]
    rfl
  by_cases word : isWordStart c = true
  · have hmatch : firstMatch Rule.priority ⟨false, m⟩ c (v ++ rest) = _ := firstMatch_word _ word
    rw [takeWhile_append_of_stops (stops_isWordPart hpart hrest)] at hmatch
    exact ⟨_, _, hmatch, (List.takeWhile_prefix _).length_le, numberPiece_ofWord m _ _,
      fun hd => absurd hd digit⟩
  cases h with
  | part hc later =>
    have hdot : c = '.' := by
      rw [isExtendedNumberPart_iff, isAlphanum_iff] at hc
      rw [isDigit_iff] at digit
      rw [isWordStart_iff] at word
      rw [← Char.toNat_inj]
      show c.toNat = 46
      omega
    subst hdot
    exact ⟨_, 0, firstMatch_dot _, Nat.zero_le _, .inr (.inr (.inr (.inl ⟨rfl, rfl⟩))),
      fun hd => absurd hd digit⟩
  | sign hc hd later =>
    refine ⟨.operator, 0, firstMatch_sign hc hd _, Nat.zero_le _, .inr (.inr (.inr (.inr ⟨rfl, ?_⟩))),
      fun hd => absurd hd digit⟩
    rw [isSign_iff] at hc
    rw [List.take_zero, List.cons.injEq, List.cons.injEq, ← Char.toNat_inj, ← Char.toNat_inj]
    simp only [Char.reduceToNat, and_true]
    exact hc

theorem NumberText.not_isBlank (h : NumberText (c :: v)) : ¬ isBlank c = true := by
  cases h with
  | part hc _ => exact (isGraphic_of_isExtendedNumberPart hc).not_isBlank
  | sign hc _ _ =>
    rw [isSign_iff] at hc
    rw [isBlank_iff]
    omega

/-- **The text of a number is written in plain pieces**, if no underscore comes behind it. -/
theorem exists_pieces {w : List Char} (h : NumberText w) (hpart : Stops isExtendedNumberPart rest)
    (hrest : rest.head? ≠ some '_') : ∃ run, (∀ s ∈ run, Segment.gap s = []) ∧
      written run rest = w ++ rest ∧ Leads ⟨false, m⟩ run rest ∧
        (∀ s ∈ run, NumberPiece m s.kind s.lexeme) ∧
          ∀ c v, w = c :: v → c.isDigit = true → ∃ first later, run = first :: later ∧
            first.kind = .number := by
  match w, h with
  | [], _ => exact ⟨[], by simp, rfl, trivial, by simp, fun _ _ hw => absurd hw (by simp)⟩
  | c :: v, h =>
    obtain ⟨kind, more, hmatch, hmore, hpiece, hdigit⟩ := firstMatch_numberText (m := m) h hpart hrest
    have hfits := fits_of_firstMatch h.not_isBlank hmatch hmore
    obtain ⟨run, hgaps, hrun, hleads, hpieces, -⟩ := exists_pieces (h.drop (more + 1)) hpart hrest
    rw [List.drop_succ_cons] at hrun
    refine ⟨_ :: run, List.forall_mem_cons.2 ⟨rfl, hgaps⟩, ?_, ⟨hrun ▸ hfits, hleads⟩,
      List.forall_mem_cons.2 ⟨hpiece, hpieces⟩, ?_⟩
    · rw [written, hrun, List.nil_append, List.cons_append, ← List.append_assoc,
        List.take_append_drop, List.cons_append]
    · rintro c' v' heq hc'
      obtain ⟨rfl, rfl⟩ := List.cons.inj heq
      exact ⟨_, run, rfl, hdigit hc'⟩
termination_by w.length
decreasing_by
  rw [List.length_drop, List.length_cons]
  omega

end Pieces

/-! ## Finds, one after the other -/

section Finds
variable {m : Bool} {dialect : Dialect} {s : Segment} {segments run : List Segment}
  {cs rest tail : List Char} {offset : Nat} {f : Find}

theorem Segment.start_find (dialect : Dialect) (offset : Nat) (s : Segment) (rest : List Char) :
    (s.find dialect offset rest).start = offset + utf8Len s.gap := rfl

theorem Segment.stop_find (dialect : Dialect) (offset : Nat) (s : Segment) (rest : List Char) :
    (s.find dialect offset rest).stop = offset + s.size := rfl

/-- Segments without gaps are found one after the other. -/
theorem joined_findsAt (h : ∀ s ∈ run, Segment.gap s = []) (offset : Nat) (rest : List Char) :
    Joined offset (offset + sizes run) (findsAt dialect offset run rest) := by
  induction run generalizing offset with
  | nil => rfl
  | cons s run ih =>
    obtain ⟨hs, hrun⟩ := List.forall_mem_cons.1 h
    rw [sizes_cons, ← Nat.add_assoc]
    refine ⟨?_, ih hrun _⟩
    rw [Segment.start_find, hs]
    rfl

theorem Segment.Fits.size_pos (h : s.Fits dialect rest) : utf8Len s.gap < s.size :=
  Nat.lt_add_of_pos_right (utf8Len_pos h.lexeme_ne_nil)

theorem bounds_findsAt (h : Leads dialect segments rest) (hf : f ∈ findsAt dialect offset segments rest) :
    offset ≤ f.start ∧ f.start < f.stop ∧ f.stop ≤ offset + sizes segments := by
  induction segments generalizing offset with
  | nil => cases hf
  | cons s segments ih =>
    rw [sizes_cons]
    rcases List.mem_cons.1 hf with rfl | hf
    · have hpos := h.1.size_pos
      rw [Segment.start_find, Segment.stop_find]
      omega
    · have hbounds := ih h.2 hf
      omega

/-- Every find starts behind the one before. -/
theorem pairwise_findsAt (h : Leads dialect segments rest) (offset : Nat) :
    (findsAt dialect offset segments rest).Pairwise (·.start < ·.start) := by
  induction segments generalizing offset with
  | nil => exact .nil
  | cons s segments ih =>
    refine List.pairwise_cons.2 ⟨fun f hf => ?_, ih h.2 _⟩
    have hpos := h.1.size_pos
    have hle := (bounds_findsAt h.2 hf).1
    rw [Segment.start_find]
    omega

/-- All finds of a text are those of its segments. -/
theorem exists_finds_eq (dialect : Dialect) (cs : List Char) : ∃ segments tail,
    cs = written segments tail ∧ Leads dialect segments tail ∧ Blank tail ∧
      ∀ offset, (scannerAt dialect cs offset).finds = findsAt dialect offset segments tail := by
  obtain ⟨segments, tail, rfl, hsegs, htail⟩ := exists_written dialect cs
  refine ⟨segments, tail, rfl, hsegs, htail, fun offset => ?_⟩
  rw [finds_written hsegs, Scanner.finds_eq_nil (next?_blank htail), List.append_nil]

theorem pairwise_finds (dialect : Dialect) (cs : List Char) (offset : Nat) :
    (scannerAt dialect cs offset).finds.Pairwise (·.start < ·.start) := by
  obtain ⟨segments, tail, -, hsegs, -, hfinds⟩ := exists_finds_eq dialect cs
  rw [hfinds]
  exact pairwise_findsAt hsegs offset

theorem le_start_of_mem_finds (hf : f ∈ (scannerAt dialect cs offset).finds) : offset ≤ f.start := by
  obtain ⟨segments, tail, -, hsegs, -, hfinds⟩ := exists_finds_eq dialect cs
  rw [hfinds] at hf
  exact (bounds_findsAt hsegs hf).1

/-- A token's span lies between the offsets of its find, as far as a span can tell. -/
theorem span_of_mem_finds (hf : f ∈ (scannerAt dialect cs offset).finds) :
    f.token.span = .ofOffsets f.start f.stop := by
  obtain ⟨segments, tail, -, hsegs, -, hfinds⟩ := exists_finds_eq dialect cs
  rw [hfinds] at hf
  obtain ⟨s, rest, start, -, rfl⟩ := mem_findsAt hsegs hf
  rfl

/-- A segment without its gap. -/
def Segment.bare (s : Segment) : Segment := { s with gap := [] }

theorem Segment.Fits.bare (h : s.Fits dialect rest) : s.bare.Fits dialect rest :=
  ⟨by simp [Blank, Segment.bare], h.lexical, h.closed_iff⟩

theorem Segment.size_bare (s : Segment) : s.bare.size = utf8Len s.lexeme := Nat.zero_add _

theorem Segment.size_eq (s : Segment) : s.size = utf8Len s.gap + s.bare.size := by
  rw [Segment.size_bare, Segment.size]

theorem Segment.find_bare (dialect : Dialect) (offset : Nat) (s : Segment) (rest : List Char) :
    s.find dialect offset rest = s.bare.find dialect (offset + utf8Len s.gap) rest := by
  simp only [Segment.find, Segment.token, Segment.size_eq s, ← Nat.add_assoc]
  rfl

theorem exists_place_written (h : Leads dialect segments tail) (before : List Char)
    (hf : f ∈ (scannerAt dialect (written segments tail) (utf8Len before)).finds)
    (htail : Blank tail) : ∃ before' s rest earlier,
      before ++ written segments tail = before' ++ (Segment.lexeme s ++ rest) ∧
      s.Fits dialect rest ∧ f = s.bare.find dialect (utf8Len before') rest ∧
      (scannerAt dialect (written segments tail) (utf8Len before)).finds =
        earlier ++ (scannerAt dialect (s.lexeme ++ rest) (utf8Len before')).finds := by
  induction segments generalizing before with
  | nil =>
    rw [written, Scanner.finds_eq_nil (next?_blank htail)] at hf
    cases hf
  | cons s segments ih =>
    have hfinds := Scanner.finds_eq_cons (next?_of_fits h.1 (utf8Len before))
    rw [written, hfinds] at hf
    rcases List.mem_cons.1 hf with rfl | hf
    · refine ⟨before ++ s.gap, s, _, [], ?_, h.1, ?_, ?_⟩
      · rw [written, List.append_assoc]
      · rw [Segment.find_bare, String.utf8Len_append]
      · rw [written, finds_blank_append h.1.blank, String.utf8Len_append, List.nil_append]
    · have hafter : (s.find dialect (utf8Len before) (written segments tail)).after =
          scannerAt dialect (written segments tail) (utf8Len (before ++ (s.gap ++ s.lexeme))) := by
        rw [String.utf8Len_append, String.utf8Len_append]
        rfl
      rw [hafter] at hf
      obtain ⟨before', s', rest, earlier, htext, hs', hplace, hearlier⟩ := ih h.2 _ hf
      refine ⟨before', s', rest, s.find dialect (utf8Len before) (written segments tail) :: earlier, ?_,
        hs', hplace, ?_⟩
      · rw [← htext, written]
        simp only [List.append_assoc]
      · rw [written, hfinds, hafter, hearlier, List.cons_append]

/-- Where a find stands in its text. -/
theorem exists_place (hf : f ∈ (scannerAt dialect cs 0).finds) : ∃ before s rest earlier,
    cs = before ++ (Segment.lexeme s ++ rest) ∧ s.Fits dialect rest ∧
      f = s.bare.find dialect (utf8Len before) rest ∧ (scannerAt dialect cs 0).finds =
        earlier ++ (scannerAt dialect (s.lexeme ++ rest) (utf8Len before)).finds := by
  obtain ⟨segments, tail, rfl, hsegs, htail⟩ := exists_written dialect cs
  exact exists_place_written hsegs [] hf htail

end Finds

/-! ## Extended numbers, split up -/

section Splits
variable {m : Bool} {s : Segment} {segments : List Segment} {rest tail : List Char} {offset : Nat}
  {kind : TokenKind} {r w : List Char} {f : Find}

/-- Only numbers depend on whether they are extended. -/
theorem Lexical.plain (h : Lexical ⟨true, m⟩ r w kind) (hk : kind ≠ .number) :
    Lexical ⟨false, m⟩ r w kind := by
  cases kind with
  | number => exact absurd rfl hk
  | _ => exact h

/-- **The plain segments in place of one segment**, if no underscore comes behind a number. -/
theorem exists_run (h : s.Fits ⟨true, m⟩ rest) (hrest : s.kind = .number → rest.head? ≠ some '_') :
    ∃ run, (∀ p ∈ run, Segment.gap p = []) ∧ written run rest = s.lexeme ++ rest ∧
      Leads ⟨false, m⟩ run rest ∧ (s.kind ≠ .number → run = [s.bare]) ∧
        (s.kind = .number → (∃ first later, run = first :: later ∧ first.kind = .number) ∧
          ∀ p ∈ run, NumberPiece m p.kind p.lexeme) := by
  by_cases hk : s.kind = .number
  · have hlex := h.lexical
    rw [hk] at hlex
    obtain ⟨⟨c, v, hw, hc⟩, htext, hstops⟩ := hlex.numberText
    obtain ⟨run, hgaps, hrun, hleads, hpieces, hfirst⟩ :=
      exists_pieces (m := m) htext hstops (hrest hk)
    exact ⟨run, hgaps, hrun, hleads, fun hne => absurd hk hne, fun _ => ⟨hfirst c v hw hc, hpieces⟩⟩
  · have hs : s.bare.Fits ⟨false, m⟩ rest := ⟨h.bare.blank, h.lexical.plain hk, h.closed_iff⟩
    exact ⟨[s.bare], by simp [Segment.bare], rfl, ⟨hs, trivial⟩, fun _ => rfl, fun he => absurd he hk⟩

theorem mem_findsAt_token {dialect : Dialect} {run : List Segment}
    (hf : f ∈ findsAt dialect offset run rest) :
    ∃ p ∈ run, f.token.kind = p.kind ∧ f.token.lexeme.toList = p.lexeme := by
  have htoken : f.token ∈ tokensAt offset run := by
    rw [← map_token_findsAt dialect offset run rest]
    exact List.mem_map_of_mem hf
  obtain ⟨earlier, p, later, rfl, hp⟩ := mem_tokensAt htoken
  rw [hp]
  exact ⟨p, by simp, rfl, String.toList_ofList⟩

/-- **The plain finds in place of one find**, if no underscore comes behind a number. -/
theorem exists_splits (h : s.Fits ⟨true, m⟩ rest)
    (hrest : s.kind = .number → rest.head? ≠ some '_') (offset : Nat) : ∃ run,
    (scannerAt ⟨false, m⟩ (s.lexeme ++ rest) offset).finds =
        run ++ (scannerAt ⟨false, m⟩ rest (offset + s.bare.size)).finds ∧
      (∀ f ∈ run, offset ≤ f.start ∧ f.start < offset + s.bare.size) ∧
        (s.bare.find ⟨true, m⟩ offset rest).Splits m run := by
  obtain ⟨run, hgaps, hrun, hleads, hsame, hmade⟩ := exists_run h hrest
  have hsize : sizes run = s.bare.size := by
    have hlen := congrArg utf8Len hrun
    rw [utf8Len_written, String.utf8Len_append] at hlen
    rw [Segment.size_bare]
    omega
  have hfinds := finds_written hleads offset
  rw [hrun, hsize] at hfinds
  refine ⟨_, hfinds, fun f hf => ?_, ?_, fun hk => ?_, fun hk => ⟨?_, fun f hf => ?_⟩⟩
  · have hbounds := bounds_findsAt hleads hf
    omega
  · rw [Segment.start_find, Segment.stop_find, ← hsize]
    exact joined_findsAt hgaps offset rest
  · rw [hsame hk]
    rfl
  · obtain ⟨first, later, rfl, hfirst⟩ := (hmade hk).1
    exact ⟨_, _, rfl, hfirst⟩
  · obtain ⟨p, hp, hkind, hlexeme⟩ := mem_findsAt_token hf
    rw [hkind, hlexeme]
    exact (hmade hk).2 p hp

/-- Without underscores every find of a scan with extended numbers is made of plain finds. -/
theorem exists_splits_of_mem (h : Leads ⟨true, m⟩ segments tail)
    (hunder : '_' ∉ written segments tail) (offset : Nat) {g : Find}
    (hg : g ∈ findsAt ⟨true, m⟩ offset segments tail) :
    ∃ run, (∀ f ∈ run, f ∈ (scannerAt ⟨false, m⟩ (written segments tail) offset).finds) ∧
      g.Splits m run := by
  induction segments generalizing offset with
  | nil => cases hg
  | cons s segments ih =>
    rw [written, List.mem_append, List.mem_append, not_or, not_or] at hunder
    obtain ⟨-, -, hunder⟩ := hunder
    have hrest : s.kind = .number → (written segments tail).head? ≠ some '_' := fun _ hhead =>
      hunder (List.mem_of_mem_head? hhead)
    obtain ⟨run, hfinds, -, hsplits⟩ := exists_splits h.1 hrest (offset + utf8Len s.gap)
    rw [Nat.add_assoc, ← Segment.size_eq] at hfinds
    rw [written, finds_blank_append h.1.blank, hfinds]
    rcases List.mem_cons.1 hg with rfl | hg
    · refine ⟨run, fun f hf => List.mem_append_left _ hf, ?_⟩
      rw [Segment.find_bare]
      exact hsplits
    · obtain ⟨run', hrun', hsplits'⟩ := ih h.2 hunder _ hg
      exact ⟨run', fun f hf => List.mem_append_right _ (hrun' f hf), hsplits'⟩

theorem Joined.mem_boundaries {start stop : Nat} {run : List Find} (h : Joined start stop run)
    (hne : run ≠ []) : start ∈ boundaries run ∧ stop ∈ boundaries run := by
  induction run generalizing start with
  | nil => exact absurd rfl hne
  | cons f run ih =>
    obtain ⟨rfl, hrun⟩ := h
    rw [boundaries, List.flatMap_cons]
    refine ⟨by simp, ?_⟩
    cases run with
    | nil =>
      obtain rfl : f.stop = stop := hrun
      simp
    | cons f' run => exact List.mem_append_right _ (ih hrun (List.cons_ne_nil _ _)).2

theorem Find.Splits.ne_nil {g : Find} {run : List Find} (h : g.Splits m run) : run ≠ [] := by
  rintro rfl
  by_cases hk : g.token.kind = .number
  · obtain ⟨⟨first, later, hrun, -⟩, -⟩ := h.made hk
    cases hrun
  · cases h.same hk

end Splits

/-! ## Two scans of a text -/

section Two
variable {m : Bool} {text : List Char} {f g : Find}

/-- The finds that start within a find are those that stand there. -/
theorem filter_finds {start stop : Nat} {earlier run later : List Find}
    (hpair : (earlier ++ (run ++ later)).Pairwise (·.start < ·.start))
    (hrun : ∀ f ∈ run, start ≤ f.start ∧ f.start < stop) (hlater : ∀ f ∈ later, stop ≤ f.start)
    (hfirst : ∃ f ∈ run, f.start = start) :
    (earlier ++ (run ++ later)).filter (fun f => start ≤ f.start ∧ f.start < stop) = run := by
  obtain ⟨first, hmem, rfl⟩ := hfirst
  have hearlier : ∀ f ∈ earlier, f.start < first.start := fun f hf =>
    (List.pairwise_append.1 hpair).2.2 f hf first (List.mem_append_left _ hmem)
  rw [List.filter_append, List.filter_append, List.filter_eq_nil_iff.2, List.filter_eq_self.2,
    List.filter_eq_nil_iff.2, List.nil_append, List.append_nil]
  · intro f hf
    have hle := hlater f hf
    simp only [decide_eq_true_eq]
    omega
  · intro f hf
    simpa using hrun f hf
  · intro f hf
    have hlt := hearlier f hf
    simp only [decide_eq_true_eq]
    omega

/-- Two finds that start together stand in front of the same text. -/
theorem exists_common_place {dialect dialect' : Dialect} (hf : f ∈ (scannerAt dialect text 0).finds)
    (hg : g ∈ (scannerAt dialect' text 0).finds) (hstart : f.start = g.start) :
    ∃ before s rest earlier later, text = before ++ (Segment.lexeme s ++ rest) ∧
      s.Fits dialect' rest ∧ g = s.bare.find dialect' (utf8Len before) rest ∧
      (scannerAt dialect (s.lexeme ++ rest) (utf8Len before)).finds = f :: later ∧
      (scannerAt dialect text 0).finds =
        earlier ++ (scannerAt dialect (s.lexeme ++ rest) (utf8Len before)).finds := by
  obtain ⟨before, s, rest, earlier, htext, hs, rfl, hplain⟩ := exists_place hf
  obtain ⟨before', s', rest', -, htext', hs', rfl, -⟩ := exists_place hg
  obtain ⟨rfl, hcs⟩ := eq_of_utf8Len_eq (htext.symm.trans htext') hstart
  have hfirst := Scanner.finds_eq_cons (next?_of_fits hs.bare (utf8Len before))
  rw [hcs] at hplain
  exact ⟨before, s', rest', earlier, _, htext', hs', rfl, hcs ▸ hfirst, hplain⟩

/-- A token that is no number is the same in both scans, if one starts there in both. -/
theorem token_eq_of_start_eq (hf : f ∈ (scannerAt ⟨false, m⟩ text 0).finds)
    (hg : g ∈ (scannerAt ⟨true, m⟩ text 0).finds) (hstart : f.start = g.start)
    (hk : g.token.kind ≠ .number) : f.token = g.token := by
  obtain ⟨before, s, rest, -, later, -, hs, rfl, hfirst, -⟩ := exists_common_place hf hg hstart
  obtain ⟨run, hfinds, -, hsplits⟩ := exists_splits hs (fun hk' => absurd hk' hk) (utf8Len before)
  obtain ⟨f', rfl, hf'⟩ := List.map_eq_singleton_iff.1 (hsplits.same hk)
  rw [hfirst] at hfinds
  rw [(List.cons.inj hfinds).1, hf']

/-- The plain finds that start within a number make it up, if no underscore comes behind it. -/
theorem splits_of_start_eq (hf : f ∈ (scannerAt ⟨false, m⟩ text 0).finds)
    (hg : g ∈ (scannerAt ⟨true, m⟩ text 0).finds) (hstart : f.start = g.start)
    (hbyte : (bytes text)[g.stop]? ≠ some 0x5F) :
    g.Splits m ((scannerAt ⟨false, m⟩ text 0).finds.filter
      fun f => g.start ≤ f.start ∧ f.start < g.stop) := by
  obtain ⟨before, s, rest, earlier, later, htext, hs, rfl, -, hplain⟩ :=
    exists_common_place hf hg hstart
  have hrest : rest.head? ≠ some '_' := by
    intro hhead
    obtain ⟨rest', rfl⟩ := List.head?_eq_some_iff.1 hhead
    apply hbyte
    rw [htext, Segment.stop_find, Segment.size_bare, ← String.utf8Len_append, ← List.append_assoc]
    exact getElem?_bytes_of_lt (by decide)
  obtain ⟨run, hfinds, hbounds, hsplits⟩ := exists_splits hs (fun _ => hrest) (utf8Len before)
  have hpair := pairwise_finds ⟨false, m⟩ text 0
  have hfirst : ∃ f ∈ run, f.start = utf8Len before := by
    obtain ⟨first, _, rfl⟩ := List.exists_cons_of_ne_nil hsplits.ne_nil
    exact ⟨first, List.mem_cons_self, hsplits.joined.1⟩
  rw [hplain, hfinds] at hpair ⊢
  have hfilter := filter_finds hpair hbounds (fun f hf => le_start_of_mem_finds hf) hfirst
  show Find.Splits m _ (List.filter (fun f => utf8Len before ≤ f.start ∧
    f.start < utf8Len before + s.bare.size) _)
  rwa [hfilter]

/-- Without underscores every find of the extended scan is made of plain finds. -/
theorem exists_splits_of_not_mem (hunder : '_' ∉ text)
    (hg : g ∈ (scannerAt ⟨true, m⟩ text 0).finds) :
    ∃ run, (∀ f ∈ run, f ∈ (scannerAt ⟨false, m⟩ text 0).finds) ∧ g.Splits m run := by
  obtain ⟨segments, tail, rfl, hsegs, -, hfinds⟩ := exists_finds_eq ⟨true, m⟩ text
  rw [hfinds] at hg
  exact exists_splits_of_mem hsegs hunder 0 hg

theorem boundaries_subset (hunder : '_' ∉ text) :
    boundaries (scannerAt ⟨true, m⟩ text 0).finds ⊆
      boundaries (scannerAt ⟨false, m⟩ text 0).finds := by
  intro i hi
  obtain ⟨g, hg, hi⟩ := List.mem_flatMap.1 hi
  obtain ⟨run, hrun, hsplits⟩ := exists_splits_of_not_mem hunder hg
  obtain ⟨hstart, hstop⟩ := hsplits.joined.mem_boundaries hsplits.ne_nil
  have hi' : i ∈ boundaries run := by
    simp only [List.mem_cons, List.not_mem_nil, or_false] at hi
    rcases hi with rfl | rfl
    · exact hstart
    · exact hstop
  obtain ⟨f, hf, hif⟩ := List.mem_flatMap.1 hi'
  exact List.mem_flatMap.2 ⟨f, hrun f hf, hif⟩

theorem token_mem_of_not_mem (hunder : '_' ∉ text) (hg : g ∈ (scannerAt ⟨true, m⟩ text 0).finds)
    (hk : g.token.kind ≠ .number) :
    g.token ∈ (scannerAt ⟨false, m⟩ text 0).finds.map (·.token) := by
  obtain ⟨run, hrun, hsplits⟩ := exists_splits_of_not_mem hunder hg
  obtain ⟨f, rfl, hf⟩ := List.map_eq_singleton_iff.1 (hsplits.same hk)
  exact List.mem_map.2 ⟨f, hrun f (List.mem_singleton_self f), hf⟩

end Two

/-- **Extended numbers only join plain tokens**, except in front of an underscore: where a token starts
in both scans of a text, a token that is not a number is the same in both, and a number with no underscore
behind it is made of plain tokens that follow each other without a gap, the first of them a number.
Without underscores every boundary of the extended scan is a plain one, and every token that is not
a number is a plain token. Offsets are those of the finds, which the spans of the tokens clip. -/
theorem finds_extended (text : String) (memberAccessKinds : Bool) :
    let plain := (Scanner.ofText text ⟨false, memberAccessKinds⟩).finds
    let extended := (Scanner.ofText text ⟨true, memberAccessKinds⟩).finds
    (∀ f ∈ plain, ∀ g ∈ extended, f.start = g.start →
      (g.token.kind ≠ .number → f.token = g.token) ∧
        (g.token.kind = .number → (encode text)[g.stop]? ≠ some 0x5F →
          let run := plain.filter fun f => g.start ≤ f.start ∧ f.start < g.stop
          Joined g.start g.stop run ∧ NumberRun memberAccessKinds run)) ∧
      ('_' ∉ text.toList → boundaries extended ⊆ boundaries plain ∧
        ∀ g ∈ extended, g.token.kind ≠ .number → g.token ∈ plain.map (·.token)) ∧
      ∀ f ∈ plain ++ extended, f.token.span = .ofOffsets f.start f.stop := by
  intro plain extended
  refine ⟨fun f hf g hg hstart => ⟨token_eq_of_start_eq hf hg hstart, fun hk hbyte => ?_⟩,
    fun hunder => ⟨boundaries_subset hunder, fun g hg => token_mem_of_not_mem hunder hg⟩,
    fun f hf => ?_⟩
  · rw [encode_eq_bytes] at hbyte
    have hsplits := splits_of_start_eq hf hg hstart hbyte
    exact ⟨hsplits.joined, hsplits.made hk⟩
  · rcases List.mem_append.1 hf with hf | hf
    · exact span_of_mem_finds hf
    · exact span_of_mem_finds hf

/-- The exponent `e-3` is three plain tokens, and the word that starts in `0x1p_2` goes on behind the
extended number. -/
theorem finds_extended_exponent :
    let plain := (Scanner.ofText "1.5e-3+0x1p_2" ⟨false, true⟩).finds
    let extended := (Scanner.ofText "1.5e-3+0x1p_2" ⟨true, true⟩).finds
    (∃ g ∈ extended, (g.start, g.stop, g.token.kind) = (0, 6, .number) ∧
      NumberRun true (plain.filter fun f => g.start ≤ f.start ∧ f.start < g.stop)) ∧
      11 ∈ boundaries extended ∧ 11 ∉ boundaries plain := by
  intro plain extended
  refine ⟨?_, by decide +kernel, by decide +kernel⟩
  have hf : (0 : Nat) ∈ plain.map (·.start) := by decide +kernel
  have hg : ((0, 6, .number) : Nat × Nat × TokenKind) ∈
      extended.map fun g => (g.start, g.stop, g.token.kind) := by decide +kernel
  obtain ⟨f, hf, hstart⟩ := List.mem_map.1 hf
  obtain ⟨g, hg, heq⟩ := List.mem_map.1 hg
  have hplace : g.start = 0 ∧ g.stop = 6 ∧ g.token.kind = .number := by simpa using heq
  have hbyte : (encode "1.5e-3+0x1p_2")[g.stop]? ≠ some 0x5F := by
    rw [hplace.2.1]
    decide +kernel
  have hnumber := (finds_extended "1.5e-3+0x1p_2" true).1 f hf g hg (hstart.trans hplace.1.symm)
  exact ⟨g, hg, heq, (hnumber.2 hplace.2.2 hbyte).2⟩

end TokenDump
