import TokenDump.Proofs.Scanner.Context
import TokenDump.Proofs.Scanner.Stretches

/-!
# Writing tokens out and scanning them again

Tokens from the scans of any texts are written out with white space between them. Scanning what is
written gives the same kinds and lexemes, where they were written (`scan_unparse`): a lexeme carries all
that makes it one.
-/

namespace TokenDump
open CharClass Utf8
open String (utf8Len)

/-- The token is found in some text, and is closed there or not. -/
def Occurs (dialect : Dialect) (t : Token) (closed : Bool) : Prop :=
  ∃ text, ∃ f ∈ (Scanner.ofText text dialect).finds, f.token = t ∧ f.closed = closed

/-- A token to be written, and the gap after it. -/
structure Item where
  token : Token
  closed : Bool
  gap : String

/-- Lexemes and gaps in writing, with a gap in front. -/
def unparse : String → List Item → String
  | gap, [] => gap
  | gap, i :: items => gap ++ i.token.lexeme ++ unparse i.gap items

/-- The token may be written with its gap in front of other items. -/
structure Item.Spaced (dialect : Dialect) (i : Item) (later : List Item) : Prop where
  occurs : Occurs dialect i.token i.closed
  blank : Blank i.gap.toList
  inner : later ≠ [] → i.closed = true ∧ i.gap ≠ ""
  line : TakesLine i.token.kind → i.gap = "" ∨ i.gap.toList.head? = some '\n'
  last : i.closed = false → i.gap = ""

def Spaced (dialect : Dialect) : List Item → Prop
  | [] => True
  | i :: items => i.Spaced dialect items ∧ Spaced dialect items

/-- Where the lexemes are written, the first of them at a byte offset. -/
def itemStretches : Nat → List Item → List Stretch
  | _, [] => []
  | offset, i :: items =>
    let stop := offset + i.token.lexeme.utf8ByteSize
    ⟨i.token.kind, offset, stop⟩ :: itemStretches (stop + i.gap.utf8ByteSize) items

/-! ## Tokens by themselves -/

section Occurs
variable {dialect : Dialect} {t : Token} {closed : Bool}

/-- A token's lexeme is one by itself, and shows whether the token is closed. -/
theorem Occurs.lexical (h : Occurs dialect t closed) :
    Lexical dialect t.lexeme.toList t.lexeme.toList t.kind ∧
      (closed = true ↔ Terminated t.kind t.lexeme.toList) := by
  obtain ⟨text, f, hf, rfl, rfl⟩ := h
  obtain ⟨segments, tail, htext, hsegs, htail⟩ := exists_written dialect text.toList
  rw [finds_of_written htext hsegs htail] at hf
  obtain ⟨s, rest, offset, hs, rfl⟩ := mem_findsAt hsegs hf
  have hw : (s.token offset).lexeme.toList = s.lexeme := String.toList_ofList
  show Lexical dialect (s.token offset).lexeme.toList (s.token offset).lexeme.toList s.kind ∧
    (s.closed = true ↔ Terminated s.kind (s.token offset).lexeme.toList)
  rw [hw]
  refine ⟨?_, hs.closed_iff⟩
  by_cases hterm : Terminated s.kind s.lexeme
  · exact hs.lexical.self hterm (List.prefix_append _ _)
  · have hall := hs.lexical.eq_of_not_terminated hterm
    have hlex := hs.lexical
    rwa [← hall] at hlex

theorem Occurs.tokens_lexeme (h : Occurs dialect t closed) :
    (Scan.ofText t.lexeme dialect).tokens.map (fun u => (u.kind, u.lexeme)) =
      [(t.kind, t.lexeme)] := by
  obtain ⟨hlex, hclosed⟩ := h.lexical
  have hleads : Leads dialect [⟨[], t.kind, t.lexeme.toList, closed⟩] [] := by
    refine ⟨⟨by simp [Blank], ?_, hclosed⟩, trivial⟩
    rwa [written, List.append_nil]
  have htext : t.lexeme.toList = written [⟨[], t.kind, t.lexeme.toList, closed⟩] [] := by
    rw [written, written, List.append_nil, List.nil_append]
  rw [tokens_of_written htext hleads (by simp [Blank])]
  show [(t.kind, String.ofList t.lexeme.toList)] = _
  rw [String.ofList_toList]

end Occurs

/-! ## Items as segments -/

def itemSegments : List Char → List Item → List Segment
  | _, [] => []
  | gap, i :: items =>
    ⟨gap, i.token.kind, i.token.lexeme.toList, i.closed⟩ :: itemSegments i.gap.toList items

def lastGap : List Char → List Item → List Char
  | gap, [] => gap
  | _, i :: items => lastGap i.gap.toList items

section Items
variable {dialect : Dialect} {i : Item} {items : List Item}

theorem toList_unparse (gap : String) (items : List Item) :
    (unparse gap items).toList =
      written (itemSegments gap.toList items) (lastGap gap.toList items) := by
  induction items generalizing gap with
  | nil => rfl
  | cons i items ih =>
    rw [unparse, String.toList_append, String.toList_append, ih, itemSegments, lastGap, written,
      List.append_assoc]

theorem blank_lastGap {gap : List Char} (hgap : Blank gap) (h : Spaced dialect items) :
    Blank (lastGap gap items) := by
  induction items generalizing gap with
  | nil => exact hgap
  | cons i items ih => exact ih h.1.blank h.2

/-- A token's lexeme stays one in front of its gap. -/
theorem Item.Spaced.lexical (h : i.Spaced dialect items) :
    Lexical dialect (i.token.lexeme.toList ++ (unparse i.gap items).toList) i.token.lexeme.toList
      i.token.kind := by
  obtain ⟨hlex, hclosed⟩ := h.occurs.lexical
  cases hgap : i.gap.toList with
  | nil =>
    have hitems : items = [] := by
      by_contra hne
      exact (h.inner hne).2 (String.toList_eq_nil_iff.1 hgap)
    rw [hitems, unparse, hgap, List.append_nil]
    exact hlex
  | cons c cs =>
    have hc : isBlank c = true := h.blank c (hgap ▸ List.mem_cons_self)
    have hterm : Terminated i.token.kind i.token.lexeme.toList := by
      rw [← hclosed, ← Bool.not_eq_false]
      intro hopen
      rw [h.last hopen] at hgap
      cases hgap
    have hline : TakesLine i.token.kind → c = '\n' := by
      intro hk
      rcases h.line hk with hnil | hhead
      · rw [hnil] at hgap
        cases hgap
      · rw [hgap] at hhead
        exact Option.some.inj hhead
    obtain ⟨later, hlater⟩ : ∃ later, (unparse i.gap items).toList = c :: later := by
      cases items with
      | nil => exact ⟨cs, hgap⟩
      | cons j items =>
        rw [unparse, String.toList_append, String.toList_append, hgap]
        exact ⟨_, rfl⟩
    rw [hlater]
    exact hlex.before_blank hterm List.prefix_rfl List.prefix_rfl hc hline

theorem leads_itemSegments {gap : List Char} (hgap : Blank gap) (h : Spaced dialect items) :
    Leads dialect (itemSegments gap items) (lastGap gap items) := by
  induction items generalizing gap with
  | nil => exact trivial
  | cons i items ih =>
    refine ⟨⟨hgap, ?_, h.1.occurs.lexical.2⟩, ih h.1.blank h.2⟩
    rw [lastGap, ← toList_unparse]
    exact h.1.lexical

theorem stretchesAt_itemSegments (offset : Nat) (gap : String) (items : List Item) :
    stretchesAt offset (itemSegments gap.toList items) =
      itemStretches (offset + gap.utf8ByteSize) items := by
  induction items generalizing offset gap with
  | nil => rfl
  | cons i items ih =>
    rw [itemSegments, stretchesAt, ih, itemStretches, Segment.stretch, Segment.size,
      String.utf8Len_toList, String.utf8Len_toList]
    simp only [Nat.add_assoc]

theorem map_lexeme_itemSegments (offset : Nat) (gap : List Char) (items : List Item) :
    (tokensAt offset (itemSegments gap items)).map (fun t => (t.kind, t.lexeme)) =
      items.map (fun i => (i.token.kind, i.token.lexeme)) := by
  induction items generalizing offset gap with
  | nil => rfl
  | cons i items ih =>
    rw [itemSegments, tokensAt, List.map_cons, ih, List.map_cons, Segment.token, String.ofList_toList]

end Items

/-- **Tokens that are written out are scanned as they were**: with their kinds and lexemes, in a text
that is not too long at the stretches where they were written, and each as the one token of its
lexeme. -/
theorem scan_unparse {dialect : Dialect} {first : String} {items : List Item}
    (hfirst : Blank first.toList) (h : Spaced dialect items) :
    (Scan.ofText (unparse first items) dialect).tokens.map (fun t => (t.kind, t.lexeme)) =
        items.map (fun i => (i.token.kind, i.token.lexeme)) ∧
      ((unparse first items).utf8ByteSize ≤ Span.limit →
        (Scan.ofText (unparse first items) dialect).tokens.map Token.stretch =
          itemStretches first.utf8ByteSize items) ∧
      ∀ t closed, Occurs dialect t closed →
        (Scan.ofText t.lexeme dialect).tokens.map (fun u => (u.kind, u.lexeme)) =
          [(t.kind, t.lexeme)] := by
  have htext := toList_unparse first items
  rw [tokens_of_written htext (leads_itemSegments hfirst h) (blank_lastGap hfirst h)]
  refine ⟨map_lexeme_itemSegments 0 _ items, fun hlimit => ?_, fun t closed => Occurs.tokens_lexeme⟩
  rw [utf8ByteSize_of_written htext] at hlimit
  rw [map_stretch_tokensAt 0 _ (by omega), stretchesAt_itemSegments, Nat.zero_add]

theorem scan_unparse_line_open : Blank " ".toList ∧
    Spaced .plain [⟨⟨.lineComment, "//", ⟨1, 2⟩⟩, true, "\n"⟩, ⟨⟨.charLiteral, "'", ⟨0, 1⟩⟩, false, ""⟩] ∧
      (Scan.ofText " //\n'" .plain).tokens.map Token.stretch =
        [⟨.lineComment, 1, 3⟩, ⟨.charLiteral, 4, 5⟩] := by
  have hfirst : Blank " ".toList := by simp [Blank, isBlank]
  have hline : Occurs .plain ⟨.lineComment, "//", ⟨1, 2⟩⟩ true := ⟨"+//\n", by decide +kernel⟩
  have hquote : Occurs .plain ⟨.charLiteral, "'", ⟨0, 1⟩⟩ false := ⟨"'", by decide +kernel⟩
  have hspaced : Spaced .plain [⟨⟨.lineComment, "//", ⟨1, 2⟩⟩, true, "\n"⟩,
      ⟨⟨.charLiteral, "'", ⟨0, 1⟩⟩, false, ""⟩] := by
    refine ⟨⟨hline, ?_, fun _ => ⟨rfl, by decide⟩, fun _ => .inr rfl, fun h => absurd h (by decide)⟩,
      ⟨hquote, ?_, fun h => absurd rfl h, fun _ => .inl rfl, fun _ => rfl⟩, trivial⟩ <;>
      simp [Blank, isBlank]
  exact ⟨hfirst, hspaced, (scan_unparse hfirst hspaced).2.1 (by decide)⟩

end TokenDump
