import TokenDump.Proofs.Scanner.LineFeed
import TokenDump.Proofs.Scanner.Stretches

/-!
# How far the scanner looks ahead

A rule looks at most one character beyond what it takes, and two where a sign may belong to an
exponent. `Settled` says that so much stands behind a token; the rules then take the same whatever is
appended (`firstMatch_append`), and so does the whole scan up to that token (`leads_append_right`).
Scanning a text with more text behind it can therefore start again at the end of any such token
(`tokens_ofText_append`).
-/

namespace TokenDump
open CharClass Utf8
open String (utf8Len)

/-- How many bytes, on top of one, must follow a token for it to be known where it ends. -/
def Dialect.lookahead (dialect : Dialect) : Nat := if dialect.extendedNumbers then 1 else 0

/-- What stands behind a token shows where the token ends: a character, and with extended numbers more
than a sign. -/
structure Settled (dialect : Dialect) (rest : List Char) : Prop where
  ne_nil : rest ≠ []
  sign : dialect.extendedNumbers = true → ∀ c, rest = [c] → ¬ isSign c = true

/-! ## Extents in a longer text -/

section Extents
variable {p : Char → Bool} {before quote : Char} {n m : Nat} {cs later : List Char}

theorem takeWhile_append_of_drop_ne_nil (h : cs.drop (cs.takeWhile p).length ≠ []) :
    (cs ++ later).takeWhile p = cs.takeWhile p := by
  rw [List.takeWhile_append, if_neg]
  intro hall
  exact h (List.drop_eq_nil_of_le hall.ge)

theorem commentLength_append (h : commentLength n cs = some m) :
    commentLength n (cs ++ later) = some m := by
  fun_induction commentLength n cs with
  | case1 n => cases h
  | case2 n cs => exact h
  | case3 n c cs hc ih =>
    rw [List.cons_append, commentLength]
    · exact ih h
    · intro tail hc' htail
      -- The pair of the end mark would stand astride the seam, and `cs` would be empty.
      rcases cs with _ | ⟨d, cs⟩
      · cases h
      · obtain ⟨rfl, -⟩ := List.cons.inj htail
        exact hc cs hc' rfl

theorem literalLength_append (hq : quote ≠ '\\') (h : literalLength quote n cs = some m) :
    literalLength quote n (cs ++ later) = some m := by
  obtain ⟨body, hbody, hp, hm⟩ := (literalLength_eq_some_iff hq).1 h
  exact (literalLength_eq_some_iff hq).2 ⟨body, hbody, hp.trans (List.prefix_append cs later), hm⟩

theorem exponentLength_append (hnil : cs.drop (exponentLength before 0 cs) ≠ [])
    (hsign : ∀ c, cs.drop (exponentLength before 0 cs) = [c] → ¬ isSign c = true) :
    exponentLength before 0 (cs ++ later) = exponentLength before 0 cs := by
  induction cs generalizing before with
  | nil => exact absurd List.drop_nil hnil
  | cons c cs ih =>
    have hadd : ∀ ds, exponentLength c (0 + 1) ds = exponentLength c 0 ds + 1 :=
      exponentLength_add c 0 1
    have hcons : exponentLength before 0 (c :: cs) = if isExtendedNumberPart c ||
        (isExponentMark before && isSign c && cs.head?.any Char.isDigit) then
          exponentLength c 0 cs + 1 else 0 := by
      rw [exponentLength, hadd]
    have hcons' : exponentLength before 0 (c :: (cs ++ later)) = if isExtendedNumberPart c ||
        (isExponentMark before && isSign c && (cs ++ later).head?.any Char.isDigit) then
          exponentLength c 0 (cs ++ later) + 1 else 0 := by
      rw [exponentLength, hadd]
    have hhead : (isExtendedNumberPart c ||
        (isExponentMark before && isSign c && (cs ++ later).head?.any Char.isDigit)) =
      (isExtendedNumberPart c ||
        (isExponentMark before && isSign c && cs.head?.any Char.isDigit)) := by
      rcases cs with _ | ⟨d, cs⟩
      · by_cases hc : isExtendedNumberPart c = true
        · rw [hc, Bool.true_or, Bool.true_or]
        · have hzero : exponentLength before 0 [c] = 0 := by
            rw [hcons]
            simpa using hc
          have hc' : isSign c = false := by
            rw [← Bool.not_eq_true]
            exact hsign c (by rw [hzero, List.drop_zero])
          rw [hc', Bool.and_false, Bool.false_and, Bool.false_and]
      · rfl
    rw [List.cons_append, hcons', hcons, hhead]
    split
    · next hpart =>
      rw [hcons, if_pos hpart, List.drop_succ_cons] at hnil hsign
      rw [ih hnil hsign]
    · rfl

end Extents

/-! ## Rules in a longer text -/

section Rules
variable {dialect : Dialect} {c : Char} {cs : List Char}

theorem Settled.cs_ne_nil {n : Nat} (h : Settled dialect (cs.drop n)) : cs ≠ [] := by
  rintro rfl
  exact h.ne_nil List.drop_nil

theorem numberLength_append (h : Settled dialect (cs.drop (numberLength dialect c cs)))
    (later : List Char) : numberLength dialect c (cs ++ later) = numberLength dialect c cs := by
  have hhead : (cs ++ later).head? = cs.head? := List.head?_append_of_ne_nil cs h.cs_ne_nil
  unfold numberLength at h ⊢
  rw [hhead]
  split
  · next hd =>
    rw [if_pos hd] at h
    rw [takeWhile_append_of_drop_ne_nil h.ne_nil]
  · next hd =>
    rw [if_neg hd] at h
    split
    · next hx =>
      rw [if_pos hx] at h
      rw [takeWhile_append_of_drop_ne_nil h.ne_nil]
    · next hx =>
      rw [if_neg hx] at h
      exact exponentLength_append h.ne_nil (h.sign (by simpa using hd))

/-- A comment or literal that does not take all of the text has its end mark there. -/
theorem delimited_append {kind : TokenKind} {extent extent' : Option Nat} (later : List Char)
    (hextent : ∀ m, extent = some m → extent' = some m)
    (h : cs.drop (Match.delimited kind cs extent).more ≠ []) :
    Match.delimited kind (cs ++ later) extent' = .delimited kind cs extent := by
  cases extent with
  | none => exact absurd List.drop_length h
  | some m =>
    rw [hextent m rfl]
    rfl

theorem Rule.taken_append {r : Rule} (h : Settled dialect (cs.drop (r.taken dialect c cs).more))
    (later : List Char) : r.taken dialect c (cs ++ later) = r.taken dialect c cs := by
  cases r with
  | whiteSpace | directive | lineComment | word =>
    unfold Rule.taken at h ⊢
    unfold lineLength at *
    rw [takeWhile_append_of_drop_ne_nil h.ne_nil]
  | number =>
    unfold Rule.taken at h ⊢
    rw [numberLength_append h later]
  | blockComment =>
    have htail : (cs ++ later).tail = cs.tail ++ later := List.tail_append_of_ne_nil h.cs_ne_nil
    unfold Rule.taken at h ⊢
    exact delimited_append later (fun m hm => by rw [htail]; exact commentLength_append hm) h.ne_nil
  | stringLiteral | charLiteral =>
    unfold Rule.taken at h ⊢
    exact delimited_append later (fun m hm => literalLength_append (by decide) hm) h.ne_nil
  | _ => rfl

/-- **What the rules take does not change** with more text behind a settled match, in whatever order the
rules are tried. -/
theorem firstMatch_append {rules : List Rule}
    (h : Settled dialect (cs.drop (firstMatch rules dialect c cs).more)) (later : List Char) :
    firstMatch rules dialect c (cs ++ later) = firstMatch rules dialect c cs := by
  have hhead : (cs ++ later).head? = cs.head? := List.head?_append_of_ne_nil cs h.cs_ne_nil
  induction rules with
  | nil => rfl
  | cons r rules ih =>
    rw [firstMatch_cons] at h
    rw [firstMatch_cons, firstMatch_cons, hhead]
    split
    · next hr =>
      rw [if_pos hr] at h
      exact r.taken_append h later
    · next hr =>
      rw [if_neg hr] at h
      exact ih h

end Rules

/-! ## Segments in a longer text -/

section Segments
variable {dialect : Dialect} {s : Segment} {segments : List Segment} {rest : List Char}

theorem Segment.Fits.append (h : s.Fits dialect rest) (hrest : Settled dialect rest)
    (later : List Char) : s.Fits dialect (rest ++ later) := by
  obtain ⟨c, cs, hw, hc⟩ := h.exists_lexeme_eq
  have hlex := h.lexical
  rw [hw, List.cons_append] at hlex
  obtain ⟨hkind, hmore⟩ := firstMatch_of_lexical hlex
  have hdrop : (cs ++ rest).drop (firstMatch Rule.priority dialect c (cs ++ rest)).more = rest := by
    have hsplit := List.take_append_drop (firstMatch Rule.priority dialect c (cs ++ rest)).more
      (cs ++ rest)
    rw [← (List.cons.inj hmore).2] at hsplit
    exact List.append_cancel_left hsplit
  have hsame : firstMatch Rule.priority dialect c (cs ++ rest ++ later) =
      firstMatch Rule.priority dialect c (cs ++ rest) :=
    firstMatch_append (hdrop.symm ▸ hrest) later
  obtain ⟨kind, hkind', hle, hlex', -⟩ := firstMatch_fits dialect (cs ++ rest ++ later) hc
  rw [hsame] at hkind' hlex' hle
  obtain rfl : s.kind = kind := Option.some.inj (hkind.symm.trans hkind')
  have hle' : (firstMatch Rule.priority dialect c (cs ++ rest)).more ≤ (cs ++ rest).length := by
    by_contra hlt
    rw [List.drop_eq_nil_of_le (by omega)] at hdrop
    exact hrest.ne_nil hdrop.symm
  rw [List.take_append_of_le_length hle', ← hmore, ← hw, List.append_assoc, ← List.cons_append,
    ← hw] at hlex'
  exact ⟨h.blank, hlex', h.closed_iff⟩

theorem Settled.written (h : Settled dialect rest) (hsegs : Leads dialect segments rest) :
    Settled dialect (written segments rest) := by
  cases segments with
  | nil => exact h
  | cons s segments =>
    have hlex := List.length_pos_iff.2 hsegs.1.lexeme_ne_nil
    have hrest := List.length_pos_iff.2 h.ne_nil
    have hlen : 2 ≤ (TokenDump.written (s :: segments) rest).length := by
      rw [TokenDump.written, written_eq segments rest]
      simp only [List.length_append]
      omega
    refine ⟨fun hnil => ?_, fun _ c hc => ?_⟩
    · rw [hnil, List.length_nil] at hlen
      omega
    · rw [hc, List.length_singleton] at hlen
      omega

/-- **Segments in front of settled text stay** when more text is appended. -/
theorem leads_append_right (h : Leads dialect segments rest) (hrest : Settled dialect rest)
    (later : List Char) : Leads dialect segments (rest ++ later) := by
  induction segments with
  | nil => exact trivial
  | cons s segments ih =>
    refine ⟨?_, ih h.2⟩
    rw [written_append_right]
    exact h.1.append (hrest.written h.2) later

end Segments

/-! ## Scanning on from a token -/

section Tokens
variable {dialect : Dialect} {earlier later : List Token} {t : Token}

theorem exists_segments_of_tokensAt {segments : List Segment} {offset : Nat}
    (h : tokensAt offset segments = earlier ++ t :: later) : ∃ front s back,
      segments = front ++ s :: back ∧ tokensAt offset front = earlier ∧
        s.token (offset + sizes front) = t := by
  induction segments generalizing offset earlier with
  | nil =>
    cases earlier <;> cases h
  | cons s segments ih =>
    rcases earlier with _ | ⟨t', earlier⟩
    · obtain ⟨ht, -⟩ := List.cons.inj h
      exact ⟨[], s, segments, rfl, rfl, ht⟩
    · obtain ⟨ht', hrest⟩ := List.cons.inj h
      obtain ⟨front, s', back, rfl, hfront, ht⟩ := ih hrest
      refine ⟨s :: front, s', back, rfl, ?_, ?_⟩
      · rw [tokensAt, hfront, ht']
      · rw [sizes_cons, ← Nat.add_assoc, ht]

/-- Tokens from a place on are those of a text of its own, moved there. -/
theorem tokensFrom_eq_moved (text : String) {offset : Nat}
    (h : offset + text.utf8ByteSize ≤ Span.limit) :
    tokensFrom dialect text.toList offset =
      (Scan.ofText text dialect).tokens.map (Token.moved offset) := by
  obtain ⟨segments, tail, htext, hsegs, htail⟩ := exists_written dialect text.toList
  rw [utf8ByteSize_of_written htext] at h
  rw [tokens_of_written htext hsegs htail, htext, tokensFrom_written hsegs, tokensFrom_blank htail,
    List.append_nil, ← tokensAt_moved offset 0 segments (by omega), Nat.add_zero]

theorem drop_encode_of_written {text : String} {segments : List Segment} {rest : List Char}
    (htext : text.toList = written segments rest) :
    (encode text).drop (sizes segments) = bytes rest := by
  rw [encode_eq_bytes, htext, written_eq, bytes_append, sizes, ← length_bytes, List.drop_left]

/-- Segments in front of settled text are the first tokens of any longer text. -/
theorem tokens_append_of_written {text : String} {segments : List Segment} {rest : List Char}
    (htext : text.toList = written segments rest) (hsegs : Leads dialect segments rest)
    (hrest : Settled dialect rest) (more : String) :
    (Scan.ofText (text ++ more) dialect).tokens = tokensAt 0 segments ++
      tokensFrom dialect (rest ++ more.toList) (sizes segments) := by
  rw [tokens_eq_tokensFrom, String.toList_append, htext, ← written_append_right,
    tokensFrom_written (leads_append_right hsegs hrest _), Nat.zero_add]

theorem settled_of_lookahead_lt {rest : List Char} (h : dialect.lookahead < utf8Len rest) :
    Settled dialect rest := by
  refine ⟨?_, fun hd c hc hsign => ?_⟩
  · rintro rfl
    exact absurd h (Nat.not_lt_zero _)
  · have hsize : c.utf8Size = 1 := by
      rw [isSign_iff] at hsign
      rw [Char.utf8Size, if_pos]
      show c.toNat ≤ 127
      omega
    unfold Dialect.lookahead at h
    rw [hd, hc, String.utf8Len_cons, hsize] at h
    exact absurd h (by decide)

end Tokens

/-- **A scan starts again at the end of any token that lies far enough from the end of the text**:
however the text goes on, the tokens up to that one stay, and the scan of what comes after it gives the
rest. -/
theorem tokens_ofText_append {dialect : Dialect} {text more : String} {earlier later : List Token}
    {t : Token} (htokens : (Scan.ofText text dialect).tokens = earlier ++ t :: later)
    (hmargin : t.stretch.stop + dialect.lookahead < text.utf8ByteSize)
    (hlimit : (text ++ more).utf8ByteSize ≤ Span.limit) :
    ∃ suffix : String, encode suffix = (encode (text ++ more)).drop t.stretch.stop ∧
      (Scan.ofText (text ++ more) dialect).tokens =
        earlier ++ t :: (Scan.ofText suffix dialect).tokens.map (Token.moved t.stretch.stop) := by
  obtain ⟨segments, tail, htext, hsegs, htail⟩ := exists_written dialect text.toList
  rw [tokens_of_written htext hsegs htail] at htokens
  obtain ⟨front, s, back, rfl, rfl, rfl⟩ := exists_segments_of_tokensAt htokens
  have hsplit : front ++ s :: back = (front ++ [s]) ++ back := by simp
  rw [hsplit, written_append] at htext
  rw [hsplit, leads_append] at hsegs
  have hsizes : sizes (front ++ [s]) = sizes front + s.size := by
    rw [sizes_append, sizes_cons]
    rfl
  have hall := utf8ByteSize_of_written htext
  rw [String.utf8ByteSize_append] at hlimit
  have hstop : (s.token (0 + sizes front)).stretch.stop = sizes (front ++ [s]) := by
    rw [stretch_token (by omega), hsizes, Nat.zero_add]
    rfl
  rw [hstop] at hmargin ⊢
  have hrest : Settled dialect (written back tail) := settled_of_lookahead_lt (by omega)
  have hlong : (text ++ more).toList =
      written (front ++ [s]) (written back tail ++ more.toList) := by
    rw [String.toList_append, htext, written_append_right]
  have hsuffix : (String.ofList (written back tail ++ more.toList)).utf8ByteSize =
      utf8Len (written back tail) + more.utf8ByteSize := by
    rw [String.utf8ByteSize_ofList, String.utf8Len_append, String.utf8Len_toList]
  refine ⟨String.ofList (written back tail ++ more.toList), ?_, ?_⟩
  · rw [encode_ofList, drop_encode_of_written hlong]
  · rw [← tokensFrom_eq_moved _ (by omega), String.toList_ofList,
      tokens_append_of_written htext hsegs.1 hrest, tokensAt_append]
    simp [tokensAt]

theorem tokens_ofText_append_exponent : ∃ suffix : String,
    encode suffix = (encode ("1e+;" ++ "5")).drop 2 ∧
      (Scan.ofText ("1e+;" ++ "5") ⟨true, false⟩).tokens =
        ⟨.number, "1e", ⟨0, 2⟩⟩ ::
          (Scan.ofText suffix ⟨true, false⟩).tokens.map (Token.moved 2) := by
  have htokens : (Scan.ofText "1e+;" ⟨true, false⟩).tokens = [] ++ ⟨.number, "1e", ⟨0, 2⟩⟩ ::
      [⟨.operator, "+", ⟨2, 1⟩⟩, ⟨.punctuation, ";", ⟨3, 1⟩⟩] := by decide +kernel
  exact tokens_ofText_append htokens (by decide) (by decide)

/-- Without the margin a sign may still turn into that of an exponent. -/
example : (Scan.ofText "1e+" ⟨true, false⟩).tokens.map (·.lexeme) = ["1e", "+"] ∧
    (Scan.ofText ("1e+" ++ "5") ⟨true, false⟩).tokens.map (·.lexeme) = ["1e+5"] := by
  decide +kernel

end TokenDump
