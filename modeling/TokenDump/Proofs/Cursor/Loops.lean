import TokenDump.Proofs.Cursor.Reading
import TokenDump.Proofs.Scanner.Choice
import TokenDump.Proofs.Scanner.Extent

/-!
# Where the loops stop

A loop that starts where `rest` stands ends without a fault behind a prefix of `rest`, and the prefix is
the one that the rules measure on characters: a run of a class (`skip_eq`), the rest of a line
(`lineEnd_eq`), a block comment (`commentEnd_eq`), an extended number (`extendedEnd_eq`) and a literal
(`literalEnd_eq`). Bytes are searched for by any `Search`: it takes just one step for every byte in
front of the place where it succeeds.
-/

namespace TokenDump
open CharClass Utf8
open String (utf8Len utf8EncodeChar)

/-! ## Searches -/

section Search
variable (search : Search) {pattern text : List UInt8} {b x : UInt8} {c : Char} {cs : List Char}

theorem find?_nil (h : pattern ≠ []) : search.find? pattern [] = none := by
  rw [Option.eq_none_iff_forall_ne_some]
  intro i hi
  have hp := ((search.find?_eq_some pattern [] i).1 hi).1
  rw [List.drop_nil] at hp
  exact h (List.prefix_nil.1 hp)

theorem find?_of_isPrefix (h : pattern <+: text) : search.find? pattern text = some 0 :=
  (search.find?_eq_some pattern text 0).2 ⟨h, fun j hj => absurd hj (Nat.not_lt_zero j)⟩

theorem find?_cons (h : ¬ pattern <+: b :: text) :
    search.find? pattern (b :: text) = (search.find? pattern text).map (· + 1) := by
  have hiff : ∀ i, search.find? pattern (b :: text) = some i ↔
      (search.find? pattern text).map (· + 1) = some i := by
    intro i
    rw [search.find?_eq_some, Option.map_eq_some_iff]
    constructor
    · rintro ⟨hp, hfirst⟩
      rcases i with _ | i
      · exact absurd hp h
      · refine ⟨i, (search.find?_eq_some pattern text i).2 ⟨hp, fun j hj => ?_⟩, rfl⟩
        exact hfirst (j + 1) (by omega)
    · rintro ⟨j, hj, rfl⟩
      obtain ⟨hp, hfirst⟩ := (search.find?_eq_some pattern text j).1 hj
      refine ⟨hp, fun k hk => ?_⟩
      rcases k with _ | k
      · exact h
      · exact hfirst k (by omega)
  exact Option.ext hiff

theorem find?_append {front : List UInt8} (h : x ∉ front) :
    search.find? (x :: pattern) (front ++ text) =
      (search.find? (x :: pattern) text).map (· + front.length) := by
  induction front with
  | nil => simp
  | cons b front ih =>
    rw [List.mem_cons, not_or] at h
    have hp : ¬ x :: pattern <+: b :: (front ++ text) := fun hp => h.1 (List.cons_prefix_cons.1 hp).1
    rw [List.cons_append, find?_cons search hp, ih h.2, Option.map_map]
    rfl

theorem not_mem_utf8EncodeChar (hx : x.toNat < 128) (hc : c.toNat ≠ x.toNat) :
    x ∉ utf8EncodeChar c := by
  intro hmem
  by_cases hc' : c.toNat < 128
  · rw [utf8EncodeChar_of_lt hc', List.mem_singleton] at hmem
    rw [hmem, UInt8.toNat_ofNat', Nat.mod_eq_of_lt (by omega)] at hc
    exact hc rfl
  · have hle := le_toNat_of_mem_utf8EncodeChar (by omega) hmem
    omega

/-- A search for ASCII steps over other characters as a whole. -/
theorem find?_bytes_cons (hx : x.toNat < 128) (hc : c.toNat ≠ x.toNat) (cs : List Char) :
    search.find? (x :: pattern) (bytes (c :: cs)) =
      (search.find? (x :: pattern) (bytes cs)).map (· + c.utf8Size) := by
  have hsplit : bytes (c :: cs) = utf8EncodeChar c ++ bytes cs := List.flatMap_cons
  rw [hsplit, find?_append search (not_mem_utf8EncodeChar hx hc), String.length_utf8EncodeChar]

theorem find?_lineFeed (cs : List Char) :
    (search.find? [0x0A] (bytes cs)).getD (bytes cs).length =
      utf8Len (cs.takeWhile (· != '\n')) := by
  induction cs with
  | nil =>
    rw [bytes, List.flatMap_nil, find?_nil search (List.cons_ne_nil _ _)]
    rfl
  | cons c cs ih =>
    by_cases hc : c = '\n'
    · subst hc
      have hfirst : [0x0A] <+: bytes ('\n' :: cs) := ⟨bytes cs, rfl⟩
      rw [find?_of_isPrefix search hfirst]
      rfl
    · have hc' : c.toNat ≠ (0x0A : UInt8).toNat := fun h => hc (Char.toNat_inj.1 h)
      have hcs : (c != '\n') = true := by simpa using hc
      rw [find?_bytes_cons search (by decide) hc',
        List.takeWhile_cons_of_pos (p := (· != '\n')) hcs, String.utf8Len_cons, ← ih, length_bytes,
        length_bytes, String.utf8Len_cons]
      cases search.find? [0x0A] (bytes cs) <;> rfl

/-- A star is no end mark where no slash follows: the next byte, if any, is not that of a slash. -/
theorem not_isPrefix_endMark {cs : List Char} (h : ∀ tail, cs ≠ '/' :: tail) :
    ¬ [0x2A, 0x2F] <+: 0x2A :: bytes cs := by
  intro hp
  have hslash := (List.cons_prefix_cons.1 hp).2
  rcases cs with _ | ⟨d, cs⟩
  · exact absurd (List.prefix_nil.1 hslash) (List.cons_ne_nil _ _)
  · have hd : d.toNat ≠ (0x2F : UInt8).toNat := by
      intro heq
      have hd : d = '/' := Char.toNat_inj.1 heq
      exact h cs (by rw [hd])
    obtain ⟨b, bs, hb⟩ := List.exists_cons_of_ne_nil (String.utf8EncodeChar_ne_nil (c := d))
    rw [bytes_cons, hb, List.cons_append] at hslash
    obtain ⟨rfl, -⟩ := List.cons_prefix_cons.1 hslash
    exact not_mem_utf8EncodeChar (by decide) hd (by simp [hb])

theorem find?_endMark_cons (h : ∀ tail, c = '*' → cs ≠ '/' :: tail) :
    search.find? [0x2A, 0x2F] (bytes (c :: cs)) =
      (search.find? [0x2A, 0x2F] (bytes cs)).map (· + c.utf8Size) := by
  by_cases hc : c = '*'
  · subst hc
    exact find?_cons search (not_isPrefix_endMark fun tail => h tail rfl)
  · exact find?_bytes_cons search (by decide) (fun h => hc (Char.toNat_inj.1 h)) cs

theorem find?_endMark (cs : List Char) :
    (search.find? [0x2A, 0x2F] (bytes cs)).map (· + 2) =
      (commentLength 0 cs).map fun k => utf8Len (cs.take k) := by
  induction cs with
  | nil =>
    rw [bytes, List.flatMap_nil, find?_nil search (List.cons_ne_nil _ _)]
    rfl
  | cons c cs ih =>
    by_cases hmark : ∃ tail, c = '*' ∧ cs = '/' :: tail
    · obtain ⟨tail, rfl, rfl⟩ := hmark
      have hfirst : [0x2A, 0x2F] <+: bytes ('*' :: '/' :: tail) := ⟨bytes tail, rfl⟩
      rw [find?_of_isPrefix search hfirst]
      rfl
    · have hnot : ∀ tail, c = '*' → cs ≠ '/' :: tail := fun tail hc hcs => hmark ⟨tail, hc, hcs⟩
      have hlength : commentLength 0 (c :: cs) = (commentLength 0 cs).map (· + 1) := by
        rw [commentLength]
        · exact commentLength_add 0 1 cs
        · exact fun tail hc hcs => hnot tail hc hcs
      have hcomm : ∀ o : Option Nat, (o.map (· + c.utf8Size)).map (· + 2) =
          (o.map (· + 2)).map (· + c.utf8Size) := by
        rintro (_ | i)
        · rfl
        · exact congrArg some (Nat.add_right_comm i c.utf8Size 2)
      rw [find?_endMark_cons search hnot, hlength, hcomm, ih, Option.map_map, Option.map_map]
      congr 1

end Search

namespace Cursor

section Loops
variable {text : String} {pos : Nat} {c : Char} {cs : List Char}

theorem utf8Len_cons_of_lt (h : c.toNat < 128) (cs : List Char) :
    utf8Len (c :: cs) = utf8Len cs + 1 := by
  rw [String.utf8Len_cons, utf8Size_of_lt h]

/-- The loop over a class stops behind the run of its characters. -/
theorem skip_eq {p : Char → Bool} (hp : Ascii p) (h : Stands text pos cs) :
    skip text p pos = .ok (pos + utf8Len (cs.takeWhile p)) := by
  induction cs generalizing pos with
  | nil =>
    rw [skip, if_neg h.not_lt]
    rfl
  | cons c cs ih =>
    rw [skip, if_pos h.lt, current_eq h, ok_bind,
      hp.lead_eq]
    by_cases hc : p c = true
    · rw [if_pos hc, ih (h.cons (hp c hc)), List.takeWhile_cons_of_pos hc,
        utf8Len_cons_of_lt (hp c hc), Nat.add_assoc, Nat.add_comm 1]
    · rw [if_neg hc, List.takeWhile_cons_of_neg hc]
      rfl

theorem lineEnd_eq (search : Search) (h : Stands text pos cs) :
    lineEnd search text pos = .ok (pos + utf8Len (cs.takeWhile (· != '\n'))) := by
  unfold lineEnd
  rw [bytesFrom_eq h, ok_bind, find?_lineFeed search]

theorem commentEnd_eq (search : Search) {body : List Char}
    (h : Stands text pos ('/' :: '*' :: body)) : commentEnd search text pos =
      .ok (pos + 2 + utf8Len (body.take ((commentLength 0 body).getD body.length))) := by
  have hbody : Stands text (pos + 2) body := (h.cons (by decide)).cons (by decide)
  have hfind := find?_endMark search body
  unfold commentEnd
  rw [bytesFrom_eq hbody, ok_bind]
  cases hlength : commentLength 0 body with
  | none =>
    rw [hlength, Option.map_none, Option.map_eq_none_iff] at hfind
    rw [hfind, Option.getD_none, List.take_length, hbody.utf8ByteSize_eq]
  | some k =>
    rw [hlength, Option.map_some, Option.map_eq_some_iff] at hfind
    obtain ⟨i, hi, hsum⟩ := hfind
    rw [hi, Option.getD_some, ← hsum]

/-! ### Numbers -/

/-- The part of an extended number that starts here, in the middle of the number or at its front. -/
def exponentRun : List Char → List Char
  | [] => []
  | c :: cs => if isExtendedNumberPart c then c :: cs.take (exponentLength c 0 cs) else []

/-- An exponent with a sign starts at the character. -/
def ExponentAhead (c : Char) (cs : List Char) : Prop :=
  isExponentMark c = true ∧
    ∃ sign digit rest, cs = sign :: digit :: rest ∧ isSign sign = true ∧ digit.isDigit = true

theorem take_exponentLength (h : ¬ ExponentAhead c cs) :
    cs.take (exponentLength c 0 cs) = exponentRun cs := by
  rcases cs with _ | ⟨d, ds⟩
  · rfl
  · rw [exponentRun]
    by_cases hd : isExtendedNumberPart d = true
    · rw [if_pos hd, exponentLength_part hd, List.take_succ_cons]
    · have hzero : exponentLength c 0 (d :: ds) = 0 := by
        rw [exponentLength, if_neg]
        rw [Bool.or_eq_true, Bool.and_eq_true, Bool.and_eq_true, Option.any_eq_true]
        rintro (hd' | ⟨⟨hmark, hsign⟩, digit, hhead, hdigit⟩)
        · exact hd hd'
        · obtain ⟨rest, rfl⟩ := List.head?_eq_some_iff.1 hhead
          exact h ⟨hmark, d, digit, rest, rfl, hsign, hdigit⟩
      rw [if_neg hd, hzero, List.take_zero]

theorem any_map_lead {p : Char → Bool} (hp : Ascii p) (next : Option Char) :
    (next.map lead).any p = next.any p := by
  cases next with
  | none => rfl
  | some d => exact hp.lead_eq d

/-- The two bytes behind an exponent mark are those of a sign and a digit. -/
theorem exponentAhead_iff (h : Stands text (pos + 1) cs) :
    (isExponentMark c && ((byteAt? text (pos + 1)).any isSign &&
      (byteAt? text (pos + 2)).any Char.isDigit)) = true ↔ ExponentAhead c cs := by
  rw [byteAt?_eq h, any_map_lead ascii_isSign, Bool.and_eq_true, Bool.and_eq_true,
    Option.any_eq_true]
  refine and_congr_right fun _ => ?_
  constructor
  · rintro ⟨⟨sign, hhead, hsign⟩, hdigit⟩
    obtain ⟨ds, rfl⟩ := List.head?_eq_some_iff.1 hhead
    rw [byteAt?_eq (h.cons (ascii_isSign sign hsign)), any_map_lead ascii_isDigit,
      Option.any_eq_true] at hdigit
    obtain ⟨digit, hhead', hdigit⟩ := hdigit
    obtain ⟨rest, rfl⟩ := List.head?_eq_some_iff.1 hhead'
    exact ⟨sign, digit, rest, rfl, hsign, hdigit⟩
  · rintro ⟨sign, digit, rest, rfl, hsign, hdigit⟩
    refine ⟨⟨sign, rfl, hsign⟩, ?_⟩
    rw [byteAt?_eq (h.cons (ascii_isSign sign hsign)), any_map_lead ascii_isDigit]
    exact hdigit

theorem extendedEnd_of_not_part (h : Stands text pos (c :: cs))
    (hc : ¬ isExtendedNumberPart c = true) : extendedEnd text false pos = .ok pos := by
  have hmark : ¬ isExponentMark c = true := fun hmark =>
    hc (isExtendedNumberPart_of_isExponentMark hmark)
  rw [extendedEnd, if_pos h.lt, current_eq h, ok_bind, Bool.not_false, Bool.true_and, Bool.and_assoc,
    ascii_isExponentMark.lead_eq, ascii_isExtendedNumberPart.lead_eq, Bool.eq_false_iff.2 hmark,
    Bool.false_and, if_neg Bool.false_ne_true, if_neg hc]

open Classical in
/-- A step of the loop over an extended number. -/
theorem extendedEnd_of_part (h : Stands text pos (c :: cs)) (hc : isExtendedNumberPart c = true) :
    extendedEnd text false pos =
      extendedEnd text false (pos + if ExponentAhead c cs then 2 else 1) := by
  have hahead := exponentAhead_iff (c := c) (h.cons (ascii_isExtendedNumberPart c hc))
  rw [extendedEnd, if_pos h.lt, current_eq h, ok_bind, Bool.not_false, Bool.true_and, Bool.and_assoc,
    ascii_isExponentMark.lead_eq, ascii_isExtendedNumberPart.lead_eq]
  by_cases hexp : ExponentAhead c cs
  · rw [if_pos (hahead.2 hexp), if_pos hexp]
  · rw [if_neg (hahead.not.2 hexp), if_neg hexp, if_pos hc]

/-- The loop looks ahead for an exponent where the measure looks back. -/
theorem extendedEnd_eq (h : Stands text pos cs) :
    extendedEnd text false pos = .ok (pos + utf8Len (exponentRun cs)) := by
  induction hn : cs.length using Nat.strong_induction_on generalizing pos cs with
  | _ n ih =>
  subst hn
  rcases cs with _ | ⟨c, cs⟩
  · rw [extendedEnd, if_neg h.not_lt]
    rfl
  rw [exponentRun]
  by_cases hc : isExtendedNumberPart c = true
  · have hlt := ascii_isExtendedNumberPart c hc
    have hnext := h.cons hlt
    rw [extendedEnd_of_part h hc, if_pos hc]
    by_cases hexp : ExponentAhead c cs
    · rw [if_pos hexp]
      obtain ⟨hmark, sign, digit, rest, rfl, hsign, hdigit⟩ := hexp
      have hpart := isExtendedNumberPart_of_isDigit hdigit
      have hslt := ascii_isSign sign hsign
      rw [ih _ (by simp only [List.length_cons]; omega) (hnext.cons hslt) rfl, exponentRun,
        if_pos hpart, exponentLength_sign hmark hsign hdigit, exponentLength_part hpart,
        List.take_succ_cons, List.take_succ_cons, utf8Len_cons_of_lt hlt, utf8Len_cons_of_lt hslt]
      congr 1
      omega
    · rw [if_neg hexp, ih _ (Nat.lt_succ_self _) hnext rfl, take_exponentLength hexp,
        utf8Len_cons_of_lt hlt, Nat.add_assoc, Nat.add_comm 1]
  · rw [extendedEnd_of_not_part h hc, if_neg hc]
    rfl

theorem extendedEnd_hex (text : String) (pos : Nat) :
    extendedEnd text true pos = skip text isExtendedNumberPart pos := by
  fun_induction skip text isExtendedNumberPart pos with
  | case1 pos hlt ih =>
    rw [extendedEnd, if_pos hlt]
    cases current text pos with
    | error e => rfl
    | ok c =>
      show (if isExtendedNumberPart c = true then extendedEnd text true (pos + 1) else .ok pos) =
        (if isExtendedNumberPart c = true then skip text isExtendedNumberPart (pos + 1) else .ok pos)
      rw [ih]
  | case2 pos hlt => rw [extendedEnd, if_neg hlt]

theorem beq_map_lead {x : Char} (hx : x.toNat < 128) (next : Option Char) :
    (next.map lead == some x) = (next == some x) := by
  cases next with
  | none => rfl
  | some d => exact (ascii_beq hx).lead_eq d

theorem numberEnd_eq (dialect : Dialect) (h : Stands text pos (c :: cs)) (hc : c.isDigit = true) :
    numberEnd text dialect pos =
      .ok (pos + utf8Len (c :: cs.take (numberLength dialect c cs))) := by
  have hlt := ascii_isDigit c hc
  unfold numberEnd numberLength
  by_cases hd : (!dialect.extendedNumbers) = true
  · have hpart : isNumberPart c = true := by rw [isNumberPart, hc, Bool.true_or]
    rw [if_pos hd, if_pos hd, skip_eq ascii_isNumberPart h, List.takeWhile_cons_of_pos hpart,
      take_length_takeWhile]
  · have hnext := h.cons hlt
    rw [if_neg hd, if_neg hd, current_eq h, lead_of_lt hlt, byteAt?_eq hnext, ok_bind]
    show (if (c == '0' && (cs.head?.map lead == some 'x' || cs.head?.map lead == some 'X')) = true
      then extendedEnd text true (pos + 2) else extendedEnd text false pos) = _
    rw [beq_map_lead (by decide), beq_map_lead (by decide)]
    by_cases hx : (c == '0' && (cs.head? == some 'x' || cs.head? == some 'X')) = true
    · rw [if_pos hx, if_pos hx, extendedEnd_hex, take_length_takeWhile]
      rw [Bool.and_eq_true, Bool.or_eq_true, beq_iff_eq, beq_iff_eq, beq_iff_eq] at hx
      obtain ⟨x, cs', rfl, hxpart⟩ :
          ∃ x cs', cs = x :: cs' ∧ isExtendedNumberPart x = true := by
        rcases hx.2 with hx | hx <;> obtain ⟨cs', rfl⟩ := List.head?_eq_some_iff.1 hx
        · exact ⟨'x', cs', rfl, by decide⟩
        · exact ⟨'X', cs', rfl, by decide⟩
      have hxlt := ascii_isExtendedNumberPart x hxpart
      rw [skip_eq ascii_isExtendedNumberPart (hnext.cons hxlt), List.takeWhile_cons_of_pos hxpart,
        utf8Len_cons_of_lt hlt, utf8Len_cons_of_lt hxlt]
      congr 1
      omega
    · rw [if_neg hx, if_neg hx, extendedEnd_eq h, exponentRun,
        if_pos (isExtendedNumberPart_of_isDigit hc)]

/-! ### Literals -/

/-- What is left of a literal, from inside it. -/
def literalRun (quote : Char) (cs : List Char) : List Char :=
  cs.take ((literalLength quote 0 cs).getD cs.length)

section Literals
variable {quote : Char}

theorem literalRun_quote (cs : List Char) : literalRun quote (quote :: cs) = [quote] := by
  rw [literalRun, literalLength_quote]
  rfl

theorem literalRun_plain (hquote : c ≠ quote) (hslash : c ≠ '\\') (cs : List Char) :
    literalRun quote (c :: cs) = c :: literalRun quote cs := by
  rw [literalRun, literalLength_plain hquote hslash, literalLength_add quote 0 1, literalRun]
  cases literalLength quote 0 cs <;> rfl

theorem literalRun_escape (hq : quote ≠ '\\') (c : Char) (cs : List Char) :
    literalRun quote ('\\' :: c :: cs) = '\\' :: c :: literalRun quote cs := by
  rw [literalRun, literalLength_escape hq, literalLength_add quote 0 2, literalRun]
  cases literalLength quote 0 cs <;> rfl

theorem literalRun_slash (hq : quote ≠ '\\') : literalRun quote ['\\'] = ['\\'] := by
  have hc : ¬ ('\\' == quote) = true := by simpa using hq.symm
  rw [literalRun, literalLength, if_neg hc]
  rfl

theorem literalEnd_nil (h : Stands text pos []) : literalEnd text quote pos = .ok pos := by
  rw [literalEnd, if_neg h.not_lt]

/-- A step of the loop over a literal. -/
theorem literalEnd_cons (hquote : quote.toNat < 128) (h : Stands text pos (c :: cs)) :
    literalEnd text quote pos =
      if c = quote then .ok (pos + 1)
      else if c = '\\' then literalEnd text quote (pos + 1 + (cs.head?.map Char.utf8Size).getD 0)
      else literalEnd text quote (pos + c.utf8Size) := by
  have hslash : (lead c == '\\') = (c == '\\') := (ascii_beq (by decide)).lead_eq c
  have hquote' : (lead c == quote) = (c == quote) := (ascii_beq hquote).lead_eq c
  rw [literalEnd, if_pos h.lt, current_eq h, ok_bind, hslash,
    hquote', charSize_eq h, ok_bind]
  simp only [beq_iff_eq]
  by_cases hc : c = '\\'
  · subst hc
    have hnext := h.cons (by decide)
    rcases cs with _ | ⟨d, ds⟩
    · -- A backslash is the last character, with nothing behind it to skip.
      rw [if_neg hnext.not_lt]
      rfl
    · rw [if_pos hnext.lt, charSize_eq hnext]
      rfl
  · rw [if_neg hc, if_neg hc]

theorem literalEnd_eq (hquote : quote.toNat < 128) (hq : quote ≠ '\\') (h : Stands text pos cs) :
    literalEnd text quote pos = .ok (pos + utf8Len (literalRun quote cs)) := by
  induction hn : cs.length using Nat.strong_induction_on generalizing pos cs with
  | _ n ih =>
  subst hn
  rcases cs with _ | ⟨c, cs⟩
  · exact literalEnd_nil h
  rw [literalEnd_cons hquote h]
  by_cases hc : c = quote
  · subst hc
    rw [if_pos rfl, literalRun_quote, utf8Len_cons_of_lt hquote]
    rfl
  rw [if_neg hc]
  by_cases hslash : c = '\\'
  · subst hslash
    have hnext := h.cons (by decide)
    rw [if_pos rfl]
    rcases cs with _ | ⟨d, ds⟩
    · rw [literalRun_slash hq]
      exact literalEnd_nil hnext
    · have hrest := ih ds.length (by simp only [List.length_cons]; omega) hnext.tail rfl
      show literalEnd text quote (pos + 1 + d.utf8Size) = _
      rw [hrest, literalRun_escape hq, utf8Len_cons_of_lt (by decide), String.utf8Len_cons]
      congr 1
      omega
  · have hrest := ih cs.length (Nat.lt_succ_self _) h.tail rfl
    rw [if_neg hslash, hrest, literalRun_plain hc hslash, String.utf8Len_cons]
    congr 1
    omega

end Literals

end Loops

end Cursor

end TokenDump
