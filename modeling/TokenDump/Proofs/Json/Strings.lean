import TokenDump.Proofs.CharClass
import TokenDump.Proofs.Json.Layout

/-!
# Reading strings

Reading a string that matters asks its code units to stand for characters (`readString_eq_ok_iff`):
an escape for half of a character is read with the other half or not at all. A string that does not
matter may have any code units (`skipString_eq_ok_iff`). `text?` is what code units stand for, as
a function of them.
-/

namespace TokenDump.Json

/-! ## Code units and characters -/

/-- The character that a pair of surrogates stands for. -/
def pairChar (high low : Nat) : Char :=
  Char.ofNat ((high - 0xD800) * 0x400 + (low - 0xDC00) + 0x10000)

/-- The characters that code units stand for, if every surrogate is half of a pair. -/
def characters? : List Nat → Option (List Char)
  | [] => some []
  | u :: us =>
    if isHighSurrogate u then
      match us with
      | v :: us => if isLowSurrogate v then (characters? us).map (pairChar u v :: ·) else none
      | [] => none
    else if isLowSurrogate u || 0x10000 ≤ u then none
    else (characters? us).map (Char.ofNat u :: ·)

/-- The text that code units stand for, if they stand for any. -/
def text? (us : List Nat) : Option String := (characters? us).map String.ofList

section Units
variable {c : Char} {u high low : Nat} {us : List Nat} {s : String}

theorem isHighSurrogate_iff : isHighSurrogate u = true ↔ 0xD800 ≤ u ∧ u ≤ 0xDBFF := by
  rw [isHighSurrogate, Bool.and_eq_true, decide_eq_true_eq, decide_eq_true_eq]

theorem isLowSurrogate_iff : isLowSurrogate u = true ↔ 0xDC00 ≤ u ∧ u ≤ 0xDFFF := by
  rw [isLowSurrogate, Bool.and_eq_true, decide_eq_true_eq, decide_eq_true_eq]

theorem utf16_pairChar (hhigh : isHighSurrogate high = true) (hlow : isLowSurrogate low = true) :
    utf16 (pairChar high low) = [high, low] := by
  rw [isHighSurrogate_iff] at hhigh
  rw [isLowSurrogate_iff] at hlow
  rw [utf16, pairChar, CharClass.toNat_ofNat (by omega), if_neg (by omega)]
  simp only [List.cons.injEq, and_true]
  omega

theorem utf16_ofNat (hhigh : ¬ isHighSurrogate u = true) (hlow : ¬ isLowSurrogate u = true)
    (hu : u < 0x10000) : utf16 (Char.ofNat u) = [u] := by
  rw [isHighSurrogate_iff] at hhigh
  rw [isLowSurrogate_iff] at hlow
  rw [utf16, CharClass.toNat_ofNat (by omega), if_pos hu]

/-- A character is one code unit or a pair of surrogates. -/
theorem utf16_cases (c : Char) :
    (∃ u, utf16 c = [u] ∧ c = Char.ofNat u ∧ ¬ isHighSurrogate u = true ∧
      ¬ isLowSurrogate u = true ∧ u < 0x10000) ∨
      ∃ high low, utf16 c = [high, low] ∧ c = pairChar high low ∧ isHighSurrogate high = true ∧
        isLowSurrogate low = true := by
  have hc := CharClass.toNat_lt_or_gt c
  by_cases h : c.toNat < 0x10000
  · refine .inl ⟨c.toNat, if_pos h, (Char.ofNat_toNat c).symm, ?_, ?_, h⟩
    · rw [isHighSurrogate_iff]
      omega
    · rw [isLowSurrogate_iff]
      omega
  · refine .inr ⟨_, _, if_neg h, ?_, ?_, ?_⟩
    · rw [← Char.toNat_inj, pairChar, CharClass.toNat_ofNat (by omega)]
      omega
    · rw [isHighSurrogate_iff]
      omega
    · rw [isLowSurrogate_iff]
      omega

theorem characters?_utf16_append (c : Char) (us : List Nat) :
    characters? (utf16 c ++ us) = (characters? us).map (c :: ·) := by
  rcases utf16_cases c with ⟨u, hu, hc, hhigh, hlow, hlt⟩ | ⟨high, low, hu, hc, hhigh, hlow⟩
  · have hnone : ¬ (isLowSurrogate u || decide (0x10000 ≤ u)) = true := by
      rw [Bool.or_eq_true, decide_eq_true_eq]
      exact fun h => h.elim hlow (by omega)
    rw [hu, hc, List.singleton_append, characters?.eq_def]
    exact (if_neg hhigh).trans (if_neg hnone)
  · rw [hu, hc, List.cons_append, List.singleton_append, characters?, if_pos hhigh, if_pos hlow]

/-- **Code units stand for the characters whose code units they are.** -/
theorem characters?_eq_some_iff {w : List Char} : characters? us = some w ↔ us = w.flatMap utf16 := by
  constructor
  · intro h
    fun_induction characters? us generalizing w with
    | case1 =>
      rw [← Option.some.inj h]
      rfl
    | case2 u hhigh v us hlow ih =>
      obtain ⟨w, hw, rfl⟩ := Option.map_eq_some_iff.1 h
      rw [List.flatMap_cons, utf16_pairChar hhigh hlow, ← ih hw]
      rfl
    | case5 =>
      cases h
    | case6 u us hhigh hlow ih =>
      obtain ⟨w, hw, rfl⟩ := Option.map_eq_some_iff.1 h
      rw [Bool.or_eq_true, decide_eq_true_eq, not_or] at hlow
      rw [List.flatMap_cons, utf16_ofNat hhigh hlow.1 (by omega), ← ih hw]
      rfl
    | _ => cases h
  · rintro rfl
    induction w with
    | nil => rfl
    | cons c w ih =>
      rw [List.flatMap_cons, characters?_utf16_append, ih]
      rfl

theorem text?_eq_some_iff : text? us = some s ↔ us = units s := by
  rw [text?, Option.map_eq_some_iff, units]
  constructor
  · rintro ⟨w, hw, rfl⟩
    rw [characters?_eq_some_iff.1 hw, String.toList_ofList]
  · intro h
    exact ⟨s.toList, characters?_eq_some_iff.2 h, String.ofList_toList⟩

end Units

/-! ## Escapes -/

section Escapes
variable {c e : Char} {n : Nat} {us : List Nat} {cs later rest : List Char}

theorem readQuad_eq_ok_iff : readQuad cs = .ok (n, rest) ↔
    ∃ a b c d, cs = a :: b :: c :: d :: rest ∧ hexQuad? a b c d = some n := by
  fun_cases readQuad cs with
  | case1 a b c d later m hm =>
    simp only [Except.ok.injEq, Prod.mk.injEq, List.cons.injEq]
    constructor
    · rintro ⟨rfl, rfl⟩
      exact ⟨a, b, c, d, ⟨rfl, rfl, rfl, rfl, rfl⟩, hm⟩
    · rintro ⟨a', b', c', d', ⟨rfl, rfl, rfl, rfl, rfl⟩, hn⟩
      exact ⟨Option.some.inj (hm.symm.trans hn), rfl⟩
  | case2 a b c d later hm =>
    simp only [reduceCtorEq, List.cons.injEq, false_iff]
    rintro ⟨a', b', c', d', ⟨rfl, rfl, rfl, rfl, rfl⟩, hn⟩
    rw [hm] at hn
    cases hn
  | case3 =>
    simp only [reduceCtorEq, false_iff]
    rintro ⟨a, b, c, d, rfl, -⟩
    rename_i hshort
    exact hshort a b c d rest rfl

theorem readQuad_of_hexQuad? {a b c d : Char} (h : hexQuad? a b c d = some n) (rest : List Char) :
    readQuad (a :: b :: c :: d :: rest) = .ok (n, rest) :=
  readQuad_eq_ok_iff.2 ⟨a, b, c, d, rfl, h⟩

theorem hexValue?_lt {v : Nat} (h : hexValue? c = some v) : v < 16 := by
  unfold hexValue? at h
  simp only [Char.le_def, UInt32.le_iff_toNat_le, Bool.and_eq_true, decide_eq_true_eq,
    CharClass.isDigit_iff] at h
  have hc : c.val.toNat = c.toNat := rfl
  split_ifs at h with h0 h1 h2 <;> obtain rfl := Option.some.inj h <;>
    simp only [Char.reduceToNat, Char.reduceVal, UInt32.reduceToNat] at * <;> omega

theorem hexQuad?_lt {a b c d : Char} (h : hexQuad? a b c d = some n) : n < 0x10000 := by
  simp only [hexQuad?, Option.bind_eq_bind, Option.bind_eq_some_iff, Option.pure_def,
    Option.some.injEq] at h
  obtain ⟨i, hi, j, hj, k, hk, l, hl, rfl⟩ := h
  have hi := hexValue?_lt hi
  have hj := hexValue?_lt hj
  have hk := hexValue?_lt hk
  have hl := hexValue?_lt hl
  omega

theorem shortEscape?_lt (h : shortEscape? e = some c) : c.toNat < 0x80 := by
  unfold shortEscape? at h
  split at h <;> cases h <;> decide

theorem readLowSurrogate_eq_ok_iff : readLowSurrogate n cs = .ok (c, rest) ↔
    ∃ behind low, cs = '\\' :: 'u' :: behind ∧ readQuad behind = .ok (low, rest) ∧
      isLowSurrogate low = true ∧ c = pairChar n low := by
  fun_cases readLowSurrogate n cs with
  | case1 cs =>
    simp only [bind_eq_ok, Prod.exists, List.cons.injEq, true_and]
    constructor
    · rintro ⟨low, later, hquad, h⟩
      split_ifs at h with hlow
      obtain ⟨hc, rfl⟩ := Prod.mk.inj (Except.ok.inj h)
      exact ⟨cs, low, rfl, hquad, hlow, hc.symm⟩
    · rintro ⟨behind, low, rfl, hquad, hlow, hc⟩
      exact ⟨low, rest, hquad, by rw [if_pos hlow, hc, pairChar]⟩
  | _ => simp_all

/-- What an escape is, behind its backslash. -/
inductive EscapeForm (c : Char) (rest : List Char) : List Char → Prop
  | short {e : Char} (h : shortEscape? e = some c) : EscapeForm c rest (e :: rest)
  | unit {n : Nat} {cs : List Char} (hn : readQuad cs = .ok (n, rest))
      (hhigh : ¬ isHighSurrogate n = true) (hlow : ¬ isLowSurrogate n = true)
      (hc : c = Char.ofNat n) : EscapeForm c rest ('u' :: cs)
  | pair {high low : Nat} {cs behind : List Char}
      (hhigh : readQuad cs = .ok (high, '\\' :: 'u' :: behind)) (hlow : readQuad behind = .ok (low, rest))
      (hhigh' : isHighSurrogate high = true) (hlow' : isLowSurrogate low = true)
      (hc : c = pairChar high low) : EscapeForm c rest ('u' :: cs)

theorem readEscape_eq_ok_iff : readEscape cs = .ok (c, rest) ↔ EscapeForm c rest cs := by
  constructor
  · intro h
    fun_cases readEscape cs with
    | case1 => cases h
    | case2 cs =>
      simp only [readEscape, bind_eq_ok, Prod.exists] at h
      obtain ⟨n, behind, hn, h⟩ := h
      split_ifs at h with hlow hhigh
      · obtain ⟨behind', low, rfl, hlow', hlow, hc⟩ := readLowSurrogate_eq_ok_iff.1 h
        exact .pair hn hlow' hhigh hlow hc
      · obtain ⟨hc, rfl⟩ := Prod.mk.inj (Except.ok.inj h)
        exact .unit hn hhigh hlow hc.symm
    | case3 e cs hne c' hshort =>
      rw [readEscape, hshort] at h
      · obtain ⟨rfl, rfl⟩ := Prod.mk.inj (Except.ok.inj h)
        exact .short hshort
      · exact hne
    | case4 e cs hne hshort =>
      rw [readEscape, hshort] at h
      · cases h
      · exact hne
  · rintro (h | ⟨hn, hhigh, hlow, hc⟩ | @⟨high, _, _, _, hhigh, hlow, hhigh', hlow', hc⟩)
    · rw [readEscape, h]
      rintro rfl
      cases h
    · rw [readEscape, hn]
      show (if _ then _ else _) = _
      rw [if_neg hlow, if_neg hhigh, hc]
    · rw [readEscape, hhigh]
      have hnot : ¬ isLowSurrogate high = true := by
        rw [isHighSurrogate_iff] at hhigh'
        rw [isLowSurrogate_iff]
        omega
      show (if _ then _ else _) = _
      rw [if_neg hnot, if_pos hhigh']
      exact readLowSurrogate_eq_ok_iff.2 ⟨_, _, rfl, hlow, hlow', hc⟩

/-- **An escape that is read spells its character.** -/
theorem spellsString_of_readEscape (h : readEscape cs = .ok (c, later))
    (hlater : SpellsString us later rest) : SpellsString (utf16 c ++ us) ('\\' :: cs) rest := by
  obtain hshort | ⟨hn, hhigh, hlow, hc⟩ | ⟨hhigh, hlow, hhigh', hlow', hc⟩ :=
    readEscape_eq_ok_iff.1 h
  · have hlt := shortEscape?_lt hshort
    rw [utf16, if_pos (by omega)]
    exact .short hshort hlater
  · obtain ⟨x, y, z, v, rfl, hquad⟩ := readQuad_eq_ok_iff.1 hn
    rw [hc, utf16_ofNat hhigh hlow (hexQuad?_lt hquad)]
    exact .unit hquad hlater
  · obtain ⟨x, y, z, v, rfl, hquad⟩ := readQuad_eq_ok_iff.1 hhigh
    obtain ⟨x', y', z', v', rfl, hquad'⟩ := readQuad_eq_ok_iff.1 hlow
    rw [hc, utf16_pairChar hhigh' hlow']
    exact .unit hquad (.unit hquad' hlater)

/-- No character starts with the second half of a pair. -/
theorem utf16_append_ne {u : Nat} {vs : List Nat} (hu : isLowSurrogate u = true) :
    utf16 c ++ us ≠ u :: vs := by
  intro h
  rcases utf16_cases c with ⟨v, hv, -, -, hlow, -⟩ | ⟨high, low, hv, -, hhigh, -⟩
  · rw [hv] at h
    exact hlow ((List.cons.inj h).1 ▸ hu)
  · rw [hv] at h
    obtain ⟨rfl, -⟩ := List.cons.inj h
    rw [isHighSurrogate_iff] at hhigh
    rw [isLowSurrogate_iff] at hu
    omega

theorem utf16_of_lt (h : c.toNat < 0x10000) : utf16 c = [c.toNat] := if_pos h

/-- The second half of a pair is an escape. -/
theorem SpellsString.exists_quad {u : Nat} (h : SpellsString (u :: us) cs rest)
    (hu : isLowSurrogate u = true) : ∃ behind later, cs = '\\' :: 'u' :: behind ∧
      readQuad behind = .ok (u, later) ∧ SpellsString us later rest := by
  generalize hvs : u :: us = vs at h
  cases h with
  | close => cases hvs
  | plain => exact absurd hvs.symm (utf16_append_ne hu)
  | @short e c us' cs rest hshort later =>
    have hlt := shortEscape?_lt hshort
    obtain ⟨rfl, -⟩ := List.cons.inj hvs
    rw [isLowSurrogate_iff] at hu
    omega
  | unit hn later =>
    obtain ⟨rfl, rfl⟩ := List.cons.inj hvs
    exact ⟨_, _, rfl, readQuad_of_hexQuad? hn _, later⟩

/-- The first character of a string stands for itself, or it is an escape that is read. -/
theorem SpellsString.exists_first (h : SpellsString (utf16 c ++ us) cs rest) : ∃ later,
    SpellsString us later rest ∧ (Unescaped c ∧ cs = c :: later ∨
      ∃ behind, cs = '\\' :: behind ∧ readEscape behind = .ok (c, later)) := by
  generalize hvs : utf16 c ++ us = vs at h
  cases h with
  | close => exact absurd hvs (utf16_append_ne_nil c us)
  | plain hc later =>
    obtain ⟨rfl, rfl⟩ := utf16_unique hvs
    exact ⟨_, later, .inl ⟨hc, rfl⟩⟩
  | @short e c' us' cs rest hshort later =>
    have hlt := shortEscape?_lt hshort
    have hunits : utf16 c ++ us = utf16 c' ++ us' := by
      rw [hvs, utf16_of_lt (by omega), List.singleton_append]
    obtain ⟨rfl, rfl⟩ := utf16_unique hunits
    exact ⟨_, later, .inr ⟨_, rfl, readEscape_eq_ok_iff.2 (.short hshort)⟩⟩
  | unit hn later =>
    have hquad := readQuad_of_hexQuad? hn
    rcases utf16_cases c with ⟨u, hu, hc, hhigh, hlow, -⟩ | ⟨high, low, hu, hc, hhigh, hlow⟩
    · rw [hu] at hvs
      obtain ⟨rfl, rfl⟩ := List.cons.inj hvs
      exact ⟨_, later, .inr ⟨_, rfl, readEscape_eq_ok_iff.2 (.unit (hquad _) hhigh hlow hc)⟩⟩
    · rw [hu] at hvs
      obtain ⟨rfl, rfl⟩ := List.cons.inj hvs
      obtain ⟨behind, later', rfl, hquad', hlater⟩ := later.exists_quad hlow
      exact ⟨_, hlater, .inr ⟨_, rfl, readEscape_eq_ok_iff.2 (.pair (hquad _) hquad' hhigh hlow hc)⟩⟩

end Escapes

/-! ## Strings -/

section Strings
variable {c : Char} {s : String} {us : List Nat} {read w cs later rest : List Char}

theorem readStringAfter_plain (h : Unescaped c) :
    readStringAfter read (c :: cs) = readStringAfter (c :: read) cs := by
  rw [readStringAfter]
  · rw [h.1]
    rfl
  · exact h.2.1
  · exact h.2.2

theorem readStringAfter_escape (h : readEscape cs = .ok (c, later)) :
    readStringAfter read ('\\' :: cs) = readStringAfter (c :: read) later := by
  rw [readStringAfter]
  split
  · next c' later' h' =>
    obtain ⟨rfl, rfl⟩ := Prod.mk.inj (Except.ok.inj (h.symm.trans h'))
    rfl
  · next h' =>
    rw [h] at h'
    cases h'

theorem reverse_cons_append (c : Char) (read w : List Char) :
    (c :: read).reverse ++ w = read.reverse ++ c :: w := by
  rw [List.reverse_cons, List.append_assoc, List.singleton_append]

/-- Reading a string takes its characters one by one. -/
theorem readStringAfter_of_spells (h : SpellsString (w.flatMap utf16) cs rest) :
    readStringAfter read cs = .ok (String.ofList (read.reverse ++ w), rest) := by
  induction w generalizing read cs with
  | nil =>
    have hus : ([] : List Char).flatMap utf16 = [] := rfl
    rw [hus] at h
    generalize hnil : ([] : List Nat) = us at h
    cases h with
    | close => rw [readStringAfter, List.append_nil]
    | plain => exact absurd hnil.symm (utf16_append_ne_nil _ _)
    | short | unit => cases hnil
  | cons c w ih =>
    rw [← reverse_cons_append]
    obtain ⟨later, hlater, ⟨hc, rfl⟩ | ⟨behind, rfl, hescape⟩⟩ := h.exists_first
    · rw [readStringAfter_plain hc, ih hlater]
    · rw [readStringAfter_escape hescape, ih hlater]

theorem spells_of_readStringAfter (h : readStringAfter read cs = .ok (s, rest)) :
    ∃ w, s = String.ofList (read.reverse ++ w) ∧ SpellsString (w.flatMap utf16) cs rest := by
  fun_induction readStringAfter read cs with
  | case1 => cases h
  | case2 read cs =>
    obtain ⟨rfl, rfl⟩ := Prod.mk.inj (Except.ok.inj h)
    exact ⟨[], by rw [List.append_nil], .close⟩
  | case3 read cs c later hescape ih =>
    obtain ⟨w, rfl, hw⟩ := ih h
    exact ⟨c :: w, by rw [reverse_cons_append], spellsString_of_readEscape hescape hw⟩
  | case4 => cases h
  | case5 => cases h
  | case6 read c cs hquote hslash hcontrol ih =>
    obtain ⟨w, rfl, hw⟩ := ih h
    exact ⟨c :: w, by rw [reverse_cons_append],
      .plain ⟨Bool.eq_false_iff.2 hcontrol, hquote, hslash⟩ hw⟩

/-- **A string is read exactly if its code units are those of a text**, and it is that text. -/
theorem readString_eq_ok_iff : readString cs = .ok (s, rest) ↔ SpellsString (units s) cs rest := by
  constructor
  · intro h
    obtain ⟨w, rfl, hw⟩ := spells_of_readStringAfter h
    rwa [units, String.toList_ofList]
  · intro h
    rw [readString, readStringAfter_of_spells h]
    exact congrArg (fun t => Except.ok (t, rest)) String.ofList_toList

theorem spellsString_of_skipEscape (h : skipEscape cs = .ok later)
    (hlater : SpellsString us later rest) : ∃ us', SpellsString us' ('\\' :: cs) rest := by
  fun_cases skipEscape cs with
  | case1 => cases h
  | case2 cs =>
    rw [skipEscape, bind_eq_ok] at h
    obtain ⟨⟨n, behind⟩, hn, h⟩ := h
    obtain rfl := Except.ok.inj h
    obtain ⟨x, y, z, v, rfl, hquad⟩ := readQuad_eq_ok_iff.1 hn
    exact ⟨_, .unit hquad hlater⟩
  | case3 e cs hne hshort =>
    rw [skipEscape, if_pos hshort] at h
    · obtain rfl := Except.ok.inj h
      obtain ⟨c, hc⟩ := Option.isSome_iff_exists.1 hshort
      exact ⟨_, .short hc hlater⟩
    · exact hne
  | case4 e cs hne hshort =>
    rw [skipEscape, if_neg hshort] at h
    · cases h
    · exact hne

theorem skipEscape_of_shortEscape? {e : Char} (h : shortEscape? e = some c) (cs : List Char) :
    skipEscape (e :: cs) = .ok cs := by
  rw [skipEscape, h]
  · rfl
  · rintro rfl
    cases h

theorem skipEscape_of_hexQuad? {x y z v : Char} {n : Nat} (h : hexQuad? x y z v = some n)
    (cs : List Char) : skipEscape ('u' :: x :: y :: z :: v :: cs) = .ok cs := by
  rw [skipEscape, readQuad_of_hexQuad? h]
  rfl

theorem skipString_escape (h : skipEscape cs = .ok later) :
    skipString ('\\' :: cs) = skipString later := by
  rw [skipString]
  split
  · next later' h' => rw [Except.ok.inj (h.symm.trans h')]
  · next h' =>
    rw [h] at h'
    cases h'

/-- **A string is skipped exactly if it is one**, whatever its code units. -/
theorem skipString_eq_ok_iff : skipString cs = .ok rest ↔ ∃ us, SpellsString us cs rest := by
  constructor
  · intro h
    fun_induction skipString cs with
    | case1 => cases h
    | case2 cs =>
      obtain rfl := Except.ok.inj h
      exact ⟨[], .close⟩
    | case3 cs later hescape ih =>
      obtain ⟨us, hus⟩ := ih h
      exact spellsString_of_skipEscape hescape hus
    | case4 => cases h
    | case5 => cases h
    | case6 c cs hquote hslash hcontrol ih =>
      obtain ⟨us, hus⟩ := ih h
      exact ⟨_, .plain ⟨Bool.eq_false_iff.2 hcontrol, hquote, hslash⟩ hus⟩
  · rintro ⟨us, h⟩
    induction h with
    | close => rw [skipString]
    | plain hc _ ih =>
      rw [skipString]
      · rw [hc.1]
        exact ih
      · exact hc.2.1
      · exact hc.2.2
    | short he _ ih => rw [skipString_escape (skipEscape_of_shortEscape? he _), ih]
    | unit hn _ ih => rw [skipString_escape (skipEscape_of_hexQuad? hn _), ih]

end Strings

end TokenDump.Json
