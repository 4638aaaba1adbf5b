import TokenDump.Json.Skip
import TokenDump.Proofs.Json.Strings

/-!
# Skipping values

A value that does not matter is skipped exactly if the grammar spells one there, of whatever form and
depth (`spells_of_skipValue`, `skipValue_of_spells`). What is left to read while brackets are open is the
rest of each of them in turn (`Closes`), and `Meets` says it of everything that `skipStep` may expect. One
step takes what is expected to what comes after it (`meets_of_skipStep`, `skipStep_of_meets`), and the two
theorems about all steps follow by induction on the text that is left.
-/

namespace TokenDump.Json
open Text

/-! ## Words and white space -/

section Words
variable {word cs first rest : List Char}

theorem skipWord_eq_ok_iff : skipWord word cs = .ok rest ↔ cs = word ++ rest := by
  fun_induction skipWord word cs with
  | case1 cs => rw [List.nil_append, Except.ok.injEq]
  | case2 => simp
  | case3 w ws c cs hc ih => rw [ih, beq_iff_eq.1 hc, List.cons_append, List.cons_inj_right]
  | case4 w ws c cs hc =>
    simp only [reduceCtorEq, false_iff, List.cons_append, List.cons.injEq, not_and]
    rintro rfl
    exact absurd BEq.rfl hc

theorem skips_skipBlank (cs : List Char) : Skips cs (skipBlank cs) :=
  ⟨cs.takeWhile isBlank, fun _ hc => List.mem_takeWhile_imp hc,
    List.takeWhile_append_dropWhile.symm⟩

theorem stops_skipBlank (cs : List Char) : Stops isBlank (skipBlank cs) := by
  intro c hc
  have hhead := List.head?_dropWhile_not isBlank cs
  rw [← skipBlank, hc] at hhead
  simpa using hhead

theorem Skips.skipBlank_eq (h : Skips cs first) (hfirst : Stops isBlank first) :
    skipBlank cs = first :=
  (skips_skipBlank cs).unique h (stops_skipBlank cs) hfirst

end Words

/-! ## Numbers -/

section Numbers
variable {q : ℚ} {e : ℤ} {fs f x w ds cs rest : List Char}

theorem digits_takeWhile (h : startsWithDigit cs = true) : Digits (cs.takeWhile Char.isDigit) := by
  obtain ⟨c, hc, hdigit⟩ := (Option.any_eq_true _ _).1 h
  obtain ⟨cs, rfl⟩ := List.head?_eq_some_iff.1 hc
  refine ⟨?_, fun c hc => List.mem_takeWhile_imp hc⟩
  rw [List.takeWhile_cons_of_pos hdigit]
  exact List.cons_ne_nil _ _

theorem Digits.startsWithDigit (h : Digits ds) (rest : List Char) :
    startsWithDigit (ds ++ rest) = true := by
  obtain ⟨c, ds, rfl⟩ := List.exists_cons_of_ne_nil h.1
  exact h.2 c List.mem_cons_self

theorem dropWhile_run (hds : ∀ c ∈ ds, c.isDigit = true) (hrest : Stops Char.isDigit rest) :
    (ds ++ rest).dropWhile Char.isDigit = rest := by
  have hsplit := List.takeWhile_append_dropWhile (p := Char.isDigit) (l := ds ++ rest)
  rw [takeWhile_run hds hrest] at hsplit
  exact List.append_cancel_left hsplit

theorem stops_isDigit (h : Stops isNumeralPart rest) : Stops Char.isDigit rest := by
  intro c hc
  have hpart := h c hc
  rw [isNumeralPart, Bool.or_eq_false_iff] at hpart
  exact hpart.1

theorem readSign_of_startsWithDigit (h : startsWithDigit cs = true) : readSign cs = (true, cs) := by
  rw [readSign]
  · intro cs' hcs
    rw [hcs] at h
    cases h
  · intro cs' hcs
    rw [hcs] at h
    cases h

theorem skipExponent_mark {mark : Char} (hmark : mark = 'e' ∨ mark = 'E') (cs : List Char) :
    skipExponent (mark :: cs) =
      if startsWithDigit (readSign cs).2 then .ok ((readSign cs).2.dropWhile Char.isDigit)
      else .error (.ahead .invalidNumber (readSign cs).2) := by
  have hhead : (mark :: cs).head? = some 'e' ∨ (mark :: cs).head? = some 'E' := by
    simpa using hmark
  rw [skipExponent, if_pos hhead]
  rfl

theorem exponent_of_skipExponent (h : skipExponent cs = .ok rest) :
    ∃ e x, Exponent e x ∧ cs = x ++ rest := by
  by_cases hhead : cs.head? = some 'e' ∨ cs.head? = some 'E'
  · obtain ⟨mark, behind, rfl, hmark⟩ : ∃ mark behind, cs = mark :: behind ∧
        (mark = 'e' ∨ mark = 'E') := by
      rcases hhead with hhead | hhead <;> obtain ⟨behind, rfl⟩ := List.head?_eq_some_iff.1 hhead
      · exact ⟨_, behind, rfl, .inl rfl⟩
      · exact ⟨_, behind, rfl, .inr rfl⟩
    rw [skipExponent_mark hmark] at h
    split_ifs at h with hdigit
    obtain rfl := Except.ok.inj h
    have hdigits := digits_takeWhile hdigit
    have hsplit : ∀ cs : List Char, cs.takeWhile Char.isDigit ++ cs.dropWhile Char.isDigit = cs :=
      fun _ => List.takeWhile_append_dropWhile
    fun_cases readSign behind with
    | case1 behind =>
      refine ⟨_, _, .plus hmark hdigits, ?_⟩
      rw [List.cons_append, List.cons_append, readSign, hsplit]
    | case2 behind =>
      refine ⟨_, _, .minus hmark hdigits, ?_⟩
      rw [List.cons_append, List.cons_append, readSign, hsplit]
    | case3 behind hplus hminus =>
      refine ⟨_, _, .bare hmark hdigits, ?_⟩
      rw [List.cons_append, readSign, hsplit]
      · exact hplus
      · exact hminus
  · rw [skipExponent, if_neg hhead] at h
    obtain rfl := Except.ok.inj h
    exact ⟨0, [], .none, rfl⟩

theorem skipExponent_of_exponent (h : Exponent e x) (hrest : Stops isNumeralPart rest) :
    skipExponent (x ++ rest) = .ok rest := by
  have hdigits : ∀ {ds}, Digits ds → (ds ++ rest).dropWhile Char.isDigit = rest := fun hds =>
    dropWhile_run hds.2 (stops_isDigit hrest)
  cases h with
  | none =>
    rw [List.nil_append, skipExponent, if_neg]
    rintro (hc | hc) <;> cases hrest _ hc
  | bare hmark hds =>
    rw [List.cons_append, skipExponent_mark hmark,
      readSign_of_startsWithDigit (hds.startsWithDigit rest), if_pos (hds.startsWithDigit rest),
      hdigits hds]
  | plus hmark hds | minus hmark hds =>
    rw [List.cons_append, List.cons_append, skipExponent_mark hmark, readSign,
      if_pos (hds.startsWithDigit rest), hdigits hds]

theorem fraction_of_skipFraction (h : skipFraction cs = .ok rest) :
    ∃ fs f e x, Fraction fs f ∧ Exponent e x ∧ cs = f ++ (x ++ rest) := by
  fun_cases skipFraction cs with
  | case1 cs hdigit =>
    rw [skipFraction, if_pos hdigit] at h
    obtain ⟨e, x, hx, hcs⟩ := exponent_of_skipExponent h
    refine ⟨_, _, e, x, .point (digits_takeWhile hdigit), hx, ?_⟩
    rw [← hcs, List.cons_append, List.takeWhile_append_dropWhile]
  | case2 cs hdigit =>
    rw [skipFraction, if_neg hdigit] at h
    cases h
  | case3 cs hpoint =>
    have hexponent : skipExponent cs = .ok rest := by simpa [skipFraction] using h
    obtain ⟨e, x, hx, rfl⟩ := exponent_of_skipExponent hexponent
    exact ⟨[], [], e, x, .none, hx, rfl⟩

/-- What comes behind the digits of a number is not a point or a digit if it is an exponent. -/
theorem Exponent.stops_append {p : Char → Bool} (h : Exponent e x) (he : p 'e' = false)
    (hE : p 'E' = false) (hrest : Stops p rest) : Stops p (x ++ rest) := by
  cases x with
  | nil => exact hrest
  | cons c x => exact stops_cons.2 (stops_cons.1 (h.stops he hE))

theorem skipFraction_of_fraction (h : Fraction fs f) (hx : Exponent e x)
    (hrest : Stops isNumeralPart rest) : skipFraction (f ++ (x ++ rest)) = .ok rest := by
  have hexponent := skipExponent_of_exponent hx hrest
  cases h with
  | none =>
    have hpoint : Stops (· == '.') (x ++ rest) := hx.stops_append rfl rfl fun c hc => by
      rw [beq_eq_false_iff_ne]
      rintro rfl
      cases hrest _ hc
    rw [List.nil_append, skipFraction, hexponent]
    intro cs hcs
    rw [hcs] at hpoint
    cases stops_cons.1 hpoint
  | point hds =>
    have hstops := hx.stops_append (p := Char.isDigit) rfl rfl (stops_isDigit hrest)
    rw [List.cons_append, skipFraction, if_pos (hds.startsWithDigit _), dropWhile_run hds.2 hstops,
      hexponent]

theorem skipNumber_of_isDigit {c : Char} (hc : c.isDigit = true) (cs : List Char) :
    skipNumber (c :: cs) =
      if c == '0' then
        if startsWithDigit cs then .error (.ahead .invalidNumber cs) else skipFraction cs
      else skipFraction (cs.dropWhile Char.isDigit) := by
  rw [skipNumber, hc]
  rfl

theorem unsigned_of_skipNumber (h : skipNumber cs = .ok rest) :
    ∃ q w, Unsigned q w ∧ cs = w ++ rest := by
  have hbuild : ∀ {ds behind}, Whole ds → skipFraction behind = .ok rest →
      ∃ q w, Unsigned q w ∧ ds ++ behind = w ++ rest := by
    intro ds behind hds hbehind
    obtain ⟨fs, f, e, x, hf, hx, rfl⟩ := fraction_of_skipFraction hbehind
    exact ⟨_, _, .mk hds hf hx, by simp only [List.append_assoc]⟩
  cases cs with
  | nil => cases h
  | cons c cs =>
    by_cases hc : c.isDigit = true
    · rw [skipNumber_of_isDigit hc] at h
      split_ifs at h with hzero hdigit
      · rw [beq_iff_eq.1 hzero]
        show ∃ q w, Unsigned q w ∧ ['0'] ++ cs = w ++ rest
        exact hbuild ⟨⟨List.cons_ne_nil _ _, List.forall_mem_singleton.2 rfl⟩, fun _ => rfl⟩ h
      · have hdigits : Digits (c :: cs.takeWhile Char.isDigit) :=
          ⟨List.cons_ne_nil _ _, List.forall_mem_cons.2 ⟨hc, fun _ h => List.mem_takeWhile_imp h⟩⟩
        have hwhole : Whole (c :: cs.takeWhile Char.isDigit) :=
          ⟨hdigits, fun hhead => absurd (beq_iff_eq.2 (Option.some.inj hhead)) hzero⟩
        obtain ⟨q, w, hw, hcs⟩ := hbuild hwhole h
        rw [List.cons_append, List.takeWhile_append_dropWhile] at hcs
        exact ⟨q, w, hw, hcs⟩
    · have hc' : (!c.isDigit) = true := by simpa using hc
      rw [skipNumber, if_pos hc'] at h
      cases h

theorem not_startsWithDigit (h : Stops Char.isDigit cs) : ¬ startsWithDigit cs = true := by
  intro hdigit
  obtain ⟨c, hc, hc'⟩ := (Option.any_eq_true _ _).1 hdigit
  rw [h c hc] at hc'
  cases hc'

theorem skipNumber_of_unsigned (h : Unsigned q w) (hrest : Stops isNumeralPart rest) :
    skipNumber (w ++ rest) = .ok rest := by
  obtain @⟨ds, fs, f, x, e, ⟨hds, hzero⟩, hf, hx⟩ := h
  have hfraction := skipFraction_of_fraction hf hx hrest
  have hstops : Stops Char.isDigit (f ++ (x ++ rest)) := by
    cases hf with
    | none => exact hx.stops_append rfl rfl (stops_isDigit hrest)
    | point => exact stops_cons.2 rfl
  obtain ⟨c, ds, rfl⟩ := List.exists_cons_of_ne_nil hds.1
  obtain ⟨hc, hds'⟩ := List.forall_mem_cons.1 hds.2
  rw [List.append_assoc, List.append_assoc, List.cons_append, skipNumber_of_isDigit hc]
  by_cases hc0 : (c == '0') = true
  · obtain ⟨-, rfl⟩ := List.cons.inj (hzero (congrArg some (beq_iff_eq.1 hc0)))
    rw [if_pos hc0, List.nil_append, if_neg (not_startsWithDigit hstops), hfraction]
  · rw [if_neg hc0, dropWhile_run hds' hstops, hfraction]

end Numbers

/-! ## What is expected -/

/-- The rest of a bracket after a value in it. -/
def ClosesOne : Bracket → List Char → List Char → Prop
  | .list, cs, rest => ∃ ds, SpellsItems ds cs rest
  | .object, cs, rest => ∃ ms, SpellsMembers ms cs rest

/-- The rest of some brackets, the inner ones first, after a value in the innermost. -/
def Closes : List Bracket → List Char → List Char → Prop
  | [], cs, rest => cs = rest
  | b :: outer, cs, rest => ∃ later, ClosesOne b cs later ∧ Closes outer later rest

/-- A value, and the rest of the brackets around it. -/
def MeetsValue (brackets : List Bracket) (cs rest : List Char) : Prop :=
  ∃ d first later, Skips cs first ∧ Spells d first later ∧ Closes brackets later rest

/-- A member of an object, and the rest of the object and of the brackets around it. -/
def MeetsMember (outer : List Bracket) (cs rest : List Char) : Prop :=
  ∃ name d first later, Skips cs first ∧ SpellsMember name d first later ∧
    Closes (.object :: outer) later rest

/-- What is expected stands in front of `rest`. -/
def Meets : Expecting → List Char → List Char → Prop
  | .value brackets, cs, rest => MeetsValue brackets cs rest
  | .name outer, cs, rest => MeetsMember outer cs rest
  | .opened .list outer, cs, rest =>
    (∃ later, Skips cs (']' :: later) ∧ Closes outer later rest) ∨
      MeetsValue (.list :: outer) cs rest
  | .opened .object outer, cs, rest =>
    (∃ later, Skips cs ('\x7d' :: later) ∧ Closes outer later rest) ∨ MeetsMember outer cs rest
  | .separator b outer, cs, rest => Closes (b :: outer) cs rest

/-- What comes after a step: what is expected then, or nothing more. -/
def MeetsNext : Option Expecting → List Char → List Char → Prop
  | none, cs, rest => cs = rest
  | some e, cs, rest => Meets e cs rest

section Steps
variable {b : Bracket} {brackets outer : List Bracket} {expecting : Expecting}
  {next : Option Expecting} {c : Char} {cs later rest : List Char} {d : Datum} {name : List Nat}

theorem meetsNext_afterValue? :
    MeetsNext (Expecting.afterValue? brackets) cs rest ↔ Closes brackets cs rest := by
  cases brackets <;> rfl

theorem Closes.stops (h : Closes brackets cs rest) (hrest : Stops isNumeralPart rest) :
    Stops isNumeralPart cs := by
  match brackets, h with
  | [], h => exact h ▸ hrest
  | .list :: _, ⟨_, ⟨_, hds⟩, _⟩ => exact hds.stops
  | .object :: _, ⟨_, ⟨_, hms⟩, _⟩ => exact hms.stops

theorem skipColon_eq_ok_iff : skipColon cs = .ok rest ↔ Skips cs (':' :: rest) := by
  constructor
  · intro h
    have hskips := skips_skipBlank cs
    unfold skipColon at h
    split at h
    · cases h
    · next behind hcs =>
      rw [← Except.ok.inj h, ← hcs]
      exact hskips
    · cases h
  · intro h
    rw [skipColon, h.skipBlank_eq (stops_cons.2 rfl)]
    rfl

theorem spells_of_skipScalar (h : skipScalar c cs = .ok rest) : ∃ d, Spells d (c :: cs) rest := by
  unfold skipScalar at h
  split_ifs at h with hn ht hf hquote hminus hdigit
  · rw [beq_iff_eq.1 hn, skipWord_eq_ok_iff.1 h]
    exact ⟨_, .null⟩
  · rw [beq_iff_eq.1 ht, skipWord_eq_ok_iff.1 h]
    exact ⟨_, .isTrue⟩
  · rw [beq_iff_eq.1 hf, skipWord_eq_ok_iff.1 h]
    exact ⟨_, .isFalse⟩
  · obtain ⟨us, hus⟩ := skipString_eq_ok_iff.1 h
    rw [beq_iff_eq.1 hquote]
    exact ⟨_, .string hus⟩
  · obtain ⟨q, w, hw, rfl⟩ := unsigned_of_skipNumber h
    rw [beq_iff_eq.1 hminus]
    exact ⟨_, .number (.negative hw) rfl⟩
  · obtain ⟨q, w, hw, hcs⟩ := unsigned_of_skipNumber h
    exact ⟨_, .number (.positive hw) hcs⟩

theorem skipScalar_of_isDigit (hc : c.isDigit = true) (cs : List Char) :
    skipScalar c cs = skipNumber (c :: cs) := by
  have hne : ∀ d : Char, d.isDigit = false → ¬ (c == d) = true := by
    intro d hd hcd
    rw [beq_iff_eq.1 hcd, hd] at hc
    cases hc
  rw [skipScalar, if_neg (hne _ rfl), if_neg (hne _ rfl), if_neg (hne _ rfl), if_neg (hne _ rfl),
    if_neg (hne _ rfl), if_pos hc]

/-- A word, number or string is skipped, if no number goes on behind it. -/
theorem Spells.skipScalar (h : Spells d (c :: cs) rest) (hrest : Apart d rest) (hlist : c ≠ '[')
    (hobject : c ≠ '\x7b') : skipScalar c cs = .ok rest := by
  generalize hcs : c :: cs = text at h
  cases h with
  | null | isTrue | isFalse =>
    obtain ⟨rfl, rfl⟩ := List.cons.inj hcs
    exact skipWord_eq_ok_iff.2 rfl
  | @number q w text rest h hw =>
    have hstops := hrest q rfl
    cases h with
    | positive h =>
      obtain ⟨c', v, rfl, hc⟩ := h.exists_cons
      obtain ⟨rfl, rfl⟩ := List.cons.inj (hcs.trans hw)
      rw [skipScalar_of_isDigit hc]
      exact skipNumber_of_unsigned h hstops
    | negative h =>
      obtain ⟨rfl, rfl⟩ := List.cons.inj (hcs.trans hw)
      exact skipNumber_of_unsigned h hstops
  | string h =>
    obtain ⟨rfl, rfl⟩ := List.cons.inj hcs
    exact skipString_eq_ok_iff.2 ⟨_, h⟩
  | emptyArray | array => exact absurd (List.cons.inj hcs).1 hlist
  | emptyObject | object => exact absurd (List.cons.inj hcs).1 hobject

/-! ## One step -/

theorem spells_of_skipItem (h : skipItem brackets cs = .ok (next, later))
    (hnext : MeetsNext next later rest) :
    ∃ d behind, Spells d cs behind ∧ Closes brackets behind rest := by
  fun_cases skipItem brackets cs with
  | case1 => cases h
  | case2 cs =>
    obtain ⟨rfl, rfl⟩ := Prod.mk.inj (Except.ok.inj h)
    obtain ⟨behind, hclose, houter⟩ | ⟨d, first, behind, hblank, hd, mid, ⟨ds, hds⟩, houter⟩ :=
      hnext
    · exact ⟨_, _, .emptyArray hclose, houter⟩
    · exact ⟨_, _, .array hblank hd hds, houter⟩
  | case3 cs =>
    obtain ⟨rfl, rfl⟩ := Prod.mk.inj (Except.ok.inj h)
    obtain ⟨behind, hclose, houter⟩ |
      ⟨name, d, first, behind, hblank, hm, mid, ⟨ms, hms⟩, houter⟩ := hnext
    · exact ⟨_, _, .emptyObject hclose, houter⟩
    · exact ⟨_, _, .object hblank hm hms, houter⟩
  | case4 c cs hlist hobject =>
    rw [skipItem, bind_eq_ok] at h
    · obtain ⟨behind, hscalar, h⟩ := h
      obtain ⟨rfl, rfl⟩ := Prod.mk.inj (Except.ok.inj h)
      obtain ⟨d, hd⟩ := spells_of_skipScalar hscalar
      exact ⟨d, _, hd, meetsNext_afterValue?.1 hnext⟩
    · exact hlist
    · exact hobject

theorem skipItem_of_spells (h : Spells d cs later) (hclose : Closes brackets later rest)
    (hrest : Stops isNumeralPart rest) : ∃ next behind, skipItem brackets cs = .ok (next, behind) ∧
      MeetsNext next behind rest := by
  obtain ⟨c, cs, rfl, -⟩ := h.exists_cons
  by_cases hlist : c = '['
  · subst hlist
    refine ⟨_, _, rfl, ?_⟩
    cases h with
    | number h hcs => exact absurd hcs (h.ne_cons rfl (by decide))
    | emptyArray h => exact .inl ⟨_, h, hclose⟩
    | array hblank hd hds => exact .inr ⟨_, _, _, hblank, hd, _, ⟨_, hds⟩, hclose⟩
  by_cases hobject : c = '\x7b'
  · subst hobject
    refine ⟨_, _, rfl, ?_⟩
    cases h with
    | number h hcs => exact absurd hcs (h.ne_cons rfl (by decide))
    | emptyObject h => exact .inl ⟨_, h, hclose⟩
    | object hblank hm hms => exact .inr ⟨_, _, _, _, hblank, hm, _, ⟨_, hms⟩, hclose⟩
  · have hscalar := h.skipScalar (apart_of_stops (hclose.stops hrest)) hlist hobject
    refine ⟨Expecting.afterValue? brackets, later, ?_, meetsNext_afterValue?.2 hclose⟩
    rw [skipItem, hscalar]
    · rfl
    · exact hlist
    · exact hobject

theorem spellsMember_of_skipName (h : skipName outer cs = .ok (next, later))
    (hnext : MeetsNext next later rest) : ∃ name d behind, SpellsMember name d cs behind ∧
      Closes (.object :: outer) behind rest := by
  fun_cases skipName outer cs with
  | case2 cs =>
    simp only [skipName, bind_eq_ok] at h
    obtain ⟨afterName, hname, afterColon, hcolon, h⟩ := h
    obtain ⟨rfl, rfl⟩ := Prod.mk.inj (Except.ok.inj h)
    obtain ⟨us, hus⟩ := skipString_eq_ok_iff.1 hname
    obtain ⟨d, first, behind, hblank, hd, hclose⟩ := hnext
    exact ⟨us, d, behind, .mk hus (skipColon_eq_ok_iff.1 hcolon) hblank hd, hclose⟩
  | _ => simp_all [skipName]

theorem skipName_of_spellsMember (h : SpellsMember name d cs later)
    (hclose : Closes (.object :: outer) later rest) :
    ∃ next behind, skipName outer cs = .ok (next, behind) ∧ MeetsNext next behind rest := by
  cases h with
  | mk hname hcolon hblank hd =>
    refine ⟨some (.value (.object :: outer)), _, ?_, _, _, _, hblank, hd, hclose⟩
    rw [skipName, skipString_eq_ok_iff.2 ⟨_, hname⟩]
    show (do let cs ← skipColon _; _) = _
    rw [skipColon_eq_ok_iff.2 hcolon]
    rfl

/-- **A step goes over part of what is expected.** -/
theorem meets_of_skipStep (h : skipStep expecting cs = .ok (next, later))
    (hnext : MeetsNext next later rest) : Meets expecting cs rest := by
  have hblank := skips_skipBlank cs
  cases expecting with
  | value brackets =>
    obtain ⟨d, behind, hd, hclose⟩ := spells_of_skipItem h hnext
    exact ⟨d, _, behind, hblank, hd, hclose⟩
  | name outer =>
    obtain ⟨name, d, behind, hm, hclose⟩ := spellsMember_of_skipName h hnext
    exact ⟨name, d, _, behind, hblank, hm, hclose⟩
  | opened b outer =>
    rcases hcs : skipBlank cs with _ | ⟨c, behind⟩ <;> simp only [skipStep, hcs] at h
    · cases h
    rw [hcs] at hblank
    split_ifs at h with hc
    · obtain ⟨rfl, rfl⟩ := Prod.mk.inj (Except.ok.inj h)
      rw [beq_iff_eq.1 hc] at hblank
      cases b <;> exact .inl ⟨behind, hblank, meetsNext_afterValue?.1 hnext⟩
    · cases b with
      | list =>
        obtain ⟨d, mid, hd, hclose⟩ := spells_of_skipItem h hnext
        exact .inr ⟨d, _, mid, hblank, hd, hclose⟩
      | object =>
        obtain ⟨name, d, mid, hm, hclose⟩ := spellsMember_of_skipName h hnext
        exact .inr ⟨name, d, _, mid, hblank, hm, hclose⟩
  | separator b outer =>
    rcases hcs : skipBlank cs with _ | ⟨c, behind⟩ <;> simp only [skipStep, hcs] at h
    · cases h
    rw [hcs] at hblank
    split_ifs at h with hc hcomma
    · obtain ⟨rfl, rfl⟩ := Prod.mk.inj (Except.ok.inj h)
      rw [beq_iff_eq.1 hc] at hblank
      refine ⟨behind, ?_, meetsNext_afterValue?.1 hnext⟩
      cases b with
      | list => exact ⟨[], .close hblank⟩
      | object => exact ⟨[], .close hblank⟩
    · obtain ⟨rfl, rfl⟩ := Prod.mk.inj (Except.ok.inj h)
      rw [beq_iff_eq.1 hcomma] at hblank
      cases b with
      | list =>
        obtain ⟨d, first, mid, hfirst, hd, last, ⟨ds, hds⟩, houter⟩ := hnext
        exact ⟨last, ⟨d :: ds, .item hblank hfirst hd hds⟩, houter⟩
      | object =>
        obtain ⟨name, d, first, mid, hfirst, hm, last, ⟨ms, hms⟩, houter⟩ := hnext
        exact ⟨last, ⟨(name, d) :: ms, .member hblank hfirst hm hms⟩, houter⟩

theorem skipStep_opened_closer (h : Skips cs (b.closer :: later)) :
    skipStep (.opened b outer) cs = .ok (Expecting.afterValue? outer, later) := by
  have hcs : skipBlank cs = b.closer :: later := h.skipBlank_eq (by cases b <;> exact stops_cons.2 rfl)
  simp only [skipStep, hcs, BEq.rfl, if_true]

theorem skipStep_separator_closer (h : Skips cs (b.closer :: later)) :
    skipStep (.separator b outer) cs = .ok (Expecting.afterValue? outer, later) := by
  have hcs : skipBlank cs = b.closer :: later := h.skipBlank_eq (by cases b <;> exact stops_cons.2 rfl)
  simp only [skipStep, hcs, BEq.rfl, if_true]

theorem skipStep_separator_comma (h : Skips cs (',' :: later)) :
    skipStep (.separator b outer) cs = .ok (some (Expecting.afterComma b outer), later) := by
  have hcs : skipBlank cs = ',' :: later := h.skipBlank_eq (stops_cons.2 rfl)
  simp only [skipStep, hcs]
  cases b <;> rfl

/-- **What is expected can be gone into by a step**, if no number goes on behind it. -/
theorem skipStep_of_meets (h : Meets expecting cs rest) (hrest : Stops isNumeralPart rest) :
    ∃ next later, skipStep expecting cs = .ok (next, later) ∧ MeetsNext next later rest := by
  match expecting, h with
  | .value brackets, ⟨d, first, behind, hblank, hd, hclose⟩ =>
    rw [skipStep, hblank.skipBlank_eq hd.stops]
    exact skipItem_of_spells hd hclose hrest
  | .name outer, ⟨name, d, first, behind, hblank, hm, hclose⟩ =>
    rw [skipStep, hblank.skipBlank_eq hm.stops]
    exact skipName_of_spellsMember hm hclose
  | .opened .list outer, .inl ⟨later, hclose, houter⟩ =>
    exact ⟨_, later, skipStep_opened_closer hclose, meetsNext_afterValue?.2 houter⟩
  | .opened .object outer, .inl ⟨later, hclose, houter⟩ =>
    exact ⟨_, later, skipStep_opened_closer hclose, meetsNext_afterValue?.2 houter⟩
  | .opened .list outer, .inr ⟨d, first, behind, hblank, hd, hclose⟩ =>
    obtain ⟨c, v, rfl, hc⟩ := hd.exists_cons
    have hopen : ¬ (c == Bracket.list.closer) = true := by
      rintro hc'
      rw [beq_iff_eq.1 hc'] at hc
      cases hc
    simp only [skipStep, hblank.skipBlank_eq hd.stops, if_neg hopen]
    exact skipItem_of_spells hd hclose hrest
  | .opened .object outer, .inr ⟨name, d, first, behind, hblank, hm, hclose⟩ =>
    obtain ⟨next, later, hname, hnext⟩ := skipName_of_spellsMember hm hclose
    refine ⟨next, later, ?_, hnext⟩
    cases hm with
    | mk =>
      simp only [skipStep, hblank.skipBlank_eq (stops_cons.2 rfl)]
      exact hname
  | .separator .list outer, ⟨later, ⟨ds, hds⟩, houter⟩ =>
    cases hds with
    | close hclose =>
      exact ⟨_, later, skipStep_separator_closer hclose, meetsNext_afterValue?.2 houter⟩
    | item hcomma hblank hd hds =>
      exact ⟨_, _, skipStep_separator_comma hcomma, _, _, _, hblank, hd, later, ⟨_, hds⟩, houter⟩
  | .separator .object outer, ⟨later, ⟨ms, hms⟩, houter⟩ =>
    cases hms with
    | close hclose =>
      exact ⟨_, later, skipStep_separator_closer hclose, meetsNext_afterValue?.2 houter⟩
    | member hcomma hblank hm hms =>
      exact ⟨_, _, skipStep_separator_comma hcomma, _, _, _, _, hblank, hm, later, ⟨_, hms⟩, houter⟩

/-! ## All steps -/

theorem meets_of_skipFrom (h : skipFrom expecting cs = .ok rest) : Meets expecting cs rest := by
  fun_induction skipFrom expecting cs with
  | case1 => cases h
  | case2 expecting cs later hstep => exact meets_of_skipStep hstep (Except.ok.inj h)
  | case3 expecting cs later next hstep ih => exact meets_of_skipStep hstep (ih h)

theorem skipFrom_of_meets (h : Meets expecting cs rest) (hrest : Stops isNumeralPart rest) :
    skipFrom expecting cs = .ok rest := by
  obtain ⟨next, later, hstep, hnext⟩ := skipStep_of_meets h hrest
  fun_induction skipFrom expecting cs generalizing next later with
  | case1 expecting cs fault hfault => cases hfault.symm.trans hstep
  | case2 expecting cs later' hstep' =>
    obtain ⟨rfl, rfl⟩ := Prod.mk.inj (Except.ok.inj (hstep'.symm.trans hstep))
    exact congrArg Except.ok hnext
  | case3 expecting cs later' next' hstep' ih =>
    obtain ⟨rfl, rfl⟩ := Prod.mk.inj (Except.ok.inj (hstep'.symm.trans hstep))
    obtain ⟨next, later, hstep, hnext'⟩ := skipStep_of_meets hnext hrest
    exact ih hnext next later hstep hnext'

end Steps

section Values
variable {d : Datum} {cs first rest : List Char}

/-- **What is skipped is a value.** -/
theorem spells_of_skipValue (h : skipValue cs = .ok rest) :
    ∃ d first, Skips cs first ∧ Spells d first rest := by
  obtain ⟨d, first, later, hblank, hd, hlater⟩ := meets_of_skipFrom h
  exact ⟨d, first, hblank, hlater ▸ hd⟩

/-- **Every value is skipped**, if no number goes on behind it. -/
theorem skipValue_of_spells (hblank : Skips cs first) (hd : Spells d first rest)
    (hrest : Stops isNumeralPart rest) : skipValue cs = .ok rest :=
  skipFrom_of_meets ⟨d, first, rest, hblank, hd, rfl⟩ hrest

end Values

end TokenDump.Json
