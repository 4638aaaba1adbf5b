import TokenDump.Proofs.Json.Slots

/-!
# Reading records

A record is read in one pass over its text, and it is what the tree of that text means as a record
(`Record.read_eq_ok_iff`). The two loops, over the members of an object and over the items of a list,
are each taken in both directions: what they read describes the record they end with, and what
describes a record is read to the end. In an object that rests on the step that one member takes
(`changes_of_readMember`, `readMember_of_changes`).
-/

namespace TokenDump.Json
open Text

/-! ## Reading members -/

/-- A member starts behind the opening quote of its name, with a comma in front unless it is the first. -/
def MemberStart : Bool → List Char → List Char → Prop
  | true, cs, start => Skips cs ('"' :: start)
  | false, cs, start => ∃ behind, Skips cs (',' :: behind) ∧ Skips behind ('"' :: start)

/-- The members of an object that are left, the first of them told apart. -/
def MembersFrom : Bool → List (List Nat × Datum) → List Char → List Char → Prop
  | _, [], cs, rest => Skips cs ('\x7d' :: rest)
  | first, (name, d) :: ms, cs, rest => ∃ start later, MemberStart first cs start ∧
      SpellsMember name d ('"' :: start) later ∧ MembersFrom false ms later rest

section Reading
variable {α : Type} {first : Bool} {ms : List (List Nat × Datum)} {cs start later rest : List Char}

theorem membersFrom_false : MembersFrom false ms cs rest ↔ SpellsMembers ms cs rest := by
  induction ms generalizing cs with
  | nil =>
    refine ⟨.close, fun h => ?_⟩
    cases h with
    | close h => exact h
  | cons m ms ih =>
    constructor
    · rintro ⟨start, later, ⟨behind, hcomma, hblank⟩, hm, hms⟩
      exact .member hcomma hblank hm (ih.1 hms)
    · intro h
      cases h with
      | member hcomma hblank hm hms =>
        cases hm with
        | mk hname hcolon hblank' hd =>
          exact ⟨_, _, ⟨_, hcomma, hblank⟩, .mk hname hcolon hblank' hd, ih.2 hms⟩

theorem spells_object_iff : Spells (.object ms) ('\x7b' :: cs) rest ↔ MembersFrom true ms cs rest := by
  constructor
  · intro h
    cases h with
    | emptyObject h => exact h
    | object hblank hm hms =>
      cases hm with
      | mk hname hcolon hblank' hd =>
        exact ⟨_, _, hblank, .mk hname hcolon hblank' hd, membersFrom_false.2 hms⟩
  · intro h
    cases ms with
    | nil => exact .emptyObject h
    | cons m ms =>
      obtain ⟨start, later, hblank, hm, hms⟩ := h
      exact .object hblank hm (membersFrom_false.1 hms)

theorem nextMember_closed_iff : nextMember first cs = .ok (.closed rest) ↔
    Skips cs ('\x7d' :: rest) := by
  have hblank := skips_skipBlank cs
  constructor
  · intro h
    unfold nextMember at h
    split at h
    · cases h
    · next behind hcs =>
      cases h
      exact hcs ▸ hblank
    · split_ifs at h
      · cases h
      · split at h <;> cases h
  · intro h
    rw [nextMember, h.skipBlank_eq (stops_cons.2 rfl)]
    rfl

theorem memberStart_of_nextMember (h : nextMember first cs = .ok (.another start)) :
    MemberStart first cs start := by
  have hblank := skips_skipBlank cs
  unfold nextMember at h
  split at h
  · cases h
  · cases h
  · next c behind _ hcs =>
    rw [hcs] at hblank
    cases first with
    | true =>
      rw [if_pos rfl] at h
      split_ifs at h with hquote
      cases h
      rwa [beq_iff_eq.1 hquote] at hblank
    | false =>
      rw [if_neg Bool.false_ne_true] at h
      split_ifs at h with hcomma
      have hblank' := skips_skipBlank behind
      rw [beq_iff_eq.1 hcomma] at hblank
      split at h
      · cases h
      · next behind' hcs' =>
        cases h
        exact ⟨_, hblank, hcs' ▸ hblank'⟩
      · cases h
      · cases h

theorem nextMember_of_memberStart (h : MemberStart first cs start) :
    nextMember first cs = .ok (.another start) := by
  cases first with
  | true =>
    rw [nextMember, h.skipBlank_eq (stops_cons.2 rfl)]
    rfl
  | false =>
    obtain ⟨behind, hcomma, hquote⟩ := h
    rw [nextMember, hcomma.skipBlank_eq (stops_cons.2 rfl)]
    split
    · next h => cases h
    · next h => cases h
    · next h =>
      obtain ⟨rfl, rfl⟩ := List.cons.inj h
      simp only [Bool.false_eq_true, if_false, beq_self_eq_true, if_true,
        hquote.skipBlank_eq (stops_cons.2 rfl)]

variable {slots : List (Slot α)} {unset a b : α} {seen : List String} {name : String} {d : Datum}
  {change : α → α}

theorem find?_field (slots : List (Slot α)) (name : String) :
    (slots.map Slot.field).find? (·.name == name) =
      (slots.find? (·.name == name)).map Slot.field := by
  rw [List.find?_map]
  rfl

theorem Slot.field_read_iff {s : Slot α} : s.field.read cs = .ok (change, rest) ↔
    ∃ d first v, Skips cs first ∧ Spells d first rest ∧ optional? s.decode? d = some v ∧
      change = s.set v := by
  have hread : s.field.read cs = readOptional s.read cs >>= fun (v, rest) => .ok (s.set v, rest) := rfl
  rw [hread, bind_eq_ok]
  constructor
  · rintro ⟨⟨v, rest⟩, hv, h⟩
    obtain ⟨rfl, rfl⟩ := Prod.mk.inj (Except.ok.inj h)
    obtain ⟨d, first, hblank, hd, hdecode⟩ := (s.reads.optional _ _ _).1 hv
    exact ⟨d, first, v, hblank, hd, hdecode, rfl⟩
  · rintro ⟨d, first, v, hblank, hd, hdecode, rfl⟩
    exact ⟨(v, rest), (s.reads.optional _ _ _).2 ⟨d, first, hblank, hd, hdecode⟩, rfl⟩

/-- A member that is read is one that changes the record. -/
theorem changes_of_readMember
    (h : readMember (slots.map Slot.field) seen first cs = .ok (some (name, change), later)) :
    ∃ start d, MemberStart first cs start ∧ SpellsMember (units name) d ('"' :: start) later ∧
      Slot.Changes slots seen name d change := by
  simp only [readMember, bind_eq_ok] at h
  obtain ⟨turn, hturn, h⟩ := h
  cases turn with
  | closed => cases h
  | another start =>
    have hstart := memberStart_of_nextMember hturn
    simp only [bind_eq_ok, Prod.exists, find?_field] at h
    obtain ⟨name', afterName, hname, h⟩ := h
    have hname := readString_eq_ok_iff.1 hname
    cases hfind : slots.find? (·.name == name') with
    | none =>
      simp only [hfind, Option.map_none, bind_eq_ok] at h
      obtain ⟨afterColon, hcolon, afterValue, hvalue, h⟩ := h
      cases h
      obtain ⟨d, behind, hblank, hd⟩ := spells_of_skipValue hvalue
      refine ⟨start, d, hstart, .mk hname (skipColon_eq_ok_iff.1 hcolon) hblank hd, .other ?_⟩
      simpa using hfind
    | some s =>
      simp only [hfind, Option.map_some] at h
      split_ifs at h with hseen
      simp only [bind_eq_ok, Prod.exists] at h
      obtain ⟨afterColon, hcolon, change', afterValue, hvalue, h⟩ := h
      cases h
      obtain ⟨d, behind, v, hblank, hd, hdecode, rfl⟩ := Slot.field_read_iff.1 hvalue
      exact ⟨start, d, hstart, .mk hname (skipColon_eq_ok_iff.1 hcolon) hblank hd,
        .known (List.mem_of_find?_eq_some hfind) (by simpa using List.find?_some hfind)
          (by simpa using hseen) hdecode⟩

theorem readMember_of_changes (hc : Slot.Complete slots unset) (hstart : MemberStart first cs start)
    (hm : SpellsMember (units name) d ('"' :: start) later) (hchange : Slot.Changes slots seen name d change)
    (hlater : Stops isNumeralPart later) :
    readMember (slots.map Slot.field) seen first cs = .ok (some (name, change), later) := by
  cases hm with
  | mk hname hcolon hblank hd =>
    simp only [readMember, bind_eq_ok]
    refine ⟨.another start, nextMember_of_memberStart hstart, ?_⟩
    simp only [bind_eq_ok, Prod.exists, find?_field]
    refine ⟨name, _, readString_eq_ok_iff.2 hname, ?_⟩
    cases hchange with
    | other h =>
      have hfind : slots.find? (·.name == name) = none := by simpa using h
      simp only [hfind, Option.map_none, bind_eq_ok]
      exact ⟨_, skipColon_eq_ok_iff.2 hcolon, _, skipValue_of_spells hblank hd hlater, rfl⟩
    | @known s v hs hsname hseen hv =>
      have hfind := hc.find?_eq hs hsname
      have hseen' : ¬ seen.contains name = true := by simpa using hseen
      simp only [hfind, Option.map_some, if_neg hseen', bind_eq_ok, Prod.exists]
      exact ⟨_, skipColon_eq_ok_iff.2 hcolon, _, _,
        Slot.field_read_iff.2 ⟨d, _, v, hblank, hd, hv, rfl⟩, rfl⟩

theorem readMember_none_iff : readMember (slots.map Slot.field) seen first cs = .ok (none, rest) ↔
    Skips cs ('\x7d' :: rest) := by
  have hclosed : nextMember first cs = .ok (.closed rest) ↔ Skips cs ('\x7d' :: rest) :=
    nextMember_closed_iff
  rw [← hclosed]
  simp only [readMember, bind_eq_ok]
  constructor
  · rintro ⟨turn, hturn, h⟩
    cases turn with
    | closed rest' =>
      cases h
      exact hturn
    | another start =>
      simp only [bind_eq_ok, Prod.exists] at h
      obtain ⟨name, later, -, h⟩ := h
      -- A member that starts is never the end of the object.
      split at h
      · simp only [bind_eq_ok] at h
        obtain ⟨_, -, _, -, h⟩ := h
        cases h
      · split_ifs at h
        simp only [bind_eq_ok, Prod.exists] at h
        obtain ⟨_, -, _, _, -, h⟩ := h
        cases h
  · intro h
    exact ⟨_, h, rfl⟩

theorem named?_cons_iff {us : List Nat} {named : List (String × Datum)} :
    named? ((us, d) :: ms) = some named ↔
      ∃ name later, us = units name ∧ named? ms = some later ∧ named = (name, d) :: later := by
  simp only [named?, List.mapM_cons, Option.bind_eq_bind, Option.bind_eq_some_iff, Option.map_eq_some_iff,
    text?_eq_some_iff, Option.pure_def, Option.some.injEq]
  constructor
  · rintro ⟨m, ⟨name, rfl, rfl⟩, later, hlater, rfl⟩
    exact ⟨name, later, rfl, hlater, rfl⟩
  · rintro ⟨name, later, rfl, hlater, rfl⟩
    exact ⟨_, ⟨name, rfl, rfl⟩, later, hlater, rfl⟩

theorem settlesAll_of_readMembers (hc : Slot.Complete slots unset) (hfresh : Slot.Fresh slots seen a)
    (h : readMembers (slots.map Slot.field) seen a cs = .ok (b, rest)) : ∃ ms named,
      MembersFrom seen.isEmpty ms cs rest ∧ named? ms = some named ∧
        Slot.SettlesAll slots seen named a b := by
  fun_induction readMembers (slots.map Slot.field) seen a cs with
  | case1 => cases h
  | case2 seen a cs later hm =>
    cases h
    exact ⟨[], [], readMember_none_iff.1 hm, rfl, (Slot.settlesAll_nil hc hfresh).2 rfl⟩
  | case3 seen a cs name change later hm ih =>
    obtain ⟨start, d, hstart, hmember, hchange⟩ := changes_of_readMember hm
    obtain ⟨ms, named, hms, hnamed, hall⟩ := ih (hfresh.changes hc hchange) h
    exact ⟨(units name, d) :: ms, (name, d) :: named, ⟨start, later, hstart, hmember, hms⟩,
      named?_cons_iff.2 ⟨name, named, rfl, hnamed, rfl⟩,
      (Slot.settlesAll_cons hc).2 ⟨change, hchange, hall⟩⟩

theorem readMembers_of_settlesAll (hc : Slot.Complete slots unset) (hfresh : Slot.Fresh slots seen a)
    {named : List (String × Datum)} (hms : MembersFrom seen.isEmpty ms cs rest)
    (hnamed : named? ms = some named) (hall : Slot.SettlesAll slots seen named a b) :
    readMembers (slots.map Slot.field) seen a cs = .ok (b, rest) := by
  induction ms generalizing seen a cs named with
  | nil =>
    obtain rfl := Option.some.inj hnamed
    obtain rfl := (Slot.settlesAll_nil hc hfresh).1 hall
    have hread : readMember (slots.map Slot.field) seen seen.isEmpty cs = .ok (none, rest) :=
      readMember_none_iff.2 hms
    rw [readMembers]
    split
    · next h => cases h.symm.trans hread
    · next h =>
      cases h.symm.trans hread
      rfl
    · next h => cases h.symm.trans hread
  | cons m ms ih =>
    obtain ⟨start, later, hstart, hm, hms⟩ := hms
    obtain ⟨name, named, hname, hlaterNamed, rfl⟩ := named?_cons_iff.1 hnamed
    obtain ⟨change, hchange, hall⟩ := (Slot.settlesAll_cons hc).1 hall
    rw [hname] at hm
    have hlater : Stops isNumeralPart later := (membersFrom_false.1 hms).stops
    have hread := readMember_of_changes hc hstart hm hchange hlater
    have hmembers := ih (hfresh.changes hc hchange) hms hlaterNamed hall
    rw [readMembers]
    split
    · next h => cases h.symm.trans hread
    · next h => cases h.symm.trans hread
    · next h =>
      cases h.symm.trans hread
      exact hmembers

end Reading

/-! ## Reading lists -/

/-- An item of a list starts behind a comma unless it is the first. -/
def ItemStart : Bool → List Char → List Char → Prop
  | true, cs, behind => cs = behind
  | false, cs, behind => Skips cs (',' :: behind)

/-- The items of a list that are left, the first of them told apart. -/
def ItemsFrom : Bool → List Datum → List Char → List Char → Prop
  | _, [], cs, rest => Skips cs (']' :: rest)
  | first, d :: ds, cs, rest => ∃ behind start later, ItemStart first cs behind ∧ Skips behind start ∧
      Spells d start later ∧ ItemsFrom false ds later rest

section Lists
variable {α : Type} {first : Bool} {d : Datum} {ds : List Datum} {cs behind start later rest : List Char}

theorem itemsFrom_false : ItemsFrom false ds cs rest ↔ SpellsItems ds cs rest := by
  induction ds generalizing cs with
  | nil =>
    refine ⟨.close, fun h => ?_⟩
    cases h with
    | close h => exact h
  | cons d ds ih =>
    constructor
    · rintro ⟨behind, start, later, hcomma, hblank, hd, hds⟩
      exact .item hcomma hblank hd (ih.1 hds)
    · intro h
      cases h with
      | item hcomma hblank hd hds => exact ⟨_, _, _, hcomma, hblank, hd, ih.2 hds⟩

theorem spells_array_iff : Spells (.array ds) ('[' :: cs) rest ↔ ItemsFrom true ds cs rest := by
  constructor
  · intro h
    cases h with
    | emptyArray h => exact h
    | array hblank hd hds => exact ⟨_, _, _, rfl, hblank, hd, itemsFrom_false.2 hds⟩
  · intro h
    cases ds with
    | nil => exact .emptyArray h
    | cons d ds =>
      obtain ⟨behind, start, later, rfl, hblank, hd, hds⟩ := h
      exact .array hblank hd (itemsFrom_false.1 hds)

theorem itemStart_of_nextElement (h : nextElement first cs = .ok (.another start)) :
    ∃ behind, ItemStart first cs behind ∧ Skips behind start := by
  have hblank := skips_skipBlank cs
  unfold nextElement at h
  split at h
  · cases h
  · cases h
  · next c later _ hcs =>
    cases first with
    | true =>
      cases h
      exact ⟨cs, rfl, hcs ▸ hblank⟩
    | false =>
      rw [if_neg Bool.false_ne_true] at h
      split_ifs at h with hcomma
      rw [hcs, beq_iff_eq.1 hcomma] at hblank
      have hblank' := skips_skipBlank later
      split at h
      · cases h
      · cases h
      · cases h
        exact ⟨later, hblank, hblank'⟩

theorem nextElement_of_itemStart (hstart : ItemStart first cs behind) (hblank : Skips behind start)
    (hd : Spells d start later) : nextElement first cs = .ok (.another start) := by
  obtain ⟨c, v, rfl, hc⟩ := hd.exists_cons
  have hbehind := hblank.skipBlank_eq hd.stops
  have hclose : c ≠ ']' := by
    rintro rfl
    cases hc
  cases first with
  | true =>
    obtain rfl := hstart
    rw [nextElement, hbehind]
    split
    · next h => cases h
    · next h => exact absurd (List.cons.inj h).1 hclose
    · next h =>
      rw [← h]
      rfl
  | false =>
    rw [nextElement, hstart.skipBlank_eq (stops_cons.2 rfl)]
    split
    · next h => cases h
    · next h => cases h
    · next h =>
      obtain ⟨rfl, rfl⟩ := List.cons.inj h
      simp only [Bool.false_eq_true, if_false, beq_self_eq_true, if_true, hbehind]
      split
      · next h => cases h
      · next h => exact absurd (List.cons.inj h).1 hclose
      · rfl

theorem endList_eq_ok_iff : endList cs = .ok rest ↔ Skips cs (']' :: rest) := by
  have hblank := skips_skipBlank cs
  constructor
  · intro h
    unfold endList at h
    split at h
    · cases h
    · next behind hcs =>
      cases h
      exact hcs ▸ hblank
    · split at h <;> cases h
    · cases h
  · intro h
    rw [endList, h.skipBlank_eq (stops_cons.2 rfl)]
    rfl

variable {slots : List (Slot α)} {unset a b : α} {expected : String} {index : Nat}

theorem fills_of_readElements
    (h : readElements expected index a (slots.map Slot.field) cs = .ok (b, rest)) :
    ∃ ds, ItemsFrom (index == 0) ds cs rest ∧ Slot.Fills slots ds a b := by
  induction slots generalizing index a cs with
  | nil =>
    rw [List.map_nil, readElements, bind_eq_ok] at h
    obtain ⟨later, hend, h⟩ := h
    cases h
    exact ⟨[], endList_eq_ok_iff.1 hend, rfl⟩
  | cons s slots ih =>
    rw [List.map_cons, readElements, bind_eq_ok] at h
    obtain ⟨turn, hturn, h⟩ := h
    cases turn with
    | closed => cases h
    | another start =>
      rw [bind_eq_ok] at h
      obtain ⟨⟨change, later⟩, hread, h⟩ := h
      obtain ⟨behind, hstart, hblank⟩ := itemStart_of_nextElement hturn
      obtain ⟨d, first, v, hfirst, hd, hv, rfl⟩ := Slot.field_read_iff.1 hread
      obtain ⟨ds, hds, hfills⟩ := ih h
      exact ⟨d :: ds, ⟨behind, first, later, hstart, hblank.trans hfirst, hd, hds⟩, v, hv, hfills⟩

theorem readElements_of_fills (hds : ItemsFrom (index == 0) ds cs rest)
    (h : Slot.Fills slots ds a b) :
    readElements expected index a (slots.map Slot.field) cs = .ok (b, rest) := by
  induction slots generalizing index a cs ds with
  | nil =>
    cases ds with
    | nil =>
      obtain rfl : a = b := h
      rw [List.map_nil, readElements, endList_eq_ok_iff.2 hds]
      rfl
    | cons => exact h.elim
  | cons s slots ih =>
    cases ds with
    | nil => exact h.elim
    | cons d ds =>
      obtain ⟨behind, start, later, hstart, hblank, hd, hds⟩ := hds
      obtain ⟨v, hv, hfills⟩ := h
      rw [List.map_cons, readElements, bind_eq_ok]
      refine ⟨_, nextElement_of_itemStart hstart hblank hd, ?_⟩
      exact bind_eq_ok.2 ⟨(s.set v, later),
        Slot.field_read_iff.2 ⟨d, start, v, skips_self, hd, hv, rfl⟩, ih hds hfills⟩

end Lists

/-! ## Records -/

theorem Spells.exists_array {ds : List Datum} {cs rest : List Char} (h : Spells (.array ds) cs rest) :
    ∃ behind, cs = '[' :: behind := by
  cases h with
  | emptyArray | array => exact ⟨_, rfl⟩

theorem Spells.exists_object {ms : List (List Nat × Datum)} {cs rest : List Char}
    (h : Spells (.object ms) cs rest) : ∃ behind, cs = '\x7b' :: behind := by
  cases h with
  | emptyObject | object => exact ⟨_, rfl⟩

section Records
variable {α : Type} {r : Record α} {slots : List (Slot α)} {a : α} {cs rest : List Char}

/-- **A record is read exactly where a tree is spelled that describes it.** -/
theorem Record.read_eq_ok_iff (hfields : r.fields = slots.map Slot.field)
    (hc : Slot.Complete slots r.unset) : r.read cs = .ok (a, rest) ↔
      ∃ d first, Skips cs first ∧ Spells d first rest ∧ Slot.Describes slots r.unset d a := by
  constructor
  · intro h
    have hblank := skips_skipBlank cs
    unfold Record.read at h
    split at h
    · cases h
    · next behind hcs =>
      rw [hfields] at h
      rw [hcs] at hblank
      obtain ⟨ds, hds, hfills⟩ := fills_of_readElements h
      exact ⟨.array ds, _, hblank, spells_array_iff.2 hds, hfills⟩
    · next behind hcs =>
      rw [hfields] at h
      rw [hcs] at hblank
      obtain ⟨ms, named, hms, hnamed, hall⟩ := settlesAll_of_readMembers hc hc.fresh h
      exact ⟨.object ms, _, hblank, spells_object_iff.2 hms, named, hnamed,
        Slot.settlesAll_start.1 hall⟩
    · cases h
  · rintro ⟨d, first, hblank, hd, h⟩
    match d, h with
    | .array ds, h =>
      obtain ⟨behind, rfl⟩ := hd.exists_array
      rw [Record.read, hblank.skipBlank_eq hd.stops, hfields]
      exact readElements_of_fills (spells_array_iff.1 hd) h
    | .object ms, ⟨named, hnamed, hall⟩ =>
      obtain ⟨behind, rfl⟩ := hd.exists_object
      rw [Record.read, hblank.skipBlank_eq hd.stops, hfields]
      exact readMembers_of_settlesAll hc hc.fresh (spells_object_iff.1 hd) hnamed
        (Slot.settlesAll_start.2 hall)

/-- A record is read as what its tree decodes to. -/
theorem reads_record {decode? : Datum → Option α} (hfields : r.fields = slots.map Slot.field)
    (hc : Slot.Complete slots r.unset)
    (hdecode : ∀ d a, decode? d = some a ↔ Slot.Describes slots r.unset d a) :
    Reads r.read decode? := by
  intro cs a rest
  simp only [hdecode]
  exact Record.read_eq_ok_iff hfields hc

end Records

end TokenDump.Json
