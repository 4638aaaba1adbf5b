import TokenDump.Json.Record
import TokenDump.Proofs.Json.Skipping

/-!
# Records as trees

What a tree means as a record is said by its slots (`Slot.Describes`): each field is set by the only
member of its name, or by the item in its place. A reader meets the members of an object one by one and
in any order, so that in between each slot is in one of two states: its member has been seen and may
not come again, or it has not and the slot is unset. `Slot.Settles` says what that leaves open for
a slot, and one member takes a step in it (`Slot.settlesAll_cons`).
-/

namespace TokenDump.Json
open Text

/-! ## Decoding -/

section Decoding
variable {β : Type}

/-- `null` as none, and any other value decoded. -/
def optional? (decode? : Datum → Option β) : Datum → Option (Option β)
  | .null => some none
  | d => (decode? d).map some

/-- The members of an object with their names as texts, if all of them are texts. -/
def named? (members : List (List Nat × Datum)) : Option (List (String × Datum)) :=
  members.mapM fun m => (text? m.1).map (·, m.2)

/-- The value of the only member of a name, none if there is no such member. -/
def member? (members : List (String × Datum)) (name : String) (decode? : Datum → Option β) :
    Option (Option β) :=
  match members.filter (·.1 == name) with
  | [] => some none
  | [m] => optional? decode? m.2
  | _ => none

/-- A reader reads the values that decode, as what they decode to. -/
def Reads (read : Reader β) (decode? : Datum → Option β) : Prop :=
  ∀ cs b rest, read cs = .ok (b, rest) ↔
    ∃ d first, Skips cs first ∧ Spells d first rest ∧ decode? d = some b

theorem optional?_of_ne {decode? : Datum → Option β} {d : Datum} (h : d ≠ .null) :
    optional? decode? d = (decode? d).map some := by
  cases d with
  | null => exact absurd rfl h
  | _ => rfl

end Decoding

/-! ## Optional values -/

section Optional
variable {β : Type} {read : Reader β} {decode? : Datum → Option β} {d : Datum}
  {cs behind first rest : List Char}

theorem Skips.trans (h : Skips cs behind) (h' : Skips behind first) : Skips cs first := by
  obtain ⟨w, hw, rfl⟩ := h
  obtain ⟨w', hw', rfl⟩ := h'
  exact ⟨w ++ w', List.forall_mem_append.2 ⟨hw, hw'⟩, (List.append_assoc _ _ _).symm⟩

theorem Spells.eq_null (h : Spells d ('n' :: cs) rest) : d = .null ∧ cs = 'u' :: 'l' :: 'l' :: rest := by
  cases h with
  | null => exact ⟨rfl, rfl⟩
  | number h hcs => exact absurd hcs (h.ne_cons rfl (by decide))

theorem readOptional_null (h : skipBlank cs = 'n' :: behind) :
    readOptional read cs = skipWord ['u', 'l', 'l'] behind >>= fun rest => .ok (none, rest) := by
  rw [readOptional, h]
  rfl

theorem readOptional_value (h : ∀ behind, skipBlank cs ≠ 'n' :: behind) :
    readOptional read cs = read (skipBlank cs) >>= fun (b, rest) => .ok (some b, rest) := by
  rw [readOptional]
  split
  · next behind hcs => exact absurd hcs (h behind)
  · rfl

theorem Reads.optional (h : Reads read decode?) : Reads (readOptional read) (optional? decode?) := by
  intro cs b rest
  constructor
  · intro hread
    by_cases hnull : ∃ behind, skipBlank cs = 'n' :: behind
    · obtain ⟨behind, hcs⟩ := hnull
      have hblank := skips_skipBlank cs
      rw [readOptional_null hcs, bind_eq_ok] at hread
      obtain ⟨rest, hword, hread⟩ := hread
      obtain ⟨rfl, rfl⟩ := Prod.mk.inj (Except.ok.inj hread)
      rw [hcs, skipWord_eq_ok_iff.1 hword] at hblank
      exact ⟨.null, _, hblank, .null, rfl⟩
    · rw [not_exists] at hnull
      rw [readOptional_value hnull, bind_eq_ok] at hread
      obtain ⟨⟨b, rest⟩, hvalue, hread⟩ := hread
      obtain ⟨rfl, rfl⟩ := Prod.mk.inj (Except.ok.inj hread)
      obtain ⟨d, first, hblank, hd, hdecode⟩ := (h _ _ _).1 hvalue
      have hne : d ≠ .null := by
        rintro rfl
        have hfirst := hblank.unique skips_self hd.stops (stops_skipBlank cs)
        cases hd with
        | null => exact hnull _ hfirst.symm
      refine ⟨d, first, (skips_skipBlank cs).trans hblank, hd, ?_⟩
      rw [optional?_of_ne hne, hdecode]
      rfl
  · rintro ⟨d, first, hblank, hd, hdecode⟩
    have hcs := hblank.skipBlank_eq hd.stops
    by_cases hnull : d = .null
    · subst hnull
      cases hd with
      | null =>
        rw [readOptional_null hcs, ← Option.some.inj hdecode]
        rfl
    · rw [optional?_of_ne hnull] at hdecode
      obtain ⟨b, hvalue, rfl⟩ := Option.map_eq_some_iff.1 hdecode
      have hblank' : Skips (skipBlank cs) first := hcs ▸ skips_self
      rw [readOptional_value, (h (skipBlank cs) b rest).2 ⟨d, first, hblank', hd, hvalue⟩]
      · rfl
      · intro behind hbehind
        rw [hcs] at hbehind
        rw [hbehind] at hd
        exact hnull hd.eq_null.1

end Optional

/-! ## Fields -/

/-- A field that sets an optional part of a record, and what its values mean. -/
structure Slot (α : Type) where
  Part : Type
  name : String
  read : Reader Part
  decode? : Datum → Option Part
  get : α → Option Part
  set : Option Part → α → α
  length_le : ∀ {cs b rest}, read cs = .ok (b, rest) → rest.length ≤ cs.length
  reads : Reads read decode?
  get_set : ∀ v a, get (set v a) = v

namespace Slot
variable {α : Type}

/-- The field as a record has it. -/
def field (s : Slot α) : Field α := .optional s.name s.read s.set s.length_le

/-- Slots that are the parts of a record, each under a name of its own, and all unset in `unset`. -/
structure Complete (slots : List (Slot α)) (unset : α) : Prop where
  names : (slots.map (·.name)).Nodup
  get_set_of_ne : ∀ s ∈ slots, ∀ t ∈ slots, s.name ≠ t.name → ∀ v a, s.get (t.set v a) = s.get a
  get_unset : ∀ s ∈ slots, s.get unset = none
  ext : ∀ a b, (∀ s ∈ slots, s.get a = s.get b) → a = b

/-- The items of a list set the slots in turn, and make `b` of `a`. -/
def Fills : List (Slot α) → List Datum → α → α → Prop
  | [], [], a, b => a = b
  | s :: slots, d :: ds, a, b => ∃ v, optional? s.decode? d = some v ∧ Fills slots ds (s.set v a) b
  | _, _, _, _ => False

/-- **What a tree means as a record**: the members of an object by their names, or the items of a list
by their places. -/
def Describes (slots : List (Slot α)) (unset : α) : Datum → α → Prop
  | .object members, a => ∃ named, named? members = some named ∧
      ∀ s ∈ slots, member? named s.name s.decode? = some (s.get a)
  | .array items, a => Fills slots items unset a
  | _, _ => False

theorem Fills.length_eq {slots : List (Slot α)} {ds : List Datum} {a b : α}
    (h : Fills slots ds a b) : slots.length = ds.length := by
  induction slots generalizing ds a with
  | nil =>
    cases ds with
    | nil => rfl
    | cons => exact h.elim
  | cons s slots ih =>
    cases ds with
    | nil => exact h.elim
    | cons d ds =>
      obtain ⟨v, -, hfills⟩ := h
      rw [List.length_cons, List.length_cons, ih hfills]

/-- Only objects, and lists with an item for every slot, are records. -/
theorem not_describes {slots : List (Slot α)} {unset a : α} {d : Datum}
    (hobject : ∀ members, d ≠ .object members)
    (harray : ∀ items, items.length = slots.length → d ≠ .array items) :
    ¬ Describes slots unset d a := by
  intro h
  cases d with
  | object members => exact hobject members rfl
  | array items => exact harray items (Fills.length_eq h).symm rfl
  | _ => exact h

/-! ## The members of an object -/

/-- What the members that are left mean for a slot, once some names have been seen: a slot that has been set
stays as it is, and any other becomes what its only member says. -/
def Settles (s : Slot α) (seen : List String) (named : List (String × Datum)) (a b : α) : Prop :=
  if s.name ∈ seen then named.filter (·.1 == s.name) = [] ∧ s.get b = s.get a
  else member? named s.name s.decode? = some (s.get b)

/-- What the members that are left mean for all slots. -/
def SettlesAll (slots : List (Slot α)) (seen : List String) (named : List (String × Datum))
    (a b : α) : Prop :=
  ∀ s ∈ slots, s.Settles seen named a b

/-- A slot whose name has not been seen is unset. -/
def Fresh (slots : List (Slot α)) (seen : List String) (a : α) : Prop :=
  ∀ s ∈ slots, s.name ∉ seen → s.get a = none

section Members
variable {slots : List (Slot α)} {unset a b : α} {s t : Slot α} {seen : List String} {name : String}
  {d : Datum} {named : List (String × Datum)} {v : Option s.Part}

theorem settlesAll_nil (h : Complete slots unset) (hfresh : Fresh slots seen a) :
    SettlesAll slots seen [] a b ↔ a = b := by
  constructor
  · intro hall
    refine h.ext a b fun s hs => ?_
    have hsettle := hall s hs
    unfold Settles at hsettle
    split_ifs at hsettle with hseen
    · exact hsettle.2.symm
    · rw [hfresh s hs hseen]
      exact Option.some.inj hsettle
  · rintro rfl s hs
    unfold Settles
    split_ifs with hseen
    · exact ⟨rfl, rfl⟩
    · rw [hfresh s hs hseen]
      rfl

/-- At the start no name has been seen. -/
theorem settlesAll_start : SettlesAll slots [] named a b ↔
    ∀ s ∈ slots, member? named s.name s.decode? = some (s.get b) := by
  simp [SettlesAll, Settles]

theorem Complete.fresh (h : Complete slots unset) : Fresh slots [] unset :=
  fun s hs _ => h.get_unset s hs

/-- A member of another name does not matter for a slot. -/
theorem settles_cons_of_ne (h : s.name ≠ name) :
    s.Settles seen ((name, d) :: named) a b ↔ s.Settles (name :: seen) named a b := by
  have hfilter : ((name, d) :: named).filter (·.1 == s.name) = named.filter (·.1 == s.name) :=
    List.filter_cons_of_neg (by simpa using h.symm)
  have hmem : s.name ∈ name :: seen ↔ s.name ∈ seen := by
    rw [List.mem_cons, or_iff_right h]
  unfold Settles member?
  rw [hfilter]
  simp only [hmem]

/-- A member of a slot's name sets the slot, and may not come again. -/
theorem settles_cons_self (h : s.name = name) : s.Settles seen ((name, d) :: named) a b ↔
    name ∉ seen ∧ ∃ v, optional? s.decode? d = some v ∧
      named.filter (·.1 == s.name) = [] ∧ s.get b = v := by
  have hfilter : ((name, d) :: named).filter (·.1 == s.name) =
      (name, d) :: named.filter (·.1 == s.name) :=
    List.filter_cons_of_pos (by simpa using h.symm)
  unfold Settles member?
  rw [hfilter, h]
  split_ifs with hseen
  · simp [hseen]
  · cases named.filter (·.1 == name) with
    | nil => simp [hseen]
    | cons m ms => simp

theorem Complete.eq_of_name_eq (h : Complete slots unset) (hs : s ∈ slots) (ht : t ∈ slots)
    (hname : s.name = t.name) : s = t :=
  List.inj_on_of_nodup_map h.names hs ht hname

theorem Complete.find?_eq (h : Complete slots unset) (hs : s ∈ slots) (hname : s.name = name) :
    slots.find? (·.name == name) = some s := by
  have hsome : (slots.find? (·.name == name)).isSome = true :=
    List.find?_isSome.2 ⟨s, hs, beq_iff_eq.2 hname⟩
  obtain ⟨t, ht⟩ := Option.isSome_iff_exists.1 hsome
  have htname : t.name = name := by simpa using List.find?_some ht
  rw [ht, h.eq_of_name_eq (List.mem_of_find?_eq_some ht) hs (htname.trans hname.symm)]

theorem settles_congr {a' : α} (h : s.get a' = s.get a) :
    s.Settles seen named a' b ↔ s.Settles seen named a b := by
  unfold Settles
  rw [h]

/-- How one member changes a record. -/
inductive Changes (slots : List (Slot α)) (seen : List String) (name : String) (d : Datum) :
    (α → α) → Prop
  | other (h : ∀ s ∈ slots, s.name ≠ name) : Changes slots seen name d id
  | known {s : Slot α} {v : Option s.Part} (hs : s ∈ slots) (hname : s.name = name)
      (hseen : name ∉ seen) (hv : optional? s.decode? d = some v) : Changes slots seen name d (s.set v)

variable {change : α → α}

theorem Fresh.changes (h : Complete slots unset) (hfresh : Fresh slots seen a)
    (hchange : Changes slots seen name d change) : Fresh slots (name :: seen) (change a) := by
  intro t ht hseen
  rw [List.mem_cons, not_or] at hseen
  cases hchange with
  | other => exact hfresh t ht hseen.2
  | known hs hname =>
    rw [h.get_set_of_ne t ht _ hs (hname ▸ hseen.1)]
    exact hfresh t ht hseen.2

/-- **One member takes a step in what the members mean.** -/
theorem settlesAll_cons (h : Complete slots unset) : SettlesAll slots seen ((name, d) :: named) a b ↔
    ∃ change, Changes slots seen name d change ∧
      SettlesAll slots (name :: seen) named (change a) b := by
  by_cases hknown : ∃ s ∈ slots, s.name = name
  · obtain ⟨s, hs, hname⟩ := hknown
    have hother : ∀ {v} {t : Slot α}, t ∈ slots → t.name ≠ name →
        (t.Settles seen ((name, d) :: named) a b ↔ t.Settles (name :: seen) named (s.set v a) b) := by
      intro v t ht hne
      rw [settles_cons_of_ne hne, settles_congr (h.get_set_of_ne t ht s hs (hname ▸ hne) v a)]
    have heq : ∀ {t : Slot α}, t ∈ slots → t.name = name → t = s := fun ht hname' =>
      h.eq_of_name_eq ht hs (hname'.trans hname.symm)
    constructor
    · intro hall
      obtain ⟨hseen, v, hv, hfilter, hget⟩ := (settles_cons_self hname).1 (hall s hs)
      refine ⟨_, .known hs hname hseen hv, fun t ht => ?_⟩
      by_cases hne : t.name = name
      · obtain rfl := heq ht hne
        rw [Settles, if_pos (by rw [hne]; exact List.mem_cons_self), t.get_set]
        exact ⟨hfilter, hget⟩
      · exact (hother ht hne).1 (hall t ht)
    · rintro ⟨change, hchange, hall⟩ t ht
      cases hchange with
      | other hunknown => exact absurd hname (hunknown s hs)
      | @known s' v hs' hname' hseen hv =>
        obtain rfl := heq hs' hname'
        by_cases hne : t.name = name
        · obtain rfl := heq ht hne
          have hsettle := hall t ht
          rw [Settles, if_pos (by rw [hne]; exact List.mem_cons_self), t.get_set] at hsettle
          exact (settles_cons_self hne).2 ⟨hseen, v, hv, hsettle⟩
        · exact (hother ht hne).2 (hall t ht)
  · have hunknown : ∀ s ∈ slots, s.name ≠ name := fun s hs hname => hknown ⟨s, hs, hname⟩
    constructor
    · intro hall
      exact ⟨id, .other hunknown, fun s hs => (settles_cons_of_ne (hunknown s hs)).1 (hall s hs)⟩
    · rintro ⟨change, hchange, hall⟩ s hs
      cases hchange with
      | other => exact (settles_cons_of_ne (hunknown s hs)).2 (hall s hs)
      | known hs' hname' => exact absurd hname' (hunknown _ hs')

end Members

end Slot

end TokenDump.Json
