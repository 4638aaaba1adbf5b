import TokenDump.Proofs.Json.Grammar

/-!
# Where a value ends

The grammar does not look behind a value: the characters that a value takes spell it wherever they stand
(`Spells.exists_append`). A list or an object ends with its closing bracket, so that it cannot go on
where it seems to be over, and a text that goes on behind one still starts with it and with nothing else
(`Spells.rest_eq_append`).
-/

namespace TokenDump.Json
open Text

/-- The bracket at the end of a list or an object. -/
def Datum.closer? : Datum → Option Char
  | .array _ => some ']'
  | .object _ => some '\x7d'
  | _ => none

theorem closer?_cases {d : Datum} {b : Char} (h : d.closer? = some b) : b = ']' ∨ b = '\x7d' := by
  cases d with
  | array => exact .inl (Option.some.inj h).symm
  | object => exact .inr (Option.some.inj h).symm
  | _ => cases h

theorem not_isBlank_of_closer? {d : Datum} {b : Char} (h : d.closer? = some b) : isBlank b = false := by
  rcases closer?_cases h with rfl | rfl <;> rfl

theorem apart_of_closer? {d : Datum} {b : Char} (h : d.closer? = some b) (rest : List Char) :
    Apart d rest := by
  rintro q rfl
  cases h

/-! ## The characters of a value -/

theorem SpellsString.exists_append {us : List Nat} {cs rest : List Char}
    (h : SpellsString us cs rest) : ∃ v, cs = v ++ rest ∧ ∀ tail, SpellsString us (v ++ tail) tail := by
  induction h with
  | close => exact ⟨['"'], rfl, fun _ => .close⟩
  | @plain c _ _ _ hc _ ih =>
    obtain ⟨v, rfl, hv⟩ := ih
    exact ⟨c :: v, rfl, fun tail => .plain hc (hv tail)⟩
  | @short e _ _ _ _ he _ ih =>
    obtain ⟨v, rfl, hv⟩ := ih
    exact ⟨'\\' :: e :: v, rfl, fun tail => .short he (hv tail)⟩
  | @unit a b c d _ _ _ _ hn _ ih =>
    obtain ⟨v, rfl, hv⟩ := ih
    exact ⟨'\\' :: 'u' :: a :: b :: c :: d :: v, rfl, fun tail => .unit hn (hv tail)⟩

/-- White space and a mark, wherever they stand. -/
theorem Skips.exists_append {c : Char} {cs rest : List Char} (h : Skips cs (c :: rest)) :
    ∃ w, cs = w ++ c :: rest ∧ ∀ tail, Skips (w ++ c :: tail) (c :: tail) := by
  obtain ⟨w, hw, rfl⟩ := h
  exact ⟨w, rfl, fun tail => ⟨w, hw, rfl⟩⟩

mutual

/-- **The characters of a value spell it wherever they stand**, and those of a list or an object end with
its closing bracket. -/
theorem Spells.exists_append {d : Datum} {cs rest : List Char} (h : Spells d cs rest) :
    ∃ v, cs = v ++ rest ∧ (∀ b, d.closer? = some b → [b] <:+ v) ∧ ∀ tail, Spells d (v ++ tail) tail := by
  match h with
  | .null => exact ⟨['n', 'u', 'l', 'l'], rfl, nofun, fun _ => .null⟩
  | .isTrue => exact ⟨['t', 'r', 'u', 'e'], rfl, nofun, fun _ => .isTrue⟩
  | .isFalse => exact ⟨['f', 'a', 'l', 's', 'e'], rfl, nofun, fun _ => .isFalse⟩
  | .number hw hcs => exact ⟨_, hcs, nofun, fun _ => .number hw rfl⟩
  | .string hs =>
    obtain ⟨v, rfl, hv⟩ := hs.exists_append
    exact ⟨'"' :: v, rfl, nofun, fun tail => .string (hv tail)⟩
  | .emptyArray hclose =>
    obtain ⟨w, rfl, hw⟩ := hclose.exists_append
    refine ⟨'[' :: (w ++ [']']), by simp, fun b hb => ?_, fun tail => ?_⟩
    · obtain rfl := Option.some.inj hb
      exact ⟨'[' :: w, rfl⟩
    · simpa using Spells.emptyArray (hw tail)
  | .array ⟨w, hw, hcs⟩ hd hds =>
    obtain ⟨v, rfl, -, hv⟩ := hd.exists_append
    obtain ⟨u, rfl, hclose, hu⟩ := hds.exists_append
    refine ⟨'[' :: (w ++ (v ++ u)), by simp [hcs], fun b hb => ?_, fun tail => ?_⟩
    · obtain rfl := Option.some.inj hb
      exact hclose.trans ⟨'[' :: (w ++ v), by simp⟩
    · simpa using Spells.array ⟨w, hw, rfl⟩ (hv (u ++ tail)) (hu tail)
  | .emptyObject hclose =>
    obtain ⟨w, rfl, hw⟩ := hclose.exists_append
    refine ⟨'\x7b' :: (w ++ ['\x7d']), by simp, fun b hb => ?_, fun tail => ?_⟩
    · obtain rfl := Option.some.inj hb
      exact ⟨'\x7b' :: w, rfl⟩
    · simpa using Spells.emptyObject (hw tail)
  | .object ⟨w, hw, hcs⟩ hm hms =>
    obtain ⟨v, rfl, hv⟩ := hm.exists_append
    obtain ⟨u, rfl, hclose, hu⟩ := hms.exists_append
    refine ⟨'\x7b' :: (w ++ (v ++ u)), by simp [hcs], fun b hb => ?_, fun tail => ?_⟩
    · obtain rfl := Option.some.inj hb
      exact hclose.trans ⟨'\x7b' :: (w ++ v), by simp⟩
    · simpa using Spells.object ⟨w, hw, rfl⟩ (hv (u ++ tail)) (hu tail)
termination_by structural h

theorem SpellsItems.exists_append {ds : List Datum} {cs rest : List Char} (h : SpellsItems ds cs rest) :
    ∃ v, cs = v ++ rest ∧ [']'] <:+ v ∧ ∀ tail, SpellsItems ds (v ++ tail) tail := by
  match h with
  | .close hclose =>
    obtain ⟨w, rfl, hw⟩ := hclose.exists_append
    exact ⟨w ++ [']'], by simp, ⟨w, rfl⟩, fun tail => by simpa using SpellsItems.close (hw tail)⟩
  | .item ⟨w, hw, hcs⟩ ⟨w', hw', hbehind⟩ hd hds =>
    obtain ⟨v, rfl, -, hv⟩ := hd.exists_append
    obtain ⟨u, rfl, hclose, hu⟩ := hds.exists_append
    refine ⟨w ++ (',' :: (w' ++ (v ++ u))), by simp [hcs, hbehind],
      hclose.trans ⟨w ++ (',' :: (w' ++ v)), by simp⟩, fun tail => ?_⟩
    simpa using SpellsItems.item ⟨w, hw, rfl⟩ ⟨w', hw', rfl⟩ (hv (u ++ tail)) (hu tail)
termination_by structural h

theorem SpellsMember.exists_append {name : List Nat} {d : Datum} {cs rest : List Char}
    (h : SpellsMember name d cs rest) :
    ∃ v, cs = v ++ rest ∧ ∀ tail, SpellsMember name d (v ++ tail) tail := by
  match h with
  | .mk hname ⟨w, hw, hafter⟩ ⟨w', hw', hbehind⟩ hd =>
    obtain ⟨s, rfl, hs⟩ := hname.exists_append
    obtain ⟨v, rfl, -, hv⟩ := hd.exists_append
    refine ⟨'"' :: (s ++ (w ++ (':' :: (w' ++ v)))), by simp [hafter, hbehind], fun tail => ?_⟩
    have hstring := hs (w ++ (':' :: (w' ++ (v ++ tail))))
    simpa using SpellsMember.mk hstring ⟨w, hw, rfl⟩ ⟨w', hw', rfl⟩ (hv tail)
termination_by structural h

theorem SpellsMembers.exists_append {ms : List (List Nat × Datum)} {cs rest : List Char}
    (h : SpellsMembers ms cs rest) :
    ∃ v, cs = v ++ rest ∧ ['\x7d'] <:+ v ∧ ∀ tail, SpellsMembers ms (v ++ tail) tail := by
  match h with
  | .close hclose =>
    obtain ⟨w, rfl, hw⟩ := hclose.exists_append
    exact ⟨w ++ ['\x7d'], by simp, ⟨w, rfl⟩, fun tail => by simpa using SpellsMembers.close (hw tail)⟩
  | .member ⟨w, hw, hcs⟩ ⟨w', hw', hbehind⟩ hm hms =>
    obtain ⟨v, rfl, hv⟩ := hm.exists_append
    obtain ⟨u, rfl, hclose, hu⟩ := hms.exists_append
    refine ⟨w ++ (',' :: (w' ++ (v ++ u))), by simp [hcs, hbehind],
      hclose.trans ⟨w ++ (',' :: (w' ++ v)), by simp⟩, fun tail => ?_⟩
    simpa using SpellsMembers.member ⟨w, hw, rfl⟩ ⟨w', hw', rfl⟩ (hv (u ++ tail)) (hu tail)
termination_by structural h

end

/-! ## Texts that go on -/

/-- A text that goes on behind a list or an object starts with that and with nothing else. -/
theorem Spells.rest_eq_append {d d' : Datum} {b b' : Char} {cs rest rest' more : List Char}
    (h : Spells d (cs ++ more) rest) (h' : Spells d' cs rest') (hd : d.closer? = some b)
    (hd' : d'.closer? = some b') : d = d' ∧ rest = rest' ++ more := by
  obtain ⟨v, rfl, -, hv⟩ := h'.exists_append
  rw [List.append_assoc] at h
  exact h.unique (hv (rest' ++ more)) (apart_of_closer? hd _) (apart_of_closer? hd' _)

end TokenDump.Json
