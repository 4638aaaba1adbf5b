import TokenDump.Json.Value
import TokenDump.Proofs.CharClass
import TokenDump.Proofs.Json.Grammar

/-!
# The layout is JSON

The written form of a value, at any level of indentation, spells the value (`spells_layout`): each string
is escaped as the grammar reads it, each number is a run of digits, and line breaks with their indentation
are white space. Strings are known from their code units (`units_injective`).
-/

namespace TokenDump.Json
open Text

/-! ## Code units -/

section Units

/-- A character is known from code units that start with its own. -/
theorem utf16_unique {c c' : Char} {us us' : List Nat} (h : utf16 c ++ us = utf16 c' ++ us') :
    c = c' ∧ us = us' := by
  have hc := CharClass.toNat_lt_or_gt c
  have hc' := CharClass.toNat_lt_or_gt c'
  suffices hkey : c.toNat = c'.toNat by
    obtain rfl := Char.toNat_inj.1 hkey
    exact ⟨rfl, List.append_cancel_left h⟩
  unfold utf16 at h
  -- Half of a pair is no character, so that one code unit is not taken for two.
  split at h <;> split at h <;> simp only [List.cons_append, List.nil_append, List.cons.injEq] at h
  all_goals omega

theorem utf16_append_ne_nil (c : Char) (us : List Nat) : utf16 c ++ us ≠ [] := by
  unfold utf16
  split <;> exact List.cons_ne_nil _ _

theorem flatMap_utf16_injective {cs cs' : List Char} (h : cs.flatMap utf16 = cs'.flatMap utf16) :
    cs = cs' := by
  induction cs generalizing cs' with
  | nil =>
    cases cs' with
    | nil => rfl
    | cons c' cs' => exact absurd h.symm (utf16_append_ne_nil c' _)
  | cons c cs ih =>
    cases cs' with
    | nil => exact absurd h (utf16_append_ne_nil c _)
    | cons c' cs' =>
      rw [List.flatMap_cons, List.flatMap_cons] at h
      obtain ⟨rfl, hlater⟩ := utf16_unique h
      rw [ih hlater]

theorem units_injective {s s' : String} (h : units s = units s') : s = s' :=
  String.toList_inj.1 (flatMap_utf16_injective h)

end Units

/-! ## Strings and numbers -/

section Scalars
variable {us : List Nat} {cs rest : List Char}

theorem hexQuad?_control : ∀ n < 0x20,
    hexQuad? '0' '0' (Value.hexDigit (n / 16)) (Value.hexDigit (n % 16)) = some n := by
  decide

/-- An escaped character stands for its code units. -/
theorem SpellsString.escapeChar (c : Char) (h : SpellsString us cs rest) :
    SpellsString (utf16 c ++ us) (Value.escapeChar c ++ cs) rest := by
  unfold Value.escapeChar
  split
  case h_8 hquote hback _ _ _ _ _ =>
    split
    case isTrue hc =>
      have hutf : utf16 c = [c.toNat] := if_pos (by omega)
      rw [hutf]
      exact .unit (hexQuad?_control _ hc) h
    case isFalse hc => exact .plain ⟨decide_eq_false hc, hquote, hback⟩ h
  all_goals exact .short rfl h

theorem spellsString_flatMap (cs : List Char) :
    SpellsString (cs.flatMap utf16) (cs.flatMap Value.escapeChar ++ '"' :: rest) rest := by
  induction cs with
  | nil => exact .close
  | cons c cs ih =>
    rw [List.flatMap_cons, List.flatMap_cons, List.append_assoc]
    exact ih.escapeChar c

theorem toList_quote (s : String) :
    (Value.quote s).toList = '"' :: (s.toList.flatMap Value.escapeChar ++ ['"']) := by
  rw [Value.quote, String.toList_ofList, List.cons_append]

/-- A natural number in digits is a number of the grammar. -/
theorem numeral_repr (n : Nat) : Numeral n (Nat.repr n).toList := by
  have hdigits : Digits (Nat.repr n).toList :=
    ⟨by rw [toList_repr]; exact Nat.toDigits_ne_nil, isDigit_of_mem_repr⟩
  have hzero : (Nat.repr n).toList.head? = some '0' → (Nat.repr n).toList = ['0'] := by
    rw [toList_repr]
    exact eq_zero_of_head?_toDigits
  have hvalue : (decimal ((Nat.repr n).toList ++ []) : ℚ) * 10 ^ ((0 : ℤ) - ([] : List Char).length)
      = n := by
    rw [List.append_nil, toList_repr, decimal, Nat.ofDigitChars_ten_toDigits, List.length_nil,
      Nat.cast_zero, sub_zero, zpow_zero, mul_one]
  have hnumeral := Numeral.positive (Unsigned.mk ⟨hdigits, hzero⟩ .none .none)
  rwa [hvalue, List.append_nil, List.append_nil] at hnumeral

theorem skips_newline (level : Nat) : Skips ((Value.newline level).toList ++ cs) cs := by
  refine ⟨_, fun c hc => ?_, rfl⟩
  rw [Value.newline, String.toList_ofList] at hc
  rcases List.mem_cons.1 hc with rfl | hc
  · rfl
  · rw [List.eq_of_mem_replicate hc]
    rfl

theorem skips_space : Skips (' ' :: cs) cs := ⟨[' '], List.forall_mem_singleton.2 rfl, rfl⟩

theorem skips_self : Skips cs cs := ⟨[], fun _ hc => absurd hc List.not_mem_nil, rfl⟩

end Scalars

/-! ## Values -/

namespace Value

mutual

/-- What a value is in JSON. -/
def datum : Value → Datum
  | null => .null
  | bool b => .bool b
  | number n => .number n
  | string s => .string (units s)
  | array vs => .array (data vs)
  | object ms => .object (members ms)

def data : List Value → List Datum
  | [] => []
  | v :: vs => datum v :: data vs

def members : List (String × Value) → List (List Nat × Datum)
  | [] => []
  | (name, v) :: ms => (units name, datum v) :: members ms

end

theorem data_eq_map (vs : List Value) : data vs = vs.map datum := by
  induction vs with
  | nil => rfl
  | cons v vs ih => rw [data, ih, List.map_cons]

mutual

/-- The text in front of a value is left as it is. -/
theorem writeAfter_append (level : Nat) (text later : String) (v : Value) :
    writeAfter level (text ++ later) v = text ++ writeAfter level later v := by
  match v with
  | null | bool true | bool false | number _ | string _ | array [] | object [] =>
    simp only [writeAfter, String.append_assoc]
  | array (v :: vs) =>
    simp only [writeAfter, String.append_assoc, writeAfter_append _ _ _ v,
      writeItemsAfter_append _ _ _ vs]
  | object ((name, v) :: ms) =>
    simp only [writeAfter, String.append_assoc, writeAfter_append _ _ _ v,
      writeMembersAfter_append _ _ _ ms]

theorem writeItemsAfter_append (level : Nat) (text later : String) (vs : List Value) :
    writeItemsAfter level (text ++ later) vs = text ++ writeItemsAfter level later vs := by
  match vs with
  | [] => rfl
  | v :: vs =>
    simp only [writeItemsAfter, String.append_assoc, writeAfter_append _ _ _ v,
      writeItemsAfter_append _ _ _ vs]

theorem writeMembersAfter_append (level : Nat) (text later : String)
    (ms : List (String × Value)) :
    writeMembersAfter level (text ++ later) ms = text ++ writeMembersAfter level later ms := by
  match ms with
  | [] => rfl
  | (name, v) :: ms =>
    simp only [writeMembersAfter, String.append_assoc, writeAfter_append _ _ _ v,
      writeMembersAfter_append _ _ _ ms]

end

/-! ## The written form, part by part -/

section Layout
variable {level : Nat} {v : Value} {vs : List Value} {name : String} {ms : List (String × Value)}

/-- The characters of a value's written form. -/
def layout (level : Nat) (v : Value) : List Char := (writeAfter level "" v).toList

def layoutItems (level : Nat) (vs : List Value) : List Char := (writeItemsAfter level "" vs).toList

def layoutMembers (level : Nat) (ms : List (String × Value)) : List Char :=
  (writeMembersAfter level "" ms).toList

theorem toList_writeAfter (text : String) :
    (writeAfter level text v).toList = text.toList ++ layout level v := by
  rw [layout, ← String.toList_append, ← writeAfter_append, String.append_empty]

theorem toList_writeItemsAfter (text : String) :
    (writeItemsAfter level text vs).toList = text.toList ++ layoutItems level vs := by
  rw [layoutItems, ← String.toList_append, ← writeItemsAfter_append, String.append_empty]

theorem toList_writeMembersAfter (text : String) :
    (writeMembersAfter level text ms).toList = text.toList ++ layoutMembers level ms := by
  rw [layoutMembers, ← String.toList_append, ← writeMembersAfter_append, String.append_empty]

theorem layout_null : layout level null = ['n', 'u', 'l', 'l'] := by
  rw [layout, writeAfter]
  rfl

theorem layout_true : layout level (bool true) = ['t', 'r', 'u', 'e'] := by
  rw [layout, writeAfter]
  rfl

theorem layout_false : layout level (bool false) = ['f', 'a', 'l', 's', 'e'] := by
  rw [layout, writeAfter]
  rfl

theorem layout_number (n : Nat) : layout level (number n) = (Nat.repr n).toList := by
  rw [layout, writeAfter, String.empty_append]
  rfl

theorem layout_string (s : String) : layout level (string s) = (quote s).toList := by
  rw [layout, writeAfter, String.empty_append]

theorem layout_emptyArray : layout level (array []) = ['[', ']'] := by
  rw [layout, writeAfter]
  rfl

theorem layout_emptyObject : layout level (object []) = ['\x7b', '\x7d'] := by
  rw [layout, writeAfter]
  rfl

theorem layout_array : layout level (array (v :: vs)) =
    '[' :: ((newline (level + 1)).toList ++ (layout (level + 1) v ++
      (layoutItems (level + 1) vs ++ ((newline level).toList ++ [']'])))) := by
  rw [layout, writeAfter]
  simp only [String.toList_append, toList_writeAfter, toList_writeItemsAfter, List.append_assoc]
  rfl

theorem layout_object : layout level (object ((name, v) :: ms)) =
    '\x7b' :: ((newline (level + 1)).toList ++ ((quote name).toList ++ (':' :: ' ' ::
      (layout (level + 1) v ++ (layoutMembers (level + 1) ms ++
        ((newline level).toList ++ ['\x7d'])))))) := by
  rw [layout, writeAfter]
  simp only [String.toList_append, toList_writeAfter, toList_writeMembersAfter, List.append_assoc]
  rfl

theorem layoutItems_cons : layoutItems level (v :: vs) =
    ',' :: ((newline level).toList ++ (layout level v ++ layoutItems level vs)) := by
  rw [layoutItems, writeItemsAfter]
  simp only [String.toList_append, toList_writeAfter, toList_writeItemsAfter, List.append_assoc]
  rfl

theorem layoutMembers_cons : layoutMembers level ((name, v) :: ms) =
    ',' :: ((newline level).toList ++ ((quote name).toList ++ (':' :: ' ' ::
      (layout level v ++ layoutMembers level ms)))) := by
  rw [layoutMembers, writeMembersAfter]
  simp only [String.toList_append, toList_writeAfter, toList_writeMembersAfter, List.append_assoc]
  rfl

end Layout

end Value

/-! ## The written form spells the value -/

section Spelling
variable {d : Datum} {rest : List Char}

theorem spellsString_quote (s : String) (cs : List Char) : ∃ behind,
    (Value.quote s).toList ++ cs = '"' :: behind ∧ SpellsString (units s) behind cs := by
  refine ⟨s.toList.flatMap Value.escapeChar ++ '"' :: cs, ?_, spellsString_flatMap s.toList⟩
  rw [toList_quote, List.cons_append, List.append_assoc, List.singleton_append]

theorem spellsMember_quote {first : List Char} (name : String) (hd : Spells d first rest) :
    SpellsMember (units name) d ((Value.quote name).toList ++ (':' :: ' ' :: first)) rest := by
  obtain ⟨behind, hquote, hname⟩ := spellsString_quote name (':' :: ' ' :: first)
  rw [hquote]
  exact .mk hname skips_self skips_space hd

mutual

/-- **The written form of a value spells the value**, at any level and whatever comes behind it. -/
theorem spells_layout (level : Nat) (v : Value) (rest : List Char) :
    Spells v.datum (v.layout level ++ rest) rest := by
  match v with
  | .null =>
    rw [Value.layout_null]
    exact .null
  | .bool true =>
    rw [Value.layout_true]
    exact .isTrue
  | .bool false =>
    rw [Value.layout_false]
    exact .isFalse
  | .number n =>
    rw [Value.layout_number]
    exact .number (numeral_repr n) rfl
  | .string s =>
    obtain ⟨behind, hquote, hs⟩ := spellsString_quote s rest
    rw [Value.layout_string, hquote]
    exact .string hs
  | .array [] =>
    rw [Value.layout_emptyArray]
    exact .emptyArray skips_self
  | .array (v :: vs) =>
    rw [Value.layout_array]
    simp only [List.cons_append, List.append_assoc]
    exact .array (skips_newline _) (spells_layout _ v _) (spells_layoutItems _ vs (skips_newline _))
  | .object [] =>
    rw [Value.layout_emptyObject]
    exact .emptyObject skips_self
  | .object ((name, v) :: ms) =>
    rw [Value.layout_object]
    simp only [List.cons_append, List.append_assoc]
    exact .object (skips_newline _) (spellsMember_quote name (spells_layout _ v _))
      (spells_layoutMembers _ ms (skips_newline _))

theorem spells_layoutItems (level : Nat) (vs : List Value) {cs rest : List Char}
    (h : Skips cs (']' :: rest)) :
    SpellsItems (Value.data vs) (Value.layoutItems level vs ++ cs) rest := by
  match vs with
  | [] => exact .close h
  | v :: vs =>
    rw [Value.layoutItems_cons]
    simp only [List.cons_append, List.append_assoc]
    exact .item skips_self (skips_newline _) (spells_layout _ v _) (spells_layoutItems _ vs h)

theorem spells_layoutMembers (level : Nat) (ms : List (String × Value)) {cs rest : List Char}
    (h : Skips cs ('\x7d' :: rest)) :
    SpellsMembers (Value.members ms) (Value.layoutMembers level ms ++ cs) rest := by
  match ms with
  | [] => exact .close h
  | (name, v) :: ms =>
    rw [Value.layoutMembers_cons]
    simp only [List.cons_append, List.append_assoc]
    exact .member skips_self (skips_newline _) (spellsMember_quote name (spells_layout _ v _))
      (spells_layoutMembers _ ms h)

end

end Spelling

end TokenDump.Json
