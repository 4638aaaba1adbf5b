import TokenDump.Proofs.Text.Chunks
import TokenDump.Run

/-!
# Inputs that are not UTF-8

`Repaired bs cs` says how bytes are to be read: characters as themselves and each broken encoding as
one replacement character. All bytes are read that way and no other (`decode_repairs`), so that what is
known about characters and broken encodings goes through a whole input by induction on `Repaired`. The
bytes stop being UTF-8 where the first broken encoding is (`Repaired.valid_or_broken`), and that is
what the log says about them (`decode_loses_only_broken`).
-/

namespace TokenDump.Utf8
open String (utf8EncodeChar)

/-- Bytes that are UTF-8: those of some text. -/
def Valid (bs : List UInt8) : Prop := ∃ text, encode text = bs

/-- Bytes in which each broken encoding is replaced by one character. -/
inductive Repaired : List UInt8 → List Char → Prop where
  | nil : Repaired [] []
  | char (c : Char) {bs : List UInt8} {cs : List Char} (later : Repaired bs cs) :
      Repaired (utf8EncodeChar c ++ bs) (c :: cs)
  | broken {part bs : List UInt8} {cs : List Char} (h : Broken part bs) (later : Repaired bs cs) :
      Repaired (part ++ bs) (replacement :: cs)

variable {bs part rest : List UInt8} {cs : List Char}

theorem valid_iff : Valid bs ↔ ∃ cs, bytes cs = bs :=
  ⟨fun ⟨text, h⟩ => ⟨text.toList, encode_eq_bytes text ▸ h⟩,
    fun ⟨cs, h⟩ => ⟨String.ofList cs, (encode_ofList cs).trans h⟩⟩

/-! ## One chunk -/

theorem decodeAfter_cons (b : UInt8) (bs : List UInt8) : decodeAfter [] (b :: bs) =
    (chunk b bs).char?.getD replacement :: decodeAfter [] (bs.drop (chunk b bs).more) := by
  rw [decodeAfter]
  exact decodeAfter_append [] [_] _

theorem firstBroken?_cons (b : UInt8) (bs : List UInt8) : firstBroken? (b :: bs) =
    if (chunk b bs).char?.isNone then some 0
    else (firstBroken? (bs.drop (chunk b bs).more)).map (· + (1 + (chunk b bs).more)) := by
  rw [firstBroken?, firstBrokenAfter?, firstBroken?, ← firstBrokenAfter?_add, Nat.zero_add,
    Nat.zero_add]

theorem decodeAfter_char (c : Char) (bs : List UInt8) :
    decodeAfter [] (utf8EncodeChar c ++ bs) = c :: decodeAfter [] bs := by
  obtain ⟨b, ts, hc⟩ := List.exists_cons_of_ne_nil (String.utf8EncodeChar_ne_nil (c := c))
  rw [hc, List.cons_append, decodeAfter_cons, chunk_encode hc, List.drop_left, Option.getD_some]

theorem decodeAfter_broken (h : Broken part rest) :
    decodeAfter [] (part ++ rest) = replacement :: decodeAfter [] rest := by
  obtain ⟨b, ts, rfl⟩ := List.exists_cons_of_ne_nil h.ne_nil
  obtain ⟨hnone, hrest⟩ := chunk_broken h
  rw [List.cons_append, decodeAfter_cons, hnone, hrest, Option.getD_none]

theorem firstBroken?_char (c : Char) (bs : List UInt8) : firstBroken? (utf8EncodeChar c ++ bs) =
    (firstBroken? bs).map (· + (utf8EncodeChar c).length) := by
  obtain ⟨b, ts, hc⟩ := List.exists_cons_of_ne_nil (String.utf8EncodeChar_ne_nil (c := c))
  rw [hc, List.cons_append, firstBroken?_cons, chunk_encode hc, List.drop_left, List.length_cons,
    Nat.add_comm ts.length]
  rfl

theorem firstBroken?_broken (h : Broken part rest) : firstBroken? (part ++ rest) = some 0 := by
  obtain ⟨b, ts, rfl⟩ := List.exists_cons_of_ne_nil h.ne_nil
  rw [List.cons_append, firstBroken?_cons, (chunk_broken h).1, Option.isNone_none, if_pos rfl]

theorem firstBroken?_bytes_append (cs : List Char) (bs : List UInt8) :
    firstBroken? (bytes cs ++ bs) = (firstBroken? bs).map (· + (bytes cs).length) := by
  induction cs with
  | nil => exact Option.map_id'.symm
  | cons c cs ih =>
    rw [bytes_cons, List.append_assoc, firstBroken?_char, ih, Option.map_map, List.length_append]
    congr 1
    funext n
    simp only [Function.comp_apply]
    omega

/-! ## All chunks -/

/-- All bytes can be read. -/
theorem exists_repaired : ∀ bs : List UInt8, ∃ cs, Repaired bs cs
  | [] => ⟨[], .nil⟩
  | b :: bs => by
    obtain ⟨cs, hcs⟩ := exists_repaired (bs.drop (chunk b bs).more)
    cases hc : (chunk b bs).char? with
    | some c => exact ⟨c :: cs, eq_append_of_chunk hc ▸ .char c hcs⟩
    | none =>
      have hread := Repaired.broken (broken_of_chunk hc) hcs
      rw [cons_take_append_drop] at hread
      exact ⟨_, hread⟩
termination_by bs => bs.length
decreasing_by simp only [List.length_cons, List.length_drop]; omega

namespace Repaired

theorem decode_eq (h : Repaired bs cs) : decodeAfter [] bs = cs := by
  induction h with
  | nil => rw [decodeAfter, List.reverse_nil]
  | char c later ih => rw [decodeAfter_char, ih]
  | broken h later ih => rw [decodeAfter_broken h, ih]

/-- Bytes are UTF-8 up to the end, or up to the first that are broken. -/
theorem valid_or_broken (h : Repaired bs cs) : bs = bytes cs ∨
    ∃ ds es part rest, Broken part rest ∧ bs = bytes ds ++ (part ++ rest) ∧
      cs = ds ++ replacement :: es := by
  induction h with
  | nil => exact .inl rfl
  | char c later ih =>
    obtain hbs | ⟨ds, es, part, rest, hbroken, hbs, hcs⟩ := ih
    · exact .inl (by rw [bytes_cons, hbs])
    · refine .inr ⟨c :: ds, es, part, rest, hbroken, ?_, ?_⟩
      · rw [hbs, bytes_cons, List.append_assoc]
      · rw [hcs, List.cons_append]
  | broken h later ih => exact .inr ⟨[], _, _, _, h, rfl, rfl⟩

theorem bytes_append (h : Repaired bs cs) (ds : List Char) :
    Repaired (bytes ds ++ bs) (ds ++ cs) := by
  induction ds with
  | nil => exact h
  | cons d ds ih =>
    rw [bytes_cons, List.append_assoc]
    exact .char d ih

/-- The ASCII characters are those of the bytes. -/
theorem filter_ascii (h : Repaired bs cs) :
    (bytes cs).filter (· < 0x80) = bs.filter (· < 0x80) := by
  induction h with
  | nil => rfl
  | char c later ih => rw [bytes_cons, List.filter_append, List.filter_append, ih]
  | @broken part bs cs h later ih =>
    have hpart : part.filter (· < 0x80) = [] :=
      List.filter_eq_nil_iff.2 fun b hb => by simpa using h.not_ascii hb
    have hreplacement : (utf8EncodeChar replacement).filter (· < 0x80) = [] := by decide
    rw [bytes_cons, List.filter_append, List.filter_append, hpart, hreplacement, ih]

end Repaired

theorem decode_repairs : Repaired bs cs ↔ (decode bs).toList = cs := by
  rw [decode, String.toList_ofList]
  refine ⟨Repaired.decode_eq, ?_⟩
  rintro rfl
  obtain ⟨cs, h⟩ := exists_repaired bs
  exact h.decode_eq.symm ▸ h

theorem decode_encode_append (text : String) (bs : List UInt8) :
    decode (encode text ++ bs) = text ++ decode bs := by
  apply String.toList_injective
  rw [encode_eq_bytes, String.toList_append]
  exact decode_repairs.1 ((decode_repairs.2 rfl).bytes_append text.toList)

theorem decode_nil : decode [] = "" := by
  rw [decode, decodeAfter, List.reverse_nil, String.ofList_nil]

/-- UTF-8 is read back. -/
theorem decode_encode (text : String) : decode (encode text) = text := by
  have h := decode_encode_append text []
  rwa [List.append_nil, decode_nil, String.append_empty] at h

/-! ## The log -/

theorem firstBroken?_encode (text : String) : firstBroken? (encode text) = none := by
  have h := firstBroken?_bytes_append text.toList []
  have hnil : firstBroken? [] = none := by rw [firstBroken?, firstBrokenAfter?]
  rwa [List.append_nil, ← encode_eq_bytes, hnil, Option.map_none] at h

theorem firstBroken?_of_broken (cs : List Char) (h : Broken part rest) :
    firstBroken? (bytes cs ++ (part ++ rest)) = some (bytes cs).length := by
  rw [firstBroken?_bytes_append, firstBroken?_broken h, Option.map_some, Nat.zero_add]

/-- No longer beginning than the one up to the first broken encoding is UTF-8. -/
theorem isGreatest_valid (cs : List Char) (h : Broken part rest) :
    IsGreatest {m | m ≤ (bytes cs ++ (part ++ rest)).length ∧
      Valid ((bytes cs ++ (part ++ rest)).take m)} (bytes cs).length := by
  refine ⟨⟨?_, ?_⟩, ?_⟩
  · rw [List.length_append]
    exact Nat.le_add_right _ _
  · rw [List.take_left]
    exact valid_iff.2 ⟨cs, rfl⟩
  · rintro m ⟨hm, hvalid⟩
    obtain ⟨ds, hds⟩ := valid_iff.1 hvalid
    have hsplit : bytes ds ++ (bytes cs ++ (part ++ rest)).drop m = bytes cs ++ (part ++ rest) := by
      rw [hds, List.take_append_drop]
    have hfirst := firstBroken?_of_broken cs h
    rw [← hsplit, firstBroken?_bytes_append] at hfirst
    obtain ⟨n, -, hn⟩ := Option.map_eq_some_iff.1 hfirst
    rw [← hn, hds, List.length_take, Nat.min_eq_left hm]
    exact Nat.le_add_left _ _

theorem decodingLog_encode (name text : String) : Job.decodingLog name (encode text) = [] := by
  rw [Job.decodingLog, firstBroken?_encode]

/-- The log tells how far bytes are UTF-8, and as far as that they are left alone. -/
theorem exists_offset (name : String) (h : ¬Valid bs) :
    ∃ n, IsGreatest {m | m ≤ bs.length ∧ Valid (bs.take m)} n ∧
      Job.decodingLog name bs =
        [⟨.warn, "input is not valid UTF-8, invalid bytes replaced with U+FFFD",
          [("input", Text.quote name), ("offset", toString n)]⟩] ∧
      bs.take n ++ encode "\uFFFD" <+: encode (decode bs) := by
  have hread : Repaired bs (decode bs).toList := decode_repairs.2 rfl
  obtain hbs | ⟨cs, later, part, rest, hpart, hbs, hcs⟩ := hread.valid_or_broken
  · exact absurd (valid_iff.2 ⟨_, hbs.symm⟩) h
  · refine ⟨(bytes cs).length, hbs ▸ isGreatest_valid cs hpart, ?_, ?_⟩
    · rw [hbs, Job.decodingLog, firstBroken?_of_broken cs hpart]
    · rw [encode_eq_bytes (decode bs), hcs, hbs, List.take_left, bytes_append, bytes_cons]
      exact (List.prefix_append_right_inj _).2 (List.prefix_append _ _)

/-- **Decoding loses nothing but broken encodings.** Bytes that are UTF-8 are read back, and nothing is
logged about them. Otherwise the log tells how far they are UTF-8, which is as far as they are left
alone. Each broken encoding has one to three bytes, none of them ASCII, and is replaced by one
character. So the ASCII characters are those of the bytes, a text in front makes no difference to
what is read after it, and what has been read is read back. -/
theorem decode_loses_only_broken (name : String) (bs : List UInt8) :
    (Job.decodingLog name bs = [] ↔ Valid bs) ∧
    (Valid bs → encode (decode bs) = bs) ∧
    (¬Valid bs → ∃ n, IsGreatest {m | m ≤ bs.length ∧ Valid (bs.take m)} n ∧
      Job.decodingLog name bs =
        [⟨.warn, "input is not valid UTF-8, invalid bytes replaced with U+FFFD",
          [("input", Text.quote name), ("offset", toString n)]⟩] ∧
      bs.take n ++ encode "\uFFFD" <+: encode (decode bs)) ∧
    (∀ cs, Repaired bs cs ↔ (decode bs).toList = cs) ∧
    (∀ part rest, Broken part rest →
      1 ≤ part.length ∧ part.length ≤ 3 ∧ ∀ b ∈ part, ¬b < 0x80) ∧
    (encode (decode bs)).filter (· < 0x80) = bs.filter (· < 0x80) ∧
    (∀ text, decode (encode text ++ bs) = text ++ decode bs) ∧
    decode (encode (decode bs)) = decode bs ∧
    Job.decodingLog name (encode (decode bs)) = [] := by
  have hlog : Job.decodingLog name bs = [] ↔ Valid bs := by
    refine ⟨fun hnil => ?_, ?_⟩
    · by_contra hnot
      obtain ⟨n, -, hn, -⟩ := exists_offset name hnot
      rw [hnil] at hn
      cases hn
    · rintro ⟨text, rfl⟩
      exact decodingLog_encode name text
  have hback (h : Valid bs) : encode (decode bs) = bs := by
    obtain ⟨text, rfl⟩ := h
    rw [decode_encode]
  have hsizes (part rest) (h : Broken part rest) :
      1 ≤ part.length ∧ part.length ≤ 3 ∧ ∀ b ∈ part, ¬b < 0x80 :=
    ⟨List.length_pos_iff.2 h.ne_nil, h.length_le, fun b hb => h.not_ascii hb⟩
  have hascii : (encode (decode bs)).filter (· < 0x80) = bs.filter (· < 0x80) := by
    rw [encode_eq_bytes]
    exact (decode_repairs.2 rfl).filter_ascii
  exact ⟨hlog, hback, exists_offset name, fun cs => decode_repairs, hsizes, hascii,
    fun text => decode_encode_append text bs, decode_encode _, decodingLog_encode name _⟩

/-- A quotation mark that breaks an encoding off is left. -/
example : decode [0x61, 0xE2, 0x82, 0x22, 0xFF] = "a\uFFFD\"\uFFFD" := by decide +kernel

end TokenDump.Utf8
