import TokenDump.Proofs.CharClass
import TokenDump.Text.Utf8

/-!
# The bytes of characters

A text's bytes are those of its characters, one character after the other, so that byte offsets are
sums of `utf8Len` (`length_bytes`). White space is told from the rest on bytes as well as on
characters: every byte of a character is white space exactly if the character is (`isBlankByte_eq`).
-/

namespace TokenDump.Utf8
open CharClass
open String (utf8Len utf8EncodeChar)

/-- The bytes of some characters. -/
def bytes (cs : List Char) : List UInt8 := cs.flatMap utf8EncodeChar

/-- White space among bytes: space, tab, line feed, carriage return, vertical tab and form feed. -/
def isBlankByte (b : UInt8) : Bool := [0x20, 0x09, 0x0A, 0x0D, 0x0B, 0x0C].contains b

variable {b : UInt8} {c : Char} {cs : List Char}

theorem encode_ofList (cs : List Char) : encode (String.ofList cs) = bytes cs := by
  unfold encode bytes
  show (String.ofList cs).toByteArray.data.toList = _
  rw [String.toByteArray_ofList, List.utf8Encode, List.data_toByteArray]

theorem encode_eq_bytes (s : String) : encode s = bytes s.toList := by
  rw [← encode_ofList, String.ofList_toList]

theorem encode_injective {s t : String} (h : encode s = encode t) : s = t := by
  apply String.toByteArray_inj.1
  exact ByteArray.ext (Array.toList_inj.1 h)

theorem bytes_injective {cs ds : List Char} (h : bytes cs = bytes ds) : cs = ds := by
  rw [← encode_ofList, ← encode_ofList] at h
  exact String.ofList_injective (encode_injective h)

theorem bytes_cons (c : Char) (cs : List Char) : bytes (c :: cs) = utf8EncodeChar c ++ bytes cs :=
  List.flatMap_cons

theorem utf8EncodeChar_injective {c d : Char} (h : utf8EncodeChar c = utf8EncodeChar d) : c = d := by
  have hbytes : bytes [c] = bytes [d] := by rw [bytes_cons, bytes_cons, h]
  exact (List.cons.inj (bytes_injective hbytes)).1

theorem bytes_append (cs ds : List Char) : bytes (cs ++ ds) = bytes cs ++ bytes ds :=
  List.flatMap_append

theorem length_bytes (cs : List Char) : (bytes cs).length = utf8Len cs := by
  induction cs with
  | nil => rfl
  | cons c cs ih =>
    rw [bytes_cons, List.length_append, String.length_utf8EncodeChar, String.utf8Len_cons, ih,
      Nat.add_comm]

theorem isBlankByte_iff : isBlankByte b = true ↔ 9 ≤ b.toNat ∧ b.toNat ≤ 13 ∨ b.toNat = 32 := by
  simp only [isBlankByte, List.contains_iff_mem, List.mem_cons, ← UInt8.toNat_inj,
    List.not_mem_nil, or_false, UInt8.reduceToNat]
  omega

theorem utf8EncodeChar_of_lt (h : c.toNat < 128) : utf8EncodeChar c = [UInt8.ofNat c.toNat] := by
  simp only [utf8EncodeChar, show c.val.toNat = c.toNat from rfl]
  rw [if_pos (Nat.le_of_lt_succ h)]

/-- Beyond ASCII no byte is an ASCII character. -/
theorem le_toNat_of_mem_utf8EncodeChar (h : 128 ≤ c.toNat) (hb : b ∈ utf8EncodeChar c) :
    128 ≤ b.toNat := by
  simp only [utf8EncodeChar, show c.val.toNat = c.toNat from rfl] at hb
  rw [if_neg (by omega)] at hb
  split_ifs at hb <;> simp only [List.mem_cons, List.not_mem_nil, or_false] at hb
  · rcases hb with rfl | rfl <;> rw [UInt8.toNat_ofNat'] <;> omega
  · rcases hb with rfl | rfl | rfl <;> rw [UInt8.toNat_ofNat'] <;> omega
  · rcases hb with rfl | rfl | rfl | rfl <;> rw [UInt8.toNat_ofNat'] <;> omega

/-- White space is a single byte, and every byte of another character is beyond white space. -/
theorem isBlankByte_eq (h : b ∈ utf8EncodeChar c) : isBlankByte b = isBlank c := by
  rw [Bool.eq_iff_iff, isBlankByte_iff, isBlank_iff]
  by_cases hc : c.toNat < 128
  · rw [utf8EncodeChar_of_lt hc, List.mem_singleton] at h
    rw [h, UInt8.toNat_ofNat', Nat.mod_eq_of_lt (by omega)]
  · have hb := le_toNat_of_mem_utf8EncodeChar (by omega) h
    omega

theorem isBlankByte_of_mem_bytes (h : ∀ c ∈ cs, isBlank c = true) (hb : b ∈ bytes cs) :
    isBlankByte b = true := by
  obtain ⟨c, hc, hb⟩ := List.mem_flatMap.1 hb
  rw [isBlankByte_eq hb, h c hc]

/-! ## Pieces of a text -/

section Pieces
variable {before w rest : List Char} {i : Nat}

theorem extract_bytes (before w rest : List Char) :
    (bytes (before ++ (w ++ rest))).extract (utf8Len before) (utf8Len before + utf8Len w) =
      bytes w := by
  rw [List.extract_eq_take_drop, bytes_append, bytes_append, ← length_bytes before, List.drop_left,
    Nat.add_sub_cancel_left, ← length_bytes w, List.take_left]

theorem mem_bytes_of_getElem? (hi : utf8Len before ≤ i) (hi' : i < utf8Len before + utf8Len w)
    (h : (bytes (before ++ (w ++ rest)))[i]? = some b) : b ∈ bytes w := by
  rw [← length_bytes] at hi hi'
  rw [← length_bytes] at hi'
  rw [bytes_append, bytes_append, List.getElem?_append_right hi,
    List.getElem?_append_left (by omega)] at h
  exact List.mem_of_getElem? h

/-- The first byte of a character. -/
theorem exists_getElem?_bytes (before : List Char) (c : Char) (rest : List Char) :
    ∃ b, (bytes (before ++ (c :: rest)))[utf8Len before]? = some b ∧ isBlankByte b = isBlank c := by
  obtain ⟨b, bs, hc⟩ := List.exists_cons_of_ne_nil (String.utf8EncodeChar_ne_nil (c := c))
  refine ⟨b, ?_, isBlankByte_eq (c := c) (by simp [hc])⟩
  rw [bytes_append, ← length_bytes, List.getElem?_append_right le_rfl, Nat.sub_self, bytes_cons,
    hc]
  rfl

/-- The byte of an ASCII character. -/
theorem getElem?_bytes_of_lt {c : Char} (h : c.toNat < 128) :
    (bytes (before ++ (c :: rest)))[utf8Len before]? = some (UInt8.ofNat c.toNat) := by
  rw [bytes_append, ← length_bytes, List.getElem?_append_right le_rfl, Nat.sub_self, bytes_cons,
    utf8EncodeChar_of_lt h]
  rfl

/-- The beginning of a text is known by its number of bytes. -/
theorem eq_of_utf8Len_eq {before' rest' : List Char} (h : before ++ rest = before' ++ rest')
    (hlen : utf8Len before = utf8Len before') : before = before' ∧ rest = rest' := by
  rcases List.append_eq_append_iff.1 h with ⟨w, rfl, rfl⟩ | ⟨w, rfl, rfl⟩ <;>
    rw [String.utf8Len_append] at hlen <;>
    obtain rfl : w = [] := String.utf8Len_eq_zero.1 (by omega) <;> simp

end Pieces

end TokenDump.Utf8
