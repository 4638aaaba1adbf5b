import TokenDump.Proofs.Text.Bytes
import TokenDump.Scanner.Cursor

/-!
# What a cursor reads

`Stands text pos rest` says that the characters `rest` are what is left of a text at a cursor. A byte
that is read there is the first byte of a character (`byteAt?_eq`), which tells as much about ASCII
classes as the character itself (`Ascii.lead_eq`), and a piece that is cut out between two such
cursors is cut at characters (`slice_eq`). So none of these reads has a fault.
-/

namespace TokenDump.Cursor
open CharClass Utf8
open String (utf8Len utf8EncodeChar)

theorem ok_bind {α β : Type} (a : α) (f : α → Except Fault β) : (Except.ok a >>= f) = f a := rfl

/-- The characters `rest` are what is left of the text at the cursor. -/
def Stands (text : String) (pos : Nat) (rest : List Char) : Prop :=
  ∃ before, text.toList = before ++ rest ∧ pos = utf8Len before

/-! ## First bytes -/

/-- The first byte of a character, as the character of that number. -/
def lead (c : Char) : Char := asChar ((utf8EncodeChar c).headD 0)

/-- The class has ASCII characters only. -/
def Ascii (p : Char → Bool) : Prop := ∀ c, p c = true → c.toNat < 128

section Lead
variable {c : Char} {p : Char → Bool}

theorem toNat_asChar (b : UInt8) : (asChar b).toNat = b.toNat := by
  have hb := b.toNat_lt
  exact toNat_ofNat (.inl (by omega))

theorem lead_of_lt (h : c.toNat < 128) : lead c = c := by
  unfold lead
  rw [utf8EncodeChar_of_lt h, List.headD_cons, ← Char.toNat_inj, toNat_asChar, UInt8.toNat_ofNat',
    Nat.mod_eq_of_lt (by omega)]

theorem le_toNat_lead (h : 128 ≤ c.toNat) : 128 ≤ (lead c).toNat := by
  unfold lead
  obtain ⟨b, bs, hc⟩ := List.exists_cons_of_ne_nil (String.utf8EncodeChar_ne_nil (c := c))
  rw [hc, List.headD_cons, toNat_asChar]
  exact le_toNat_of_mem_utf8EncodeChar h (by simp [hc])

theorem Ascii.lead_eq (h : Ascii p) (c : Char) : p (lead c) = p c := by
  by_cases hc : c.toNat < 128
  · rw [lead_of_lt hc]
  · have hfar : ∀ d : Char, 128 ≤ d.toNat → p d = false := by
      intro d hd
      rw [← Bool.not_eq_true]
      intro hp
      have hlt := h d hp
      omega
    rw [hfar c (by omega), hfar (lead c) (le_toNat_lead (by omega))]

theorem ascii_isBlank : Ascii isBlank := by
  intro c hc
  rw [isBlank_iff] at hc
  omega

theorem ascii_isWordPart : Ascii isWordPart := by
  intro c hc
  rw [isWordPart_iff, isAlphanum_iff] at hc
  omega

theorem ascii_isWordStart : Ascii isWordStart := by
  intro c hc
  rw [isWordStart_iff] at hc
  omega

theorem ascii_isOperator : Ascii isOperator := by
  intro c hc
  rw [isOperator_iff] at hc
  omega

theorem ascii_isPunctuation : Ascii isPunctuation := by
  intro c hc
  rw [isPunctuation_iff] at hc
  omega

theorem ascii_isNumberPart : Ascii isNumberPart := by
  intro c hc
  rw [isNumberPart_iff, isDigit_iff] at hc
  omega

theorem ascii_isExtendedNumberPart : Ascii isExtendedNumberPart := by
  intro c hc
  rw [isExtendedNumberPart_iff, isAlphanum_iff] at hc
  omega

theorem ascii_isExponentMark : Ascii isExponentMark := by
  intro c hc
  rw [isExponentMark_iff] at hc
  omega

theorem ascii_isSign : Ascii isSign := by
  intro c hc
  rw [isSign_iff] at hc
  omega

theorem ascii_isDigit : Ascii Char.isDigit := by
  intro c hc
  rw [isDigit_iff] at hc
  omega

theorem ascii_beq {x : Char} (hx : x.toNat < 128) : Ascii (· == x) := by
  intro c hc
  rwa [beq_iff_eq.1 hc]

end Lead

/-! ## Reading at a cursor -/

section Stands
variable {text : String} {pos : Nat} {c : Char} {w rest : List Char}

theorem stands_zero (text : String) : Stands text 0 text.toList := ⟨[], rfl, rfl⟩

theorem Stands.utf8ByteSize_eq (h : Stands text pos rest) :
    text.utf8ByteSize = pos + utf8Len rest := by
  obtain ⟨before, htext, rfl⟩ := h
  rw [← String.utf8Len_toList, htext, String.utf8Len_append]

theorem Stands.append (h : Stands text pos (w ++ rest)) : Stands text (pos + utf8Len w) rest := by
  obtain ⟨before, htext, rfl⟩ := h
  exact ⟨before ++ w, by rw [htext, List.append_assoc], (String.utf8Len_append ..).symm⟩

theorem Stands.tail (h : Stands text pos (c :: rest)) : Stands text (pos + c.utf8Size) rest := by
  have hsize : utf8Len [c] = c.utf8Size := Nat.zero_add _
  have h' : Stands text pos ([c] ++ rest) := h
  rw [← hsize]
  exact h'.append

theorem utf8Size_of_lt (h : c.toNat < 128) : c.utf8Size = 1 := by
  rw [← String.length_utf8EncodeChar, utf8EncodeChar_of_lt h]
  rfl

theorem Stands.cons (h : Stands text pos (c :: rest)) (hc : c.toNat < 128) :
    Stands text (pos + 1) rest := by
  rw [← utf8Size_of_lt hc]
  exact h.tail

theorem Stands.lt_iff (h : Stands text pos rest) : pos < text.utf8ByteSize ↔ rest ≠ [] := by
  have hzero : utf8Len rest = 0 ↔ rest = [] := String.utf8Len_eq_zero
  rw [h.utf8ByteSize_eq, ne_eq, ← hzero]
  omega

theorem Stands.lt (h : Stands text pos (c :: rest)) : pos < text.utf8ByteSize :=
  h.lt_iff.2 (List.cons_ne_nil c rest)

theorem Stands.not_lt (h : Stands text pos []) : ¬ pos < text.utf8ByteSize := by
  intro hlt
  exact h.lt_iff.1 hlt rfl

theorem Stands.isValid (h : Stands text pos rest) : String.Pos.Raw.IsValid text ⟨pos⟩ := by
  obtain ⟨before, htext, rfl⟩ := h
  refine String.Pos.Raw.isValid_iff_exists_append.2 ⟨.ofList before, .ofList rest, ?_, ?_⟩
  · rw [← String.ofList_append, ← htext, String.ofList_toList]
  · rw [String.Pos.Raw.ext_iff, String.byteIdx_rawEndPos, String.utf8ByteSize_ofList]

/-- Something is left of the text at every place between two characters. -/
theorem exists_stands (h : String.Pos.Raw.IsValid text ⟨pos⟩) : ∃ rest, Stands text pos rest := by
  obtain ⟨front, back, rfl, hpos⟩ := String.Pos.Raw.isValid_iff_exists_append.1 h
  refine ⟨back.toList, front.toList, String.toList_append, ?_⟩
  rw [String.utf8Len_toList]
  exact congrArg String.Pos.Raw.byteIdx hpos

theorem Stands.drop_encode (h : Stands text pos rest) : (encode text).drop pos = bytes rest := by
  obtain ⟨before, htext, rfl⟩ := h
  rw [encode_eq_bytes, htext, bytes_append, ← length_bytes, List.drop_left]

theorem byteAt?_eq (h : Stands text pos rest) : byteAt? text pos = rest.head?.map lead := by
  unfold byteAt?
  rw [← List.head?_drop, h.drop_encode]
  cases rest with
  | nil => rfl
  | cons c rest =>
    obtain ⟨b, bs, hc⟩ := List.exists_cons_of_ne_nil (String.utf8EncodeChar_ne_nil (c := c))
    rw [bytes_cons, List.head?_cons, Option.map_some, lead, hc]
    rfl

theorem current_eq (h : Stands text pos (c :: rest)) : current text pos = .ok (lead c) := by
  unfold current
  rw [byteAt?_eq h]
  rfl

theorem bytesFrom_eq (h : Stands text pos rest) : bytesFrom text pos = .ok (bytes rest) := by
  have hle : pos ≤ (encode text).length := by
    rw [encode_eq_bytes, length_bytes, String.utf8Len_toList, h.utf8ByteSize_eq]
    exact Nat.le_add_right _ _
  unfold bytesFrom
  rw [if_pos hle, h.drop_encode]

theorem slice_eq (h : Stands text pos (w ++ rest)) :
    slice text pos (pos + utf8Len w) = .ok (String.ofList w) := by
  have hstart := h.isValid
  have hstop := h.append.isValid
  unfold slice
  rw [dif_pos ⟨Nat.le_add_right pos (utf8Len w), hstart, hstop⟩]
  congr 1
  apply encode_injective
  obtain ⟨before, htext, rfl⟩ := h
  rw [encode_ofList, ← extract_bytes before w rest, ← htext, ← encode_eq_bytes]
  unfold encode
  show (String.toByteArray _).data.toList = _
  rw [String.toByteArray_extract]
  simp

theorem charSize_eq (h : Stands text pos (c :: rest)) :
    charSize text pos = .ok ⟨c.utf8Size, c.utf8Size_pos⟩ := by
  have hslice : slice text pos text.utf8ByteSize = .ok (String.ofList (c :: rest)) := by
    have hsize := h.utf8ByteSize_eq
    rw [← List.append_nil (c :: rest)] at h
    rw [hsize, slice_eq h]
  unfold charSize
  rw [hslice, ok_bind, String.toList_ofList]

end Stands

end TokenDump.Cursor
