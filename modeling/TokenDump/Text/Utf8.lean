/-!
# Reading bytes as UTF-8

Bytes are cut into chunks. A chunk is a character, or the longest start of a character's encoding
that the bytes break off: such a chunk has one to three bytes and reads as the replacement
character. `decode` reads all bytes, and `firstBroken?` tells where the first chunk lies that is no
character.
-/

namespace TokenDump.Utf8

/-- What the first byte of an encoding calls for. -/
structure Lead where
  /-- How many bytes follow. -/
  tails : Nat
  /-- The least and the greatest byte that may come next. -/
  low : UInt8
  high : UInt8
  /-- The bits of the character that the first byte holds. -/
  bits : Nat
  deriving DecidableEq, Repr

/-- What a byte calls for as the first of an encoding, if it can be that. The range of the next byte
keeps out encodings longer than need be, surrogates, and numbers beyond the last character. -/
def lead? (b : UInt8) : Option Lead :=
  if b < 0x80 then some ⟨0, 0x80, 0xBF, b.toNat⟩
  else if b < 0xC2 then none
  else if b < 0xE0 then some ⟨1, 0x80, 0xBF, b.toNat - 0xC0⟩
  else if b == 0xE0 then some ⟨2, 0xA0, 0xBF, 0⟩
  else if b == 0xED then some ⟨2, 0x80, 0x9F, 13⟩
  else if b < 0xF0 then some ⟨2, 0x80, 0xBF, b.toNat - 0xE0⟩
  else if b == 0xF0 then some ⟨3, 0x90, 0xBF, 0⟩
  else if b < 0xF4 then some ⟨3, 0x80, 0xBF, b.toNat - 0xF0⟩
  else if b == 0xF4 then some ⟨3, 0x80, 0x8F, 4⟩
  else none

/-- The longest run of up to `n` continuation bytes, the first of them between `low` and `high`. -/
def tails : Nat → UInt8 → UInt8 → List UInt8 → List UInt8
  | 0, _, _, _ => []
  | _ + 1, _, _, [] => []
  | n + 1, low, high, b :: bs => if low ≤ b && b ≤ high then b :: tails n 0x80 0xBF bs else []

/-- The bytes at the front of a text that belong together. -/
structure Chunk where
  /-- The character that they encode, if they do. -/
  char? : Option Char
  /-- How many bytes there are after the first. -/
  more : Nat
  deriving DecidableEq, Repr

/-- The chunk that starts with the byte `b`, with `bs` after it. -/
def chunk (b : UInt8) (bs : List UInt8) : Chunk :=
  match lead? b with
  | none => ⟨none, 0⟩
  | some lead =>
    let found := tails lead.tails lead.low lead.high bs
    let code := found.foldl (fun code t => code * 64 + (t.toNat - 0x80)) lead.bits
    ⟨if found.length == lead.tails then some (Char.ofNat code) else none, found.length⟩

/-- The character that a broken chunk reads as. -/
def replacement : Char := '\uFFFD'

/-- The characters of some bytes, with `read` in reverse in front of them. -/
def decodeAfter (read : List Char) : List UInt8 → List Char
  | [] => read.reverse
  | b :: bs =>
    let c := chunk b bs
    decodeAfter (c.char?.getD replacement :: read) (bs.drop c.more)
termination_by bytes => bytes.length
decreasing_by simp only [List.length_cons, List.length_drop]; omega

theorem decodeAfter_append (later earlier : List Char) (bytes : List UInt8) :
    decodeAfter (later ++ earlier) bytes = earlier.reverse ++ decodeAfter later bytes := by
  fun_induction decodeAfter later bytes with
  | case1 => simp only [decodeAfter, List.reverse_append]
  | case2 later b bs c ih =>
    rw [decodeAfter]
    exact ih

/-- The text that some bytes read as. -/
def decode (bytes : List UInt8) : String := String.ofList (decodeAfter [] bytes)

/-- Where the first broken chunk starts, `before` bytes having gone before. -/
def firstBrokenAfter? (before : Nat) : List UInt8 → Option Nat
  | [] => none
  | b :: bs =>
    let c := chunk b bs
    if c.char?.isNone then some before else firstBrokenAfter? (before + 1 + c.more) (bs.drop c.more)
termination_by bytes => bytes.length
decreasing_by simp only [List.length_cons, List.length_drop]; omega

theorem firstBrokenAfter?_add (m n : Nat) (bytes : List UInt8) :
    firstBrokenAfter? (m + n) bytes = (firstBrokenAfter? m bytes).map (· + n) := by
  fun_induction firstBrokenAfter? m bytes with
  | case1 => simp only [firstBrokenAfter?, Option.map_none]
  | case2 m b bs c h =>
    rw [firstBrokenAfter?]
    simp only [c] at h
    simp only [h, ↓reduceIte, Option.map_some]
  | case3 m b bs c h ih =>
    rw [firstBrokenAfter?]
    simp only [c] at h
    simp only [h, Bool.false_eq_true, ↓reduceIte]
    rw [← ih, Nat.add_right_comm m n 1, Nat.add_right_comm (m + 1) n c.more]

/-- Where the first broken chunk starts; none if the bytes are UTF-8. -/
def firstBroken? (bytes : List UInt8) : Option Nat := firstBrokenAfter? 0 bytes

/-- The bytes of a text. -/
def encode (s : String) : List UInt8 := s.toUTF8.data.toList

end TokenDump.Utf8
