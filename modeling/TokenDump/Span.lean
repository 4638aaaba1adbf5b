/-!
# Byte spans

Where a lexeme lies in its text, as a start and a length in 32-bit words. Offsets come from texts of
any length: `Span.ofOffsets` clips both ends to the largest word, so that far out a span is empty
and keeps only its place.
-/

namespace TokenDump

/-- A stretch of bytes: the offset of its first byte, and how many bytes it has. -/
structure Span where
  start : UInt32
  length : UInt32
  deriving DecidableEq, Repr, Inhabited

namespace Span

/-- The largest offset that a span can hold. -/
def limit : Nat := 4294967295

/-- An offset as a word; one beyond `limit` becomes `limit`. -/
def clip (offset : Nat) : UInt32 := UInt32.ofNat (min offset limit)

/-- The span between two words, the first not after the second. -/
def ofBounds (start stop : UInt32) : Span := ⟨start, stop - start⟩

/-- The span between two byte offsets, each clipped. -/
def ofOffsets (start stop : Nat) : Span := ofBounds (clip start) (clip stop)

/-- The offset just after the last byte. -/
def stop (s : Span) : UInt32 := s.start + s.length

def isEmpty (s : Span) : Bool := s.length == 0

/-- The span in writing, `start..stop`. -/
def text (s : Span) : String := s!"{s.start}..{s.stop}"

@[simp] theorem toNat_clip (n : Nat) : (clip n).toNat = min n limit := by
  simp only [clip, UInt32.toNat_ofNat']
  exact Nat.mod_eq_of_lt (by simp only [limit]; omega)

@[simp] theorem start_ofOffsets (a b : Nat) : (ofOffsets a b).start = clip a := rfl

@[simp] theorem stop_ofBounds (a b : UInt32) : (ofBounds a b).stop = b := by
  simp only [ofBounds, stop]
  rw [UInt32.add_comm, UInt32.sub_add_cancel]

@[simp] theorem stop_ofOffsets (a b : Nat) : (ofOffsets a b).stop = clip b := stop_ofBounds _ _

theorem clip_le_clip {a b : Nat} (h : a ≤ b) : clip a ≤ clip b := by
  rw [UInt32.le_iff_toNat_le, toNat_clip, toNat_clip]
  omega

theorem toNat_length_ofOffsets {a b : Nat} (h : a ≤ b) :
    (ofOffsets a b).length.toNat = min b limit - min a limit := by
  rw [ofOffsets, ofBounds, UInt32.toNat_sub_of_le _ _ (clip_le_clip h), toNat_clip, toNat_clip]

end Span

end TokenDump
