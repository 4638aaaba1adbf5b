import TokenDump.Proofs.Text.Bytes

/-!
# Chunks of bytes

A chunk is cut by a table of first bytes and by ranges for the bytes after them. Here it is described
by the encodings of characters alone: a chunk with a character is that character's encoding
(`chunk_encode`, `eq_append_of_chunk`), and one without is `Broken`, the longest beginning of an
encoding, or a byte that begins none (`broken_of_chunk`). Bytes begin with one broken encoding at most
(`Broken.unique`), which has up to three bytes (`Broken.length_le`), none of them ASCII
(`Broken.not_ascii`).
-/

namespace TokenDump.Utf8
open CharClass
open String (utf8EncodeChar)

/-! ## The bytes after the first -/

section Tails
variable {n : Nat} {low high t : UInt8} {ts bs : List UInt8}

@[simp] theorem tails_nil (n : Nat) (low high : UInt8) : tails n low high [] = [] := by
  cases n <;> rfl

/-- A run that is taken whole begins with a byte in range. -/
@[simp] theorem tails_cons_iff : tails (n + 1) low high (t :: ts) = t :: ts ↔
    (low.toNat ≤ t.toNat ∧ t.toNat ≤ high.toNat) ∧ tails n 0x80 0xBF ts = ts := by
  rw [tails]
  simp only [Bool.and_eq_true, decide_eq_true_eq, UInt8.le_iff_toNat_le]
  split_ifs with ht
  · simp only [List.cons.injEq, true_and, ht, and_self]
  · simp only [ht, false_and]

theorem length_tails_le (n : Nat) (low high : UInt8) (bs : List UInt8) :
    (tails n low high bs).length ≤ n := by
  fun_induction tails n low high bs with
  | case1 | case2 | case4 => exact Nat.zero_le _
  | case3 n low high b bs hb ih => exact Nat.succ_le_succ ih

theorem tails_isPrefix (n : Nat) (low high : UInt8) (bs : List UInt8) :
    tails n low high bs <+: bs := by
  fun_induction tails n low high bs with
  | case1 | case2 | case4 => exact List.nil_prefix
  | case3 n low high b bs hb ih => exact List.cons_prefix_cons.2 ⟨rfl, ih⟩

/-- What is taken of some bytes is the longest beginning of them that is taken whole. -/
theorem isPrefix_tails_iff (h : ts <+: bs) :
    ts <+: tails n low high bs ↔ tails n low high ts = ts := by
  induction n generalizing low high ts bs with
  | zero => rw [tails, tails, List.prefix_nil, eq_comm]
  | succ n ih =>
    cases ts with
    | nil => simp only [tails_nil, List.nil_prefix]
    | cons t ts =>
      obtain ⟨bs, rfl, hts⟩ := List.cons_prefix_iff.1 h
      rw [tails, tails]
      split_ifs with ht
      · rw [List.prefix_cons_inj, ih hts, List.cons_inj_right]
      · simp only [List.prefix_nil, reduceCtorEq]

theorem tails_idem : tails n low high (tails n low high bs) = tails n low high bs :=
  (isPrefix_tails_iff (tails_isPrefix n low high bs)).1 List.prefix_rfl

/-- Nothing is taken beyond a full run. -/
theorem tails_append (h : tails n low high ts = ts) (hlen : ts.length = n) (rest : List UInt8) :
    tails n low high (ts ++ rest) = ts := by
  have hts := (isPrefix_tails_iff (List.prefix_append ts rest)).2 h
  exact (hts.eq_of_length (hts.length_le.antisymm (hlen ▸ length_tails_le _ _ _ _))).symm

/-- Every run can be filled up. -/
theorem exists_full (hrange : low ≤ high) (h : tails n low high ts = ts) :
    ∃ more, tails n low high (ts ++ more) = ts ++ more ∧ (ts ++ more).length = n := by
  induction n generalizing low high ts with
  | zero =>
    obtain rfl : ts = [] := h.symm
    exact ⟨[], rfl, rfl⟩
  | succ n ih =>
    cases ts with
    | nil =>
      obtain ⟨more, hmore, hlen⟩ := ih (show (0x80 : UInt8) ≤ 0xBF by decide) (tails_nil n _ _)
      exact ⟨low :: more, tails_cons_iff.2 ⟨⟨le_rfl, UInt8.le_iff_toNat_le.1 hrange⟩, hmore⟩,
        congrArg (· + 1) hlen⟩
    | cons t ts =>
      obtain ⟨ht, h⟩ := tails_cons_iff.1 h
      obtain ⟨more, hmore, hlen⟩ := ih (by decide) h
      exact ⟨more, tails_cons_iff.2 ⟨ht, hmore⟩, congrArg (· + 1) hlen⟩

end Tails

/-! ## First bytes -/

/-- The table of first bytes, by number. -/
inductive Starts (b : UInt8) : Lead → Prop where
  | one (h : b.toNat < 0x80) : Starts b ⟨0, 0x80, 0xBF, b.toNat⟩
  | two (h : 0xC2 ≤ b.toNat ∧ b.toNat < 0xE0) : Starts b ⟨1, 0x80, 0xBF, b.toNat - 0xC0⟩
  | e0 (h : b.toNat = 0xE0) : Starts b ⟨2, 0xA0, 0xBF, 0⟩
  | ed (h : b.toNat = 0xED) : Starts b ⟨2, 0x80, 0x9F, 13⟩
  | three (h : 0xE0 < b.toNat ∧ b.toNat ≠ 0xED ∧ b.toNat < 0xF0) :
      Starts b ⟨2, 0x80, 0xBF, b.toNat - 0xE0⟩
  | f0 (h : b.toNat = 0xF0) : Starts b ⟨3, 0x90, 0xBF, 0⟩
  | four (h : 0xF0 < b.toNat ∧ b.toNat < 0xF4) : Starts b ⟨3, 0x80, 0xBF, b.toNat - 0xF0⟩
  | f4 (h : b.toNat = 0xF4) : Starts b ⟨3, 0x80, 0x8F, 4⟩

section Starts
variable {b : UInt8} {l : Lead}

theorem lead?_eq_some_iff : lead? b = some l ↔ Starts b l := by
  unfold lead?
  simp only [beq_iff_eq, ← UInt8.toNat_inj, UInt8.lt_iff_toNat_lt, UInt8.reduceToNat]
  constructor
  · intro h
    split_ifs at h <;> cases h <;> constructor <;> omega
  · intro h
    cases h with
    | one h => rw [if_pos h]
    | two h => rw [if_neg (by omega), if_neg (by omega), if_pos h.2]
    | e0 h => rw [if_neg (by omega), if_neg (by omega), if_neg (by omega), if_pos h]
    | ed h =>
      rw [if_neg (by omega), if_neg (by omega), if_neg (by omega), if_neg (by omega), if_pos h]
    | three h =>
      rw [if_neg (by omega), if_neg (by omega), if_neg (by omega), if_neg (by omega),
        if_neg h.2.1, if_pos h.2.2]
    | f0 h =>
      rw [if_neg (by omega), if_neg (by omega), if_neg (by omega), if_neg (by omega),
        if_neg (by omega), if_neg (by omega), if_pos h]
    | four h =>
      rw [if_neg (by omega), if_neg (by omega), if_neg (by omega), if_neg (by omega),
        if_neg (by omega), if_neg (by omega), if_neg (by omega), if_pos h.2]
    | f4 h =>
      rw [if_neg (by omega), if_neg (by omega), if_neg (by omega), if_neg (by omega),
        if_neg (by omega), if_neg (by omega), if_neg (by omega), if_neg (by omega), if_pos h]

theorem Starts.low_le_high (h : Starts b l) : l.low ≤ l.high := by
  cases h <;> (dsimp only; decide)

theorem Starts.tails_le (h : Starts b l) : l.tails ≤ 3 := by
  cases h <;> (dsimp only; decide)

end Starts

/-! ## Whole encodings -/

/-- A first byte with as many bytes after it as it calls for. -/
structure Whole (l : Lead) (b : UInt8) (ts : List UInt8) : Prop where
  starts : Starts b l
  tails : tails l.tails l.low l.high ts = ts
  length : ts.length = l.tails

/-- The number of the character that a first byte and the bytes after it stand for. -/
def Lead.code (l : Lead) (ts : List UInt8) : Nat :=
  ts.foldl (fun code t => code * 64 + (t.toNat - 0x80)) l.bits

section Whole
variable {b x y z : UInt8} {ts : List UInt8} {l : Lead} {c : Char}

/-- The table covers every character. -/
theorem exists_whole (c : Char) : ∃ l b ts, utf8EncodeChar c = b :: ts ∧ Whole l b ts := by
  have hc := toNat_lt_or_gt c
  simp only [utf8EncodeChar, show c.val.toNat = c.toNat from rfl]
  generalize c.toNat = v at hc
  split_ifs with h₁ h₂ h₃
  · refine ⟨_, _, _, rfl, .one ?_, rfl, rfl⟩
    rw [UInt8.toNat_ofNat']
    omega
  · refine ⟨_, _, _, rfl, .two ?_, ?_, rfl⟩ <;> simp <;> omega
  · -- The second byte has a range of its own at the numbers that two bytes have, and at surrogates.
    obtain h | h | h : v / 4096 = 0 ∨ v / 4096 = 13 ∨ v / 4096 ≠ 0 ∧ v / 4096 ≠ 13 := by omega
    · refine ⟨_, _, _, rfl, .e0 ?_, ?_, rfl⟩ <;> simp <;> omega
    · refine ⟨_, _, _, rfl, .ed ?_, ?_, rfl⟩ <;> simp <;> omega
    · refine ⟨_, _, _, rfl, .three ?_, ?_, rfl⟩ <;> simp <;> omega
  · -- So it has at the numbers that three bytes have, and next to the last character.
    obtain h | h | h : v / 262144 = 0 ∨ v / 262144 = 4 ∨ v / 262144 ≠ 0 ∧ v / 262144 ≠ 4 := by
      omega
    · refine ⟨_, _, _, rfl, .f0 ?_, ?_, rfl⟩ <;> simp <;> omega
    · refine ⟨_, _, _, rfl, .f4 ?_, ?_, rfl⟩ <;> simp <;> omega
    · refine ⟨_, _, _, rfl, .four ?_, ?_, rfl⟩ <;> simp <;> omega

theorem whole_of_encode (h : utf8EncodeChar c = b :: ts) : ∃ l, Whole l b ts := by
  obtain ⟨l, b', ts', heq, hl⟩ := exists_whole c
  obtain ⟨rfl, rfl⟩ := List.cons.inj (h.symm.trans heq)
  exact ⟨l, hl⟩

theorem encode_one (hb : b.toNat < 0x80) : utf8EncodeChar (Char.ofNat b.toNat) = [b] := by
  have hc : (Char.ofNat b.toNat).toNat = b.toNat := toNat_ofNat (.inl (by omega))
  rw [utf8EncodeChar_of_lt (by omega), hc, UInt8.ofNat_toNat]

theorem val_ofNat {v : Nat} (h : v.isValidChar) : (Char.ofNat v).val.toNat = v := toNat_ofNat h

theorem Whole.encode_two (h : Whole l b [x]) :
    utf8EncodeChar (Char.ofNat (l.code [x])) = [b, x] := by
  obtain ⟨hb, hts, hlen⟩ := h
  cases hb with
  | one | e0 | ed | three | f0 | four | f4 => cases hlen
  | two hb =>
    simp only [tails_cons_iff, tails_nil, UInt8.reduceToNat, and_true] at hts
    simp only [Lead.code, List.foldl_cons, List.foldl_nil]
    rw [utf8EncodeChar, val_ofNat (.inl (by omega)), if_neg (by omega), if_pos (by omega)]
    simp only [List.cons.injEq, and_true, ← UInt8.toNat_inj, UInt8.toNat_ofNat']
    omega

theorem Whole.encode_three (h : Whole l b [x, y]) :
    utf8EncodeChar (Char.ofNat (l.code [x, y])) = [b, x, y] := by
  obtain ⟨hb, hts, hlen⟩ := h
  cases hb with
  | one | two | f0 | four | f4 => cases hlen
  | e0 hb | ed hb | three hb =>
    simp only [tails_cons_iff, tails_nil, UInt8.reduceToNat, and_true] at hts
    simp only [Lead.code, List.foldl_cons, List.foldl_nil]
    rw [utf8EncodeChar, val_ofNat (by rw [Nat.isValidChar]; omega), if_neg (by omega),
      if_neg (by omega), if_pos (by omega)]
    simp only [List.cons.injEq, and_true, ← UInt8.toNat_inj, UInt8.toNat_ofNat']
    omega

theorem Whole.encode_four (h : Whole l b [x, y, z]) :
    utf8EncodeChar (Char.ofNat (l.code [x, y, z])) = [b, x, y, z] := by
  obtain ⟨hb, hts, hlen⟩ := h
  cases hb with
  | one | two | e0 | ed | three => cases hlen
  | f0 hb | four hb | f4 hb =>
    simp only [tails_cons_iff, tails_nil, UInt8.reduceToNat, and_true] at hts
    simp only [Lead.code, List.foldl_cons, List.foldl_nil]
    rw [utf8EncodeChar, val_ofNat (.inr (by omega)), if_neg (by omega), if_neg (by omega),
      if_neg (by omega)]
    simp only [List.cons.injEq, and_true, ← UInt8.toNat_inj, UInt8.toNat_ofNat']
    omega

/-- The character of a whole encoding has that encoding. -/
theorem Whole.encode (h : Whole l b ts) : utf8EncodeChar (Char.ofNat (l.code ts)) = b :: ts := by
  match ts with
  | [] =>
    obtain ⟨hb, -, hlen⟩ := h
    cases hb with
    | one hb => exact encode_one hb
    | two | e0 | ed | three | f0 | four | f4 => cases hlen
  | [x] => exact h.encode_two
  | [x, y] => exact h.encode_three
  | [x, y, z] => exact h.encode_four
  | _ :: _ :: _ :: _ :: ts =>
    have hlen := h.length
    have htails := h.starts.tails_le
    simp only [List.length_cons] at hlen
    omega

end Whole

/-! ## Beginnings of encodings -/

/-- The beginning of a character's encoding, or all of it. -/
def Opens (part : List UInt8) : Prop := ∃ c, part <+: utf8EncodeChar c

theorem opens_cons_iff {b : UInt8} {ts : List UInt8} :
    Opens (b :: ts) ↔ ∃ l, Starts b l ∧ tails l.tails l.low l.high ts = ts := by
  constructor
  · rintro ⟨c, hc⟩
    obtain ⟨ts', heq, hts⟩ := List.cons_prefix_iff.1 hc
    obtain ⟨l, hl⟩ := whole_of_encode heq
    exact ⟨l, hl.starts, (isPrefix_tails_iff hts).1 (hl.tails.symm ▸ hts)⟩
  · rintro ⟨l, hb, hts⟩
    obtain ⟨more, hmore, hlen⟩ := exists_full hb.low_le_high hts
    refine ⟨Char.ofNat (l.code (ts ++ more)), ?_⟩
    rw [Whole.encode ⟨hb, hmore, hlen⟩, List.prefix_cons_inj]
    exact List.prefix_append ts more

/-! ## Chunks -/

/-- No character is in front of some bytes, and `part` is as much of them as may be the beginning of a
character, or a single byte if none may begin like that. -/
structure Broken (part rest : List UInt8) : Prop where
  ne_nil : part ≠ []
  no_char : ∀ c, ¬utf8EncodeChar c <+: part ++ rest
  opens : Opens part ∨ part.length = 1
  longest : ∀ p, p <+: part ++ rest → Opens p → p.length ≤ part.length

namespace Broken
variable {part part' rest rest' : List UInt8} {b : UInt8}

theorem length_le_of_eq (h : Broken part rest) (h' : Broken part' rest')
    (heq : part ++ rest = part' ++ rest') : part.length ≤ part'.length := by
  rcases h.opens with ho | h1
  · exact h'.longest part (heq ▸ List.prefix_append part rest) ho
  · rw [h1]
    exact List.length_pos_iff.2 h'.ne_nil

theorem unique (h : Broken part rest) (h' : Broken part' rest')
    (heq : part ++ rest = part' ++ rest') : part = part' ∧ rest = rest' :=
  List.append_inj heq ((h.length_le_of_eq h' heq).antisymm (h'.length_le_of_eq h heq.symm))

/-- A broken encoding lacks a byte at least. -/
theorem length_lt {c : Char} (h : Broken part rest) (hc : part <+: utf8EncodeChar c) :
    part.length < (utf8EncodeChar c).length := by
  refine lt_of_le_of_ne hc.length_le fun hlen => h.no_char c ?_
  rw [← hc.eq_of_length hlen]
  exact List.prefix_append part rest

theorem length_le (h : Broken part rest) : part.length ≤ 3 := by
  rcases h.opens with ⟨c, hc⟩ | h1
  · have hlt := h.length_lt hc
    rw [String.length_utf8EncodeChar] at hlt
    have hsize := c.utf8Size_le_four
    omega
  · omega

theorem not_ascii (h : Broken part rest) (hb : b ∈ part) : ¬b < 0x80 := by
  intro hlt
  replace hlt : b.toNat < 128 := UInt8.lt_iff_toNat_lt.1 hlt
  rcases h.opens with ⟨c, hc⟩ | h1
  · have hc128 : c.toNat < 128 := by
      by_contra hge
      exact absurd hlt (Nat.not_lt.2 (le_toNat_of_mem_utf8EncodeChar (by omega) (hc.subset hb)))
    have hlen := h.length_lt hc
    rw [utf8EncodeChar_of_lt hc128, List.length_singleton, Nat.lt_one_iff] at hlen
    exact h.ne_nil (List.length_eq_zero_iff.1 hlen)
  · obtain ⟨a, rfl⟩ := List.length_eq_one_iff.1 h1
    obtain rfl := List.mem_singleton.1 hb
    refine h.no_char (Char.ofNat b.toNat) ?_
    rw [encode_one hlt]
    exact List.prefix_append _ _

end Broken

section Chunk
variable {b : UInt8} {bs ts : List UInt8} {l : Lead} {c : Char}

/-- The bytes in front and the bytes behind. -/
theorem cons_take_append_drop (b : UInt8) (bs : List UInt8) (n : Nat) :
    b :: bs.take n ++ bs.drop n = b :: bs :=
  congrArg (b :: ·) (List.take_append_drop n bs)

theorem chunk_of_none (h : lead? b = none) : chunk b bs = ⟨none, 0⟩ := by
  rw [chunk, h]

theorem chunk_of_starts (h : Starts b l) : chunk b bs =
    ⟨if (tails l.tails l.low l.high bs).length == l.tails then
        some (Char.ofNat (l.code (tails l.tails l.low l.high bs))) else none,
      (tails l.tails l.low l.high bs).length⟩ := by
  rw [chunk, lead?_eq_some_iff.2 h]
  rfl

theorem take_more (h : Starts b l) :
    bs.take (chunk b bs).more = tails l.tails l.low l.high bs := by
  rw [chunk_of_starts h, ← List.prefix_iff_eq_take.1 (tails_isPrefix _ _ _ _)]

/-- A character in front is read, and no more than it. -/
theorem chunk_encode (h : utf8EncodeChar c = b :: ts) (rest : List UInt8) :
    chunk b (ts ++ rest) = ⟨some c, ts.length⟩ := by
  obtain ⟨l, hl⟩ := whole_of_encode h
  have hc : Char.ofNat (l.code ts) = c := utf8EncodeChar_injective (hl.encode.trans h.symm)
  rw [chunk_of_starts hl.starts, tails_append hl.tails hl.length, hl.length, beq_self_eq_true,
    if_pos rfl, hc]

/-- What is read as a character is its encoding. -/
theorem eq_append_of_chunk (h : (chunk b bs).char? = some c) :
    b :: bs = utf8EncodeChar c ++ bs.drop (chunk b bs).more := by
  cases hb : lead? b with
  | none =>
    rw [chunk_of_none hb] at h
    cases h
  | some l =>
    have hl := lead?_eq_some_iff.1 hb
    rw [chunk_of_starts hl] at h ⊢
    split_ifs at h with hlen
    obtain rfl := Option.some.inj h
    rw [Whole.encode ⟨hl, tails_idem, beq_iff_eq.1 hlen⟩, List.cons_append,
      List.prefix_iff_eq_append.1 (tails_isPrefix _ _ _ _)]

/-- What is read as no character is broken. -/
theorem broken_of_chunk (h : (chunk b bs).char? = none) :
    Broken (b :: bs.take (chunk b bs).more) (bs.drop (chunk b bs).more) := by
  refine ⟨List.cons_ne_nil _ _, fun c hc => ?_, ?_, fun p hp ho => ?_⟩
  · -- A character in front would have been read.
    rw [cons_take_append_drop] at hc
    obtain ⟨rest, hrest⟩ := hc
    obtain ⟨a, ts, hts⟩ := List.exists_cons_of_ne_nil (String.utf8EncodeChar_ne_nil (c := c))
    rw [hts, List.cons_append, List.cons.injEq] at hrest
    obtain ⟨rfl, rfl⟩ := hrest
    rw [chunk_encode hts] at h
    cases h
  · cases hb : lead? b with
    | none =>
      rw [chunk_of_none hb]
      exact .inr rfl
    | some l =>
      have hl := lead?_eq_some_iff.1 hb
      rw [take_more hl]
      exact .inl (opens_cons_iff.2 ⟨l, hl, tails_idem⟩)
  · cases p with
    | nil => exact Nat.zero_le _
    | cons a ts =>
      rw [cons_take_append_drop, List.cons_prefix_cons] at hp
      obtain ⟨rfl, hts⟩ := hp
      obtain ⟨l, hl, hwhole⟩ := opens_cons_iff.1 ho
      rw [take_more hl]
      exact Nat.succ_le_succ ((isPrefix_tails_iff hts).2 hwhole).length_le

/-- Something broken in front is read as such, and no more than it. -/
theorem chunk_broken {rest : List UInt8} (h : Broken (b :: ts) rest) :
    (chunk b (ts ++ rest)).char? = none ∧ (ts ++ rest).drop (chunk b (ts ++ rest)).more = rest := by
  cases hc : (chunk b (ts ++ rest)).char? with
  | none => exact ⟨rfl, ((broken_of_chunk hc).unique h (cons_take_append_drop _ _ _)).2⟩
  | some c => exact absurd ⟨_, (eq_append_of_chunk hc).symm⟩ (h.no_char c)

end Chunk
end TokenDump.Utf8
