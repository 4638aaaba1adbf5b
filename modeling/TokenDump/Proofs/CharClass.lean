import Mathlib
import TokenDump.CharClass

/-!
# The character classes by number

Every class is a set of code points below 127, so that questions about two classes at once (which of
them overlap, which a given character is in) are linear arithmetic on `c.toNat`. `toNat_inj` turns an
equation between characters into one of numbers, and the `*_iff` lemmas spell each class out.
-/

namespace TokenDump.CharClass

variable {c d : Char}

theorem toNat_lt_or_gt (c : Char) : c.toNat < 0xD800 ∨ 0xDFFF < c.toNat ∧ c.toNat < 0x110000 :=
  c.valid

theorem toNat_ofNat {n : Nat} (h : n < 0xD800 ∨ 0xDFFF < n ∧ n < 0x110000) :
    (Char.ofNat n).toNat = n := by
  rw [Char.toNat_ofNat, if_pos h]

theorem isBlank_iff : isBlank c = true ↔ 9 ≤ c.toNat ∧ c.toNat ≤ 13 ∨ c.toNat = 32 := by
  simp only [isBlank, Bool.or_eq_true, beq_iff_eq, ← Char.toNat_inj, Char.reduceToNat]
  omega

theorem isDigit_iff : c.isDigit = true ↔ 48 ≤ c.toNat ∧ c.toNat ≤ 57 := by
  simp only [Char.isDigit, Bool.and_eq_true, decide_eq_true_eq, ge_iff_le, UInt32.le_iff_toNat_le]
  rfl

theorem isAlpha_iff :
    c.isAlpha = true ↔ 65 ≤ c.toNat ∧ c.toNat ≤ 90 ∨ 97 ≤ c.toNat ∧ c.toNat ≤ 122 := by
  simp only [Char.isAlpha, Char.isUpper, Char.isLower, Bool.or_eq_true, Bool.and_eq_true,
    decide_eq_true_eq, ge_iff_le, UInt32.le_iff_toNat_le]
  rfl

theorem isAlphanum_iff : c.isAlphanum = true ↔
    65 ≤ c.toNat ∧ c.toNat ≤ 90 ∨ 97 ≤ c.toNat ∧ c.toNat ≤ 122 ∨ 48 ≤ c.toNat ∧ c.toNat ≤ 57 := by
  rw [Char.isAlphanum, Bool.or_eq_true, isAlpha_iff, isDigit_iff]
  omega

theorem isWordStart_iff : isWordStart c = true ↔
    65 ≤ c.toNat ∧ c.toNat ≤ 90 ∨ 97 ≤ c.toNat ∧ c.toNat ≤ 122 ∨ c.toNat = 95 := by
  simp only [isWordStart, Bool.or_eq_true, isAlpha_iff, beq_iff_eq, ← Char.toNat_inj,
    Char.reduceToNat]
  omega

theorem isWordPart_iff : isWordPart c = true ↔ c.isAlphanum = true ∨ c.toNat = 95 := by
  simp only [isWordPart, Bool.or_eq_true, beq_iff_eq, ← Char.toNat_inj, Char.reduceToNat]

theorem isOperator_iff : isOperator c = true ↔
    c.toNat = 33 ∨ c.toNat = 37 ∨ c.toNat = 38 ∨ c.toNat = 42 ∨ c.toNat = 43 ∨ c.toNat = 45 ∨
      c.toNat = 47 ∨ 60 ≤ c.toNat ∧ c.toNat ≤ 62 ∨ c.toNat = 94 ∨ c.toNat = 124 ∨ c.toNat = 126 := by
  simp only [isOperator, List.contains_iff_mem, List.mem_cons, ← Char.toNat_inj, Char.reduceToNat,
    List.not_mem_nil, or_false]
  omega

theorem isOperatorPair_iff : isOperatorPair c d = true ↔
    c.toNat = 60 ∧ d.toNat = 60 ∨ c.toNat = 62 ∧ d.toNat = 62 ∨ c.toNat = 60 ∧ d.toNat = 61 ∨
      c.toNat = 62 ∧ d.toNat = 61 ∨ c.toNat = 61 ∧ d.toNat = 61 ∨ c.toNat = 33 ∧ d.toNat = 61 ∨
      c.toNat = 43 ∧ d.toNat = 43 ∨ c.toNat = 45 ∧ d.toNat = 45 ∨ c.toNat = 42 ∧ d.toNat = 42 := by
  simp only [isOperatorPair, operatorPairs, List.contains_iff_mem, List.mem_cons, Prod.mk.injEq,
    ← Char.toNat_inj, Char.reduceToNat, List.not_mem_nil, or_false]

theorem isPunctuation_iff : isPunctuation c = true ↔
    33 ≤ c.toNat ∧ c.toNat ≤ 126 ∧ c.isAlphanum = false ∧ c.toNat ≠ 34 ∧ c.toNat ≠ 39 := by
  simp only [isPunctuation, Bool.and_eq_true, decide_eq_true_eq, Bool.not_eq_true', bne_iff_ne,
    ne_eq, ← Char.toNat_inj, Char.reduceToNat, Char.le_def, UInt32.le_iff_toNat_le]
  exact ⟨fun ⟨⟨⟨⟨h1, h2⟩, h3⟩, h4⟩, h5⟩ => ⟨h1, h2, h3, h4, h5⟩,
    fun ⟨h1, h2, h3, h4, h5⟩ => ⟨⟨⟨⟨h1, h2⟩, h3⟩, h4⟩, h5⟩⟩

theorem isNumberPart_iff : isNumberPart c = true ↔ c.isDigit = true ∨ c.toNat = 46 := by
  simp only [isNumberPart, Bool.or_eq_true, beq_iff_eq, ← Char.toNat_inj, Char.reduceToNat]

theorem isExtendedNumberPart_iff :
    isExtendedNumberPart c = true ↔ c.isAlphanum = true ∨ c.toNat = 46 := by
  simp only [isExtendedNumberPart, Bool.or_eq_true, beq_iff_eq, ← Char.toNat_inj, Char.reduceToNat]

theorem isExponentMark_iff : isExponentMark c = true ↔ c.toNat = 101 ∨ c.toNat = 69 := by
  simp only [isExponentMark, Bool.or_eq_true, beq_iff_eq, ← Char.toNat_inj, Char.reduceToNat]

theorem isSign_iff : isSign c = true ↔ c.toNat = 43 ∨ c.toNat = 45 := by
  simp only [isSign, Bool.or_eq_true, beq_iff_eq, ← Char.toNat_inj, Char.reduceToNat]

end TokenDump.CharClass
