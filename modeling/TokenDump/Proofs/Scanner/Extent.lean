import Mathlib
import TokenDump.Proofs.CharClass
import TokenDump.Scanner.Rule

/-!
# How far a lexeme reaches

The extent of a lexeme is a longest or a shortest prefix of what is left of the text, in a language of
character lists (`Longest`, `Shortest`, `ShortestOrAll`). Each of the four ways in which a rule
measures its extent computes such a prefix: runs of a class of characters (`longest_takeWhile`),
numbers with an exponent (`longest_exponentLength`), block comments (`commentLength_eq_some`) and quoted
literals (`literalLength_eq_some_iff`).
-/

namespace TokenDump
open CharClass

/-! ## Longest and shortest prefixes -/

/-- `w` is the longest prefix of `r` in the language `L`. -/
def Longest (L : List Char → Prop) (r w : List Char) : Prop :=
  w <+: r ∧ L w ∧ ∀ v, v <+: r → L v → v.length ≤ w.length

/-- `w` is the shortest prefix of `r` in the language `L`. -/
def Shortest (L : List Char → Prop) (r w : List Char) : Prop :=
  w <+: r ∧ L w ∧ ∀ v, v <+: r → L v → w.length ≤ v.length

/-- `w` is the shortest prefix of `r` in the language `L`, or all of `r` if there is none. -/
def ShortestOrAll (L : List Char → Prop) (r w : List Char) : Prop :=
  Shortest L r w ∨ (∀ v, v <+: r → ¬ L v) ∧ w = r

section Prefixes
variable {L : List Char → Prop} {r v w : List Char}

theorem Longest.unique (hv : Longest L r v) (hw : Longest L r w) : v = w :=
  have hle : v.length ≤ w.length := hw.2.2 v hv.1 hv.2.1
  (List.prefix_of_prefix_length_le hv.1 hw.1 hle).eq_of_length
    (le_antisymm hle (hv.2.2 w hw.1 hw.2.1))

theorem Shortest.unique (hv : Shortest L r v) (hw : Shortest L r w) : v = w :=
  have hle : v.length ≤ w.length := hv.2.2 w hw.1 hw.2.1
  (List.prefix_of_prefix_length_le hv.1 hw.1 hle).eq_of_length
    (le_antisymm hle (hw.2.2 v hv.1 hv.2.1))

theorem ShortestOrAll.unique (hv : ShortestOrAll L r v) (hw : ShortestOrAll L r w) : v = w := by
  rcases hv with hv | ⟨hv, rfl⟩ <;> rcases hw with hw | ⟨hw, rfl⟩
  · exact hv.unique hw
  · exact absurd hv.2.1 (hw v hv.1)
  · exact absurd hw.2.1 (hv w hw.1)
  · rfl

/-- A longest prefix stays one in front of another text, if every word of the language that is a
prefix there is one here. -/
theorem Longest.congr {r' : List Char} (h : Longest L r w) (hw : w <+: r')
    (hr : ∀ v, v <+: r' → L v → v <+: r) : Longest L r' w :=
  ⟨hw, h.2.1, fun v hv hL => h.2.2 v (hr v hv hL) hL⟩

/-- A shortest prefix does not depend on what comes after it. -/
theorem Shortest.congr {r' : List Char} (h : Shortest L r w) (hw : w <+: r') : Shortest L r' w := by
  refine ⟨hw, h.2.1, fun v hv hL => ?_⟩
  by_contra hlt
  have hvw : v <+: w := List.prefix_of_prefix_length_le hv hw (by omega)
  exact hlt (h.2.2 v (hvw.trans h.1) hL)

end Prefixes

theorem longest_takeWhile (p : Char → Bool) (cs : List Char) :
    Longest (fun w => ∀ c ∈ w, p c = true) cs (cs.takeWhile p) := by
  refine ⟨List.takeWhile_prefix p, fun c hc => List.mem_takeWhile_imp hc, fun v hv hp => ?_⟩
  obtain ⟨tail, rfl⟩ := hv
  rw [List.takeWhile_append_of_pos hp, List.length_append]
  exact Nat.le_add_right _ _

/-! ## Block comments -/

theorem commentLength_eq_some {n m : Nat} {cs : List Char} (h : commentLength n cs = some m) :
    ∃ k, m = n + k ∧ k ≤ cs.length ∧ Shortest (['*', '/'] <:+ ·) cs (cs.take k) := by
  fun_induction commentLength n cs with
  | case1 n => cases h
  | case2 n cs =>
    refine ⟨2, (Option.some.inj h).symm, by simp, List.take_prefix 2 _, by simp, fun v _ hv => ?_⟩
    simpa using hv.length_le
  | case3 n c cs hc ih =>
    obtain ⟨k, rfl, hk, -, hsuf, hmin⟩ := ih h
    refine ⟨k + 1, by omega, by simpa using hk, List.take_prefix _ _, ?_, fun v hv hsuf' => ?_⟩
    · rw [List.take_succ_cons]
      exact hsuf.trans (List.suffix_cons c _)
    · rcases v with _ | ⟨x, v⟩
      · simp at hsuf'
      · obtain ⟨rfl, hv'⟩ := List.cons_prefix_cons.1 hv
        rcases List.suffix_cons_iff.1 hsuf' with heq | hsuf'
        · obtain ⟨rfl, rfl⟩ := List.cons.inj heq
          obtain ⟨tail, rfl⟩ := hv'
          exact (hc tail rfl rfl).elim
        · simpa using hmin v hv' hsuf'

theorem commentLength_eq_none {n : Nat} {cs : List Char} (h : commentLength n cs = none) :
    ∀ v, v <+: cs → ¬ ['*', '/'] <:+ v := by
  fun_induction commentLength n cs with
  | case1 n =>
    intro v hv hsuf
    obtain rfl := List.prefix_nil.1 hv
    simp at hsuf
  | case2 n cs => cases h
  | case3 n c cs hc ih =>
    intro v hv hsuf
    rcases v with _ | ⟨x, v⟩
    · simp at hsuf
    · obtain ⟨rfl, hv'⟩ := List.cons_prefix_cons.1 hv
      rcases List.suffix_cons_iff.1 hsuf with heq | hsuf
      · obtain ⟨rfl, rfl⟩ := List.cons.inj heq
        obtain ⟨tail, rfl⟩ := hv'
        exact hc tail rfl rfl
      · exact ih h v hv' hsuf

/-! ## Quoted literals -/

/-- What stands between the quotes of a literal: characters other than the quote and the backslash, and
backslashes with the character they hide. -/
inductive LiteralBody (quote : Char) : List Char → Prop
  | nil : LiteralBody quote []
  | plain {c : Char} {body : List Char} (hquote : c ≠ quote) (hslash : c ≠ '\\')
      (later : LiteralBody quote body) : LiteralBody quote (c :: body)
  | escape {c : Char} {body : List Char} (later : LiteralBody quote body) :
      LiteralBody quote ('\\' :: c :: body)

section Literals
variable {quote c : Char} {n m : Nat} {cs body : List Char}

theorem literalLength_quote : literalLength quote n (quote :: cs) = some (n + 1) := by
  cases cs <;> simp [literalLength]

theorem literalLength_plain (hquote : c ≠ quote) (hslash : c ≠ '\\') :
    literalLength quote n (c :: cs) = literalLength quote (n + 1) cs := by
  cases cs <;> simp [literalLength, hquote, hslash]

theorem literalLength_escape (hq : quote ≠ '\\') :
    literalLength quote n ('\\' :: c :: cs) = literalLength quote (n + 2) cs := by
  simp [literalLength, hq.symm]

theorem literalLength_of_body (hq : quote ≠ '\\') (h : LiteralBody quote body) :
    literalLength quote n (body ++ quote :: cs) = some (n + body.length + 1) := by
  induction h generalizing n with
  | nil => exact literalLength_quote
  | plain hquote hslash _ ih =>
    rw [List.cons_append, literalLength_plain hquote hslash, ih, List.length_cons]
    congr 1
    omega
  | escape _ ih =>
    rw [List.cons_append, List.cons_append, literalLength_escape hq, ih, List.length_cons,
      List.length_cons]
    congr 1
    omega

theorem exists_body_of_literalLength (h : literalLength quote n cs = some m) :
    ∃ body, LiteralBody quote body ∧ body ++ [quote] <+: cs ∧ m = n + body.length + 1 := by
  fun_induction literalLength quote n cs with
  | case1 => cases h
  | case2 n c hc =>
    rw [beq_iff_eq.1 hc]
    exact ⟨[], .nil, List.prefix_rfl, (Option.some.inj h).symm⟩
  | case3 => cases h
  | case4 n c d cs hc =>
    rw [beq_iff_eq.1 hc]
    exact ⟨[], .nil, ⟨d :: cs, rfl⟩, (Option.some.inj h).symm⟩
  | case5 n c d cs _ hc ih =>
    obtain ⟨body, hbody, hprefix, rfl⟩ := ih h
    rw [beq_iff_eq.1 hc]
    refine ⟨'\\' :: d :: body, .escape hbody, ?_, by simp only [List.length_cons]; omega⟩
    simpa using hprefix
  | case6 n c d cs hquote hslash ih =>
    obtain ⟨body, hbody, hprefix, rfl⟩ := ih h
    rw [beq_iff_eq] at hquote hslash
    refine ⟨c :: body, .plain hquote hslash hbody, ?_, by simp only [List.length_cons]; omega⟩
    simpa using hprefix

theorem literalLength_eq_some_iff (hq : quote ≠ '\\') : literalLength quote n cs = some m ↔
    ∃ body, LiteralBody quote body ∧ body ++ [quote] <+: cs ∧ m = n + body.length + 1 := by
  refine ⟨exists_body_of_literalLength, ?_⟩
  rintro ⟨body, hbody, ⟨tail, rfl⟩, rfl⟩
  rw [List.append_assoc]
  exact literalLength_of_body hq hbody

end Literals

/-! ## Numbers -/

/-- What may follow the first digit of an extended number that is not in base sixteen. -/
inductive ExponentTail : List Char → Prop
  | nil : ExponentTail []
  | part {c : Char} {w : List Char} (hc : isExtendedNumberPart c = true) (later : ExponentTail w) :
      ExponentTail (c :: w)
  | exponent {mark sign digit : Char} {w : List Char} (hmark : isExponentMark mark = true)
      (hsign : isSign sign = true) (hdigit : digit.isDigit = true) (later : ExponentTail w) :
      ExponentTail (mark :: sign :: digit :: w)

section Exponents
variable {before c d : Char} {cs w : List Char}

theorem isExtendedNumberPart_of_isExponentMark (h : isExponentMark c = true) :
    isExtendedNumberPart c = true := by
  rw [isExponentMark_iff] at h
  rw [isExtendedNumberPart_iff, isAlphanum_iff]
  omega

theorem isExtendedNumberPart_of_isDigit (h : c.isDigit = true) : isExtendedNumberPart c = true := by
  rw [isExtendedNumberPart, Char.isAlphanum, h, Bool.or_true, Bool.true_or]

theorem not_isExponentMark_of_isDigit (h : c.isDigit = true) : ¬ isExponentMark c = true := by
  rw [isDigit_iff] at h
  rw [isExponentMark_iff]
  omega

theorem exponentLength_part (h : isExtendedNumberPart c = true) :
    exponentLength before 0 (c :: cs) = exponentLength c 0 cs + 1 := by
  rw [exponentLength, h, Bool.true_or, if_pos rfl]
  exact exponentLength_add c 0 1 cs

theorem exponentLength_sign (hmark : isExponentMark before = true) (hsign : isSign c = true)
    (hdigit : d.isDigit = true) :
    exponentLength before 0 (c :: d :: cs) = exponentLength c 0 (d :: cs) + 1 := by
  rw [exponentLength, hmark, hsign, List.head?_cons, Option.any_some, hdigit, if_pos (by simp)]
  exact exponentLength_add c 0 1 (d :: cs)

theorem exponentLength_le (before : Char) (cs : List Char) :
    exponentLength before 0 cs ≤ cs.length := by
  induction cs generalizing before with
  | nil => exact le_rfl
  | cons c cs ih =>
    rw [exponentLength]
    split
    · have hadd : exponentLength c (0 + 1) cs = exponentLength c 0 cs + 1 :=
        exponentLength_add c 0 1 cs
      rw [hadd]
      exact Nat.succ_le_succ (ih c)
    · exact Nat.zero_le _

theorem length_le_exponentLength (h : ExponentTail w) (before : Char) (hw : w <+: cs) :
    w.length ≤ exponentLength before 0 cs := by
  obtain ⟨rest, rfl⟩ := hw
  induction h generalizing before with
  | nil => exact Nat.zero_le _
  | @part c w hc _ ih =>
    rw [List.cons_append, exponentLength_part hc]
    exact Nat.succ_le_succ (ih c)
  | @exponent mark sign digit w hmark hsign hdigit _ ih =>
    rw [List.cons_append, List.cons_append, List.cons_append,
      exponentLength_part (isExtendedNumberPart_of_isExponentMark hmark),
      exponentLength_sign hmark hsign hdigit,
      exponentLength_part (isExtendedNumberPart_of_isDigit hdigit)]
    exact Nat.succ_le_succ (Nat.succ_le_succ (Nat.succ_le_succ (ih digit)))

/-- The run is in the language, unless it starts in the middle of an exponent. -/
theorem exponentTail_take (before : Char) (cs : List Char)
    (hstart : isExponentMark before = true →
      ∀ sign digit rest, cs = sign :: digit :: rest → isSign sign = true → ¬ digit.isDigit = true) :
    ExponentTail (cs.take (exponentLength before 0 cs)) := by
  match cs with
  | [] => exact .nil
  | c :: cs =>
    by_cases hc : isExtendedNumberPart c = true
    · rw [exponentLength_part hc, List.take_succ_cons]
      by_cases hexp : isExponentMark c = true ∧
          ∃ sign digit rest, cs = sign :: digit :: rest ∧ isSign sign = true ∧ digit.isDigit = true
      · obtain ⟨hmark, sign, digit, rest, rfl, hsign, hdigit⟩ := hexp
        rw [exponentLength_sign hmark hsign hdigit, List.take_succ_cons,
          exponentLength_part (isExtendedNumberPart_of_isDigit hdigit), List.take_succ_cons]
        refine .exponent hmark hsign hdigit (exponentTail_take digit rest fun hmark' => ?_)
        exact absurd hmark' (not_isExponentMark_of_isDigit hdigit)
      · refine .part hc (exponentTail_take c cs fun hmark sign digit rest hcs hsign hdigit => ?_)
        exact hexp ⟨hmark, sign, digit, rest, hcs, hsign, hdigit⟩
    · have hzero : exponentLength before 0 (c :: cs) = 0 := by
        rw [exponentLength, if_neg]
        rw [Bool.or_eq_true, Bool.and_eq_true, Bool.and_eq_true, Option.any_eq_true]
        rintro (hc' | ⟨⟨hmark, hsign⟩, digit, hhead, hdigit⟩)
        · exact hc hc'
        · obtain ⟨rest, rfl⟩ := List.head?_eq_some_iff.1 hhead
          exact hstart hmark c digit rest rfl hsign hdigit
      rw [hzero]
      exact .nil
termination_by cs.length

theorem longest_exponentLength (h : c.isDigit = true) (cs : List Char) :
    Longest ExponentTail cs (cs.take (exponentLength c 0 cs)) := by
  refine ⟨List.take_prefix _ _, exponentTail_take c cs fun hmark => ?_, fun v hv hL => ?_⟩
  · exact absurd hmark (not_isExponentMark_of_isDigit h)
  · rw [List.length_take, Nat.min_eq_left (exponentLength_le c cs)]
    exact length_le_exponentLength hL c hv

end Exponents

end TokenDump
