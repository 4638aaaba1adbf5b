import TokenDump.Proofs.CharClass
import TokenDump.Scanner.Rule

/-!
# Which rule is chosen

Whether a rule applies depends on two characters only, the current one and the one after it
(`Rule.applies`); what it takes may depend on all that follows (`Rule.taken`). `firstMatch_priority` is
the whole choice as one chain of tests, and the lemmas after it evaluate the chain where a text starts
with a word, a digit, an operator, a punctuation mark or a character that no rule takes.
-/

namespace TokenDump
open CharClass

theorem take_length_takeWhile {α : Type} (p : α → Bool) (l : List α) :
    l.take (l.takeWhile p).length = l.takeWhile p :=
  (List.prefix_iff_eq_take.1 (List.takeWhile_prefix p)).symm

namespace Rule

/-- Whether a rule applies at the character `c` with `next` after it, if any. -/
def applies (c : Char) (next : Option Char) : Rule → Bool
  | whiteSpace => isBlank c
  | directive => c == '#'
  | operatorPair => next.any (isOperatorPair c)
  | lineComment => c == '/' && next == some '/'
  | scopeResolution => c == ':' && next == some ':'
  | blockComment => c == '/' && next == some '*'
  | word => isWordStart c
  | number => c.isDigit
  | memberAccess => c == '-' && next == some '>' || c == '.'
  | singleOperator => isOperator c
  | punctuation => isPunctuation c
  | stringLiteral => c == '"'
  | charLiteral => c == '\''

/-- What a rule takes at the character `c` with `cs` after it, where it applies. -/
def taken (dialect : Dialect) (c : Char) (cs : List Char) : Rule → Match
  | whiteSpace => .blank (cs.takeWhile isBlank).length
  | directive => .token .directive (lineLength cs)
  | operatorPair => .token .operator 1
  | lineComment => .token .lineComment (lineLength cs)
  | scopeResolution => .token .scopeResolution 1
  | blockComment => .delimited .blockComment cs (commentLength 1 cs.tail)
  | word =>
    .token (.ofWord (String.ofList (c :: cs.takeWhile isWordPart))) (cs.takeWhile isWordPart).length
  | number => .token .number (numberLength dialect c cs)
  | memberAccess =>
    if c == '.' then .token (if dialect.memberAccessKinds then .dotAccess else .punctuation) 0
    else .token (if dialect.memberAccessKinds then .arrowAccess else .punctuation) 1
  | singleOperator => .token .operator 0
  | punctuation => .token .punctuation 0
  | stringLiteral => .delimited .stringLiteral cs (literalLength '"' 0 cs)
  | charLiteral => .delimited .charLiteral cs (literalLength '\'' 0 cs)

theorem apply_of_applies {dialect : Dialect} {c : Char} {cs : List Char} {r : Rule}
    (h : r.applies c cs.head? = true) : r.apply dialect c cs = some (r.taken dialect c cs) := by
  cases r with
  | operatorPair =>
    cases cs with
    | nil => cases h
    | cons d cs => exact if_pos h
  | word =>
    exact (if_pos h).trans (by rw [taken, take_length_takeWhile])
  | lineComment | scopeResolution | blockComment =>
    obtain ⟨hc, hcs⟩ := Bool.and_eq_true_iff.1 h
    obtain ⟨cs', rfl⟩ := List.head?_eq_some_iff.1 (beq_iff_eq.1 hcs)
    rw [beq_iff_eq.1 hc]
    rfl
  | memberAccess =>
    rcases Bool.or_eq_true_iff.1 h with h | hc
    · obtain ⟨hc, hcs⟩ := Bool.and_eq_true_iff.1 h
      obtain ⟨cs', rfl⟩ := List.head?_eq_some_iff.1 (beq_iff_eq.1 hcs)
      rw [beq_iff_eq.1 hc]
      rfl
    · rw [beq_iff_eq.1 hc]
      rfl
  | _ => exact if_pos h

theorem apply_of_not_applies {dialect : Dialect} {c : Char} {cs : List Char} {r : Rule}
    (h : r.applies c cs.head? = false) : r.apply dialect c cs = none := by
  have h' : ¬ r.applies c cs.head? = true := by rw [h]; exact Bool.false_ne_true
  cases r with
  | operatorPair =>
    cases cs with
    | nil => rfl
    | cons d cs => exact if_neg h'
  | lineComment | scopeResolution | blockComment =>
    rw [apply]
    rintro tail rfl rfl
    simp [applies] at h
  | memberAccess =>
    rw [apply]
    · rintro rfl
      simp [applies] at h
    · rintro tail rfl rfl
      simp [applies] at h
  | _ => exact if_neg h'

end Rule

theorem firstMatch_nil (dialect : Dialect) (c : Char) (cs : List Char) :
    firstMatch [] dialect c cs = .token .unknown 0 := rfl

theorem firstMatch_cons (r : Rule) (rules : List Rule) (dialect : Dialect) (c : Char) (cs : List Char) :
    firstMatch (r :: rules) dialect c cs =
      if r.applies c cs.head? then r.taken dialect c cs else firstMatch rules dialect c cs := by
  rw [firstMatch, List.findSome?_cons]
  cases h : r.applies c cs.head? with
  | true => rw [Rule.apply_of_applies h]; rfl
  | false => rw [Rule.apply_of_not_applies h]; rfl

/-- What the rules take, as one chain of tests: the rule that is chosen depends on the current character and
the one after it. -/
theorem firstMatch_priority (dialect : Dialect) (c : Char) (cs : List Char) :
    firstMatch Rule.priority dialect c cs =
      if isBlank c then .blank (cs.takeWhile isBlank).length
      else if c == '#' then .token .directive (lineLength cs)
      else if cs.head?.any (isOperatorPair c) then .token .operator 1
      else if c == '/' && cs.head? == some '/' then .token .lineComment (lineLength cs)
      else if c == ':' && cs.head? == some ':' then .token .scopeResolution 1
      else if c == '/' && cs.head? == some '*' then .delimited .blockComment cs (commentLength 1 cs.tail)
      else if isWordStart c then
        .token (.ofWord (String.ofList (c :: cs.takeWhile isWordPart))) (cs.takeWhile isWordPart).length
      else if c.isDigit then .token .number (numberLength dialect c cs)
      else if c == '-' && cs.head? == some '>' || c == '.' then
        if c == '.' then .token (if dialect.memberAccessKinds then .dotAccess else .punctuation) 0
        else .token (if dialect.memberAccessKinds then .arrowAccess else .punctuation) 1
      else if isOperator c then .token .operator 0
      else if isPunctuation c then .token .punctuation 0
      else if c == '"' then .delimited .stringLiteral cs (literalLength '"' 0 cs)
      else if c == '\'' then .delimited .charLiteral cs (literalLength '\'' 0 cs)
      else .token .unknown 0 := by
  simp only [Rule.priority, firstMatch_cons, firstMatch_nil]
  rfl

/-! ## The chain at the start of a token -/

section Start
variable {c : Char} {cs : List Char} (dialect : Dialect)

theorem not_any_isOperatorPair (h : ¬ isOperator c = true) (next : Option Char) :
    ¬ next.any (isOperatorPair c) = true := by
  rw [Option.any_eq_true]
  rintro ⟨x, -, hx⟩
  rw [isOperatorPair_iff] at hx
  rw [isOperator_iff] at h
  omega

theorem firstMatch_word (h : isWordStart c = true) :
    firstMatch Rule.priority dialect c cs =
      .token (.ofWord (String.ofList (c :: cs.takeWhile isWordPart)))
        (cs.takeWhile isWordPart).length := by
  have hc := isWordStart_iff.1 h
  have ho : ¬ isOperator c = true := by rw [isOperator_iff]; omega
  rw [firstMatch_priority, if_neg, if_neg, if_neg (not_any_isOperatorPair ho _), if_neg, if_neg,
    if_neg, if_pos h]
  all_goals
    simp only [isBlank_iff, Bool.and_eq_true, beq_iff_eq, ← Char.toNat_inj, Char.reduceToNat]
    omega

theorem firstMatch_digit (h : c.isDigit = true) :
    firstMatch Rule.priority dialect c cs = .token .number (numberLength dialect c cs) := by
  have hc := isDigit_iff.1 h
  have ho : ¬ isOperator c = true := by rw [isOperator_iff]; omega
  rw [firstMatch_priority, if_neg, if_neg, if_neg (not_any_isOperatorPair ho _), if_neg, if_neg,
    if_neg, if_neg, if_pos h]
  all_goals
    simp only [isBlank_iff, isWordStart_iff, Bool.and_eq_true, beq_iff_eq, ← Char.toNat_inj,
      Char.reduceToNat]
    omega

theorem pair_isPrefix_cons {x y : Char} : [x, y] <+: c :: cs ↔ c = x ∧ cs.head? = some y := by
  cases cs with
  | nil => simp
  | cons d cs => simp [List.cons_prefix_cons, eq_comm]

theorem firstMatch_pair {x : Char} (h : isOperatorPair c x = true) :
    firstMatch Rule.priority dialect c (x :: cs) = .token .operator 1 := by
  have hc := isOperatorPair_iff.1 h
  have hhead : (x :: cs).head?.any (isOperatorPair c) = true := h
  rw [firstMatch_priority, if_neg, if_neg, if_pos hhead]
  all_goals
    simp only [isBlank_iff, beq_iff_eq, ← Char.toNat_inj, Char.reduceToNat]
    omega

theorem firstMatch_arrow : firstMatch Rule.priority dialect '-' ('>' :: cs) =
    .token (if dialect.memberAccessKinds then .arrowAccess else .punctuation) 1 := rfl

theorem firstMatch_dot : firstMatch Rule.priority dialect '.' cs =
    .token (if dialect.memberAccessKinds then .dotAccess else .punctuation) 0 := by
  cases cs <;> rfl

theorem firstMatch_doubleQuote : firstMatch Rule.priority dialect '"' cs =
    .delimited .stringLiteral cs (literalLength '"' 0 cs) := by
  cases cs <;> rfl

theorem firstMatch_singleQuote : firstMatch Rule.priority dialect '\'' cs =
    .delimited .charLiteral cs (literalLength '\'' 0 cs) := by
  cases cs <;> rfl

/-- An operator stands alone where no pair, comment or arrow starts. -/
theorem firstMatch_operator (h : isOperator c = true)
    (hpair : ∀ x, isOperatorPair c x = true → ¬ [c, x] <+: c :: cs)
    (hline : ¬ ['/', '/'] <+: c :: cs) (hblock : ¬ ['/', '*'] <+: c :: cs)
    (harrow : ¬ ['-', '>'] <+: c :: cs) :
    firstMatch Rule.priority dialect c cs = .token .operator 0 := by
  have hc := isOperator_iff.1 h
  simp only [pair_isPrefix_cons, true_and] at hpair hline hblock harrow
  rw [firstMatch_priority, if_neg, if_neg, if_neg, if_neg, if_neg, if_neg, if_neg, if_neg, if_neg,
    if_pos h]
  · rw [Bool.or_eq_true, Bool.and_eq_true, beq_iff_eq, beq_iff_eq, beq_iff_eq]
    rintro (hc' | rfl)
    · exact harrow hc'
    · exact absurd h (by decide)
  · rw [isDigit_iff]
    omega
  · rw [isWordStart_iff]
    omega
  · simpa using hblock
  · simp only [Bool.and_eq_true, beq_iff_eq, ← Char.toNat_inj, Char.reduceToNat]
    omega
  · simpa using hline
  · rw [Option.any_eq_true]
    rintro ⟨x, hx, hp⟩
    exact hpair x hp hx
  · simp only [beq_iff_eq, ← Char.toNat_inj, Char.reduceToNat]
    omega
  · rw [isBlank_iff]
    omega

/-- The punctuation marks that are left once directives, words, dots and operators have taken
theirs. -/
def plainMarks : List Char :=
  ['$', '(', ')', ',', ':', ';', '?', '@', '[', '\\', ']', '\x60', '{', '}']

theorem mem_plainMarks : c ∈ plainMarks ↔
    isPunctuation c = true ∧ isOperator c = false ∧ c ≠ '#' ∧ c ≠ '_' ∧ c ≠ '.' := by
  simp only [plainMarks, List.mem_cons, List.not_mem_nil, or_false, isPunctuation_iff,
    Bool.eq_false_iff, ne_eq, isAlphanum_iff, isOperator_iff, ← Char.toNat_inj, Char.reduceToNat]
  omega

theorem firstMatch_plainMark (h : c ∈ plainMarks) (hscope : ¬ [':', ':'] <+: c :: cs) :
    firstMatch Rule.priority dialect c cs = .token .punctuation 0 := by
  obtain ⟨hp, ho, h1, h2, h3⟩ := mem_plainMarks.1 h
  have ho' : ¬ isOperator c = true := by rw [ho]; exact Bool.false_ne_true
  have hs : ¬ (c == ':' && cs.head? == some ':') = true := by
    rw [pair_isPrefix_cons] at hscope
    simpa using hscope
  have hc := isPunctuation_iff.1 hp
  simp only [Bool.eq_false_iff, ne_eq, isAlphanum_iff, isOperator_iff, ← Char.toNat_inj,
    Char.reduceToNat] at hc ho h1 h2 h3
  rw [firstMatch_priority, if_neg, if_neg, if_neg (not_any_isOperatorPair ho' _), if_neg, if_neg hs,
    if_neg, if_neg, if_neg, if_neg, if_neg ho', if_pos hp]
  all_goals
    simp only [isBlank_iff, isWordStart_iff, isDigit_iff, Bool.or_eq_true, Bool.and_eq_true,
      beq_iff_eq, ← Char.toNat_inj, Char.reduceToNat]
    omega

theorem firstMatch_unknown (hb : ¬ isBlank c = true) (hg : ¬ (33 ≤ c.toNat ∧ c.toNat ≤ 126)) :
    firstMatch Rule.priority dialect c cs = .token .unknown 0 := by
  have ho : ¬ isOperator c = true := by rw [isOperator_iff]; omega
  have hp : ¬ isPunctuation c = true := by rw [isPunctuation_iff]; omega
  rw [firstMatch_priority, if_neg hb, if_neg, if_neg (not_any_isOperatorPair ho _), if_neg, if_neg,
    if_neg, if_neg, if_neg, if_neg, if_neg ho, if_neg hp, if_neg, if_neg]
  all_goals
    simp only [isWordStart_iff, isDigit_iff, Bool.or_eq_true, Bool.and_eq_true, beq_iff_eq,
      ← Char.toNat_inj, Char.reduceToNat]
    omega

end Start

end TokenDump
