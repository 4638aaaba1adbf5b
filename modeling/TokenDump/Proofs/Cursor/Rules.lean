import TokenDump.Proofs.Cursor.Loops

/-!
# What the rules take

Where a character stands at the cursor, a rule on bytes applies just where the rule on characters does,
and takes as much (`tryRule_eq`): a single byte that it compares is that of an ASCII character, or else
no test for one succeeds. So the rules have no fault there, and the first of them to apply moves the cursor
to the next place between two characters (`applyRules_eq`).
-/

namespace TokenDump.Cursor
open CharClass Utf8
open String (utf8Len)

/-- A match at a character, as a step of the cursor. -/
def stepOf (pos : Nat) (c : Char) (cs : List Char) (m : Match) : Step :=
  ⟨m.kind, pos + utf8Len (c :: cs.take m.more)⟩

section Guards
variable {text : String} {pos : Nat} {c x y : Char} {cs : List Char}

theorem lead_beq (hx : x.toNat < 128) (c : Char) : (lead c == x) = (c == x) :=
  (ascii_beq hx).lead_eq c

/-- Two ASCII bytes stand at the cursor just where two characters do. -/
theorem lead_beq_pair (h : Stands text pos (c :: cs)) (hx : x.toNat < 128) (hy : y.toNat < 128) :
    (lead c == x && byteAt? text (pos + 1) == some y) = (c == x && cs.head? == some y) := by
  rw [lead_beq hx]
  by_cases hc : c = x
  · subst hc
    rw [byteAt?_eq (h.cons hx), beq_map_lead hy]
  · have hfalse : (c == x) = false := beq_eq_false_iff_ne.2 hc
    rw [hfalse, Bool.false_and, Bool.false_and]

theorem ascii_isOperatorPair (c : Char) : Ascii (isOperatorPair c) := by
  intro x hx
  rw [isOperatorPair_iff] at hx
  omega

theorem any_isOperatorPair (h : Stands text pos (c :: cs)) :
    (byteAt? text (pos + 1)).any (isOperatorPair (lead c)) = cs.head?.any (isOperatorPair c) := by
  by_cases hc : c.toNat < 128
  · rw [byteAt?_eq (h.cons hc), lead_of_lt hc, any_map_lead (ascii_isOperatorPair c)]
  · have hfar : ∀ d : Char, 128 ≤ d.toNat → ¬ isOperator d = true := by
      intro d hd
      rw [isOperator_iff]
      omega
    have hlead := not_any_isOperatorPair (hfar (lead c) (le_toNat_lead (by omega)))
      (byteAt? text (pos + 1))
    have hnext := not_any_isOperatorPair (hfar c (by omega)) cs.head?
    rw [Bool.not_eq_true] at hlead hnext
    rw [hlead, hnext]

theorem emit_eq {applies : Bool} {kind : TokenKind} {stop : Except Fault Nat} {step : Step}
    (hstop : applies = true → stop = .ok step.pos) (hkind : step.kind = some kind) :
    emit applies kind stop = .ok (if applies then some step else none) := by
  cases applies with
  | false => rfl
  | true =>
    unfold emit
    rw [hstop rfl, ← hkind]
    rfl

end Guards

section Rules
variable {text : String} {pos : Nat} {c : Char} {cs : List Char} (dialect : Dialect)

/-- A match of a run of a class takes the run. -/
theorem stepOf_run (p : Char → Bool) {m : Match} (hm : m.more = (cs.takeWhile p).length) :
    stepOf pos c cs m = ⟨m.kind, pos + utf8Len (c :: cs.takeWhile p)⟩ := by
  rw [stepOf, hm, take_length_takeWhile]

theorem lineEnd_step (search : Search) (kind : TokenKind) (h : Stands text pos (c :: cs))
    (hc : c ≠ '\n') :
    lineEnd search text pos = .ok (stepOf pos c cs (.token kind (lineLength cs))).pos := by
  have hcs : (c != '\n') = true := by simpa using hc
  rw [lineEnd_eq search h, List.takeWhile_cons_of_pos (p := (· != '\n')) hcs,
    stepOf_run (· != '\n') rfl]

theorem pair_step {d : Char} (kind : TokenKind) (hc : c.toNat < 128) (hd : d.toNat < 128) :
    pos + 2 = (stepOf pos c (d :: cs) (.token kind 1)).pos := by
  show pos + 2 = pos + utf8Len [c, d]
  rw [utf8Len_cons_of_lt hc, utf8Len_cons_of_lt hd]
  rfl

theorem single_step (kind : TokenKind) (hc : c.toNat < 128) :
    pos + 1 = (stepOf pos c cs (.token kind 0)).pos := by
  show pos + 1 = pos + utf8Len [c]
  rw [utf8Len_cons_of_lt hc]
  rfl

theorem delimited_step (kind : TokenKind) (more : Option Nat) :
    stepOf pos c cs (.delimited kind cs more) =
      ⟨some kind, pos + utf8Len (c :: cs.take (more.getD cs.length))⟩ := by
  cases more <;> rfl

theorem commentEnd_step (search : Search) {body : List Char}
    (h : Stands text pos ('/' :: '*' :: body)) :
    commentEnd search text pos =
      .ok (stepOf pos '/' ('*' :: body)
        (.delimited .blockComment ('*' :: body) (commentLength 1 body))).pos := by
  rw [commentEnd_eq search h, delimited_step]
  have hadd : commentLength 1 body = (commentLength 0 body).map (· + 1) := commentLength_add 0 1 body
  have htake : ('*' :: body).take ((commentLength 1 body).getD ('*' :: body).length) =
      '*' :: body.take ((commentLength 0 body).getD body.length) := by
    rw [hadd]
    cases commentLength 0 body <;> rfl
  rw [htake, utf8Len_cons_of_lt (by decide), utf8Len_cons_of_lt (by decide), Nat.add_assoc,
    Nat.add_comm 2]

theorem literalEnd_step (kind : TokenKind) (h : Stands text pos (c :: cs)) (hc : c.toNat < 128)
    (hslash : c ≠ '\\') :
    literalEnd text c (pos + 1) =
      .ok (stepOf pos c cs (.delimited kind cs (literalLength c 0 cs))).pos := by
  rw [literalEnd_eq hc hslash (h.cons hc), delimited_step, utf8Len_cons_of_lt hc, literalRun,
    Nat.add_assoc, Nat.add_comm 1]

/-- A step over a run of characters of a class, with the first character in front of it. -/
theorem run_step {p : Char → Bool} (hp : Ascii p) (h : Stands text pos (c :: cs))
    (hc : c.toNat < 128) :
    skip text p (pos + 1) = .ok (pos + utf8Len (c :: cs.takeWhile p)) := by
  rw [skip_eq hp (h.cons hc), utf8Len_cons_of_lt hc]
  congr 1
  omega

theorem skipBlank_eq (h : Stands text pos (c :: cs)) : skipBlank text pos (isBlank (lead c)) =
    .ok (if isBlank c then some (stepOf pos c cs (.blank (cs.takeWhile isBlank).length))
      else none) := by
  rw [ascii_isBlank.lead_eq]
  unfold skipBlank
  cases hc : isBlank c with
  | false => rfl
  | true =>
    rw [if_pos rfl, if_pos rfl, skip_eq ascii_isBlank h, ok_bind, List.takeWhile_cons_of_pos hc]
    rw [stepOf_run isBlank rfl]
    rfl

theorem emitWord_eq (h : Stands text pos (c :: cs)) : emitWord text pos (isWordStart (lead c)) =
    .ok (if isWordStart c then some (stepOf pos c cs (Rule.word.taken dialect c cs)) else none) := by
  rw [ascii_isWordStart.lead_eq]
  unfold emitWord
  cases hc : isWordStart c with
  | false => rfl
  | true =>
    have hword : Stands text pos ((c :: cs.takeWhile isWordPart) ++ cs.dropWhile isWordPart) := by
      rwa [List.cons_append, List.takeWhile_append_dropWhile]
    rw [if_pos rfl, if_pos rfl, run_step ascii_isWordPart h (ascii_isWordStart c hc), ok_bind,
      slice_eq hword, ok_bind]
    rw [stepOf_run isWordPart rfl]
    rfl

/-- **A rule on bytes does what it does on characters.** -/
theorem tryRule_eq (search : Search) (h : Stands text pos (c :: cs)) (r : Rule) :
    tryRule search dialect text pos r =
      .ok (if r.applies c cs.head? then some (stepOf pos c cs (r.taken dialect c cs)) else none) := by
  unfold tryRule
  rw [current_eq h]
  cases r with
  | whiteSpace => exact skipBlank_eq h
  | directive =>
    show emit (lead c == '#') .directive (lineEnd search text pos) = _
    rw [lead_beq (by decide)]
    refine emit_eq (fun hc => lineEnd_step search .directive h ?_) rfl
    rw [beq_iff_eq.1 hc]
    decide
  | operatorPair =>
    show emit ((byteAt? text (pos + 1)).any (isOperatorPair (lead c))) .operator (.ok (pos + 2)) = _
    rw [any_isOperatorPair h]
    refine emit_eq (fun hpair => ?_) rfl
    obtain ⟨d, hd, hcd⟩ := (Option.any_eq_true _ _).1 hpair
    obtain ⟨cs', rfl⟩ := List.head?_eq_some_iff.1 hd
    have hlt := isOperatorPair_iff.1 hcd
    exact congrArg Except.ok (pair_step .operator (by omega) (by omega))
  | lineComment =>
    show emit (lead c == '/' && byteAt? text (pos + 1) == some '/') .lineComment
      (lineEnd search text pos) = _
    rw [lead_beq_pair h (by decide) (by decide)]
    refine emit_eq (fun hpair => lineEnd_step search .lineComment h ?_) rfl
    rw [beq_iff_eq.1 (Bool.and_eq_true_iff.1 hpair).1]
    decide
  | scopeResolution =>
    show emit (lead c == ':' && byteAt? text (pos + 1) == some ':') .scopeResolution
      (.ok (pos + 2)) = _
    rw [lead_beq_pair h (by decide) (by decide)]
    refine emit_eq (fun hpair => ?_) rfl
    obtain ⟨hc, hd⟩ := Bool.and_eq_true_iff.1 hpair
    obtain rfl := beq_iff_eq.1 hc
    obtain ⟨cs', rfl⟩ := List.head?_eq_some_iff.1 (beq_iff_eq.1 hd)
    exact congrArg Except.ok (pair_step .scopeResolution (by decide) (by decide))
  | blockComment =>
    show emit (lead c == '/' && byteAt? text (pos + 1) == some '*') .blockComment
      (commentEnd search text pos) = _
    rw [lead_beq_pair h (by decide) (by decide)]
    refine emit_eq (fun hpair => ?_) (by rw [Rule.taken, delimited_step])
    obtain ⟨hc, hd⟩ := Bool.and_eq_true_iff.1 hpair
    obtain rfl := beq_iff_eq.1 hc
    obtain ⟨cs', rfl⟩ := List.head?_eq_some_iff.1 (beq_iff_eq.1 hd)
    exact commentEnd_step search h
  | word => exact emitWord_eq dialect h
  | number =>
    show emit (lead c).isDigit .number (numberEnd text dialect pos) = _
    rw [ascii_isDigit.lead_eq]
    exact emit_eq (numberEnd_eq dialect h) rfl
  | memberAccess =>
    show (if (lead c == '-' && byteAt? text (pos + 1) == some '>') = true
      then emit true (if dialect.memberAccessKinds then .arrowAccess else .punctuation) (.ok (pos + 2))
      else emit (lead c == '.') (if dialect.memberAccessKinds then .dotAccess else .punctuation)
        (.ok (pos + 1))) = _
    rw [lead_beq_pair h (by decide) (by decide), lead_beq (by decide), Rule.applies]
    by_cases harrow : (c == '-' && cs.head? == some '>') = true
    · obtain ⟨hc, hd⟩ := Bool.and_eq_true_iff.1 harrow
      obtain rfl := beq_iff_eq.1 hc
      obtain ⟨cs', rfl⟩ := List.head?_eq_some_iff.1 (beq_iff_eq.1 hd)
      exact emit_eq (fun _ => congrArg Except.ok (pair_step _ (by decide) (by decide))) rfl
    · rw [if_neg harrow, Bool.eq_false_iff.2 harrow, Bool.false_or]
      by_cases hdot : c = '.'
      · subst hdot
        exact emit_eq (fun _ => congrArg Except.ok (single_step _ (by decide))) rfl
      · rw [beq_eq_false_iff_ne.2 hdot]
        rfl
  | singleOperator =>
    show emit (isOperator (lead c)) .operator (.ok (pos + 1)) = _
    rw [ascii_isOperator.lead_eq]
    exact emit_eq (fun hc => congrArg Except.ok (single_step .operator (ascii_isOperator c hc))) rfl
  | punctuation =>
    show emit (isPunctuation (lead c)) .punctuation (.ok (pos + 1)) = _
    rw [ascii_isPunctuation.lead_eq]
    refine emit_eq (fun hc => ?_) rfl
    exact congrArg Except.ok (single_step .punctuation (ascii_isPunctuation c hc))
  | stringLiteral =>
    show emit (lead c == '"') .stringLiteral (literalEnd text '"' (pos + 1)) = _
    rw [lead_beq (by decide)]
    refine emit_eq (fun hc => ?_) (by rw [Rule.taken, delimited_step])
    obtain rfl := beq_iff_eq.1 hc
    exact literalEnd_step .stringLiteral h (by decide) (by decide)
  | charLiteral =>
    show emit (lead c == '\'') .charLiteral (literalEnd text '\'' (pos + 1)) = _
    rw [lead_beq (by decide)]
    refine emit_eq (fun hc => ?_) (by rw [Rule.taken, delimited_step])
    obtain rfl := beq_iff_eq.1 hc
    exact literalEnd_step .charLiteral h (by decide) (by decide)

theorem takeUnknown_eq (h : Stands text pos (c :: cs)) :
    takeUnknown text pos = .ok (stepOf pos c cs (.token .unknown 0)) := by
  have hsize : utf8Len [c] = c.utf8Size := Nat.zero_add _
  have hslice : slice text pos (pos + c.utf8Size) = .ok (String.ofList [c]) := by
    have h' : Stands text pos ([c] ++ cs) := h
    rw [← hsize, slice_eq h']
  unfold takeUnknown
  rw [charSize_eq h, ok_bind, hslice, ok_bind]
  show Except.ok (Step.mk (some .unknown) (pos + c.utf8Size)) = _
  rw [← hsize]
  rfl

/-- The first rule to apply takes what it does on characters, whatever rules there are. -/
theorem applyRules_eq (search : Search) (h : Stands text pos (c :: cs)) (rules : List Rule) :
    applyRules search dialect text pos rules =
      .ok (stepOf pos c cs (firstMatch rules dialect c cs)) := by
  induction rules with
  | nil => exact takeUnknown_eq h
  | cons r rules ih =>
    rw [applyRules, tryRule_eq dialect search h, firstMatch_cons]
    cases r.applies c cs.head? with
    | true => rfl
    | false => exact ih

end Rules

end TokenDump.Cursor
