import TokenDump.Proofs.Scanner.Choice
import TokenDump.Scan

/-!
# Which order of the rules matters

Two rules may apply at the same place only if one of them is a single operator or a punctuation mark
(`mem_earlier_of_applies`). So all that matters about the order of the rules is that the rules which take
more of such a character, or something else of it, are tried before those two (`Admissible`). In such an
order the same rule is the first to apply (`find?_applies_eq`), and so the scans are the same
(`finds_trying`). Out of such an order some text of one or two characters is scanned in another way: at the
sample of a rule, no other rule takes the same token (`eq_of_sample`).
-/

namespace TokenDump
open CharClass

namespace Rule

/-- The rules that have to be tried before a rule. -/
def earlier : Rule → List Rule
  | singleOperator => [operatorPair, lineComment, blockComment, memberAccess]
  | punctuation =>
    [directive, operatorPair, lineComment, scopeResolution, blockComment, word, memberAccess,
      singleOperator]
  | _ => []

/-- An order in which every rule is tried behind those that have to be tried before it. -/
def Admissible (rules : List Rule) : Prop :=
  ∀ s : Rule, ∀ r ∈ s.earlier, rules.idxOf r < rules.idxOf s

theorem mem_priority (r : Rule) : r ∈ priority := by
  cases r <;> decide

instance (rules : List Rule) : Decidable (Admissible rules) :=
  decidable_of_iff (∀ s ∈ priority, ∀ r ∈ s.earlier, rules.idxOf r < rules.idxOf s)
    ⟨fun h s => h s s.mem_priority, fun h s _ => h s⟩

/-! ## Rules that apply at once -/

section Overlap
variable {c : Char} {next : Option Char} {r s : Rule}

/-- What a rule asks of two code points: that of the current character, and that of the one after it or
zero if there is none. -/
def Asks (m n : Nat) : Rule → Prop
  | whiteSpace => m ≤ 32
  | directive => m = 35
  | operatorPair => m = 33 ∨ m = 42 ∧ n = 42 ∨ m = 43 ∧ n = 43 ∨ m = 45 ∧ n = 45 ∨ 60 ≤ m ∧ m ≤ 62
  | lineComment => m = 47 ∧ n = 47
  | scopeResolution => m = 58 ∧ n = 58
  | blockComment => m = 47 ∧ n = 42
  | word => 65 ≤ m ∧ m ≤ 90 ∨ m = 95 ∨ 97 ≤ m ∧ m ≤ 122
  | number => 48 ≤ m ∧ m ≤ 57
  | memberAccess => m = 45 ∧ n = 62 ∨ m = 46
  | singleOperator =>
    m = 33 ∨ m = 37 ∨ m = 38 ∨ m = 42 ∨ m = 43 ∨ m = 45 ∨ m = 47 ∨ 60 ≤ m ∧ m ≤ 62 ∨ m = 94 ∨ m = 124 ∨
      m = 126
  | punctuation => 33 ≤ m ∧ m ≤ 126 ∧ ¬ (48 ≤ m ∧ m ≤ 57) ∧ m ≠ 34 ∧ m ≠ 39
  | stringLiteral => m = 34
  | charLiteral => m = 39

theorem toNat_of_beq_some {d : Char} (h : (next == some d) = true) : next.elim 0 Char.toNat = d.toNat := by
  rw [beq_iff_eq] at h
  rw [h]
  rfl

theorem asks_of_applies (h : r.applies c next = true) : r.Asks c.toNat (next.elim 0 Char.toNat) := by
  cases r with
  | whiteSpace =>
    have hc := isBlank_iff.1 h
    show c.toNat ≤ 32
    omega
  | operatorPair =>
    obtain ⟨d, rfl, hd⟩ := (Option.any_eq_true _ _).1 h
    have hc := isOperatorPair_iff.1 hd
    simp only [Asks, Option.elim]
    omega
  | lineComment | scopeResolution | blockComment =>
    obtain ⟨hc, hnext⟩ := Bool.and_eq_true_iff.1 h
    exact ⟨congrArg Char.toNat (beq_iff_eq.1 hc), toNat_of_beq_some hnext⟩
  | word =>
    have hc := isWordStart_iff.1 h
    simp only [Asks]
    omega
  | number => exact isDigit_iff.1 h
  | memberAccess =>
    rcases Bool.or_eq_true_iff.1 h with h | h
    · obtain ⟨hc, hnext⟩ := Bool.and_eq_true_iff.1 h
      exact .inl ⟨congrArg Char.toNat (beq_iff_eq.1 hc), toNat_of_beq_some hnext⟩
    · exact .inr (congrArg Char.toNat (beq_iff_eq.1 h))
  | singleOperator => exact isOperator_iff.1 h
  | punctuation =>
    have hc := isPunctuation_iff.1 h
    rw [Bool.eq_false_iff, ne_eq, isAlphanum_iff] at hc
    simp only [Asks]
    omega
  | directive | stringLiteral | charLiteral => exact congrArg Char.toNat (beq_iff_eq.1 h)

/-- Of two rules that apply at once, the one with the priority has to be tried first. -/
theorem mem_earlier_of_applies (hlt : priority.idxOf r < priority.idxOf s)
    (hr : r.applies c next = true) (hs : s.applies c next = true) : r ∈ s.earlier := by
  by_contra hnot
  have hr := asks_of_applies hr
  have hs := asks_of_applies hs
  -- A pair of rules is in the wrong order, is one of those that are meant, or asks for two characters.
  cases r <;> cases s <;> first
    | exact absurd hlt (by decide)
    | exact hnot (by decide)
    | (simp only [Asks] at hr hs
       omega)

end Overlap

/-! ## The first rule to apply -/

section First
variable {α : Type} [DecidableEq α] {p : α → Bool} {l l' : List α} {a b : α}

/-- What is found first comes first. -/
theorem idxOf_le_of_find? (h : l.find? p = some a) (hb : p b = true) : l.idxOf a ≤ l.idxOf b := by
  induction l with
  | nil => cases h
  | cons x l ih =>
    by_cases hx : p x = true
    · rw [List.find?_cons_of_pos hx] at h
      obtain rfl := Option.some.inj h
      rw [List.idxOf_cons_self]
      exact Nat.zero_le _
    · have hxa : x ≠ a := fun hxa => hx (hxa ▸ List.find?_some h)
      have hxb : x ≠ b := fun hxb => hx (hxb ▸ hb)
      rw [List.find?_cons_of_neg hx] at h
      rw [List.idxOf_cons_ne _ hxa, List.idxOf_cons_ne _ hxb]
      exact Nat.succ_le_succ (ih h)

/-- Two orders find the same if they agree on all that may be found. -/
theorem find?_eq_of_perm (hperm : l.Perm l')
    (h : ∀ a b, p a = true → p b = true → l'.idxOf a < l'.idxOf b → l.idxOf a < l.idxOf b) :
    l.find? p = l'.find? p := by
  cases hl : l.find? p with
  | none =>
    symm
    rw [List.find?_eq_none] at hl ⊢
    exact fun x hx => hl x (hperm.mem_iff.2 hx)
  | some a =>
    have ha := List.find?_some hl
    obtain ⟨b, hb⟩ : ∃ b, l'.find? p = some b :=
      Option.isSome_iff_exists.1 (List.find?_isSome.2
        ⟨a, hperm.mem_iff.1 (List.mem_of_find?_eq_some hl), ha⟩)
    rw [hb]
    have hab := idxOf_le_of_find? hl (List.find?_some hb)
    have hba := idxOf_le_of_find? hb ha
    -- Each list finds its own first, so neither of the two can be in front of the other in `l'`.
    have hnot : ¬ l'.idxOf b < l'.idxOf a := fun hlt =>
      Nat.not_lt.2 hab (h b a (List.find?_some hb) ha hlt)
    have heq : l'.idxOf a = l'.idxOf b := Nat.le_antisymm (Nat.not_lt.1 hnot) hba
    rw [(List.idxOf_inj (hperm.mem_iff.1 (List.mem_of_find?_eq_some hl))).1 heq]

end First

section Choice
variable {rules : List Rule} {dialect : Dialect} {c : Char} {cs : List Char} {r : Rule}

/-- **In an admissible order the same rule is the first to apply.** -/
theorem find?_applies_eq (hperm : rules.Perm priority) (h : Admissible rules) (next : Option Char) :
    rules.find? (·.applies c next) = priority.find? (·.applies c next) :=
  find?_eq_of_perm hperm fun r s hr hs hlt => h s r (mem_earlier_of_applies hlt hr hs)

theorem firstMatch_eq_find? (rules : List Rule) : firstMatch rules dialect c cs =
    ((rules.find? (·.applies c cs.head?)).map (·.taken dialect c cs)).getD (.token .unknown 0) := by
  induction rules with
  | nil => rfl
  | cons r rules ih =>
    rw [firstMatch_cons]
    by_cases h : r.applies c cs.head? = true
    · rw [if_pos h, List.find?_cons_of_pos h]
      rfl
    · rw [if_neg h, List.find?_cons_of_neg h, ih]

theorem firstMatch_of_find? (h : rules.find? (·.applies c cs.head?) = some r) :
    firstMatch rules dialect c cs = r.taken dialect c cs := by
  rw [firstMatch_eq_find?, h]
  rfl

end Choice

/-! ## Samples -/

/-- A text that starts with a lexeme of a rule, the first character and the rest. -/
def sample : Rule → Char × List Char
  | whiteSpace => (' ', [])
  | directive => ('#', [])
  | operatorPair => ('+', ['+'])
  | lineComment => ('/', ['/'])
  | scopeResolution => (':', [':'])
  | blockComment => ('/', ['*'])
  | word => ('_', [])
  | number => ('0', [])
  | memberAccess => ('-', ['>'])
  | singleOperator => ('+', [])
  | punctuation => (';', [])
  | stringLiteral => ('"', [])
  | charLiteral => ('\'', [])

/-- What a rule takes at a place, as a token has it: the kind and the characters. -/
def piece (place : Char × List Char) (r : Rule) : Option TokenKind × List Char :=
  let taken := r.taken .plain place.1 place.2
  (taken.kind, place.1 :: place.2.take taken.more)

/-- No other rule takes the same at the sample of a rule. -/
theorem eq_of_sample {q r : Rule} (hq : q.applies r.sample.1 r.sample.2.head? = true)
    (h : q.piece r.sample = r.piece r.sample) : q = r := by
  revert q r
  suffices h : ∀ r ∈ priority, ∀ q ∈ priority, q.applies r.sample.1 r.sample.2.head? = true →
      q.piece r.sample = r.piece r.sample → q = r by
    intro q r
    exact h r r.mem_priority q q.mem_priority
  decide +kernel

theorem find?_sample (r : Rule) :
    priority.find? (·.applies r.sample.1 r.sample.2.head?) = some r := by
  cases r <;> rfl

/-- Where a rule has to be tried first, both apply at its sample. -/
theorem applies_sample {r s : Rule} (h : r ∈ s.earlier) :
    s.applies r.sample.1 r.sample.2.head? = true := by
  revert r s
  suffices h : ∀ s ∈ priority, ∀ r ∈ s.earlier, s.applies r.sample.1 r.sample.2.head? = true by
    intro r s
    exact h s s.mem_priority r
  decide +kernel

theorem ne_of_mem_earlier {r s : Rule} (h : r ∈ s.earlier) : r ≠ s := by
  intro hrs
  subst hrs
  revert h
  cases r <;> decide

/-- No white space is taken there. -/
theorem exists_kind_of_sample {q r s : Rule} (hq : q.applies r.sample.1 r.sample.2.head? = true)
    (h : r ∈ s.earlier) : ∃ kind, (q.piece r.sample).1 = some kind := by
  rw [← Option.isSome_iff_exists]
  revert q r s
  suffices h : ∀ s ∈ priority, ∀ r ∈ s.earlier, ∀ q ∈ priority,
      q.applies r.sample.1 r.sample.2.head? = true → (q.piece r.sample).1.isSome = true by
    intro q r s hq hrs
    exact h s s.mem_priority r hrs q q.mem_priority hq
  decide +kernel

end Rule

/-! ## Scans by other rules -/

/-- A find after which other rules are tried. -/
def Find.trying (rules : List Rule) (f : Find) : Find := { f with after := { f.after with rules := rules } }

namespace Scanner
variable {rules rules' : List Rule} {dialect : Dialect}

/-- Rules that take the same at every place find the same next token. -/
theorem next?_trying (h : ∀ c cs, firstMatch rules dialect c cs = firstMatch rules' dialect c cs) :
    ∀ (cs : List Char) (offset : Nat), next? ⟨rules, dialect, cs, offset⟩ =
      (next? ⟨rules', dialect, cs, offset⟩).map (·.trying rules)
  | [], offset => by
    rw [next?_of_nil, next?_of_nil]
    rfl
  | c :: cs, offset => by
    rw [next?_of_cons, next?_of_cons, h c cs]
    generalize htaken : firstMatch rules' dialect c cs = taken
    obtain ⟨kind, more, closed⟩ := taken
    cases kind with
    | none => exact next?_trying h (cs.drop more) _
    | some kind => rfl
termination_by cs => cs.length
decreasing_by
  rw [List.length_drop, List.length_cons]
  omega

/-- A find leaves the same rules and the same dialect. -/
theorem exists_after_eq {f : Find} : ∀ (cs : List Char) (offset : Nat),
    next? ⟨rules, dialect, cs, offset⟩ = some f →
      ∃ cs' offset', f.after = ⟨rules, dialect, cs', offset'⟩
  | [], offset, hf => by
    rw [next?_of_nil] at hf
    cases hf
  | c :: cs, offset, hf => by
    rw [next?_of_cons] at hf
    generalize firstMatch rules dialect c cs = taken at hf
    obtain ⟨kind, more, closed⟩ := taken
    cases kind with
    | none => exact exists_after_eq (cs.drop more) _ hf
    | some kind =>
      cases hf
      exact ⟨_, _, rfl⟩
termination_by cs => cs.length
decreasing_by
  rw [List.length_drop, List.length_cons]
  omega

/-- **Rules that take the same at every place find the same tokens.** -/
theorem finds_trying (h : ∀ c cs, firstMatch rules dialect c cs = firstMatch rules' dialect c cs)
    (cs : List Char) (offset : Nat) : finds ⟨rules, dialect, cs, offset⟩ =
      (finds ⟨rules', dialect, cs, offset⟩).map (·.trying rules) := by
  cases hnext : next? ⟨rules', dialect, cs, offset⟩ with
  | none =>
    have hnext' : next? ⟨rules, dialect, cs, offset⟩ = none := by
      rw [next?_trying h, hnext]
      rfl
    rw [finds_eq_nil hnext, finds_eq_nil hnext']
    rfl
  | some f =>
    have hnext' : next? ⟨rules, dialect, cs, offset⟩ = some (f.trying rules) := by
      rw [next?_trying h, hnext]
      rfl
    obtain ⟨cs', offset', hafter⟩ := exists_after_eq cs offset hnext
    have hlt : cs'.length < cs.length := by
      have hlength := length_after_lt hnext
      rw [hafter] at hlength
      exact hlength
    have hafter' : (f.trying rules).after = ⟨rules, dialect, cs', offset'⟩ := by
      unfold Find.trying
      rw [hafter]
    rw [finds_eq_cons hnext, finds_eq_cons hnext', hafter, hafter', finds_trying h cs' offset']
    rfl
termination_by cs.length

end Scanner

namespace Scan
variable {rules : List Rule} {dialect : Dialect}

/-- Rules that take the same at every place give the same scans. -/
theorem byRules_eq (h : ∀ c cs, firstMatch rules dialect c cs = firstMatch Rule.priority dialect c cs)
    (text : String) : byRules rules text dialect = ofText text dialect := by
  have hnote : Find.note? ∘ Find.trying rules = Find.note? := rfl
  have htoken : Find.token ∘ Find.trying rules = Find.token := rfl
  unfold ofText byRules Scanner.ofRules
  simp only [Scanner.finds_trying h, List.map_map, List.filterMap_map, List.length_map]
  rw [hnote, htoken]

/-- The first token of a text that starts with one. -/
theorem exists_head?_tokens {kind : TokenKind} {c : Char} {cs : List Char}
    (h : (firstMatch rules dialect c cs).kind = some kind) :
    ∃ span, (byRules rules (String.ofList (c :: cs)) dialect).tokens.head? =
      some ⟨kind, String.ofList (c :: cs.take (firstMatch rules dialect c cs).more), span⟩ := by
  have hnext : Scanner.next? ⟨rules, dialect, c :: cs, 0⟩ = _ := Scanner.next?_of_cons c cs 0
  simp only [h] at hnext
  unfold byRules Scanner.ofRules
  rw [String.toList_ofList, Scanner.finds_eq_cons hnext]
  exact ⟨_, rfl⟩

end Scan

namespace Rule
variable {rules : List Rule} {q r s : Rule}

/-- The first token of the sample of a rule is a piece that the first rule to apply takes. -/
theorem exists_head?_sample (hq : rules.find? (·.applies r.sample.1 r.sample.2.head?) = some q)
    (hrs : r ∈ s.earlier) : ∃ kind span, (q.piece r.sample).1 = some kind ∧
      (Scan.byRules rules (String.ofList (r.sample.1 :: r.sample.2)) .plain).tokens.head? =
        some ⟨kind, String.ofList (q.piece r.sample).2, span⟩ := by
  have htaken : firstMatch rules .plain r.sample.1 r.sample.2 = _ := firstMatch_of_find? hq
  obtain ⟨kind, hkind⟩ := exists_kind_of_sample (List.find?_some hq) hrs
  have hfirst : (firstMatch rules .plain r.sample.1 r.sample.2).kind = some kind := by
    rw [htaken]
    exact hkind
  obtain ⟨span, htoken⟩ := Scan.exists_head?_tokens hfirst
  rw [htaken] at htoken
  exact ⟨kind, span, hkind, htoken⟩

/-- **An order that scans the samples alike is admissible.** -/
theorem admissible_of_scans (hperm : rules.Perm priority)
    (h : ∀ text, Scan.byRules rules text .plain = Scan.ofText text .plain) : Admissible rules := by
  intro s r hrs
  have hmem := hperm.mem_iff.2 r.mem_priority
  obtain ⟨q, hq⟩ := Option.isSome_iff_exists.1 (List.find?_isSome.2
    ⟨r, hmem, List.find?_some (find?_sample r)⟩)
  have heq : q = r := by
    obtain ⟨kind, span, hkind, htoken⟩ := exists_head?_sample hq hrs
    obtain ⟨kind', span', hkind', htoken'⟩ := exists_head?_sample (find?_sample r) hrs
    rw [h, Scan.ofText, htoken'] at htoken
    obtain ⟨rfl, hlexeme, -⟩ := Token.mk.inj (Option.some.inj htoken)
    -- The same first token is the same piece, and no other rule takes that piece here.
    refine eq_of_sample (List.find?_some hq) (Prod.ext (hkind.trans hkind'.symm) ?_)
    exact (String.ofList_injective hlexeme).symm
  subst heq
  have hle := idxOf_le_of_find? hq (applies_sample hrs)
  have hne : rules.idxOf q ≠ rules.idxOf s := by
    rw [ne_eq, List.idxOf_inj hmem]
    exact ne_of_mem_earlier hrs
  exact Nat.lt_of_le_of_ne hle hne

end Rule

/-- **Which order of the rules matters.** The rules, tried in any other order, give the same tokens and notes
for every text in every dialect exactly if each is tried behind those that have to be tried before it. -/
theorem scans_eq_iff {rules : List Rule} (hperm : rules.Perm Rule.priority) :
    (∀ text dialect, Scan.byRules rules text dialect = Scan.ofText text dialect) ↔
      Rule.Admissible rules := by
  constructor
  · exact fun h => Rule.admissible_of_scans hperm fun text => h text .plain
  · intro h text dialect
    refine Scan.byRules_eq (fun c cs => ?_) text
    rw [Rule.firstMatch_eq_find?, Rule.firstMatch_eq_find?, Rule.find?_applies_eq hperm h]

/-- With the order turned around but for the last two, nothing changes; with the last two exchanged, some
text is scanned in another way. -/
theorem scans_eq_iff_turned :
    let turned : List Rule := [.charLiteral, .stringLiteral, .memberAccess, .number, .word, .blockComment,
      .scopeResolution, .lineComment, .operatorPair, .directive, .whiteSpace, .singleOperator, .punctuation]
    let wrong : List Rule := turned.take 11 ++ [.punctuation, .singleOperator]
    turned.Perm Rule.priority ∧ wrong.Perm Rule.priority ∧
      (∀ text dialect, Scan.byRules turned text dialect = Scan.ofText text dialect) ∧
      ¬ ∀ text dialect, Scan.byRules wrong text dialect = Scan.ofText text dialect := by
  intro turned wrong
  have hturned : turned.Perm Rule.priority := by decide
  have hwrong : wrong.Perm Rule.priority := by decide
  refine ⟨hturned, hwrong, (scans_eq_iff hturned).2 (by decide), fun h => ?_⟩
  exact absurd ((scans_eq_iff hwrong).1 h) (by decide)

end TokenDump
