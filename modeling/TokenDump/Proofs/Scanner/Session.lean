import Mathlib
import TokenDump.Scan
import TokenDump.Scanner.Session

/-!
# Sessions on a list of tokens

A session works on a text, but it can be read as one on the list of the tokens that are left: a request
has an answer from that list (`Request.answer`) and uses up so many of its tokens (`Request.used`).
A step does just that to the tokens of its scanner (`step_eq`), so that the answers to any requests are
those from the tokens of the whole scan (`run_ofText`).
-/

namespace TokenDump

/-! ## Requests to a list -/

namespace Request

/-- The token is of a kind of that name. -/
def Names (name : String) (t : Token) : Bool := t.kind.name == name

/-- What is answered where some tokens are left. -/
def answer (ts : List Token) : Request → Answer
  | next => .token ts.head?
  | nth n => .token ts[n]?
  | take n => .tokens (ts.take n)
  | seek name => .token (ts.find? (Names name))
  | count => .count ts.length
  | last => .token ts.getLast?
  | rest => .tokens ts
  | reopen _ _ => .opened

/-- How many of the tokens that are left a request uses up, if there are so many. -/
def used (ts : List Token) : Request → Nat
  | next => 1
  | nth n => n + 1
  | take n => n
  | seek name => ts.findIdx (Names name) + 1
  | count | last | rest | reopen _ _ => ts.length

/-- The request leaves the session open on its text. -/
def isStep : Request → Bool
  | rest | reopen _ _ => false
  | _ => true

end Request

/-- The tokens that are left to a session, or none once they have been handed over. -/
abbrev TokensLeft := Option (List Token)

namespace TokensLeft

/-- What is left after a request. -/
def after : TokensLeft → Request → TokensLeft
  | _, .reopen text dialect => some (Scan.ofText text dialect).tokens
  | none, _ => none
  | some _, .rest => none
  | some ts, r => some (ts.drop (r.used ts))

/-- One answer from the tokens that are left. -/
def answer : TokensLeft → Request → Answer
  | _, .reopen _ _ => .opened
  | none, _ => .closed
  | some ts, r => r.answer ts

/-- The answers to some requests in turn. -/
def run : TokensLeft → List Request → List Answer
  | _, [] => []
  | left, r :: rs => left.answer r :: run (left.after r) rs

end TokensLeft

/-- The tokens that are left to a session. -/
def Session.left (session : Session) : TokensLeft := session.map Scanner.tokens

/-! ## The tokens of a scanner -/

namespace Scanner

variable {s : Scanner} {f : Find}

theorem tokens_eq_nil (h : s.next? = none) : s.tokens = [] := by
  unfold tokens
  rw [finds_eq_nil h, List.map_nil]

theorem tokens_eq_cons (h : s.next? = some f) : s.tokens = f.token :: f.after.tokens := by
  unfold tokens
  rw [finds_eq_cons h, List.map_cons]

theorem tokens_atEnd (s : Scanner) : s.atEnd.tokens = [] := by
  apply tokens_eq_nil
  rw [next?]
  split
  · rfl
  · next hrest => cases hrest

theorem next_eq (s : Scanner) : s.next.1 = s.tokens.head? ∧ s.next.2.tokens = s.tokens.tail := by
  unfold next
  cases h : s.next? with
  | none => exact ⟨by rw [tokens_eq_nil h]; rfl, by rw [tokens_eq_nil h, tokens_atEnd]; rfl⟩
  | some f => exact ⟨by rw [tokens_eq_cons h]; rfl, by rw [tokens_eq_cons h]; rfl⟩

theorem nth_eq (s : Scanner) (n : Nat) :
    (s.nth n).1 = s.tokens[n]? ∧ (s.nth n).2.tokens = s.tokens.drop (n + 1) := by
  induction n generalizing s with
  | zero =>
    obtain ⟨htoken, hafter⟩ := s.next_eq
    rw [nth, htoken, hafter, List.head?_eq_getElem?, List.drop_one]
    exact ⟨rfl, rfl⟩
  | succ n ih =>
    rw [nth]
    cases h : s.next? with
    | none =>
      rw [tokens_eq_nil h]
      exact ⟨rfl, tokens_atEnd s⟩
    | some f =>
      rw [tokens_eq_cons h]
      exact ih f.after

theorem take_eq (s : Scanner) (n : Nat) :
    (s.take n).1 = s.tokens.take n ∧ (s.take n).2.tokens = s.tokens.drop n := by
  induction n generalizing s with
  | zero => exact ⟨rfl, rfl⟩
  | succ n ih =>
    rw [take]
    cases h : s.next? with
    | none =>
      rw [tokens_eq_nil h]
      exact ⟨rfl, tokens_atEnd s⟩
    | some f =>
      obtain ⟨htokens, hafter⟩ := ih f.after
      rw [tokens_eq_cons h, List.take_succ_cons, List.drop_succ_cons, ← htokens, ← hafter]
      exact ⟨rfl, rfl⟩

theorem seek_eq (s : Scanner) (name : String) :
    (s.seek name).1 = s.tokens.find? (Request.Names name) ∧
      (s.seek name).2.tokens = s.tokens.drop (s.tokens.findIdx (Request.Names name) + 1) := by
  fun_induction seek s name with
  | case1 s h =>
    rw [tokens_eq_nil h]
    exact ⟨rfl, tokens_atEnd s⟩
  | case2 s f h hname =>
    have hname' : Request.Names name f.token = true := hname
    rw [tokens_eq_cons h, List.find?_cons_of_pos hname', List.findIdx_cons, hname']
    exact ⟨rfl, rfl⟩
  | case3 s f h hname ih =>
    have hname' : Request.Names name f.token = false := Bool.not_eq_true _ ▸ hname
    rw [tokens_eq_cons h, List.find?_cons_of_neg (by rw [hname']; exact Bool.false_ne_true),
      List.findIdx_cons, hname']
    exact ih

end Scanner

/-! ## Steps and runs -/

namespace Session

/-- **A step of a session is one on the tokens that are left.** -/
theorem step_eq (session : Session) (r : Request) :
    (session.step r).1 = session.left.answer r ∧
      (session.step r).2.left = session.left.after r := by
  rcases session with _ | s
  · cases r <;> exact ⟨rfl, rfl⟩
  · show _ ∧ Option.map Scanner.tokens _ = _
    cases r with
    | next =>
      obtain ⟨htoken, hafter⟩ := s.next_eq
      refine ⟨congrArg Answer.token htoken, ?_⟩
      rw [step, Option.map_some, hafter, ← List.drop_one]
      rfl
    | nth n =>
      obtain ⟨htoken, hafter⟩ := s.nth_eq n
      refine ⟨congrArg Answer.token htoken, ?_⟩
      rw [step, Option.map_some, hafter]
      rfl
    | take n =>
      obtain ⟨htokens, hafter⟩ := s.take_eq n
      refine ⟨congrArg Answer.tokens htokens, ?_⟩
      rw [step, Option.map_some, hafter]
      rfl
    | seek name =>
      obtain ⟨htoken, hafter⟩ := s.seek_eq name
      refine ⟨congrArg Answer.token htoken, ?_⟩
      rw [step, Option.map_some, hafter]
      rfl
    | count =>
      refine ⟨congrArg Answer.count (List.length_map _).symm, ?_⟩
      show some s.atEnd.tokens = some (s.tokens.drop s.tokens.length)
      rw [Scanner.tokens_atEnd, List.drop_length]
    | last =>
      refine ⟨rfl, ?_⟩
      show some s.atEnd.tokens = some (s.tokens.drop s.tokens.length)
      rw [Scanner.tokens_atEnd, List.drop_length]
    | rest => exact ⟨rfl, rfl⟩
    | reopen text dialect => exact ⟨rfl, rfl⟩

theorem run_eq (session : Session) (requests : List Request) :
    session.run requests = session.left.run requests := by
  induction requests generalizing session with
  | nil => rfl
  | cons r requests ih =>
    obtain ⟨hanswer, hleft⟩ := session.step_eq r
    show (session.step r).1 :: run (session.step r).2 requests = _
    rw [ih, hanswer, hleft]
    rfl

end Session

/-! ## After the last token -/

/-- Nothing is left to answer. -/
def Answer.isEmpty : Answer → Bool
  | .token none | .tokens [] | .count 0 => true
  | _ => false

theorem TokensLeft.isEmpty_of_mem_run {requests : List Request}
    (hsteps : ∀ r ∈ requests, r.isStep = true) :
    ∀ a ∈ TokensLeft.run (some []) requests, a.isEmpty = true := by
  induction requests with
  | nil =>
    intro a ha
    cases ha
  | cons r requests ih =>
    obtain ⟨hr, hrest⟩ := List.forall_mem_cons.1 hsteps
    have hempty : (TokensLeft.answer (some []) r).isEmpty = true ∧
        TokensLeft.after (some []) r = some [] := by
      cases r with
      | take n =>
        show (Answer.tokens (List.take n [])).isEmpty = true ∧ some (List.drop n []) = some []
        rw [List.take_nil, List.drop_nil]
        exact ⟨rfl, rfl⟩
      | rest | reopen => cases hr
      | _ => exact ⟨rfl, rfl⟩
    rw [run, hempty.2]
    exact List.forall_mem_cons.2 ⟨hempty.1, ih hrest⟩

/-- **A session on a text answers as one on the list of its tokens**: each request uses up the tokens
that it should, and the next goes on behind them. Past the last token there is nothing to answer. -/
theorem run_ofText (text : String) (dialect : Dialect) (requests : List Request) :
    Session.run (some (.ofText text dialect)) requests =
        TokensLeft.run (some (Scan.ofText text dialect).tokens) requests ∧
      ∀ s : Scanner, s.tokens = [] → (∀ r ∈ requests, r.isStep = true) →
        ∀ a ∈ Session.run (some s) requests, a.isEmpty = true := by
  refine ⟨Session.run_eq _ requests, fun s hs hsteps => ?_⟩
  have hleft : Session.left (some s) = some [] := congrArg some hs
  rw [Session.run_eq, hleft]
  exact TokensLeft.isEmpty_of_mem_run hsteps

theorem run_ofText_past_end : Session.run (some (.ofText "a b" .plain)) [.last, .next, .take 2] =
      TokensLeft.run (some (Scan.ofText "a b" .plain).tokens) [.last, .next, .take 2] ∧
    (Scanner.ofText "a b" .plain).atEnd.tokens = [] ∧
      ∀ a ∈ Session.run (some (Scanner.ofText "a b" .plain).atEnd) [.last, .next, .take 2],
        a.isEmpty = true := by
  obtain ⟨hrun, hempty⟩ := run_ofText "a b" .plain [.last, .next, .take 2]
  exact ⟨hrun, Scanner.tokens_atEnd _, hempty _ (Scanner.tokens_atEnd _) (by decide)⟩

example : Session.run (some (.ofText "a+b c" .plain))
    [.take 0, .nth 1, .seek "TOK_NUMBER", .count, .next, .rest, .next] =
      [.tokens [], .token (some ⟨.operator, "+", ⟨1, 1⟩⟩), .token none, .count 0, .token none,
        .tokens [], .closed] := by
  decide +kernel

end TokenDump
