import Mathlib

/-!
# Runs of characters

A text that is put together from parts can be taken apart again where one part is a run of characters
of a class and the next starts outside the class (`run_unique`), and likewise from the end
(`run_unique_end`). Decimal numbers are runs of digits, so that a number is known from a text that it
starts or ends (`repr_unique_end`).
-/

namespace TokenDump.Text

section Runs
variable {α : Type} {p : α → Bool} {a b r r' : List α}

/-- No element of the class stands in front. -/
def Stops (p : α → Bool) (r : List α) : Prop := ∀ c ∈ r.head?, p c = false

theorem stops_nil : Stops p [] := by
  intro c hc
  cases hc

theorem stops_cons {c : α} : Stops p (c :: r) ↔ p c = false := by
  refine ⟨fun h => h c rfl, fun h d hd => ?_⟩
  obtain rfl := Option.some.inj hd
  exact h

theorem stops_reverse_concat {c : α} : Stops p (r ++ [c]).reverse ↔ p c = false := by
  rw [List.reverse_append, List.reverse_singleton, List.singleton_append, stops_cons]

theorem takeWhile_run (ha : ∀ c ∈ a, p c = true) (hr : Stops p r) : (a ++ r).takeWhile p = a := by
  rw [List.takeWhile_append_of_pos ha]
  rcases r with _ | ⟨c, r⟩
  · rw [List.takeWhile_nil, List.append_nil]
  · rw [List.takeWhile_cons_of_neg (by rw [stops_cons.1 hr]; exact Bool.false_ne_true),
      List.append_nil]

/-- A run in front of a text is known from the text. -/
theorem run_unique (ha : ∀ c ∈ a, p c = true) (hb : ∀ c ∈ b, p c = true) (hr : Stops p r)
    (hr' : Stops p r') (h : a ++ r = b ++ r') : a = b ∧ r = r' := by
  have hab : a = b := by rw [← takeWhile_run ha hr, h, takeWhile_run hb hr']
  subst hab
  exact ⟨rfl, List.append_cancel_left h⟩

/-- A run at the end of a text is known from the text. -/
theorem run_unique_end (ha : ∀ c ∈ a, p c = true) (hb : ∀ c ∈ b, p c = true)
    (hr : Stops p r.reverse) (hr' : Stops p r'.reverse) (h : r ++ a = r' ++ b) :
    r = r' ∧ a = b := by
  have hrev : a.reverse ++ r.reverse = b.reverse ++ r'.reverse := by
    rw [← List.reverse_append, h, List.reverse_append]
  obtain ⟨hab, hrr⟩ := run_unique (fun c hc => ha c (List.mem_reverse.1 hc))
    (fun c hc => hb c (List.mem_reverse.1 hc)) hr hr' hrev
  exact ⟨List.reverse_inj.1 hrr, List.reverse_inj.1 hab⟩

end Runs

/-! ## Decimal numbers -/

section Decimals
variable {m n : Nat} {a b : List Char}

theorem toList_repr (n : Nat) : (Nat.repr n).toList = Nat.toDigits 10 n := by
  rw [Nat.repr, String.toList_ofList]

theorem isDigit_of_mem_repr : ∀ c ∈ (Nat.repr n).toList, c.isDigit = true := by
  intro c hc
  rw [toList_repr] at hc
  exact Nat.isDigit_of_mem_toDigits (by decide) (by decide) hc

/-- A number at the end of a text, after something else than a digit, is known from the text. -/
theorem repr_unique_end (ha : Stops Char.isDigit a.reverse) (hb : Stops Char.isDigit b.reverse)
    (h : a ++ (Nat.repr m).toList = b ++ (Nat.repr n).toList) : a = b ∧ m = n := by
  obtain ⟨hab, hdigits⟩ := run_unique_end isDigit_of_mem_repr isDigit_of_mem_repr ha hb h
  exact ⟨hab, Nat.repr_inj.1 (String.toList_inj.1 hdigits)⟩

/-- No number has a needless zero in front. -/
theorem eq_zero_of_head?_toDigits (h : (Nat.toDigits 10 n).head? = some '0') :
    Nat.toDigits 10 n = ['0'] := by
  induction n using Nat.strong_induction_on with
  | _ n ih =>
    by_cases hn : n < 10
    · rw [Nat.toDigits_of_lt_base hn] at h ⊢
      rw [Option.some.inj h]
    · have hdigits := Nat.toDigits_of_base_le (b := 10) (n := n) (by decide) (by omega)
      rw [hdigits, List.head?_append_of_ne_nil _ Nat.toDigits_ne_nil] at h
      have hzero := ih (n / 10) (by omega) h
      have hvalue : n / 10 = 0 := by
        rw [← Nat.ofDigitChars_ten_toDigits (n := n / 10), hzero]
        rfl
      omega

end Decimals

end TokenDump.Text
