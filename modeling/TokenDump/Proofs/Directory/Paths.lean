import Mathlib
import TokenDump.Directory

/-!
# What a path leads to

`Reaches d folder names n t` says, without a program that walks, that some names lead from a folder to a
target over `n` links. Following a path finds what it leads to over as many links as may be followed
(`locate_eq_ok_iff`). To make a file, the same names are followed, but for a slash behind the last, which
is refused. Names with a slash behind the last never lead to nothing (`Reaches.exists_getLast`), so a
path that leads to nothing is found to do so in both ways (`walk_of_reaches`), and the file is made
there (`LeadsTo.write_eq`). From then on the path leads to it (`Reaches.made`), and nothing else has changed
(`get?_put_of_ne`).
-/

namespace TokenDump

/-- There is something at the end of a path. -/
def Target.IsThere : Target → Prop
  | folder => True
  | file _ _ => True
  | vacant _ => False

namespace Directory

/-! ## Places -/

section Places
variable {d : Directory} {place q : Place} {node : Node}

theorem get?_eq_none_iff : d.get? place = none ↔
    ¬ place <+: d.here ∧ ∀ e ∈ d.entries, e.1 ≠ place := by
  unfold get?
  split_ifs with h
  · simp [List.isPrefixOf_iff_prefix.1 h]
  · rw [List.isPrefixOf_iff_prefix] at h
    simp [h]

theorem get?_put_self (h : d.get? place = none) : (d.put place node).get? place = some node := by
  have hplace : ¬ place.isPrefixOf d.here = true := by
    rw [List.isPrefixOf_iff_prefix]
    exact (get?_eq_none_iff.1 h).1
  unfold get? put
  rw [if_neg hplace, List.find?_cons_of_pos (by simp)]
  rfl

/-- What is put at a place changes no other. -/
theorem get?_put_of_ne (h : q ≠ place) : (d.put place node).get? q = d.get? q := by
  unfold get? put
  have hfind : (d.entries.filter (·.1 != place)).find? (·.1 == q) = d.entries.find? (·.1 == q) := by
    rw [List.find?_filter]
    congr 1
    funext e
    by_cases he : e.1 = q
    · simp [he, h]
    · simp [he]
  rw [List.find?_cons_of_neg (by simpa using h.symm), hfind]

end Places

/-! ## Names that lead to a target -/

/-- A name that something in a folder may have. -/
structure Ordinary (name : String) : Prop where
  ne_empty : name ≠ ""
  ne_here : name ≠ "."
  ne_above : name ≠ ".."
  size_le : name.utf8ByteSize ≤ nameLimit

instance (name : String) : Decidable (Ordinary name) :=
  decidable_of_iff (name ≠ "" ∧ name ≠ "." ∧ name ≠ ".." ∧ name.utf8ByteSize ≤ nameLimit)
    ⟨fun ⟨h, h', h'', hsize⟩ => ⟨h, h', h'', hsize⟩,
      fun h => ⟨h.ne_empty, h.ne_here, h.ne_above, h.size_le⟩⟩

/-- Some names lead from a folder to a target, over a number of links. -/
inductive Reaches (d : Directory) : Place → List String → Nat → Target → Prop
  | arrive {folder : Place} : Reaches d folder [] 0 .folder
  | stay {folder : Place} {name : String} {later : List String} {n : Nat} {t : Target}
      (hname : name = "" ∨ name = ".") (h : Reaches d folder later n t) :
      Reaches d folder (name :: later) n t
  | climb {folder : Place} {later : List String} {n : Nat} {t : Target}
      (h : Reaches d folder.dropLast later n t) : Reaches d folder (".." :: later) n t
  | enter {folder : Place} {name : String} {later : List String} {n : Nat} {t : Target}
      (hname : Ordinary name) (hd : d.get? (folder ++ [name]) = some .folder)
      (h : Reaches d (folder ++ [name]) later n t) : Reaches d folder (name :: later) n t
  | file {folder : Place} {name : String} {bytes : List UInt8} (hname : Ordinary name)
      (hd : d.get? (folder ++ [name]) = some (.file bytes)) :
      Reaches d folder [name] 0 (.file (folder ++ [name]) bytes)
  | vacant {folder : Place} {name : String} (hname : Ordinary name)
      (hd : d.get? (folder ++ [name]) = none) : Reaches d folder [name] 0 (.vacant (folder ++ [name]))
  | follow {folder : Place} {name target : String} {later : List String} {n : Nat} {t : Target}
      (hname : Ordinary name) (hd : d.get? (folder ++ [name]) = some (.link target))
      (h : Reaches d (if isAbsolute target then [] else folder) (pathNames target ++ later) n t) :
      Reaches d folder (name :: later) (n + 1) t

/-- A path that is followed at all. -/
structure Followed (path : String) : Prop where
  no_nul : '\x00' ∉ path.toList
  ne_empty : path ≠ ""
  size_lt : path.utf8ByteSize < pathLimit

instance (path : String) : Decidable (Followed path) :=
  decidable_of_iff ('\x00' ∉ path.toList ∧ path ≠ "" ∧ path.utf8ByteSize < pathLimit)
    ⟨fun ⟨h, h', hsize⟩ => ⟨h, h', hsize⟩, fun h => ⟨h.no_nul, h.ne_empty, h.size_lt⟩⟩

/-- What a path leads to, over no more links than are followed. -/
def LeadsTo (d : Directory) (path : String) (t : Target) : Prop :=
  Followed path ∧ ∃ n ≤ linkLimit, d.Reaches (d.start path) (pathNames path) n t

section Walk
variable {d : Directory} {making : Bool} {links n : Nat} {folder place : Place} {name : String}
  {names later : List String} {t t' : Target} {bytes : List UInt8}

theorem walk_nil : d.walk making links folder [] = .ok .folder := by
  rw [walk]

theorem walk_stay (h : name = "" ∨ name = ".") :
    d.walk making links folder (name :: later) = d.walk making links folder later := by
  rw [walk, if_pos (by simpa using h)]

theorem walk_climb : d.walk making links folder (".." :: later) =
    d.walk making links folder.dropLast later := by
  rw [walk, if_neg (by decide), if_pos (by decide)]

/-- The name of a file to be made has a slash after it. -/
def Slashed (making : Bool) (later : List String) : Bool :=
  making && !later.isEmpty && later.all (·.isEmpty)

theorem walk_ordinary (h : Ordinary name) (hslash : Slashed making later = false) :
    d.walk making links folder (name :: later) =
      match d.get? (folder ++ [name]) with
      | none => if later.isEmpty then .ok (.vacant (folder ++ [name])) else .error .notFound
      | some .folder => d.walk making links (folder ++ [name]) later
      | some (.file bytes) =>
        if later.isEmpty then .ok (.file (folder ++ [name]) bytes) else .error .notFolder
      | some (.link target) =>
        match links with
        | 0 => .error .tooManyLinks
        | links + 1 =>
          d.walk making links (if isAbsolute target then [] else folder) (pathNames target ++ later) := by
  have hstay : ¬ (name == "" || name == ".") = true := by simp [h.ne_empty, h.ne_here]
  have habove : ¬ (name == "..") = true := by simp [h.ne_above]
  have hlong : ¬ nameLimit < name.utf8ByteSize := Nat.not_lt.2 h.size_le
  have hslash : ¬ (making && !later.isEmpty && later.all (·.isEmpty)) = true :=
    Bool.eq_false_iff.1 hslash
  rw [walk, if_neg hstay, if_neg habove, if_neg hlong]
  exact if_neg hslash

theorem Ordinary.of_tests (hstay : ¬ (name == "" || name == ".") = true)
    (habove : ¬ (name == "..") = true) (hlong : ¬ nameLimit < name.utf8ByteSize) : Ordinary name := by
  simp only [Bool.or_eq_true, beq_iff_eq, not_or] at hstay habove
  exact ⟨hstay.1, hstay.2, habove, Nat.not_lt.1 hlong⟩

/-- **What following finds, the names lead to.** -/
theorem reaches_of_walk (h : d.walk making links folder names = .ok t) :
    ∃ n ≤ links, d.Reaches folder names n t := by
  -- One case for each way that `walk` goes on or ends; the ways that end in an error are no cases here.
  fun_induction walk d making links folder names with
  | case1 links folder =>
    cases h
    exact ⟨0, Nat.zero_le links, .arrive⟩
  | case2 links folder name later hstay ih =>
    obtain ⟨n, hn, hreach⟩ := ih h
    exact ⟨n, hn, .stay (by simpa using hstay) hreach⟩
  | case3 links folder name later hstay habove ih =>
    obtain ⟨n, hn, hreach⟩ := ih h
    obtain rfl : name = ".." := by simpa using habove
    exact ⟨n, hn, .climb hreach⟩
  | case6 links folder name later hstay habove hlong place hslash hd hlast =>
    cases h
    obtain rfl := List.isEmpty_iff.1 hlast
    exact ⟨0, Nat.zero_le links, .vacant (.of_tests hstay habove hlong) hd⟩
  | case8 links folder name later hstay habove hlong place hslash hd ih =>
    obtain ⟨n, hn, hreach⟩ := ih h
    exact ⟨n, hn, .enter (.of_tests hstay habove hlong) hd hreach⟩
  | case9 links folder name later hstay habove hlong place hslash bytes hd hlast =>
    cases h
    obtain rfl := List.isEmpty_iff.1 hlast
    exact ⟨0, Nat.zero_le links, .file (.of_tests hstay habove hlong) hd⟩
  | case12 folder name later hstay habove hlong place hslash target hd links ih =>
    obtain ⟨n, hn, hreach⟩ := ih h
    exact ⟨n + 1, Nat.succ_le_succ hn, .follow (.of_tests hstay habove hlong) hd hreach⟩
  | case4 | case5 | case7 | case10 | case11 => cases h

/-- Behind the names that lead to nothing there is no slash. -/
theorem Reaches.exists_getLast (h : d.Reaches folder names n t) (ht : t = .vacant place) :
    ∃ last ≠ "", names.getLast? = some last := by
  induction h with
  | arrive | file => cases ht
  | vacant hname => exact ⟨_, hname.ne_empty, rfl⟩
  | stay _ _ ih | climb _ ih | enter _ _ _ ih =>
    obtain ⟨last, hne, hlast⟩ := ih ht
    exact ⟨last, hne, by rw [List.getLast?_cons, hlast]; rfl⟩
  | @follow _ name _ later _ _ hname _ _ ih =>
    obtain ⟨last, hne, hlast⟩ := ih ht
    cases later with
    | nil => exact ⟨name, hname.ne_empty, rfl⟩
    | cons next later =>
      rw [List.getLast?_append_of_ne_nil _ (List.cons_ne_nil next later)] at hlast
      exact ⟨last, hne, by rw [List.getLast?_cons_cons, hlast]⟩

/-- What following is sure to find: any target, but a place for a file to be made only if it is free. -/
def Finds (making : Bool) (t : Target) : Prop := making = false ∨ ∃ place, t = .vacant place

theorem Reaches.slashed_eq_false (h : d.Reaches folder (name :: later) n t)
    (hfinds : Finds making t) : Slashed making later = false := by
  obtain rfl | ⟨place, ht⟩ := hfinds
  · rfl
  · obtain ⟨last, hne, hlast⟩ := h.exists_getLast ht
    unfold Slashed
    by_contra hslash
    simp only [Bool.not_eq_false, Bool.and_eq_true, Bool.not_eq_true', List.isEmpty_eq_false_iff,
      List.all_eq_true, String.isEmpty_iff] at hslash
    obtain ⟨⟨-, hlater⟩, hempty⟩ := hslash
    rw [List.getLast?_cons_of_ne_nil hlater] at hlast
    exact hne (hempty last (List.mem_of_getLast? hlast))

/-- **What the names lead to, following finds.** -/
theorem walk_of_reaches (h : d.Reaches folder names n t) (hfinds : Finds making t) :
    ∀ links, n ≤ links → d.walk making links folder names = .ok t := by
  -- The links left over are the same up to the next link, which takes one of `n` and one of `links`.
  induction h with
  | arrive => exact fun _ _ => walk_nil
  | stay hname _ ih => exact fun links hn => (walk_stay hname).trans (ih hfinds links hn)
  | climb _ ih => exact fun links hn => walk_climb.trans (ih hfinds links hn)
  | enter hname hd h ih =>
    intro links hn
    rw [walk_ordinary hname ((h.enter hname hd).slashed_eq_false hfinds), hd]
    exact ih hfinds links hn
  | file hname hd =>
    intro links _
    rw [walk_ordinary hname ((Reaches.file hname hd).slashed_eq_false hfinds), hd]
    rfl
  | vacant hname hd =>
    intro links _
    rw [walk_ordinary hname ((Reaches.vacant hname hd).slashed_eq_false hfinds), hd]
    rfl
  | follow hname hd h ih =>
    intro links hn
    obtain ⟨links, rfl⟩ := Nat.exists_eq_add_of_le' (Nat.one_le_of_lt hn)
    rw [walk_ordinary hname ((h.follow hname hd).slashed_eq_false hfinds), hd]
    exact ih hfinds links (Nat.le_of_succ_le_succ hn)

/-- Some names lead to one target. -/
theorem Reaches.unique {n' : Nat} (h : d.Reaches folder names n t)
    (h' : d.Reaches folder names n' t') : t = t' := by
  have hwalk := walk_of_reaches h (.inl rfl) (max n n') (Nat.le_max_left n n')
  rw [walk_of_reaches h' (.inl rfl) (max n n') (Nat.le_max_right n n')] at hwalk
  exact (Except.ok.inj hwalk).symm

/-! ## Names that lead to nothing -/

/-- Where some names lead to nothing, there is nothing. -/
theorem Reaches.get?_eq_none (h : d.Reaches folder names n t) (ht : t = .vacant place) :
    d.get? place = none := by
  induction h with
  | arrive | file => cases ht
  | vacant _ hd =>
    cases ht
    exact hd
  | stay _ _ ih | climb _ ih | enter _ _ _ ih | follow _ _ _ ih => exact ih ht

/-- **What is made stands where the names lead.** All that is on the way there is something, so it is
still what it was. -/
theorem Reaches.made {d' : Directory} (hmade : d'.get? place = some (.file bytes))
    (hkept : ∀ q ≠ place, d'.get? q = d.get? q) (h : d.Reaches folder names n t)
    (ht : t = .vacant place) : d'.Reaches folder names n (.file place bytes) := by
  -- The induction needs `d'` to be as `d` was only where there is something: the place itself is free.
  have hstill {q : Place} {node : Node} (hq : d.get? q = some node) : d'.get? q = some node := by
    rw [hkept q fun hplace => by simp [hplace, h.get?_eq_none ht] at hq, hq]
  induction h with
  | arrive | file => cases ht
  | stay hname _ ih => exact .stay hname (ih ht)
  | climb _ ih => exact .climb (ih ht)
  | enter hname hd _ ih => exact .enter hname (hstill hd) (ih ht)
  | vacant hname hd =>
    cases ht
    exact .file hname hmade
  | follow hname hd _ ih => exact .follow hname (hstill hd) (ih ht)

end Walk

/-! ## Paths that lead to a target -/

section Paths
variable {d : Directory} {making : Bool} {path : String} {place : Place} {bytes : List UInt8}
  {t t' : Target}

theorem LeadsTo.unique (h : d.LeadsTo path t) (h' : d.LeadsTo path t') : t = t' := by
  obtain ⟨-, n, -, hreach⟩ := h
  obtain ⟨-, n', -, hreach'⟩ := h'
  exact hreach.unique hreach'

theorem LeadsTo.of_locate (h : d.locate making path = .ok t) : d.LeadsTo path t := by
  unfold locate at h
  split_ifs at h with hnul hempty hsize
  refine ⟨⟨?_, ?_, Nat.not_le.1 hsize⟩, reaches_of_walk h⟩
  · simpa using hnul
  · simpa using hempty

theorem LeadsTo.locate_eq (h : d.LeadsTo path t) (hfinds : Finds making t) :
    d.locate making path = .ok t := by
  obtain ⟨hpath, n, hn, hreach⟩ := h
  unfold locate
  rw [if_neg (by simpa using hpath.no_nul), if_neg (by simpa using hpath.ne_empty),
    if_neg (Nat.not_le.2 hpath.size_lt)]
  exact walk_of_reaches hreach hfinds linkLimit hn

/-- **A path is found to lead where it leads.** -/
theorem locate_eq_ok_iff : d.locate false path = .ok t ↔ d.LeadsTo path t :=
  ⟨LeadsTo.of_locate, fun h => h.locate_eq (.inl rfl)⟩

theorem has_iff : d.has path = true ↔ ∃ t, d.LeadsTo path t ∧ t.IsThere := by
  simp only [← locate_eq_ok_iff]
  unfold has
  constructor
  · intro h
    split at h
    · next hd => exact ⟨_, hd, trivial⟩
    · next hd => exact ⟨_, hd, trivial⟩
    · cases h
  · rintro ⟨t, hd, hthere⟩
    rw [hd]
    cases t with
    | folder | file => rfl
    | vacant => exact hthere.elim

theorem LeadsTo.read_eq (h : d.LeadsTo path (.file place bytes)) : d.read path = .ok bytes := by
  unfold read
  rw [locate_eq_ok_iff.2 h]

theorem LeadsTo.get?_eq_none (h : d.LeadsTo path (.vacant place)) : d.get? place = none := by
  obtain ⟨-, n, -, hreach⟩ := h
  exact hreach.get?_eq_none rfl

theorem LeadsTo.made {d' : Directory} (hhere : d'.here = d.here)
    (hmade : d'.get? place = some (.file bytes)) (hkept : ∀ q ≠ place, d'.get? q = d.get? q)
    (h : d.LeadsTo path (.vacant place)) : d'.LeadsTo path (.file place bytes) := by
  obtain ⟨hpath, n, hn, hreach⟩ := h
  have hstart : d'.start path = d.start path := by
    unfold start
    rw [hhere]
  refine ⟨hpath, n, hn, ?_⟩
  rw [hstart]
  exact hreach.made hmade hkept rfl

theorem LeadsTo.write_eq (bytes : List UInt8) (h : d.LeadsTo path (.vacant place)) :
    d.write path bytes = .ok (d.put place (.file bytes)) := by
  unfold write
  rw [h.locate_eq (.inr ⟨place, rfl⟩)]

/-- **Where a path leads nowhere, nothing is written.** -/
theorem exists_write_eq_error (h : ∀ t, ¬ d.LeadsTo path t) (bytes : List UInt8) :
    ∃ e, d.write path bytes = .error e := by
  unfold write
  cases hd : d.locate true path with
  | error e => exact ⟨e, rfl⟩
  | ok t => exact absurd (LeadsTo.of_locate hd) (h t)

end Paths
end Directory
end TokenDump
