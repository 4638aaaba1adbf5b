import TokenDump.Proofs.Config.Language
import TokenDump.Proofs.Json.Endings
import TokenDump.Proofs.Run.Decoding

/-!
# Settings files that are cut off

A text that holds settings is over with its closing bracket: a part of it that holds settings too lacks
nothing but white space (`IsDocument.blank_of_append`), and all that ends behind the bracket holds the
same settings (`IsDocument.of_append`). So a settings file that was written in part is never taken for
settings, wherever it breaks off, be it within a character (`load_of_cut`).
-/

namespace TokenDump.Config
open Json Text

/-! ## Documents -/

theorem exists_closer_of_decode? {d : Datum} {c : Config} (h : decode? d = some c) :
    ∃ b, d.closer? = some b := by
  unfold decode? at h
  split at h
  · exact ⟨_, rfl⟩
  · exact ⟨_, rfl⟩
  · cases h

section Documents
variable {d d' : Datum} {b b' : Char} {p rest : List Char}

/-- Two documents, one of which starts with the other, are the same but for white space. -/
theorem IsDocument.blank_of_append (h : IsDocument d (p ++ rest)) (h' : IsDocument d' p)
    (hd : d.closer? = some b) (hd' : d'.closer? = some b') :
    ∀ x ∈ rest, Json.isBlank x = true := by
  obtain ⟨first, behind, hfirst, hspells, hblank⟩ := h
  obtain ⟨first', behind', ⟨w, hw, rfl⟩, hspells', -⟩ := h'
  have hstart : Skips (w ++ first' ++ rest) (first' ++ rest) := ⟨w, hw, List.append_assoc _ _ _⟩
  have hstops : Stops Json.isBlank (first' ++ rest) := by
    obtain ⟨x, v, rfl, hx⟩ := hspells'.exists_cons
    exact stops_cons.2 (not_isBlank_of_isValueStart hx)
  rw [hfirst.unique hstart hspells.stops hstops] at hspells
  obtain ⟨-, rfl⟩ := hspells.rest_eq_append hspells' hd hd'
  intro x hx
  exact hblank x (List.mem_append_right _ hx)

/-- A document in front of its closing bracket and behind it. -/
theorem IsDocument.exists_body (h : IsDocument d p) (hd : d.closer? = some b) :
    ∃ body blanks, p = body ++ b :: blanks ∧ (∀ x ∈ blanks, Json.isBlank x = true) ∧
      ∀ blanks', (∀ x ∈ blanks', Json.isBlank x = true) → IsDocument d (body ++ b :: blanks') := by
  obtain ⟨first, blanks, ⟨w, hw, rfl⟩, hspells, hblank⟩ := h
  obtain ⟨v, rfl, hclose, hv⟩ := hspells.exists_append
  obtain ⟨u, rfl⟩ := hclose b hd
  refine ⟨w ++ u, blanks, by simp, hblank, fun blanks' hblank' => ?_⟩
  exact ⟨_, blanks', ⟨w, hw, by simp⟩, hv blanks', hblank'⟩

/-- A document may lack the white space at its end. -/
theorem IsDocument.of_append (h : IsDocument d (p ++ rest)) (hd : d.closer? = some b)
    (hrest : ∀ x ∈ rest, Json.isBlank x = true) : IsDocument d p := by
  obtain ⟨body, blanks, hsplit, hblank, hdocument⟩ := h.exists_body hd
  have hb := not_isBlank_of_closer? hd
  rcases List.append_eq_append_iff.1 hsplit with ⟨w, rfl, hw⟩ | ⟨w, rfl, hw⟩
  · -- The bracket would stand in the white space behind the cut.
    have hmem : b ∈ rest := by
      rw [hw]
      exact List.mem_append_right _ List.mem_cons_self
    rw [hrest b hmem] at hb
    cases hb
  · rcases w with _ | ⟨x, w⟩
    · have hmem : b ∈ rest := by
        rw [List.nil_append] at hw
        rw [← hw]
        exact List.mem_cons_self
      rw [hrest b hmem] at hb
      cases hb
    · obtain ⟨rfl, rfl⟩ := List.cons.inj hw
      exact hdocument w fun x hx => hblank x (List.mem_append_left _ hx)

end Documents

/-! ## Texts and files -/

theorem parse_eq_ok_of_toOption {text : String} {c : Config} (h : (parse text).toOption = some c) :
    parse text = .ok c := by
  cases hparse : parse text with
  | ok c' =>
    rw [hparse] at h
    exact congrArg Except.ok (Option.some.inj h)
  | error =>
    rw [hparse] at h
    cases h

theorem parse_eq_ok_iff_read {text : String} {c : Config} :
    parse text = .ok c ↔ read text.toList = .ok c := by
  rw [parse]
  cases read text.toList <;> simp [Except.mapError]

section Cuts
variable {p rest : String} {c c' : Config}

theorem blank_of_parse_append (h : parse (p ++ rest) = .ok c) (h' : parse p = .ok c') :
    ∀ x ∈ rest.toList, Json.isBlank x = true := by
  obtain ⟨d, hdocument, hdecode⟩ := read_eq_ok_iff.1 (parse_eq_ok_iff_read.1 h)
  obtain ⟨d', hdocument', hdecode'⟩ := read_eq_ok_iff.1 (parse_eq_ok_iff_read.1 h')
  obtain ⟨b, hd⟩ := exists_closer_of_decode? hdecode
  obtain ⟨b', hd'⟩ := exists_closer_of_decode? hdecode'
  rw [String.toList_append] at hdocument
  exact hdocument.blank_of_append hdocument' hd hd'

theorem parse_of_parse_append (h : parse (p ++ rest) = .ok c)
    (hrest : ∀ x ∈ rest.toList, Json.isBlank x = true) : parse p = .ok c := by
  obtain ⟨d, hdocument, hdecode⟩ := read_eq_ok_iff.1 (parse_eq_ok_iff_read.1 h)
  obtain ⟨b, hd⟩ := exists_closer_of_decode? hdecode
  rw [String.toList_append] at hdocument
  exact parse_eq_ok_iff_read.2 (read_eq_ok_iff.2 ⟨d, hdocument.of_append hd hrest, hdecode⟩)

theorem exists_error_of_cut (h : parse (p ++ rest) = .ok c)
    (hrest : ¬∀ x ∈ rest.toList, Json.isBlank x = true) : ∃ e, parse p = .error e := by
  cases hp : parse p with
  | ok c' => exact absurd (blank_of_parse_append h hp) hrest
  | error e => exact ⟨e, rfl⟩

/-- No settings are left in front of a character that is no white space. -/
theorem exists_error_of_body {text : String} {b : Char} {more blanks : List Char} (h : parse text = .ok c)
    (htext : text.toList = p.toList ++ more ++ b :: blanks) (hb : Json.isBlank b = false) :
    ∃ e, parse p = .error e := by
  have hsplit : text = p ++ String.ofList (more ++ b :: blanks) := by
    apply String.toList_injective
    rw [htext, String.toList_append, String.toList_ofList, List.append_assoc]
  rw [hsplit] at h
  refine exists_error_of_cut h fun hblank => ?_
  have hbracket := hblank b (by simp)
  rw [hb] at hbracket
  cases hbracket

/-- Bytes that are read as a text are the bytes of that text. -/
theorem encode_of_readText {files : Files} {path : String} {bytes : List UInt8}
    (hread : files.read path = .ok bytes) (h : files.readText path = .ok p) :
    Utf8.encode p = bytes := by
  rw [Files.readText, hread] at h
  have h : (if (Utf8.firstBroken? bytes).isSome then .error .notUtf8 else .ok (Utf8.decode bytes)) =
    (Except.ok p : Except FileError String) := h
  split_ifs at h with hbroken
  obtain rfl := Except.ok.inj h
  have hrepaired : Utf8.Repaired bytes (Utf8.decode bytes).toList := Utf8.decode_repairs.2 rfl
  rcases hrepaired.valid_or_broken with hbytes | ⟨ds, es, part, later, hpart, hbytes, -⟩
  · rw [Utf8.encode_eq_bytes, ← hbytes]
  · rw [hbytes, Utf8.firstBroken?_of_broken ds hpart] at hbroken
    exact absurd rfl hbroken

/-- The bytes of white space: space, tab, line feed and carriage return. -/
def blankBytes : List UInt8 := [0x20, 0x09, 0x0A, 0x0D]

theorem mem_blankBytes {x : Char} {y : UInt8} (hx : Json.isBlank x = true)
    (hy : y ∈ String.utf8EncodeChar x) : y ∈ blankBytes := by
  simp only [Json.isBlank, Bool.or_eq_true, beq_iff_eq] at hx
  rcases hx with ((rfl | rfl) | rfl) | rfl <;>
    rw [Utf8.utf8EncodeChar_of_lt (by decide), List.mem_singleton] at hy <;> subst hy <;> decide

theorem mem_blankBytes_of_mem_encode {text : String} (h : ∀ x ∈ text.toList, Json.isBlank x = true) :
    ∀ y ∈ Utf8.encode text, y ∈ blankBytes := by
  intro y hy
  rw [Utf8.encode_eq_bytes] at hy
  obtain ⟨x, hx, hy⟩ := List.mem_flatMap.1 hy
  exact mem_blankBytes (h x hx) hy

/-- A file in which more is missing than white space holds no settings. -/
theorem exists_error_of_load {text path : String} {files : Files} {bytes more : List UInt8}
    (h : parse text = .ok c) (hread : files.read path = .ok bytes)
    (hcut : Utf8.encode text = bytes ++ more) (hmore : ¬∀ y ∈ more, y ∈ blankBytes) :
    ∃ e, load files path = .error e := by
  unfold load
  cases htext : files.readText path with
  | error e => exact ⟨_, rfl⟩
  | ok p =>
    rw [← encode_of_readText hread htext] at hcut
    have hsplit : text = p ++ Utf8.decode more := by
      rw [← Utf8.decode_encode text, hcut, Utf8.decode_encode_append]
    have hvalid : more = Utf8.encode (Utf8.decode more) := by
      have hbytes : Utf8.encode p ++ more = Utf8.encode p ++ Utf8.encode (Utf8.decode more) := by
        rw [← hcut, hsplit]
        simp only [Utf8.encode_eq_bytes, String.toList_append, Utf8.bytes_append]
      exact List.append_cancel_left hbytes
    have hrest : ¬∀ x ∈ (Utf8.decode more).toList, Json.isBlank x = true := by
      intro hblank
      rw [hvalid] at hmore
      exact hmore (mem_blankBytes_of_mem_encode hblank)
    rw [hsplit] at h
    obtain ⟨e, he⟩ := exists_error_of_cut h hrest
    show ∃ e, (parse p).mapError (ConfigError.invalid path) = .error e
    rw [he]
    exact ⟨_, rfl⟩

end Cuts

/-- **A settings file that is cut off is not taken for settings.** What is left of its text holds the
same settings if only white space is cut off, and none otherwise. So there are no settings in any text
that lacks the closing bracket, which is the last that is no white space; and a file that lacks some
of the bytes up to there cannot be loaded, whether or not it still is UTF-8. -/
theorem load_of_cut {text : String} {c : Config} (h : parse text = .ok c) :
    (∀ p rest : String, text = p ++ rest →
      ((∀ x ∈ rest.toList, Json.isBlank x = true) → parse p = .ok c) ∧
        (¬(∀ x ∈ rest.toList, Json.isBlank x = true) → ∃ e, parse p = .error e)) ∧
    (∃ body b blanks, text.toList = body ++ b :: blanks ∧ (b = ']' ∨ b = '\x7d') ∧
      (∀ x ∈ blanks, Json.isBlank x = true) ∧
        ∀ p : String, p.toList <+: body → ∃ e, parse p = .error e) ∧
    ∀ (files : Files) (path : String) (bytes more : List UInt8), files.read path = .ok bytes →
      Utf8.encode text = bytes ++ more → ¬(∀ y ∈ more, y ∈ blankBytes) →
        ∃ e, load files path = .error e := by
  refine ⟨?_, ?_, ?_⟩
  · rintro p rest rfl
    exact ⟨parse_of_parse_append h, exists_error_of_cut h⟩
  · obtain ⟨d, hdocument, hdecode⟩ := read_eq_ok_iff.1 (parse_eq_ok_iff_read.1 h)
    obtain ⟨b, hd⟩ := exists_closer_of_decode? hdecode
    obtain ⟨body, blanks, htext, hblank, -⟩ := hdocument.exists_body hd
    refine ⟨body, b, blanks, htext, closer?_cases hd, hblank, ?_⟩
    rintro p ⟨more, rfl⟩
    exact exists_error_of_body h htext (not_isBlank_of_closer? hd)
  · intro files path bytes more hread hcut hmore
    exact exists_error_of_load h hread hcut hmore

/-- The cuts go through a member that no record knows, one of them within the character `é`. -/
theorem load_of_cut_skipped :
    let text := "\x7b\"x\":[[1e5,\"é\"]],\"output\":[null,true,null]\x7d\n"
    let c : Config := ⟨none, some ⟨none, some true, none⟩⟩
    let cut : List UInt8 := Utf8.encode "\x7b\"x\":[[1e5,\"" ++ [0xC3]
    parse text = .ok c ∧ parse "\x7b\"x\":[[1e5,\"é\"]],\"output\":[null,true,null]\x7d" = .ok c ∧
      (∃ e, parse "\x7b\"x\":[[1e5" = .error e) ∧
        ∃ e, load ⟨fun _ => .ok cut, fun _ => true⟩ fileName = .error e := by
  intro text c cut
  have hparse : parse text = .ok c := parse_eq_ok_of_toOption (by decide +kernel)
  obtain ⟨hcuts, -, hfiles⟩ := load_of_cut hparse
  refine ⟨hparse, ?_, ?_, ?_⟩
  · exact (hcuts _ "\n" rfl).1 (List.forall_mem_singleton.2 rfl)
  · refine (hcuts _ ",\"é\"]],\"output\":[null,true,null]\x7d\n" rfl).2 fun hblank => ?_
    exact absurd (hblank ',' (by decide)) (by decide)
  · refine hfiles _ _ cut (0xA9 :: Utf8.encode "\"]],\"output\":[null,true,null]\x7d\n") rfl ?_ ?_
    · decide +kernel
    · decide +kernel

end TokenDump.Config
