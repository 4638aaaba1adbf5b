import TokenDump.Proofs.Dump.Lines
import TokenDump.Proofs.Json.Layout

/-!
# Reading JSON dumps back

A JSON dump is one list of records with a line feed behind it, and dumps that follow each other are read
as just these lists (`documents_text_iff`): whatever a lexeme holds, its record gives the name of the
kind, the lexeme, and both ends of the span, so the tokens shown are known from the dumps.
-/

namespace TokenDump
open Json Text

variable {style style' : Style} {t t' : Token} {tokens tokens' : List Token}
  {lists lists' : List (List Token)}

/-- The record of a token: the name of its kind, its lexeme, and where it starts and ends. -/
def Token.datum (t : Token) : Datum :=
  .object [(units "kind", .string (units t.kind.name)), (units "lexeme", .string (units t.lexeme)),
    (units "start", .number t.span.start.toNat), (units "end", .number t.span.stop.toNat)]

/-- A token is known from its record. -/
theorem Token.datum_injective (h : t.datum = t'.datum) : t = t' := by
  simp only [Token.datum, Datum.object.injEq, List.cons.injEq, Prod.mk.injEq, Datum.string.injEq,
    Datum.number.injEq, Nat.cast_inj, true_and, and_true] at h
  obtain ⟨hkind, hlexeme, hstart, hstop⟩ := h
  exact eq_of_parts (TokenKind.name_injective (units_injective hkind)) (units_injective hlexeme)
    (UInt32.toNat_inj.1 hstart) (UInt32.toNat_inj.1 hstop)

namespace Dump

/-- The document of a JSON dump that shows some tokens: the list of their records, and a line feed. -/
def document (tokens : List Token) : Datum × List Char := (.array (tokens.map Token.datum), ['\n'])

theorem document_injective : Function.Injective document := by
  intro tokens tokens' h
  exact List.map_injective_iff.2 (fun _ _ => Token.datum_injective)
    (Datum.array.inj (congrArg Prod.fst h))

theorem toList_text_json (h : style.format = .json) (tokens : List Token) :
    (text style tokens).toList =
      (Value.array ((shown style.skipComments tokens).map record)).layout 0 ++ ['\n'] := by
  unfold text pieces
  rw [h, visible_eq, String.toList_join]
  rfl

theorem datum_array_record (tokens : List Token) :
    (Value.array (tokens.map record)).datum = .array (tokens.map Token.datum) := by
  rw [Value.datum, Value.data_eq_map, List.map_map]
  rfl

theorem documents_texts (h : style.format = .json) (lists : List (List Token)) :
    Documents ((lists.map (shown style.skipComments)).map document)
      (String.join (lists.map (text style))).toList := by
  rw [String.toList_join]
  induction lists with
  | nil => exact .nil
  | cons tokens lists ih =>
    simp only [List.map_cons, List.flatMap_cons, toList_text_json h, List.append_assoc]
    refine .document ?_ (List.forall_mem_singleton.2 rfl) ih
    rw [← datum_array_record]
    exact spells_layout 0 _ _

/-- Texts that are read as documents of dumps are read so in one way only. -/
theorem eq_of_documents {documents : List (Datum × List Char)} {cs : List Char}
    (h : Documents (lists.map document) cs) (h' : Documents documents cs) :
    documents = lists.map document := by
  refine (h.unique h' fun d hd => ?_).symm
  obtain ⟨tokens, -, rfl⟩ := List.mem_map.1 hd
  exact ⟨_, rfl⟩

end Dump

/-- **JSON dumps can be read back**: dumps that follow each other are, in one way only, as many lists
as there are dumps, each of the records of the tokens that are shown, with a line feed behind it. So
dumps that are the same show the same tokens. -/
theorem documents_text_iff (h : style.format = .json) (lists : List (List Token)) :
    (∀ documents, Documents documents (String.join (lists.map (Dump.text style))).toList ↔
      documents = (lists.map (Dump.shown style.skipComments)).map Dump.document) ∧
      ∀ {style' : Style} {lists' : List (List Token)}, style'.format = .json →
        String.join (lists.map (Dump.text style)) = String.join (lists'.map (Dump.text style')) →
        lists.map (Dump.shown style.skipComments) = lists'.map (Dump.shown style'.skipComments) := by
  have hdocs := Dump.documents_texts h lists
  refine ⟨fun documents => ⟨Dump.eq_of_documents hdocs, ?_⟩, fun {style' lists'} h' htext => ?_⟩
  · rintro rfl
    exact hdocs
  · have hdocs' := Dump.documents_texts h' lists'
    rw [← htext] at hdocs'
    exact (List.map_injective_iff.2 Dump.document_injective (Dump.eq_of_documents hdocs hdocs')).symm

theorem documents_text_iff_skipped :
    let odd : Token := ⟨.stringLiteral, "\"\\\n\x07é\"", ⟨4294967290, 5⟩⟩
    let note : Token := ⟨.lineComment, "//]", ⟨3, 3⟩⟩
    let lists := [[note, odd], [], [odd]]
    let lists' := [[odd], [], [odd]]
    (∀ documents,
        Documents documents (String.join (lists.map (Dump.text ⟨.json, true, false⟩))).toList ↔
          documents = (lists.map (Dump.shown true)).map Dump.document) ∧
      String.join (lists.map (Dump.text ⟨.json, true, false⟩)) =
        String.join (lists'.map (Dump.text ⟨.json, false, true⟩)) ∧
      lists.map (Dump.shown true) = lists'.map (Dump.shown false) := by
  intro odd note lists lists'
  have hjson : (⟨.json, true, false⟩ : Style).format = .json := rfl
  obtain ⟨hread, hvisible⟩ := documents_text_iff hjson lists
  have htext : String.join (lists.map (Dump.text ⟨.json, true, false⟩)) =
      String.join (lists'.map (Dump.text ⟨.json, false, true⟩)) := by decide +kernel
  exact ⟨hread, htext, hvisible rfl htext⟩

end TokenDump
