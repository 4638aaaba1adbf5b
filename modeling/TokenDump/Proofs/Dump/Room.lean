import TokenDump.Failure
import TokenDump.Proofs.Text.Bytes
import TokenDump.Sink

/-!
# Dumps that do not fit

What a sink has in the end, and the stage that is to blame, are read off the bytes of all pieces with
the stage of each (`Sink.writePieces_eq`): the sink has as many of the bytes as there is room for, and
the first byte too many tells the stage. So it makes no difference how a dump is cut into pieces, and
of a JSON dump only the last byte belongs to the output (`writePieces_dump`).
-/

namespace TokenDump
open Utf8

/-- The bytes of some pieces, each with the stage it is written in. -/
def Piece.staged (ps : List Piece) : List (Stage × UInt8) :=
  ps.flatMap fun p => (encode p.text).map (p.stage, ·)

namespace Piece
variable {ps : List Piece} {stage : Stage}

theorem staged_cons (p : Piece) (ps : List Piece) :
    staged (p :: ps) = (encode p.text).map (p.stage, ·) ++ staged ps := List.flatMap_cons

theorem map_snd_staged_cons (p : Piece) (ps : List Piece) :
    (staged (p :: ps)).map (·.2) = encode p.text ++ (staged ps).map (·.2) := by
  rw [staged_cons, List.map_append, List.map_map]
  exact congrArg (· ++ _) (List.map_id _)

theorem map_snd_staged (ps : List Piece) :
    (staged ps).map (·.2) = encode (String.join (ps.map (·.text))) := by
  rw [encode_eq_bytes, String.toList_join, List.flatMap_map]
  induction ps with
  | nil => rfl
  | cons p ps ih =>
    rw [map_snd_staged_cons, ih, List.flatMap_cons, bytes_append, ← encode_eq_bytes]

/-- Pieces of one stage blame no other. -/
theorem stage_staged (h : ∀ p ∈ ps, p.stage = stage) {n : Nat} (hn : n < (staged ps).length) :
    (staged ps)[n]?.map (·.1) = some stage := by
  obtain ⟨p, hp, hx⟩ := List.mem_flatMap.1 (List.getElem_mem hn)
  obtain ⟨b, -, hb⟩ := List.mem_map.1 hx
  rw [List.getElem?_eq_getElem hn, Option.map_some, ← hb, h p hp]

end Piece

namespace Sink

theorem write_append (s : Sink) (bs bs' : List UInt8) :
    (s.write bs).write bs' = s.write (bs ++ bs') := by
  simp only [write, List.length_append, List.take_append, List.append_assoc, Nat.sub_sub]

/-- Without room nothing more is accepted. -/
theorem write_append_of_le {s : Sink} {bs : List UInt8} (h : s.room ≤ bs.length)
    (bs' : List UInt8) : s.write (bs ++ bs') = s.write bs := by
  rw [← write_append, write, write, Nat.sub_eq_zero_of_le h, Nat.zero_sub, List.take_zero,
    List.append_nil]

/-- **Writing pieces** is writing all their bytes, and the first byte without room is to blame. -/
theorem writePieces_eq (s : Sink) (ps : List Piece) : s.writePieces ps =
    (s.write ((Piece.staged ps).map (·.2)), (Piece.staged ps)[s.room]?.map (·.1)) := by
  induction ps generalizing s with
  | nil => simp [writePieces, Piece.staged, write]
  | cons p ps ih =>
    rw [writePieces, Piece.map_snd_staged_cons, Piece.staged_cons]
    split_ifs with hfits
    · rw [ih, write_append, List.getElem?_append_right (by rwa [List.length_map]), List.length_map]
      rfl
    · have hroom : s.room < (encode p.text).length := Nat.not_le.1 hfits
      rw [write_append_of_le hroom.le, List.getElem?_append_left (by rwa [List.length_map]),
        List.getElem?_map, List.getElem?_eq_getElem hroom]
      rfl

end Sink

namespace Dump
variable {style : Style} {tokens : List Token} {n : Nat}

theorem map_snd_staged_pieces (style : Style) (tokens : List Token) :
    (Piece.staged (pieces style tokens)).map (·.2) = encode (text style tokens) :=
  Piece.map_snd_staged _

theorem length_staged_pieces (style : Style) (tokens : List Token) :
    (Piece.staged (pieces style tokens)).length = (encode (text style tokens)).length := by
  rw [← map_snd_staged_pieces, List.length_map]

theorem stage_plain (h : style.format = .plain) (hn : n < (encode (text style tokens)).length) :
    (Piece.staged (pieces style tokens))[n]?.map (·.1) = some .output := by
  refine Piece.stage_staged (fun p hp => ?_) (length_staged_pieces style tokens ▸ hn)
  rw [pieces, h] at hp
  obtain ⟨t, -, rfl⟩ := List.mem_map.1 hp
  rfl

/-- A line feed ends a JSON dump, and it is all that belongs to the output. -/
theorem stage_json (h : style.format = .json) (hn : n < (encode (text style tokens)).length) :
    (Piece.staged (pieces style tokens))[n]?.map (·.1) =
      if n + 1 < (encode (text style tokens)).length then some .json else some .output := by
  rw [← length_staged_pieces] at hn ⊢
  rw [pieces, h] at hn ⊢
  have hfeed : Piece.staged [⟨.output, "\n"⟩] = [(.output, 0x0A)] := by decide
  rw [Piece.staged_cons, hfeed, List.length_append, List.length_map, List.length_singleton] at hn ⊢
  split_ifs with hlast
  · have hbody := Nat.lt_of_succ_lt_succ hlast
    rw [List.getElem?_append_left (by rwa [List.length_map]), List.getElem?_map,
      List.getElem?_eq_getElem hbody]
    rfl
  · obtain rfl : n = _ := (Nat.le_of_lt_succ hn).antisymm (Nat.not_lt.1 (mt Nat.succ_lt_succ hlast))
    rw [List.getElem?_append_right (by rw [List.length_map]), List.length_map, Nat.sub_self]
    rfl

end Dump

/-- **A dump that does not fit** is written as far as there is room, in whatever pieces it is written.
A plain dump fails with its output. A JSON dump fails as JSON, but for its last byte. -/
theorem writePieces_dump {ps : List Piece} {style : Style} {tokens : List Token}
    (h : Piece.staged ps = Piece.staged (Dump.pieces style tokens)) (room : Nat) (cause : String) :
    let full := encode (Dump.text style tokens)
    let written := (Sink.ofRoom room).writePieces ps
    written.1.accepted = full.take (min room full.length) ∧
      written.2.map (Failure.ofStage cause) =
        (if full.length ≤ room then none
        else if style.format = .json ∧ room + 1 < full.length then some (.json cause)
        else some (.output cause)) ∧
      (style.format = .plain → Dump.visible style tokens = [] → written.2 = none) := by
  intro full written
  have hwritten : written = ((Sink.ofRoom room).write full,
      (Piece.staged (Dump.pieces style tokens))[room]?.map (·.1)) := by
    rw [show full = _ from (Dump.map_snd_staged_pieces style tokens).symm, ← h]
    exact Sink.writePieces_eq _ _
  have hstage (hroom : full.length ≤ room) : written.2 = none := by
    rw [← Dump.length_staged_pieces] at hroom
    rw [hwritten, List.getElem?_eq_none hroom, Option.map_none]
  refine ⟨?_, ?_, fun hformat hempty => hstage ?_⟩
  · rw [hwritten, Sink.write, Sink.ofRoom, List.nil_append, ← List.take_take, List.take_length]
  · split_ifs with hroom hlast
    · rw [hstage hroom, Option.map_none]
    · rw [hwritten, Dump.stage_json hlast.1 (Nat.not_le.1 hroom), if_pos hlast.2]
      rfl
    · cases hformat : style.format with
      | plain =>
        rw [hwritten, Dump.stage_plain hformat (Nat.not_le.1 hroom)]
        rfl
      | json =>
        rw [hwritten, Dump.stage_json hformat (Nat.not_le.1 hroom),
          if_neg fun h => hlast ⟨hformat, h⟩]
        rfl
  · have hnil : Dump.text style tokens = "" := by
      rw [Dump.text, Dump.pieces, hformat, hempty]
      rfl
    rw [show full = _ from congrArg encode hnil]
    exact Nat.zero_le room

/-- A token in five writes, with room up to the middle of its lexeme, and for all but the line feed. -/
theorem writePieces_dump_split :
    let tokens : List Token := [⟨.unknown, "é", ⟨0, 2⟩⟩]
    let style : Style := ⟨.json, false, false⟩
    let ps : List Piece := [⟨.json, "[\n  \x7b\n    \"kind\": \"TOK_UNKNOWN\""⟩,
      ⟨.json, ",\n    \"lexeme\": \""⟩, ⟨.json, "é"⟩,
      ⟨.json, "\",\n    \"start\": 0,\n    \"end\": 2\n  \x7d\n]"⟩, ⟨.output, "\n"⟩]
    let full := encode (Dump.text style tokens)
    Piece.staged ps = Piece.staged (Dump.pieces style tokens) ∧
      ((Sink.ofRoom 49).writePieces ps).1.accepted = full.take 49 ∧
      ((Sink.ofRoom 49).writePieces ps).2.map (Failure.ofStage "closed") = some (.json "closed") ∧
      ((Sink.ofRoom 87).writePieces ps).2.map (Failure.ofStage "closed") =
        some (.output "closed") := by
  intro tokens style ps full
  have h : Piece.staged ps = Piece.staged (Dump.pieces style tokens) := by decide +kernel
  have hlen : full.length = 88 := by decide +kernel
  obtain ⟨haccepted, hjson, -⟩ := writePieces_dump h 49 "closed"
  obtain ⟨-, houtput, -⟩ := writePieces_dump h 87 "closed"
  rw [show (encode (Dump.text style tokens)).length = 88 from hlen] at haccepted hjson houtput
  exact ⟨h, haccepted, hjson, houtput⟩

end TokenDump
