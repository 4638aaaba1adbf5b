import TokenDump.Dump
import TokenDump.Text.Utf8

/-!
# Writers with limited room

A sink accepts a number of bytes in all and refuses the rest. A piece that does not fit is accepted
as far as there is room, and writing ends there with the stage of that piece.
-/

namespace TokenDump

/-- A writer that runs out of room. -/
structure Sink where
  /-- How many more bytes are accepted. -/
  room : Nat
  /-- The bytes accepted so far. -/
  accepted : List UInt8
  deriving DecidableEq, Repr

namespace Sink

/-- The sink that has accepted nothing yet. -/
def ofRoom (room : Nat) : Sink := ⟨room, []⟩

/-- What the sink has of some bytes after they are written to it. -/
def write (s : Sink) (bytes : List UInt8) : Sink :=
  ⟨s.room - bytes.length, s.accepted ++ bytes.take s.room⟩

/-- Some pieces written in turn, and the stage of the first that does not fit. -/
def writePieces (s : Sink) : List Piece → Sink × Option Stage
  | [] => (s, none)
  | p :: ps =>
    let bytes := Utf8.encode p.text
    if bytes.length ≤ s.room then (s.write bytes).writePieces ps else (s.write bytes, some p.stage)

end Sink

end TokenDump
