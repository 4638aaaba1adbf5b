import TokenDump.Main
import TokenDump.Scanner.Session
import TokenDump.Sink
import TokenDump.Proofs.Scanner.Choice
import TokenDump.Proofs.Scanner.Extent
import TokenDump.Proofs.Scanner.Grammar
import TokenDump.Proofs.Scanner.Context
import TokenDump.Proofs.Scanner.Segments
import TokenDump.Proofs.Scanner.Stretches
import TokenDump.Proofs.Scanner.Tiling
import TokenDump.Proofs.Scanner.Lexing
import TokenDump.Proofs.Scanner.LineFeed
import TokenDump.Proofs.Scanner.Unparse
import TokenDump.Proofs.Scanner.Lookahead
import TokenDump.Proofs.Scanner.Session
import TokenDump.Proofs.Scanner.Comments
import TokenDump.Scanner.Cursor
import TokenDump.Proofs.Cursor.Reading
import TokenDump.Proofs.Cursor.Loops
import TokenDump.Proofs.Cursor.Rules
import TokenDump.Proofs.Cursor.Safety
import TokenDump.Proofs.Text.Runs
import TokenDump.Proofs.Dump.Lines
import TokenDump.Proofs.Dump.Spans
import TokenDump.Proofs.Json.Grammar
import TokenDump.Proofs.Json.Layout
import TokenDump.Proofs.Dump.Json
import TokenDump.Proofs.Run.Output
import TokenDump.Proofs.Scanner.MemberAccess
import TokenDump.Proofs.Scanner.Notes
import TokenDump.Proofs.Scanner.ExtendedNumbers
import TokenDump.Proofs.Json.Skipping
import TokenDump.Proofs.Json.Records
import TokenDump.Proofs.Config.Language
import TokenDump.Proofs.Scanner.Respelling
import TokenDump.Proofs.Scanner.RespeltTokens
import TokenDump.Proofs.Dump.Room
import TokenDump.Proofs.Json.Endings
import TokenDump.Proofs.Config.Cuts
import TokenDump.Proofs.Directory.Paths
import TokenDump.Proofs.Run.Making
import TokenDump.Proofs.Scanner.Order
import TokenDump.Proofs.Scanner.Saturation
