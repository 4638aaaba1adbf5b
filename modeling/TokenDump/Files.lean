import TokenDump.Text.Utf8

/-!
# Files

What a program can ask of the files around it, and why a file cannot be used.
-/

namespace TokenDump

/-- Why a file cannot be used. -/
inductive FileError where
  | notFound
  | notFolder
  | isFolder
  | nameTooLong
  | tooManyLinks
  | nulInPath
  | notUtf8
  | other (text : String)
  deriving DecidableEq, Repr

def FileError.message : FileError → String
  | notFound => "No such file or directory (os error 2)"
  | notFolder => "Not a directory (os error 20)"
  | isFolder => "Is a directory (os error 21)"
  | nameTooLong => "File name too long (os error 36)"
  | tooManyLinks => "Too many levels of symbolic links (os error 40)"
  | nulInPath => "file name contained an unexpected NUL byte"
  | notUtf8 => "stream did not contain valid UTF-8"
  | other text => text

/-- What a run asks of the files around it. -/
structure Files where
  read : String → Except FileError (List UInt8)
  isFile : String → Bool

/-- The content of a file that must be UTF-8. -/
def Files.readText (files : Files) (path : String) : Except FileError String := do
  let bytes ← files.read path
  if (Utf8.firstBroken? bytes).isSome then .error .notUtf8 else .ok (Utf8.decode bytes)

end TokenDump
