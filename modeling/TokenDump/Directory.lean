import TokenDump.Files

/-!
# A working directory

Files, folders and symbolic links, each at a place: the list of the names that lead to it from the root.
A path is followed name by name, from the root if it starts with a slash and else from the working
directory, links included, up to a number of links. Reading and writing go through the place that a path
leads to, so a write through a link makes or changes the file at the end of it.
-/

namespace TokenDump

/-- What stands at a place. -/
inductive Node where
  | file (bytes : List UInt8)
  | folder
  | link (target : String)
  deriving DecidableEq, Repr

/-- The names that lead from the root to something. -/
abbrev Place := List String

/-- A working directory, and what there is in it and around it. -/
structure Directory where
  /-- Where the working directory is. -/
  here : Place
  entries : List (Place × Node)
  deriving Repr

/-- What a path leads to. -/
inductive Target where
  | folder
  | file (place : Place) (bytes : List UInt8)
  /-- Nothing, in a folder that exists. -/
  | vacant (place : Place)
  deriving DecidableEq, Repr

/-! ## Paths -/

/-- The names in a path, `name` in reverse in front of the first. A slash at either end, or a double
one, leaves an empty name. -/
def namesAfter (name : List Char) : List Char → List String
  | [] => [String.ofList name.reverse]
  | c :: cs =>
    if c == '/' then String.ofList name.reverse :: namesAfter [] cs else namesAfter (c :: name) cs

/-- The names in a path. -/
def pathNames (path : String) : List String := namesAfter [] path.toList

/-- Whether a path starts at the root. -/
def isAbsolute (path : String) : Bool := path.toList.head? == some '/'

/-- The most bytes that a name may have. -/
def nameLimit : Nat := 255

/-- A path must have fewer bytes than this. -/
def pathLimit : Nat := 4096

/-- The most links that are followed on one path. -/
def linkLimit : Nat := 40

namespace Directory

/-- An empty working directory, with nothing around it. -/
def empty : Directory := ⟨["work"], []⟩

/-- What stands at a place; the working directory is a folder, and so are those above it. -/
def get? (d : Directory) (place : Place) : Option Node :=
  if place.isPrefixOf d.here then some .folder else (d.entries.find? (·.1 == place)).map (·.2)

/-- The directory with something put at a place, over what was there. -/
def put (d : Directory) (place : Place) (node : Node) : Directory :=
  { d with entries := (place, node) :: d.entries.filter (·.1 != place) }

/-- Follows the names of a path from a folder. Above the root is the root. When a file is to be made, a
last name with a slash after it can only be a folder. -/
def walk (d : Directory) (making : Bool) (links : Nat) (folder : Place) :
    List String → Except FileError Target
  | [] => .ok .folder
  | name :: later =>
    if name == "" || name == "." then d.walk making links folder later
    else if name == ".." then d.walk making links folder.dropLast later
    else if nameLimit < name.utf8ByteSize then .error .nameTooLong
    else
      let place := folder ++ [name]
      if making && !later.isEmpty && later.all (·.isEmpty) then .error .isFolder
      else
        match d.get? place with
        | none => if later.isEmpty then .ok (.vacant place) else .error .notFound
        | some .folder => d.walk making links place later
        | some (.file bytes) =>
          if later.isEmpty then .ok (.file place bytes) else .error .notFolder
        | some (.link target) =>
          match links with
          | 0 => .error .tooManyLinks
          | links + 1 =>
            d.walk making links (if isAbsolute target then [] else folder)
              (pathNames target ++ later)
termination_by names => (links, names.length)

/-- Where the names of a path are followed from. -/
def start (d : Directory) (path : String) : Place := if isAbsolute path then [] else d.here

/-- What a path leads to. -/
def locate (d : Directory) (making : Bool) (path : String) : Except FileError Target :=
  if path.toList.contains '\x00' then .error .nulInPath
  else if path.isEmpty then .error .notFound
  else if pathLimit ≤ path.utf8ByteSize then .error .nameTooLong
  else d.walk making linkLimit (d.start path) (pathNames path)

/-- The content of the file that a path leads to. -/
def read (d : Directory) (path : String) : Except FileError (List UInt8) :=
  match d.locate false path with
  | .error e => .error e
  | .ok .folder => .error .isFolder
  | .ok (.vacant _) => .error .notFound
  | .ok (.file _ bytes) => .ok bytes

/-- Whether a path leads to a file. -/
def isFile (d : Directory) (path : String) : Bool :=
  match d.locate false path with
  | .ok (.file _ _) => true
  | _ => false

/-- Whether a path leads to a file or a folder. -/
def has (d : Directory) (path : String) : Bool :=
  match d.locate false path with
  | .ok .folder => true
  | .ok (.file _ _) => true
  | _ => false

/-- The directory after a file is made, or written over, where a path leads. -/
def write (d : Directory) (path : String) (bytes : List UInt8) : Except FileError Directory :=
  match d.locate true path with
  | .error e => .error e
  | .ok .folder => .error .isFolder
  | .ok (.vacant place) => .ok (d.put place (.file bytes))
  | .ok (.file place _) => .ok (d.put place (.file bytes))

/-- The directory with folders on the way to a place. -/
def putFolders (d : Directory) : (above : Place) → Place → Directory
  | _, [] => d
  | above, name :: later =>
    let place := above ++ [name]
    let d := if (d.get? place).isSome then d else d.put place .folder
    d.putFolders place later

/-- The directory with something put at a path without links, and folders on the way to it. -/
def add (d : Directory) (path : String) (node : Node) : Directory :=
  let names := (pathNames path).filter (fun name => name != "" && name != ".")
  (d.putFolders d.here names.dropLast).put (d.here ++ names) node

/-- The directory of some paths without links and what stands there. -/
def ofList (files : List (String × Node)) : Directory :=
  files.foldl (fun d (path, node) => d.add path node) empty

end Directory

/-- The directory, as what a run asks of it. -/
def Directory.files (d : Directory) : Files := ⟨d.read, d.isFile⟩

end TokenDump
