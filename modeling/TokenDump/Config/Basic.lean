import TokenDump.Dump
import TokenDump.Scanner.Rule

/-!
# Settings

The settings file has a part for the scanner and a part for the dump. Every setting may be left
unset; an unset one reads as the plain format or as false.
-/

namespace TokenDump

/-- The settings of the scanner. -/
structure ScannerSettings where
  extendedNumbers : Option Bool
  memberAccessKinds : Option Bool
  deriving DecidableEq, Repr, Inhabited

/-- The settings of the dump. -/
structure OutputSettings where
  format : Option Format
  skipComments : Option Bool
  showSpans : Option Bool
  deriving DecidableEq, Repr, Inhabited

/-- All settings. -/
structure Config where
  scanner : Option ScannerSettings
  output : Option OutputSettings
  deriving DecidableEq, Repr, Inhabited

def ScannerSettings.unset : ScannerSettings := ⟨none, none⟩

def OutputSettings.unset : OutputSettings := ⟨none, none, none⟩

namespace Config

/-- The settings of a file that sets nothing. -/
def unset : Config := ⟨none, none⟩

/-- The settings to start from: each is set, to what it would be if it were not. -/
def template : Config :=
  ⟨some ⟨some false, some false⟩, some ⟨some .plain, some false, some false⟩⟩

/-- The name of the settings file. -/
def fileName : String := "cscan.json"

def extendedNumbers (c : Config) : Bool := (c.scanner.bind (·.extendedNumbers)).getD false

def memberAccessKinds (c : Config) : Bool := (c.scanner.bind (·.memberAccessKinds)).getD false

def format (c : Config) : Format := (c.output.bind (·.format)).getD .plain

def skipComments (c : Config) : Bool := (c.output.bind (·.skipComments)).getD false

def showSpans (c : Config) : Bool := (c.output.bind (·.showSpans)).getD false

/-- The dialect that the settings choose. -/
def dialect (c : Config) : Dialect := ⟨c.extendedNumbers, c.memberAccessKinds⟩

end Config

end TokenDump
