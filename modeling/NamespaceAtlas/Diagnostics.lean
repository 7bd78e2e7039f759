-- What a discovery had to skip, and what else it noted.
import NamespaceAtlas.Identity

namespace NamespaceAtlas

/-- The account of a discovery. -/
structure Diagnostics where
  /-- Processes taken out because their namespaces could not be read. -/
  skippedProcesses : Nat := 0
  /-- Processes whose open files could not be listed. -/
  skippedFileLists : Nat := 0
  /-- Open files that could not be opened again. -/
  skippedFiles : Nat := 0
  /-- Mounted namespaces that were gone or could not be opened. -/
  skippedBindMounts : Nat := 0
  /-- Mount namespaces that could not be entered. -/
  unreachable : List Identity := []
  /-- Namespaces that only the way up a hierarchy showed. -/
  hidden : Nat := 0
  /-- Namespaces whose owner is not known. -/
  unowned : Nat := 0
  /-- Processes left out of the map of process numbers. -/
  pidMismatches : Nat := 0
  /-- Sandboxes that were spawned. -/
  sandboxes : Nat := 0
  /-- The phase in which the time was up. -/
  interrupted : Option String := none
  /-- Other errors that did not end the discovery. -/
  notes : List String := []
  deriving DecidableEq

namespace Diagnostics

/-- Whether nothing was skipped and nothing noted. -/
def isClean (d : Diagnostics) : Bool := d = {}

/-- Adds a note. -/
def note (d : Diagnostics) (text : String) : Diagnostics := { d with notes := d.notes ++ [text] }

end Diagnostics

end NamespaceAtlas
