-- The options of a discovery: which species and phases are in scope, and how
-- long things may take.
import NamespaceAtlas.Species.Selection
import NamespaceAtlas.Span
import NamespaceAtlas.Path

namespace NamespaceAtlas

/-- What a discovery is asked to do. -/
structure Options where
  /-- The species in scope. -/
  species : Selection := .all
  /-- Find the namespaces that processes have joined. -/
  processes : Bool := true
  /-- Find the namespaces that open files hold. -/
  openFiles : Bool := true
  /-- Find the namespaces that are mounted, in every mount namespace within reach. -/
  bindMounts : Bool := true
  /-- Go up the hierarchies of PID and user namespaces. -/
  hierarchy : Bool := true
  /-- Link namespaces with the user namespaces that own them. -/
  ownership : Bool := true
  /-- Read the mount table of every mount namespace. -/
  mountTables : Bool := false
  /-- Build the map of process numbers. -/
  pidMap : Bool := false
  /-- How long the whole may take. -/
  limit : Option Span := none
  /-- How long a sandbox may take to attach. -/
  attachLimit : Span := .ofSeconds 5
  /-- Where procfs is mounted. -/
  procfs : Path := Path.proc
  deriving DecidableEq

namespace Options

/-- The phases that find and relate namespaces, on all species. -/
def standard : Options := {}

/-- The standard phases, the mount tables and the map of process numbers. -/
def full : Options := { mountTables := true, pidMap := true }

/-- No phase. -/
def nothing : Options := {
  processes := false
  openFiles := false
  bindMounts := false
  hierarchy := false
  ownership := false }

/-- Whether a species is in scope. -/
def includes (o : Options) (s : Species) : Bool := o.species.has s

/-- The species in scope, in the order of their slots. -/
def inScope (o : Options) : List Species := o.species.species

end Options

end NamespaceAtlas
