-- Processes.
import NamespaceAtlas.Error

namespace NamespaceAtlas

/-- A process as it was seen. -/
structure Process where
  pid : Pid
  /-- The parent that the kernel names. -/
  parentPid : Pid
  /-- The parent, if it is in the table too. -/
  parent : Option Pid := none
  /-- The children in the table. -/
  children : List Pid := []
  /-- The command name. -/
  name : String
  /-- The arguments of the command. -/
  arguments : List String := []
  /-- When the process started, in clock ticks after boot. -/
  started : UInt64
  /-- The numbers of the process in its PID namespaces, outermost first. -/
  innerPids : List Pid := []
  /-- The namespaces it has joined. -/
  joined : BySpecies (Option Identity) := .same none
  /-- The container it belongs to. -/
  container : Option String := none
  deriving DecidableEq

namespace Process

/-- The arguments if there are any, else the command name. -/
def title (p : Process) : String :=
  if p.arguments.isEmpty then p.name else " ".intercalate p.arguments

end Process

end NamespaceAtlas
