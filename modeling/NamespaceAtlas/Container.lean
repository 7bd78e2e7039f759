-- Containers, as an engine that manages them reports them.
import NamespaceAtlas.Identity

namespace NamespaceAtlas

/-- A container and the process it runs as. -/
structure Container where
  id : String
  name : String
  engine : String
  /-- The first process, as the engine numbers it; 0 if the container does not run. -/
  pid : Pid
  /-- The PID namespace of that number; none for that of the caller. -/
  pidSpace : Option Identity := none
  paused : Bool := false
  /-- The labels, by ascending keys. -/
  labels : List (String × String) := []
  /-- The process in the PID namespace of the caller. -/
  process : Option Pid := none
  deriving DecidableEq

/-- An engine that always reports the same containers and counts how often it is asked. -/
structure FixedEngine where
  containers : List Container
  asked : Nat := 0

namespace FixedEngine

/-- Asks for the containers. -/
def ask (e : FixedEngine) : List Container × FixedEngine :=
  (e.containers, { e with asked := e.asked + 1 })

end FixedEngine

end NamespaceAtlas
