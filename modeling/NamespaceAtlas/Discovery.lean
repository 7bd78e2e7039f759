-- Discovery: the survey of a host, phase by phase. Namespaces are found
-- first, then related to each other; an error is noted and the next phase
-- runs, unless the kernel has broken its contract or the time is up.
import NamespaceAtlas.Discovery.Joined
import NamespaceAtlas.Discovery.Held
import NamespaceAtlas.Discovery.Mounted
import NamespaceAtlas.Discovery.Ascent

namespace NamespaceAtlas

namespace Survey

/-! ## How a step came out -/

/-- Takes in how a step of a phase came out, and says whether to go on. An error that is fatal
comes back; any other is noted. -/
def absorb (v : Survey) (phase : String) : Except Error Unit → Except Error (Bool × Survey)
  | .ok () => .ok (true, v)
  | .error (.late phase) =>
    .ok (false, v.mapDiagnostics fun d => { d with interrupted := some phase })
  | .error why =>
    if why.isFatal then .error why
    else .ok (true, v.note (phase ++ ": " ++ why.message))

end Survey

/-- A step of a discovery: a phase, or a phase on one species. -/
structure Step (σ : Type) where
  phase : String
  run : Phase σ Unit

namespace Step

variable {σ : Type}

/-- A step that runs if it is enabled. -/
def when (enabled : Bool) (phase : String) (run : Phase σ Unit) : List (Step σ) :=
  if enabled then [⟨phase, run⟩] else []

/-- A step for each species of a list, if they are enabled. -/
def forEach (enabled : Bool) (phase : String) (l : List Species)
    (run : Species → Phase σ Unit) : List (Step σ) :=
  if enabled then l.map fun s => ⟨phase, run s⟩ else []

/-- Runs one step, and says whether to go on. -/
def perform (step : Step σ) : Phase σ Bool := do
  let outcome ← ExceptT.lift step.run.run
  match (← Phase.survey).absorb step.phase outcome with
  | .error why => throw why
  | .ok (goOn, v) =>
    Phase.change fun _ => v
    return goOn

/-- Runs steps in turn until one says not to go on. -/
def performAll : List (Step σ) → Phase σ Unit
  | [] => return
  | step :: rest => do
    if ← step.perform then performAll rest

end Step

/-! ## The plan -/

/-- The species in the order of discovery. User namespaces come first, since they own the
others. -/
def Species.discoveryOrder : List Species := [user, pid, mount, cgroup, uts, ipc, net, time]

/-- The species in scope, in the order of discovery. -/
def Options.ordered (o : Options) : List Species := Species.discoveryOrder.filter o.includes

/-- Links the namespaces of a species with their owners. -/
def Phase.linkOwners {σ : Type} (s : Species) : Phase σ Unit := Phase.change (·.withOwners s)

namespace Kernel

variable {σ φ : Type} (k : Kernel σ φ)

/-- The steps that the options ask for. -/
def plan (o : Options) : List (Step σ) :=
  Step.forEach o.processes "processes" o.ordered k.findJoined ++
    Step.when o.openFiles "fds" k.findHeld ++
    Step.when o.bindMounts "bind mounts" k.findMounted ++
    Step.forEach o.hierarchy "hierarchy" (o.ordered.filter (·.hasParents)) k.findAncestors ++
    Step.forEach o.ownership "ownership" o.ordered Phase.linkOwners ++
    Step.when o.mountTables "mounts" k.keepMountTables

/-! ## The whole -/

/-- The identities of our own namespaces of a list of species. -/
def ownNamespaces : List Species → StateM σ (BySpecies (Option Identity))
  | [] => return .same none
  | s :: rest => do
    let id ← (k.identityAt (Path.ofText "/proc/self/ns" |>.join s.name)).run
    let others ← ownNamespaces rest
    return others.set s id.toOption

/-- The survey at the start of a discovery. -/
def freshSurvey (o : Options) : StateM σ Survey := do
  let processes ← k.processTable o.procfs
  let own ← k.ownNamespaces o.inScope
  return { options := o, processes, own }

/-- Surveys the host. -/
def discover (o : Options) : Ask σ Survey := ExceptT.mk do
  let v ← k.freshSurvey o
  let start ← get
  let (outcome, r) := (Step.performAll (k.plan o)).run.run ⟨start, v⟩
  set r.kernel
  return outcome.map fun () => if o.pidMap then r.survey.withPidMap else r.survey

/-- Surveys the host and links the containers of an engine with their processes. The engine
is asked once, and only after a discovery that came through. -/
def discoverContainers (o : Options) (engine : FixedEngine) : Ask σ (Survey × FixedEngine) := do
  let v ← k.discover o
  let (containers, engine) := engine.ask
  return (v.linkContainers containers, engine)

end Kernel

end NamespaceAtlas
