-- The processes of a host, and the namespaces that they have joined. A process
-- whose namespaces cannot be read is taken out of the survey.
import NamespaceAtlas.Discovery.Phase
import NamespaceAtlas.Procfs
import NamespaceAtlas.Leadership

namespace NamespaceAtlas

/-! ## The process table -/

/-- The number that a directory of procfs is named with. -/
def Name.pid? (n : Name) : Option Pid := do
  let text ← Bytes.text? n
  (Pid.read text.toList).toOption

namespace Kernel

variable {σ φ : Type} (k : Kernel σ φ)

/-- The bytes of a file, if it can be read. -/
def contents? (p : Path) : StateM σ (Option Bytes) := do return (← k.contents p).toOption

/-- A process as procfs describes it, if it is still there. Without its arguments or its
status it is described by the rest. -/
def process? (procfs : Path) (pid : Pid) : StateM σ (Option Process) := do
  let dir := procfs.ofProcess pid
  let some stat ← k.contents? (dir.join "stat") | return none
  let .ok p := Procfs.ofStat stat.lossy | return none
  let arguments ← k.contents? (dir.join "cmdline")
  let status ← k.contents? (dir.join "status")
  return some { p with
    arguments := (arguments.map Procfs.argumentsOf).getD []
    innerPids := (status.map fun s => Procfs.innerPidsOf s.lossy).getD [] }

/-- The processes of a list of numbers that are still there. -/
def processesOf (procfs : Path) : List Pid → StateM σ (List Process)
  | [] => return []
  | pid :: rest => do
    let p ← k.process? procfs pid
    let more ← processesOf procfs rest
    return p.toList ++ more

/-- The process table that a procfs shows. -/
def processTable (procfs : Path) : StateM σ ProcessTable := do
  match ← k.listing procfs with
  | .error _ => return .empty
  | .ok names => return .ofList (← k.processesOf procfs (names.filterMap Name.pid?))

end Kernel

/-! ## What a scan leaves in the survey -/

namespace Survey

/-- Records a namespace that a process has joined. -/
def joinedBy (v : Survey) (pid : Pid) (s : Species) (id : Identity) : Survey :=
  { v with processes := v.processes.modify pid fun p =>
      { p with joined := p.joined.set s (some id) } }

/-- Takes one process out, and counts it. -/
def withoutProcess (v : Survey) (pid : Pid) : Survey :=
  if v.processes.contains pid then
    { v with
      processes := v.processes.erase pid
      diagnostics := { v.diagnostics with skippedProcesses := v.diagnostics.skippedProcesses + 1 } }
  else v

/-- Elects the leaders of a species anew, and has its namespaces addressed through them. -/
def withLeaders (v : Survey) (s : Species) : Survey :=
  v.mapGraph fun g =>
    (g.electLeaders v.processes s).addressByEaldormen v.processes v.options.procfs s

/-- The other species that have namespaces already. -/
def otherSpecies (v : Survey) (s : Species) : List Species :=
  Species.all.filter fun t => t ≠ s && !(v.graph.ofSpecies t).isEmpty

/-- Settles the leaders after the scan for one species. Processes that could not be read are
taken out first, and the leaders of the other species are then elected anew. Kernels without
time namespaces have no files for them, so no process is taken out for these. -/
def settled (v : Survey) (s : Species) (unreadable : List Pid) : Survey :=
  if s = .time || !unreadable.any v.processes.contains then v.withLeaders s
  else
    let v := unreadable.foldl withoutProcess v
    (s :: v.otherSpecies s).foldl withLeaders v

end Survey

/-! ## The scan -/

namespace Kernel

variable {σ φ : Type} (k : Kernel σ φ)

/-- Reads which namespace of a species a process has joined, and says whether it could be
read. -/
def readJoined (s : Species) (pid : Pid) : Phase σ Bool := do
  let v ← Phase.survey
  match ← Phase.attempt (k.openedNamespace (v.options.procfs.ofNamespace pid s)) with
  | .error _ => return false
  | .ok (id, f) =>
    match (v.graph.get? s id).bind (·.ownerId) with
    | some _ => Phase.change (·.sighted s id .empty none)
    | none => k.sight s id f .empty
    Phase.change (·.joinedBy pid s id)
    return true

/-- Reads which namespaces of a species the processes of a list have joined, and gives those
that could not be read. -/
def readAllJoined (s : Species) : List Pid → Phase σ (List Pid)
  | [] => return []
  | pid :: rest => do
    k.checkTime "processes"
    let readable ← k.readJoined s pid
    let unreadable ← readAllJoined s rest
    return if readable then unreadable else pid :: unreadable

/-- Finds the namespaces of a species that processes have joined. -/
def findJoined (s : Species) : Phase σ Unit := do
  let v ← Phase.survey
  let unreadable ← k.readAllJoined s v.processes.pids
  Phase.change (·.settled s unreadable)

end Kernel

end NamespaceAtlas
