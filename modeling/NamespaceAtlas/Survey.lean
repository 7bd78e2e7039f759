-- A survey: everything a discovery has found so far, with its account.
import NamespaceAtlas.Graph
import NamespaceAtlas.PidMap
import NamespaceAtlas.MountTable
import NamespaceAtlas.Container
import NamespaceAtlas.Options
import NamespaceAtlas.Diagnostics

namespace NamespaceAtlas

/-- What a discovery has found. -/
structure Survey where
  options : Options
  graph : Graph := .empty
  processes : ProcessTable := .empty
  /-- The namespaces of the caller. -/
  own : BySpecies (Option Identity) := .same none
  /-- Mount tables by mount namespace. -/
  mounts : Registry Identity (List Mount) := .empty
  containers : List Container := []
  pidMap : Option PidMap := none
  diagnostics : Diagnostics := {}

namespace Survey

/-- Changes the graph. -/
def mapGraph (s : Survey) (f : Graph → Graph) : Survey := { s with graph := f s.graph }

/-- Changes the account. -/
def mapDiagnostics (s : Survey) (f : Diagnostics → Diagnostics) : Survey :=
  { s with diagnostics := f s.diagnostics }

/-- Adds a note to the account. -/
def note (s : Survey) (text : String) : Survey := s.mapDiagnostics (·.note text)

/-- Records a namespace at its first sighting by a path, with the owner that the kernel
reports. One that is known stays as it is. -/
def sighted (s : Survey) (species : Species) (id : Identity) (reference : Reference)
    (owner : Option Identity) : Survey :=
  s.mapGraph fun g =>
    let g := g.insertNew species id reference
    match owner with
    | some owner => g.modify species id (·.setOwnerId owner)
    | none => g

/-! ## Owners -/

/-- Links the namespaces of a list with their owners, and counts those without. -/
def resolveOwners (g : Graph) (s : Species) : List Identity → Graph × Nat
  | [] => (g, 0)
  | id :: rest =>
    match g.resolveOwner? s id with
    | some g => resolveOwners g s rest
    | none => ((resolveOwners g s rest).1, (resolveOwners g s rest).2 + 1)

/-- Links every namespace of a species with its owner. User namespaces have none to be
linked with. -/
def withOwners (s : Survey) (species : Species) : Survey :=
  if species = .user then s
  else
    let (graph, unowned) := resolveOwners s.graph species (s.graph.ids species)
    { s with
      graph
      diagnostics := { s.diagnostics with unowned := s.diagnostics.unowned + unowned } }

/-! ## Process numbers -/

/-- The survey with the map of its process numbers. -/
def withPidMap (s : Survey) : Survey :=
  let map := PidMap.ofTable s.graph s.processes
  { s with
    pidMap := some map
    diagnostics := { s.diagnostics with pidMismatches := map.skipped } }

/-! ## Containers -/

/-- The process number of a container in the PID namespace of the caller. -/
def pidOf? (s : Survey) (c : Container) : Option Pid :=
  match c.pidSpace with
  | none => some c.pid
  | some source =>
    match s.own.pid with
    | none => none
    | some target =>
      if source = target then some c.pid
      else s.pidMap.bind fun map => map.numberIn? c.pid source target

/-- The process that a container is linked to, if it runs and the process is there. -/
def processOf? (s : Survey) (c : Container) : Option Pid :=
  if c.pid.toInt = 0 then none
  else (s.pidOf? c).filter s.processes.contains

/-- Links one container with its process, in both directions. -/
def linkContainer (s : Survey) (c : Container) : Survey × Container :=
  match s.processOf? c with
  | none => (s, c)
  | some pid =>
    ({ s with processes := s.processes.modify pid fun p => { p with container := some c.name } },
      { c with process := some pid })

/-- Links containers one after the other. -/
def linkAll (s : Survey) : List Container → Survey × List Container
  | [] => (s, [])
  | c :: rest =>
    let (s, c) := s.linkContainer c
    let (s, more) := linkAll s rest
    (s, c :: more)

/-- The survey with these containers, each linked with its process where it is there. -/
def linkContainers (s : Survey) (containers : List Container) : Survey :=
  let (s, containers) := s.linkAll containers
  { s with containers }

end Survey

end NamespaceAtlas
