-- Namespaces that are mounted. The mount table of every mount namespace within
-- reach is read once, our own first; a mounted mount namespace leads on.
import NamespaceAtlas.Discovery.Phase
import NamespaceAtlas.Gateway

namespace NamespaceAtlas

namespace Survey

/-- Counts a mounted namespace that is gone. -/
def skipBindMount (v : Survey) : Survey :=
  v.mapDiagnostics fun d => { d with skippedBindMounts := d.skippedBindMounts + 1 }

/-- Lists a mount namespace that could not be entered. -/
def unreached (v : Survey) (id : Identity) : Survey :=
  v.mapDiagnostics fun d => { d with unreachable := d.unreachable ++ [id] }

/-- Counts the sandboxes that a gateway has taken. -/
def countSandboxes (v : Survey) (g : Gateway) : Survey :=
  v.mapDiagnostics fun d => { d with sandboxes := d.sandboxes + g.spawned }

end Survey

namespace Kernel

variable {σ φ : Type} (k : Kernel σ φ)

/-! ## One mount table -/

/-- The namespace at a mount point behind a gateway. -/
def openedMountPoint (g : Gateway) (m : Mount) : Ask σ (Identity × φ) := do
  k.openedNamespace (← k.resolveThrough g m.point)

/-- Records the namespace of a species at a mount point, unless it is known. It must have the
inode that the mount table names. A new mount namespace is given back. -/
def findMountedAt (g : Gateway) (m : Mount) (s : Species) (inode : UInt64) :
    Phase σ (Option Identity) := do
  match ← Phase.attempt (k.openedMountPoint g m) with
  | .error _ =>
    Phase.change (·.skipBindMount)
    return none
  | .ok (id, f) =>
    if !id.hasInode inode then
      Phase.change (·.skipBindMount)
      return none
    else if (← Phase.survey).graph.contains s id then return none
    else
      k.sight s id f (g.reference.join m.point)
      return if s = .mount then some id else none

/-- Looks at one entry of a mount table. Entries that are no namespaces in scope are passed
over. -/
def lookAtMount (g : Gateway) (m : Mount) : Phase σ (Option Identity) := do
  k.checkTime "bind mounts"
  match Species.parseText? m.root with
  | none => return none
  | some (s, inode) =>
    if (← Phase.survey).options.includes s then k.findMountedAt g m s inode
    else return none

/-- Looks at the entries of a mount table, and gives the new mount namespaces back. -/
def lookAtMounts (g : Gateway) : List Mount → Phase σ (List Identity)
  | [] => return []
  | m :: rest => do
    let found ← k.lookAtMount g m
    let more ← lookAtMounts g rest
    return found.toList ++ more

/-- Finds the namespaces that are mounted in the mount namespace behind a gateway. -/
def findMountedIn (g : Gateway) : Phase σ (List Identity) := do
  match ← Phase.sure (k.contents g.tablePath) with
  | .error why =>
    Phase.change (·.note ("no mount table for " ++ g.reference.text ++ ": " ++ why.message))
    return []
  | .ok table => k.lookAtMounts g ((Mount.ofTable table).filter Mount.isNamespace)

/-! ## All mount tables -/

/-- Runs a phase with a gateway and closes the gateway after it, whatever comes out. -/
def throughGateway {α : Type} (g : Gateway) (m : Phase σ α) : Phase σ α := do
  let answer ← ExceptT.lift m.run
  Phase.sure (k.close g)
  ExceptT.mk (pure answer)

/-- Enters a known mount namespace and finds what is mounted there. -/
def visit (id : Identity) : Phase σ (List Identity) := do
  let v ← Phase.survey
  match v.graph.get? .mount id with
  | none => return []
  | some n =>
    match ← Phase.attempt (k.gatewayOf n v.processes v.options.attachLimit) with
    | .error _ =>
      Phase.change (·.unreached id)
      return []
    | .ok g =>
      Phase.change (·.countSandboxes g)
      k.throughGateway g (k.findMountedIn g)

/-- Visits the mount namespaces of a backlog, each once, for so many steps at most. Those
that a visit finds go to the end of the backlog. -/
def visitAll : Nat → (visited backlog : List Identity) → Phase σ Unit
  | _, _, [] => return
  | 0, _, _ => return
  | steps + 1, visited, id :: backlog => do
    k.checkTime "bind mounts"
    if id ∈ visited then visitAll steps visited backlog
    else
      let found ← k.visit id
      visitAll steps (id :: visited) (backlog ++ found)

/-- The reference of our own mount namespace: none where it is the initial one. -/
def ownReference (own : Identity) : StateM σ Reference := do
  let initial ← (k.identityAt "/proc/1/ns/mnt").run
  return if initial.toOption = some own then .empty
    else .single (Path.proc.ofNamespace k.caller .mount)

/-- Finds the namespaces that are mounted in any mount namespace within reach. -/
def findMounted : Phase σ Unit := do
  match ← Phase.attempt (k.identityAt "/proc/self/ns/mnt") with
  | .error why => Phase.change (·.note ("bind mounts not scanned: " ++ why.message))
  | .ok own =>
    let reference ← Phase.sure (k.ownReference own)
    let known := (← Phase.survey).graph.ids .mount
    let found ← k.findMountedIn (.own reference)
    let backlog := known.filter (· ≠ own) ++ found
    k.visitAll (backlog.length + Identity.count) [own] backlog

/-! ## Mount tables to keep -/

/-- The mount tables of a list of mount namespaces, added to those read before. -/
def readTables : List Identity → Registry Identity (List Mount) →
    Phase σ (Registry Identity (List Mount))
  | [], tables => return tables
  | id :: rest, tables => do
    k.checkTime "mounts"
    let v ← Phase.survey
    match v.graph.get? .mount id with
    | none => readTables rest tables
    | some n =>
      match ← Phase.attempt (k.gatewayOf n v.processes v.options.attachLimit) with
      | .error _ =>
        Phase.change fun v => if id ∈ v.diagnostics.unreachable then v else v.unreached id
        readTables rest tables
      | .ok g =>
        Phase.change (·.countSandboxes g)
        let table ← Phase.sure (k.contents g.tablePath)
        Phase.sure (k.close g)
        match table with
        | .ok table => readTables rest (tables.insert id (Mount.ofTable table))
        | .error why =>
          Phase.change (·.note
            ("no mount table for mnt namespace " ++ id.text ++ ": " ++ why.message))
          readTables rest tables

/-- Reads the mount table of every mount namespace that is known. The tables are kept once
all are read. -/
def keepMountTables : Phase σ Unit := do
  let v ← Phase.survey
  let tables ← k.readTables (v.graph.ids .mount) .empty
  Phase.change fun v => { v with mounts := tables }

end Kernel

end NamespaceAtlas
