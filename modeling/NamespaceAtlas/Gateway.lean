-- Gateways into other mount namespaces. A gateway is a root under which the
-- files of a mount namespace can be seen, and a sandbox where one is needed
-- to keep that root there.
import NamespaceAtlas.Gateway.Confined
import NamespaceAtlas.Namespace

namespace NamespaceAtlas

/-! ## References that may be followed -/

/-- The first thing wrong with the paths of a reference after the first. -/
def Reference.innerFault? : List Path → Option ReferenceFault
  | [] => none
  | p :: rest =>
    if !p.isAbsolute then some (.relative p)
    else if p.startsWith Path.proc then some (.innerProcfs p)
    else innerFault? rest

/-- The first thing wrong with a reference, before any file is looked at. -/
def Reference.fault? (r : Reference) : Option ReferenceFault :=
  match r.paths with
  | [] => some .noPath
  | p :: rest => if !p.isAbsolute then some (.relative p) else innerFault? rest

/-- The error for a reference. -/
def Reference.invalid (r : Reference) (why : ReferenceFault) : Error := .badReference r.text why

/-- Refuses a reference with something wrong. -/
def Reference.validate (r : Reference) : Except Error Unit :=
  match r.fault? with
  | some why => .error (r.invalid why)
  | none => .ok ()

/-! ## Gateways -/

/-- A root that shows a mount namespace, and what keeps it there. -/
structure Gateway where
  /-- The reference of the mount namespace. -/
  reference : Reference
  /-- The path that shows it; empty for our own. -/
  root : Path := .empty
  /-- The process whose entry in procfs shows it; none for our own. -/
  pid : Option Pid := none
  /-- The sandbox that is attached to it. -/
  sandbox : Option Pid := none
  /-- How many sandboxes were spawned on the way. -/
  spawned : Nat := 0
  deriving DecidableEq

namespace Gateway

/-- The gateway into our own mount namespace. -/
def own (reference : Reference) : Gateway := { reference }

/-- The root of a process. -/
def rootOf (pid : Pid) : Path := (Path.proc.ofProcess pid).join "root"

/-- The mount table of the mount namespace. -/
def tablePath (g : Gateway) : Path :=
  match g.pid with
  | none => "/proc/self/mountinfo"
  | some pid => (Path.proc.ofProcess pid).join "mountinfo"

end Gateway

namespace Kernel

variable {σ φ : Type} (k : Kernel σ φ)

/-! ## One hop -/

/-- The root under which the first path of a reference lies: that of the first process if
it may be looked at, else our own. -/
def initialRoot : Ask σ Path := do
  let root : Path := "/proc/1/root"
  match ← Ask.sure (k.linkTarget root) with
  | .ok _ => return root
  | .error _ => return .empty

/-- The path of the first path of a reference, for us. A path of procfs stays as it is. -/
def initialPath (p : Path) : Ask σ Path := do
  if p.startsWith Path.proc then return p
  else k.resolveIn (← k.initialRoot) p

/-- Opens a file that must be a mount namespace. -/
def openedMount (reference : Reference) (p : Path) : Ask σ φ := do
  let f ← k.opened p
  match ← Ask.sure (k.speciesOf f).run with
  | .ok .mount => return f
  | .ok other => throw (reference.invalid (.otherSpecies p other))
  | .error _ => throw (reference.invalid (.noNamespace p))

/-- The owner of a mount namespace, if it is known and not our own user namespace. -/
def userToEnter (mount : φ) : StateM σ (Option φ) := do
  let .ok owner ← k.owner mount | return none
  let .ok ownerId ← k.identify owner | return none
  let .ok ownId ← k.identifyAt "/proc/self/ns/user" | return none
  return if ownerId = ownId then none else some owner

/-- A path as an absolute one. A relative one is taken from the directory where we work. -/
def absolute (p : Path) : Ask σ Path := do
  if p.isAbsolute then return p
  else return (← Ask.file k.directory).join p

/-- The path that a path inside a gateway has for us. -/
def resolveThrough (g : Gateway) (p : Path) : Ask σ Path := do
  k.resolveIn g.root (← k.absolute p)

/-- Ends the sandbox of a gateway. -/
def close (g : Gateway) : StateM σ Unit :=
  match g.sandbox with
  | none => return
  | some pid => k.release pid

/-- Enters the mount namespace that a file stands for through a new sandbox, which takes the
place of the one before. -/
def enterFile (g : Gateway) (mount : φ) (limit : Span) : Ask σ Gateway := do
  let user ← Ask.sure (k.userToEnter mount)
  let pid ← k.sandboxed mount user limit
  Ask.sure (k.close g)
  return { g with
    root := Gateway.rootOf pid
    pid := some pid
    sandbox := some pid
    spawned := g.spawned + 1 }

/-- The process through whose root a first path is reached: that of `/proc/<pid>/ns/mnt`. -/
def processOfFirst? (p : Path) : Option Pid :=
  match p.process? with
  | some (who, rest) =>
    if rest.alike "ns/mnt" then
      match who with
      | .caller => some k.caller
      | .process pid => some pid
    else none
  | none => none

/-- Enters the mount namespace of the first path of a reference. -/
def enterFirst (g : Gateway) (limit : Span) (p : Path) : Ask σ Gateway := do
  match k.processOfFirst? p with
  | some pid =>
    let _ ← k.openedMount g.reference p
    return { g with root := Gateway.rootOf pid, pid := some pid }
  | none =>
    let mount ← k.openedMount g.reference (← k.initialPath p)
    k.enterFile g mount limit

/-- Enters the mount namespace of a later path of a reference. -/
def enterNext (g : Gateway) (limit : Span) (p : Path) : Ask σ Gateway := do
  let mount ← k.openedMount g.reference (← k.resolveThrough g p)
  k.enterFile g mount limit

/-! ## Whole references -/

/-- Goes on through the later paths of a reference. An error on the way ends the sandbox
attached so far. -/
def enterRest (g : Gateway) (limit : Span) : List Path → Ask σ Gateway
  | [] => return g
  | p :: rest => do
    match ← Ask.sure (k.enterNext g limit p).run with
    | .ok g => enterRest g limit rest
    | .error why =>
      Ask.sure (k.close g)
      throw why

/-- The gateway into the mount namespace that a reference addresses. -/
def gateway (reference : Reference) (limit : Span) : Ask σ Gateway := do
  match reference.fault?, reference.paths with
  | some why, _ => throw (reference.invalid why)
  | none, [] => return .own reference
  | none, p :: rest =>
    let g ← k.enterFirst (.own reference) limit p
    k.enterRest g limit rest

/-- The gateway into a mount namespace that was found. The root of its ealdorman serves
where there is one. -/
def gatewayOf (n : Namespace) (t : ProcessTable) (limit : Span) : Ask σ Gateway := do
  if n.species ≠ .mount then
    throw (n.reference.invalid (.noMountNamespace n.id n.species))
  match n.ealdorman? t with
  | some p =>
    return { reference := n.reference, root := Gateway.rootOf p.pid, pid := some p.pid }
  | none => k.gateway n.reference limit

/-! ## Files behind a gateway -/

/-- Opens a file inside a mount namespace. -/
def openThrough (g : Gateway) (p : Path) : Ask σ φ := do
  k.opened (← k.resolveThrough g p)

/-- The text of a file inside a mount namespace. -/
def textThrough (g : Gateway) (p : Path) : Ask σ String := do
  k.textOf (← k.resolveThrough g p)

/-- Runs a question with a gateway and closes the gateway after it, whatever comes out. -/
def through {α : Type} (g : Gateway) (m : Ask σ α) : Ask σ α := do
  let answer ← Ask.sure m.run
  Ask.sure (k.close g)
  ExceptT.mk (pure answer)

/-- Opens the file that a reference addresses. All paths but the last are mount namespaces
to go through. -/
def openedReference (reference : Reference) (limit : Span) : Ask σ φ := do
  match reference.fault?, reference.paths with
  | some why, _ => throw (reference.invalid why)
  | none, [] => throw (reference.invalid .noPath)
  | none, [p] => k.opened (← k.initialPath p)
  | none, p :: q :: rest =>
    let last := (q :: rest).getLast (by simp)
    let g ← k.gateway ⟨p :: (q :: rest).dropLast⟩ limit
    k.through g (k.openThrough g last)

end Kernel

end NamespaceAtlas
