-- The way up the hierarchies of PID and user namespaces. Parents that no
-- process, file or mount shows are found on it, and are hidden.
import NamespaceAtlas.Discovery.Phase
import NamespaceAtlas.Gateway

namespace NamespaceAtlas

namespace Survey

/-- Records a parent that was met on the way up. One that was not known is hidden. -/
def metParent (v : Survey) (s : Species) (parent : Identity) : Survey :=
  if v.graph.contains s parent then v
  else
    { v with
      graph := v.graph.insertNew s parent .empty
      diagnostics := { v.diagnostics with hidden := v.diagnostics.hidden + 1 } }

/-- Records the user who created a user namespace. -/
def createdBy (v : Survey) (id : Identity) (creator : UInt32) : Survey :=
  v.mapGraph (·.modify .user id (·.setCreator creator))

end Survey

/-- Links a namespace with its parent. -/
def Phase.linkParent {σ : Type} (s : Species) (parent child : Identity) : Phase σ Unit := do
  match (← Phase.survey).graph.addChild s parent child with
  | .ok graph => Phase.change fun v => { v with graph }
  | .error why => throw why

namespace Kernel

variable {σ φ : Type} (k : Kernel σ φ)

/-- Asks who created a namespace, if it is a user namespace. -/
def findCreator (s : Species) (id : Identity) (f : φ) : Phase σ Unit := do
  if s = .user then
    match ← Phase.sure (k.creator f) with
    | .ok creator => Phase.change (·.createdBy id creator)
    | .error _ => return

/-- Goes up from a namespace for so many steps at most. The way ends where the kernel reports
no parent, and at a namespace whose parent is known: from there on it was gone before. -/
def climb (s : Species) : Nat → Identity → φ → Phase σ Unit
  | 0, _, _ => return
  | steps + 1, child, f => do
    k.findCreator s child f
    match ← Phase.sure (k.parent f) with
    | .error _ => return
    | .ok above =>
      match ← Phase.sure (k.identify above) with
      | .error why => throw (.contract (.namelessParent s child why))
      | .ok parent =>
        Phase.change (·.metParent s parent)
        let above? := (← Phase.survey).graph.parent? s parent
        Phase.linkParent s parent child
        if above?.isNone then climb s steps parent above

/-- Goes up from one namespace, if its parent is not known and it can be opened. -/
def climbFrom (s : Species) (id : Identity) : Phase σ Unit := do
  k.checkTime "hierarchy"
  let v ← Phase.survey
  match v.graph.get? s id with
  | none => return
  | some n =>
    if n.parent?.isSome || n.isHidden then return
    else
      match ← Phase.attempt (k.openedReference n.reference v.options.attachLimit) with
      | .error _ => return
      | .ok f => k.climb s (Identity.count + 1) id f

/-- Goes up from every namespace of a species that is known. -/
def findAncestors (s : Species) : Phase σ Unit := do
  let v ← Phase.survey
  (v.graph.ids s).forM (k.climbFrom s)

end Kernel

end NamespaceAtlas
