-- One namespace. What all species have is in the record; what differs is in
-- its kind: most are plain, PID namespaces have relatives, and user
-- namespaces also own namespaces of the other species.
import NamespaceAtlas.ProcessTable

namespace NamespaceAtlas

/-- The parent and the children of a namespace. -/
structure Hierarchy where
  parent : Option Identity := none
  children : List Identity := []
  deriving DecidableEq, Repr

/-- What a user namespace owns. -/
structure Holdings where
  hierarchy : Hierarchy := {}
  /-- The user who created it. -/
  creator : Option UInt32 := none
  /-- The namespaces it owns, by species. -/
  owned : BySpecies (List Identity) := .same []
  deriving DecidableEq

/-- What depends on the species of a namespace. -/
inductive Kind where
  | plain
  | hierarchical (h : Hierarchy)
  | user (u : Holdings)
  deriving DecidableEq

namespace Kind

/-- The kind that a new namespace of a species has. -/
def ofSpecies : Species → Kind
  | .user => user {}
  | .pid => hierarchical {}
  | _ => plain

/-- The relatives, for kinds that have them. -/
def hierarchy? : Kind → Option Hierarchy
  | plain => none
  | hierarchical h => some h
  | user u => some u.hierarchy

/-- Changes the relatives. -/
def mapHierarchy (f : Hierarchy → Hierarchy) : Kind → Kind
  | plain => plain
  | hierarchical h => hierarchical (f h)
  | user u => user { u with hierarchy := f u.hierarchy }

/-- The holdings of a user namespace. -/
def holdings? : Kind → Option Holdings
  | user u => some u
  | _ => none

/-- Changes the holdings. -/
def mapHoldings (f : Holdings → Holdings) : Kind → Kind
  | user u => user (f u)
  | k => k

end Kind

/-- A namespace that was found. -/
structure Namespace where
  id : Identity
  species : Species
  /-- The paths that address it; none if it is hidden. -/
  reference : Reference
  /-- The topmost processes that have joined it. -/
  leaders : List Pid := []
  /-- The owner that the kernel reports. -/
  ownerId : Option Identity := none
  /-- The owner once it is known to be there. -/
  owner : Option Identity := none
  kind : Kind
  deriving DecidableEq

namespace Namespace

/-- A namespace nothing else is known of. -/
def new (s : Species) (id : Identity) (reference : Reference) : Namespace :=
  { id, species := s, reference, kind := .ofSpecies s }

/-- Whether no path addresses it. -/
def isHidden (n : Namespace) : Bool := n.reference.isEmpty

/-- The parent. -/
def parent? (n : Namespace) : Option Identity := n.kind.hierarchy?.bind (·.parent)

/-- The children. -/
def children (n : Namespace) : List Identity := (n.kind.hierarchy?.map (·.children)).getD []

/-- The owner that is known to be there. Of a user namespace it is the parent. -/
def owner? (n : Namespace) : Option Identity :=
  match n.kind with
  | .user u => u.hierarchy.parent
  | _ => n.owner

/-- The user who created a user namespace. -/
def creator? (n : Namespace) : Option UInt32 := n.kind.holdings?.bind (·.creator)

/-- The namespaces of a species that a user namespace owns. -/
def owned (n : Namespace) (s : Species) : List Identity :=
  (n.kind.holdings?.map (·.owned.get s)).getD []

/-- The first of two processes to have started; of two at once the former. -/
def earlier (p q : Process) : Process := if q.started < p.started then q else p

/-- The leader that started first. -/
def ealdorman? (n : Namespace) (t : ProcessTable) : Option Process :=
  match n.leaders.filterMap t.get? with
  | [] => none
  | p :: rest => some (rest.foldl earlier p)

/-! ## Changes -/

/-- Has it addressed by other paths. -/
def setReference (n : Namespace) (r : Reference) : Namespace := { n with reference := r }

/-- Sets the owner that the kernel reports. -/
def setOwnerId (n : Namespace) (id : Identity) : Namespace := { n with ownerId := some id }

/-- Sets the owner that is known to be there. -/
def setOwner (n : Namespace) (id : Identity) : Namespace := { n with owner := some id }

/-- Sets the creator of a user namespace, and leaves others alone. -/
def setCreator (n : Namespace) (uid : UInt32) : Namespace :=
  { n with kind := n.kind.mapHoldings fun u => { u with creator := some uid } }

/-- Adds a leader unless it is one. -/
def addLeader (n : Namespace) (pid : Pid) : Namespace :=
  if pid ∈ n.leaders then n else { n with leaders := n.leaders ++ [pid] }

/-- Forgets all leaders. -/
def clearLeaders (n : Namespace) : Namespace := { n with leaders := [] }

/-- Sets the parent, where there can be one. -/
def setParent (n : Namespace) (id : Identity) : Namespace :=
  { n with kind := n.kind.mapHierarchy fun h => { h with parent := some id } }

/-- Adds a child at the end unless it is one. -/
def addChild (n : Namespace) (id : Identity) : Namespace :=
  { n with kind := n.kind.mapHierarchy fun h =>
      if id ∈ h.children then h else { h with children := h.children ++ [id] } }

/-- Adds a namespace to those a user namespace owns, at the end, unless it is one. -/
def addOwned (n : Namespace) (s : Species) (id : Identity) : Namespace :=
  { n with kind := n.kind.mapHoldings fun u =>
      if id ∈ u.owned.get s then u
      else { u with owned := u.owned.set s (u.owned.get s ++ [id]) } }

end Namespace

end NamespaceAtlas
